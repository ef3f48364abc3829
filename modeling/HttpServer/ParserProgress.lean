/-
The parse loop makes progress.  A turn that goes on takes bytes off the buffer,
because the states that ask for a number of bytes are entered with a positive
number only; so `parse` ends after as many turns as there are bytes, and the
loop around it after as many calls.
-/
import HttpServer.ParserBounds
import HttpServer.ClientTasks

namespace HttpServer

open ByteText

/-- What the framer returns to a turn that calls it. -/
def frame? (p : Progress) (readBuffer : Bytes) : Option (FrameStatus × Bytes × Bytes) :=
  match p.parser.mState with
  | .complete | .error => none
  | .body => some (extractBytes readBuffer (bytesNeeded p.request) p.request.body)
  | .chunkData => some (extractBytes readBuffer p.parser.mChunkRemaining [])
  | _ => some (extractLine readBuffer)

/-- The loop of `parse`, given up after this many turns. -/
def parseWithin : Nat → Progress → Bytes → Option (ParseResult × Progress × Bytes)
  | 0, _, _ => none
  | turns + 1, p, readBuffer =>
      match turn p readBuffer with
      | .ret result p' rest => some (result, p', rest)
      | .next p' rest => parseWithin turns p' rest

/-- What a parser can be between a reset and the next result that is not `Incomplete`. -/
inductive AfterReset : Progress → Prop
  | reset (p : Progress) : AfterReset p.reset
  | resume {p p' : Progress} {readBuffer rest : Bytes} (hp : AfterReset p)
      (hparse : parse p readBuffer = (.incomplete, p', rest)) : AfterReset p'

section Frames

variable {p p' : Progress} {readBuffer rest : Bytes}

theorem extractLine_kept (hstatus : (extractLine readBuffer).1 ≠ .success) :
    (extractLine readBuffer).2.2 = readBuffer := by
  rw [extractLine] at hstatus ⊢
  split
  · rfl
  · next hsome =>
      rw [if_neg hsome] at hstatus
      split at hstatus
      · rfl
      · contradiction
      · split <;> rfl

theorem extractBytes_kept {required : Nat} {out : Bytes}
    (hstatus : (extractBytes readBuffer required out).1 ≠ .success) :
    (extractBytes readBuffer required out).2.2 = readBuffer := by
  rw [extractBytes] at hstatus ⊢
  split
  · rfl
  · next hlimit =>
      rw [if_neg hlimit] at hstatus
      split
      · rfl
      · next hlong =>
          rw [if_neg hlong] at hstatus
          contradiction

theorem takeLine_kept (action : Progress → Bytes → Bool × Progress)
    (hstatus : (extractLine readBuffer).1 ≠ .success) :
    (takeLine p readBuffer action).rest = readBuffer := by
  have hkept := extractLine_kept hstatus
  rcases hextract : extractLine readBuffer with ⟨status, line, left⟩
  rw [hextract] at hstatus hkept
  rw [takeLine, hextract]
  cases status with
  | success => contradiction
  | incomplete => rfl
  | headerTooLarge => exact hkept
  | payloadTooLarge => exact hkept

theorem takeBytes_kept {required : Nat} {out : Bytes} (action : Bytes → Progress)
    (hstatus : (extractBytes readBuffer required out).1 ≠ .success) :
    (takeBytes p readBuffer required out action).rest = readBuffer := by
  have hkept := extractBytes_kept hstatus
  rcases hextract : extractBytes readBuffer required out with ⟨status, bytes, left⟩
  rw [hextract] at hstatus hkept
  rw [takeBytes, hextract]
  cases status with
  | success => contradiction
  | incomplete => rfl
  | headerTooLarge => exact hkept
  | payloadTooLarge => exact hkept

/-- A frame that is incomplete or too large stays in the buffer. -/
theorem frame_kept {status : FrameStatus} {out : Bytes}
    (hframe : frame? p readBuffer = some (status, out, rest)) (hstatus : status ≠ .success) :
    rest = readBuffer ∧ (turn p readBuffer).rest = readBuffer := by
  have hline : some (extractLine readBuffer) = some (status, out, rest) →
      rest = readBuffer ∧ ∀ action, (takeLine p readBuffer action).rest = readBuffer := by
    intro hextract
    have heq := Option.some.inj hextract
    have hother : (extractLine readBuffer).1 ≠ .success := by rwa [heq]
    have hkept := extractLine_kept hother
    rw [heq] at hkept
    exact ⟨hkept, fun action => takeLine_kept action hother⟩
  have hbytes : ∀ {required : Nat} {given : Bytes},
      some (extractBytes readBuffer required given) = some (status, out, rest) →
        rest = readBuffer ∧
          ∀ action, (takeBytes p readBuffer required given action).rest = readBuffer := by
    intro required given hextract
    have heq := Option.some.inj hextract
    have hother : (extractBytes readBuffer required given).1 ≠ .success := by rwa [heq]
    have hkept := extractBytes_kept hother
    rw [heq] at hkept
    exact ⟨hkept, fun action => takeBytes_kept action hother⟩
  cases haction : lineAction? p.parser.mState with
  | some action =>
      rw [turn_of_lineAction haction]
      cases hstate : p.parser.mState <;> rw [hstate] at haction <;>
        simp only [lineAction?, reduceCtorEq] at haction <;>
        simp only [frame?, hstate] at hframe
      all_goals exact ⟨(hline hframe).1, (hline hframe).2 action⟩
  | none =>
      cases hstate : p.parser.mState <;> rw [hstate] at haction <;>
        simp only [lineAction?, reduceCtorEq] at haction <;>
        simp only [frame?, hstate, reduceCtorEq] at hframe
      · rw [turn_body hstate]
        exact ⟨(hbytes hframe).1, (hbytes hframe).2 _⟩
      · rw [turn_chunkData hstate]
        exact ⟨(hbytes hframe).1, (hbytes hframe).2 _⟩

end Frames

section Turns

variable {p p' : Progress} {readBuffer rest : Bytes}

/-- A turn that goes on leaves a shorter buffer. -/
theorem turn_next_length (hp : WithinBounds p) (hturn : turn p readBuffer = .next p' rest) :
    rest.length < readBuffer.length := by
  cases haction : lineAction? p.parser.mState with
  | some action =>
      rw [turn_of_lineAction haction] at hturn
      obtain ⟨line, hextract, _⟩ := takeLine_next hturn
      have hlength := length_extractLine hextract
      omega
  | none =>
      cases hstate : p.parser.mState <;> rw [hstate] at haction <;>
        simp only [lineAction?, reduceCtorEq] at haction <;>
        simp only [turn, hstate, reduceCtorEq] at hturn
      · obtain ⟨body, hextract, _⟩ := takeBytes_next hturn
        have hlength := length_extractBytes hextract
        have hpositive := hp.lengthPositive hstate
        rw [bytesNeeded_eq hp hstate] at hlength
        omega
      · obtain ⟨chunk, hextract, _⟩ := takeBytes_next hturn
        have hlength := length_extractBytes hextract
        have hpositive := hp.chunkPositive hstate
        omega

theorem turn_consumes (hp : WithinBounds p) (hturn : turn p readBuffer = .next p' rest) :
    ∃ taken, taken ≠ [] ∧ readBuffer = taken ++ rest := by
  have hsuffix := turn_suffix p readBuffer
  rw [hturn] at hsuffix
  obtain ⟨taken, htaken⟩ := hsuffix
  refine ⟨taken, ?_, htaken.symm⟩
  rintro rfl
  have hlength := turn_next_length hp hturn
  rw [← htaken] at hlength
  exact absurd hlength (Nat.lt_irrefl _)

theorem withinBounds_next (hp : WithinBounds p) (hturn : turn p readBuffer = .next p' rest) :
    WithinBounds p' := by
  have hbounds := withinBounds_turn hp readBuffer
  rwa [hturn] at hbounds

/-- `parse` takes at most as many turns as there are bytes, and one to return. -/
theorem parseWithin_eq (turns : Nat) :
    ∀ {p : Progress} {readBuffer : Bytes}, WithinBounds p → readBuffer.length < turns →
      parseWithin turns p readBuffer = some (parse p readBuffer) := by
  induction turns with
  | zero => exact fun _ hturns => absurd hturns (Nat.not_lt_zero _)
  | succ turns ih =>
      intro p readBuffer hp hturns
      rw [parseWithin]
      cases hturn : turn p readBuffer with
      | ret result p' rest => rw [parse_of_ret hturn]
      | next p' rest =>
          rw [parse_of_next hturn]
          apply ih (withinBounds_next hp hturn)
          have hlength := turn_next_length hp hturn
          omega

theorem withinBounds_parse (hp : WithinBounds p) (readBuffer : Bytes) :
    WithinBounds (parse p readBuffer).2.1 := by
  induction p, readBuffer using parse.induct with
  | case1 p readBuffer result p' rest hturn =>
      have hbounds := withinBounds_turn hp readBuffer
      rw [hturn] at hbounds
      rwa [parse_of_ret hturn]
  | case2 p readBuffer p' rest hturn ih =>
      rw [parse_of_next hturn]
      exact ih (withinBounds_next hp hturn)

/-- A parser that waits has not completed its request. -/
theorem parse_incomplete_state (hparse : parse p readBuffer = (.incomplete, p', rest)) :
    p'.parser.mState ≠ .complete := by
  induction p, readBuffer using parse.induct with
  | case1 p readBuffer result last left hturn =>
      rw [parse_of_ret hturn] at hparse
      simp only [Prod.mk.injEq] at hparse
      obtain ⟨rfl, rfl, rfl⟩ := hparse
      obtain ⟨rfl, _⟩ := turn_incomplete hturn
      intro hcomplete
      simp [turn, hcomplete] at hturn
  | case2 p readBuffer next left hturn ih =>
      rw [parse_of_next hturn] at hparse
      exact ih hparse

theorem parse_success_consumes (hp : WithinBounds p) (hpending : p.parser.mState ≠ .complete)
    (hparse : parse p readBuffer = (.success, p', rest)) : rest.length < readBuffer.length := by
  cases hturn : turn p readBuffer with
  | ret result last left =>
      rw [parse_of_ret hturn] at hparse
      simp only [Prod.mk.injEq] at hparse
      obtain ⟨rfl, _, _⟩ := hparse
      exact absurd (turn_success hturn) hpending
  | next next left =>
      have hfirst := turn_next_length hp hturn
      rw [parse_of_next hturn] at hparse
      have hlater := (parse_suffix next left).length_le
      rw [hparse] at hlater
      exact hlater.trans_lt hfirst

theorem AfterReset.pending (hp : AfterReset p) :
    WithinBounds p ∧ p.parser.mState ≠ .complete := by
  induction hp with
  | reset p => exact ⟨withinBounds_reset p, by simp⟩
  | @resume p p' readBuffer rest _ hparse ih =>
      have hbounds := withinBounds_parse ih.1 readBuffer
      rw [hparse] at hbounds
      exact ⟨hbounds, parse_incomplete_state hparse⟩

end Turns

section Loop

variable {router : HttpRouter} {order : HeaderOrder}

/-- A parse loop that runs into its cutoff has taken a request first, and meets the
cutoff behind it. -/
theorem parseLoop_of_capped {now remaining : Nat} {allow : Nat → Bool} {conn : Connection}
    (hcapped : (parseLoop router order now allow (remaining + 1) conn).ending = .capped) :
    ∃ p rest, parse conn.progress conn.readBuffer = (.success, p, rest) ∧
      ∃ next : Connection, next.progress = p.reset ∧ next.readBuffer = rest ∧
        (parseLoop router order now allow remaining next).ending = .capped ∧
        (parseLoop router order now allow (remaining + 1) conn).conn =
          (parseLoop router order now allow remaining next).conn := by
  rw [parseLoop] at hcapped ⊢
  split at hcapped
  · contradiction
  · next hne =>
      rw [if_neg hne]
      rcases hparse : parse conn.progress conn.readBuffer with ⟨result, p, rest⟩
      rw [hparse] at hcapped
      cases result with
      | incomplete => contradiction
      | error => contradiction
      | success =>
          refine ⟨p, rest, rfl, ?_⟩
          dsimp only at hcapped ⊢
          split at hcapped
          · contradiction
          · next hallow =>
              rw [if_neg hallow]
              split at hcapped
              · contradiction
              · split at hcapped
                · contradiction
                · next hkeep =>
                    rw [if_neg hkeep]
                    exact ⟨_, rfl, rfl, hcapped, rfl⟩

/-- A parse loop that is stopped early has taken a request in every iteration; only the
first of them may have been parsed up to its last byte before. -/
theorem parseLoop_capped_length (now : Nat) (allow : Nat → Bool) (remaining : Nat) :
    ∀ conn : Connection, (parseLoop router order now allow remaining conn).ending = .capped →
      (parseLoop router order now allow remaining conn).conn.readBuffer.length + remaining ≤
        conn.readBuffer.length +
          if conn.progress.parser.mState = .requestLine then 0 else 1 := by
  induction remaining with
  | zero => exact fun conn _ => Nat.le_add_right _ _
  | succ remaining ih =>
      intro conn hcapped
      obtain ⟨p, rest, hparse, next, hprogress, hbuffer, hlater, hconn⟩ :=
        parseLoop_of_capped hcapped
      have hrest : rest.length + 1 ≤ conn.readBuffer.length +
          if conn.progress.parser.mState = .requestLine then 0 else 1 := by
        have hsuffix := (parse_suffix conn.progress conn.readBuffer).length_le
        rw [hparse] at hsuffix
        split
        · next hstate => exact parse_success_length hstate hparse
        · exact Nat.succ_le_succ hsuffix
      have hnext := ih next hlater
      rw [hprogress, Progress.reset_mState, if_pos rfl, hbuffer] at hnext
      rw [hconn]
      omega

/-- Without its cutoff the loop would be left after as many iterations as there are
bytes, and one. -/
theorem parseLoop_ends (now : Nat) (allow : Nat → Bool) {remaining : Nat} (conn : Connection)
    (hremaining : conn.readBuffer.length + 1 < remaining) :
    (parseLoop router order now allow remaining conn).ending ≠ .capped := by
  intro hcapped
  have hlength := parseLoop_capped_length now allow remaining conn hcapped
  split at hlength <;> omega

end Loop

/-- From every reachable state of parser and request and for every buffer: `parse`
returns within as many turns as there are bytes and one more, every turn that goes on
takes bytes off the front, what is left is a suffix, a frame that is incomplete or too
large takes nothing, a request that is handed out after a reset has cost a byte, and the
loop around `parse` ends without its cutoff. -/
theorem parse_progresses (actions : List ParserAction) (readBuffer : Bytes) :
    let p := (actions.foldl ParserConfig.step {}).progress
    parseWithin (readBuffer.length + 1) p readBuffer = some (parse p readBuffer) ∧
    (∀ p' rest, turn p readBuffer = .next p' rest →
      ∃ taken, taken ≠ [] ∧ readBuffer = taken ++ rest) ∧
    (turn p readBuffer).rest <:+ readBuffer ∧ (parse p readBuffer).2.2 <:+ readBuffer ∧
    (∀ status out rest, frame? p readBuffer = some (status, out, rest) → status ≠ .success →
      rest = readBuffer ∧ (turn p readBuffer).rest = readBuffer) ∧
    (∀ q p' rest, AfterReset q → parse q readBuffer = (.success, p', rest) →
      rest.length < readBuffer.length) ∧
    (∀ router order now allow remaining, ∀ conn : Connection, conn.progress = p →
      conn.readBuffer = readBuffer → readBuffer.length + 1 < remaining →
        (parseLoop router order now allow remaining conn).ending ≠ .capped) := by
  intro p
  have hp : WithinBounds p := withinBounds_run actions {} withinBounds_start
  refine ⟨parseWithin_eq _ hp (Nat.lt_succ_self _), ?_, turn_suffix p readBuffer,
    parse_suffix p readBuffer, ?_, ?_, ?_⟩
  · exact fun p' rest hturn => turn_consumes hp hturn
  · exact fun status out rest hframe hstatus => frame_kept hframe hstatus
  · intro q p' rest hq hparse
    obtain ⟨hbounds, hpending⟩ := hq.pending
    exact parse_success_consumes hbounds hpending hparse
  · rintro router order now allow remaining conn _ rfl hremaining
    exact parseLoop_ends now allow conn hremaining

end HttpServer
