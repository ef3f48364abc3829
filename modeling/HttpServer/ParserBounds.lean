/-
The sizes the parser keeps while it works through a stream.  The limits are
checked in different states (one chunk, the running total, the byte slice, the
line scan); one invariant relates the state, the header map, the body and the
remaining count, and every transition keeps it.
-/
import HttpServer.RequestStream

namespace HttpServer

open ByteText

/-- Parser and request once a turn has ended. -/
def Turn.progress : Turn → Progress
  | .next p _ => p
  | .ret _ p _ => p

/-- The states in which nothing has been stored in the body yet. -/
def ParserState.beforeBody : ParserState → Bool
  | .requestLine | .headers | .body => true
  | _ => false

structure WithinBounds (p : Progress) : Prop where
  bodyBounded : p.request.body.length ≤ maxHttpBodySize
  bodyEmpty : p.parser.mState.beforeBody = true → p.request.body = []
  lengthPositive : p.parser.mState = .body → 0 < p.request.headers.getContentLength
  chunkPositive : p.parser.mState = .chunkData → 0 < p.parser.mChunkRemaining
  chunkBounded : p.parser.mState = .chunkData →
    p.request.body.length + p.parser.mChunkRemaining ≤ maxHttpBodySize

theorem withinBounds_start : WithinBounds {} := by
  constructor <;> simp [ParserState.beforeBody]

theorem withinBounds_reset (p : Progress) : WithinBounds p.reset :=
  withinBounds_start

/-- States that promise nothing beyond the bound on the body. -/
theorem withinBounds_goto {p : Progress} {state : ParserState}
    (hbody : p.request.body.length ≤ maxHttpBodySize) (hstate : state.beforeBody = false)
    (hchunk : state ≠ .chunkData) : WithinBounds (p.goto state) where
  bodyBounded := hbody
  bodyEmpty := by
    rw [Progress.goto_mState, hstate]
    exact fun hfalse => absurd hfalse Bool.false_ne_true
  lengthPositive := by
    rintro rfl
    exact absurd hstate (by decide)
  chunkPositive := fun hdata => absurd hdata hchunk
  chunkBounded := fun hdata => absurd hdata hchunk

theorem withinBounds_fail {p : Progress} (hbody : p.request.body.length ≤ maxHttpBodySize) :
    WithinBounds p.fail.2 :=
  withinBounds_goto hbody rfl (by decide)

theorem withinBounds_headers {p : Progress} (hstate : p.parser.mState = .headers)
    (hempty : p.request.body = []) : WithinBounds p where
  bodyBounded := (congrArg List.length hempty).trans_le (Nat.zero_le _)
  bodyEmpty := fun _ => hempty
  lengthPositive := fun hbody => absurd (hstate.symm.trans hbody) (by decide)
  chunkPositive := fun hdata => absurd (hstate.symm.trans hdata) (by decide)
  chunkBounded := fun hdata => absurd (hstate.symm.trans hdata) (by decide)

theorem parseRequestLine_body (line : Bytes) (request : HttpRequest) :
    (parseRequestLine line request).2.body = request.body := by
  rw [parseRequestLine]
  split
  · rfl
  · dsimp only
    split <;> rfl

theorem parseHeaderLine_body (line : Bytes) (request : HttpRequest) :
    (parseHeaderLine line request).2.body = request.body := by
  rw [parseHeaderLine]
  split <;> rfl

section Actions

variable {p : Progress} (hp : WithinBounds p) (line : Bytes)

include hp

theorem withinBounds_requestLineLine (hstate : p.parser.mState = .requestLine) :
    WithinBounds (requestLineLine p line).2 := by
  have hempty : p.request.body = [] := hp.bodyEmpty (by rw [hstate]; rfl)
  have hbody := parseRequestLine_body line p.request
  rw [hempty] at hbody
  rw [requestLineLine]
  split
  · next request hparsed =>
      rw [hparsed] at hbody
      exact withinBounds_headers rfl hbody
  · next request hparsed =>
      rw [hparsed] at hbody
      exact withinBounds_fail ((congrArg List.length hbody).trans_le (Nat.zero_le _))

theorem withinBounds_endOfHeaders (hstate : p.parser.mState = .headers) :
    WithinBounds (endOfHeaders p) := by
  have hempty : p.request.body = [] := hp.bodyEmpty (by rw [hstate]; rfl)
  have hframe : WithinBounds (if 0 < p.request.headers.getContentLength then p.goto .body
      else p.goto .complete) := by
    split
    · next hpositive =>
        exact ⟨hp.bodyBounded, fun _ => hempty, fun _ => hpositive, nofun, nofun⟩
    · exact withinBounds_goto hp.bodyBounded rfl (by decide)
  rw [endOfHeaders]
  split
  · split
    · exact withinBounds_goto hp.bodyBounded rfl (by decide)
    · exact hframe
  · exact hframe

theorem withinBounds_headerLine (hstate : p.parser.mState = .headers) :
    WithinBounds (headerLine p line).2 := by
  have hempty : p.request.body = [] := hp.bodyEmpty (by rw [hstate]; rfl)
  have hbody := parseHeaderLine_body line p.request
  rw [hempty] at hbody
  rw [headerLine]
  split
  · exact withinBounds_endOfHeaders hp hstate
  · split
    · next request hparsed =>
        rw [hparsed] at hbody
        exact withinBounds_headers hstate hbody
    · next request hparsed =>
        rw [hparsed] at hbody
        exact withinBounds_fail ((congrArg List.length hbody).trans_le (Nat.zero_le _))

/-- The sum of the running total and one admitted chunk does not wrap. -/
theorem body_add_lt_sizeBound {size : Nat} (hsize : size ≤ maxHttpBodySize) :
    p.request.body.length + size < sizeBound := by
  have hbody := hp.bodyBounded
  have hroom := maxHttpBodySize_add_lt_sizeBound
  omega

theorem withinBounds_chunkSizeLine : WithinBounds (chunkSizeLine p line).2 := by
  have hbody := hp.bodyBounded
  rw [chunkSizeLine]
  split
  · exact withinBounds_fail hbody
  · next size _ =>
      split
      · exact withinBounds_fail hbody
      · next hsize =>
          rw [Nat.mod_eq_of_lt (body_add_lt_sizeBound hp (Nat.not_lt.mp hsize))]
          split
          · exact withinBounds_fail hbody
          · next htotal =>
              split
              · exact withinBounds_goto hbody rfl (by decide)
              · next hzero =>
                  constructor
                  · exact hbody
                  · exact nofun
                  · exact nofun
                  · exact fun _ => Nat.pos_of_ne_zero hzero
                  · exact fun _ => Nat.not_lt.mp htotal

theorem withinBounds_chunkCrlfLine : WithinBounds (chunkCrlfLine p line).2 := by
  rw [chunkCrlfLine]
  split
  · exact withinBounds_goto hp.bodyBounded rfl (by decide)
  · exact withinBounds_fail hp.bodyBounded

theorem withinBounds_trailerLine : WithinBounds (trailerLine p line).2 := by
  rw [trailerLine]
  split
  · exact withinBounds_goto hp.bodyBounded rfl (by decide)
  · exact hp

theorem withinBounds_lineAction {action : Progress → Bytes → Bool × Progress}
    (haction : lineAction? p.parser.mState = some action) :
    WithinBounds (action p line).2 := by
  cases hstate : p.parser.mState <;> rw [hstate] at haction <;>
    simp only [lineAction?, Option.some.injEq, reduceCtorEq] at haction <;>
    subst haction
  · exact withinBounds_requestLineLine hp line hstate
  · exact withinBounds_headerLine hp line hstate
  · exact withinBounds_chunkSizeLine hp line
  · exact withinBounds_chunkCrlfLine hp line
  · exact withinBounds_trailerLine hp line

/-- In the body state the subtraction of the two sizes is exact. -/
theorem bytesNeeded_eq (hstate : p.parser.mState = .body) :
    bytesNeeded p.request = p.request.headers.getContentLength := by
  have hempty : p.request.body = [] := hp.bodyEmpty (by rw [hstate]; rfl)
  rw [bytesNeeded, hempty, List.length_nil, Nat.sub_zero, Nat.add_mod_right]
  exact Nat.mod_eq_of_lt p.request.headers.getContentLength_lt

theorem withinBounds_takeLine {action : Progress → Bytes → Bool × Progress}
    (haction : ∀ line, WithinBounds (action p line).2) (readBuffer : Bytes) :
    WithinBounds (takeLine p readBuffer action).progress := by
  rcases hextract : extractLine readBuffer with ⟨status, line, rest⟩
  cases status with
  | success =>
      rw [takeLine_of_success hextract]
      split <;> exact haction line
  | incomplete =>
      rw [takeLine, hextract]
      exact hp
  | headerTooLarge =>
      rw [takeLine, hextract]
      exact withinBounds_fail hp.bodyBounded
  | payloadTooLarge =>
      rw [takeLine, hextract]
      exact withinBounds_fail hp.bodyBounded

theorem withinBounds_takeBytes {required : Nat} {out : Bytes} {action : Bytes → Progress}
    (haction : ∀ bytes : Bytes, bytes.length = required → required ≤ maxHttpBodySize →
      WithinBounds (action bytes)) (readBuffer : Bytes) :
    WithinBounds (takeBytes p readBuffer required out action).progress := by
  rcases hextract : extractBytes readBuffer required out with ⟨status, bytes, rest⟩
  rw [takeBytes, hextract]
  cases status with
  | success =>
      obtain ⟨hsize, hlong, rfl, _⟩ := extractBytes_success hextract
      exact haction _ (List.length_take_of_le hlong) hsize
  | incomplete => exact hp
  | headerTooLarge => exact withinBounds_fail hp.bodyBounded
  | payloadTooLarge => exact withinBounds_fail hp.bodyBounded

/-- Every turn of the loop keeps the sizes within bounds. -/
theorem withinBounds_turn (readBuffer : Bytes) :
    WithinBounds (turn p readBuffer).progress := by
  cases haction : lineAction? p.parser.mState with
  | some action =>
      rw [turn_of_lineAction haction]
      exact withinBounds_takeLine hp (fun line => withinBounds_lineAction hp line haction) _
  | none =>
      cases hstate : p.parser.mState <;> rw [hstate] at haction <;>
        simp only [lineAction?, reduceCtorEq] at haction
      case body =>
        rw [turn_body hstate]
        apply withinBounds_takeBytes hp
        intro body hlength hsize
        exact withinBounds_goto (hlength.trans_le hsize) rfl (by decide)
      case chunkData =>
        rw [turn_chunkData hstate]
        apply withinBounds_takeBytes hp
        intro chunk hlength _
        have hroom := hp.chunkBounded hstate
        rw [← hlength, ← List.length_append] at hroom
        exact withinBounds_goto hroom rfl (by decide)
      all_goals
        simp only [turn, hstate]
        exact hp

end Actions

theorem extractLine_incomplete {readBuffer : Bytes}
    (hextract : (extractLine readBuffer).1 = .incomplete) :
    readBuffer.length ≤ maxHttpHeaderSize := by
  rw [extractLine] at hextract
  split at hextract
  · next hempty =>
      rw [List.isEmpty_iff.mp hempty]
      exact Nat.zero_le _
  · split at hextract
    · contradiction
    · contradiction
    · split at hextract
      · contradiction
      · next hlimit => exact Nat.not_lt.mp hlimit

theorem extractBytes_incomplete {readBuffer out : Bytes} {required : Nat}
    (hextract : (extractBytes readBuffer required out).1 = .incomplete) :
    readBuffer.length < required ∧ required ≤ maxHttpBodySize := by
  rw [extractBytes] at hextract
  split at hextract
  · contradiction
  · next hlimit =>
      split at hextract
      · next hshort => exact ⟨hshort, Nat.not_lt.mp hlimit⟩
      · contradiction

/-- Whatever the parser waits for is smaller than the largest body. -/
theorem waiting_length {p : Progress} {readBuffer : Bytes} (hwait : Waiting p readBuffer) :
    readBuffer.length < maxHttpBodySize := by
  obtain ⟨_, _, hline | ⟨required, out, hbytes⟩⟩ := turn_incomplete_cases hwait
  · have hlimits : maxHttpHeaderSize < maxHttpBodySize := by decide
    exact (extractLine_incomplete hline).trans_lt hlimits
  · obtain ⟨hshort, hlimit⟩ := extractBytes_incomplete hbytes
    exact hshort.trans_le hlimit

theorem parse_incomplete_length {p p' : Progress} {readBuffer rest : Bytes}
    (hparse : parse p readBuffer = (.incomplete, p', rest)) :
    rest.length < maxHttpBodySize := by
  induction p, readBuffer using parse.induct with
  | case1 p readBuffer result last lastBuffer hturn =>
      rw [parse_of_ret hturn] at hparse
      simp only [Prod.mk.injEq] at hparse
      obtain ⟨rfl, rfl, rfl⟩ := hparse
      obtain ⟨rfl, rfl⟩ := turn_incomplete hturn
      exact waiting_length hturn
  | case2 p readBuffer next nextBuffer hturn ih =>
      rw [parse_of_next hturn] at hparse
      exact ih hparse

/-- Bytes arrive, the loop takes a turn, or the caller resets request and parser. -/
inductive ParserAction where
  | receive (fragment : Bytes)
  | turn
  | reset
deriving DecidableEq

structure ParserConfig where
  progress : Progress := {}
  readBuffer : Bytes := []
deriving DecidableEq

def ParserConfig.step (config : ParserConfig) : ParserAction → ParserConfig
  | .receive fragment => { config with readBuffer := config.readBuffer ++ fragment }
  | .turn =>
      let next := HttpServer.turn config.progress config.readBuffer
      { progress := next.progress, readBuffer := next.rest }
  | .reset => { config with progress := config.progress.reset }

theorem withinBounds_step {config : ParserConfig} (hconfig : WithinBounds config.progress)
    (action : ParserAction) : WithinBounds (config.step action).progress := by
  cases action with
  | receive fragment => exact hconfig
  | turn => exact withinBounds_turn hconfig config.readBuffer
  | reset => exact withinBounds_reset config.progress

theorem withinBounds_run (actions : List ParserAction) :
    ∀ config : ParserConfig, WithinBounds config.progress →
      WithinBounds (actions.foldl ParserConfig.step config).progress := by
  induction actions with
  | nil => exact fun _ hconfig => hconfig
  | cons action actions ih =>
      intro config hconfig
      exact ih (config.step action) (withinBounds_step hconfig action)

/-- In every reachable state of parser, request and read buffer the body is within
its limit together with the chunk that is being read, none of the additions and
subtractions of sizes wraps, and a parser that waits leaves less than a largest body
in the buffer. -/
theorem parser_sizes_bounded (actions : List ParserAction) :
    let config := actions.foldl ParserConfig.step {}
    let parser := config.progress.parser
    let request := config.progress.request
    request.body.length ≤ maxHttpBodySize ∧
    (parser.mState = .chunkData → 0 < parser.mChunkRemaining ∧
      request.body.length + parser.mChunkRemaining ≤ maxHttpBodySize) ∧
    (parser.mState = .body → request.body = [] ∧ 0 < request.headers.getContentLength ∧
      bytesNeeded request = request.headers.getContentLength - request.body.length) ∧
    (∀ size, size ≤ maxHttpBodySize → request.body.length + size < sizeBound) ∧
    (∀ p rest, parse config.progress config.readBuffer = (.incomplete, p, rest) →
      rest.length < maxHttpBodySize) := by
  intro config parser request
  have hbounds : WithinBounds config.progress := withinBounds_run actions {} withinBounds_start
  refine ⟨hbounds.bodyBounded, ?_, ?_, ?_, ?_⟩
  · exact fun hdata => ⟨hbounds.chunkPositive hdata, hbounds.chunkBounded hdata⟩
  · intro hbody
    have hempty : request.body = [] := hbounds.bodyEmpty (by rw [hbody]; rfl)
    refine ⟨hempty, hbounds.lengthPositive hbody, ?_⟩
    rw [bytesNeeded_eq hbounds hbody, hempty]
    rfl
  · exact fun size hsize => body_add_lt_sizeBound hbounds hsize
  · exact fun p rest hparse => parse_incomplete_length hparse

end HttpServer
