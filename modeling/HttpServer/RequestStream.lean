/-
A connection's request stream through the parser: the loop that calls `parse`
until the buffer is empty or the parser pauses, resetting after each request,
and the proof that no way of cutting the stream into fragments can be seen in
what comes out.
-/
import HttpServer.HttpRequestParser
import HttpServer.StreamMachine

namespace HttpServer

open ByteText StreamMachine

/-- The buffer a turn leaves behind. -/
def Turn.rest : Turn → Bytes
  | .next _ readBuffer => readBuffer
  | .ret _ _ readBuffer => readBuffer

/-- The same turn with more bytes waiting behind the ones it looked at. -/
def Turn.append (more : Bytes) : Turn → Turn
  | .next p readBuffer => .next p (readBuffer ++ more)
  | .ret result p readBuffer => .ret result p (readBuffer ++ more)

theorem takeLine_suffix (p : Progress) (readBuffer : Bytes)
    (action : Progress → Bytes → Bool × Progress) :
    (takeLine p readBuffer action).rest <:+ readBuffer := by
  have hsuffix := extractLine_suffix readBuffer
  rcases hextract : extractLine readBuffer with ⟨status, line, rest⟩
  rw [hextract] at hsuffix
  cases status with
  | success =>
      rw [takeLine_of_success hextract]
      split <;> exact hsuffix
  | incomplete => simp [takeLine, hextract, Turn.rest]
  | headerTooLarge => simpa [takeLine, hextract, Turn.rest] using hsuffix
  | payloadTooLarge => simpa [takeLine, hextract, Turn.rest] using hsuffix

theorem takeBytes_suffix (p : Progress) (readBuffer : Bytes) (required : Nat)
    (out : Bytes) (action : Bytes → Progress) :
    (takeBytes p readBuffer required out action).rest <:+ readBuffer := by
  have hsuffix := extractBytes_suffix readBuffer required out
  rcases hextract : extractBytes readBuffer required out with ⟨status, bytes, rest⟩
  rw [hextract] at hsuffix
  simp only [takeBytes, hextract]
  cases status with
  | incomplete => exact List.suffix_rfl
  | success => exact hsuffix
  | headerTooLarge => exact hsuffix
  | payloadTooLarge => exact hsuffix

theorem turn_suffix (p : Progress) (readBuffer : Bytes) :
    (turn p readBuffer).rest <:+ readBuffer := by
  simp only [turn]
  split
  · exact List.suffix_rfl
  · exact List.suffix_rfl
  · exact takeBytes_suffix _ _ _ _ _
  · exact takeLine_suffix _ _ _
  · exact takeBytes_suffix _ _ _ _ _
  all_goals exact takeLine_suffix _ _ _

theorem parse_suffix (p : Progress) (readBuffer : Bytes) :
    (parse p readBuffer).2.2 <:+ readBuffer := by
  induction p, readBuffer using parse.induct with
  | case1 p readBuffer result p' rest hturn =>
      rw [parse_of_ret hturn]
      simpa [hturn, Turn.rest] using turn_suffix p readBuffer
  | case2 p readBuffer p' rest hturn ih =>
      rw [parse_of_next hturn]
      have hfirst : rest <:+ readBuffer := by
        simpa [hturn, Turn.rest] using turn_suffix p readBuffer
      exact ih.trans hfirst

/-- A request parsed from a fresh parser costs at least one byte. -/
theorem parse_success_length {p p' : Progress} {readBuffer rest : Bytes}
    (hstate : p.parser.mState = .requestLine)
    (hparse : parse p readBuffer = (.success, p', rest)) :
    rest.length < readBuffer.length := by
  have haction : lineAction? p.parser.mState = some requestLineLine := by
    rw [hstate]
    rfl
  have hline := turn_of_lineAction haction readBuffer
  cases hturn : turn p readBuffer with
  | ret result p'' rest'' =>
      rw [parse_of_ret hturn] at hparse
      simp only [Prod.mk.injEq] at hparse
      rw [hturn] at hline
      rcases hextract : extractLine readBuffer with ⟨status, line, rest'⟩
      cases status with
      | success =>
          rw [takeLine_of_success hextract] at hline
          split at hline
          · contradiction
          · simp_all
      | incomplete => simp_all [takeLine]
      | headerTooLarge => simp_all [takeLine]
      | payloadTooLarge => simp_all [takeLine]
  | next p'' rest'' =>
      rw [hturn] at hline
      obtain ⟨line, hextract, _⟩ := takeLine_next hline.symm
      have hfirst := length_extractLine hextract
      rw [parse_of_next hturn] at hparse
      have hrest := (parse_suffix p'' rest'').length_le
      rw [hparse] at hrest
      simp only at hrest
      omega

/-- What a run of the parse loop leaves: the requests it completed, whether it
met an error, and the parser, request and buffer at the end. -/
structure Session where
  requests : List HttpRequest := []
  failed : Bool := false
  progress : Progress := {}
  readBuffer : Bytes := []
deriving DecidableEq

/-- `while (!read_buffer.empty())` around `parse`, with the reset after each
success and no other work in between. -/
def serve (p : Progress) (readBuffer : Bytes) : Session :=
  if readBuffer = [] then { progress := p, readBuffer }
  else
    match _hparse : parse p readBuffer with
    | (.incomplete, p', rest) => { progress := p', readBuffer := rest }
    | (.error, p', rest) => { failed := true, progress := p', readBuffer := rest }
    | (.success, p', rest) =>
        let later := serve p'.reset rest
        { later with requests := p'.request :: later.requests }
termination_by
  2 * readBuffer.length + if p.parser.mState = .requestLine then 0 else 1
decreasing_by
  have hsuffix := (parse_suffix p readBuffer).length_le
  rw [_hparse] at hsuffix
  by_cases hstate : p.parser.mState = .requestLine
  · have hless := parse_success_length hstate _hparse
    simp [hstate]
    omega
  · simp [hstate] at hsuffix ⊢
    omega

theorem serve_nil (p : Progress) : serve p [] = { progress := p } := by
  rw [serve]
  simp

theorem serve_of_incomplete {p p' : Progress} {readBuffer rest : Bytes}
    (hne : readBuffer ≠ []) (hparse : parse p readBuffer = (.incomplete, p', rest)) :
    serve p readBuffer = { progress := p', readBuffer := rest } := by
  rw [serve, if_neg hne]
  split <;> simp_all

theorem serve_of_error {p p' : Progress} {readBuffer rest : Bytes}
    (hne : readBuffer ≠ []) (hparse : parse p readBuffer = (.error, p', rest)) :
    serve p readBuffer =
      { failed := true, progress := p', readBuffer := rest } := by
  rw [serve, if_neg hne]
  split <;> simp_all

theorem serve_of_success {p p' : Progress} {readBuffer rest : Bytes}
    (hne : readBuffer ≠ []) (hparse : parse p readBuffer = (.success, p', rest)) :
    serve p readBuffer =
      { serve p'.reset rest with
        requests := p'.request :: (serve p'.reset rest).requests } := by
  rw [serve, if_neg hne]
  split <;> simp_all

/-- Append one fragment to the read buffer and run the loop; after an error
the connection is gone. -/
def Session.feed (session : Session) (fragment : Bytes) : Session :=
  if session.failed then session
  else
    let later := serve session.progress (session.readBuffer ++ fragment)
    { later with requests := session.requests ++ later.requests }

/-- The parser seen turn by turn: its progress, the requests completed so far
and whether it has met an error. -/
structure Intake where
  progress : Progress := {}
  requests : List HttpRequest := []
  failed : Bool := false
deriving DecidableEq

def intakeStep (s : Intake) (readBuffer : Bytes) : Option (Intake × Bytes) :=
  if s.failed then none
  else
    match turn s.progress readBuffer with
    | .next p rest => some ({ s with progress := p }, rest)
    | .ret .incomplete _ _ => none
    | .ret .error p rest => some ({ s with progress := p, failed := true }, rest)
    | .ret .success p rest =>
        some ({ s with progress := p.reset, requests := s.requests ++ [p.request] },
          rest)

/-- The configuration is one in which the parser looks for a line, and the
line at the front of the buffer is `line`. -/
def AtLine (config : Intake × Bytes) (line : Bytes) : Prop :=
  config.1.failed = false ∧ (lineAction? config.1.progress.parser.mState).isSome ∧
    line = frontLine config.2

/-- A line the parser looks at while it works through `stream`. -/
def LookedAt (stream line : Bytes) : Prop :=
  ∃ config, Reaches intakeStep ({}, stream) config ∧ AtLine config line

/-- The line the parser is about to look at fits the header limit. -/
def LineFits (config : Intake × Bytes) : Prop :=
  ∀ line, AtLine config line → line.length ≤ maxHttpHeaderSize - 1

theorem takeLine_append {p : Progress} {readBuffer more : Bytes}
    (action : Progress → Bytes → Bool × Progress)
    (hfront : (frontLine (readBuffer ++ more)).length ≤ maxHttpHeaderSize - 1) :
    takeLine p readBuffer action = .ret .incomplete p readBuffer ∨
      takeLine p (readBuffer ++ more) action =
        (takeLine p readBuffer action).append more := by
  rcases extractLine_append hfront with hwait | ⟨line, rest, hshort, hlong⟩
  · left
    simp [takeLine, hwait]
  · right
    rw [takeLine_of_success hshort, takeLine_of_success hlong]
    split <;> rfl

theorem takeBytes_append (p : Progress) (readBuffer more : Bytes) (required : Nat)
    (out : Bytes) (action : Bytes → Progress) :
    takeBytes p readBuffer required out action = .ret .incomplete p readBuffer ∨
      takeBytes p (readBuffer ++ more) required out action =
        (takeBytes p readBuffer required out action).append more := by
  rcases hextract : extractBytes readBuffer required out with ⟨status, bytes, rest⟩
  by_cases hstatus : status = .incomplete
  · left
    subst hstatus
    simp [takeBytes, hextract]
  · right
    have hlong := extractBytes_append hextract hstatus more
    simp only [takeBytes, hextract, hlong]
    cases status with
    | incomplete => contradiction
    | success => rfl
    | headerTooLarge => rfl
    | payloadTooLarge => rfl

/-- A turn that does not wait is not changed by bytes that arrive later. -/
theorem turn_append {p : Progress} {readBuffer more : Bytes}
    (hfront : (lineAction? p.parser.mState).isSome →
      (frontLine (readBuffer ++ more)).length ≤ maxHttpHeaderSize - 1) :
    turn p readBuffer = .ret .incomplete p readBuffer ∨
      turn p (readBuffer ++ more) = (turn p readBuffer).append more := by
  cases haction : lineAction? p.parser.mState with
  | some action =>
      rw [turn_of_lineAction haction, turn_of_lineAction haction]
      exact takeLine_append action (hfront (by simp [haction]))
  | none =>
      cases hstate : p.parser.mState <;> rw [hstate] at haction <;>
        simp only [lineAction?, reduceCtorEq] at haction <;>
        simp only [turn, hstate]
      · exact takeBytes_append p readBuffer more _ _ _
      · exact takeBytes_append p readBuffer more _ _ _
      · exact Or.inr rfl
      · exact Or.inr rfl

theorem intakeStep_stable : StableUnder intakeStep LineFits := by
  intro s readBuffer more target hfits hstep
  by_cases hfailed : s.failed = true
  · simp [intakeStep, hfailed] at hstep
  · have hactive : s.failed = false := by simpa using hfailed
    have hfront : (lineAction? s.progress.parser.mState).isSome →
        (frontLine (readBuffer ++ more)).length ≤ maxHttpHeaderSize - 1 :=
      fun hline => hfits _ ⟨hactive, hline, rfl⟩
    simp only [intakeStep, hactive, Bool.false_eq_true, ↓reduceIte] at hstep ⊢
    rcases turn_append hfront with hwait | hmore
    · simp [hwait] at hstep
    · rw [hmore]
      cases hturn : turn s.progress readBuffer with
      | next p rest =>
          simp only [hturn, Option.some.injEq] at hstep
          subst hstep
          rfl
      | ret result p rest =>
          cases result with
          | incomplete => simp [hturn] at hstep
          | success =>
              simp only [hturn, Option.some.injEq] at hstep
              subst hstep
              rfl
          | error =>
              simp only [hturn, Option.some.injEq] at hstep
              subst hstep
              rfl

/-- `parse` walks the machine up to the turn that makes it return. -/
theorem parse_reaches (requests : List HttpRequest) (p : Progress) (readBuffer : Bytes) :
    ∃ last lastBuffer,
      Reaches intakeStep (⟨p, requests, false⟩, readBuffer)
        (⟨last, requests, false⟩, lastBuffer) ∧
      turn last lastBuffer = .ret (parse p readBuffer).1
        (parse p readBuffer).2.1 (parse p readBuffer).2.2 := by
  induction p, readBuffer using parse.induct with
  | case1 p readBuffer result p' rest hturn =>
      refine ⟨p, readBuffer, Relation.ReflTransGen.refl, ?_⟩
      rw [parse_of_ret hturn, hturn]
  | case2 p readBuffer p' rest hturn ih =>
      obtain ⟨last, lastBuffer, hreach, hlast⟩ := ih
      refine ⟨last, lastBuffer, Relation.ReflTransGen.trans (Reaches.single ?_) hreach, ?_⟩
      · simp [intakeStep, hturn]
      · rw [parse_of_next hturn]
        exact hlast

theorem takeLine_incomplete {p p' : Progress} {readBuffer rest : Bytes}
    {action : Progress → Bytes → Bool × Progress}
    (hturn : takeLine p readBuffer action = .ret .incomplete p' rest) :
    p' = p ∧ rest = readBuffer ∧ (extractLine readBuffer).1 = .incomplete := by
  rcases hextract : extractLine readBuffer with ⟨status, line, rest'⟩
  cases status with
  | success =>
      rw [takeLine_of_success hextract] at hturn
      split at hturn <;> simp at hturn
  | incomplete =>
      simp only [takeLine, hextract, Turn.ret.injEq] at hturn
      exact ⟨hturn.2.1.symm, hturn.2.2.symm, rfl⟩
  | headerTooLarge => simp [takeLine, hextract] at hturn
  | payloadTooLarge => simp [takeLine, hextract] at hturn

theorem takeBytes_incomplete {p p' : Progress} {readBuffer rest out : Bytes}
    {required : Nat} {action : Bytes → Progress}
    (hturn : takeBytes p readBuffer required out action = .ret .incomplete p' rest) :
    p' = p ∧ rest = readBuffer ∧ (extractBytes readBuffer required out).1 = .incomplete := by
  rcases hextract : extractBytes readBuffer required out with ⟨status, bytes, rest'⟩
  cases status with
  | success => simp [takeBytes, hextract] at hturn
  | incomplete =>
      simp only [takeBytes, hextract, Turn.ret.injEq] at hturn
      exact ⟨hturn.2.1.symm, hturn.2.2.symm, rfl⟩
  | headerTooLarge => simp [takeBytes, hextract] at hturn
  | payloadTooLarge => simp [takeBytes, hextract] at hturn

/-- An incomplete turn leaves parser, request and buffer as they were, and waits
for the end of a line or for a number of bytes. -/
theorem turn_incomplete_cases {p p' : Progress} {readBuffer rest : Bytes}
    (hturn : turn p readBuffer = .ret .incomplete p' rest) :
    p' = p ∧ rest = readBuffer ∧ ((extractLine readBuffer).1 = .incomplete ∨
      ∃ required out, (extractBytes readBuffer required out).1 = .incomplete) := by
  have hline : ∀ {action}, takeLine p readBuffer action = .ret .incomplete p' rest →
      p' = p ∧ rest = readBuffer ∧ ((extractLine readBuffer).1 = .incomplete ∨
        ∃ required out, (extractBytes readBuffer required out).1 = .incomplete) := by
    intro action htake
    obtain ⟨hp, hrest, hwait⟩ := takeLine_incomplete htake
    exact ⟨hp, hrest, Or.inl hwait⟩
  have hbytes : ∀ {required out action},
      takeBytes p readBuffer required out action = .ret .incomplete p' rest →
      p' = p ∧ rest = readBuffer ∧ ((extractLine readBuffer).1 = .incomplete ∨
        ∃ required out, (extractBytes readBuffer required out).1 = .incomplete) := by
    intro required out action htake
    obtain ⟨hp, hrest, hwait⟩ := takeBytes_incomplete htake
    exact ⟨hp, hrest, Or.inr ⟨required, out, hwait⟩⟩
  simp only [turn] at hturn
  split at hturn
  · simp at hturn
  · simp at hturn
  · exact hbytes hturn
  · exact hline hturn
  · exact hbytes hturn
  all_goals exact hline hturn

theorem turn_incomplete {p p' : Progress} {readBuffer rest : Bytes}
    (hturn : turn p readBuffer = .ret .incomplete p' rest) :
    p' = p ∧ rest = readBuffer := by
  obtain ⟨hp, hrest, _⟩ := turn_incomplete_cases hturn
  exact ⟨hp, hrest⟩

/-- Only the loop test returns a request. -/
theorem turn_success {p p' : Progress} {readBuffer rest : Bytes}
    (hturn : turn p readBuffer = .ret .success p' rest) :
    p.parser.mState = .complete := by
  have hline : ∀ action, takeLine p readBuffer action ≠ .ret .success p' rest := by
    intro action htake
    rw [takeLine] at htake
    split at htake
    · simp at htake
    · split at htake <;> simp at htake
    · simp at htake
  have hbytes : ∀ required out action,
      takeBytes p readBuffer required out action ≠ .ret .success p' rest := by
    intro required out action htake
    rw [takeBytes] at htake
    split at htake <;> simp at htake
  cases hstate : p.parser.mState <;> simp only [turn, hstate] at hturn
  case complete => rfl
  case error => simp at hturn
  case body => exact absurd hturn (hbytes _ _ _)
  case chunkData => exact absurd hturn (hbytes _ _ _)
  all_goals exact absurd hturn (hline _)

/-- The parser waits for input at the front of this buffer. -/
def Waiting (p : Progress) (readBuffer : Bytes) : Prop :=
  turn p readBuffer = .ret .incomplete p readBuffer

theorem intakeStep_of_waiting {p : Progress} {readBuffer : Bytes}
    (hwait : Waiting p readBuffer) (requests : List HttpRequest) (failed : Bool) :
    intakeStep ⟨p, requests, failed⟩ readBuffer = none := by
  rw [Waiting] at hwait
  cases failed <;> simp [intakeStep, hwait]

theorem waiting_start : Waiting {} [] := rfl

/-- The parse loop settles the machine.  It skips an empty buffer, which is
sound because the parser is waiting there. -/
theorem settles_serve (p : Progress) (readBuffer : Bytes) :
    ∀ requests : List HttpRequest, (readBuffer = [] → Waiting p readBuffer) →
      Settles intakeStep (⟨p, requests, false⟩, readBuffer)
        (⟨(serve p readBuffer).progress, requests ++ (serve p readBuffer).requests,
          (serve p readBuffer).failed⟩, (serve p readBuffer).readBuffer) := by
  induction p, readBuffer using serve.induct with
  | case1 p =>
      intro requests hempty
      rw [serve_nil]
      simp only [List.append_nil]
      exact ⟨Relation.ReflTransGen.refl, intakeStep_of_waiting (hempty rfl) _ _⟩
  | case2 p readBuffer hne p' rest hparse =>
      intro requests _
      obtain ⟨last, lastBuffer, hreach, hturn⟩ := parse_reaches requests p readBuffer
      rw [hparse] at hturn
      obtain ⟨rfl, rfl⟩ := turn_incomplete hturn
      rw [serve_of_incomplete hne hparse]
      simp only [List.append_nil]
      exact ⟨hreach, intakeStep_of_waiting hturn _ _⟩
  | case3 p readBuffer hne p' rest hparse =>
      intro requests _
      obtain ⟨last, lastBuffer, hreach, hturn⟩ := parse_reaches requests p readBuffer
      rw [hparse] at hturn
      rw [serve_of_error hne hparse]
      simp only [List.append_nil]
      refine ⟨hreach.trans (Reaches.single ?_), by simp [intakeStep]⟩
      simp [intakeStep, hturn]
  | case4 p readBuffer hne p' rest hparse ih =>
      intro requests _
      obtain ⟨last, lastBuffer, hreach, hturn⟩ := parse_reaches requests p readBuffer
      rw [hparse] at hturn
      have hstep : Reaches intakeStep (⟨last, requests, false⟩, lastBuffer)
          (⟨p'.reset, requests ++ [p'.request], false⟩, rest) :=
        Reaches.single (by simp [intakeStep, hturn])
      have hlater := ih (requests ++ [p'.request]) (by
        intro hempty
        subst hempty
        exact waiting_start)
      rw [serve_of_success hne hparse]
      rw [List.append_assoc] at hlater
      exact ⟨(hreach.trans hstep).trans hlater.1, hlater.2⟩

theorem waiting_of_intakeStep {p : Progress} {requests : List HttpRequest}
    {readBuffer : Bytes} (hstep : intakeStep ⟨p, requests, false⟩ readBuffer = none) :
    Waiting p readBuffer := by
  simp only [intakeStep, Bool.false_eq_true, ↓reduceIte] at hstep
  cases hturn : turn p readBuffer with
  | next p' rest => simp [hturn] at hstep
  | ret result p' rest =>
      cases result with
      | success => simp [hturn] at hstep
      | error => simp [hturn] at hstep
      | incomplete =>
          obtain ⟨rfl, rfl⟩ := turn_incomplete hturn
          exact hturn

/-- The machine's control state in a session. -/
def Session.intake (session : Session) : Intake :=
  ⟨session.progress, session.requests, session.failed⟩

theorem settles_feed {session : Session} (hactive : session.failed = false)
    (hwait : intakeStep session.intake session.readBuffer = none) (fragment : Bytes) :
    Settles intakeStep (session.intake, session.readBuffer ++ fragment)
      ((session.feed fragment).intake, (session.feed fragment).readBuffer) := by
  have hempty : session.readBuffer ++ fragment = [] →
      Waiting session.progress (session.readBuffer ++ fragment) := by
    intro hnil
    obtain ⟨hbuffer, _⟩ := List.append_eq_nil_iff.mp hnil
    rw [Session.intake, hactive, hbuffer] at hwait
    rw [hnil]
    exact waiting_of_intakeStep hwait
  have hsettle := settles_serve session.progress
    (session.readBuffer ++ fragment) session.requests hempty
  simpa [Session.feed, Session.intake, hactive] using hsettle

/-- Feeding a session feeds the machine.  After an error the session keeps its
buffer while the machine's goes on growing; neither is ever read again. -/
theorem fed_feed (fragments : List Bytes) :
    ∀ (session : Session) (buffer : Bytes),
      (session.failed = false → buffer = session.readBuffer) →
      intakeStep session.intake buffer = none →
      ∃ final, Fed intakeStep (session.intake, buffer) fragments
          ((fragments.foldl Session.feed session).intake, final) ∧
        ((fragments.foldl Session.feed session).failed = false →
          final = (fragments.foldl Session.feed session).readBuffer) := by
  induction fragments with
  | nil =>
      intro session buffer hbuffer hwait
      exact ⟨buffer, Fed.done hwait, hbuffer⟩
  | cons fragment rest ih =>
      intro session buffer hbuffer hwait
      rw [List.foldl_cons]
      cases hfailed : session.failed with
      | true =>
          have hsame : session.feed fragment = session := by
            simp [Session.feed, hfailed]
          have hhalt : intakeStep session.intake (buffer ++ fragment) = none := by
            simp [intakeStep, Session.intake, hfailed]
          rw [hsame]
          obtain ⟨final, hfed, hfinal⟩ :=
            ih session (buffer ++ fragment) (by simp [hfailed]) hhalt
          exact ⟨final, Fed.more ⟨Relation.ReflTransGen.refl, hhalt⟩ hfed, hfinal⟩
      | false =>
          obtain rfl := hbuffer hfailed
          have hsettle := settles_feed hfailed hwait fragment
          obtain ⟨final, hfed, hfinal⟩ := ih (session.feed fragment)
            (session.feed fragment).readBuffer (fun _ => rfl) hsettle.2
          exact ⟨final, Fed.more hsettle hfed, hfinal⟩

/-- However the stream is cut, the machine settles where the whole stream
settles it. -/
theorem settles_fragments {stream : Bytes}
    (hlines : ∀ line, LookedAt stream line → line.length ≤ maxHttpHeaderSize - 1)
    {fragments : List Bytes} (hcut : fragments.flatten = stream) :
    ∃ final, Settles intakeStep ({}, stream)
        ((fragments.foldl Session.feed {}).intake, final) ∧
      ((fragments.foldl Session.feed {}).failed = false →
        final = (fragments.foldl Session.feed {}).readBuffer) := by
  obtain ⟨final, hfed, hfinal⟩ := fed_feed fragments {} [] (fun _ => rfl)
    (intakeStep_of_waiting waiting_start _ _)
  refine ⟨final, ?_, hfinal⟩
  have hadm : Admissible intakeStep LineFits ({}, [] ++ fragments.flatten) := by
    intro config hreach line hline
    rw [List.nil_append, hcut] at hreach
    exact hlines line ⟨config, hreach, hline⟩
  have hsettle := hfed.settles intakeStep_stable hadm
  rw [List.nil_append, hcut] at hsettle
  exact hsettle

/-- Fragmentation independence of the request parser. -/
theorem feed_fragments_eq_feed_whole {stream : Bytes}
    (hlines : ∀ line, LookedAt stream line → line.length ≤ maxHttpHeaderSize - 1)
    {fragments : List Bytes} (hcut : fragments.flatten = stream) :
    let cut := fragments.foldl Session.feed {}
    let whole := Session.feed {} stream
    cut.requests = whole.requests ∧ cut.failed = whole.failed ∧
      (cut.failed = false →
        cut.progress = whole.progress ∧ cut.readBuffer = whole.readBuffer) := by
  intro cut whole
  obtain ⟨cutBuffer, hcutSettles, hcutBuffer⟩ := settles_fragments hlines hcut
  obtain ⟨wholeBuffer, hwholeSettles, hwholeBuffer⟩ :=
    @settles_fragments stream hlines [stream] (by simp)
  have hsame := hcutSettles.unique hwholeSettles
  obtain ⟨hintake, hbuffer⟩ := Prod.mk.inj hsame
  obtain ⟨hprogress, hrequests, hfailed⟩ := Intake.mk.inj hintake
  refine ⟨hrequests, hfailed, fun hactive => ⟨hprogress, ?_⟩⟩
  calc cut.readBuffer = cutBuffer := (hcutBuffer hactive).symm
    _ = wholeBuffer := hbuffer
    _ = whole.readBuffer := hwholeBuffer (hfailed ▸ hactive)

theorem reaches_length {source target : Intake × Bytes}
    (hreach : Reaches intakeStep source target) :
    target.2.length ≤ source.2.length := by
  induction hreach with
  | refl => exact Nat.le_refl _
  | @tail middle final _ hlast ih =>
      refine Nat.le_trans ?_ ih
      have hsuffix := (turn_suffix middle.1.progress middle.2).length_le
      simp only [Next, intakeStep] at hlast
      split at hlast
      · contradiction
      · split at hlast <;>
          simp only [Option.some.injEq, reduceCtorEq] at hlast <;>
          subst hlast <;> simp_all [Turn.rest]

/-- A stream shorter than the header limit has no line above it. -/
theorem lookedAt_length {stream line : Bytes} (hlooked : LookedAt stream line) :
    line.length ≤ stream.length := by
  obtain ⟨config, hreach, _, _, rfl⟩ := hlooked
  exact Nat.le_trans (length_frontLine_le _) (reaches_length hreach)

/-- A chunked request cut between CR and LF and inside a chunk-size line, with
the beginning of the next request behind it. -/
def cutChunkedPost : List Bytes :=
  [ascii "POST /a HTTP/1.1\r", ascii "\nTransfer-Encoding: chunked\r\n\r\n0", [],
    ascii "3;x\r\nab", ascii "c\r", ascii "\n0\r\n\r\nGET /"]

theorem feed_cutChunkedPost :
    let cut := cutChunkedPost.foldl Session.feed {}
    let whole := Session.feed {} cutChunkedPost.flatten
    cut.requests = whole.requests ∧ cut.failed = whole.failed ∧
      (cut.failed = false →
        cut.progress = whole.progress ∧ cut.readBuffer = whole.readBuffer) :=
  @feed_fragments_eq_feed_whole cutChunkedPost.flatten
    (fun _ hlooked => (lookedAt_length hlooked).trans (by decide +kernel))
    cutChunkedPost rfl

end HttpServer
