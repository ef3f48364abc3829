/-
The incremental request parser: one turn of its `while` loop for each of the
nine states, the loop itself, and the measure that makes it terminate.  The
read buffer is touched only through the framer; what a complete line does to
parser and request never looks at the buffer.
-/
import HttpServer.Framer
import HttpServer.HttpHeaders

namespace HttpServer

open ByteText

theorem maxHttpBodySize_lt_sizeBound : maxHttpBodySize < sizeBound := by
  unfold sizeBound
  decide

theorem maxHttpBodySize_add_lt_sizeBound : maxHttpBodySize + maxHttpBodySize < sizeBound := by
  unfold sizeBound
  decide

inductive ParseResult where
  | success
  | incomplete
  | error
deriving Repr, DecidableEq

inductive ParserState where
  | requestLine
  | headers
  | body
  | chunkSize
  | chunkData
  | chunkCrlf
  | trailers
  | complete
  | error
deriving Repr, DecidableEq

structure HttpRequestParser where
  mState : ParserState := .requestLine
  mChunkRemaining : Nat := 0
deriving Repr, DecidableEq

/-- Everything that survives between two calls of `parse`, the read buffer
aside. -/
structure Progress where
  parser : HttpRequestParser := {}
  request : HttpRequest := {}
deriving DecidableEq

namespace Progress

def goto (p : Progress) (state : ParserState) : Progress :=
  { p with parser := { p.parser with mState := state } }

/-- `req.reset(); parser.reset();` -/
def reset (p : Progress) : Progress :=
  { parser := {}, request := p.request.reset }

/-- Reject: the parser is left in its error state. -/
def fail (p : Progress) : Bool × Progress := (false, p.goto .error)

@[simp] theorem goto_mState (p : Progress) (state : ParserState) :
    (p.goto state).parser.mState = state := rfl

@[simp] theorem goto_request (p : Progress) (state : ParserState) :
    (p.goto state).request = p.request := rfl

@[simp] theorem reset_mState (p : Progress) :
    p.reset.parser.mState = .requestLine := rfl

end Progress

def stringToMethod (methodStr : Bytes) : HttpMethod :=
  if methodStr = ascii "GET" then .get
  else if methodStr = ascii "POST" then .post
  else if methodStr = ascii "PUT" then .put
  else if methodStr = ascii "DELETE" then .delete
  else if methodStr = ascii "HEAD" then .head
  else if methodStr = ascii "OPTIONS" then .options
  else .unknown

def parseRequestLine (line : Bytes) (request : HttpRequest) : Bool × HttpRequest :=
  match line.idxOf? 32 with
  | none => (false, request)
  | some firstSpace =>
      let afterMethod := line.drop (firstSpace + 1)
      match afterMethod.idxOf? 32 with
      | none => (false, request)
      | some pathLength =>
          let updated : HttpRequest :=
            { request with
              method := stringToMethod (line.take firstSpace)
              path := afterMethod.take pathLength
              version := afterMethod.drop (pathLength + 1) }
          (updated.method ≠ .unknown && !updated.path.isEmpty, updated)

/-- Space or horizontal tab, skipped in front of a header value. -/
def isBlank (b : UInt8) : Bool := b = 32 || b = 9

def parseHeaderLine (line : Bytes) (request : HttpRequest) : Bool × HttpRequest :=
  match line.idxOf? 58 with
  | none => (false, request)
  | some colonPos =>
      let key := line.take colonPos
      let value := (line.drop (colonPos + 1)).dropWhile isBlank
      (true, { request with headers := request.headers.set key value })

/-- The checks on a chunk-size line up to and including `strtoul`; `none` is
every way they reject. -/
def chunkSizeOf (line : Bytes) : Option Nat :=
  let sizeHex := line.takeWhile (· ≠ 59)
  match sizeHex.head? with
  | none => none
  | some first =>
      if first = 45 ∨ first = 43 ∨ isSpace first then none
      else
        let result := strtoul sizeHex 16
        if !result.converted || !result.rest.isEmpty || result.erange then none
        else some result.value

def chunkSizeLine (p : Progress) (line : Bytes) : Bool × Progress :=
  match chunkSizeOf line with
  | none => p.fail
  | some size =>
      if maxHttpBodySize < size then p.fail
      else if maxHttpBodySize < (p.request.body.length + size) % sizeBound then p.fail
      else if size = 0 then (true, p.goto .trailers)
      else
        (true, { p with parser := ⟨.chunkData, size⟩ })

def chunkCrlfLine (p : Progress) (line : Bytes) : Bool × Progress :=
  if line.isEmpty then (true, p.goto .chunkSize) else p.fail

/-- Trailer lines are discarded. -/
def trailerLine (p : Progress) (line : Bytes) : Bool × Progress :=
  if line.isEmpty then (true, p.goto .complete) else (true, p)

def requestLineLine (p : Progress) (line : Bytes) : Bool × Progress :=
  match parseRequestLine line p.request with
  | (true, request) => (true, { p with request }.goto .headers)
  | (false, request) => { p with request }.fail

/-- The framing decision at the blank line. -/
def endOfHeaders (p : Progress) : Progress :=
  match p.request.headers.get (ascii "Transfer-Encoding") with
  | some te =>
      if HttpRequest.contains te (ascii "chunked") then p.goto .chunkSize
      else if 0 < p.request.headers.getContentLength then p.goto .body
      else p.goto .complete
  | none =>
      if 0 < p.request.headers.getContentLength then p.goto .body
      else p.goto .complete

def headerLine (p : Progress) (line : Bytes) : Bool × Progress :=
  if line.isEmpty then (true, endOfHeaders p)
  else
    match parseHeaderLine line p.request with
    | (true, request) => (true, { p with request })
    | (false, request) => { p with request }.fail

/-- How one turn of the loop ends: another turn, or a return from `parse`. -/
inductive Turn where
  | next (p : Progress) (readBuffer : Bytes)
  | ret (result : ParseResult) (p : Progress) (readBuffer : Bytes)
deriving DecidableEq

/-- The common shape of the line states. -/
def takeLine (p : Progress) (readBuffer : Bytes)
    (action : Progress → Bytes → Bool × Progress) : Turn :=
  match extractLine readBuffer with
  | (.incomplete, _, _) => .ret .incomplete p readBuffer
  | (.success, line, rest) =>
      match action p line with
      | (true, p') => .next p' rest
      | (false, p') => .ret .error p' rest
  | (_, _, rest) => .ret .error (p.goto .error) rest

/-- The common shape of the two states that wait for a byte count. -/
def takeBytes (p : Progress) (readBuffer : Bytes) (requiredBytes : Nat)
    (outBytes : Bytes) (action : Bytes → Progress) : Turn :=
  match extractBytes readBuffer requiredBytes outBytes with
  | (.incomplete, _, _) => .ret .incomplete p readBuffer
  | (.success, bytes, rest) => .next (action bytes) rest
  | (_, _, rest) => .ret .error (p.goto .error) rest

/-- `content_length - request.body.size()` in `size_t` arithmetic. -/
def bytesNeeded (request : HttpRequest) : Nat :=
  (request.headers.getContentLength + sizeBound - request.body.length) % sizeBound

def bodyBytes (p : Progress) (body : Bytes) : Progress :=
  { p with request := { p.request with body } }.goto .complete

def chunkDataBytes (p : Progress) (chunk : Bytes) : Progress :=
  { p with
    request := { p.request with body := p.request.body ++ chunk } }.goto .chunkCrlf

/-- One turn of the `while` loop of `parse`, its exit test included. -/
def turn (p : Progress) (readBuffer : Bytes) : Turn :=
  match p.parser.mState with
  | .complete => .ret .success p readBuffer
  | .error => .ret .error p readBuffer
  | .body =>
      takeBytes p readBuffer (bytesNeeded p.request) p.request.body (bodyBytes p)
  | .chunkSize => takeLine p readBuffer chunkSizeLine
  | .chunkData =>
      takeBytes p readBuffer p.parser.mChunkRemaining [] (chunkDataBytes p)
  | .chunkCrlf => takeLine p readBuffer chunkCrlfLine
  | .trailers => takeLine p readBuffer trailerLine
  | .requestLine => takeLine p readBuffer requestLineLine
  | .headers => takeLine p readBuffer headerLine

/-- The states in which the parser looks for a line, with what it does to it. -/
def lineAction? : ParserState → Option (Progress → Bytes → Bool × Progress)
  | .requestLine => some requestLineLine
  | .headers => some headerLine
  | .chunkSize => some chunkSizeLine
  | .chunkCrlf => some chunkCrlfLine
  | .trailers => some trailerLine
  | _ => none

theorem turn_of_lineAction {p : Progress} {action : Progress → Bytes → Bool × Progress}
    (haction : lineAction? p.parser.mState = some action) (readBuffer : Bytes) :
    turn p readBuffer = takeLine p readBuffer action := by
  cases hstate : p.parser.mState <;> rw [hstate] at haction <;>
    simp only [lineAction?, Option.some.injEq, reduceCtorEq] at haction <;>
    subst haction <;> simp only [turn, hstate]

theorem turn_body {p : Progress} (hstate : p.parser.mState = .body)
    (readBuffer : Bytes) :
    turn p readBuffer =
      takeBytes p readBuffer (bytesNeeded p.request) p.request.body (bodyBytes p) := by
  simp only [turn, hstate]

theorem turn_chunkData {p : Progress} (hstate : p.parser.mState = .chunkData)
    (readBuffer : Bytes) :
    turn p readBuffer =
      takeBytes p readBuffer p.parser.mChunkRemaining [] (chunkDataBytes p) := by
  simp only [turn, hstate]

theorem takeLine_of_success {p : Progress} {readBuffer line rest : Bytes}
    (hline : extractLine readBuffer = (.success, line, rest))
    (action : Progress → Bytes → Bool × Progress) :
    takeLine p readBuffer action =
      if (action p line).1 then .next (action p line).2 rest
      else .ret .error (action p line).2 rest := by
  simp only [takeLine, hline]
  rcases action p line with ⟨accepted, p'⟩
  cases accepted <;> rfl

/-- A turn that goes on has taken a whole line off the buffer. -/
theorem takeLine_next {p p' : Progress} {readBuffer rest : Bytes}
    {action : Progress → Bytes → Bool × Progress}
    (hturn : takeLine p readBuffer action = .next p' rest) :
    ∃ line, extractLine readBuffer = (.success, line, rest) ∧
      action p line = (true, p') := by
  rcases hextract : extractLine readBuffer with ⟨status, line, rest'⟩
  cases status with
  | success =>
      rw [takeLine_of_success hextract] at hturn
      split at hturn
      · next haccept =>
          obtain ⟨rfl, rfl⟩ := Turn.next.inj hturn
          exact ⟨line, rfl, by rw [← haccept]⟩
      · contradiction
  | incomplete => simp [takeLine, hextract] at hturn
  | headerTooLarge => simp [takeLine, hextract] at hturn
  | payloadTooLarge => simp [takeLine, hextract] at hturn

/-- Weight of a state in the loop measure; `ChunkData` may move on without
consuming only towards `ChunkCRLF`. -/
def stateWeight : ParserState → Nat
  | .complete | .error => 0
  | .chunkData => 2
  | _ => 1

def loopMeasure (p : Progress) (readBuffer : Bytes) : Nat :=
  2 * readBuffer.length + stateWeight p.parser.mState

theorem stateWeight_le (state : ParserState) : stateWeight state ≤ 2 := by
  cases state <;> decide

theorem takeBytes_next {p p' : Progress} {readBuffer rest outBytes : Bytes}
    {requiredBytes : Nat} {action : Bytes → Progress}
    (hturn : takeBytes p readBuffer requiredBytes outBytes action = .next p' rest) :
    ∃ bytes, extractBytes readBuffer requiredBytes outBytes = (.success, bytes, rest) ∧
      p' = action bytes := by
  rcases hextract : extractBytes readBuffer requiredBytes outBytes with
    ⟨status, bytes, rest'⟩
  simp only [takeBytes, hextract] at hturn
  cases status with
  | success =>
      obtain ⟨rfl, rfl⟩ := Turn.next.inj hturn
      exact ⟨bytes, rfl, rfl⟩
  | incomplete => simp at hturn
  | headerTooLarge => simp at hturn
  | payloadTooLarge => simp at hturn

/-- Every turn that goes on makes progress. -/
theorem turn_decreases {p p' : Progress} {readBuffer rest : Bytes}
    (hturn : turn p readBuffer = .next p' rest) :
    loopMeasure p' rest < loopMeasure p readBuffer := by
  simp only [loopMeasure]
  cases haction : lineAction? p.parser.mState with
  | some action =>
      rw [turn_of_lineAction haction] at hturn
      obtain ⟨line, hline, _⟩ := takeLine_next hturn
      have hlength := length_extractLine hline
      have hweight := stateWeight_le p'.parser.mState
      omega
  | none =>
      cases hstate : p.parser.mState <;> rw [hstate] at haction <;>
        simp only [lineAction?, reduceCtorEq] at haction <;>
        simp only [turn, hstate, reduceCtorEq] at hturn
      · obtain ⟨body, hbytes, rfl⟩ := takeBytes_next hturn
        have hlength := length_extractBytes hbytes
        simp only [bodyBytes, Progress.goto_mState, stateWeight]
        omega
      · obtain ⟨chunk, hbytes, rfl⟩ := takeBytes_next hturn
        have hlength := length_extractBytes hbytes
        simp only [chunkDataBytes, Progress.goto_mState, stateWeight]
        omega

/-- `HttpRequestParser::parse`. -/
def parse (p : Progress) (readBuffer : Bytes) : ParseResult × Progress × Bytes :=
  match _hturn : turn p readBuffer with
  | .ret result p' rest => (result, p', rest)
  | .next p' rest => parse p' rest
termination_by loopMeasure p readBuffer
decreasing_by exact turn_decreases _hturn

theorem parse_of_ret {p p' : Progress} {readBuffer rest : Bytes}
    {result : ParseResult} (hturn : turn p readBuffer = .ret result p' rest) :
    parse p readBuffer = (result, p', rest) := by
  rw [parse]
  split <;> simp_all

theorem parse_of_next {p p' : Progress} {readBuffer rest : Bytes}
    (hturn : turn p readBuffer = .next p' rest) :
    parse p readBuffer = parse p' rest := by
  rw [parse]
  split <;> simp_all

/-- In its final state the parser hands the request out at once. -/
theorem parse_of_complete {p : Progress} (hstate : p.parser.mState = .complete)
    (readBuffer : Bytes) : parse p readBuffer = (.success, p, readBuffer) := by
  apply parse_of_ret
  simp only [turn, hstate]

end HttpServer
