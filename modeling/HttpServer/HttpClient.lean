/-
The other end of the wire: how a recipient that knows only the HTTP/1.1
message rules reads a response.  This is a statement of those rules, not a
translation of server code; the response encoder is compared with it.
-/
import HttpServer.MessageFormat

namespace HttpServer

open ByteText

namespace HttpClient

/-- The line at the front of the bytes, and what follows its CRLF. -/
def splitLine (wire : Bytes) : Option (Bytes × Bytes) :=
  (crlfIndex? wire).map fun i => (wire.take i, wire.drop (i + 2))

theorem splitLine_line {line : Bytes} (hfree : CrlfFree line) (rest : Bytes) :
    splitLine (line ++ (crlf ++ rest)) = some (line, rest) := by
  rw [splitLine, crlfIndex?_line hfree rest]
  simp [crlf, List.drop_append]

theorem length_splitLine {wire line rest : Bytes}
    (hsplit : splitLine wire = some (line, rest)) : rest.length < wire.length := by
  obtain ⟨i, hindex, heq⟩ := Option.map_eq_some_iff.mp hsplit
  have hlong := lt_length_of_crlfIndex? hindex
  obtain ⟨_, rfl⟩ := Prod.mk.inj heq
  simp only [List.length_drop]
  omega

theorem splitLine_eq_some {text line rest : Bytes}
    (hsplit : splitLine text = some (line, rest)) :
    CrlfFree line ∧ text = line ++ (crlf ++ rest) := by
  obtain ⟨i, hindex, heq⟩ := Option.map_eq_some_iff.mp hsplit
  obtain ⟨rfl, rfl⟩ := Prod.mk.inj heq
  have htext := eq_of_crlfIndex? hindex
  refine ⟨?_, htext⟩
  cases hinside : crlfIndex? (text.take i) with
  | none => exact hinside
  | some j =>
      have hearlier := crlfIndex?_append hinside (crlf ++ text.drop (i + 2))
      rw [← htext, hindex] at hearlier
      have hlong := lt_length_of_crlfIndex? hinside
      have hshort := List.length_take_le i text
      obtain rfl := Option.some.inj hearlier
      omega

/-- A text cut at every CRLF in it. -/
def textLines (text : Bytes) : List Bytes :=
  match _hsplit : splitLine text with
  | none => [text]
  | some (line, rest) => line :: textLines rest
termination_by text.length
decreasing_by exact length_splitLine _hsplit

theorem textLines_free {text : Bytes} (hfree : CrlfFree text) : textLines text = [text] := by
  have hnone : splitLine text = none := by
    rw [splitLine, show crlfIndex? text = none from hfree]
    rfl
  rw [textLines]
  split <;> simp_all

theorem textLines_line {line : Bytes} (hfree : CrlfFree line) (rest : Bytes) :
    textLines (line ++ (crlf ++ rest)) = line :: textLines rest := by
  have hsplit := splitLine_line hfree rest
  rw [textLines]
  split <;> simp_all

/-- The pieces hold no CRLF, and put together they are the text. -/
theorem textLines_spec (text : Bytes) :
    (∀ line ∈ textLines text, CrlfFree line) ∧
      (textLines text).flatMap (· ++ crlf) = text ++ crlf := by
  induction text using textLines.induct with
  | case1 text hnone =>
      have hfree : CrlfFree text := Option.map_eq_none_iff.mp hnone
      simp [textLines_free hfree, hfree]
  | case2 text line rest hsplit ih =>
      obtain ⟨hfree, rfl⟩ := splitLine_eq_some hsplit
      rw [textLines_line hfree, List.forall_mem_cons, List.flatMap_cons, ih.2]
      exact ⟨⟨hfree, ih.1⟩, by simp⟩

/-- The lines up to the first blank line, and what follows it. -/
def readBlock (wire : Bytes) : Option (List Bytes × Bytes) :=
  match _hsplit : splitLine wire with
  | none => none
  | some ([], rest) => some ([], rest)
  | some (b :: line, rest) =>
      (readBlock rest).map fun block => ((b :: line) :: block.1, block.2)
termination_by wire.length
decreasing_by exact length_splitLine _hsplit

theorem readBlock_blank (rest : Bytes) : readBlock (crlf ++ rest) = some ([], rest) := by
  have hfree : CrlfFree [] := rfl
  have hsplit : splitLine (crlf ++ rest) = some ([], rest) := splitLine_line hfree rest
  rw [readBlock]
  split <;> simp_all

theorem readBlock_line {line : Bytes} (hne : line ≠ []) (hfree : CrlfFree line)
    (rest : Bytes) :
    readBlock (line ++ (crlf ++ rest)) =
      (readBlock rest).map fun block => (line :: block.1, block.2) := by
  have hsplit := splitLine_line hfree rest
  rw [readBlock]
  split <;> simp_all

/-- A block of non-empty lines is read back line by line. -/
theorem readBlock_lines (lines : List Bytes)
    (hok : ∀ line ∈ lines, line ≠ [] ∧ CrlfFree line) (rest : Bytes) :
    readBlock (lines.flatMap (· ++ crlf) ++ (crlf ++ rest)) = some (lines, rest) := by
  induction lines with
  | nil => exact readBlock_blank rest
  | cons line lines ih =>
      obtain ⟨hne, hfree⟩ := hok line List.mem_cons_self
      have hsplit : (line :: lines).flatMap (· ++ crlf) ++ (crlf ++ rest) =
          line ++ (crlf ++ (lines.flatMap (· ++ crlf) ++ (crlf ++ rest))) := by simp
      rw [hsplit, readBlock_line hne hfree,
        ih (fun other hother => hok other (List.mem_cons_of_mem _ hother))]
      rfl

/-- Name and value of a header line. -/
def readField (line : Bytes) : Bytes × Bytes :=
  (line.takeWhile (· ≠ 58), ((line.dropWhile (· ≠ 58)).drop 1).dropWhile isBlank)

theorem readField_fieldText {field : Bytes × Bytes} (hok : FieldOk field) :
    readField (fieldText field) = field := by
  have hname : ∀ b ∈ field.1, decide (b ≠ 58) = true := by
    intro b hb
    have hne : b ≠ 58 := fun h => hok.nameColon (h ▸ hb)
    simpa using hne
  have hvalue : (32 :: field.2).dropWhile isBlank = field.2 := by
    rw [List.dropWhile_cons_of_pos (by decide)]
    cases hbytes : field.2 with
    | nil => rfl
    | cons b rest =>
        have hb := hok.valueStart b (by simp [hbytes])
        rw [List.dropWhile_cons_of_neg (by simp [hb])]
  rw [readField, fieldText, List.takeWhile_append_of_pos hname,
    List.dropWhile_append_of_pos hname]
  simp [hvalue]

/-- The status code of a status line: the digits behind the first space. -/
def readStatus (line : Bytes) : Nat :=
  digitsValue 10 (spanDigits 10 ((line.dropWhile (· ≠ 32)).drop 1)).1

/-- Responses that never have a body, whatever their headers say. -/
def noBody (method : HttpMethod) (status : Nat) : Bool :=
  method = .head || (100 ≤ status && status < 200) || status = 204 || status = 304

def readChunkSize (line : Bytes) : Option Nat :=
  match spanDigits 16 (line.takeWhile (· ≠ 59)) with
  | (d :: ds, []) => some (digitsValue 16 (d :: ds))
  | _ => none

def takeExact (n : Nat) (wire : Bytes) : Option (Bytes × Bytes) :=
  if wire.length < n then none else some (wire.take n, wire.drop n)

theorem takeExact_append (data rest : Bytes) :
    takeExact data.length (data ++ rest) = some (data, rest) := by
  rw [takeExact, if_neg (by rw [List.length_append]; omega)]
  simp

/-- A chunk behind its size line: exactly `n` bytes and a CRLF. -/
def readChunkData (n : Nat) (wire : Bytes) : Option (Bytes × Bytes) :=
  match takeExact n wire with
  | none => none
  | some (data, rest) =>
      match splitLine rest with
      | some ([], later) => some (data, later)
      | _ => none

theorem length_readChunkData {n : Nat} {wire data rest : Bytes}
    (hread : readChunkData n wire = some (data, rest)) : rest.length < wire.length := by
  simp only [readChunkData, takeExact] at hread
  split at hread
  · contradiction
  · next data' rest' htake =>
      split at htake
      · contradiction
      · obtain ⟨_, rfl⟩ := Prod.mk.inj (Option.some.inj htake)
        split at hread
        · next later hsplit =>
            obtain ⟨_, rfl⟩ := Prod.mk.inj (Option.some.inj hread)
            have hlength := length_splitLine hsplit
            simp only [List.length_drop] at hlength
            omega
        · contradiction

/-- A chunked body and what follows it. -/
def readChunked (wire : Bytes) : Option (Bytes × Bytes) :=
  match _hline : splitLine wire with
  | none => none
  | some (line, rest) =>
      match readChunkSize line with
      | none => none
      | some 0 => (readBlock rest).map fun block => ([], block.2)
      | some (n + 1) =>
          match _hdata : readChunkData (n + 1) rest with
          | none => none
          | some (data, rest') =>
              (readChunked rest').map fun later => (data ++ later.1, later.2)
termination_by wire.length
decreasing_by
  have hfirst := length_splitLine _hline
  have hsecond := length_readChunkData _hdata
  omega

def fieldNamed (fields : List (Bytes × Bytes)) (name : Bytes) : Option Bytes :=
  (fields.find? fun field => lowerBytes field.1 = name).map Prod.snd

/-- Body and following bytes of a message whose header fields are given. -/
def readBody (fields : List (Bytes × Bytes)) (wire : Bytes) : Option (Bytes × Bytes) :=
  match fieldNamed fields (ascii "transfer-encoding") with
  | some value => if value = ascii "chunked" then readChunked wire else none
  | none =>
      match fieldNamed fields (ascii "content-length") with
      | none => none
      | some value =>
          takeExact (digitsValue 10 (spanDigits 10 value).1) wire

/-- One response to a request with the given method: its body and the bytes
behind the message. -/
def readResponse (method : HttpMethod) (wire : Bytes) : Option (Bytes × Bytes) :=
  match readBlock wire with
  | some (status :: lines, rest) =>
      if noBody method (readStatus status) then some ([], rest)
      else readBody (lines.map readField) rest
  | _ => none

/-- Cut a connection's bytes into one message per request, nothing left over. -/
def splitResponses : List HttpMethod → Bytes → Option (List Bytes)
  | [], wire => if wire = [] then some [] else none
  | method :: methods, wire =>
      match readResponse method wire with
      | none => none
      | some (_, rest) =>
          (splitResponses methods rest).map fun messages =>
            wire.take (wire.length - rest.length) :: messages

theorem readChunkSize_spells {sizeHex : Bytes} {n : Nat} (hspell : Spells 16 sizeHex n)
    (extension : Option Bytes) :
    readChunkSize (sizeHex ++ extensionText extension) = some n := by
  have hcut : (sizeHex ++ extensionText extension).takeWhile (· ≠ 59) = sizeHex := by
    rw [List.takeWhile_append_of_pos]
    · cases extension <;> simp [extensionText]
    · intro b hb
      simpa using (digit_byte b (hspell.mem_isSome hb)).2.2.2.2.1
  obtain ⟨hne, digits, hdigits, hvalue⟩ := hspell
  have hspan := @spanDigits_append 16 sizeHex digits hdigits [] (by simp)
  rw [List.append_nil] at hspan
  cases digits with
  | nil => exact absurd (by simpa using hdigits) hne
  | cons d ds => simp only [readChunkSize, hcut, hspan, hvalue]

theorem readChunkData_append (data rest : Bytes) :
    readChunkData data.length (data ++ (crlf ++ rest)) = some (data, rest) := by
  have hfree : CrlfFree [] := rfl
  have hsplit : splitLine (crlf ++ rest) = some ([], rest) := splitLine_line hfree rest
  simp only [readChunkData, takeExact_append, hsplit]

theorem readChunked_chunk {chunk : WireChunk} (hok : chunk.Ok) (rest : Bytes) :
    readChunked (chunk.text ++ rest) =
      (readChunked rest).map fun later => (chunk.data ++ later.1, later.2) := by
  have hsplit : chunk.text ++ rest =
      chunk.sizeLine ++ (crlf ++ (chunk.data ++ (crlf ++ rest))) := by
    simp [WireChunk.text]
  have hline := splitLine_line (crlfFree_sizeLine hok.spells hok.extensionFree)
    (chunk.data ++ (crlf ++ rest))
  have hsize := readChunkSize_spells hok.spells chunk.extension
  have hdata := readChunkData_append chunk.data rest
  have hpositive : chunk.data.length ≠ 0 := by
    simpa [List.length_eq_zero_iff] using hok.nonempty
  obtain ⟨n, hn⟩ := Nat.exists_eq_succ_of_ne_zero hpositive
  rw [hn] at hsize hdata
  rw [hsplit, readChunked]
  simp only [WireChunk.sizeLine]
  split <;> simp_all
  split <;> simp_all

/-- A chunked body is read back with exactly what follows it. -/
theorem readChunked_text {body : ChunkedBody} (hok : body.Ok) (rest : Bytes) :
    readChunked (body.text ++ rest) = some (body.payload, rest) := by
  have hlast : readChunked (body.lastLine ++ (crlf ++ (body.trailerText ++
      (crlf ++ rest)))) = some ([], rest) := by
    have hline := splitLine_line
      (crlfFree_sizeLine hok.lastSpells hok.lastExtensionFree)
      (body.trailerText ++ (crlf ++ rest))
    have hsize := readChunkSize_spells hok.lastSpells body.lastExtension
    have htrailers := readBlock_lines body.trailers hok.trailersOk rest
    rw [readChunked]
    simp only [ChunkedBody.lastLine, ChunkedBody.trailerText] at hline hsize ⊢
    split <;> simp_all
  have hchunks : ∀ chunks : List WireChunk, (∀ chunk ∈ chunks, chunk.Ok) →
      readChunked (chunks.flatMap WireChunk.text ++ (body.lastLine ++ (crlf ++
        (body.trailerText ++ (crlf ++ rest))))) =
          some (chunks.flatMap WireChunk.data, rest) := by
    intro chunks hchunksOk
    induction chunks with
    | nil => exact hlast
    | cons chunk chunks ih =>
        rw [List.flatMap_cons, List.append_assoc,
          readChunked_chunk (hchunksOk chunk List.mem_cons_self),
          ih (fun c hc => hchunksOk c (List.mem_cons_of_mem _ hc))]
        rfl
  have hsplit : body.text ++ rest = body.chunks.flatMap WireChunk.text ++
      (body.lastLine ++ (crlf ++ (body.trailerText ++ (crlf ++ rest)))) := by
    simp [ChunkedBody.text]
  rw [hsplit, hchunks body.chunks hok.chunksOk]
  rfl

end HttpClient

end HttpServer
