/-
How the parser reads well-formed text: one complete line, a block of header
lines, a decimal length, a chunk-size line, a chunked body.  Every lemma says
how the parse loop takes the text off the front of arbitrary further bytes, so
that a message is assembled from its parts.
-/
import Mathlib.Data.FinEnum
import Mathlib.Data.List.TakeWhile
import Mathlib.Logic.Relation
import HttpServer.HttpRequestParser

namespace HttpServer

open ByteText

/-- Texts joined by a byte that is neither CR nor LF stay free of CRLF. -/
theorem crlfFree_append_cons {left right : Bytes} {b : UInt8}
    (hleft : CrlfFree left) (hright : CrlfFree right) (hcr : b ≠ cr) (hlf : b ≠ lf) :
    CrlfFree (left ++ b :: right) := by
  induction left with
  | nil =>
      have hright' : crlfIndex? right = none := hright
      simp [CrlfFree, crlfIndex?, hcr, hright']
  | cons c tail ih =>
      simp only [CrlfFree, crlfIndex?] at hleft
      split at hleft
      · contradiction
      · next hhere =>
          have htail : CrlfFree tail := by simpa [CrlfFree] using hleft
          have hnext : ¬ (c = cr ∧ (tail ++ b :: right).head? = some lf) := by
            rintro ⟨hc, hhead⟩
            cases tail with
            | nil => exact hlf (by simpa using hhead)
            | cons d _ => exact hhere ⟨hc, by simpa using hhead⟩
          have hrest : crlfIndex? (tail ++ b :: right) = none := ih htail
          rw [CrlfFree, List.cons_append, crlfIndex?, if_neg hnext, hrest]
          rfl

theorem idxOf?_append_cons {left : Bytes} {b : UInt8} (hleft : b ∉ left)
    (right : Bytes) : (left ++ b :: right).idxOf? b = some left.length := by
  induction left with
  | nil => simp [List.idxOf?_cons]
  | cons c tail ih =>
      simp only [List.mem_cons, not_or] at hleft
      have hne : (c == b) = false := by simpa using Ne.symm hleft.1
      rw [List.cons_append, List.idxOf?_cons, hne, ih hleft.2]
      rfl

theorem drop_append_cons (left right : Bytes) (b : UInt8) :
    (left ++ b :: right).drop (left.length + 1) = right := by
  simp [List.drop_append]

section Lines

/-- One turn that goes on; a line it looks at has at most `limit` bytes. -/
def Consumes (limit : Nat) (source target : Progress × Bytes) : Prop :=
  turn source.1 source.2 = .next target.1 target.2 ∧
    ((lineAction? source.1.parser.mState).isSome → (frontLine source.2).length ≤ limit)

/-- Finitely many turns that go on. -/
def Reads (limit : Nat) : Progress × Bytes → Progress × Bytes → Prop :=
  Relation.ReflTransGen (Consumes limit)

variable {limit : Nat}

theorem Reads.parse_eq {source target : Progress × Bytes}
    (hreads : Reads limit source target) :
    parse source.1 source.2 = parse target.1 target.2 := by
  induction hreads with
  | refl => rfl
  | tail _ hlast ih => exact ih.trans (parse_of_next hlast.1)

theorem Reads.parse_success {source target : Progress × Bytes}
    (hreads : Reads limit source target) (hcomplete : target.1.parser.mState = .complete) :
    parse source.1 source.2 = (.success, target.1, target.2) :=
  hreads.parse_eq.trans (parse_of_complete hcomplete target.2)

/-- A complete line at the front of the buffer is consumed by its state's
action. -/
theorem reads_line (hlimit : limit ≤ maxChunkBodySize) {p p' : Progress}
    {action : Progress → Bytes → Bool × Progress}
    (haction : lineAction? p.parser.mState = some action) {line : Bytes}
    (hfree : CrlfFree line) (hlength : line.length ≤ limit)
    (haccept : action p line = (true, p')) (rest : Bytes) :
    Reads limit (p, line ++ (crlf ++ rest)) (p', rest) := by
  apply Relation.ReflTransGen.single
  constructor
  · simp only [turn_of_lineAction haction,
      takeLine_of_success (extractLine_line hfree (hlength.trans hlimit) rest), haccept,
      ↓reduceIte]
  · intro _
    rw [frontLine_line hfree]
    exact hlength

theorem parse_line_reject {p p' : Progress}
    {action : Progress → Bytes → Bool × Progress}
    (haction : lineAction? p.parser.mState = some action) {line : Bytes}
    (hfree : CrlfFree line) (hlength : line.length ≤ maxChunkBodySize)
    (hreject : action p line = (false, p')) (rest : Bytes) :
    parse p (line ++ (crlf ++ rest)) = (.error, p', rest) := by
  apply parse_of_ret
  rw [turn_of_lineAction haction,
    takeLine_of_success (extractLine_line hfree hlength rest), hreject]
  rfl

end Lines

section RequestLine

def methodText : HttpMethod → Bytes
  | .get => ascii "GET"
  | .post => ascii "POST"
  | .put => ascii "PUT"
  | .delete => ascii "DELETE"
  | .head => ascii "HEAD"
  | .options => ascii "OPTIONS"
  | .unknown => []

theorem stringToMethod_methodText {method : HttpMethod} (hknown : method ≠ .unknown) :
    stringToMethod (methodText method) = method := by
  cases method with
  | unknown => contradiction
  | _ => decide

theorem space_not_mem_methodText (method : HttpMethod) : 32 ∉ methodText method := by
  cases method <;> decide

theorem crlfFree_methodText (method : HttpMethod) : CrlfFree (methodText method) := by
  cases method <;> decide

def requestLineText (method : HttpMethod) (path version : Bytes) : Bytes :=
  methodText method ++ 32 :: (path ++ 32 :: version)

theorem crlfFree_requestLineText (method : HttpMethod) {path version : Bytes}
    (hpath : CrlfFree path) (hversion : CrlfFree version) :
    CrlfFree (requestLineText method path version) := by
  refine crlfFree_append_cons (crlfFree_methodText method) ?_ (by decide) (by decide)
  exact crlfFree_append_cons hpath hversion (by decide) (by decide)

theorem parseRequestLine_requestLineText {method : HttpMethod} {path version : Bytes}
    (hknown : method ≠ .unknown) (hpath : path ≠ []) (hspace : 32 ∉ path)
    (request : HttpRequest) :
    parseRequestLine (requestLineText method path version) request =
      (true, { request with method, path, version }) := by
  have hmethod := stringToMethod_methodText hknown
  simp only [parseRequestLine, requestLineText,
    idxOf?_append_cons (space_not_mem_methodText method), drop_append_cons,
    idxOf?_append_cons hspace, List.take_left', hmethod]
  simp [hknown, hpath]

end RequestLine

section HeaderLines

/-- A header as it stands on its line. -/
def fieldText (field : Bytes × Bytes) : Bytes :=
  field.1 ++ 58 :: 32 :: field.2

/-- A header line that is read back exactly as it was written. -/
structure FieldOk (field : Bytes × Bytes) : Prop where
  nameColon : 58 ∉ field.1
  nameFree : CrlfFree field.1
  valueFree : CrlfFree field.2
  valueStart : ∀ b ∈ field.2.head?, isBlank b = false

instance (field : Bytes × Bytes) : Decidable (FieldOk field) :=
  decidable_of_iff
    (58 ∉ field.1 ∧ CrlfFree field.1 ∧ CrlfFree field.2 ∧
      ∀ b ∈ field.2.head?, isBlank b = false)
    ⟨fun ⟨hcolon, hname, hvalue, hstart⟩ => ⟨hcolon, hname, hvalue, hstart⟩,
      fun hok => ⟨hok.nameColon, hok.nameFree, hok.valueFree, hok.valueStart⟩⟩

theorem crlfFree_fieldText {field : Bytes × Bytes} (hname : CrlfFree field.1)
    (hvalue : CrlfFree field.2) : CrlfFree (fieldText field) := by
  have hbehind : CrlfFree ([] ++ 32 :: field.2) :=
    crlfFree_append_cons rfl hvalue (by decide) (by decide)
  exact crlfFree_append_cons hname hbehind (by decide) (by decide)

theorem FieldOk.crlfFree {field : Bytes × Bytes} (hok : FieldOk field) :
    CrlfFree (fieldText field) := crlfFree_fieldText hok.nameFree hok.valueFree

theorem fieldText_ne_nil (field : Bytes × Bytes) : (fieldText field).isEmpty = false := by
  simp [fieldText]

theorem parseHeaderLine_fieldText {field : Bytes × Bytes} (hok : FieldOk field)
    (request : HttpRequest) :
    parseHeaderLine (fieldText field) request =
      (true, { request with headers := request.headers.set field.1 field.2 }) := by
  have hvalue : (32 :: field.2).dropWhile isBlank = field.2 := by
    rw [List.dropWhile_cons_of_pos (by decide)]
    cases hbytes : field.2 with
    | nil => rfl
    | cons b rest =>
        have hb := hok.valueStart b (by simp [hbytes])
        rw [List.dropWhile_cons_of_neg (by simp [hb])]
  simp only [parseHeaderLine, fieldText, idxOf?_append_cons hok.nameColon,
    drop_append_cons, hvalue, List.take_left']

/-- The same point of the parse with another header map. -/
def Progress.withHeaders (p : Progress) (headers : HttpHeaders) : Progress :=
  { p with request := { p.request with headers } }

def setFields (headers : HttpHeaders) (fields : List (Bytes × Bytes)) : HttpHeaders :=
  fields.foldl (fun acc field => acc.set field.1 field.2) headers

def fieldLines (fields : List (Bytes × Bytes)) : Bytes :=
  fields.flatMap fun field => fieldText field ++ crlf

/-- A block of header lines is folded into the map in order. -/
theorem reads_fieldLines {limit : Nat} (hlimit : limit ≤ maxChunkBodySize)
    (fields : List (Bytes × Bytes)) :
    ∀ p : Progress, p.parser.mState = .headers →
      (∀ field ∈ fields, FieldOk field) →
      (∀ field ∈ fields, (fieldText field).length ≤ limit) →
      ∀ rest : Bytes,
        Reads limit (p, fieldLines fields ++ rest)
          (p.withHeaders (setFields p.request.headers fields), rest) := by
  induction fields with
  | nil =>
      intro p _ _ _ rest
      exact Relation.ReflTransGen.refl
  | cons field fields ih =>
      intro p hstate hok hlength rest
      have hfield := hok field List.mem_cons_self
      have hsplit : fieldLines (field :: fields) ++ rest =
          fieldText field ++ (crlf ++ (fieldLines fields ++ rest)) := by
        simp [fieldLines]
      have haction : lineAction? p.parser.mState = some headerLine := by
        rw [hstate]
        rfl
      have haccept : headerLine p (fieldText field) =
          (true, p.withHeaders (p.request.headers.set field.1 field.2)) := by
        simp only [headerLine, fieldText_ne_nil, Bool.false_eq_true, ↓reduceIte,
          parseHeaderLine_fieldText hfield, Progress.withHeaders]
      have hfirst := reads_line hlimit haction hfield.crlfFree
        (hlength field List.mem_cons_self) haccept (fieldLines fields ++ rest)
      have hlater := ih (p.withHeaders (p.request.headers.set field.1 field.2)) hstate
        (fun f hf => hok f (List.mem_cons_of_mem _ hf))
        (fun f hf => hlength f (List.mem_cons_of_mem _ hf)) rest
      rw [hsplit]
      exact hfirst.trans hlater

/-- The blank line closes the block and decides the framing. -/
theorem reads_blank_line {limit : Nat} (hlimit : limit ≤ maxChunkBodySize) {p : Progress}
    (hstate : p.parser.mState = .headers) (rest : Bytes) :
    Reads limit (p, crlf ++ rest) (endOfHeaders p, rest) := by
  have haction : lineAction? p.parser.mState = some headerLine := by
    rw [hstate]
    rfl
  have hfree : CrlfFree [] := rfl
  exact reads_line hlimit haction hfree (Nat.zero_le _) rfl rest

end HeaderLines

section Numerals

theorem digit_byte : ∀ b : UInt8, (digitValue 16 b).isSome →
    b ≠ 0 ∧ isSpace b = false ∧ b ≠ 45 ∧ b ≠ 43 ∧ b ≠ 59 ∧ b ≠ 120 ∧ b ≠ 88 ∧
      b ≠ cr := by
  decide +kernel

theorem digitValue_mono {base : Nat} (hbase : base ≤ 16) {b : UInt8}
    (hdigit : (digitValue base b).isSome) : (digitValue 16 b).isSome := by
  obtain ⟨d, hd⟩ := Option.isSome_iff_exists.mp hdigit
  simp only [digitValue, Option.filter_eq_some_iff, decide_eq_true_eq] at hd
  have hsome : digitValue 16 b = some d := by
    simp only [digitValue, Option.filter_eq_some_iff, decide_eq_true_eq]
    exact ⟨hd.1, by omega⟩
  simp [hsome]

theorem readSign_of_digit {b : UInt8} (hminus : b ≠ 45) (hplus : b ≠ 43) (rest : Bytes) :
    readSign (b :: rest) = (false, b :: rest) := by
  unfold readSign
  split
  · simp_all
  · simp_all
  · rfl

theorem skipHexLead_of_digits {text : Bytes}
    (hdigits : ∀ b ∈ text, b ≠ 120 ∧ b ≠ 88) : skipHexLead text = text := by
  unfold skipHexLead
  split
  · next zero x digit rest =>
      have hx := hdigits x (by simp)
      simp [hx.1, hx.2]
  · rfl

theorem cString_of_spells {base : Nat} (hbase : base ≤ 16) {text : Bytes} {n : Nat}
    (hspell : Spells base text n) : cString text = text := by
  rw [cString, List.takeWhile_eq_self_iff]
  intro b hb
  simpa using (digit_byte b (digitValue_mono hbase (hspell.mem_isSome hb))).1

theorem skipHexLead_of_spells {base : Nat} (hbase : base ≤ 16) {text : Bytes} {n : Nat}
    (hspell : Spells base text n) : skipHexLead text = text := by
  apply skipHexLead_of_digits
  intro b hb
  have hbyte := digit_byte b (digitValue_mono hbase (hspell.mem_isSome hb))
  exact ⟨hbyte.2.2.2.2.2.1, hbyte.2.2.2.2.2.2.1⟩

/-- On a plain numeral the C conversions do what their name says. -/
theorem strtoul_spells {base : Nat} (hbase : base ≤ 16) {text : Bytes} {n : Nat}
    (hspell : Spells base text n) (hn : n < sizeBound) :
    strtoul text base = ⟨n, true, [], false⟩ := by
  have hdigit : ∀ b ∈ text, (digitValue 16 b).isSome :=
    fun b hb => digitValue_mono hbase (hspell.mem_isSome hb)
  have hcstring := cString_of_spells hbase hspell
  have hlead := skipHexLead_of_spells hbase hspell
  obtain ⟨hne, digits, hdigits, hvalue⟩ := hspell
  have hspan : spanDigits base text = (digits, []) := by
    have happend := @spanDigits_append base text digits hdigits [] (by simp)
    rwa [List.append_nil] at happend
  have hdigitsNe : digits.isEmpty = false := by
    cases digits with
    | nil => exact absurd (by simpa using hdigits) hne
    | cons _ _ => rfl
  have hsign : readSign (text.dropWhile isSpace) = (false, text) := by
    cases text with
    | nil => exact absurd rfl hne
    | cons b rest =>
        have hbyte := digit_byte b (hdigit b List.mem_cons_self)
        rw [List.dropWhile_cons_of_neg (by simp [hbyte.2.1])]
        exact readSign_of_digit hbyte.2.2.1 hbyte.2.2.2.1 rest
  have hbody : (if base = 16 then skipHexLead text else text) = text := by
    rw [hlead, ite_self]
  have hfits : ¬ sizeBound ≤ n := Nat.not_le.mpr hn
  simp only [strtoul, hcstring, hsign, hbody, hspan, hdigitsNe, Bool.false_eq_true,
    ↓reduceIte, hvalue, hfits]

theorem stoull_numeral {n : Nat} (hn : n < sizeBound) :
    stoull (numeral 10 n) = some n := by
  have hspell := @numeral_spells 10 (by decide) (by decide) n
  simp [stoull, strtoul_spells (by decide) hspell hn]

/-- The optional `;extension` of a chunk-size line. -/
def extensionText : Option Bytes → Bytes
  | none => []
  | some text => 59 :: text

theorem chunkSizeOf_spells {sizeHex : Bytes} {n : Nat} (hspell : Spells 16 sizeHex n)
    (hn : n < sizeBound) (extension : Option Bytes) :
    chunkSizeOf (sizeHex ++ extensionText extension) = some n := by
  have hbytes : ∀ b ∈ sizeHex, (digitValue 16 b).isSome :=
    fun b hb => hspell.mem_isSome hb
  have hcut : (sizeHex ++ extensionText extension).takeWhile (· ≠ 59) = sizeHex := by
    rw [List.takeWhile_append_of_pos]
    · cases extension with
      | none => simp [extensionText]
      | some text => simp [extensionText]
    · intro b hb
      simpa using (digit_byte b (hbytes b hb)).2.2.2.2.1
  obtain ⟨first, rest, rfl⟩ := List.exists_cons_of_ne_nil hspell.1
  have hfirst := digit_byte first (hbytes first List.mem_cons_self)
  have hguard : ¬ (first = 45 ∨ first = 43 ∨ isSpace first = true) := by
    simp [hfirst.2.1, hfirst.2.2.1, hfirst.2.2.2.1]
  simp only [chunkSizeOf, hcut, List.head?_cons, hguard, ↓reduceIte,
    strtoul_spells (by decide) hspell hn]
  rfl

theorem crlfFree_sizeLine {sizeHex : Bytes} {n : Nat} (hspell : Spells 16 sizeHex n)
    {extension : Option Bytes} (hextension : ∀ text ∈ extension, CrlfFree text) :
    CrlfFree (sizeHex ++ extensionText extension) := by
  have hsize : CrlfFree sizeHex := by
    apply crlfFree_of_not_mem
    intro hmem
    exact (digit_byte cr (hspell.mem_isSome hmem)).2.2.2.2.2.2.2 rfl
  cases extension with
  | none => simpa [extensionText] using hsize
  | some text =>
      exact crlfFree_append_cons hsize (hextension text rfl) (by decide) (by decide)

end Numerals

section ChunkedBodies

/-- A chunk as a sender may spell it. -/
structure WireChunk where
  sizeHex : Bytes
  extension : Option Bytes := none
  data : Bytes
deriving DecidableEq

def WireChunk.sizeLine (chunk : WireChunk) : Bytes :=
  chunk.sizeHex ++ extensionText chunk.extension

def WireChunk.text (chunk : WireChunk) : Bytes :=
  chunk.sizeLine ++ (crlf ++ (chunk.data ++ crlf))

structure WireChunk.Ok (chunk : WireChunk) : Prop where
  spells : Spells 16 chunk.sizeHex chunk.data.length
  nonempty : chunk.data ≠ []
  extensionFree : ∀ text ∈ chunk.extension, CrlfFree text

instance (chunk : WireChunk) : Decidable chunk.Ok :=
  decidable_of_iff
    (Spells 16 chunk.sizeHex chunk.data.length ∧ chunk.data ≠ [] ∧
      ∀ text ∈ chunk.extension, CrlfFree text)
    ⟨fun ⟨hspells, hne, hfree⟩ => ⟨hspells, hne, hfree⟩,
      fun hok => ⟨hok.spells, hok.nonempty, hok.extensionFree⟩⟩

/-- A chunked body: its chunks, the spelling of the last-chunk line and the
trailer lines. -/
structure ChunkedBody where
  chunks : List WireChunk
  lastSize : Bytes
  lastExtension : Option Bytes := none
  trailers : List Bytes := []
deriving DecidableEq

namespace ChunkedBody

def payload (body : ChunkedBody) : Bytes := body.chunks.flatMap WireChunk.data

def lastLine (body : ChunkedBody) : Bytes :=
  body.lastSize ++ extensionText body.lastExtension

def trailerText (body : ChunkedBody) : Bytes :=
  body.trailers.flatMap (· ++ crlf)

def text (body : ChunkedBody) : Bytes :=
  body.chunks.flatMap WireChunk.text ++
    (body.lastLine ++ (crlf ++ (body.trailerText ++ crlf)))

/-- The lines the parser reads out of the body. -/
def lines (body : ChunkedBody) : List Bytes :=
  body.chunks.map WireChunk.sizeLine ++ body.lastLine :: body.trailers

structure Ok (body : ChunkedBody) : Prop where
  chunksOk : ∀ chunk ∈ body.chunks, chunk.Ok
  lastSpells : Spells 16 body.lastSize 0
  lastExtensionFree : ∀ text ∈ body.lastExtension, CrlfFree text
  trailersOk : ∀ line ∈ body.trailers, line ≠ [] ∧ CrlfFree line

instance (body : ChunkedBody) : Decidable body.Ok :=
  decidable_of_iff
    ((∀ chunk ∈ body.chunks, chunk.Ok) ∧ Spells 16 body.lastSize 0 ∧
      (∀ text ∈ body.lastExtension, CrlfFree text) ∧
      ∀ line ∈ body.trailers, line ≠ [] ∧ CrlfFree line)
    ⟨fun ⟨hchunks, hlast, hfree, htrailers⟩ => ⟨hchunks, hlast, hfree, htrailers⟩,
      fun hok => ⟨hok.chunksOk, hok.lastSpells, hok.lastExtensionFree, hok.trailersOk⟩⟩

end ChunkedBody

/-- The same point of the parse with another body. -/
def Progress.withBody (p : Progress) (body : Bytes) : Progress :=
  { p with request := { p.request with body } }

theorem chunkSizeLine_chunk {p : Progress} {chunk : WireChunk} (hok : chunk.Ok)
    (hbound : p.request.body.length + chunk.data.length ≤ maxHttpBodySize) :
    chunkSizeLine p chunk.sizeLine =
      (true, { p with parser := ⟨.chunkData, chunk.data.length⟩ }) := by
  have hlimit := maxHttpBodySize_lt_sizeBound
  have hsize := chunkSizeOf_spells hok.spells (by omega) chunk.extension
  have hwrap : (p.request.body.length + chunk.data.length) % sizeBound =
      p.request.body.length + chunk.data.length := Nat.mod_eq_of_lt (by omega)
  have hpositive : chunk.data.length ≠ 0 := by
    simpa [List.length_eq_zero_iff] using hok.nonempty
  rw [chunkSizeLine, WireChunk.sizeLine, hsize]
  simp only [hwrap]
  rw [if_neg (by omega), if_neg (by omega), if_neg hpositive]

variable {limit : Nat}

/-- Announced data and its terminating CRLF are taken off together. -/
theorem reads_chunkData (hlimit : limit ≤ maxChunkBodySize) {p : Progress} {data : Bytes}
    (hparser : p.parser = ⟨.chunkData, data.length⟩)
    (hbound : data.length ≤ maxHttpBodySize) (rest : Bytes) :
    Reads limit (p, data ++ (crlf ++ rest))
      ((p.withBody (p.request.body ++ data)).goto .chunkSize, rest) := by
  have hstate : p.parser.mState = .chunkData := by rw [hparser]
  have htake : Reads limit (p, data ++ (crlf ++ rest))
      ((p.withBody (p.request.body ++ data)).goto .chunkCrlf, crlf ++ rest) := by
    apply Relation.ReflTransGen.single
    constructor
    · rw [turn_chunkData hstate, hparser, takeBytes, extractBytes_exact hbound]
      rfl
    · simp [hstate, lineAction?]
  have hfree : CrlfFree [] := rfl
  have hclose : Reads limit
      ((p.withBody (p.request.body ++ data)).goto .chunkCrlf, crlf ++ rest)
      ((p.withBody (p.request.body ++ data)).goto .chunkSize, rest) :=
    reads_line hlimit rfl hfree (Nat.zero_le _) rfl rest
  exact htake.trans hclose

theorem reads_chunk (hlimit : limit ≤ maxChunkBodySize) {p : Progress} {chunk : WireChunk}
    (hok : chunk.Ok) (hstate : p.parser.mState = .chunkSize)
    (hline : chunk.sizeLine.length ≤ limit)
    (hbound : p.request.body.length + chunk.data.length ≤ maxHttpBodySize)
    (rest : Bytes) :
    ∃ parser : HttpRequestParser, parser.mState = .chunkSize ∧
      Reads limit (p, chunk.text ++ rest)
        ({ p.withBody (p.request.body ++ chunk.data) with parser }, rest) := by
  have haction : lineAction? p.parser.mState = some chunkSizeLine := by
    rw [hstate]
    rfl
  have hfree : CrlfFree chunk.sizeLine := crlfFree_sizeLine hok.spells hok.extensionFree
  have hsplit : chunk.text ++ rest =
      chunk.sizeLine ++ (crlf ++ (chunk.data ++ (crlf ++ rest))) := by
    simp [WireChunk.text]
  have hsize := reads_line hlimit haction hfree hline (chunkSizeLine_chunk hok hbound)
    (chunk.data ++ (crlf ++ rest))
  have hdata := @reads_chunkData limit hlimit
    { p with parser := ⟨.chunkData, chunk.data.length⟩ } chunk.data rfl (by omega) rest
  rw [hsplit]
  exact ⟨⟨.chunkSize, chunk.data.length⟩, rfl, hsize.trans hdata⟩

theorem reads_chunks (hlimit : limit ≤ maxChunkBodySize) (chunks : List WireChunk) :
    ∀ p : Progress, p.parser.mState = .chunkSize →
      (∀ chunk ∈ chunks, chunk.Ok) →
      (∀ chunk ∈ chunks, chunk.sizeLine.length ≤ limit) →
      p.request.body.length + (chunks.flatMap WireChunk.data).length ≤ maxHttpBodySize →
      ∀ rest : Bytes, ∃ parser : HttpRequestParser, parser.mState = .chunkSize ∧
        Reads limit (p, chunks.flatMap WireChunk.text ++ rest)
          ({ p.withBody (p.request.body ++ chunks.flatMap WireChunk.data) with parser },
            rest) := by
  induction chunks with
  | nil =>
      intro p hstate _ _ _ rest
      refine ⟨p.parser, hstate, ?_⟩
      simp only [List.flatMap_nil, List.nil_append, List.append_nil]
      exact Relation.ReflTransGen.refl
  | cons chunk chunks ih =>
      intro p hstate hok hline hbound rest
      simp only [List.flatMap_cons, List.length_append] at hbound
      obtain ⟨parser, hparser, hfirst⟩ := reads_chunk hlimit
        (hok chunk List.mem_cons_self) hstate (hline chunk List.mem_cons_self) (by omega)
        (chunks.flatMap WireChunk.text ++ rest)
      obtain ⟨final, hfinal, hrest⟩ :=
        ih { p.withBody (p.request.body ++ chunk.data) with parser } hparser
          (fun c hc => hok c (List.mem_cons_of_mem _ hc))
          (fun c hc => hline c (List.mem_cons_of_mem _ hc))
          (by simp only [Progress.withBody, List.length_append]; omega) rest
      refine ⟨final, hfinal, ?_⟩
      rw [List.flatMap_cons, List.append_assoc]
      have hboth := hfirst.trans hrest
      simpa [Progress.withBody, Reads] using hboth

/-- Trailer lines are skipped and the blank line completes the request. -/
theorem reads_trailers (hlimit : limit ≤ maxChunkBodySize) (trailers : List Bytes) :
    ∀ p : Progress, p.parser.mState = .trailers →
      (∀ line ∈ trailers, line ≠ [] ∧ CrlfFree line) →
      (∀ line ∈ trailers, line.length ≤ limit) →
      ∀ rest : Bytes,
        Reads limit (p, trailers.flatMap (· ++ crlf) ++ (crlf ++ rest))
          (p.goto .complete, rest) := by
  induction trailers with
  | nil =>
      intro p hstate _ _ rest
      have haction : lineAction? p.parser.mState = some trailerLine := by
        rw [hstate]
        rfl
      have hfree : CrlfFree [] := rfl
      exact reads_line hlimit haction hfree (Nat.zero_le _) rfl rest
  | cons line trailers ih =>
      intro p hstate hok hlength rest
      have haction : lineAction? p.parser.mState = some trailerLine := by
        rw [hstate]
        rfl
      obtain ⟨hne, hfree⟩ := hok line List.mem_cons_self
      have haccept : trailerLine p line = (true, p) := by
        simp [trailerLine, hne]
      have hsplit : (line :: trailers).flatMap (· ++ crlf) ++ (crlf ++ rest) =
          line ++ (crlf ++ (trailers.flatMap (· ++ crlf) ++ (crlf ++ rest))) := by simp
      have hfirst := reads_line hlimit haction hfree (hlength line List.mem_cons_self)
        haccept (trailers.flatMap (· ++ crlf) ++ (crlf ++ rest))
      rw [hsplit]
      exact hfirst.trans (ih p hstate (fun l hl => hok l (List.mem_cons_of_mem _ hl))
        (fun l hl => hlength l (List.mem_cons_of_mem _ hl)) rest)

/-- A chunked body is read back byte for byte and consumed exactly. -/
theorem reads_chunkedBody (hlimit : limit ≤ maxChunkBodySize) {p : Progress}
    {body : ChunkedBody} (hok : body.Ok) (hstate : p.parser.mState = .chunkSize)
    (hlines : ∀ line ∈ body.lines, line.length ≤ limit)
    (hbound : p.request.body.length + body.payload.length ≤ maxHttpBodySize)
    (rest : Bytes) :
    ∃ parser : HttpRequestParser, parser.mState = .complete ∧
      Reads limit (p, body.text ++ rest)
        ({ p.withBody (p.request.body ++ body.payload) with parser }, rest) := by
  obtain ⟨parser, hparser, hchunks⟩ := reads_chunks hlimit body.chunks p hstate hok.chunksOk
    (fun chunk hchunk => hlines _ (by
      simp only [ChunkedBody.lines, List.mem_append, List.mem_map]
      exact Or.inl ⟨chunk, hchunk, rfl⟩))
    hbound (body.lastLine ++ (crlf ++ (body.trailerText ++ (crlf ++ rest))))
  let afterChunks : Progress :=
    { p.withBody (p.request.body ++ body.payload) with parser }
  have haction : lineAction? afterChunks.parser.mState = some chunkSizeLine := by
    change lineAction? parser.mState = _
    rw [hparser]
    rfl
  have hsize := chunkSizeOf_spells hok.lastSpells
    (Nat.zero_lt_of_lt maxHttpBodySize_lt_sizeBound) body.lastExtension
  have haccept : chunkSizeLine afterChunks body.lastLine =
      (true, afterChunks.goto .trailers) := by
    have hwrap : ¬ maxHttpBodySize < (afterChunks.request.body.length + 0) % sizeBound := by
      have hbody := maxHttpBodySize_lt_sizeBound
      have hlength : afterChunks.request.body.length =
          p.request.body.length + body.payload.length := List.length_append
      rw [Nat.mod_eq_of_lt (by omega)]
      omega
    rw [chunkSizeLine, ChunkedBody.lastLine, hsize]
    simp only [hwrap, Nat.not_lt_zero, ↓reduceIte]
  have hlast := reads_line hlimit haction
    (crlfFree_sizeLine hok.lastSpells hok.lastExtensionFree)
    (hlines body.lastLine (by simp [ChunkedBody.lines])) haccept
    (body.trailerText ++ (crlf ++ rest))
  have htrailers := reads_trailers hlimit body.trailers (afterChunks.goto .trailers) rfl
    hok.trailersOk (fun line hline => hlines line (by simp [ChunkedBody.lines, hline])) rest
  have hsplit : body.text ++ rest = body.chunks.flatMap WireChunk.text ++
      (body.lastLine ++ (crlf ++ (body.trailerText ++ (crlf ++ rest)))) := by
    simp [ChunkedBody.text]
  rw [hsplit]
  exact ⟨_, rfl, (hchunks.trans hlast).trans htrailers⟩

end ChunkedBodies

end HttpServer
