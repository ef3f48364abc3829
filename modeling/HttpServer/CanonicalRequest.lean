/-
The requests that the parser can hand out at all, and one way of writing each
of them.  What a run has accepted is kept as a condition on the request alone;
rendering a request that meets it, framing included, gives a text the parser
reads back to the same request.
-/
import HttpServer.FramingConflict
import HttpServer.ParserBounds
import HttpServer.ResponseFraming

namespace HttpServer

open ByteText HttpClient

section Lines

theorem crlfFree_of_append_left {left right : Bytes} (hfree : CrlfFree (left ++ right)) :
    CrlfFree left := by
  cases hindex : crlfIndex? left with
  | none => exact hindex
  | some i =>
      have hwhole := crlfIndex?_append hindex right
      rw [CrlfFree, hwhole] at hfree
      contradiction

theorem crlfFree_of_suffix {text tail : Bytes} (hfree : CrlfFree text)
    (hsuffix : tail <:+ text) : CrlfFree tail := by
  induction text with
  | nil =>
      rw [List.suffix_nil.mp hsuffix]
      exact hfree
  | cons b rest ih =>
      rcases List.suffix_cons_iff.mp hsuffix with rfl | hrest
      · exact hfree
      · simp only [CrlfFree, crlfIndex?] at hfree
        split at hfree
        · contradiction
        · exact ih (by simpa [CrlfFree] using hfree) hrest

/-- Folding the case neither makes nor removes a CR or LF. -/
theorem lower_eq_iff {b control : UInt8} (hcontrol : control < 65) :
    lower b = control ↔ b = control := by
  unfold lower
  split
  · next hletter =>
      simp only [UInt8.le_iff_toNat_le, UInt8.lt_iff_toNat_lt, ← UInt8.toNat_inj,
        UInt8.toNat_add] at *
      simp at *
      omega
  · rfl

theorem crlfIndex?_lowerBytes (text : Bytes) :
    crlfIndex? (lowerBytes text) = crlfIndex? text := by
  induction text with
  | nil => rfl
  | cons b rest ih =>
      have hcr : lower b = cr ↔ b = cr := lower_eq_iff (by decide)
      have hhead : (rest.map lower).head? = some lf ↔ rest.head? = some lf := by
        cases rest with
        | nil => simp
        | cons c _ => simpa using @lower_eq_iff c lf (by decide)
      simp only [lowerBytes, List.map_cons, crlfIndex?, hcr, hhead]
      rw [← ih]
      rfl

/-- What the framer calls a line. -/
theorem extractLine_isLine {readBuffer line rest : Bytes}
    (hline : extractLine readBuffer = (.success, line, rest)) :
    CrlfFree line ∧ line.length ≤ maxChunkBodySize := by
  obtain ⟨i, hindex, hlimit, rfl, _⟩ := extractLine_success hline
  constructor
  · cases hinner : crlfIndex? (readBuffer.take i) with
    | none => exact hinner
    | some j =>
        have hwhole := crlfIndex?_append hinner (readBuffer.drop i)
        have hlong := lt_length_of_crlfIndex? hinner
        rw [List.take_append_drop, hindex] at hwhole
        obtain rfl := Option.some.inj hwhole
        rw [List.length_take] at hlong
        omega
  · exact (List.length_take_le _ _).trans hlimit

end Lines

/-- A stored header: it stands on one line as `name:value`. -/
structure StoredField (name value : Bytes) : Prop where
  nameColon : 58 ∉ name
  nameFree : CrlfFree name
  valueFree : CrlfFree value
  valueStart : ∀ b ∈ value.head?, isBlank b = false
  lineFits : name.length + 1 + value.length ≤ maxChunkBodySize

/-- What the request line and the header lines of a request amount to. -/
structure HeadOk (request : HttpRequest) : Prop where
  methodKnown : request.method ≠ .unknown
  pathNonempty : request.path ≠ []
  pathSpace : 32 ∉ request.path
  pathFree : CrlfFree request.path
  versionFree : CrlfFree request.version
  lineFits : (requestLineText request.method request.path request.version).length ≤
    maxChunkBodySize
  fieldsOk : ∀ name value, request.headers.mHeaders.lookup name = some value →
    StoredField name value

/-- The requests a server behind this parser has to expect, and no others. -/
structure Acceptable (request : HttpRequest) : Prop extends HeadOk request where
  bodyFits : request.body.length ≤ maxHttpBodySize
  framed : announcesChunked request.headers = false →
    request.body.length = request.headers.getContentLength

/-- What the text read so far has put into the request, state by state.  A parser
in its error state promises nothing. -/
def Recorded (p : Progress) : Prop :=
  match p.parser.mState with
  | .error => True
  | .requestLine => p.request = {}
  | .headers => HeadOk p.request
  | .body => HeadOk p.request ∧ announcesChunked p.request.headers = false
  | .chunkSize | .chunkData | .chunkCrlf | .trailers =>
      HeadOk p.request ∧ announcesChunked p.request.headers = true
  | .complete => Acceptable p.request

theorem recorded_start : Recorded {} := rfl

theorem recorded_error {p : Progress} (hstate : p.parser.mState = .error) : Recorded p := by
  simp only [Recorded, hstate]

theorem recorded_fail (p : Progress) : Recorded p.fail.2 := recorded_error rfl

section HeadLines

variable {line : Bytes}

theorem methodText_stringToMethod {methodStr : Bytes}
    (hknown : stringToMethod methodStr ≠ .unknown) :
    methodText (stringToMethod methodStr) = methodStr := by
  revert hknown
  unfold stringToMethod
  intro hknown
  repeat' split at hknown
  all_goals simp_all [methodText]

/-- A separator is searched for and found at its first place, or missing. -/
theorem idxOf?_cases (text : Bytes) (b : UInt8) :
    text.idxOf? b = none ∨
      ∃ left right, text = left ++ b :: right ∧ b ∉ left ∧ text.idxOf? b = some left.length := by
  by_cases hmem : b ∈ text
  · obtain ⟨left, right, rfl, hleft⟩ := List.eq_append_cons_of_mem hmem
    exact Or.inr ⟨left, right, rfl, hleft, idxOf?_append_cons hleft right⟩
  · exact Or.inl (List.idxOf?_eq_none_iff.mpr hmem)

/-- An accepted request line is the rendering of what was stored. -/
theorem parseRequestLine_accepts {request updated : HttpRequest}
    (hparse : parseRequestLine line request = (true, updated)) :
    line = requestLineText updated.method updated.path updated.version ∧
      updated.method ≠ .unknown ∧ updated.path ≠ [] ∧ 32 ∉ updated.path ∧
      updated.headers = request.headers := by
  rcases idxOf?_cases line 32 with hnone | ⟨methodStr, behind, rfl, hmethod, hfirst⟩
  · simp [parseRequestLine, hnone] at hparse
  rcases idxOf?_cases behind 32 with hnone | ⟨path, version, rfl, hpath, hsecond⟩
  · simp [parseRequestLine, hfirst, hnone] at hparse
  simp only [parseRequestLine, hfirst, drop_append_cons, hsecond, List.take_left',
    Prod.mk.injEq, Bool.and_eq_true, decide_eq_true_eq, Bool.not_eq_true'] at hparse
  obtain ⟨⟨hknown, hnonempty⟩, rfl⟩ := hparse
  refine ⟨?_, hknown, by simpa using hnonempty, hpath, rfl⟩
  rw [requestLineText, methodText_stringToMethod hknown]

/-- An accepted header line stores one field, its name in lower case. -/
theorem parseHeaderLine_accepts {request updated : HttpRequest}
    (hparse : parseHeaderLine line request = (true, updated)) :
    ∃ name value, line = name ++ 58 :: value ∧ 58 ∉ name ∧
      updated = { request with
        headers := request.headers.set name (value.dropWhile isBlank) } := by
  rcases idxOf?_cases line 58 with hnone | ⟨name, value, rfl, hname, hcolon⟩
  · simp [parseHeaderLine, hnone] at hparse
  simp only [parseHeaderLine, hcolon, drop_append_cons, List.take_left', Prod.mk.injEq,
    true_and] at hparse
  exact ⟨name, value, rfl, hname, hparse.symm⟩

theorem colon_not_mem_lowerBytes {name : Bytes} (hname : 58 ∉ name) : 58 ∉ lowerBytes name := by
  intro hmem
  obtain ⟨b, hb, hlower⟩ := List.mem_map.mp hmem
  rw [(lower_eq_iff (by decide)).mp hlower] at hb
  exact hname hb

theorem dropWhile_start (value : Bytes) :
    ∀ b ∈ (value.dropWhile isBlank).head?, isBlank b = false := by
  intro b hb
  have hcut := List.head?_dropWhile_not isBlank value
  rw [Option.mem_def.mp hb] at hcut
  simpa using hcut

/-- Whatever stands on a line can be stood on a line again. -/
theorem storedField_of_line {name value : Bytes} (hfree : CrlfFree (name ++ 58 :: value))
    (hlimit : (name ++ 58 :: value).length ≤ maxChunkBodySize) (hname : 58 ∉ name) :
    StoredField (lowerBytes name) (value.dropWhile isBlank) where
  nameColon := colon_not_mem_lowerBytes hname
  nameFree := by
    rw [CrlfFree, crlfIndex?_lowerBytes]
    exact crlfFree_of_append_left hfree
  valueFree := by
    apply crlfFree_of_suffix hfree
    exact ((List.dropWhile_suffix _).trans (List.suffix_cons _ _)).trans
      (List.suffix_append _ _)
  valueStart := dropWhile_start value
  lineFits := by
    have hvalue := (List.dropWhile_suffix isBlank (l := value)).length_le
    rw [List.length_append, List.length_cons] at hlimit
    rw [lowerBytes, List.length_map]
    omega

end HeadLines

section Turns

variable {p : Progress} {line : Bytes}

theorem recorded_requestLineLine (hstate : p.parser.mState = .requestLine) (hp : Recorded p)
    (hfree : CrlfFree line) (hlimit : line.length ≤ maxChunkBodySize) :
    Recorded (requestLineLine p line).2 := by
  have hfresh : p.request = {} := by simpa only [Recorded, hstate] using hp
  rw [requestLineLine]
  split
  · next request hparsed =>
      obtain ⟨rfl, hknown, hnonempty, hspace, hheaders⟩ := parseRequestLine_accepts hparsed
      have hbehind : CrlfFree (request.path ++ 32 :: request.version) :=
        crlfFree_of_suffix hfree ((List.suffix_cons _ _).trans (List.suffix_append _ _))
      change HeadOk request
      constructor
      · exact hknown
      · exact hnonempty
      · exact hspace
      · exact crlfFree_of_append_left hbehind
      · exact crlfFree_of_suffix hbehind ((List.suffix_cons _ _).trans (List.suffix_append _ _))
      · exact hlimit
      · intro name value hlookup
        rw [hheaders, hfresh] at hlookup
        simp [HttpHeaders.empty] at hlookup
  · exact recorded_fail _

theorem headOk_set {request : HttpRequest} (hhead : HeadOk request) {name value : Bytes}
    (hfield : StoredField (lowerBytes name) value) :
    HeadOk { request with headers := request.headers.set name value } where
  methodKnown := hhead.methodKnown
  pathNonempty := hhead.pathNonempty
  pathSpace := hhead.pathSpace
  pathFree := hhead.pathFree
  versionFree := hhead.versionFree
  lineFits := hhead.lineFits
  fieldsOk := by
    intro other stored hlookup
    change (request.headers.mHeaders.insert (lowerBytes name) value).lookup other = _ at hlookup
    by_cases hsame : other = lowerBytes name
    · rw [hsame, Finmap.lookup_insert] at hlookup
      obtain rfl := Option.some.inj hlookup
      exact hsame ▸ hfield
    · rw [Finmap.lookup_insert_of_ne _ hsame] at hlookup
      exact hhead.fieldsOk other stored hlookup

theorem recorded_endOfHeaders (hhead : HeadOk p.request) (hbody : p.request.body = []) :
    Recorded (endOfHeaders p) := by
  rw [endOfHeaders_eq]
  split
  · next hchunked => exact ⟨hhead, hchunked⟩
  · next hplain =>
      split
      · exact ⟨hhead, by simpa using hplain⟩
      · next hzero =>
          refine ⟨hhead, ?_, ?_⟩
          · rw [Progress.goto_request, hbody]
            exact Nat.zero_le _
          · intro _
            rw [Progress.goto_request, hbody]
            exact (Nat.eq_zero_of_not_pos hzero).symm

theorem recorded_headerLine (hstate : p.parser.mState = .headers) (hp : Recorded p)
    (hbounds : WithinBounds p) (hfree : CrlfFree line)
    (hlimit : line.length ≤ maxChunkBodySize) : Recorded (headerLine p line).2 := by
  have hhead : HeadOk p.request := by simpa only [Recorded, hstate] using hp
  have hbody : p.request.body = [] := hbounds.bodyEmpty (by rw [hstate]; rfl)
  rw [headerLine]
  split
  · exact recorded_endOfHeaders hhead hbody
  · split
    · next request hparsed =>
        obtain ⟨name, value, rfl, hname, rfl⟩ := parseHeaderLine_accepts hparsed
        have hset := headOk_set hhead (storedField_of_line hfree hlimit hname)
        simpa only [Recorded, hstate] using hset
    · exact recorded_fail _

/-- In the chunk states only the body and the state change. -/
theorem recorded_chunked (hhead : HeadOk p.request)
    (hchunked : announcesChunked p.request.headers = true)
    (hbody : p.request.body.length ≤ maxHttpBodySize) :
    Recorded (chunkSizeLine p line).2 ∧ Recorded (chunkCrlfLine p line).2 ∧
      (p.parser.mState = .trailers → Recorded (trailerLine p line).2) := by
  refine ⟨?_, ?_, ?_⟩
  · rw [chunkSizeLine]
    split
    · exact recorded_fail _
    · repeat' split
      all_goals first | exact recorded_fail _ | exact ⟨hhead, hchunked⟩
  · rw [chunkCrlfLine]
    split
    · exact ⟨hhead, hchunked⟩
    · exact recorded_fail _
  · intro hstate
    rw [trailerLine]
    split
    · refine ⟨hhead, hbody, ?_⟩
      intro hplain
      rw [Progress.goto_request, hchunked] at hplain
      contradiction
    · simpa only [Recorded, hstate] using ⟨hhead, hchunked⟩

theorem recorded_lineAction {action : Progress → Bytes → Bool × Progress} (hp : Recorded p)
    (hbounds : WithinBounds p) (haction : lineAction? p.parser.mState = some action)
    (hfree : CrlfFree line) (hlimit : line.length ≤ maxChunkBodySize) :
    Recorded (action p line).2 := by
  have hchunks : HeadOk p.request ∧ announcesChunked p.request.headers = true →
      Recorded (chunkSizeLine p line).2 ∧ Recorded (chunkCrlfLine p line).2 ∧
        (p.parser.mState = .trailers → Recorded (trailerLine p line).2) :=
    fun hchunk => recorded_chunked hchunk.1 hchunk.2 hbounds.bodyBounded
  cases hstate : p.parser.mState <;> rw [hstate] at haction <;>
    simp only [lineAction?, Option.some.injEq, reduceCtorEq] at haction <;>
    subst haction
  · exact recorded_requestLineLine hstate hp hfree hlimit
  · exact recorded_headerLine hstate hp hbounds hfree hlimit
  · exact (hchunks (by simpa only [Recorded, hstate] using hp)).1
  · exact (hchunks (by simpa only [Recorded, hstate] using hp)).2.1
  · exact (hchunks (by simpa only [Recorded, hstate] using hp)).2.2 hstate

theorem recorded_takeLine {action : Progress → Bytes → Bool × Progress} (hp : Recorded p)
    (haction : ∀ line, CrlfFree line → line.length ≤ maxChunkBodySize →
      Recorded (action p line).2) (readBuffer : Bytes) :
    Recorded (takeLine p readBuffer action).progress := by
  rcases hextract : extractLine readBuffer with ⟨status, line, rest⟩
  cases status with
  | success =>
      obtain ⟨hfree, hlimit⟩ := extractLine_isLine hextract
      rw [takeLine_of_success hextract]
      split <;> exact haction line hfree hlimit
  | incomplete =>
      rw [takeLine, hextract]
      exact hp
  | headerTooLarge =>
      rw [takeLine, hextract]
      exact recorded_fail p
  | payloadTooLarge =>
      rw [takeLine, hextract]
      exact recorded_fail p

theorem recorded_takeBytes {required : Nat} {out : Bytes} {action : Bytes → Progress}
    (hp : Recorded p)
    (haction : ∀ bytes : Bytes, bytes.length = required → required ≤ maxHttpBodySize →
      Recorded (action bytes)) (readBuffer : Bytes) :
    Recorded (takeBytes p readBuffer required out action).progress := by
  rcases hextract : extractBytes readBuffer required out with ⟨status, bytes, rest⟩
  rw [takeBytes, hextract]
  cases status with
  | success =>
      obtain ⟨hsize, hlong, rfl, _⟩ := extractBytes_success hextract
      exact haction _ (List.length_take_of_le hlong) hsize
  | incomplete => exact hp
  | headerTooLarge => exact recorded_fail p
  | payloadTooLarge => exact recorded_fail p

/-- Every turn of the loop keeps the record. -/
theorem recorded_turn (hp : Recorded p) (hbounds : WithinBounds p) (readBuffer : Bytes) :
    Recorded (turn p readBuffer).progress := by
  cases haction : lineAction? p.parser.mState with
  | some action =>
      rw [turn_of_lineAction haction]
      exact recorded_takeLine hp
        (fun line hfree hlimit => recorded_lineAction hp hbounds haction hfree hlimit) _
  | none =>
      cases hstate : p.parser.mState <;> rw [hstate] at haction <;>
        simp only [lineAction?, reduceCtorEq] at haction
      case body =>
        obtain ⟨hhead, hplain⟩ : HeadOk p.request ∧
            announcesChunked p.request.headers = false := by
          simpa only [Recorded, hstate] using hp
        rw [turn_body hstate]
        apply recorded_takeBytes hp
        intro body hlength hsize
        exact ⟨⟨hhead.1, hhead.2, hhead.3, hhead.4, hhead.5, hhead.6, hhead.7⟩,
          hlength.trans_le hsize, fun _ => hlength.trans (bytesNeeded_eq hbounds hstate)⟩
      case chunkData =>
        obtain ⟨hhead, hchunked⟩ : HeadOk p.request ∧
            announcesChunked p.request.headers = true := by
          simpa only [Recorded, hstate] using hp
        rw [turn_chunkData hstate]
        apply recorded_takeBytes hp
        intro chunk _ _
        exact ⟨⟨hhead.1, hhead.2, hhead.3, hhead.4, hhead.5, hhead.6, hhead.7⟩, hchunked⟩
      all_goals
        simp only [turn, hstate]
        exact hp

end Turns

theorem recorded_step {config : ParserConfig} (hrecorded : Recorded config.progress)
    (hbounds : WithinBounds config.progress) (action : ParserAction) :
    Recorded (config.step action).progress := by
  cases action with
  | receive fragment => exact hrecorded
  | turn => exact recorded_turn hrecorded hbounds config.readBuffer
  | reset => exact recorded_start

theorem recorded_run (actions : List ParserAction) :
    ∀ config : ParserConfig, Recorded config.progress → WithinBounds config.progress →
      Recorded (actions.foldl ParserConfig.step config).progress := by
  induction actions with
  | nil => exact fun _ hrecorded _ => hrecorded
  | cons action actions ih =>
      intro config hrecorded hbounds
      exact ih (config.step action) (recorded_step hrecorded hbounds action)
        (withinBounds_step hbounds action)

/-- A call of `parse` that hands out a request hands out an acceptable one. -/
theorem acceptable_of_parse {p p' : Progress} {readBuffer rest : Bytes}
    (hparse : parse p readBuffer = (.success, p', rest)) (hrecorded : Recorded p)
    (hbounds : WithinBounds p) : Acceptable p'.request := by
  induction p, readBuffer using parse.induct with
  | case1 p readBuffer result last lastBuffer hturn =>
      rw [parse_of_ret hturn] at hparse
      obtain ⟨rfl, rfl, rfl⟩ := by simpa only [Prod.mk.injEq] using hparse
      have hcomplete := turn_success hturn
      rw [turn, hcomplete] at hturn
      obtain ⟨-, rfl, -⟩ := Turn.ret.inj hturn
      simpa only [Recorded, hcomplete] using hrecorded
  | case2 p readBuffer next nextBuffer hturn ih =>
      rw [parse_of_next hturn] at hparse
      have hnext := recorded_turn hrecorded hbounds readBuffer
      have hkept := withinBounds_turn hbounds readBuffer
      rw [hturn] at hnext hkept
      exact ih hparse hnext hkept

section Rendering

variable (order : HeaderOrder)

/-- A header on its line, without the optional blank. -/
def storedLine (field : Bytes × Bytes) : Bytes := field.1 ++ 58 :: field.2

/-- The whole body as one chunk, its size in lower case. -/
def oneChunk (body : Bytes) : ChunkedBody where
  chunks := if body = [] then [] else [⟨numeral 16 body.length, none, body⟩]
  lastSize := ascii "0"

def canonicalBody (request : HttpRequest) : Bytes :=
  if announcesChunked request.headers then (oneChunk request.body).text else request.body

/-- A request written out: one line for each stored header, in the order in which
the map happens to list them, and the body in the framing these headers announce. -/
def canonicalText (request : HttpRequest) : Bytes :=
  requestLineText request.method request.path request.version ++ (crlf ++
    ((order.entries request.headers).flatMap (fun field => storedLine field ++ crlf) ++
      (crlf ++ canonicalBody request)))

theorem readField_storedLine {name value : Bytes} (hfield : StoredField name value) :
    readField (storedLine (name, value)) = (name, value) := by
  have hbefore : ∀ b ∈ name, decide (b ≠ 58) = true := by
    intro b hb
    have hne : b ≠ 58 := fun h => hfield.nameColon (h ▸ hb)
    simpa using hne
  have hvalue : value.dropWhile isBlank = value := by
    cases value with
    | nil => rfl
    | cons b rest =>
        have hb := hfield.valueStart b rfl
        rw [List.dropWhile_cons_of_neg (by simp [hb])]
  simp only [readField, storedLine, List.takeWhile_append_of_pos hbefore,
    List.dropWhile_append_of_pos hbefore]
  simp [hvalue]

theorem oneChunk_ok (body : Bytes) : (oneChunk body).Ok where
  chunksOk := by
    intro chunk hchunk
    by_cases hempty : body = []
    · simp [oneChunk, hempty] at hchunk
    · obtain rfl : chunk = ⟨numeral 16 body.length, none, body⟩ := by
        simpa [oneChunk, hempty] using hchunk
      exact ⟨numeral_spells (by decide) (by decide) _, hempty, nofun⟩
  lastSpells := by
    change Spells 16 (ascii "0") 0
    decide
  lastExtensionFree := nofun
  trailersOk := nofun

theorem payload_oneChunk (body : Bytes) : (oneChunk body).payload = body := by
  by_cases hempty : body = []
  · simp [oneChunk, ChunkedBody.payload, hempty]
  · simp [oneChunk, ChunkedBody.payload, hempty]

theorem lines_oneChunk {body : Bytes} (hbound : body.length ≤ maxHttpBodySize) :
    ∀ line ∈ (oneChunk body).lines, line.length ≤ maxChunkBodySize := by
  have hsize : (numeral 16 body.length).length ≤ 6 := by
    apply length_numeral_le (by decide) (by decide)
    exact hbound.trans_lt (by decide)
  have hlimit : 6 ≤ maxChunkBodySize := by decide
  intro line hline
  by_cases hempty : body = []
  · obtain rfl : line = ascii "0" := by
      simpa [oneChunk, ChunkedBody.lines, ChunkedBody.lastLine, extensionText, hempty]
        using hline
    decide
  · have hcases : line = numeral 16 body.length ∨ line = ascii "0" := by
      simpa [oneChunk, ChunkedBody.lines, ChunkedBody.lastLine, WireChunk.sizeLine,
        extensionText, hempty] using hline
    rcases hcases with rfl | rfl
    · exact hsize.trans hlimit
    · decide

variable {request : HttpRequest} (haccept : Acceptable request)

include haccept

theorem entries_stored {field : Bytes × Bytes} (hfield : field ∈ order.entries request.headers) :
    StoredField field.1 field.2 :=
  haccept.fieldsOk field.1 field.2 ((order.mem_entries request.headers _ _).mp hfield)

/-- The stored headers as a block of lines that the parser accepts. -/
def storedBlock : HeaderBlock where
  lines := (order.entries request.headers).map storedLine
  linesOk := by
    intro line hline
    obtain ⟨field, hfield, rfl⟩ := List.mem_map.mp hline
    have hstored := entries_stored order haccept hfield
    exact ⟨by simp [storedLine],
      crlfFree_append_cons hstored.nameFree hstored.valueFree (by decide) (by decide)⟩

theorem storedBlock_readable : (storedBlock order haccept).Readable := by
  intro line hline
  obtain ⟨field, hfield, rfl⟩ := List.mem_map.mp hline
  have hfits := (entries_stored order haccept hfield).lineFits
  constructor
  · simp [storedLine]
  · rw [storedLine, List.length_append, List.length_cons]
    omega

/-- Reading the block fills in the map it was written from. -/
theorem storedBlock_headers : (storedBlock order haccept).headers = request.headers := by
  have hfields : (storedBlock order haccept).fields = order.entries request.headers := by
    have hsame : ∀ field ∈ order.entries request.headers,
        readField (storedLine field) = id field :=
      fun field hfield => readField_storedLine (entries_stored order haccept hfield)
    rw [HeaderBlock.fields, storedBlock, List.map_map]
    exact (List.map_congr_left hsame).trans (List.map_id _)
  rw [HeaderBlock.headers, hfields, setFields_entries]

theorem storedBlock_frames :
    (storedBlock order haccept).Frames (canonicalBody request) request.body := by
  have hheaders := storedBlock_headers order haccept
  have hchunked := (storedBlock order haccept).announcesChunked_headers
  have hlength := (storedBlock order haccept).getContentLength_headers
  rw [hheaders] at hchunked hlength
  refine ⟨haccept.bodyFits, ?_⟩
  rw [← hchunked, ← hlength, canonicalBody]
  cases hannounced : announcesChunked request.headers with
  | true =>
      exact ⟨oneChunk request.body, oneChunk_ok _, lines_oneChunk haccept.bodyFits, rfl,
        payload_oneChunk _⟩
  | false => exact ⟨rfl, haccept.framed hannounced⟩

/-- What is written out is read back, and the bytes behind it stay. -/
theorem parse_canonicalText (trailing : Bytes) :
    ∃ parser : HttpRequestParser,
      parse {} (canonicalText order request ++ trailing) =
        (.success, ⟨parser, request⟩, trailing) := by
  have hline : requestLineLine {}
      (requestLineText request.method request.path request.version) =
        (true, afterRequestLine request.method request.path request.version) := by
    simp only [requestLineLine, parseRequestLine_requestLineText haccept.methodKnown
      haccept.pathNonempty haccept.pathSpace]
    rfl
  have hfirst := (reads_line (Nat.le_refl _) (p := {}) rfl
    (crlfFree_requestLineText request.method haccept.pathFree haccept.versionFree)
    haccept.lineFits hline
    ((storedBlock order haccept).text ++ (canonicalBody request ++ trailing))).parse_eq
  obtain ⟨parser, hparse⟩ := parse_framed (storedBlock order haccept) request.method
    request.path request.version (storedBlock_readable order haccept)
    (storedBlock_frames order haccept) trailing
  have htext : canonicalText order request ++ trailing =
      requestLineText request.method request.path request.version ++ (crlf ++
        ((storedBlock order haccept).text ++ (canonicalBody request ++ trailing))) := by
    simp [canonicalText, storedBlock, HeaderBlock.text, List.flatMap_map]
  refine ⟨parser, ?_⟩
  rw [htext, hfirst, hparse, storedBlock_headers]

end Rendering

/-- The run has a request to hand out. -/
def HandsOut (actions : List ParserAction) (request : HttpRequest) : Prop :=
  ∃ parser rest, let config := actions.foldl ParserConfig.step {}
    parse config.progress config.readBuffer = (.success, ⟨parser, request⟩, rest)

/-- Whatever bytes arrive in whatever portions, the requests that can be handed out
are exactly the acceptable ones, and each of them is recovered, byte for byte and
without touching what follows, from its canonical text. -/
theorem handsOut_iff_acceptable (order : HeaderOrder) (request : HttpRequest) :
    ((∃ actions, HandsOut actions request) ↔ Acceptable request) ∧
      ((∃ actions, HandsOut actions request) ↔
        ∀ trailing, ∃ parser : HttpRequestParser,
          parse {} (canonicalText order request ++ trailing) =
            (.success, ⟨parser, request⟩, trailing)) := by
  have haccepted : (∃ actions, HandsOut actions request) → Acceptable request := by
    rintro ⟨actions, parser, rest, hparse⟩
    exact acceptable_of_parse hparse (recorded_run actions {} recorded_start withinBounds_start)
      (withinBounds_run actions {} withinBounds_start)
  have hreceived : (∀ trailing, ∃ parser : HttpRequestParser,
      parse {} (canonicalText order request ++ trailing) =
        (.success, ⟨parser, request⟩, trailing)) → ∃ actions, HandsOut actions request := by
    intro hread
    obtain ⟨parser, hparse⟩ := hread []
    refine ⟨[.receive (canonicalText order request)], parser, [], ?_⟩
    rw [List.append_nil] at hparse
    exact hparse
  constructor
  · constructor
    · exact haccepted
    · intro haccept
      exact hreceived (parse_canonicalText order haccept)
  · constructor
    · intro hhanded
      exact parse_canonicalText order (haccepted hhanded)
    · exact hreceived

end HttpServer
