/-
Requests as a client writes them and as the parser reads them back.  A
well-formed request is any of the six methods with any header block and one of
the two framings; parsing a pipeline of them returns each one, in order, and
stops exactly behind the last.
-/
import HttpServer.MessageFormat

namespace HttpServer

open ByteText

/-- The value that a header block gives to a name: that of its last line with
this name, up to ASCII case. -/
def lastValue (fields : List (Bytes × Bytes)) (key : Bytes) : Option Bytes :=
  (fields.reverse.find? fun field => lowerBytes field.1 = lowerBytes key).map Prod.snd

theorem get_setFields (headers : HttpHeaders) (fields : List (Bytes × Bytes))
    (key : Bytes) :
    (setFields headers fields).get key = (lastValue fields key).or (headers.get key) := by
  induction fields using List.reverseRecOn with
  | nil => simp [setFields, lastValue]
  | append_singleton fields field ih =>
      have hset : setFields headers (fields ++ [field]) =
          (setFields headers fields).set field.1 field.2 := by
        simp [setFields]
      rw [hset, HttpHeaders.get_set]
      by_cases hname : lowerBytes key = lowerBytes field.1
      · simp [lastValue, hname]
      · have hname' : ¬ lowerBytes field.1 = lowerBytes key := fun h => hname h.symm
        simpa [lastValue, hname, hname'] using ih

theorem lastValue_eq_none {fields : List (Bytes × Bytes)} {key : Bytes}
    (habsent : ∀ field ∈ fields, lowerBytes field.1 ≠ lowerBytes key) :
    lastValue fields key = none := by
  simp only [lastValue, Option.map_eq_none_iff, List.find?_eq_none, List.mem_reverse,
    decide_eq_true_eq]
  exact habsent

theorem lastValue_of_mem {fields : List (Bytes × Bytes)}
    (hdistinct : (fields.map fun field => lowerBytes field.1).Nodup)
    {name value key : Bytes} (hmem : (name, value) ∈ fields)
    (hname : lowerBytes name = lowerBytes key) : lastValue fields key = some value := by
  cases hfind : fields.reverse.find? fun field => lowerBytes field.1 = lowerBytes key with
  | none =>
      have hnone := List.find?_eq_none.mp hfind (name, value) (List.mem_reverse.mpr hmem)
      exact absurd hname (by simpa using hnone)
  | some field =>
      have hfield : field ∈ fields := List.mem_reverse.mp (List.mem_of_find?_eq_some hfind)
      have hkey : lowerBytes field.1 = lowerBytes key := by
        simpa using List.find?_some hfind
      have hsame : field = (name, value) :=
        List.inj_on_of_nodup_map hdistinct hfield hmem (hkey.trans hname.symm)
      simp [lastValue, hfind, hsame]

/-- How the end of a request's body is made known. -/
inductive BodyFraming where
  | none
  | contentLength
  | chunked (body : ChunkedBody)
deriving DecidableEq

/-- A request as it is written; the framing header is one of the fields. -/
structure WireRequest where
  method : HttpMethod
  path : Bytes
  version : Bytes
  fields : List (Bytes × Bytes)
  body : Bytes
  framing : BodyFraming
deriving DecidableEq

namespace WireRequest

def bodyText (r : WireRequest) : Bytes :=
  match r.framing with
  | .none => []
  | .contentLength => r.body
  | .chunked body => body.text

def text (r : WireRequest) : Bytes :=
  requestLineText r.method r.path r.version ++
    (crlf ++ (fieldLines r.fields ++ (crlf ++ r.bodyText)))

def bodyLines (r : WireRequest) : List Bytes :=
  match r.framing with
  | .chunked body => body.lines
  | _ => []

/-- Every line of the rendered request. -/
def lines (r : WireRequest) : List Bytes :=
  requestLineText r.method r.path r.version ::
    (r.fields.map fieldText ++ r.bodyLines)

/-- No field carries this name, in any letter case. -/
def Lacks (r : WireRequest) (name : Bytes) : Prop :=
  ∀ field ∈ r.fields, lowerBytes field.1 ≠ lowerBytes name

/-- The field is there, its name in any letter case. -/
def Carries (r : WireRequest) (name value : Bytes) : Prop :=
  ∃ field ∈ r.fields, lowerBytes field.1 = lowerBytes name ∧ field.2 = value

def FramingOk (r : WireRequest) : Prop :=
  match r.framing with
  | .none => r.body = [] ∧ r.Lacks (ascii "Content-Length") ∧
      r.Lacks (ascii "Transfer-Encoding")
  | .contentLength =>
      r.Carries (ascii "Content-Length") (numeral 10 r.body.length) ∧
        r.Lacks (ascii "Transfer-Encoding")
  | .chunked body => body.Ok ∧ body.payload = r.body ∧
      r.Carries (ascii "Transfer-Encoding") (ascii "chunked") ∧
      r.Lacks (ascii "Content-Length")

instance (r : WireRequest) (name : Bytes) : Decidable (r.Lacks name) :=
  inferInstanceAs (Decidable (∀ field ∈ r.fields, _))

instance (r : WireRequest) (name value : Bytes) : Decidable (r.Carries name value) :=
  inferInstanceAs (Decidable (∃ field ∈ r.fields, _))

instance (r : WireRequest) : Decidable r.FramingOk :=
  match hframing : r.framing with
  | .none => decidable_of_iff
      (r.body = [] ∧ r.Lacks (ascii "Content-Length") ∧
        r.Lacks (ascii "Transfer-Encoding")) (by rw [FramingOk, hframing])
  | .contentLength => decidable_of_iff
      (r.Carries (ascii "Content-Length") (numeral 10 r.body.length) ∧
        r.Lacks (ascii "Transfer-Encoding")) (by rw [FramingOk, hframing])
  | .chunked body => decidable_of_iff
      (body.Ok ∧ body.payload = r.body ∧
        r.Carries (ascii "Transfer-Encoding") (ascii "chunked") ∧
        r.Lacks (ascii "Content-Length")) (by rw [FramingOk, hframing])

structure WellFormed (r : WireRequest) : Prop where
  methodKnown : r.method ≠ .unknown
  pathNonempty : r.path ≠ []
  pathSpace : 32 ∉ r.path
  pathFree : CrlfFree r.path
  versionFree : CrlfFree r.version
  fieldsOk : ∀ field ∈ r.fields, FieldOk field
  namesDistinct : (r.fields.map fun field => lowerBytes field.1).Nodup
  linesFit : ∀ line ∈ r.lines, line.length ≤ maxHttpHeaderSize - 1
  bodyFits : r.body.length ≤ maxHttpBodySize
  framingOk : r.FramingOk

instance (r : WireRequest) : Decidable r.WellFormed :=
  decidable_of_iff
    ((r.method ≠ .unknown ∧ r.path ≠ [] ∧ 32 ∉ r.path ∧ CrlfFree r.path ∧
        CrlfFree r.version) ∧
      (∀ field ∈ r.fields, FieldOk field) ∧
      (r.fields.map fun field => lowerBytes field.1).Nodup ∧
      (∀ line ∈ r.lines, line.length ≤ maxHttpHeaderSize - 1) ∧
      r.body.length ≤ maxHttpBodySize ∧ r.FramingOk)
    ⟨fun ⟨⟨hmethod, hne, hspace, hpath, hversion⟩, hfields, hnames, hlines, hbody,
        hframing⟩ =>
      ⟨hmethod, hne, hspace, hpath, hversion, hfields, hnames, hlines, hbody, hframing⟩,
      fun hwf => ⟨⟨hwf.methodKnown, hwf.pathNonempty, hwf.pathSpace, hwf.pathFree,
        hwf.versionFree⟩, hwf.fieldsOk, hwf.namesDistinct, hwf.linesFit, hwf.bodyFits,
        hwf.framingOk⟩⟩

/-- The record the parser should fill in. -/
def request (r : WireRequest) : HttpRequest where
  method := r.method
  path := r.path
  version := r.version
  headers := setFields .empty r.fields
  body := r.body

variable {r : WireRequest}

theorem Lacks.get {name : Bytes} (hlacks : r.Lacks name) :
    (setFields .empty r.fields).get name = none := by
  rw [get_setFields, lastValue_eq_none hlacks, HttpHeaders.get_empty]
  rfl

theorem Carries.get {name value : Bytes} (hcarries : r.Carries name value)
    (hdistinct : (r.fields.map fun field => lowerBytes field.1).Nodup) :
    (setFields .empty r.fields).get name = some value := by
  obtain ⟨field, hmem, hname, rfl⟩ := hcarries
  rw [get_setFields, lastValue_of_mem hdistinct hmem hname]
  rfl

end WireRequest

theorem getContentLength_eq (headers : HttpHeaders) :
    headers.getContentLength =
      ((headers.get (ascii "Content-Length")).bind stoull).getD 0 := by
  have hkey : headers.get (ascii "content-length") =
      headers.get (ascii "Content-Length") := by
    have hlower : lowerBytes (ascii "content-length") =
        lowerBytes (ascii "Content-Length") := by decide
    rw [HttpHeaders.get, HttpHeaders.get, hlower]
  rw [HttpHeaders.getContentLength, hkey]
  cases headers.get (ascii "Content-Length") <;> rfl

/-- The test the parser makes on `Transfer-Encoding`. -/
def announcesChunked (headers : HttpHeaders) : Bool :=
  match headers.get (ascii "Transfer-Encoding") with
  | some te => HttpRequest.contains te (ascii "chunked")
  | none => false

theorem announcesChunked_of_none {headers : HttpHeaders}
    (hte : headers.get (ascii "Transfer-Encoding") = none) :
    announcesChunked headers = false := by
  simp only [announcesChunked, hte]

theorem announcesChunked_of_chunked {headers : HttpHeaders}
    (hte : headers.get (ascii "Transfer-Encoding") = some (ascii "chunked")) :
    announcesChunked headers = true := by
  simp only [announcesChunked, hte]
  decide

theorem endOfHeaders_eq (p : Progress) :
    endOfHeaders p =
      if announcesChunked p.request.headers then p.goto .chunkSize
      else if 0 < p.request.headers.getContentLength then p.goto .body
      else p.goto .complete := by
  cases hte : p.request.headers.get (ascii "Transfer-Encoding") with
  | none => simp only [endOfHeaders, announcesChunked, hte, Bool.false_eq_true, ↓reduceIte]
  | some te => simp only [endOfHeaders, announcesChunked, hte]

section Bodies

variable {limit : Nat}

/-- From the blank line on: the header map announces how the body is framed,
and the body text follows. -/
theorem reads_contentLength (hlimit : limit ≤ maxChunkBodySize) {p : Progress}
    {payload : Bytes} (hstate : p.parser.mState = .headers) (hbody : p.request.body = [])
    (hplain : announcesChunked p.request.headers = false)
    (hlength : p.request.headers.getContentLength = payload.length)
    (hbound : payload.length ≤ maxHttpBodySize) (rest : Bytes) :
    ∃ parser : HttpRequestParser, parser.mState = .complete ∧
      Reads limit (p, crlf ++ (payload ++ rest)) ({ p.withBody payload with parser }, rest) := by
  have hblank := reads_blank_line hlimit hstate (payload ++ rest)
  rw [endOfHeaders_eq, hplain, hlength, if_neg Bool.false_ne_true] at hblank
  refine ⟨{ p.parser with mState := .complete }, rfl, ?_⟩
  by_cases hempty : payload = []
  · have hsame : ({ p.withBody [] with parser := ⟨.complete, p.parser.mChunkRemaining⟩ } :
        Progress) = p.goto .complete := by
      rw [Progress.withBody, ← hbody]
      rfl
    subst hempty
    rw [if_neg (by simp)] at hblank
    rw [hsame]
    exact hblank
  · have hpositive : 0 < payload.length := List.length_pos_iff.mpr hempty
    have hneeded : bytesNeeded p.request = payload.length := by
      have hfits := maxHttpBodySize_lt_sizeBound
      rw [bytesNeeded, hlength, hbody, List.length_nil, Nat.sub_zero,
        Nat.add_mod_right, Nat.mod_eq_of_lt (by omega)]
    have hturn : turn (p.goto .body) (payload ++ rest) =
        .next (bodyBytes (p.goto .body) payload) rest := by
      rw [turn_body (p.goto_mState .body), p.goto_request, hneeded, takeBytes,
        extractBytes_exact hbound]
    rw [if_pos hpositive] at hblank
    exact hblank.tail ⟨hturn, by simp [lineAction?]⟩

theorem reads_chunkedFraming (hlimit : limit ≤ maxChunkBodySize) {p : Progress}
    {body : ChunkedBody} (hok : body.Ok) (hstate : p.parser.mState = .headers)
    (hbody : p.request.body = []) (hchunked : announcesChunked p.request.headers = true)
    (hlines : ∀ line ∈ body.lines, line.length ≤ limit)
    (hbound : body.payload.length ≤ maxHttpBodySize) (rest : Bytes) :
    ∃ parser : HttpRequestParser, parser.mState = .complete ∧
      Reads limit (p, crlf ++ (body.text ++ rest))
        ({ p.withBody body.payload with parser }, rest) := by
  have hblank := reads_blank_line hlimit hstate (body.text ++ rest)
  rw [endOfHeaders_eq, if_pos hchunked] at hblank
  obtain ⟨parser, hcomplete, hreads⟩ := @reads_chunkedBody limit hlimit
    (p.goto .chunkSize) body hok rfl hlines (by simpa [hbody] using hbound) rest
  refine ⟨parser, hcomplete, ?_⟩
  have hboth := hblank.trans hreads
  simpa [Progress.withBody, Progress.goto, hbody, Reads] using hboth

end Bodies

theorem maxHttpHeaderSize_le : maxHttpHeaderSize - 1 ≤ maxChunkBodySize := by decide

namespace WireRequest

variable {r : WireRequest}

/-- The progress the parser has made when it meets the blank line. -/
theorem reads_head (hwf : r.WellFormed) (rest : Bytes) :
    Reads (maxHttpHeaderSize - 1)
      ({}, requestLineText r.method r.path r.version ++
        (crlf ++ (fieldLines r.fields ++ rest)))
      ({ parser := ⟨.headers, 0⟩, request := { r.request with body := [] } }, rest) := by
  have hfields : ∀ field ∈ r.fields,
      (fieldText field).length ≤ maxHttpHeaderSize - 1 := by
    intro field hfield
    apply hwf.linesFit
    simp only [lines, List.mem_cons, List.mem_append, List.mem_map]
    exact Or.inr (Or.inl ⟨field, hfield, rfl⟩)
  have hline := hwf.linesFit (requestLineText r.method r.path r.version) (by simp [lines])
  have haccept : requestLineLine {} (requestLineText r.method r.path r.version) =
      (true, { parser := ⟨.headers, 0⟩,
               request := { method := r.method, path := r.path, version := r.version } }) := by
    simp only [requestLineLine, parseRequestLine_requestLineText hwf.methodKnown
      hwf.pathNonempty hwf.pathSpace]
    rfl
  have hfirst := reads_line maxHttpHeaderSize_le (p := {}) rfl
    (crlfFree_requestLineText r.method hwf.pathFree hwf.versionFree) hline haccept
    (fieldLines r.fields ++ rest)
  exact hfirst.trans (reads_fieldLines maxHttpHeaderSize_le r.fields _ rfl hwf.fieldsOk
    hfields rest)

/-- One rendered request is read back and consumed exactly. -/
theorem reads_text (hwf : r.WellFormed) (rest : Bytes) :
    ∃ parser : HttpRequestParser, parser.mState = .complete ∧
      Reads (maxHttpHeaderSize - 1) ({}, r.text ++ rest) (⟨parser, r.request⟩, rest) := by
  have hsplit : r.text ++ rest = requestLineText r.method r.path r.version ++
      (crlf ++ (fieldLines r.fields ++ (crlf ++ (r.bodyText ++ rest)))) := by
    simp [text]
  have hhead := reads_head hwf (crlf ++ (r.bodyText ++ rest))
  rw [← hsplit] at hhead
  have hframing := hwf.framingOk
  have hbody := hwf.bodyFits
  cases hkind : r.framing with
  | none =>
      simp only [FramingOk, hkind] at hframing
      obtain ⟨hempty, hcl, hte⟩ := hframing
      have hlength : r.request.headers.getContentLength = r.body.length := by
        rw [getContentLength_eq, request, hcl.get, hempty]
        rfl
      have htext : r.bodyText = r.body := by simp [bodyText, hkind, hempty]
      rw [htext] at hhead
      obtain ⟨parser, hcomplete, hreads⟩ := @reads_contentLength _ maxHttpHeaderSize_le
        { parser := ⟨.headers, 0⟩, request := { r.request with body := [] } } r.body
        rfl rfl (announcesChunked_of_none hte.get) hlength hbody rest
      exact ⟨parser, hcomplete, hhead.trans hreads⟩
  | contentLength =>
      simp only [FramingOk, hkind] at hframing
      obtain ⟨hcl, hte⟩ := hframing
      have hfits : r.body.length < sizeBound :=
        Nat.lt_of_le_of_lt hbody maxHttpBodySize_lt_sizeBound
      have hlength : r.request.headers.getContentLength = r.body.length := by
        rw [getContentLength_eq, request, hcl.get hwf.namesDistinct]
        simp [stoull_numeral hfits]
      have htext : r.bodyText = r.body := by simp [bodyText, hkind]
      rw [htext] at hhead
      obtain ⟨parser, hcomplete, hreads⟩ := @reads_contentLength _ maxHttpHeaderSize_le
        { parser := ⟨.headers, 0⟩, request := { r.request with body := [] } } r.body
        rfl rfl (announcesChunked_of_none hte.get) hlength hbody rest
      exact ⟨parser, hcomplete, hhead.trans hreads⟩
  | chunked body =>
      simp only [FramingOk, hkind] at hframing
      obtain ⟨hok, hpayload, hte, _⟩ := hframing
      have htext : r.bodyText = body.text := by simp [bodyText, hkind]
      have hlines : ∀ line ∈ body.lines, line.length ≤ maxHttpHeaderSize - 1 :=
        fun line hline => hwf.linesFit line (by simp [lines, bodyLines, hkind, hline])
      rw [htext] at hhead
      obtain ⟨parser, hcomplete, hreads⟩ := @reads_chunkedFraming _ maxHttpHeaderSize_le
        { parser := ⟨.headers, 0⟩, request := { r.request with body := [] } } body hok
        rfl rfl (announcesChunked_of_chunked (hte.get hwf.namesDistinct)) hlines
        (hpayload ▸ hbody) rest
      rw [hpayload] at hreads
      exact ⟨parser, hcomplete, hhead.trans hreads⟩

theorem parse_text (hwf : r.WellFormed) (rest : Bytes) :
    ∃ parser : HttpRequestParser,
      parse {} (r.text ++ rest) = (.success, ⟨parser, r.request⟩, rest) := by
  obtain ⟨parser, hcomplete, hreads⟩ := reads_text hwf rest
  exact ⟨parser, hreads.parse_success hcomplete⟩

end WireRequest

/-- `count` calls of `parse`, request and parser reset in between. -/
def parseTimes : Nat → Bytes → List (ParseResult × HttpRequest) × Bytes
  | 0, readBuffer => ([], readBuffer)
  | count + 1, readBuffer =>
      let (result, p, rest) := parse {} readBuffer
      let later := parseTimes count rest
      ((result, p.request) :: later.1, later.2)

/-- Parsing inverts rendering on a pipeline of requests. -/
theorem parseTimes_pipeline {pipeline : List WireRequest}
    (hwf : ∀ r ∈ pipeline, r.WellFormed) (trailing : Bytes) :
    parseTimes pipeline.length (pipeline.flatMap WireRequest.text ++ trailing) =
      (pipeline.map fun r => (.success, r.request), trailing) := by
  induction pipeline with
  | nil => rfl
  | cons r pipeline ih =>
      obtain ⟨parser, hparse⟩ := WireRequest.parse_text (hwf r List.mem_cons_self)
        (pipeline.flatMap WireRequest.text ++ trailing)
      have hlater := ih (fun other hother => hwf other (List.mem_cons_of_mem _ hother))
      rw [List.flatMap_cons, List.append_assoc, List.length_cons, parseTimes, hparse]
      simp only [hlater, List.map_cons]

/-- One request of each framing, with a CRLF inside a chunk and the beginning
of a fourth request behind them. -/
def mixedPipeline : List WireRequest :=
  [{ method := .get, path := ascii "/", version := ascii "HTTP/1.1",
     fields := [(ascii "Host", ascii "a")], body := [], framing := .none },
   { method := .put, path := ascii "/x", version := ascii "HTTP/1.1",
     fields := [(ascii "content-LENGTH", ascii "3")], body := ascii "a\r\n",
     framing := .contentLength },
   { method := .post, path := ascii "/y", version := ascii "HTTP/1.1",
     fields := [(ascii "Transfer-Encoding", ascii "chunked")], body := ascii "b\r\nc",
     framing := .chunked
       { chunks := [⟨ascii "003", some (ascii "q=1"), ascii "b\r\n"⟩,
           ⟨ascii "1", none, ascii "c"⟩],
         lastSize := ascii "00", trailers := [ascii "Sum: 0"] } }]

theorem parseTimes_mixedPipeline :
    parseTimes 3 (mixedPipeline.flatMap WireRequest.text ++ ascii "GET /la") =
      (mixedPipeline.map fun r => (.success, r.request), ascii "GET /la") :=
  @parseTimes_pipeline mixedPipeline (by decide +kernel) (ascii "GET /la")

end HttpServer
