/-
What the encoder puts on the wire.  Its framing decision, the header map and
the body writer are separate pieces of code; this module says for which
responses the bytes are framed once, whatever texts they carry, and that on
responses that leave framing to the encoder the request parser reads back what
was written.
-/
import HttpServer.HttpClient
import HttpServer.HttpResponse
import HttpServer.RequestRoundTrip

namespace HttpServer

open ByteText HttpResponseEncoder

section HeaderMap

variable (headers : HttpHeaders)

/-- The erasure in `del` uses the key as it was passed: with an upper-case
letter in it nothing is ever erased. -/
theorem HttpHeaders.del_of_unfolded {key : Bytes} (hkey : lowerBytes key ≠ key) :
    headers.del key = headers := by
  apply HttpHeaders.ext_get
  intro other
  rw [HttpHeaders.get_del, if_neg]
  intro hother
  rw [← hother, lowerBytes_lowerBytes] at hkey
  contradiction

theorem del_contentLength : headers.del (ascii "Content-Length") = headers :=
  headers.del_of_unfolded (by decide)

theorem del_transferEncoding : headers.del (ascii "Transfer-Encoding") = headers :=
  headers.del_of_unfolded (by decide)

theorem HeaderOrder.lower_entries (order : HeaderOrder) {field : Bytes × Bytes}
    (hmem : field ∈ order.entries headers) : lowerBytes field.1 = field.1 := by
  have hlookup := (order.mem_entries headers field.1 field.2).mp hmem
  exact headers.lowerKeys field.1 (Finmap.mem_of_lookup_eq_some hlookup)

theorem HeaderOrder.mem_entries_iff_get (order : HeaderOrder) {key value : Bytes}
    (hkey : lowerBytes key = key) :
    (key, value) ∈ order.entries headers ↔ headers.get key = some value := by
  rw [order.mem_entries, HttpHeaders.get, hkey]

/-- Setting the listed entries one by one rebuilds the map, in any order. -/
theorem setFields_entries (order : HeaderOrder) :
    setFields .empty (order.entries headers) = headers := by
  have hlower : (order.entries headers).map (fun field => lowerBytes field.1) =
      (order.entries headers).map Prod.fst :=
    List.map_congr_left fun field hfield => order.lower_entries headers hfield
  have hdistinct : ((order.entries headers).map fun field => lowerBytes field.1).Nodup := by
    rw [hlower]
    exact order.keysNodup headers
  apply HttpHeaders.ext_get
  intro key
  rw [get_setFields, HttpHeaders.get_empty, Option.or_none]
  cases hget : headers.get key with
  | none =>
      apply lastValue_eq_none
      intro field hfield hname
      have hentry := (order.mem_entries headers field.1 field.2).mp hfield
      rw [← order.lower_entries headers hfield, hname, ← HttpHeaders.get, hget] at hentry
      contradiction
  | some value =>
      have hentry : (lowerBytes key, value) ∈ order.entries headers :=
        (order.mem_entries headers _ _).mpr hget
      exact lastValue_of_mem hdistinct hentry (lowerBytes_lowerBytes key)

end HeaderMap

section Decision

/-- `del` being without effect, this is all that `set_response_header` does to
the headers. -/
theorem setResponseHeader_headers (res : HttpResponse) :
    (setResponseHeader res).headers =
      if maxChuckSize < res.body.length then
        res.headers.set (ascii "Transfer-Encoding") (ascii "chunked")
      else res.headers.set (ascii "Content-Length") (numeral 10 res.body.length) := by
  simp only [setResponseHeader, del_contentLength, del_transferEncoding]
  split
  · rfl
  · split
    · next hempty =>
        rw [hempty]
        rfl
    · rfl

theorem setResponseHeader_body (res : HttpResponse) :
    (setResponseHeader res).body = res.body := by
  simp only [setResponseHeader]
  split
  · rfl
  · split <;> rfl

/-- An empty body keeps the body type it came with. -/
theorem setResponseHeader_bodyType (res : HttpResponse) :
    (setResponseHeader res).bodyType =
      if maxChuckSize < res.body.length then .chunked
      else if res.body = [] then res.bodyType else .contentLength := by
  simp only [setResponseHeader, List.length_eq_zero_iff]
  split
  · rfl
  · split <;> rfl

theorem lower_contentLength :
    lowerBytes (ascii "Content-Length") = ascii "content-length" := by decide

theorem lower_transferEncoding :
    lowerBytes (ascii "Transfer-Encoding") = ascii "transfer-encoding" := by decide

theorem contentLength_ne_transferEncoding :
    ascii "content-length" ≠ ascii "transfer-encoding" := by decide

/-- A header that tells where the body ends. -/
def isFraming (field : Bytes × Bytes) : Bool :=
  lowerBytes field.1 = ascii "content-length" ||
    lowerBytes field.1 = ascii "transfer-encoding"

/-- The one framing header of the encoder. -/
def ownFraming (res : HttpResponse) : Bytes × Bytes :=
  if maxChuckSize < res.body.length then (ascii "transfer-encoding", ascii "chunked")
  else (ascii "content-length", numeral 10 res.body.length)

/-- `text` is some chunked encoding of `body`. -/
def IsChunkedCoding (body text : Bytes) : Prop :=
  ∃ coding : ChunkedBody, coding.Ok ∧ coding.text = text ∧ coding.payload = body

/-- One framing header, and the payload is what it announces. -/
def SingleFraming (fields : List (Bytes × Bytes)) (payload body : Bytes) : Prop :=
  (fields.filter isFraming = [(ascii "content-length", numeral 10 body.length)] ∧
      payload = body) ∨
    (fields.filter isFraming = [(ascii "transfer-encoding", ascii "chunked")] ∧
      IsChunkedCoding body payload)

/-- The two header settings of the encoder, as lookups. -/
theorem get_framed (res : HttpResponse) (key : Bytes) :
    (setResponseHeader res).headers.get key =
      if maxChuckSize < res.body.length then
        if lowerBytes key = ascii "transfer-encoding" then some (ascii "chunked")
        else res.headers.get key
      else if lowerBytes key = ascii "content-length" then
        some (numeral 10 res.body.length)
      else res.headers.get key := by
  rw [setResponseHeader_headers]
  split
  · rw [HttpHeaders.get_set, lower_transferEncoding]
  · rw [HttpHeaders.get_set, lower_contentLength]

/-- The chunks the encoder cuts a body into. -/
def splitChunks (body : Bytes) : List WireChunk :=
  if body = [] then []
  else
    { sizeHex := numeral 16 (body.take maxChuckSize).length,
      data := body.take maxChuckSize } :: splitChunks (body.drop maxChuckSize)
termination_by body.length
decreasing_by
  rename_i hne
  have hpositive : 0 < body.length := List.length_pos_iff.mpr hne
  simp only [List.length_drop, maxChuckSize]
  omega

theorem splitChunks_spec (body : Bytes) :
    encodeChunks body = (splitChunks body).flatMap WireChunk.text ∧
      (splitChunks body).flatMap WireChunk.data = body ∧
      (∀ chunk ∈ splitChunks body, chunk.Ok) ∧
      ∀ chunk ∈ splitChunks body,
        chunk.sizeLine = numeral 16 chunk.data.length ∧
          chunk.data.length ≤ maxChuckSize := by
  induction body using splitChunks.induct with
  | case1 =>
      rw [encodeChunks, splitChunks]
      simp
  | case2 body hne ih =>
      obtain ⟨htext, hdata, hok, hsize⟩ := ih
      have htake : body.take maxChuckSize ≠ [] := by
        simp [List.take_eq_nil_iff, hne, maxChuckSize]
      rw [encodeChunks, splitChunks, if_neg hne, if_neg hne]
      refine ⟨?_, ?_, ?_, ?_⟩
      · rw [htext]
        simp [WireChunk.text, WireChunk.sizeLine, extensionText]
      · rw [List.flatMap_cons, hdata]
        exact List.take_append_drop maxChuckSize body
      · intro chunk hchunk
        rcases List.mem_cons.mp hchunk with rfl | hchunk
        · exact ⟨numeral_spells (by decide) (by decide) _, htake, by simp⟩
        · exact hok chunk hchunk
      · intro chunk hchunk
        rcases List.mem_cons.mp hchunk with rfl | hchunk
        · exact ⟨by simp [WireChunk.sizeLine, extensionText], by simp⟩
        · exact hsize chunk hchunk

/-- The chunked body that the encoder writes. -/
def codingOf (body : Bytes) : ChunkedBody where
  chunks := splitChunks body
  lastSize := ascii "0"

theorem codingOf_ok (body : Bytes) : (codingOf body).Ok where
  chunksOk := (splitChunks_spec body).2.2.1
  lastSpells := by
    have hzero : ascii "0" = numeral 16 0 := by decide
    rw [codingOf, hzero]
    exact numeral_spells (by decide) (by decide) 0
  lastExtensionFree := by simp [codingOf]
  trailersOk := by simp [codingOf]

theorem codingOf_text (body : Bytes) :
    (codingOf body).text = encodeChunks body ++ ascii "0\r\n\r\n" := by
  have hlast : ascii "0\r\n\r\n" = ascii "0" ++ (crlf ++ crlf) := by decide
  rw [(splitChunks_spec body).1, hlast]
  simp [ChunkedBody.text, ChunkedBody.lastLine, ChunkedBody.trailerText, codingOf,
    extensionText]

theorem codingOf_payload (body : Bytes) : (codingOf body).payload = body :=
  (splitChunks_spec body).2.1

theorem encodeBody_framed (res : HttpResponse) :
    encodeBody (setResponseHeader res) =
      if maxChuckSize < res.body.length then (codingOf res.body).text
      else if res.body = [] ∧ res.bodyType = .chunked then ascii "0\r\n\r\n"
      else res.body := by
  rw [encodeBody, setResponseHeader_bodyType, setResponseHeader_body, codingOf_text]
  by_cases hlarge : maxChuckSize < res.body.length
  · simp [hlarge]
  · by_cases hempty : res.body = []
    · cases htype : res.bodyType with
      | contentLength => simp [hempty]
      | chunked =>
          rw [if_neg hlarge, if_pos hempty, if_neg hlarge, if_pos ⟨hempty, rfl⟩, hempty,
            encodeChunks]
          simp
    · simp [hlarge, hempty]

theorem lower_names :
    lowerBytes (ascii "transfer-encoding") = ascii "transfer-encoding" ∧
      lowerBytes (ascii "content-length") = ascii "content-length" := by
  decide

end Decision

section Wire

variable (order : HeaderOrder) (res : HttpResponse)

/-- One framing header and its payload, as a recipient reads them off the bytes. -/
def ReadsFramedOnce (wire body : Bytes) : Prop :=
  ∃ status lines payload,
    HttpClient.readBlock wire = some (status :: lines, payload) ∧
      SingleFraming (lines.map HttpClient.readField) payload body

/-- The lines that a recipient finds in the response's own texts: those behind a CRLF
in the status message, and those of every header but the one the encoder frames the
body with. -/
inductive Supplies (res : HttpResponse) : Bytes → Prop
  | status {line : Bytes} (hline : line ∈ (HttpClient.textLines (statusLine res)).tail) :
      Supplies res line
  | header {name value line : Bytes}
      (hheader : res.headers.mHeaders.lookup name = some value)
      (hother : name ≠ (ownFraming res).1)
      (hline : line ∈ HttpClient.textLines (fieldText (name, value))) : Supplies res line

/-- Framing is left to the encoder: no line of the response ends the header block or is
a framing header, and no stale chunked body type comes with an empty body. -/
structure FramingLeft (res : HttpResponse) : Prop where
  noBlank : ∀ line, Supplies res line → line ≠ []
  unframed : ∀ line, Supplies res line → isFraming (HttpClient.readField line) = false
  empty : res.body = [] → res.bodyType = .contentLength

/-- No CRLF in the status text, no CRLF or stray colon in the header texts. -/
structure CleanText : Prop where
  messageFree : CrlfFree res.statusMessage
  fieldsOk : ∀ name value, res.headers.mHeaders.lookup name = some value →
    FieldOk (name, value)

theorem decimal_byte {n : Nat} {b : UInt8} (hb : b ∈ numeral 10 n) :
    b ≠ cr ∧ isBlank b = false := by
  have hspell := @numeral_spells 10 (by decide) (by decide) n
  have hdigit := digit_byte b (digitValue_mono (by decide) (hspell.mem_isSome hb))
  have hspace := hdigit.2.1
  refine ⟨hdigit.2.2.2.2.2.2.2, ?_⟩
  revert hspace
  clear hdigit hb
  revert b
  decide +kernel

theorem cr_notMem_decimal (n : Nat) : cr ∉ numeral 10 n :=
  fun hmem => (decimal_byte hmem).1 rfl

theorem contentLength_lineSafe :
    58 ∉ ascii "content-length" ∧ CrlfFree (ascii "content-length") := by
  decide

theorem fieldOk_contentLength (n : Nat) :
    FieldOk (ascii "content-length", numeral 10 n) where
  nameColon := contentLength_lineSafe.1
  nameFree := contentLength_lineSafe.2
  valueFree := crlfFree_of_not_mem (cr_notMem_decimal n)
  valueStart := fun _ hb => (decimal_byte (List.mem_of_mem_head? hb)).2

theorem fieldOk_transferEncoding :
    FieldOk (ascii "transfer-encoding", ascii "chunked") where
  nameColon := by decide
  nameFree := by decide
  valueFree := by decide
  valueStart := by decide +kernel

variable {res}

theorem ownFraming_fieldOk (res : HttpResponse) : FieldOk (ownFraming res) := by
  rw [ownFraming]
  split
  · exact fieldOk_transferEncoding
  · exact fieldOk_contentLength _

variable {order} in
theorem ownFraming_mem : ownFraming res ∈ order.entries (setResponseHeader res).headers := by
  rw [ownFraming]
  split
  · next hlarge =>
      rw [order.mem_entries_iff_get _ lower_names.1, get_framed, if_pos hlarge,
        lower_names.1, if_pos rfl]
  · next hsmall =>
      rw [order.mem_entries_iff_get _ lower_names.2, get_framed, if_neg hsmall,
        lower_names.2, if_pos rfl]

/-- The fields on the wire are the handler's and one that the encoder sets. -/
theorem framed_fields {property : Bytes × Bytes → Prop}
    (hfields : ∀ name value, res.headers.mHeaders.lookup name = some value →
      property (name, value))
    (hlarge : maxChuckSize < res.body.length →
      property (ascii "transfer-encoding", ascii "chunked"))
    (hsmall : res.body.length ≤ maxChuckSize →
      property (ascii "content-length", numeral 10 res.body.length)) :
    ∀ field ∈ order.entries (setResponseHeader res).headers, property field := by
  rintro ⟨key, value⟩ hmem
  have hkey : lowerBytes key = key := order.lower_entries _ hmem
  have hget := (order.mem_entries_iff_get _ hkey).mp hmem
  have hold : res.headers.get key = some value → property (key, value) := by
    intro hres
    rw [HttpHeaders.get, hkey] at hres
    exact hfields key value hres
  rw [get_framed, hkey] at hget
  split at hget
  · next hlong =>
      split at hget
      · next hname =>
          obtain rfl := Option.some.inj hget
          rw [hname]
          exact hlarge hlong
      · exact hold hget
  · next hshort =>
      split at hget
      · next hname =>
          obtain rfl := Option.some.inj hget
          rw [hname]
          exact hsmall (Nat.not_lt.mp hshort)
      · exact hold hget

/-- The encoder adds no header text that its own lines could be confused by. -/
theorem CleanText.framed (hclean : CleanText res) :
    ∀ field ∈ order.entries (setResponseHeader res).headers, FieldOk field :=
  framed_fields order hclean.fieldsOk (fun _ => fieldOk_transferEncoding)
    fun _ => fieldOk_contentLength _

theorem crlfFree_statusLine (hmessage : CrlfFree res.statusMessage) :
    CrlfFree (statusLine res) := by
  have hsplit : statusLine res =
      (ascii "HTTP/1.1 " ++ numeral 10 res.statusCode.toNat) ++
        32 :: res.statusMessage := by
    have hspace : ascii " " = [32] := by decide
    simp [statusLine, hspace]
  have hversion : cr ∉ ascii "HTTP/1.1 " := by decide
  have hcode := cr_notMem_decimal res.statusCode.toNat
  rw [hsplit]
  apply crlfFree_append_cons _ hmessage (by decide) (by decide)
  apply crlfFree_of_not_mem
  simpa using ⟨hversion, hcode⟩

theorem statusLine_ne_nil : statusLine res ≠ [] := by
  have hversion : ascii "HTTP/1.1 " ≠ [] := by decide
  simp [statusLine, hversion]

/-- A recipient cuts the bytes where the encoder put its lines. -/
theorem readBlock_encoded (hmessage : CrlfFree res.statusMessage)
    (hfields : ∀ field ∈ order.entries (setResponseHeader res).headers,
      CrlfFree (fieldText field)) (payload : Bytes) :
    HttpClient.readBlock (statusLine res ++ (crlf ++
      (fieldLines (order.entries (setResponseHeader res).headers) ++
        (crlf ++ payload)))) =
      some (statusLine res ::
        (order.entries (setResponseHeader res).headers).map fieldText, payload) := by
  have hlines : ∀ line ∈ statusLine res ::
      (order.entries (setResponseHeader res).headers).map fieldText,
      line ≠ [] ∧ CrlfFree line := by
    intro line hline
    rcases List.mem_cons.mp hline with rfl | hline
    · exact ⟨statusLine_ne_nil, crlfFree_statusLine hmessage⟩
    · obtain ⟨field, hfield, rfl⟩ := List.mem_map.mp hline
      exact ⟨by simp [fieldText], hfields field hfield⟩
  have hread := HttpClient.readBlock_lines _ hlines payload
  simpa [fieldLines, List.flatMap_map] using hread

theorem lookup_other {name : Bytes} (hother : name ≠ (ownFraming res).1) :
    (setResponseHeader res).headers.mHeaders.lookup name = res.headers.mHeaders.lookup name := by
  unfold ownFraming at hother
  rw [setResponseHeader_headers]
  split at hother
  · next hlarge =>
      rw [← lower_transferEncoding] at hother
      rw [if_pos hlarge, HttpHeaders.set, Finmap.lookup_insert_of_ne _ hother]
  · next hsmall =>
      rw [← lower_contentLength] at hother
      rw [if_neg hsmall, HttpHeaders.set, Finmap.lookup_insert_of_ne _ hother]

/-- Around the encoder's own entry the map holds what the response held. -/
theorem entries_around : ∃ before after,
    order.entries (setResponseHeader res).headers = before ++ ownFraming res :: after ∧
      ∀ field, field ∈ before ++ after ↔
        field.1 ≠ (ownFraming res).1 ∧ res.headers.mHeaders.lookup field.1 = some field.2 := by
  obtain ⟨before, after, hsplit⟩ := List.append_of_mem (@ownFraming_mem order res)
  have hkeys := order.keysNodup (setResponseHeader res).headers
  rw [hsplit, List.map_append, List.map_cons, List.nodup_middle, ← List.map_append] at hkeys
  have hother : ∀ field ∈ before ++ after, field.1 ≠ (ownFraming res).1 :=
    fun field hfield hown =>
      (List.nodup_cons.mp hkeys).1 (hown ▸ List.mem_map_of_mem hfield)
  refine ⟨before, after, hsplit, fun field => ?_⟩
  have hentry := order.mem_entries (setResponseHeader res).headers field.1 field.2
  constructor
  · intro hfield
    have hname := hother field hfield
    rw [hsplit, lookup_other hname] at hentry
    refine ⟨hname, hentry.mp ?_⟩
    rcases List.mem_append.mp hfield with hbefore | hafter
    · exact List.mem_append_left _ hbefore
    · exact List.mem_append_right _ (List.mem_cons_of_mem _ hafter)
  · rintro ⟨hname, hlookup⟩
    rw [hsplit, lookup_other hname] at hentry
    have hne : field ≠ ownFraming res := fun heq => hname (heq ▸ rfl)
    have hfield := hentry.mpr hlookup
    simpa [hne] using hfield

open HttpClient

/-- The lines of some header entries, as they are on the wire. -/
def headerLines (fields : List (Bytes × Bytes)) : List Bytes :=
  fields.flatMap fun field => textLines (fieldText field)

theorem headerLines_append (left right : List (Bytes × Bytes)) :
    headerLines (left ++ right) = headerLines left ++ headerLines right :=
  List.flatMap_append

theorem headerLines_text (fields : List (Bytes × Bytes)) :
    (headerLines fields).flatMap (· ++ crlf) = fieldLines fields := by
  rw [headerLines, List.flatMap_assoc, fieldLines]
  exact List.flatMap_congr fun field _ => (textLines_spec (fieldText field)).2

theorem crlfFree_headerLines {fields : List (Bytes × Bytes)} :
    ∀ line ∈ headerLines fields, CrlfFree line := by
  intro line hline
  obtain ⟨field, _, hpiece⟩ := List.mem_flatMap.mp hline
  exact (textLines_spec (fieldText field)).1 line hpiece

/-- The status line's own first line is never blank. -/
theorem textLines_statusLine :
    ∃ status, status ≠ [] ∧
      textLines (statusLine res) = status :: (textLines (statusLine res)).tail := by
  have htext := (textLines_spec (statusLine res)).2
  cases hstatus : textLines (statusLine res) with
  | nil => simp [hstatus, crlf] at htext
  | cons status rest =>
      refine ⟨status, ?_, rfl⟩
      rintro rfl
      have hversion : (statusLine res ++ crlf).head? = some 72 := by
        rw [statusLine, List.append_assoc, List.head?_append_of_ne_nil _ (by decide)]
        decide
      rw [← htext, hstatus] at hversion
      exact absurd hversion (by simp [crlf, cr])

/-- The bytes are lines without a CRLF, the encoder's framing line among them once, and
the payload behind a blank line; all other lines come with the response. -/
theorem encode_lines : ∃ status before after,
    (encode order res false).1 =
        (status :: (before ++ fieldText (ownFraming res) :: after)).flatMap (· ++ crlf) ++
          (crlf ++ encodeBody (setResponseHeader res)) ∧
      status ≠ [] ∧
      (∀ line ∈ status :: (before ++ fieldText (ownFraming res) :: after), CrlfFree line) ∧
      ∀ line, line ∈ before ++ after ↔ Supplies res line := by
  obtain ⟨early, late, hentries, hmem⟩ := @entries_around order res
  obtain ⟨hstatusFree, hstatusText⟩ := textLines_spec (statusLine res)
  obtain ⟨status, hne, hstatus⟩ := @textLines_statusLine res
  have hown := textLines_free (ownFraming_fieldOk res).crlfFree
  have hall : status :: (((textLines (statusLine res)).tail ++ headerLines early) ++
      fieldText (ownFraming res) :: headerLines late) =
        textLines (statusLine res) ++ headerLines (early ++ ownFraming res :: late) := by
    rw [hstatus]
    simp [headerLines, hown]
  refine ⟨status, (textLines (statusLine res)).tail ++ headerLines early, headerLines late,
    ?_, hne, ?_, ?_⟩
  · rw [hall, ← hentries, List.flatMap_append, hstatusText, headerLines_text]
    simp [encode]
  · intro line hline
    rw [hall] at hline
    rcases List.mem_append.mp hline with hfront | hback
    · exact hstatusFree line hfront
    · exact crlfFree_headerLines line hback
  · intro line
    have hheaders : line ∈ headerLines (early ++ late) ↔
        ∃ name value, res.headers.mHeaders.lookup name = some value ∧
          name ≠ (ownFraming res).1 ∧ line ∈ textLines (fieldText (name, value)) := by
      simp only [headerLines, List.mem_flatMap, hmem, Prod.exists]
      tauto
    rw [List.append_assoc, ← headerLines_append, List.mem_append, hheaders]
    constructor
    · rintro (hrest | ⟨name, value, hlookup, hother, hline⟩)
      · exact .status hrest
      · exact .header hlookup hother hline
    · intro hsupplied
      cases hsupplied with
      | status hline => exact Or.inl hline
      | header hlookup hother hline => exact Or.inr ⟨_, _, hlookup, hother, hline⟩

def framingFields (lines : List Bytes) : List (Bytes × Bytes) :=
  (lines.map readField).filter isFraming

theorem framingFields_eq_nil {lines : List Bytes} :
    framingFields lines = [] ↔ ∀ line ∈ lines, isFraming (readField line) = false := by
  simp [framingFields]

theorem isFraming_ownFraming : isFraming (ownFraming res) = true := by
  rw [ownFraming]
  split <;> simp [isFraming, lower_names]

/-- The encoder's line is the only framing line if the others are none. -/
theorem framingFields_around (before after : List Bytes) :
    framingFields (before ++ fieldText (ownFraming res) :: after) = [ownFraming res] ↔
      framingFields (before ++ after) = [] := by
  have hsplit : framingFields (before ++ fieldText (ownFraming res) :: after) =
      framingFields before ++ ownFraming res :: framingFields after := by
    simp [framingFields, readField_fieldText (ownFraming_fieldOk res), isFraming_ownFraming]
  have happend : framingFields (before ++ after) =
      framingFields before ++ framingFields after := by
    simp [framingFields]
  rw [hsplit, happend]
  cases framingFields before <;> simp

/-- Next to the encoder's own field there is room for no other, and the payload is what
it announces unless the terminator of a chunked body follows an empty one. -/
theorem singleFraming_iff {fields : List (Bytes × Bytes)} (hmem : ownFraming res ∈ fields) :
    SingleFraming fields (encodeBody (setResponseHeader res)) res.body ↔
      fields.filter isFraming = [ownFraming res] ∧
        (res.body = [] → res.bodyType = .contentLength) := by
  have hframing : ownFraming res ∈ fields.filter isFraming :=
    List.mem_filter.mpr ⟨hmem, isFraming_ownFraming⟩
  rw [SingleFraming, encodeBody_framed]
  by_cases hlarge : maxChuckSize < res.body.length
  · have hne : res.body ≠ [] := by
      rintro hempty
      simp [hempty] at hlarge
    have hown : ownFraming res = (ascii "transfer-encoding", ascii "chunked") := if_pos hlarge
    rw [hown] at hframing ⊢
    constructor
    · rintro (⟨hlength, _⟩ | ⟨hcoding, _⟩)
      · rw [hlength, List.mem_singleton] at hframing
        exact absurd (Prod.mk.inj hframing).1.symm contentLength_ne_transferEncoding
      · exact ⟨hcoding, fun hempty => absurd hempty hne⟩
    · rintro ⟨hsingle, _⟩
      rw [if_pos hlarge]
      exact Or.inr ⟨hsingle, codingOf res.body, codingOf_ok res.body, rfl,
        codingOf_payload res.body⟩
  · have hown : ownFraming res = (ascii "content-length", numeral 10 res.body.length) :=
      if_neg hlarge
    rw [hown] at hframing ⊢
    rw [if_neg hlarge]
    constructor
    · rintro (⟨hlength, hpayload⟩ | ⟨hcoding, _⟩)
      · refine ⟨hlength, fun hempty => ?_⟩
        cases htype : res.bodyType with
        | contentLength => rfl
        | chunked =>
            rw [if_pos ⟨hempty, htype⟩, hempty] at hpayload
            exact absurd hpayload (by decide)
      · rw [hcoding, List.mem_singleton] at hframing
        exact absurd (Prod.mk.inj hframing).1 contentLength_ne_transferEncoding
    · rintro ⟨hsingle, hfresh⟩
      refine Or.inl ⟨hsingle, if_neg ?_⟩
      rintro ⟨hempty, htype⟩
      rw [hfresh hempty] at htype
      contradiction

/-- As long as no text of the response ends the header block, its lines decide. -/
theorem readsFramedOnce_iff (hnoBlank : ∀ line, Supplies res line → line ≠ []) :
    ReadsFramedOnce (encode order res false).1 res.body ↔ FramingLeft res := by
  obtain ⟨status, before, after, hwire, hstatus, hfree, hsupplied⟩ := @encode_lines order res
  have hlines : ∀ line ∈ status :: (before ++ fieldText (ownFraming res) :: after),
      line ≠ [] ∧ CrlfFree line := by
    intro line hline
    refine ⟨?_, hfree line hline⟩
    rcases List.mem_cons.mp hline with rfl | hline
    · exact hstatus
    · rcases List.mem_append.mp hline with hbefore | hrest
      · exact hnoBlank line ((hsupplied line).mp (List.mem_append_left _ hbefore))
      · rcases List.mem_cons.mp hrest with rfl | hafter
        · simp [fieldText]
        · exact hnoBlank line ((hsupplied line).mp (List.mem_append_right _ hafter))
  have hread := readBlock_lines _ hlines (encodeBody (setResponseHeader res))
  have hown : ownFraming res ∈
      (before ++ fieldText (ownFraming res) :: after).map readField :=
    List.mem_map.mpr ⟨_, by simp, readField_fieldText (ownFraming_fieldOk res)⟩
  have hothers : framingFields (before ++ after) = [] ↔
      ∀ line, Supplies res line → isFraming (readField line) = false := by
    simp only [framingFields_eq_nil, hsupplied]
  have hsingle := @framingFields_around res before after
  rw [hwire]
  constructor
  · rintro ⟨status', lines, payload, hblock, hframing⟩
    obtain ⟨hlist, rfl⟩ := Prod.mk.inj (Option.some.inj (hread.symm.trans hblock))
    obtain ⟨_, rfl⟩ := List.cons.inj hlist
    obtain ⟨honly, hempty⟩ := (singleFraming_iff hown).mp hframing
    exact ⟨hnoBlank, hothers.mp (hsingle.mp honly), hempty⟩
  · intro hleft
    refine ⟨_, _, _, hread, (singleFraming_iff hown).mpr ⟨?_, hleft.empty⟩⟩
    exact hsingle.mpr (hothers.mpr hleft.unframed)

/-- Framing left to the encoder is framing that a recipient reads once off the bytes, in
any order of the headers; as long as no text of the response ends the header block,
nothing else is. -/
theorem encode_framed_iff (order : HeaderOrder) (res : HttpResponse) :
    (FramingLeft res → ReadsFramedOnce (encode order res false).1 res.body) ∧
      ((∀ line, Supplies res line → line ≠ []) →
        (ReadsFramedOnce (encode order res false).1 res.body ↔ FramingLeft res)) :=
  ⟨fun hleft => (readsFramedOnce_iff order hleft.noBlank).mpr hleft, readsFramedOnce_iff order⟩

theorem lookup_set {headers : HttpHeaders} {key value name found : Bytes}
    (hlookup : (headers.set key value).mHeaders.lookup name = some found) :
    (name = lowerBytes key ∧ found = value) ∨
      headers.mHeaders.lookup name = some found := by
  by_cases hname : name = lowerBytes key
  · subst hname
    rw [HttpHeaders.set, Finmap.lookup_insert] at hlookup
    exact Or.inl ⟨rfl, (Option.some.inj hlookup).symm⟩
  · rw [HttpHeaders.set, Finmap.lookup_insert_of_ne _ hname] at hlookup
    exact Or.inr hlookup

/-- A fresh page has one header. -/
theorem lookup_html {text name value : Bytes}
    (hlookup : (HttpResponse.html {} text).headers.mHeaders.lookup name = some value) :
    (name, value) = (ascii "content-type", ascii "text/html; charset=utf-8") := by
  rcases lookup_set hlookup with ⟨rfl, rfl⟩ | hempty
  · decide
  · simp [HttpHeaders.empty] at hempty

theorem cleanText_html (text : Bytes) : CleanText (HttpResponse.html {} text) where
  messageFree := show CrlfFree (ascii "OK") by decide
  fieldsOk := by
    intro name value hlookup
    rw [lookup_html hlookup]
    decide +kernel

/-- In texts without a CRLF the lines are the header entries. -/
theorem Supplies.exists_header {line : Bytes} (hmessage : CrlfFree res.statusMessage)
    (hfields : ∀ name value, res.headers.mHeaders.lookup name = some value →
      CrlfFree (fieldText (name, value))) (hsupplied : Supplies res line) :
    ∃ name value, res.headers.mHeaders.lookup name = some value ∧
      name ≠ (ownFraming res).1 ∧ line = fieldText (name, value) := by
  cases hsupplied with
  | status hline => simp [textLines_free (crlfFree_statusLine hmessage)] at hline
  | header hheader hother hline =>
      rw [textLines_free (hfields _ _ hheader), List.mem_singleton] at hline
      exact ⟨_, _, hheader, hother, hline⟩

theorem encode_framed_html :
    let res := HttpResponse.html {} (ascii "<p>hi</p>")
    FramingLeft res ∧ ReadsFramedOnce (encode sortedOrder res false).1 res.body := by
  intro res
  have hfield : CrlfFree (fieldText (ascii "content-type", ascii "text/html; charset=utf-8")) ∧
      isFraming (readField
        (fieldText (ascii "content-type", ascii "text/html; charset=utf-8"))) = false := by
    decide +kernel
  have hlines : ∀ line, Supplies res line →
      line = fieldText (ascii "content-type", ascii "text/html; charset=utf-8") := by
    intro line hsupplied
    obtain ⟨name, value, hlookup, _, rfl⟩ := hsupplied.exists_header
      (show CrlfFree (ascii "OK") by decide)
      (fun name value hlookup => by rw [lookup_html hlookup]; exact hfield.1)
    rw [lookup_html hlookup]
  have hleft : FramingLeft res :=
    ⟨fun line hline => by simp [hlines line hline, fieldText],
      fun line hline => by rw [hlines line hline]; exact hfield.2, fun _ => rfl⟩
  exact ⟨hleft, (encode_framed_iff sortedOrder res).1 hleft⟩

/-- A handler's own `Transfer-Encoding`, which stays next to `Content-Length`. -/
def ownCoding : HttpResponse :=
  (HttpResponse.setHeader {} (ascii "Transfer-Encoding") (ascii "chunked")).setBody (ascii "hello")

/-- A response that was chunked before it was reset. -/
def staleType : HttpResponse := HttpResponse.reset { bodyType := .chunked }

/-- A header value with a line of its own. -/
def ownLine : HttpResponse :=
  (HttpResponse.setHeader {} (ascii "X") (ascii "a\r\nContent-Length: 99")).setBody (ascii "hello")

theorem lookup_setHeader {key value text name found : Bytes}
    (hlookup : ((HttpResponse.setHeader {} key value).setBody text).headers.mHeaders.lookup name =
      some found) : name = lowerBytes key ∧ found = value := by
  rcases lookup_set hlookup with hnew | hempty
  · exact hnew
  · simp [HttpHeaders.empty] at hempty

theorem not_readsFramedOnce (hnoBlank : ∀ line, Supplies res line → line ≠ []) {line : Bytes}
    (hsupplied : Supplies res line) (hframing : isFraming (readField line) = true) :
    ¬ ReadsFramedOnce (encode order res false).1 res.body := by
  rw [readsFramedOnce_iff order hnoBlank]
  intro hleft
  rw [hleft.unframed line hsupplied] at hframing
  contradiction

theorem not_framed_ownCoding :
    ¬ ReadsFramedOnce (encode sortedOrder ownCoding false).1 ownCoding.body := by
  have hfree : CrlfFree (fieldText (ascii "transfer-encoding", ascii "chunked")) :=
    fieldOk_transferEncoding.crlfFree
  have hheader : ownCoding.headers.mHeaders.lookup (ascii "transfer-encoding") =
      some (ascii "chunked") := by decide
  have hline : Supplies ownCoding (fieldText (ascii "transfer-encoding", ascii "chunked")) :=
    .header hheader (by decide) (by
      rw [textLines_free hfree]
      exact List.mem_singleton_self _)
  refine not_readsFramedOnce sortedOrder ?_ hline (by decide +kernel)
  intro line hsupplied
  obtain ⟨name, value, _, _, rfl⟩ := hsupplied.exists_header
    (show CrlfFree (ascii "OK") by decide) (fun name value hlookup => by
      obtain ⟨rfl, rfl⟩ := lookup_setHeader hlookup
      exact hfree)
  simp [fieldText]

theorem not_framed_staleType :
    ¬ ReadsFramedOnce (encode sortedOrder staleType false).1 staleType.body := by
  rw [readsFramedOnce_iff]
  · intro hleft
    exact absurd (hleft.empty rfl) (by decide)
  · intro line hsupplied
    obtain ⟨name, value, hlookup, _, _⟩ := hsupplied.exists_header
      (show CrlfFree (ascii "OK") by decide) (fun name value hlookup => by
        simp [staleType, HttpResponse.reset, HttpHeaders.empty] at hlookup)
    simp [staleType, HttpResponse.reset, HttpHeaders.empty] at hlookup

theorem not_framed_ownLine :
    ¬ ReadsFramedOnce (encode sortedOrder ownLine false).1 ownLine.body := by
  have hcut : fieldText (ascii "x", ascii "a\r\nContent-Length: 99") =
      ascii "x: a" ++ (crlf ++ ascii "Content-Length: 99") := by decide
  have hlines : textLines (fieldText (ascii "x", ascii "a\r\nContent-Length: 99")) =
      [ascii "x: a", ascii "Content-Length: 99"] := by
    rw [hcut, textLines_line (by decide), textLines_free (by decide)]
  have hheader : ownLine.headers.mHeaders.lookup (ascii "x") =
      some (ascii "a\r\nContent-Length: 99") := by decide
  have hline : Supplies ownLine (ascii "Content-Length: 99") :=
    .header hheader (by decide) (by
      rw [hlines]
      exact List.mem_cons_of_mem _ (List.mem_singleton_self _))
  refine not_readsFramedOnce sortedOrder ?_ hline (by decide +kernel)
  intro line hsupplied
  cases hsupplied with
  | status hline =>
      have hmessage : CrlfFree ownLine.statusMessage := (by decide : CrlfFree (ascii "OK"))
      simp [textLines_free (crlfFree_statusLine hmessage)] at hline
  | header hheader hother hline =>
      obtain ⟨rfl, rfl⟩ := lookup_setHeader hheader
      rw [show lowerBytes (ascii "X") = ascii "x" by decide, hlines] at hline
      have hne : ∀ line ∈ [ascii "x: a", ascii "Content-Length: 99"], line ≠ [] := by decide
      exact hne line hline

/-- What a handler sets stays next to the encoder's `Content-Length`, as a header or as a
line within one, and a body type left over from a chunked response puts a chunked
terminator behind `Content-Length: 0`. -/
theorem handler_framing_kept :
    (encode sortedOrder ownCoding false).1 =
        ascii "HTTP/1.1 200 OK\r\ncontent-length: 5\r\ntransfer-encoding: chunked\r\n\r\nhello" ∧
      ¬ ReadsFramedOnce (encode sortedOrder ownCoding false).1 ownCoding.body ∧
      (encode sortedOrder staleType false).1 =
        ascii "HTTP/1.1 200 OK\r\ncontent-length: 0\r\n\r\n0\r\n\r\n" ∧
      ¬ ReadsFramedOnce (encode sortedOrder staleType false).1 staleType.body ∧
      (encode sortedOrder ownLine false).1 =
        ascii "HTTP/1.1 200 OK\r\ncontent-length: 5\r\nx: a\r\nContent-Length: 99\r\n\r\nhello" ∧
      ¬ ReadsFramedOnce (encode sortedOrder ownLine false).1 ownLine.body :=
  ⟨by decide +kernel, not_framed_ownCoding, by decide +kernel, not_framed_staleType,
    by decide +kernel, not_framed_ownLine⟩

end Wire

section RoundTrip

variable {order : HeaderOrder} {res : HttpResponse}

theorem drop_statusLine :
    (encode order res false).1.drop ((statusLine res).length + 2) =
      fieldLines (order.entries (setResponseHeader res).headers) ++
        (crlf ++ encodeBody (setResponseHeader res)) := by
  simp [encode, crlf, List.drop_append]

/-- The line the encoder adds fits any limit a handler's lines fit. -/
theorem framed_lines (hbody : res.body.length ≤ maxHttpBodySize)
    (hlines : ∀ name value, res.headers.mHeaders.lookup name = some value →
      (fieldText (name, value)).length ≤ maxHttpHeaderSize - 1) :
    ∀ field ∈ order.entries (setResponseHeader res).headers,
      (fieldText field).length ≤ maxChunkBodySize := by
  refine @framed_fields order res (fun field => (fieldText field).length ≤
    maxChunkBodySize) ?_ ?_ ?_
  · intro name value hlookup
    exact (hlines name value hlookup).trans maxHttpHeaderSize_le
  · intro _
    decide
  · intro _
    have hdigits : (numeral 10 res.body.length).length ≤ 8 :=
      length_numeral_le (by decide) (by decide)
        (Nat.lt_of_le_of_lt hbody (by decide))
    have hfixed : (ascii "content-length").length = 14 := by decide
    simp only [fieldText, List.length_append, List.length_cons, hfixed, maxChunkBodySize]
    omega

theorem codingOf_lines (body : Bytes) :
    ∀ line ∈ (codingOf body).lines, line.length ≤ maxChunkBodySize := by
  intro line hline
  simp only [ChunkedBody.lines, List.mem_append, List.mem_map, List.mem_cons] at hline
  rcases hline with ⟨chunk, hchunk, rfl⟩ | rfl | htrailer
  · obtain ⟨hsize, hlength⟩ := (splitChunks_spec body).2.2.2 chunk hchunk
    rw [hsize]
    exact (length_numeral_le (by decide) (by decide)
      (Nat.lt_of_le_of_lt hlength (by decide) : _ < 16 ^ 5)).trans (by decide)
  · exact (by decide : (ascii "0" ++ extensionText none).length ≤ maxChunkBodySize)
  · simp [codingOf] at htrailer

/-- The request parser, started behind the status line, reads back the headers
as `encode` left them and the body byte for byte, and stops where the message
ends. -/
theorem parse_encode (hdefault : res.bodyType = .contentLength)
    (hbody : res.body.length ≤ maxHttpBodySize)
    (hcoding : res.headers.get (ascii "Transfer-Encoding") = none)
    (hclean : CleanText res)
    (hlines : ∀ name value, res.headers.mHeaders.lookup name = some value →
      (fieldText (name, value)).length ≤ maxHttpHeaderSize - 1)
    (t : Bytes) :
    ∃ parser : HttpRequestParser,
      parse { parser := ⟨.headers, 0⟩ }
        ((encode order res false).1.drop ((statusLine res).length + 2) ++ t) =
          (.success,
            ⟨parser, { headers := (encode order res false).2.headers, body := res.body }⟩,
            t) := by
  have hfields := (reads_fieldLines (Nat.le_refl _)
    (order.entries (setResponseHeader res).headers) { parser := ⟨.headers, 0⟩ } rfl
    (hclean.framed order) (framed_lines hbody hlines)
    (crlf ++ (encodeBody (setResponseHeader res) ++ t))).parse_eq
  rw [show ({ parser := ⟨.headers, 0⟩ } : Progress).request.headers = .empty from rfl,
    setFields_entries] at hfields
  rw [drop_statusLine, List.append_assoc, List.append_assoc, hfields, encodeBody_framed]
  by_cases hlarge : maxChuckSize < res.body.length
  · have hte : (setResponseHeader res).headers.get (ascii "Transfer-Encoding") =
        some (ascii "chunked") := by
      rw [get_framed, lower_transferEncoding, if_pos hlarge, if_pos rfl]
    obtain ⟨parser, hcomplete, hreads⟩ := @reads_chunkedFraming _ (Nat.le_refl _)
      (Progress.withHeaders { parser := ⟨.headers, 0⟩ } (setResponseHeader res).headers)
      (codingOf res.body) (codingOf_ok res.body) rfl rfl
      (announcesChunked_of_chunked hte) (codingOf_lines res.body)
      (by rw [codingOf_payload]; exact hbody) t
    rw [codingOf_payload] at hreads
    rw [if_pos hlarge]
    exact ⟨parser, hreads.parse_success hcomplete⟩
  · have hte : (setResponseHeader res).headers.get (ascii "Transfer-Encoding") = none := by
      rw [get_framed, lower_transferEncoding, if_neg hlarge,
        if_neg contentLength_ne_transferEncoding.symm, hcoding]
    have hcl : (setResponseHeader res).headers.getContentLength = res.body.length := by
      have hfits : res.body.length < sizeBound :=
        Nat.lt_of_le_of_lt hbody maxHttpBodySize_lt_sizeBound
      rw [getContentLength_eq, get_framed, lower_contentLength, if_neg hlarge, if_pos rfl]
      simp [stoull_numeral hfits]
    have hplain : ¬ (res.body = [] ∧ res.bodyType = .chunked) := by
      simp [hdefault]
    obtain ⟨parser, hcomplete, hreads⟩ := @reads_contentLength _ (Nat.le_refl _)
      (Progress.withHeaders { parser := ⟨.headers, 0⟩ } (setResponseHeader res).headers)
      res.body rfl rfl (announcesChunked_of_none hte) hcl hbody t
    rw [if_neg hlarge, if_neg hplain]
    exact ⟨parser, hreads.parse_success hcomplete⟩

/-- A page of one header and a short body. -/
theorem parse_encode_html :
    let res := HttpResponse.html {} (ascii "<p>hi</p>\r\n")
    ∃ parser : HttpRequestParser,
      parse { parser := ⟨.headers, 0⟩ }
        ((encode sortedOrder res false).1.drop ((statusLine res).length + 2) ++
          ascii "HTTP/1.1 ") =
          (.success,
            ⟨parser, { headers := (encode sortedOrder res false).2.headers,
                       body := ascii "<p>hi</p>\r\n" }⟩,
            ascii "HTTP/1.1 ") := by
  refine parse_encode rfl (by decide) (by decide) (cleanText_html _) ?_ _
  intro name value hlookup
  rw [lookup_html hlookup]
  decide

end RoundTrip

end HttpServer
