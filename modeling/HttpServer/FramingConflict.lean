/-
Requests whose header block frames the body twice.  The header map keeps the
last value of each name and the framing decision is taken at the blank line,
so a conflict is never looked for; this module says what the parser does with
an arbitrary header block instead.
-/
import HttpServer.HttpClient
import HttpServer.RequestRoundTrip

namespace HttpServer

open ByteText HttpClient

/-- The lines between the request line and the blank line. -/
structure HeaderBlock where
  lines : List Bytes
  linesOk : ∀ line ∈ lines, line ≠ [] ∧ CrlfFree line

namespace HeaderBlock

variable (block : HeaderBlock)

def text : Bytes := block.lines.flatMap (· ++ crlf) ++ crlf

def fields : List (Bytes × Bytes) := block.lines.map readField

/-- Every line has a colon and is short enough to be extracted. -/
def Readable : Prop := ∀ line ∈ block.lines, 58 ∈ line ∧ line.length ≤ maxChunkBodySize

/-- The last `Transfer-Encoding` line mentions `chunked`. -/
def chunked : Bool :=
  (lastValue block.fields (ascii "Transfer-Encoding")).any fun te =>
    HttpRequest.contains te (ascii "chunked")

/-- The number in the last `Content-Length` line, 0 when there is none. -/
def announced : Nat :=
  ((lastValue block.fields (ascii "Content-Length")).bind stoull).getD 0

/-- Some line carries this name, in any letter case. -/
def Names (name : Bytes) : Prop :=
  ∃ field ∈ block.fields, lowerBytes field.1 = lowerBytes name

/-- Both framings at once, or two different lengths. -/
def Conflicting : Prop :=
  (block.Names (ascii "Transfer-Encoding") ∧ block.Names (ascii "Content-Length")) ∨
    ∃ left ∈ block.fields, ∃ right ∈ block.fields,
      lowerBytes left.1 = lowerBytes (ascii "Content-Length") ∧
      lowerBytes right.1 = lowerBytes (ascii "Content-Length") ∧ left.2 ≠ right.2

instance : Decidable block.Readable :=
  inferInstanceAs (Decidable (∀ line ∈ block.lines, _))

instance (name : Bytes) : Decidable (block.Names name) :=
  inferInstanceAs (Decidable (∃ field ∈ block.fields, _))

instance : Decidable block.Conflicting :=
  inferInstanceAs (Decidable ((_ ∧ _) ∨ ∃ left ∈ block.fields, ∃ right ∈ block.fields, _))

/-- The header map the block is folded into. -/
def headers : HttpHeaders := setFields .empty block.fields

theorem announcesChunked_headers : announcesChunked block.headers = block.chunked := by
  have hget : block.headers.get (ascii "Transfer-Encoding") =
      lastValue block.fields (ascii "Transfer-Encoding") := by
    rw [headers, get_setFields, HttpHeaders.get_empty, Option.or_none]
  rw [announcesChunked, hget, chunked]
  cases lastValue block.fields (ascii "Transfer-Encoding") with
  | none => rfl
  | some te => rfl

theorem getContentLength_headers : block.headers.getContentLength = block.announced := by
  rw [getContentLength_eq, headers, get_setFields, HttpHeaders.get_empty, Option.or_none,
    announced]

end HeaderBlock

theorem parseHeaderLine_readField {line : Bytes} (hcolon : 58 ∈ line)
    (request : HttpRequest) :
    parseHeaderLine line request =
      (true, { request with
        headers := request.headers.set (readField line).1 (readField line).2 }) := by
  obtain ⟨name, value, rfl, hname⟩ := List.eq_append_cons_of_mem hcolon
  have hbefore : ∀ b ∈ name, decide (b ≠ 58) = true := by
    intro b hb
    have hne : b ≠ 58 := fun h => hname (h ▸ hb)
    simpa using hne
  simp only [parseHeaderLine, idxOf?_append_cons hname, drop_append_cons, List.take_left',
    readField, List.takeWhile_append_of_pos hbefore, List.dropWhile_append_of_pos hbefore]
  simp

theorem parseHeaderLine_noColon {line : Bytes} (hcolon : 58 ∉ line)
    (request : HttpRequest) : parseHeaderLine line request = (false, request) := by
  have hnone : line.idxOf? 58 = none := List.idxOf?_eq_none_iff.mpr hcolon
  simp only [parseHeaderLine, hnone]

theorem parse_long_line {p : Progress} {action : Progress → Bytes → Bool × Progress}
    (haction : lineAction? p.parser.mState = some action) {line : Bytes}
    (hfree : CrlfFree line) (hlength : maxChunkBodySize < line.length) (rest : Bytes) :
    (parse p (line ++ (crlf ++ rest))).1 = .error := by
  have hextract := extractLine_long_line hfree hlength rest
  have hturn : turn p (line ++ (crlf ++ rest)) =
      .ret .error (p.goto .error) (line ++ (crlf ++ rest)) := by
    rw [turn_of_lineAction haction, takeLine, hextract]
  rw [parse_of_ret hturn]

/-- A readable block is folded into the map line by line; any other block is
an error, whatever follows. -/
theorem parse_headerLines (lines : List Bytes) :
    ∀ p : Progress, p.parser.mState = .headers →
      (∀ line ∈ lines, line ≠ [] ∧ CrlfFree line) → ∀ rest : Bytes,
        ((∀ line ∈ lines, 58 ∈ line ∧ line.length ≤ maxChunkBodySize) →
          parse p (lines.flatMap (· ++ crlf) ++ rest) =
            parse (p.withHeaders (setFields p.request.headers (lines.map readField)))
              rest) ∧
        (¬ (∀ line ∈ lines, 58 ∈ line ∧ line.length ≤ maxChunkBodySize) →
          (parse p (lines.flatMap (· ++ crlf) ++ rest)).1 = .error) := by
  induction lines with
  | nil =>
      intro p _ _ rest
      constructor
      · intro _
        rfl
      · intro hnot
        exact absurd (by simp) hnot
  | cons line lines ih =>
      intro p hstate hok rest
      obtain ⟨hne, hfree⟩ := hok line List.mem_cons_self
      have haction : lineAction? p.parser.mState = some headerLine := by
        rw [hstate]
        rfl
      have hnonempty : line.isEmpty = false := by simpa using hne
      have hsplit : (line :: lines).flatMap (· ++ crlf) ++ rest =
          line ++ (crlf ++ (lines.flatMap (· ++ crlf) ++ rest)) := by simp
      rw [hsplit]
      by_cases hlength : line.length ≤ maxChunkBodySize
      · by_cases hcolon : 58 ∈ line
        · have haccept : headerLine p line =
              (true, p.withHeaders
                (p.request.headers.set (readField line).1 (readField line).2)) := by
            simp only [headerLine, hnonempty, Bool.false_eq_true, ↓reduceIte,
              parseHeaderLine_readField hcolon, Progress.withHeaders]
          rw [(reads_line (Nat.le_refl _) haction hfree hlength haccept _).parse_eq]
          have hlater := ih (p.withHeaders
            (p.request.headers.set (readField line).1 (readField line).2)) hstate
            (fun l hl => hok l (List.mem_cons_of_mem _ hl)) rest
          simp only [List.forall_mem_cons, hcolon, hlength, and_self, true_and]
          exact hlater
        · have hreject : headerLine p line = (false, p.goto .error) := by
            simp only [headerLine, hnonempty, Bool.false_eq_true, ↓reduceIte,
              parseHeaderLine_noColon hcolon]
            rfl
          rw [parse_line_reject haction hfree hlength hreject]
          simp [hcolon]
      · have hlong := parse_long_line haction hfree (Nat.not_le.mp hlength)
          (lines.flatMap (· ++ crlf) ++ rest)
        simp [hlength, hlong]

theorem HeaderBlock.announced_lt (block : HeaderBlock) : block.announced < sizeBound := by
  rw [← block.getContentLength_headers]
  exact block.headers.getContentLength_lt

/-- What an accepted request line leaves behind. -/
def afterRequestLine (method : HttpMethod) (path version : Bytes) : Progress :=
  { parser := ⟨.headers, 0⟩, request := { method, path, version } }

section Block

variable (block : HeaderBlock) (method : HttpMethod) (path version : Bytes)

theorem parse_readable (hreadable : block.Readable) (rest : Bytes) :
    parse (afterRequestLine method path version) (block.text ++ rest) =
      parse ((afterRequestLine method path version).withHeaders block.headers)
        (crlf ++ rest) := by
  have hlines := (parse_headerLines block.lines (afterRequestLine method path version) rfl
    block.linesOk (crlf ++ rest)).1 hreadable
  rw [HeaderBlock.text, List.append_assoc, hlines]
  rfl

theorem parse_unreadable (hunreadable : ¬ block.Readable) (rest : Bytes) :
    (parse (afterRequestLine method path version) (block.text ++ rest)).1 = .error := by
  have hlines := (parse_headerLines block.lines (afterRequestLine method path version) rfl
    block.linesOk (crlf ++ rest)).2 hunreadable
  rw [HeaderBlock.text, List.append_assoc, hlines]

theorem bytesNeeded_announced :
    bytesNeeded ((afterRequestLine method path version).withHeaders block.headers).request =
      block.announced := by
  have hlength : ((afterRequestLine method path version).withHeaders
      block.headers).request.headers.getContentLength = block.announced :=
    block.getContentLength_headers
  rw [bytesNeeded, hlength]
  simp only [Progress.withHeaders, afterRequestLine, List.length_nil, Nat.sub_zero,
    Nat.add_mod_right]
  exact Nat.mod_eq_of_lt block.announced_lt

/-- Without chunks the announced length alone decides how the parser goes on. -/
theorem parse_plain (hreadable : block.Readable) (hplain : block.chunked = false)
    (rest : Bytes) :
    parse (afterRequestLine method path version) (block.text ++ rest) =
      parse (((afterRequestLine method path version).withHeaders block.headers).goto
        (if 0 < block.announced then .body else .complete)) rest := by
  have hend : endOfHeaders
      ((afterRequestLine method path version).withHeaders block.headers) =
        ((afterRequestLine method path version).withHeaders block.headers).goto
          (if 0 < block.announced then .body else .complete) := by
    rw [endOfHeaders_eq]
    simp only [Progress.withHeaders, block.announcesChunked_headers, hplain,
      block.getContentLength_headers, Bool.false_eq_true, ↓reduceIte]
    split <;> rfl
  have hblank := (reads_blank_line (Nat.le_refl _)
    (p := (afterRequestLine method path version).withHeaders block.headers) rfl
    rest).parse_eq
  rw [parse_readable block method path version hreadable, hblank, hend]

/-- A body longer than the limit is refused as soon as it is announced. -/
theorem parse_oversized (hreadable : block.Readable) (hplain : block.chunked = false)
    (hsize : maxHttpBodySize < block.announced) (rest : Bytes) :
    (parse (afterRequestLine method path version) (block.text ++ rest)).1 = .error := by
  have hturn : turn (((afterRequestLine method path version).withHeaders
      block.headers).goto .body) rest =
        .ret .error ((((afterRequestLine method path version).withHeaders
          block.headers).goto .body).goto .error) rest := by
    rw [turn_body (Progress.goto_mState _ _), Progress.goto_request, bytesNeeded_announced,
      takeBytes, extractBytes, if_pos hsize]
  rw [parse_plain block method path version hreadable hplain,
    if_pos (Nat.zero_lt_of_lt hsize), parse_of_ret hturn]

/-- The framings the parser goes by: chunked as soon as the last
`Transfer-Encoding` mentions it, the last `Content-Length` otherwise.  `text`
is a body in that framing and `body` what it carries. -/
def HeaderBlock.Frames (text body : Bytes) : Prop :=
  body.length ≤ maxHttpBodySize ∧
    if block.chunked then
      ∃ coding : ChunkedBody, coding.Ok ∧
        (∀ line ∈ coding.lines, line.length ≤ maxChunkBodySize) ∧
        coding.text = text ∧ coding.payload = body
    else text = body ∧ body.length = block.announced

theorem parse_framed (hreadable : block.Readable) {text body : Bytes}
    (hframes : block.Frames text body) (rest : Bytes) :
    ∃ parser : HttpRequestParser,
      parse (afterRequestLine method path version) (block.text ++ (text ++ rest)) =
        (.success,
          ⟨parser, { method, path, version, headers := block.headers, body }⟩, rest) := by
  rw [parse_readable block method path version hreadable]
  obtain ⟨hbound, hframing⟩ := hframes
  split at hframing
  · next hchunked =>
      obtain ⟨coding, hok, hlines, rfl, rfl⟩ := hframing
      obtain ⟨parser, hcomplete, hreads⟩ := @reads_chunkedFraming _ (Nat.le_refl _)
        ((afterRequestLine method path version).withHeaders block.headers) coding hok rfl rfl
        (block.announcesChunked_headers.trans hchunked) hlines hbound rest
      exact ⟨parser, hreads.parse_success hcomplete⟩
  · next hplain =>
      obtain ⟨rfl, hlength⟩ := hframing
      obtain ⟨parser, hcomplete, hreads⟩ := @reads_contentLength _ (Nat.le_refl _)
        ((afterRequestLine method path version).withHeaders block.headers) text rfl rfl
        (block.announcesChunked_headers.trans (by simpa using hplain))
        (block.getContentLength_headers.trans hlength.symm) hbound rest
      exact ⟨parser, hreads.parse_success hcomplete⟩

/-- Some body completes every block that is not refused. -/
theorem exists_frames (hsize : block.chunked = true ∨ block.announced ≤ maxHttpBodySize) :
    ∃ text body, block.Frames text body := by
  cases hchunked : block.chunked with
  | true =>
      have hok : ({ chunks := [], lastSize := ascii "0" } : ChunkedBody).Ok := by
        decide
      have hlines : ∀ line ∈ ({ chunks := [], lastSize := ascii "0" } : ChunkedBody).lines,
          line.length ≤ maxChunkBodySize := by
        decide
      refine ⟨({ chunks := [], lastSize := ascii "0" } : ChunkedBody).text, [],
        Nat.zero_le _, ?_⟩
      rw [if_pos hchunked]
      exact ⟨{ chunks := [], lastSize := ascii "0" }, hok, hlines, rfl, rfl⟩
  | false =>
      have hfits : block.announced ≤ maxHttpBodySize := by simpa [hchunked] using hsize
      refine ⟨List.replicate block.announced 0, List.replicate block.announced 0, ?_, ?_⟩
      · simpa using hfits
      · simp [hchunked]

/-- Whether or not the block frames the body twice: the parser refuses it
whatever follows exactly when a line is unreadable or the length it goes by is
above the limit, and otherwise completes the request with any body in the
framing it goes by. -/
theorem parse_headerBlock (block : HeaderBlock) (method : HttpMethod)
    (path version : Bytes) :
    ((∀ rest, (parse (afterRequestLine method path version)
        (block.text ++ rest)).1 = .error) ↔
      ¬ block.Readable ∨
        (block.chunked = false ∧ maxHttpBodySize < block.announced)) ∧
    (block.Readable → ∀ text body, block.Frames text body → ∀ rest,
      ∃ parser : HttpRequestParser,
        parse (afterRequestLine method path version) (block.text ++ (text ++ rest)) =
          (.success,
            ⟨parser, { method, path, version, headers := block.headers, body }⟩,
            rest)) := by
  constructor
  · constructor
    · intro herror
      by_contra hnot
      simp only [not_or, not_not, not_and, Nat.not_lt] at hnot
      obtain ⟨hreadable, hsize⟩ := hnot
      have hcases : block.chunked = true ∨ block.announced ≤ maxHttpBodySize := by
        cases hchunked : block.chunked with
        | true => exact Or.inl rfl
        | false => exact Or.inr (hsize hchunked)
      obtain ⟨text, body, hframes⟩ := exists_frames block hcases
      obtain ⟨parser, hparse⟩ :=
        parse_framed block method path version hreadable hframes []
      have hsuccess := herror (text ++ [])
      rw [hparse] at hsuccess
      contradiction
    · rintro (hunreadable | ⟨hplain, hsize⟩) rest
      · exact parse_unreadable block method path version hunreadable rest
      · by_cases hreadable : block.Readable
        · exact parse_oversized block method path version hreadable hplain hsize rest
        · exact parse_unreadable block method path version hreadable rest
  · intro hreadable text body hframes rest
    exact parse_framed block method path version hreadable hframes rest

/-- Both framings in one request: the length is ignored and the five bytes it
counts are the next request. -/
def smugglingBlock : HeaderBlock where
  lines := [ascii "Content-Length: 5", ascii "Transfer-Encoding: chunked"]
  linesOk := by decide

/-- Two lengths: the second one wins. -/
def twoLengthsBlock : HeaderBlock where
  lines := [ascii "Content-Length: 5", ascii "content-length: 0"]
  linesOk := by decide

theorem parse_smugglingBlock :
    smugglingBlock.Conflicting ∧ ∃ parser : HttpRequestParser,
      parse (afterRequestLine .post (ascii "/") (ascii "HTTP/1.1"))
        (smugglingBlock.text ++ (ascii "0\r\n\r\n" ++ ascii "GET /")) =
          (.success,
            ⟨parser, { method := .post, path := ascii "/", version := ascii "HTTP/1.1",
                       headers := smugglingBlock.headers, body := [] }⟩,
            ascii "GET /") := by
  have hframes : smugglingBlock.Frames (ascii "0\r\n\r\n") [] := by
    refine ⟨Nat.zero_le _, ?_⟩
    rw [if_pos (by decide)]
    exact ⟨{ chunks := [], lastSize := ascii "0" }, by decide, by decide,
      by decide, rfl⟩
  exact ⟨by decide, (parse_headerBlock smugglingBlock .post (ascii "/")
    (ascii "HTTP/1.1")).2 (by decide) _ _ hframes _⟩

theorem conflicting_blocks_accepted :
    smugglingBlock.Conflicting ∧ twoLengthsBlock.Conflicting ∧
      (parse {} (ascii "POST / HTTP/1.1\r\n" ++ (smugglingBlock.text ++
        ascii "0\r\n\r\nGET /"))).1 = .success ∧
      (parse {} (ascii "POST / HTTP/1.1\r\n" ++ (smugglingBlock.text ++
        ascii "0\r\n\r\nGET /"))).2.2 = ascii "GET /" ∧
      (parse {} (ascii "POST / HTTP/1.1\r\n" ++ (twoLengthsBlock.text ++
        ascii "GET /"))).1 = .success ∧
      (parse {} (ascii "POST / HTTP/1.1\r\n" ++ (twoLengthsBlock.text ++
        ascii "GET /"))).2.2 = ascii "GET /" := by
  decide +kernel

end Block

end HttpServer
