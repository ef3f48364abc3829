/-
Which `Transfer-Encoding` values select chunked framing.  The parser looks for
the lower-case word anywhere in the value; every value without it counts as no
body.
-/
import HttpServer.ContentLengthGrammar

namespace HttpServer

open ByteText

/-- The last of the comma-separated codings, without the blanks around it and
with its letters folded. -/
def lastCoding (value : Bytes) : Bytes :=
  lowerBytes (trimBlanks (value.rtakeWhile (· ≠ 44)))

/-- Once the rest of the header block has arrived, the parser waits for a chunk-size
line. -/
def EntersChunkSize (p : Progress) (block : HeaderBlock) : Prop :=
  ∃ p', p'.parser.mState = .chunkSize ∧ parse p block.text = (.incomplete, p', [])

/-- The coding decides the framing: `chunked` in the last place, in any letter case,
selects it, and a request with any other coding is refused. -/
def CodingDecides (p : Progress) (block : HeaderBlock) (value : Bytes) : Prop :=
  (block.Readable → (EntersChunkSize p block ↔ lastCoding value = ascii "chunked")) ∧
  (lastCoding value ≠ ascii "chunked" →
    ∀ rest, (parse p (block.text ++ rest)).1 = .error)

section Framing

variable {p : Progress} {block : HeaderBlock} {value : Bytes}

/-- What the rest of the block makes of a parser among its header lines. -/
def Progress.readBlock (p : Progress) (block : HeaderBlock) : Progress :=
  p.withHeaders (setFields p.request.headers block.fields)

theorem parse_block_error (hstate : p.parser.mState = .headers)
    (hunreadable : ¬ block.Readable) (rest : Bytes) :
    (parse p (block.text ++ rest)).1 = .error := by
  rw [HeaderBlock.text, List.append_assoc]
  exact (parse_headerLines block.lines p hstate block.linesOk (crlf ++ rest)).2 hunreadable

theorem parse_block (hstate : p.parser.mState = .headers) (hreadable : block.Readable)
    (rest : Bytes) :
    parse p (block.text ++ rest) = parse (endOfHeaders (p.readBlock block)) rest := by
  have hlines := (parse_headerLines block.lines p hstate block.linesOk (crlf ++ rest)).1 hreadable
  rw [HeaderBlock.text, List.append_assoc, hlines]
  exact (reads_blank_line (Nat.le_refl _) (p := p.readBlock block) hstate rest).parse_eq

variable (hte : (p.readBlock block).request.headers.get (ascii "Transfer-Encoding") = some value)
  (hcl : (p.readBlock block).request.headers.get (ascii "Content-Length") = none)

include hte in
theorem endOfHeaders_mentioned (hmentioned : HttpRequest.contains value (ascii "chunked") = true) :
    endOfHeaders (p.readBlock block) = (p.readBlock block).goto .chunkSize := by
  simp only [endOfHeaders, hte, hmentioned, ↓reduceIte]

include hte hcl in
theorem endOfHeaders_unmentioned
    (hmentioned : HttpRequest.contains value (ascii "chunked") = false) :
    endOfHeaders (p.readBlock block) = (p.readBlock block).goto .complete := by
  have hlength : (p.readBlock block).request.headers.getContentLength = 0 := by
    rw [getContentLength_eq, hcl]
    rfl
  simp only [endOfHeaders, hte, hmentioned, hlength, Nat.lt_irrefl, Bool.false_eq_true,
    ↓reduceIte]

/-- In a block that is read to its end, only the search for the word matters. -/
theorem entersChunkSize_iff (hstate : p.parser.mState = .headers) (hreadable : block.Readable)
    (hte : (p.readBlock block).request.headers.get (ascii "Transfer-Encoding") = some value)
    (hcl : (p.readBlock block).request.headers.get (ascii "Content-Length") = none) :
    EntersChunkSize p block ↔ HttpRequest.contains value (ascii "chunked") = true := by
  have hparse := parse_block hstate hreadable []
  rw [List.append_nil] at hparse
  rw [EntersChunkSize, hparse]
  cases hmentioned : HttpRequest.contains value (ascii "chunked") with
  | true =>
      have hwait : turn ((p.readBlock block).goto .chunkSize) [] =
          .ret .incomplete ((p.readBlock block).goto .chunkSize) [] := rfl
      rw [endOfHeaders_mentioned hte hmentioned, parse_of_ret hwait]
      exact iff_of_true ⟨_, rfl, rfl⟩ rfl
  | false =>
      rw [endOfHeaders_unmentioned hte hcl hmentioned,
        parse_of_complete (Progress.goto_mState _ _)]
      simp

theorem not_codingDecides (hstate : p.parser.mState = .headers) (hreadable : block.Readable)
    (hte : (p.readBlock block).request.headers.get (ascii "Transfer-Encoding") = some value)
    (hcl : (p.readBlock block).request.headers.get (ascii "Content-Length") = none)
    (hother : ¬ (lastCoding value = ascii "chunked" ∧
      HttpRequest.contains value (ascii "chunked") = true)) :
    ¬ CodingDecides p block value := by
  rintro ⟨hword, hrefused⟩
  rw [entersChunkSize_iff hstate hreadable hte hcl] at hword
  by_cases hcoding : lastCoding value = ascii "chunked"
  · exact hother ⟨hcoding, (hword hreadable).mpr hcoding⟩
  · -- an unknown coding is taken for a request without a body
    have hmentioned : HttpRequest.contains value (ascii "chunked") = false := by
      simpa using fun hsome => hcoding ((hword hreadable).mp hsome)
    have herror := hrefused hcoding []
    rw [parse_block hstate hreadable, endOfHeaders_unmentioned hte hcl hmentioned,
      parse_of_complete (Progress.goto_mState _ _)] at herror
    contradiction

/-- The parser goes by the coding when the last one is `chunked` and the value
also spells the word in lower case, or when the block is refused anyway. -/
theorem codingDecides_iff (hstate : p.parser.mState = .headers)
    (hte : (p.readBlock block).request.headers.get (ascii "Transfer-Encoding") = some value)
    (hcl : (p.readBlock block).request.headers.get (ascii "Content-Length") = none) :
    CodingDecides p block value ↔
      ¬ block.Readable ∨ (lastCoding value = ascii "chunked" ∧
        HttpRequest.contains value (ascii "chunked") = true) := by
  constructor
  · intro hdecides
    by_contra hnone
    simp only [not_or, not_not] at hnone
    exact not_codingDecides hstate hnone.1 hte hcl hnone.2 hdecides
  · rintro (hunreadable | ⟨hcoding, hmentioned⟩)
    · exact ⟨fun hreadable => absurd hreadable hunreadable,
        fun _ => parse_block_error hstate hunreadable⟩
    · refine ⟨fun hreadable => ?_, fun hother => absurd hcoding hother⟩
      rw [entersChunkSize_iff hstate hreadable hte hcl]
      exact iff_of_true hmentioned hcoding

end Framing

theorem codingDecides_list :
    CodingDecides (afterRequestLine .post (ascii "/") (ascii "HTTP/1.1"))
      ⟨[ascii "Transfer-Encoding: gzip,\tchunked "], by decide⟩ (ascii "gzip,\tchunked ") := by
  apply (codingDecides_iff rfl (by decide) (by decide)).mpr
  exact Or.inr (by decide)

/-- `Chunked` is not recognised, a word that contains it is, and any other coding
counts as no body. -/
theorem codings_misjudged :
    ¬ CodingDecides (afterRequestLine .post (ascii "/") (ascii "HTTP/1.1"))
        ⟨[ascii "Transfer-Encoding: Chunked"], by decide⟩ (ascii "Chunked") ∧
      ¬ CodingDecides (afterRequestLine .post (ascii "/") (ascii "HTTP/1.1"))
        ⟨[ascii "Transfer-Encoding: xchunked"], by decide⟩ (ascii "xchunked") ∧
      ¬ CodingDecides (afterRequestLine .post (ascii "/") (ascii "HTTP/1.1"))
        ⟨[ascii "Transfer-Encoding: gzip"], by decide⟩ (ascii "gzip") := by
  refine ⟨?_, ?_, ?_⟩
  all_goals
    apply not_codingDecides rfl (by decide) (by decide) (by decide)
    decide

end HttpServer
