/-
What a `Content-Length` value may say.  `std::stoull` stops at the first byte
that is no digit, and whatever it throws on counts as no body, so the parser
agrees with the grammar on few values.  The request may arrive in any
fragments: a parser that waits picks up where it stopped.
-/
import Mathlib.Data.List.DropRight
import HttpServer.RequestStream
import HttpServer.FramingConflict

namespace HttpServer

open ByteText HttpClient

section Delivery

variable {p p' : Progress} {readBuffer rest : Bytes}

/-- Append the fragments one by one and call `parse` after each, until it stops
returning `Incomplete`. -/
def parseFed (p : Progress) (readBuffer : Bytes) :
    List Bytes → ParseResult × Progress × Bytes
  | [] => (.incomplete, p, readBuffer)
  | fragment :: fragments =>
      match parse p (readBuffer ++ fragment) with
      | (.incomplete, p', rest) => parseFed p' rest fragments
      | (.success, p', rest) => (.success, p', rest)
      | (.error, p', rest) => (.error, p', rest)

theorem extractLine_success_append {line : Bytes}
    (hextract : extractLine readBuffer = (.success, line, rest)) (more : Bytes) :
    extractLine (readBuffer ++ more) = (.success, line, rest ++ more) := by
  obtain ⟨i, hindex, hbound, rfl, rfl⟩ := extractLine_success hextract
  have hlong := lt_length_of_crlfIndex? hindex
  rw [extractLine_of_crlfIndex? (crlfIndex?_append hindex more) hbound,
    List.take_append_of_le_length (by omega), List.drop_append_of_le_length (by omega)]

/-- A turn that goes on is not changed by bytes that arrive later, whatever the
length of its line. -/
theorem turn_next_append (hturn : turn p readBuffer = .next p' rest) (more : Bytes) :
    turn p (readBuffer ++ more) = .next p' (rest ++ more) := by
  have hbytes : ∀ {required out action},
      takeBytes p readBuffer required out action = .next p' rest →
        takeBytes p (readBuffer ++ more) required out action = .next p' (rest ++ more) := by
    intro required out action htake
    obtain ⟨bytes, hextract, rfl⟩ := takeBytes_next htake
    rw [takeBytes, extractBytes_append hextract (by decide) more]
  cases haction : lineAction? p.parser.mState with
  | some action =>
      rw [turn_of_lineAction haction] at hturn ⊢
      obtain ⟨line, hextract, haccept⟩ := takeLine_next hturn
      rw [takeLine_of_success (extractLine_success_append hextract more), haccept]
      rfl
  | none =>
      cases hstate : p.parser.mState <;> rw [hstate] at haction <;>
        simp only [lineAction?, reduceCtorEq] at haction <;>
        simp only [turn, hstate, reduceCtorEq] at hturn ⊢
      · exact hbytes hturn
      · exact hbytes hturn

theorem parse_success_append (hparse : parse p readBuffer = (.success, p', rest))
    (more : Bytes) : parse p (readBuffer ++ more) = (.success, p', rest ++ more) := by
  induction p, readBuffer using parse.induct with
  | case1 p readBuffer result last lastBuffer hturn =>
      have hret := parse_of_ret hturn
      rw [hparse] at hret
      simp only [Prod.mk.injEq] at hret
      obtain ⟨rfl, rfl, rfl⟩ := hret
      have hcomplete := turn_success hturn
      rw [parse_of_complete hcomplete] at hparse ⊢
      simp only [Prod.mk.injEq, true_and] at hparse ⊢
      exact ⟨hparse.1, by rw [hparse.2]⟩
  | case2 p readBuffer next nextBuffer hturn ih =>
      rw [parse_of_next hturn] at hparse
      rw [parse_of_next (turn_next_append hturn more)]
      exact ih hparse

/-- What a waiting parser has read stays read. -/
theorem parse_incomplete_append (hparse : parse p readBuffer = (.incomplete, p', rest))
    (more : Bytes) : parse p (readBuffer ++ more) = parse p' (rest ++ more) := by
  induction p, readBuffer using parse.induct with
  | case1 p readBuffer result last lastBuffer hturn =>
      rw [parse_of_ret hturn] at hparse
      simp only [Prod.mk.injEq] at hparse
      obtain ⟨rfl, rfl, rfl⟩ := hparse
      obtain ⟨rfl, rfl⟩ := turn_incomplete hturn
      rfl
  | case2 p readBuffer next nextBuffer hturn ih =>
      rw [parse_of_next hturn] at hparse
      rw [parse_of_next (turn_next_append hturn more)]
      exact ih hparse

/-- A request that comes out of the fragments comes out of the whole. -/
theorem parse_of_parseFed_success (fragments : List Bytes) :
    ∀ {p readBuffer}, parseFed p readBuffer fragments = (.success, p', rest) →
      ∃ more, parse p (readBuffer ++ fragments.flatten) = (.success, p', rest ++ more) := by
  induction fragments with
  | nil => exact fun hfed => absurd hfed (by simp [parseFed])
  | cons fragment fragments ih =>
      intro p readBuffer hfed
      rw [List.flatten_cons, ← List.append_assoc]
      rcases hparse : parse p (readBuffer ++ fragment) with ⟨result, next, left⟩
      rw [parseFed, hparse] at hfed
      cases result with
      | incomplete =>
          rw [parse_incomplete_append hparse]
          exact ih hfed
      | success =>
          simp only [Prod.mk.injEq, true_and] at hfed
          obtain ⟨rfl, rfl⟩ := hfed
          exact ⟨fragments.flatten, parse_success_append hparse _⟩
      | error => simp at hfed

/-- A parser that still waits behind the fragments waits behind the whole. -/
theorem parse_of_parseFed_incomplete (fragments : List Bytes) :
    ∀ {p readBuffer}, (parse p readBuffer).1 = .incomplete →
      (parseFed p readBuffer fragments).1 = .incomplete →
        (parse p (readBuffer ++ fragments.flatten)).1 = .incomplete := by
  induction fragments with
  | nil =>
      intro p readBuffer hstart _
      rwa [List.flatten_nil, List.append_nil]
  | cons fragment fragments ih =>
      intro p readBuffer hstart hfed
      rw [List.flatten_cons, ← List.append_assoc]
      rcases hparse : parse p (readBuffer ++ fragment) with ⟨result, next, left⟩
      rw [parseFed, hparse] at hfed
      cases result with
      | incomplete =>
          have hwait := parse_incomplete_append hparse []
          rw [List.append_nil, List.append_nil, hparse] at hwait
          rw [parse_incomplete_append hparse]
          exact ih (by rw [← hwait]) hfed
      | success => contradiction
      | error => contradiction

/-- What the whole refuses is refused however it arrives. -/
theorem parseFed_error {fragments : List Bytes} (hstart : (parse p readBuffer).1 = .incomplete)
    (herror : (parse p (readBuffer ++ fragments.flatten)).1 = .error) :
    (parseFed p readBuffer fragments).1 = .error := by
  rcases hfed : parseFed p readBuffer fragments with ⟨result, next, left⟩
  cases result with
  | error => rfl
  | success =>
      obtain ⟨more, hwhole⟩ := parse_of_parseFed_success fragments hfed
      rw [hwhole] at herror
      contradiction
  | incomplete =>
      have hwhole := parse_of_parseFed_incomplete fragments hstart (by rw [hfed])
      rw [hwhole] at herror
      contradiction

theorem parseFed_whole (hparse : parse p (readBuffer ++ rest) = (.success, p', [])) :
    parseFed p readBuffer [rest] = (.success, p', []) := by
  rw [parseFed, hparse]

end Delivery

section Numeral

/-- Leading and trailing spaces and tabs removed. -/
def trimBlanks (value : Bytes) : Bytes := (value.dropWhile isBlank).rdropWhile isBlank

theorem exists_trimBlanks (value : Bytes) :
    ∃ before after : Bytes, value = before ++ (trimBlanks value ++ after) ∧
      (∀ b ∈ before, isBlank b = true) ∧ ∀ b ∈ after, isBlank b = true := by
  refine ⟨value.takeWhile isBlank, (value.dropWhile isBlank).rtakeWhile isBlank, ?_, ?_, ?_⟩
  · have hright : trimBlanks value ++ (value.dropWhile isBlank).rtakeWhile isBlank =
        value.dropWhile isBlank := by
      have hreverse := List.takeWhile_append_dropWhile (p := isBlank)
        (l := (value.dropWhile isBlank).reverse)
      have hflip := congrArg List.reverse hreverse
      rwa [List.reverse_append, List.reverse_reverse] at hflip
    rw [hright, List.takeWhile_append_dropWhile]
  · exact fun b hb => List.mem_takeWhile_imp hb
  · exact fun b hb => List.mem_rtakeWhile_imp hb

theorem isBlank_byte : ∀ b : UInt8, isBlank b = true →
    b ≠ 0 ∧ isSpace b = true ∧ digitValue 10 b = none := by
  decide +kernel

/-- Blanks around a decimal numeral do not disturb `std::stoull`. -/
theorem stoull_padded {before text after : Bytes} {n : Nat}
    (hbefore : ∀ b ∈ before, isBlank b = true) (hafter : ∀ b ∈ after, isBlank b = true)
    (hspell : Spells 10 text n) (hn : n < sizeBound) :
    stoull (before ++ (text ++ after)) = some n := by
  have hdigit : ∀ b ∈ text, (digitValue 16 b).isSome :=
    fun b hb => digitValue_mono (by decide) (hspell.mem_isSome hb)
  have hcstring : cString (before ++ (text ++ after)) = before ++ (text ++ after) := by
    rw [cString, List.takeWhile_eq_self_iff]
    intro b hb
    simp only [List.mem_append] at hb
    obtain hb | hb | hb := hb
    · simpa using (isBlank_byte b (hbefore b hb)).1
    · simpa using (digit_byte b (hdigit b hb)).1
    · simpa using (isBlank_byte b (hafter b hb)).1
  obtain ⟨hne, digits, hdigits, hdenotes⟩ := hspell
  have hspan : spanDigits 10 (text ++ after) = (digits, after) := by
    apply spanDigits_append hdigits
    intro b hb
    exact (isBlank_byte b (hafter b (List.mem_of_mem_head? hb))).2.2
  have hsign : readSign ((before ++ (text ++ after)).dropWhile isSpace) =
      (false, text ++ after) := by
    rw [List.dropWhile_append_of_pos fun b hb => (isBlank_byte b (hbefore b hb)).2.1]
    cases text with
    | nil => exact absurd rfl hne
    | cons b tail =>
        have hbyte := digit_byte b (hdigit b List.mem_cons_self)
        rw [List.cons_append, List.dropWhile_cons_of_neg (by simp [hbyte.2.1])]
        exact readSign_of_digit hbyte.2.2.1 hbyte.2.2.2.1 _
  have hnonempty : digits.isEmpty = false := by
    cases digits with
    | nil => exact absurd (by simpa using hdigits) hne
    | cons _ _ => rfl
  have hfits : ¬ sizeBound ≤ n := Nat.not_le.mpr hn
  simp [stoull, strtoul, hcstring, hsign, hspan, hnonempty, hdenotes, hfits]

theorem stoull_of_trimBlanks {value : Bytes} {n : Nat}
    (hspell : Spells 10 (trimBlanks value) n) (hn : n < sizeBound) :
    stoull value = some n := by
  obtain ⟨before, after, hvalue, hbefore, hafter⟩ := exists_trimBlanks value
  calc stoull value = stoull (before ++ (trimBlanks value ++ after)) := congrArg stoull hvalue
    _ = some n := stoull_padded hbefore hafter hspell hn

end Numeral

/-- A request up to and including its blank line. -/
structure RequestHead where
  requestLine : Bytes
  lineFree : CrlfFree requestLine
  block : HeaderBlock

namespace RequestHead

variable (head : RequestHead)

def text : Bytes := head.requestLine ++ (crlf ++ head.block.text)

/-- The parser reads the head to its end. -/
def Readable : Prop :=
  (head.requestLine.length ≤ maxChunkBodySize ∧
    (parseRequestLine head.requestLine {}).1 = true) ∧ head.block.Readable

instance : Decidable head.Readable :=
  inferInstanceAs (Decidable ((_ ∧ _) ∧ head.block.Readable))

/-- The value of the last line with this name. -/
def value? (name : Bytes) : Option Bytes := lastValue head.block.fields name

end RequestHead

section Head

variable (head : RequestHead) (rest : Bytes)

theorem parse_requestLine (hlength : head.requestLine.length ≤ maxChunkBodySize)
    (haccept : (parseRequestLine head.requestLine {}).1 = true) :
    ∃ method path version, parse {} (head.text ++ rest) =
      parse (afterRequestLine method path version) (head.block.text ++ rest) := by
  have hfields : ∃ method path version, parseRequestLine head.requestLine {} =
      (true, { method, path, version }) := by
    rw [parseRequestLine] at haccept ⊢
    split at haccept
    · contradiction
    · dsimp only at haccept ⊢
      split at haccept
      · contradiction
      · exact ⟨_, _, _, Prod.ext haccept rfl⟩
  obtain ⟨method, path, version, hparsed⟩ := hfields
  refine ⟨method, path, version, ?_⟩
  have hline : requestLineLine {} head.requestLine =
      (true, afterRequestLine method path version) := by
    simp only [requestLineLine, hparsed]
    rfl
  have hreads := reads_line (Nat.le_refl _) (p := {}) rfl head.lineFree hlength hline
    (head.block.text ++ rest)
  have hsplit : head.text ++ rest =
      head.requestLine ++ (crlf ++ (head.block.text ++ rest)) := by
    rw [RequestHead.text, List.append_assoc, List.append_assoc]
  rw [hsplit]
  exact hreads.parse_eq

/-- A head that is not read to its end is refused. -/
theorem parse_unreadable_head (hunreadable : ¬ head.Readable) :
    (parse {} (head.text ++ rest)).1 = .error := by
  have hsplit : head.text ++ rest =
      head.requestLine ++ (crlf ++ (head.block.text ++ rest)) := by
    rw [RequestHead.text, List.append_assoc, List.append_assoc]
  by_cases hlength : head.requestLine.length ≤ maxChunkBodySize
  · by_cases haccept : (parseRequestLine head.requestLine {}).1 = true
    · obtain ⟨method, path, version, hparse⟩ := parse_requestLine head rest hlength haccept
      rw [hparse]
      exact parse_unreadable head.block method path version
        (fun hblock => hunreadable ⟨⟨hlength, haccept⟩, hblock⟩) rest
    · have hreject : requestLineLine {} head.requestLine =
          (false, (requestLineLine {} head.requestLine).2) := by
        simp only [requestLineLine]
        split
        · next hparsed =>
            rw [hparsed] at haccept
            contradiction
        · rfl
      rw [hsplit, parse_line_reject (p := {}) rfl head.lineFree hlength hreject]
  · rw [hsplit]
    exact parse_long_line (p := {}) rfl head.lineFree (Nat.not_le.mp hlength) _

/-- A request that comes out has a body of the announced length. -/
theorem body_length_announced {p : Progress} {left : Bytes} (block : HeaderBlock)
    (method : HttpMethod) (path version : Bytes) (hreadable : block.Readable)
    (hplain : block.chunked = false)
    (hparse : parse (afterRequestLine method path version) (block.text ++ rest) =
      (.success, p, left)) : p.request.body.length = block.announced := by
  rw [parse_plain block method path version hreadable hplain] at hparse
  by_cases hpositive : 0 < block.announced
  · rw [if_pos hpositive] at hparse
    have hbody : (((afterRequestLine method path version).withHeaders
        block.headers).goto .body).parser.mState = .body := rfl
    cases hturn : turn (((afterRequestLine method path version).withHeaders
        block.headers).goto .body) rest with
    | ret result last after =>
        rw [parse_of_ret hturn] at hparse
        obtain ⟨rfl, _⟩ := Prod.mk.inj hparse
        have hcomplete := turn_success hturn
        rw [hbody] at hcomplete
        contradiction
    | next last after =>
        have htake := turn_body hbody rest
        rw [hturn, Progress.goto_request, bytesNeeded_announced] at htake
        obtain ⟨bytes, hextract, rfl⟩ := takeBytes_next htake.symm
        obtain ⟨_, hlong, rfl, _⟩ := extractBytes_success hextract
        rw [parse_of_next hturn, bodyBytes, parse_of_complete (Progress.goto_mState _ _)] at hparse
        simp only [Prod.mk.injEq, true_and] at hparse
        rw [← hparse.1]
        exact List.length_take_of_le hlong
  · rw [if_neg hpositive, parse_of_complete (Progress.goto_mState _ _)] at hparse
    simp only [Prod.mk.injEq, true_and] at hparse
    rw [← hparse.1, Nat.eq_zero_of_not_pos hpositive]
    rfl

end Head

section Decoded

variable {head : RequestHead} {value : Bytes}

/-- However the request arrives: one that comes out has a body of exactly as many
bytes as the trimmed value says, and a value that is no decimal numeral, or says
more than the limit, is refused. -/
def LengthDecoded (head : RequestHead) (value : Bytes) : Prop :=
  ∀ (rest : Bytes) (fragments : List Bytes), fragments.flatten = head.text ++ rest →
    (∀ p left, parseFed {} [] fragments = (.success, p, left) →
      Spells 10 (trimBlanks value) p.request.body.length) ∧
    ((∀ n, Spells 10 (trimBlanks value) n → maxHttpBodySize < n) →
      (parseFed {} [] fragments).1 = .error)

/-- Whatever is refused as a whole decodes its length. -/
theorem lengthDecoded_of_error
    (herror : ∀ rest, (parse {} (head.text ++ rest)).1 = .error) :
    LengthDecoded head value := by
  intro rest fragments hcut
  have hfed : (parseFed {} [] fragments).1 = .error := by
    apply parseFed_error
    · rw [parse_of_ret waiting_start]
    · rw [List.nil_append, hcut]
      exact herror rest
  refine ⟨fun p left hsuccess => ?_, fun _ => hfed⟩
  rw [hsuccess] at hfed
  contradiction

variable (hte : head.value? (ascii "Transfer-Encoding") = none)
  (hcl : head.value? (ascii "Content-Length") = some value)

include hcl in
theorem announced_eq : head.block.announced = (stoull value).getD 0 := by
  have hlast : lastValue head.block.fields (ascii "Content-Length") = some value := hcl
  rw [HeaderBlock.announced, hlast, Option.bind_some]

include hte in
theorem not_chunked : head.block.chunked = false := by
  have hlast : lastValue head.block.fields (ascii "Transfer-Encoding") = none := hte
  rw [HeaderBlock.chunked, hlast]
  rfl

include hte in
theorem parse_oversized_head (hsize : maxHttpBodySize < head.block.announced) (rest : Bytes) :
    (parse {} (head.text ++ rest)).1 = .error := by
  by_cases hreadable : head.Readable
  · obtain ⟨⟨hlength, haccept⟩, hblock⟩ := hreadable
    obtain ⟨method, path, version, hparse⟩ := parse_requestLine head rest hlength haccept
    rw [hparse]
    exact parse_oversized head.block method path version hblock (not_chunked hte) hsize rest
  · exact parse_unreadable_head head rest hreadable

include hte in
/-- A body of the length the parser goes by completes the request. -/
theorem parseFed_announced (hreadable : head.Readable)
    (hfits : head.block.announced ≤ maxHttpBodySize) :
    ∃ p, parseFed {} [] [head.text ++ List.replicate head.block.announced 0] =
        (.success, p, []) ∧ p.request.body.length = head.block.announced := by
  obtain ⟨⟨hlength, haccept⟩, hblock⟩ := hreadable
  have hframes : head.block.Frames (List.replicate head.block.announced 0)
      (List.replicate head.block.announced 0) := by
    refine ⟨by simpa using hfits, ?_⟩
    rw [not_chunked hte]
    exact ⟨rfl, List.length_replicate⟩
  obtain ⟨method, path, version, hline⟩ :=
    parse_requestLine head (List.replicate head.block.announced 0) hlength haccept
  obtain ⟨parser, hparse⟩ := parse_framed head.block method path version hblock hframes []
  rw [List.append_nil, ← hline] at hparse
  exact ⟨_, @parseFed_whole _ _ [] _ hparse, List.length_replicate⟩

include hte in
/-- A numeral within the limit that the parser goes by is decoded. -/
theorem lengthDecoded_of_numeral {n : Nat} (hsame : head.block.announced = n)
    (hspell : Spells 10 (trimBlanks value) n) (hfits : n ≤ maxHttpBodySize) :
    LengthDecoded head value := by
  intro rest fragments hcut
  constructor
  · intro p left hsuccess
    obtain ⟨more, hwhole⟩ := parse_of_parseFed_success fragments hsuccess
    rw [List.nil_append, hcut] at hwhole
    by_cases hreadable : head.Readable
    · obtain ⟨⟨hlength, haccept⟩, hblock⟩ := hreadable
      obtain ⟨method, path, version, hline⟩ := parse_requestLine head rest hlength haccept
      rw [hline] at hwhole
      rw [body_length_announced rest head.block method path version hblock
        (not_chunked hte) hwhole, hsame]
      exact hspell
    · have herror := parse_unreadable_head head rest hreadable
      rw [hwhole] at herror
      contradiction
  · exact fun hbeyond => absurd (hbeyond n hspell) (Nat.not_lt.mpr hfits)

include hte in
theorem not_lengthDecoded (hreadable : head.Readable)
    (hfits : head.block.announced ≤ maxHttpBodySize)
    (hother : ¬ Spells 10 (trimBlanks value) head.block.announced) :
    ¬ LengthDecoded head value := by
  intro hdecoded
  obtain ⟨p, hfed, hlength⟩ := parseFed_announced hte hreadable hfits
  have hspell := (hdecoded _ [_] List.flatten_singleton).1 _ _ hfed
  rw [hlength] at hspell
  exact hother hspell

/-- The length is decoded exactly, or refused, for the heads that are refused
anyway, the decimal numerals that fit 64 bits and the values in which
`std::stoull` reads a number above the limit. -/
theorem lengthDecoded_iff (hte : head.value? (ascii "Transfer-Encoding") = none)
    (hcl : head.value? (ascii "Content-Length") = some value) :
    LengthDecoded head value ↔
      ¬ head.Readable ∨ (∃ n, n < sizeBound ∧ Spells 10 (trimBlanks value) n) ∨
        ∃ n, stoull value = some n ∧ maxHttpBodySize < n := by
  have hannounced := announced_eq hcl
  constructor
  · intro hdecoded
    by_contra hnone
    simp only [not_or, not_not, not_exists, not_and, Nat.not_lt] at hnone
    obtain ⟨hreadable, hnumeral, hsize⟩ := hnone
    have hfits : head.block.announced ≤ maxHttpBodySize := by
      rw [hannounced]
      cases hvalue : stoull value with
      | none => exact Nat.zero_le _
      | some n => exact hsize n hvalue
    exact not_lengthDecoded hte hreadable hfits
      (hnumeral _ (hfits.trans_lt maxHttpBodySize_lt_sizeBound)) hdecoded
  · rintro (hunreadable | ⟨n, hn, hspell⟩ | ⟨n, hvalue, hlarge⟩)
    · exact lengthDecoded_of_error fun rest => parse_unreadable_head head rest hunreadable
    · have hsame : head.block.announced = n := by
        rw [hannounced, stoull_of_trimBlanks hspell hn]
        rfl
      by_cases hlarge : maxHttpBodySize < n
      · exact lengthDecoded_of_error (parse_oversized_head hte (hsame ▸ hlarge))
      · exact lengthDecoded_of_numeral hte hsame hspell (Nat.not_lt.mp hlarge)
    · apply lengthDecoded_of_error
      apply parse_oversized_head hte
      rw [hannounced, hvalue]
      exact hlarge

end Decoded

/-- A `POST` with these header lines. -/
def postHead (lines : List Bytes) (hlines : ∀ line ∈ lines, line ≠ [] ∧ CrlfFree line) :
    RequestHead :=
  ⟨ascii "POST /api/echo HTTP/1.1", by decide, ⟨lines, hlines⟩⟩

theorem lengthDecoded_padded :
    LengthDecoded (postHead [ascii "Host: a", ascii "content-length:\t 5 \t"] (by decide))
      (ascii "5 \t") := by
  refine (lengthDecoded_iff (by decide) (by decide)).mpr (Or.inr (Or.inl ⟨5, ?_, by decide⟩))
  exact Nat.lt_trans (by decide) maxHttpBodySize_lt_sizeBound

/-- `5x` is read as 5, and a length of `2 ^ 64` as no body at all. -/
theorem lengths_misread :
    ¬ LengthDecoded (postHead [ascii "Content-Length: 5x"] (by decide)) (ascii "5x") ∧
      ¬ LengthDecoded (postHead [ascii "Content-Length: 18446744073709551616"] (by decide))
        (ascii "18446744073709551616") := by
  constructor
  · exact not_lengthDecoded (by decide) (by decide) (by decide +kernel) (by decide +kernel)
  · exact not_lengthDecoded (by decide) (by decide) (by decide +kernel) (by decide +kernel)

end HttpServer
