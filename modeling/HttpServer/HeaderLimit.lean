/-
A header line that arrives in fragments.  The scan compares the position with
one limit and the size of an unterminated buffer with another, so the verdict
depends on where the fragments end.
-/
import HttpServer.Framer

namespace HttpServer

open ByteText

/-- Append the fragments one by one and call `extractLine` after each, until it
stops returning `Incomplete`: the status and the line. -/
def extractLineFed (readBuffer : Bytes) : List Bytes → FrameStatus × Bytes
  | [] => (.incomplete, [])
  | fragment :: fragments =>
      match extractLine (readBuffer ++ fragment) with
      | (.incomplete, _, rest) => extractLineFed rest fragments
      | (status, line, _) => (status, line)

/-- How much has arrived after the first `k` fragments. -/
def arrived (fragments : List Bytes) (k : Nat) : Nat := (fragments.take k).flatten.length

@[simp] theorem arrived_zero (fragments : List Bytes) : arrived fragments 0 = 0 := by
  simp [arrived]

@[simp] theorem arrived_succ (fragment : Bytes) (fragments : List Bytes) (k : Nat) :
    arrived (fragment :: fragments) (k + 1) = fragment.length + arrived fragments k := by
  simp [arrived]

/-- A fragment ends behind the header limit and before the CRLF is complete. -/
def CutInside (before : Nat) (fragments : List Bytes) (line : Bytes) : Prop :=
  ∃ k, maxHttpHeaderSize < before + arrived fragments k ∧
    before + arrived fragments k < line.length + 2

section Fed

variable {line rest buffer more : Bytes}

theorem crlfIndex?_part (hfree : CrlfFree line) (hpart : buffer ++ more = line ++ (crlf ++ rest))
    (hshort : buffer.length < line.length + 2) : crlfIndex? buffer = none := by
  cases hindex : crlfIndex? buffer with
  | none => rfl
  | some i =>
      have hwhole := crlfIndex?_append hindex more
      rw [hpart, crlfIndex?_line hfree rest] at hwhole
      have hlong := lt_length_of_crlfIndex? hindex
      obtain rfl := Option.some.inj hwhole
      omega

theorem exists_rest_of_part (hpart : buffer ++ more = line ++ (crlf ++ rest))
    (hlong : line.length + 2 ≤ buffer.length) :
    ∃ left, buffer = line ++ (crlf ++ left) := by
  have hline : (line ++ crlf) <+: buffer := by
    refine List.prefix_of_prefix_length_le ?_ (List.prefix_append buffer more) ?_
    · rw [hpart, ← List.append_assoc]
      exact List.prefix_append _ _
    · simpa [crlf] using hlong
  obtain ⟨left, hleft⟩ := hline
  exact ⟨left, by rw [← hleft, List.append_assoc]⟩

/-- A cut at 0 is the buffer itself, which is within the limit. -/
theorem cutInside_cons (fragment : Bytes) (fragments : List Bytes)
    (hbuffer : buffer.length ≤ maxHttpHeaderSize) :
    CutInside buffer.length (fragment :: fragments) line ↔
      CutInside (buffer ++ fragment).length fragments line := by
  constructor
  · rintro ⟨k, hlow, hhigh⟩
    cases k with
    | zero =>
        rw [arrived_zero, Nat.add_zero] at hlow
        exact absurd hbuffer (Nat.not_le.mpr hlow)
    | succ k =>
        rw [arrived_succ, ← Nat.add_assoc, ← List.length_append] at hlow hhigh
        exact ⟨k, hlow, hhigh⟩
  · rintro ⟨k, hlow, hhigh⟩
    rw [List.length_append, Nat.add_assoc, ← arrived_succ] at hlow hhigh
    exact ⟨k + 1, hlow, hhigh⟩

/-- The verdict on a line that arrives in fragments. -/
theorem extractLineFed_eq (hfree : CrlfFree line) (fragments : List Bytes) :
    ∀ buffer : Bytes, buffer ++ fragments.flatten = line ++ (crlf ++ rest) →
      buffer.length ≤ maxHttpHeaderSize → buffer.length < line.length + 2 →
        (CutInside buffer.length fragments line ∨ maxChunkBodySize < line.length →
          (extractLineFed buffer fragments).1 = .headerTooLarge) ∧
        (¬ (CutInside buffer.length fragments line ∨ maxChunkBodySize < line.length) →
          extractLineFed buffer fragments = (.success, line)) := by
  induction fragments with
  | nil =>
      intro buffer hpart _ hshort
      have hlength := congrArg List.length hpart
      simp only [List.flatten_nil, List.append_nil, List.length_append, crlf, List.length_cons,
        List.length_nil] at hlength
      omega
  | cons fragment fragments ih =>
      intro buffer hpart hbuffer hshort
      have hnext : (buffer ++ fragment) ++ fragments.flatten = line ++ (crlf ++ rest) := by
        simpa using hpart
      rw [cutInside_cons fragment fragments hbuffer, extractLineFed]
      by_cases hcomplete : line.length + 2 ≤ (buffer ++ fragment).length
      · have hnone : ¬ CutInside (buffer ++ fragment).length fragments line := by
          rintro ⟨k, _, hhigh⟩
          omega
        obtain ⟨left, hleft⟩ := exists_rest_of_part hnext hcomplete
        by_cases hchunk : maxChunkBodySize < line.length
        · have hextract := extractLine_long_line hfree hchunk left
          rw [← hleft] at hextract
          simp only [hextract, hchunk, or_true, not_true_eq_false, implies_true, and_true,
            false_implies]
        · have hextract := extractLine_line hfree (Nat.not_lt.mp hchunk) left
          rw [← hleft] at hextract
          simp only [hextract, hnone, hchunk, or_self, not_false_eq_true, implies_true,
            and_true, false_implies]
      · have hpartial : (buffer ++ fragment).length < line.length + 2 := Nat.not_le.mp hcomplete
        have hindex := crlfIndex?_part hfree hnext hpartial
        by_cases hlimit : maxHttpHeaderSize < (buffer ++ fragment).length
        · have hcut : CutInside (buffer ++ fragment).length fragments line :=
            ⟨0, by simpa using hlimit, by simpa using hpartial⟩
          simp only [extractLine_long_of_none hindex hlimit, hcut, true_or, not_true_eq_false,
            implies_true, and_true, false_implies]
        · have hwithin := Nat.not_lt.mp hlimit
          rw [extractLine_of_none hindex hwithin]
          exact ih (buffer ++ fragment) hnext hwithin hpartial

/-- The limit of the declaration is honoured: up to it the line is extracted, above
it the line is refused. -/
def LimitHonoured (line : Bytes) (fragments : List Bytes) : Prop :=
  (line.length ≤ maxHttpHeaderSize → extractLineFed [] fragments = (.success, line)) ∧
    (maxHttpHeaderSize < line.length → (extractLineFed [] fragments).1 = .headerTooLarge)

/-- No fragment ends between the CR and the LF of a line of exactly the limit, and
a longer line is cut behind the limit or longer than the limit of the scan. -/
theorem limitHonoured_iff (hfree : CrlfFree line) {fragments : List Bytes}
    (hcut : fragments.flatten = line ++ (crlf ++ rest)) :
    LimitHonoured line fragments ↔
      (line.length = maxHttpHeaderSize → ∀ k, arrived fragments k ≠ line.length + 1) ∧
      (maxHttpHeaderSize < line.length → maxChunkBodySize < line.length ∨
        ∃ k, maxHttpHeaderSize < arrived fragments k ∧
          arrived fragments k < line.length + 2) := by
  obtain ⟨hrefused, hextracted⟩ := extractLineFed_eq hfree fragments [] (by simpa using hcut)
    (by simp) (by simp)
  simp only [CutInside, List.length_nil, Nat.zero_add] at hrefused hextracted
  have hlimits : maxHttpHeaderSize < maxChunkBodySize := by decide
  constructor
  · rintro ⟨hwithin, hbeyond⟩
    constructor
    · rintro hlength k hk
      have hstatus := hrefused (.inl ⟨k, by omega, by omega⟩)
      rw [hwithin (Nat.le_of_eq hlength)] at hstatus
      contradiction
    · intro hlong
      by_contra hneither
      have hstatus := hbeyond hlong
      rw [hextracted fun hany => hneither hany.symm] at hstatus
      contradiction
  · rintro ⟨hexact, hbeyond⟩
    constructor
    · intro hwithin
      apply hextracted
      rintro (⟨k, hlow, hhigh⟩ | hchunk)
      · exact hexact (by omega) k (by omega)
      · omega
    · exact fun hlong => hrefused (hbeyond hlong).symm

theorem limitHonoured_cutInCrlf :
    LimitHonoured (ascii "Host: x") [ascii "Host", ascii ": x\r", ascii "\n\r\n"] := by
  have hcut : [ascii "Host", ascii ": x\r", ascii "\n\r\n"].flatten =
      ascii "Host: x" ++ (crlf ++ crlf) := by decide
  apply (limitHonoured_iff (by decide) hcut).mpr
  constructor
  · intro hlength
    exact absurd hlength (by decide)
  · intro hlong
    exact absurd hlong (by decide)

/-- A line between the two limits that arrives with its CRLF is extracted. -/
theorem limit_missed (hfree : CrlfFree line) (hlong : maxHttpHeaderSize < line.length)
    (hbound : line.length ≤ maxChunkBodySize) :
    extractLineFed [] [line ++ crlf] = (.success, line) ∧
      ¬ LimitHonoured line [line ++ crlf] := by
  have hextract := extractLine_line hfree hbound []
  rw [List.append_nil] at hextract
  have hfed : extractLineFed [] [line ++ crlf] = (.success, line) := by
    simp only [extractLineFed, List.nil_append, hextract]
  refine ⟨hfed, fun hhonoured => ?_⟩
  have hstatus := hhonoured.2 hlong
  rw [hfed] at hstatus
  contradiction

/-- One byte more than the limit. -/
def longLine : Bytes := List.replicate (maxHttpHeaderSize + 1) 97

theorem limit_missed_longLine :
    extractLineFed [] [longLine ++ crlf] = (.success, longLine) ∧
      ¬ LimitHonoured longLine [longLine ++ crlf] := by
  have hlength : longLine.length = maxHttpHeaderSize + 1 := List.length_replicate
  apply limit_missed
  · apply crlfFree_of_not_mem
    rw [longLine, List.mem_replicate]
    exact fun hmem => absurd hmem.2 (by decide)
  · rw [hlength]
    exact Nat.lt_succ_self _
  · rw [hlength]
    decide

end Fed

end HttpServer
