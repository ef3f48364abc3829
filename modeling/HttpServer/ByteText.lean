/-
Byte strings as a wire protocol sees them: ASCII literals, ASCII case, the
first CRLF of a buffer, and positional numerals.  Nothing here knows which
protocol the bytes belong to.
-/
import Mathlib.Data.Nat.Digits.Lemmas
import Mathlib.Data.List.Infix

/-- A buffer, a `std::string` or a line: just bytes. -/
abbrev Bytes := List UInt8

namespace ByteText

/-- The bytes of an ASCII literal. -/
def ascii (text : String) : Bytes := text.toList.map fun c => c.toNat.toUInt8

/-- `std::tolower` in the C locale. -/
def lower (b : UInt8) : UInt8 := if 65 ≤ b ∧ b ≤ 90 then b + 32 else b

def lowerBytes (text : Bytes) : Bytes := text.map lower

theorem lower_lower (b : UInt8) : lower (lower b) = lower b := by
  unfold lower
  split
  · next h =>
      have hnot : ¬ (65 ≤ b + 32 ∧ b + 32 ≤ 90) := by
        simp only [UInt8.le_iff_toNat_le, UInt8.toNat_add] at h ⊢
        simp at h ⊢
        omega
      rw [if_neg hnot]
  · rfl

@[simp] theorem lowerBytes_lowerBytes (text : Bytes) :
    lowerBytes (lowerBytes text) = lowerBytes text := by
  simp [lowerBytes, lower_lower]

def cr : UInt8 := 13
def lf : UInt8 := 10
def crlf : Bytes := [cr, lf]

/-- Position of the first CRLF. -/
def crlfIndex? : Bytes → Option Nat
  | [] => none
  | b :: rest =>
      if b = cr ∧ rest.head? = some lf then some 0
      else (crlfIndex? rest).map (· + 1)

/-- No CRLF occurs inside the text; a lone CR or LF may. -/
def CrlfFree (text : Bytes) : Prop := crlfIndex? text = none

instance (text : Bytes) : Decidable (CrlfFree text) :=
  inferInstanceAs (Decidable (crlfIndex? text = none))

theorem crlfFree_of_not_mem {text : Bytes} (hcr : cr ∉ text) : CrlfFree text := by
  induction text with
  | nil => rfl
  | cons b rest ih =>
      simp only [List.mem_cons, not_or] at hcr
      have hhere : ¬ (b = cr ∧ rest.head? = some lf) := fun h => hcr.1 h.1.symm
      have hrest : crlfIndex? rest = none := ih hcr.2
      simp [CrlfFree, crlfIndex?, hhere, hrest]

theorem crlfIndex?_append {buffer : Bytes} {i : Nat}
    (hindex : crlfIndex? buffer = some i) (more : Bytes) :
    crlfIndex? (buffer ++ more) = some i := by
  induction buffer generalizing i with
  | nil => simp [crlfIndex?] at hindex
  | cons b rest ih =>
      rw [List.cons_append]
      unfold crlfIndex? at hindex ⊢
      by_cases hhere : b = cr ∧ rest.head? = some lf
      · have hhere' : b = cr ∧ (rest ++ more).head? = some lf := by
          refine ⟨hhere.1, ?_⟩
          rw [List.head?_append, hhere.2]
          rfl
        rw [if_pos hhere] at hindex
        rw [if_pos hhere']
        exact hindex
      · rw [if_neg hhere] at hindex
        obtain ⟨j, hj, hi⟩ := Option.map_eq_some_iff.mp hindex
        have hrest : rest ≠ [] := by
          rintro rfl
          simp [crlfIndex?] at hj
        have hhere' : ¬ (b = cr ∧ (rest ++ more).head? = some lf) := by
          rintro ⟨hb, hhead⟩
          rw [List.head?_append_of_ne_nil _ hrest] at hhead
          exact hhere ⟨hb, hhead⟩
        rw [if_neg hhere', ih hj]
        exact congrArg some hi

/-- The first CRLF of a stream splits it exactly there. -/
theorem eq_of_crlfIndex? {buffer : Bytes} {i : Nat}
    (hindex : crlfIndex? buffer = some i) :
    buffer = buffer.take i ++ (crlf ++ buffer.drop (i + 2)) := by
  induction buffer generalizing i with
  | nil => simp [crlfIndex?] at hindex
  | cons b rest ih =>
      unfold crlfIndex? at hindex
      by_cases hhere : b = cr ∧ rest.head? = some lf
      · rw [if_pos hhere] at hindex
        obtain rfl := Option.some.inj hindex
        obtain ⟨rfl, hhead⟩ := hhere
        cases rest with
        | nil => simp at hhead
        | cons c tail =>
            obtain rfl := Option.some.inj hhead
            simp [crlf]
      · rw [if_neg hhere] at hindex
        obtain ⟨j, hj, rfl⟩ := Option.map_eq_some_iff.mp hindex
        have hrest := ih hj
        simpa using hrest

theorem lt_length_of_crlfIndex? {buffer : Bytes} {i : Nat}
    (hindex : crlfIndex? buffer = some i) : i + 2 ≤ buffer.length := by
  have hlength := congrArg List.length (eq_of_crlfIndex? hindex)
  simp only [List.length_append, List.length_take, List.length_drop, crlf,
    List.length_cons, List.length_nil] at hlength
  omega

/-- A text without CRLF that is closed by one ends exactly there, even when
the text itself ends in a CR. -/
theorem crlfIndex?_line {line : Bytes} (hfree : CrlfFree line) (rest : Bytes) :
    crlfIndex? (line ++ (crlf ++ rest)) = some line.length := by
  induction line with
  | nil => simp [crlfIndex?, crlf]
  | cons b tail ih =>
      unfold CrlfFree crlfIndex? at hfree
      by_cases hhere : b = cr ∧ tail.head? = some lf
      · rw [if_pos hhere] at hfree
        contradiction
      · rw [if_neg hhere] at hfree
        have htail : CrlfFree tail := by simpa [CrlfFree] using hfree
        rw [List.cons_append]
        unfold crlfIndex?
        have hhere' : ¬ (b = cr ∧ (tail ++ (crlf ++ rest)).head? = some lf) := by
          rintro ⟨hb, hhead⟩
          cases tail with
          | nil => simp [crlf, cr, lf] at hhead
          | cons c _ => exact hhere ⟨hb, by simpa using hhead⟩
        rw [if_neg hhere', ih htail]
        rfl

/-- Bytes that were scanned without finding a CRLF stop at most one byte into
the CRLF that a longer buffer completes. -/
theorem length_le_of_crlfIndex?_append {buffer more : Bytes} {i : Nat}
    (hnone : crlfIndex? buffer = none)
    (hindex : crlfIndex? (buffer ++ more) = some i) :
    buffer.length ≤ i + 1 := by
  induction buffer generalizing i with
  | nil => simp
  | cons b rest ih =>
      rw [List.cons_append] at hindex
      unfold crlfIndex? at hnone hindex
      by_cases hhere : b = cr ∧ rest.head? = some lf
      · rw [if_pos hhere] at hnone
        contradiction
      · rw [if_neg hhere] at hnone
        have hrest : crlfIndex? rest = none := by simpa using hnone
        by_cases hhere' : b = cr ∧ (rest ++ more).head? = some lf
        · cases rest with
          | nil => simp
          | cons c _ => exact absurd ⟨hhere'.1, by simpa using hhere'.2⟩ hhere
        · rw [if_neg hhere'] at hindex
          obtain ⟨j, hj, rfl⟩ := Option.map_eq_some_iff.mp hindex
          have := ih hrest hj
          simp only [List.length_cons]
          omega

/-- The line at the front of a buffer: the bytes up to the first CRLF, or all
of an unterminated line except a final CR that may still turn into one. -/
def frontLine (buffer : Bytes) : Bytes :=
  match crlfIndex? buffer with
  | some i => buffer.take i
  | none => if buffer.getLast? = some cr then buffer.dropLast else buffer

theorem length_frontLine_le (buffer : Bytes) :
    (frontLine buffer).length ≤ buffer.length := by
  unfold frontLine
  split
  · simp
  · split <;> simp

/-- A buffer whose front line is unterminated is at most one byte longer. -/
theorem length_le_frontLine_of_none {buffer : Bytes}
    (hnone : crlfIndex? buffer = none) :
    buffer.length ≤ (frontLine buffer).length + 1 := by
  simp only [frontLine, hnone]
  split
  · simp only [List.length_dropLast]
    omega
  · omega

theorem frontLine_line {line : Bytes} (hfree : CrlfFree line) (rest : Bytes) :
    frontLine (line ++ (crlf ++ rest)) = line := by
  simp only [frontLine, crlfIndex?_line hfree rest, List.take_left']

theorem length_frontLine_of_some {buffer : Bytes} {i : Nat}
    (hindex : crlfIndex? buffer = some i) : (frontLine buffer).length = i := by
  have hlong := lt_length_of_crlfIndex? hindex
  simp only [frontLine, hindex, List.length_take]
  omega

/-- The front line can only grow while bytes arrive. -/
theorem length_frontLine_append_le (buffer more : Bytes) :
    (frontLine buffer).length ≤ (frontLine (buffer ++ more)).length := by
  cases hshort : crlfIndex? buffer with
  | some i =>
      rw [length_frontLine_of_some hshort,
        length_frontLine_of_some (crlfIndex?_append hshort more)]
  | none =>
      cases hlong : crlfIndex? (buffer ++ more) with
      | none =>
          by_cases hmore : more = []
          · simp [hmore]
          · have hgrows := length_le_frontLine_of_none hlong
            have hpositive : 0 < more.length := List.length_pos_iff.mpr hmore
            have hbuffer := length_frontLine_le buffer
            rw [List.length_append] at hgrows
            omega
      | some j =>
          have hnear := length_le_of_crlfIndex?_append hshort hlong
          rw [length_frontLine_of_some hlong]
          by_cases hinside : buffer.length ≤ j
          · exact (length_frontLine_le buffer).trans hinside
          · have hbuffer : buffer = buffer.take j ++ [cr] := by
              have hcut := congrArg (List.take (j + 1)) (eq_of_crlfIndex? hlong)
              rw [List.take_left' (by omega)] at hcut
              have hshortTake : (buffer ++ more).take j = buffer.take j :=
                List.take_append_of_le_length (by omega)
              rw [hshortTake, List.take_append] at hcut
              simpa [crlf, List.take_take, show j + 1 - min j buffer.length = 1 by omega,
                show min (j + 1) j = j by omega] using hcut
            have hlast : buffer.getLast? = some cr := by
              rw [hbuffer]
              simp
            simp only [frontLine, hshort, hlast, ↓reduceIte, List.length_dropLast]
            omega

/-- The value of a digit byte in a base of at most 16, in either letter case. -/
def digitValue (base : Nat) (b : UInt8) : Option Nat :=
  let value :=
    if 48 ≤ b ∧ b ≤ 57 then some (b.toNat - 48)
    else if 97 ≤ b ∧ b ≤ 102 then some (b.toNat - 87)
    else if 65 ≤ b ∧ b ≤ 70 then some (b.toNat - 55)
    else none
  value.filter (· < base)

/-- The longest run of digits at the front, and what follows it. -/
def spanDigits (base : Nat) : Bytes → List Nat × Bytes
  | [] => ([], [])
  | b :: rest =>
      match digitValue base b with
      | some d => (d :: (spanDigits base rest).1, (spanDigits base rest).2)
      | none => ([], b :: rest)

/-- The number a digit list denotes, most significant digit first. -/
def digitsValue (base : Nat) (digits : List Nat) : Nat :=
  Nat.ofDigits base digits.reverse

/-- `text` is a numeral for `n`: digits only, any letter case, any number of
leading zeros. -/
def Spells (base : Nat) (text : Bytes) (n : Nat) : Prop :=
  text ≠ [] ∧ ∃ digits : List Nat,
    text.map (digitValue base) = digits.map some ∧ digitsValue base digits = n

def digitByte (d : Nat) : UInt8 :=
  if d < 10 then (48 + d).toUInt8 else (87 + d).toUInt8

/-- The shortest lower-case numeral. -/
def numeral (base n : Nat) : Bytes :=
  if n = 0 then [digitByte 0]
  else ((Nat.digits base n).reverse).map digitByte

theorem digitValue_digitByte {base d : Nat} (hbase : base ≤ 16) (hd : d < base) :
    digitValue base (digitByte d) = some d := by
  have hdigit : ∀ d < 16, digitValue 16 (digitByte d) = some d := by decide
  have hsome := hdigit d (by omega)
  unfold digitValue at hsome ⊢
  obtain ⟨hvalue, _⟩ := Option.filter_eq_some_iff.mp hsome
  exact Option.filter_eq_some_iff.mpr ⟨hvalue, by simpa using hd⟩

theorem numeral_spells {base : Nat} (hlow : 2 ≤ base) (hhigh : base ≤ 16)
    (n : Nat) : Spells base (numeral base n) n := by
  unfold numeral
  by_cases hn : n = 0
  · subst hn
    refine ⟨by simp, [0], ?_, by simp [digitsValue]⟩
    simp [digitValue_digitByte hhigh (show 0 < base by omega)]
  · rw [if_neg hn]
    refine ⟨by simpa [Nat.digits_eq_nil_iff_eq_zero] using hn,
      (Nat.digits base n).reverse, ?_, ?_⟩
    · rw [List.map_map]
      apply List.map_congr_left
      intro d hd
      have hlt : d < base := Nat.digits_lt_base (by omega) (List.mem_reverse.mp hd)
      exact digitValue_digitByte hhigh hlt
    · simp [digitsValue, Nat.ofDigits_digits]

theorem length_numeral_le {base k n : Nat} (hbase : 1 < base) (hk : 0 < k)
    (hn : n < base ^ k) : (numeral base n).length ≤ k := by
  rw [numeral]
  split
  · exact hk
  · simpa using (Nat.digits_length_le_iff hbase n).mpr hn

theorem spanDigits_append {base : Nat} {text : Bytes} {digits : List Nat}
    (htext : text.map (digitValue base) = digits.map some) {rest : Bytes}
    (hrest : ∀ b ∈ rest.head?, digitValue base b = none) :
    spanDigits base (text ++ rest) = (digits, rest) := by
  induction text generalizing digits with
  | nil =>
      obtain rfl : digits = [] := by simpa using htext.symm
      cases rest with
      | nil => rfl
      | cons b tail => simp [spanDigits, hrest b (by simp)]
  | cons b tail ih =>
      cases digits with
      | nil => simp at htext
      | cons d ds =>
          simp only [List.map_cons, List.cons.injEq] at htext
          simp [spanDigits, htext.1, ih htext.2]

theorem spanDigits_rest_nil {base : Nat} {text : Bytes}
    (hrest : (spanDigits base text).2 = []) :
    text.map (digitValue base) = (spanDigits base text).1.map some := by
  induction text with
  | nil => rfl
  | cons b tail ih =>
      cases hdigit : digitValue base b with
      | none => simp [spanDigits, hdigit] at hrest
      | some d =>
          simp only [spanDigits, hdigit] at hrest ⊢
          simp [hdigit, ih hrest]

/-- A numeral is a text that its own run of digits exhausts. -/
theorem spells_iff_spanDigits {base : Nat} {text : Bytes} {n : Nat} :
    Spells base text n ↔ text ≠ [] ∧ (spanDigits base text).2 = [] ∧
      digitsValue base (spanDigits base text).1 = n := by
  constructor
  · rintro ⟨hne, digits, hdigits, hvalue⟩
    have hspan := @spanDigits_append base text digits hdigits [] (by simp)
    rw [List.append_nil] at hspan
    simp only [hspan]
    exact ⟨hne, trivial, hvalue⟩
  · rintro ⟨hne, hrest, hvalue⟩
    exact ⟨hne, _, spanDigits_rest_nil hrest, hvalue⟩

instance (base : Nat) (text : Bytes) (n : Nat) : Decidable (Spells base text n) :=
  decidable_of_iff _ spells_iff_spanDigits.symm

theorem Spells.mem_isSome {base : Nat} {text : Bytes} {n : Nat}
    (hspell : Spells base text n) {b : UInt8} (hb : b ∈ text) :
    (digitValue base b).isSome := by
  obtain ⟨_, digits, hdigits, _⟩ := hspell
  have hmem : digitValue base b ∈ digits.map some :=
    hdigits ▸ List.mem_map_of_mem hb
  obtain ⟨d, _, hd⟩ := List.mem_map.mp hmem
  simp [← hd]

end ByteText
