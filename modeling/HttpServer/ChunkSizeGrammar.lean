/-
What a chunk-size line may say.  The guards in front of `strtoul` and the
checks behind it leave two ways around the grammar: a `0x` in front of the
digits, which base 16 skips, and a NUL byte, at which the C view of the line
ends.
-/
import HttpServer.MessageFormat

namespace HttpServer

open ByteText

/-- The part of a chunk-size line in front of its extensions. -/
def sizeField (line : Bytes) : Bytes := line.takeWhile (· ≠ 59)

/-- The digits `strtoul` gets to see. -/
def seenDigits (sizeHex : Bytes) : Bytes := skipHexLead (cString sizeHex)

theorem seenDigits_of_spells {sizeHex : Bytes} {n : Nat} (hspell : Spells 16 sizeHex n) :
    seenDigits sizeHex = sizeHex := by
  rw [seenDigits, cString_of_spells (Nat.le_refl _) hspell,
    skipHexLead_of_spells (Nat.le_refl _) hspell]

theorem spanDigits_nil_iff {base : Nat} {text : Bytes}
    (hrest : (spanDigits base text).2 = []) :
    (spanDigits base text).1 = [] ↔ text = [] := by
  have hdigits := spanDigits_rest_nil hrest
  constructor
  · intro hnone
    rw [hnone, List.map_nil] at hdigits
    exact List.map_eq_nil_iff.mp hdigits
  · rintro rfl
    rfl

theorem head?_of_cString {text : Bytes} {b : UInt8} (hhead : (cString text).head? = some b) :
    text.head? = some b := by
  obtain ⟨rest, hrest⟩ := List.takeWhile_prefix (l := text) (· ≠ 0)
  rw [← hrest, List.head?_append]
  exact congrArg (Option.or · rest.head?) hhead

theorem head?_skipHexLead {text : Bytes} {b : UInt8} (hhead : text.head? = some b)
    {n : Nat} (hspell : Spells 16 (skipHexLead text) n) : (digitValue 16 b).isSome := by
  cases text with
  | nil => contradiction
  | cons zero rest =>
      obtain rfl := Option.some.inj hhead
      by_cases hlead : skipHexLead (zero :: rest) = zero :: rest
      · rw [hlead] at hspell
        exact hspell.mem_isSome List.mem_cons_self
      · -- only a lead that starts with a zero is skipped
        rw [skipHexLead.eq_def] at hlead
        split at hlead
        · next heq =>
            split at hlead
            · next hzero =>
                obtain ⟨rfl, _⟩ := List.cons.inj heq
                rw [hzero.1]
                rfl
            · exact absurd heq.symm hlead
        · exact absurd rfl hlead

/-- Behind the guards on the first byte, `strtoul` accepts exactly the numerals
among the digits it sees. -/
theorem strtoul_guarded {sizeHex : Bytes} {first : UInt8} (hhead : sizeHex.head? = some first)
    (hguard : ¬ (first = 45 ∨ first = 43 ∨ isSpace first = true)) {n : Nat} :
    ((strtoul sizeHex 16).converted = true ∧ (strtoul sizeHex 16).rest = [] ∧
      (strtoul sizeHex 16).erange = false ∧ (strtoul sizeHex 16).value = n) ↔
      n < sizeBound ∧ Spells 16 (seenDigits sizeHex) n := by
  simp only [not_or, Bool.not_eq_true] at hguard
  have hsign : readSign ((cString sizeHex).dropWhile isSpace) = (false, cString sizeHex) := by
    cases sizeHex with
    | nil => contradiction
    | cons b rest =>
        obtain rfl := Option.some.inj hhead
        by_cases hnul : b = 0
        · simp [cString, hnul, readSign]
        · rw [cString, List.takeWhile_cons_of_pos (by simpa using hnul),
            List.dropWhile_cons_of_neg (by simp [hguard.2.2])]
          exact readSign_of_digit hguard.1 hguard.2.1 _
  rw [spells_iff_spanDigits, seenDigits]
  simp only [strtoul, hsign, ↓reduceIte, Bool.false_eq_true]
  generalize skipHexLead (cString sizeHex) = seen
  by_cases hdigits : (spanDigits 16 seen).1 = []
  · simp only [hdigits, List.isEmpty_nil, ↓reduceIte, Bool.false_eq_true, false_and,
      false_iff, not_and]
    intro _ hne hrest
    exact absurd ((spanDigits_nil_iff hrest).mp hdigits) hne
  · have hsome : (spanDigits 16 seen).1.isEmpty = false := by simpa using hdigits
    simp only [hsome, Bool.false_eq_true, ↓reduceIte]
    by_cases hfits : sizeBound ≤ digitsValue 16 (spanDigits 16 seen).1
    · simp only [hfits, ↓reduceIte, Bool.true_eq_false, false_and, and_false, false_iff,
        not_and]
      intro hn _ _ hvalue
      omega
    · simp only [hfits, ↓reduceIte, true_and]
      constructor
      · rintro ⟨hrest, hvalue⟩
        refine ⟨by omega, ?_, hrest, hvalue⟩
        exact fun hnil => hdigits ((spanDigits_nil_iff hrest).mpr hnil)
      · rintro ⟨_, _, hrest, hvalue⟩
        exact ⟨hrest, hvalue⟩

/-- The sizes the checks up to `strtoul` let through. -/
theorem chunkSizeOf_eq_some_iff {line : Bytes} {n : Nat} :
    chunkSizeOf line = some n ↔
      n < sizeBound ∧ Spells 16 (seenDigits (sizeField line)) n := by
  rw [chunkSizeOf, ← sizeField]
  cases hhead : (sizeField line).head? with
  | none =>
      have hempty : sizeField line = [] := List.head?_eq_none_iff.mp hhead
      simp only [hempty, reduceCtorEq, false_iff, not_and]
      exact fun _ hspell => hspell.1 rfl
  | some first =>
      by_cases hguard : first = 45 ∨ first = 43 ∨ isSpace first = true
      · simp only [hguard, ↓reduceIte, reduceCtorEq, false_iff, not_and]
        intro _ hspell
        cases hseen : (cString (sizeField line)).head? with
        | none =>
            rw [List.head?_eq_none_iff] at hseen
            rw [seenDigits, hseen] at hspell
            exact hspell.1 rfl
        | some b =>
            obtain rfl : b = first := Option.some.inj ((head?_of_cString hseen).symm.trans hhead)
            have hbyte := digit_byte b (head?_skipHexLead hseen hspell)
            obtain hminus | hplus | hspace := hguard
            · exact hbyte.2.2.1 hminus
            · exact hbyte.2.2.2.1 hplus
            · exact absurd (hspace.symm.trans hbyte.2.1) (by decide)
      · rw [← strtoul_guarded hhead hguard]
        simp only [hguard, ↓reduceIte]
        cases (strtoul (sizeField line) 16).converted <;>
          cases (strtoul (sizeField line) 16).erange <;>
          simp

section Line

variable {p : Progress} {line readBuffer rest : Bytes}

/-- Where the parser goes on after a size line. -/
def Progress.afterSize (p : Progress) (size : Nat) : Progress :=
  if size = 0 then p.goto .trailers else { p with parser := ⟨.chunkData, size⟩ }

theorem Progress.afterSize_injective (p : Progress) {left right : Nat}
    (hsame : p.afterSize left = p.afterSize right) : left = right := by
  have hparser := congrArg Progress.parser hsame
  simp only [afterSize] at hparser
  split at hparser <;> split at hparser <;>
    simp_all [goto]

/-- A size that still fits behind the body read so far. -/
def Admits (p : Progress) (text : Bytes) (size : Nat) : Prop :=
  Spells 16 text size ∧ p.request.body.length + size ≤ maxHttpBodySize

theorem chunkSizeLine_iff (hbody : p.request.body.length ≤ maxHttpBodySize) (size : Nat) :
    chunkSizeLine p line = (true, p.afterSize size) ↔
      Admits p (seenDigits (sizeField line)) size := by
  have hlimit := maxHttpBodySize_lt_sizeBound
  have hroom := maxHttpBodySize_add_lt_sizeBound
  constructor
  · intro haccept
    rw [chunkSizeLine] at haccept
    split at haccept
    · simp [Progress.fail] at haccept
    · next found hfound =>
        obtain ⟨_, hspell⟩ := chunkSizeOf_eq_some_iff.mp hfound
        split at haccept
        · simp [Progress.fail] at haccept
        · next hsize =>
            rw [Nat.mod_eq_of_lt (by omega)] at haccept
            split at haccept
            · simp [Progress.fail] at haccept
            · next htotal =>
                have hsame : p.afterSize found = p.afterSize size := by
                  rw [Progress.afterSize]
                  split at haccept
                  · next hzero =>
                      rw [if_pos hzero]
                      exact (Prod.mk.inj haccept).2
                  · next hzero =>
                      rw [if_neg hzero]
                      exact (Prod.mk.inj haccept).2
                obtain rfl := p.afterSize_injective hsame
                exact ⟨hspell, Nat.not_lt.mp htotal⟩
  · rintro ⟨hspell, htotal⟩
    have hfound : chunkSizeOf line = some size :=
      chunkSizeOf_eq_some_iff.mpr ⟨by omega, hspell⟩
    have hwrap : (p.request.body.length + size) % sizeBound = p.request.body.length + size :=
      Nat.mod_eq_of_lt (by omega)
    simp only [chunkSizeLine, hfound, hwrap]
    rw [if_neg (by omega), if_neg (by omega), Progress.afterSize]
    split <;> rfl

theorem chunkSizeLine_reject
    (hnone : ∀ size, ¬ Admits p (seenDigits (sizeField line)) size)
    (hbody : p.request.body.length ≤ maxHttpBodySize) :
    (chunkSizeLine p line).1 = false := by
  cases haccept : chunkSizeLine p line with
  | mk accepted p' =>
      cases accepted with
      | false => rfl
      | true =>
          obtain ⟨size, rfl⟩ : ∃ size, p' = p.afterSize size := by
            rw [chunkSizeLine] at haccept
            split at haccept
            · simp [Progress.fail] at haccept
            · next found _ =>
                refine ⟨found, ?_⟩
                rw [Progress.afterSize]
                split_ifs at haccept <;> simp_all [Progress.fail]
          exact absurd ((chunkSizeLine_iff hbody size).mp haccept) (hnone size)

/-- The line is accepted exactly as the grammar has it: hexadecimal digits in front
of the extensions, and a total within the limit. -/
def AcceptedByGrammar (p : Progress) (line readBuffer rest : Bytes) : Prop :=
  (∀ size, turn p readBuffer = .next (p.afterSize size) rest ↔
    Admits p (sizeField line) size) ∧
  ((∀ size, ¬ Admits p (sizeField line) size) → (parse p readBuffer).1 = .error)

/-- The size field hides an admissible size behind a `0x` or in front of a NUL. -/
def Disguised (p : Progress) (line : Bytes) : Prop :=
  (0 ∈ sizeField line ∨
    skipHexLead (cString (sizeField line)) ≠ cString (sizeField line)) ∧
  ∃ size, Admits p (seenDigits (sizeField line)) size

theorem turn_chunkSize (hstate : p.parser.mState = .chunkSize)
    (hextract : extractLine readBuffer = (.success, line, rest)) :
    turn p readBuffer =
      if (chunkSizeLine p line).1 then .next (chunkSizeLine p line).2 rest
      else .ret .error (chunkSizeLine p line).2 rest := by
  have haction : lineAction? p.parser.mState = some chunkSizeLine := by
    rw [hstate]
    rfl
  rw [turn_of_lineAction haction, takeLine_of_success hextract]

theorem turn_chunkSize_iff (hstate : p.parser.mState = .chunkSize)
    (hbody : p.request.body.length ≤ maxHttpBodySize)
    (hextract : extractLine readBuffer = (.success, line, rest)) (size : Nat) :
    turn p readBuffer = .next (p.afterSize size) rest ↔
      Admits p (seenDigits (sizeField line)) size := by
  rw [← chunkSizeLine_iff hbody, turn_chunkSize hstate hextract]
  rcases chunkSizeLine p line with ⟨accepted, p'⟩
  cases accepted <;> simp

theorem seenDigits_of_not_disguised (hplain : ¬ Disguised p line) {size : Nat}
    (hadmits : Admits p (seenDigits (sizeField line)) size) :
    seenDigits (sizeField line) = sizeField line := by
  by_contra hother
  apply hplain
  refine ⟨?_, size, hadmits⟩
  by_contra hneither
  simp only [not_or, not_not] at hneither
  obtain ⟨hnul, hlead⟩ := hneither
  apply hother
  rw [seenDigits, hlead, cString, List.takeWhile_eq_self_iff]
  intro b hb
  simpa using fun hzero : b = 0 => hnul (hzero ▸ hb)

/-- The parser and the grammar agree on a chunk-size line unless it hides an
admissible size. -/
theorem acceptedByGrammar_iff (hstate : p.parser.mState = .chunkSize)
    (hbody : p.request.body.length ≤ maxHttpBodySize)
    (hextract : extractLine readBuffer = (.success, line, rest)) :
    AcceptedByGrammar p line readBuffer rest ↔ ¬ Disguised p line := by
  have hturn := turn_chunkSize_iff hstate hbody hextract
  constructor
  · rintro ⟨haccept, _⟩ ⟨hhidden, size, hadmits⟩
    -- a numeral has neither a NUL nor a lead to skip
    have hspell := ((haccept size).mp ((hturn size).mpr hadmits)).1
    have hwhole := cString_of_spells (Nat.le_refl _) hspell
    obtain hnul | hlead := hhidden
    · exact (digit_byte 0 (hspell.mem_isSome hnul)).1 rfl
    · rw [hwhole] at hlead
      exact hlead (skipHexLead_of_spells (Nat.le_refl _) hspell)
  · intro hplain
    have hsame : ∀ size, Admits p (seenDigits (sizeField line)) size ↔
        Admits p (sizeField line) size := by
      intro size
      constructor
      · intro hadmits
        rwa [← seenDigits_of_not_disguised hplain hadmits]
      · intro hadmits
        rwa [seenDigits_of_spells hadmits.1]
    constructor
    · exact fun size => (hturn size).trans (hsame size)
    · intro hnone
      have hreject : (chunkSizeLine p line).1 = false :=
        chunkSizeLine_reject (fun size hadmits => hnone size ((hsame size).mp hadmits)) hbody
      have hret : turn p readBuffer = .ret .error (chunkSizeLine p line).2 rest := by
        rw [turn_chunkSize hstate hextract, hreject]
        rfl
      rw [parse_of_ret hret]

/-- A parser in front of its first chunk. -/
def atFirstChunk : Progress := { parser := ⟨.chunkSize, 0⟩ }

theorem acceptedByGrammar_extension :
    AcceptedByGrammar atFirstChunk (ascii "1A;name=value") (ascii "1A;name=value\r\nx")
      (ascii "x") := by
  apply (acceptedByGrammar_iff rfl (by decide) (by decide)).mpr
  rintro ⟨hhidden, _⟩
  exact absurd hhidden (by decide)

/-- `0x5` announces five bytes. -/
theorem hexLead_accepted :
    turn atFirstChunk (ascii "0x5\r\nhello") =
        .next (atFirstChunk.afterSize 5) (ascii "hello") ∧
      ¬ AcceptedByGrammar atFirstChunk (ascii "0x5") (ascii "0x5\r\nhello")
        (ascii "hello") := by
  have hturn : turn atFirstChunk (ascii "0x5\r\nhello") =
      .next (atFirstChunk.afterSize 5) (ascii "hello") := by decide +kernel
  refine ⟨hturn, fun haccepted => ?_⟩
  have hspell := ((haccepted.1 5).mp hturn).1
  exact absurd hspell (by decide)

end Line

end HttpServer
