/-
Flat JSON objects over bytes: members whose values are strings or decimal
numbers, with no white space between the tokens.  A reader takes an object off
the front of a text; members that are each read back are read back together.
-/
import HttpServer.JsonString

namespace JsonObject

open ByteText JsonString

/-- A number is its digits as an integer and how many of them stand behind the
point. -/
inductive Value where
  | text (content : Bytes)
  | number (mantissa : Int) (places : Nat)
deriving Repr, DecidableEq

abbrev Member := Bytes × Value

/-- The digits before the point: no zero in front of another digit. -/
def readWhole (text : Bytes) : Option (List Nat × Bytes) :=
  match spanDigits 10 text with
  | ([], _) => none
  | (0 :: _ :: _, _) => none
  | (digits, rest) => some (digits, rest)

def readFraction : Bytes → Option (List Nat × Bytes)
  | 46 :: text =>
      match spanDigits 10 text with
      | ([], _) => none
      | (digits, rest) => some (digits, rest)
  | text => some ([], text)

def readUnsigned (text : Bytes) : Option ((Nat × Nat) × Bytes) :=
  (readWhole text).bind fun whole =>
    (readFraction whole.2).map fun fraction =>
      ((digitsValue 10 (whole.1 ++ fraction.1), fraction.1.length), fraction.2)

def readNumber : Bytes → Option (Value × Bytes)
  | 45 :: text => (readUnsigned text).map fun read => (.number (-read.1.1) read.1.2, read.2)
  | text => (readUnsigned text).map fun read => (.number read.1.1 read.1.2, read.2)

def readValue (text : Bytes) : Option (Value × Bytes) :=
  if text.head? = some quote then
    (readString text).map fun read => (.text read.1, read.2)
  else readNumber text

def readMember (text : Bytes) : Option (Member × Bytes) :=
  (readString text).bind fun name =>
    match name.2 with
    | 58 :: rest => (readValue rest).map fun value => ((name.1, value.1), value.2)
    | _ => none

/-- Members up to the closing brace; the first argument bounds their number. -/
def readMembers : Nat → Bytes → Option (List Member × Bytes)
  | 0, _ => none
  | bound + 1, text =>
      (readMember text).bind fun member =>
        match member.2 with
        | 44 :: rest =>
            (readMembers bound rest).map fun later => (member.1 :: later.1, later.2)
        | 125 :: rest => some ([member.1], rest)
        | _ => none

def readObject : Bytes → Option (List Member × Bytes)
  | 123 :: 125 :: rest => some ([], rest)
  | 123 :: text => readMembers text.length text
  | _ => none

section Numbers

theorem digitsValue_append (first second : List Nat) :
    digitsValue 10 (first ++ second) =
      digitsValue 10 first * 10 ^ second.length + digitsValue 10 second := by
  rw [digitsValue, List.reverse_append, Nat.ofDigits_append, List.length_reverse]
  simp only [digitsValue]
  ring

/-- A shortest numeral starts with a zero only if it is `0`. -/
theorem numeral_digits (n : Nat) : ∃ digits : List Nat,
    (numeral 10 n).map (digitValue 10) = digits.map some ∧ digitsValue 10 digits = n ∧
      digits ≠ [] ∧ (digits.head? = some 0 → digits = [0]) := by
  rw [numeral]
  split
  · next hzero =>
      refine ⟨[0], by decide, ?_, by simp, fun _ => rfl⟩
      rw [hzero]
      rfl
  · next hpositive =>
      refine ⟨(Nat.digits 10 n).reverse, ?_, ?_, ?_, ?_⟩
      · rw [List.map_map]
        apply List.map_congr_left
        intro d hd
        exact digitValue_digitByte (by decide) (Nat.digits_lt_base (by decide)
          (List.mem_reverse.mp hd))
      · simp [digitsValue, Nat.ofDigits_digits]
      · simpa [Nat.digits_eq_nil_iff_eq_zero] using hpositive
      · intro hhead
        have hne : Nat.digits 10 n ≠ [] := Nat.digits_ne_nil_iff_ne_zero.mpr hpositive
        rw [List.head?_reverse, List.getLast?_eq_getLast_of_ne_nil hne] at hhead
        exact absurd (Option.some.inj hhead) (Nat.getLast_digit_ne_zero 10 hpositive)

theorem readWhole_numeral (n : Nat) {rest : Bytes}
    (hrest : ∀ b ∈ rest.head?, digitValue 10 b = none) :
    ∃ digits : List Nat, readWhole (numeral 10 n ++ rest) = some (digits, rest) ∧
      digitsValue 10 digits = n := by
  obtain ⟨digits, hdigits, hvalue, hne, hzero⟩ := numeral_digits n
  refine ⟨digits, ?_, hvalue⟩
  rw [readWhole, spanDigits_append hdigits hrest]
  match digits, hne, hzero with
  | 0 :: d :: ds, _, hzero => exact absurd (hzero rfl) (by simp)
  | [0], _, _ => rfl
  | (d + 1) :: ds, _, _ => rfl

/-- What stands behind a number in an object. -/
def EndsNumber (rest : Bytes) : Prop :=
  ∀ b ∈ rest.head?, digitValue 10 b = none ∧ b ≠ 46

theorem readUnsigned_numeral (n : Nat) {rest : Bytes} (hrest : EndsNumber rest) :
    readUnsigned (numeral 10 n ++ rest) = some ((n, 0), rest) := by
  obtain ⟨digits, hwhole, hvalue⟩ := readWhole_numeral n fun b hb => (hrest b hb).1
  have hfraction : readFraction rest = some ([], rest) := by
    unfold readFraction
    split
    · next text => exact absurd rfl (hrest 46 (by simp)).2
    · rfl
  simp [readUnsigned, hwhole, hfraction, hvalue]

/-- A numeral, a point and digits behind it. -/
theorem readUnsigned_point (n : Nat) {text : Bytes} {digits : List Nat} (hne : digits ≠ [])
    (hdigits : text.map (digitValue 10) = digits.map some) {rest : Bytes}
    (hrest : EndsNumber rest) :
    readUnsigned (numeral 10 n ++ 46 :: (text ++ rest)) =
      some ((n * 10 ^ digits.length + digitsValue 10 digits, digits.length), rest) := by
  have hpoint : ∀ b ∈ (46 :: (text ++ rest)).head?, digitValue 10 b = none := by
    intro b hb
    obtain rfl : 46 = b := by simpa using hb
    decide
  obtain ⟨whole, hwhole, hvalue⟩ := readWhole_numeral n hpoint
  have hspan := spanDigits_append hdigits fun b hb => (hrest b hb).1
  have hfraction : readFraction (46 :: (text ++ rest)) = some (digits, rest) := by
    rw [readFraction, hspan]
    cases digits with
    | nil => exact absurd rfl hne
    | cons d ds => rfl
  simp only [readUnsigned, hwhole, Option.bind_some, hfraction, Option.map_some,
    digitsValue_append, hvalue]

/-- A numeral begins with a digit: neither a sign nor a quote. -/
theorem head?_numeral (n : Nat) (rest : Bytes) :
    ∃ b, (numeral 10 n ++ rest).head? = some b ∧ (digitValue 10 b).isSome := by
  have hspells := @numeral_spells 10 (by decide) (by decide) n
  cases htext : numeral 10 n with
  | nil => exact absurd htext hspells.1
  | cons b text =>
      refine ⟨b, rfl, hspells.mem_isSome ?_⟩
      rw [htext]
      exact List.mem_cons_self

theorem readValue_unsigned {text : Bytes} {b : UInt8} (hhead : text.head? = some b)
    (hdigit : (digitValue 10 b).isSome) :
    readValue text =
      (readUnsigned text).map fun read => (.number read.1.1 read.1.2, read.2) := by
  have hsigns : (digitValue 10 quote).isSome = false ∧ (digitValue 10 45).isSome = false := by
    decide
  have hquote : b ≠ quote := by
    rintro rfl
    rw [hsigns.1] at hdigit
    contradiction
  rw [readValue, hhead, if_neg (by simpa using hquote)]
  unfold readNumber
  split
  · next rest =>
      obtain rfl : 45 = b := by simpa using hhead
      rw [hsigns.2] at hdigit
      contradiction
  · rfl

theorem readValue_negative (text : Bytes) :
    readValue (45 :: text) =
      (readUnsigned text).map fun read => (.number (-read.1.1) read.1.2, read.2) :=
  rfl

end Numbers

/-- The text is taken for this member wherever a comma or a brace follows. -/
def ReadsAs (text : Bytes) (member : Member) : Prop :=
  ∀ b rest, b = 44 ∨ b = 125 → readMember (text ++ b :: rest) = some (member, b :: rest)

theorem endsNumber_of_delimiter {b : UInt8} (hb : b = 44 ∨ b = 125) (rest : Bytes) :
    EndsNumber (b :: rest) := by
  intro c hc
  obtain rfl : b = c := by simpa using hc
  rcases hb with rfl | rfl <;> decide

/-- The quoted name of a member and its colon. -/
def label (name : Bytes) : Bytes := quote :: name ++ [quote, 58]

theorem readMember_label {name : Bytes} (hname : JsonString.Spells name (name.map .byte))
    (rest : Bytes) :
    readMember (label name ++ rest) =
      (readValue rest).map fun value => ((name, value.1), value.2) := by
  have hsplit : label name ++ rest = quote :: name ++ quote :: (58 :: rest) := by
    simp [label]
  rw [hsplit, readMember, readString_of_spells hname, render_bytes]
  rfl

theorem readsAs_text {name body : Bytes} {pieces : List Piece}
    (hname : JsonString.Spells name (name.map .byte)) (hbody : JsonString.Spells body pieces) :
    ReadsAs (label name ++ (quote :: body ++ [quote])) (name, .text (render pieces)) := by
  intro b rest _
  have hsplit : quote :: body ++ [quote] ++ b :: rest = quote :: body ++ quote :: (b :: rest) := by
    simp
  rw [List.append_assoc, readMember_label hname, hsplit, readValue,
    readString_of_spells hbody]
  rfl

/-- A member whose value is read as an unsigned number. -/
theorem readsAs_unsigned {name text : Bytes} {value places : Nat} {first : UInt8}
    (hname : JsonString.Spells name (name.map .byte)) (hhead : text.head? = some first)
    (hdigit : (digitValue 10 first).isSome)
    (hread : ∀ rest, EndsNumber rest → readUnsigned (text ++ rest) = some ((value, places), rest)) :
    ReadsAs (label name ++ text) (name, .number value places) := by
  intro b rest hb
  have hhead' : (text ++ b :: rest).head? = some first := by
    rw [List.head?_append, hhead]
    rfl
  rw [List.append_assoc, readMember_label hname, readValue_unsigned hhead' hdigit,
    hread _ (endsNumber_of_delimiter hb rest)]
  rfl

theorem readsAs_negative {name text : Bytes} {value places : Nat}
    (hname : JsonString.Spells name (name.map .byte))
    (hread : ∀ rest, EndsNumber rest → readUnsigned (text ++ rest) = some ((value, places), rest)) :
    ReadsAs (label name ++ 45 :: text) (name, .number (-value) places) := by
  intro b rest hb
  rw [List.append_assoc, readMember_label hname, List.cons_append, readValue_negative,
    hread _ (endsNumber_of_delimiter hb rest)]
  rfl

/-- Members with a comma behind each but the last. -/
theorem readMembers_list {members : List (Bytes × Member)}
    (hmembers : ∀ member ∈ members, ReadsAs member.1 member.2) {last : Bytes × Member}
    (hlast : ReadsAs last.1 last.2) (rest : Bytes) :
    ∀ bound, members.length < bound →
      readMembers bound (members.flatMap (fun member => member.1 ++ [44]) ++
          (last.1 ++ 125 :: rest)) =
        some (members.map Prod.snd ++ [last.2], rest) := by
  induction members with
  | nil =>
      intro bound hbound
      obtain ⟨bound, rfl⟩ := Nat.exists_eq_succ_of_ne_zero (Nat.ne_of_gt hbound)
      rw [List.flatMap_nil, List.nil_append, readMembers, hlast 125 rest (Or.inr rfl)]
      rfl
  | cons member members ih =>
      intro bound hbound
      obtain ⟨hmember, hlater⟩ := List.forall_mem_cons.mp hmembers
      obtain ⟨bound, rfl⟩ : ∃ smaller, bound = smaller + 1 := ⟨bound - 1, by omega⟩
      have hrest := ih hlater bound (by simpa using hbound)
      rw [List.flatMap_cons, List.append_assoc, List.append_assoc, List.singleton_append,
        readMembers, hmember 44 _ (Or.inl rfl)]
      simp only [Option.bind_some, hrest]
      rfl

theorem length_le_listed (members : List (Bytes × Member)) :
    members.length ≤ (members.flatMap fun member => member.1 ++ [44]).length := by
  induction members with
  | nil => exact Nat.zero_le _
  | cons member members ih =>
      simp only [List.flatMap_cons, List.length_append, List.length_cons, List.length_nil]
      omega

/-- A text that does not begin with a member ends the reading. -/
theorem readMembers_stuck {members : List (Bytes × Member)}
    (hmembers : ∀ member ∈ members, ReadsAs member.1 member.2) {text : Bytes}
    (hstuck : readMember text = none) :
    ∀ bound, readMembers bound (members.flatMap (fun member => member.1 ++ [44]) ++ text) =
      none := by
  induction members with
  | nil =>
      intro bound
      cases bound with
      | zero => rfl
      | succ bound => rw [List.flatMap_nil, List.nil_append, readMembers, hstuck]; rfl
  | cons member members ih =>
      intro bound
      obtain ⟨hmember, hlater⟩ := List.forall_mem_cons.mp hmembers
      cases bound with
      | zero => rfl
      | succ bound =>
          rw [List.flatMap_cons, List.append_assoc, List.append_assoc, List.singleton_append,
            readMembers, hmember 44 _ (Or.inl rfl)]
          simp only [Option.bind_some, ih hlater bound]
          rfl

/-- No member begins with a brace. -/
theorem readObject_of_member {text : Bytes} {member : Member} (hmember : ReadsAs text member)
    {b : UInt8} (hb : b = 44 ∨ b = 125) (rest : Bytes) :
    readObject (123 :: (text ++ b :: rest)) =
      readMembers (text ++ b :: rest).length (text ++ b :: rest) := by
  have hread := hmember b rest hb
  unfold readObject
  split
  · next later heq =>
      rw [(List.cons.inj heq).2] at hread
      contradiction
  · next _ _ heq => rw [(List.cons.inj heq).2]
  · next hother => exact absurd rfl (hother _)

/-- An object of members that are read back is read back, and nothing behind it
is touched. -/
theorem readObject_members {members : List (Bytes × Member)}
    (hmembers : ∀ member ∈ members, ReadsAs member.1 member.2) {last : Bytes × Member}
    (hlast : ReadsAs last.1 last.2) (rest : Bytes) :
    readObject (123 :: (members.flatMap (fun member => member.1 ++ [44]) ++
        (last.1 ++ 125 :: rest))) =
      some (members.map Prod.snd ++ [last.2], rest) := by
  have hcount := length_le_listed members
  have hread := readMembers_list hmembers hlast rest
    (members.flatMap (fun member : Bytes × Member => member.1 ++ [44]) ++
      (last.1 ++ 125 :: rest)).length
    (by simp only [List.length_append, List.length_cons]; omega)
  match members, hmembers, hread with
  | [], _, hread =>
      rw [List.flatMap_nil, List.nil_append] at hread ⊢
      rw [readObject_of_member hlast (Or.inr rfl), hread]
  | member :: members, hmembers, hread =>
      rw [List.flatMap_cons, List.append_assoc, List.append_assoc, List.singleton_append]
        at hread ⊢
      rw [readObject_of_member (hmembers member List.mem_cons_self) (Or.inl rfl), hread]

theorem readObject_stuck {members : List (Bytes × Member)} (hne : members ≠ [])
    (hmembers : ∀ member ∈ members, ReadsAs member.1 member.2) {text : Bytes}
    (hstuck : readMember text = none) :
    readObject (123 :: (members.flatMap (fun member => member.1 ++ [44]) ++ text)) = none := by
  have hread := readMembers_stuck hmembers hstuck
    (members.flatMap (fun m : Bytes × Member => m.1 ++ [44]) ++ text).length
  obtain ⟨member, members, rfl⟩ := List.exists_cons_of_ne_nil hne
  rw [List.flatMap_cons, List.append_assoc, List.append_assoc, List.singleton_append] at hread ⊢
  rw [readObject_of_member (hmembers member List.mem_cons_self) (Or.inl rfl), hread]

end JsonObject
