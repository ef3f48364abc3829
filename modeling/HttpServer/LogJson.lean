/-
The JSON log format.  Texts from requests go into a record through
`escape_json`; what it writes is compared with the grammar of a string and with
what a reader of the record gets back.
-/
import HttpServer.JsonString

namespace HttpServer

open ByteText JsonString

namespace Logger

/-- What `escape_json` writes for one byte. -/
def escapeByte (c : UInt8) : Bytes :=
  match c with
  | 34 => ascii "\\\""
  | 92 => ascii "\\\\"
  | 8 => ascii "\\b"
  | 12 => ascii "\\f"
  | 10 => ascii "\\n"
  | 27 => ascii "\\e"
  | 13 => ascii "\\r"
  | 9 => ascii "\\t"
  | c => [c]

def escapeJson (input : Bytes) : Bytes := input.flatMap escapeByte

/-- A byte that is no control character, or one that JSON has a letter for. -/
def Escapable (b : UInt8) : Prop := 32 ≤ b ∨ b ∈ [8, 9, 10, 12, 13]

instance (b : UInt8) : Decidable (Escapable b) := inferInstanceAs (Decidable (_ ∨ _))

/-- The escaped text is a string body by the grammar, and a reader that meets it
between quotes gets the text back and goes on right behind it. -/
structure Escaped (input : Bytes) : Prop where
  wellFormed : StringBody (escapeJson input)
  readBack : ∀ rest,
    readString (quote :: escapeJson input ++ quote :: rest) = some (input, rest)

theorem spells_escapeByte {b : UInt8} (hb : Escapable b) {body : Bytes} {pieces : List Piece}
    (hbody : Spells body pieces) : Spells (escapeByte b ++ body) (.byte b :: pieces) := by
  unfold escapeByte
  split
  case h_6 => exact absurd hb (by decide)
  case h_9 c hquote hbackslash hb' hf hn he hr ht =>
    apply Spells.unescaped _ hbody
    rw [isUnescaped_iff]
    refine ⟨?_, hquote, hbackslash⟩
    rcases hb with hprintable | hletter
    · exact hprintable
    · simp at hletter
      tauto
  all_goals exact Spells.simple rfl hbody

theorem spells_escapeJson {input : Bytes} (hinput : ∀ b ∈ input, Escapable b) :
    Spells (escapeJson input) (input.map .byte) := by
  induction input with
  | nil => exact Spells.nil
  | cons b input ih =>
      obtain ⟨hb, hrest⟩ := List.forall_mem_cons.mp hinput
      exact spells_escapeByte hb (ih hrest)

theorem escapable_of_stringBody {b : UInt8} {body : Bytes}
    (hbody : StringBody (escapeByte b ++ body)) : Escapable b ∧ StringBody body := by
  unfold escapeByte at hbody
  split at hbody
  case h_6 => exact absurd (hbody.of_escape (by decide)).1 (by decide)
  case h_9 c hquote hbackslash hb' hf hn he hr ht =>
    obtain ⟨hraw, hrest⟩ := hbody.of_cons hbackslash
    exact ⟨Or.inl ((isUnescaped_iff _).mp hraw).1, hrest⟩
  all_goals exact ⟨by decide, (hbody.of_escape (by decide)).2⟩

theorem escapable_of_escapeJson {input : Bytes} (hbody : StringBody (escapeJson input)) :
    ∀ b ∈ input, Escapable b := by
  induction input with
  | nil => simp
  | cons b input ih =>
      obtain ⟨hb, hrest⟩ := escapable_of_stringBody hbody
      exact List.forall_mem_cons.mpr ⟨hb, ih hrest⟩

/-- A text is escaped as it should be exactly when each of its control characters
has a letter in JSON. -/
theorem escaped_iff (input : Bytes) : Escaped input ↔ ∀ b ∈ input, Escapable b := by
  constructor
  · exact fun hescaped => escapable_of_escapeJson hescaped.wellFormed
  · intro hinput
    have hspells := spells_escapeJson hinput
    constructor
    · exact ⟨_, hspells⟩
    · intro rest
      rw [readString_of_spells hspells, render_bytes]

/-- A path with an ESC in it: `\e` is no escape of the grammar, and a reader
refuses the literal. -/
theorem escapeCharacter_not_escaped :
    readString (quote :: escapeJson [47, 27] ++ [quote]) = none ∧ ¬Escaped [47, 27] := by
  have hrefused : readString (quote :: escapeJson [47, 27] ++ [quote]) = none := by decide
  refine ⟨hrefused, fun hescaped => ?_⟩
  rw [hescaped.readBack []] at hrefused
  contradiction

end Logger

end HttpServer
