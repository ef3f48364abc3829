/-
JSON strings as RFC 8259 spells them, over bytes: a byte from 0x80 on belongs to
a longer character and is passed over.  The grammar says which bodies are well
formed and what they denote; a reader takes a literal off the front of a text.
-/
import HttpServer.ByteText

namespace JsonString

open ByteText

def quote : UInt8 := 34
def backslash : UInt8 := 92

/-- A byte that may stand for itself. -/
def isUnescaped (b : UInt8) : Bool := 32 ≤ b && b ≠ quote && b ≠ backslash

/-- What a letter behind a backslash stands for; `u` is not one of them. -/
def simpleEscape : UInt8 → Option UInt8
  | 34 => some 34
  | 92 => some 92
  | 47 => some 47
  | 98 => some 8
  | 102 => some 12
  | 110 => some 10
  | 114 => some 13
  | 116 => some 9
  | _ => none

/-- The UTF-16 code unit of four hexadecimal digits. -/
def codeUnit (d₁ d₂ d₃ d₄ : UInt8) : Option Nat := do
  let h₁ ← digitValue 16 d₁
  let h₂ ← digitValue 16 d₂
  let h₃ ← digitValue 16 d₃
  let h₄ ← digitValue 16 d₄
  return ((h₁ * 16 + h₂) * 16 + h₃) * 16 + h₄

/-- What one character of a literal contributes. -/
inductive Piece where
  | byte (b : UInt8)
  | codeUnit (unit : Nat)
deriving Repr, DecidableEq

/-- The string body by the grammar, with what it denotes. -/
inductive Spells : Bytes → List Piece → Prop
  | nil : Spells [] []
  | unescaped {b : UInt8} {body : Bytes} {pieces : List Piece} (hb : isUnescaped b = true)
      (hbody : Spells body pieces) : Spells (b :: body) (.byte b :: pieces)
  | simple {letter value : UInt8} {body : Bytes} {pieces : List Piece}
      (hletter : simpleEscape letter = some value) (hbody : Spells body pieces) :
      Spells (backslash :: letter :: body) (.byte value :: pieces)
  | codeUnit {d₁ d₂ d₃ d₄ : UInt8} {unit : Nat} {body : Bytes} {pieces : List Piece}
      (hunit : codeUnit d₁ d₂ d₃ d₄ = some unit) (hbody : Spells body pieces) :
      Spells (backslash :: 117 :: d₁ :: d₂ :: d₃ :: d₄ :: body) (.codeUnit unit :: pieces)

/-- A well-formed string body. -/
def StringBody (body : Bytes) : Prop := ∃ pieces, Spells body pieces

/-- Read up to the closing quote. -/
def scan : Bytes → Option (List Piece × Bytes)
  | [] => none
  | b :: rest =>
      if b = quote then some ([], rest)
      else if b = backslash then
        match rest with
        | [] => none
        | letter :: rest =>
            if letter = 117 then
              match rest with
              | d₁ :: d₂ :: d₃ :: d₄ :: rest =>
                  (codeUnit d₁ d₂ d₃ d₄).bind fun unit =>
                    (scan rest).map fun read => (.codeUnit unit :: read.1, read.2)
              | _ => none
            else
              (simpleEscape letter).bind fun value =>
                (scan rest).map fun read => (.byte value :: read.1, read.2)
      else if isUnescaped b then
        (scan rest).map fun read => (.byte b :: read.1, read.2)
      else none

def isHighSurrogate (unit : Nat) : Bool := 0xD800 ≤ unit && unit < 0xDC00
def isLowSurrogate (unit : Nat) : Bool := 0xDC00 ≤ unit && unit < 0xE000

/-- The UTF-8 bytes of a code point; a lone surrogate is replaced. -/
def utf8 (point : Nat) : Bytes :=
  String.utf8EncodeChar
    (Char.ofNat (if isHighSurrogate point || isLowSurrogate point then 0xFFFD else point))

/-- The text behind the pieces: two halves of a surrogate pair are one code point. -/
def render : List Piece → Bytes
  | [] => []
  | .byte b :: rest => b :: render rest
  | .codeUnit high :: .codeUnit low :: rest =>
      if isHighSurrogate high && isLowSurrogate low then
        utf8 (0x10000 + (high - 0xD800) * 0x400 + (low - 0xDC00)) ++ render rest
      else utf8 high ++ render (.codeUnit low :: rest)
  | .codeUnit unit :: rest => utf8 unit ++ render rest

/-- Take a string literal off the front of a text. -/
def readString : Bytes → Option (Bytes × Bytes)
  | [] => none
  | b :: rest =>
      if b = quote then (scan rest).map fun read => (render read.1, read.2) else none

theorem isUnescaped_iff (b : UInt8) :
    isUnescaped b = true ↔ 32 ≤ b ∧ b ≠ quote ∧ b ≠ backslash := by
  simp [isUnescaped, and_assoc]

/-- A well-formed body is read to its end and no further. -/
theorem scan_of_spells {body : Bytes} {pieces : List Piece} (hspells : Spells body pieces)
    (rest : Bytes) : scan (body ++ quote :: rest) = some (pieces, rest) := by
  induction hspells with
  | nil =>
      rw [List.nil_append, scan.eq_def]
      rfl
  | unescaped hb _ ih =>
      obtain ⟨_, hquote, hbackslash⟩ := (isUnescaped_iff _).mp hb
      rw [List.cons_append, scan.eq_def]
      simp only [if_neg hquote, if_neg hbackslash, if_pos hb, ih, Option.map_some]
  | @simple letter value body pieces hletter _ ih =>
      have hnotUnit : letter ≠ 117 := by
        rintro rfl
        contradiction
      rw [List.cons_append, List.cons_append, scan.eq_def]
      simp only [if_neg hnotUnit, hletter, ih, Option.bind_some, Option.map_some]
      rfl
  | codeUnit hunit _ ih =>
      simp only [List.cons_append]
      rw [scan.eq_def]
      simp only [hunit, ih, Option.bind_some, Option.map_some]
      rfl

theorem readString_of_spells {body : Bytes} {pieces : List Piece} (hspells : Spells body pieces)
    (rest : Bytes) :
    readString (quote :: body ++ quote :: rest) = some (render pieces, rest) := by
  rw [List.cons_append, readString, if_pos rfl, scan_of_spells hspells]
  rfl

theorem render_bytes (text : Bytes) : render (text.map .byte) = text := by
  induction text with
  | nil => rfl
  | cons b text ih =>
      rw [List.map_cons, render, ih]

/-- A byte that begins no escape must be one that may stand for itself. -/
theorem StringBody.of_cons {b : UInt8} {body : Bytes} (hbody : StringBody (b :: body))
    (hb : b ≠ backslash) : isUnescaped b = true ∧ StringBody body := by
  obtain ⟨pieces, hspells⟩ := hbody
  cases hspells with
  | unescaped hb' hrest => exact ⟨hb', _, hrest⟩
  | simple => contradiction
  | codeUnit => contradiction

/-- Behind a backslash, any letter but `u` must be in the table. -/
theorem StringBody.of_escape {letter : UInt8} {body : Bytes}
    (hbody : StringBody (backslash :: letter :: body)) (hletter : letter ≠ 117) :
    (simpleEscape letter).isSome ∧ StringBody body := by
  obtain ⟨pieces, hspells⟩ := hbody
  cases hspells with
  | unescaped hb => contradiction
  | simple hvalue hrest => exact ⟨by rw [hvalue]; rfl, _, hrest⟩
  | codeUnit => contradiction

end JsonString
