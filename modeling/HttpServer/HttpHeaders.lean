/-
The header map, the C library conversions its values go through, and the
request record.  Keys are stored in lower case: that is an invariant of the
type, kept by every operation.
-/
import Mathlib.Data.Finmap
import HttpServer.ByteText

namespace HttpServer

open ByteText

/-- `size_t` and `unsigned long` are 64 bits wide. -/
@[irreducible]
def sizeBound : Nat := 2 ^ 64

theorem sizeBound_pos : 0 < sizeBound := by
  unfold sizeBound
  decide

/-- `std::isspace` in the C locale. -/
def isSpace (b : UInt8) : Bool := b = 32 || (9 ≤ b && b ≤ 13)

/-- The bytes a C function sees through `c_str()`: up to the first NUL. -/
def cString (text : Bytes) : Bytes := text.takeWhile (· ≠ 0)

/-- A `0x` in front of a hexadecimal digit is skipped in base 16. -/
def skipHexLead : Bytes → Bytes
  | zero :: x :: digit :: rest =>
      if zero = 48 ∧ (x = 120 ∨ x = 88) ∧ (digitValue 16 digit).isSome then
        digit :: rest
      else zero :: x :: digit :: rest
  | text => text

/-- Whether a minus sign was read, and the text behind the optional sign. -/
def readSign : Bytes → Bool × Bytes
  | 45 :: rest => (true, rest)
  | 43 :: rest => (false, rest)
  | text => (false, text)

/-- What `strtoul`/`strtoull` report: the value, whether any digit was
consumed (`end` moved), the text left at `end`, and `ERANGE`. -/
structure Conversion where
  value : Nat
  converted : Bool
  rest : Bytes
  erange : Bool
deriving Repr, DecidableEq

/-- `strtoul` and `strtoull` on a 64-bit platform. -/
def strtoul (text : Bytes) (base : Nat) : Conversion :=
  let signed := readSign ((cString text).dropWhile isSpace)
  let unsigned := if base = 16 then skipHexLead signed.2 else signed.2
  let (digits, rest) := spanDigits base unsigned
  let magnitude := digitsValue base digits
  if digits.isEmpty then ⟨0, false, cString text, false⟩
  else if sizeBound ≤ magnitude then ⟨sizeBound - 1, true, rest, true⟩
  else if signed.1 then ⟨(sizeBound - magnitude) % sizeBound, true, rest, false⟩
  else ⟨magnitude, true, rest, false⟩

/-- `std::stoull`; `none` is a thrown `invalid_argument` or `out_of_range`. -/
def stoull (text : Bytes) : Option Nat :=
  let result := strtoul text 10
  if result.converted && !result.erange then some result.value else none

theorem strtoul_value_lt (text : Bytes) (base : Nat) :
    (strtoul text base).value < sizeBound := by
  simp only [strtoul]
  generalize (if base = 16 then _ else _ : Bytes) = unsigned
  split
  · exact sizeBound_pos
  · split
    · exact Nat.sub_lt sizeBound_pos Nat.one_pos
    · next hfits =>
        split
        · exact Nat.mod_lt _ sizeBound_pos
        · exact Nat.not_le.mp hfits

theorem stoull_lt {value : Bytes} {n : Nat} (hvalue : stoull value = some n) :
    n < sizeBound := by
  rw [stoull] at hvalue
  split at hvalue
  · obtain rfl := Option.some.inj hvalue
    exact strtoul_value_lt value 10
  · contradiction

/-- `m_headers` with the fact that no operation stores an unfolded key. -/
@[ext]
structure HttpHeaders where
  mHeaders : Finmap (fun _ : Bytes => Bytes)
  lowerKeys : ∀ key ∈ mHeaders, lowerBytes key = key
deriving DecidableEq

namespace HttpHeaders

def empty : HttpHeaders :=
  ⟨∅, fun _ hmem => absurd hmem Finmap.notMem_empty⟩

def set (headers : HttpHeaders) (key value : Bytes) : HttpHeaders where
  mHeaders := headers.mHeaders.insert (lowerBytes key) value
  lowerKeys := by
    intro other hother
    rcases Finmap.mem_insert.mp hother with rfl | hold
    · simp
    · exact headers.lowerKeys other hold

def get (headers : HttpHeaders) (key : Bytes) : Option Bytes :=
  headers.mHeaders.lookup (lowerBytes key)

/-- The lookup folds the key, the erasure does not. -/
def del (headers : HttpHeaders) (key : Bytes) : HttpHeaders where
  mHeaders :=
    if (headers.mHeaders.lookup (lowerBytes key)).isSome then
      headers.mHeaders.erase key
    else headers.mHeaders
  lowerKeys := by
    intro other hother
    split at hother
    · exact headers.lowerKeys other (Finmap.mem_erase.mp hother).2
    · exact headers.lowerKeys other hother

def has (headers : HttpHeaders) (key : Bytes) : Bool :=
  (headers.mHeaders.lookup (lowerBytes key)).isSome

/-- A missing, malformed or overflowing value counts as 0. -/
def getContentLength (headers : HttpHeaders) : Nat :=
  match headers.get (ascii "content-length") with
  | none => 0
  | some value => (stoull value).getD 0

theorem getContentLength_lt (headers : HttpHeaders) :
    headers.getContentLength < sizeBound := by
  rw [getContentLength]
  split
  · exact sizeBound_pos
  · next value _ =>
      cases hvalue : stoull value with
      | none => exact sizeBound_pos
      | some n => exact stoull_lt hvalue

theorem get_empty (key : Bytes) : empty.get key = none := by
  simp [get, empty]

theorem get_set (headers : HttpHeaders) (key value other : Bytes) :
    (headers.set key value).get other =
      if lowerBytes other = lowerBytes key then some value
      else headers.get other := by
  simp only [get, set]
  split
  · next heq => rw [heq, Finmap.lookup_insert]
  · next hne => rw [Finmap.lookup_insert_of_ne _ hne]

/-- The erased key is the one passed: only a folded spelling reaches an entry. -/
theorem get_del (headers : HttpHeaders) (key other : Bytes) :
    (headers.del key).get other =
      if lowerBytes other = key then none else headers.get other := by
  simp only [get, del]
  split
  · split
    · next heq => rw [heq, Finmap.lookup_erase]
    · next hne => rw [Finmap.lookup_erase_ne hne]
  · next habsent =>
      split
      · next heq =>
          rw [← heq, lowerBytes_lowerBytes] at habsent
          exact Option.not_isSome_iff_eq_none.mp habsent
      · rfl

/-- Two header maps with the same lookups are the same map. -/
theorem ext_get {left right : HttpHeaders}
    (hget : ∀ key, left.get key = right.get key) : left = right := by
  apply HttpHeaders.ext
  apply Finmap.ext_lookup
  intro key
  by_cases hkey : lowerBytes key = key
  · have hsame := hget key
    rw [get, get, hkey] at hsame
    exact hsame
  · have habsent : ∀ headers : HttpHeaders, headers.mHeaders.lookup key = none := by
      intro headers
      rw [Finmap.lookup_eq_none]
      exact fun hmem => hkey (headers.lowerKeys key hmem)
    rw [habsent, habsent]

end HttpHeaders

inductive HttpMethod where
  | get | post | put | delete | head | options | unknown
deriving Repr, DecidableEq

structure HttpRequest where
  method : HttpMethod := .unknown
  path : Bytes := []
  version : Bytes := []
  headers : HttpHeaders := .empty
  body : Bytes := []
deriving DecidableEq

namespace HttpRequest

def reset (_request : HttpRequest) : HttpRequest := {}

/-- `std::string::find` succeeds. -/
def contains (text needle : Bytes) : Bool := decide (needle <:+: text)

def wantsKeepAlive (request : HttpRequest) : Bool :=
  match request.headers.get (ascii "Connection") with
  | none => request.version = ascii "HTTP/1.1"
  | some value =>
      let v := lowerBytes value
      if contains v (ascii "close") then false
      else if contains v (ascii "keep-alive") then true
      else request.version = ascii "HTTP/1.1"

end HttpRequest

end HttpServer
