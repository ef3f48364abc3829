/-
Log entries and the two formats they are written in.  A record of the JSON
format is one line whatever bytes its texts hold, and an object by the grammar
exactly when they can be escaped.
-/
import Mathlib.Algebra.Order.Field.Basic
import Mathlib.Algebra.Order.Field.Rat
import Mathlib.Data.Rat.Cast.Order
import Mathlib.Tactic.FieldSimp
import Mathlib.Tactic.Linarith
import Mathlib.Tactic.Positivity
import HttpServer.ClientTasks
import HttpServer.JsonObject
import HttpServer.LogJson

namespace HttpServer

open ByteText JsonObject

inductive Level where
  | info
  | warn
  | error
  | debug
deriving Repr, DecidableEq

inductive LogFormat where
  | text
  | json
deriving Repr, DecidableEq

/-- A `double`: sign, and for a finite one `mantissa * 2 ^ exponent`. -/
inductive Double where
  | finite (negative : Bool) (mantissa : Nat) (exponent : Int)
  | infinite (negative : Bool)
  | nan (negative : Bool)
deriving Repr, DecidableEq

/-- A quotient to the nearest integer, to the even one of two. -/
def halfEven (dividend divisor : Nat) : Nat :=
  let quotient := dividend / divisor
  let twice := 2 * (dividend % divisor)
  if twice < divisor ∨ twice = divisor ∧ quotient % 2 = 0 then quotient else quotient + 1

namespace Double

def isFinite : Double → Bool
  | .finite _ _ _ => true
  | .infinite _ | .nan _ => false

def value? : Double → Option ℚ
  | .finite negative mantissa exponent =>
      some ((if negative then -1 else 1) * (mantissa * 2 ^ exponent))
  | .infinite _ | .nan _ => none

/-- The magnitude in hundredths, rounded as a stream does. -/
def magnitude (mantissa : Nat) : Int → Nat
  | .ofNat exponent => mantissa * 2 ^ exponent * 100
  | .negSucc exponent => halfEven (mantissa * 100) (2 ^ (exponent + 1))

/-- The hundredths that are printed of a finite number. -/
def hundredths : Double → Int
  | .finite negative mantissa exponent =>
      (if negative then -1 else 1) * (magnitude mantissa exponent : Int)
  | .infinite _ | .nan _ => 0

end Double

/-- The timestamp is in milliseconds since 1970. -/
structure LogEntry where
  level : Level
  message : Bytes
  fd : Int
  threadId : Nat
  timestamp : Nat
  method : Bytes := []
  path : Bytes := []
  statusCode : Int := 0
  duration : Double := .finite false 0 0
deriving DecidableEq

/-- Broken-down time, months and days counted from one. -/
structure Tm where
  year : Nat
  month : Nat
  day : Nat
  hour : Nat
  minute : Nat
  second : Nat
deriving Repr, DecidableEq

/-- UTC in the Gregorian calendar, from the seconds since 1970; the years of a
400-year era begin in March. -/
def gmtime (seconds : Nat) : Tm :=
  let days := seconds / 86400 + 719468
  let dayOfEra := days % 146097
  let yearOfEra :=
    (dayOfEra + dayOfEra / 36524 - dayOfEra / 1460 - dayOfEra / 146096) / 365
  let dayOfYear := dayOfEra - (365 * yearOfEra + yearOfEra / 4 - yearOfEra / 100)
  let shifted := (5 * dayOfYear + 2) / 153
  let month := if shifted < 10 then shifted + 3 else shifted - 9
  { year := yearOfEra + days / 146097 * 400 + (if month ≤ 2 then 1 else 0)
    month
    day := dayOfYear - (153 * shifted + 2) / 5 + 1
    hour := seconds % 86400 / 3600
    minute := seconds % 3600 / 60
    second := seconds % 60 }

example : gmtime 1709251199 = ⟨2024, 2, 29, 23, 59, 59⟩ := by decide

/-- `std::setfill('0') << std::setw(width)`. -/
def padded (width n : Nat) : Bytes :=
  List.replicate (width - (numeral 10 n).length) 48 ++ numeral 10 n

/-- `std::put_time` with `%Y-%m-%d %H:%M:%S`. -/
def putTime (tm : Tm) : Bytes :=
  numeral 10 tm.year ++ ascii "-" ++ padded 2 tm.month ++ ascii "-" ++ padded 2 tm.day ++
    ascii " " ++ padded 2 tm.hour ++ ascii ":" ++ padded 2 tm.minute ++ ascii ":" ++
    padded 2 tm.second

/-- An `int` as a stream prints it. -/
def decimal (n : Int) : Bytes :=
  if n < 0 then 45 :: numeral 10 n.natAbs else numeral 10 n.natAbs

def fixedPoint (hundredths : Nat) : Bytes :=
  numeral 10 (hundredths / 100) ++ ascii "." ++ padded 2 (hundredths % 100)

def sign (negative : Bool) : Bytes := if negative then ascii "-" else []

/-- `std::fixed << std::setprecision(2)`. -/
def fixed : Double → Bytes
  | .finite negative mantissa exponent =>
      sign negative ++ fixedPoint (Double.magnitude mantissa exponent)
  | .infinite negative => sign negative ++ ascii "inf"
  | .nan negative => sign negative ++ ascii "nan"

example : fixed (.finite true 9 (-3)) = ascii "-1.12" := by decide

def Level.text : Level → Bytes
  | .debug => ascii "DEBUG"
  | .info => ascii "INFO "
  | .warn => ascii "WARN "
  | .error => ascii "ERROR"

namespace Logger

/-- The entry that `log` pushes. -/
def log (level : Level) (fd : Int) (message : Bytes) (threadId timestamp : Nat) : LogEntry :=
  { level, message, fd, threadId, timestamp }

/-- The entry that `log_http` pushes. -/
def logHttp (fd : Int) (method path : Bytes) (status : Int) (duration : Double)
    (threadId timestamp : Nat) : LogEntry :=
  let level : Level := if 400 ≤ status ∧ status < 500 then .warn else .info
  let level : Level := if 500 ≤ status ∨ status = 0 then .error else level
  { level
    message := ascii "\"" ++ method ++ ascii " " ++ path ++ ascii "\" " ++ decimal status ++
      ascii " - " ++ fixed duration ++ ascii "ms"
    fd, threadId, timestamp, method, path
    statusCode := status
    duration }

/-- Local time depends on the host's time zone. -/
def formatText (localtime : Nat → Tm) (entry : LogEntry) : Bytes :=
  ascii "[" ++ putTime (localtime (entry.timestamp / 1000)) ++ ascii "." ++
    padded 3 (entry.timestamp % 1000) ++ ascii "] " ++
    ascii "[" ++ entry.level.text ++ ascii "] " ++
    ascii "[TID " ++ numeral 10 entry.threadId ++ ascii "] " ++
    (if 0 ≤ entry.fd then ascii "[FD " ++ decimal entry.fd ++ ascii "] " else []) ++
    entry.message

def formatJson (entry : LogEntry) : Bytes :=
  ascii "\x7b" ++
    ascii "\"timestamp\":\"" ++ putTime (gmtime (entry.timestamp / 1000)) ++ ascii "." ++
    padded 3 (entry.timestamp % 1000) ++ ascii "Z\"," ++
    ascii "\"level\":\"" ++ entry.level.text ++ ascii "\"," ++
    ascii "\"tid\":\"" ++ numeral 10 entry.threadId ++ ascii "\"," ++
    (if 0 ≤ entry.fd then ascii "\"fd\":" ++ decimal entry.fd ++ ascii "," else []) ++
    (if entry.method ≠ [] then
      ascii "\"method\":\"" ++ escapeJson entry.method ++ ascii "\"," ++
      ascii "\"path\":\"" ++ escapeJson entry.path ++ ascii "\"," ++
      ascii "\"status\":" ++ decimal entry.statusCode ++ ascii "," ++
      ascii "\"duration_ms\":" ++ fixed entry.duration ++ ascii ","
    else []) ++
    ascii "\"message\":\"" ++ escapeJson entry.message ++ ascii "\"" ++
    ascii "\x7d"

end Logger

namespace HttpLogGuard

def methodToString : HttpMethod → Bytes
  | .get => ascii "GET"
  | .post => ascii "POST"
  | .put => ascii "PUT"
  | .delete => ascii "DELETE"
  | .head => ascii "HEAD"
  | .options => ascii "OPTIONS"
  | .unknown => ascii "UNKNOWN"

/-- What the destructor hands to `log_http` for its record. -/
def entry (fd : Int) (record : LogRecord) (duration : Double) (threadId timestamp : Nat) :
    LogEntry :=
  Logger.logHttp fd (methodToString record.method) record.path record.code.toNat duration
    threadId timestamp

end HttpLogGuard

/-- The bytes of a numeral: digits, none of which needs an escape. -/
theorem numeral_byte {n : Nat} {b : UInt8} (hb : b ∈ numeral 10 n) :
    (digitValue 10 b).isSome :=
  (numeral_spells (by decide) (by decide) n).mem_isSome hb

theorem padded_byte {width n : Nat} {b : UInt8} (hb : b ∈ padded width n) :
    (digitValue 10 b).isSome := by
  rcases List.mem_append.mp hb with hzero | hdigit
  · obtain rfl := List.eq_of_mem_replicate hzero
    decide
  · exact numeral_byte hdigit

/-- A number that fits is padded to the width exactly. -/
theorem padded_digits {width n : Nat} (hpositive : 0 < width) (hfits : n < 10 ^ width) :
    ∃ digits : List Nat, (padded width n).map (digitValue 10) = digits.map some ∧
      digitsValue 10 digits = n ∧ digits.length = width := by
  obtain ⟨_, digits, hdigits, hvalue⟩ := @numeral_spells 10 (by decide) (by decide) n
  have hlength : digits.length = (numeral 10 n).length := by
    simpa using (congrArg List.length hdigits).symm
  have hshort := length_numeral_le (by decide : 1 < 10) hpositive hfits
  have hzero : digitValue 10 48 = some 0 := by decide
  refine ⟨List.replicate (width - (numeral 10 n).length) 0 ++ digits, ?_, ?_, ?_⟩
  · rw [padded, List.map_append, List.map_append, hdigits, List.map_replicate,
      List.map_replicate, hzero]
  · rw [digitsValue_append, hvalue]
    simp [digitsValue, Nat.ofDigits_replicate_zero]
  · rw [List.length_append, List.length_replicate, hlength]
    omega

theorem halfEven_near (dividend : Nat) {divisor : Nat} (hdivisor : 0 < divisor) :
    2 * (divisor * halfEven dividend divisor) ≤ 2 * dividend + divisor ∧
      2 * dividend ≤ 2 * (divisor * halfEven dividend divisor) + divisor := by
  have hsplit := Nat.div_add_mod dividend divisor
  have hrest := Nat.mod_lt dividend hdivisor
  simp only [halfEven]
  split
  · next hdown => omega
  · next hup =>
      rw [Nat.mul_add_one]
      omega

theorem Double.magnitude_near (mantissa : Nat) (exponent : Int) :
    |(magnitude mantissa exponent : ℚ) - 100 * (mantissa * 2 ^ exponent)| ≤ 1 / 2 := by
  cases exponent with
  | ofNat exponent =>
      have hexact : (magnitude mantissa (.ofNat exponent) : ℚ) =
          100 * (mantissa * 2 ^ Int.ofNat exponent) := by
        simp only [magnitude, Int.ofNat_eq_natCast, zpow_natCast]
        push_cast
        ring
      rw [hexact, sub_self, abs_zero]
      positivity
  | negSucc exponent =>
      have hpower : (0 : ℚ) < 2 ^ (exponent + 1) := by positivity
      have hround := halfEven_near (mantissa * 100) (Nat.two_pow_pos (exponent + 1))
      have hupper : 2 * (2 ^ (exponent + 1) *
          (magnitude mantissa (.negSucc exponent) : ℚ)) ≤
            2 * (mantissa * 100) + 2 ^ (exponent + 1) := by
        exact_mod_cast hround.1
      have hlower : 2 * ((mantissa : ℚ) * 100) ≤ 2 * (2 ^ (exponent + 1) *
          (magnitude mantissa (.negSucc exponent) : ℚ)) + 2 ^ (exponent + 1) := by
        exact_mod_cast hround.2
      have hquotient : (magnitude mantissa (.negSucc exponent) : ℚ) -
          100 * (mantissa * 2 ^ Int.negSucc exponent) =
            (2 ^ (exponent + 1) * (magnitude mantissa (.negSucc exponent) : ℚ) -
              mantissa * 100) / 2 ^ (exponent + 1) := by
        rw [zpow_negSucc]
        field_simp
      rw [hquotient, abs_div, abs_of_pos hpower, div_le_iff₀ hpower, abs_le]
      constructor <;> linarith

/-- What is printed differs from the number by half a hundredth at most. -/
theorem Double.hundredths_near {duration : Double} {value : ℚ}
    (hvalue : duration.value? = some value) :
    |(duration.hundredths : ℚ) - 100 * value| ≤ 1 / 2 := by
  cases duration with
  | infinite => simp [value?] at hvalue
  | nan => simp [value?] at hvalue
  | finite negative mantissa exponent =>
      obtain rfl := Option.some.inj hvalue
      have hnear := magnitude_near mantissa exponent
      cases negative with
      | false => simpa [hundredths] using hnear
      | true =>
          rw [← abs_neg]
          have hflip : -(((Double.finite true mantissa exponent).hundredths : ℚ) -
              100 * ((if true then -1 else 1) * (mantissa * 2 ^ exponent))) =
                magnitude mantissa exponent - 100 * (mantissa * 2 ^ exponent) := by
            simp [hundredths]
            ring
          rw [hflip]
          exact hnear

theorem readUnsigned_fixedPoint (hundredths : Nat) {rest : Bytes} (hrest : EndsNumber rest) :
    readUnsigned (fixedPoint hundredths ++ rest) = some ((hundredths, 2), rest) := by
  obtain ⟨digits, hdigits, hvalue, hlength⟩ :=
    @padded_digits 2 (hundredths % 100) (by decide) (Nat.mod_lt _ (by decide))
  have hne : digits ≠ [] := by
    rintro rfl
    contradiction
  have hpoint : ascii "." = [46] := by decide
  have hsplit : fixedPoint hundredths ++ rest =
      numeral 10 (hundredths / 100) ++ 46 :: (padded 2 (hundredths % 100) ++ rest) := by
    simp [fixedPoint, hpoint]
  rw [hsplit, readUnsigned_point _ hne hdigits hrest, hvalue, hlength]
  congr 3
  omega

end HttpServer
