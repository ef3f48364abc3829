/-
The per-client rate limiter: one token bucket for each address, spread over
sixteen shards, and the sweep that evicts idle buckets.  Times are exact
seconds; each call is one step.
-/
import Mathlib.Algebra.Order.Floor.Ring
import Mathlib.Data.Rat.Floor
import HttpServer.ByteText
import HttpServer.TokenBucket

namespace HttpServer

open ByteText TokenBucket

structure Bucket where
  tokens : ℚ
  lastRefill : ℚ
deriving DecidableEq

def numShards : Nat := 16

instance : NeZero numShards := ⟨by decide⟩

structure RateLimiter where
  rate : ℚ
  capacity : ℚ
  shards : Fin numShards → Bytes → Option Bucket := fun _ _ => none

namespace RateLimiter

/-- `hash` is `std::hash<std::string>`. -/
def shardFor (hash : Bytes → Nat) (ip : Bytes) : Fin numShards :=
  Fin.ofNat numShards (hash ip)

/-- What the shard of an address stores for it. -/
def entry (limiter : RateLimiter) (hash : Bytes → Nat) (ip : Bytes) : Option Bucket :=
  limiter.shards (shardFor hash ip) ip

def store (limiter : RateLimiter) (hash : Bytes → Nat) (ip : Bytes) (bucket : Bucket) :
    RateLimiter :=
  { limiter with
    shards := Function.update limiter.shards (shardFor hash ip)
      (Function.update (limiter.shards (shardFor hash ip)) ip (some bucket)) }

/-- Step 1: a new bucket starts full. -/
def findOrCreate (limiter : RateLimiter) (found : Option Bucket) (now : ℚ) : Bucket :=
  match found with
  | none => { tokens := limiter.capacity, lastRefill := now }
  | some bucket => bucket

/-- Step 2, first half. -/
def refill (limiter : RateLimiter) (bucket : Bucket) (now : ℚ) : Bucket :=
  { tokens := min limiter.capacity
      (bucket.tokens + (now - bucket.lastRefill) * limiter.rate)
    lastRefill := now }

/-- Step 2, second half. -/
def consume (bucket : Bucket) : Bucket × Bool :=
  if 1 ≤ bucket.tokens then ({ bucket with tokens := bucket.tokens - 1 }, true)
  else (bucket, false)

/-- The clock is read once for a new bucket and once for the refill. -/
def allow (limiter : RateLimiter) (hash : Bytes → Nat) (ip : Bytes) (created now : ℚ) :
    RateLimiter × Bool :=
  let bucket := limiter.findOrCreate (limiter.entry hash ip) created
  let charged := consume (limiter.refill bucket now)
  (limiter.store hash ip charged.1, charged.2)

/-- `duration_cast` to milliseconds rounds towards zero. -/
def milliseconds (elapsed : ℚ) : ℤ :=
  if 0 ≤ elapsed then ⌊elapsed * 1000⌋ else ⌈elapsed * 1000⌉

/-- `max_idle` is in whole seconds. -/
def stale (maxIdle : ℤ) (now : ℚ) (bucket : Bucket) : Bool :=
  decide (maxIdle * 1000 < milliseconds (now - bucket.lastRefill))

def sweepStale (limiter : RateLimiter) (maxIdle : ℤ) (now : ℚ) : RateLimiter :=
  { limiter with
    shards := fun shard ip => (limiter.shards shard ip).filter fun b => !stale maxIdle now b }

variable (limiter : RateLimiter) (hash : Bytes → Nat)

@[simp] theorem entry_store_self (ip : Bytes) (bucket : Bucket) :
    (limiter.store hash ip bucket).entry hash ip = some bucket := by
  simp [entry, store]

@[simp] theorem entry_store_of_ne {ip other : Bytes} (hne : other ≠ ip) (bucket : Bucket) :
    (limiter.store hash ip bucket).entry hash other = limiter.entry hash other := by
  by_cases hshard : shardFor hash other = shardFor hash ip
  · simp [entry, store, hshard, hne]
  · simp [entry, store, hshard]

@[simp] theorem entry_sweepStale (maxIdle : ℤ) (now : ℚ) (ip : Bytes) :
    (limiter.sweepStale maxIdle now).entry hash ip =
      (limiter.entry hash ip).filter fun b => !stale maxIdle now b := rfl

@[simp] theorem rate_store (ip : Bytes) (bucket : Bucket) :
    (limiter.store hash ip bucket).rate = limiter.rate := rfl

@[simp] theorem capacity_store (ip : Bytes) (bucket : Bucket) :
    (limiter.store hash ip bucket).capacity = limiter.capacity := rfl

/-- The sweep rounds an idle time down, so it never evicts early. -/
theorem idle_of_stale {maxIdle : ℤ} {now : ℚ} {bucket : Bucket}
    (hstale : stale maxIdle now bucket = true) :
    (maxIdle : ℚ) < now - bucket.lastRefill := by
  have hmillis := of_decide_eq_true hstale
  have hthousand : ((maxIdle * 1000 : ℤ) : ℚ) < (now - bucket.lastRefill) * 1000 := by
    unfold milliseconds at hmillis
    split at hmillis
    · calc ((maxIdle * 1000 : ℤ) : ℚ) < (⌊(now - bucket.lastRefill) * 1000⌋ : ℤ) := by
            exact_mod_cast hmillis
        _ ≤ (now - bucket.lastRefill) * 1000 := Int.floor_le _
    · exact Int.lt_ceil.mp hmillis
  push_cast at hthousand
  linarith

theorem consume_tokens (bucket : Bucket) :
    (consume bucket).1.tokens = bucket.tokens - ((consume bucket).2.toNat : ℚ) := by
  unfold consume
  split <;> simp

theorem consume_lastRefill (bucket : Bucket) :
    (consume bucket).1.lastRefill = bucket.lastRefill := by
  unfold consume
  split <;> rfl

theorem consume_granted_iff (bucket : Bucket) :
    (consume bucket).2 = true ↔ 1 ≤ bucket.tokens := by
  unfold consume
  split <;> simp_all

/-- The bucket that a call charges. -/
def refilled (limiter : RateLimiter) (hash : Bytes → Nat) (ip : Bytes) (created now : ℚ) :
    Bucket :=
  limiter.refill (limiter.findOrCreate (limiter.entry hash ip) created) now

theorem allow_eq (ip : Bytes) (created now : ℚ) :
    limiter.allow hash ip created now =
      (limiter.store hash ip (consume (limiter.refilled hash ip created now)).1,
        (consume (limiter.refilled hash ip created now)).2) := rfl

/-- The limiter after `n` calls for one address. -/
def afterCalls (hash : Bytes → Nat) (ip : Bytes) (created time : ℕ → ℚ) :
    ℕ → RateLimiter
  | 0 => limiter
  | n + 1 => ((afterCalls hash ip created time n).allow hash ip (created n) (time n)).1

/-- What call `n` returns. -/
def granted (hash : Bytes → Nat) (ip : Bytes) (created time : ℕ → ℚ) (n : ℕ) : Bool :=
  ((limiter.afterCalls hash ip created time n).allow hash ip (created n) (time n)).2

section Calls

variable (ip : Bytes) (created time : ℕ → ℚ)

theorem afterCalls_parameters (n : ℕ) :
    (limiter.afterCalls hash ip created time n).rate = limiter.rate ∧
      (limiter.afterCalls hash ip created time n).capacity = limiter.capacity := by
  induction n with
  | zero => exact ⟨rfl, rfl⟩
  | succ n ih => exact ih

/-- The code's running balance follows the token bucket law. -/
theorem balance_refilled (hrate : 0 ≤ limiter.rate) (hnew : limiter.entry hash ip = none)
    (hcreated : ∀ n, created n ≤ time n) :
    Balance limiter.rate limiter.capacity time (limiter.granted hash ip created time)
      (fun n => ((limiter.afterCalls hash ip created time n).refilled hash ip
        (created n) (time n)).tokens) where
  start := by
    have hflow : 0 ≤ (time 0 - created 0) * limiter.rate :=
      mul_nonneg (by linarith [hcreated 0]) hrate
    simp [refilled, refill, findOrCreate, afterCalls, hnew, hflow]
  next n := by
    obtain ⟨hsameRate, hsameCapacity⟩ :=
      limiter.afterCalls_parameters hash ip created time n
    simp only [afterCalls, allow_eq, granted]
    rw [refilled, entry_store_self]
    simp only [findOrCreate, refill, rate_store, capacity_store, consume_tokens,
      consume_lastRefill, hsameRate, hsameCapacity]
    rfl
  decides n := consume_granted_iff _

/-- Calls for one address are admitted exactly when every window that ends with
the call has room; no window admits more than its bound, and only admitted
calls count. -/
theorem allow_iff_windows (hrate : 0 ≤ limiter.rate) (hcapacity : 1 ≤ limiter.capacity)
    (hnew : limiter.entry hash ip = none) (htime : Monotone time)
    (hcreated : ∀ n, created n ≤ time n) :
    (∀ k, limiter.granted hash ip created time k = true ↔
      ∀ j < k, (admitted (limiter.granted hash ip created time) j k : ℚ) + 1 ≤
        limiter.capacity + limiter.rate * (time k - time j)) ∧
    (∀ j k, j ≤ k → (admitted (limiter.granted hash ip created time) j (k + 1) : ℚ) ≤
        limiter.capacity + limiter.rate * (time k - time j)) ∧
    (∀ k, limiter.granted hash ip created time k = true ↔
      ∀ j < k, limiter.granted hash ip created time j = true →
        (admitted (limiter.granted hash ip created time) j k : ℚ) + 1 ≤
          limiter.capacity + limiter.rate * (time k - time j)) := by
  have hbalance := limiter.balance_refilled hash ip created time hrate hnew hcreated
  refine ⟨?_, ?_, ?_⟩
  · exact hbalance.granted_iff hcapacity
  · exact fun j k hle => hbalance.admitted_le hcapacity hrate htime hle
  · exact hbalance.granted_iff_of_granted hcapacity hrate htime

end Calls

/-- One token a second, called every half second: the second call is refused. -/
theorem allow_iff_windows_halfSeconds :
    let limiter : RateLimiter := { rate := 1, capacity := 1 }
    let time : ℕ → ℚ := fun n => n / 2
    limiter.granted (fun _ => 0) [] time time 1 = false ∧
      limiter.granted (fun _ => 0) [] time time 2 = true ∧
      (admitted (limiter.granted (fun _ => 0) [] time time) 0 3 : ℚ) ≤ 2 := by
  intro limiter time
  have htime : Monotone time := by
    intro m n hle
    have hcast : (m : ℚ) ≤ n := by exact_mod_cast hle
    simp only [time]
    linarith
  obtain ⟨-, hwindow, -⟩ := limiter.allow_iff_windows (fun _ => 0) [] time time
    (by norm_num [limiter]) (by norm_num [limiter]) rfl htime (fun _ => le_refl _)
  refine ⟨by decide +kernel, by decide +kernel, (hwindow 0 2 (by norm_num)).trans ?_⟩
  norm_num [limiter, time]

end RateLimiter

end HttpServer
