/-
Each client's rate-limit decisions depend on its own calls alone.  Evicting an
idle bucket is harmless because the bucket would have refilled to capacity.
-/
import HttpServer.RateLimiter

namespace HttpServer

open RateLimiter

/-- What happens to the limiter, with the clock readings it takes. -/
inductive RateEvent
  | call (ip : Bytes) (created now : ℚ)
  | sweep (now : ℚ)

namespace RateEvent

def readings : RateEvent → List ℚ
  | call _ created now => [created, now]
  | sweep now => [now]

def isCallOf (ip : Bytes) : RateEvent → Bool
  | call caller _ _ => caller == ip
  | sweep _ => false

end RateEvent

open RateEvent

/-- The answers given, each with the address it was given to. -/
def serveEvents (hash : Bytes → Nat) (maxIdle : ℤ) :
    RateLimiter → List RateEvent → List (Bytes × Bool)
  | _, [] => []
  | limiter, call ip created now :: events =>
      (ip, (limiter.allow hash ip created now).2) ::
        serveEvents hash maxIdle (limiter.allow hash ip created now).1 events
  | limiter, sweep now :: events =>
      serveEvents hash maxIdle (limiter.sweepStale maxIdle now) events

def answersTo (ip : Bytes) (answers : List (Bytes × Bool)) : List Bool :=
  (answers.filter fun answer => answer.1 == ip).map Prod.snd

section Answers

variable (ip : Bytes)

@[simp] theorem answersTo_nil : answersTo ip [] = [] := rfl

@[simp] theorem answersTo_cons_self (granted : Bool) (answers : List (Bytes × Bool)) :
    answersTo ip ((ip, granted) :: answers) = granted :: answersTo ip answers := by
  simp [answersTo]

@[simp] theorem answersTo_cons_of_ne {other : Bytes} (hne : other ≠ ip) (granted : Bool)
    (answers : List (Bytes × Bool)) :
    answersTo ip ((other, granted) :: answers) = answersTo ip answers := by
  simp [answersTo, hne]

end Answers

/-- The bucket an address has in the shared limiter, beside the one it would
have alone: the same, or evicted when it would be full again by `clock`. -/
structure Covers (rate capacity clock : ℚ) (shared alone : Option Bucket) : Prop where
  nonneg : ∀ bucket ∈ alone, 0 ≤ bucket.tokens
  past : ∀ bucket ∈ alone, bucket.lastRefill ≤ clock
  same : shared = alone ∨ shared = none ∧
    ∀ bucket ∈ alone, capacity ≤ bucket.tokens + (clock - bucket.lastRefill) * rate

namespace Covers

variable {rate capacity clock now : ℚ} {shared alone : Option Bucket}

theorem later (hrate : 0 ≤ rate) (hclock : clock ≤ now)
    (hcovers : Covers rate capacity clock shared alone) :
    Covers rate capacity now shared alone where
  nonneg := hcovers.nonneg
  past bucket hbucket := (hcovers.past bucket hbucket).trans hclock
  same := by
    rcases hcovers.same with hsame | ⟨hnone, hfull⟩
    · exact .inl hsame
    · refine .inr ⟨hnone, fun bucket hbucket => (hfull bucket hbucket).trans ?_⟩
      have hflow := mul_le_mul_of_nonneg_right hclock hrate
      linarith

/-- A sweep evicts only what has been idle long enough to be full again. -/
theorem swept {maxIdle : ℤ} (hrate : 0 ≤ rate) (hidle : capacity ≤ rate * maxIdle)
    (hcovers : Covers rate capacity now shared alone) :
    Covers rate capacity now (shared.filter fun b => !stale maxIdle now b) alone where
  nonneg := hcovers.nonneg
  past := hcovers.past
  same := by
    rcases hcovers.same with rfl | ⟨rfl, hfull⟩
    · cases shared with
      | none => exact .inl rfl
      | some bucket =>
          cases hstale : stale maxIdle now bucket with
          | false => exact .inl (by simp [hstale])
          | true =>
              refine .inr ⟨by simp [hstale], fun b hb => ?_⟩
              obtain rfl := Option.some.inj hb
              have hempty := hcovers.nonneg _ rfl
              have hflow := mul_le_mul_of_nonneg_right (idle_of_stale hstale).le hrate
              linarith
    · exact .inr ⟨rfl, hfull⟩

variable {limiter solo : RateLimiter}

/-- A call finds the same balance in both. -/
theorem refilled_eq {created : ℚ} (hrate : 0 ≤ limiter.rate)
    (hcreated : clock ≤ created) (hnow : created ≤ now)
    (hcovers : Covers limiter.rate limiter.capacity clock shared alone) :
    limiter.refill (limiter.findOrCreate shared created) now =
      limiter.refill (limiter.findOrCreate alone created) now := by
  rcases hcovers.same with rfl | ⟨rfl, hfull⟩
  · rfl
  · cases alone with
    | none => rfl
    | some bucket =>
        have hflow := mul_le_mul_of_nonneg_right (hcreated.trans hnow) hrate
        have hnew : limiter.capacity ≤
            limiter.capacity + (now - created) * limiter.rate := by
          have hpos := mul_nonneg (sub_nonneg.mpr hnow) hrate
          linarith
        have hold : limiter.capacity ≤
            bucket.tokens + (now - bucket.lastRefill) * limiter.rate := by
          have hclock := hfull bucket rfl
          linarith
        simp only [refill, findOrCreate, min_eq_left hnew, min_eq_left hold]

/-- A charged bucket covers itself. -/
theorem charged {created : ℚ} (hrate : 0 ≤ limiter.rate) (hcapacity : 1 ≤ limiter.capacity)
    (hcreated : clock ≤ created) (hnow : created ≤ now)
    (hcovers : Covers limiter.rate limiter.capacity clock shared alone) :
    Covers limiter.rate limiter.capacity now
      (some (consume (limiter.refill (limiter.findOrCreate alone created) now)).1)
      (some (consume (limiter.refill (limiter.findOrCreate alone created) now)).1) := by
  have hfound : 0 ≤ (limiter.findOrCreate alone created).tokens ∧
      (limiter.findOrCreate alone created).lastRefill ≤ now := by
    cases alone with
    | none => exact ⟨by simp only [findOrCreate]; linarith, hnow⟩
    | some bucket =>
        exact ⟨hcovers.nonneg bucket rfl,
          (hcovers.past bucket rfl).trans (hcreated.trans hnow)⟩
  have hflow := mul_nonneg (sub_nonneg.mpr hfound.2) hrate
  have hrefilled : 0 ≤ (limiter.refill (limiter.findOrCreate alone created) now).tokens :=
    le_min (by linarith) (by linarith [hfound.1])
  refine ⟨?_, ?_, .inl rfl⟩
  · rintro bucket ⟨⟩
    unfold consume
    split
    · next hone => simpa using hone
    · exact hrefilled
  · rintro bucket ⟨⟩
    rw [consume_lastRefill]
    exact le_refl now

end Covers

section Isolation

variable (hash : Bytes → Nat) (maxIdle : ℤ) (ip : Bytes)

/-- The shared limiter beside the one that serves a single address. -/
structure Shadows (clock : ℚ) (shared solo : RateLimiter) : Prop where
  rate : solo.rate = shared.rate
  capacity : solo.capacity = shared.capacity
  covers : Covers shared.rate shared.capacity clock (shared.entry hash ip)
    (solo.entry hash ip)

variable {hash maxIdle ip}

namespace Shadows

variable {clock created now : ℚ} {shared solo : RateLimiter}

theorem swept (hrate : 0 ≤ shared.rate) (hidle : shared.capacity ≤ shared.rate * maxIdle)
    (hnow : clock ≤ now) (hshadows : Shadows hash ip clock shared solo) :
    Shadows hash ip now (shared.sweepStale maxIdle now) solo where
  rate := hshadows.rate
  capacity := hshadows.capacity
  covers := (hshadows.covers.later hrate hnow).swept hrate hidle

theorem allowed_other {caller : Bytes} (hcaller : caller ≠ ip) (hrate : 0 ≤ shared.rate)
    (hnow : clock ≤ now) (hshadows : Shadows hash ip clock shared solo) :
    Shadows hash ip now (shared.allow hash caller created now).1 solo where
  rate := hshadows.rate
  capacity := hshadows.capacity
  covers := by
    rw [allow_eq, entry_store_of_ne _ _ (Ne.symm hcaller)]
    exact hshadows.covers.later hrate hnow

theorem refill_entry (hshadows : Shadows hash ip clock shared solo) :
    shared.refill (shared.findOrCreate (solo.entry hash ip) created) now =
      solo.refilled hash ip created now := by
  simp only [refilled, refill, findOrCreate, hshadows.rate, hshadows.capacity]

/-- Both limiters charge the same bucket. -/
theorem refilled_eq (hrate : 0 ≤ shared.rate) (hcreated : clock ≤ created)
    (hnow : created ≤ now) (hshadows : Shadows hash ip clock shared solo) :
    shared.refilled hash ip created now = solo.refilled hash ip created now := by
  rw [refilled, hshadows.covers.refilled_eq hrate hcreated hnow, hshadows.refill_entry]

theorem allowed_self (hrate : 0 ≤ shared.rate) (hcapacity : 1 ≤ shared.capacity)
    (hcreated : clock ≤ created) (hnow : created ≤ now)
    (hshadows : Shadows hash ip clock shared solo) :
    Shadows hash ip now (shared.allow hash ip created now).1
      (solo.allow hash ip created now).1 where
  rate := hshadows.rate
  capacity := hshadows.capacity
  covers := by
    have hcharged := hshadows.covers.charged hrate hcapacity hcreated hnow
    rw [hshadows.refill_entry] at hcharged
    rw [allow_eq, allow_eq, entry_store_self, entry_store_self,
      hshadows.refilled_eq hrate hcreated hnow]
    exact hcharged

end Shadows

/-- From limiters that shadow each other, the answers to `ip` are the same. -/
theorem answers_eq_of_shadows {events : List RateEvent} :
    ∀ {clock : ℚ} {shared solo : RateLimiter}, Shadows hash ip clock shared solo →
      0 ≤ shared.rate → 1 ≤ shared.capacity → shared.capacity ≤ shared.rate * maxIdle →
      (clock :: events.flatMap readings).Pairwise (· ≤ ·) →
        answersTo ip (serveEvents hash maxIdle shared events) =
          answersTo ip (serveEvents hash maxIdle solo (events.filter (isCallOf ip))) := by
  induction events with
  | nil => intros; rfl
  | cons event events ih =>
      intro clock shared solo hshadows hrate hcapacity hidle hsorted
      cases event with
      | sweep now =>
          simp only [List.flatMap_cons, readings, List.singleton_append] at hsorted
          obtain ⟨hclock, hrest⟩ := List.pairwise_cons.mp hsorted
          have hnow : clock ≤ now := hclock now List.mem_cons_self
          exact ih (hshadows.swept hrate hidle hnow) hrate hcapacity hidle hrest
      | call caller created now =>
          simp only [List.flatMap_cons, readings, List.cons_append,
            List.nil_append] at hsorted
          obtain ⟨hclock, hlater⟩ := List.pairwise_cons.mp hsorted
          obtain ⟨hfirst, hrest⟩ := List.pairwise_cons.mp hlater
          have hcreated : clock ≤ created := hclock created List.mem_cons_self
          have hnow : created ≤ now := hfirst now List.mem_cons_self
          by_cases hcaller : caller = ip
          · subst hcaller
            have hnext := hshadows.allowed_self hrate hcapacity hcreated hnow
            have hself : isCallOf caller (call caller created now) = true := by
              simp [isCallOf]
            rw [List.filter_cons_of_pos hself, serveEvents, serveEvents,
              answersTo_cons_self, answersTo_cons_self,
              ih hnext hrate hcapacity hidle hrest]
            rw [allow_eq, allow_eq, hshadows.refilled_eq hrate hcreated hnow]
          · have hnext : Shadows hash ip now (shared.allow hash caller created now).1 solo :=
              hshadows.allowed_other hcaller hrate (hcreated.trans hnow)
            have hother : ¬ isCallOf ip (call caller created now) = true := by
              simpa [isCallOf] using hcaller
            rw [List.filter_cons_of_neg hother, serveEvents,
              answersTo_cons_of_ne ip hcaller]
            exact ih hnext hrate hcapacity hidle hrest

/-- Below one token nothing is ever admitted. -/
theorem allow_refused {limiter : RateLimiter} (hcapacity : limiter.capacity < 1)
    (created now : ℚ) : (limiter.allow hash ip created now).2 = false := by
  have hless : (limiter.refilled hash ip created now).tokens < 1 :=
    (min_le_left _ _).trans_lt hcapacity
  rw [allow_eq, ← Bool.not_eq_true, consume_granted_iff]
  exact not_le.mpr hless

theorem answers_refused {events : List RateEvent} :
    ∀ {limiter : RateLimiter}, limiter.capacity < 1 →
      answersTo ip (serveEvents hash maxIdle limiter events) =
        (events.filter (isCallOf ip)).map fun _ => false := by
  induction events with
  | nil => intros; rfl
  | cons event events ih =>
      intro limiter hcapacity
      cases event with
      | sweep now => exact ih hcapacity
      | call caller created now =>
          have hnext : (limiter.allow hash caller created now).1.capacity < 1 := hcapacity
          rw [serveEvents, allow_refused hcapacity]
          by_cases hcaller : caller = ip
          · subst hcaller
            rw [answersTo_cons_self, ih hnext]
            simp [isCallOf]
          · rw [answersTo_cons_of_ne ip hcaller, ih hnext]
            simp [isCallOf, hcaller]

/-- With a refill of at least the capacity during `maxIdle`, sweeps and other
clients never change what an address is answered. -/
theorem answers_isolated (hash : Bytes → Nat) (rate capacity : ℚ) (maxIdle : ℤ)
    (hidle : capacity ≤ rate * maxIdle) (hforward : 0 ≤ rate ∨ 0 ≤ maxIdle)
    (events : List RateEvent) (hsorted : (events.flatMap readings).Pairwise (· ≤ ·))
    (ip : Bytes) :
    answersTo ip (serveEvents hash maxIdle { rate := rate, capacity := capacity } events) =
      answersTo ip (serveEvents hash maxIdle { rate := rate, capacity := capacity }
        (events.filter (isCallOf ip))) := by
  by_cases hcapacity : capacity < 1
  · rw [answers_refused hcapacity, answers_refused hcapacity]
    simp
  · have hone : 1 ≤ capacity := not_lt.mp hcapacity
    have hproduct : 0 < rate * maxIdle := by linarith
    have hrate : 0 ≤ rate := by
      rcases hforward with hrate | hmax
      · exact hrate
      · have hpos : (0 : ℚ) ≤ maxIdle := by exact_mod_cast hmax
        exact (pos_of_mul_pos_left hproduct hpos).le
    have hstart : ∃ clock, (clock :: events.flatMap readings).Pairwise (· ≤ ·) := by
      cases hreadings : events.flatMap readings with
      | nil => exact ⟨0, List.pairwise_singleton _ _⟩
      | cons first rest =>
          rw [hreadings] at hsorted
          refine ⟨first, List.pairwise_cons.mpr ⟨?_, hsorted⟩⟩
          intro reading hreading
          rcases List.mem_cons.mp hreading with rfl | hrest
          · exact le_refl _
          · exact (List.pairwise_cons.mp hsorted).1 reading hrest
    obtain ⟨clock, hclock⟩ := hstart
    exact answers_eq_of_shadows
      ⟨rfl, rfl, by simp [entry], by simp [entry], .inl rfl⟩ hrate hone hidle hclock

/-- A sweep evicts the bucket of one address between calls of another. -/
theorem answers_isolated_swept :
    answersTo [1] (serveEvents (fun _ => 3) 300 { rate := 10, capacity := 20 }
        [call [1] 0 0, call [2] 200 200, sweep 301, call [1] 302 302]) =
      answersTo [1] (serveEvents (fun _ => 3) 300 { rate := 10, capacity := 20 }
        [call [1] 0 0, call [1] 302 302]) :=
  answers_isolated (fun _ => 3) 10 20 300 (by norm_num) (.inl (by norm_num))
    [call [1] 0 0, call [2] 200 200, sweep 301, call [1] 302 302]
    (by norm_num [readings]) [1]

/-- A negative rate with a negative idle time passes the refill condition, and
then a bucket is evicted while it is empty. -/
theorem answers_not_isolated_backwards :
    ¬ ∀ (hash : Bytes → Nat) (rate capacity : ℚ) (maxIdle : ℤ),
      capacity ≤ rate * maxIdle → ∀ events : List RateEvent,
        (events.flatMap readings).Pairwise (· ≤ ·) → ∀ ip : Bytes,
          answersTo ip (serveEvents hash maxIdle { rate := rate, capacity := capacity }
              events) =
            answersTo ip (serveEvents hash maxIdle { rate := rate, capacity := capacity }
              (events.filter (isCallOf ip))) := by
  intro hisolated
  have hsame := hisolated (fun _ => 0) (-1) 1 (-1) (by norm_num)
    [call [] 0 0, sweep 0, call [] 0 0] (by simp [readings]) []
  revert hsame
  decide +kernel

end Isolation

end HttpServer
