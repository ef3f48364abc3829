/-
The rate limiter is linearizable.  A call takes effect in its second locked
section: whatever other calls and sweeps do between its two sections, the
answers are those of one atomic limiter that is never swept.
-/
import HttpServer.BucketLifetime
import HttpServer.Linearization

namespace HttpServer

open GuardedRun Linearization RateLimiter

/-- The bucket in the map beside the one of the atomic limiter: the same, or missing
or just created where the other would be full again by `clock`. -/
structure Tracks (rate capacity clock : ℚ) (shared alone : Option Bucket) : Prop where
  nonneg : ∀ bucket ∈ alone, 0 ≤ bucket.tokens
  past : ∀ bucket ∈ alone, bucket.lastRefill ≤ clock
  same : shared = alone ∨
    (∀ bucket ∈ shared, bucket.tokens = capacity ∧ bucket.lastRefill ≤ clock) ∧
      ∀ bucket ∈ alone, capacity ≤ bucket.tokens + (clock - bucket.lastRefill) * rate

namespace Tracks

variable {rate capacity clock now : ℚ} {shared alone : Option Bucket}

theorem start : Tracks rate capacity clock none none where
  nonneg := by simp
  past := by simp
  same := Or.inl rfl

theorem later (hrate : 0 ≤ rate) (hclock : clock ≤ now)
    (htracks : Tracks rate capacity clock shared alone) :
    Tracks rate capacity now shared alone where
  nonneg := htracks.nonneg
  past bucket hbucket := (htracks.past bucket hbucket).trans hclock
  same := by
    rcases htracks.same with hsame | ⟨hrenewed, hfull⟩
    · exact Or.inl hsame
    · right
      constructor
      · exact fun bucket hbucket =>
          ⟨(hrenewed bucket hbucket).1, (hrenewed bucket hbucket).2.trans hclock⟩
      · intro bucket hbucket
        have hflow := mul_le_mul_of_nonneg_right hclock hrate
        have hearlier := hfull bucket hbucket
        linarith

/-- A bucket that is created where none was found starts full. -/
theorem created (htracks : Tracks rate capacity clock none alone) :
    Tracks rate capacity clock (some ⟨capacity, clock⟩) alone where
  nonneg := htracks.nonneg
  past := htracks.past
  same := by
    have hnew : ∀ bucket ∈ some (Bucket.mk capacity clock),
        bucket.tokens = capacity ∧ bucket.lastRefill ≤ clock := by
      rintro bucket ⟨⟩
      exact ⟨rfl, le_refl clock⟩
    rcases htracks.same with rfl | ⟨_, hfull⟩
    · exact Or.inr ⟨hnew, by simp⟩
    · exact Or.inr ⟨hnew, hfull⟩

/-- An evicted bucket would have been full at the sweep's reading of the clock. -/
theorem evicted {read : ℚ} {bucket : Bucket} (hrate : 0 ≤ rate)
    (hidle : capacity ≤ bucket.tokens + (read - bucket.lastRefill) * rate) (hread : read ≤ clock)
    (htracks : Tracks rate capacity clock (some bucket) alone) :
    Tracks rate capacity clock none alone where
  nonneg := htracks.nonneg
  past := htracks.past
  same := by
    rcases htracks.same with rfl | ⟨_, hfull⟩
    · refine Or.inr ⟨by simp, fun other hother => ?_⟩
      obtain rfl := Option.some.inj hother
      have hlong : read - bucket.lastRefill ≤ clock - bucket.lastRefill := by linarith
      have hflow := mul_le_mul_of_nonneg_right hlong hrate
      linarith
    · exact Or.inr ⟨by simp, hfull⟩

variable {limiter : RateLimiter}

/-- Both limiters refill to the same balance. -/
theorem refill_eq {bucket : Bucket} (hrate : 0 ≤ limiter.rate)
    (htracks : Tracks limiter.rate limiter.capacity clock (some bucket) alone) :
    limiter.refill bucket clock = limiter.refill (limiter.findOrCreate alone clock) clock := by
  rcases htracks.same with rfl | ⟨hrenewed, hfull⟩
  · rfl
  · obtain ⟨htokens, hpast⟩ := hrenewed bucket rfl
    have hflow := mul_nonneg (sub_nonneg.mpr hpast) hrate
    have hnew : limiter.capacity ≤
        bucket.tokens + (clock - bucket.lastRefill) * limiter.rate := by
      linarith
    cases alone with
    | none =>
        simp only [refill, findOrCreate, min_eq_left hnew, sub_self, zero_mul, add_zero, min_self]
    | some other =>
        simp only [refill, findOrCreate, min_eq_left hnew, min_eq_left (hfull other rfl)]

/-- A charged bucket is the same in both. -/
theorem charged (hrate : 0 ≤ limiter.rate) (hcapacity : 0 ≤ limiter.capacity)
    (htracks : Tracks limiter.rate limiter.capacity clock shared alone) :
    Tracks limiter.rate limiter.capacity clock
      (some (consume (limiter.refill (limiter.findOrCreate alone clock) clock)).1)
      (some (consume (limiter.refill (limiter.findOrCreate alone clock) clock)).1) := by
  have hfound : 0 ≤ (limiter.findOrCreate alone clock).tokens ∧
      (limiter.findOrCreate alone clock).lastRefill ≤ clock := by
    cases alone with
    | none => exact ⟨hcapacity, le_refl clock⟩
    | some bucket => exact ⟨htracks.nonneg bucket rfl, htracks.past bucket rfl⟩
  have hflow := mul_nonneg (sub_nonneg.mpr hfound.2) hrate
  have hrefilled : 0 ≤ (limiter.refill (limiter.findOrCreate alone clock) clock).tokens :=
    le_min hcapacity (by linarith [hfound.1])
  refine ⟨?_, ?_, Or.inl rfl⟩
  · rintro bucket ⟨⟩
    unfold consume
    split
    · next hone => simpa using hone
    · exact hrefilled
  · rintro bucket ⟨⟩
    rw [consume_lastRefill]
    exact le_refl clock

end Tracks

namespace LimiterState

/-- The bucket that the map holds for an address. -/
def bucketOf (state : LimiterState) (ip : Bytes) : Option Bucket :=
  (state.stored.find? fun entry => entry.1 == ip).map fun entry => state.heap entry.2

/-- One entry for each address, one bucket for each entry. -/
structure Keyed (state : LimiterState) : Prop where
  distinct : ∀ first ∈ state.stored, ∀ second ∈ state.stored,
    first.1 = second.1 ∨ first.2 = second.2 → first = second
  allocated : ∀ entry ∈ state.stored, entry.2 < state.nextBucket

theorem bucketOf_of_mem {state : LimiterState} (hkeyed : Keyed state) {entry : BucketEntry}
    (hstored : entry ∈ state.stored) :
    state.bucketOf entry.1 = some (state.heap entry.2) := by
  cases hfind : state.stored.find? fun other => other.1 == entry.1 with
  | none =>
      have hmissing := List.find?_eq_none.mp hfind entry hstored
      simp at hmissing
  | some found =>
      have hname : found.1 = entry.1 := by simpa using List.find?_some hfind
      have hsame := hkeyed.distinct found (List.mem_of_find?_eq_some hfind) entry hstored
        (Or.inl hname)
      rw [bucketOf, hfind, hsame]
      rfl

theorem bucketOf_congr {state next : LimiterState} {ip : Bytes}
    (hfind : (next.stored.find? fun entry => entry.1 == ip) =
      state.stored.find? fun entry => entry.1 == ip)
    (hheap : ∀ entry ∈ state.stored, entry.1 = ip → next.heap entry.2 = state.heap entry.2) :
    next.bucketOf ip = state.bucketOf ip := by
  rw [bucketOf, bucketOf, hfind]
  cases hfound : state.stored.find? fun entry => entry.1 == ip with
  | none => rfl
  | some entry =>
      have hname : entry.1 = ip := by simpa using List.find?_some hfound
      rw [Option.map_some, Option.map_some, hheap entry (List.mem_of_find?_eq_some hfound) hname]

/-- Charging a bucket leaves the other addresses alone. -/
theorem bucketOf_charged {state next : LimiterState} (hkeyed : Keyed state)
    {entry : BucketEntry} (hstored : entry ∈ state.stored) (bucket : Bucket)
    (hsame : next.stored = state.stored)
    (hheap : next.heap = Function.update state.heap entry.2 bucket) (ip : Bytes) :
    next.bucketOf ip = if ip = entry.1 then some bucket else state.bucketOf ip := by
  split
  · next hself =>
      have hnext : Keyed { next with nextBucket := state.nextBucket } :=
        ⟨by rw [hsame]; exact hkeyed.distinct, by rw [hsame]; exact hkeyed.allocated⟩
      have hfound := @bucketOf_of_mem _ hnext entry (by rw [hsame]; exact hstored)
      rw [hself]
      refine hfound.trans ?_
      rw [hheap, Function.update_self]
  · next hself =>
      apply bucketOf_congr
      · rw [hsame]
      · intro other hother hname
        rw [hheap]
        apply Function.update_of_ne
        intro hbucket
        have heq := hkeyed.distinct other hother entry hstored (Or.inr hbucket)
        exact hself (by rw [← hname, heq])

/-- Evicting an entry leaves the other addresses alone. -/
theorem bucketOf_evicted {state : LimiterState} (hkeyed : Keyed state) {entry : BucketEntry}
    (hstored : entry ∈ state.stored) (ip : Bytes) :
    ((state.stored.filter fun other => other ≠ entry).find? fun other => other.1 == ip).map
        (fun other => state.heap other.2) =
      if ip = entry.1 then none else state.bucketOf ip := by
  rw [List.find?_filter]
  split
  · next hself =>
      rw [Option.map_eq_none_iff, List.find?_eq_none]
      rintro other hother hmatch
      obtain ⟨hne, hname⟩ : other ≠ entry ∧ other.1 = ip := by simpa using hmatch
      exact hne (hkeyed.distinct other hother entry hstored (Or.inl (hname.trans hself)))
  · next hself =>
      rw [bucketOf]
      congr 2
      funext other
      by_cases hname : other.1 = ip
      · have hne : other ≠ entry := fun heq => hself (by rw [← hname, heq])
        simp [hname, hne]
      · simp [hname]

/-- The limiter with its locks beside the atomic one. -/
structure Linear (limiter : RateLimiter) (hash : Bytes → Nat) (state : LimiterState)
    (atomic : RateLimiter) : Prop where
  rate : atomic.rate = limiter.rate
  capacity : atomic.capacity = limiter.capacity
  keyed : Keyed state
  calls : ∀ call ∈ state.calls, call ∈ state.stored
  sweeps : ∀ sweep ∈ state.sweeps, sweep.now ≤ state.clock
  buckets : ∀ ip, Tracks limiter.rate limiter.capacity state.clock (state.bucketOf ip)
    (atomic.entry hash ip)

/-- No sweep evicts a bucket that a call still points to, or one that has not had the
time to fill up again. -/
def sparesCalls (limiter : RateLimiter) (state : LimiterState) : LimiterAction → Prop
  | .advance sweep _ =>
      match sweep.phase with
      | .locked entry _ =>
          stale sweep.maxIdle sweep.now (state.heap entry.2) = true →
            entry ∉ state.calls ∧ limiter.capacity ≤ (state.heap entry.2).tokens +
              (sweep.now - (state.heap entry.2).lastRefill) * limiter.rate
      | _ => True
  | _ => True

instance decidableSparesCalls (limiter : RateLimiter) (state : LimiterState) :
    ∀ action, Decidable (sparesCalls limiter state action)
  | .advance ⟨_, _, _, .locked _ _⟩ _ => inferInstanceAs (Decidable (_ → _ ∧ _))
  | .advance ⟨_, _, _, .outside⟩ _ | .advance ⟨_, _, _, .iterating _⟩ _
  | .advance ⟨_, _, _, .examined _ _⟩ _ | .findOrCreate _ _ | .refillAndConsume _ _
  | .startSweep _ _ => isTrue trivial

/-- The call that takes effect in a step. -/
def charges (_ : LimiterState) : LimiterAction → Option (Bytes × ℚ)
  | .refillAndConsume call now => some (call.1, now)
  | _ => none

/-- What a call returns in the step in which it takes effect. -/
def answered (limiter : RateLimiter) (state : LimiterState) : LimiterAction → List Bool
  | .refillAndConsume call now => [(consume (limiter.refill (state.heap call.2) now)).2]
  | _ => []

/-- `allow` in one step. -/
def atomicAllow (hash : Bytes → Nat) (atomic : RateLimiter) (request : Bytes × ℚ) :
    RateLimiter × Bool :=
  atomic.allow hash request.1 request.2 request.2

section Steps

variable {limiter atomic : RateLimiter} {hash : Bytes → Nat} {state next : LimiterState}

theorem Linear.start (rate capacity clock : ℚ) :
    Linear { rate, capacity } hash { clock } { rate, capacity } where
  rate := rfl
  capacity := rfl
  keyed := ⟨by simp, by simp⟩
  calls := by simp
  sweeps := by simp
  buckets := fun _ => Tracks.start

theorem linear_findOrCreate (hrate : 0 ≤ limiter.rate)
    (hlinear : Linear limiter hash state atomic) {ip : Bytes} {now : ℚ}
    (hstep : state.findOrCreate limiter hash ip now = some next) :
    Linear limiter hash next atomic := by
  simp only [findOrCreate, Option.ite_none_right_eq_some] at hstep
  obtain ⟨⟨hclock, _⟩, heq⟩ := hstep
  have hsweeps : ∀ sweep ∈ state.sweeps, sweep.now ≤ now :=
    fun sweep hsweep => (hlinear.sweeps sweep hsweep).trans hclock
  split at heq
  · next entry hfound =>
      obtain rfl := Option.some.inj heq
      refine ⟨hlinear.rate, hlinear.capacity, ⟨hlinear.keyed.distinct, hlinear.keyed.allocated⟩,
        ?_, hsweeps, fun other => (hlinear.buckets other).later hrate hclock⟩
      exact List.forall_mem_cons.mpr ⟨List.mem_of_find?_eq_some hfound, hlinear.calls⟩
  · next hmissing =>
      obtain rfl := Option.some.inj heq
      have hnew : ∀ entry ∈ state.stored, entry.1 ≠ ip ∧ entry.2 ≠ state.nextBucket := by
        intro entry hentry
        have hname := List.find?_eq_none.mp hmissing entry hentry
        exact ⟨by simpa using hname, Nat.ne_of_lt (hlinear.keyed.allocated entry hentry)⟩
      refine ⟨hlinear.rate, hlinear.capacity, ⟨?_, ?_⟩, ?_, hsweeps, ?_⟩
      · intro first hfirst second hsecond hsame
        rcases List.mem_cons.mp hfirst with rfl | hfirst
        · rcases List.mem_cons.mp hsecond with rfl | hsecond
          · rfl
          · rcases hsame with hname | hbucket
            · exact absurd hname.symm (hnew second hsecond).1
            · exact absurd hbucket.symm (hnew second hsecond).2
        · rcases List.mem_cons.mp hsecond with rfl | hsecond
          · rcases hsame with hname | hbucket
            · exact absurd hname (hnew first hfirst).1
            · exact absurd hbucket (hnew first hfirst).2
          · exact hlinear.keyed.distinct first hfirst second hsecond hsame
      · intro entry hentry
        rcases List.mem_cons.mp hentry with rfl | hold
        · exact Nat.lt_succ_self _
        · exact Nat.lt_succ_of_lt (hlinear.keyed.allocated entry hold)
      · intro call hcall
        rcases List.mem_cons.mp hcall with rfl | hold
        · exact List.mem_cons_self
        · exact List.mem_cons_of_mem _ (hlinear.calls call hold)
      · intro other
        have hlater := (hlinear.buckets other).later hrate hclock
        by_cases hself : other = ip
        · subst hself
          have hnone : state.bucketOf other = none := by rw [bucketOf, hmissing]; rfl
          rw [hnone] at hlater
          simpa [bucketOf, RateLimiter.findOrCreate] using hlater.created
        · rw [@bucketOf_congr state]
          · exact hlater
          · exact List.find?_cons_of_neg (by simpa using Ne.symm hself)
          · exact fun entry hentry _ => Function.update_of_ne (hnew entry hentry).2 _ _

theorem linear_refillAndConsume (hrate : 0 ≤ limiter.rate) (hcapacity : 0 ≤ limiter.capacity)
    (hlinear : Linear limiter hash state atomic) {call : BucketEntry} {now : ℚ}
    (hstep : state.refillAndConsume limiter call now = some next) :
    answered limiter state (.refillAndConsume call now) =
        [(atomicAllow hash atomic (call.1, now)).2] ∧
      Linear limiter hash next (atomicAllow hash atomic (call.1, now)).1 := by
  simp only [refillAndConsume, Option.ite_none_right_eq_some] at hstep
  obtain ⟨⟨hcall, hclock, _⟩, heq⟩ := hstep
  obtain rfl := Option.some.inj heq
  have hstored := hlinear.calls call hcall
  have htracks := (hlinear.buckets call.1).later hrate hclock
  have hcharged := htracks.charged hrate hcapacity
  rw [bucketOf_of_mem hlinear.keyed hstored] at htracks
  have hrefill : atomic.refilled hash call.1 now now =
      limiter.refill (limiter.findOrCreate (atomic.entry hash call.1) now) now := by
    simp only [refilled, refill, RateLimiter.findOrCreate, hlinear.rate, hlinear.capacity]
  rw [← hrefill] at hcharged
  have hsame : limiter.refill (state.heap call.2) now = atomic.refilled hash call.1 now now :=
    (htracks.refill_eq hrate).trans hrefill.symm
  constructor
  · simp only [answered, atomicAllow, allow_eq, hsame]
  · have hsweeps : ∀ sweep ∈ state.sweeps, sweep.now ≤ now :=
      fun sweep hsweep => (hlinear.sweeps sweep hsweep).trans hclock
    have hkeyed := hlinear.keyed
    simp only [atomicAllow, allow_eq, hsame]
    refine ⟨hlinear.rate, hlinear.capacity, ⟨hkeyed.distinct, hkeyed.allocated⟩, ?_, hsweeps, ?_⟩
    · exact fun other hother => hlinear.calls other (List.mem_of_mem_erase hother)
    · intro other
      rw [bucketOf_charged hkeyed hstored (consume (atomic.refilled hash call.1 now now)).1]
      · by_cases hself : other = call.1
        · rw [if_pos hself, hself, entry_store_self]
          exact hcharged
        · rw [if_neg hself, entry_store_of_ne _ _ hself]
          exact (hlinear.buckets other).later hrate hclock
      · rfl
      · rfl

/-- A sweep keeps the clock reading it began with. -/
theorem now_of_advances {sweep : Sweep} (hmem : sweep ∈ state.sweeps)
    (hadvances : Advances state sweep next) :
    ∀ other ∈ next.sweeps, ∃ old ∈ state.sweeps, old.now = other.now := by
  have herase : ∀ other ∈ state.sweeps.erase sweep, ∃ old ∈ state.sweeps, old.now = other.now :=
    fun other hother => ⟨other, List.mem_of_mem_erase hother, rfl⟩
  intro other hother
  cases hadvances
  case finished => exact herase other hother
  all_goals
    rcases List.mem_cons.mp hother with rfl | hold
    · exact ⟨sweep, hmem, rfl⟩
    · exact herase other hold

theorem linear_advance (hrate : 0 ≤ limiter.rate)
    (hlinear : Linear limiter hash state atomic) {sweep : Sweep} {order : List BucketEntry}
    (hguard : sparesCalls limiter state (.advance sweep order))
    (hstep : state.advance hash sweep order = some next) : Linear limiter hash next atomic := by
  obtain ⟨hmem, hadvances⟩ := advances_of_advance hstep
  have hnow := now_of_advances hmem hadvances
  obtain ⟨hsameRate, hsameCapacity, hkeyed, hcalls, hsweeps, hbuckets⟩ := hlinear
  have hread : ∀ other ∈ next.sweeps, other.now ≤ state.clock := by
    intro other hother
    obtain ⟨old, hold, hsame⟩ := hnow other hother
    exact hsame ▸ hsweeps old hold
  cases hadvances with
  | evicted entry remaining hphase hstale =>
      simp only [sparesCalls, hphase] at hguard
      obtain ⟨hfree, hidle⟩ := hguard hstale
      have hkept : ∀ other ∈ state.stored.filter fun other => other ≠ entry,
          other ∈ state.stored := fun other hother => (List.mem_filter.mp hother).1
      refine ⟨hsameRate, hsameCapacity, ⟨?_, ?_⟩, ?_, hread, ?_⟩
      · exact fun first hfirst second hsecond =>
          hkeyed.distinct first (hkept first hfirst) second (hkept second hsecond)
      · exact fun other hother => hkeyed.allocated other (hkept other hother)
      · intro call hcall
        have hne : call ≠ entry := fun heq => hfree (heq ▸ hcall)
        exact List.mem_filter.mpr ⟨hcalls call hcall, by simpa using hne⟩
      · intro ip
        change Tracks _ _ state.clock (Option.map (fun other => state.heap other.2)
          ((state.stored.filter fun other => other ≠ entry).find? fun other => other.1 == ip)) _
        by_cases hstored : entry ∈ state.stored
        · rw [bucketOf_evicted hkeyed hstored]
          split
          · next hself =>
              have htracks := hbuckets ip
              rw [hself, bucketOf_of_mem hkeyed hstored] at htracks
              rw [hself]
              exact htracks.evicted hrate hidle (hsweeps sweep hmem)
          · exact hbuckets ip
        · have hsame : (state.stored.filter fun other => other ≠ entry) = state.stored := by
            apply List.filter_eq_self.mpr
            intro other hother
            have hne : other ≠ entry := fun heq => hstored (heq ▸ hother)
            simpa using hne
          rw [hsame]
          exact hbuckets ip
  | _ => exact ⟨hsameRate, hsameCapacity, ⟨hkeyed.distinct, hkeyed.allocated⟩, hcalls, hread,
      hbuckets⟩

theorem linear_step (hrate : 0 ≤ limiter.rate) (hcapacity : 0 ≤ limiter.capacity)
    {action : LimiterAction} (hlinear : Linear limiter hash state atomic)
    (hguard : sparesCalls limiter state action)
    (hstep : state.step limiter hash action = some next) :
    Serves (atomicAllow hash) (Linear limiter hash) (charges state action)
      (answered limiter state action) next atomic := by
  cases action with
  | findOrCreate ip now =>
      have hnext := linear_findOrCreate hrate hlinear hstep
      exact ⟨fun _ => ⟨rfl, hnext⟩, fun _ hsome => absurd hsome (by simp [charges])⟩
  | refillAndConsume call now =>
      refine ⟨fun hnone => absurd hnone (by simp [charges]), ?_⟩
      intro input hinput
      obtain rfl := Option.some.inj hinput
      exact linear_refillAndConsume hrate hcapacity hlinear hstep
  | startSweep maxIdle now =>
      simp only [step, startSweep, Option.ite_none_right_eq_some] at hstep
      obtain ⟨hclock, heq⟩ := hstep
      obtain rfl := Option.some.inj heq
      refine ⟨fun _ => ⟨rfl, ?_⟩, fun _ hsome => absurd hsome (by simp [charges])⟩
      obtain ⟨hsameRate, hsameCapacity, hkeyed, hcalls, hsweeps, hbuckets⟩ := hlinear
      refine ⟨hsameRate, hsameCapacity, ⟨hkeyed.distinct, hkeyed.allocated⟩, hcalls, ?_,
        fun ip => (hbuckets ip).later hrate hclock⟩
      intro sweep hsweep
      rcases List.mem_cons.mp hsweep with rfl | hold
      · exact le_refl now
      · exact (hsweeps sweep hold).trans hclock
  | advance sweep order =>
      have hnext := linear_advance hrate hlinear hguard hstep
      exact ⟨fun _ => ⟨rfl, hnext⟩, fun _ hsome => absurd hsome (by simp [charges])⟩

end Steps

/-- In every interleaving of the locked sections of calls and sweeps, the answers in
the order of the second sections are those of atomic calls to a limiter that is
never swept, as long as no sweep evicts a bucket that a call still points to, or one
that would not be full again. -/
theorem answers_linearizable {rate capacity : ℚ} (hash : Bytes → Nat) (hrate : 0 ≤ rate)
    (hcapacity : 0 ≤ capacity) {start : ℚ} {actions : List LimiterAction}
    {final : LimiterState}
    (hguard : Guarded (step { rate, capacity } hash) (sparesCalls { rate, capacity })
      { clock := start } actions)
    (hrun : run (step { rate, capacity } hash) { clock := start } actions = some final) :
    observed (step { rate, capacity } hash) (answered { rate, capacity }) { clock := start }
        actions =
      replies (atomicAllow hash) { rate, capacity }
        (observed (step { rate, capacity } hash) (fun state action =>
          (charges state action).toList) { clock := start } actions) :=
  observed_eq_replies
    (fun _ _ _ _ hlinear hmeets hstep => linear_step hrate hcapacity hlinear hmeets hstep)
    (Linear.start rate capacity start) hguard hrun

/-- Two calls of one client overlap, the later one takes effect first; then the
bucket is evicted between two calls. -/
def overlapping : List LimiterAction :=
  let entry : BucketEntry := ([7], 0)
  let sweep : Sweep := { maxIdle := 300, now := 400 }
  [.findOrCreate [7] 0, .findOrCreate [7] 1, .refillAndConsume entry 1,
    .refillAndConsume entry 2, .startSweep 300 400, .advance sweep [entry],
    .advance { sweep with phase := .iterating [entry] } [],
    .advance { sweep with phase := .locked entry [] } [],
    .advance { sweep with phase := .examined entry [] } [],
    .advance { sweep with phase := .iterating [] } [],
    .findOrCreate [7] 401, .refillAndConsume ([7], 1) 402]

theorem answers_linearizable_overlapping :
    let limiter : RateLimiter := { rate := 10, capacity := 20 }
    ∃ final, run (step limiter fun _ => 0) { clock := 0 } overlapping = some final ∧
      final.stored = [([7], 1)] ∧
      observed (step limiter fun _ => 0) (answered limiter) { clock := 0 } overlapping =
        replies (atomicAllow fun _ => 0) limiter
          (observed (step limiter fun _ => 0) (fun state action =>
            (charges state action).toList) { clock := 0 } overlapping) := by
  intro limiter
  obtain ⟨final, hrun, hstored⟩ := @exists_reached _ _ (step limiter fun _ => 0) { clock := 0 }
    overlapping (fun final => final.stored = [([7], 1)]) _ (by decide +kernel)
  exact ⟨final, hrun, hstored, answers_linearizable (fun _ => 0) (by norm_num) (by norm_num)
    (by decide +kernel) hrun⟩

end LimiterState

end HttpServer
