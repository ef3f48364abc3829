/-
The rate limiter with its locks: calls to `allow` in their two locked sections
and sweeps that lock, examine and unlock one bucket after another.  A bucket is
a heap object that lives as long as its map entry.
-/
import HttpServer.GuardedRun
import HttpServer.RateLimiter

namespace HttpServer

open GuardedRun RateLimiter

/-- A map entry: the address and the bucket it points to. -/
abbrev BucketEntry := Bytes × Nat

/-- Where a sweep is: before the next shard, or inside one with the entries it
has still to visit. -/
inductive SweepPhase
  | outside
  | iterating (remaining : List BucketEntry)
  | locked (entry : BucketEntry) (remaining : List BucketEntry)
  | examined (entry : BucketEntry) (remaining : List BucketEntry)
deriving DecidableEq

namespace SweepPhase

def entries : SweepPhase → List BucketEntry
  | outside => []
  | iterating remaining => remaining
  | locked entry remaining | examined entry remaining => entry :: remaining

/-- The bucket whose mutex the sweep's `bucket_lock` holds. -/
def held : SweepPhase → Option Nat
  | outside | iterating _ => none
  | locked entry _ | examined entry _ => some entry.2

end SweepPhase

structure Sweep where
  maxIdle : ℤ
  now : ℚ
  shard : Nat := 0
  phase : SweepPhase := .outside
deriving DecidableEq

inductive UseKind
  | lock
  | refill
  | consume
  | unlock
deriving DecidableEq

/-- A recorded use of a bucket, and whether the map still held it. -/
structure BucketUse where
  kind : UseKind
  entry : BucketEntry
  stored : Bool
deriving DecidableEq

/-- `calls` are between their two sections, each with the pointer it found. -/
structure LimiterState where
  stored : List BucketEntry := []
  heap : Nat → Bucket := fun _ => { tokens := 0, lastRefill := 0 }
  nextBucket : Nat := 0
  calls : List BucketEntry := []
  sweeps : List Sweep := []
  clock : ℚ := 0
  uses : List BucketUse := []

inductive LimiterAction
  | findOrCreate (ip : Bytes) (now : ℚ)
  | refillAndConsume (call : BucketEntry) (now : ℚ)
  | startSweep (maxIdle : ℤ) (now : ℚ)
  | advance (sweep : Sweep) (order : List BucketEntry)

namespace LimiterState

/-- A sweep inside a shard holds its mutex. -/
def shardHeld (state : LimiterState) (shard : Nat) : Bool :=
  state.sweeps.any fun sweep => sweep.shard == shard && sweep.phase != .outside

def bucketHeld (state : LimiterState) (id : Nat) : Bool :=
  state.sweeps.any fun sweep => sweep.phase.held == some id

def record (state : LimiterState) (entry : BucketEntry) (kinds : List UseKind) :
    LimiterState :=
  { state with
    uses := state.uses ++ kinds.map fun kind =>
      { kind := kind, entry := entry, stored := decide (entry ∈ state.stored) } }

def replace (state : LimiterState) (sweep next : Sweep) : LimiterState :=
  { state with sweeps := next :: state.sweeps.erase sweep }

section Steps

variable (limiter : RateLimiter) (hash : Bytes → Nat)

/-- The first section of `allow`, under the shard's mutex. -/
def findOrCreate (state : LimiterState) (ip : Bytes) (now : ℚ) : Option LimiterState :=
  if state.clock ≤ now ∧ state.shardHeld (shardFor hash ip) = false then
    match state.stored.find? fun entry => entry.1 == ip with
    | some entry => some { state with clock := now, calls := entry :: state.calls }
    | none =>
        some { state with
          clock := now
          stored := (ip, state.nextBucket) :: state.stored
          heap := Function.update state.heap state.nextBucket
            (limiter.findOrCreate none now)
          nextBucket := state.nextBucket + 1
          calls := (ip, state.nextBucket) :: state.calls }
  else none

/-- The second section of `allow`, under the bucket's mutex. -/
def refillAndConsume (state : LimiterState) (call : BucketEntry) (now : ℚ) :
    Option LimiterState :=
  if call ∈ state.calls ∧ state.clock ≤ now ∧ state.bucketHeld call.2 = false then
    let charged := consume (limiter.refill (state.heap call.2) now)
    let kinds := if charged.2 then [UseKind.lock, .refill, .consume, .unlock]
      else [.lock, .refill, .unlock]
    some { state.record call kinds with
      clock := now
      calls := state.calls.erase call
      heap := Function.update state.heap call.2 charged.1 }
  else none

def startSweep (state : LimiterState) (maxIdle : ℤ) (now : ℚ) : Option LimiterState :=
  if state.clock ≤ now then
    some { state with clock := now, sweeps := { maxIdle := maxIdle, now := now } :: state.sweeps }
  else none

/-- The next step of a sweep.  A shard is visited in any order; erasing the
entry destroys its bucket while `bucket_lock` still refers to it. -/
def advance (state : LimiterState) (sweep : Sweep) (order : List BucketEntry) :
    Option LimiterState :=
  if sweep ∈ state.sweeps then
    match sweep.phase with
    | .outside =>
        if sweep.shard < numShards then
          if state.shardHeld sweep.shard = false ∧
              order.Perm (state.stored.filter fun entry => shardFor hash entry.1 == sweep.shard)
            then some (state.replace sweep { sweep with phase := .iterating order })
          else none
        else some { state with sweeps := state.sweeps.erase sweep }
    | .iterating [] =>
        some (state.replace sweep { sweep with shard := sweep.shard + 1, phase := .outside })
    | .iterating (entry :: remaining) =>
        if state.bucketHeld entry.2 = false then
          some ((state.replace sweep { sweep with phase := .locked entry remaining }).record
            entry [.lock])
        else none
    | .locked entry remaining =>
        if stale sweep.maxIdle sweep.now (state.heap entry.2) then
          some { state.replace sweep { sweep with phase := .examined entry remaining } with
            stored := state.stored.filter fun other => other ≠ entry }
        else some (state.replace sweep { sweep with phase := .examined entry remaining })
    | .examined entry remaining =>
        some ((state.replace sweep { sweep with phase := .iterating remaining }).record
          entry [.unlock])
  else none

def step (state : LimiterState) : LimiterAction → Option LimiterState
  | .findOrCreate ip now => state.findOrCreate limiter hash ip now
  | .refillAndConsume call now => state.refillAndConsume limiter call now
  | .startSweep maxIdle now => state.startSweep maxIdle now
  | .advance sweep order => state.advance hash sweep order

end Steps

/-- What one step of a sweep can do. -/
inductive Advances (state : LimiterState) (sweep : Sweep) : LimiterState → Prop
  | entered (order : List BucketEntry) (hphase : sweep.phase = .outside)
      (horder : ∀ entry ∈ order, entry ∈ state.stored) :
      Advances state sweep (state.replace sweep { sweep with phase := .iterating order })
  | finished (hphase : sweep.phase = .outside) :
      Advances state sweep { state with sweeps := state.sweeps.erase sweep }
  | left (hphase : sweep.phase = .iterating []) :
      Advances state sweep
        (state.replace sweep { sweep with shard := sweep.shard + 1, phase := .outside })
  | tookLock (entry : BucketEntry) (remaining : List BucketEntry)
      (hphase : sweep.phase = .iterating (entry :: remaining)) :
      Advances state sweep
        ((state.replace sweep { sweep with phase := .locked entry remaining }).record
          entry [.lock])
  | evicted (entry : BucketEntry) (remaining : List BucketEntry)
      (hphase : sweep.phase = .locked entry remaining)
      (hstale : stale sweep.maxIdle sweep.now (state.heap entry.2) = true) :
      Advances state sweep
        { state.replace sweep { sweep with phase := .examined entry remaining } with
          stored := state.stored.filter fun other => other ≠ entry }
  | kept (entry : BucketEntry) (remaining : List BucketEntry)
      (hphase : sweep.phase = .locked entry remaining)
      (hfresh : stale sweep.maxIdle sweep.now (state.heap entry.2) = false) :
      Advances state sweep
        (state.replace sweep { sweep with phase := .examined entry remaining })
  | droppedLock (entry : BucketEntry) (remaining : List BucketEntry)
      (hphase : sweep.phase = .examined entry remaining) :
      Advances state sweep
        ((state.replace sweep { sweep with phase := .iterating remaining }).record
          entry [.unlock])

theorem advances_of_advance {hash : Bytes → Nat} {state next : LimiterState} {sweep : Sweep}
    {order : List BucketEntry} (hstep : state.advance hash sweep order = some next) :
    sweep ∈ state.sweeps ∧ Advances state sweep next := by
  unfold advance at hstep
  split at hstep
  case isFalse => contradiction
  case isTrue hmem =>
    refine ⟨hmem, ?_⟩
    split at hstep
    · next hphase =>
        split at hstep
        · split at hstep
          · next hpossible =>
              obtain rfl := Option.some.inj hstep
              refine .entered order hphase fun entry hentry => ?_
              exact (List.mem_filter.mp (hpossible.2.subset hentry)).1
          · contradiction
        · obtain rfl := Option.some.inj hstep
          exact .finished hphase
    · next hphase =>
        obtain rfl := Option.some.inj hstep
        exact .left hphase
    · next entry remaining hphase =>
        split at hstep
        · obtain rfl := Option.some.inj hstep
          exact .tookLock entry remaining hphase
        · contradiction
    · next entry remaining hphase =>
        split at hstep
        · next hstale =>
            obtain rfl := Option.some.inj hstep
            exact .evicted entry remaining hphase hstale
        · next hfresh =>
            obtain rfl := Option.some.inj hstep
            exact .kept entry remaining hphase (by simpa using hfresh)
    · next entry remaining hphase =>
        obtain rfl := Option.some.inj hstep
        exact .droppedLock entry remaining hphase

/-- A sweep only takes up entries that are in the map. -/
theorem entries_of_advances {state next : LimiterState} {sweep : Sweep}
    (hmem : sweep ∈ state.sweeps) (hadvances : Advances state sweep next) :
    ∀ other ∈ next.sweeps, ∀ entry ∈ other.phase.entries,
      entry ∈ state.stored ∨ ∃ old ∈ state.sweeps, entry ∈ old.phase.entries := by
  have herase : ∀ other ∈ state.sweeps.erase sweep, ∀ entry ∈ other.phase.entries,
      entry ∈ state.stored ∨ ∃ old ∈ state.sweeps, entry ∈ old.phase.entries := by
    intro other hother entry hentry
    exact .inr ⟨other, List.mem_of_mem_erase hother, hentry⟩
  intro other hother
  cases hadvances with
  | finished hphase => exact herase other hother
  | entered order hphase horder =>
      rcases List.mem_cons.mp hother with rfl | hold
      · exact fun entry hentry => .inl (horder entry hentry)
      · exact herase other hold
  | left hphase =>
      rcases List.mem_cons.mp hother with rfl | hold
      · simp [SweepPhase.entries]
      · exact herase other hold
  | tookLock entry remaining hphase =>
      rcases List.mem_cons.mp hother with rfl | hold
      · exact fun other hentry => .inr ⟨sweep, hmem, by rwa [hphase]⟩
      · exact herase other hold
  | evicted entry remaining hphase hstale =>
      rcases List.mem_cons.mp hother with rfl | hold
      · exact fun other hentry => .inr ⟨sweep, hmem, by rwa [hphase]⟩
      · exact herase other hold
  | kept entry remaining hphase hfresh =>
      rcases List.mem_cons.mp hother with rfl | hold
      · exact fun other hentry => .inr ⟨sweep, hmem, by rwa [hphase]⟩
      · exact herase other hold
  | droppedLock entry remaining hphase =>
      rcases List.mem_cons.mp hother with rfl | hold
      · intro other hentry
        refine .inr ⟨sweep, hmem, ?_⟩
        rw [hphase]
        exact List.mem_cons_of_mem _ hentry
      · exact herase other hold

/-- What a step can be, and where it leads. -/
inductive Steps (limiter : RateLimiter) (hash : Bytes → Nat) (state : LimiterState) :
    LimiterAction → LimiterState → Prop
  | found (ip : Bytes) (now : ℚ) (entry : BucketEntry)
      (hfound : (state.stored.find? fun entry => entry.1 == ip) = some entry) :
      Steps limiter hash state (.findOrCreate ip now)
        { state with clock := now, calls := entry :: state.calls }
  | created (ip : Bytes) (now : ℚ)
      (hmissing : (state.stored.find? fun entry => entry.1 == ip) = none) :
      Steps limiter hash state (.findOrCreate ip now)
        { state with
          clock := now
          stored := (ip, state.nextBucket) :: state.stored
          heap := Function.update state.heap state.nextBucket
            (limiter.findOrCreate none now)
          nextBucket := state.nextBucket + 1
          calls := (ip, state.nextBucket) :: state.calls }
  | charged (call : BucketEntry) (now : ℚ) (kinds : List UseKind) (bucket : Bucket)
      (hmem : call ∈ state.calls) :
      Steps limiter hash state (.refillAndConsume call now)
        { state.record call kinds with
          clock := now
          calls := state.calls.erase call
          heap := Function.update state.heap call.2 bucket }
  | started (maxIdle : ℤ) (now : ℚ) :
      Steps limiter hash state (.startSweep maxIdle now)
        { state with
          clock := now
          sweeps := { maxIdle := maxIdle, now := now } :: state.sweeps }
  | advanced (sweep : Sweep) (order : List BucketEntry) (next : LimiterState)
      (hmem : sweep ∈ state.sweeps) (hadvances : Advances state sweep next) :
      Steps limiter hash state (.advance sweep order) next

theorem steps_of_step {limiter : RateLimiter} {hash : Bytes → Nat} {state next : LimiterState}
    {action : LimiterAction} (hstep : state.step limiter hash action = some next) :
    Steps limiter hash state action next := by
  cases action with
  | findOrCreate ip now =>
      simp only [step, findOrCreate, Option.ite_none_right_eq_some] at hstep
      obtain ⟨-, heq⟩ := hstep
      split at heq
      · next entry hfound =>
          obtain rfl := Option.some.inj heq
          exact .found ip now entry hfound
      · next hmissing =>
          obtain rfl := Option.some.inj heq
          exact .created ip now hmissing
  | refillAndConsume call now =>
      simp only [step, refillAndConsume, Option.ite_none_right_eq_some] at hstep
      obtain ⟨⟨hmem, -⟩, heq⟩ := hstep
      obtain rfl := Option.some.inj heq
      exact .charged call now _ _ hmem
  | startSweep maxIdle now =>
      simp only [step, startSweep, Option.ite_none_right_eq_some] at hstep
      obtain ⟨-, heq⟩ := hstep
      obtain rfl := Option.some.inj heq
      exact .started maxIdle now
  | advance sweep order =>
      obtain ⟨hmem, hadvances⟩ := advances_of_advance hstep
      exact .advanced sweep order next hmem hadvances

/-- No sweep is about to find its bucket stale. -/
def noneStale (state : LimiterState) : LimiterAction → Prop
  | .advance sweep _ =>
      match sweep.phase with
      | .locked entry _ => stale sweep.maxIdle sweep.now (state.heap entry.2) = false
      | _ => True
  | _ => True

instance : ∀ state action, Decidable (noneStale state action) := by
  intro state action
  unfold noneStale
  split
  · split
    · infer_instance
    · exact isTrue trivial
  · exact isTrue trivial

/-- Everything in use is still in the map. -/
structure Safe (state : LimiterState) : Prop where
  uses : ∀ use ∈ state.uses, use.stored = true
  calls : ∀ call ∈ state.calls, call ∈ state.stored
  sweeps : ∀ sweep ∈ state.sweeps, ∀ entry ∈ sweep.phase.entries, entry ∈ state.stored

theorem uses_record {state : LimiterState} {entry : BucketEntry}
    (huses : ∀ use ∈ state.uses, use.stored = true) (hentry : entry ∈ state.stored)
    (kinds : List UseKind) : ∀ use ∈ (state.record entry kinds).uses, use.stored = true := by
  intro use huse
  rcases List.mem_append.mp huse with hold | hnew
  · exact huses use hold
  · obtain ⟨kind, -, rfl⟩ := List.mem_map.mp hnew
    exact decide_eq_true hentry

section Invariants

variable {limiter : RateLimiter} {hash : Bytes → Nat}

theorem safe_advance {state next : LimiterState} {sweep : Sweep} {order : List BucketEntry}
    (hsafe : Safe state) (hmem : sweep ∈ state.sweeps)
    (hguard : noneStale state (.advance sweep order))
    (hadvances : Advances state sweep next) : Safe next := by
  have hentries : ∀ other ∈ next.sweeps, ∀ entry ∈ other.phase.entries,
      entry ∈ state.stored := by
    intro other hother entry hentry
    rcases entries_of_advances hmem hadvances other hother entry hentry with
      hstored | ⟨old, hold, hentry⟩
    · exact hstored
    · exact hsafe.sweeps old hold entry hentry
  have hmine := hsafe.sweeps sweep hmem
  cases hadvances with
  | entered order hphase horder => exact ⟨hsafe.uses, hsafe.calls, hentries⟩
  | finished hphase => exact ⟨hsafe.uses, hsafe.calls, hentries⟩
  | left hphase => exact ⟨hsafe.uses, hsafe.calls, hentries⟩
  | kept entry remaining hphase hfresh => exact ⟨hsafe.uses, hsafe.calls, hentries⟩
  | evicted entry remaining hphase hstale =>
      simp only [noneStale, hphase, hstale] at hguard
      contradiction
  | tookLock entry remaining hphase =>
      have hentry : entry ∈ state.stored := hmine entry (by simp [hphase, SweepPhase.entries])
      exact ⟨uses_record hsafe.uses hentry _, hsafe.calls, hentries⟩
  | droppedLock entry remaining hphase =>
      have hentry : entry ∈ state.stored := hmine entry (by simp [hphase, SweepPhase.entries])
      exact ⟨uses_record hsafe.uses hentry _, hsafe.calls, hentries⟩

/-- As long as no sweep evicts, everything in use stays in the map. -/
theorem safe_step (state : LimiterState) (action : LimiterAction) (next : LimiterState)
    (hsafe : Safe state) (hguard : noneStale state action)
    (hstep : state.step limiter hash action = some next) : Safe next := by
  cases steps_of_step hstep with
  | found ip now entry hfound =>
      refine ⟨hsafe.uses, ?_, hsafe.sweeps⟩
      intro call hcall
      rcases List.mem_cons.mp hcall with rfl | hold
      · exact List.mem_of_find?_eq_some hfound
      · exact hsafe.calls call hold
  | created ip now hmissing =>
      refine ⟨hsafe.uses, ?_, ?_⟩
      · intro call hcall
        rcases List.mem_cons.mp hcall with rfl | hold
        · exact List.mem_cons_self
        · exact List.mem_cons_of_mem _ (hsafe.calls call hold)
      · intro sweep hsweep entry hentry
        exact List.mem_cons_of_mem _ (hsafe.sweeps sweep hsweep entry hentry)
  | charged call now kinds bucket hmem =>
      refine ⟨uses_record hsafe.uses (hsafe.calls call hmem) kinds, ?_, hsafe.sweeps⟩
      intro other hother
      exact hsafe.calls other (List.mem_of_mem_erase hother)
  | started maxIdle now =>
      refine ⟨hsafe.uses, hsafe.calls, ?_⟩
      intro sweep hsweep
      rcases List.mem_cons.mp hsweep with rfl | hold
      · simp [SweepPhase.entries]
      · exact hsafe.sweeps sweep hold
  | advanced sweep order _ hmem hadvances => exact safe_advance hsafe hmem hguard hadvances

/-- Bucket numbers are handed out once. -/
structure Allocated (state : LimiterState) : Prop where
  stored : ∀ entry ∈ state.stored, entry.2 < state.nextBucket
  sweeps : ∀ sweep ∈ state.sweeps, ∀ entry ∈ sweep.phase.entries,
    entry.2 < state.nextBucket

/-- A sweep adds nothing to the map. -/
theorem stored_of_advances {state next : LimiterState} {sweep : Sweep}
    (hadvances : Advances state sweep next) :
    next.nextBucket = state.nextBucket ∧ ∀ entry ∈ next.stored, entry ∈ state.stored := by
  cases hadvances with
  | evicted entry remaining hphase hstale =>
      exact ⟨rfl, fun other hother => (List.mem_filter.mp hother).1⟩
  | _ => exact ⟨rfl, fun other hother => hother⟩

theorem allocated_step (state : LimiterState) (action : LimiterAction) (next : LimiterState)
    (hallocated : Allocated state) (hstep : state.step limiter hash action = some next) :
    Allocated next := by
  cases steps_of_step hstep with
  | found ip now entry hfound => exact ⟨hallocated.stored, hallocated.sweeps⟩
  | created ip now hmissing =>
      refine ⟨?_, ?_⟩
      · intro entry hentry
        rcases List.mem_cons.mp hentry with rfl | hold
        · exact Nat.lt_succ_self _
        · exact Nat.lt_succ_of_lt (hallocated.stored entry hold)
      · intro sweep hsweep entry hentry
        exact Nat.lt_succ_of_lt (hallocated.sweeps sweep hsweep entry hentry)
  | charged call now kinds bucket hmem => exact ⟨hallocated.stored, hallocated.sweeps⟩
  | started maxIdle now =>
      refine ⟨hallocated.stored, ?_⟩
      intro sweep hsweep
      rcases List.mem_cons.mp hsweep with rfl | hold
      · simp [SweepPhase.entries]
      · exact hallocated.sweeps sweep hold
  | advanced sweep order _ hmem hadvances =>
      obtain ⟨hnext, hstored⟩ := stored_of_advances hadvances
      constructor
      · intro entry hentry
        rw [hnext]
        exact hallocated.stored entry (hstored entry hentry)
      · intro other hother entry hentry
        rw [hnext]
        rcases entries_of_advances hmem hadvances other hother entry hentry with
          hmapped | ⟨old, hold, hentry⟩
        · exact hallocated.stored entry hmapped
        · exact hallocated.sweeps old hold entry hentry

/-- An evicted bucket was used, or a sweep still holds the lock of one. -/
def Lost (state : LimiterState) : Prop :=
  (∃ use ∈ state.uses, use.stored = false) ∨
    ∃ sweep ∈ state.sweeps, ∃ entry remaining, sweep.phase = .examined entry remaining ∧
      entry ∉ state.stored ∧ entry.2 < state.nextBucket

/-- A step that forgets no use, no sweep and brings back no entry loses nothing
of the evidence. -/
theorem Lost.kept {state next : LimiterState} (hlost : Lost state)
    (huses : ∀ use ∈ state.uses, use ∈ next.uses)
    (hsweeps : ∀ sweep ∈ state.sweeps, ∀ entry remaining,
      sweep.phase = .examined entry remaining → sweep ∈ next.sweeps)
    (hstored : ∀ entry ∈ next.stored, entry.2 < state.nextBucket → entry ∈ state.stored)
    (hnext : state.nextBucket ≤ next.nextBucket) : Lost next := by
  rcases hlost with ⟨use, huse, hevicted⟩ | ⟨sweep, hmem, entry, remaining, hphase, hgone, hold⟩
  · exact .inl ⟨use, huses use huse, hevicted⟩
  · refine .inr ⟨sweep, hsweeps sweep hmem entry remaining hphase, entry, remaining, hphase,
      ?_, hold.trans_le hnext⟩
    exact fun hback => hgone (hstored entry hback hold)

/-- The unlock at the end of an iteration uses the evicted bucket. -/
theorem lost_advance {state next : LimiterState} {sweep : Sweep} (hlost : Lost state)
    (hadvances : Advances state sweep next) : Lost next := by
  obtain ⟨hnext, hstored⟩ := stored_of_advances hadvances
  have huses : ∀ use ∈ state.uses, use ∈ next.uses := by
    cases hadvances <;> intro use huse
    case tookLock => exact List.mem_append_left _ huse
    case droppedLock => exact List.mem_append_left _ huse
    all_goals exact huse
  have herase : ∀ other ∈ state.sweeps, other ≠ sweep → other ∈ next.sweeps := by
    intro other hother hne
    have hkept := (List.mem_erase_of_ne hne).mpr hother
    cases hadvances
    case finished => exact hkept
    all_goals exact List.mem_cons_of_mem _ hkept
  rcases hlost with ⟨use, huse, hevicted⟩ | ⟨held, hheld, entry, remaining, hphase, hgone, hold⟩
  · exact .inl ⟨use, huses use huse, hevicted⟩
  · by_cases hsame : held = sweep
    · subst hsame
      cases hadvances with
      | droppedLock other rest hother =>
          rw [hphase] at hother
          obtain ⟨rfl, rfl⟩ := SweepPhase.examined.inj hother
          refine .inl ⟨_, List.mem_append_right _ List.mem_cons_self, ?_⟩
          exact decide_eq_false hgone
      | _ => simp_all
    · refine .inr ⟨held, herase held hheld hsame, entry, remaining, hphase, ?_, ?_⟩
      · exact fun hback => hgone (hstored entry hback)
      · rwa [hnext]

theorem lost_step (state : LimiterState) (action : LimiterAction) (next : LimiterState)
    (hlost : Lost state) (hstep : state.step limiter hash action = some next) :
    Lost next := by
  cases steps_of_step hstep with
  | found ip now entry hfound =>
      exact hlost.kept (fun _ h => h) (fun _ h _ _ _ => h) (fun _ h _ => h) (Nat.le_refl _)
  | created ip now hmissing =>
      refine hlost.kept (fun _ h => h) (fun _ h _ _ _ => h) ?_ (Nat.le_succ _)
      intro entry hentry hold
      rcases List.mem_cons.mp hentry with rfl | hmapped
      · exact absurd hold (Nat.lt_irrefl _)
      · exact hmapped
  | charged call now kinds bucket hmem =>
      exact hlost.kept (fun _ h => List.mem_append_left _ h) (fun _ h _ _ _ => h)
        (fun _ h _ => h) (Nat.le_refl _)
  | started maxIdle now =>
      exact hlost.kept (fun _ h => h) (fun _ h _ _ _ => List.mem_cons_of_mem _ h)
        (fun _ h _ => h) (Nat.le_refl _)
  | advanced sweep order _ hmem hadvances => exact lost_advance hlost hadvances

/-- A stale bucket is evicted under the sweep's own lock. -/
theorem lost_of_stale (state : LimiterState) (action : LimiterAction) (next : LimiterState)
    (hallocated : Allocated state) (hguard : ¬ noneStale state action)
    (hstep : state.step limiter hash action = some next) : Lost next := by
  cases steps_of_step hstep with
  | advanced sweep order _ hmem hadvances =>
      cases hadvances with
      | evicted entry remaining hphase hstale =>
          have hold := hallocated.sweeps sweep hmem entry (by simp [hphase, SweepPhase.entries])
          refine .inr ⟨_, List.mem_cons_self, entry, remaining, rfl, ?_, hold⟩
          simp
      | _ => simp_all [noneStale]
  | _ => exact absurd trivial hguard

/-- In a run where no sweep finds a stale bucket, every use is of a bucket that
the map still holds.  Once no sweep is in the middle of an iteration, those
are the only runs: every eviction is followed by the unlock of the evicted
bucket. -/
theorem uses_stored (limiter : RateLimiter) (hash : Bytes → Nat) (start : ℚ)
    (actions : List LimiterAction) (final : LimiterState)
    (hrun : run (step limiter hash) { clock := start } actions = some final) :
    (Guarded (step limiter hash) noneStale { clock := start } actions →
      ∀ use ∈ final.uses, use.stored = true) ∧
    ((∀ sweep ∈ final.sweeps, sweep.phase.held = none) →
      ((∀ use ∈ final.uses, use.stored = true) ↔
        Guarded (step limiter hash) noneStale { clock := start } actions)) := by
  have hforward : Guarded (step limiter hash) noneStale { clock := start } actions →
      ∀ use ∈ final.uses, use.stored = true := by
    intro hguarded
    have hstart : Safe { clock := start } := ⟨by simp, by simp, by simp⟩
    exact (GuardedRun.invariant safe_step hstart hguarded hrun).uses
  refine ⟨hforward, fun hidle => ⟨?_, hforward⟩⟩
  intro huses
  by_contra hunguarded
  have hstart : Allocated { clock := start } := ⟨by simp, by simp⟩
  rcases broken_of_not_guarded allocated_step lost_of_stale lost_step hstart hrun hunguarded with
    ⟨use, huse, hevicted⟩ | ⟨sweep, hmem, entry, remaining, hphase, -, -⟩
  · simp [huses use huse] at hevicted
  · have hnone := hidle sweep hmem
    simp [hphase, SweepPhase.held] at hnone

/-- A client calls again while a sweep is about to reach its bucket. -/
def idleClientReturns (later : ℚ) : List LimiterAction :=
  let entry : BucketEntry := ([7], 0)
  let sweep : Sweep := { maxIdle := 300, now := later }
  [.findOrCreate [7] 0, .refillAndConsume entry 0, .startSweep 300 later,
    .findOrCreate [7] later, .advance sweep [entry],
    .advance { sweep with phase := .iterating [entry] } [],
    .advance { sweep with phase := .locked entry [] } [],
    .advance { sweep with phase := .examined entry [] } [],
    .refillAndConsume entry later]

/-- After 100 s the bucket is kept. -/
theorem uses_stored_recent :
    ∃ final, run (step { rate := 10, capacity := 20 } (fun _ => 0)) { clock := 0 }
        (idleClientReturns 100) = some final ∧
      final.uses.length = 10 ∧ ∀ use ∈ final.uses, use.stored = true := by
  obtain ⟨final, hrun, hlength⟩ := exists_reached
    (show (run (step { rate := 10, capacity := 20 } (fun _ => 0)) { clock := 0 }
      (idleClientReturns 100)).any (fun final => decide (final.uses.length = 10)) = true by
        decide +kernel)
  exact ⟨final, hrun, hlength,
    (uses_stored _ _ 0 _ final hrun).1 (by decide +kernel)⟩

/-- After 301 s it is evicted, unlocked, and then charged by the call that had
already found it. -/
theorem uses_evicted_idle :
    ¬ ∀ (limiter : RateLimiter) (hash : Bytes → Nat) (start : ℚ)
      (actions : List LimiterAction) (final : LimiterState),
      run (step limiter hash) { clock := start } actions = some final →
        ∀ use ∈ final.uses, use.stored = true := by
  intro hall
  obtain ⟨final, hrun, hlost⟩ := exists_reached
    (show (run (step { rate := 10, capacity := 20 } (fun _ => 0)) { clock := 0 }
      (idleClientReturns 301)).any (fun final => decide
        ({ kind := .consume, entry := ([7], 0), stored := false } ∈ final.uses)) = true by
        decide +kernel)
  have hstored := hall _ _ 0 _ final hrun _ hlost
  contradiction

end Invariants

end LimiterState

end HttpServer
