/-
No thread waits for a mutex in a circle.  `remove_connection` takes the mutex of a
connection before that of the map and the idle sweep takes them the other way
round; but the one is out of the map for good and the others are in it.
-/
import HttpServer.LockOrder
import HttpServer.LockUse

namespace HttpServer

open GuardedRun LockOrder

namespace Place

/-- The connection that `remove_connection` has taken out of the map. -/
@[simp] def gone? : Place → Option Nat
  | releasing conn | released conn | excluding conn | unregistering conn => some conn.id
  | accepting outer | acquiring outer _ | acquired outer _ | inserting outer _ | inserted outer _
  | registering outer _ | undoing outer _ | undone outer _ | uninserting outer _
  | uninserted outer _ => outer
  | _ => none

/-- The connection that `handle_accept` has not inserted yet. -/
@[simp] def fresh? : Place → Option Nat
  | acquiring _ conn | acquired _ conn | inserting _ conn | inserted _ conn => some conn.id
  | _ => none

/-- What the sweep has still to test. -/
@[simp] def visits : Place → List ConnRef
  | testing rest | tested _ rest => rest
  | _ => []

end Place

namespace LockState

variable (hash : Bytes → Nat)

def holds (s : LockState) (id : ThreadId) (mutex : Mutex) : Prop :=
  mutex ∈ (s.threads id).holds hash

def wants (s : LockState) (id : ThreadId) : Option Mutex := (s.threads id).wants hash

/-- The first thread wants a mutex that the second one holds. -/
def WaitsFor (s : LockState) : ThreadId → ThreadId → Prop :=
  LockOrder.WaitsFor (s.wants hash) (s.holds hash)

def mapped (s : LockState) : List Nat := s.connections.map ConnRef.id

/-- The order in which mutexes are taken.  A connection's comes behind that of the map
while it is in the map, and before it when it has been removed. -/
def level (s : LockState) : Mutex → Fin 7
  | .conn id => if id ∈ s.mapped then 2 else 0
  | .connMap => 1
  | .shard _ => 3
  | .bucket _ => 4
  | .addresses | .queue => 5
  | .log => 6

/-- Each mutex has at most one holder. -/
def Exclusive (s : LockState) : Prop :=
  ∀ first second mutex, s.holds hash first mutex → s.holds hash second mutex → first = second

/-- Which connections are in the map, taken out of it, or still to be inserted. -/
structure Tracked (s : LockState) : Prop where
  distinct : s.mapped.Nodup
  known : ∀ id ∈ s.mapped, id < s.nextId
  gone : ∀ thread id, (s.threads thread).place.gone? = some id → id < s.nextId ∧ id ∉ s.mapped
  fresh : ∀ thread id, (s.threads thread).place.fresh? = some id → id < s.nextId ∧ id ∉ s.mapped
  foreign : ∀ thread id, (s.threads thread).place.fresh? = some id →
    ∀ other, (s.threads other).place.gone? ≠ some id ∧
      ((s.threads other).place.fresh? = some id → other = thread)
  visits : ∀ thread, ∀ conn ∈ (s.threads thread).place.visits, conn.id ∈ s.mapped

variable {hash} {s s' : LockState} {thread : ThreadId}

theorem exclusive_start : Exclusive hash {} := by
  intro first second mutex hfirst
  cases first <;> simp [holds, Thread.holds, ThreadId.home] at hfirst

theorem tracked_start : Tracked {} := by
  refine ⟨List.nodup_nil, nofun, ?_, ?_, ?_, ?_⟩ <;> intro thread <;> cases thread <;>
    simp [ThreadId.home]

theorem isHeld_iff {mutex : Mutex} :
    s.isHeld hash mutex = true ↔ ∃ thread, s.holds hash thread mutex := by
  simp only [isHeld, List.any_eq_true, decide_eq_true_eq]
  exact ⟨fun ⟨id, _, hheld⟩ => ⟨id, hheld⟩, fun ⟨id, hheld⟩ => ⟨id, id.mem_all, hheld⟩⟩

/-- What a part of the code between two mutexes does to the map and the identifiers. -/
inductive Sections (hash : Bytes → Nat) (s : LockState) (thread : ThreadId) (place : Place) :
    LockState → Prop
  | quiet (s' : LockState) (next : Place)
      (hthreads : s'.threads = Function.update s.threads thread { place := next })
      (hconnections : s'.connections = s.connections) (hnext : s'.nextId = s.nextId)
      (hholds : next.holds hash ⊆ place.holds hash)
      (hgone : next.gone? = place.gone? ∨ next.gone? = none)
      (hfresh : next.fresh? = place.fresh? ∨ next.fresh? = none)
      (hvisits : next.visits ⊆ place.visits) : Sections hash s thread place s'
  | erased (fd : Nat) (conn : ConnRef) (hplace : place = .erasing fd)
      (hfind : s.find fd = some conn) :
      Sections hash s thread place
        { s.goTo thread (.releasing conn) with connections := s.others fd }
  | accepted (outer : Option Nat) (fd : Nat) (ip : Bytes) (hplace : place = .accepting outer) :
      Sections hash s thread place
        { s.goTo thread (.acquiring outer { id := s.nextId, fd, ip }) with
          nextId := s.nextId + 1 }
  | inserted (outer : Option Nat) (conn : ConnRef) (hplace : place = .inserted outer conn) :
      Sections hash s thread place
        { s.goTo thread (.registering outer conn) with
          connections := conn :: s.others conn.fd }
  | uninserted (outer : Option Nat) (conn : ConnRef) (hplace : place = .uninserted outer conn) :
      Sections hash s thread place
        { s.goTo thread (.accepting outer) with connections := s.others conn.fd }
  | cleaned (hplace : place = .cleaningUp []) :
      Sections hash s thread place { s.goTo thread thread.home with connections := [] }

section Quiet

variable {place next : Place} {turned : LockState}

/-- The thread goes on, holds no more than before, and leaves the map alone. -/
theorem quiet_turned (hrun : some turned = some s')
    (hthreads : turned.threads = Function.update s.threads thread { place := next })
    (hconnections : turned.connections = s.connections) (hnext : turned.nextId = s.nextId)
    (hholds : next.holds hash ⊆ place.holds hash)
    (hgone : next.gone? = place.gone? ∨ next.gone? = none)
    (hfresh : next.fresh? = place.fresh? ∨ next.fresh? = none)
    (hvisits : next.visits ⊆ place.visits) : Sections hash s thread place s' := by
  obtain rfl := Option.some.inj hrun
  exact .quiet _ next hthreads hconnections hnext hholds hgone hfresh hvisits

/-- At a place where nothing is held and no connection is at hand. -/
theorem quiet_bare (hbare : next.holds hash = [] ∧ next.gone? = none ∧ next.fresh? = none ∧
      next.visits = []) (hrun : some turned = some s')
    (hthreads : turned.threads = Function.update s.threads thread { place := next })
    (hconnections : turned.connections = s.connections) (hnext : turned.nextId = s.nextId) :
    Sections hash s thread place s' :=
  quiet_turned hrun hthreads hconnections hnext (hbare.1 ▸ List.nil_subset _) (.inr hbare.2.1)
    (.inr hbare.2.2.1) (hbare.2.2.2 ▸ List.nil_subset _)

theorem home_bare (thread : ThreadId) :
    thread.home.holds hash = [] ∧ thread.home.gone? = none ∧ thread.home.fresh? = none ∧
      thread.home.visits = [] := by
  cases thread <;> exact ⟨rfl, rfl, rfl, rfl⟩

theorem begin_bare (task : PoolTask) :
    (begin task).holds hash = [] ∧ (begin task).gone? = none ∧ (begin task).fresh? = none ∧
      (begin task).visits = [] := by
  unfold begin
  split
  · split <;> exact ⟨rfl, rfl, rfl, rfl⟩
  · exact ⟨rfl, rfl, rfl, rfl⟩

theorem start_bare (call : LoopCall) :
    (start call).holds hash = [] ∧ (start call).gone? = none ∧ (start call).fresh? = none ∧
      (start call).visits = [] := by
  cases call <;> exact ⟨rfl, rfl, rfl, rfl⟩

end Quiet

theorem sections_of_run {place : Place} {branch : Branch}
    (hrun : s.runSection hash thread place branch = some s') :
    Sections hash s thread place s' := by
  unfold runSection at hrun
  split at hrun
  case h_5 _ _ fd =>
    split at hrun
    · exact quiet_bare (home_bare thread) hrun rfl rfl rfl
    · next conn hfind =>
        obtain rfl := Option.some.inj hrun
        exact .erased fd conn rfl hfind
  case h_9 _ _ outer fd ip =>
    obtain rfl := Option.some.inj hrun
    exact .accepted outer fd ip rfl
  case h_14 _ _ outer conn =>
    obtain rfl := Option.some.inj hrun
    exact .inserted outer conn rfl
  case h_18 _ _ outer conn =>
    obtain rfl := Option.some.inj hrun
    exact .uninserted outer conn rfl
  case h_24 =>
    obtain rfl := Option.some.inj hrun
    exact .cleaned rfl
  -- the other parts leave the map and the identifiers alone
  all_goals
    repeat' split at hrun
    all_goals first
      | contradiction
      | exact quiet_bare (home_bare thread) hrun rfl rfl rfl
      | exact quiet_bare (begin_bare _) hrun rfl rfl rfl
      | exact quiet_bare (start_bare _) hrun rfl rfl rfl
      | exact quiet_turned hrun rfl rfl rfl (by simp) (by simp) (by simp) (by simp)

/-- What a step can be, and where it leads. -/
inductive Turns (hash : Bytes → Nat) (s : LockState) : LockAction → LockState → Prop
  | entered (thread : ThreadId) (mutex : Mutex) (hnone : (s.threads thread).logCall = .none)
      (hwants : (s.threads thread).place.wants hash = some mutex)
      (hfree : ∀ other, ¬ s.holds hash other mutex) :
      Turns hash s (.lock thread) (s.goTo thread (s.entry (s.threads thread).place))
  | pushing (thread : ThreadId) (hcalling : (s.threads thread).logCall = .calling)
      (hfree : ∀ other, ¬ s.holds hash other .log) :
      Turns hash s (.lock thread) (s.put thread { s.threads thread with logCall := .pushing })
  | ran (thread : ThreadId) (branch : Branch) (s' : LockState)
      (hnone : (s.threads thread).logCall = .none)
      (hsections : Sections hash s thread (s.threads thread).place s') :
      Turns hash s (.run thread branch) s'
  | pushed (thread : ThreadId) (branch : Branch)
      (hpushing : (s.threads thread).logCall = .pushing) :
      Turns hash s (.run thread branch) (s.put thread { s.threads thread with logCall := .none })
  | called (thread : ThreadId) (hnone : (s.threads thread).logCall = .none) :
      Turns hash s (.log thread) (s.put thread { s.threads thread with logCall := .calling })

theorem turns_of_step {action : LockAction} (hstep : s.step hash action = some s') :
    Turns hash s action s' := by
  cases action with
  | lock thread =>
      rw [step] at hstep
      split at hstep
      · contradiction
      · next mutex hwants =>
          rw [Option.ite_none_left_eq_some] at hstep
          obtain ⟨hheld, heq⟩ := hstep
          obtain rfl := Option.some.inj heq
          have hfree : ∀ other, ¬ s.holds hash other mutex := fun other hother =>
            hheld (isHeld_iff.mpr ⟨other, hother⟩)
          unfold Thread.wants at hwants
          unfold enter
          cases hcall : (s.threads thread).logCall with
          | none =>
              rw [hcall] at hwants
              exact .entered thread mutex hcall hwants hfree
          | calling =>
              rw [hcall] at hwants
              obtain rfl := Option.some.inj hwants
              exact .pushing thread hcall hfree
          | pushing =>
              rw [hcall] at hwants
              contradiction
  | run thread branch =>
      rw [step] at hstep
      split at hstep
      · next hnone => exact .ran thread branch s' hnone (sections_of_run hstep)
      · contradiction
      · next hpushing =>
          obtain rfl := Option.some.inj hstep
          exact .pushed thread branch hpushing
  | log thread =>
      rw [step, Option.ite_none_right_eq_some] at hstep
      obtain ⟨⟨hnone, -⟩, heq⟩ := hstep
      obtain rfl := Option.some.inj heq
      exact .called thread hnone

section Keeps

variable {t : Thread} {next : Place}

/-- A step of one thread leaves the others where they are. -/
theorem threads_update (hthreads : s'.threads = Function.update s.threads thread t)
    (other : ThreadId) :
    other = thread ∧ s'.threads other = t ∨
      other ≠ thread ∧ s'.threads other = s.threads other := by
  rw [hthreads]
  by_cases hsame : other = thread
  · exact .inl ⟨hsame, by rw [hsame, Function.update_self]⟩
  · exact .inr ⟨hsame, Function.update_of_ne hsame _ _⟩

theorem Exclusive.update (hexclusive : Exclusive hash s)
    (hthreads : s'.threads = Function.update s.threads thread t)
    (hholds : ∀ mutex ∈ t.holds hash, s.holds hash thread mutex ∨
      ∀ other, ¬ s.holds hash other mutex) : Exclusive hash s' := by
  intro first second mutex hfirst hsecond
  unfold holds at hfirst hsecond
  rcases threads_update hthreads first with ⟨hfirstEq, heq⟩ | ⟨-, heq⟩
  all_goals
    rcases threads_update hthreads second with ⟨hsecondEq, heq'⟩ | ⟨-, heq'⟩
    all_goals rw [heq] at hfirst
    all_goals rw [heq'] at hsecond
  · rw [hfirstEq, hsecondEq]
  · rcases hholds mutex hfirst with hheld | hfree
    · rw [hfirstEq]
      exact hexclusive _ _ mutex hheld hsecond
    · exact absurd hsecond (hfree second)
  · rcases hholds mutex hsecond with hheld | hfree
    · rw [hsecondEq]
      exact hexclusive _ _ mutex hfirst hheld
    · exact absurd hfirst (hfree first)
  · exact hexclusive _ _ mutex hfirst hsecond

theorem entry_holds {place : Place} {mutex : Mutex} (hwants : place.wants hash = some mutex) :
    (s.entry place).holds hash ⊆ mutex :: place.holds hash := by
  unfold entry
  split <;> simp_all

theorem Sections.threads {place : Place} (hsections : Sections hash s thread place s') :
    ∃ next : Place, s'.threads = Function.update s.threads thread { place := next } ∧
      next.holds hash ⊆ place.holds hash := by
  cases hsections with
  | quiet s' next hthreads hconnections hnext hholds => exact ⟨next, hthreads, hholds⟩
  | erased fd conn hplace => exact ⟨_, rfl, List.nil_subset _⟩
  | accepted outer fd ip hplace =>
      subst hplace
      exact ⟨_, rfl, List.Subset.refl _⟩
  | inserted outer conn hplace | uninserted outer conn hplace =>
      subst hplace
      exact ⟨_, rfl, List.subset_cons_self _ _⟩
  | cleaned hplace => exact ⟨_, rfl, (home_bare thread).1 ▸ List.nil_subset _⟩

theorem exclusive_step (hexclusive : Exclusive hash s) {action : LockAction}
    (hturns : Turns hash s action s') : Exclusive hash s' := by
  cases hturns with
  | entered thread mutex hnone hwants hfree =>
      refine hexclusive.update rfl fun held hheld => ?_
      rcases List.mem_cons.mp (entry_holds hwants hheld) with rfl | hheld
      · exact .inr hfree
      · exact .inl (List.mem_append_right _ hheld)
  | pushing thread hcalling hfree =>
      refine hexclusive.update rfl fun held hheld => ?_
      rcases List.mem_cons.mp hheld with rfl | hheld
      · exact .inr hfree
      · exact .inl (List.mem_append_right _ hheld)
  | ran thread branch s' hnone hsections =>
      obtain ⟨next, hthreads, hholds⟩ := hsections.threads
      exact hexclusive.update hthreads fun held hheld =>
        .inl (List.mem_append_right _ (hholds hheld))
  | pushed thread branch hpushing | called thread hnone =>
      exact hexclusive.update rfl fun held hheld => .inl (List.mem_append_right _ hheld)

theorem view_update {α : Type} {view : Place → α} {value : α}
    (hthreads : s'.threads = Function.update s.threads thread t) {other : ThreadId}
    (hother : view (s'.threads other).place = value) :
    other = thread ∧ view t.place = value ∨
      other ≠ thread ∧ view (s.threads other).place = value := by
  rcases threads_update hthreads other with ⟨hsame, heq⟩ | ⟨hne, heq⟩ <;> rw [heq] at hother
  · exact .inl ⟨hsame, hother⟩
  · exact .inr ⟨hne, hother⟩

/-- What the thread had before, or nothing. -/
theorem view_kept {view : Place → Option Nat} {id : Nat}
    (hthreads : s'.threads = Function.update s.threads thread t)
    (hview : view t.place = view (s.threads thread).place ∨ view t.place = none)
    {other : ThreadId} (hother : view (s'.threads other).place = some id) :
    view (s.threads other).place = some id := by
  rcases view_update hthreads hother with ⟨rfl, hown⟩ | ⟨-, hkept⟩
  · rcases hview with hsame | hnone
    · exact hsame ▸ hown
    · rw [hnone] at hown
      contradiction
  · exact hkept

/-- The map and the identifiers stay, and the thread goes on with what it had. -/
theorem Tracked.turned (htracked : Tracked s)
    (hthreads : s'.threads = Function.update s.threads thread t)
    (hconnections : s'.connections = s.connections) (hnext : s'.nextId = s.nextId)
    (hgone : t.place.gone? = (s.threads thread).place.gone? ∨ t.place.gone? = none)
    (hfresh : t.place.fresh? = (s.threads thread).place.fresh? ∨ t.place.fresh? = none)
    (hvisits : ∀ conn ∈ t.place.visits, conn.id ∈ s.mapped) : Tracked s' := by
  have hmapped : s'.mapped = s.mapped := congrArg (List.map ConnRef.id) hconnections
  have hgone' : ∀ other id, (s'.threads other).place.gone? = some id →
      (s.threads other).place.gone? = some id := fun _ _ => view_kept hthreads hgone
  have hfresh' : ∀ other id, (s'.threads other).place.fresh? = some id →
      (s.threads other).place.fresh? = some id := fun _ _ => view_kept hthreads hfresh
  refine ⟨?_, ?_, ?_, ?_, ?_, ?_⟩
  · rw [hmapped]
    exact htracked.distinct
  · rw [hmapped, hnext]
    exact htracked.known
  · intro other id hother
    rw [hmapped, hnext]
    exact htracked.gone other id (hgone' other id hother)
  · intro other id hother
    rw [hmapped, hnext]
    exact htracked.fresh other id (hfresh' other id hother)
  · intro owner id howner other
    obtain ⟨hnotGone, hunique⟩ := htracked.foreign owner id (hfresh' owner id howner) other
    exact ⟨fun hother => hnotGone (hgone' other id hother),
      fun hother => hunique (hfresh' other id hother)⟩
  · intro other conn hconn
    rw [hmapped]
    rcases threads_update hthreads other with ⟨rfl, heq⟩ | ⟨-, heq⟩ <;> rw [heq] at hconn
    · exact hvisits conn hconn
    · exact htracked.visits other conn hconn

/-- Entries leave the map, and a removed one may be kept at hand. -/
theorem Tracked.shrunk (htracked : Tracked s)
    (hthreads : s'.threads = Function.update s.threads thread { place := next })
    (hnext : s'.nextId = s.nextId) (hconnections : s'.connections.Sublist s.connections)
    (hgone : ∀ id, next.gone? = some id → (s.threads thread).place.gone? = some id ∨
      id ∈ s.mapped ∧ id ∉ s'.mapped)
    (hfresh : next.fresh? = none) (hvisits : next.visits = [])
    (hothers : ∀ other, other ≠ thread → (s.threads other).place.visits = []) :
    Tracked s' := by
  have hsub : s'.mapped.Sublist s.mapped := hconnections.map ConnRef.id
  have hgone' : ∀ other id, (s'.threads other).place.gone? = some id →
      (s.threads other).place.gone? = some id ∨ id ∈ s.mapped ∧ id ∉ s'.mapped := by
    intro other id hother
    rcases view_update hthreads hother with ⟨rfl, hown⟩ | ⟨-, hkept⟩
    · exact hgone id hown
    · exact .inl hkept
  have hfresh' : ∀ other id, (s'.threads other).place.fresh? = some id →
      (s.threads other).place.fresh? = some id := fun _ _ => view_kept hthreads (.inr hfresh)
  refine ⟨hsub.nodup htracked.distinct, ?_, ?_, ?_, ?_, ?_⟩
  · intro id hid
    rw [hnext]
    exact htracked.known id (hsub.subset hid)
  · intro other id hother
    rw [hnext]
    rcases hgone' other id hother with hbefore | ⟨hmem, hout⟩
    · obtain ⟨hless, hout⟩ := htracked.gone other id hbefore
      exact ⟨hless, fun hid => hout (hsub.subset hid)⟩
    · exact ⟨htracked.known id hmem, hout⟩
  · intro other id hother
    obtain ⟨hless, hout⟩ := htracked.fresh other id (hfresh' other id hother)
    rw [hnext]
    exact ⟨hless, fun hid => hout (hsub.subset hid)⟩
  · intro owner id howner other
    have hbefore := hfresh' owner id howner
    obtain ⟨hnotGone, hunique⟩ := htracked.foreign owner id hbefore other
    refine ⟨fun hother => ?_, fun hother => hunique (hfresh' other id hother)⟩
    rcases hgone' other id hother with hgoneBefore | ⟨hmem, -⟩
    · exact hnotGone hgoneBefore
    · exact (htracked.fresh owner id hbefore).2 hmem
  · intro other conn hconn
    rcases threads_update hthreads other with ⟨rfl, heq⟩ | ⟨hne, heq⟩ <;> rw [heq] at hconn
    · rw [hvisits] at hconn
      contradiction
    · rw [hothers other hne] at hconn
      contradiction

/-- A client is accepted under an identifier that nobody has. -/
theorem Tracked.accepted (htracked : Tracked s) {outer : Option Nat} {fd : Nat} {ip : Bytes}
    (hplace : (s.threads thread).place = .accepting outer) :
    Tracked { s.goTo thread (.acquiring outer { id := s.nextId, fd, ip }) with
      nextId := s.nextId + 1 } := by
  generalize hstate : ({ s.goTo thread (.acquiring outer { id := s.nextId, fd, ip }) with
    nextId := s.nextId + 1 } : LockState) = s'
  have hthreads : s'.threads = Function.update s.threads thread
      { place := .acquiring outer { id := s.nextId, fd, ip } } := by rw [← hstate]; rfl
  have hnext : s'.nextId = s.nextId + 1 := by rw [← hstate]
  have hmapped : s'.mapped = s.mapped := by rw [← hstate]; rfl
  have hgone' : ∀ other id, (s'.threads other).place.gone? = some id →
      (s.threads other).place.gone? = some id :=
    fun _ _ => view_kept hthreads (.inl (by rw [hplace]; rfl))
  have hfresh' : ∀ other id, (s'.threads other).place.fresh? = some id →
      other = thread ∧ id = s.nextId ∨
        other ≠ thread ∧ (s.threads other).place.fresh? = some id := by
    intro other id hother
    rcases view_update hthreads hother with ⟨hsame, hown⟩ | hkept
    · exact .inl ⟨hsame, (Option.some.inj hown).symm⟩
    · exact .inr hkept
  refine ⟨hmapped ▸ htracked.distinct, ?_, ?_, ?_, ?_, ?_⟩
  · intro id hid
    rw [hmapped] at hid
    rw [hnext]
    exact Nat.lt_succ_of_lt (htracked.known id hid)
  · intro other id hother
    obtain ⟨hless, hout⟩ := htracked.gone other id (hgone' other id hother)
    rw [hmapped, hnext]
    exact ⟨Nat.lt_succ_of_lt hless, hout⟩
  · intro other id hother
    rw [hmapped, hnext]
    rcases hfresh' other id hother with ⟨-, rfl⟩ | ⟨-, hkept⟩
    · exact ⟨Nat.lt_succ_self _, fun hid => Nat.lt_irrefl _ (htracked.known _ hid)⟩
    · obtain ⟨hless, hout⟩ := htracked.fresh other id hkept
      exact ⟨Nat.lt_succ_of_lt hless, hout⟩
  · intro owner id howner other
    rcases hfresh' owner id howner with ⟨hsame, rfl⟩ | ⟨hne, hkept⟩
    · refine ⟨fun hother => ?_, fun hother => ?_⟩
      · exact Nat.lt_irrefl _ (htracked.gone other _ (hgone' other _ hother)).1
      · rcases hfresh' other _ hother with ⟨hsame', -⟩ | ⟨-, hkept'⟩
        · rw [hsame', hsame]
        · exact absurd (htracked.fresh other _ hkept').1 (Nat.lt_irrefl _)
    · obtain ⟨hnotGone, hunique⟩ := htracked.foreign owner id hkept other
      refine ⟨fun hother => hnotGone (hgone' other id hother), fun hother => ?_⟩
      rcases hfresh' other id hother with ⟨-, rfl⟩ | ⟨-, hkept'⟩
      · exact absurd (htracked.fresh owner _ hkept).1 (Nat.lt_irrefl _)
      · exact hunique hkept'
  · intro other conn hconn
    rw [hmapped]
    rcases threads_update hthreads other with ⟨-, heq⟩ | ⟨-, heq⟩ <;> rw [heq] at hconn
    · contradiction
    · exact htracked.visits other conn hconn

theorem others_sublist (fd : Nat) : (s.others fd).Sublist s.connections := List.filter_sublist

/-- The accepted client goes into the map, and nobody has removed one of its identity. -/
theorem Tracked.inserted (htracked : Tracked s) {outer : Option Nat} {conn : ConnRef}
    (hplace : (s.threads thread).place = .inserted outer conn)
    (hothers : ∀ other, other ≠ thread → (s.threads other).place.visits = []) :
    Tracked { s.goTo thread (.registering outer conn) with
      connections := conn :: s.others conn.fd } := by
  generalize hstate : ({ s.goTo thread (.registering outer conn) with
    connections := conn :: s.others conn.fd } : LockState) = s'
  have hthreads : s'.threads = Function.update s.threads thread
      { place := .registering outer conn } := by rw [← hstate]; rfl
  have hnext : s'.nextId = s.nextId := by rw [← hstate]; rfl
  have hmem : ∀ id, id ∈ s'.mapped → id = conn.id ∨ id ∈ s.mapped := by
    intro id hid
    rw [← hstate] at hid
    rcases List.mem_cons.mp hid with rfl | hid
    · exact .inl rfl
    · exact .inr (((others_sublist conn.fd).map ConnRef.id).subset hid)
  have hown : (s.threads thread).place.fresh? = some conn.id := by
    rw [hplace]
    rfl
  obtain ⟨hless, hout⟩ := htracked.fresh thread conn.id hown
  have hgone' : ∀ other id, (s'.threads other).place.gone? = some id →
      (s.threads other).place.gone? = some id :=
    fun _ _ => view_kept hthreads (.inl (by rw [hplace]; rfl))
  have hfresh' : ∀ other id, (s'.threads other).place.fresh? = some id →
      other ≠ thread ∧ (s.threads other).place.fresh? = some id := by
    intro other id hother
    rcases view_update hthreads hother with ⟨-, hnone⟩ | hkept
    · contradiction
    · exact hkept
  refine ⟨?_, ?_, ?_, ?_, ?_, ?_⟩
  · rw [← hstate]
    refine List.nodup_cons.mpr ⟨fun hid => ?_, ?_⟩
    · exact hout (((others_sublist conn.fd).map ConnRef.id).subset hid)
    · exact ((others_sublist conn.fd).map ConnRef.id).nodup htracked.distinct
  · intro id hid
    rw [hnext]
    rcases hmem id hid with rfl | hid
    · exact hless
    · exact htracked.known id hid
  · intro other id hother
    have hbefore := hgone' other id hother
    obtain ⟨hlessOther, houtOther⟩ := htracked.gone other id hbefore
    rw [hnext]
    refine ⟨hlessOther, fun hid => ?_⟩
    rcases hmem id hid with rfl | hid
    · exact (htracked.foreign thread _ hown other).1 hbefore
    · exact houtOther hid
  · intro other id hother
    obtain ⟨hne, hbefore⟩ := hfresh' other id hother
    obtain ⟨hlessOther, houtOther⟩ := htracked.fresh other id hbefore
    rw [hnext]
    refine ⟨hlessOther, fun hid => ?_⟩
    rcases hmem id hid with rfl | hid
    · exact hne ((htracked.foreign thread _ hown other).2 hbefore)
    · exact houtOther hid
  · intro owner id howner other
    obtain ⟨hnotGone, hunique⟩ := htracked.foreign owner id (hfresh' owner id howner).2 other
    exact ⟨fun hother => hnotGone (hgone' other id hother),
      fun hother => hunique (hfresh' other id hother).2⟩
  · intro other member hmember
    rcases threads_update hthreads other with ⟨-, heq⟩ | ⟨hne, heq⟩ <;> rw [heq] at hmember
    · contradiction
    · rw [hothers other hne] at hmember
      contradiction

/-- Whoever looks through the map holds it. -/
theorem visits_nil_of_connMap (hexclusive : Exclusive hash s)
    (hheld : .connMap ∈ (s.threads thread).place.holds hash) (other : ThreadId)
    (hne : other ≠ thread) : (s.threads other).place.visits = [] := by
  by_contra hvisits
  have hother : .connMap ∈ (s.threads other).place.holds hash := by
    cases hplace : (s.threads other).place with
    | testing | tested => simp
    | _ => simp [hplace] at hvisits
  exact hne (hexclusive other thread .connMap (List.mem_append_right _ hother)
    (List.mem_append_right _ hheld))

theorem tracked_sections {place : Place} (hplace : (s.threads thread).place = place)
    (hexclusive : Exclusive hash s) (htracked : Tracked s)
    (hsections : Sections hash s thread place s') : Tracked s' := by
  have hothers := @visits_nil_of_connMap hash s thread hexclusive
  cases hsections with
  | quiet s' next hthreads hconnections hnext hholds hgone hfresh hvisits =>
      subst hplace
      exact htracked.turned hthreads hconnections hnext hgone hfresh fun conn hconn =>
        htracked.visits thread conn (hvisits hconn)
  | erased fd conn hat hfind =>
      refine htracked.shrunk rfl rfl (others_sublist fd) ?_ rfl rfl (hothers ?_)
      · rintro id hid
        obtain rfl := Option.some.inj hid
        have hmem := List.mem_of_find?_eq_some hfind
        refine .inr ⟨List.mem_map_of_mem hmem, fun hstill => ?_⟩
        -- the entry of this identity has the descriptor that has been erased
        obtain ⟨other, hother, hsame⟩ := List.mem_map.mp hstill
        obtain ⟨hthere, hfd⟩ := List.mem_filter.mp hother
        obtain rfl := List.inj_on_of_nodup_map htracked.distinct hthere hmem hsame
        have hfound := List.find?_some hfind
        simp at hfd hfound
        exact hfd hfound
      · rw [hplace, hat]
        simp
  | accepted outer fd ip hat => exact htracked.accepted (hplace.trans hat)
  | inserted outer conn hat =>
      refine htracked.inserted (hplace.trans hat) (hothers ?_)
      rw [hplace, hat]
      simp
  | uninserted outer conn hat =>
      refine htracked.shrunk rfl rfl (others_sublist conn.fd) (fun id hid => ?_) rfl rfl
        (hothers ?_)
      · rw [hplace, hat]
        exact .inl hid
      · rw [hplace, hat]
        simp
  | cleaned hat =>
      refine htracked.shrunk rfl rfl (List.nil_sublist _) (fun id hid => ?_)
        (@home_bare hash thread).2.2.1 (@home_bare hash thread).2.2.2 (hothers ?_)
      · rw [(@home_bare hash thread).2.1] at hid
        contradiction
      · rw [hplace, hat]
        simp

theorem entry_views (place : Place) :
    (s.entry place).gone? = place.gone? ∧ (s.entry place).fresh? = place.fresh? ∧
      ∀ conn ∈ (s.entry place).visits, conn ∈ place.visits ∨ conn ∈ s.connections := by
  unfold entry
  split <;> simp +contextual

theorem tracked_step (hexclusive : Exclusive hash s) (htracked : Tracked s) {action : LockAction}
    (hturns : Turns hash s action s') : Tracked s' := by
  cases hturns with
  | entered thread mutex hnone hwants hfree =>
      obtain ⟨hgone, hfresh, hvisits⟩ := entry_views (s := s) (s.threads thread).place
      refine htracked.turned rfl rfl rfl (.inl hgone) (.inl hfresh) fun conn hconn => ?_
      rcases hvisits conn hconn with hbefore | hmem
      · exact htracked.visits thread conn hbefore
      · exact List.mem_map_of_mem hmem
  | ran thread branch s' hnone hsections => exact tracked_sections rfl hexclusive htracked hsections
  | pushing thread | pushed thread | called thread =>
      exact htracked.turned rfl rfl rfl (.inl rfl) (.inl rfl) (htracked.visits thread)

end Keeps

/-- What holds in every state. -/
structure Disciplined (hash : Bytes → Nat) (s : LockState) : Prop where
  exclusive : Exclusive hash s
  tracked : Tracked s

theorem disciplined_step (s : LockState) (action : LockAction) (s' : LockState)
    (hdisciplined : Disciplined hash s) (hstep : s.step hash action = some s') :
    Disciplined hash s' := by
  have hturns := turns_of_step hstep
  exact ⟨exclusive_step hdisciplined.exclusive hturns,
    tracked_step hdisciplined.exclusive hdisciplined.tracked hturns⟩

theorem disciplined_run {actions : List LockAction} (hrun : run (step hash) {} actions = some s) :
    Disciplined hash s :=
  run_invariant disciplined_step ⟨exclusive_start, tracked_start⟩ hrun

section Order

theorem level_mapped {id : Nat} (hmem : id ∈ s.mapped) : s.level (.conn id) = 2 := if_pos hmem

theorem level_gone {id : Nat} (hout : id ∉ s.mapped) : s.level (.conn id) = 0 := if_neg hout

theorem level_conn_le (s : LockState) (id : Nat) : s.level (.conn id) ≤ 2 := by
  by_cases hmem : id ∈ s.mapped
  · rw [level_mapped hmem]
  · rw [level_gone hmem]
    decide

theorem level_conn_lt {id : Nat} {mutex : Mutex} (hlevel : 2 < s.level mutex) :
    s.level (.conn id) < s.level mutex :=
  (level_conn_le s id).trans_lt hlevel

/-- The mutex of a connection that a caller has taken, if any. -/
theorem level_outer_lt {outer : Option Nat} {mutex held : Mutex} (hlevel : 2 < s.level mutex)
    (hheld : held ∈ (outer.map Mutex.conn).toList) : s.level held < s.level mutex := by
  obtain ⟨id, -, rfl⟩ : ∃ id, outer = some id ∧ .conn id = held := by simpa using hheld
  exact level_conn_lt hlevel

/-- At every place the mutex that is wanted comes behind those that are held. -/
theorem level_lt_place (htracked : Tracked s) {mutex held : Mutex}
    (hwants : (s.threads thread).place.wants hash = some mutex)
    (hheld : held ∈ (s.threads thread).place.holds hash) : s.level held < s.level mutex := by
  have hgone := htracked.gone thread
  have hvisits := htracked.visits thread
  cases hplace : (s.threads thread).place <;> rw [hplace] at hwants hheld hgone hvisits
  case submitting inside task =>
    obtain rfl := Option.some.inj hwants
    exact level_outer_lt (by simp [level]) hheld
  case acquiring outer conn | undoing outer conn =>
    obtain rfl := Option.some.inj hwants
    exact level_outer_lt (by simp [level]) hheld
  case inserting outer conn | uninserting outer conn =>
    -- the connection whose mutex is held has been removed
    obtain rfl := Option.some.inj hwants
    obtain ⟨id, houter, rfl⟩ : ∃ id, outer = some id ∧ .conn id = held := by simpa using hheld
    rw [level_gone (hgone id houter).2]
    simp [level]
  case testing rest =>
    cases rest with
    | nil => contradiction
    | cons conn rest =>
        obtain rfl := Option.some.inj hwants
        obtain rfl := List.mem_singleton.mp hheld
        rw [level_mapped (hvisits conn List.mem_cons_self)]
        simp [level]
  case cleaningUp rest =>
    cases rest with
    | nil => contradiction
    | cons conn rest =>
        obtain rfl := Option.some.inj hwants
        obtain rfl := List.mem_singleton.mp hheld
        simp [level]
  case inShard index entries =>
    cases entries with
    | nil => contradiction
    | cons entry rest =>
        obtain rfl := Option.some.inj hwants
        obtain rfl := List.mem_singleton.mp hheld
        simp [level]
  case limiting conn | consuming conn bucket =>
    obtain rfl := Option.some.inj hwants
    obtain rfl := List.mem_singleton.mp hheld
    exact level_conn_lt (by simp [level])
  -- at the other places nothing is wanted, or nothing is held
  all_goals contradiction

theorem level_place_lt_log {held : Mutex} {place : Place} (hheld : held ∈ place.holds hash) :
    s.level held < s.level .log := by
  have hne : held ≠ .log := by
    rintro rfl
    cases place <;> simp at hheld
  cases held with
  | conn id => exact level_conn_lt (by simp [level])
  | log => exact absurd rfl hne
  | _ => simp [level]

theorem ordered (htracked : Tracked s) : Ordered s.level (s.wants hash) (s.holds hash) := by
  intro thread mutex hwants held hheld
  unfold wants Thread.wants at hwants
  unfold holds Thread.holds at hheld
  cases hcall : (s.threads thread).logCall with
  | none =>
      simp only [hcall, reduceCtorEq, ↓reduceIte, List.nil_append] at hwants hheld
      exact level_lt_place htracked hwants hheld
  | calling =>
      simp only [hcall, reduceCtorEq, ↓reduceIte, List.nil_append] at hwants hheld
      obtain rfl := Option.some.inj hwants
      exact level_place_lt_log hheld
  | pushing =>
      rw [hcall] at hwants
      contradiction

end Order

section Progress

variable (hash)

/-- The thread is between two calls, has ended, or waits for a task. -/
def Rests (s : LockState) (thread : ThreadId) : Prop :=
  (s.threads thread).logCall = .none ∧
    ((s.threads thread).place = .idle ∨ (s.threads thread).place = .exited ∨
      (s.threads thread).place = .awaitingTask ∧ s.hasTask = false)

/-- The thread waits for space in the task queue. -/
def AwaitsRoom (s : LockState) (thread : ThreadId) : Prop :=
  (∃ inside task, (s.threads thread).place = .awaitingRoom inside task) ∧ s.hasRoom = false

/-- The thread can take the mutex it wants, or run on to the next one. -/
def CanMove (s : LockState) (thread : ThreadId) : Prop :=
  ∃ s', s.step hash (.lock thread) = some s' ∨ ∃ branch, s.step hash (.run thread branch) = some s'

variable {hash}

/-- The part of the code behind a mutex can always be run, but for the two waits on the queue. -/
theorem section_possible (hwants : (s.threads thread).place.wants hash = none)
    (hnone : (s.threads thread).logCall = .none) :
    s.Rests thread ∨ s.AwaitsRoom thread ∨
      ∃ branch s', s.runSection hash thread (s.threads thread).place branch = some s' := by
  cases hplace : (s.threads thread).place <;> rw [hplace] at hwants
  case idle => exact .inl ⟨hnone, .inl hplace⟩
  case exited => exact .inl ⟨hnone, .inr (.inl hplace)⟩
  case awaitingTask =>
    by_cases htask : s.hasTask = true
    · exact .inr (.inr ⟨.go, _, if_pos htask⟩)
    · exact .inl ⟨hnone, .inr (.inr ⟨hplace, by simpa using htask⟩)⟩
  case awaitingRoom inside task =>
    by_cases hroom : s.hasRoom = true
    · exact .inr (.inr ⟨.go, _, if_pos hroom⟩)
    · exact .inr (.inl ⟨⟨inside, task, hplace⟩, by simpa using hroom⟩)
  all_goals refine .inr (.inr ?_)
  case lookedUp fd reading | erasing fd =>
    refine ⟨.go, ?_⟩
    rw [runSection]
    cases s.find fd <;> exact ⟨_, rfl⟩
  case queueing inside task =>
    refine ⟨.go, ?_⟩
    rw [runSection]
    split
    · split <;> exact ⟨_, rfl⟩
    · exact ⟨_, rfl⟩
  case inShard index entries =>
    cases entries with
    | nil =>
        refine ⟨.go, ?_⟩
        rw [runSection]
        split <;> exact ⟨_, rfl⟩
    | cons entry rest => contradiction
  case testing rest | cleaningUp rest =>
    cases rest with
    | nil => exact ⟨.go, _, rfl⟩
    | cons conn rest => contradiction
  case taking =>
    cases htasks : s.tasks with
    | nil => exact ⟨.go, _, by simp only [runSection, htasks]; rfl⟩
    | cons task rest => exact ⟨.go, _, by simp only [runSection, htasks]; rfl⟩
  case findingBucket conn =>
    refine ⟨.go, ?_⟩
    rw [runSection]
    split <;> exact ⟨_, rfl⟩
  case reading conn | writing conn => exact ⟨.otherwise, _, rfl⟩
  all_goals
    first
    | contradiction
    | exact ⟨.go, _, rfl⟩

/-- A thread that wants a mutex takes it, or waits for its holder. -/
theorem lock_possible {mutex : Mutex} (hwants : s.wants hash thread = some mutex) :
    s.CanMove hash thread ∨ ∃ holder, s.WaitsFor hash thread holder := by
  by_cases hheld : s.isHeld hash mutex = true
  · obtain ⟨holder, hholder⟩ := isHeld_iff.mp hheld
    exact .inr ⟨holder, mutex, hwants, hholder⟩
  · unfold wants at hwants
    refine .inl ⟨s.enter thread, .inl ?_⟩
    simp only [step, hwants]
    exact if_neg hheld

theorem rests_or_moves (hash : Bytes → Nat) (s : LockState) (thread : ThreadId) :
    s.Rests thread ∨ s.AwaitsRoom thread ∨ s.CanMove hash thread ∨
      ∃ holder, s.WaitsFor hash thread holder := by
  cases hcall : (s.threads thread).logCall with
  | calling =>
      have hwants : s.wants hash thread = some .log := by simp [wants, Thread.wants, hcall]
      exact .inr (.inr (lock_possible hwants))
  | pushing =>
      refine .inr (.inr (.inl ⟨s.put thread { s.threads thread with logCall := .none }, ?_⟩))
      exact .inr ⟨.go, by simp only [step, hcall]⟩
  | none =>
      cases hwants : (s.threads thread).place.wants hash with
      | some mutex =>
          exact .inr (.inr (lock_possible (by rw [wants, Thread.wants, hcall]; exact hwants)))
      | none =>
          rcases section_possible hwants hcall with hrests | hroom | ⟨branch, s', hrun⟩
          · exact .inl hrests
          · exact .inr (.inl hroom)
          · refine .inr (.inr (.inl ⟨s', .inr ⟨branch, ?_⟩⟩))
            simp only [step, hcall]
            exact hrun

/-- Nobody who rests holds a mutex. -/
theorem not_rests_of_holds {mutex : Mutex} (hheld : s.holds hash thread mutex) :
    ¬ s.Rests thread := by
  rintro ⟨hnone, hplace | hplace | ⟨hplace, -⟩⟩
  all_goals simp [holds, Thread.holds, hnone, hplace] at hheld

end Progress

/-- The thread of `handle_accept` up to the place before the map's mutex. -/
def acceptsUpToMap (thread : ThreadId) (fd : Nat) : List LockAction :=
  [.run thread (.client fd [1]), .lock thread, .run thread .go]

/-- The epoll thread submits a read task. -/
def submitsRead (fd : Nat) : List LockAction :=
  [.run .loop (.call (.read fd)), .lock .loop, .run .loop .go, .lock .loop, .run .loop .go]

/-- A worker takes a read task and the mutex of its connection. -/
def beginsRead (thread : ThreadId) : List LockAction :=
  [.lock thread, .run thread .go, .lock thread]

def reader : ThreadId := .worker ⟨0, by decide⟩

def remover : ThreadId := .worker ⟨1, by decide⟩

/-- One worker reads a connection of the map and another removes its own and accepts the next
client, while the sweep has come to the first one. -/
def sweepMeetsWorkers : List LockAction :=
  [.run .loop (.call .accept)] ++ acceptsUpToMap .loop 7 ++
    [.lock .loop, .run .loop .go, .run .loop .go] ++ acceptsUpToMap .loop 8 ++
    [.lock .loop, .run .loop .go, .run .loop .go, .run .loop .otherwise] ++
    submitsRead 7 ++ submitsRead 8 ++ beginsRead reader ++ beginsRead remover ++
    [.run remover .remove, .lock remover, .run remover .go, .lock remover, .run remover .go,
      .lock remover, .run remover .go] ++ acceptsUpToMap remover 9 ++
    [.run .loop (.call .checkIdle), .lock .loop]

end LockState

end HttpServer
