/-
What the epoll thread has taken up and not finished.  Once the loop is no longer
`RUNNING` no client is accepted, so an execution only comes nearer to its end,
and the connection map grows by at most the clients already let in.
-/
import HttpServer.LoopPass

namespace HttpServer

/-- Steps until an execution returns when no client is accepted any more. -/
def Pc.stepsLeft : Pc → Nat
  | done => 1
  | loading | unregistering => 2
  | subtracting | dropping _ | rejecting _ => 3
  | releasing | counting _ | undoClose _ => 4
  | removing _ | undoErase _ => 5
  | undoRelease _ => 6
  | adding _ => 7
  | inserting _ => 8
  | acquiring _ => 9
  | accepting => 10

/-- A client on the way into the map. -/
def Pc.inserts : Pc → Nat
  | accepting | acquiring _ | inserting _ => 1
  | _ => 0

/-- The connection that `remove_connection` has taken out is at hand. -/
def Exec.Named (e : Exec) : Prop :=
  match e.pc with
  | .releasing | .subtracting | .unregistering => e.removed.isSome = true
  | _ => True

namespace ServerState

variable {s s' : ServerState} {e : Exec} {next : List Exec} {outcome : Outcome}

/-- The executions of the epoll thread. -/
def loopExecs (s : ServerState) : List Exec := s.execs.filter fun e => e.task.isNone

theorem busy_eq_false_iff : s.busy = false ↔ s.loopExecs = [] := by
  simp [busy, loopExecs]

/-- The most entries the map can come to have. -/
def mappable (s : ServerState) : Nat :=
  s.connections.length + (s.execs.map fun e => e.pc.inserts).sum

/-- Steps for what has been taken up: a fetched event and a collected descriptor are each at
most one removal. -/
def taskWork (s : ServerState) : Nat :=
  6 * s.fetched.length + 6 * s.idle.length + (s.loopExecs.map fun e => e.pc.stepsLeft).sum

/-- A step of an execution leaves at most one of the same thread in its place. -/
structure Replaces (s s' : ServerState) (e : Exec) (next : List Exec) : Prop where
  execs : s'.execs = next ++ s.execs.erase e
  task : ∀ other ∈ next, other.task = e.task
  named : ∀ other ∈ next, other.Named
  fetched : s'.fetched = s.fetched
  idle : s'.idle = s.idle
  epollOpen : s'.epollOpen = s.epollOpen
  nearer : s.loop ≠ .running → (next.map fun e => e.pc.stepsLeft).sum < e.pc.stepsLeft
  room : s.loop ≠ .running →
    s'.connections.length + (next.map fun e => e.pc.inserts).sum ≤
      s.connections.length + e.pc.inserts

theorem others_length_le (fd : Nat) : (s.others fd).length ≤ s.connections.length :=
  List.length_filter_le _ _

/-- The execution moves on to a place nearer to the end. -/
theorem replaces_moved {moved : Exec} (hexecs : s'.execs = moved :: s.execs.erase e)
    (htask : moved.task = e.task) (hnamed : moved.Named) (hfetched : s'.fetched = s.fetched)
    (hidle : s'.idle = s.idle) (hepoll : s'.epollOpen = s.epollOpen)
    (hnearer : s.loop ≠ .running → moved.pc.stepsLeft < e.pc.stepsLeft)
    (hroom : s.loop ≠ .running → s'.connections.length + moved.pc.inserts ≤
      s.connections.length + e.pc.inserts) : Replaces s s' e [moved] where
  execs := hexecs
  task := List.forall_mem_singleton.mpr htask
  named := List.forall_mem_singleton.mpr hnamed
  fetched := hfetched
  idle := hidle
  epollOpen := hepoll
  nearer hloop := by simpa using hnearer hloop
  room hloop := by simpa using hroom hloop

theorem exists_replaces (hadvances : Advances s e outcome s') :
    ∃ next, Replaces s s' e next := by
  cases hadvances with
  | returned hpc =>
      refine ⟨[], ⟨rfl, nofun, nofun, rfl, rfl, rfl, fun _ => ?_, fun _ => ?_⟩⟩
      · simp [hpc, Pc.stepsLeft]
      · exact Nat.le_add_right _ _
  | unregistered conn hpc hremoved =>
      by_cases hrunning : s.loop = .running ∧ s.listening = true
      · rw [unregister, if_pos hrunning]
        exact ⟨_, replaces_moved rfl rfl trivial rfl rfl rfl
          (fun hloop => absurd hrunning.1 hloop) (fun hloop => absurd hrunning.1 hloop)⟩
      · rw [unregister, if_neg hrunning]
        refine ⟨_, replaces_moved rfl rfl trivial rfl rfl rfl (fun _ => ?_) fun _ => ?_⟩
        · rw [hpc]
          simp [Pc.stepsLeft]
        · exact Nat.le_add_right _ _
  | passed hpc hloop hroom =>
      exact ⟨_, replaces_moved rfl rfl trivial rfl rfl rfl
        (fun hother => absurd hloop hother) (fun hother => absurd hloop hother)⟩
  | acquired conn hpc =>
      obtain ⟨place, hplace, hexecs⟩ :
          ∃ place, (place = .inserting conn ∨ place = .rejecting conn) ∧
            (s.acquire e conn).execs = { e with pc := place } :: s.execs.erase e := by
        refine ⟨_, ?_, rfl⟩
        split
        · exact .inl rfl
        · exact .inr rfl
      rcases hplace with rfl | rfl
      all_goals
        refine ⟨_, replaces_moved hexecs rfl trivial rfl rfl rfl (fun _ => ?_) fun _ => ?_⟩
        · rw [hpc]
          simp [Pc.stepsLeft]
        · rw [hpc]
          simp [Pc.inserts, acquire, goTo]
  | inserted conn hpc =>
      refine ⟨_, replaces_moved rfl rfl trivial rfl rfl rfl (fun _ => ?_) fun _ => ?_⟩
      · rw [hpc]
        simp [Pc.stepsLeft]
      · rw [hpc]
        exact Nat.succ_le_succ (others_length_le conn.fd)
  | undoErased conn hpc =>
      refine ⟨_, replaces_moved rfl rfl trivial rfl rfl rfl (fun _ => ?_) fun _ => ?_⟩
      · rw [hpc]
        simp [Pc.stepsLeft]
      · rw [hpc]
        exact others_length_le conn.fd
  | erased target conn hpc hfind =>
      refine ⟨_, replaces_moved rfl rfl rfl rfl rfl rfl (fun _ => ?_) fun _ => ?_⟩
      · rw [hpc]
        simp [Pc.stepsLeft]
      · rw [hpc]
        exact others_length_le target.fd
  | released conn hpc hremoved | subtracted conn hpc hremoved =>
      have hnamed : e.removed.isSome = true := by rw [hremoved, Option.isSome_some]
      refine ⟨_, replaces_moved rfl rfl hnamed rfl rfl rfl (fun _ => ?_) fun _ => ?_⟩
      · rw [hpc]
        simp [Pc.stepsLeft]
      · exact Nat.le_add_right _ _
  | full hpc | notFound _ hpc | accepted _ _ hpc | retried _ hpc | drained hpc | failed hpc
  | rejected _ hpc | added _ hpc | addFailed _ hpc | counted _ hpc | undoReleased _ hpc
  | undoClosed _ hpc | droppedLocal _ hpc =>
      refine ⟨_, replaces_moved rfl rfl trivial rfl rfl rfl (fun _ => ?_) fun _ => ?_⟩
      · rw [hpc]
        simp [Pc.stepsLeft]
      · rw [hpc]
        simp [Pc.inserts, acceptClient, retryAccept, leaveAccept, reject, registerClient,
          countClient, undoRelease, undoClose, dropLocal, goTo, drop, closeFd]

theorem loopExecs_erase (hexecs : s'.execs = next ++ s.execs.erase e) :
    s'.loopExecs = (next.filter fun e => e.task.isNone) ++ s.loopExecs.erase e := by
  rw [loopExecs, hexecs, List.filter_append, ← List.erase_filter]
  rfl

/-- An execution of a worker moves on. -/
theorem Replaces.loopExecs_worker (hreplaces : Replaces s s' e next)
    (hworker : e.task.isNone = false) : s'.loopExecs = s.loopExecs := by
  have hnext : (next.filter fun e => e.task.isNone) = [] :=
    List.filter_eq_nil_iff.mpr fun other hother => by simp [hreplaces.task other hother, hworker]
  have habsent : e ∉ s.loopExecs := fun hmem => by simp [loopExecs, hworker] at hmem
  rw [loopExecs_erase hreplaces.execs, hnext, List.nil_append, List.erase_of_not_mem habsent]

/-- An execution of the epoll thread moves on. -/
theorem Replaces.loopExecs_own (hreplaces : Replaces s s' e next)
    (hown : e.task.isNone = true) : s'.loopExecs = next ++ s.loopExecs.erase e := by
  have hnext : (next.filter fun e => e.task.isNone) = next :=
    List.filter_eq_self.mpr fun other hother => by rw [hreplaces.task other hother, hown]
  rw [loopExecs_erase hreplaces.execs, hnext]

theorem sum_erase (weight : Exec → Nat) {execs : List Exec} (hmem : e ∈ execs) :
    (execs.map weight).sum = weight e + ((execs.erase e).map weight).sum := by
  rw [((List.perm_cons_erase hmem).map weight).sum_eq, List.map_cons, List.sum_cons]

theorem Replaces.mappable_le (hreplaces : Replaces s s' e next) (hmem : e ∈ s.execs)
    (hloop : s.loop ≠ .running) : s'.mappable ≤ s.mappable := by
  have hroom := hreplaces.room hloop
  rw [mappable, mappable, hreplaces.execs, List.map_append, List.sum_append,
    sum_erase (fun e => e.pc.inserts) hmem]
  omega

theorem Replaces.taskWork_lt (hreplaces : Replaces s s' e next) (hmem : e ∈ s.execs)
    (hown : e.task.isNone = true) (hloop : s.loop ≠ .running) : s'.taskWork < s.taskWork := by
  have hnearer := hreplaces.nearer hloop
  have hthere : e ∈ s.loopExecs := List.mem_filter.mpr ⟨hmem, hown⟩
  rw [taskWork, taskWork, hreplaces.loopExecs_own hown, hreplaces.fetched, hreplaces.idle,
    List.map_append, List.sum_append, sum_erase (fun e => e.pc.stepsLeft) hthere]
  omega

/-- What the steps of the other threads leave to the epoll thread. -/
structure Aside (s s' : ServerState) : Prop where
  fetched : s'.fetched = s.fetched
  idle : s'.idle = s.idle
  loopExecs : s'.loopExecs = s.loopExecs
  room : s.loop ≠ .running → s'.mappable ≤ s.mappable

theorem Aside.taskWork_eq (haside : Aside s s') : s'.taskWork = s.taskWork := by
  rw [taskWork, taskWork, haside.fetched, haside.idle, haside.loopExecs]

theorem aside_of_steps {action : ServerAction}
    (hother : (LifecycleAction.serve action).inBody = false) (hsteps : Steps s action s') :
    Aside s s' := by
  cases hsteps with
  | advance e outcome s' hmem hadvances =>
      obtain ⟨next, hreplaces⟩ := exists_replaces hadvances
      exact ⟨hreplaces.fetched, hreplaces.idle, hreplaces.loopExecs_worker hother,
        hreplaces.mappable_le hmem⟩
  | remove task hmem =>
      refine ⟨rfl, rfl, rfl, fun _ => ?_⟩
      simp [mappable, Pc.inserts]
  | cleanup hwaiting => exact ⟨rfl, rfl, rfl, fun _ => Nat.add_le_add_right (Nat.zero_le _) _⟩
  | arrive | use | finish | resubmit | runResubmitted | stop | finishStopping =>
      exact ⟨rfl, rfl, rfl, fun _ => Nat.le_refl _⟩
  | fetch | dispatchAccept | dispatchIgnored | dispatchHangUp | dispatchRead | dispatchWrite
  | collectIdle | removeIdle | closeListener => contradiction

theorem named_of_steps {action : ServerAction} (hnamed : ∀ e ∈ s.execs, e.Named)
    (hsteps : Steps s action s') : ∀ e ∈ s'.execs, e.Named := by
  cases hsteps with
  | advance e outcome s' hmem hadvances =>
      obtain ⟨next, hreplaces⟩ := exists_replaces hadvances
      rw [hreplaces.execs]
      exact List.forall_mem_append.mpr
        ⟨hreplaces.named, fun other hother => hnamed other (List.mem_of_mem_erase hother)⟩
  | dispatchAccept | dispatchHangUp | removeIdle | remove =>
      exact List.forall_mem_cons.mpr ⟨trivial, hnamed⟩
  | _ => exact hnamed

/-- The sweep collects each entry of the map at most once. -/
theorem length_le_mappable (s : ServerState) {targets : List Target} (hnodup : targets.Nodup)
    (hmapped : ∀ target ∈ targets, ∃ conn ∈ s.connections, conn.target = target) :
    targets.length ≤ s.mappable := by
  have hsubset : targets ⊆ s.connections.map ConnRef.target := fun target htarget =>
    List.mem_map.mpr (hmapped target htarget)
  have hlength := (hnodup.subperm hsubset).length_le
  rw [List.length_map] at hlength
  exact hlength.trans (Nat.le_add_right _ _)

/-- An event or a collected descriptor becomes at most one removal. -/
theorem taskWork_begun (e : Exec) (hpc : e.pc.stepsLeft ≤ 5) (hown : e.task.isNone = true)
    (hexecs : s'.execs = e :: s.execs)
    (htaken : 6 * s'.fetched.length + 6 * s'.idle.length + 6 ≤
      6 * s.fetched.length + 6 * s.idle.length) : s'.taskWork < s.taskWork := by
  have hloopExecs : s'.loopExecs = e :: s.loopExecs := by
    rw [loopExecs, hexecs]
    exact List.filter_cons_of_pos hown
  rw [taskWork, taskWork, hloopExecs, List.map_cons, List.sum_cons]
  omega

theorem taskWork_dispatch (hsteps : Steps s .dispatch s') (hloop : s.loop ≠ .running) :
    s'.taskWork < s.taskWork ∧ s'.mappable ≤ s.mappable := by
  cases hsteps with
  | dispatchAccept rest hfetched hfree hrunning => exact absurd hrunning hloop
  | dispatchHangUp target rest hfetched hfree =>
      refine ⟨taskWork_begun { pc := .removing target } (Nat.le_refl 5) rfl rfl ?_, ?_⟩
      · rw [hfetched, List.length_cons]
        dsimp only
        omega
      · simp [mappable, Pc.inserts]
  | dispatchIgnored rest hfetched | dispatchRead target rest hfetched
  | dispatchWrite target rest hfetched =>
      refine ⟨?_, Nat.le_refl _⟩
      rw [taskWork, taskWork, hfetched, List.length_cons]
      show 6 * rest.length + 6 * s.idle.length + (s.loopExecs.map fun e => e.pc.stepsLeft).sum < _
      omega

theorem taskWork_removeIdle (hsteps : Steps s .removeIdle s') :
    s'.taskWork < s.taskWork ∧ s'.mappable ≤ s.mappable := by
  cases hsteps with
  | removeIdle first rest hidle hfree =>
      refine ⟨taskWork_begun { pc := .removing first } (Nat.le_refl 5) rfl rfl ?_, ?_⟩
      · rw [hidle, List.length_cons]
        dsimp only
        omega
      · simp [mappable, Pc.inserts]

/-- An execution under way can go on: `accept` returns something, and so does `epoll_ctl`. -/
theorem exists_advance (hnamed : e.Named) : ∃ outcome s', s.advance e outcome = some s' := by
  obtain ⟨task, removed, pc⟩ := e
  cases pc with
  | accepting =>
      by_cases hbacklog : s.backlog = 0
      · exact ⟨.wouldBlock, _, by rw [advance, if_pos ⟨rfl, hbacklog⟩]⟩
      · exact ⟨.transient false, _, by rw [advance, if_pos ⟨rfl, Nat.zero_le _⟩]⟩
  | adding conn => exact ⟨.addFailed, _, rfl⟩
  | releasing | subtracting | unregistering =>
      obtain ⟨conn, rfl⟩ := Option.isSome_iff_exists.mp hnamed
      exact ⟨.proceed, _, rfl⟩
  | _ => exact ⟨.proceed, _, rfl⟩

end ServerState

end HttpServer
