/-
Where the event loop keeps descriptor numbers: in objects it holds, and in
events, lists and calls that only mention them.  A step copies numbers from one
place to another; `accept` alone brings in a new one.
-/
import HttpServer.Admission

namespace HttpServer

namespace Pc

/-- A descriptor that no other part of the program knows yet. -/
@[simp] def private? : Pc → Option ConnRef
  | acquiring conn | rejecting conn | inserting conn => some conn
  | _ => none

/-- The `conn` of `handle_accept` once it is in the map. -/
@[simp] def shared? : Pc → Option ConnRef
  | adding conn | counting conn | undoRelease conn | undoErase conn | undoClose conn
  | dropping conn => some conn
  | _ => none

end Pc

/-- The objects an execution shares with others. -/
def Exec.shares (e : Exec) : List ConnRef :=
  e.task.toList ++ e.removed.toList ++ e.pc.shared?.toList

/-- Everything shared has `P`, everything mentioned `Q`, everything private `R`. -/
structure NamedParts (P Q R : Target → Prop) (fetched : List Fetched)
    (idle resubmitted : List Target) (registered connections : List ConnRef)
    (tasks : List WorkerTask) (execs : List Exec) : Prop where
  inBatch : ∀ event ∈ fetched, ∀ target, event.target? = some target → Q target
  inIdle : ∀ target ∈ idle, Q target
  inResubmitted : ∀ target ∈ resubmitted, Q target
  inEpoll : ∀ conn ∈ registered, Q conn.target
  inMap : ∀ conn ∈ connections, P conn.target
  inTasks : ∀ task ∈ tasks, P task.conn.target
  inExecs : ∀ e ∈ execs, ∀ conn ∈ e.shares, P conn.target
  inCalls : ∀ e ∈ execs, ∀ target, e.pc = .removing target → Q target
  inPrivate : ∀ e ∈ execs, ∀ conn, e.pc.private? = some conn → R conn.target

namespace ServerState

def AllNamed (P Q R : Target → Prop) (s : ServerState) : Prop :=
  NamedParts P Q R s.fetched s.idle s.resubmitted s.registered s.connections s.tasks s.execs

section Named

variable {P Q R : Target → Prop} {s s' : ServerState} {e e' : Exec}

theorem mem_of_find {fd : Nat} {conn : ConnRef} (hfind : s.find fd = some conn) :
    conn ∈ s.connections ∧ conn.fd = fd := by
  refine ⟨List.mem_of_find?_eq_some hfind, ?_⟩
  simpa using List.find?_some hfind

namespace AllNamed

/-- Two facts about all numbers give a third. -/
theorem both {P₁ Q₁ R₁ P₂ Q₂ R₂ : Target → Prop} (hnamed : AllNamed P Q R s)
    (hother : AllNamed P₁ Q₁ R₁ s) (hshared : ∀ target, P target → P₁ target → P₂ target)
    (hmentioned : ∀ target, Q target → Q₁ target → Q₂ target)
    (hprivate : ∀ target, R target → R₁ target → R₂ target) : AllNamed P₂ Q₂ R₂ s where
  inBatch event hevent target htarget :=
    hmentioned _ (hnamed.inBatch event hevent target htarget)
      (hother.inBatch event hevent target htarget)
  inIdle target htarget :=
    hmentioned _ (hnamed.inIdle target htarget) (hother.inIdle target htarget)
  inResubmitted target htarget :=
    hmentioned _ (hnamed.inResubmitted target htarget) (hother.inResubmitted target htarget)
  inEpoll conn hconn := hmentioned _ (hnamed.inEpoll conn hconn) (hother.inEpoll conn hconn)
  inMap conn hconn := hshared _ (hnamed.inMap conn hconn) (hother.inMap conn hconn)
  inTasks task htask := hshared _ (hnamed.inTasks task htask) (hother.inTasks task htask)
  inExecs e he conn hconn :=
    hshared _ (hnamed.inExecs e he conn hconn) (hother.inExecs e he conn hconn)
  inCalls e he target hpc :=
    hmentioned _ (hnamed.inCalls e he target hpc) (hother.inCalls e he target hpc)
  inPrivate e he conn hpc :=
    hprivate _ (hnamed.inPrivate e he conn hpc) (hother.inPrivate e he conn hpc)

theorem closeFd (hnamed : AllNamed P Q R s) (fd : Option Nat) : AllNamed P Q R (s.closeFd fd) :=
  { hnamed with
    inEpoll := fun conn hconn => hnamed.inEpoll conn (List.mem_filter.mp hconn).1 }

theorem drop (hnamed : AllNamed P Q R s) (conn : Option ConnRef) : AllNamed P Q R (s.drop conn) :=
  hnamed.closeFd _

/-- One execution is new or has moved on. -/
theorem withExec {rest : List Exec} (hnamed : AllNamed P Q R s)
    (hrest : ∀ other ∈ rest, other ∈ s.execs) (hshares : ∀ conn ∈ e'.shares, P conn.target)
    (hremoving : ∀ target, e'.pc = .removing target → Q target)
    (hprivate : ∀ conn, e'.pc.private? = some conn → R conn.target) :
    AllNamed P Q R { s with execs := e' :: rest } :=
  { hnamed with
    inExecs := by
      intro other hother
      rcases List.mem_cons.mp hother with rfl | hold
      · exact hshares
      · exact hnamed.inExecs other (hrest other hold)
    inCalls := by
      intro other hother
      rcases List.mem_cons.mp hother with rfl | hold
      · exact hremoving
      · exact hnamed.inCalls other (hrest other hold)
    inPrivate := by
      intro other hother
      rcases List.mem_cons.mp hother with rfl | hold
      · exact hprivate
      · exact hnamed.inPrivate other (hrest other hold) }

/-- The execution goes on. -/
theorem goTo (hnamed : AllNamed P Q R s) (hmem : e ∈ s.execs) (pc : Pc)
    (hshared : ∀ conn, pc.shared? = some conn → P conn.target)
    (hremoving : ∀ target, pc ≠ .removing target)
    (hprivate : ∀ conn, pc.private? = some conn → R conn.target) :
    AllNamed P Q R (s.goTo e pc) := by
  refine hnamed.withExec (fun _ => List.mem_of_mem_erase) ?_
    (fun target hpc => absurd hpc (hremoving target)) hprivate
  intro conn hmine
  rcases List.mem_append.mp hmine with hheld | hnew
  · exact hnamed.inExecs e hmem conn (List.mem_append_left _ hheld)
  · exact hshared conn (Option.mem_toList.mp hnew)

theorem leaveAccept (hnamed : AllNamed P Q R s) (hmem : e ∈ s.execs) :
    AllNamed P Q R (s.leaveAccept e) := by
  refine AllNamed.drop (hnamed.withExec (fun _ => List.mem_of_mem_erase) ?_ (by simp)
    (by simp)) _
  intro conn hmine
  apply hnamed.inExecs e hmem
  simp only [Exec.shares, Pc.shared?, Option.toList_none, List.append_nil] at hmine
  simp [Exec.shares, hmine]

/-- The map loses an entry. -/
theorem inOthers (hnamed : AllNamed P Q R s) (fd : Nat) :
    ∀ conn ∈ s.others fd, P conn.target :=
  fun conn hconn => hnamed.inMap conn (List.mem_filter.mp hconn).1

/-- The object `handle_accept` has in hand. -/
theorem inHand {conn : ConnRef} (hnamed : AllNamed P Q R s) (hmem : e ∈ s.execs)
    (hconn : e.pc.shared? = some conn) : P conn.target :=
  hnamed.inExecs e hmem conn (List.mem_append_right _ (Option.mem_toList.mpr hconn))

/-- The map gives up an entry to the execution that erases it. -/
theorem erase {conn : ConnRef} {fd : Nat} (hnamed : AllNamed P Q R s) (hmem : e ∈ s.execs)
    (hfind : s.find fd = some conn) (acts : List (Nat × Nat)) :
    AllNamed P Q R { s with
      connections := s.others fd
      execs := { e with removed := some conn, pc := .releasing } :: s.execs.erase e
      acts } := by
  have hconn := hnamed.inMap conn (mem_of_find hfind).1
  have hexec : AllNamed P Q R { s with
      execs := { e with removed := some conn, pc := .releasing } :: s.execs.erase e } := by
    refine hnamed.withExec (fun _ => List.mem_of_mem_erase) ?_ (by simp) (by simp)
    intro other hother
    simp only [Exec.shares, Pc.shared?, Option.toList_none, Option.toList_some,
      List.append_nil, List.mem_append, List.mem_singleton] at hother
    rcases hother with htask | rfl
    · exact hnamed.inExecs e hmem other (by simp [Exec.shares, htask])
    · exact hconn
  exact { hexec with inMap := hnamed.inOthers fd }

/-- Epoll forgets a number. -/
theorem unregister (hnamed : AllNamed P Q R s) (hmem : e ∈ s.execs) (conn : ConnRef) :
    AllNamed P Q R (s.unregister e conn) := by
  have hdeleted : ∀ (history : List FdEvent) (registered : List ConnRef),
      (∀ other ∈ registered, other ∈ s.registered) →
        AllNamed P Q R { s with history := history, registered := registered } :=
    fun _ _ hsub => { hnamed with
      inEpoll := fun other hother => hnamed.inEpoll other (hsub other hother) }
  have hsub : ∀ other ∈ (if s.epollOpen then s.registered.filter fun c => c.fd ≠ conn.fd
      else s.registered), other ∈ s.registered := by
    intro other hother
    split at hother
    · exact (List.mem_filter.mp hother).1
    · exact hother
  simp only [ServerState.unregister]
  split
  · exact AllNamed.goTo (hdeleted _ _ hsub) hmem .loading (by simp) (by simp) (by simp)
  · exact AllNamed.leaveAccept (hdeleted _ _ hsub) hmem

/-- What `accept` returned becomes shared when it enters the map. -/
theorem insert {conn : ConnRef} (hnamed : AllNamed P Q R s) (hmem : e ∈ s.execs)
    (hconn : P conn.target) : AllNamed P Q R (s.insert e conn) := by
  have hgo : AllNamed P Q R (s.goTo e (.adding conn)) :=
    hnamed.goTo hmem _ (by simpa using hconn) (by simp) (by simp)
  apply AllNamed.drop
  refine { hgo with inMap := ?_ }
  intro other hother
  rcases List.mem_cons.mp hother with rfl | hold
  · exact hconn
  · exact hnamed.inOthers conn.fd other hold

end AllNamed

/-- A step of an execution brings in no number but the one `accept` returns,
which becomes shared when it is inserted into the map. -/
theorem allNamed_advance {outcome : Outcome} (hle : ∀ target, P target → Q target)
    (hnamed : AllNamed P Q R s) (hmem : e ∈ s.execs)
    (hnew : ∀ fd ip, outcome = .client fd ip → R { fd := fd, meant := s.nextId })
    (hpublish : ∀ conn, e.pc = .inserting conn → P conn.target)
    (hadvances : Advances s e outcome s') : AllNamed P Q R s' := by
  -- most places of the code keep the object they have in hand, or have none
  have hkeep : ∀ {pc : Pc}, (∀ target, pc ≠ .removing target) →
      (∀ conn, pc.shared? = some conn → e.pc.shared? = some conn) →
      (∀ conn, pc.private? = some conn → e.pc.private? = some conn) →
        AllNamed P Q R (s.goTo e pc) :=
    fun hremoving hshared hprivate => hnamed.goTo hmem _
      (fun conn hconn => hnamed.inHand hmem (hshared conn hconn)) hremoving
      (fun conn hconn => hnamed.inPrivate e hmem conn (hprivate conn hconn))
  cases hadvances with
  | notFound target hpc hfind => exact hkeep (by simp) (by simp) (by simp)
  | erased target conn hpc hfind => exact hnamed.erase hmem hfind _
  | released conn hpc hremoved =>
      have hgo : AllNamed P Q R (s.goTo e .subtracting) := hkeep (by simp) (by simp) (by simp)
      exact hgo
  | subtracted conn hpc hremoved =>
      have hgo : AllNamed P Q R (s.goTo e .unregistering) :=
        hkeep (by simp) (by simp) (by simp)
      exact hgo
  | unregistered conn hpc hremoved => exact hnamed.unregister hmem conn
  | passed hpc hloop hroom => exact hkeep (by simp) (by simp) (by simp)
  | full hpc hfull => exact hnamed.leaveAccept hmem
  | drained hpc hbacklog => exact hnamed.leaveAccept hmem
  | failed hpc => exact hnamed.leaveAccept hmem
  | accepted fd ip hpc hbacklog howner =>
      have hgo : AllNamed P Q R
          (s.goTo e (.acquiring { id := s.nextId, fd := fd, ip := ip })) := by
        refine hnamed.goTo hmem _ (by simp) (by simp) ?_
        simpa [ConnRef.target] using hnew fd ip rfl
      exact hgo
  | retried aborted hpc =>
      have hgo : AllNamed P Q R (s.goTo e .loading) := hkeep (by simp) (by simp) (by simp)
      exact hgo
  | acquired conn hpc =>
      have hgo : AllNamed P Q R (s.goTo e
          (if (PerIpConnectionLimiter.tryAcquire s.counts conn.ip).2 then .inserting conn
            else .rejecting conn)) := by
        split <;> exact hkeep (by simp) (by simp) (by simp [hpc])
      exact hgo
  | rejected conn hpc => exact (hkeep (by simp) (by simp) (by simp)).closeFd _
  | inserted conn hpc => exact hnamed.insert hmem (hpublish conn hpc)
  | added conn hpc hopen =>
      have hconn : P conn.target := hnamed.inHand hmem (by simp [hpc])
      have hgo : AllNamed P Q R (s.goTo e (.counting conn)) :=
        hkeep (by simp) (by simp [hpc]) (by simp)
      refine { hgo with inEpoll := ?_ }
      intro other hother
      rcases List.mem_cons.mp hother with rfl | hold
      · exact hle _ hconn
      · exact hnamed.inEpoll other hold
  | addFailed conn hpc => exact hkeep (by simp) (by simp [hpc]) (by simp)
  | counted conn hpc =>
      have hgo : AllNamed P Q R (s.goTo e (.dropping conn)) :=
        hkeep (by simp) (by simp [hpc]) (by simp)
      exact hgo
  | undoReleased conn hpc =>
      have hgo : AllNamed P Q R (s.goTo e (.undoErase conn)) :=
        hkeep (by simp) (by simp [hpc]) (by simp)
      exact hgo
  | undoErased conn hpc =>
      have hgo : AllNamed P Q R (s.goTo e (.undoClose conn)) :=
        hkeep (by simp) (by simp [hpc]) (by simp)
      apply AllNamed.drop
      exact { hgo with inMap := hnamed.inOthers conn.fd }
  | undoClosed conn hpc => exact (hkeep (by simp) (by simp [hpc]) (by simp)).closeFd _
  | droppedLocal conn hpc => exact (hkeep (by simp) (by simp) (by simp)).drop _
  | returned hpc =>
      apply AllNamed.drop
      exact { hnamed with
        inExecs := fun other hother => hnamed.inExecs other (List.mem_of_mem_erase hother)
        inCalls := fun other hother => hnamed.inCalls other (List.mem_of_mem_erase hother)
        inPrivate := fun other hother =>
          hnamed.inPrivate other (List.mem_of_mem_erase hother) }

theorem allNamed_handleClientRead (hnamed : AllNamed P Q R s) (target : Target) :
    AllNamed P Q R (s.handleClientRead target) := by
  refine { hnamed with inTasks := ?_ }
  intro task htask
  rcases List.mem_append.mp htask with hnew | hold
  · simp only [Option.mem_toList, Option.map_eq_some_iff] at hnew
    obtain ⟨conn, hfind, rfl⟩ := hnew
    split at hfind
    · exact hnamed.inMap conn (mem_of_find hfind).1
    · contradiction
  · exact hnamed.inTasks task hold

theorem allNamed_handleClientWrite (hnamed : AllNamed P Q R s) (target : Target) :
    AllNamed P Q R (s.handleClientWrite target) := by
  refine { hnamed with inTasks := ?_ }
  intro task htask
  rcases List.mem_append.mp htask with hnew | hold
  · simp only [Option.mem_toList, Option.map_eq_some_iff] at hnew
    obtain ⟨conn, hfind, rfl⟩ := hnew
    exact hnamed.inMap conn (mem_of_find hfind).1
  · exact hnamed.inTasks task hold

/-- No step brings in a number, except `accept`. -/
theorem allNamed_step {action : ServerAction} (hle : ∀ target, P target → Q target)
    (hnamed : AllNamed P Q R s)
    (hnew : ∀ e fd ip, action = .advance e (.client fd ip) →
      R { fd := fd, meant := s.nextId })
    (hpublish : ∀ e ∈ s.execs, ∀ outcome conn, action = .advance e outcome →
      e.pc = .inserting conn → P conn.target)
    (hsteps : Steps s action s') : AllNamed P Q R s' := by
  have hrest : ∀ {event : Fetched} {rest : List Fetched}, s.fetched = event :: rest →
      ∀ other ∈ rest, ∀ target, other.target? = some target → Q target :=
    fun hfetched other hother => hnamed.inBatch other
      (by rw [hfetched]; exact List.mem_cons_of_mem _ hother)
  cases hsteps with
  | advance e outcome _ hmem hadvances =>
      refine allNamed_advance hle hnamed hmem (fun fd ip houtcome => ?_)
        (fun conn => hpublish e hmem outcome conn rfl) hadvances
      exact hnew e fd ip (by rw [houtcome])
  | arrive => exact hnamed
  | fetch batch hfetched hreports =>
      refine { hnamed with inBatch := ?_ }
      intro event hevent target htarget
      have hreported := hreports event hevent
      cases event with
      | listener => contradiction
      | hangUp other | readable other | writable other =>
          obtain rfl := Option.some.inj htarget
          simp only [reports, List.any_eq_true, beq_iff_eq] at hreported
          obtain ⟨conn, hconn, rfl⟩ := hreported
          exact hnamed.inEpoll conn hconn
  | dispatchAccept rest hfetched hfree hloop =>
      have hstarted : AllNamed P Q R { s with execs := { pc := .loading } :: s.execs } :=
        hnamed.withExec (fun _ h => h) (by simp [Exec.shares]) (by simp) (by simp)
      exact { hstarted with inBatch := hrest hfetched }
  | dispatchIgnored rest hfetched hloop => exact { hnamed with inBatch := hrest hfetched }
  | dispatchHangUp target rest hfetched hfree =>
      have htarget : Q target := hnamed.inBatch (.hangUp target) (by simp [hfetched]) target rfl
      have hstarted : AllNamed P Q R { s with execs := { pc := .removing target } :: s.execs } :=
        hnamed.withExec (fun _ h => h) (by simp [Exec.shares]) (by simpa using htarget)
          (by simp)
      exact { hstarted with inBatch := hrest hfetched }
  | dispatchRead target rest hfetched =>
      have hpopped : AllNamed P Q R { s with fetched := rest } :=
        { hnamed with inBatch := hrest hfetched }
      exact allNamed_handleClientRead hpopped target
  | dispatchWrite target rest hfetched =>
      have hpopped : AllNamed P Q R { s with fetched := rest } :=
        { hnamed with inBatch := hrest hfetched }
      exact allNamed_handleClientWrite hpopped target
  | collectIdle targets hmapped =>
      refine { hnamed with inIdle := ?_ }
      intro target htarget
      obtain ⟨conn, hconn, rfl⟩ := hmapped target htarget
      exact hle _ (hnamed.inMap conn hconn)
  | removeIdle first rest hidle hfree =>
      have htarget : Q first := hnamed.inIdle first (by simp [hidle])
      have hstarted : AllNamed P Q R { s with execs := { pc := .removing first } :: s.execs } :=
        hnamed.withExec (fun _ h => h) (by simp [Exec.shares]) (by simpa using htarget)
          (by simp)
      exact { hstarted with
        inIdle := fun target hmem => hnamed.inIdle target (by simp [hidle, hmem]) }
  | use task hmem => exact hnamed
  | finish task hmem =>
      apply AllNamed.drop
      exact { hnamed with
        inTasks := fun other hother => hnamed.inTasks other (List.mem_of_mem_erase hother) }
  | remove task hmem =>
      have hconn := hnamed.inTasks task hmem
      have hstarted : AllNamed P Q R { s with
          execs := { task := some task.conn, pc := .removing task.conn.target } :: s.execs } :=
        hnamed.withExec (fun _ h => h) (by simpa [Exec.shares] using hconn)
          (by simpa using hle _ hconn) (by simp)
      exact { hstarted with
        inTasks := fun other hother => hnamed.inTasks other (List.mem_of_mem_erase hother) }
  | resubmit task hmem =>
      refine { hnamed with inResubmitted := ?_ }
      intro target htarget
      rcases List.mem_cons.mp htarget with rfl | hold
      · exact hle _ (hnamed.inTasks task hmem)
      · exact hnamed.inResubmitted target hold
  | runResubmitted target hmem =>
      have hpopped : AllNamed P Q R { s with resubmitted := s.resubmitted.erase target } :=
        { hnamed with
          inResubmitted := fun other hother =>
            hnamed.inResubmitted other (List.mem_of_mem_erase hother) }
      exact allNamed_handleClientRead hpopped target
  | stop hloop => exact hnamed
  | closeListener hloop => exact hnamed
  | finishStopping => exact hnamed
  | cleanup hwaiting =>
      exact { hnamed with
        inMap := fun _ hconn => absurd hconn List.not_mem_nil
        inEpoll := fun _ hconn => absurd hconn List.not_mem_nil }

end Named

end ServerState

end HttpServer
