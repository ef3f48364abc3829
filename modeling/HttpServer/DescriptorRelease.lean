/-
Nothing is leaked.  Whatever order the steps come in, a descriptor that is open
is in somebody's hands: in the map, in a task, or in an execution that has yet to
close it or to let go of its connection.
-/
import HttpServer.DescriptorNames

namespace HttpServer

open GuardedRun

/-- The descriptors an execution answers for, wrapped in an object or not yet. -/
def Exec.keeps (e : Exec) : List ConnRef := e.shares ++ e.pc.private?.toList

/-- The `conn` of `remove_connection` is set between the lookup and the return. -/
def Exec.Settled (e : Exec) : Prop :=
  match e.pc with
  | .removing _ | .done => e.removed = none
  | _ => True

theorem Exec.mem_keeps {e : Exec} {conn : ConnRef} :
    conn ∈ e.keeps ↔ e.task = some conn ∨ e.removed = some conn ∨
      e.pc.shared? = some conn ∨ e.pc.private? = some conn := by
  simp [keeps, shares]

/-- The number an object was given when it was accepted. -/
def GivenBy (home : Nat → Nat) (next : Nat) (target : Target) : Prop :=
  target.fd = home target.meant ∧ target.meant < next

theorem ownerOf_append_closed {fd id : Nat} {history : List FdEvent} :
    ∀ {numbers : List Nat},
      ownerOf (numbers.map FdEvent.closed ++ history) fd = some id →
        ownerOf history fd = some id ∧ fd ∉ numbers := by
  intro numbers
  induction numbers with
  | nil => exact fun howner => ⟨howner, List.not_mem_nil⟩
  | cons number numbers ih =>
      intro howner
      rw [List.map_cons, List.cons_append, ownerOf] at howner
      split at howner
      · contradiction
      · next hne =>
          obtain ⟨hearlier, hnot⟩ := ih howner
          refine ⟨hearlier, fun hmem => ?_⟩
          rcases List.mem_cons.mp hmem with rfl | hlater
          · exact hne rfl
          · exact hnot hlater

namespace ServerState

variable {s s' : ServerState} {e e' : Exec} {home : Nat → Nat}

/-- Everything that will close a descriptor. -/
def keepers (s : ServerState) : List ConnRef :=
  s.connections ++ s.tasks.map WorkerTask.conn ++ s.execs.flatMap Exec.keeps

theorem mem_keepers {conn : ConnRef} :
    conn ∈ s.keepers ↔ conn ∈ s.connections ∨ (∃ task ∈ s.tasks, task.conn = conn) ∨
      ∃ e ∈ s.execs, conn ∈ e.keeps := by
  simp [keepers]

theorem mem_keepers_of_held {conn : ConnRef} (hconn : conn ∈ s.held) : conn ∈ s.keepers := by
  simp only [held, List.mem_append, List.mem_map, List.mem_flatMap] at hconn
  rw [mem_keepers]
  rcases hconn with (hmap | htask) | ⟨e, hmem, hheld⟩
  · exact .inl hmap
  · exact .inr (.inl htask)
  · refine .inr (.inr ⟨e, hmem, Exec.mem_keeps.mpr ?_⟩)
    simp only [Exec.held, List.mem_append, Option.mem_toList] at hheld
    rcases hheld with (htask | hremoved) | hpc
    · exact .inl htask
    · exact .inr (.inl hremoved)
    · right; right
      cases hplace : e.pc <;> simp_all

section Homes

/-- Objects keep the number they were given. -/
def Homed (home : Nat → Nat) (s : ServerState) : Prop :=
  AllNamed (GivenBy home s.nextId) (fun _ => True) (GivenBy home s.nextId) s

theorem Homed.keeper {conn : ConnRef} (hhomed : Homed home s) (hconn : conn ∈ s.keepers) :
    GivenBy home s.nextId conn.target := by
  rcases mem_keepers.mp hconn with hmap | ⟨task, htask, rfl⟩ | ⟨e, hmem, hkeeps⟩
  · exact hhomed.inMap conn hmap
  · exact hhomed.inTasks task htask
  · rcases List.mem_append.mp hkeeps with hshares | hprivate
    · exact hhomed.inExecs e hmem conn hshares
    · exact hhomed.inPrivate e hmem conn (Option.mem_toList.mp hprivate)

theorem nextId_steps {action : ServerAction}
    (haccept : ∀ e fd ip, action ≠ .advance e (.client fd ip)) (hsteps : Steps s action s') :
    s'.nextId = s.nextId := by
  cases hsteps with
  | advance e outcome _ hmem hadvances =>
      cases hadvances with
      | accepted fd ip => exact absurd rfl (haccept e fd ip)
      | unregistered conn hpc hremoved =>
          simp only [unregister]
          split <;> rfl
      | _ => rfl
  | _ => rfl

/-- Steps other than `accept` bring in no number. -/
theorem homed_step {action : ServerAction} (hhomed : Homed home s)
    (haccept : ∀ e fd ip, action ≠ .advance e (.client fd ip)) (hsteps : Steps s action s') :
    Homed home s' := by
  rw [Homed, nextId_steps haccept hsteps]
  refine allNamed_step (fun _ _ => trivial) hhomed ?_ ?_ hsteps
  · exact fun e fd ip heq => absurd heq (haccept e fd ip)
  · exact fun e hmem outcome conn _ hpc => hhomed.inPrivate e hmem conn (by simp [hpc])

/-- `accept` gives the next object its number. -/
theorem homed_accept {fd : Nat} {ip : Bytes} (hhomed : Homed home s) (hmem : e ∈ s.execs)
    (hadvances : Advances s e (.client fd ip) s') :
    Homed (Function.update home s.nextId fd) s' := by
  have hnext : s'.nextId = s.nextId + 1 := by cases hadvances; rfl
  have hkeep : ∀ target, GivenBy home s.nextId target →
      GivenBy (Function.update home s.nextId fd) s'.nextId target := by
    rintro target ⟨hfd, hless⟩
    rw [GivenBy, Function.update_of_ne hless.ne, hnext]
    exact ⟨hfd, by omega⟩
  have hold : AllNamed (GivenBy (Function.update home s.nextId fd) s'.nextId)
      (fun _ => True) (GivenBy (Function.update home s.nextId fd) s'.nextId) s :=
    hhomed.both hhomed (fun target htarget _ => hkeep target htarget) (fun _ _ _ => trivial)
      (fun target htarget _ => hkeep target htarget)
  refine allNamed_advance (fun _ _ => trivial) hold hmem ?_ ?_ hadvances
  · rintro _ _ ⟨⟩
    rw [GivenBy, Function.update_self, hnext]
    exact ⟨rfl, by simp⟩
  · exact fun conn hpc => hold.inPrivate e hmem conn (by simp [hpc])

end Homes

section Keys

/-- The map has one entry for a number. -/
def Keyed (s : ServerState) : Prop := (s.connections.map ConnRef.fd).Nodup

theorem Keyed.find_eq {fd : Nat} {conn : ConnRef} (hkeyed : Keyed s)
    (hconn : conn ∈ s.connections) (hfd : conn.fd = fd) : s.find fd = some conn := by
  cases hfind : s.find fd with
  | none =>
      have hnot := List.find?_eq_none.mp hfind conn hconn
      simp [hfd] at hnot
  | some other =>
      obtain ⟨hother, hsame⟩ := mem_of_find hfind
      rw [List.inj_on_of_nodup_map hkeyed hconn hother (hfd.trans hsame.symm)]

/-- An entry of the map survives the erasure of another number. -/
theorem Keyed.others_or {fd : Nat} {conn : ConnRef} (hkeyed : Keyed s)
    (hconn : conn ∈ s.connections) : conn ∈ s.others fd ∨ s.find fd = some conn := by
  by_cases hfd : conn.fd = fd
  · exact .inr (hkeyed.find_eq hconn hfd)
  · exact .inl (List.mem_filter.mpr ⟨hconn, by simpa using hfd⟩)

theorem Keyed.others (hkeyed : Keyed s) (fd : Nat) :
    ((s.others fd).map ConnRef.fd).Nodup :=
  hkeyed.sublist (List.filter_sublist.map _)

theorem keyed_step {action : ServerAction} (hkeyed : Keyed s) (hsteps : Steps s action s') :
    Keyed s' := by
  cases hsteps with
  | advance e outcome _ hmem hadvances =>
      cases hadvances with
      | erased target conn hpc hfind => exact hkeyed.others _
      | unregistered conn hpc hremoved =>
          simp only [unregister]
          split <;> exact hkeyed
      | inserted conn hpc =>
          refine List.nodup_cons.mpr ⟨fun hmem => ?_, hkeyed.others conn.fd⟩
          obtain ⟨other, hother, hfd⟩ := List.mem_map.mp hmem
          have hne := (List.mem_filter.mp hother).2
          simp [hfd] at hne
      | undoErased conn hpc => exact hkeyed.others _
      | _ => exact hkeyed
  | cleanup hwaiting => exact List.nodup_nil
  | _ => exact hkeyed

theorem settled_step {action : ServerAction} (hsettled : ∀ e ∈ s.execs, e.Settled)
    (hsteps : Steps s action s') : ∀ e ∈ s'.execs, e.Settled := by
  have hcons : ∀ {e' : Exec} {rest : List Exec}, e'.Settled → (∀ other ∈ rest, other ∈ s.execs) →
      ∀ other ∈ e' :: rest, other.Settled := by
    intro e' rest hnew hrest other hother
    rcases List.mem_cons.mp hother with rfl | hold
    · exact hnew
    · exact hsettled other (hrest other hold)
  cases hsteps with
  | advance e outcome _ hmem hadvances =>
      have hothers : ∀ other ∈ s.execs.erase e, other ∈ s.execs :=
        fun _ => List.mem_of_mem_erase
      cases hadvances with
      | notFound target hpc hfind =>
          have hnone := hsettled e hmem
          simp only [Exec.Settled, hpc] at hnone
          exact hcons hnone hothers
      | unregistered conn hpc hremoved =>
          simp only [unregister]
          split <;> exact hcons (by simp [Exec.Settled]) hothers
      | acquired conn hpc =>
          refine hcons ?_ hothers
          cases (PerIpConnectionLimiter.tryAcquire s.counts conn.ip).2 <;> trivial
      | returned hpc => exact fun other hother => hsettled other (hothers other hother)
      | _ => exact hcons (by simp [Exec.Settled]) hothers
  | dispatchAccept | dispatchHangUp | removeIdle | remove =>
      exact hcons (by simp [Exec.Settled]) fun _ hother => hother
  | _ => exact hsettled

end Keys

section Release

/-- Somebody still keeps the descriptor, or it has been closed. -/
def Safe (s : ServerState) (conn : ConnRef) : Prop :=
  ownerOf s.history conn.fd = none ∨ ∃ other ∈ s.keepers, other.target = conn.target

theorem safe_of_keeper {conn : ConnRef} (hconn : conn ∈ s.keepers) : Safe s conn :=
  .inr ⟨conn, hconn, rfl⟩

/-- A number is closed by hand. -/
theorem safe_closeFd {fd : Nat}
    (hmoved : ∀ conn ∈ s.keepers, conn ∈ s'.keepers ∨ conn.fd = fd) :
    ∀ conn ∈ s.keepers, Safe (s'.closeFd (some fd)) conn := by
  intro conn hbefore
  rcases hmoved conn hbefore with hkept | rfl
  · exact safe_of_keeper hkept
  · left
    simp [closeFd, ownerOf]

/-- A reference is dropped: either it was the last one, and the destructor closes the
number, or whoever holds the object has the same number. -/
theorem safe_drop {reference : Option ConnRef} (hhomed : Homed home s)
    (hafter : Homed home (s'.drop reference))
    (hmoved : ∀ conn ∈ s.keepers, conn ∈ s'.keepers ∨ reference = some conn) :
    ∀ conn ∈ s.keepers, Safe (s'.drop reference) conn := by
  intro conn hbefore
  rcases hmoved conn hbefore with hkept | rfl
  · exact safe_of_keeper hkept
  · cases hreferenced : s'.referenced conn.id with
    | false =>
        left
        simp [drop, dropped, Option.filter, hreferenced, closeFd, ownerOf]
    | true =>
        right
        simp only [referenced, List.any_eq_true, beq_iff_eq] at hreferenced
        obtain ⟨other, hheld, hid⟩ := hreferenced
        have hkept : other ∈ (s'.drop (some conn)).keepers := mem_keepers_of_held hheld
        have hfd : other.fd = conn.fd := by
          rw [show other.fd = home other.id from (hafter.keeper hkept).1, hid]
          exact (hhomed.keeper hbefore).1.symm
        exact ⟨other, hkept, by rw [ConnRef.target, ConnRef.target, hfd, hid]⟩

/-- One execution has moved on; nothing else has changed hands. -/
theorem keepers_withExec {Q : ConnRef → Prop}
    (hmap : ∀ conn ∈ s.connections, conn ∈ s'.connections ∨ conn ∈ e'.keeps ∨ Q conn)
    (htasks : s'.tasks = s.tasks) (hexecs : s'.execs = e' :: s.execs.erase e)
    (hmine : ∀ conn ∈ e.keeps, conn ∈ e'.keeps ∨ Q conn) :
    ∀ conn ∈ s.keepers, conn ∈ s'.keepers ∨ Q conn := by
  have hnew : ∀ conn, conn ∈ e'.keeps ∨ Q conn → conn ∈ s'.keepers ∨ Q conn := by
    rintro conn (hkeeps | hother)
    · refine .inl (mem_keepers.mpr (.inr (.inr ⟨e', ?_, hkeeps⟩)))
      rw [hexecs]
      exact List.mem_cons_self
    · exact .inr hother
  intro conn hconn
  rcases mem_keepers.mp hconn with hentry | htask | ⟨other, hother, hkeeps⟩
  · rcases hmap conn hentry with hleft | hrest
    · exact .inl (mem_keepers.mpr (.inl hleft))
    · exact hnew conn hrest
  · exact .inl (mem_keepers.mpr (.inr (.inl (htasks ▸ htask))))
  · by_cases hsame : other = e
    · exact hnew conn (hmine conn (hsame ▸ hkeeps))
    · refine .inl (mem_keepers.mpr (.inr (.inr ⟨other, ?_, hkeeps⟩)))
      rw [hexecs]
      exact List.mem_cons_of_mem _ ((List.mem_erase_of_ne hsame).mpr hother)

theorem owner_closeFd {fd id : Nat} {number : Option Nat}
    (howner : ownerOf (s.closeFd number).history fd = some id) :
    ownerOf s.history fd = some id := by
  cases number with
  | none => exact howner
  | some other => exact (@ownerOf_append_closed fd id s.history [other] howner).1

/-- The final cleanup closes every number of the map. -/
theorem owner_cleanup {fd id : Nat}
    (howner : ownerOf s.cleanupAllConnections.history fd = some id) :
    ownerOf s.history fd = some id ∧ fd ∉ s.connections.map ConnRef.fd := by
  simp only [cleanupAllConnections, ← List.map_reverse, ← Function.comp_def FdEvent.closed,
    ← List.map_map, List.append_assoc] at howner
  obtain ⟨hearlier, -⟩ := ownerOf_append_closed howner
  obtain ⟨hfirst, hnot⟩ := ownerOf_append_closed hearlier
  exact ⟨hfirst, by simpa using hnot⟩

/-- A number is owned anew through `accept` only. -/
theorem owner_step {action : ServerAction} {fd id : Nat}
    (haccept : ∀ e fd ip, action ≠ .advance e (.client fd ip)) (hsteps : Steps s action s')
    (howner : ownerOf s'.history fd = some id) : ownerOf s.history fd = some id := by
  cases hsteps with
  | advance e outcome _ hmem hadvances =>
      cases hadvances with
      | accepted fd ip => exact absurd rfl (haccept e fd ip)
      | unregistered conn hpc hremoved =>
          have hused : ownerOf (if s.epollOpen then
              (e.task.map fun c => FdEvent.used c.fd c.id).toList ++ s.history
              else s.history) fd = some id := by
            simp only [unregister] at howner
            split at howner
            · exact howner
            · exact owner_closeFd howner
          split at hused
          · cases htask : e.task <;> simpa [htask, ownerOf] using hused
          · exact hused
      | full | drained | failed | rejected | inserted | undoErased | undoClosed
      | droppedLocal | returned => exact owner_closeFd howner
      | _ => exact howner
  | finish task hmem => exact owner_closeFd howner
  | cleanup hwaiting => exact (owner_cleanup howner).1
  | _ => exact howner

/-- `handle_accept` returns with nothing in hand. -/
theorem safe_leaveAccept (hhomed : Homed home s) (history : List FdEvent)
    (registered : List ConnRef)
    (hafter : Homed home
      (({ s with history := history, registered := registered }).leaveAccept e))
    (hshared : e.pc.shared? = none) (hprivate : e.pc.private? = none) :
    ∀ conn ∈ s.keepers,
      Safe (({ s with history := history, registered := registered }).leaveAccept e) conn := by
  refine safe_drop hhomed hafter (keepers_withExec (fun _ hentry => .inl hentry) rfl rfl ?_)
  intro other hother
  rw [Exec.mem_keeps, hshared, hprivate] at hother
  rcases hother with htask | hremoved | hnone | hnone
  · exact .inl (Exec.mem_keeps.mpr (.inl htask))
  · exact .inr hremoved
  · contradiction
  · contradiction

/-- Whoever answers for a descriptor still does after a step of an execution, or the
descriptor is closed. -/
theorem safe_advance {outcome : Outcome} (hhomed : Homed home s) (hafter : Homed home s')
    (hkeyed : Keyed s) (hsettled : ∀ e ∈ s.execs, e.Settled) (hmem : e ∈ s.execs)
    (haccept : ∀ fd ip, outcome ≠ .client fd ip) (hadvances : Advances s e outcome s') :
    ∀ conn ∈ s.keepers, Safe s' conn := by
  have hkeep : ∀ {t : ServerState} {e' : Exec},
      (∀ conn ∈ s.connections, conn ∈ t.connections ∨ conn ∈ e'.keeps) →
      t.tasks = s.tasks → t.execs = e' :: s.execs.erase e →
      (∀ conn ∈ e.keeps, conn ∈ e'.keeps) → ∀ conn ∈ s.keepers, Safe t conn := by
    intro t e' hmap htasks hexecs hmine conn hconn
    have hmoved : ∀ conn ∈ s.keepers, conn ∈ t.keepers ∨ False := by
      refine keepers_withExec (fun other hentry => ?_) htasks hexecs
        (fun other hother => .inl (hmine other hother))
      exact (hmap other hentry).imp_right Or.inl
    exact safe_of_keeper ((hmoved conn hconn).resolve_right id)
  have hsame : ∀ {e' : Exec}, ∀ conn ∈ s.connections,
      conn ∈ s.connections ∨ conn ∈ e'.keeps := fun _ hentry => .inl hentry
  cases hadvances with
  | accepted fd ip => exact absurd rfl (haccept fd ip)
  | notFound target hpc hfind =>
      exact hkeep hsame rfl rfl (by simp [Exec.mem_keeps, hpc])
  | erased target conn hpc hfind =>
      have hnone := hsettled e hmem
      simp only [Exec.Settled, hpc] at hnone
      refine hkeep (fun other hentry => ?_) rfl rfl (fun other hother => ?_)
      · refine (hkeyed.others_or hentry).imp_right fun hfound => ?_
        rw [hfind] at hfound
        exact Exec.mem_keeps.mpr (.inr (.inl hfound))
      · refine Exec.mem_keeps.mpr (.inl ?_)
        simpa [Exec.mem_keeps, hpc, hnone] using hother
  | unregistered conn hpc hremoved =>
      revert hafter
      simp only [unregister]
      split
      · exact fun _ => hkeep hsame rfl rfl (by simp [Exec.mem_keeps, hpc])
      · exact fun hafter =>
          safe_leaveAccept hhomed _ _ hafter (by simp [hpc]) (by simp [hpc])
  | full hpc hfull =>
      exact safe_leaveAccept hhomed _ _ hafter (by simp [hpc]) (by simp [hpc])
  | drained hpc hbacklog =>
      exact safe_leaveAccept hhomed _ _ hafter (by simp [hpc]) (by simp [hpc])
  | failed hpc =>
      exact safe_leaveAccept hhomed _ _ hafter (by simp [hpc]) (by simp [hpc])
  | acquired conn hpc =>
      refine hkeep hsame rfl rfl ?_
      cases (PerIpConnectionLimiter.tryAcquire s.counts conn.ip).2
      all_goals simp [Exec.mem_keeps, hpc]
  | rejected conn hpc =>
      refine safe_closeFd (keepers_withExec (fun _ hentry => .inl hentry) rfl rfl ?_)
      intro other hother
      simp only [Exec.mem_keeps, hpc, Pc.shared?, Pc.private?] at hother ⊢
      rcases hother with htask | hremoved | hnone | hprivate
      · exact .inl (.inl htask)
      · exact .inl (.inr (.inl hremoved))
      · contradiction
      · exact .inr (congrArg ConnRef.fd (Option.some.inj hprivate)).symm
  | inserted conn hpc =>
      refine safe_drop hhomed hafter (keepers_withExec ?_ rfl rfl ?_)
      · intro other hentry
        rcases hkeyed.others_or hentry with hleft | hfound
        · exact .inl (List.mem_cons_of_mem _ hleft)
        · exact .inr (.inr hfound)
      · intro other hother
        refine .inl ?_
        simpa [Exec.mem_keeps, hpc] using hother
  | undoErased conn hpc =>
      refine safe_drop hhomed hafter (keepers_withExec ?_ rfl rfl ?_)
      · exact fun other hentry => (hkeyed.others_or hentry).imp_right Or.inr
      · intro other hother
        refine .inl ?_
        simpa [Exec.mem_keeps, hpc] using hother
  | undoClosed conn hpc =>
      refine safe_closeFd (keepers_withExec (fun _ hentry => .inl hentry) rfl rfl ?_)
      intro other hother
      refine .inl ?_
      simpa [Exec.mem_keeps, hpc] using hother
  | droppedLocal conn hpc =>
      refine safe_drop hhomed hafter (keepers_withExec (fun _ hentry => .inl hentry) rfl rfl ?_)
      intro other hother
      simp only [Exec.mem_keeps, hpc, Pc.shared?, Pc.private?] at hother ⊢
      rcases hother with htask | hremoved | hshared | hnone
      · exact .inl (.inl htask)
      · exact .inl (.inr (.inl hremoved))
      · exact .inr hshared
      · contradiction
  | returned hpc =>
      have hnone := hsettled e hmem
      simp only [Exec.Settled, hpc] at hnone
      refine safe_drop hhomed hafter ?_
      intro other hconn
      rcases mem_keepers.mp hconn with hentry | htask | ⟨mine, hmine, hkeeps⟩
      · exact .inl (mem_keepers.mpr (.inl hentry))
      · exact .inl (mem_keepers.mpr (.inr (.inl htask)))
      · by_cases hequal : mine = e
        · subst hequal
          simp only [Exec.mem_keeps, hpc, hnone, Pc.shared?, Pc.private?] at hkeeps
          exact .inr (by simpa using hkeeps)
        · have hleft := (List.mem_erase_of_ne hequal).mpr hmine
          exact .inl (mem_keepers.mpr (.inr (.inr ⟨mine, hleft, hkeeps⟩)))
  | _ => exact hkeep hsame rfl rfl (by simp [Exec.mem_keeps, *])

/-- Steps outside of the executions: a task ends, or the final cleanup closes the map. -/
theorem safe_step {action : ServerAction} (hhomed : Homed home s) (hafter : Homed home s')
    (hkeyed : Keyed s) (hsettled : ∀ e ∈ s.execs, e.Settled)
    (haccept : ∀ e fd ip, action ≠ .advance e (.client fd ip)) (hsteps : Steps s action s') :
    ∀ conn ∈ s.keepers, Safe s' conn := by
  have hmore : ∀ {t : ServerState}, t.connections = s.connections →
      (∀ task ∈ s.tasks, task ∈ t.tasks) → (∀ e ∈ s.execs, e ∈ t.execs) →
      ∀ conn ∈ s.keepers, Safe t conn := by
    intro t hconnections htasks hexecs conn hconn
    apply safe_of_keeper
    rcases mem_keepers.mp hconn with hentry | ⟨task, htask, heq⟩ | ⟨e, hmem, hkeeps⟩
    · exact mem_keepers.mpr (.inl (hconnections ▸ hentry))
    · exact mem_keepers.mpr (.inr (.inl ⟨task, htasks task htask, heq⟩))
    · exact mem_keepers.mpr (.inr (.inr ⟨e, hexecs e hmem, hkeeps⟩))
  cases hsteps with
  | advance e outcome _ hmem hadvances =>
      refine safe_advance hhomed hafter hkeyed hsettled hmem (fun fd ip heq => ?_) hadvances
      exact haccept e fd ip (by rw [heq])
  | finish task hmem =>
      refine safe_drop hhomed hafter ?_
      intro conn hconn
      rcases mem_keepers.mp hconn with hentry | ⟨other, hother, rfl⟩ | hexec
      · exact .inl (mem_keepers.mpr (.inl hentry))
      · by_cases hequal : other = task
        · exact .inr (by rw [hequal])
        · have hleft := (List.mem_erase_of_ne hequal).mpr hother
          exact .inl (mem_keepers.mpr (.inr (.inl ⟨other, hleft, rfl⟩)))
      · exact .inl (mem_keepers.mpr (.inr (.inr hexec)))
  | remove task hmem =>
      intro conn hconn
      apply safe_of_keeper
      rcases mem_keepers.mp hconn with hentry | ⟨other, hother, rfl⟩ | ⟨e, hmem, hkeeps⟩
      · exact mem_keepers.mpr (.inl hentry)
      · by_cases hequal : other = task
        · refine mem_keepers.mpr (.inr (.inr ⟨_, List.mem_cons_self, ?_⟩))
          exact Exec.mem_keeps.mpr (.inl (by rw [hequal]))
        · have hleft := (List.mem_erase_of_ne hequal).mpr hother
          exact mem_keepers.mpr (.inr (.inl ⟨other, hleft, rfl⟩))
      · exact mem_keepers.mpr (.inr (.inr ⟨e, List.mem_cons_of_mem _ hmem, hkeeps⟩))
  | cleanup hwaiting =>
      intro conn hconn
      rcases mem_keepers.mp hconn with hentry | htask | hexec
      · left
        cases howner : ownerOf s.cleanupAllConnections.history conn.fd with
        | none => rfl
        | some id => exact absurd (List.mem_map_of_mem hentry) (owner_cleanup howner).2
      · exact safe_of_keeper (mem_keepers.mpr (.inr (.inl htask)))
      · exact safe_of_keeper (mem_keepers.mpr (.inr (.inr hexec)))
  | dispatchRead | dispatchWrite | runResubmitted =>
      exact hmore rfl (fun _ htask => List.mem_append_right _ htask) (fun _ hmem => hmem)
  | dispatchAccept | dispatchHangUp | removeIdle =>
      exact hmore rfl (fun _ htask => htask) (fun _ hmem => List.mem_cons_of_mem _ hmem)
  | _ => exact hmore rfl (fun _ htask => htask) (fun _ hmem => hmem)

/-- Every open descriptor is in somebody's hands. -/
structure Traced (s : ServerState) : Prop where
  homed : ∃ home, Homed home s
  keyed : Keyed s
  settled : ∀ e ∈ s.execs, e.Settled
  kept : ∀ fd id, ownerOf s.history fd = some id →
    ∃ conn ∈ s.keepers, conn.fd = fd ∧ conn.id = id

/-- What `accept` returned is in its hands. -/
theorem kept_accept {fd number id : Nat} {ip : Bytes} (htraced : Traced s)
    (hadvances : Advances s e (.client fd ip) s')
    (howner : ownerOf s'.history number = some id) :
    ∃ conn ∈ s'.keepers, conn.fd = number ∧ conn.id = id := by
  cases hadvances with
  | accepted _ _ hpc hbacklog hfree =>
      simp only [acceptClient, ownerOf] at howner
      split at howner
      · next hfd =>
          refine ⟨{ id := s.nextId, fd := fd, ip := ip }, ?_, hfd, Option.some.inj howner⟩
          refine mem_keepers.mpr (.inr (.inr ⟨_, List.mem_cons_self, ?_⟩))
          simp [Exec.mem_keeps]
      · obtain ⟨conn, hconn, hsame⟩ := htraced.kept number id howner
        refine ⟨conn, ?_, hsame⟩
        have hmoved : ∀ conn ∈ s.keepers, conn ∈ (s.acceptClient e fd ip).keepers ∨ False :=
          keepers_withExec (fun _ hentry => .inl hentry) rfl rfl
            (by simp +contextual [Exec.mem_keeps, hpc, or_imp])
        exact (hmoved conn hconn).resolve_right not_false

theorem traced_step (s : ServerState) (action : ServerAction) (s' : ServerState)
    (htraced : Traced s) (hstep : s.step action = some s') : Traced s' := by
  have hsteps := steps_of_step hstep
  obtain ⟨home, hhomed⟩ := htraced.homed
  have hkeyed := keyed_step htraced.keyed hsteps
  have hsettled := settled_step htraced.settled hsteps
  by_cases haccept : ∃ e fd ip, action = .advance e (.client fd ip)
  · obtain ⟨e, fd, ip, rfl⟩ := haccept
    cases hsteps with
    | advance _ _ _ hmem hadvances =>
        exact ⟨⟨_, homed_accept hhomed hmem hadvances⟩, hkeyed, hsettled,
          fun _ _ howner => kept_accept htraced hadvances howner⟩
  · have hnone : ∀ e fd ip, action ≠ .advance e (.client fd ip) :=
      fun e fd ip heq => haccept ⟨e, fd, ip, heq⟩
    have hafter := homed_step hhomed hnone hsteps
    refine ⟨⟨home, hafter⟩, hkeyed, hsettled, fun fd id howner => ?_⟩
    obtain ⟨conn, hconn, rfl, rfl⟩ := htraced.kept fd id (owner_step hnone hsteps howner)
    have hsafe := safe_step hhomed hafter htraced.keyed htraced.settled hnone hsteps
    rcases hsafe conn hconn with hclosed | ⟨other, hother, hsame⟩
    · rw [hclosed] at howner
      contradiction
    · exact ⟨other, hother, congrArg Target.fd hsame, congrArg Target.meant hsame⟩

/-- In every run an open descriptor is kept by an entry of the map, a task or an
execution; once these are gone, nothing is open. -/
theorem descriptors_released {actions : List ServerAction}
    (hrun : run step {} actions = some s) :
    (∀ fd id, ownerOf s.history fd = some id →
        ∃ conn ∈ s.keepers, conn.fd = fd ∧ conn.id = id) ∧
      (s.connections = [] → s.tasks = [] → s.execs = [] →
        ∀ fd, ownerOf s.history fd = none) := by
  have hstart : Traced {} := by
    refine ⟨⟨fun _ => 0, ?_⟩, List.nodup_nil, by simp, by simp [ownerOf]⟩
    constructor <;> simp
  have htraced := run_invariant traced_step hstart hrun
  refine ⟨htraced.kept, fun hconnections htasks hexecs fd => ?_⟩
  cases howner : ownerOf s.history fd with
  | none => rfl
  | some id =>
      obtain ⟨conn, hconn, -⟩ := htraced.kept fd id howner
      simp [keepers, hconnections, htasks, hexecs] at hconn

/-- The cleanup finds a client in the map whose read task is still running. -/
def cleanedWhileRead : List ServerAction :=
  let conn : ConnRef := { id := 0, fd := 5, ip := [1] }
  acceptsClient conn ++
    [.fetch [.readable conn.target], .dispatch, .stop, .closeListener, .finishStopping,
      .cleanup, .finish { conn := conn, reading := true }]

theorem descriptors_released_cleanedWhileRead :
    ∃ s, run step {} cleanedWhileRead = some s ∧ .accepted 5 0 ∈ s.history ∧
      ∀ fd, ownerOf s.history fd = none := by
  obtain ⟨s, hrun, haccepted, hconnections, htasks, hexecs⟩ :=
    @exists_reached _ _ step {} cleanedWhileRead
      (fun s => .accepted 5 0 ∈ s.history ∧ s.connections = [] ∧ s.tasks = [] ∧ s.execs = []) _
      (by decide +kernel)
  exact ⟨s, hrun, haccepted, (descriptors_released hrun).2 hconnections htasks hexecs⟩

end Release

end ServerState

end HttpServer
