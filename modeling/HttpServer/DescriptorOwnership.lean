/-
Who closes a descriptor.  A `Connection` closes its number when the last
reference to it goes; as long as nothing else does, every descriptor is closed
once and used only while it is open.
-/
import HttpServer.DescriptorNames

namespace HttpServer

open GuardedRun

/-- Each number is closed at most once before it is handed out again, and used
only for the descriptor that is open under it. -/
def WellOwned : List FdEvent → Prop
  | [] => True
  | .accepted _ _ :: earlier => WellOwned earlier
  | .closed fd :: earlier => ownerOf earlier fd ≠ none ∧ WellOwned earlier
  | .used fd id :: earlier => ownerOf earlier fd = some id ∧ WellOwned earlier

instance decidableWellOwned : ∀ history, Decidable (WellOwned history)
  | [] => isTrue trivial
  | .accepted _ _ :: earlier => decidableWellOwned earlier
  | .closed fd :: earlier =>
      have := decidableWellOwned earlier
      inferInstanceAs (Decidable (ownerOf earlier fd ≠ none ∧ WellOwned earlier))
  | .used fd id :: earlier =>
      have := decidableWellOwned earlier
      inferInstanceAs (Decidable (ownerOf earlier fd = some id ∧ WellOwned earlier))

/-- The number is open for the object it was taken from. -/
def OwnedBy (history : List FdEvent) (target : Target) : Prop :=
  ownerOf history target.fd = some target.meant

theorem OwnedBy.ne_none {history : List FdEvent} {target : Target}
    (howner : OwnedBy history target) : ownerOf history target.fd ≠ none := by
  rw [show ownerOf history target.fd = some target.meant from howner]
  exact Option.some_ne_none _

theorem ownedBy_closed {history : List FdEvent} {target other : Target}
    (howner : OwnedBy history target) (hother : OwnedBy history other)
    (hne : other.meant ≠ target.meant) : OwnedBy (.closed target.fd :: history) other := by
  have hfd : target.fd ≠ other.fd := by
    intro heq
    rw [OwnedBy, ← heq, howner] at hother
    exact hne (Option.some.inj hother).symm
  rw [OwnedBy, ownerOf, if_neg hfd]
  exact hother

/-- The roll back of a failed registration. -/
def Pc.undoes : Pc → Bool
  | .undoRelease _ | .undoErase _ | .undoClose _ => true
  | _ => false

def privateIds (execs : List Exec) : List Nat :=
  execs.filterMap fun e => e.pc.private?.map ConnRef.id

theorem filterMap_perm_erase {α β : Type} [DecidableEq α] (f : α → Option β) {items : List α}
    {item : α} (hmem : item ∈ items) :
    (items.filterMap f).Perm ((f item).toList ++ (items.erase item).filterMap f) := by
  have hperm := (List.perm_cons_erase hmem).filterMap f
  rw [List.filterMap_cons] at hperm
  cases hf : f item <;> simpa [hf] using hperm

theorem privateIds_perm {execs : List Exec} {e : Exec} (hmem : e ∈ execs) :
    (privateIds execs).Perm ((e.pc.private?.map ConnRef.id).toList ++
      privateIds (execs.erase e)) :=
  filterMap_perm_erase _ hmem

theorem mem_privateIds_of_erase {execs : List Exec} {e : Exec} {id : Nat}
    (hid : id ∈ privateIds (execs.erase e)) : id ∈ privateIds execs := by
  obtain ⟨other, hother, hpc⟩ := List.mem_filterMap.mp hid
  exact List.mem_filterMap.mpr ⟨other, List.mem_of_mem_erase hother, hpc⟩

namespace ServerState

section Separation

variable {s s' : ServerState} {e : Exec}

/-- What a step does to the descriptors that are still private. -/
theorem privateIds_advances {outcome : Outcome} (hadvances : Advances s e outcome s') :
    ∃ new : List Nat, privateIds s'.execs = new ++ privateIds (s.execs.erase e) ∧
      ((new = [] ∧ s'.nextId = s.nextId ∧ ∀ fd ip, outcome ≠ .client fd ip) ∨
        (∃ conn, e.pc = .acquiring conn ∧ new = [conn.id] ∧ s'.nextId = s.nextId ∧
          ∀ fd ip, outcome ≠ .client fd ip) ∨
        (e.pc = .accepting ∧ new = [s.nextId] ∧ s'.nextId = s.nextId + 1)) := by
  cases hadvances with
  | accepted fd ip hpc hbacklog howner => exact ⟨[s.nextId], rfl, .inr (.inr ⟨hpc, rfl, rfl⟩)⟩
  | acquired conn hpc =>
      refine ⟨[conn.id], ?_, .inr (.inl ⟨conn, hpc, rfl, rfl, by simp⟩)⟩
      simp only [acquire, goTo, privateIds]
      split <;> rfl
  | unregistered conn hpc hremoved =>
      refine ⟨[], ?_, .inl ⟨rfl, ?_, by simp⟩⟩
      · simp only [unregister]
        split <;> rfl
      · simp only [unregister]
        split <;> rfl
  | _ => exact ⟨[], rfl, .inl ⟨rfl, rfl, by simp⟩⟩

/-- Private descriptors are known to one execution each. -/
structure Separate (s : ServerState) : Prop where
  apart : AllNamed (fun target => target.meant ∉ privateIds s.execs ∧ target.meant < s.nextId)
    (fun _ => True) (fun target => target.meant < s.nextId) s
  distinct : (privateIds s.execs).Nodup

theorem Separate.lt_nextId (hseparate : Separate s) {id : Nat}
    (hid : id ∈ privateIds s.execs) : id < s.nextId := by
  obtain ⟨e, hmem, hprivate⟩ := List.mem_filterMap.mp hid
  rw [Option.map_eq_some_iff] at hprivate
  obtain ⟨conn, hconn, rfl⟩ := hprivate
  exact hseparate.apart.inPrivate e hmem conn hconn

theorem separate_advance {outcome : Outcome} (hseparate : Separate s) (hmem : e ∈ s.execs)
    (hadvances : Advances s e outcome s') : Separate s' := by
  obtain ⟨new, hprivate, hnew⟩ := privateIds_advances hadvances
  have hperm := privateIds_perm hmem
  have hdistinct := hperm.nodup_iff.mp hseparate.distinct
  have hrest : (privateIds (s.execs.erase e)).Nodup := hdistinct.of_append_right
  have hnext : s.nextId ≤ s'.nextId := by
    rcases hnew with ⟨-, heq, -⟩ | ⟨conn, -, -, heq, -⟩ | ⟨-, -, heq⟩ <;> omega
  -- what is private afterwards was private before, or is new
  have holds : ∀ id ∈ new ++ privateIds (s.execs.erase e),
      id ∈ privateIds s.execs ∨ id = s.nextId := by
    intro id hid
    rcases List.mem_append.mp hid with hid | hid
    · rcases hnew with ⟨rfl, -⟩ | ⟨conn, hpc, rfl, -⟩ | ⟨-, rfl, -⟩
      · simp at hid
      · left
        rw [List.mem_singleton.mp hid, hperm.mem_iff]
        simp [hpc]
      · exact .inr (List.mem_singleton.mp hid)
    · exact .inl (mem_privateIds_of_erase hid)
  have hshared : AllNamed
      (fun target => target.meant ∉ privateIds s'.execs ∧ target.meant < s'.nextId)
      (fun _ => True) (fun target => target.meant < s'.nextId) s := by
    refine hseparate.apart.both hseparate.apart ?_ (fun _ _ _ => trivial)
      (fun _ hlt _ => hlt.trans_le hnext)
    rintro target ⟨hapart, hlt⟩ -
    refine ⟨fun hid => ?_, hlt.trans_le hnext⟩
    rw [hprivate] at hid
    rcases holds _ hid with hid | hid
    · exact hapart hid
    · omega
  refine ⟨allNamed_advance (fun _ _ => trivial) hshared hmem ?_ ?_ hadvances, ?_⟩
  · intro fd ip houtcome
    rcases hnew with ⟨-, -, hno⟩ | ⟨_, -, -, -, hno⟩ | ⟨-, -, hnext⟩
    · exact absurd houtcome (hno fd ip)
    · exact absurd houtcome (hno fd ip)
    · show s.nextId < s'.nextId
      omega
  · intro conn hpc
    refine ⟨fun hid => ?_, (hseparate.apart.inPrivate e hmem conn (by simp [hpc])).trans_le hnext⟩
    rw [hprivate] at hid
    rcases hnew with ⟨rfl, -⟩ | ⟨other, hother, -⟩ | ⟨hother, -⟩
    · simp only [hpc, Pc.private?, Option.map_some, Option.toList_some, List.singleton_append,
        List.nodup_cons] at hdistinct
      exact hdistinct.1 hid
    · simp [hpc] at hother
    · simp [hpc] at hother
  · rw [hprivate]
    rcases hnew with ⟨rfl, -⟩ | ⟨conn, hpc, rfl, -⟩ | ⟨-, rfl, -⟩
    · simpa using hrest
    · simpa [hpc] using hdistinct
    · refine List.nodup_cons.mpr ⟨fun hid => ?_, hrest⟩
      exact absurd (hseparate.lt_nextId (mem_privateIds_of_erase hid)) (Nat.lt_irrefl _)

theorem separate_step {action : ServerAction} (hseparate : Separate s)
    (hsteps : Steps s action s') : Separate s' := by
  by_cases hadvance : ∃ e outcome, action = .advance e outcome
  · obtain ⟨e, outcome, rfl⟩ := hadvance
    cases hsteps with
    | advance _ _ _ hmem hadvances => exact separate_advance hseparate hmem hadvances
  · have hnamed := allNamed_step (fun _ _ => trivial) hseparate.apart
      (fun e fd ip heq => absurd ⟨e, _, heq⟩ hadvance)
      (fun e _ outcome _ heq => absurd ⟨e, outcome, heq⟩ hadvance) hsteps
    have hsame : privateIds s'.execs = privateIds s.execs ∧ s'.nextId = s.nextId := by
      cases hsteps with
      | advance e outcome => exact absurd ⟨e, outcome, rfl⟩ hadvance
      | _ => exact ⟨rfl, rfl⟩
    constructor
    · rw [hsame.1, hsame.2]
      exact hnamed
    · rw [hsame.1]
      exact hseparate.distinct

end Separation

section Ownership

variable {s s' : ServerState} {e : Exec}

/-- Everything that is held is open. -/
def HeldOpen (s : ServerState) : Prop :=
  AllNamed (OwnedBy s.history) (fun _ => True) (OwnedBy s.history) s

/-- Nobody knows the object. -/
theorem allNamed_ne {id : Nat} (hunreferenced : s.referenced id = false)
    (hprivate : id ∉ privateIds s.execs) :
    AllNamed (fun target => target.meant ≠ id) (fun _ => True)
      (fun target => target.meant ≠ id) s := by
  have hheld : ∀ conn ∈ s.held, conn.id ≠ id := by
    simpa [referenced] using hunreferenced
  refine ⟨fun _ _ _ _ => trivial, fun _ _ => trivial, fun _ _ => trivial, fun _ _ => trivial,
    ?_, ?_, ?_, fun _ _ _ _ => trivial, ?_⟩
  · intro conn hconn
    exact hheld conn (by simp [held, hconn])
  · intro task htask
    refine hheld task.conn (List.mem_append_left _ (List.mem_append_right _ ?_))
    exact List.mem_map_of_mem htask
  · intro e he conn hconn
    refine hheld conn (List.mem_append_right _ (List.mem_flatMap.mpr ⟨e, he, ?_⟩))
    simp only [Exec.shares, Exec.held, List.mem_append] at hconn ⊢
    rcases hconn with hconn | hconn
    · exact .inl hconn
    · refine .inr ?_
      cases hpc : e.pc <;> simp_all
  · intro e he conn hconn heq
    refine hprivate (List.mem_filterMap.mpr ⟨e, he, ?_⟩)
    rw [hconn, ← heq]
    rfl

/-- Closing the number of an object that nobody knows any more. -/
theorem heldOpen_closed {history : List FdEvent} {target : Target}
    (hnamed : AllNamed (OwnedBy history) (fun _ => True) (OwnedBy history) s)
    (howner : OwnedBy history target)
    (hgone : AllNamed (fun other => other.meant ≠ target.meant) (fun _ => True)
      (fun other => other.meant ≠ target.meant) s) :
    AllNamed (OwnedBy (.closed target.fd :: history)) (fun _ => True)
      (OwnedBy (.closed target.fd :: history)) s :=
  hnamed.both hgone (fun _ hother hne => ownedBy_closed howner hother hne)
    (fun _ _ _ => trivial) (fun _ hother hne => ownedBy_closed howner hother hne)

theorem exists_of_dropped {conn : Option ConnRef} {fd : Nat} (hdropped : s.dropped conn = some fd) :
    ∃ c, conn = some c ∧ s.referenced c.id = false ∧ c.fd = fd := by
  simp only [dropped, Option.map_eq_some_iff, Option.filter_eq_some_iff] at hdropped
  obtain ⟨c, ⟨hsome, hunreferenced⟩, hfd⟩ := hdropped
  exact ⟨c, hsome, by simpa using hunreferenced, hfd⟩

/-- The destructor closes what is still open, and only once. -/
theorem heldOpen_drop {conn : Option ConnRef} (hopen : HeldOpen s) (hwell : WellOwned s.history)
    (hconn : ∀ c, conn = some c →
      OwnedBy s.history c.target ∧ c.id ∉ privateIds s.execs) :
    HeldOpen (s.drop conn) ∧ WellOwned (s.drop conn).history := by
  have hnamed := AllNamed.drop hopen conn
  cases hdropped : s.dropped conn with
  | none =>
      have hhistory : (s.drop conn).history = s.history := by
        simp [drop, closeFd, hdropped]
      rw [HeldOpen, hhistory]
      exact ⟨hnamed, hwell⟩
  | some fd =>
      obtain ⟨c, hsome, hunreferenced, rfl⟩ := exists_of_dropped hdropped
      obtain ⟨howner, hprivate⟩ := hconn c hsome
      have hgone := AllNamed.drop (allNamed_ne hunreferenced hprivate) conn
      have hhistory : (s.drop conn).history = .closed c.fd :: s.history := by
        simp [drop, closeFd, hdropped]
      rw [HeldOpen, hhistory]
      exact ⟨heldOpen_closed hnamed howner hgone, howner.ne_none, hwell⟩

/-- Everything held is open and was closed at most once so far. -/
structure Owned (s : ServerState) : Prop where
  heldOpen : HeldOpen s
  separate : Separate s
  history : WellOwned s.history
  noUndo : ∀ e ∈ s.execs, e.pc.undoes = false

/-- What an execution shares is open, and private to no other execution. -/
theorem Owned.shares (howned : Owned s) (hmem : e ∈ s.execs) (conn : ConnRef)
    (hconn : conn ∈ e.shares) :
    OwnedBy s.history conn.target ∧ conn.id ∉ privateIds (s.execs.erase e) := by
  refine ⟨howned.heldOpen.inExecs e hmem conn hconn, fun hid => ?_⟩
  exact (howned.separate.apart.inExecs e hmem conn hconn).1 (mem_privateIds_of_erase hid)

/-- A private number is not in the map. -/
theorem Owned.find_private (howned : Owned s) (hmem : e ∈ s.execs) {conn : ConnRef}
    (hconn : e.pc.private? = some conn) : s.find conn.fd = none := by
  cases hfind : s.find conn.fd with
  | none => rfl
  | some other =>
      exfalso
      obtain ⟨hother, hfd⟩ := mem_of_find hfind
      have hmine : ownerOf s.history conn.fd = some conn.id :=
        howned.heldOpen.inPrivate e hmem conn hconn
      have htheirs : ownerOf s.history other.fd = some other.id :=
        howned.heldOpen.inMap other hother
      rw [hfd, hmine] at htheirs
      apply (howned.separate.apart.inMap other hother).1
      refine List.mem_filterMap.mpr ⟨e, hmem, ?_⟩
      rw [hconn, Option.map_some, htheirs]
      rfl

/-- `handle_accept` returns. -/
theorem heldOpen_leaveAccept {history : List FdEvent} {registered : List ConnRef}
    (howned : Owned s) (hmem : e ∈ s.execs)
    (hopen : ∀ target, OwnedBy s.history target → OwnedBy history target)
    (hwell : WellOwned history) :
    HeldOpen (({ s with history := history, registered := registered }).leaveAccept e) ∧
      WellOwned
        (({ s with history := history, registered := registered }).leaveAccept e).history := by
  have hkept : AllNamed (OwnedBy history) (fun _ => True) (OwnedBy history)
      { s with history := history, registered := registered } :=
    { howned.heldOpen.both howned.heldOpen (fun target htarget _ => hopen target htarget)
        (fun _ _ _ => trivial) (fun target htarget _ => hopen target htarget) with
      inEpoll := fun _ _ => trivial }
  refine heldOpen_drop { AllNamed.leaveAccept hkept hmem with inEpoll := fun _ _ => trivial }
    hwell ?_
  intro conn hremoved
  have hshares := howned.shares hmem conn (by simp [Exec.shares, hremoved])
  exact ⟨hopen _ hshares.1, hshares.2⟩

theorem heldOpen_unregister (howned : Owned s) (hmem : e ∈ s.execs) (conn : ConnRef) :
    HeldOpen (s.unregister e conn) ∧ WellOwned (s.unregister e conn).history := by
  have hused : ∀ target, OwnedBy s.history target → OwnedBy (if s.epollOpen then
      (e.task.map fun c => FdEvent.used c.fd c.id).toList ++ s.history else s.history)
        target := by
    intro target htarget
    split
    · cases e.task <;> exact htarget
    · exact htarget
  have hwell : WellOwned (if s.epollOpen then
      (e.task.map fun c => FdEvent.used c.fd c.id).toList ++ s.history else s.history) := by
    split
    · cases htask : e.task with
      | none => exact howned.history
      | some c =>
          have hshares := howned.shares hmem c (by simp [Exec.shares, htask])
          exact ⟨hshares.1, howned.history⟩
    · exact howned.history
  simp only [unregister]
  split
  · refine ⟨?_, hwell⟩
    have hgo := howned.heldOpen.goTo hmem .loading (by simp) (by simp) (by simp)
    exact { hgo.both hgo (fun target htarget _ => hused target htarget)
      (fun _ _ _ => trivial) (fun target htarget _ => hused target htarget) with
        inEpoll := fun _ _ => trivial }
  · exact heldOpen_leaveAccept howned hmem hused hwell

theorem heldOpen_accept {fd : Nat} {ip : Bytes} (howned : Owned s) (hmem : e ∈ s.execs)
    (hfree : ownerOf s.history fd = none) :
    HeldOpen (s.acceptClient e fd ip) ∧ WellOwned (s.acceptClient e fd ip).history := by
  refine ⟨?_, howned.history⟩
  have hkept : ∀ target : Target, OwnedBy s.history target →
      OwnedBy (.accepted fd s.nextId :: s.history) target := by
    intro target htarget
    have hne : fd ≠ target.fd := by
      rintro rfl
      rw [OwnedBy, hfree] at htarget
      contradiction
    rw [OwnedBy, ownerOf, if_neg hne]
    exact htarget
  have hopen := howned.heldOpen.both howned.heldOpen (fun target htarget _ => hkept target htarget)
    (fun _ _ _ => trivial) (fun target htarget _ => hkept target htarget)
  have hgo : AllNamed (OwnedBy (.accepted fd s.nextId :: s.history)) (fun _ => True)
      (OwnedBy (.accepted fd s.nextId :: s.history))
      (s.goTo e (.acquiring { id := s.nextId, fd := fd, ip := ip })) := by
    refine hopen.goTo hmem _ (by simp) (by simp) ?_
    simp [OwnedBy, ownerOf, ConnRef.target]
  exact hgo

/-- Only the execution that rejects a client knows its number. -/
theorem allNamed_ne_rejected {conn : ConnRef} (howned : Owned s) (hmem : e ∈ s.execs)
    (hpc : e.pc = .rejecting conn) :
    AllNamed (fun target => target.meant ≠ conn.id) (fun _ => True)
      (fun target => target.meant ≠ conn.id) (s.reject e conn) := by
  have hperm := (privateIds_perm hmem).nodup_iff.mp howned.separate.distinct
  simp only [hpc, Pc.private?, Option.map_some, Option.toList_some, List.singleton_append,
    List.nodup_cons] at hperm
  have hprivate : conn.id ∈ privateIds s.execs :=
    List.mem_filterMap.mpr ⟨e, hmem, by simp [hpc]⟩
  have hshared : AllNamed (fun target => target.meant ≠ conn.id) (fun _ => True)
      (fun _ => True) s :=
    howned.separate.apart.both howned.separate.apart
      (fun target hapart _ heq => hapart.1 (heq ▸ hprivate)) (fun _ _ _ => trivial)
      (fun _ _ _ => trivial)
  have hgo := (hshared.goTo hmem .loading (by simp) (by simp) (by simp)).closeFd (some conn.fd)
  refine { hgo with inPrivate := ?_ }
  intro other hother c hc heq
  rcases List.mem_cons.mp hother with rfl | hrest
  · simp at hc
  · apply hperm.1
    refine List.mem_filterMap.mpr ⟨other, hrest, ?_⟩
    rw [hc, Option.map_some]
    exact congrArg some heq

/-- One case per place of the code; the closes are those of a rejected client and
of the destructor. -/
theorem heldOpen_advance {outcome : Outcome} (howned : Owned s) (hmem : e ∈ s.execs)
    (hadvances : Advances s e outcome s') : HeldOpen s' ∧ WellOwned s'.history := by
  have hpublish : ∀ conn, e.pc = .inserting conn → OwnedBy s.history conn.target :=
    fun conn hpc => howned.heldOpen.inPrivate e hmem conn (by simp [hpc])
  have hnoUndo := howned.noUndo e hmem
  by_cases haccept : ∃ fd ip, outcome = .client fd ip
  · obtain ⟨fd, ip, rfl⟩ := haccept
    cases hadvances with
    | accepted _ _ hpc hbacklog hfree => exact heldOpen_accept howned hmem hfree
  have hnamed := allNamed_advance (fun _ _ => trivial) howned.heldOpen hmem
    (fun fd ip heq => absurd ⟨fd, ip, heq⟩ haccept) hpublish hadvances
  cases hadvances with
  | accepted fd ip => exact absurd ⟨fd, ip, rfl⟩ haccept
  | unregistered conn hpc hremoved => exact heldOpen_unregister howned hmem conn
  | full hpc hfull =>
      exact heldOpen_leaveAccept howned hmem (fun _ htarget => htarget) howned.history
  | drained hpc hbacklog =>
      exact heldOpen_leaveAccept howned hmem (fun _ htarget => htarget) howned.history
  | failed hpc =>
      exact heldOpen_leaveAccept howned hmem (fun _ htarget => htarget) howned.history
  | rejected conn hpc =>
      have howner := howned.heldOpen.inPrivate e hmem conn (by simp [hpc])
      exact ⟨heldOpen_closed hnamed howner (allNamed_ne_rejected howned hmem hpc),
        howner.ne_none, howned.history⟩
  | inserted conn hpc =>
      have hnone : s.find conn.fd = none := howned.find_private hmem (by simp [hpc])
      have hhistory : (s.insert e conn).history = s.history := by
        simp [insert, drop, dropped, closeFd, hnone, goTo]
      rw [HeldOpen, hhistory]
      exact ⟨hnamed, howned.history⟩
  | droppedLocal conn hpc =>
      refine heldOpen_drop { hnamed with inEpoll := fun _ _ => trivial } howned.history ?_
      rintro c ⟨⟩
      exact howned.shares hmem conn (by simp [Exec.shares, hpc])
  | returned hpc =>
      refine heldOpen_drop { hnamed with inEpoll := fun _ _ => trivial } howned.history ?_
      intro c htask
      exact howned.shares hmem c (by simp [Exec.shares, htask])
  | undoReleased conn hpc => simp [hpc, Pc.undoes] at hnoUndo
  | undoErased conn hpc => simp [hpc, Pc.undoes] at hnoUndo
  | undoClosed conn hpc => simp [hpc, Pc.undoes] at hnoUndo
  | _ => exact ⟨hnamed, howned.history⟩

/-- Every registration succeeds, and the final cleanup finds no connection. -/
def registrationsHold (s : ServerState) : ServerAction → Prop
  | .advance _ .addFailed => False
  | .cleanup => s.connections = []
  | _ => True

instance : ∀ s action, Decidable (registrationsHold s action) := by
  intro s action
  unfold registrationsHold
  split <;> infer_instance

theorem noUndo_advance {outcome : Outcome} (hnoUndo : ∀ e ∈ s.execs, e.pc.undoes = false)
    (hmem : e ∈ s.execs) (hholds : registrationsHold s (.advance e outcome))
    (hadvances : Advances s e outcome s') : ∀ e ∈ s'.execs, e.pc.undoes = false := by
  have hcons : ∀ {e' : Exec}, e'.pc.undoes = false →
      ∀ other ∈ e' :: s.execs.erase e, other.pc.undoes = false := by
    intro e' hpc other hother
    rcases List.mem_cons.mp hother with rfl | hrest
    · exact hpc
    · exact hnoUndo other (List.mem_of_mem_erase hrest)
  have hmine := hnoUndo e hmem
  cases hadvances with
  | addFailed conn hpc => exact absurd hholds id
  | undoReleased conn hpc => simp [hpc, Pc.undoes] at hmine
  | undoErased conn hpc => simp [hpc, Pc.undoes] at hmine
  | undoClosed conn hpc => simp [hpc, Pc.undoes] at hmine
  | returned hpc => exact fun other hother => hnoUndo other (List.mem_of_mem_erase hother)
  | acquired conn hpc =>
      refine hcons ?_
      dsimp only
      split <;> rfl
  | unregistered conn hpc hremoved =>
      simp only [unregister]
      split <;> exact hcons rfl
  | _ => exact hcons rfl

/-- Steps outside of the executions: only the end of a task can close. -/
theorem owned_step (s : ServerState) (action : ServerAction) (s' : ServerState)
    (howned : Owned s) (hholds : registrationsHold s action)
    (hstep : s.step action = some s') : Owned s' := by
  have hsteps := steps_of_step hstep
  have hseparate := separate_step howned.separate hsteps
  by_cases hadvance : ∃ e outcome, action = .advance e outcome
  · obtain ⟨e, outcome, rfl⟩ := hadvance
    cases hsteps with
    | advance _ _ _ hmem hadvances =>
        obtain ⟨hopen, hwell⟩ := heldOpen_advance howned hmem hadvances
        exact ⟨hopen, hseparate, hwell, noUndo_advance howned.noUndo hmem hholds hadvances⟩
  have hnamed := allNamed_step (fun _ _ => trivial) howned.heldOpen
    (fun e fd ip heq => absurd ⟨e, _, heq⟩ hadvance)
    (fun e _ outcome _ heq => absurd ⟨e, outcome, heq⟩ hadvance) hsteps
  have hstarted : ∀ {e' : Exec}, e'.pc.undoes = false →
      ∀ other ∈ e' :: s.execs, other.pc.undoes = false := by
    intro e' hpc other hother
    rcases List.mem_cons.mp hother with rfl | hrest
    · exact hpc
    · exact howned.noUndo other hrest
  cases hsteps with
  | advance e outcome => exact absurd ⟨e, outcome, rfl⟩ hadvance
  | use task hmem =>
      exact ⟨hnamed, hseparate, ⟨howned.heldOpen.inTasks task hmem, howned.history⟩,
        howned.noUndo⟩
  | finish task hmem =>
      have herased : HeldOpen { s with tasks := s.tasks.erase task } :=
        { hnamed with inEpoll := fun _ _ => trivial }
      obtain ⟨hopen, hwell⟩ := heldOpen_drop herased howned.history fun c hsome => by
        obtain rfl := Option.some.inj hsome
        exact ⟨howned.heldOpen.inTasks task hmem, (howned.separate.apart.inTasks task hmem).1⟩
      exact ⟨hopen, hseparate, hwell, howned.noUndo⟩
  | cleanup hwaiting =>
      have hhistory : s.cleanupAllConnections.history = s.history := by
        simp [cleanupAllConnections, show s.connections = [] from hholds]
      refine ⟨?_, hseparate, ?_, howned.noUndo⟩
      · rw [HeldOpen, hhistory]
        exact hnamed
      · rw [hhistory]
        exact howned.history
  | dispatchAccept rest hfetched hfree hloop =>
      exact ⟨hnamed, hseparate, howned.history, hstarted rfl⟩
  | dispatchHangUp target rest hfetched hfree =>
      exact ⟨hnamed, hseparate, howned.history, hstarted rfl⟩
  | removeIdle first rest hidle hfree =>
      exact ⟨hnamed, hseparate, howned.history, hstarted rfl⟩
  | remove task hmem => exact ⟨hnamed, hseparate, howned.history, hstarted rfl⟩
  | _ => exact ⟨hnamed, hseparate, howned.history, howned.noUndo⟩

/-- In every run where registrations succeed and the cleanup finds the map empty,
descriptors are closed once and not used afterwards. -/
theorem descriptors_wellOwned {actions : List ServerAction}
    (hguarded : Guarded step registrationsHold {} actions)
    (hrun : run step {} actions = some s) : WellOwned s.history := by
  have hstart : Owned {} := by
    refine ⟨?_, ⟨?_, List.nodup_nil⟩, trivial, by simp⟩
    all_goals constructor <;> simp
  exact (GuardedRun.invariant owned_step hstart hguarded hrun).history

/-- A client is registered, read by a worker and removed by it. -/
def servedAndRemoved : List ServerAction :=
  let conn : ConnRef := { id := 0, fd := 5, ip := [1] }
  let worker : Exec := { task := some conn, removed := some conn, pc := .unregistering }
  acceptsClient conn ++
    [.fetch [.readable conn.target], .dispatch, .use { conn := conn, reading := true },
      .remove { conn := conn, reading := true }] ++
    subtractsClient { worker with removed := none } conn ++
    [.advance worker .proceed, .advance { worker with pc := .loading } .proceed,
      .advance { worker with pc := .accepting } .wouldBlock,
      .advance { worker with removed := none, pc := .done } .proceed]

theorem descriptors_wellOwned_removed :
    ∃ s, run step {} servedAndRemoved = some s ∧ .closed 5 ∈ s.history ∧
      WellOwned s.history := by
  obtain ⟨s, hrun, hclosed⟩ := @exists_reached _ _ step {} servedAndRemoved
    (fun s => .closed 5 ∈ s.history) _ (by decide +kernel)
  have hguarded : Guarded step registrationsHold {} servedAndRemoved := by decide +kernel
  exact ⟨s, hrun, hclosed, descriptors_wellOwned hguarded hrun⟩

/-- `EPOLL_CTL_ADD` fails: the roll back closes the number, and so does the
destructor. -/
def registrationFails : List ServerAction :=
  let conn : ConnRef := { id := 0, fd := 5, ip := [1] }
  [.arrive, .fetch [.listener], .dispatch, .advance { pc := .loading } .proceed,
    .advance { pc := .accepting } (.client conn.fd conn.ip),
    .advance { pc := .acquiring conn } .proceed, .advance { pc := .inserting conn } .proceed,
    .advance { pc := .adding conn } .addFailed, .advance { pc := .undoRelease conn } .proceed,
    .advance { pc := .undoErase conn } .proceed, .advance { pc := .undoClose conn } .proceed,
    .advance { pc := .dropping conn } .proceed]

theorem descriptors_closedTwice :
    ∃ s, run step {} registrationFails = some s ∧
      s.history = [.closed 5, .closed 5, .accepted 5 0] ∧ ¬ WellOwned s.history :=
  exists_reached (by decide +kernel)

end Ownership

end ServerState

end HttpServer
