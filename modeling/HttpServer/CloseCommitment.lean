/-
The promise made by queuing a response with `Connection: close`: nothing more
is answered, and the connection goes as soon as the buffer is empty.  The
promise is kept by the close flag and by an interest in `EPOLLOUT` alone; both
are undone when another task of the connection overlaps, or when a write task
blocks again and re-arms `EPOLLIN`.
-/
import HttpServer.EventLoop

namespace HttpServer

open ByteText GuardedRun

/-- Since the first closing response nothing was queued and nothing routed, and
the first task to find the buffer empty went to remove the connection. -/
def CommitmentFinal (s : ClientState) : Prop :=
  ∀ commitment ∈ s.history.commitment,
    s.history.queued = commitment.queued ∧ s.history.routed = commitment.routed ∧
      commitment.firstFlush ≠ some false

instance (s : ClientState) : Decidable (CommitmentFinal s) :=
  inferInstanceAs (Decidable (∀ commitment ∈ s.history.commitment, _))

/-- The connection is out of the map, or a task is about to remove it. -/
def Leaving (s : ClientState) : Prop :=
  s.inMap = false ∨ ∃ task ∈ s.tasks, task.isRemoval = true

instance (s : ClientState) : Decidable (Leaving s) :=
  inferInstanceAs (Decidable (_ ∨ ∃ task ∈ s.tasks, _))

section Guard

variable (router : HttpRouter) (order : HeaderOrder)

/-- Behind a closing response no task that still has something to do enters
its critical section while the connection is being removed, and no write task
is blocked by `send`.  When `send` blocks on the closing response itself, every
other task of the connection is a write task that has not started, and no
fetched event is left to be read. -/
def closesAlone (s : ClientState) : Action → Prop
  | .read input =>
      (s.history.commitment ≠ none → ¬ Leaving s) ∧
        (¬ Leaving s → (readPass router order s.loop input s.conn).ending = .closing →
          blocks input.sends
            (readPass router order s.loop input s.conn).conn.writeBuffer.length = true →
          (∀ task ∈ s.tasks.erase .read, task = .write) ∧ .readable ∉ s.fetched)
  | .write sends =>
      s.history.commitment ≠ none → s.conn.writeBuffer ≠ [] →
        ¬ Leaving s ∧ blocks sends s.conn.writeBuffer.length = false
  | _ => True

instance (s : ClientState) (action : Action) :
    Decidable (closesAlone router order s action) :=
  match action with
  | .read _ => inferInstanceAs (Decidable ((_ → _) ∧ (_ → _ → _ → _ ∧ _)))
  | .write _ => inferInstanceAs (Decidable (_ → _ → _ ∧ _))
  | .deliver _ | .dispatch | .resubmitted | .updateEpoll _ | .remove _ | .unregister
  | .idleTimeout | .stop | .shutdown => isTrue trivial

end Guard

namespace Leaving

variable {s : ClientState}

theorem mono {s' : ClientState} (hleaving : Leaving s)
    (hinMap : s.inMap = false → s'.inMap = false)
    (htasks : ∀ task ∈ s.tasks, task.isRemoval = true → task ∈ s'.tasks) : Leaving s' := by
  rcases hleaving with hgone | ⟨task, hmem, hremoval⟩
  · exact Or.inl (hinMap hgone)
  · exact Or.inr ⟨task, htasks task hmem hremoval, hremoval⟩

theorem eraseFromMap (s : ClientState) (cause : RemovalCause) :
    Leaving (s.eraseFromMap cause) := by
  rw [ClientState.eraseFromMap]
  split
  · exact Or.inl rfl
  · next hgone => exact Or.inl (by simpa using hgone)

theorem finish (hleaving : Leaving s) {task : Task} (hremoval : task.isRemoval = false) :
    Leaving (s.finish task) := by
  refine hleaving.mono id ?_
  intro other hmem hother
  apply (List.mem_erase_of_ne _).mpr hmem
  rintro rfl
  rw [hremoval] at hother
  contradiction

theorem handleClientRead (hleaving : Leaving s) : Leaving s.handleClientRead := by
  rw [ClientState.handleClientRead]
  split
  · exact hleaving.mono id fun _ hmem _ => List.mem_cons_of_mem _ hmem
  · exact hleaving

theorem handleClientWrite (hleaving : Leaving s) : Leaving s.handleClientWrite := by
  rw [ClientState.handleClientWrite]
  split
  · exact hleaving.mono id fun _ hmem _ => List.mem_cons_of_mem _ hmem
  · exact hleaving

theorem updateEpoll (hleaving : Leaving s) (fullyFlushed : Bool) :
    Leaving (s.updateEpoll fullyFlushed) := by
  rw [ClientState.updateEpoll]
  split
  · split
    · exact hleaving.mono (by simp) fun task hmem _ => by simpa using hmem
    · exact hleaving.mono id fun _ hmem _ => List.mem_cons_of_mem _ hmem
  · exact hleaving.mono (by simp) fun task hmem _ => by simpa using hmem

end Leaving

/-- The connection is on its way out, or the close flag is up and only write
tasks and write events are left. -/
def OnlyWritesLeft (s : ClientState) : Prop :=
  Leaving s ∨
    (s.conn.closeAfterWriteFlag = true ∧ (∀ task ∈ s.tasks, task = .write) ∧
      .readable ∉ s.fetched ∧ s.interest.epollIn = false)

namespace OnlyWritesLeft

variable {s : ClientState}

theorem finish (hleft : OnlyWritesLeft s) {task : Task} (hremoval : task.isRemoval = false) :
    OnlyWritesLeft (s.finish task) := by
  rcases hleft with hleaving | ⟨hflag, htasks, hfetched, hinterest⟩
  · exact Or.inl (hleaving.finish hremoval)
  · right
    exact ⟨hflag, fun other hmem => htasks other (List.mem_of_mem_erase hmem), hfetched,
      hinterest⟩

/-- A task that is no write task shows that the connection is on its way out. -/
theorem leaving (hleft : OnlyWritesLeft s) {task : Task} (hmem : task ∈ s.tasks)
    (hwrite : task ≠ .write) : Leaving s := by
  rcases hleft with hleaving | ⟨_, hwrites, _⟩
  · exact hleaving
  · exact absurd (hwrites task hmem) hwrite

theorem handleClientWrite (hleft : OnlyWritesLeft s) :
    OnlyWritesLeft s.handleClientWrite := by
  rcases hleft with hleaving | ⟨hflag, htasks, hfetched, hinterest⟩
  · exact Or.inl hleaving.handleClientWrite
  · right
    rw [ClientState.handleClientWrite]
    split
    · refine ⟨hflag, ?_, hfetched, hinterest⟩
      intro task hmem
      rcases List.mem_cons.mp hmem with rfl | hmem
      · rfl
      · exact htasks task hmem
    · exact ⟨hflag, htasks, hfetched, hinterest⟩

end OnlyWritesLeft

theorem Decision.exists_removal {decision : Decision} (hremoves : decision.removes = true) :
    ∃ task ∈ decision.followUps, task.isRemoval = true := by
  cases decision with
  | remove cause => exact ⟨.remove cause, by simp [Decision.followUps], rfl⟩
  | updateEpoll fullyFlushed => contradiction
  | rearmed interest resubmit => contradiction

theorem Commitment.observe_firstFlush {commitment : Commitment} {flushed removes : Bool}
    (hkept : commitment.firstFlush ≠ some false) (hremoves : flushed = true → removes = true) :
    (commitment.observe flushed removes).firstFlush ≠ some false := by
  rw [Commitment.observe]
  split
  · next hfirst =>
      simp only [Bool.and_eq_true] at hfirst
      simp [hremoves hfirst.1]
  · exact hkept

@[simp] theorem Commitment.observe_queued (commitment : Commitment) (flushed removes : Bool) :
    (commitment.observe flushed removes).queued = commitment.queued := by
  rw [Commitment.observe]
  split <;> rfl

@[simp] theorem Commitment.observe_routed (commitment : Commitment) (flushed removes : Bool) :
    (commitment.observe flushed removes).routed = commitment.routed := by
  rw [Commitment.observe]
  split <;> rfl

/-- The promise is kept so far, and can only be kept from here on; an empty
buffer has been noticed. -/
structure CloseKept (s : ClientState) : Prop where
  final : CommitmentFinal s
  left : s.history.commitment ≠ none → OnlyWritesLeft s
  observed : ∀ commitment ∈ s.history.commitment, commitment.firstFlush = none →
    s.conn.writeBuffer ≠ []

namespace CloseKept

variable {s : ClientState}

theorem start : CloseKept {} where
  final := by simp [CommitmentFinal]
  left := fun hsome => absurd rfl hsome
  observed := by simp

/-- Steps outside the critical sections add nothing to the promise. -/
theorem frame {s' : ClientState} (hkept : CloseKept s)
    (hcommitment : s'.history.commitment = s.history.commitment)
    (hqueued : s'.history.queued = s.history.queued)
    (hrouted : s'.history.routed = s.history.routed) (hconn : s'.conn = s.conn)
    (hleft : s.history.commitment ≠ none → OnlyWritesLeft s → OnlyWritesLeft s') :
    CloseKept s' where
  final := by
    rw [CommitmentFinal, hcommitment, hqueued, hrouted]
    exact hkept.final
  left := by
    rw [hcommitment]
    exact fun hsome => hleft hsome (hkept.left hsome)
  observed := by
    rw [hcommitment, hconn]
    exact hkept.observed

/-- A removal from the map keeps what has been promised, whoever makes it. -/
theorem eraseFromMap (hfinal : CommitmentFinal s)
    (hobserved : ∀ commitment ∈ s.history.commitment, commitment.firstFlush = none →
      s.conn.writeBuffer ≠ []) (cause : RemovalCause) :
    CloseKept (s.eraseFromMap cause) where
  final := by
    rw [ClientState.eraseFromMap]
    split
    · exact hfinal
    · exact hfinal
  left := fun _ => Or.inl (Leaving.eraseFromMap s cause)
  observed := by
    rw [ClientState.eraseFromMap]
    split
    · exact hobserved
    · exact hobserved

theorem finish (hkept : CloseKept s) {task : Task} (hremoval : task.isRemoval = false) :
    CloseKept (s.finish task) :=
  hkept.frame rfl rfl rfl rfl fun _ hleft => hleft.finish hremoval

theorem handleClientWrite (hkept : CloseKept s) : CloseKept s.handleClientWrite := by
  have hleft := @OnlyWritesLeft.handleClientWrite s
  rw [ClientState.handleClientWrite] at hleft ⊢
  split
  · next hinMap =>
      rw [if_pos hinMap] at hleft
      exact hkept.frame rfl rfl rfl rfl fun _ => hleft
  · exact hkept

/-- A read event or a resubmission that comes too late. -/
theorem handleClientRead (hkept : CloseKept s)
    (hleaving : s.history.commitment ≠ none → Leaving s) :
    CloseKept s.handleClientRead := by
  have hleft := @Leaving.handleClientRead s
  rw [ClientState.handleClientRead] at hleft ⊢
  split
  · next hsubmits =>
      rw [if_pos hsubmits] at hleft
      exact hkept.frame rfl rfl rfl rfl fun hsome _ => Or.inl (hleft (hleaving hsome))
  · exact hkept

theorem updateEpoll (hkept : CloseKept s) (fullyFlushed : Bool)
    (hleaving : s.history.commitment ≠ none → Leaving s) :
    CloseKept (s.updateEpoll fullyFlushed) := by
  have hsame : (s.updateEpoll fullyFlushed).conn = s.conn := by
    rw [ClientState.updateEpoll]
    split
    · split <;> simp
    · simp
  refine hkept.frame (by simp) (by simp) (by simp) hsame ?_
  exact fun hsome _ => Or.inl ((hleaving hsome).updateEpoll fullyFlushed)

/-- Behind the promise no read task starts. -/
theorem commitment_none {router : HttpRouter} {order : HeaderOrder} {input : ReadInput}
    (hkept : CloseKept s) (hmem : .read ∈ s.tasks)
    (hguard : closesAlone router order s (.read input)) : s.history.commitment = none := by
  by_contra hsome
  exact hguard.1 hsome ((hkept.left hsome).leaving hmem (by simp))

theorem read {router : HttpRouter} {order : HeaderOrder} {input : ReadInput}
    (hkept : CloseKept s) (hregistered : RegisteredInMap s) (hmem : .read ∈ s.tasks)
    (hguard : closesAlone router order s (.read input)) :
    CloseKept ((s.finish .read).enact (readSection router order s.loop input s.conn)) := by
  have hnone := hkept.commitment_none hmem hguard
  have hsound := @readSection_sound router order s.loop input s.conn
  obtain ⟨armed, interest, heq, hinterest, _⟩ :=
    (s.finish .read).enact_eq (readSection router order s.loop input s.conn)
  rw [heq]
  cases hcommitted : (readSection router order s.loop input s.conn).committed with
  | false =>
      constructor
      · simp [CommitmentFinal, History.record, ClientState.finish, hnone, hcommitted]
      · simp [History.record, ClientState.finish, hnone, hcommitted]
      · simp [History.record, ClientState.finish, hnone, hcommitted]
  | true =>
      have hend := hsound.committedEnd hcommitted
      constructor
      · intro commitment hcommitment
        simp only [History.record, ClientState.finish, hnone, hcommitted, ↓reduceIte,
          Option.map_some, Option.mem_def, Option.some.injEq] at hcommitment
        subst hcommitment
        refine ⟨by simp [History.record, ClientState.finish],
          by simp [History.record, ClientState.finish], ?_⟩
        apply Commitment.observe_firstFlush (by simp)
        intro hflushed
        rcases hend with hremoves | ⟨_, hunflushed, _⟩
        · exact hremoves
        · rw [hflushed] at hunflushed
          contradiction
      · intro _
        rcases hend with hremoves | ⟨hflag, _, hdecision⟩
        · obtain ⟨task, htask, hremoval⟩ := Decision.exists_removal hremoves
          exact Or.inl (Or.inr ⟨task, List.mem_append_left _ htask, hremoval⟩)
        · by_cases hleaving : Leaving s
          · left
            refine (hleaving.finish (rfl : Task.read.isRemoval = false)).mono id ?_
            exact fun task htask _ => List.mem_append_right _ htask
          · have hinMap : s.inMap = true := by
              by_contra hgone
              exact hleaving (Or.inl (by simpa using hgone))
            have hstays : (readSection router order s.loop input s.conn).decision.removes =
                false := by rw [hdecision]; rfl
            obtain ⟨hending, hblocks⟩ := readSection_commits hcommitted hstays
            obtain ⟨hwrites, hfetched⟩ := hguard.2 hleaving hending hblocks
            have hasked := hinterest _ _ hdecision (hregistered hinMap).1
            refine Or.inr ⟨hflag, ?_, hfetched, by rw [hasked]⟩
            intro task htask
            rw [hdecision] at htask
            exact hwrites task (by simpa [Decision.followUps, ClientState.finish] using htask)
      · intro commitment hcommitment hunobserved hempty
        simp only [History.record, ClientState.finish, hnone, hcommitted, ↓reduceIte,
          Option.map_some, Option.mem_def, Option.some.injEq] at hcommitment
        subst hcommitment
        have hflushed := hsound.committedFlushed hcommitted hempty
        simp [Commitment.observe, hflushed] at hunobserved

/-- Behind the promise a write task keeps it: it finds nothing to do, or it
empties the buffer and goes to remove the connection. -/
theorem write_committed {sends : List SendResult} {commitment : Commitment}
    (hkept : CloseKept s) (hcommitment : s.history.commitment = some commitment)
    (hfree : s.conn.writeBuffer ≠ [] →
      ¬ Leaving s ∧ blocks sends s.conn.writeBuffer.length = false) :
    (commitment.observe (writeSection sends s.conn).flushed
        (writeSection sends s.conn).decision.removes).firstFlush ≠ some false ∧
      (Leaving s ∨ (writeSection sends s.conn).decision.removes = true) := by
  obtain ⟨_, _, hfirst⟩ := hkept.final commitment hcommitment
  have hleft := hkept.left (by simp [hcommitment])
  have hremoves : s.conn.closeAfterWriteFlag = true →
      blocks sends s.conn.writeBuffer.length = false →
      (writeSection sends s.conn).decision.removes = true := by
    intro hflag hroom
    rcases flushWrites_of_not_blocks _ _ hroom with hempty | herror
    · have hflushed := (flushWrites_fullyFlushed _ _).mpr hempty
      simp only [writeSection, hflushed, Connection.shouldCloseAfterWrite, hflag]
      split <;> rfl
    · simp [writeSection, herror, Decision.removes]
  by_cases hempty : s.conn.writeBuffer = []
  · have hnoticed : commitment.firstFlush ≠ none :=
      fun hunobserved => hkept.observed commitment hcommitment hunobserved hempty
    constructor
    · rw [Commitment.observe, if_neg (by simp [hnoticed])]
      exact hfirst
    · rcases hleft with hleaving | ⟨hflag, _⟩
      · exact Or.inl hleaving
      · right
        apply hremoves hflag
        cases sends <;> simp [hempty, blocks]
  · obtain ⟨hstays, hroom⟩ := hfree hempty
    rcases hleft with hleaving | ⟨hflag, _⟩
    · exact absurd hleaving hstays
    · have hgoes := hremoves hflag hroom
      exact ⟨Commitment.observe_firstFlush hfirst fun _ => hgoes, Or.inr hgoes⟩

theorem write {router : HttpRouter} {order : HeaderOrder} {sends : List SendResult}
    (hkept : CloseKept s) (hguard : closesAlone router order s (.write sends)) :
    CloseKept ((s.finish .write).enact (writeSection sends s.conn)) := by
  obtain ⟨armed, interest, heq, _⟩ := (s.finish .write).enact_eq (writeSection sends s.conn)
  rw [heq]
  cases hcommitment : s.history.commitment with
  | none =>
      constructor
      · simp [CommitmentFinal, History.record, ClientState.finish, hcommitment, writeSection]
      · simp [History.record, ClientState.finish, hcommitment, writeSection]
      · simp [History.record, ClientState.finish, hcommitment, writeSection]
  | some commitment =>
      obtain ⟨hfirst, hgoes⟩ :=
        hkept.write_committed hcommitment (hguard (by simp [hcommitment]))
      obtain ⟨hqueued, hrouted, _⟩ := hkept.final commitment hcommitment
      constructor
      · intro later hlater
        simp only [History.record, ClientState.finish, hcommitment, Option.map_some,
          Option.mem_def, Option.some.injEq] at hlater
        subst hlater
        refine ⟨?_, ?_, hfirst⟩
        · simpa [History.record, ClientState.finish, writeSection] using hqueued
        · simpa [History.record, ClientState.finish, writeSection] using hrouted
      · intro _
        left
        rcases hgoes with hleaving | hremoves
        · refine (hleaving.finish (rfl : Task.write.isRemoval = false)).mono id ?_
          exact fun task htask _ => List.mem_append_right _ htask
        · obtain ⟨task, htask, hremoval⟩ := Decision.exists_removal hremoves
          exact Or.inr ⟨task, List.mem_append_left _ htask, hremoval⟩
      · intro later hlater hunobserved hempty
        simp only [History.record, ClientState.finish, hcommitment, Option.map_some,
          Option.mem_def, Option.some.injEq] at hlater
        subst hlater
        have hflushed : (writeSection sends s.conn).flushed = true :=
          (flushWrites_fullyFlushed _ _).mpr hempty
        cases hknown : commitment.firstFlush with
        | none => simp [Commitment.observe, hflushed, hknown] at hunobserved
        | some removes => simp [Commitment.observe, hknown] at hunobserved

theorem deliver (hkept : CloseKept s) {event : EpollEvent}
    (hcan : s.canDeliver event = true) :
    CloseKept { s with armed := false, fetched := event.dispatches } := by
  refine hkept.frame rfl rfl rfl rfl fun _ => ?_
  rintro (hleaving | ⟨hflag, hwrites, _, hinterest⟩)
  · exact Or.inl hleaving
  · refine Or.inr ⟨hflag, hwrites, ?_, hinterest⟩
    have hunasked : event.epollIn = false := by
      simp only [ClientState.canDeliver, hinterest, Bool.and_eq_true, Bool.or_false,
        Bool.not_eq_eq_eq_not, Bool.not_true] at hcan
      exact hcan.1.2
    cases hhang : event.hangUp <;> cases hout : event.epollOut <;>
      simp [EpollEvent.dispatches, hunasked, hhang, hout]

theorem dispatch (hkept : CloseKept s) {first : Dispatch} {rest : List Dispatch}
    (hfetched : s.fetched = first :: rest) :
    CloseKept ({ s with fetched := rest }.handleDispatch first) := by
  have hpopped : CloseKept { s with fetched := rest } := by
    refine hkept.frame rfl rfl rfl rfl fun _ => ?_
    rintro (hleaving | ⟨hflag, hwrites, hreadable, hinterest⟩)
    · exact Or.inl hleaving
    · refine Or.inr ⟨hflag, hwrites, ?_, hinterest⟩
      rw [hfetched] at hreadable
      exact fun hmem => hreadable (List.mem_cons_of_mem _ hmem)
  cases first with
  | hangUp =>
      exact eraseFromMap (s := ClientState.disturb { s with fetched := rest }) hkept.final
        hkept.observed .hangUp
  | writable => exact hpopped.handleClientWrite
  | readable =>
      have hleft : s.history.commitment ≠ none → Leaving s := by
        intro hsome
        rcases hkept.left hsome with hleaving | ⟨_, _, hreadable, _⟩
        · exact hleaving
        · simp [hfetched] at hreadable
      exact hpopped.handleClientRead hleft

theorem step {router : HttpRouter} {order : HeaderOrder} {s' : ClientState}
    {action : Action} (hkept : CloseKept s) (hregistered : RegisteredInMap s)
    (hguard : closesAlone router order s action)
    (hstep : HttpServer.step router order s action = some s') : CloseKept s' := by
  -- a task other than a write task is only left when the connection is leaving
  have hleaving : ∀ {task : Task}, task ∈ s.tasks → task ≠ .write →
      task.isRemoval = false → s.history.commitment ≠ none → Leaving (s.finish task) := by
    intro task hmem hwrite hremoval hsome
    exact ((hkept.left hsome).leaving hmem hwrite).finish hremoval
  cases steps_of_step hstep with
  | deliver hcan => exact hkept.deliver hcan
  | dispatch hfetched => exact hkept.dispatch hfetched
  | read hmem => exact hkept.read hregistered hmem hguard
  | write _ => exact hkept.write hguard
  | resubmitted hmem =>
      exact (hkept.finish rfl).handleClientRead (hleaving hmem (by simp) rfl)
  | updateEpoll hmem =>
      exact (hkept.finish rfl).updateEpoll _ (hleaving hmem (by simp) rfl)
  | remove _ => exact eraseFromMap (s := s.finish _) hkept.final hkept.observed _
  | unregister _ => exact (hkept.finish rfl).frame rfl rfl rfl rfl fun _ => id
  | idleTimeout _ => exact eraseFromMap (s := s.disturb) hkept.final hkept.observed _
  | stop _ => exact hkept.frame rfl rfl rfl rfl fun _ => id
  | shutdown _ =>
      exact (eraseFromMap (s := s.disturb) hkept.final hkept.observed .shutdown).frame
        rfl rfl rfl rfl fun _ => id

end CloseKept

/-- In every run in which closing responses are not overlapped by other tasks,
a close commitment is final. -/
theorem closeCommitment_final {router : HttpRouter} {order : HeaderOrder}
    {actions : List Action} {s : ClientState}
    (hguard : Guarded (step router order) (closesAlone router order) {} actions)
    (hrun : run (step router order) {} actions = some s) : CommitmentFinal s := by
  have hinvariant := @invariant _ _ (step router order) (closesAlone router order)
    (fun s => RegisteredInMap s ∧ CloseKept s)
    (fun _ _ _ hholds hmeets hstep =>
      ⟨hholds.1.step hstep, hholds.2.step hholds.1 hmeets hstep⟩) actions
  exact (hinvariant ⟨RegisteredInMap.start, CloseKept.start⟩ hguard hrun).2.final

/-- A closing response sent in two parts, with a pipelined request behind it
that is never answered. -/
def closedInTwoParts : List Action :=
  [.deliver { epollIn := true }, .dispatch,
    .read { recvs := [.data (ascii
      "GET / HTTP/1.1\r\nConnection: close\r\n\r\nGET / HTTP/1.1\r\n\r\n")],
            sends := [.accepted 9] },
    .deliver { epollOut := true }, .dispatch, .write [.accepted 99, .accepted 99],
    .remove .closeResponse]

/-- The commitment is known, the connection gone and everything sent. -/
def ClosedCompletely (s : ClientState) : Prop :=
  s.history.commitment.map Commitment.firstFlush = some (some true) ∧ s.inMap = false ∧
    s.history.routed.length = 1

instance (s : ClientState) : Decidable (ClosedCompletely s) :=
  inferInstanceAs (Decidable (_ ∧ _ ∧ _))

theorem closeCommitment_final_inTwoParts :
    ∃ s, run (step {} sortedOrder) {} closedInTwoParts = some s ∧ ClosedCompletely s ∧
      CommitmentFinal s := by
  obtain ⟨s, hrun, hclosed⟩ := @exists_reached _ _ (step {} sortedOrder) {}
    closedInTwoParts ClosedCompletely _ (by decide +kernel)
  exact ⟨s, hrun, hclosed, closeCommitment_final (by decide +kernel) hrun⟩

/-- A write task that blocks again re-arms `EPOLLIN`, and the next request on
the closing connection is routed and answered. -/
def answeredAfterClose : List Action :=
  [.deliver { epollIn := true }, .dispatch,
    .read { recvs := [.data (ascii "GET / HTTP/1.1\r\nConnection: close\r\n\r\n")],
            sends := [.accepted 9] },
    .deliver { epollOut := true }, .dispatch, .write [.accepted 9], .updateEpoll false,
    .deliver { epollIn := true }, .dispatch,
    .read { recvs := [.data (ascii "GET / HTTP/1.1\r\n\r\n")] }]

theorem closeCommitment_broken :
    ∃ s, run (step {} sortedOrder) {} answeredAfterClose = some s ∧
      s.history.routed.length = 2 ∧ ¬ CommitmentFinal s :=
  exists_reached (by decide +kernel)

end HttpServer
