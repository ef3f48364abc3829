/-
The intake of a connection around a stop.  `handle_client_read`, the drain loop and
the resubmission of the read task each test the loop state first and act on it
afterwards.  Here test and effect are steps of their own and a stop may fall between
them: what it still lets through is what has already passed a test.
-/
import HttpServer.AccessLog

namespace HttpServer

open ByteText GuardedRun

/-- Where the read task is that holds the connection's mutex. -/
inductive Reader where
  | idle
  /-- In front of the drain loop's test, with what has been received. -/
  | testing (received : Bytes)
  /-- Behind the test, in front of `recv`. -/
  | receiving (received : Bytes)
  /-- Behind the drain loop, and whether it met the end of the stream or an error. -/
  | drained (received : Bytes) (closed : Bool)
  /-- Behind the re-arm with parseable bytes left, in front of the second test. -/
  | capped
  /-- Behind the second test, in front of the resubmission. -/
  | resubmitting
deriving DecidableEq

namespace Reader

def received : Reader → Bytes
  | testing received | receiving received | drained received _ => received
  | idle | capped | resubmitting => []

/-- The parse loop is still to come. -/
def passDue : Reader → Nat
  | testing _ | receiving _ | drained _ _ => 1
  | idle | capped | resubmitting => 0

def recvDue : Reader → Nat
  | receiving _ => 1
  | _ => 0

def resubmitDue : Reader → Nat
  | resubmitting => 1
  | _ => 0

/-- Behind a `recv`; `none` is a call that would block. -/
def behindRecv (received : Bytes) : Option RecvResult → Reader
  | none => drained received false
  | some .failed | some (.data []) => drained received true
  | some (.data bytes) => testing (received ++ bytes)

/-- The bytes that a `recv` returns. -/
def recvBytes : Option RecvResult → Bytes
  | some (.data bytes) => bytes
  | _ => []

theorem behindRecv_spec (bytes : Bytes) (result : Option RecvResult) :
    (behindRecv bytes result).received = bytes ++ recvBytes result ∧
      (behindRecv bytes result).passDue = 1 ∧ (behindRecv bytes result).recvDue = 0 ∧
      (behindRecv bytes result).resubmitDue = 0 := by
  unfold behindRecv
  split <;> simp [received, passDue, recvDue, resubmitDue, recvBytes]

end Reader

section Tail

variable (router : HttpRouter) (order : HeaderOrder)

/-- The parse loop on what the drain loop has received. -/
def tailPass (input : ReadInput) (received : Bytes) (conn : Connection) : Pass :=
  parseLoop router order input.now input.allow maxParseIterations
    (conn.receive input.now received)

/-- The read task behind its drain loop, the resubmission aside. -/
def readTail (input : ReadInput) (received : Bytes) (closed : Bool) (conn : Connection) :
    TaskSection :=
  if closed then
    { conn := conn.receive input.now received
      received
      decision := .remove .peerClosed }
  else finishPass .stopping input received (tailPass router order input received conn)

/-- `has_more_parseable`, behind the re-arm. -/
def hasMore (input : ReadInput) (received : Bytes) (closed : Bool) (conn : Connection) : Bool :=
  !closed && (tailPass router order input received conn).ending = .capped &&
    !(readTail router order input received closed conn).decision.removes

end Tail

/-- The connection with its read task taken apart. -/
structure IntakeState where
  client : ClientState := {}
  reader : Reader := .idle
  /-- Calls of `handle_client_read` behind their test. -/
  calls : Nat := 0
deriving DecidableEq

inductive IntakeAction where
  /-- A step of the connection.  Where it calls `handle_client_read` it gets as far as
  the test there; the read task has steps of its own. -/
  | client (action : Action)
  /-- The lookup and the submission behind that test. -/
  | submit
  | lock
  | test
  | recv (result : Option RecvResult)
  /-- Parse loop, flush and re-arm. -/
  | finish (input : ReadInput)
  | testMore
  | resubmit

/-- What a step takes in or has done. -/
inductive Effect where
  | received (bytes : Bytes)
  | submitted
  | resubmitted
  | passed (bodies : List Iteration)

/-- The kinds of effects that need a test or a task. -/
inductive EffectKind where
  | recv
  | submit
  | resubmit
  | pass
deriving DecidableEq

namespace Effect

def kind : Effect → EffectKind
  | received _ => .recv
  | submitted => .submit
  | resubmitted => .resubmit
  | passed _ => .pass

def bytes : Effect → Bytes
  | received bytes => bytes
  | _ => []

def bodies : Effect → List Iteration
  | passed bodies => bodies
  | _ => []

end Effect

namespace IntakeState

/-- `handle_client_read` up to its test. -/
def testRead (s : IntakeState) : IntakeState :=
  if s.client.loop = .running then { s with calls := s.calls + 1 } else s

def received (s : IntakeState) : Bytes := s.client.history.received ++ s.reader.received

/-- How many effects of a kind have passed the test, or have their task. -/
def due (s : IntakeState) : EffectKind → Nat
  | .recv => s.reader.recvDue
  | .submit => s.calls
  | .resubmit => s.reader.resubmitDue
  | .pass => s.client.tasks.count .read + s.calls + s.reader.passDue

variable (router : HttpRouter) (order : HeaderOrder)

def step (s : IntakeState) : IntakeAction → Option IntakeState
  | .client .dispatch =>
      match s.client.fetched with
      | .readable :: rest => some { s with client := { s.client with fetched := rest } }.testRead
      | _ => (HttpServer.step router order s.client .dispatch).map fun client => { s with client }
  | .client .resubmitted =>
      if .resubmitted ∈ s.client.tasks then
        some { s with client := s.client.finish .resubmitted }.testRead
      else none
  | .client (.read _) => none
  | .client (.write sends) =>
      -- the reader has the mutex
      if s.reader = .idle then
        (HttpServer.step router order s.client (.write sends)).map fun client => { s with client }
      else none
  | .client action =>
      (HttpServer.step router order s.client action).map fun client => { s with client }
  | .submit =>
      if s.calls = 0 then none
      else
        some { s with
          calls := s.calls - 1
          client :=
            if s.client.inMap then { s.client with tasks := .read :: s.client.tasks }
            else s.client }
  | .lock =>
      if s.reader = .idle ∧ .read ∈ s.client.tasks then
        some { s with client := s.client.finish .read, reader := .testing [] }
      else none
  | .test =>
      match s.reader with
      | .testing received =>
          some { s with
            reader := if s.client.loop = .running then .receiving received
              else .drained received false }
      | _ => none
  | .recv result =>
      match s.reader with
      | .receiving received => some { s with reader := .behindRecv received result }
      | _ => none
  | .finish input =>
      match s.reader with
      | .drained received closed =>
          some { s with
            client := s.client.enact (readTail router order input received closed s.client.conn)
            reader := if hasMore router order input received closed s.client.conn then .capped
              else .idle }
      | _ => none
  | .testMore =>
      match s.reader with
      | .capped =>
          some { s with reader := if s.client.loop = .running then .resubmitting else .idle }
      | _ => none
  | .resubmit =>
      match s.reader with
      | .resubmitting =>
          some { s with
            client := { s.client with tasks := .resubmitted :: s.client.tasks }
            reader := .idle }
      | _ => none

/-- The effects of a step that is possible. -/
def effects (s : IntakeState) : IntakeAction → List Effect
  | .submit => if s.client.inMap then [.submitted] else []
  | .recv result => [.received (Reader.recvBytes result)]
  | .finish input =>
      match s.reader with
      | .drained received false =>
          let conn := s.client.conn.receive input.now received
          [.passed (iterations router input.allow maxParseIterations conn.progress
            conn.readBuffer)]
      | _ => []
  | .resubmit => [.resubmitted]
  | _ => []

end IntakeState

section Connection

variable {router : HttpRouter} {order : HeaderOrder} {s s' : ClientState}

/-- Behind a stop: nothing is received, and no read task is added. -/
structure Untouched (s s' : ClientState) : Prop where
  stopped : s'.loop ≠ .running
  received : s'.history.received = s.history.received
  reads : s'.tasks.count .read ≤ s.tasks.count .read

namespace Untouched

theorem finish (hstopped : s.loop ≠ .running) (task : Task) : Untouched s (s.finish task) :=
  ⟨hstopped, rfl, List.erase_sublist.count_le _⟩

theorem trans {middle : ClientState} (hfirst : Untouched s middle)
    (hsecond : Untouched middle s') : Untouched s s' :=
  ⟨hsecond.stopped, hsecond.received.trans hfirst.received, hsecond.reads.trans hfirst.reads⟩

theorem disturb (hstopped : s.loop ≠ .running) : Untouched s s.disturb :=
  ⟨hstopped, rfl, Nat.le_refl _⟩

theorem eraseFromMap (hstopped : s.loop ≠ .running) (cause : RemovalCause) :
    Untouched s (s.eraseFromMap cause) := by
  rw [ClientState.eraseFromMap]
  split
  · exact ⟨hstopped, rfl, by simp⟩
  · exact ⟨hstopped, rfl, Nat.le_refl _⟩

theorem handleClientRead (hstopped : s.loop ≠ .running) : Untouched s s.handleClientRead := by
  rw [ClientState.handleClientRead, if_neg (by simp [hstopped])]
  exact ⟨hstopped, rfl, Nat.le_refl _⟩

theorem handleClientWrite (hstopped : s.loop ≠ .running) : Untouched s s.handleClientWrite := by
  rw [ClientState.handleClientWrite]
  split
  · exact ⟨hstopped, rfl, by simp⟩
  · exact ⟨hstopped, rfl, Nat.le_refl _⟩

theorem updateEpoll (hstopped : s.loop ≠ .running) (fullyFlushed : Bool) :
    Untouched s (s.updateEpoll fullyFlushed) := by
  rw [ClientState.updateEpoll]
  split
  · exact ⟨hstopped, rfl, by simp⟩
  · exact ⟨by simpa using hstopped, by simp, by simp⟩

end Untouched

theorem Decision.count_read_followUps (decision : Decision) :
    decision.followUps.count .read = 0 := by
  cases decision with
  | remove cause => rfl
  | updateEpoll fullyFlushed => rfl
  | rearmed interest resubmit => cases resubmit <;> rfl

/-- A critical section adds no read task. -/
theorem enact_intake (s : ClientState) (work : TaskSection) :
    (s.enact work).loop = s.loop ∧
      (s.enact work).history.received = s.history.received ++ work.received ∧
      (s.enact work).tasks.count .read = s.tasks.count .read := by
  obtain ⟨armed, interest, heq, _⟩ := s.enact_eq work
  rw [heq]
  refine ⟨rfl, rfl, ?_⟩
  rw [List.count_append, Decision.count_read_followUps, Nat.zero_add]

theorem untouched_of_step {action : Action} (hstopped : s.loop ≠ .running)
    (hread : ∀ input, action ≠ .read input)
    (hstep : HttpServer.step router order s action = some s') : Untouched s s' := by
  have hdisturbed : Untouched s s.disturb := .disturb hstopped
  cases steps_of_step hstep with
  | @read input _ => exact absurd rfl (hread input)
  | write _ =>
      have hfinished : Untouched s (s.finish .write) := .finish hstopped .write
      obtain ⟨hloop, hreceived, hreads⟩ := enact_intake (s.finish .write) _
      refine hfinished.trans ⟨?_, ?_, hreads.le⟩
      · rw [hloop]
        exact hstopped
      · rw [hreceived]
        exact List.append_nil _
  | deliver _ => exact ⟨hstopped, rfl, Nat.le_refl _⟩
  | @dispatch first rest _ =>
      have hpopped : Untouched s { s with fetched := rest } := ⟨hstopped, rfl, Nat.le_refl _⟩
      cases first with
      | hangUp =>
          have hnext := hpopped.trans (.disturb hpopped.stopped)
          exact hnext.trans (.eraseFromMap hnext.stopped .hangUp)
      | readable => exact hpopped.trans (.handleClientRead hpopped.stopped)
      | writable => exact hpopped.trans (.handleClientWrite hpopped.stopped)
  | resubmitted _ =>
      have hfinished : Untouched s (s.finish .resubmitted) := .finish hstopped .resubmitted
      exact hfinished.trans (.handleClientRead hfinished.stopped)
  | @updateEpoll fullyFlushed _ =>
      have hfinished : Untouched s (s.finish (.updateEpoll fullyFlushed)) := .finish hstopped _
      exact hfinished.trans (.updateEpoll hfinished.stopped fullyFlushed)
  | @remove cause _ =>
      have hfinished : Untouched s (s.finish (.remove cause)) := .finish hstopped _
      exact hfinished.trans (.eraseFromMap hfinished.stopped cause)
  | unregister _ =>
      have hfinished : Untouched s (s.finish .unregister) := .finish hstopped .unregister
      exact hfinished.trans ⟨hstopped, rfl, Nat.le_refl _⟩
  | idleTimeout _ => exact hdisturbed.trans (.eraseFromMap hdisturbed.stopped .idleTimeout)
  | stop hloop => exact absurd hloop hstopped
  | shutdown _ =>
      have herased := hdisturbed.trans (.eraseFromMap hdisturbed.stopped .shutdown)
      exact ⟨by simp, herased.received, herased.reads⟩

theorem readTail_received (input : ReadInput) (received : Bytes) (closed : Bool)
    (conn : Connection) :
    (readTail router order input received closed conn).received = received := by
  rw [readTail]
  split
  · rfl
  · cases hending : (tailPass router order input received conn).ending with
    | closing =>
        simp only [finishPass, hending]
        split
        · rfl
        · split <;> rfl
    | idle =>
        simp only [finishPass, hending]
        split <;> rfl
    | capped =>
        simp only [finishPass, hending]
        split <;> rfl
    | _ => simp [finishPass, hending]

theorem iterations_length_le {allow : Nat → Bool} (remaining : Nat) :
    ∀ (progress : Progress) (readBuffer : Bytes),
      (iterations router allow remaining progress readBuffer).length ≤ remaining := by
  induction remaining with
  | zero => exact fun _ _ => Nat.le_refl 0
  | succ remaining ih =>
      intro progress readBuffer
      rw [iterations]
      split
      · exact Nat.zero_le _
      · rcases parse progress readBuffer with ⟨result, p, rest⟩
        cases result with
        | incomplete => simp
        | error => simp
        | success =>
            dsimp only
            split
            · simp
            · cases router.route p.request with
              | none => simp
              | some res =>
                  dsimp only
                  rw [List.length_cons]
                  apply Nat.succ_le_succ
                  split
                  · exact Nat.zero_le _
                  · exact ih p.reset rest

end Connection

namespace IntakeState

variable {router : HttpRouter} {order : HeaderOrder} {s s' : IntakeState}

/-- From a stopped loop on, each effect uses up something that was due, and what has
been received is what the effects say. -/
structure Accounts (s s' : IntakeState) (effects : List Effect) : Prop where
  stopped : s'.client.loop ≠ .running
  received : s'.received = s.received ++ effects.flatMap Effect.bytes
  paid : ∀ kind, effects.countP (fun effect => effect.kind = kind) + s'.due kind ≤ s.due kind
  short : ∀ effect ∈ effects, effect.bodies.length ≤ maxParseIterations

namespace Accounts

theorem start (hstopped : s.client.loop ≠ .running) : Accounts s s [] :=
  ⟨hstopped, (List.append_nil _).symm, fun _ => by simp, by simp⟩

theorem trans {middle : IntakeState} {first second : List Effect}
    (hfirst : Accounts s middle first) (hsecond : Accounts middle s' second) :
    Accounts s s' (first ++ second) where
  stopped := hsecond.stopped
  received := by
    rw [hsecond.received, hfirst.received, List.flatMap_append, List.append_assoc]
  paid := by
    intro kind
    have hearly := hfirst.paid kind
    have hlate := hsecond.paid kind
    rw [List.countP_append]
    omega
  short := List.forall_mem_append.mpr ⟨hfirst.short, hsecond.short⟩

/-- Steps of the connection that leave the reader and the calls alone. -/
theorem client {client : ClientState} (huntouched : Untouched s.client client) :
    Accounts s { s with client } [] where
  stopped := huntouched.stopped
  received := by simp [IntakeState.received, huntouched.received]
  paid := by
    intro kind
    have hreads := huntouched.reads
    cases kind <;> simp [due]
    omega
  short := by simp

end Accounts

theorem accounts_client {action : Action} (hstopped : s.client.loop ≠ .running)
    (hstep : s.step router order (.client action) = some s') : Accounts s s' [] := by
  have hother : ∀ {client : ClientState}, (∀ input, action ≠ .read input) →
      HttpServer.step router order s.client action = some client →
        Accounts s { s with client } [] :=
    fun hread hclient => .client (untouched_of_step hstopped hread hclient)
  cases action with
  | read input => contradiction
  | dispatch =>
      simp only [step] at hstep
      split at hstep
      · next rest hfetched =>
          obtain rfl := Option.some.inj hstep
          rw [testRead, if_neg hstopped]
          exact .client ⟨hstopped, rfl, Nat.le_refl _⟩
      · obtain ⟨client, hclient, rfl⟩ := Option.map_eq_some_iff.mp hstep
        exact hother (by simp) hclient
  | resubmitted =>
      simp only [step, Option.ite_none_right_eq_some] at hstep
      obtain ⟨_, heq⟩ := hstep
      obtain rfl := Option.some.inj heq
      have hfinished : Untouched s.client (s.client.finish .resubmitted) := .finish hstopped _
      rw [testRead, if_neg hfinished.stopped]
      exact .client hfinished
  | write sends =>
      simp only [step, Option.ite_none_right_eq_some] at hstep
      obtain ⟨_, heq⟩ := hstep
      obtain ⟨client, hclient, rfl⟩ := Option.map_eq_some_iff.mp heq
      exact hother (by simp) hclient
  | _ =>
      obtain ⟨client, hclient, rfl⟩ := Option.map_eq_some_iff.mp hstep
      exact hother (by simp) hclient

/-- The rest of a pass that has received its bytes. -/
theorem accounts_finish {input : ReadInput} (hstopped : s.client.loop ≠ .running)
    (hstep : s.step router order (.finish input) = some s') :
    Accounts s s' (effects router s (.finish input)) := by
  simp only [step] at hstep
  split at hstep
  · next bytes closed hreader =>
      obtain rfl := Option.some.inj hstep
      obtain ⟨hloop, hreceived, hreads⟩ := enact_intake s.client
        (readTail router order input bytes closed s.client.conn)
      rw [readTail_received] at hreceived
      have hover : ∀ more : Bool, (if more then Reader.capped else .idle).received = [] ∧
          (if more then Reader.capped else .idle).passDue = 0 ∧
          (if more then Reader.capped else .idle).recvDue = 0 ∧
          (if more then Reader.capped else .idle).resubmitDue = 0 := by decide
      obtain ⟨hempty, hpass, hrecv, hresubmit⟩ :=
        hover (hasMore router order input bytes closed s.client.conn)
      have hbodies : (effects router s (.finish input)).flatMap Effect.bytes = [] ∧
          (∀ effect ∈ effects router s (.finish input),
            effect.kind = .pass ∧ effect.bodies.length ≤ maxParseIterations) ∧
          (effects router s (.finish input)).length ≤ 1 := by
        simp only [effects, hreader]
        cases closed <;> simp [Effect.bytes, Effect.kind, Effect.bodies, iterations_length_le]
      obtain ⟨hbytes, hkinds, hone⟩ := hbodies
      refine ⟨?_, ?_, ?_, fun effect heffect => (hkinds effect heffect).2⟩
      · rw [hloop]
        exact hstopped
      · simp only [received, hreceived, hreader, hempty, hbytes, List.append_nil]
        rfl
      · intro kind
        have hcount : (effects router s (.finish input)).countP
            (fun effect => effect.kind = kind) ≤ if kind = .pass then 1 else 0 := by
          split
          · exact List.countP_le_length.trans hone
          · next hother =>
              rw [Nat.le_zero, List.countP_eq_zero]
              intro effect heffect
              simpa [(hkinds effect heffect).1, eq_comm] using hother
        cases kind <;> simp only [due, hreads, hpass, hrecv, hresubmit, hreader] <;>
          simp [Reader.recvDue, Reader.resubmitDue, Reader.passDue] at hcount ⊢ <;> omega
  · contradiction

theorem accounts_step {action : IntakeAction} (hstopped : s.client.loop ≠ .running)
    (hstep : s.step router order action = some s') :
    Accounts s s' (effects router s action) := by
  cases action with
  | client action => exact accounts_client hstopped hstep
  | submit =>
      simp only [step, Option.ite_none_left_eq_some] at hstep
      obtain ⟨hcalls, heq⟩ := hstep
      obtain rfl := Option.some.inj heq
      by_cases hmap : s.client.inMap = true
      · refine ⟨?_, ?_, ?_, ?_⟩ <;> simp [effects, hmap, hstopped, received, Effect.bytes,
          Effect.bodies]
        intro kind
        cases kind <;> simp [due, Effect.kind] <;> omega
      · refine ⟨?_, ?_, ?_, ?_⟩ <;> simp [effects, hmap, hstopped, received]
        intro kind
        cases kind <;> simp [due]
  | lock =>
      simp only [step, Option.ite_none_right_eq_some] at hstep
      obtain ⟨⟨hidle, hmem⟩, heq⟩ := hstep
      obtain rfl := Option.some.inj heq
      have hcount := List.count_pos_iff.mpr hmem
      have herase : (s.client.tasks.erase .read).count .read = s.client.tasks.count .read - 1 :=
        List.count_erase_self
      refine ⟨hstopped, ?_, ?_, by simp [effects]⟩
      · simp [effects, received, hidle, Reader.received, ClientState.finish]
      · intro kind
        cases kind <;>
          simp [effects, due, hidle, Reader.recvDue, Reader.resubmitDue, Reader.passDue,
            ClientState.finish, herase]
        omega
  | test =>
      simp only [step] at hstep
      split at hstep
      · next bytes hreader =>
          obtain rfl := Option.some.inj hstep
          rw [if_neg hstopped]
          refine ⟨hstopped, ?_, ?_, by simp [effects]⟩
          · simp [effects, received, hreader, Reader.received]
          · intro kind
            cases kind <;> simp [effects, due, hreader, Reader.recvDue, Reader.resubmitDue,
              Reader.passDue]
      · contradiction
  | recv result =>
      simp only [step] at hstep
      split at hstep
      · next bytes hreader =>
          obtain rfl := Option.some.inj hstep
          obtain ⟨hreceived, hpass, hrecv, hresubmit⟩ := Reader.behindRecv_spec bytes result
          refine ⟨hstopped, ?_, ?_, by simp [effects, Effect.bodies]⟩
          · simp only [received, hreceived, hreader]
            simp [effects, Reader.received, Effect.bytes]
          · intro kind
            cases kind <;> simp only [due, hpass, hrecv, hresubmit, hreader] <;>
              simp [effects, Reader.recvDue, Reader.resubmitDue, Reader.passDue, Effect.kind]
      · contradiction
  | finish input => exact accounts_finish hstopped hstep
  | testMore =>
      simp only [step] at hstep
      split at hstep
      · next hreader =>
          obtain rfl := Option.some.inj hstep
          rw [if_neg hstopped]
          refine ⟨hstopped, ?_, ?_, by simp [effects]⟩
          · simp [effects, received, hreader, Reader.received]
          · intro kind
            cases kind <;> simp [effects, due, hreader, Reader.recvDue, Reader.resubmitDue,
              Reader.passDue]
      · contradiction
  | resubmit =>
      simp only [step] at hstep
      split at hstep
      · next hreader =>
          obtain rfl := Option.some.inj hstep
          refine ⟨hstopped, ?_, ?_, by simp [effects, Effect.bodies]⟩
          · simp [effects, received, hreader, Reader.received, Effect.bytes]
          · intro kind
            cases kind <;> simp [effects, due, hreader, Reader.recvDue, Reader.resubmitDue,
              Reader.passDue, Effect.kind]
      · contradiction

section Refinement

variable {c c' : ClientState}

theorem run_drain (hrunning : c.loop = .running) (recvs : List RecvResult) :
    ∀ received, ∃ actions,
      run (step router order) { client := c, reader := .testing received } actions =
        some { client := c, reader :=
          .drained (received ++ (drainSocket recvs).1) (drainSocket recvs).2 } := by
  induction recvs with
  | nil =>
      intro received
      exact ⟨[.test, .recv none], by simp [run, step, hrunning, Reader.behindRecv, drainSocket]⟩
  | cons result recvs ih =>
      intro received
      cases result with
      | failed =>
          exact ⟨[.test, .recv (some .failed)],
            by simp [run, step, hrunning, Reader.behindRecv, drainSocket]⟩
      | data bytes =>
          cases bytes with
          | nil =>
              exact ⟨[.test, .recv (some (.data []))],
                by simp [run, step, hrunning, Reader.behindRecv, drainSocket]⟩
          | cons b bytes =>
              obtain ⟨actions, hlater⟩ := ih (received ++ b :: bytes)
              refine ⟨.test :: .recv (some (.data (b :: bytes))) :: actions, ?_⟩
              simpa [run, step, hrunning, Reader.behindRecv, drainSocket] using hlater

/-- The loop state matters to the end of a read task only for the resubmission. -/
theorem finishPass_stopping (loop : LoopState) (input : ReadInput) (received : Bytes)
    (pass : Pass) :
    (pass.ending = .capped ∧ (finishPass .stopping input received pass).decision.removes = false ∧
        ∃ interest,
          (finishPass .stopping input received pass).decision = .rearmed interest false ∧
          (loop = .running → finishPass loop input received pass =
            { finishPass .stopping input received pass with
              decision := .rearmed interest true }) ∧
          (loop ≠ .running →
            finishPass loop input received pass = finishPass .stopping input received pass)) ∨
      (¬(pass.ending = .capped ∧
          (finishPass .stopping input received pass).decision.removes = false) ∧
        finishPass loop input received pass = finishPass .stopping input received pass) := by
  cases hending : pass.ending with
  | capped =>
      simp only [finishPass, hending]
      split
      · exact Or.inr ⟨by simp [Decision.removes], rfl⟩
      · refine Or.inl ⟨trivial, rfl, _, rfl, fun hrunning => ?_, fun hstopped => ?_⟩
        · simp [hrunning]
        · simp [hstopped]
  | _ => exact Or.inr ⟨by simp, by simp [finishPass, hending]⟩

/-- A resubmission is one task more. -/
theorem enact_resubmit (c : ClientState) {work : TaskSection} {interest : Interest}
    (hdecision : work.decision = .rearmed interest false) :
    c.enact { work with decision := .rearmed interest true } =
      { c.enact work with tasks := .resubmitted :: (c.enact work).tasks } := by
  simp only [ClientState.enact, hdecision, ClientState.modifyEpoll, History.record,
    Decision.followUps, Decision.removes, Decision.isDisturbance]
  split <;> rfl

theorem readSection_eq (input : ReadInput) (loop : LoopState) (conn : Connection) :
    readSection router order loop input conn =
      if (drain loop input).2 then
        readTail router order input (drain loop input).1 true conn
      else
        finishPass loop input (drain loop input).1
          (tailPass router order input (drain loop input).1 conn) := by
  rw [readSection]
  rfl

theorem step_finish (input : ReadInput) (received : Bytes) :
    step router order { client := c, reader := .drained received false } (.finish input) =
      some {
        client := c.enact
          (finishPass .stopping input received (tailPass router order input received c.conn))
        reader :=
          if (tailPass router order input received c.conn).ending = .capped ∧
              (finishPass .stopping input received
                (tailPass router order input received c.conn)).decision.removes = false then
            .capped
          else .idle } := by
  simp [step, hasMore, readTail]

/-- The parts of a read task behind its drain loop, up to the resubmission. -/
theorem run_finish (input : ReadInput) :
    ∃ actions,
      run (step router order)
          { client := c, reader := .drained (drain c.loop input).1 (drain c.loop input).2 }
          actions =
        some { client := c.enact (readSection router order c.loop input c.conn) } := by
  rw [readSection_eq]
  cases hclosed : (drain c.loop input).2 with
  | true => exact ⟨[.finish input], by simp [run, step, hasMore]⟩
  | false =>
      rw [if_neg (by simp)]
      generalize (drain c.loop input).1 = received
      have hfinish := @step_finish router order c input received
      have hloop := fun work => (enact_intake c work).1
      rcases finishPass_stopping c.loop input received
          (tailPass router order input received c.conn) with
        ⟨hcapped, hstays, interest, hdecision, hrunning, hstopped⟩ | ⟨hnot, hsame⟩
      · rw [if_pos ⟨hcapped, hstays⟩] at hfinish
        by_cases hloops : c.loop = .running
        · refine ⟨[.finish input, .testMore, .resubmit], ?_⟩
          rw [run_of_step hfinish, hrunning hloops, enact_resubmit c hdecision]
          simp [run, step, hloop, hloops]
        · refine ⟨[.finish input, .testMore], ?_⟩
          rw [run_of_step hfinish, hstopped hloops]
          simp [run, step, hloop, hloops]
      · rw [if_neg hnot] at hfinish
        refine ⟨[.finish input], ?_⟩
        rw [run_of_step hfinish, hsame]
        rfl

/-- An atomic step of the connection is a run of its parts. -/
theorem exists_intake_run {action : Action}
    (hstep : HttpServer.step router order c action = some c') :
    ∃ actions, run (step router order) { client := c } actions = some { client := c' } := by
  have hsame : step router order { client := c } (.client action) = some { client := c' } →
      ∃ actions, run (step router order) { client := c } actions = some { client := c' } :=
    fun hclient => ⟨[.client action], run_of_step hclient []⟩
  have hcalls : ∀ (middle : ClientState) first,
      step router order { client := c } first =
          some ({ client := middle } : IntakeState).testRead →
        ∃ actions, run (step router order) { client := c } actions =
          some { client := middle.handleClientRead } := by
    intro middle first hfirst
    rw [testRead] at hfirst
    by_cases hrunning : middle.loop = .running
    · rw [if_pos hrunning] at hfirst
      refine ⟨[first, .submit], ?_⟩
      rw [run_of_step hfirst]
      simp [run, step, ClientState.handleClientRead, hrunning]
    · rw [if_neg hrunning] at hfirst
      refine ⟨[first], ?_⟩
      rw [run_of_step hfirst, ClientState.handleClientRead, if_neg (by simp [hrunning])]
      rfl
  cases action with
  | read input =>
      cases steps_of_step hstep with
      | read hmem =>
          have hlock : step router order { client := c } .lock =
              some { client := c.finish .read, reader := .testing [] } := by
            simp [step, hmem]
          obtain ⟨drains, hdrains⟩ :
              ∃ drains, run (step router order)
                  { client := c.finish .read, reader := .testing [] } drains =
                some { client := c.finish .read, reader :=
                  .drained (drain c.loop input).1 (drain c.loop input).2 } := by
            by_cases hrunning : c.loop = .running
            · rw [drain, if_pos hrunning]
              exact @run_drain router order (c.finish .read) hrunning input.recvs []
            · rw [drain, if_neg hrunning]
              refine ⟨[.test], ?_⟩
              simp [run, step, ClientState.finish, hrunning]
          obtain ⟨finishes, hfinishes⟩ := @run_finish router order (c.finish .read) input
          refine ⟨.lock :: (drains ++ finishes), ?_⟩
          rw [run_of_step hlock, run_append, hdrains]
          exact hfinishes
  | dispatch =>
      have hsteps := steps_of_step hstep
      cases hsteps with
      | @dispatch first rest hfetched =>
          cases first with
          | readable => exact hcalls _ (.client .dispatch) (by simp only [step, hfetched])
          | hangUp => exact hsame (by simp only [step, hfetched, hstep]; rfl)
          | writable => exact hsame (by simp only [step, hfetched, hstep]; rfl)
  | resubmitted =>
      cases steps_of_step hstep with
      | resubmitted hmem => exact hcalls _ (.client .resubmitted) (by simp only [step, if_pos hmem])
  | write sends => exact hsame (by simp only [step, hstep]; rfl)
  | _ => exact hsame (by simp only [step, hstep]; rfl)

end Refinement

/-- Once the loop is stopped, in whatever state and however the run goes on: it stays
stopped, a byte is received only by a `recv` that had passed its test, a read task is
submitted or resubmitted only where that test had been passed, and each read task makes
at most one pass of the parse loop. -/
theorem stopped_intake_closed {actions : List IntakeAction} {final : IntakeState}
    (hstopped : s.client.loop ≠ .running)
    (hrun : run (step router order) s actions = some final) :
    Accounts s final (observed (step router order) (effects router) s actions) := by
  have hstep : ∀ (middle : IntakeState) action next effects, Accounts s middle effects →
      middle.step router order action = some next →
        Accounts s next (effects ++ IntakeState.effects router middle action) :=
    fun _ _ _ _ haccounts htaken => haccounts.trans (accounts_step haccounts.stopped htaken)
  exact observed_invariant hstep (Accounts.start hstopped) hrun

/-- The loop is stopped while a read task is about to call `recv`. -/
def stoppedBehindTest : List IntakeAction :=
  [.client (.deliver { epollIn := true }), .client .dispatch, .submit, .lock, .test,
    .client .stop]

def lastRecv : List IntakeAction :=
  [.recv (some (.data (ascii "GET / HTTP/1.1\r\n\r\n"))), .test,
    .finish { sends := [.accepted 99999] }]

theorem stopped_intake_closed_behindTest :
    ∃ s final, run (step {} sortedOrder) {} stoppedBehindTest = some s ∧
      run (step {} sortedOrder) s lastRecv = some final ∧ s.received = [] ∧
      final.received.length = 18 ∧ final.client.history.log.length = 1 ∧
      Accounts s final (observed (step {} sortedOrder) (effects {}) s lastRecv) := by
  obtain ⟨s, hrun, hloop, hreceived⟩ := @exists_reached _ _ (step {} sortedOrder) {}
    stoppedBehindTest (fun s => s.client.loop = .stopping ∧ s.received = []) _ (by decide +kernel)
  obtain ⟨final, hboth, hmore, hlog⟩ := @exists_reached _ _ (step {} sortedOrder) {}
    (stoppedBehindTest ++ lastRecv)
    (fun s => s.received.length = 18 ∧ s.client.history.log.length = 1) _ (by decide +kernel)
  rw [run_append, hrun] at hboth
  have hstopped : s.client.loop ≠ .running := by
    rw [hloop]
    decide
  exact ⟨s, final, hrun, hboth, hreceived, hmore, hlog, stopped_intake_closed hstopped hboth⟩

end IntakeState

end HttpServer
