/-
A pipeline of keep-alive requests under the event loop.  Bytes pass through
the read buffer, the resumable parser, the capped parse loop and partial
flushes, in tasks that may overlap; none is lost, doubled or reordered.
-/
import HttpServer.EventLoop
import HttpServer.PipelineIntake

namespace HttpServer

open ByteText StreamMachine GuardedRun

section Answers

variable (router : HttpRouter) (order : HeaderOrder)

/-- The bytes queued for a request. -/
def answer (request : HttpRequest) : Bytes :=
  match router.route request with
  | some res => wireBytes order (respond request res)
  | none => []

def answers (requests : List HttpRequest) : Bytes := requests.flatMap (answer router order)

/-- The client asks for keep-alive, and the handler answers without an
exception and without `Connection: close`. -/
def KeepsOpen (request : HttpRequest) : Prop :=
  request.wantsKeepAlive = true ∧
    ∃ res, router.route request = some res ∧ res.alreadyClose = false

end Answers

theorem respond_closeAfterSend {request : HttpRequest} {res : HttpResponse}
    (hkeep : request.wantsKeepAlive = true) (hopen : res.alreadyClose = false) :
    (respond request res).closeAfterSend = false := by
  simp [respond, HttpResponse.finalizeForConnection, hkeep, hopen]

/-- Where the parser of a connection stands in the received bytes. -/
structure IntakeAt (received : Bytes) (routed : List HttpRequest) (conn : Connection) :
    Prop where
  reaches : Reaches intakeStep ({}, received)
    (⟨conn.progress, routed, false⟩, conn.readBuffer)
  emptyWaits : conn.readBuffer = [] → Waiting conn.progress conn.readBuffer

section Intake

variable {router : HttpRouter} {order : HeaderOrder} {pipeline : List WireRequest}
variable {received : Bytes} {routed : List HttpRequest} {conn : Connection}

theorem IntakeAt.receive (hwf : ∀ r ∈ pipeline, r.WellFormed)
    (hat : IntakeAt received routed conn) {bytes : Bytes}
    (hstream : received ++ bytes <+: streamOf pipeline) (now : Nat) :
    IntakeAt (received ++ bytes) routed (conn.receive now bytes) where
  reaches := by
    rw [Connection.receive_progress, Connection.receive_readBuffer]
    exact hat.reaches.append intakeStep_stable bytes (admissible_received hwf hstream)
  emptyWaits := by
    intro hempty
    rw [Connection.receive_readBuffer] at hempty ⊢
    obtain ⟨hbuffer, _⟩ := List.append_eq_nil_iff.mp hempty
    rw [Connection.receive_progress, hempty, ← hbuffer]
    exact hat.emptyWaits hbuffer

/-- How a parse loop that meets only keep-alive requests leaves the
connection. -/
structure PassServes (router : HttpRouter) (order : HeaderOrder) (received : Bytes)
    (routed : List HttpRequest) (pass : Pass) : Prop where
  intake : IntakeAt received (routed ++ pass.routed) pass.conn
  queued : pass.queued = answers router order pass.routed
  ending : pass.ending = .capped ∨
    (pass.ending = .idle ∧ Waiting pass.conn.progress pass.conn.readBuffer)

theorem waiting_reset (p : Progress) : Waiting p.reset [] := waiting_start

theorem parseLoop_serves (hwf : ∀ r ∈ pipeline, r.WellFormed)
    (hopen : ∀ r ∈ pipeline, KeepsOpen router r.request)
    (hreceived : received <+: streamOf pipeline) (now : Nat) {allow : Nat → Bool}
    (remaining : Nat) :
    ∀ (conn : Connection) (routed : List HttpRequest),
      (∀ i < remaining, allow i = true) → IntakeAt received routed conn →
        PassServes router order received routed
          (parseLoop router order now allow remaining conn) := by
  induction remaining with
  | zero =>
      intro conn routed _ hat
      exact ⟨by simpa [parseLoop] using hat, rfl, Or.inl rfl⟩
  | succ remaining ih =>
      intro conn routed hallow hat
      obtain ⟨last, lastBuffer, hreach, hturn⟩ :=
        parse_reaches routed conn.progress conn.readBuffer
      have hlast := hat.reaches.trans hreach
      simp only [parseLoop]
      split
      · next hempty =>
          have hnil : conn.readBuffer = [] := List.isEmpty_iff.mp hempty
          exact ⟨by simpa using hat, rfl, Or.inr ⟨rfl, hat.emptyWaits hnil⟩⟩
      · split
        · next p rest hparse =>
            rw [hparse] at hturn
            obtain ⟨rfl, rfl⟩ := turn_incomplete hturn
            refine ⟨⟨?_, fun _ => hturn⟩, rfl, Or.inr ⟨rfl, hturn⟩⟩
            rw [List.append_nil]
            exact hlast
        · next p rest hparse =>
            rw [hparse] at hturn
            have hstep : intakeStep ⟨last, routed, false⟩ lastBuffer =
                some (⟨p, routed, true⟩, rest) := by
              simp [intakeStep, hturn]
            have hfailed := (intake_in_order hwf hreceived
              (hlast.trans (Reaches.single hstep))).1
            contradiction
        · next p rest hparse =>
            rw [hparse] at hturn
            have hstep : intakeStep ⟨last, routed, false⟩ lastBuffer =
                some (⟨p.reset, routed ++ [p.request], false⟩, rest) := by
              simp [intakeStep, hturn]
            have hnext := hlast.trans (Reaches.single hstep)
            have hmem : p.request ∈ requestsOf pipeline :=
              (intake_in_order hwf hreceived hnext).2.subset (by simp)
            obtain ⟨r, hr, hrequest⟩ := List.mem_map.mp hmem
            obtain ⟨hkeep, res, hroute, hclose⟩ := hopen r hr
            rw [hrequest] at hkeep hroute
            have hgoes := respond_closeAfterSend hkeep hclose
            have hanswered : IntakeAt received (routed ++ [p.request])
                { ({ conn with progress := p, readBuffer := rest } :
                    Connection).appendUnsentData now
                    (wireBytes order (respond p.request res)) with
                  progress := p.reset } := by
              refine ⟨hnext, ?_⟩
              intro hempty
              change rest = [] at hempty
              change Waiting p.reset rest
              rw [hempty]
              exact waiting_reset p
            have hlater := ih _ _ (fun i hi => hallow i (by omega)) hanswered
            simp only [hallow remaining (by omega), Bool.not_true, Bool.false_eq_true,
              ↓reduceIte, hroute, hgoes]
            refine ⟨?_, ?_, hlater.ending⟩
            · have hintake := hlater.intake
              rwa [List.append_assoc, List.singleton_append] at hintake
            · rw [hlater.queued]
              simp [answers, answer, hroute]

/-- A read task that meets only data, room and keep-alive requests. -/
theorem readSection_serves (hwf : ∀ r ∈ pipeline, r.WellFormed)
    (hopen : ∀ r ∈ pipeline, KeepsOpen router r.request) {input : ReadInput}
    (hat : IntakeAt received routed conn)
    (hstream : received ++ (drainSocket input.recvs).1 <+: streamOf pipeline)
    (hdata : ∀ result ∈ input.recvs, result.isData = true)
    (hallow : ∀ i < maxParseIterations, input.allow i = true)
    (hsends : .failed ∉ input.sends) :
    ∃ interest resubmit,
      (readSection router order .running input conn).decision =
          .rearmed interest resubmit ∧
      (readSection router order .running input conn).received =
          (drainSocket input.recvs).1 ∧
      (readSection router order .running input conn).queued =
          answers router order (readSection router order .running input conn).routed ∧
      (readSection router order .running input conn).conn.closeAfterWriteFlag =
          conn.closeAfterWriteFlag ∧
      IntakeAt (received ++ (drainSocket input.recvs).1)
        (routed ++ (readSection router order .running input conn).routed)
        (readSection router order .running input conn).conn ∧
      (resubmit = true ∨
        Waiting (readSection router order .running input conn).conn.progress
          (readSection router order .running input conn).conn.readBuffer) := by
  have hdrain : drain .running input = drainSocket input.recvs := if_pos rfl
  have hserves : PassServes router order (received ++ (drainSocket input.recvs).1) routed
      (readPass router order .running input conn) := by
    rw [readPass, hdrain]
    exact parseLoop_serves hwf hopen hstream input.now maxParseIterations _ _ hallow
      (hat.receive hwf hstream input.now)
  have hflag : (readPass router order .running input conn).conn.closeAfterWriteFlag =
      conn.closeAfterWriteFlag := by
    rw [readPass, (parseLoop_conn _ _ _ _).2, Connection.receive_closeAfterWriteFlag]
  have herror := flushWrites_hasError hsends
    (readPass router order .running input conn).conn.writeBuffer
  have hsection : readSection router order .running input conn =
      finishPass .running input (drainSocket input.recvs).1
        (readPass router order .running input conn) := by
    simp only [readSection, hdrain, drainSocket_open hdata, Bool.false_eq_true, ↓reduceIte]
  obtain ⟨⟨hreaches, hempty⟩, hqueued, hending⟩ := hserves
  rw [hsection]
  rcases hending with hcapped | ⟨hidle, hwaits⟩
  · simp only [finishPass, hcapped, herror, Bool.false_eq_true, ↓reduceIte]
    exact ⟨_, _, rfl, trivial, hqueued, hflag, ⟨hreaches, hempty⟩, Or.inl rfl⟩
  · simp only [finishPass, hidle, herror, Bool.false_eq_true, ↓reduceIte]
    exact ⟨_, _, rfl, trivial, hqueued, hflag, ⟨hreaches, hempty⟩, Or.inr hwaits⟩

end Intake

/-- The client's stream arrives in pieces without an end or an error, sends do
not fail, the rate limiter allows, and nothing removes the connection or stops
the loop. -/
def undisturbed (stream : Bytes) (s : ClientState) : Action → Prop
  | .deliver event => event.hangUp = false
  | .read input =>
      s.history.received ++ (drainSocket input.recvs).1 <+: stream ∧
        (∀ result ∈ input.recvs, result.isData = true) ∧
        (∀ i < maxParseIterations, input.allow i = true) ∧ .failed ∉ input.sends
  | .write sends => .failed ∉ sends
  | .idleTimeout => False
  | .stop => False
  | .shutdown => False
  | _ => True

instance (stream : Bytes) (s : ClientState) (action : Action) :
    Decidable (undisturbed stream s action) :=
  match action with
  | .deliver event => inferInstanceAs (Decidable (event.hangUp = false))
  | .read input => inferInstanceAs (Decidable
      (s.history.received ++ (drainSocket input.recvs).1 <+: stream ∧
        (∀ result ∈ input.recvs, result.isData = true) ∧
        (∀ i < maxParseIterations, input.allow i = true) ∧ .failed ∉ input.sends))
  | .write sends => inferInstanceAs (Decidable (.failed ∉ sends))
  | .idleTimeout | .stop | .shutdown => isFalse id
  | .dispatch | .resubmitted | .updateEpoll _ | .remove _ | .unregister => isTrue trivial

/-- The state of an undisturbed connection. -/
structure Serving (router : HttpRouter) (order : HeaderOrder) (stream : Bytes)
    (s : ClientState) : Prop where
  running : s.loop = .running
  inMap : s.inMap = true
  removals : ∀ task ∈ s.tasks, task.isRemoval = false
  fetched : .hangUp ∉ s.fetched
  unflagged : s.conn.closeAfterWriteFlag = false
  arrived : s.history.received <+: stream
  intake : IntakeAt s.history.received s.history.routed s.conn
  queued : s.history.queued = answers router order s.history.routed
  accounted : s.history.sent ++ s.conn.writeBuffer = s.history.queued
  attended : .read ∈ s.tasks ∨ .resubmitted ∈ s.tasks ∨
    Waiting s.conn.progress s.conn.readBuffer

namespace Serving

variable {router : HttpRouter} {order : HeaderOrder} {stream : Bytes} {s : ClientState}

theorem start : Serving router order stream {} where
  running := rfl
  inMap := rfl
  removals := by simp
  fetched := by simp
  unflagged := rfl
  arrived := List.nil_prefix
  intake := ⟨Relation.ReflTransGen.refl, fun _ => waiting_start⟩
  queued := rfl
  accounted := rfl
  attended := Or.inr (Or.inr waiting_start)

/-- Steps that leave the connection and its history alone. -/
theorem frame {s' : ClientState} (hserving : Serving router order stream s)
    (hloop : s'.loop = s.loop) (hinMap : s'.inMap = s.inMap) (hconn : s'.conn = s.conn)
    (hhistory : s'.history = s.history) (hfetched : .hangUp ∉ s'.fetched)
    (hremovals : ∀ task ∈ s'.tasks, task.isRemoval = false)
    (hattended : .read ∈ s.tasks ∨ .resubmitted ∈ s.tasks →
      .read ∈ s'.tasks ∨ .resubmitted ∈ s'.tasks) : Serving router order stream s' where
  running := hloop.trans hserving.running
  inMap := hinMap.trans hserving.inMap
  removals := hremovals
  fetched := hfetched
  unflagged := by rw [hconn]; exact hserving.unflagged
  arrived := by rw [hhistory]; exact hserving.arrived
  intake := by rw [hhistory, hconn]; exact hserving.intake
  queued := by rw [hhistory]; exact hserving.queued
  accounted := by rw [hhistory, hconn]; exact hserving.accounted
  attended := by
    rw [hconn]
    rcases hserving.attended with hread | hresubmitted | hwaits
    · exact or_assoc.mp (Or.inl (hattended (Or.inl hread)))
    · exact or_assoc.mp (Or.inl (hattended (Or.inr hresubmitted)))
    · exact Or.inr (Or.inr hwaits)

theorem deliver (hserving : Serving router order stream s) {event : EpollEvent}
    (hhangUp : event.hangUp = false) :
    Serving router order stream { s with armed := false, fetched := event.dispatches } := by
  refine hserving.frame rfl rfl rfl rfl ?_ hserving.removals id
  cases hin : event.epollIn <;> cases hout : event.epollOut <;>
    simp [EpollEvent.dispatches, hhangUp, hin, hout]

theorem dispatch (hserving : Serving router order stream s) {first : Dispatch}
    {rest : List Dispatch} (hfetched : s.fetched = first :: rest) :
    Serving router order stream ({ s with fetched := rest }.handleDispatch first) := by
  have hno := hserving.fetched
  rw [hfetched] at hno
  have hrest : .hangUp ∉ rest := fun hmem => hno (List.mem_cons_of_mem _ hmem)
  have hremovals := hserving.removals
  cases first with
  | hangUp => exact absurd List.mem_cons_self hno
  | readable =>
      simp only [ClientState.handleDispatch, ClientState.handleClientRead,
        hserving.running, hserving.inMap, decide_true, Bool.and_self, ↓reduceIte]
      refine hserving.frame hserving.running.symm hserving.inMap.symm rfl rfl hrest ?_ ?_
      · simpa [Task.isRemoval] using hremovals
      · exact fun _ => Or.inl List.mem_cons_self
  | writable =>
      simp only [ClientState.handleDispatch, ClientState.handleClientWrite,
        hserving.inMap, ↓reduceIte]
      refine hserving.frame rfl hserving.inMap.symm rfl rfl hrest ?_ ?_
      · simpa [Task.isRemoval] using hremovals
      · simp

theorem resubmitted (hserving : Serving router order stream s) :
    Serving router order stream (s.finish .resubmitted).handleClientRead := by
  have hloop : (s.finish .resubmitted).loop = .running := hserving.running
  have hinMap : (s.finish .resubmitted).inMap = true := hserving.inMap
  simp only [ClientState.handleClientRead, hloop, hinMap, decide_true, Bool.and_self,
    ↓reduceIte]
  refine hserving.frame hserving.running.symm hserving.inMap.symm rfl rfl
    hserving.fetched ?_ ?_
  · intro task htask
    rcases List.mem_cons.mp htask with rfl | htask
    · rfl
    · exact hserving.removals task (List.mem_of_mem_erase htask)
  · exact fun _ => Or.inl List.mem_cons_self

theorem updateEpoll (hserving : Serving router order stream s) (fullyFlushed : Bool) :
    Serving router order stream
      ((s.finish (.updateEpoll fullyFlushed)).updateEpoll fullyFlushed) := by
  have hloop : (s.finish (.updateEpoll fullyFlushed)).loop = .running := hserving.running
  have hupdated : ∃ interest, (s.finish (.updateEpoll fullyFlushed)).updateEpoll
      fullyFlushed = (s.finish (.updateEpoll fullyFlushed)).modifyEpoll interest := by
    cases fullyFlushed <;> simp [ClientState.updateEpoll, hloop]
  obtain ⟨interest, heq⟩ := hupdated
  rw [heq]
  refine hserving.frame (by simp [ClientState.finish]) (by simp [ClientState.finish])
    (by simp [ClientState.finish]) (by simp [ClientState.finish]) ?_ ?_ ?_
  · simpa [ClientState.finish] using hserving.fetched
  · intro task htask
    rw [ClientState.modifyEpoll_tasks] at htask
    exact hserving.removals task (List.mem_of_mem_erase htask)
  · intro hreads
    rw [ClientState.modifyEpoll_tasks]
    simpa [ClientState.finish, List.mem_erase_of_ne] using hreads

theorem write (hserving : Serving router order stream s) {sends : List SendResult}
    (hsends : .failed ∉ sends) :
    Serving router order stream
      ((s.finish .write).enact (writeSection sends s.conn)) := by
  have hsound := writeSection_sound sends s.conn
  have hdecision : (writeSection sends s.conn).decision =
      .updateEpoll (flushWrites sends s.conn.writeBuffer).fullyFlushed := by
    simp [writeSection, flushWrites_hasError hsends, Connection.shouldCloseAfterWrite,
      hserving.unflagged]
  obtain ⟨armed, interest, heq, _⟩ := (s.finish .write).enact_eq (writeSection sends s.conn)
  rw [heq]
  constructor
  · exact hserving.running
  · exact hserving.inMap
  · intro task htask
    rw [hdecision] at htask
    rcases List.mem_append.mp htask with hnew | hold
    · obtain rfl := List.mem_singleton.mp hnew
      rfl
    · exact hserving.removals task (List.mem_of_mem_erase hold)
  · exact hserving.fetched
  · exact hserving.unflagged
  · simpa [History.record, ClientState.finish, writeSection] using hserving.arrived
  · have hintake := hserving.intake
    simpa [History.record, ClientState.finish, writeSection] using
      (⟨hintake.reaches, hintake.emptyWaits⟩ :
        IntakeAt s.history.received s.history.routed (s.conn.flush sends))
  · simpa [History.record, ClientState.finish, writeSection] using hserving.queued
  · have hsplit := hsound.split
    have haccounted := hserving.accounted
    simp only [History.record, List.append_assoc, hsplit]
    rw [← List.append_assoc]
    exact congrArg (· ++ (writeSection sends s.conn).queued) haccounted
  · rcases hserving.attended with hread | hresubmitted | hwaits
    · exact Or.inl (List.mem_append_right _ ((List.mem_erase_of_ne (by simp)).mpr hread))
    · exact Or.inr (Or.inl (List.mem_append_right _
        ((List.mem_erase_of_ne (by simp)).mpr hresubmitted)))
    · exact Or.inr (Or.inr hwaits)

theorem read {pipeline : List WireRequest} (hwf : ∀ r ∈ pipeline, r.WellFormed)
    (hopen : ∀ r ∈ pipeline, KeepsOpen router r.request)
    (hserving : Serving router order (streamOf pipeline) s) {input : ReadInput}
    (hguard : undisturbed (streamOf pipeline) s (.read input)) :
    Serving router order (streamOf pipeline)
      ((s.finish .read).enact (readSection router order s.loop input s.conn)) := by
  obtain ⟨hstream, hdata, hallow, hsends⟩ := hguard
  have hsound := @readSection_sound router order s.loop input s.conn
  rw [hserving.running] at hsound ⊢
  obtain ⟨asked, resubmit, hdecision, hreceived, hqueued, hflag, hintake, hattended⟩ :=
    readSection_serves hwf hopen hserving.intake hstream hdata hallow hsends
  obtain ⟨armed, interest, heq, _⟩ :=
    (s.finish .read).enact_eq (readSection router order .running input s.conn)
  rw [heq]
  constructor
  · exact hserving.running
  · exact hserving.inMap
  · intro task htask
    rw [hdecision] at htask
    rcases List.mem_append.mp htask with hnew | hold
    · cases resubmit with
      | true =>
          obtain rfl := List.mem_singleton.mp hnew
          rfl
      | false => simp [Decision.followUps] at hnew
    · exact hserving.removals task (List.mem_of_mem_erase hold)
  · exact hserving.fetched
  · exact hflag.trans hserving.unflagged
  · simpa only [History.record, ClientState.finish, hreceived] using hstream
  · simpa only [History.record, ClientState.finish, hreceived] using hintake
  · simp only [History.record, ClientState.finish, hserving.queued, hqueued, answers,
      List.flatMap_append]
  · have hsplit := hsound.split
    have haccounted := hserving.accounted
    simp only [History.record, List.append_assoc, hsplit]
    rw [← List.append_assoc]
    exact congrArg (· ++ (readSection router order .running input s.conn).queued) haccounted
  · rcases hattended with rfl | hwaits
    · right; left
      rw [hdecision]
      exact List.mem_append_left _ (by simp [Decision.followUps])
    · exact Or.inr (Or.inr hwaits)

theorem step {pipeline : List WireRequest} (hwf : ∀ r ∈ pipeline, r.WellFormed)
    (hopen : ∀ r ∈ pipeline, KeepsOpen router r.request)
    (hserving : Serving router order (streamOf pipeline) s) {s' : ClientState}
    {action : Action} (hguard : undisturbed (streamOf pipeline) s action)
    (hstep : HttpServer.step router order s action = some s') :
    Serving router order (streamOf pipeline) s' := by
  cases steps_of_step hstep with
  | deliver _ => exact hserving.deliver hguard
  | dispatch hfetched => exact hserving.dispatch hfetched
  | read _ => exact hserving.read hwf hopen hguard
  | write _ => exact hserving.write hguard
  | resubmitted _ => exact hserving.resubmitted
  | updateEpoll _ => exact hserving.updateEpoll _
  | remove hmem => exact absurd (hserving.removals _ hmem) Bool.noConfusion
  | unregister _ =>
      refine hserving.frame rfl rfl rfl rfl hserving.fetched ?_ ?_
      · exact fun task htask => hserving.removals task (List.mem_of_mem_erase htask)
      · intro hreads
        simpa [ClientState.finish, List.mem_erase_of_ne] using hreads
  | idleTimeout _ => exact absurd hguard id
  | stop _ => exact absurd hguard id
  | shutdown _ => exact absurd hguard id

end Serving

section Run

variable (router : HttpRouter) (order : HeaderOrder) (pipeline : List WireRequest)

/-- The bytes sent and still to be sent are the answers to the first `count`
requests, in order; with no task left, these are the requests that have
arrived completely. -/
structure AnsweredInOrder (s : ClientState) (count : Nat) : Prop where
  bound : count ≤ pipeline.length
  answered : s.history.sent ++ s.conn.writeBuffer =
    answers router order (requestsOf (pipeline.take count))
  complete : s.tasks = [] → ∀ j ≤ pipeline.length,
    (streamOf (pipeline.take j) <+: s.history.received ↔ j ≤ count)

variable {router order pipeline}

theorem Serving.answeredInOrder (hwf : ∀ r ∈ pipeline, r.WellFormed) {s : ClientState}
    (hserving : Serving router order (streamOf pipeline) s) :
    AnsweredInOrder router order pipeline s s.history.routed.length := by
  have hgrows : s.history.routed <+: requestsOf pipeline :=
    (intake_in_order hwf hserving.arrived hserving.intake.reaches).2
  have harrived := intake_arrived hwf hserving.arrived hserving.intake.reaches
  have hbound : s.history.routed.length ≤ pipeline.length := by
    simpa [requestsOf] using hgrows.length_le
  constructor
  · exact hbound
  · have hrouted : requestsOf (pipeline.take s.history.routed.length) =
        s.history.routed := by
      rw [requestsOf, List.map_take]
      exact (List.prefix_iff_eq_take.mp hgrows).symm
    rw [hrouted, hserving.accounted, hserving.queued]
  · intro htasks j hj
    constructor
    · intro hreceived
      have hwaits : Waiting s.conn.progress s.conn.readBuffer := by
        rcases hserving.attended with hread | hresubmitted | hwaits
        · simp [htasks] at hread
        · simp [htasks] at hresubmitted
        · exact hwaits
      exact intake_waiting hwf hserving.intake.reaches (intakeStep_of_waiting hwaits _ _) hj
        hreceived
    · intro hcount
      refine List.IsPrefix.trans ?_ harrived
      obtain ⟨later, hlater⟩ := List.take_prefix_take_left (l := pipeline) hcount
      exact ⟨streamOf later, by rw [← streamOf_append, hlater]⟩

theorem serving_run (hwf : ∀ r ∈ pipeline, r.WellFormed)
    (hopen : ∀ r ∈ pipeline, KeepsOpen router r.request) {actions : List Action}
    {s : ClientState}
    (hguard : Guarded (step router order) (undisturbed (streamOf pipeline)) {} actions)
    (hrun : run (step router order) {} actions = some s) :
    Serving router order (streamOf pipeline) s := by
  have hinvariant := @invariant _ _ (step router order) (undisturbed (streamOf pipeline))
    (Serving router order (streamOf pipeline))
    (fun _ _ _ hserving hmeets hstep => hserving.step hwf hopen hmeets hstep) actions
  exact hinvariant Serving.start hguard hrun

/-- Every complete request is answered once and in order, whatever the tasks'
interleaving, the fragmentation and the partial sends. -/
theorem pipeline_answered_in_order (hwf : ∀ r ∈ pipeline, r.WellFormed)
    (hopen : ∀ r ∈ pipeline, KeepsOpen router r.request) {actions : List Action}
    {s : ClientState}
    (hguard : Guarded (step router order) (undisturbed (streamOf pipeline)) {} actions)
    (hrun : run (step router order) {} actions = some s) :
    ∃ count, AnsweredInOrder router order pipeline s count :=
  ⟨_, (serving_run hwf hopen hguard hrun).answeredInOrder hwf⟩

end Run

/-- Two requests cut inside the second request line, answered while the kernel
takes a few bytes at a time and the two tasks of one event overlap. -/
def getThenHead : List WireRequest :=
  [{ method := .get, path := ascii "/a", version := ascii "HTTP/1.1", fields := [],
     body := [], framing := .none },
   { method := .head, path := ascii "/b", version := ascii "HTTP/1.1", fields := [],
     body := [], framing := .none }]

def getThenHeadRun : List Action :=
  [.deliver { epollIn := true }, .dispatch,
    .read { recvs := [.data (ascii "GET /a HTTP/1.1\r\n\r\nHEAD /"),
              .data (ascii "b HT")], sends := [.accepted 9] },
    .deliver { epollIn := true, epollOut := true }, .dispatch, .dispatch,
    .write [.accepted 99], .read { recvs := [.data (ascii "TP/1.1\r\n\r\n")] },
    .updateEpoll false]

theorem getThenHead_answered_in_order :
    ∃ s, run (step {} sortedOrder) {} getThenHeadRun = some s ∧ s.tasks = [] ∧
      ∃ count, AnsweredInOrder {} sortedOrder getThenHead s count := by
  have hopen : ∀ r ∈ getThenHead, KeepsOpen {} r.request := by
    intro r hr
    refine ⟨?_, HttpRouter.notFound, rfl, by decide⟩
    revert r
    decide
  obtain ⟨s, hrun, htasks⟩ := @exists_reached _ _ (step {} sortedOrder) {} getThenHeadRun
    (fun s => s.tasks = []) _ (by decide +kernel)
  exact ⟨s, hrun, htasks, pipeline_answered_in_order (by decide) hopen
    (by decide +kernel) hrun⟩

end HttpServer
