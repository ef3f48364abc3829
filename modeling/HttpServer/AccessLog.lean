/-
The access log.  A guard around the body of the parse loop writes one record
whenever the body is left, with a fallback response until one is set; so the
log tells of more than the answers as soon as a pass ends inside a request or
a handler throws.
-/
import HttpServer.EventLoop

namespace HttpServer

open ByteText GuardedRun

/-- How the body of the parse loop was left: before a request was complete, by an
exception of the handler, or with a response in the write buffer. -/
inductive Iteration where
  | incomplete (request : HttpRequest)
  | threw (request : HttpRequest)
  | answered (request : HttpRequest) (response : HttpResponse)

namespace Iteration

/-- What the guard writes when it goes out of scope: `m_res_ptr` denotes the
fallback response until `set_response` is called. -/
def log : Iteration → List LogRecord
  | incomplete request => [logRecord request {}]
  | threw request => [logRecord request {}]
  | answered request response => [logRecord request response]

def exchange? : Iteration → Option (HttpRequest × HttpResponse)
  | answered request response => some (request, response)
  | _ => none

/-- The bytes appended to the write buffer. -/
def wire (order : HeaderOrder) : Iteration → Bytes
  | answered _ response => wireBytes order response
  | _ => []

end Iteration

section Loop

variable (router : HttpRouter) (order : HeaderOrder) (allow : Nat → Bool)

/-- The bodies the loop runs through, from a state of the parser and a buffer. -/
def iterations : Nat → Progress → Bytes → List Iteration
  | 0, _, _ => []
  | remaining + 1, progress, readBuffer =>
      if readBuffer.isEmpty then []
      else
        match parse progress readBuffer with
        | (.incomplete, p, _) => [.incomplete p.request]
        | (.error, p, _) => [.answered p.request badRequestResponse]
        | (.success, p, rest) =>
            if !allow remaining then [.answered p.request tooManyRequestsResponse]
            else
              match router.route p.request with
              | none => [.threw p.request]
              | some res =>
                  let response := respond p.request res
                  .answered p.request response ::
                    if response.closeAfterSend then []
                    else iterations remaining p.reset rest

/-- Up to where the loop stops, the buffer holds whole requests, or one that is
refused, and no handler throws. -/
def WholeRequests : Nat → Progress → Bytes → Prop
  | 0, _, _ => True
  | remaining + 1, progress, readBuffer =>
      if readBuffer.isEmpty then True
      else
        match parse progress readBuffer with
        | (.incomplete, _, _) => False
        | (.error, _, _) => True
        | (.success, p, rest) =>
            if !allow remaining then True
            else
              match router.route p.request with
              | none => False
              | some res =>
                  (respond p.request res).closeAfterSend = false →
                    WholeRequests remaining p.reset rest

instance decidableWholeRequests : ∀ (remaining : Nat) (progress : Progress)
    (readBuffer : Bytes), Decidable (WholeRequests router allow remaining progress readBuffer)
  | 0, _, _ => isTrue trivial
  | remaining + 1, progress, readBuffer => by
      have later := decidableWholeRequests remaining
      unfold WholeRequests
      split
      · infer_instance
      · split
        · infer_instance
        · infer_instance
        · split
          · infer_instance
          · split <;> infer_instance

variable {router order allow}

theorem parseLoop_iterations (now remaining : Nat) : ∀ conn : Connection,
    (parseLoop router order now allow remaining conn).log =
        (iterations router allow remaining conn.progress conn.readBuffer).flatMap Iteration.log ∧
      (parseLoop router order now allow remaining conn).queued =
        (iterations router allow remaining conn.progress conn.readBuffer).flatMap
          (Iteration.wire order) := by
  induction remaining with
  | zero => exact fun _ => ⟨rfl, rfl⟩
  | succ remaining ih =>
      intro conn
      rw [parseLoop, iterations]
      split
      · exact ⟨rfl, rfl⟩
      · rcases parse conn.progress conn.readBuffer with ⟨result, p, rest⟩
        cases result with
        | incomplete => exact ⟨rfl, rfl⟩
        | error => simp [Iteration.log, Iteration.wire]
        | success =>
            dsimp only
            split
            · simp [Iteration.log, Iteration.wire]
            · cases router.route p.request with
              | none => exact ⟨rfl, rfl⟩
              | some res =>
                  dsimp only
                  split
                  · simp [Iteration.log, Iteration.wire]
                  · obtain ⟨hlog, hqueued⟩ := ih
                      { { conn with progress := p, readBuffer := rest }.appendUnsentData now
                          (wireBytes order (respond p.request res)) with progress := p.reset }
                    rw [hlog, hqueued]
                    exact ⟨rfl, rfl⟩

theorem wholeRequests_iff (remaining : Nat) : ∀ (progress : Progress) (readBuffer : Bytes),
    WholeRequests router allow remaining progress readBuffer ↔
      ∀ iteration ∈ iterations router allow remaining progress readBuffer,
        iteration.exchange?.isSome := by
  induction remaining with
  | zero => simp [WholeRequests, iterations]
  | succ remaining ih =>
      intro progress readBuffer
      rw [WholeRequests, iterations]
      split
      · simp
      · rcases parse progress readBuffer with ⟨result, p, rest⟩
        cases result with
        | incomplete => simp [Iteration.exchange?]
        | error => simp [Iteration.exchange?]
        | success =>
            dsimp only
            split
            · simp [Iteration.exchange?]
            · split
              · simp [Iteration.exchange?]
              · split
                · next hclose => simp [Iteration.exchange?, hclose]
                · next hopen => simp [Iteration.exchange?, hopen, ih]

end Loop

section Run

variable (router : HttpRouter) (order : HeaderOrder)

/-- The bodies a step runs through: those of a read task whose drain loop has not
seen the end of the stream. -/
def loopBodies (s : ClientState) : Action → List Iteration
  | .read input =>
      let conn := s.conn.receive input.now (drain s.loop input).1
      if (drain s.loop input).2 then []
      else iterations router input.allow maxParseIterations conn.progress conn.readBuffer
  | _ => []

/-- A read task that ends inside no request and meets no exception. -/
def endsBetween (s : ClientState) : Action → Prop
  | .read input =>
      let conn := s.conn.receive input.now (drain s.loop input).1
      (drain s.loop input).2 = false →
        WholeRequests router input.allow maxParseIterations conn.progress conn.readBuffer
  | _ => True

instance decidableEndsBetween (s : ClientState) (action : Action) :
    Decidable (endsBetween router s action) := by
  cases action with
  | read input => exact inferInstanceAs (Decidable (_ → _))
  | _ => exact isTrue trivial

variable {router order}

theorem endsBetween_iff (s : ClientState) (action : Action) :
    endsBetween router s action ↔
      ∀ body ∈ loopBodies router s action, body.exchange?.isSome := by
  cases action with
  | read input =>
      simp only [endsBetween, loopBodies]
      split
      · next hclosed => simp [hclosed]
      · next hopen => simp [hopen, wholeRequests_iff]
  | _ => simp [endsBetween, loopBodies]

theorem finishPass_log (loop : LoopState) (input : ReadInput) (received : Bytes)
    (pass : Pass) : (finishPass loop input received pass).log = pass.log ∧
      (finishPass loop input received pass).queued = pass.queued := by
  cases hending : pass.ending with
  | closing =>
      simp only [finishPass, hending]
      split
      · exact ⟨rfl, rfl⟩
      · split <;> exact ⟨rfl, rfl⟩
  | idle =>
      simp only [finishPass, hending]
      split <;> exact ⟨rfl, rfl⟩
  | capped =>
      simp only [finishPass, hending]
      split <;> exact ⟨rfl, rfl⟩
  | _ => simp [finishPass, hending]

theorem readSection_bodies (s : ClientState) (input : ReadInput) :
    (readSection router order s.loop input s.conn).log =
        (loopBodies router s (.read input)).flatMap Iteration.log ∧
      (readSection router order s.loop input s.conn).queued =
        (loopBodies router s (.read input)).flatMap (Iteration.wire order) := by
  simp only [readSection, loopBodies]
  split
  · exact ⟨rfl, rfl⟩
  · rw [(finishPass_log ..).1, (finishPass_log ..).2]
    exact parseLoop_iterations ..

theorem eraseFromMap_log (s : ClientState) (cause : RemovalCause) :
    (s.eraseFromMap cause).history.log = s.history.log ∧
      (s.eraseFromMap cause).history.queued = s.history.queued := by
  rw [ClientState.eraseFromMap]
  split <;> exact ⟨rfl, rfl⟩

theorem handleDispatch_log (s : ClientState) (first : Dispatch) :
    (s.handleDispatch first).history.log = s.history.log ∧
      (s.handleDispatch first).history.queued = s.history.queued := by
  cases first with
  | hangUp => exact eraseFromMap_log s.disturb .hangUp
  | readable =>
      rw [ClientState.handleDispatch, ClientState.handleClientRead]
      split <;> exact ⟨rfl, rfl⟩
  | writable =>
      rw [ClientState.handleDispatch, ClientState.handleClientWrite]
      split <;> exact ⟨rfl, rfl⟩

theorem enact_log (s : ClientState) (work : TaskSection) :
    (s.enact work).history.log = s.history.log ++ work.log ∧
      (s.enact work).history.queued = s.history.queued ++ work.queued := by
  obtain ⟨armed, interest, heq, _⟩ := s.enact_eq work
  rw [heq]
  exact ⟨rfl, rfl⟩

/-- A step adds to the log and to the queued bytes what its loop bodies write. -/
theorem step_bodies {s s' : ClientState} {action : Action}
    (hstep : step router order s action = some s') :
    s'.history.log = s.history.log ++ (loopBodies router s action).flatMap Iteration.log ∧
      s'.history.queued = s.history.queued ++
        (loopBodies router s action).flatMap (Iteration.wire order) := by
  cases steps_of_step hstep with
  | @read input _ =>
      rw [← (readSection_bodies s input).1, ← (readSection_bodies s input).2]
      exact enact_log (s.finish .read) _
  | @write sends _ => exact enact_log (s.finish .write) (writeSection sends s.conn)
  | @dispatch first rest _ =>
      simp only [loopBodies, List.flatMap_nil, List.append_nil]
      exact handleDispatch_log { s with fetched := rest } first
  | resubmitted _ =>
      simp only [loopBodies, List.flatMap_nil, List.append_nil]
      exact handleDispatch_log (s.finish .resubmitted) .readable
  | @remove cause _ =>
      simp only [loopBodies, List.flatMap_nil, List.append_nil]
      exact eraseFromMap_log (s.finish (.remove cause)) cause
  | idleTimeout _ =>
      simp only [loopBodies, List.flatMap_nil, List.append_nil]
      exact eraseFromMap_log s.disturb .idleTimeout
  | shutdown _ =>
      simp only [loopBodies, List.flatMap_nil, List.append_nil]
      exact eraseFromMap_log s.disturb .shutdown
  | _ => simp [loopBodies, ClientState.finish]

end Run

/-- The record tells of this answer: the method and the path of the request, `/`
where none was read, and the status of the response. -/
structure Tells (record : LogRecord) (exchange : HttpRequest × HttpResponse) : Prop where
  method : record.method = exchange.1.method
  path : record.path = if exchange.1.path = [] then ascii "/" else exchange.1.path
  code : record.code = exchange.2.statusCode

/-- The log has one record for every response in the write buffer, in their order,
and none for a body that was left before a request was complete. -/
structure FaithfulLog (order : HeaderOrder) (history : History) (bodies : List Iteration) :
    Prop where
  queued : history.queued =
    (bodies.filterMap Iteration.exchange?).flatMap fun exchange => wireBytes order exchange.2
  records : List.Forall₂ Tells history.log (bodies.filterMap Iteration.exchange?)
  silent : ∀ request, .incomplete request ∈ bodies → (Iteration.incomplete request).log = []

theorem tells_logRecord (request : HttpRequest) (response : HttpResponse) :
    Tells (logRecord request response) (request, response) where
  method := rfl
  path := by simp [logRecord]
  code := rfl

theorem flatMap_wire (order : HeaderOrder) (bodies : List Iteration) :
    bodies.flatMap (Iteration.wire order) =
      (bodies.filterMap Iteration.exchange?).flatMap fun exchange =>
        wireBytes order exchange.2 := by
  induction bodies with
  | nil => rfl
  | cons body bodies ih =>
      rw [List.flatMap_cons, ih]
      cases body <;> rfl

theorem flatMap_log_length (bodies : List Iteration) :
    (bodies.flatMap Iteration.log).length = bodies.length := by
  induction bodies with
  | nil => rfl
  | cons body bodies ih => cases body <;> simp [Iteration.log, ih]

/-- Bodies that all ended with a response are told of one by one. -/
theorem tells_flatMap_log {bodies : List Iteration}
    (hanswered : ∀ body ∈ bodies, body.exchange?.isSome) :
    List.Forall₂ Tells (bodies.flatMap Iteration.log)
      (bodies.filterMap Iteration.exchange?) := by
  induction bodies with
  | nil => exact List.Forall₂.nil
  | cons body bodies ih =>
      obtain ⟨hbody, hbodies⟩ := List.forall_mem_cons.mp hanswered
      cases body with
      | incomplete request => contradiction
      | threw request => contradiction
      | answered request response =>
          exact List.Forall₂.cons (tells_logRecord request response) (ih hbodies)

/-- In every run the log is faithful exactly when no read task ends inside a request
and no handler throws. -/
theorem faithfulLog_iff {router : HttpRouter} {order : HeaderOrder} {actions : List Action}
    {final : ClientState} (hrun : run (step router order) {} actions = some final) :
    FaithfulLog order final.history
        (observed (step router order) (loopBodies router) {} actions) ↔
      Guarded (step router order) (endsBetween router) {} actions := by
  rw [guarded_iff_observed endsBetween_iff]
  have hlog := recorded_run (fun _ _ _ hstep => (step_bodies hstep).1) hrun
  have hqueued := recorded_run (fun _ _ _ hstep => (step_bodies hstep).2) hrun
  generalize observed (step router order) (loopBodies router) {} actions = bodies at hlog hqueued ⊢
  rw [List.nil_append] at hlog hqueued
  constructor
  · intro hfaithful
    have hlength := hfaithful.records.length_eq
    rw [hlog, flatMap_log_length] at hlength
    exact List.filterMap_length_eq_length.mp hlength.symm
  · intro hanswered
    constructor
    · rw [hqueued, flatMap_wire]
    · rw [hlog]
      exact tells_flatMap_log hanswered
    · intro request hmem
      exact absurd (hanswered _ hmem) (by simp [Iteration.exchange?])

/-- Two requests that arrive whole, the second behind the first. -/
def arrivesWhole : List Action :=
  [.deliver { epollIn := true }, .dispatch,
    .read { recvs := [.data (ascii "GET / HTTP/1.1\r\n\r\nHEAD /b HTTP/1.1\r\n\r\n")] }]

theorem arrivesWhole_faithful :
    ∃ final, run (step {} sortedOrder) {} arrivesWhole = some final ∧
      final.history.log.length = 2 ∧
      FaithfulLog sortedOrder final.history
        (observed (step {} sortedOrder) (loopBodies {}) {} arrivesWhole) := by
  obtain ⟨final, hrun, hlog⟩ := @exists_reached _ _ (step {} sortedOrder) {} arrivesWhole
    (fun final => final.history.log.length = 2) _ (by decide +kernel)
  exact ⟨final, hrun, hlog, (faithfulLog_iff hrun).mpr (by decide +kernel)⟩

/-- One request whose second half arrives in a later pass. -/
def arrivesInHalves : List Action :=
  [.deliver { epollIn := true }, .dispatch, .read { recvs := [.data (ascii "GET / HT")] },
    .deliver { epollIn := true }, .dispatch,
    .read { recvs := [.data (ascii "TP/1.1\r\n\r\n")] }]

/-- The first pass records a success that nobody was told of. -/
theorem arrivesInHalves_logged_twice :
    ∃ final, run (step {} sortedOrder) {} arrivesInHalves = some final ∧
      final.history.log.map LogRecord.code = [200, 404] ∧
      ¬FaithfulLog sortedOrder final.history
        (observed (step {} sortedOrder) (loopBodies {}) {} arrivesInHalves) := by
  obtain ⟨final, hrun, hlog⟩ := @exists_reached _ _ (step {} sortedOrder) {} arrivesInHalves
    (fun final => final.history.log.map LogRecord.code = [200, 404]) _ (by decide +kernel)
  refine ⟨final, hrun, hlog, fun hfaithful => ?_⟩
  have hcount : final.history.log.length = 2 := by simpa using congrArg List.length hlog
  have hlength := hfaithful.records.length_eq
  rw [hcount] at hlength
  revert hlength
  decide +kernel

end HttpServer
