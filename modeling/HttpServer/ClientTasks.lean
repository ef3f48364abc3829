/-
The bodies of the read and write tasks: what each does while it holds the
connection's mutex, and what it leaves to be done afterwards.
-/
import HttpServer.Connection
import HttpServer.HttpResponse

namespace HttpServer

open ByteText

inductive LoopState where
  | running
  | stopping
  | stopped
deriving Repr, DecidableEq

/-- The two event bits a client descriptor is registered for. -/
structure Interest where
  epollIn : Bool
  epollOut : Bool
deriving Repr, DecidableEq

/-- Why `remove_connection` is called. -/
inductive RemovalCause where
  | peerClosed
  | badRequest
  | rateLimited
  | closeResponse
  | sendFailed
  | exception
  | hangUp
  | idleTimeout
  | drained
  | shutdown
deriving Repr, DecidableEq

/-- The three closes the server decides on by itself for a protocol reason. -/
def RemovalCause.isProtocol : RemovalCause → Bool
  | .badRequest | .rateLimited | .closeResponse => true
  | _ => false

/-- Causes that lie outside the protocol. -/
def RemovalCause.isDisturbance : RemovalCause → Bool
  | .peerClosed | .sendFailed | .exception | .hangUp | .idleTimeout | .shutdown => true
  | _ => false

/-- What `HttpLogGuard` writes when it goes out of scope, the duration aside. -/
structure LogRecord where
  method : HttpMethod
  path : Bytes
  code : UInt16
deriving DecidableEq

def logRecord (request : HttpRequest) (response : HttpResponse) : LogRecord where
  method := request.method
  path := if request.path.isEmpty then ascii "/" else request.path
  code := response.statusCode

def badRequestResponse : HttpResponse :=
  ((HttpResponse.setStatus {} 400 (ascii "Bad Request")).html
    (ascii "<h1>400 Bad Request</h1>")).finalizeForConnection false false

def tooManyRequestsResponse : HttpResponse :=
  (((HttpResponse.setStatus {} 429 (ascii "Too Many Requests")).setHeader
    (ascii "Retry-After") (ascii "1")).html
      (ascii "<h1>429 Too Many Requests</h1>")).finalizeForConnection false false

/-- How the parse loop of a read task is left. -/
inductive PassEnd where
  | idle
  | capped
  | closing
  | badRequest
  | rateLimited
  | threw
deriving Repr, DecidableEq

/-- What a run of the parse loop leaves and does. -/
structure Pass where
  ending : PassEnd
  conn : Connection
  queued : Bytes := []
  routed : List HttpRequest := []
  log : List LogRecord := []
deriving DecidableEq

/-- Iterations after which the loop stops and resubmits itself. -/
def maxParseIterations : Nat := 51

section Tasks

variable (router : HttpRouter) (order : HeaderOrder)

/-- A routed request's response, finalized for the connection. -/
def respond (request : HttpRequest) (res : HttpResponse) : HttpResponse :=
  res.finalizeForConnection request.wantsKeepAlive (request.method = .head)

def wireBytes (res : HttpResponse) : Bytes :=
  (HttpResponseEncoder.encode order res false).1

/-- The `while (!read_buffer.empty())` loop with this many iterations left.
`allow` answers for the rate limiter. -/
def parseLoop (now : Nat) (allow : Nat → Bool) : Nat → Connection → Pass
  | 0, conn => { ending := .capped, conn }
  | remaining + 1, conn =>
      if conn.readBuffer.isEmpty then { ending := .idle, conn }
      else
        match parse conn.progress conn.readBuffer with
        | (.incomplete, p, rest) =>
            { ending := .idle
              conn := { conn with progress := p, readBuffer := rest }
              log := [logRecord p.request {}] }
        | (.error, p, rest) =>
            let wire := wireBytes order badRequestResponse
            { ending := .badRequest
              conn := { conn with progress := p, readBuffer := rest }.appendUnsentData now wire
              queued := wire
              log := [logRecord p.request badRequestResponse] }
        | (.success, p, rest) =>
            let parsed := { conn with progress := p, readBuffer := rest }
            if !allow remaining then
              let wire := wireBytes order tooManyRequestsResponse
              { ending := .rateLimited
                conn := parsed.appendUnsentData now wire
                queued := wire
                log := [logRecord p.request tooManyRequestsResponse] }
            else
              match router.route p.request with
              | none =>
                  { ending := .threw
                    conn := parsed
                    routed := [p.request]
                    log := [logRecord p.request {}] }
              | some res =>
                  let response := respond p.request res
                  let wire := wireBytes order response
                  let answered :=
                    { parsed.appendUnsentData now wire with progress := p.reset }
                  if response.closeAfterSend then
                    { ending := .closing
                      conn := answered
                      queued := wire
                      routed := [p.request]
                      log := [logRecord p.request response] }
                  else
                    let later := parseLoop now allow remaining answered
                    { later with
                      queued := wire ++ later.queued
                      routed := p.request :: later.routed
                      log := logRecord p.request response :: later.log }

/-- What the kernel, the clock and the rate limiter answer during a read
task. -/
structure ReadInput where
  recvs : List RecvResult := []
  sends : List SendResult := []
  allow : Nat → Bool := fun _ => true
  now : Nat := 0

/-- What a task has decided when it leaves its critical section: remove the
connection, or (read task) the interest it has re-armed and whether it has
resubmitted itself, or (write task) an epoll update it still has to make. -/
inductive Decision where
  | remove (cause : RemovalCause)
  | rearmed (interest : Interest) (resubmit : Bool)
  | updateEpoll (fullyFlushed : Bool)
deriving Repr, DecidableEq

def Decision.removes : Decision → Bool
  | .remove _ => true
  | _ => false

def Decision.isDisturbance : Decision → Bool
  | .remove cause => cause.isDisturbance
  | _ => false

/-- A critical section: the connection it leaves, what passed through it and
the decision. -/
structure TaskSection where
  conn : Connection
  received : Bytes := []
  queued : Bytes := []
  routed : List HttpRequest := []
  sent : Bytes := []
  log : List LogRecord := []
  /-- A response with `close_after_send` was queued. -/
  committed : Bool := false
  /-- The buffer was seen empty after a flush. -/
  flushed : Bool := false
  decision : Decision
deriving DecidableEq

/-- The read task behind the parse loop: flush, close handling, re-arm. -/
def finishPass (loop : LoopState) (input : ReadInput) (received : Bytes) (pass : Pass) :
    TaskSection :=
  let outcome := flushWrites input.sends pass.conn.writeBuffer
  let conn := pass.conn.flush input.sends
  let done : TaskSection :=
    { conn
      received
      queued := pass.queued
      routed := pass.routed
      sent := outcome.sent
      log := pass.log
      flushed := outcome.fullyFlushed
      decision := .remove .sendFailed }
  match pass.ending with
  | .threw =>
      { done with
        conn := pass.conn, sent := [], flushed := false, decision := .remove .exception }
  | .badRequest =>
      { done with
        committed := true
        decision := .remove (if outcome.hasError then .sendFailed else .badRequest) }
  | .rateLimited =>
      { done with
        committed := true
        decision := .remove (if outcome.hasError then .sendFailed else .rateLimited) }
  | .closing =>
      if outcome.hasError then { done with committed := true }
      else if outcome.fullyFlushed then
        { done with committed := true, decision := .remove .closeResponse }
      else
        { done with
          conn := conn.markCloseAfterWrite
          committed := true
          decision := .rearmed ⟨false, true⟩ false }
  | ending =>
      if outcome.hasError then done
      else
        { done with
          decision := .rearmed ⟨true, !outcome.fullyFlushed || conn.hasPendingWrites⟩
            (ending = .capped && loop = .running) }

/-- The drain loop runs only while the event loop does. -/
def drain (loop : LoopState) (input : ReadInput) : Bytes × Bool :=
  if loop = .running then drainSocket input.recvs else ([], false)

/-- The parse loop of a read task, on what the drain loop has left. -/
def readPass (loop : LoopState) (input : ReadInput) (conn : Connection) : Pass :=
  parseLoop router order input.now input.allow maxParseIterations
    (conn.receive input.now (drain loop input).1)

/-- The read task while it holds the mutex. -/
def readSection (loop : LoopState) (input : ReadInput) (conn : Connection) : TaskSection :=
  let received := (drain loop input).1
  if (drain loop input).2 then
    { conn := conn.receive input.now received
      received
      decision := .remove .peerClosed }
  else finishPass loop input received (readPass router order loop input conn)

/-- The write task while it holds the mutex. -/
def writeSection (sends : List SendResult) (conn : Connection) : TaskSection :=
  let outcome := flushWrites sends conn.writeBuffer
  { conn := conn.flush sends
    sent := outcome.sent
    flushed := outcome.fullyFlushed
    decision :=
      if outcome.hasError then .remove .sendFailed
      else if outcome.fullyFlushed && conn.shouldCloseAfterWrite then
        .remove .closeResponse
      else .updateEpoll outcome.fullyFlushed }

variable {router order}

/-- The loop queues at the end of the write buffer and leaves the close flag
alone. -/
theorem parseLoop_conn (now : Nat) (allow : Nat → Bool) (remaining : Nat) :
    ∀ conn : Connection,
      (parseLoop router order now allow remaining conn).conn.writeBuffer =
          conn.writeBuffer ++ (parseLoop router order now allow remaining conn).queued ∧
        (parseLoop router order now allow remaining conn).conn.closeAfterWriteFlag =
          conn.closeAfterWriteFlag := by
  induction remaining with
  | zero =>
      intro conn
      simp [parseLoop]
  | succ remaining ih =>
      intro conn
      simp only [parseLoop]
      split
      · simp
      · split
        · simp
        · simp [Connection.appendUnsentData]
        · split
          · simp [Connection.appendUnsentData]
          · split
            · simp
            · split
              · simp [Connection.appendUnsentData]
              · next p rest _ _ _ res _ _ =>
                  obtain ⟨hbuffer, hflag⟩ := ih
                    { { conn with progress := p, readBuffer := rest }.appendUnsentData now
                        (wireBytes order (respond p.request res)) with progress := p.reset }
                  rw [hbuffer, hflag]
                  simp [Connection.appendUnsentData]

/-- What both tasks guarantee about their critical section. -/
structure TaskSection.Sound (before : Connection) (work : TaskSection) : Prop where
  split : work.sent ++ work.conn.writeBuffer = before.writeBuffer ++ work.queued
  flushedEmpty : work.flushed = true → work.conn.writeBuffer = []
  keepsFlag : before.closeAfterWriteFlag = true → work.conn.closeAfterWriteFlag = true
  rearmsOut : ∀ interest resubmit, work.decision = .rearmed interest resubmit →
    work.conn.writeBuffer ≠ [] → interest.epollOut = true
  updateEmpty : work.decision = .updateEpoll true → work.conn.writeBuffer = []
  closeEmpty : work.decision = .remove .closeResponse → work.conn.writeBuffer = []
  committedEnd : work.committed = true → work.decision.removes = true ∨
    (work.conn.closeAfterWriteFlag = true ∧ work.flushed = false ∧
      work.decision = .rearmed ⟨false, true⟩ false)
  committedFlushed : work.committed = true → work.conn.writeBuffer = [] →
    work.flushed = true

theorem finishPass_sound {before : Connection} {pass : Pass}
    (hbuffer : pass.conn.writeBuffer = before.writeBuffer ++ pass.queued)
    (hflag : pass.conn.closeAfterWriteFlag = before.closeAfterWriteFlag)
    (loop : LoopState) (input : ReadInput) (received : Bytes) :
    (finishPass loop input received pass).Sound before := by
  have hsplit := flushWrites_split input.sends pass.conn.writeBuffer
  have hempty := flushWrites_fullyFlushed input.sends pass.conn.writeBuffer
  cases hending : pass.ending with
  | threw =>
      simp only [finishPass, hending]
      constructor <;> simp_all [Decision.removes]
  | badRequest =>
      simp only [finishPass, hending]
      constructor <;> simp_all [Connection.flush, Decision.removes]
      split <;> simp
  | rateLimited =>
      simp only [finishPass, hending]
      constructor <;> simp_all [Connection.flush, Decision.removes]
      split <;> simp
  | closing =>
      simp only [finishPass, hending]
      split
      · constructor <;> simp_all [Connection.flush, Decision.removes]
      · split
        · constructor <;> simp_all [Connection.flush, Decision.removes]
        · constructor <;>
            simp_all [Connection.flush, Connection.markCloseAfterWrite, Decision.removes]
  | idle =>
      simp only [finishPass, hending]
      split
      · constructor <;> simp_all [Connection.flush]
      · constructor <;> simp_all [Connection.flush, Connection.hasPendingWrites]
  | capped =>
      simp only [finishPass, hending]
      split
      · constructor <;> simp_all [Connection.flush]
      · constructor <;> simp_all [Connection.flush, Connection.hasPendingWrites]

theorem readSection_sound (loop : LoopState) (input : ReadInput) (conn : Connection) :
    (readSection router order loop input conn).Sound conn := by
  simp only [readSection]
  split
  · constructor <;> simp [Decision.removes]
  · obtain ⟨hbuffer, hflag⟩ := @parseLoop_conn router order input.now input.allow
      maxParseIterations (conn.receive input.now (drain loop input).1)
    rw [Connection.receive_writeBuffer] at hbuffer
    rw [Connection.receive_closeAfterWriteFlag] at hflag
    exact finishPass_sound hbuffer hflag loop input _

theorem writeSection_sound (sends : List SendResult) (conn : Connection) :
    (writeSection sends conn).Sound conn := by
  have hsplit := flushWrites_split sends conn.writeBuffer
  have hempty := flushWrites_fullyFlushed sends conn.writeBuffer
  simp only [writeSection]
  split
  · constructor <;> simp_all [Connection.flush]
  · split
    · constructor <;> simp_all [Connection.flush]
    · constructor <;> simp_all [Connection.flush]

/-- A pass that is answered by 400 or 429, whatever becomes of the bytes. -/
def PassEnd.isRejection : PassEnd → Bool
  | .badRequest | .rateLimited => true
  | _ => false

/-- A read task that meets no error, no peer close and no exception reaches its
flush. -/
theorem readSection_calm {loop : LoopState} {input : ReadInput} {conn : Connection}
    (hcalm : (readSection router order loop input conn).decision.isDisturbance = false) :
    (readSection router order loop input conn).conn.writeBuffer =
        (flushWrites input.sends
          (readPass router order loop input conn).conn.writeBuffer).writeBuffer ∧
      (flushWrites input.sends
        (readPass router order loop input conn).conn.writeBuffer).hasError = false := by
  cases hclosed : (drain loop input).2 with
  | true =>
      simp only [readSection, hclosed, ↓reduceIte] at hcalm
      contradiction
  | false =>
      simp only [readSection, hclosed, Bool.false_eq_true, ↓reduceIte] at hcalm ⊢
      cases herror : (flushWrites input.sends
          (readPass router order loop input conn).conn.writeBuffer).hasError with
      | true =>
          cases hending : (readPass router order loop input conn).ending <;>
            simp [finishPass, hending, herror, Decision.isDisturbance,
              RemovalCause.isDisturbance] at hcalm
      | false =>
          refine ⟨?_, rfl⟩
          cases hending : (readPass router order loop input conn).ending with
          | threw =>
              simp only [finishPass, hending] at hcalm
              contradiction
          | closing =>
              simp only [finishPass, hending, herror, Bool.false_eq_true, ↓reduceIte]
              split <;> rfl
          | badRequest => simp [finishPass, hending, Connection.flush]
          | rateLimited => simp [finishPass, hending, Connection.flush]
          | idle => simp [finishPass, hending, herror, Connection.flush]
          | capped => simp [finishPass, hending, herror, Connection.flush]

theorem isDisturbance_of_isProtocol {cause : RemovalCause} (hprotocol : cause.isProtocol = true) :
    cause.isDisturbance = false := by
  cases cause <;> simp_all [RemovalCause.isProtocol, RemovalCause.isDisturbance]

/-- A removal for a protocol reason follows a rejection or a closing response. -/
theorem readSection_protocol {loop : LoopState} {input : ReadInput} {conn : Connection}
    {cause : RemovalCause} (hprotocol : cause.isProtocol = true)
    (hdecision : (readSection router order loop input conn).decision = .remove cause) :
    (readPass router order loop input conn).ending.isRejection = true ∨
      cause = .closeResponse := by
  have hcalm : (readSection router order loop input conn).decision.isDisturbance = false := by
    rw [hdecision]
    exact isDisturbance_of_isProtocol hprotocol
  have herror := (readSection_calm hcalm).2
  cases hclosed : (drain loop input).2 with
  | true =>
      simp only [readSection, hclosed, ↓reduceIte, Decision.remove.injEq] at hdecision
      subst hdecision
      contradiction
  | false =>
      simp only [readSection, hclosed, Bool.false_eq_true, ↓reduceIte] at hdecision
      cases hending : (readPass router order loop input conn).ending with
      | threw =>
          simp only [finishPass, hending, Decision.remove.injEq] at hdecision
          subst hdecision
          contradiction
      | badRequest => exact Or.inl rfl
      | rateLimited => exact Or.inl rfl
      | closing =>
          simp only [finishPass, hending, herror, Bool.false_eq_true, ↓reduceIte] at hdecision
          split at hdecision
          · exact Or.inr (Decision.remove.inj hdecision).symm
          · contradiction
      | idle => simp [finishPass, hending, herror] at hdecision
      | capped => simp [finishPass, hending, herror] at hdecision

/-- A closing response that is not followed by a removal is one that `send`
did not take completely. -/
theorem readSection_commits {loop : LoopState} {input : ReadInput} {conn : Connection}
    (hcommitted : (readSection router order loop input conn).committed = true)
    (hstays : (readSection router order loop input conn).decision.removes = false) :
    (readPass router order loop input conn).ending = .closing ∧
      blocks input.sends
        (readPass router order loop input conn).conn.writeBuffer.length = true := by
  cases hclosed : (drain loop input).2 with
  | true => simp [readSection, hclosed] at hcommitted
  | false =>
      simp only [readSection, hclosed, Bool.false_eq_true, ↓reduceIte] at hcommitted hstays
      cases hending : (readPass router order loop input conn).ending with
      | threw => simp [finishPass, hending, Decision.removes] at hstays
      | badRequest => simp [finishPass, hending, Decision.removes] at hstays
      | rateLimited => simp [finishPass, hending, Decision.removes] at hstays
      | closing =>
          refine ⟨rfl, ?_⟩
          by_contra hfree
          rcases flushWrites_of_not_blocks _ _ (Bool.not_eq_true _ ▸ hfree) with
            hempty | herror
          · have hflushed := (flushWrites_fullyFlushed _ _).mpr hempty
            simp only [finishPass, hending, hflushed, ↓reduceIte] at hstays
            split at hstays <;> simp [Decision.removes] at hstays
          · simp [finishPass, hending, herror, Decision.removes] at hstays
      | idle =>
          simp only [finishPass, hending] at hcommitted
          split at hcommitted <;> simp at hcommitted
      | capped =>
          simp only [finishPass, hending] at hcommitted
          split at hcommitted <;> simp at hcommitted

end Tasks

end HttpServer
