/-
What the `Connection` headers tell the client.  Every response says whether the
connection stays open; the server commits to closing exactly when a response says
`close`, and gives the connection up for a protocol reason only after that.
-/
import HttpServer.AccessLog
import HttpServer.CloseCommitment
import HttpServer.ResponseFraming

namespace HttpServer

open ByteText GuardedRun HttpResponseEncoder

/-- The `Connection` header of the encoded message. -/
def HttpResponse.announced (res : HttpResponse) : Option Bytes :=
  (setResponseHeader res).headers.get (ascii "Connection")

theorem announced_eq_get (res : HttpResponse) :
    res.announced = res.headers.get (ascii "Connection") := by
  have hcoding : lowerBytes (ascii "Connection") ≠ ascii "transfer-encoding" := by decide
  have hlength : lowerBytes (ascii "Connection") ≠ ascii "content-length" := by decide
  rw [HttpResponse.announced, get_framed, if_neg hcoding, if_neg hlength, ite_self]

/-- The header and the flag that the event loop goes by say the same. -/
theorem announced_finalized (res : HttpResponse) (keepAlive head : Bool) :
    (res.finalizeForConnection keepAlive head).announced =
      some (if (res.finalizeForConnection keepAlive head).closeAfterSend then ascii "close"
        else ascii "keep-alive") := by
  rw [announced_eq_get]
  simp only [HttpResponse.finalizeForConnection, HttpResponse.setHeader, HttpHeaders.get_set,
    if_true]
  by_cases hkeep : (keepAlive && !res.alreadyClose) = true
  · simp [hkeep]
  · simp [hkeep]

namespace Iteration

/-- The body has queued a response that says `close`. -/
def announcesClose : Iteration → Bool
  | answered _ response => response.announced = some (ascii "close")
  | _ => false

/-- The response, if there is one, went through `finalize_for_connection`. -/
def Finalized : Iteration → Prop
  | answered _ response =>
      ∃ (res : HttpResponse) (keepAlive head : Bool),
        response = res.finalizeForConnection keepAlive head
  | _ => True

theorem Finalized.announced {request : HttpRequest} {response : HttpResponse}
    (hfinalized : (answered request response).Finalized) :
    response.announced =
      some (if response.closeAfterSend then ascii "close" else ascii "keep-alive") := by
  obtain ⟨res, keepAlive, head, rfl⟩ := hfinalized
  exact announced_finalized res keepAlive head

theorem Finalized.announcesClose_eq {request : HttpRequest} {response : HttpResponse}
    (hfinalized : (answered request response).Finalized) :
    (answered request response).announcesClose = response.closeAfterSend := by
  have hdiffer : ascii "keep-alive" ≠ ascii "close" := by decide
  rw [announcesClose, hfinalized.announced]
  cases response.closeAfterSend <;> simp [hdiffer]

end Iteration

/-- The bodies up to the first one that announces a close, when there is one. -/
def upToClose : List Iteration → Option (List Iteration)
  | [] => none
  | body :: bodies =>
      if body.announcesClose then some [body] else (upToClose bodies).map (body :: ·)

theorem upToClose_append (first second : List Iteration) :
    upToClose (first ++ second) =
      (upToClose first).or ((upToClose second).map (first ++ ·)) := by
  induction first with
  | nil => simp [upToClose]
  | cons body first ih =>
      rw [List.cons_append, upToClose, upToClose, ih]
      split
      · rfl
      · cases upToClose first <;> cases upToClose second <;> rfl

theorem upToClose_prefix {bodies told : List Iteration} (htold : upToClose bodies = some told) :
    told <+: bodies := by
  induction bodies generalizing told with
  | nil => contradiction
  | cons body bodies ih =>
      rw [upToClose] at htold
      split at htold
      · obtain rfl := Option.some.inj htold
        exact ⟨bodies, rfl⟩
      · obtain ⟨later, hlater, rfl⟩ := Option.map_eq_some_iff.mp htold
        exact (List.prefix_cons_inj body).mpr (ih hlater)

/-- The parse loop is left with a commitment to close. -/
def PassEnd.commits : PassEnd → Bool
  | .closing | .badRequest | .rateLimited => true
  | _ => false

section Pass

variable {router : HttpRouter} {order : HeaderOrder} {allow : Nat → Bool}

theorem finalized_badRequest (request : HttpRequest) :
    (Iteration.answered request badRequestResponse).Finalized := ⟨_, _, _, rfl⟩

theorem finalized_tooManyRequests (request : HttpRequest) :
    (Iteration.answered request tooManyRequestsResponse).Finalized := ⟨_, _, _, rfl⟩

theorem finalized_respond (request : HttpRequest) (res : HttpResponse) :
    (Iteration.answered request (respond request res)).Finalized := ⟨_, _, _, rfl⟩

theorem finalized_iterations (remaining : Nat) : ∀ (progress : Progress) (readBuffer : Bytes),
    ∀ body ∈ iterations router allow remaining progress readBuffer, body.Finalized := by
  induction remaining with
  | zero => simp [iterations]
  | succ remaining ih =>
      intro progress readBuffer
      rw [iterations]
      split
      · simp
      · rcases parse progress readBuffer with ⟨result, p, rest⟩
        cases result with
        | incomplete => simp [Iteration.Finalized]
        | error => simpa using finalized_badRequest p.request
        | success =>
            dsimp only
            split
            · simpa using finalized_tooManyRequests p.request
            · cases router.route p.request with
              | none => simp [Iteration.Finalized]
              | some res =>
                  intro body hbody
                  rcases List.mem_cons.mp hbody with rfl | hlater
                  · exact finalized_respond p.request res
                  · split at hlater
                    · contradiction
                    · exact ih p.reset rest body hlater

/-- In a pass only the last response can announce a close, and does so exactly when the
loop was left for it. -/
theorem upToClose_iterations (now remaining : Nat) : ∀ conn : Connection,
    upToClose (iterations router allow remaining conn.progress conn.readBuffer) =
      if (parseLoop router order now allow remaining conn).ending.commits then
        some (iterations router allow remaining conn.progress conn.readBuffer)
      else none := by
  induction remaining with
  | zero => exact fun _ => rfl
  | succ remaining ih =>
      intro conn
      rw [iterations, parseLoop]
      split
      · rfl
      · rcases parse conn.progress conn.readBuffer with ⟨result, p, rest⟩
        cases result with
        | incomplete => rfl
        | error =>
            have hclose := (finalized_badRequest p.request).announcesClose_eq
            simp only [upToClose, hclose]
            rfl
        | success =>
            dsimp only
            split
            · have hclose := (finalized_tooManyRequests p.request).announcesClose_eq
              simp only [upToClose, hclose]
              rfl
            · cases router.route p.request with
              | none => rfl
              | some res =>
                  have hclose := (finalized_respond p.request res).announcesClose_eq
                  dsimp only
                  split
                  · next hcommits =>
                      rw [upToClose, hclose, if_pos hcommits]
                      rfl
                  · next hopen =>
                      have hlater := ih
                        { { conn with progress := p, readBuffer := rest }.appendUnsentData now
                            (wireBytes order (respond p.request res)) with progress := p.reset }
                      change upToClose (iterations router allow remaining p.reset rest) =
                        if _ then some (iterations router allow remaining p.reset rest)
                        else none at hlater
                      rw [upToClose, hclose, if_neg hopen, hlater]
                      split <;> rfl

theorem finalized_loopBodies (s : ClientState) (action : Action) :
    ∀ body ∈ loopBodies router s action, body.Finalized := by
  cases action with
  | read input =>
      simp only [loopBodies]
      split
      · simp
      · exact finalized_iterations _ _ _
  | _ => simp [loopBodies]

/-- A critical section and the bodies it has run through: it commits to a close when
a body announces one, and otherwise goes by a commitment made before. -/
structure TaskSection.Announces (order : HeaderOrder) (before : Connection)
    (bodies : List Iteration) (work : TaskSection) : Prop where
  queued : work.queued = bodies.flatMap (Iteration.wire order)
  committed : upToClose bodies = if work.committed then some bodies else none
  flag : work.conn.closeAfterWriteFlag = true →
    before.closeAfterWriteFlag = true ∨ work.committed = true
  closing : ∀ cause, work.decision = .remove cause → cause.isProtocol = true →
    before.closeAfterWriteFlag = true ∨ work.committed = true

theorem finishPass_committed (loop : LoopState) (input : ReadInput) (received : Bytes)
    (pass : Pass) :
    (finishPass loop input received pass).committed = pass.ending.commits ∧
      ((finishPass loop input received pass).conn.closeAfterWriteFlag = true →
        pass.conn.closeAfterWriteFlag = true ∨ pass.ending.commits = true) ∧
      ∀ cause, (finishPass loop input received pass).decision = .remove cause →
        cause.isProtocol = true → pass.ending.commits = true := by
  cases hending : pass.ending with
  | threw => simp [finishPass, hending, PassEnd.commits, RemovalCause.isProtocol]
  | badRequest => simp [finishPass, hending, PassEnd.commits]
  | rateLimited => simp [finishPass, hending, PassEnd.commits]
  | closing =>
      simp only [finishPass, hending, PassEnd.commits]
      split
      · simp
      · split <;> simp
  | idle =>
      simp only [finishPass, hending, PassEnd.commits]
      split <;> simp [Connection.flush, RemovalCause.isProtocol]
  | capped =>
      simp only [finishPass, hending, PassEnd.commits]
      split <;> simp [Connection.flush, RemovalCause.isProtocol]

theorem readSection_announces (s : ClientState) (input : ReadInput) :
    (readSection router order s.loop input s.conn).Announces order s.conn
      (loopBodies router s (.read input)) := by
  have hqueued := (@readSection_bodies router order s input).2
  cases hclosed : (drain s.loop input).2 with
  | true =>
      simp only [readSection, loopBodies, hclosed, if_true] at hqueued ⊢
      constructor
      · exact hqueued
      · rfl
      · exact fun hflag => Or.inl (by simpa using hflag)
      · intro cause hdecision hprotocol
        obtain rfl := Decision.remove.inj hdecision
        contradiction
  | false =>
      have hpass := @upToClose_iterations router order input.allow input.now maxParseIterations
        (s.conn.receive input.now (drain s.loop input).1)
      have hflag := (@parseLoop_conn router order input.now input.allow maxParseIterations
        (s.conn.receive input.now (drain s.loop input).1)).2
      obtain ⟨hcommitted, hmarked, hclosing⟩ := finishPass_committed s.loop input
        (drain s.loop input).1 (readPass router order s.loop input s.conn)
      rw [Connection.receive_closeAfterWriteFlag] at hflag
      simp only [readSection, loopBodies, hclosed, Bool.false_eq_true, if_false] at hqueued ⊢
      constructor
      · exact hqueued
      · rw [hcommitted]
        exact hpass
      · intro hafter
        rw [hcommitted, ← hflag]
        exact hmarked hafter
      · intro cause hdecision hprotocol
        rw [hcommitted]
        exact Or.inr (hclosing cause hdecision hprotocol)

theorem writeSection_announces (sends : List SendResult) (conn : Connection) :
    (writeSection sends conn).Announces order conn [] := by
  constructor
  · rfl
  · rfl
  · exact Or.inl
  · intro cause hdecision hprotocol
    left
    simp only [writeSection] at hdecision
    split at hdecision
    · obtain rfl := Decision.remove.inj hdecision
      contradiction
    · split at hdecision
      · next hcloses => exact (Bool.and_eq_true_iff.mp hcloses).2
      · contradiction

end Pass

/-- What the client has been told, in all bodies so far, is what the server goes by. -/
structure Announced (order : HeaderOrder) (s : ClientState) (bodies : List Iteration) :
    Prop where
  finalized : ∀ body ∈ bodies, body.Finalized
  queued : s.history.queued = bodies.flatMap (Iteration.wire order)
  accounted : s.history.sent ++ s.conn.writeBuffer = s.history.queued
  commitment : s.history.commitment.map Commitment.queued =
    (upToClose bodies).map (List.flatMap (Iteration.wire order))
  flagged : s.conn.closeAfterWriteFlag = true → (upToClose bodies).isSome
  closing : ∀ cause, .remove cause ∈ s.tasks → cause.isProtocol = true →
    (upToClose bodies).isSome
  removed : ∀ removal ∈ s.history.removal, removal.cause.isProtocol = true →
    ∃ told, upToClose bodies = some told ∧
      told.flatMap (Iteration.wire order) <+: removal.queued

namespace Announced

variable {order : HeaderOrder} {s : ClientState} {bodies : List Iteration}

theorem start : Announced order {} [] where
  finalized := by simp
  queued := rfl
  accounted := rfl
  commitment := rfl
  flagged := fun hflag => absurd hflag (by simp)
  closing := by simp
  removed := by simp

/-- Steps that leave the connection and its history alone and start no removal. -/
theorem frame {s' : ClientState} (hannounced : Announced order s bodies)
    (hconn : s'.conn = s.conn) (hhistory : s'.history = s.history)
    (htasks : ∀ cause, cause.isProtocol = true → .remove cause ∈ s'.tasks →
      .remove cause ∈ s.tasks) : Announced order s' bodies where
  finalized := hannounced.finalized
  queued := by rw [hhistory]; exact hannounced.queued
  accounted := by rw [hhistory, hconn]; exact hannounced.accounted
  commitment := by rw [hhistory]; exact hannounced.commitment
  flagged := by rw [hconn]; exact hannounced.flagged
  closing := fun cause hremove hprotocol =>
    hannounced.closing cause (htasks cause hprotocol hremove) hprotocol
  removed := by rw [hhistory]; exact hannounced.removed

theorem finish (hannounced : Announced order s bodies) (task : Task) :
    Announced order (s.finish task) bodies :=
  hannounced.frame rfl rfl fun _ _ => List.mem_of_mem_erase

theorem disturb (hannounced : Announced order s bodies) :
    Announced order s.disturb bodies where
  finalized := hannounced.finalized
  queued := hannounced.queued
  accounted := hannounced.accounted
  commitment := hannounced.commitment
  flagged := hannounced.flagged
  closing := hannounced.closing
  removed := hannounced.removed

theorem handleClientRead (hannounced : Announced order s bodies) :
    Announced order s.handleClientRead bodies := by
  rw [ClientState.handleClientRead]
  split
  · exact hannounced.frame rfl rfl fun _ _ hremove => by simpa using hremove
  · exact hannounced

theorem handleClientWrite (hannounced : Announced order s bodies) :
    Announced order s.handleClientWrite bodies := by
  rw [ClientState.handleClientWrite]
  split
  · exact hannounced.frame rfl rfl fun _ _ hremove => by simpa using hremove
  · exact hannounced

theorem updateEpoll (hannounced : Announced order s bodies) (fullyFlushed : Bool) :
    Announced order (s.updateEpoll fullyFlushed) bodies := by
  rw [ClientState.updateEpoll]
  split
  · split
    · exact hannounced.frame (by simp) (by simp) fun _ _ hremove => by simpa using hremove
    · refine hannounced.frame rfl rfl ?_
      intro cause hprotocol hremove
      rcases List.mem_cons.mp hremove with heq | hold
      · obtain rfl := Task.remove.inj heq
        contradiction
      · exact hold
  · exact hannounced.frame (by simp) (by simp) fun _ _ hremove => by simpa using hremove

/-- Everything up to the announcement has been queued. -/
theorem told_prefix (hannounced : Announced order s bodies) {told : List Iteration}
    (htold : upToClose bodies = some told) :
    told.flatMap (Iteration.wire order) <+: s.history.queued := by
  rw [hannounced.queued]
  obtain ⟨later, rfl⟩ := upToClose_prefix htold
  rw [List.flatMap_append]
  exact List.prefix_append _ _

theorem eraseFromMap (hannounced : Announced order s bodies) {cause : RemovalCause}
    (hcause : cause.isProtocol = true → (upToClose bodies).isSome) :
    Announced order (s.eraseFromMap cause) bodies := by
  rw [ClientState.eraseFromMap]
  split
  · constructor
    · exact hannounced.finalized
    · exact hannounced.queued
    · exact hannounced.accounted
    · exact hannounced.commitment
    · exact hannounced.flagged
    · intro other hremove hprotocol
      exact hannounced.closing other (by simpa using hremove) hprotocol
    · intro removal hremoval hprotocol
      obtain rfl := Option.some.inj hremoval
      obtain ⟨told, htold⟩ := Option.isSome_iff_exists.mp (hcause hprotocol)
      exact ⟨told, htold, hannounced.told_prefix htold⟩
  · exact hannounced

/-- A critical section adds the bodies it has run through. -/
theorem enact {work : TaskSection} {more : List Iteration}
    (hannounced : Announced order s bodies) (hmore : ∀ body ∈ more, body.Finalized)
    (hwork : work.Announces order s.conn more) (hsound : work.Sound s.conn) :
    Announced order (s.enact work) (bodies ++ more) := by
  obtain ⟨armed, interest, heq, _⟩ := s.enact_eq work
  have hqueued : s.history.queued ++ work.queued =
      (bodies ++ more).flatMap (Iteration.wire order) := by
    rw [List.flatMap_append, hannounced.queued, hwork.queued]
  have hkept : (upToClose bodies).isSome → (upToClose (bodies ++ more)).isSome := by
    intro hsome
    rw [upToClose_append, Option.isSome_or, hsome, Bool.true_or]
  have hfresh : work.committed = true → (upToClose (bodies ++ more)).isSome := by
    intro hcommitted
    rw [upToClose_append, hwork.committed, if_pos hcommitted]
    simp
  rw [heq]
  constructor
  · exact List.forall_mem_append.mpr ⟨hannounced.finalized, hmore⟩
  · exact hqueued
  · have hsplit := hsound.split
    have haccounted := hannounced.accounted
    simp only [History.record, List.append_assoc, hsplit]
    rw [← List.append_assoc, haccounted]
  · have hearlier := hannounced.commitment
    rw [upToClose_append, hwork.committed]
    cases hcommitment : s.history.commitment with
    | some commitment =>
        rw [hcommitment] at hearlier
        obtain ⟨told, htold, hflat⟩ := Option.map_eq_some_iff.mp hearlier.symm
        simp [History.record, hcommitment, htold, hflat]
    | none =>
        rw [hcommitment] at hearlier
        have hsilent : upToClose bodies = none := Option.map_eq_none_iff.mp hearlier.symm
        cases hcommitted : work.committed <;>
          simp [History.record, hcommitment, hsilent, hcommitted, hqueued]
  · intro hflag
    rcases hwork.flag hflag with hbefore | hcommitted
    · exact hkept (hannounced.flagged hbefore)
    · exact hfresh hcommitted
  · intro cause hremove hprotocol
    rcases List.mem_append.mp hremove with hnew | hold
    · have hdecision : work.decision = .remove cause := by
        cases hdecision : work.decision with
        | remove other => simp_all [Decision.followUps]
        | updateEpoll fullyFlushed => simp [hdecision, Decision.followUps] at hnew
        | rearmed asked resubmit =>
            cases resubmit <;> simp [hdecision, Decision.followUps] at hnew
      rcases hwork.closing cause hdecision hprotocol with hbefore | hcommitted
      · exact hkept (hannounced.flagged hbefore)
      · exact hfresh hcommitted
    · exact hkept (hannounced.closing cause hold hprotocol)
  · intro removal hremoval hprotocol
    obtain ⟨told, htold, hprefix⟩ := hannounced.removed removal hremoval hprotocol
    refine ⟨told, ?_, hprefix⟩
    rw [upToClose_append, htold, Option.some_or]

end Announced

theorem announced_step {router : HttpRouter} {order : HeaderOrder} (s : ClientState)
    (action : Action) (s' : ClientState) (bodies : List Iteration)
    (hannounced : Announced order s bodies) (hstep : step router order s action = some s') :
    Announced order s' (bodies ++ loopBodies router s action) := by
  have hmore := @finalized_loopBodies router s action
  cases steps_of_step hstep with
  | @read input _ =>
      exact (hannounced.finish .read).enact hmore (readSection_announces s input)
        (readSection_sound s.loop input s.conn)
  | @write sends _ =>
      exact (hannounced.finish .write).enact hmore (writeSection_announces sends s.conn)
        (writeSection_sound sends s.conn)
  | deliver _ =>
      simp only [loopBodies, List.append_nil]
      exact hannounced.frame rfl rfl fun _ _ => id
  | @dispatch first rest _ =>
      simp only [loopBodies, List.append_nil]
      have hrest : Announced order { s with fetched := rest } bodies :=
        hannounced.frame rfl rfl fun _ _ => id
      cases first with
      | hangUp => exact hrest.disturb.eraseFromMap (by simp [RemovalCause.isProtocol])
      | readable => exact hrest.handleClientRead
      | writable => exact hrest.handleClientWrite
  | resubmitted _ =>
      simp only [loopBodies, List.append_nil]
      exact (hannounced.finish .resubmitted).handleClientRead
  | @updateEpoll fullyFlushed _ =>
      simp only [loopBodies, List.append_nil]
      exact (hannounced.finish (.updateEpoll fullyFlushed)).updateEpoll fullyFlushed
  | @remove cause hmem =>
      simp only [loopBodies, List.append_nil]
      exact (hannounced.finish (.remove cause)).eraseFromMap (hannounced.closing cause hmem)
  | unregister _ =>
      simp only [loopBodies, List.append_nil]
      exact (hannounced.finish .unregister).frame rfl rfl fun _ _ => id
  | idleTimeout _ =>
      simp only [loopBodies, List.append_nil]
      exact hannounced.disturb.eraseFromMap (by simp [RemovalCause.isProtocol])
  | stop _ =>
      simp only [loopBodies, List.append_nil]
      exact hannounced.frame rfl rfl fun _ _ => id
  | shutdown _ =>
      simp only [loopBodies, List.append_nil]
      exact (hannounced.disturb.eraseFromMap
        (by simp [RemovalCause.isProtocol])).frame rfl rfl fun _ _ => id

/-- The client is sent the answers, one after another and whole, and their headers tell
what the server does: each says `close` exactly when its response closes, the server is
committed to a close from the first such answer on, and leaves for a protocol reason
only with that answer queued. -/
structure HeadersKept (order : HeaderOrder) (s : ClientState) (bodies : List Iteration) :
    Prop where
  delivered : s.history.sent ++ s.conn.writeBuffer = bodies.flatMap (Iteration.wire order)
  announced : ∀ request response, .answered request response ∈ bodies →
    response.announced =
      some (if response.closeAfterSend then ascii "close" else ascii "keep-alive")
  committed : s.history.commitment.map Commitment.queued =
    (upToClose bodies).map (List.flatMap (Iteration.wire order))
  removed : ∀ removal ∈ s.history.removal, removal.cause.isProtocol = true →
    ∃ told, upToClose bodies = some told ∧
      told.flatMap (Iteration.wire order) <+: removal.queued

end HttpServer
