/-
What the event loop takes in.  While it runs, a connection that nobody is working
on has nothing left in its read buffer that could be parsed, and so little that it
fits a request.
-/
import HttpServer.CloseCommitment
import HttpServer.ParserProgress

namespace HttpServer

open ByteText GuardedRun

theorem waiting_of_parse {p p' : Progress} {readBuffer rest : Bytes}
    (hparse : parse p readBuffer = (.incomplete, p', rest)) : Waiting p' rest := by
  induction p, readBuffer using parse.induct with
  | case1 p readBuffer result last lastBuffer hturn =>
      rw [parse_of_ret hturn] at hparse
      simp only [Prod.mk.injEq] at hparse
      obtain ⟨rfl, rfl, rfl⟩ := hparse
      obtain ⟨rfl, rfl⟩ := turn_incomplete hturn
      exact hturn
  | case2 p readBuffer next nextBuffer hturn ih =>
      rw [parse_of_next hturn] at hparse
      exact ih hparse

/-- The parse loop may skip an empty buffer. -/
def EmptyWaits (conn : Connection) : Prop :=
  conn.readBuffer = [] → Waiting conn.progress conn.readBuffer

theorem EmptyWaits.receive {conn : Connection} (hempty : EmptyWaits conn) (now : Nat)
    (bytes : Bytes) : EmptyWaits (conn.receive now bytes) := by
  intro hnil
  rw [Connection.receive_readBuffer] at hnil ⊢
  obtain ⟨hbuffer, _⟩ := List.append_eq_nil_iff.mp hnil
  rw [Connection.receive_progress, hnil, ← hbuffer]
  exact hempty hbuffer

section Pass

variable {router : HttpRouter} {order : HeaderOrder} {allow : Nat → Bool}

theorem withinBounds_parseLoop (now remaining : Nat) : ∀ conn : Connection,
    WithinBounds conn.progress →
      WithinBounds (parseLoop router order now allow remaining conn).conn.progress := by
  induction remaining with
  | zero => exact fun _ hbounds => hbounds
  | succ remaining ih =>
      intro conn hbounds
      have hafter := withinBounds_parse hbounds conn.readBuffer
      rw [parseLoop]
      split
      · exact hbounds
      · rcases hparse : parse conn.progress conn.readBuffer with ⟨result, p, rest⟩
        rw [hparse] at hafter
        cases result with
        | incomplete => exact hafter
        | error => exact hafter
        | success =>
            dsimp only
            split
            · exact hafter
            · cases router.route p.request with
              | none => exact hafter
              | some res =>
                  dsimp only
                  split
                  · exact withinBounds_reset p
                  · apply ih
                    exact withinBounds_reset p

/-- A pass that ends without a close or a failure has parsed all it could, unless it has
reached its cap. -/
theorem parseLoop_settles (now remaining : Nat) : ∀ conn : Connection, EmptyWaits conn →
    let pass := parseLoop router order now allow remaining conn
    (pass.ending = .idle → Waiting pass.conn.progress pass.conn.readBuffer) ∧
      (pass.ending = .capped → EmptyWaits pass.conn) := by
  induction remaining with
  | zero => exact fun conn hempty => ⟨by simp [parseLoop], fun _ => hempty⟩
  | succ remaining ih =>
      intro conn hempty
      rw [parseLoop]
      split
      · next hnil => exact ⟨fun _ => hempty (List.isEmpty_iff.mp hnil), by simp⟩
      · rcases hparse : parse conn.progress conn.readBuffer with ⟨result, p, rest⟩
        cases result with
        | incomplete => exact ⟨fun _ => waiting_of_parse hparse, by simp⟩
        | error => exact ⟨by simp, by simp⟩
        | success =>
            dsimp only
            split
            · exact ⟨by simp, by simp⟩
            · cases router.route p.request with
              | none => exact ⟨by simp, by simp⟩
              | some res =>
                  dsimp only
                  split
                  · exact ⟨by simp, by simp⟩
                  · apply ih
                    rintro rfl
                    exact waiting_start

theorem finishPass_conn (loop : LoopState) (input : ReadInput) (received : Bytes)
    (pass : Pass) :
    (finishPass loop input received pass).conn.progress = pass.conn.progress ∧
      (finishPass loop input received pass).conn.readBuffer = pass.conn.readBuffer := by
  cases hending : pass.ending with
  | closing =>
      simp only [finishPass, hending]
      split
      · exact ⟨rfl, rfl⟩
      · split <;> exact ⟨rfl, rfl⟩
  | idle =>
      simp only [finishPass, hending]
      split <;> exact ⟨rfl, rfl⟩
  | capped =>
      simp only [finishPass, hending]
      split <;> exact ⟨rfl, rfl⟩
  | _ => simp [finishPass, hending, Connection.flush]

/-- How a read task leaves a connection that is not being closed: parsed as far as it
goes, or resubmitted while the loop runs. -/
structure LeavesParsed (loop : LoopState) (work : TaskSection) : Prop where
  empty : EmptyWaits work.conn
  parsed : loop = .running → .resubmitted ∈ work.decision.followUps ∨
    Waiting work.conn.progress work.conn.readBuffer

theorem finishPass_parsed (loop : LoopState) (input : ReadInput) (received : Bytes)
    {pass : Pass} (hidle : pass.ending = .idle → Waiting pass.conn.progress pass.conn.readBuffer)
    (hcapped : pass.ending = .capped → EmptyWaits pass.conn) :
    (finishPass loop input received pass).decision.removes = true ∨
      (finishPass loop input received pass).conn.closeAfterWriteFlag = true ∨
      LeavesParsed loop (finishPass loop input received pass) := by
  obtain ⟨hprogress, hbuffer⟩ := finishPass_conn loop input received pass
  cases hending : pass.ending with
  | threw => exact Or.inl (by simp [finishPass, hending, Decision.removes])
  | badRequest => exact Or.inl (by simp [finishPass, hending, Decision.removes])
  | rateLimited => exact Or.inl (by simp [finishPass, hending, Decision.removes])
  | closing =>
      simp only [finishPass, hending]
      split
      · exact Or.inl rfl
      · split
        · exact Or.inl rfl
        · exact Or.inr (Or.inl rfl)
  | idle =>
      cases herror : (flushWrites input.sends pass.conn.writeBuffer).hasError with
      | true => exact Or.inl (by simp [finishPass, hending, herror, Decision.removes])
      | false =>
          have hwaits := hidle hending
          rw [← hprogress, ← hbuffer] at hwaits
          exact Or.inr (Or.inr ⟨fun _ => hwaits, fun _ => Or.inr hwaits⟩)
  | capped =>
      cases herror : (flushWrites input.sends pass.conn.writeBuffer).hasError with
      | true => exact Or.inl (by simp [finishPass, hending, herror, Decision.removes])
      | false =>
          have hempty := hcapped hending
          rw [EmptyWaits, ← hprogress, ← hbuffer] at hempty
          refine Or.inr (Or.inr ⟨hempty, fun hrunning => Or.inl ?_⟩)
          simp [finishPass, hending, herror, hrunning, Decision.followUps]

theorem readSection_parsed (loop : LoopState) (input : ReadInput) {conn : Connection}
    (hempty : EmptyWaits conn) :
    (readSection router order loop input conn).decision.removes = true ∨
      (readSection router order loop input conn).conn.closeAfterWriteFlag = true ∨
      LeavesParsed loop (readSection router order loop input conn) := by
  rw [readSection]
  split
  · exact Or.inl rfl
  · obtain ⟨hidle, hcapped⟩ := @parseLoop_settles router order input.allow input.now
      maxParseIterations _ (hempty.receive input.now (drain loop input).1)
    exact finishPass_parsed loop input _ hidle hcapped

theorem withinBounds_readSection (loop : LoopState) (input : ReadInput) {conn : Connection}
    (hbounds : WithinBounds conn.progress) :
    WithinBounds (readSection router order loop input conn).conn.progress := by
  have hreceived : WithinBounds (conn.receive input.now (drain loop input).1).progress := by
    rw [Connection.receive_progress]
    exact hbounds
  rw [readSection]
  split
  · exact hreceived
  · rw [(finishPass_conn ..).1]
    exact withinBounds_parseLoop _ _ _ hreceived

end Pass

/-- The connection is on its way out, or goes as soon as everything is written. -/
def Closing (s : ClientState) : Prop := Leaving s ∨ s.conn.closeAfterWriteFlag = true

instance (s : ClientState) : Decidable (Closing s) := inferInstanceAs (Decidable (_ ∨ _))

/-- A task is going to look at the read buffer. -/
def ReadDue (s : ClientState) : Prop := .read ∈ s.tasks ∨ .resubmitted ∈ s.tasks

instance (s : ClientState) : Decidable (ReadDue s) := inferInstanceAs (Decidable (_ ∨ _))

/-- The sizes are within bounds, and what could be parsed has been or is going to be. -/
structure Parsed (s : ClientState) : Prop where
  bounds : WithinBounds s.conn.progress
  empty : Closing s ∨ EmptyWaits s.conn
  parsed : s.loop = .running →
    Closing s ∨ ReadDue s ∨ Waiting s.conn.progress s.conn.readBuffer

namespace Parsed

variable {router : HttpRouter} {order : HeaderOrder} {s s' : ClientState}

theorem start : Parsed {} where
  bounds := withinBounds_start
  empty := Or.inr fun _ => waiting_start
  parsed := fun _ => Or.inr (Or.inr waiting_start)

/-- A closing connection promises nothing more. -/
theorem closing (hbounds : WithinBounds s.conn.progress) (hclosing : Closing s) : Parsed s where
  bounds := hbounds
  empty := Or.inl hclosing
  parsed := fun _ => Or.inl hclosing

/-- Steps that leave parser and read buffer alone. -/
theorem frame (hparsed : Parsed s) (hprogress : s'.conn.progress = s.conn.progress)
    (hbuffer : s'.conn.readBuffer = s.conn.readBuffer)
    (hloop : s'.loop = .running → s.loop = .running) (hclosing : Closing s → Closing s')
    (hdue : s'.loop = .running → ReadDue s → Closing s' ∨ ReadDue s') : Parsed s' where
  bounds := by
    rw [hprogress]
    exact hparsed.bounds
  empty := by
    rcases hparsed.empty with hcloses | hempty
    · exact Or.inl (hclosing hcloses)
    · right
      rw [EmptyWaits, hprogress, hbuffer]
      exact hempty
  parsed := by
    intro hrunning
    rcases hparsed.parsed (hloop hrunning) with hcloses | hread | hwaits
    · exact Or.inl (hclosing hcloses)
    · rcases hdue hrunning hread with hcloses | hread
      · exact Or.inl hcloses
      · exact Or.inr (Or.inl hread)
    · rw [hprogress, hbuffer]
      exact Or.inr (Or.inr hwaits)

theorem eraseFromMap (hbounds : WithinBounds s.conn.progress) (cause : RemovalCause) :
    Parsed (s.eraseFromMap cause) := by
  have hconn : (s.eraseFromMap cause).conn = s.conn := by
    rw [ClientState.eraseFromMap]
    split <;> rfl
  apply closing
  · rw [hconn]
    exact hbounds
  · exact Or.inl (Leaving.eraseFromMap s cause)

/-- Another task than a reading one is taken up. -/
theorem finish (hparsed : Parsed s) {task : Task} (hread : task ≠ .read)
    (hresubmitted : task ≠ .resubmitted) (hremoval : task.isRemoval = false) :
    Parsed (s.finish task) := by
  refine hparsed.frame rfl rfl id ?_ ?_
  · exact Or.imp_left fun hleaving => hleaving.finish hremoval
  · rintro _ (hdue | hdue)
    · exact Or.inr (Or.inl ((List.mem_erase_of_ne hread.symm).mpr hdue))
    · exact Or.inr (Or.inr ((List.mem_erase_of_ne hresubmitted.symm).mpr hdue))

theorem handleClientRead (hparsed : Parsed s) : Parsed s.handleClientRead := by
  have hclosing : Closing s → Closing s.handleClientRead := by
    rintro (hleaving | hflag)
    · exact Or.inl hleaving.handleClientRead
    · right
      rw [ClientState.handleClientRead]
      split <;> exact hflag
  rw [ClientState.handleClientRead] at hclosing ⊢
  split
  · next hcan =>
      rw [if_pos hcan] at hclosing
      refine hparsed.frame rfl rfl id hclosing fun _ hdue => Or.inr ?_
      exact Or.imp (List.mem_cons_of_mem _) (List.mem_cons_of_mem _) hdue
  · exact hparsed

theorem handleClientWrite (hparsed : Parsed s) : Parsed s.handleClientWrite := by
  rw [ClientState.handleClientWrite]
  split
  · refine hparsed.frame rfl rfl id ?_ fun _ hdue => Or.inr ?_
    · refine Or.imp_left fun hleaving => ?_
      exact hleaving.mono id fun _ hmem _ => List.mem_cons_of_mem _ hmem
    · exact Or.imp (List.mem_cons_of_mem _) (List.mem_cons_of_mem _) hdue
  · exact hparsed

/-- The resubmitted closure submits the read task, unless the connection is gone or
the loop stopped. -/
theorem resubmitted (hparsed : Parsed s) :
    Parsed (s.finish .resubmitted).handleClientRead := by
  rw [ClientState.handleClientRead]
  split
  · refine hparsed.frame rfl rfl id ?_ ?_
    · refine Or.imp_left fun hleaving => ?_
      exact (hleaving.finish rfl).mono id fun _ hmem _ => List.mem_cons_of_mem _ hmem
    · exact fun _ _ => Or.inr (Or.inl List.mem_cons_self)
  · next hcannot =>
      refine hparsed.frame rfl rfl id ?_ ?_
      · exact Or.imp_left fun hleaving => hleaving.finish rfl
      · intro hrunning _
        left
        left
        left
        simpa [ClientState.finish, show s.loop = .running from hrunning] using hcannot

theorem updateEpoll (hparsed : Parsed s) (fullyFlushed : Bool) :
    Parsed (s.updateEpoll fullyFlushed) := by
  have hmodified : ∀ interest, Parsed (s.modifyEpoll interest) := by
    intro interest
    rw [ClientState.modifyEpoll]
    split
    · exact hparsed.frame rfl rfl id id fun _ => Or.inr
    · exact hparsed
  rw [ClientState.updateEpoll]
  split
  · split
    · exact hmodified _
    · refine hparsed.frame rfl rfl id ?_ fun _ hdue => Or.inr ?_
      · refine Or.imp_left fun hleaving => ?_
        exact hleaving.mono id fun _ hmem _ => List.mem_cons_of_mem _ hmem
      · exact Or.imp (List.mem_cons_of_mem _) (List.mem_cons_of_mem _) hdue
  · exact hmodified _

/-- A critical section keeps a connection closing. -/
theorem closing_enact {work : TaskSection} (hsound : work.Sound s.conn) (hcloses : Closing s) :
    Closing (s.enact work) := by
  obtain ⟨armed, interest, heq, _⟩ := s.enact_eq work
  rw [heq]
  rcases hcloses with hleaving | hflag
  · left
    exact hleaving.mono id fun _ hmem _ => List.mem_append_right _ hmem
  · exact Or.inr (hsound.keepsFlag hflag)

theorem closing_enact_of_removes {work : TaskSection} (hremoves : work.decision.removes = true) :
    Closing (s.enact work) := by
  obtain ⟨armed, interest, heq, _⟩ := s.enact_eq work
  obtain ⟨task, hmem, hremoval⟩ := Decision.exists_removal hremoves
  rw [heq]
  exact Or.inl (Or.inr ⟨task, List.mem_append_left _ hmem, hremoval⟩)

theorem write (hparsed : Parsed s) (sends : List SendResult) :
    Parsed ((s.finish .write).enact (writeSection sends s.conn)) := by
  have hfinished : Parsed (s.finish .write) :=
    hparsed.finish (by simp) (by simp) rfl
  have hcloses : Closing (s.finish .write) →
      Closing ((s.finish .write).enact (writeSection sends s.conn)) :=
    closing_enact (writeSection_sound sends s.conn)
  obtain ⟨armed, interest, heq, _⟩ :=
    (s.finish .write).enact_eq (writeSection sends s.conn)
  rw [heq] at hcloses ⊢
  refine hfinished.frame rfl rfl id hcloses fun _ hdue => Or.inr ?_
  exact Or.imp (List.mem_append_right _) (List.mem_append_right _) hdue

theorem read (hparsed : Parsed s) (input : ReadInput) :
    Parsed ((s.finish .read).enact (readSection router order s.loop input s.conn)) := by
  have hsound := @readSection_sound router order s.loop input s.conn
  have hbounds := @withinBounds_readSection router order s.loop input s.conn hparsed.bounds
  have hconn : ((s.finish .read).enact (readSection router order s.loop input s.conn)).conn =
      (readSection router order s.loop input s.conn).conn := by
    obtain ⟨armed, interest, heq, _⟩ :=
      (s.finish .read).enact_eq (readSection router order s.loop input s.conn)
    rw [heq]
  rw [← hconn] at hbounds
  rcases hparsed.empty with hcloses | hempty
  · apply closing hbounds
    exact closing_enact hsound (Or.imp_left (fun hleaving => hleaving.finish rfl) hcloses)
  · rcases @readSection_parsed router order s.loop input s.conn hempty with
      hremoves | hflag | ⟨hafter, hdone⟩
    · exact closing hbounds (closing_enact_of_removes hremoves)
    · apply closing hbounds
      right
      rw [hconn]
      exact hflag
    · obtain ⟨armed, interest, heq, _⟩ :=
        (s.finish .read).enact_eq (readSection router order s.loop input s.conn)
      rw [heq] at hbounds ⊢
      refine ⟨hbounds, Or.inr hafter, fun hrunning => Or.inr ?_⟩
      rcases hdone hrunning with hresubmitted | hwaits
      · exact Or.inl (Or.inr (List.mem_append_left _ hresubmitted))
      · exact Or.inr hwaits

theorem step {action : Action} (hparsed : Parsed s)
    (hstep : HttpServer.step router order s action = some s') : Parsed s' := by
  cases steps_of_step hstep with
  | deliver _ => exact hparsed.frame rfl rfl id id fun _ => Or.inr
  | @dispatch first rest _ =>
      have hpopped : Parsed { s with fetched := rest } :=
        hparsed.frame rfl rfl id id fun _ => Or.inr
      cases first with
      | hangUp =>
          exact @eraseFromMap (ClientState.disturb { s with fetched := rest }) hparsed.bounds
            .hangUp
      | readable => exact hpopped.handleClientRead
      | writable => exact hpopped.handleClientWrite
  | @read input _ => exact hparsed.read input
  | @write sends _ => exact hparsed.write sends
  | resubmitted _ => exact hparsed.resubmitted
  | @updateEpoll fullyFlushed _ =>
      exact (hparsed.finish (by simp) (by simp) rfl).updateEpoll fullyFlushed
  | @remove cause _ => exact @eraseFromMap (s.finish (.remove cause)) hparsed.bounds cause
  | unregister _ =>
      exact (hparsed.finish (by simp) (by simp) rfl).frame rfl rfl id id fun _ => Or.inr
  | idleTimeout _ => exact @eraseFromMap s.disturb hparsed.bounds .idleTimeout
  | stop _ => exact hparsed.frame rfl rfl (by simp) id fun _ => Or.inr
  | shutdown _ =>
      have herased : Parsed (s.disturb.eraseFromMap .shutdown) :=
        @eraseFromMap s.disturb hparsed.bounds .shutdown
      exact herased.frame rfl rfl (by simp) id fun _ => Or.inr

end Parsed

/-- Whatever a client sends and however its tasks overlap: the body that is being put
together fits the limit, and while the loop runs, a connection that is not closing and
that no task is going to read has nothing in its buffer that could be parsed, and less
than a largest body. -/
theorem nothing_left_parseable {router : HttpRouter} {order : HeaderOrder}
    {actions : List Action} {s : ClientState}
    (hrun : run (step router order) {} actions = some s) :
    s.conn.progress.request.body.length ≤ maxHttpBodySize ∧
    (s.loop = .running → ¬Closing s → ¬ReadDue s →
      parse s.conn.progress s.conn.readBuffer =
          (.incomplete, s.conn.progress, s.conn.readBuffer) ∧
        s.conn.readBuffer.length < maxHttpBodySize) := by
  have hparsed : Parsed s := run_invariant (fun _ _ _ hparsed hstep => Parsed.step hparsed hstep)
    Parsed.start hrun
  refine ⟨hparsed.bounds.bodyBounded, fun hrunning hopen hidle => ?_⟩
  rcases hparsed.parsed hrunning with hcloses | hdue | hwaits
  · exact absurd hcloses hopen
  · exact absurd hdue hidle
  · exact ⟨parse_of_ret hwaits, waiting_length hwaits⟩

/-- A read task cut off in front of its second request, and the rest of that request in
a pass that ends the stream of bytes for now. -/
def cutOff : List Action :=
  [.deliver { epollIn := true }, .dispatch,
    .read { recvs := [.data (ascii "GET / HTTP/1.1\r\n\r\nPOST /a HTTP/1.1\r\nContent-")],
            sends := [.accepted 99999] },
    .deliver { epollIn := true }, .dispatch,
    .read { recvs := [.data (ascii "Length: 5\r\n\r\nhel")] }]

theorem nothing_left_parseable_cutOff :
    ∃ s, run (step {} sortedOrder) {} cutOff = some s ∧ s.conn.readBuffer = ascii "hel" ∧
      s.conn.progress.request.body.length ≤ maxHttpBodySize ∧
      parse s.conn.progress s.conn.readBuffer =
        (.incomplete, s.conn.progress, s.conn.readBuffer) := by
  obtain ⟨s, hrun, hrunning, hopen, hidle, hbuffer⟩ := @exists_reached _ _ (step {} sortedOrder)
    {} cutOff (fun s => s.loop = .running ∧ ¬Closing s ∧ ¬ReadDue s ∧
      s.conn.readBuffer = ascii "hel") _ (by decide +kernel)
  obtain ⟨hbody, hleft⟩ := nothing_left_parseable hrun
  exact ⟨s, hrun, hbuffer, hbody, (hleft hrunning hopen hidle).1⟩

end HttpServer
