/-
A client that sends a stream and then closes its side.  The drain loop of a
read pass may meet the end of the stream behind data of the same pass, and
then leaves without parsing.  Two runs are compared: the end of the stream in
the pass of the last bytes, and the end of the stream in a pass of its own.
-/
import HttpServer.ParserProgress

namespace HttpServer

open ByteText

/-- What one `recv` with a positive count returns. -/
abbrev Piece := { bytes : Bytes // bytes ≠ [] }

def arrivals (pieces : List Piece) : List RecvResult := pieces.map fun piece => .data piece.1

/-- `recv` returns 0. -/
def endOfStream : List RecvResult := [.data []]

theorem drainSocket_arrivals (pieces : List Piece) (recvs : List RecvResult) :
    drainSocket (arrivals pieces ++ recvs) =
      (pieces.flatMap Subtype.val ++ (drainSocket recvs).1, (drainSocket recvs).2) := by
  induction pieces with
  | nil => rfl
  | cons piece pieces ih =>
      obtain ⟨bytes, hbytes⟩ := piece
      obtain ⟨b, rest, rfl⟩ := List.exists_cons_of_ne_nil hbytes
      have hlater : drainSocket (arrivals (⟨b :: rest, hbytes⟩ :: pieces) ++ recvs) =
          (b :: (rest ++ (drainSocket (arrivals pieces ++ recvs)).1),
            (drainSocket (arrivals pieces ++ recvs)).2) := rfl
      rw [hlater, ih]
      simp

/-- `send` takes all it is given, in portions of any size. -/
def SendsAll (kernel : Nat → List SendResult) : Prop :=
  ∀ unsent : Bytes, flushWrites (kernel unsent.length) unsent =
    { writeBuffer := [], sent := unsent, fullyFlushed := true }

/-- The task has submitted itself again. -/
def Decision.resubmits : Decision → Bool
  | .rearmed _ resubmit => resubmit
  | _ => false

/-- A connection between its read passes, with what has been routed and sent. -/
structure PeerRun where
  conn : Connection := {}
  routed : List HttpRequest := []
  sent : Bytes := []
  removed : Bool := false
  /-- The last pass has stopped early and submitted itself again. -/
  capped : Bool := false
deriving DecidableEq

section Passes

variable (router : HttpRouter) (order : HeaderOrder) (kernel : Nat → List SendResult)

/-- The answers of the kernel in a pass that receives `recvs`: every `send` succeeds. -/
def passInput (conn : Connection) (recvs : List RecvResult) : ReadInput :=
  { recvs
    sends := kernel (readPass router order .running { recvs } conn).conn.writeBuffer.length }

def PeerRun.pass (s : PeerRun) (recvs : List RecvResult) : PeerRun :=
  if s.removed then s
  else
    let work := readSection router order .running (passInput router order kernel s.conn recvs)
      s.conn
    { conn := work.conn
      routed := s.routed ++ work.routed
      sent := s.sent ++ work.sent
      removed := work.decision.removes
      capped := work.decision.resubmits }

/-- Passes whose `recv` calls end with `EAGAIN`. -/
def PeerRun.deliver (s : PeerRun) (passes : List (List Piece)) : PeerRun :=
  passes.foldl (fun s pieces => s.pass router order kernel (arrivals pieces)) s

/-- The end of the stream behind the bytes of its own pass. -/
def PeerRun.endTogether (s : PeerRun) (pieces : List Piece) : PeerRun :=
  s.pass router order kernel (arrivals pieces ++ endOfStream)

/-- The resubmitted passes find nothing new in the socket. -/
def PeerRun.resume (s : PeerRun) (count : Nat) : PeerRun :=
  s.deliver router order kernel (List.replicate count [])

/-- The same bytes in a pass that ends with `EAGAIN`, the passes it resubmits, and the
end of the stream in a pass of its own. -/
def PeerRun.EndsAlone (s : PeerRun) (pieces : List Piece) (final : PeerRun) : Prop :=
  let data := s.deliver router order kernel [pieces]
  ∃ count, (∀ k < count, (data.resume router order kernel k).capped = true) ∧
    (data.resume router order kernel count).capped = false ∧
    final = (data.resume router order kernel count).endTogether router order kernel []

end Passes

section Observed

variable {router : HttpRouter} {order : HeaderOrder} {kernel : Nat → List SendResult}

/-- The read task behind the parse loop, when every `send` succeeds. -/
theorem finishPass_flushed {input : ReadInput} {pass : Pass} (received : Bytes)
    (hflush : flushWrites input.sends pass.conn.writeBuffer =
      { writeBuffer := [], sent := pass.conn.writeBuffer, fullyFlushed := true }) :
    (finishPass .running input received pass).routed = pass.routed ∧
    (pass.ending ≠ .threw →
      (finishPass .running input received pass).sent = pass.conn.writeBuffer) ∧
    (finishPass .running input received pass).decision.resubmits =
      decide (pass.ending = .capped) ∧
    ((finishPass .running input received pass).decision.removes = false →
      (finishPass .running input received pass).conn = { pass.conn with writeBuffer := [] }) := by
  cases hending : pass.ending <;>
    simp [finishPass, hending, hflush, Decision.resubmits, Decision.removes, Connection.flush]

/-- The parse loop of a pass that receives these bytes. -/
def PeerRun.parsed (router : HttpRouter) (order : HeaderOrder) (s : PeerRun)
    (pieces : List Piece) : Pass :=
  parseLoop router order 0 (fun _ => true) maxParseIterations
    (s.conn.receive 0 (pieces.flatMap Subtype.val))

theorem drain_arrivals (pieces : List Piece) (sends : List SendResult) :
    drain .running { recvs := arrivals pieces, sends } = (pieces.flatMap Subtype.val, false) := by
  have hdrain := drainSocket_arrivals pieces []
  rw [List.append_nil] at hdrain
  simp [drain, hdrain, drainSocket]

theorem readSection_arrivals (s : PeerRun) (pieces : List Piece) :
    readSection router order .running
        (passInput router order kernel s.conn (arrivals pieces)) s.conn =
      finishPass .running (passInput router order kernel s.conn (arrivals pieces))
        (pieces.flatMap Subtype.val) (s.parsed router order pieces) := by
  simp only [readSection, passInput, drain_arrivals, Bool.false_eq_true, ↓reduceIte, readPass,
    PeerRun.parsed]

theorem passInput_sends (hkernel : SendsAll kernel) (s : PeerRun) (pieces : List Piece) :
    flushWrites (passInput router order kernel s.conn (arrivals pieces)).sends
        (s.parsed router order pieces).conn.writeBuffer =
      { writeBuffer := [], sent := (s.parsed router order pieces).conn.writeBuffer,
        fullyFlushed := true } := by
  have hpass : readPass router order .running { recvs := arrivals pieces } s.conn =
      s.parsed router order pieces := by
    rw [readPass, drain_arrivals]
    rfl
  rw [passInput, hpass]
  exact hkernel _

/-- A pass whose `recv` calls end with `EAGAIN`. -/
structure PassOutcome (router : HttpRouter) (order : HeaderOrder) (s next : PeerRun)
    (pass : Pass) : Prop where
  routed : next.routed = s.routed ++ pass.routed
  sent : pass.ending ≠ .threw → next.sent = s.sent ++ pass.conn.writeBuffer
  capped : next.capped = decide (pass.ending = .capped)
  conn : next.removed = false → next.conn = { pass.conn with writeBuffer := [] }

theorem pass_outcome (hkernel : SendsAll kernel) {s : PeerRun} (hactive : s.removed = false)
    (pieces : List Piece) :
    PassOutcome router order s (s.pass router order kernel (arrivals pieces))
      (s.parsed router order pieces) := by
  obtain ⟨hrouted, hsent, hcapped, hconn⟩ := finishPass_flushed (pieces.flatMap Subtype.val)
    (@passInput_sends router order kernel hkernel s pieces)
  rw [← readSection_arrivals] at hrouted hsent hcapped hconn
  have hopen : ¬ s.removed = true := by simp [hactive]
  rw [PeerRun.pass, if_neg hopen]
  constructor
  · exact congrArg (s.routed ++ ·) hrouted
  · exact fun hthrew => congrArg (s.sent ++ ·) (hsent hthrew)
  · exact hcapped
  · exact hconn

/-- A pass that meets the end of the stream routes and sends nothing. -/
theorem endTogether_observed (s : PeerRun) (pieces : List Piece) :
    (s.endTogether router order kernel pieces).routed = s.routed ∧
      (s.endTogether router order kernel pieces).sent = s.sent := by
  rw [PeerRun.endTogether, PeerRun.pass]
  split
  · exact ⟨rfl, rfl⟩
  · have hdrain : ∀ sends, (drain .running
        { recvs := arrivals pieces ++ endOfStream, sends }).2 = true := by
      intro sends
      simp [drain, drainSocket_arrivals, endOfStream, drainSocket]
    simp only [readSection, passInput, hdrain, ↓reduceIte, List.append_nil, and_self]

theorem pass_of_removed {s : PeerRun} (hremoved : s.removed = true) (recvs : List RecvResult) :
    s.pass router order kernel recvs = s := by
  rw [PeerRun.pass, if_pos hremoved]

theorem pass_extends (s : PeerRun) (recvs : List RecvResult) :
    s.routed <+: (s.pass router order kernel recvs).routed ∧
      s.sent <+: (s.pass router order kernel recvs).sent := by
  rw [PeerRun.pass]
  split
  · exact ⟨List.prefix_rfl, List.prefix_rfl⟩
  · exact ⟨List.prefix_append _ _, List.prefix_append _ _⟩

/-- What has been routed and sent stays so. -/
theorem deliver_extends (passes : List (List Piece)) :
    ∀ s : PeerRun, s.routed <+: (s.deliver router order kernel passes).routed ∧
      s.sent <+: (s.deliver router order kernel passes).sent := by
  induction passes with
  | nil => exact fun s => ⟨List.prefix_rfl, List.prefix_rfl⟩
  | cons pieces passes ih =>
      intro s
      obtain ⟨hrouted, hsent⟩ := @pass_extends router order kernel s (arrivals pieces)
      obtain ⟨hrouted', hsent'⟩ := ih (s.pass router order kernel (arrivals pieces))
      exact ⟨hrouted.trans hrouted', hsent.trans hsent'⟩

/-- Between the passes nothing is left to be sent. -/
theorem deliver_flushed (hkernel : SendsAll kernel) (passes : List (List Piece)) :
    ∀ s : PeerRun, (s.removed = false → s.conn.writeBuffer = []) →
      (s.deliver router order kernel passes).removed = false →
        (s.deliver router order kernel passes).conn.writeBuffer = [] := by
  induction passes with
  | nil => exact fun s hflushed => hflushed
  | cons pieces passes ih =>
      intro s hflushed
      apply ih (s.pass router order kernel (arrivals pieces))
      intro hopen
      cases hactive : s.removed with
      | true =>
          rw [pass_of_removed hactive] at hopen ⊢
          exact hflushed hopen
      | false =>
          rw [(pass_outcome hkernel hactive pieces).conn hopen]

theorem pass_capped_length (hkernel : SendsAll kernel) {s : PeerRun}
    (hactive : s.removed = false) (pieces : List Piece)
    (hnext : (s.pass router order kernel (arrivals pieces)).removed = false)
    (hcapped : (s.pass router order kernel (arrivals pieces)).capped = true) :
    (s.pass router order kernel (arrivals pieces)).conn.readBuffer.length <
      (s.conn.readBuffer ++ pieces.flatMap Subtype.val).length := by
  have houtcome := @pass_outcome router order kernel hkernel s hactive pieces
  rw [houtcome.capped, decide_eq_true_eq] at hcapped
  have hlength := parseLoop_capped_length 0 (fun _ => true) maxParseIterations _ hcapped
  rw [Connection.receive_readBuffer, maxParseIterations] at hlength
  rw [houtcome.conn hnext]
  simp only [PeerRun.parsed, maxParseIterations]
  split at hlength <;> omega

/-- A pass that resubmits itself does not remove the connection. -/
theorem pass_capped_open {s : PeerRun} (hopen : s.capped = true → s.removed = false)
    (recvs : List RecvResult)
    (hcapped : (s.pass router order kernel recvs).capped = true) :
    (s.pass router order kernel recvs).removed = false := by
  rw [PeerRun.pass] at hcapped ⊢
  split at hcapped
  · next hremoved =>
      rw [if_pos hremoved]
      exact hopen hcapped
  · next hactive =>
      rw [if_neg hactive]
      dsimp only at hcapped ⊢
      generalize (readSection router order .running _ s.conn).decision = decision at hcapped
      cases decision with
      | remove cause => contradiction
      | rearmed interest resubmit => rfl
      | updateEpoll fullyFlushed => rfl

/-- The resubmitted passes come to an end. -/
theorem exists_resumed (hkernel : SendsAll kernel) (length : Nat) :
    ∀ s : PeerRun, (s.capped = true → s.removed = false) → s.conn.readBuffer.length = length →
      ∃ count, (s.resume router order kernel count).capped = false := by
  induction length using Nat.strong_induction_on with
  | _ length ih =>
      intro s hopen hlength
      cases hcapped : s.capped with
      | false => exact ⟨0, hcapped⟩
      | true =>
          have hnext : ∀ count, s.resume router order kernel (count + 1) =
              (s.pass router order kernel (arrivals [])).resume router order kernel count :=
            fun count => rfl
          cases hagain : (s.pass router order kernel (arrivals [])).capped with
          | false => exact ⟨1, hagain⟩
          | true =>
              have hactive := hopen hcapped
              have hstays := pass_capped_open hopen (arrivals []) hagain
              have hless := pass_capped_length hkernel hactive [] hstays hagain
              rw [List.flatMap_nil, List.append_nil, hlength] at hless
              obtain ⟨count, hcount⟩ := ih _ hless _ (fun _ => hstays) rfl
              exact ⟨count + 1, by rw [hnext, hcount]⟩

theorem deliver_capped_open (passes : List (List Piece)) :
    ∀ s : PeerRun, (s.capped = true → s.removed = false) →
      (s.deliver router order kernel passes).capped = true →
        (s.deliver router order kernel passes).removed = false := by
  induction passes with
  | nil => exact fun s hopen => hopen
  | cons pieces passes ih =>
      intro s hopen
      exact ih _ (pass_capped_open hopen (arrivals pieces))

theorem exists_endsAlone (hkernel : SendsAll kernel) {s : PeerRun}
    (hopen : s.capped = true → s.removed = false) (pieces : List Piece) :
    ∃ final, s.EndsAlone router order kernel pieces final := by
  have hexists := @exists_resumed router order kernel hkernel _
    (s.deliver router order kernel [pieces]) (deliver_capped_open [pieces] s hopen) rfl
  refine ⟨_, Nat.find hexists, fun k hk => ?_, Nat.find_spec hexists, rfl⟩
  simpa using Nat.find_min hexists hk

theorem wireBytes_ne_nil (response : HttpResponse) : wireBytes order response ≠ [] := by
  simp [wireBytes, HttpResponseEncoder.encode, crlf]

/-- The bytes at hand neither complete a request nor are refused. -/
def PeerRun.Waits (s : PeerRun) (pieces : List Piece) : Prop :=
  s.conn.readBuffer ++ pieces.flatMap Subtype.val = [] ∨
    (parse s.conn.progress (s.conn.readBuffer ++ pieces.flatMap Subtype.val)).1 = .incomplete

instance (s : PeerRun) (pieces : List Piece) : Decidable (s.Waits pieces) :=
  inferInstanceAs (Decidable (_ ∨ _))

/-- A pass over bytes at which the parser waits routes and queues nothing. -/
theorem parsed_waits {s : PeerRun} {pieces : List Piece} (hwaits : s.Waits pieces) :
    (s.parsed router order pieces).ending = .idle ∧
      (s.parsed router order pieces).routed = [] ∧
      (s.parsed router order pieces).conn.writeBuffer = s.conn.writeBuffer := by
  have hbuffer := Connection.receive_readBuffer s.conn 0 (pieces.flatMap Subtype.val)
  rw [PeerRun.parsed, maxParseIterations, parseLoop, Connection.receive_progress, hbuffer]
  obtain hempty | hincomplete := hwaits
  · rw [if_pos (List.isEmpty_iff.mpr hempty)]
    exact ⟨rfl, rfl, Connection.receive_writeBuffer _ _ _⟩
  · split
    · exact ⟨rfl, rfl, Connection.receive_writeBuffer _ _ _⟩
    · rcases hparse : parse s.conn.progress
          (s.conn.readBuffer ++ pieces.flatMap Subtype.val) with ⟨result, p, rest⟩
      rw [hparse] at hincomplete
      obtain rfl : result = .incomplete := hincomplete
      exact ⟨rfl, rfl, Connection.receive_writeBuffer _ _ _⟩

/-- Any other pass routes a request or queues an error response. -/
theorem parsed_acts {s : PeerRun} {pieces : List Piece} (hacts : ¬ s.Waits pieces) :
    (s.parsed router order pieces).routed ≠ [] ∨
      ((s.parsed router order pieces).ending ≠ .threw ∧
        (s.parsed router order pieces).conn.writeBuffer ≠ []) := by
  simp only [PeerRun.Waits, not_or] at hacts
  obtain ⟨hne, hcomplete⟩ := hacts
  have hbuffer := Connection.receive_readBuffer s.conn 0 (pieces.flatMap Subtype.val)
  rw [PeerRun.parsed, maxParseIterations, parseLoop, Connection.receive_progress, hbuffer,
    if_neg (by simpa using hne)]
  rcases hparse : parse s.conn.progress
      (s.conn.readBuffer ++ pieces.flatMap Subtype.val) with ⟨result, p, rest⟩
  rw [hparse] at hcomplete
  cases result with
  | incomplete => exact absurd rfl hcomplete
  | error =>
      right
      simp [Connection.appendUnsentData, wireBytes_ne_nil]
  | success =>
      left
      simp only [Bool.not_true, Bool.false_eq_true, ↓reduceIte]
      split
      · simp
      · split <;> simp

/-- The end of the stream may come in the pass of the last bytes: the same requests
are routed and the same bytes sent as when it comes alone. -/
def EndHarmless (router : HttpRouter) (order : HeaderOrder) (kernel : Nat → List SendResult)
    (passes : List (List Piece)) (last : List Piece) : Prop :=
  ∀ final, (PeerRun.deliver router order kernel {} passes).EndsAlone router order kernel last
      final →
    ((PeerRun.deliver router order kernel {} passes).endTogether router order kernel last).routed =
        final.routed ∧
      ((PeerRun.deliver router order kernel {} passes).endTogether router order kernel last).sent =
        final.sent

/-- When the parser waits behind the last bytes, their pass does nothing to be seen. -/
theorem deliver_waits (hkernel : SendsAll kernel) {s : PeerRun} {pieces : List Piece}
    (hopen : s.capped = true → s.removed = false)
    (hflushed : s.removed = false → s.conn.writeBuffer = [])
    (hwaits : s.removed = true ∨ s.Waits pieces) :
    (s.deliver router order kernel [pieces]).routed = s.routed ∧
      (s.deliver router order kernel [pieces]).sent = s.sent ∧
      (s.deliver router order kernel [pieces]).capped = false := by
  have hpass : s.deliver router order kernel [pieces] =
      s.pass router order kernel (arrivals pieces) := rfl
  rw [hpass]
  cases hactive : s.removed with
  | true =>
      rw [pass_of_removed hactive]
      refine ⟨rfl, rfl, ?_⟩
      by_contra hcapped
      have hstays := hopen (by simpa using hcapped)
      rw [hactive] at hstays
      contradiction
  | false =>
      have hquiet : s.Waits pieces := by simpa [hactive] using hwaits
      obtain ⟨hending, hrouted, hqueued⟩ := @parsed_waits router order s pieces hquiet
      have houtcome := @pass_outcome router order kernel hkernel s hactive pieces
      refine ⟨?_, ?_, ?_⟩
      · rw [houtcome.routed, hrouted, List.append_nil]
      · rw [houtcome.sent (by rw [hending]; decide), hqueued, hflushed hactive,
          List.append_nil]
      · rw [houtcome.capped, hending]
        decide

/-- Otherwise their pass is seen in what is routed or in what is sent. -/
theorem deliver_acts (hkernel : SendsAll kernel) {s : PeerRun} {pieces : List Piece}
    (hactive : s.removed = false) (hacts : ¬ s.Waits pieces) :
    s.routed.length < (s.deliver router order kernel [pieces]).routed.length ∨
      s.sent.length < (s.deliver router order kernel [pieces]).sent.length := by
  have hpass : s.deliver router order kernel [pieces] =
      s.pass router order kernel (arrivals pieces) := rfl
  have houtcome := @pass_outcome router order kernel hkernel s hactive pieces
  rw [hpass]
  obtain hrouted | ⟨hending, hqueued⟩ := @parsed_acts router order s pieces hacts
  · left
    rw [houtcome.routed, List.length_append]
    exact Nat.lt_add_of_pos_right (List.length_pos_iff.mpr hrouted)
  · right
    rw [houtcome.sent hending, List.length_append]
    exact Nat.lt_add_of_pos_right (List.length_pos_iff.mpr hqueued)

theorem not_endHarmless (hkernel : SendsAll kernel) {passes : List (List Piece)}
    {last : List Piece} (hactive : (PeerRun.deliver router order kernel {} passes).removed = false)
    (hacts : ¬ (PeerRun.deliver router order kernel {} passes).Waits last) :
    ¬ EndHarmless router order kernel passes last := by
  have hopen := @deliver_capped_open router order kernel passes {} (fun hcapped => nomatch hcapped)
  rw [EndHarmless]
  generalize PeerRun.deliver router order kernel {} passes = s at hactive hacts hopen
  intro hharmless
  obtain ⟨final, hfinal⟩ := @exists_endsAlone router order kernel hkernel s hopen last
  obtain ⟨hsameRouted, hsameSent⟩ := hharmless final hfinal
  obtain ⟨count, _, _, rfl⟩ := hfinal
  obtain ⟨hrouted, hsent⟩ := @endTogether_observed router order kernel s last
  obtain ⟨hrouted', hsent'⟩ := @endTogether_observed router order kernel
    ((s.deliver router order kernel [last]).resume router order kernel count) []
  rw [hrouted, hrouted', PeerRun.resume] at hsameRouted
  rw [hsent, hsent', PeerRun.resume] at hsameSent
  -- the later passes only add to what the first one has routed or sent
  obtain ⟨hkeepRouted, hkeepSent⟩ := @deliver_extends router order kernel
    (List.replicate count []) (s.deliver router order kernel [last])
  have hmoreRouted := hkeepRouted.length_le
  have hmoreSent := hkeepSent.length_le
  have hmore := @deliver_acts router order kernel hkernel s last hactive hacts
  rw [← hsameRouted] at hmoreRouted
  rw [← hsameSent] at hmoreSent
  omega

/-- The end of the stream is harmless exactly when the bytes of its pass, together with
those not parsed yet, neither complete a request nor are refused. -/
theorem endHarmless_iff (hkernel : SendsAll kernel) (passes : List (List Piece))
    (last : List Piece) :
    EndHarmless router order kernel passes last ↔
      (PeerRun.deliver router order kernel {} passes).removed = true ∨
        (PeerRun.deliver router order kernel {} passes).Waits last := by
  have hopen := @deliver_capped_open router order kernel passes {} (fun hcapped => nomatch hcapped)
  have hflushed := @deliver_flushed router order kernel hkernel passes {} (fun _ => rfl)
  constructor
  · intro hharmless
    by_contra hneither
    simp only [not_or, Bool.not_eq_true] at hneither
    exact not_endHarmless hkernel hneither.1 hneither.2 hharmless
  · rw [EndHarmless]
    generalize PeerRun.deliver router order kernel {} passes = s at hopen hflushed
    rintro hwaits final ⟨count, hcapped, _, rfl⟩
    obtain ⟨hsameRouted, hsameSent, hdone⟩ :=
      @deliver_waits router order kernel hkernel s last hopen hflushed hwaits
    -- the pass is not stopped early, so it resubmits nothing
    have hfirst : (s.deliver router order kernel [last]).resume router order kernel 0 =
        s.deliver router order kernel [last] := rfl
    obtain rfl : count = 0 := by
      by_contra hsome
      have hagain := hcapped 0 (Nat.pos_of_ne_zero hsome)
      rw [hfirst, hdone] at hagain
      contradiction
    obtain ⟨hrouted, hsent⟩ := @endTogether_observed router order kernel s last
    obtain ⟨hrouted', hsent'⟩ := @endTogether_observed router order kernel
      (s.deliver router order kernel [last]) []
    rw [hfirst, hrouted, hsent, hrouted', hsent']
    exact ⟨hsameRouted.symm, hsameSent.symm⟩

/-- A `send` that takes the whole buffer at once. -/
def wholeBuffer (unsent : Nat) : List SendResult := [.accepted unsent]

theorem sendsAll_wholeBuffer : SendsAll wholeBuffer := by
  intro unsent
  rw [wholeBuffer, flushWrites]
  split
  · next hempty => rw [List.isEmpty_iff.mp hempty]
  · simp [flushWrites]

theorem endHarmless_halfRequest :
    EndHarmless {} sortedOrder wholeBuffer
      [[⟨ascii "GET / HTTP/1.1\r\n", by decide⟩], [⟨ascii "\r\nGET", by decide⟩]]
      [⟨ascii " /a HTTP", by decide⟩, ⟨ascii "/1.1\r\nHost", by decide⟩] := by
  apply (endHarmless_iff sendsAll_wholeBuffer _ _).mpr
  exact Or.inr (by decide +kernel)

/-- A request that arrives in one pass with the end of the stream is dropped. -/
theorem endHarmless_missed :
    ¬ EndHarmless {} sortedOrder wholeBuffer []
      [⟨ascii "GET / HTTP/1.1\r\n\r\n", by decide⟩] :=
  not_endHarmless sendsAll_wholeBuffer rfl (by decide +kernel)

end Observed

end HttpServer
