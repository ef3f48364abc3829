/-
The idle sweep and the activity time it goes by.  Receiving and queuing move
`last_activity`, flushing does not.  Each critical section of a connection and
each test of the sweep is one step at the time the clock shows; the sweep holds
the map while it runs, not the connections.
-/
import HttpServer.Connection
import HttpServer.GuardedRun

namespace HttpServer

open GuardedRun

/-- `IDLE_TIMEOUT_SECONDS` in ticks of the steady clock. -/
def idleTimeout : Nat := 30 * 1000000000

/-- `CHECK_INTERVAL_SECONDS` in ticks of the steady clock. -/
def checkInterval : Nat := 10 * 1000000000

/-- A connection and the times at which something happened to it. -/
structure Tracked where
  conn : Connection
  created : Nat
  /-- `recv` returned a positive count. -/
  receivedAt : List Nat := []
  /-- A response was queued. -/
  queuedAt : List Nat := []
  /-- `send` returned a positive count. -/
  sentAt : List Nat := []
deriving DecidableEq

namespace Tracked

/-- The times at which `last_activity` was written. -/
def touchedAt (t : Tracked) : List Nat := t.created :: (t.receivedAt ++ t.queuedAt)

/-- The times at which bytes moved. -/
def movedAt (t : Tracked) : List Nat := t.receivedAt ++ t.sentAt

/-- `Connection::Connection`. -/
def create (now : Nat) : Tracked := { conn := { lastActivity := now }, created := now }

def receive (t : Tracked) (now : Nat) (bytes : Bytes) : Tracked :=
  { t with conn := t.conn.appendReadData now bytes, receivedAt := now :: t.receivedAt }

def queue (t : Tracked) (now : Nat) (bytes : Bytes) : Tracked :=
  { t with conn := t.conn.appendUnsentData now bytes, queuedAt := now :: t.queuedAt }

def flush (t : Tracked) (now : Nat) (sends : List SendResult) : Tracked :=
  { t with
    conn := t.conn.flush sends
    sentAt :=
      if (flushWrites sends t.conn.writeBuffer).sent.isEmpty then t.sentAt
      else now :: t.sentAt }

/-- `seconds_since_last_activity() >= IDLE_TIMEOUT_SECONDS`. -/
def timedOut (t : Tracked) (now : Nat) : Bool := idleTimeout ≤ now - t.conn.lastActivity

end Tracked

/-- A connection the sweep has put on its list, as it was then. -/
structure Selection where
  tracked : Tracked
  time : Nat
deriving DecidableEq

/-- No byte moved during the idle timeout before the selection. -/
def Selection.Idle (selection : Selection) : Prop :=
  ∀ time ∈ selection.tracked.movedAt, time + idleTimeout ≤ selection.time

instance (selection : Selection) : Decidable selection.Idle :=
  inferInstanceAs (Decidable (∀ time ∈ selection.tracked.movedAt, _))

structure IdleState where
  clock : Nat := 0
  lastTimeoutCheck : Nat := 0
  /-- Connections by the order of their creation, those out of the map included. -/
  objects : Nat → Option Tracked := fun _ => none
  created : Nat := 0
  connections : List Nat := []
  /-- What the sweep that holds the map has still to test. -/
  sweep : Option (List Nat) := none
  selections : List Selection := []

inductive IdleAction where
  | tick (elapsed : Nat)
  | accept
  | remove (id : Nat)
  | receive (id : Nat) (bytes : Bytes)
  | queue (id : Nat) (bytes : Bytes)
  | flush (id : Nat) (sends : List SendResult)
  | checkIdleTimeouts
  | test
deriving DecidableEq

namespace IdleState

def put (s : IdleState) (id : Nat) (t : Tracked) : IdleState :=
  { s with objects := Function.update s.objects id (some t) }

@[simp] theorem put_objects (s : IdleState) (id : Nat) (t : Tracked) :
    (s.put id t).objects = Function.update s.objects id (some t) := rfl

/-- A critical section of a connection. -/
def work (s : IdleState) (id : Nat) (change : Tracked → Tracked) : Option IdleState :=
  (s.objects id).map fun t => s.put id (change t)

/-- One round of the sweep's loop over the map, or its end. -/
def testNext (s : IdleState) : List Nat → IdleState
  | [] => { s with sweep := none }
  | id :: rest =>
      match s.objects id with
      | none => { s with sweep := some rest }
      | some t =>
          { s with
            sweep := some rest
            selections :=
              if t.timedOut s.clock then ⟨t, s.clock⟩ :: s.selections else s.selections }

def step (s : IdleState) : IdleAction → Option IdleState
  | .tick elapsed => some { s with clock := s.clock + elapsed }
  | .accept =>
      if s.sweep.isSome then none
      else
        some
          { s.put s.created (.create s.clock) with
            created := s.created + 1
            connections := s.created :: s.connections }
  | .remove id =>
      if s.sweep.isSome then none
      else some { s with connections := s.connections.erase id }
  | .receive id bytes =>
      if bytes.isEmpty then none else s.work id fun t => t.receive s.clock bytes
  | .queue id bytes => s.work id fun t => t.queue s.clock bytes
  | .flush id sends => s.work id fun t => t.flush s.clock sends
  | .checkIdleTimeouts =>
      if s.sweep.isSome then none
      else if s.clock - s.lastTimeoutCheck < checkInterval then some s
      else some { s with lastTimeoutCheck := s.clock, sweep := some s.connections }
  | .test => s.sweep.map s.testNext

end IdleState

/-- Within the idle timeout before `now`. -/
def Recent (now : Nat) (times : List Nat) : Prop := ∃ time ∈ times, now < time + idleTimeout

instance (now : Nat) (times : List Nat) : Decidable (Recent now times) :=
  inferInstanceAs (Decidable (∃ time ∈ times, _))

/-- The connection the sweep is about to test. -/
def IdleState.tested? (s : IdleState) : Option Tracked := (s.sweep.bind List.head?).bind s.objects

/-- A connection that has recently been sent something, when the sweep tests it, has
also received bytes, been given a response or been accepted recently. -/
def sendsCovered (s : IdleState) (action : IdleAction) : Prop :=
  action = .test → ∀ t ∈ s.tested?, Recent s.clock t.sentAt → Recent s.clock t.touchedAt

instance (s : IdleState) (action : IdleAction) : Decidable (sendsCovered s action) :=
  inferInstanceAs (Decidable (_ → ∀ t ∈ s.tested?, _))

namespace Tracked

/-- `last_activity` is the latest time at which it was written. -/
structure Dated (t : Tracked) (now : Nat) : Prop where
  latest : ∀ time ∈ t.touchedAt, time ≤ t.conn.lastActivity
  written : t.conn.lastActivity ∈ t.touchedAt
  past : t.conn.lastActivity ≤ now

variable {t : Tracked} {now : Nat}

theorem Dated.mono (hdated : t.Dated now) {later : Nat} (hlater : now ≤ later) :
    t.Dated later :=
  ⟨hdated.latest, hdated.written, hdated.past.trans hlater⟩

theorem dated_create (now : Nat) : (create now).Dated now := by
  constructor <;> simp [create, touchedAt]

/-- Activity at the present time is the latest. -/
theorem Dated.touch {t' : Tracked} (hdated : t.Dated now) (hactivity : t'.conn.lastActivity = now)
    (htimes : ∀ time, time ∈ t'.touchedAt ↔ time = now ∨ time ∈ t.touchedAt) : t'.Dated now := by
  constructor
  · intro time htime
    rw [hactivity]
    rcases (htimes time).mp htime with rfl | hold
    · exact Nat.le_refl _
    · exact (hdated.latest time hold).trans hdated.past
  · rw [hactivity]
    exact (htimes now).mpr (.inl rfl)
  · exact Nat.le_of_eq hactivity

theorem Dated.receive (hdated : t.Dated now) (bytes : Bytes) : (t.receive now bytes).Dated now := by
  apply hdated.touch rfl
  intro time
  simp only [touchedAt, Tracked.receive, List.cons_append, List.mem_cons]
  tauto

theorem Dated.queue (hdated : t.Dated now) (bytes : Bytes) : (t.queue now bytes).Dated now := by
  apply hdated.touch rfl
  intro time
  simp only [touchedAt, Tracked.queue, List.mem_cons, List.mem_append]
  tauto

/-- A flush leaves the activity time as it was. -/
theorem Dated.flush (hdated : t.Dated now) (sends : List SendResult) :
    (t.flush now sends).Dated now :=
  ⟨hdated.latest, hdated.written, hdated.past⟩

theorem timedOut_iff (hdated : t.Dated now) :
    t.timedOut now = true ↔ ¬ Recent now t.touchedAt := by
  simp only [timedOut, decide_eq_true_eq, Recent, not_exists, not_and, Nat.not_lt]
  have hpast := hdated.past
  constructor
  · intro hidle time htime
    have hlatest := hdated.latest time htime
    omega
  · intro hold
    have hlast := hold _ hdated.written
    omega

/-- Of a connection that times out, only the sends can be recent. -/
theorem idle_iff (hdated : t.Dated now) (hout : t.timedOut now = true) :
    (Selection.mk t now).Idle ↔ ¬ Recent now t.sentAt := by
  have hold := (timedOut_iff hdated).mp hout
  simp only [Recent, not_exists, not_and, Nat.not_lt] at hold ⊢
  constructor
  · exact fun hidle time htime => hidle time (List.mem_append_right _ htime)
  · intro hsent time htime
    rcases List.mem_append.mp htime with hreceived | hsend
    · exact hold time (List.mem_cons_of_mem _ (List.mem_append_left _ hreceived))
    · exact hsent time hsend

end Tracked

namespace IdleState

variable {s s' : IdleState} {action : IdleAction}

/-- Every activity time is the latest one written. -/
def AllDated (s : IdleState) : Prop := ∀ id, ∀ t ∈ s.objects id, t.Dated s.clock

theorem AllDated.put (hall : s.AllDated) {t : Tracked} (ht : t.Dated s.clock) (id : Nat) :
    (s.put id t).AllDated := by
  intro other t' ht'
  by_cases hid : other = id
  · subst hid
    rw [put_objects, Function.update_self] at ht'
    obtain rfl := Option.some.inj ht'
    exact ht
  · rw [put_objects, Function.update_of_ne hid] at ht'
    exact hall other t' ht'

theorem AllDated.tested (hall : s.AllDated) {t : Tracked} (ht : t ∈ s.tested?) :
    t.Dated s.clock := by
  obtain ⟨id, _, hobject⟩ := Option.bind_eq_some_iff.mp ht
  exact hall id t hobject

/-- What a step can be, and where it leads. -/
inductive Moves (s : IdleState) : IdleAction → IdleState → Prop
  | tick (elapsed : Nat) : Moves s (.tick elapsed) { s with clock := s.clock + elapsed }
  | accept :
      Moves s .accept
        { s.put s.created (.create s.clock) with
          created := s.created + 1
          connections := s.created :: s.connections }
  | remove (id : Nat) : Moves s (.remove id) { s with connections := s.connections.erase id }
  | receive (id : Nat) (bytes : Bytes) (t : Tracked) (hobject : s.objects id = some t) :
      Moves s (.receive id bytes) (s.put id (t.receive s.clock bytes))
  | queue (id : Nat) (bytes : Bytes) (t : Tracked) (hobject : s.objects id = some t) :
      Moves s (.queue id bytes) (s.put id (t.queue s.clock bytes))
  | flush (id : Nat) (sends : List SendResult) (t : Tracked) (hobject : s.objects id = some t) :
      Moves s (.flush id sends) (s.put id (t.flush s.clock sends))
  | early : Moves s .checkIdleTimeouts s
  | begin : Moves s .checkIdleTimeouts
      { s with lastTimeoutCheck := s.clock, sweep := some s.connections }
  | done (htested : s.tested? = none) : Moves s .test { s with sweep := none }
  | missing (rest : List Nat) (htested : s.tested? = none) :
      Moves s .test { s with sweep := some rest }
  | kept (rest : List Nat) (t : Tracked) (htested : s.tested? = some t)
      (hfresh : t.timedOut s.clock = false) : Moves s .test { s with sweep := some rest }
  | selected (rest : List Nat) (t : Tracked) (htested : s.tested? = some t)
      (hout : t.timedOut s.clock = true) :
      Moves s .test { s with sweep := some rest, selections := ⟨t, s.clock⟩ :: s.selections }

theorem moves_testNext {rest : List Nat} (hsweep : s.sweep = some rest) :
    Moves s .test (s.testNext rest) := by
  cases rest with
  | nil => exact .done (by simp [tested?, hsweep])
  | cons id rest =>
      have htested : s.tested? = s.objects id := by simp [tested?, hsweep]
      rw [testNext]
      cases hobject : s.objects id with
      | none => exact .missing rest (htested.trans hobject)
      | some t =>
          dsimp only
          split
          · next hout => exact .selected rest t (htested.trans hobject) hout
          · next hfresh =>
              exact .kept rest t (htested.trans hobject) (Bool.eq_false_iff.mpr hfresh)

theorem moves_of_step (hstep : s.step action = some s') : Moves s action s' := by
  cases action with
  | tick elapsed =>
      obtain rfl := Option.some.inj hstep
      exact .tick elapsed
  | accept =>
      rw [step, Option.ite_none_left_eq_some] at hstep
      obtain rfl := Option.some.inj hstep.2
      exact .accept
  | remove id =>
      rw [step, Option.ite_none_left_eq_some] at hstep
      obtain rfl := Option.some.inj hstep.2
      exact .remove id
  | receive id bytes =>
      rw [step, Option.ite_none_left_eq_some] at hstep
      obtain ⟨t, hobject, rfl⟩ := Option.map_eq_some_iff.mp hstep.2
      exact .receive id bytes t hobject
  | queue id bytes =>
      obtain ⟨t, hobject, rfl⟩ := Option.map_eq_some_iff.mp hstep
      exact .queue id bytes t hobject
  | flush id sends =>
      obtain ⟨t, hobject, rfl⟩ := Option.map_eq_some_iff.mp hstep
      exact .flush id sends t hobject
  | checkIdleTimeouts =>
      rw [step, Option.ite_none_left_eq_some] at hstep
      obtain ⟨_, hcheck⟩ := hstep
      split at hcheck
      · obtain rfl := Option.some.inj hcheck
        exact .early
      · obtain rfl := Option.some.inj hcheck
        exact .begin
  | test =>
      obtain ⟨rest, hsweep, rfl⟩ := Option.map_eq_some_iff.mp hstep
      exact moves_testNext hsweep

theorem AllDated.step (hall : s.AllDated) (hstep : s.step action = some s') : s'.AllDated := by
  cases moves_of_step hstep with
  | tick elapsed => exact fun id t ht => (hall id t ht).mono (Nat.le_add_right _ _)
  | accept => exact hall.put (Tracked.dated_create s.clock) s.created
  | receive id bytes t hobject => exact hall.put ((hall id t hobject).receive bytes) id
  | queue id bytes t hobject => exact hall.put ((hall id t hobject).queue bytes) id
  | flush id sends t hobject => exact hall.put ((hall id t hobject).flush sends) id
  | _ => exact hall

/-- A step selects nothing, or the connection it tests. -/
theorem step_selections (hstep : s.step action = some s') :
    (s'.selections = s.selections ∧
        (action = .test → ∀ t ∈ s.tested?, t.timedOut s.clock = false)) ∨
      (action = .test ∧ ∃ t ∈ s.tested?, t.timedOut s.clock = true ∧
        s'.selections = ⟨t, s.clock⟩ :: s.selections) := by
  cases moves_of_step hstep with
  | selected rest t htested hout => exact .inr ⟨rfl, t, htested, hout, rfl⟩
  | kept rest t htested hfresh =>
      refine .inl ⟨rfl, fun _ other hother => ?_⟩
      obtain rfl : t = other := Option.some.inj (htested.symm.trans hother)
      exact hfresh
  | done htested =>
      exact .inl ⟨rfl, fun _ t ht => nomatch htested.symm.trans ht⟩
  | missing rest htested =>
      exact .inl ⟨rfl, fun _ t ht => nomatch htested.symm.trans ht⟩
  | _ => exact .inl ⟨rfl, nofun⟩

end IdleState

/-- Every selection so far was of an idle connection. -/
def OnlyIdleReaped (s : IdleState) : Prop := ∀ selection ∈ s.selections, selection.Idle

instance (s : IdleState) : Decidable (OnlyIdleReaped s) :=
  inferInstanceAs (Decidable (∀ selection ∈ s.selections, _))

section Run

variable {s s' : IdleState} {action : IdleAction}

/-- A covered test selects an idle connection or none. -/
theorem onlyIdleReaped_step (hall : s.AllDated) (hidle : OnlyIdleReaped s)
    (hcovered : sendsCovered s action) (hstep : s.step action = some s') :
    OnlyIdleReaped s' := by
  rcases IdleState.step_selections hstep with ⟨hsame, _⟩ | ⟨htest, t, ht, hout, hselected⟩
  · rw [OnlyIdleReaped, hsame]
    exact hidle
  · have hdated := hall.tested ht
    have hquiet : (Selection.mk t s.clock).Idle := by
      rw [Tracked.idle_iff hdated hout]
      exact fun hsent => (Tracked.timedOut_iff hdated).mp hout (hcovered htest t ht hsent)
    intro selection hmem
    rw [hselected] at hmem
    rcases List.mem_cons.mp hmem with rfl | hold
    · exact hquiet
    · exact hidle selection hold

/-- An uncovered test selects a connection that is still being sent its response. -/
theorem not_onlyIdleReaped_step (hall : s.AllDated) (huncovered : ¬ sendsCovered s action)
    (hstep : s.step action = some s') : ¬ OnlyIdleReaped s' := by
  simp only [sendsCovered, Classical.not_imp, not_forall] at huncovered
  obtain ⟨htest, t, ht, hsent, huntouched⟩ := huncovered
  have hdated := hall.tested ht
  have hout := (Tracked.timedOut_iff hdated).mpr huntouched
  rcases IdleState.step_selections hstep with ⟨_, hkept⟩ | ⟨_, t', ht', _, hselected⟩
  · rw [hkept htest t ht] at hout
    contradiction
  · obtain rfl : t' = t := Option.some.inj (Eq.trans (Eq.symm ht') ht)
    intro hidle
    have hquiet := hidle ⟨t', s.clock⟩ (by rw [hselected]; exact List.mem_cons_self)
    exact (Tracked.idle_iff hdated hout).mp hquiet hsent

theorem not_onlyIdleReaped_mono (hbroken : ¬ OnlyIdleReaped s)
    (hstep : s.step action = some s') : ¬ OnlyIdleReaped s' := by
  intro hidle
  apply hbroken
  intro selection hmem
  apply hidle
  rcases IdleState.step_selections hstep with ⟨hsame, _⟩ | ⟨_, _, _, _, hselected⟩
  · rwa [hsame]
  · rw [hselected]
    exact List.mem_cons_of_mem _ hmem

/-- In a run, the sweep reaps only idle connections exactly when every connection it
tests is covered. -/
theorem onlyIdleReaped_iff {actions : List IdleAction} {final : IdleState}
    (hrun : run IdleState.step {} actions = some final) :
    OnlyIdleReaped final ↔ Guarded IdleState.step sendsCovered {} actions := by
  have hstart : IdleState.AllDated {} := fun _ _ ht => nomatch ht
  constructor
  · intro hidle
    by_contra hunguarded
    have hbroken : ¬ OnlyIdleReaped final :=
      @broken_of_not_guarded _ _ IdleState.step sendsCovered IdleState.AllDated
        (fun s => ¬ OnlyIdleReaped s)
        (fun _ _ _ hall hstep => hall.step hstep)
        (fun _ _ _ hall huncovered hstep => not_onlyIdleReaped_step hall huncovered hstep)
        (fun _ _ _ hbroken hstep => not_onlyIdleReaped_mono hbroken hstep)
        actions {} final hstart hrun hunguarded
    exact hbroken hidle
  · intro hguarded
    have hholds : final.AllDated ∧ OnlyIdleReaped final :=
      @invariant _ _ IdleState.step sendsCovered (fun s => s.AllDated ∧ OnlyIdleReaped s)
        (fun _ _ _ hs hcovered hstep =>
          ⟨hs.1.step hstep, onlyIdleReaped_step hs.1 hs.2 hcovered hstep⟩)
        actions {} final ⟨hstart, nofun⟩ hguarded hrun
    exact hholds.2

end Run

/-- A response goes out at once, and the connection is silent for 31 seconds. -/
def silentClient : List IdleAction :=
  [.accept, .receive 0 [71], .queue 0 [72, 84], .flush 0 [.accepted 1],
    .tick 31000000000, .checkIdleTimeouts, .test]

theorem silentClient_reaped :
    ∃ s, run IdleState.step {} silentClient = some s ∧ s.selections ≠ [] ∧
      OnlyIdleReaped s := by
  obtain ⟨s, hrun, hselected⟩ := @exists_reached _ _ IdleState.step {} silentClient
    (fun s => s.selections ≠ []) _ (by decide +kernel)
  exact ⟨s, hrun, hselected, (onlyIdleReaped_iff hrun).mpr (by decide +kernel)⟩

/-- A response goes out in two parts, 20 seconds apart, and ten seconds after the second
part the sweep runs. -/
def slowClient : List IdleAction :=
  [.accept, .queue 0 [72, 84], .flush 0 [.accepted 0, .wouldBlock], .tick 20000000000,
    .flush 0 [.accepted 0], .tick 10000000000, .checkIdleTimeouts, .test]

theorem slowClient_reaped :
    ∃ s, run IdleState.step {} slowClient = some s ∧ ¬ OnlyIdleReaped s :=
  exists_reached (by decide +kernel)

end HttpServer
