/-
The asynchronous logger.  Callers test `running` without the lock and push
under it; a worker writes one entry at a time; stopping is a locked section, a
join and the closing of the file.  What is written is what was pushed, in that
order, and a stop leaves out only calls that it has overtaken.
-/
import HttpServer.GuardedRun
import HttpServer.JsonLog

namespace HttpServer

open ByteText GuardedRun

namespace Logger

def format (localtime : Nat → Tm) (format : LogFormat) (entry : LogEntry) : Bytes :=
  match format with
  | .json => formatJson entry
  | .text => formatText localtime entry

/-- Where the worker thread is; `absent` is a thread object that cannot be
joined. -/
inductive Worker where
  | absent
  | waiting
  | writing (entry : LogEntry)
  | finished
deriving DecidableEq

/-- Where the call of `stop` is that has found the logger running. -/
inductive StopCall where
  | none
  | joining
  | closing
deriving Repr, DecidableEq

structure State where
  format : LogFormat := .text
  running : Bool := false
  queue : List LogEntry := []
  worker : Worker := .absent
  stopCall : StopCall := .none
  fileOpen : Bool := false
  /-- The file is opened for appending, so a run begins with what it held before. -/
  file : Bytes := []
  console : Bytes := []
  /-- Calls that have found the logger running and are about to push. -/
  calls : List LogEntry := []
  /-- Everything pushed so far. -/
  pushed : List LogEntry := []
  /-- Everything written so far, with the format it was written in. -/
  written : List (LogFormat × LogEntry) := []
  /-- `pushed` and `calls` when a stop last turned `running` off. -/
  pushedAtStop : List LogEntry := []
  callsAtStop : List LogEntry := []
deriving DecidableEq

/-- The entry that has left the queue and is not yet written. -/
def State.inHand (s : State) : List LogEntry :=
  match s.worker with
  | .writing entry => [entry]
  | _ => []

inductive Action where
  /-- `init`, and whether the file could be opened. -/
  | init (format : LogFormat) (opened : Bool)
  /-- A call up to the test of `running`. -/
  | call (entry : LogEntry)
  /-- The locked section of one of these calls. -/
  | push (caller : Nat)
  /-- The worker's locked section, its wait predicate being true. -/
  | take
  /-- Formatting and output. -/
  | write
  /-- The locked section of `stop`. -/
  | stop
  | join
  | close

/-- `none` where a thread waits.  An `init` that meets a stop in progress is left
out: it would assign to a thread that can still be joined. -/
def step (localtime : Nat → Tm) (s : State) : Action → Option State
  | .init format opened =>
      if s.running then some s
      else if s.worker = .absent ∧ s.stopCall = .none then
        some { s with format, fileOpen := opened, running := true, worker := .waiting }
      else none
  | .call entry => some (if s.running then { s with calls := s.calls ++ [entry] } else s)
  | .push caller =>
      match s.calls[caller]? with
      | none => none
      | some entry =>
          some { s with
            calls := s.calls.eraseIdx caller
            queue := s.queue ++ [entry]
            pushed := s.pushed ++ [entry] }
  | .take =>
      if s.worker = .waiting then
        match s.queue with
        | entry :: queue => some { s with queue, worker := .writing entry }
        | [] => if s.running then none else some { s with worker := .finished }
      else none
  | .write =>
      match s.worker with
      | .writing entry =>
          let line := format localtime s.format entry ++ [lf]
          some { s with
            worker := .waiting
            console := s.console ++ line
            file := if s.fileOpen then s.file ++ line else s.file
            written := s.written ++ [(s.format, entry)] }
      | _ => none
  | .stop =>
      some (if s.running then
        { s with
          running := false
          stopCall := .joining
          pushedAtStop := s.pushed
          callsAtStop := s.calls }
      else s)
  | .join =>
      if s.stopCall = .joining ∧ s.worker = .finished then
        some { s with stopCall := .closing, worker := .absent }
      else none
  | .close =>
      if s.stopCall = .closing then some { s with stopCall := .none, fileOpen := false }
      else none

/-- What a step does where it is possible. -/
inductive Steps (localtime : Nat → Tm) (s : State) : Action → State → Prop
  | stays {action : Action} (hstop : action = .stop → s.running = false) :
      Steps localtime s action s
  | init {format : LogFormat} {opened : Bool} (hstopped : s.running = false)
      (habsent : s.worker = .absent) (hidle : s.stopCall = .none) :
      Steps localtime s (.init format opened)
        { s with format, fileOpen := opened, running := true, worker := .waiting }
  | call {entry : LogEntry} (hrunning : s.running = true) :
      Steps localtime s (.call entry) { s with calls := s.calls ++ [entry] }
  | push {caller : Nat} {entry : LogEntry} (hcaller : s.calls[caller]? = some entry) :
      Steps localtime s (.push caller)
        { s with
          calls := s.calls.eraseIdx caller
          queue := s.queue ++ [entry]
          pushed := s.pushed ++ [entry] }
  | take {entry : LogEntry} {queue : List LogEntry} (hwaiting : s.worker = .waiting)
      (hqueue : s.queue = entry :: queue) :
      Steps localtime s .take { s with queue, worker := .writing entry }
  | finish (hwaiting : s.worker = .waiting) (hqueue : s.queue = [])
      (hstopped : s.running = false) :
      Steps localtime s .take { s with worker := .finished }
  | write {entry : LogEntry} (hwriting : s.worker = .writing entry) :
      Steps localtime s .write
        { s with
          worker := .waiting
          console := s.console ++ (Logger.format localtime s.format entry ++ [lf])
          file := if s.fileOpen then s.file ++ (Logger.format localtime s.format entry ++ [lf])
            else s.file
          written := s.written ++ [(s.format, entry)] }
  | stop (hrunning : s.running = true) :
      Steps localtime s .stop
        { s with
          running := false
          stopCall := .joining
          pushedAtStop := s.pushed
          callsAtStop := s.calls }
  | join (hjoining : s.stopCall = .joining) (hfinished : s.worker = .finished) :
      Steps localtime s .join { s with stopCall := .closing, worker := .absent }
  | close (hclosing : s.stopCall = .closing) :
      Steps localtime s .close { s with stopCall := .none, fileOpen := false }

theorem steps_of_step {localtime : Nat → Tm} {s s' : State} {action : Action}
    (hstep : step localtime s action = some s') : Steps localtime s action s' := by
  cases action with
  | init format opened =>
      simp only [step] at hstep
      split at hstep
      · obtain rfl := Option.some.inj hstep
        exact Steps.stays nofun
      · next hstopped =>
          split at hstep
          · next hfree =>
              obtain rfl := Option.some.inj hstep
              exact Steps.init (Bool.eq_false_iff.mpr hstopped) hfree.1 hfree.2
          · contradiction
  | call entry =>
      simp only [step] at hstep
      obtain rfl := Option.some.inj hstep
      split
      · next hrunning => exact Steps.call hrunning
      · exact Steps.stays nofun
  | push caller =>
      simp only [step] at hstep
      split at hstep
      · contradiction
      · next entry hcaller =>
          obtain rfl := Option.some.inj hstep
          exact Steps.push hcaller
  | take =>
      simp only [step] at hstep
      split at hstep
      · next hwaiting =>
          split at hstep
          · next entry queue hqueue =>
              obtain rfl := Option.some.inj hstep
              exact Steps.take hwaiting hqueue
          · next hqueue =>
              split at hstep
              · contradiction
              · next hstopped =>
                  obtain rfl := Option.some.inj hstep
                  exact Steps.finish hwaiting hqueue (Bool.eq_false_iff.mpr hstopped)
      · contradiction
  | write =>
      simp only [step] at hstep
      split at hstep
      · next entry hwriting =>
          obtain rfl := Option.some.inj hstep
          exact Steps.write hwriting
      · contradiction
  | stop =>
      simp only [step] at hstep
      obtain rfl := Option.some.inj hstep
      split
      · next hrunning => exact Steps.stop hrunning
      · next hstopped => exact Steps.stays fun _ => Bool.eq_false_iff.mpr hstopped
  | join =>
      simp only [step] at hstep
      split at hstep
      · next hready =>
          obtain rfl := Option.some.inj hstep
          exact Steps.join hready.1 hready.2
      · contradiction
  | close =>
      simp only [step] at hstep
      split at hstep
      · next hclosing =>
          obtain rfl := Option.some.inj hstep
          exact Steps.close hclosing
      · contradiction

/-- Which thread may be where. -/
structure Phases (s : State) : Prop where
  running : s.running = true → s.stopCall = .none ∧ s.worker ≠ .absent ∧ s.worker ≠ .finished
  finished : s.worker = .finished → s.stopCall = .joining
  joining : s.stopCall = .joining → s.running = false ∧ s.worker ≠ .absent
  closing : s.stopCall = .closing → s.running = false ∧ s.worker = .absent
  stopped : s.running = false → s.stopCall = .none → s.worker = .absent

theorem Phases.start (earlier : Bytes) : Phases { file := earlier } := by
  constructor <;> simp

theorem Phases.step {localtime : Nat → Tm} {s s' : State} {action : Action}
    (hphases : Phases s) (hstep : Logger.step localtime s action = some s') : Phases s' := by
  have hrunning := hphases.running
  have hfinished := hphases.finished
  have hjoining := hphases.joining
  have hclosing := hphases.closing
  have hstopped := hphases.stopped
  cases steps_of_step hstep with
  | stays _ => exact hphases
  | init _ _ _ => constructor <;> simp_all
  | call _ => exact ⟨hrunning, hfinished, hjoining, hclosing, hstopped⟩
  | push _ => exact ⟨hrunning, hfinished, hjoining, hclosing, hstopped⟩
  | take hwaiting _ => constructor <;> simp_all
  | finish hwaiting _ hoff =>
      have hcall : s.stopCall = .joining := by
        cases hcall : s.stopCall with
        | joining => rfl
        | none => simp [hstopped hoff hcall] at hwaiting
        | closing => simp [(hclosing hcall).2] at hwaiting
      exact ⟨by simp [hoff], fun _ => hcall, fun _ => ⟨hoff, by simp⟩, by simp [hcall],
        by simp [hcall]⟩
  | write hwriting => constructor <;> simp_all
  | stop _ => constructor <;> simp_all
  | join _ _ => constructor <;> simp_all
  | close _ => constructor <;> simp_all

/-- The account of what was pushed. -/
structure Sound (localtime : Nat → Tm) (s : State) : Prop where
  phases : Phases s
  order : s.written.map Prod.snd ++ (s.inHand ++ s.queue) = s.pushed
  console : s.console = s.written.flatMap fun w => Logger.format localtime w.1 w.2 ++ [lf]
  overtaken : s.running = false → ∃ late,
    s.pushed = s.pushedAtStop ++ late ∧ (late ++ s.calls).Perm s.callsAtStop
  drained : s.worker = .finished ∨ s.worker = .absent →
    s.running = false → s.pushedAtStop <+: s.written.map Prod.snd

variable {localtime : Nat → Tm} {s s' : State}

theorem Sound.start (earlier : Bytes) : Sound localtime { file := earlier } where
  phases := Phases.start earlier
  order := rfl
  console := rfl
  overtaken := fun _ => ⟨[], rfl, List.Perm.refl _⟩
  drained := fun _ _ => List.nil_prefix

/-- A push moves one of the calls in flight behind the entries already pushed. -/
theorem overtaken_push {caller : Nat} {entry : LogEntry} {late calls atStop : List LogEntry}
    (hcaller : calls[caller]? = some entry) (hperm : (late ++ calls).Perm atStop) :
    (late ++ [entry] ++ calls.eraseIdx caller).Perm atStop := by
  obtain ⟨hbound, rfl⟩ := List.getElem?_eq_some_iff.mp hcaller
  have hmoved := List.getElem_cons_eraseIdx_perm hbound
  rw [List.append_assoc, List.singleton_append]
  exact (List.Perm.append_left late hmoved).trans hperm

theorem Sound.step (hsound : Sound localtime s) {action : Action}
    (hstep : Logger.step localtime s action = some s') : Sound localtime s' := by
  have hphases := hsound.phases.step hstep
  obtain ⟨hbefore, horder, hconsole, hovertaken, hdrained⟩ := hsound
  cases steps_of_step hstep with
  | stays _ => exact ⟨hbefore, horder, hconsole, hovertaken, hdrained⟩
  | init hoff habsent _ =>
      refine ⟨hphases, ?_, hconsole, by simp, by simp⟩
      simpa [State.inHand, habsent] using horder
  | call hrunning =>
      exact ⟨hphases, horder, hconsole, by simp [hrunning], by simp [hrunning]⟩
  | push hcaller =>
      refine ⟨hphases, ?_, hconsole, ?_, hdrained⟩
      · rw [← horder]
        simp [State.inHand]
      · intro hoff
        obtain ⟨late, hpushed, hperm⟩ := hovertaken hoff
        exact ⟨late ++ [_], by simp [hpushed], overtaken_push hcaller hperm⟩
  | take hwaiting hqueue =>
      refine ⟨hphases, ?_, hconsole, hovertaken, by simp⟩
      simpa [State.inHand, hwaiting, hqueue] using horder
  | finish hwaiting hqueue hoff =>
      have hall : s.written.map Prod.snd = s.pushed := by
        simpa [State.inHand, hwaiting, hqueue] using horder
      refine ⟨hphases, ?_, hconsole, hovertaken, fun _ _ => ?_⟩
      · simpa [State.inHand, hqueue] using hall
      · obtain ⟨late, hpushed, _⟩ := hovertaken hoff
        exact ⟨late, by rw [hall, hpushed]⟩
  | write hwriting =>
      refine ⟨hphases, ?_, ?_, hovertaken, by simp⟩
      · simpa [State.inHand, hwriting] using horder
      · simp [hconsole]
  | stop hrunning =>
      have hbusy := (hbefore.running hrunning).2
      refine ⟨hphases, horder, hconsole, fun _ => ⟨[], by simp, List.Perm.refl _⟩, ?_⟩
      rintro (hfinished | habsent)
      · exact absurd hfinished hbusy.2
      · exact absurd habsent hbusy.1
  | join hjoining hfinished =>
      refine ⟨hphases, ?_, hconsole, hovertaken, fun _ => hdrained (Or.inl hfinished)⟩
      simpa [State.inHand, hfinished] using horder
  | close _ => exact ⟨hphases, horder, hconsole, hovertaken, hdrained⟩

/-- What the logger guarantees to its callers: nothing is lost, doubled or
reordered on the way to the console; once `stop` has returned the worker is gone,
everything pushed before its locked section has been written, and what has not is
from calls that were then between their test of `running` and the lock. -/
structure Delivers (localtime : Nat → Tm) (s : State) : Prop where
  order : s.written.map Prod.snd ++ (s.inHand ++ s.queue) = s.pushed
  console : s.console = s.written.flatMap fun w => Logger.format localtime w.1 w.2 ++ [lf]
  stopped : s.running = false → s.stopCall = .none →
    s.worker = .absent ∧ s.pushedAtStop <+: s.written.map Prod.snd ∧
      (s.queue ++ s.calls).Subperm s.callsAtStop

theorem Sound.delivers (hsound : Sound localtime s) : Delivers localtime s where
  order := hsound.order
  console := hsound.console
  stopped := by
    intro hoff hidle
    have habsent := hsound.phases.stopped hoff hidle
    have hwritten := hsound.drained (Or.inr habsent) hoff
    obtain ⟨late, hpushed, hperm⟩ := hsound.overtaken hoff
    have horder := hsound.order
    obtain ⟨rest, hrest⟩ := hwritten
    refine ⟨habsent, ⟨rest, hrest⟩, ?_⟩
    simp only [State.inHand, habsent, List.nil_append, hpushed, ← hrest, List.append_assoc,
      List.append_cancel_left_eq] at horder
    rw [← horder, List.append_assoc] at hperm
    exact (List.sublist_append_right rest _).subperm.trans hperm.subperm

/-- In every interleaving of the callers, the worker and the stops. -/
theorem log_delivered {actions : List Action}
    (hrun : run (Logger.step localtime) {} actions = some s) : Delivers localtime s :=
  (run_invariant (fun _ _ _ hsound hstep => Sound.step hsound hstep) (Sound.start [])
    hrun).delivers

/-- Two calls pass the test; the stop overtakes one of them, which pushes when the
worker has already gone. -/
def overtakenCall : List Action :=
  [.init .text true, .call (log .info (-1) (ascii "b") 1 0), .call (log .warn 4 (ascii "a") 2 0),
    .push 1, .take, .stop, .write, .take, .push 0, .join, .close,
    .call (log .info (-1) (ascii "c") 1 0)]

theorem log_delivered_overtaken :
    ∃ s, run (Logger.step gmtime) {} overtakenCall = some s ∧ s.running = false ∧
      s.stopCall = .none ∧ s.written.length = 1 ∧ s.queue.length = 1 ∧ Delivers gmtime s := by
  obtain ⟨s, hrun, hoff, hidle, hwritten, hqueue⟩ :=
    @exists_reached _ _ (Logger.step gmtime) {} overtakenCall
      (fun s => s.running = false ∧ s.stopCall = .none ∧ s.written.length = 1 ∧
        s.queue.length = 1) _ (by decide +kernel)
  exact ⟨s, hrun, hoff, hidle, hwritten, hqueue, log_delivered hrun⟩

section JsonFile

/-- The logger is started with the JSON format, and its file can be opened. -/
def opensJson (_ : State) : Action → Prop
  | .init format opened => format = .json ∧ opened = true
  | _ => True

instance (s : State) (action : Action) : Decidable (opensJson s action) :=
  match action with
  | .init format opened => inferInstanceAs (Decidable (format = .json ∧ opened = true))
  | .call _ | .push _ | .take | .write | .stop | .join | .close => isTrue trivial

/-- While there is a worker it has an open file to write to, behind what was there. -/
structure FileKept (earlier : Bytes) (s : State) : Prop where
  phases : Phases s
  attached : s.worker ≠ .absent → s.format = .json ∧ s.fileOpen = true
  file : s.file = earlier ++ ((s.written.map Prod.snd).map formatJson).flatMap (· ++ [lf])

variable {earlier : Bytes}

theorem FileKept.start : FileKept earlier { file := earlier } where
  phases := Phases.start earlier
  attached := by simp
  file := (List.append_nil earlier).symm

theorem FileKept.step (hkept : FileKept earlier s) {action : Action}
    (hguard : opensJson s action) (hstep : Logger.step localtime s action = some s') :
    FileKept earlier s' := by
  have hphases := hkept.phases.step hstep
  obtain ⟨hbefore, hattached, hfile⟩ := hkept
  cases steps_of_step hstep with
  | stays _ => exact ⟨hbefore, hattached, hfile⟩
  | init _ _ _ => exact ⟨hphases, fun _ => hguard, hfile⟩
  | call _ => exact ⟨hphases, hattached, hfile⟩
  | push _ => exact ⟨hphases, hattached, hfile⟩
  | take hwaiting _ => exact ⟨hphases, fun _ => hattached (by simp [hwaiting]), hfile⟩
  | finish hwaiting _ _ => exact ⟨hphases, fun _ => hattached (by simp [hwaiting]), hfile⟩
  | write hwriting =>
      obtain ⟨hjson, hopen⟩ := hattached (by simp [hwriting])
      refine ⟨hphases, fun _ => ⟨hjson, hopen⟩, ?_⟩
      simp only [hopen, ↓reduceIte, hjson, Logger.format, hfile, List.map_append,
        List.map_cons, List.map_nil, List.flatMap_append, List.flatMap_cons, List.flatMap_nil,
        List.append_nil, List.append_assoc]
  | stop _ => exact ⟨hphases, hattached, hfile⟩
  | join _ _ => exact ⟨hphases, by simp, hfile⟩
  | close hclosing =>
      have habsent := (hbefore.closing hclosing).2
      exact ⟨hphases, fun halive => absurd habsent halive, hfile⟩

/-- The lines of the log file are those it had before and the records of a prefix of
what was pushed: no text of a request adds, splits or joins a line. -/
structure FileInLines (earlier : Bytes) (s : State) : Prop where
  lines : s.file.splitOn lf =
    (earlier.splitOn lf).dropLast ++ ((s.written.map Prod.snd).map formatJson ++ [[]])
  prefixed : s.written.map Prod.snd <+: s.pushed

theorem jsonFile_in_lines (hearlier : earlier = [] ∨ earlier.getLast? = some lf)
    {actions : List Action}
    (hguard : Guarded (Logger.step localtime) opensJson { file := earlier } actions)
    (hrun : run (Logger.step localtime) { file := earlier } actions = some s) :
    FileInLines earlier s := by
  have hkept := invariant (fun _ _ _ hkept hmeets hstep => FileKept.step hkept hmeets hstep)
    FileKept.start hguard hrun
  have hsound := run_invariant (fun _ _ _ hsound hstep => Sound.step hsound hstep)
    (Sound.start earlier) hrun
  constructor
  · rw [hkept.file]
    apply splitOn_appended hearlier
    intro line hline
    obtain ⟨entry, _, rfl⟩ := List.mem_map.mp hline
    exact lf_not_mem_formatJson entry
  · exact ⟨_, hsound.order⟩

/-- A request for a path with a line feed in it, logged behind an earlier record. -/
def lineFeedLogged : List Action :=
  [.init .json true,
    .call (HttpLogGuard.entry 5 ⟨.get, [47, 10, 47], 404⟩ (.finite false 5 (-2)) 1 0), .push 0,
    .take, .write]

theorem jsonFile_in_lines_lineFeed :
    ∃ s, run (Logger.step gmtime) { file := ascii "old\n" } lineFeedLogged = some s ∧
      s.written.length = 1 ∧ FileInLines (ascii "old\n") s := by
  obtain ⟨s, hrun, hwritten⟩ := @exists_reached _ _ (Logger.step gmtime)
    { file := ascii "old\n" } lineFeedLogged (fun s => s.written.length = 1) _
    (by decide +kernel)
  exact ⟨s, hrun, hwritten, jsonFile_in_lines (Or.inr (by decide)) (by decide) hrun⟩

end JsonFile

end Logger

end HttpServer
