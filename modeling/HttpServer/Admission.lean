/-
All connections of the event loop at once: acceptance, removal, the idle sweep
and the final cleanup, as the epoll thread and the worker threads run them.
Every access to a shared store (counter, per-address counts, connection map,
epoll, descriptor table) is one step, and every order of steps is a run.
-/
import HttpServer.ClientTasks
import HttpServer.GuardedRun
import HttpServer.HttpHeaders

namespace HttpServer

@[irreducible] def maxTotalConnections : Nat := 10000

def maxEvents : Nat := 256

/-- `fetch_add(1)` on a `size_t`. -/
def fetchAdd (count : Nat) : Nat := (count + 1) % sizeBound

/-- `fetch_sub(1)` on a `size_t`, which wraps below zero. -/
def fetchSub (count : Nat) : Nat := if count = 0 then sizeBound - 1 else count - 1

/-- `max_per_ip_`, as the event loop configures it. -/
def maxPerIp : ℤ := 100

namespace PerIpConnectionLimiter

def tryAcquire (counts : Bytes → Option ℤ) (ip : Bytes) : (Bytes → Option ℤ) × Bool :=
  let count := (counts ip).getD 0
  if maxPerIp ≤ count then (Function.update counts ip (some count), false)
  else (Function.update counts ip (some (count + 1)), true)

def release (counts : Bytes → Option ℤ) (ip : Bytes) : Bytes → Option ℤ :=
  match counts ip with
  | none => counts
  | some count =>
      if count - 1 ≤ 0 then Function.update counts ip none
      else Function.update counts ip (some (count - 1))

end PerIpConnectionLimiter

/-- A `Connection` object as the event loop handles it.  Objects that were given
the same descriptor number are told apart by `id`. -/
structure ConnRef where
  id : Nat
  fd : Nat
  ip : Bytes
deriving DecidableEq

/-- A descriptor number, with the object it was taken from. -/
structure Target where
  fd : Nat
  meant : Nat
deriving DecidableEq

def ConnRef.target (conn : ConnRef) : Target := { fd := conn.fd, meant := conn.id }

/-- What happens to client descriptors. -/
inductive FdEvent
  | accepted (fd id : Nat)
  | closed (fd : Nat)
  | used (fd id : Nat)
deriving DecidableEq

/-- The descriptor table after a history, latest event first. -/
def ownerOf : List FdEvent → Nat → Option Nat
  | [], _ => none
  | .accepted other id :: earlier, fd => if other = fd then some id else ownerOf earlier fd
  | .closed other :: earlier, fd => if other = fd then none else ownerOf earlier fd
  | .used _ _ :: earlier, fd => ownerOf earlier fd

/-- An undispatched event of the fetched batch. -/
inductive Fetched
  | listener
  | hangUp (target : Target)
  | readable (target : Target)
  | writable (target : Target)
deriving DecidableEq

def Fetched.target? : Fetched → Option Target
  | listener => none
  | hangUp target | readable target | writable target => some target

/-- A read or write lambda, queued or running. -/
structure WorkerTask where
  conn : ConnRef
  reading : Bool
deriving DecidableEq

/-- Where an execution of `remove_connection` or `handle_accept` is. -/
inductive Pc
  | removing (target : Target)
  | releasing
  | subtracting
  | unregistering
  | loading
  | accepting
  | acquiring (conn : ConnRef)
  | rejecting (conn : ConnRef)
  | inserting (conn : ConnRef)
  | adding (conn : ConnRef)
  | counting (conn : ConnRef)
  | undoRelease (conn : ConnRef)
  | undoErase (conn : ConnRef)
  | undoClose (conn : ConnRef)
  | dropping (conn : ConnRef)
  | done
deriving DecidableEq

namespace Pc

/-- The `conn` of `handle_accept`. -/
@[simp] def conn? : Pc → Option ConnRef
  | inserting conn | adding conn | counting conn | undoRelease conn | undoErase conn
  | undoClose conn | dropping conn => some conn
  | _ => none

end Pc

/-- An execution: the connection captured by the lambda that runs it (none on the
epoll thread), the `conn` of `remove_connection` and the place it has reached. -/
structure Exec where
  task : Option ConnRef := none
  removed : Option ConnRef := none
  pc : Pc
deriving DecidableEq

/-- The objects an execution keeps alive. -/
def Exec.held (e : Exec) : List ConnRef :=
  e.task.toList ++ e.removed.toList ++ e.pc.conn?.toList

/-- `acts` pairs the object a call was meant for with the one it found. -/
structure ServerState where
  loop : LoopState := .running
  listening : Bool := true
  epollOpen : Bool := true
  backlog : Nat := 0
  edge : Bool := false
  fetched : List Fetched := []
  idle : List Target := []
  connections : List ConnRef := []
  registered : List ConnRef := []
  activeConnections : Nat := 0
  counts : Bytes → Option ℤ := fun _ => none
  tasks : List WorkerTask := []
  resubmitted : List Target := []
  execs : List Exec := []
  nextId : Nat := 0
  history : List FdEvent := []
  acts : List (Nat × Nat) := []

/-- What the kernel answers to a step. -/
inductive Outcome
  | proceed
  | client (fd : Nat) (ip : Bytes)
  | transient (aborted : Bool)
  | wouldBlock
  | fatal
  | added
  | addFailed
deriving DecidableEq

inductive ServerAction
  | arrive
  | fetch (batch : List Fetched)
  | dispatch
  | collectIdle (targets : List Target)
  | removeIdle
  | use (task : WorkerTask)
  | finish (task : WorkerTask)
  | remove (task : WorkerTask)
  | resubmit (task : WorkerTask)
  | runResubmitted (target : Target)
  | advance (e : Exec) (outcome : Outcome)
  | stop
  | closeListener
  | finishStopping
  | cleanup
deriving DecidableEq

namespace ServerState

/-- `connections.find(fd)`. -/
def find (s : ServerState) (fd : Nat) : Option ConnRef :=
  s.connections.find? fun conn => conn.fd == fd

def others (s : ServerState) (fd : Nat) : List ConnRef :=
  s.connections.filter fun conn => conn.fd ≠ fd

/-- The objects that somebody holds a `shared_ptr` to. -/
def held (s : ServerState) : List ConnRef :=
  s.connections ++ s.tasks.map WorkerTask.conn ++ s.execs.flatMap Exec.held

def referenced (s : ServerState) (id : Nat) : Bool :=
  s.held.any fun conn => conn.id == id

/-- `close` of a number, which also takes it out of epoll. -/
def closeFd (s : ServerState) (fd : Option Nat) : ServerState :=
  { s with
    history := (fd.map FdEvent.closed).toList ++ s.history
    registered := s.registered.filter fun conn => fd ≠ some conn.fd }

/-- The number that the destructor closes when a reference has been dropped. -/
def dropped (s : ServerState) (conn : Option ConnRef) : Option Nat :=
  (conn.filter fun c => !s.referenced c.id).map ConnRef.fd

/-- A `shared_ptr` goes out of scope. -/
def drop (s : ServerState) (conn : Option ConnRef) : ServerState := s.closeFd (s.dropped conn)

/-- The execution moves on. -/
def goTo (s : ServerState) (e : Exec) (pc : Pc) : ServerState :=
  { s with execs := { e with pc := pc } :: s.execs.erase e }

/-- An execution of the epoll thread is under way. -/
def busy (s : ServerState) : Bool := s.execs.any fun e => e.task.isNone

/-- The epoll thread is at the top of its loop. -/
def waiting (s : ServerState) : Bool :=
  s.epollOpen && !s.busy && s.fetched.isEmpty && s.idle.isEmpty

section HandleAccept

/-- `handle_accept` returns, and with it a `remove_connection` that called it. -/
def leaveAccept (s : ServerState) (e : Exec) : ServerState :=
  ({ s with execs := { e with removed := none, pc := .done } :: s.execs.erase e }).drop
    e.removed

/-- The loop condition and the capacity check. -/
def loadCounter (s : ServerState) (e : Exec) : ServerState :=
  if s.loop = .running ∧ s.activeConnections < maxTotalConnections then
    s.goTo e .accepting
  else s.leaveAccept e

def acceptClient (s : ServerState) (e : Exec) (fd : Nat) (ip : Bytes) : ServerState :=
  { s.goTo e (.acquiring { id := s.nextId, fd := fd, ip := ip }) with
    backlog := s.backlog - 1
    nextId := s.nextId + 1
    history := .accepted fd s.nextId :: s.history }

/-- A transient error; an aborted client leaves the backlog. -/
def retryAccept (s : ServerState) (e : Exec) (aborted : Bool) : ServerState :=
  { s.goTo e .loading with backlog := s.backlog - aborted.toNat }

def acquire (s : ServerState) (e : Exec) (conn : ConnRef) : ServerState :=
  let acquired := PerIpConnectionLimiter.tryAcquire s.counts conn.ip
  { s.goTo e (if acquired.2 then .inserting conn else .rejecting conn) with
    counts := acquired.1 }

def reject (s : ServerState) (e : Exec) (conn : ConnRef) : ServerState :=
  (s.goTo e .loading).closeFd (some conn.fd)

/-- `connections[client_fd] = conn`, which drops what the key had before. -/
def insert (s : ServerState) (e : Exec) (conn : ConnRef) : ServerState :=
  ({ s.goTo e (.adding conn) with connections := conn :: s.others conn.fd }).drop
    (s.find conn.fd)

def registerClient (s : ServerState) (e : Exec) (conn : ConnRef) : ServerState :=
  { s.goTo e (.counting conn) with registered := conn :: s.registered }

def countClient (s : ServerState) (e : Exec) (conn : ConnRef) : ServerState :=
  { s.goTo e (.dropping conn) with
    activeConnections := fetchAdd s.activeConnections }

/-- The roll back of a failed registration: release, erase, close, and then the
`conn` of the loop body goes out of scope. -/
def undoRelease (s : ServerState) (e : Exec) (conn : ConnRef) : ServerState :=
  { s.goTo e (.undoErase conn) with
    counts := PerIpConnectionLimiter.release s.counts conn.ip }

def undoErase (s : ServerState) (e : Exec) (conn : ConnRef) : ServerState :=
  ({ s.goTo e (.undoClose conn) with connections := s.others conn.fd }).drop
    (s.find conn.fd)

def undoClose (s : ServerState) (e : Exec) (conn : ConnRef) : ServerState :=
  (s.goTo e (.dropping conn)).closeFd (some conn.fd)

def dropLocal (s : ServerState) (e : Exec) (conn : ConnRef) : ServerState :=
  (s.goTo e .loading).drop (some conn)

end HandleAccept

section RemoveConnection

/-- The lookup and the erasure, under the map's mutex. -/
def findAndErase (s : ServerState) (e : Exec) (target : Target) : ServerState :=
  match s.find target.fd with
  | none => s.goTo e .done
  | some conn =>
      { s with
        connections := s.others target.fd
        execs := { e with removed := some conn, pc := .releasing } :: s.execs.erase e
        acts := (target.meant, conn.id) :: s.acts }

def releaseAddress (s : ServerState) (e : Exec) (conn : ConnRef) : ServerState :=
  { s.goTo e .subtracting with
    counts := PerIpConnectionLimiter.release s.counts conn.ip }

def subtractClient (s : ServerState) (e : Exec) : ServerState :=
  { s.goTo e .unregistering with
    activeConnections := fetchSub s.activeConnections }

/-- `EPOLL_CTL_DEL`, and the call of `handle_accept` while the loop runs. -/
def unregister (s : ServerState) (e : Exec) (conn : ConnRef) : ServerState :=
  let deleted : ServerState :=
    { s with
      registered := if s.epollOpen then s.registered.filter fun c => c.fd ≠ conn.fd
        else s.registered
      history := if s.epollOpen then
          (e.task.map fun c => FdEvent.used c.fd c.id).toList ++ s.history
        else s.history }
  if s.loop = .running ∧ s.listening = true then deleted.goTo e .loading
  else deleted.leaveAccept e

end RemoveConnection

/-- The next step of an execution, where the outcome fits. -/
def advance (s : ServerState) (e : Exec) : Outcome → Option ServerState
  | .proceed =>
      match e.pc, e.removed with
      | .removing target, _ => some (s.findAndErase e target)
      | .releasing, some conn => some (s.releaseAddress e conn)
      | .subtracting, some _ => some (s.subtractClient e)
      | .unregistering, some conn => some (s.unregister e conn)
      | .loading, _ => some (s.loadCounter e)
      | .acquiring conn, _ => some (s.acquire e conn)
      | .rejecting conn, _ => some (s.reject e conn)
      | .inserting conn, _ => some (s.insert e conn)
      | .counting conn, _ => some (s.countClient e conn)
      | .undoRelease conn, _ => some (s.undoRelease e conn)
      | .undoErase conn, _ => some (s.undoErase e conn)
      | .undoClose conn, _ => some (s.undoClose e conn)
      | .dropping conn, _ => some (s.dropLocal e conn)
      | .done, _ => some (({ s with execs := s.execs.erase e }).drop e.task)
      | _, _ => none
  | .client fd ip =>
      -- the kernel hands out a number that is not open
      if e.pc = .accepting ∧ s.listening = true ∧ 0 < s.backlog ∧ ownerOf s.history fd = none
      then some (s.acceptClient e fd ip)
      else none
  | .transient aborted =>
      if e.pc = .accepting ∧ aborted.toNat ≤ s.backlog then some (s.retryAccept e aborted)
      else none
  | .wouldBlock =>
      if e.pc = .accepting ∧ s.backlog = 0 then some (s.leaveAccept e) else none
  | .fatal => if e.pc = .accepting then some (s.leaveAccept e) else none
  | .added =>
      match e.pc with
      | .adding conn => if s.epollOpen then some (s.registerClient e conn) else none
      | _ => none
  | .addFailed =>
      match e.pc with
      | .adding conn => some (s.goTo e (.undoRelease conn))
      | _ => none

/-- `handle_client_read`: look the number up and submit a read lambda. -/
def handleClientRead (s : ServerState) (target : Target) : ServerState :=
  let found := if s.loop = .running then s.find target.fd else none
  { s with
    tasks := (found.map fun conn => { conn := conn, reading := true }).toList ++ s.tasks
    acts := (found.map fun conn => (target.meant, conn.id)).toList ++ s.acts }

def handleClientWrite (s : ServerState) (target : Target) : ServerState :=
  { s with
    tasks := ((s.find target.fd).map fun conn => { conn := conn, reading := false }).toList ++
      s.tasks }

/-- One event of the batch, on the epoll thread. -/
def dispatch (s : ServerState) : Fetched → ServerState
  | .listener =>
      if s.loop = .running then { s with execs := { pc := .loading } :: s.execs } else s
  | .hangUp target => { s with execs := { pc := .removing target } :: s.execs }
  | .readable target => s.handleClientRead target
  | .writable target => s.handleClientWrite target

/-- Release, subtract and close every entry of the map, then destroy the map.
The fields are updated independently of each other. -/
def cleanupAllConnections (s : ServerState) : ServerState :=
  let cleared : ServerState := { s with connections := [] }
  { cleared with
    counts := s.connections.foldl
      (fun counts conn => PerIpConnectionLimiter.release counts conn.ip) s.counts
    activeConnections := s.connections.foldl (fun count _ => fetchSub count)
      s.activeConnections
    history :=
      ((s.connections.filter fun conn => !cleared.referenced conn.id).map
        fun conn => FdEvent.closed conn.fd).reverse ++
      (s.connections.map fun conn => FdEvent.closed conn.fd).reverse ++ s.history
    registered := []
    epollOpen := false }

/-- `epoll_wait` reports the edge of the listening socket and registered clients. -/
def reports (s : ServerState) : Fetched → Bool
  | .listener => s.edge
  | .hangUp target | .readable target | .writable target =>
      s.registered.any fun conn => conn.target == target

/-- One step of the event loop and its workers, where it is possible. -/
def step (s : ServerState) : ServerAction → Option ServerState
  | .arrive =>
      if s.listening then some { s with backlog := s.backlog + 1, edge := true } else none
  | .fetch batch =>
      -- an event that is readable and writable takes two entries
      if s.waiting ∧ s.loop ≠ .stopped ∧ batch.length ≤ 2 * maxEvents ∧ batch.all s.reports then
        some { s with fetched := batch, edge := s.edge && !batch.contains .listener }
      else none
  | .dispatch =>
      match s.fetched with
      | [] => none
      | first :: rest =>
          if s.busy then none else some ({ s with fetched := rest }.dispatch first)
  | .collectIdle targets =>
      if s.waiting ∧ targets.all (fun t => s.connections.any fun conn => conn.target == t) then
        some { s with idle := targets }
      else none
  | .removeIdle =>
      match s.idle with
      | [] => none
      | first :: rest =>
          if s.busy then none
          else some { s with idle := rest, execs := { pc := .removing first } :: s.execs }
  | .use task =>
      if task ∈ s.tasks then
        some { s with history := .used task.conn.fd task.conn.id :: s.history }
      else none
  | .finish task =>
      if task ∈ s.tasks then
        some (({ s with tasks := s.tasks.erase task }).drop (some task.conn))
      else none
  | .remove task =>
      if task ∈ s.tasks then
        some { s with
          tasks := s.tasks.erase task
          execs := { task := some task.conn, pc := .removing task.conn.target } :: s.execs }
      else none
  | .resubmit task =>
      if task ∈ s.tasks ∧ task.reading = true ∧ s.loop = .running then
        some { s with resubmitted := task.conn.target :: s.resubmitted }
      else none
  | .runResubmitted target =>
      if target ∈ s.resubmitted then
        some (({ s with resubmitted := s.resubmitted.erase target }).handleClientRead target)
      else none
  | .advance e outcome => if e ∈ s.execs then s.advance e outcome else none
  | .stop => if s.loop = .running then some { s with loop := .stopping } else none
  | .closeListener =>
      if s.loop = .stopping ∧ s.waiting then some { s with listening := false } else none
  | .finishStopping =>
      if s.loop = .stopping ∧ s.waiting then some { s with loop := .stopped } else none
  | .cleanup => if s.waiting then some s.cleanupAllConnections else none

/-- What a step of an execution can be, and where it leads. -/
inductive Advances (s : ServerState) (e : Exec) : Outcome → ServerState → Prop
  | notFound (target : Target) (hpc : e.pc = .removing target)
      (hfind : s.find target.fd = none) : Advances s e .proceed (s.goTo e .done)
  | erased (target : Target) (conn : ConnRef) (hpc : e.pc = .removing target)
      (hfind : s.find target.fd = some conn) :
      Advances s e .proceed
        { s with
          connections := s.others target.fd
          execs := { e with removed := some conn, pc := .releasing } :: s.execs.erase e
          acts := (target.meant, conn.id) :: s.acts }
  | released (conn : ConnRef) (hpc : e.pc = .releasing) (hremoved : e.removed = some conn) :
      Advances s e .proceed (s.releaseAddress e conn)
  | subtracted (conn : ConnRef) (hpc : e.pc = .subtracting)
      (hremoved : e.removed = some conn) : Advances s e .proceed (s.subtractClient e)
  | unregistered (conn : ConnRef) (hpc : e.pc = .unregistering)
      (hremoved : e.removed = some conn) : Advances s e .proceed (s.unregister e conn)
  | passed (hpc : e.pc = .loading) (hloop : s.loop = .running)
      (hroom : s.activeConnections < maxTotalConnections) :
      Advances s e .proceed (s.goTo e .accepting)
  | full (hpc : e.pc = .loading)
      (hfull : s.loop = .running → maxTotalConnections ≤ s.activeConnections) :
      Advances s e .proceed (s.leaveAccept e)
  | accepted (fd : Nat) (ip : Bytes) (hpc : e.pc = .accepting) (hbacklog : 0 < s.backlog)
      (howner : ownerOf s.history fd = none) :
      Advances s e (.client fd ip) (s.acceptClient e fd ip)
  | retried (aborted : Bool) (hpc : e.pc = .accepting) :
      Advances s e (.transient aborted) (s.retryAccept e aborted)
  | drained (hpc : e.pc = .accepting) (hbacklog : s.backlog = 0) :
      Advances s e .wouldBlock (s.leaveAccept e)
  | failed (hpc : e.pc = .accepting) : Advances s e .fatal (s.leaveAccept e)
  | acquired (conn : ConnRef) (hpc : e.pc = .acquiring conn) :
      Advances s e .proceed (s.acquire e conn)
  | rejected (conn : ConnRef) (hpc : e.pc = .rejecting conn) :
      Advances s e .proceed (s.reject e conn)
  | inserted (conn : ConnRef) (hpc : e.pc = .inserting conn) :
      Advances s e .proceed (s.insert e conn)
  | added (conn : ConnRef) (hpc : e.pc = .adding conn) (hopen : s.epollOpen = true) :
      Advances s e .added (s.registerClient e conn)
  | addFailed (conn : ConnRef) (hpc : e.pc = .adding conn) :
      Advances s e .addFailed (s.goTo e (.undoRelease conn))
  | counted (conn : ConnRef) (hpc : e.pc = .counting conn) :
      Advances s e .proceed (s.countClient e conn)
  | undoReleased (conn : ConnRef) (hpc : e.pc = .undoRelease conn) :
      Advances s e .proceed (s.undoRelease e conn)
  | undoErased (conn : ConnRef) (hpc : e.pc = .undoErase conn) :
      Advances s e .proceed (s.undoErase e conn)
  | undoClosed (conn : ConnRef) (hpc : e.pc = .undoClose conn) :
      Advances s e .proceed (s.undoClose e conn)
  | droppedLocal (conn : ConnRef) (hpc : e.pc = .dropping conn) :
      Advances s e .proceed (s.dropLocal e conn)
  | returned (hpc : e.pc = .done) :
      Advances s e .proceed (({ s with execs := s.execs.erase e }).drop e.task)

theorem advances_of_advance {s s' : ServerState} {e : Exec} {outcome : Outcome}
    (hstep : s.advance e outcome = some s') : Advances s e outcome s' := by
  cases outcome with
  | proceed =>
      simp only [advance] at hstep
      split at hstep
      case h_1 _ _ target hpc =>
        obtain rfl := Option.some.inj hstep
        unfold findAndErase
        split
        · next hfind => exact .notFound target hpc hfind
        · next conn hfind => exact .erased target conn hpc hfind
      case h_5 _ _ hpc =>
        obtain rfl := Option.some.inj hstep
        unfold loadCounter
        split
        · next hroom => exact .passed hpc hroom.1 hroom.2
        · next hfull =>
            refine .full hpc fun hloop => ?_
            exact Nat.le_of_not_lt fun hroom => hfull ⟨hloop, hroom⟩
      all_goals
        first
        | contradiction
        | obtain rfl := Option.some.inj hstep
          constructor <;> assumption
  | client fd ip =>
      simp only [advance, Option.ite_none_right_eq_some] at hstep
      obtain ⟨⟨hpc, -, hbacklog, howner⟩, heq⟩ := hstep
      obtain rfl := Option.some.inj heq
      exact .accepted fd ip hpc hbacklog howner
  | transient aborted =>
      simp only [advance, Option.ite_none_right_eq_some] at hstep
      obtain ⟨⟨hpc, -⟩, heq⟩ := hstep
      obtain rfl := Option.some.inj heq
      exact .retried aborted hpc
  | wouldBlock =>
      simp only [advance, Option.ite_none_right_eq_some] at hstep
      obtain ⟨⟨hpc, hbacklog⟩, heq⟩ := hstep
      obtain rfl := Option.some.inj heq
      exact .drained hpc hbacklog
  | fatal =>
      simp only [advance, Option.ite_none_right_eq_some] at hstep
      obtain ⟨hpc, heq⟩ := hstep
      obtain rfl := Option.some.inj heq
      exact .failed hpc
  | added =>
      simp only [advance] at hstep
      split at hstep
      · next conn hpc =>
          rw [Option.ite_none_right_eq_some] at hstep
          obtain ⟨hopen, heq⟩ := hstep
          obtain rfl := Option.some.inj heq
          exact .added conn hpc hopen
      · contradiction
  | addFailed =>
      simp only [advance] at hstep
      split at hstep
      · next conn hpc =>
          obtain rfl := Option.some.inj hstep
          exact .addFailed conn hpc
      · contradiction

/-- What a step can be, and where it leads. -/
inductive Steps (s : ServerState) : ServerAction → ServerState → Prop
  | arrive : Steps s .arrive { s with backlog := s.backlog + 1, edge := true }
  | fetch (batch : List Fetched) (hfetched : s.fetched = [])
      (hreports : ∀ event ∈ batch, s.reports event = true) :
      Steps s (.fetch batch)
        { s with fetched := batch, edge := s.edge && !batch.contains .listener }
  | dispatchAccept (rest : List Fetched) (hfetched : s.fetched = .listener :: rest)
      (hfree : s.busy = false) (hloop : s.loop = .running) :
      Steps s .dispatch { s with fetched := rest, execs := { pc := .loading } :: s.execs }
  | dispatchIgnored (rest : List Fetched) (hfetched : s.fetched = .listener :: rest)
      (hloop : s.loop ≠ .running) : Steps s .dispatch { s with fetched := rest }
  | dispatchHangUp (target : Target) (rest : List Fetched)
      (hfetched : s.fetched = .hangUp target :: rest) (hfree : s.busy = false) :
      Steps s .dispatch
        { s with fetched := rest, execs := { pc := .removing target } :: s.execs }
  | dispatchRead (target : Target) (rest : List Fetched)
      (hfetched : s.fetched = .readable target :: rest) :
      Steps s .dispatch ({ s with fetched := rest }.handleClientRead target)
  | dispatchWrite (target : Target) (rest : List Fetched)
      (hfetched : s.fetched = .writable target :: rest) :
      Steps s .dispatch ({ s with fetched := rest }.handleClientWrite target)
  | collectIdle (targets : List Target)
      (hmapped : ∀ target ∈ targets, ∃ conn ∈ s.connections, conn.target = target) :
      Steps s (.collectIdle targets) { s with idle := targets }
  | removeIdle (first : Target) (rest : List Target) (hidle : s.idle = first :: rest)
      (hfree : s.busy = false) :
      Steps s .removeIdle
        { s with idle := rest, execs := { pc := .removing first } :: s.execs }
  | use (task : WorkerTask) (hmem : task ∈ s.tasks) :
      Steps s (.use task)
        { s with history := .used task.conn.fd task.conn.id :: s.history }
  | finish (task : WorkerTask) (hmem : task ∈ s.tasks) :
      Steps s (.finish task)
        (({ s with tasks := s.tasks.erase task }).drop (some task.conn))
  | remove (task : WorkerTask) (hmem : task ∈ s.tasks) :
      Steps s (.remove task)
        { s with
          tasks := s.tasks.erase task
          execs := { task := some task.conn, pc := .removing task.conn.target } :: s.execs }
  | resubmit (task : WorkerTask) (hmem : task ∈ s.tasks) :
      Steps s (.resubmit task)
        { s with resubmitted := task.conn.target :: s.resubmitted }
  | runResubmitted (target : Target) (hmem : target ∈ s.resubmitted) :
      Steps s (.runResubmitted target)
        (({ s with resubmitted := s.resubmitted.erase target }).handleClientRead target)
  | advance (e : Exec) (outcome : Outcome) (s' : ServerState) (hmem : e ∈ s.execs)
      (hadvances : Advances s e outcome s') : Steps s (.advance e outcome) s'
  | stop (hloop : s.loop = .running) : Steps s .stop { s with loop := .stopping }
  | closeListener (hloop : s.loop = .stopping) :
      Steps s .closeListener { s with listening := false }
  | finishStopping : Steps s .finishStopping { s with loop := .stopped }
  | cleanup (hwaiting : s.waiting = true) : Steps s .cleanup s.cleanupAllConnections

theorem steps_dispatch {s s' : ServerState} (hstep : s.step .dispatch = some s') :
    Steps s .dispatch s' := by
  simp only [step] at hstep
  split at hstep
  · contradiction
  · next first rest hfetched =>
      split at hstep
      · contradiction
      · next hbusy =>
          have hfree : s.busy = false := by simpa using hbusy
          obtain rfl := Option.some.inj hstep
          cases first with
          | listener =>
              simp only [dispatch]
              split
              · next hloop => exact .dispatchAccept rest hfetched hfree hloop
              · next hloop => exact .dispatchIgnored rest hfetched hloop
          | hangUp target => exact .dispatchHangUp target rest hfetched hfree
          | readable target => exact .dispatchRead target rest hfetched
          | writable target => exact .dispatchWrite target rest hfetched

theorem steps_of_step {s s' : ServerState} {action : ServerAction}
    (hstep : s.step action = some s') : Steps s action s' := by
  cases action with
  | dispatch => exact steps_dispatch hstep
  | removeIdle =>
      simp only [step] at hstep
      split at hstep
      · contradiction
      · next first rest hidle =>
          split at hstep
          · contradiction
          · next hbusy =>
              obtain rfl := Option.some.inj hstep
              exact .removeIdle first rest hidle (by simpa using hbusy)
  | advance e outcome =>
      simp only [step, Option.ite_none_right_eq_some] at hstep
      exact .advance e outcome s' hstep.1 (advances_of_advance hstep.2)
  | fetch batch =>
      simp only [step, Option.ite_none_right_eq_some] at hstep
      obtain ⟨⟨hwaiting, -, -, hreports⟩, heq⟩ := hstep
      obtain rfl := Option.some.inj heq
      exact .fetch batch (by simp_all [waiting]) (List.all_eq_true.mp hreports)
  | collectIdle targets =>
      simp only [step, Option.ite_none_right_eq_some] at hstep
      obtain ⟨⟨-, hmapped⟩, heq⟩ := hstep
      obtain rfl := Option.some.inj heq
      refine .collectIdle targets fun target htarget => ?_
      simpa using List.all_eq_true.mp hmapped target htarget
  | arrive | use | finish | remove | runResubmitted | stop | cleanup =>
      simp only [step, Option.ite_none_right_eq_some] at hstep
      obtain ⟨hpossible, heq⟩ := hstep
      obtain rfl := Option.some.inj heq
      constructor
      all_goals assumption
  | resubmit task =>
      simp only [step, Option.ite_none_right_eq_some] at hstep
      obtain ⟨⟨hmem, -⟩, heq⟩ := hstep
      obtain rfl := Option.some.inj heq
      exact .resubmit task hmem
  | closeListener =>
      simp only [step, Option.ite_none_right_eq_some] at hstep
      obtain ⟨⟨hloop, -⟩, heq⟩ := hstep
      obtain rfl := Option.some.inj heq
      exact .closeListener hloop
  | finishStopping =>
      simp only [step, Option.ite_none_right_eq_some] at hstep
      obtain ⟨-, heq⟩ := hstep
      obtain rfl := Option.some.inj heq
      exact .finishStopping

section Executions

variable (e : Exec) (conn : ConnRef)

/-- `handle_accept` up to and including a successful `EPOLL_CTL_ADD`. -/
def registersClient : List ServerAction :=
  [.advance { e with pc := .loading } .proceed,
    .advance { e with pc := .accepting } (.client conn.fd conn.ip),
    .advance { e with pc := .acquiring conn } .proceed,
    .advance { e with pc := .inserting conn } .proceed,
    .advance { e with pc := .adding conn } .added]

/-- The counter is raised, and the next `accept` finds the backlog empty. -/
def countsAndReturns : List ServerAction :=
  [.advance { e with pc := .counting conn } .proceed,
    .advance { e with pc := .dropping conn } .proceed,
    .advance { e with pc := .loading } .proceed,
    .advance { e with pc := .accepting } .wouldBlock,
    .advance { e with removed := none, pc := .done } .proceed]

/-- The epoll thread accepts the only client that is waiting. -/
def acceptsClient : List ServerAction :=
  [.arrive, .fetch [.listener], .dispatch] ++ registersClient { pc := .loading } conn ++
    countsAndReturns { pc := .loading } conn

/-- `remove_connection` up to and including the counter. -/
def subtractsClient : List ServerAction :=
  [.advance { e with pc := .removing conn.target } .proceed,
    .advance { e with removed := some conn, pc := .releasing } .proceed,
    .advance { e with removed := some conn, pc := .subtracting } .proceed]

end Executions

end ServerState

end HttpServer
