/-
The mutexes of the program and the threads that take them.  A thread is at a
place of the code; taking a mutex is a step, possible while nobody holds it, and
the section under it, with its release, is another.  Every order of steps is a
run.  Calls of the logger are made with whatever the caller holds.
-/
import HttpServer.Admission
import HttpServer.BucketLifetime
import HttpServer.ThreadPool

namespace HttpServer

open RateLimiter

inductive Mutex
  /-- `conn_map_mtx`. -/
  | connMap
  /-- `conn_mutex` of a connection. -/
  | conn (id : Nat)
  /-- `mtx_` of the per-address limiter. -/
  | addresses
  | shard (index : Fin numShards)
  /-- `mtx` of a bucket. -/
  | bucket (id : Nat)
  /-- `queue_mtx` of the task queue. -/
  | queue
  /-- `queue_mtx` of the logger. -/
  | log
deriving DecidableEq

/-- What the task queue holds: read and write lambdas, and the closure that calls
`handle_client_read` again. -/
inductive PoolTask
  | work (task : WorkerTask)
  | again (fd : Nat)
deriving DecidableEq

/-- What the epoll thread calls between two waits. -/
inductive LoopCall
  | read (fd : Nat)
  | write (fd : Nat)
  | remove (fd : Nat)
  | accept
  | checkIdle
  | sweepStale
  | cleanup
  /-- `TaskQueue::stop`, from the destructor of the pool. -/
  | stopQueue
deriving DecidableEq

/-- Where a thread is.  `inside` is the connection whose mutex the caller of `submit`
holds; `outer` is the one whose mutex `remove_connection` holds while it calls
`handle_accept`. -/
inductive Place
  /-- Between two calls of the epoll thread, and the logger's own thread. -/
  | idle
  | exited
  -- `handle_client_read` and `handle_client_write`
  | lookingUp (fd : Nat) (reading : Bool)
  | lookedUp (fd : Nat) (reading : Bool)
  -- `TaskQueue::submit`
  | submitting (inside : Option Nat) (task : PoolTask)
  | queueing (inside : Option Nat) (task : PoolTask)
  | awaitingRoom (inside : Option Nat) (task : PoolTask)
  -- `remove_connection`
  | removing (fd : Nat)
  | erasing (fd : Nat)
  | releasing (conn : ConnRef)
  | released (conn : ConnRef)
  | excluding (conn : ConnRef)
  | unregistering (conn : ConnRef)
  -- `handle_accept`
  | accepting (outer : Option Nat)
  | acquiring (outer : Option Nat) (conn : ConnRef)
  | acquired (outer : Option Nat) (conn : ConnRef)
  | inserting (outer : Option Nat) (conn : ConnRef)
  | inserted (outer : Option Nat) (conn : ConnRef)
  | registering (outer : Option Nat) (conn : ConnRef)
  | undoing (outer : Option Nat) (conn : ConnRef)
  | undone (outer : Option Nat) (conn : ConnRef)
  | uninserting (outer : Option Nat) (conn : ConnRef)
  | uninserted (outer : Option Nat) (conn : ConnRef)
  -- `check_idle_timeouts`, with the connections that are still to be tested
  | sweeping
  | testing (rest : List ConnRef)
  | tested (conn : ConnRef) (rest : List ConnRef)
  -- `sweep_stale`, with the buckets of the shard that are still to be examined
  | sweepingShard (index : Fin numShards)
  | inShard (index : Fin numShards) (rest : List BucketEntry)
  | inBucket (index : Fin numShards) (entry : BucketEntry) (rest : List BucketEntry)
  -- `cleanup_all_connections`, with the connections that are still to be released
  | cleaning
  | cleaningUp (rest : List ConnRef)
  | cleanedUp (rest : List ConnRef)
  -- `TaskQueue::stop`
  | stoppingQueue
  | stoppedQueue
  -- `TaskQueue::remove`
  | fetching
  | taking
  | awaitingTask
  -- the read lambda, with `RateLimiter::allow` in its two sections
  | readLocking (conn : ConnRef)
  | reading (conn : ConnRef)
  | limiting (conn : ConnRef)
  | findingBucket (conn : ConnRef)
  | consuming (conn : ConnRef) (bucket : Nat)
  | consumed (conn : ConnRef) (bucket : Nat)
  -- the write lambda
  | writeLocking (conn : ConnRef)
  | writing (conn : ConnRef)
deriving DecidableEq

namespace Place

variable (hash : Bytes → Nat)

/-- The mutex that the thread is about to take. -/
@[simp] def wants : Place → Option Mutex
  | lookingUp _ _ | removing _ | inserting _ _ | uninserting _ _ | sweeping | cleaning =>
      some .connMap
  | submitting _ _ | fetching | stoppingQueue => some .queue
  | releasing _ | acquiring _ _ | undoing _ _ => some .addresses
  | excluding conn | readLocking conn | writeLocking conn => some (.conn conn.id)
  | testing (conn :: _) => some (.conn conn.id)
  | cleaningUp (_ :: _) => some .addresses
  | sweepingShard index => some (.shard index)
  | inShard _ (entry :: _) => some (.bucket entry.2)
  | limiting conn => some (.shard (shardFor hash conn.ip))
  | consuming _ bucket => some (.bucket bucket)
  | _ => none

/-- The mutexes that the thread holds. -/
@[simp] def holds : Place → List Mutex
  | lookedUp _ _ | erasing _ | testing _ | cleaningUp _ => [.connMap]
  | submitting inside _ | awaitingRoom inside _ => (inside.map Mutex.conn).toList
  | queueing inside _ => .queue :: (inside.map Mutex.conn).toList
  | released _ => [.addresses]
  | unregistering conn => [.conn conn.id]
  | accepting outer | acquiring outer _ | inserting outer _ | registering outer _
  | undoing outer _ | uninserting outer _ => (outer.map Mutex.conn).toList
  | acquired outer _ | undone outer _ => .addresses :: (outer.map Mutex.conn).toList
  | inserted outer _ | uninserted outer _ => .connMap :: (outer.map Mutex.conn).toList
  | tested conn _ => [.conn conn.id, .connMap]
  | cleanedUp _ => [.addresses, .connMap]
  | inShard index _ => [.shard index]
  | inBucket index entry _ => [.bucket entry.2, .shard index]
  | taking | stoppedQueue => [.queue]
  | reading conn | limiting conn | consuming conn _ => [.conn conn.id]
  | findingBucket conn => [.shard (shardFor hash conn.ip), .conn conn.id]
  | consumed conn bucket => [.bucket bucket, .conn conn.id]
  | writing conn => [.conn conn.id]
  | _ => []

/-- The functions that call the logger themselves. -/
def logs : Place → Bool
  | idle | accepting _ | registering _ _ | reading _ => true
  | _ => false

end Place

/-- A call of `Logger::log` or `Logger::log_http`. -/
inductive LogCall
  | none
  | calling
  | pushing
deriving DecidableEq

structure Thread where
  place : Place
  logCall : LogCall := .none
deriving DecidableEq

namespace Thread

variable (hash : Bytes → Nat)

def wants (t : Thread) : Option Mutex :=
  match t.logCall with
  | .none => t.place.wants hash
  | .calling => some .log
  | .pushing => none

def holds (t : Thread) : List Mutex :=
  (if t.logCall = .pushing then [.log] else []) ++ t.place.holds hash

end Thread

/-- The epoll thread, the worker threads and the logger's thread. -/
inductive ThreadId
  | loop
  | worker (index : Fin workerThreads)
  | logWriter
deriving DecidableEq

namespace ThreadId

/-- Where a thread is between two calls. -/
def home : ThreadId → Place
  | loop | logWriter => .idle
  | worker _ => .fetching

def all : List ThreadId := loop :: logWriter :: (List.finRange workerThreads).map worker

theorem mem_all (id : ThreadId) : id ∈ all := by
  cases id <;> simp [all]

end ThreadId

structure LockState where
  connections : List ConnRef := []
  nextId : Nat := 0
  buckets : Fin numShards → List BucketEntry := fun _ => []
  nextBucket : Nat := 0
  tasks : List PoolTask := []
  shutdown : Bool := false
  threads : ThreadId → Thread := fun id => { place := id.home }

/-- What the data, the kernel or another flag decides at a place of the code. -/
inductive Branch
  | go
  /-- The other way: refused, failed, over. -/
  | otherwise
  | call (call : LoopCall)
  | client (fd : Nat) (ip : Bytes)
  /-- A request is checked against the rate limit. -/
  | limit
  | resubmit
  /-- The task ends with a call of `remove_connection`. -/
  | remove
deriving DecidableEq

inductive LockAction
  | lock (thread : ThreadId)
  | run (thread : ThreadId) (branch : Branch)
  | log (thread : ThreadId)

namespace LockState

def put (s : LockState) (id : ThreadId) (thread : Thread) : LockState :=
  { s with threads := Function.update s.threads id thread }

def goTo (s : LockState) (id : ThreadId) (place : Place) : LockState := s.put id { place }

def find (s : LockState) (fd : Nat) : Option ConnRef :=
  s.connections.find? fun conn => conn.fd == fd

def others (s : LockState) (fd : Nat) : List ConnRef :=
  s.connections.filter fun conn => conn.fd ≠ fd

/-- `buffer_len < QUEUE_CAPACITY || shutdown`. -/
def hasRoom (s : LockState) : Bool := s.tasks.length < queueCapacity || s.shutdown

/-- `buffer_len > 0 || shutdown`. -/
def hasTask (s : LockState) : Bool := !s.tasks.isEmpty || s.shutdown

/-- A called function up to its first mutex. -/
def start : LoopCall → Place
  | .read fd => .lookingUp fd true
  | .write fd => .lookingUp fd false
  | .remove fd => .removing fd
  | .accept => .accepting none
  | .checkIdle => .sweeping
  | .sweepStale => .sweepingShard 0
  | .cleanup => .cleaning
  | .stopQueue => .stoppingQueue

/-- A task up to its first mutex. -/
def begin : PoolTask → Place
  | .work task => if task.reading then .readLocking task.conn else .writeLocking task.conn
  | .again fd => .lookingUp fd true

/-- The place behind the mutex that has been waited for. -/
def entry (s : LockState) : Place → Place
  | .lookingUp fd reading => .lookedUp fd reading
  | .submitting inside task => .queueing inside task
  | .removing fd => .erasing fd
  | .releasing conn => .released conn
  | .excluding conn => .unregistering conn
  | .acquiring outer conn => .acquired outer conn
  | .inserting outer conn => .inserted outer conn
  | .undoing outer conn => .undone outer conn
  | .uninserting outer conn => .uninserted outer conn
  | .sweeping => .testing s.connections
  | .testing (conn :: rest) => .tested conn rest
  | .sweepingShard index => .inShard index (s.buckets index)
  | .inShard index (entry :: rest) => .inBucket index entry rest
  | .cleaning => .cleaningUp s.connections
  | .cleaningUp (_ :: rest) => .cleanedUp rest
  | .stoppingQueue => .stoppedQueue
  | .fetching => .taking
  | .readLocking conn => .reading conn
  | .limiting conn => .findingBucket conn
  | .consuming conn bucket => .consumed conn bucket
  | .writeLocking conn => .writing conn
  | place => place

variable (hash : Bytes → Nat)

def isHeld (s : LockState) (mutex : Mutex) : Bool :=
  ThreadId.all.any fun id => mutex ∈ (s.threads id).holds hash

/-- The thread goes on behind the mutex it wanted. -/
def enter (s : LockState) (id : ThreadId) : LockState :=
  if (s.threads id).logCall = .calling then
    s.put id { s.threads id with logCall := .pushing }
  else s.goTo id (s.entry (s.threads id).place)

/-- The next part of the code up to the next mutex, where the branch fits.  What is
held and not needed any more is released with it. -/
def runSection (s : LockState) (id : ThreadId) : Place → Branch → Option LockState
  | .idle, .call call => if id = .loop then some (s.goTo id (start call)) else none
  | .lookedUp fd reading, .go =>
      match s.find fd with
      | none => some (s.goTo id id.home)
      | some conn => some (s.goTo id (.submitting none (.work { conn, reading })))
  | .queueing inside task, .go =>
      if s.hasRoom then
        if s.shutdown then some (s.goTo id id.home)
        else some { s.goTo id id.home with tasks := s.tasks ++ [task] }
      else some (s.goTo id (.awaitingRoom inside task))
  | .awaitingRoom inside task, .go =>
      if s.hasRoom then some (s.goTo id (.submitting inside task)) else none
  | .erasing fd, .go =>
      match s.find fd with
      | none => some (s.goTo id id.home)
      | some conn => some { s.goTo id (.releasing conn) with connections := s.others fd }
  | .released conn, .go => some (s.goTo id (.excluding conn))
  | .unregistering conn, .go => some (s.goTo id (.accepting (some conn.id)))
  | .unregistering _, .otherwise => some (s.goTo id id.home)
  | .accepting outer, .client fd ip =>
      some { s.goTo id (.acquiring outer { id := s.nextId, fd, ip }) with
        nextId := s.nextId + 1 }
  | .accepting outer, .go => some (s.goTo id (.accepting outer))
  | .accepting _, .otherwise => some (s.goTo id id.home)
  | .acquired outer conn, .go => some (s.goTo id (.inserting outer conn))
  | .acquired outer _, .otherwise => some (s.goTo id (.accepting outer))
  | .inserted outer conn, .go =>
      some { s.goTo id (.registering outer conn) with
        connections := conn :: s.others conn.fd }
  | .registering outer _, .go => some (s.goTo id (.accepting outer))
  | .registering outer conn, .otherwise => some (s.goTo id (.undoing outer conn))
  | .undone outer conn, .go => some (s.goTo id (.uninserting outer conn))
  | .uninserted outer conn, .go =>
      some { s.goTo id (.accepting outer) with connections := s.others conn.fd }
  | .testing [], .go => some (s.goTo id id.home)
  | .tested _ rest, .go => some (s.goTo id (.testing rest))
  | .inShard index [], .go =>
      if hnext : index.val + 1 < numShards then
        some (s.goTo id (.sweepingShard ⟨index.val + 1, hnext⟩))
      else some (s.goTo id id.home)
  | .inBucket index _ rest, .go => some (s.goTo id (.inShard index rest))
  | .inBucket index entry rest, .otherwise =>
      some { s.goTo id (.inShard index rest) with
        buckets := Function.update s.buckets index
          ((s.buckets index).filter fun other => other ≠ entry) }
  | .cleaningUp [], .go => some { s.goTo id id.home with connections := [] }
  | .cleanedUp rest, .go => some (s.goTo id (.cleaningUp rest))
  | .stoppedQueue, .go => some { s.goTo id id.home with shutdown := true }
  | .taking, branch =>
      match s.tasks, branch with
      | [], .go => some (s.goTo id (if s.shutdown then .exited else .awaitingTask))
      | task :: rest, .go => some { s.goTo id (begin task) with tasks := rest }
      -- the resubmitted call finds the loop stopped
      | .again _ :: rest, .otherwise => some { s.goTo id id.home with tasks := rest }
      | _, _ => none
  | .awaitingTask, .go => if s.hasTask then some (s.goTo id .fetching) else none
  | .reading conn, .limit => some (s.goTo id (.limiting conn))
  | .reading conn, .resubmit =>
      some (s.goTo id (.submitting (some conn.id) (.again conn.fd)))
  | .reading conn, .remove => some (s.goTo id (.removing conn.fd))
  | .reading _, .otherwise => some (s.goTo id id.home)
  | .findingBucket conn, .go =>
      match (s.buckets (shardFor hash conn.ip)).find? fun entry => entry.1 == conn.ip with
      | some entry => some (s.goTo id (.consuming conn entry.2))
      | none =>
          some { s.goTo id (.consuming conn s.nextBucket) with
            nextBucket := s.nextBucket + 1
            buckets := Function.update s.buckets (shardFor hash conn.ip)
              ((conn.ip, s.nextBucket) :: s.buckets (shardFor hash conn.ip)) }
  | .consumed conn _, .go => some (s.goTo id (.reading conn))
  | .writing conn, .remove => some (s.goTo id (.removing conn.fd))
  | .writing _, .otherwise => some (s.goTo id id.home)
  | _, _ => none

def step (s : LockState) : LockAction → Option LockState
  | .lock id =>
      match (s.threads id).wants hash with
      | none => none
      | some mutex => if s.isHeld hash mutex then none else some (s.enter id)
  | .run id branch =>
      match (s.threads id).logCall with
      | .none => s.runSection hash id (s.threads id).place branch
      | .calling => none
      | .pushing => some (s.put id { s.threads id with logCall := .none })
  | .log id =>
      if (s.threads id).logCall = .none ∧ (s.threads id).place.logs then
        some (s.put id { s.threads id with logCall := .calling })
      else none

end LockState

end HttpServer
