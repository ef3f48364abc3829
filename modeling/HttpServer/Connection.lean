/-
One client connection: its two buffers, its parser and the flag that asks for
a close once everything is written.  The kernel's answers to `recv` and `send`
are arguments; a list of answers ends where the call would block.
-/
import HttpServer.HttpRequestParser

namespace HttpServer

open ByteText

/-- What `recv` returns; no bytes is the end of the stream. -/
inductive RecvResult where
  | data (bytes : Bytes)
  | failed
deriving Repr, DecidableEq

/-- What `send` returns.  `accepted n` takes `n + 1` bytes, or all there are. -/
inductive SendResult where
  | accepted (n : Nat)
  | zero
  | wouldBlock
  | failed
deriving Repr, DecidableEq

structure Connection where
  readBuffer : Bytes := []
  writeBuffer : Bytes := []
  closeAfterWriteFlag : Bool := false
  lastActivity : Nat := 0
  progress : Progress := {}
deriving DecidableEq

/-- What a call of `flush` leaves and reports; `sent` is what the kernel took. -/
structure Flush where
  writeBuffer : Bytes
  sent : Bytes := []
  fullyFlushed : Bool := false
  hasError : Bool := false
deriving Repr, DecidableEq

/-- The `while (!write_buffer.empty())` loop of `flush`. -/
def flushWrites : List SendResult → Bytes → Flush
  | [], writeBuffer => { writeBuffer, fullyFlushed := writeBuffer.isEmpty }
  | result :: results, writeBuffer =>
      if writeBuffer.isEmpty then { writeBuffer, fullyFlushed := true }
      else
        match result with
        | .accepted n =>
            let later := flushWrites results (writeBuffer.drop (n + 1))
            { later with sent := writeBuffer.take (n + 1) ++ later.sent }
        | .zero => { writeBuffer }
        | .wouldBlock => { writeBuffer }
        | .failed => { writeBuffer, hasError := true }

namespace Connection

def appendReadData (conn : Connection) (now : Nat) (data : Bytes) : Connection :=
  { conn with readBuffer := conn.readBuffer ++ data, lastActivity := now }

/-- The connection after a drain loop that received these bytes. -/
def receive (conn : Connection) (now : Nat) (received : Bytes) : Connection :=
  if received.isEmpty then conn else conn.appendReadData now received

def appendUnsentData (conn : Connection) (now : Nat) (data : Bytes) : Connection :=
  { conn with writeBuffer := conn.writeBuffer ++ data, lastActivity := now }

def hasPendingWrites (conn : Connection) : Bool := !conn.writeBuffer.isEmpty

def markCloseAfterWrite (conn : Connection) : Connection :=
  { conn with closeAfterWriteFlag := true }

def shouldCloseAfterWrite (conn : Connection) : Bool := conn.closeAfterWriteFlag

/-- The connection after a `flush` that gets these answers. -/
def flush (conn : Connection) (sends : List SendResult) : Connection :=
  { conn with writeBuffer := (flushWrites sends conn.writeBuffer).writeBuffer }

@[simp] theorem receive_writeBuffer (conn : Connection) (now : Nat) (received : Bytes) :
    (conn.receive now received).writeBuffer = conn.writeBuffer := by
  rw [receive]
  split <;> rfl

@[simp] theorem receive_closeAfterWriteFlag (conn : Connection) (now : Nat)
    (received : Bytes) :
    (conn.receive now received).closeAfterWriteFlag = conn.closeAfterWriteFlag := by
  rw [receive]
  split <;> rfl

@[simp] theorem receive_progress (conn : Connection) (now : Nat) (received : Bytes) :
    (conn.receive now received).progress = conn.progress := by
  rw [receive]
  split <;> rfl

@[simp] theorem receive_readBuffer (conn : Connection) (now : Nat) (received : Bytes) :
    (conn.receive now received).readBuffer = conn.readBuffer ++ received := by
  rw [receive]
  split
  · next hempty => simp [List.isEmpty_iff.mp hempty]
  · rfl

end Connection

/-- Nothing is lost or duplicated by a flush. -/
theorem flushWrites_split (sends : List SendResult) :
    ∀ writeBuffer : Bytes,
      (flushWrites sends writeBuffer).sent ++
        (flushWrites sends writeBuffer).writeBuffer = writeBuffer := by
  induction sends with
  | nil =>
      intro writeBuffer
      rfl
  | cons result results ih =>
      intro writeBuffer
      simp only [flushWrites]
      split
      · rfl
      · cases result with
        | accepted n =>
            simp only [List.append_assoc, ih, List.take_append_drop]
        | zero => rfl
        | wouldBlock => rfl
        | failed => rfl

theorem flushWrites_fullyFlushed (sends : List SendResult) :
    ∀ writeBuffer : Bytes,
      (flushWrites sends writeBuffer).fullyFlushed = true ↔
        (flushWrites sends writeBuffer).writeBuffer = [] := by
  induction sends with
  | nil =>
      intro writeBuffer
      simp [flushWrites]
  | cons result results ih =>
      intro writeBuffer
      simp only [flushWrites]
      split
      · next hempty => simpa using hempty
      · next hfull =>
          have hne : writeBuffer ≠ [] := by simpa using hfull
          cases result with
          | accepted n => exact ih (writeBuffer.drop (n + 1))
          | zero => simp [hne]
          | wouldBlock => simp [hne]
          | failed => simp [hne]

theorem flushWrites_hasError {sends : List SendResult} (hfailed : .failed ∉ sends) :
    ∀ writeBuffer : Bytes, (flushWrites sends writeBuffer).hasError = false := by
  induction sends with
  | nil =>
      intro writeBuffer
      rfl
  | cons result results ih =>
      intro writeBuffer
      simp only [List.mem_cons, not_or] at hfailed
      simp only [flushWrites]
      split
      · rfl
      · cases result with
        | accepted n => exact ih hfailed.2 _
        | zero => rfl
        | wouldBlock => rfl
        | failed => exact absurd rfl hfailed.1

/-- `send` would block, or takes nothing, before this many bytes are gone. -/
def blocks : List SendResult → Nat → Bool
  | [], unsent => 0 < unsent
  | result :: results, unsent =>
      if unsent = 0 then false
      else
        match result with
        | .accepted n => blocks results (unsent - (n + 1))
        | .zero => true
        | .wouldBlock => true
        | .failed => false

/-- A flush that is not blocked empties the buffer or meets an error. -/
theorem flushWrites_of_not_blocks (sends : List SendResult) :
    ∀ writeBuffer : Bytes, blocks sends writeBuffer.length = false →
      (flushWrites sends writeBuffer).writeBuffer = [] ∨
        (flushWrites sends writeBuffer).hasError = true := by
  induction sends with
  | nil =>
      intro writeBuffer hfree
      left
      simpa [blocks, flushWrites] using hfree
  | cons result results ih =>
      intro writeBuffer hfree
      simp only [flushWrites]
      split
      · next hempty => exact Or.inl (List.isEmpty_iff.mp hempty)
      · next hfull =>
          have hne : writeBuffer ≠ [] := by simpa using hfull
          simp only [blocks, List.length_eq_zero_iff, hne, ↓reduceIte] at hfree
          cases result with
          | accepted n =>
              apply ih (writeBuffer.drop (n + 1))
              rw [List.length_drop]
              exact hfree
          | zero => contradiction
          | wouldBlock => contradiction
          | failed => exact Or.inr rfl

/-- The drain loop of the read task: what it appends to the read buffer, and
whether it met the end of the stream or an error. -/
def drainSocket : List RecvResult → Bytes × Bool
  | [] => ([], false)
  | .failed :: _ => ([], true)
  | .data [] :: _ => ([], true)
  | .data (b :: bytes) :: results =>
      let later := drainSocket results
      (b :: (bytes ++ later.1), later.2)

/-- `recv` returned a positive count. -/
def RecvResult.isData : RecvResult → Bool
  | .data (_ :: _) => true
  | _ => false

/-- Data only, and then the socket blocks. -/
theorem drainSocket_open {recvs : List RecvResult}
    (hdata : ∀ result ∈ recvs, result.isData = true) : (drainSocket recvs).2 = false := by
  induction recvs with
  | nil => rfl
  | cons result results ih =>
      have hfirst := hdata result List.mem_cons_self
      have hlater := ih fun other hother => hdata other (List.mem_cons_of_mem _ hother)
      cases result with
      | failed => contradiction
      | data bytes =>
          cases bytes with
          | nil => contradiction
          | cons b bytes => exact hlater

end HttpServer
