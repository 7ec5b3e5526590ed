import Ichor.Lib.Runs
import Ichor.Stl.StringUtils

/-! The receiving side of `TcpConnectionService` and of `IOUringTcpConnectionService`: a loop of
`recv` calls, and a completion handler for a ring of provided buffers or for one buffer. -/
namespace Ichor

/-- The user's side of a connection. -/
structure Inbox where
  /-- `_recvHandler` is set. -/
  recvHandler : Bool
  queuedMessages : List Bytes
  /-- The spans that the receive handler was called with. -/
  given : List Bytes

namespace Inbox

def empty : Inbox := ⟨false, [], []⟩

def receive (i : Inbox) (data : Bytes) : Inbox :=
  if i.recvHandler then { i with given := i.given ++ [data] }
  else { i with queuedMessages := i.queuedMessages ++ [data] }

def setReceiveHandler (i : Inbox) : Inbox := ⟨true, [], i.given ++ i.queuedMessages⟩

def bytes (i : Inbox) : Bytes := i.given.flatten ++ i.queuedMessages.flatten

end Inbox

/-- The socket: the bytes that have arrived and those of them that were not read yet. -/
structure Inbound where
  arrived : Bytes
  unread : Bytes
  closed : Bool

namespace Inbound

def fresh : Inbound := ⟨[], [], false⟩

def arrive (i : Inbound) (chunk : Bytes) : Inbound :=
  { i with arrived := i.arrived ++ chunk, unread := i.unread ++ chunk }

def read (i : Inbound) (n : ℕ) : Inbound := { i with unread := i.unread.drop n }

/-- Everything was read and the peer has closed. -/
def Ended (i : Inbound) : Prop := i.unread = [] ∧ i.closed = true

instance (i : Inbound) : Decidable i.Ended := inferInstanceAs (Decidable (_ ∧ _))

/-- What `recv` may answer for a buffer of `size` bytes. -/
def Answers (i : Inbound) (size : ℕ) (ret : ℤ) : Prop :=
  ret ≤ size ∧ ret ≤ i.unread.length ∧ (ret = 0 → size = 0 ∨ i.Ended)

instance (i : Inbound) (size : ℕ) (ret : ℤ) : Decidable (i.Answers size ret) :=
  inferInstanceAs (Decidable (_ ∧ _ ∧ _))

end Inbound

/-- Why a connection has asked to be stopped. -/
inductive StopReason where
  | closed
  | error (err : ℤ)
  deriving DecidableEq

/-! ## `TcpConnectionService` -/

structure PollingConnection where
  quit : Bool
  inbox : Inbox
  inbound : Inbound
  stopReason : Option StopReason

namespace PollingConnection

def initial : PollingConnection := ⟨false, .empty, .fresh, none⟩

def EAGAIN : ℤ := 11

/-- The loop of `recvHandler` over the answers of `recv`: the last answer, the bytes and what is left
in the socket. -/
def recvLoop (quit : Bool) : List ℤ → Inbound → Bytes → Option (ℤ × Bytes × Inbound)
  | [], _, _ => none
  | ret :: rest, inbound, msg =>
    if inbound.Answers 4096 ret then
      if 0 < ret then
        let msg := msg ++ inbound.unread.take ret.toNat
        let inbound := inbound.read ret.toNat
        if quit then some (ret, msg, inbound) else recvLoop quit rest inbound msg
      else some (ret, msg, inbound)
    else none

def recvHandler (s : PollingConnection) (answers : List ℤ) (errno : ℤ) : Option PollingConnection :=
  match recvLoop s.quit answers s.inbound [] with
  | none => none
  | some (ret, msg, inbound) =>
    if s.quit then some { s with inbound := inbound }
    else
      let inbox := if msg.isEmpty then s.inbox else s.inbox.receive msg
      let s := { s with inbound := inbound, inbox := inbox }
      if ret = 0 then some { s with stopReason := some .closed }
      else if errno = EAGAIN then some s
      else some { s with stopReason := some (.error errno) }

inductive Act where
  | arrive (chunk : Bytes)
  | close
  | poll (answers : List ℤ) (errno : ℤ)
  | setReceiveHandler
  | stop

def act : Act → PollingConnection → Option PollingConnection
  | .arrive chunk, s =>
    if s.inbound.closed then none else some { s with inbound := s.inbound.arrive chunk }
  | .close, s => some { s with inbound := { s.inbound with closed := true } }
  | .poll answers errno, s => s.recvHandler answers errno
  | .setReceiveHandler, s => some { s with inbox := s.inbox.setReceiveHandler }
  | .stop, s => some { s with quit := true }

def Reaches (s : PollingConnection) : Prop :=
  GuardedRuns.Run act (fun _ _ => True) initial s

end PollingConnection

/-! ## `IOUringTcpConnectionService` -/

/-- `IOUringBuf`: the memory of the entries and the ring that offers them to the kernel. -/
structure IOUringBuf where
  entries : ℕ
  entryBufferSize : ℕ
  memory : ℕ → Bytes
  bufRing : ℕ → ℕ
  head : ℕ
  tail : ℕ

namespace IOUringBuf

/-- `io_uring_buf_ring_add`, with the entry as the offset as well, and `io_uring_buf_ring_advance`. -/
def markEntryAvailableAgain (b : IOUringBuf) (entry : ℕ) : IOUringBuf :=
  { b with
    bufRing := Function.update b.bufRing ((b.tail + entry) &&& (b.entries - 1)) entry
    tail := (b.tail + 1) % 2 ^ 16 }

def readMemory (b : IOUringBuf) (entry : ℕ) : Bytes := (b.memory entry).take b.entryBufferSize

/-- The entry that the kernel takes next. -/
def next (b : IOUringBuf) : ℕ := b.bufRing (b.head &&& (b.entries - 1))

/-- The kernel receives into the next entry. -/
def fill (b : IOUringBuf) (segment : Bytes) : IOUringBuf :=
  { b with
    memory := Function.update b.memory b.next (segment ++ (b.memory b.next).drop segment.length)
    head := (b.head + 1) % 2 ^ 16 }

end IOUringBuf

/-- `IOUringQueue::createProvidedBuffer`, as the receiver sees it: each entry has memory of its own,
as long as the 32 bit size of the allocation does not wrap. -/
def createProvidedBuffer (entries entryBufferSize : ℕ) : Option IOUringBuf :=
  if entries = 0 then none
  else if 32768 < entries then none
  else if entries &&& (entries - 1) ≠ 0 then none
  else some ⟨entries, entryBufferSize, fun _ => List.replicate entryBufferSize 0, id, 0, entries⟩

/-- The properties of the service, and whether the kernel provides buffers. -/
structure RecvSettings where
  providedBuffers : Bool
  bufferEntries : ℕ := 16
  bufferEntrySize : ℕ := 8192
  recvBufferSize : Option ℕ := none

/-- A completion of `recv`, with the bytes that the kernel has put into the buffer for it. -/
structure RecvCompletion where
  res : ℤ
  hasBuffer : Bool
  entry : ℕ
  segment : Bytes

structure UringConnection where
  quit : Bool
  inbox : Inbox
  inbound : Inbound
  stopReason : Option StopReason
  buffer : Option IOUringBuf
  recvBuf : Bytes
  /-- A `recv` is submitted. -/
  armed : Bool
  completions : List RecvCompletion

namespace UringConnection

/-- The buffers that `start` prepares. With a `RecvBufferSize` the buffer is reserved and keeps its
size of zero. -/
def start (cfg : RecvSettings) : UringConnection :=
  let buffer := if cfg.providedBuffers then
    createProvidedBuffer (cfg.bufferEntries % 2 ^ 16) cfg.bufferEntrySize else none
  let recvBuf := match buffer, cfg.recvBufferSize with
    | some _, _ => []
    | none, some _ => []
    | none, none => List.replicate 2048 0
  ⟨false, .empty, .fresh, none, buffer, recvBuf, true, []⟩

def recvHandler (s : UringConnection) (cqe : RecvCompletion) : UringConnection :=
  if s.quit then s
  else if cqe.res ≤ 0 then
    { s with stopReason := some (if cqe.res = 0 then .closed else .error (-cqe.res)) }
  else
    match s.buffer with
    | some b =>
      if ¬cqe.hasBuffer then s
      else { s with
        inbox := s.inbox.receive ((b.readMemory cqe.entry).take cqe.res.toNat)
        buffer := some (b.markEntryAvailableAgain cqe.entry) }
    | none =>
      if s.inbox.recvHandler then
        { s with inbox := s.inbox.receive (s.recvBuf.take cqe.res.toNat), armed := true }
      else { s with inbox := s.inbox.receive s.recvBuf, recvBuf := [], armed := true }

/-- The number of bytes that one `recv` may take. -/
def recvSize (s : UringConnection) : ℕ :=
  match s.buffer with
  | some b => b.entryBufferSize
  | none => s.recvBuf.length

/-- The provided buffers are used up. -/
def exhausted (s : UringConnection) : Bool :=
  match s.buffer with
  | some b => b.head = b.tail
  | none => false

def ENOBUFS : ℤ := 105

/-- The kernel receives a segment; `more` says whether the request for many segments stays. -/
def segment (s : UringConnection) (n : ℕ) (more : Bool) : UringConnection :=
  let segment := s.inbound.unread.take n
  let s := { s with inbound := s.inbound.read n }
  match s.buffer with
  | some b => { s with
      buffer := some (b.fill segment)
      armed := more
      completions := s.completions ++ [⟨n, true, b.next, segment⟩] }
  | none => { s with
      recvBuf := segment ++ s.recvBuf.drop segment.length
      armed := false
      completions := s.completions ++ [⟨n, false, 0, segment⟩] }

inductive Act where
  | arrive (chunk : Bytes)
  | close
  | segment (n : ℕ) (more : Bool)
  /-- The kernel ends the request with no bytes. -/
  | finish (res : ℤ)
  /-- The event loop handles the next completion. -/
  | handle
  | setReceiveHandler
  | stop

def act : Act → UringConnection → Option UringConnection
  | .arrive chunk, s =>
    if s.inbound.closed then none else some { s with inbound := s.inbound.arrive chunk }
  | .close, s => some { s with inbound := { s.inbound with closed := true } }
  | .segment n more, s =>
    if s.armed ∧ 0 < n ∧ s.inbound.Answers s.recvSize n ∧ ¬s.exhausted then some (s.segment n more)
    else none
  | .finish res, s =>
    if s.armed ∧ res ≤ 0 ∧ s.inbound.Answers s.recvSize res ∧ (res = -ENOBUFS → s.exhausted) then
      some { s with armed := false, completions := s.completions ++ [⟨res, false, 0, []⟩] }
    else none
  | .handle, s =>
    match s.completions with
    | [] => none
    | cqe :: rest => some ({ s with completions := rest }.recvHandler cqe)
  | .setReceiveHandler, s => some { s with inbox := s.inbox.setReceiveHandler }
  | .stop, s => some { s with quit := true }

/-- The bytes in the completions that were not handled yet. -/
def inFlight (s : UringConnection) : Bytes := (s.completions.map RecvCompletion.segment).flatten

def Reaches (cfg : RecvSettings) (condition : UringConnection → Act → Prop) (s : UringConnection) :
    Prop :=
  GuardedRuns.Run act condition (start cfg) s

end UringConnection

end Ichor
