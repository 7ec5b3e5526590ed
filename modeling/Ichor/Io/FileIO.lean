import Ichor.Io.Errors
import Ichor.Lib.Runs
import Ichor.Stl.StringUtils

/-! `IOUringAsyncFileIO`: each call is a coroutine that submits operations to the ring and is
resumed by the handlers of their completions. The kernel completes what is pending in any order,
except that the second open of a copy is linked to the first one. -/
namespace Ichor

/-- `_bufferSize`, `_bufferBatchSize` with the size of the ring, and `std::string::max_size`. -/
structure FileSettings where
  bufferSize : ℕ
  maxSubmissions : ℕ
  maxStringSize : ℕ
  bufferSize_pos : 0 < bufferSize
  maxSubmissions_pos : 0 < maxSubmissions

inductive FileOperation where
  | readWholeFile
  | copyFile
  | removeFile
  | writeFile (contents : Bytes)
  | appendFile (contents : Bytes)

inductive OpenMode where
  | readOnly | truncate | append
  deriving DecidableEq

/-- A submission to the ring, with the flag that its handler has captured. -/
inductive FileOp where
  | openat (mode : OpenMode)
  | statx (fd : ℤ)
  | read (fd : ℤ) (offset length : ℕ) (isLastInBatch : Bool)
  | write (fd : ℤ) (data : Bytes) (isLastInBatch : Bool)
  | unlinkat
  | close (fd : ℤ)
  deriving DecidableEq

/-- The frame of the coroutine, what it has submitted and what the kernel has answered, the file
that is written to, and the values that the coroutine has returned. -/
structure FileCall where
  shouldStop : Bool
  res : ℤ
  fromFd : ℤ
  toFd : ℤ
  contents : Bytes
  sizeLeft : ℕ
  fileSize : ℕ
  pending : List FileOp
  answers : List (FileOp × ℤ)
  target : Bytes
  finished : List (Except IOError Bytes)
  /-- A consistency check has failed. -/
  terminated : Bool
  /-- The kernel was given a freed buffer, or a handler ran after the coroutine had ended. -/
  undefined : Bool

namespace FileCall

def submit (s : FileCall) (op : FileOp) : FileCall := { s with pending := s.pending ++ [op] }

def finish (s : FileCall) (result : Except IOError Bytes) : FileCall :=
  { s with finished := s.finished ++ [result] }

/-- What most of the continuations begin with: a stop or a negative result ends the call. -/
def checked (s : FileCall) (res : ℤ) (next : FileCall → FileCall) : FileCall :=
  if s.shouldStop then s.finish (.error .serviceStopped)
  else if res < 0 then s.finish (.error (mapErrnoToError (-res)))
  else next s

section
variable (cfg : FileSettings) (file : Bytes)

/-! ## `readWholeFile` -/

/-- The loop of `recursiveSubmitReadWholeFile` and of `recursiveSubmitCopyFile`, which differ in
the handlers only. -/
def submitReads : ℕ → ℕ → FileCall → FileCall
  | 0, _, s => s
  | submissions + 1, offset, s =>
    if s.sizeLeft = 0 then s
    else
      submitReads submissions (offset + cfg.bufferSize)
        { s.submit (.read s.fromFd offset cfg.bufferSize
            (decide (s.sizeLeft < cfg.bufferSize) || decide (submissions = 0))) with
          sizeLeft := s.sizeLeft - cfg.bufferSize }

section
variable (s : FileCall) (fd : ℤ) (offset : ℕ) (isLastInBatch : Bool) (r : ℤ)

/-- `readWholeFile` behind the last `co_await`. -/
def afterReads : FileCall := s.checked s.res fun s => s.finish (.ok s.contents)

def afterSize : FileCall :=
  s.checked s.res fun s =>
    if file.length = 0 then s.finish (.ok [])
    else if cfg.maxStringSize < file.length then s.finish (.error .fileSizeTooBig)
    else submitReads cfg cfg.maxSubmissions 0
      { s with res := 0, fileSize := file.length, sizeLeft := file.length }

def afterOpen : FileCall :=
  s.checked s.res fun s => { s with fromFd := s.res, res := 0 }.submit (.statx s.res)

/-- The handler of a read. -/
def readHandler : FileCall :=
  if s.finished ≠ [] then { s with undefined := true }
  else if s.shouldStop || decide (s.res < 0) then
    if isLastInBatch then s.afterReads else s
  else if r < 0 then
    let s := { s with res := r }
    if isLastInBatch then s.afterReads else s
  else if s.fileSize ≤ s.contents.length then
    let s := { s with res := -2 }
    if isLastInBatch then s.afterReads else s
  else
    let readBytes := r.toNat
    let s := { s with contents := s.contents ++ (file.drop offset).take readBytes }
    if s.contents.length = s.fileSize then
      if !isLastInBatch then { s with terminated := true } else s.afterReads
    else
      -- the rest of a short read goes into the buffer that was just freed
      let s :=
        if readBytes < cfg.bufferSize then
          { s.submit (.read fd (offset + readBytes) (cfg.bufferSize - readBytes) isLastInBatch) with
            undefined := true }
        else s
      if isLastInBatch then submitReads cfg cfg.maxSubmissions (offset + readBytes) s else s

/-! ## `copyFile` -/

def afterCopy : FileCall := s.checked s.res fun s => s.finish (.ok [])

def afterSizeOfSource : FileCall :=
  s.checked s.res fun s =>
    if file.length = 0 then s.finish (.ok [])
    else submitReads cfg cfg.maxSubmissions 0
      { s with res := 0, fileSize := file.length, sizeLeft := file.length }

def afterOpens : FileCall :=
  s.checked s.fromFd fun s =>
    if s.toFd < 0 then s.finish (.error (mapErrnoToError (-s.toFd)))
    else { s with res := 0 }.submit (.statx s.fromFd)

/-- The handler of the read of a block. -/
def copyReadHandler :
    FileCall :=
  if s.finished ≠ [] then { s with undefined := true }
  else if s.shouldStop || decide (s.res < 0) then
    if isLastInBatch then s.afterCopy else s
  else if r < 0 then
    let s := { s with res := r }
    if isLastInBatch then s.afterCopy else s
  else
    let readBytes := r.toNat
    let isLastInWriteBatch := decide (offset + readBytes = s.fileSize)
    let s := s.submit (.write s.toFd ((file.drop offset).take readBytes) isLastInWriteBatch)
    let s :=
      if !isLastInWriteBatch && decide (readBytes < cfg.bufferSize) then
        s.submit (.read fd (offset + readBytes) (cfg.bufferSize - readBytes) isLastInBatch)
      else s
    if !isLastInWriteBatch && isLastInBatch then
      submitReads cfg cfg.maxSubmissions (offset + readBytes) s
    else s

/-- The handler of the write of a block. -/
def copyWriteHandler : FileCall :=
  if s.finished ≠ [] then { s with undefined := true }
  else if s.shouldStop || decide (s.res < 0) then
    if isLastInBatch then s.afterCopy else s
  else if r < 0 then
    let s := { s with res := r }
    if isLastInBatch then s.afterCopy else s
  else if isLastInBatch then s.afterCopy
  else s

/-! ## `writeFile`, `appendFile` and `removeFile` -/

/-- `writeFile` and `appendFile` behind the open; the length is cut to 32 bits. -/
def afterOpenForWriting (contents : Bytes) : FileCall :=
  s.checked s.res fun s =>
    { s with toFd := s.res, res := 0 }.submit
      (.write s.res (contents.take (contents.length % 2 ^ 32)) true)

def afterWrite : FileCall := s.finish (.ok [])

def afterUnlink : FileCall := s.checked s.res fun s => s.finish (.ok [])

end

/-! ## The kernel and the handlers -/

/-- What a call does before it is suspended the first time. -/
def start (op : FileOperation) (shouldStop : Bool) (target : Bytes) : FileCall :=
  let s : FileCall := ⟨shouldStop, 0, -1, 0, [], 0, 0, [], [], target, [], false, false⟩
  if shouldStop then s.finish (.error .serviceStopped)
  else
    match op with
    | .readWholeFile => s.submit (.openat .readOnly)
    | .copyFile => (s.submit (.openat .readOnly)).submit (.openat .truncate)
    | .removeFile => s.submit .unlinkat
    | .writeFile _ => s.submit (.openat .truncate)
    | .appendFile _ => s.submit (.openat .append)

/-- The kernel transfers at most what was asked for and what there is; the opens of a copy are
linked, so the first pending open is answered first. -/
def answerable (index : ℕ) (r : ℤ) : FileOp → Bool
  | .openat _ => decide (index = 0)
  | .read _ offset length _ => decide (r ≤ length) && decide (r ≤ (file.length - offset : ℕ))
  | .write _ data _ => decide (r ≤ data.length)
  | _ => true

/-- The file that is written to, after an operation. -/
def written (target : Bytes) (r : ℤ) : FileOp → Bytes
  | .openat .truncate => if r < 0 then target else []
  | .write _ data _ => target ++ data.take r.toNat
  | _ => target

/-- The handler of a completion, with the part of the coroutine that it resumes. -/
def handle (op : FileOperation) (s : FileCall) (x : FileOp) (r : ℤ) : FileCall :=
  match op, x with
  | .readWholeFile, .openat _ => { s with res := r }.afterOpen
  | .readWholeFile, .statx _ => { s with res := r }.afterSize cfg file
  | .readWholeFile, .read fd offset _ last => s.readHandler cfg file fd offset last r
  | .copyFile, .openat .readOnly => { s with fromFd := r }
  | .copyFile, .openat _ => { s with toFd := r }.afterOpens
  | .copyFile, .statx _ => { s with res := r }.afterSizeOfSource cfg file
  | .copyFile, .read fd offset _ last => s.copyReadHandler cfg file fd offset last r
  | .copyFile, .write _ _ last => s.copyWriteHandler last r
  | .removeFile, .unlinkat => { s with res := r }.afterUnlink
  | .writeFile contents, .openat _ => { s with res := r }.afterOpenForWriting contents
  | .writeFile _, .write _ _ _ => { s with res := r }.afterWrite
  | .appendFile contents, .openat _ => { s with res := r }.afterOpenForWriting contents
  | .appendFile _, .write _ _ _ => { s with res := r }.afterWrite
  | _, _ => s

/-- The call after the kernel has answered the submission at an index, before its handler. -/
def answered (s : FileCall) (index : ℕ) (x : FileOp) (r : ℤ) : FileCall :=
  { s with
    pending := s.pending.eraseIdx index
    answers := s.answers ++ [(x, r)]
    target := written s.target r x }

inductive Act where
  /-- The pending submission at an index is completed with a result. -/
  | complete (index : ℕ) (r : ℤ)
  | stop
  deriving DecidableEq

def act (op : FileOperation) : Act → FileCall → Option FileCall
  | .complete index r, s =>
    if s.terminated then none
    else
      match s.pending[index]? with
      | none => none
      | some x =>
        if answerable file index r x then some (handle cfg file op (s.answered index x r) x r)
        else none
  | .stop, s => if s.terminated then none else some { s with shouldStop := true }

/-- The states of a call in which every step meets the condition. -/
def Reaches (condition : FileCall → Act → Prop) (op : FileOperation) (old : Bytes)
    (s : FileCall) : Prop :=
  ∃ stopped, GuardedRuns.Run (act cfg file op) condition (start op stopped old) s

end

/-- The descriptors that the call has opened. -/
def opened (s : FileCall) : List ℤ :=
  s.answers.filterMap fun a =>
    match a with
    | (.openat _, r) => if r < 0 then none else some r
    | _ => none

/-- The descriptors that the call has closed. -/
def closed (s : FileCall) : List ℤ :=
  s.answers.filterMap fun a =>
    match a with
    | (.close fd, _) => some fd
    | _ => none

end FileCall

end Ichor
