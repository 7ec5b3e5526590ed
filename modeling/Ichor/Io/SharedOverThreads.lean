import Ichor.Io.Errors
import Ichor.Lib.Runs
import Mathlib.Data.List.Basic

/-! `SharedOverThreadsAsyncFileIO`: one I/O thread for all event loops. The instance that starts the
thread also lends it its event queue, and stopping this instance ends the thread. -/
namespace Ichor

universe u

/-- `io_operation_submission`, with the instance that submitted it; the operation may read and
change the file system. -/
structure IoSubmission (ω : Type u) where
  user : ℕ
  fn : ω → Except IOError Unit × ω
  result : Except IOError Unit

/-- Where the I/O thread is: at the loop condition, with the lock before it looks at the queue,
without the lock with a submission that is to be run or whose event is to be pushed, asleep. -/
inductive IoPhase where
  | check
  | drain
  | run (id : ℕ)
  | push (id : ℕ)
  | sleep
  | done
  deriving DecidableEq

/-- The thread, with the instance that owns it and the event loop whose queue it has captured. -/
structure IoThread where
  owner : ℕ
  queue : ℕ
  phase : IoPhase

/-- The static members, the instances, what waits in the event queues and what has happened. The
submissions are numbered in their order. -/
structure SharedIo (ω : Type u) where
  initialized : Bool
  ioThread : Option IoThread
  /-- The instances whose `_should_stop` is set; a restart does not reset it. -/
  shouldStop : List ℕ
  /-- The instances that are started and whose stop has not returned. -/
  users : List ℕ
  /-- The instances that wait for the thread in their stop. -/
  joining : List ℕ
  submissions : List (IoSubmission ω)
  evts : List ℕ
  /-- The pushed events, each with the event loop that will handle it. -/
  queued : List (ℕ × ℕ)
  world : ω
  /-- The submissions that were run, with the file system and the result. -/
  ran : List (ℕ × ω × Except IOError Unit)
  /-- The coroutines that were resumed: the submission, the event loop and the result they see. -/
  resumed : List (ℕ × ℕ × Except IOError Unit)

namespace SharedIo

inductive Act (ω : Type u) where
  | start (user : ℕ)
  | stop (user : ℕ)
  /-- `join` returns, and with it the stop. -/
  | joined (user : ℕ)
  | submit (user : ℕ) (fn : ω → Except IOError Unit × ω)
  /-- One step of the I/O thread. -/
  | ioThread
  /-- An event loop handles one of the pushed events. -/
  | handle (index : ℕ)

variable {ω : Type u}

def initial (world : ω) : SharedIo ω :=
  ⟨false, none, [], [], [], [], [], [], world, [], []⟩

section
-- the event loop of an instance
variable (loopOf : ℕ → ℕ)

/-- An event loop that waits in `join` does nothing else. -/
def blocked (s : SharedIo ω) (loop : ℕ) : Bool :=
  s.joining.any fun user => loopOf user == loop

def start (s : SharedIo ω) (user : ℕ) : SharedIo ω :=
  let s := { s with users := user :: s.users }
  if s.initialized then s
  else { s with initialized := true, ioThread := some ⟨user, loopOf user, .check⟩ }

def stop (s : SharedIo ω) (user : ℕ) : SharedIo ω :=
  match s.ioThread with
  | some thread =>
    if thread.owner = user then
      { s with shouldStop := user :: s.shouldStop, joining := user :: s.joining }
    else { s with users := s.users.erase user }
  | none => { s with users := s.users.erase user }

def joined (s : SharedIo ω) (user : ℕ) : SharedIo ω :=
  { s with
    initialized := false
    ioThread := none
    joining := s.joining.erase user
    users := s.users.erase user }

/-- The operations push their submission and wait for its event. -/
def submit (s : SharedIo ω) (user : ℕ) (fn : ω → Except IOError Unit × ω) : SharedIo ω :=
  { s with
    submissions := s.submissions ++ [⟨user, fn, .ok ()⟩]
    evts := s.evts ++ [s.submissions.length] }

/-- `submission->fn(submission->result)`. -/
def runSubmission (s : SharedIo ω) (id : ℕ) : SharedIo ω :=
  match s.submissions[id]? with
  | none => s
  | some submission =>
    let (result, world) := submission.fn s.world
    { s with
      submissions := s.submissions.set id { submission with result := result }
      world := world
      ran := s.ran ++ [(id, s.world, result)] }

/-- The thread goes on to a phase. -/
def goTo (s : SharedIo ω) (thread : IoThread) (phase : IoPhase) : SharedIo ω :=
  { s with ioThread := some { thread with phase := phase } }

/-- One step of the thread's loop. -/
def threadStep (s : SharedIo ω) (thread : IoThread) : Option (SharedIo ω) :=
  match thread.phase with
  | .check => some (s.goTo thread (if thread.owner ∈ s.shouldStop then .done else .drain))
  | .drain =>
    match s.evts with
    | [] => some (s.goTo thread .sleep)
    | id :: rest => some ({ s with evts := rest }.goTo thread (.run id))
  | .run id => some ((s.runSubmission id).goTo thread (.push id))
  | .push id => some ({ s with queued := s.queued ++ [(thread.queue, id)] }.goTo thread .drain)
  | .sleep => some (s.goTo thread .check)
  | .done => none

/-- `submission->evt.set()` on the event loop that got the event. -/
def handle (s : SharedIo ω) (index : ℕ) : Option (SharedIo ω) :=
  match s.queued[index]? with
  | none => none
  | some (loop, id) =>
    if s.blocked loopOf loop then none
    else
      match s.submissions[id]? with
      | none => none
      | some submission =>
        some { s with
          queued := s.queued.eraseIdx index
          resumed := s.resumed ++ [(id, loop, submission.result)] }

def act : Act ω → SharedIo ω → Option (SharedIo ω)
  | .start user, s =>
    if user ∈ s.users ∨ s.blocked loopOf (loopOf user) then none else some (s.start loopOf user)
  | .stop user, s =>
    if user ∈ s.users ∧ ¬s.blocked loopOf (loopOf user) then some (s.stop user) else none
  | .joined user, s =>
    match s.ioThread with
    | some thread =>
      if user ∈ s.joining ∧ thread.owner = user ∧ thread.phase = .done then some (s.joined user)
      else none
    | none => none
  | .submit user fn, s =>
    if user ∈ s.users ∧ ¬s.blocked loopOf (loopOf user) then some (s.submit user fn) else none
  | .ioThread, s => s.ioThread.bind (threadStep s)
  | .handle index, s => s.handle loopOf index

/-- Submissions are made while a thread of the own event loop runs that is not told to stop, and its
owner is stopped only when every submission was taken. -/
def SubmitsToRunning (s : SharedIo ω) : Act ω → Prop
  | .submit user _ => ∃ thread, s.ioThread = some thread ∧ thread.owner ∉ s.shouldStop ∧
      thread.queue = loopOf user
  | .stop user => ∀ thread, s.ioThread = some thread → thread.owner = user → s.evts = []
  | _ => True

/-- The states in which every step meets a condition. -/
def Reaches (condition : SharedIo ω → Act ω → Prop) (world : ω) (s : SharedIo ω) : Prop :=
  GuardedRuns.Run (act loopOf) condition (initial world) s

/-- Everything that a step can do. -/
inductive Moves (s : SharedIo ω) : Act ω → SharedIo ω → Prop where
  | begins (user : ℕ) : s.initialized = false →
      Moves s (.start user) { s with
        users := user :: s.users
        initialized := true
        ioThread := some ⟨user, loopOf user, .check⟩ }
  | joins (user : ℕ) : s.initialized = true →
      Moves s (.start user) { s with users := user :: s.users }
  | stops (thread : IoThread) : s.ioThread = some thread → thread.owner ∈ s.users →
      Moves s (.stop thread.owner) { s with
        shouldStop := thread.owner :: s.shouldStop
        joining := thread.owner :: s.joining }
  | leaves (user : ℕ) : (∀ thread, s.ioThread = some thread → thread.owner ≠ user) →
      Moves s (.stop user) { s with users := s.users.erase user }
  | joined (thread : IoThread) : s.ioThread = some thread → thread.phase = .done →
      Moves s (.joined thread.owner) (s.joined thread.owner)
  | submits (user : ℕ) (fn : ω → Except IOError Unit × ω) :
      Moves s (.submit user fn) (s.submit user fn)
  | checks (thread : IoThread) : s.ioThread = some thread → thread.phase = .check →
      Moves s .ioThread (s.goTo thread (if thread.owner ∈ s.shouldStop then .done else .drain))
  | rests (thread : IoThread) : s.ioThread = some thread → thread.phase = .drain → s.evts = [] →
      Moves s .ioThread (s.goTo thread .sleep)
  | takes (thread : IoThread) (id : ℕ) (rest : List ℕ) : s.ioThread = some thread →
      thread.phase = .drain → s.evts = id :: rest →
      Moves s .ioThread ({ s with evts := rest }.goTo thread (.run id))
  | runs (thread : IoThread) (id : ℕ) : s.ioThread = some thread → thread.phase = .run id →
      Moves s .ioThread ((s.runSubmission id).goTo thread (.push id))
  | pushes (thread : IoThread) (id : ℕ) : s.ioThread = some thread → thread.phase = .push id →
      Moves s .ioThread ({ s with queued := s.queued ++ [(thread.queue, id)] }.goTo thread .drain)
  | wakes (thread : IoThread) : s.ioThread = some thread → thread.phase = .sleep →
      Moves s .ioThread (s.goTo thread .check)
  | resumes (index loop id : ℕ) (submission : IoSubmission ω) :
      s.queued[index]? = some (loop, id) → s.submissions[id]? = some submission →
      Moves s (.handle index) { s with
        queued := s.queued.eraseIdx index
        resumed := s.resumed ++ [(id, loop, submission.result)] }

variable {loopOf} {s t : SharedIo ω}

theorem moves_threadStep {thread : IoThread} (hthread : s.ioThread = some thread)
    (h : threadStep s thread = some t) : Moves loopOf s .ioThread t := by
  unfold threadStep at h
  split at h
  · rename_i hphase
    cases h
    exact .checks thread hthread hphase
  · rename_i hphase
    split at h
    · rename_i hevts
      cases h
      exact .rests thread hthread hphase hevts
    · rename_i id rest hevts
      cases h
      exact .takes thread id rest hthread hphase hevts
  · rename_i id hphase
    cases h
    exact .runs thread id hthread hphase
  · rename_i id hphase
    cases h
    exact .pushes thread id hthread hphase
  · rename_i hphase
    cases h
    exact .wakes thread hthread hphase
  · cases h

theorem moves_stop {user : ℕ} (huser : user ∈ s.users) : Moves loopOf s (.stop user) (s.stop user) := by
  unfold stop
  split
  · rename_i thread hthread
    split
    · rename_i howner
      subst howner
      exact .stops thread hthread huser
    · rename_i howner
      refine .leaves user fun thread' hthread' => ?_
      rw [hthread] at hthread'
      cases hthread'
      exact howner
  · rename_i hthread
    refine .leaves user fun thread' hthread' => ?_
    rw [hthread] at hthread'
    cases hthread'

theorem moves_handle {index : ℕ} (h : s.handle loopOf index = some t) :
    Moves loopOf s (.handle index) t := by
  unfold handle at h
  split at h
  · cases h
  · rename_i loop id hqueued
    split at h
    · cases h
    · split at h
      · cases h
      · rename_i submission hsubmission
        cases h
        exact .resumes index loop id submission hqueued hsubmission

theorem moves {a : Act ω} (h : act loopOf a s = some t) : Moves loopOf s a t := by
  cases a with
  | start user =>
    simp only [act] at h
    split at h
    · cases h
    · cases h
      unfold start
      dsimp only
      split
      · rename_i hinit
        exact .joins user hinit
      · rename_i hinit
        exact .begins user (by simpa using hinit)
  | stop user =>
    simp only [act] at h
    split at h
    · rename_i hguard
      cases h
      exact moves_stop hguard.1
    · cases h
  | joined user =>
    simp only [act] at h
    split at h
    · rename_i thread hthread
      split at h
      · rename_i hguard
        obtain ⟨-, howner, hphase⟩ := hguard
        subst howner
        cases h
        exact .joined thread hthread hphase
      · cases h
    · cases h
  | submit user fn =>
    simp only [act] at h
    split at h
    · cases h
      exact .submits user fn
    · cases h
  | ioThread =>
    obtain ⟨thread, hthread, hstep⟩ := Option.bind_eq_some_iff.mp h
    exact moves_threadStep hthread hstep
  | handle index => exact moves_handle h

end

end SharedIo

end Ichor
