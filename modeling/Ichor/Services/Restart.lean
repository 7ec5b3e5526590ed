import Ichor.Tcp.PollingSend
import Ichor.Timer.TimerFactory

/-! A service instance that is stopped and started again, compared with a new one: what the two
answer to the same requests. -/
namespace Ichor

/-- What a request is answered with, and the state behind it unless the process has terminated. -/
structure Reply (σ ω : Type) where
  outcome : ω
  state : Option σ

section Outcomes

variable {σ ρ ω : Type} (answer : ρ → σ → Reply σ ω)

/-- The answers to the requests, up to the end of the process. -/
def outcomes : List ρ → σ → List ω
  | [], _ => []
  | request :: rest, s =>
    (answer request s).outcome :: ((answer request s).state.elim [] (outcomes rest))

variable {answer}

theorem outcomes_ne_of_head {request : ρ} {s t : σ} (rest : List ρ)
    (h : (answer request s).outcome ≠ (answer request t).outcome) :
    outcomes answer (request :: rest) s ≠ outcomes answer (request :: rest) t :=
  fun heq => h (List.cons.inj heq).1

theorem outcomes_eq (alike : σ → σ → Prop) {requests : List ρ}
    (h : ∀ request ∈ requests, ∀ s t, alike s t →
      (answer request s).outcome = (answer request t).outcome ∧
        Option.Rel alike (answer request s).state (answer request t).state)
    {s t : σ} (hst : alike s t) : outcomes answer requests s = outcomes answer requests t := by
  induction requests generalizing s t with
  | nil => rfl
  | cons request rest ih =>
    obtain ⟨hout, hstate⟩ := h request List.mem_cons_self s t hst
    unfold outcomes
    rw [hout]
    refine congrArg _ ?_
    generalize (answer request s).state = s' at hstate
    generalize (answer request t).state = t' at hstate
    cases hstate with
    | none => rfl
    | some hnext => exact ih (fun q hq => h q (List.mem_cons_of_mem _ hq)) hnext

end Outcomes

/-! ## `TimerFactoryFactory` -/

structure TimerFactoryFactory where
  quitting : Bool
  /-- The requesters that have a timer factory. -/
  factories : List ℕ

namespace TimerFactoryFactory

def fresh : TimerFactoryFactory := ⟨false, []⟩

inductive Request where
  | dependencyRequest (requester : ℕ)
  /-- `present`: the manager has the timer factory of the requester. -/
  | dependencyUndoRequest (requester : ℕ) (present : Bool)
  | stop

inductive Outcome where
  | ignored
  | created (requester : ℕ)
  | stopped (requesters : List ℕ)
  | terminated
  deriving DecidableEq

def answer : Request → TimerFactoryFactory → Reply TimerFactoryFactory Outcome
  | .dependencyRequest requester, s =>
    if s.quitting then ⟨.ignored, some s⟩
    else if requester ∈ s.factories then ⟨.ignored, some s⟩
    else ⟨.created requester, some { s with factories := requester :: s.factories }⟩
  | .dependencyUndoRequest requester present, s =>
    if s.quitting then ⟨.ignored, some s⟩
    else if requester ∈ s.factories then
      ⟨if present then .stopped [requester] else .ignored,
        some { s with factories := s.factories.erase requester }⟩
    else ⟨.ignored, some s⟩
  | .stop, s =>
    if s.quitting then ⟨.terminated, none⟩ else ⟨.stopped s.factories, some ⟨true, []⟩⟩

/-- `start` registers the tracker; it sets no member. -/
def start (s : TimerFactoryFactory) : TimerFactoryFactory := s

def Request.isUndo : Request → Bool
  | .dependencyUndoRequest _ _ => true
  | _ => false

theorem outcomes_iff (requests : List Request) :
    outcomes answer requests (start ⟨true, []⟩) = outcomes answer requests (start fresh) ↔
      ∀ request ∈ requests, request.isUndo = true := by
  constructor
  · -- The undo requests before the first other request are ignored by both.
    induction requests with
    | nil => exact fun _ => nofun
    | cons request rest ih =>
      intro heq
      cases request with
      | dependencyRequest requester | stop => exact absurd heq (outcomes_ne_of_head rest nofun)
      | dependencyUndoRequest requester present =>
        intro request hmem
        rcases List.mem_cons.mp hmem with rfl | hmem
        · rfl
        · exact ih (List.cons.inj heq).2 request hmem
  · intro hundo
    refine outcomes_eq (fun s t => s = ⟨true, []⟩ ∧ t = fresh) ?_ ⟨rfl, rfl⟩
    rintro request hmem s t ⟨rfl, rfl⟩
    cases request with
    | dependencyUndoRequest requester present => exact ⟨rfl, .some ⟨rfl, rfl⟩⟩
    | _ => exact absurd (hundo _ hmem) nofun

end TimerFactoryFactory

/-! ## `TimerFactory` -/

namespace TimerFactory

inductive Request where
  | createTimer (id : ℕ)
  | stop

inductive Outcome where
  | created
  /-- `stop` returns, and has stopped so many timers. -/
  | stopped (timers : ℕ)
  | waiting
  | terminated
  deriving DecidableEq

/-- `createTimer` and `stop` of a hardened build, between which no timer is started. A `stop` that finds
the timers being stopped waits for the event only; the other one returns when every timer has stopped. -/
def answer : Request → TimerFactory → Reply TimerFactory Outcome
  | .createTimer id, s =>
    match act (.createTimer id) s with
    | none => ⟨.terminated, none⟩
    | some s' => ⟨.created, some s'⟩
  | .stop, s =>
    if s.stoppingTimers then ⟨if s.quitEvt then .stopped 0 else .waiting, some s⟩
    else ⟨.stopped s.timers.length, some { s with
      timers := s.timers.map fun t => { t with state := .stopped, registered := false }
      stoppingTimers := true, stoppedTimers := s.timers.length, quitEvt := true }⟩

/-- There is no `start` of its own. -/
def start (s : TimerFactory) : TimerFactory := s

def Request.isCreate : Request → Bool
  | .createTimer _ => true
  | .stop => false

def Finished (s : TimerFactory) : Prop := s.stoppingTimers = true ∧ s.quitEvt = true

variable {s : TimerFactory}

theorem outcomes_finished (requests : List Request) {t : TimerFactory} (hs : s.Finished)
    (ht : t.Finished) : outcomes answer requests s = outcomes answer requests t := by
  refine outcomes_eq (fun s t => s.Finished ∧ t.Finished) ?_ ⟨hs, ht⟩
  rintro request - s t ⟨hs, ht⟩
  cases request with
  | createTimer id =>
    simp only [answer, act, hs.1, ht.1, true_or, if_true, true_and]
    exact .none
  | stop =>
    simp only [answer, hs.1, ht.1, hs.2, ht.2, if_true, true_and]
    exact .some ⟨hs, ht⟩

theorem finished_of_stop {t : TimerFactory} {n : ℕ} (h : answer .stop s = ⟨.stopped n, some t⟩) :
    t.Finished := by
  simp only [answer] at h
  split_ifs at h with hstopping hquit
  · cases h
    exact ⟨hstopping, hquit⟩
  · cases h
  · cases h
    exact ⟨rfl, rfl⟩

theorem outcomes_iff (requests : List Request) (hs : s.Finished) :
    outcomes answer requests s.start = outcomes answer requests initial.start ↔
      ∀ request ∈ requests.head?, request.isCreate = false := by
  cases requests with
  | nil => exact ⟨fun _ => nofun, fun _ => rfl⟩
  | cons request rest =>
    cases request with
    | createTimer id =>
      refine ⟨fun heq => absurd heq (outcomes_ne_of_head rest ?_), fun h => absurd (h _ rfl) nofun⟩
      simp [answer, act, start, hs.1, initial, breaksGrowth]
    | stop =>
      refine ⟨fun _ => by simp [Request.isCreate], fun _ => ?_⟩
      unfold outcomes
      simp only [answer, start, hs.1, hs.2, if_true]
      exact congrArg _ (outcomes_finished rest hs ⟨rfl, rfl⟩)

end TimerFactory

/-! ## `TcpConnectionService` -/

namespace TcpConnectionService

def fresh : TcpConnectionService := ⟨false, -1⟩

/-- `start` takes the descriptor of the properties, or the one it has, or a new one. -/
def start (given : Option ℤ) (new : ℤ) (s : TcpConnectionService) : TcpConnectionService :=
  { s with socket := given.getD (if s.socket = -1 then new else s.socket) }

inductive Request where
  /-- A message, and what `send` answers for it. -/
  | sendAsync (msg : Bytes) (answers : List SendAnswer)
  | stop

inductive Outcome where
  /-- The end of the call, if its loop ends with these answers. -/
  | sent (result : Option SendEnd)
  | stopped

/-- `stop` closes the descriptor, which keeps its value. -/
def answer : Request → TcpConnectionService → Reply TcpConnectionService Outcome
  | .sendAsync msg answers, s => ⟨.sent (s.sendAsync msg answers).result, some s⟩
  | .stop, s => ⟨.stopped, some { s with quit := true }⟩

def Request.isSend : Request → Bool
  | .sendAsync _ _ => true
  | .stop => false

theorem outcomes_quit (requests : List Request) {s t : TcpConnectionService} (hs : s.quit = true)
    (ht : t.quit = true) : outcomes answer requests s = outcomes answer requests t := by
  refine outcomes_eq (fun s t => s.quit = true ∧ t.quit = true) ?_ ⟨hs, ht⟩
  rintro request - s t ⟨hs, ht⟩
  cases request with
  | sendAsync msg answers =>
    simp only [answer, sendAsync, hs, ht, if_true, true_and]
    exact .some ⟨hs, ht⟩
  | stop => exact ⟨rfl, .some ⟨rfl, rfl⟩⟩

theorem outcomes_iff (requests : List Request) {s : TcpConnectionService} (hs : s.quit = true)
    (given : Option ℤ) (new new' : ℤ) :
    outcomes answer requests (s.start given new) = outcomes answer requests (fresh.start given new') ↔
      ∀ request ∈ requests.head?, request.isSend = false := by
  cases requests with
  | nil => exact ⟨fun _ => nofun, fun _ => rfl⟩
  | cons request rest =>
    cases request with
    | sendAsync msg answers =>
      refine ⟨fun heq => absurd heq (outcomes_ne_of_head rest ?_), fun h => absurd (h _ rfl) nofun⟩
      intro hsame
      have hmem := sendFrom_returned msg answers 0
      simp only [answer, start, sendAsync, hs, fresh, if_true, Bool.false_eq_true, if_false,
        Outcome.sent.injEq] at hsame
      rw [← hsame] at hmem
      simp at hmem
    | stop =>
      refine ⟨fun _ => by simp [Request.isSend], fun _ => ?_⟩
      exact congrArg (Outcome.stopped :: ·) (outcomes_quit rest rfl rfl)

end TcpConnectionService

/-! ## Restarts -/

/-- An instance that was stopped, in whatever state, and started again answers like a new one only as
long as it is not asked for what it is there for: a timer factory factory has nothing but undo
requests to answer, and a timer factory and a connection are stopped first. -/
theorem restart_transparent_iff {manager manager' : TimerFactoryFactory}
    {factory factory' : TimerFactory} {connection connection' : TcpConnectionService} {n : ℕ}
    (hmanager : (TimerFactoryFactory.answer .stop manager).state = some manager')
    (hfactory : TimerFactory.answer .stop factory = ⟨.stopped n, some factory'⟩)
    (hconnection : (TcpConnectionService.answer .stop connection).state = some connection')
    (ofManager : List TimerFactoryFactory.Request) (ofFactory : List TimerFactory.Request)
    (ofConnection : List TcpConnectionService.Request) (given : Option ℤ) (new new' : ℤ) :
    (outcomes TimerFactoryFactory.answer ofManager manager'.start =
        outcomes TimerFactoryFactory.answer ofManager TimerFactoryFactory.fresh.start ↔
      ∀ request ∈ ofManager, request.isUndo = true) ∧
    (outcomes TimerFactory.answer ofFactory factory'.start =
        outcomes TimerFactory.answer ofFactory TimerFactory.initial.start ↔
      ∀ request ∈ ofFactory.head?, request.isCreate = false) ∧
    (outcomes TcpConnectionService.answer ofConnection (connection'.start given new) =
        outcomes TcpConnectionService.answer ofConnection
          (TcpConnectionService.fresh.start given new') ↔
      ∀ request ∈ ofConnection.head?, request.isSend = false) := by
  refine ⟨?_, TimerFactory.outcomes_iff ofFactory (TimerFactory.finished_of_stop hfactory), ?_⟩
  · simp only [TimerFactoryFactory.answer] at hmanager
    split_ifs at hmanager
    cases hmanager
    exact TimerFactoryFactory.outcomes_iff ofManager
  · cases hconnection
    exact TcpConnectionService.outcomes_iff ofConnection rfl given new new'

/-- Undo requests of two services, and a factory and a connection that are stopped twice. -/
theorem restart_transparent_undo :
    outcomes TimerFactoryFactory.answer [.dependencyUndoRequest 3 true, .dependencyUndoRequest 4 true]
        (TimerFactoryFactory.start ⟨true, []⟩) =
      outcomes TimerFactoryFactory.answer [.dependencyUndoRequest 3 true, .dependencyUndoRequest 4 true]
        TimerFactoryFactory.fresh.start := by
  have hmanager : (TimerFactoryFactory.answer .stop ⟨false, [3]⟩).state = some ⟨true, []⟩ := rfl
  have hfactory : TimerFactory.answer .stop .initial = ⟨.stopped 0, some _⟩ := rfl
  have hconnection : (TcpConnectionService.answer .stop .fresh).state = some _ := rfl
  exact (restart_transparent_iff hmanager hfactory hconnection _ [.stop] [.stop] none 4 5).1.mpr
    (by decide)

/-- A restarted timer factory factory ignores a dependency request and terminates at its second stop, a
restarted timer factory terminates when a timer is created, and a restarted connection sends nothing. -/
theorem restart_observable : (TimerFactoryFactory.answer .stop .fresh).state.map
        (fun s => outcomes TimerFactoryFactory.answer [.dependencyRequest 3, .stop] s.start) =
        some [.ignored, .terminated] ∧
      outcomes TimerFactoryFactory.answer [.dependencyRequest 3, .stop] TimerFactoryFactory.fresh.start =
        [.created 3, .stopped [3]] ∧
      (TimerFactory.answer .stop .initial).state.map
        (fun s => outcomes TimerFactory.answer [.createTimer 1] s.start) = some [.terminated] ∧
      outcomes TimerFactory.answer [.createTimer 1] TimerFactory.initial.start = [.created] ∧
      (TcpConnectionService.answer .stop (.start none 4 .fresh)).state.map
        (fun s => outcomes TcpConnectionService.answer [.sendAsync [1, 2] [.took 2]] (s.start none 5)) =
        some [.sent (some (.returned (.error .serviceQuitting)))] ∧
      outcomes TcpConnectionService.answer [.sendAsync [1, 2] [.took 2]] (.start none 5 .fresh) =
        [.sent (some (.returned (.ok ())))] :=
  ⟨rfl, rfl, rfl, rfl, rfl, rfl⟩

end Ichor
