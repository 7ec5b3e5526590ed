import Ichor.Timer.Timer
import Mathlib.Data.List.Count

/-! `TimerFactory`: `stopAllTimers` stops every timer with a callback that counts, and waits for the
event that the last callback sets. The timers live in a vector, and the thread of a timer keeps the
address that the timer had when it was started: a call that moves such a timer has no outcome. -/
namespace Ichor
open List

/-- A timer of the factory; `registered` while the callback of `stopAllTimers` is in its list, and
`thread` from its first start on. -/
structure FactoryTimer where
  id : ℕ
  state : TimerState
  registered : Bool
  thread : Bool
  deriving DecidableEq

structure TimerFactory where
  timers : List FactoryTimer
  /-- How many timers the vector holds before it moves them. -/
  capacity : ℕ
  stoppingTimers : Bool
  stoppedTimers : ℕ
  quitEvt : Bool
  /-- The next timer of the loop in `stopAllTimers`. -/
  loop : Option ℕ
  /-- Callbacks of `stopAllTimers` in events that have not been processed. -/
  queued : ℕ
  deriving DecidableEq

namespace TimerFactory

def initial : TimerFactory := ⟨[], 0, false, 0, false, none, 0⟩

/-- The callback that `stopAllTimers` gives to each timer. -/
def callback (s : TimerFactory) : TimerFactory :=
  { s with
    stoppedTimers := s.stoppedTimers + 1
    quitEvt := s.quitEvt || decide (s.stoppedTimers + 1 = s.timers.length) }

/-- `Timer::stopTimer` for the timer at the index. -/
def stopTimer (s : TimerFactory) (index : ℕ) (t : FactoryTimer) : TimerFactory :=
  if t.state = .running ∨ t.state = .stopping then
    { s with timers := s.timers.set index { t with state := .stopping, registered := true } }
  else s.callback

/-- One round of the loop, and what follows it. -/
def next (s : TimerFactory) (index : ℕ) : TimerFactory :=
  match s.timers[index]? with
  | some t => { s.stopTimer index t with loop := some (index + 1) }
  | none => { s with loop := none, quitEvt := s.quitEvt || s.timers.isEmpty }

/-- What the thread of a timer, or its user, does to the timer's state. -/
inductive TimerMove where
  | start | begin | halt | exit

def TimerMove.ofUser : TimerMove → Bool
  | .start => true
  | _ => false

/-- A start, its thread that begins to run, a stop or the firing of a fire-once timer, and the scope
guard of the thread. -/
def TimerMove.states : TimerMove → TimerState × TimerState
  | .start => (.stopped, .starting)
  | .begin => (.starting, .running)
  | .halt => (.running, .stopping)
  | .exit => (.stopping, .stopped)

def TimerMove.apply (m : TimerMove) (t : FactoryTimer) : FactoryTimer :=
  { t with
    state := m.states.2
    registered := t.registered && decide (m.states.2 ≠ .stopped)
    thread := t.thread || m.ofUser }

/-- The capacity behind `emplace_back`, which doubles it when the vector is full. -/
def grownCapacity (s : TimerFactory) : ℕ :=
  if s.timers.length = s.capacity then s.capacity + max 1 s.capacity else s.capacity

/-- A full vector moves every timer, which a thread at work does not survive. -/
def breaksGrowth (s : TimerFactory) : Bool :=
  s.timers.length == s.capacity && s.timers.any (·.state != .stopped)

def erases (id : ℕ) (t : FactoryTimer) : Bool := t.id == id && t.state != .running

/-- `erase_if` moves the timers behind the erased one forward: none of them may have a thread at work,
and the erased timer, which is overwritten without a join, may never have been started. A timer that
is STARTING is waited for by its destructor until it has fired and ended by itself. -/
def breaksErase (s : TimerFactory) (id : ℕ) : Bool :=
  let moved := (s.timers.dropWhile (!erases id ·)).filter (!erases id ·)
  let erased := s.timers.filter (erases id)
  erased.any (·.state == .starting) ||
    !moved.isEmpty && (moved.any (·.state != .stopped) || erased.any (·.thread))

inductive Act where
  | createTimer (id : ℕ)
  | move (index : ℕ) (m : TimerMove)
  | stopAllTimers
  | next
  | callback
  | destroyTimerIfStopped (id : ℕ)

/-- A timer is created and started only while the timers are not being stopped: `getTimerById`
terminates otherwise. While the loop runs, only the threads of the timers take steps. -/
def act : Act → TimerFactory → Option TimerFactory
  | .createTimer id, s =>
    if s.stoppingTimers ∨ s.breaksGrowth then none
    else some { s with
      timers := s.timers ++ [⟨id, .stopped, false, false⟩]
      capacity := s.grownCapacity }
  | .move index m, s =>
    match s.timers[index]? with
    | none => none
    | some t =>
      if t.state ≠ m.states.1 ∨ m.ofUser ∧ s.stoppingTimers then none
      else some { s with
        timers := s.timers.set index (m.apply t)
        queued := s.queued + (t.registered && decide (m.states.2 = .stopped)).toNat }
  | .stopAllTimers, s =>
    if s.loop ≠ none then none
    else if s.stoppingTimers then some s
    else some { s with stoppingTimers := true, stoppedTimers := 0, loop := some 0 }
  | .next, s => s.loop.map s.next
  | .callback, s =>
    if s.loop ≠ none ∨ s.queued = 0 then none
    else some { s with queued := s.queued - 1 }.callback
  | .destroyTimerIfStopped id, s =>
    if s.loop ≠ none ∨ s.breaksErase id then none
    else
      -- The destructor waits for the thread, whose scope guard queues the callback.
      some { s with
        timers := s.timers.filter (!erases id ·)
        queued := s.queued + (s.timers.filter (erases id)).countP (·.registered) }

def Reaches (condition : TimerFactory → Act → Prop) (s : TimerFactory) : Prop :=
  GuardedRuns.Run act condition initial s

/-- No timer is destroyed while the timers are being stopped, and none is STARTING when the loop stops
it. -/
def Steady (s : TimerFactory) : Act → Prop
  | .next => ∀ t ∈ s.loop.bind (s.timers[·]?), t.state ≠ .starting
  | .destroyTimerIfStopped _ => s.stoppingTimers = false
  | _ => True

instance (s : TimerFactory) : DecidablePred s.Steady
  | .next => inferInstanceAs (Decidable (∀ t ∈ (_ : Option FactoryTimer), _))
  | .destroyTimerIfStopped _ => inferInstanceAs (Decidable (_ = _))
  | .createTimer _ | .move _ _ | .stopAllTimers | .callback => inferInstanceAs (Decidable True)

/-- How many timers the loop has stopped. -/
def passed (s : TimerFactory) : ℕ := s.loop.getD s.timers.length

def awaited (timers : List FactoryTimer) : ℕ := timers.countP (·.registered)

/-- The books of `stopAllTimers`: a timer that the loop has stopped waits for its end with the callback
or has ended, and every callback was counted, is queued or waits. -/
structure Counts (s : TimerFactory) : Prop where
  free : s.stoppingTimers = false → s.loop = none ∧ s.queued = 0 ∧ s.quitEvt = false ∧
    ∀ t ∈ s.timers, t.registered = false
  passed_le : s.passed ≤ s.timers.length
  timer : s.stoppingTimers = true → ∀ i t, s.timers[i]? = some t →
    (i < s.passed → t.state = if t.registered then .stopping else .stopped) ∧
      (s.passed ≤ i → t.registered = false)
  total : s.stoppingTimers = true → s.stoppedTimers + s.queued + awaited s.timers = s.passed
  quit : s.stoppingTimers = true →
    (s.quitEvt = true ↔ s.stoppedTimers = s.timers.length ∧ (s.loop = none ∨ s.timers ≠ []))

variable {s s' : TimerFactory} {index : ℕ} {t : FactoryTimer} {timers : List FactoryTimer}

theorem awaited_set (hget : timers[index]? = some t) (t' : FactoryTimer) :
    awaited (timers.set index t') + t.registered.toNat = awaited timers + t'.registered.toNat := by
  obtain ⟨hlt, rfl⟩ := List.getElem?_eq_some_iff.mp hget
  have hpos : timers[index].registered.toNat ≤ awaited timers := by
    cases hold : timers[index].registered with
    | false => exact Nat.zero_le _
    | true => exact countP_pos_iff.mpr ⟨_, getElem_mem hlt, hold⟩
  have hif : ∀ b : Bool, (if b = true then 1 else 0) = b.toNat := by decide
  unfold awaited at hpos ⊢
  rw [countP_set hlt, hif, hif]
  omega

theorem getElem?_set_cases {t' u : FactoryTimer} {i : ℕ}
    (hu : (timers.set index t')[i]? = some u) : index = i ∧ u = t' ∨ index ≠ i ∧ timers[i]? = some u := by
  rw [getElem?_set] at hu
  split_ifs at hu with heq hlt
  · exact .inl ⟨heq, (Option.some.inj hu).symm⟩
  · exact .inr ⟨heq, hu⟩

theorem Counts.stopping (h : s.Counts) (hloop : s.loop = some index) : s.stoppingTimers = true := by
  cases hstopping : s.stoppingTimers with
  | true => rfl
  | false => exact absurd ((h.free hstopping).1.symm.trans hloop) nofun

variable {m : TimerMove}

theorem Counts.moves (h : s.Counts) (hstopping : s.stoppingTimers = true)
    (hget : s.timers[index]? = some t) (hstate : t.state = m.states.1)
    (huser : ¬(m.ofUser = true ∧ s.stoppingTimers = true)) (hpassed : index < s.passed) :
    t.registered = true ∧ m = .exit := by
  have ht := (h.timer hstopping index t hget).1 hpassed
  rw [hstate] at ht
  cases hreg : t.registered with
  | true =>
    rw [hreg] at ht
    refine ⟨rfl, ?_⟩
    cases m with
    | exit => rfl
    | _ => exact absurd ht nofun
  | false =>
    rw [hreg] at ht
    cases m with
    | start => exact absurd ⟨rfl, hstopping⟩ huser
    | _ => exact absurd ht nofun

theorem move_inv (hs : act (.move index m) s = some s') :
    ∃ t, s.timers[index]? = some t ∧ t.state = m.states.1 ∧
      ¬(m.ofUser = true ∧ s.stoppingTimers = true) ∧ s' = { s with
        timers := s.timers.set index (m.apply t)
        queued := s.queued + (t.registered && decide (m.states.2 = .stopped)).toNat } := by
  simp only [act] at hs
  cases hget : s.timers[index]? with
  | none =>
    rw [hget] at hs
    cases hs
  | some t =>
    rw [hget] at hs
    simp only at hs
    by_cases hbad : t.state ≠ m.states.1 ∨ m.ofUser ∧ s.stoppingTimers
    · rw [if_pos hbad] at hs
      cases hs
    rw [if_neg hbad] at hs
    obtain ⟨hstate, huser⟩ := not_or.mp hbad
    exact ⟨t, rfl, not_not.mp hstate, huser, (Option.some.inj hs).symm⟩

theorem Counts.move (h : s.Counts) (hs : act (.move index m) s = some s') : s'.Counts := by
  obtain ⟨t, hget, hstate, huser, rfl⟩ := move_inv hs
  have hmem := List.mem_of_getElem? hget
  refine ⟨fun hfree => ?_, ?_, fun hstopping i u hu => ?_, fun hstopping => ?_, fun hstopping => ?_⟩
  · obtain ⟨hloop, hqueued, hquit, hreg⟩ := h.free hfree
    refine ⟨hloop, ?_, hquit, fun u hu => ?_⟩
    · simp [hqueued, hreg t hmem]
    · rcases mem_or_eq_of_mem_set hu with hu | rfl
      · exact hreg u hu
      · simp [TimerMove.apply, hreg t hmem]
  · simpa [passed] using h.passed_le
  · rcases getElem?_set_cases hu with ⟨rfl, rfl⟩ | ⟨-, hu⟩
    · refine ⟨fun hi => ?_, fun hi => ?_⟩
      · obtain ⟨-, rfl⟩ := h.moves hstopping hget hstate huser (by simpa [passed] using hi)
        simp [TimerMove.apply, TimerMove.states]
      · simp [TimerMove.apply, (h.timer hstopping index t hget).2 (by simpa [passed] using hi)]
    · simpa [passed] using h.timer hstopping i u hu
  · have htotal := h.total hstopping
    have hset := awaited_set hget (m.apply t)
    simp only [passed, length_set] at htotal ⊢
    cases hreg : t.registered <;> by_cases hstop : m.states.2 = .stopped
    all_goals
      simp only [TimerMove.apply, hreg, hstop, Bool.toNat_true, Bool.toNat_false, Bool.true_and,
        Bool.false_and, decide_true, decide_false, ne_eq, not_true, not_false_iff] at hset ⊢
      omega
  · simpa using h.quit hstopping

theorem Counts.next (h : s.Counts) (hloop : s.loop = some index)
    (hsteady : ∀ t ∈ s.timers[index]?, t.state ≠ .starting) : (s.next index).Counts := by
  have hstopping := h.stopping hloop
  have htotal := h.total hstopping
  have hle := h.passed_le
  have hpassed : s.passed = index := by rw [passed, hloop, Option.getD_some]
  have hnot : ∀ {r : TimerFactory}, r.stoppingTimers = s.stoppingTimers →
      r.stoppingTimers = false → False := fun heq hfree => by
    rw [heq, hstopping] at hfree
    cases hfree
  unfold TimerFactory.next
  cases hget : s.timers[index]? with
  | none =>
    have hlen : s.timers.length = index := by
      have hge := getElem?_eq_none_iff.mp hget
      omega
    refine ⟨fun hfree => (hnot rfl hfree).elim, Nat.le_refl _, fun _ i t ht => ?_, fun _ => ?_, fun _ => ?_⟩
    · have hold := h.timer hstopping i t ht
      rw [hpassed, ← hlen] at hold
      exact hold
    · exact (htotal.trans hpassed).trans hlen.symm
    · have hquit := h.quit hstopping
      simp only [Bool.or_eq_true, List.isEmpty_iff, true_or, and_true]
      rw [hquit]
      by_cases hnil : s.timers = []
      · simp only [hnil, List.length_nil, awaited, List.countP_nil] at htotal hlen ⊢
        simp only [or_true, true_iff]
        omega
      · simp [hnil]
  | some t =>
    have hlt := (List.getElem?_eq_some_iff.mp hget).1
    have hreg := (h.timer hstopping index t hget).2 (Nat.le_of_eq hpassed)
    have hne : s.timers ≠ [] := List.ne_nil_of_mem (List.mem_of_getElem? hget)
    have hstop := hsteady t hget
    have hother : ∀ i u, i ≠ index → s.timers[i]? = some u →
        (i < index + 1 → u.state = if u.registered then .stopping else .stopped) ∧
          (index + 1 ≤ i → u.registered = false) := by
      intro i u hi hu
      have hold := h.timer hstopping i u hu
      rw [hpassed] at hold
      exact ⟨fun hlt => hold.1 (by omega), fun hle => hold.2 (by omega)⟩
    simp only [stopTimer]
    by_cases hrun : t.state = .running ∨ t.state = .stopping
    · rw [if_pos hrun]
      have hset := awaited_set hget { t with state := .stopping, registered := true }
      rw [hreg] at hset
      refine ⟨fun hfree => (hnot rfl hfree).elim, ?_, fun _ i u hu => ?_, fun _ => ?_, fun _ => ?_⟩
      · show index + 1 ≤ (s.timers.set index _).length
        rw [length_set]
        exact hlt
      · show (i < index + 1 → _) ∧ (index + 1 ≤ i → _)
        rcases getElem?_set_cases hu with ⟨rfl, rfl⟩ | ⟨hi, hu⟩
        · exact ⟨fun _ => rfl, fun hi => absurd hi (Nat.not_succ_le_self _)⟩
        · exact hother i u (Ne.symm hi) hu
      · show s.stoppedTimers + s.queued + awaited (s.timers.set index _) = index + 1
        simp only [Bool.toNat_true, Bool.toNat_false] at hset
        omega
      · simpa [hloop] using h.quit hstopping
    · have hstopped : t.state = .stopped := by
        cases hstate : t.state with
        | stopped => rfl
        | starting => exact absurd hstate hstop
        | _ => exact absurd hstate (by tauto)
      rw [if_neg hrun]
      have hquit : s.quitEvt = false := by
        rw [← Bool.not_eq_true, h.quit hstopping]
        rintro ⟨heq, -⟩
        omega
      refine ⟨fun hfree => (hnot rfl hfree).elim, hlt, fun _ i u hu => ?_, fun _ => ?_, fun _ => ?_⟩
      · show (i < index + 1 → _) ∧ (index + 1 ≤ i → _)
        by_cases hi : i = index
        · subst hi
          obtain rfl : t = u := Option.some.inj (hget.symm.trans hu)
          rw [hreg]
          exact ⟨fun _ => hstopped, fun _ => rfl⟩
        · exact hother i u hi hu
      · show s.stoppedTimers + 1 + s.queued + awaited s.timers = index + 1
        omega
      · simp [callback, hquit, hne]

theorem counts_of_reaches (h : Reaches Steady s) : s.Counts := by
  refine h.invariant Counts ?_ ?_
  · exact ⟨fun _ => ⟨rfl, rfl, rfl, nofun⟩, Nat.le_refl 0, nofun, nofun, nofun⟩
  intro s a s' h hg hs
  cases a with
  | move index m => exact h.move hs
  | next =>
    obtain ⟨index, hloop, rfl⟩ := Option.map_eq_some_iff.mp hs
    refine h.next hloop fun t ht => hg t ?_
    rw [hloop]
    exact ht
  | createTimer id =>
    simp only [act] at hs
    split_ifs at hs with hbad
    cases hs
    have hstopping := (not_or.mp hbad).1
    have hfree := Bool.eq_false_iff.mpr hstopping
    obtain ⟨hloop, hqueued, hquit, hreg⟩ := h.free hfree
    refine ⟨fun _ => ⟨hloop, hqueued, hquit, fun t ht => ?_⟩, ?_, ?_, ?_, ?_⟩
    · rcases mem_append.mp ht with ht | ht
      · exact hreg t ht
      · rw [mem_singleton.mp ht]
    · simp [passed, hloop]
    all_goals exact fun hs => absurd hs hstopping
  | stopAllTimers =>
    simp only [act] at hs
    split_ifs at hs with hloop hstopping
    · cases hs
      exact h
    · cases hs
      obtain ⟨-, hqueued, hquit, hreg⟩ := h.free (Bool.eq_false_iff.mpr hstopping)
      refine ⟨nofun, Nat.zero_le _, fun _ i t ht => ?_, fun _ => ?_, fun _ => ?_⟩
      · exact ⟨fun hi => absurd hi (Nat.not_lt_zero i), fun _ => hreg t (List.mem_of_getElem? ht)⟩
      · have hawaited : awaited s.timers = 0 := countP_eq_zero.mpr fun t ht => by simp [hreg t ht]
        simp [hqueued, hawaited, passed]
      · simp [hquit, eq_comm]
  | callback =>
    simp only [act] at hs
    split_ifs at hs with hbad
    cases hs
    obtain ⟨hloop, hqueued⟩ := not_or.mp hbad
    have hloop := not_not.mp hloop
    have hstopping : s.stoppingTimers = true := by
      by_contra hfree
      exact hqueued (h.free (Bool.eq_false_iff.mpr hfree)).2.1
    have htotal := h.total hstopping
    have hpassed : s.passed = s.timers.length := by rw [passed, hloop, Option.getD_none]
    have hquit : s.quitEvt = false := by
      rw [← Bool.not_eq_true, h.quit hstopping]
      rintro ⟨heq, -⟩
      omega
    refine ⟨fun hfree => ?_, h.passed_le, fun _ => h.timer hstopping, fun _ => ?_, fun _ => ?_⟩
    · exact absurd (hstopping.symm.trans hfree) nofun
    · show s.stoppedTimers + 1 + (s.queued - 1) + awaited s.timers = s.passed
      omega
    · simp [callback, hquit, hloop]
  | destroyTimerIfStopped id =>
    simp only [act] at hs
    split_ifs at hs
    cases hs
    have hfree : s.stoppingTimers = false := hg
    obtain ⟨hloop, hqueued, hquit, hreg⟩ := h.free hfree
    refine ⟨fun _ => ⟨hloop, ?_, hquit, fun t ht => hreg t (mem_of_mem_filter ht)⟩, ?_, ?_, ?_, ?_⟩
    · have herased : (s.timers.filter (erases id)).countP (·.registered) = 0 :=
        countP_eq_zero.mpr fun t ht => by simp [hreg t (mem_of_mem_filter ht)]
      rw [hqueued, herased]
    · simp [passed, hloop]
    all_goals exact fun hs => absurd (hfree.symm.trans hs) nofun

/-- What is left to do until the event is set. -/
def toDo (s : TimerFactory) : ℕ := s.queued + 2 * awaited s.timers

theorem Counts.stopped_iff (h : s.Counts) (hstopping : s.stoppingTimers = true)
    (hpassed : s.passed = s.timers.length) :
    (∀ t ∈ s.timers, t.state = .stopped) ↔ awaited s.timers = 0 := by
  refine Iff.trans (forall₂_congr fun t ht => ?_) countP_eq_zero.symm
  obtain ⟨i, hlt, rfl⟩ := getElem_of_mem ht
  rw [(h.timer hstopping i _ (getElem?_eq_getElem hlt)).1 (hpassed ▸ hlt)]
  cases s.timers[i].registered with
  | true => exact ⟨nofun, fun hx => absurd rfl hx⟩
  | false => exact ⟨fun _ => nofun, fun _ => rfl⟩

theorem Counts.nearer (h : s.Counts) (hstopping : s.stoppingTimers = true) (hloop : s.loop = none)
    {a : Act} (hg : s.Steady a) (hs : act a s = some s') : s' = s ∨ s'.toDo < s.toDo := by
  cases a with
  | createTimer id =>
    simp only [act] at hs
    rw [if_pos (.inl hstopping)] at hs
    cases hs
  | move index m =>
    obtain ⟨t, hget, hstate, huser, rfl⟩ := move_inv hs
    have hlt : index < s.passed := by
      rw [passed, hloop]
      exact (List.getElem?_eq_some_iff.mp hget).1
    obtain ⟨hreg, rfl⟩ := h.moves hstopping hget hstate huser hlt
    have hset := awaited_set hget (TimerMove.exit.apply t)
    right
    simp only [toDo, hreg, TimerMove.apply, TimerMove.states, ne_eq, not_true, decide_false, decide_true,
      Bool.and_false, Bool.and_true, Bool.toNat_true, Bool.toNat_false] at hset ⊢
    omega
  | stopAllTimers =>
    simp only [act] at hs
    rw [if_neg (not_not.mpr hloop), if_pos hstopping] at hs
    exact .inl (Option.some.inj hs).symm
  | next =>
    simp only [act, hloop, Option.map_none] at hs
    cases hs
  | callback =>
    simp only [act] at hs
    split_ifs at hs with hbad
    cases hs
    right
    have hqueued := (not_or.mp hbad).2
    show s.queued - 1 + 2 * awaited s.timers < s.queued + 2 * awaited s.timers
    omega
  | destroyTimerIfStopped id => cases hstopping.symm.trans hg

/-- The event is set only when every timer has stopped. Behind the loop it is set exactly when that is so
and the callbacks have run; until then a thread that ends or a queued callback brings that nearer, and
nothing else happens. -/
theorem barrier (h : Reaches Steady s) : (s.quitEvt = true → ∀ t ∈ s.timers, t.state = .stopped) ∧
      (s.stoppingTimers = true → s.loop = none →
        (s.quitEvt = true ↔ (∀ t ∈ s.timers, t.state = .stopped) ∧ s.queued = 0) ∧
        (s.quitEvt = false → 0 < s.queued ∨ ∃ t ∈ s.timers, t.state = .stopping) ∧
        ∀ a s', s.Steady a → act a s = some s' → s' = s ∨ s'.toDo < s.toDo) := by
  have hc := counts_of_reaches h
  refine ⟨fun hquit => ?_, fun hstopping hloop => ⟨?_, fun hquit => ?_, fun a s' =>
    hc.nearer hstopping hloop⟩⟩
  · have hstopping : s.stoppingTimers = true := by
      by_contra hfree
      exact absurd (hquit.symm.trans (hc.free (Bool.eq_false_iff.mpr hfree)).2.2.1) nofun
    have hall := ((hc.quit hstopping).mp hquit).1
    have htotal := hc.total hstopping
    have hle := hc.passed_le
    exact (hc.stopped_iff hstopping (by omega)).mpr (by omega)
  all_goals
    have hpassed : s.passed = s.timers.length := by rw [passed, hloop, Option.getD_none]
    have htotal := hc.total hstopping
    have hiff := hc.quit hstopping
    have hstopped := hc.stopped_iff hstopping hpassed
    simp only [hloop, true_or, and_true] at hiff
  · rw [hiff, hstopped]
    omega
  · have hnot : s.stoppedTimers ≠ s.timers.length := fun heq => by simp [hiff.mpr heq] at hquit
    by_cases hqueued : s.queued = 0
    · right
      obtain ⟨t, ht, hreg⟩ := countP_pos_iff.mp (show 0 < awaited s.timers by omega)
      obtain ⟨i, hlt, rfl⟩ := getElem_of_mem ht
      refine ⟨_, ht, ?_⟩
      rw [(hc.timer hstopping i _ (getElem?_eq_getElem hlt)).1 (hpassed ▸ hlt), hreg]
      rfl
    · exact .inl (Nat.pos_of_ne_zero hqueued)

/-- Three timers, one that runs, one that is stopped and one that is stopping by itself. -/
theorem barrier_three : ∃ s, Reaches Steady s ∧ s.timers.length = 3 ∧ s.quitEvt = true ∧
    ∀ t ∈ s.timers, t.state = .stopped := by
  have hplay : (GuardedRuns.exec act (fun s a => decide (s.Steady a))
      [.createTimer 1, .createTimer 2, .createTimer 3, .move 0 .start, .move 0 .begin, .move 2 .start,
        .move 2 .begin, .move 2 .halt, .stopAllTimers, .next, .next, .move 0 .exit, .next, .next,
        .callback, .move 2 .exit, .callback] initial).map (fun s => (s.timers.length, s.quitEvt)) =
      some (3, true) := by decide
  obtain ⟨s, hs, heq⟩ := Option.map_eq_some_iff.mp hplay
  have hreach : Reaches Steady s := GuardedRuns.exec_run _ _ _ (fun _ _ h => of_decide_eq_true h) hs
  have hquit : s.quitEvt = true := congrArg Prod.snd heq
  exact ⟨s, hreach, congrArg Prod.fst heq, hquit, (barrier hreach).1 hquit⟩

/-- The timer created last has stopped and is destroyed while another one stops: both callbacks run, and
the event is not set. A timer that is STARTING counts as stopped, and the event is set before the timer
runs. A timer that has been started is moved when a second one is created. -/
theorem barrier_missed :
    (∃ s, Reaches (fun _ _ => True) s ∧ s.stoppingTimers = true ∧ s.loop = none ∧ s.queued = 0 ∧
      (∀ t ∈ s.timers, t.state = .stopped) ∧ s.quitEvt = false) ∧
      (∃ s, Reaches (fun _ _ => True) s ∧ s.quitEvt = true ∧ ∃ t ∈ s.timers, t.state = .running) ∧
      ∃ s, Reaches (fun _ _ => True) s ∧ s.stoppingTimers = false ∧ act (.createTimer 2) s = none := by
  refine ⟨⟨_, GuardedRuns.run_exec [.createTimer 1, .createTimer 2, .move 0 .start, .move 0 .begin,
      .move 1 .start, .move 1 .begin, .stopAllTimers, .next, .next, .next, .move 1 .exit, .callback,
      .destroyTimerIfStopped 2, .move 0 .exit, .callback] rfl, rfl, rfl, rfl, ?_, rfl⟩,
    ⟨_, GuardedRuns.run_exec [.createTimer 1, .move 0 .start, .stopAllTimers, .next, .next,
      .move 0 .begin] rfl, rfl, ?_⟩,
    _, GuardedRuns.run_exec [.createTimer 1, .move 0 .start, .move 0 .begin] rfl, rfl, rfl⟩
  · decide
  · decide

end TimerFactory

end Ichor
