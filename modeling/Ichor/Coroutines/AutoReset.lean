import Ichor.Lib.Runs
import Mathlib.Algebra.Group.Nat.Defs
import Mathlib.Data.List.Nodup

/-! `AsyncAutoResetEvent` on one thread: coroutines await, set and reset the event, also those that a
running `set` or `set_all` has just resumed. -/
namespace Ichor
open List Nat

/-- What runs below the coroutine that has control: the loop of `resume_waiters` with the operations
it has left, or `set_all` with the operations that waited when it was called and its rounds. -/
inductive AutoFrame where
  | resuming (left : List ℕ)
  | setAll (waiting : List ℕ) (rounds : ℕ)
  deriving DecidableEq

/-- The event with its word and its two lists, and the calls that are running, innermost first.
Beside them stand the sets that nobody has used yet, the operations that were suspended and those
that were resumed, in their order, and what waited for the calls of `set_all` that have returned. -/
structure AutoThread where
  state : ℕ
  newWaiters : List ℕ
  waiters : List ℕ
  running : List AutoFrame
  ops : ℕ
  unconsumed : ℕ
  waited : List ℕ
  resumed : List ℕ
  returned : List (List ℕ)
  deriving DecidableEq

namespace AutoThread

def initial (initiallySet : Bool) : AutoThread :=
  ⟨initiallySet.toNat, [], [], [], 0, initiallySet.toNat, [], [], []⟩

def setIncrement : ℕ := 1
def waiterIncrement : ℕ := 2 ^ 32

def setCount (state : ℕ) : ℕ := state % 2 ^ 32
def waiterCount (state : ℕ) : ℕ := state / 2 ^ 32 % 2 ^ 32
def resumableWaiterCount (state : ℕ) : ℕ := min (setCount state) (waiterCount state)

def add (state n : ℕ) : ℕ := (state + n) % 2 ^ 64
def sub (state n : ℕ) : ℕ := (state + (2 ^ 64 - n % 2 ^ 64)) % 2 ^ 64

/-- The operations that are suspended, the oldest first. -/
def line (s : AutoThread) : List ℕ := s.waiters ++ s.newWaiters.reverse

/-- Take so many operations from the two lists; the new ones are reversed when the others are used
up. `none` where an assertion fails. -/
def dequeue : ℕ → List ℕ → List ℕ → Option (List ℕ × List ℕ × List ℕ)
  | 0, waiters, newWaiters => some ([], waiters, newWaiters)
  | n + 1, w :: waiters, newWaiters =>
    (dequeue n waiters newWaiters).map fun r => (w :: r.1, r.2)
  | n + 1, [], newWaiters =>
    match newWaiters.reverse with
    | [] => none
    | w :: waiters => (dequeue n waiters []).map fun r => (w :: r.1, r.2)

/-- The innermost loop goes on. -/
def resumeNext (s : AutoThread) : AutoThread :=
  match s.running with
  | .resuming (op :: left) :: rest =>
    { s with running := .resuming left :: rest, resumed := s.resumed ++ [op] }
  | .resuming [] :: rest => { s with running := rest }
  | _ => s

/-- `resume_waiters`. Its first round leaves nothing to resume, as nobody else changes the word. -/
def resumeWaiters (s : AutoThread) : Option AutoThread :=
  let n := resumableWaiterCount s.state
  (dequeue n s.waiters s.newWaiters).map fun (list, waiters, newWaiters) =>
    { s with
      waiters := waiters
      newWaiters := newWaiters
      state := sub s.state (n + n * 2 ^ 32)
      running := .resuming list :: s.running }.resumeNext

def isSet (s : AutoThread) : Bool := waiterCount s.state < setCount s.state

/-- `set`, and a round of `set_all`, for an event that is not set. -/
def raise (s : AutoThread) : Option AutoThread :=
  let raised := { s with state := add s.state setIncrement }
  if s.state ≠ 0 ∧ setCount s.state = 0 then raised.resumeWaiters
  else some { raised with unconsumed := s.unconsumed + 1 }

/-- The event was set and is not any more. -/
def consume (s : AutoThread) : AutoThread :=
  { s with state := sub s.state setIncrement, unconsumed := s.unconsumed - 1 }

inductive Act where
  | await
  | set
  | setAll
  | reset
  /-- The coroutine that runs gives control back. -/
  | next

def act : Act → AutoThread → Option AutoThread
  | .await, s =>
    if s.isSet then some { s.consume with ops := s.ops + 1 }
    else
      let queued := { s with
        newWaiters := s.ops :: s.newWaiters
        state := add s.state waiterIncrement
        ops := s.ops + 1
        waited := s.waited ++ [s.ops] }
      -- `operator co_await` has just found the event not set
      if s.state ≠ 0 ∧ waiterCount s.state = 0 then queued.resumeWaiters else some queued
  | .set, s => if s.isSet then some s else s.raise
  | .setAll, s => some { s with running := .setAll s.line 0 :: s.running }
  | .reset, s => some (if s.isSet then s.consume else s)
  | .next, s =>
    match s.running with
    | [] => none
    | .setAll waiting rounds :: rest =>
      if s.isSet then some { s with running := rest, returned := waiting :: s.returned }
      else { s with running := .setAll waiting (rounds + 1) :: rest }.raise
    | .resuming _ :: _ => some s.resumeNext

/-- Fewer than `2 ^ 32` operations wait. -/
def Room (s : AutoThread) : Act → Prop
  | .await => s.line.length + 1 < 2 ^ 32
  | _ => True

def Reaches (condition : AutoThread → Act → Prop) (initiallySet : Bool) (s : AutoThread) : Prop :=
  GuardedRuns.Run act condition (initial initiallySet) s

/-- The first operations that waited for a call of `set_all`, as many as it made rounds, are resumed:
they follow each other among all operations that were suspended. -/
def Progress (s : AutoThread) (waiting : List ℕ) (rounds : ℕ) : Prop :=
  ∃ start, waiting <+: s.waited.drop start ∧ start + min rounds waiting.length ≤ s.resumed.length

/-- The word holds the sets and the suspended operations, and one of the two numbers is zero. -/
structure WordCounts (s : AutoThread) : Prop where
  word : s.state = s.unconsumed + 2 ^ 32 * s.line.length
  sets : s.unconsumed = 0 ∨ s.unconsumed = 1 ∧ s.line = []
  small : s.line.length < 2 ^ 32

/-- The operations are resumed in the order of their suspension, and nothing that `set_all` waits for
is passed over. -/
structure Fifo (s : AutoThread) : Prop where
  counted : WordCounts s
  fifo : s.waited = s.resumed ++ s.line
  once : s.waited.Nodup
  fresh : ∀ op ∈ s.waited, op < s.ops
  resuming : ∀ left, .resuming left ∈ s.running → left = []
  setAll : ∀ l rounds, .setAll l rounds ∈ s.running → Progress s l rounds
  returned : ∀ l ∈ s.returned, ∀ op ∈ l, op ∈ s.resumed

variable {s s' : AutoThread}

theorem dequeue_one {op : ℕ} {rest : List ℕ} (h : s.line = op :: rest) :
    ∃ waiters newWaiters, dequeue 1 s.waiters s.newWaiters = some ([op], waiters, newWaiters) ∧
      waiters ++ newWaiters.reverse = rest := by
  unfold line at h
  cases hw : s.waiters with
  | nil =>
    rw [hw, nil_append] at h
    exact ⟨rest, [], by simp [dequeue, h], by simp⟩
  | cons w waiters =>
    rw [hw, cons_append, List.cons.injEq] at h
    exact ⟨waiters, s.newWaiters, by simp [dequeue, h.1], h.2⟩

theorem WordCounts.isSet_iff (h : WordCounts s) : s.isSet = true ↔ s.unconsumed = 1 := by
  obtain ⟨hword, hsets, hsmall⟩ := h
  simp only [isSet, waiterCount, setCount, hword, decide_eq_true_eq]
  rcases hsets with hsets | ⟨hsets, hline⟩
  · omega
  · simp [hsets, hline]

/-- An event that is not set and for which nobody waits becomes set; otherwise the first operation is
resumed. -/
theorem WordCounts.raise (h : WordCounts s) (hnot : ¬s.isSet = true) :
    s.line = [] ∧ s.raise = some { s with state := 1, unconsumed := 1 } ∨
    ∃ op waiters newWaiters, s.line = op :: (waiters ++ newWaiters.reverse) ∧
      s.raise = some { s with
        waiters := waiters
        newWaiters := newWaiters
        state := 2 ^ 32 * (waiters ++ newWaiters.reverse).length
        running := .resuming [] :: s.running
        resumed := s.resumed ++ [op] } := by
  have hsets : s.unconsumed = 0 := h.sets.resolve_right fun h1 => hnot (h.isSet_iff.mpr h1.1)
  obtain ⟨hword, -, hsmall⟩ := h
  rw [hsets, zero_add] at hword
  cases hline : s.line with
  | nil => exact .inl ⟨rfl, by simp [AutoThread.raise, hword, hline, hsets, add, setIncrement]⟩
  | cons op rest =>
    rw [hline, length_cons] at hword hsmall
    obtain ⟨waiters, newWaiters, hdequeue, rfl⟩ := dequeue_one hline
    refine .inr ⟨op, waiters, newWaiters, rfl, ?_⟩
    set n := (waiters ++ newWaiters.reverse).length
    have hlock : s.state ≠ 0 ∧ setCount s.state = 0 := ⟨by omega, by unfold setCount; omega⟩
    have hadd : add s.state setIncrement = 1 + 2 ^ 32 * (n + 1) := by
      unfold add setIncrement
      omega
    have hcount : resumableWaiterCount (1 + 2 ^ 32 * (n + 1)) = 1 := by
      unfold resumableWaiterCount setCount waiterCount
      omega
    have hsub : sub (1 + 2 ^ 32 * (n + 1)) (1 + 1 * 2 ^ 32) = 2 ^ 32 * n := by
      unfold sub
      omega
    simp only [AutoThread.raise, if_pos hlock, resumeWaiters, hadd, hcount, hdequeue, hsub,
      Option.map_some, resumeNext]

/-- What `set` and a round of `set_all` do to an event that is not set. -/
theorem WordCounts.raised (h : WordCounts s) (hnot : ¬s.isSet = true) :
    ∃ s', s.raise = some s' ∧ s.running <:+ s'.running ∧
      s'.resumed = s.resumed ++ s.line.head?.toList ∧ s'.line = s.line.tail ∧
      (s'.unconsumed = 1 ↔ s.line = []) := by
  have hone : s.unconsumed ≠ 1 := fun h1 => hnot (h.isSet_iff.mpr h1)
  rcases h.raise hnot with ⟨hline, hraise⟩ | ⟨op, waiters, newWaiters, hline, hraise⟩
  · refine ⟨_, hraise, suffix_refl _, ?_⟩
    rw [hline]
    exact ⟨(append_nil _).symm, hline, fun _ => rfl, fun _ => rfl⟩
  · refine ⟨_, hraise, suffix_cons _ _, ?_⟩
    rw [hline]
    exact ⟨rfl, rfl, fun h1 => absurd h1 hone, fun hno => by cases hno⟩

variable {l : List ℕ} {rounds : ℕ}

theorem Progress.mono (h : Progress s l rounds) {more : List ℕ}
    (hwaited : s'.waited = s.waited ++ more) (hresumed : s.resumed.length ≤ s'.resumed.length) :
    Progress s' l rounds := by
  obtain ⟨start, hfront, hlength⟩ := h
  refine ⟨start, ?_, Nat.le_trans hlength hresumed⟩
  rw [hwaited, List.drop_append]
  exact hfront.trans (List.prefix_append _ _)

/-- A round resumes one operation more, or nobody is left to resume. -/
theorem Progress.round (h : Progress s l rounds)
    (hwaited : s'.waited = s.waited) (hresumed : s.resumed.length < s'.resumed.length ∨
      s.waited.length = s.resumed.length ∧ s'.resumed = s.resumed) :
    Progress s' l (rounds + 1) := by
  obtain ⟨start, hfront, hlength⟩ := h
  have hle := hfront.length_le
  rw [length_drop] at hle
  refine ⟨start, hwaited ▸ hfront, ?_⟩
  rcases hresumed with hresumed | ⟨hall, hresumed⟩
  · omega
  · rw [hresumed]
    omega

/-- What a round of `set_all` above the calls `frames`, or `set`, leads to. -/
theorem Fifo.raise (h : Fifo s) (hnot : ¬s.isSet = true) {frames : List AutoFrame}
    (hframes : ∀ f ∈ frames, f ∈ s.running ∨ ∃ l rounds, f = .setAll l (rounds + 1) ∧
      Progress s l rounds)
    (hs : { s with running := frames }.raise = some s') : Fifo s' := by
  obtain ⟨hcounted, hfifo, honce, hfresh, hresuming, hsetAll, hreturned⟩ := h
  have hleft : ∀ left, .resuming left ∈ frames → left = [] := by grind
  have hprogress : ∀ t : AutoThread, t.waited = s.waited → (s.resumed.length < t.resumed.length ∨
      s.waited.length = s.resumed.length ∧ t.resumed = s.resumed) →
      ∀ l rounds, .setAll l rounds ∈ frames → Progress t l rounds := by
    intro t hwaited hresumed l rounds hmem
    rcases hframes _ hmem with hmem | ⟨_, _, heq, hl⟩
    · exact (hsetAll l rounds hmem).mono (hwaited.trans (append_nil _).symm) (by grind)
    · cases heq
      exact hl.round hwaited hresumed
  rcases WordCounts.raise (s := { s with running := frames }) { hcounted with } hnot
    with ⟨hline, hraise⟩ | ⟨op, waiters, newWaiters, hline, hraise⟩
  · cases hraise.symm.trans hs
    have hline : s.line = [] := hline
    rw [hline, append_nil] at hfifo
    refine ⟨⟨?_, .inr ⟨rfl, hline⟩, hcounted.small⟩, ?_, honce, hfresh, hleft,
      hprogress _ rfl (.inr ⟨congrArg _ hfifo, rfl⟩), hreturned⟩
    · exact (congrArg (fun l => 1 + 2 ^ 32 * l.length) hline).symm
    · exact hfifo.trans ((congrArg _ hline).trans (append_nil _)).symm
  · cases hraise.symm.trans hs
    have hline : s.line = op :: (waiters ++ newWaiters.reverse) := hline
    have hsmall := hcounted.small
    rw [hline] at hfifo hsmall
    have hsets := hcounted.sets.resolve_right (by simp [hline])
    refine ⟨⟨?_, .inl hsets, lt_of_succ_lt hsmall⟩, ?_, honce, hfresh, ?_, ?_, ?_⟩
    · exact (congrArg (· + _) hsets |>.trans (zero_add _)).symm
    · simpa [line] using hfifo
    · grind
    · intro l rounds hmem
      rcases mem_cons.mp hmem with heq | hmem
      · cases heq
      · refine hprogress _ ?_ (.inl ?_) l rounds hmem
        · rfl
        · rw [length_append]
          exact lt_succ_self _
    · exact fun l hl op hop => mem_append_left _ (hreturned l hl op hop)

theorem WordCounts.consume (h : WordCounts s) (hset : s.isSet = true) :
    s.line = [] ∧ s.consume = { s with state := 0, unconsumed := 0 } := by
  have hone := h.isSet_iff.mp hset
  have hline := (h.sets.resolve_left (by omega)).2
  have hword := h.word
  rw [hone, hline] at hword
  exact ⟨hline, by simp [AutoThread.consume, hword, hone, sub, setIncrement]⟩

theorem Fifo.consume (h : Fifo s) (hset : s.isSet = true) : Fifo s.consume := by
  obtain ⟨hline, heq⟩ := h.counted.consume hset
  rw [heq]
  refine { h with counted := ⟨?_, .inl rfl, h.counted.small⟩ }
  exact (congrArg (fun l => 0 + 2 ^ 32 * l.length) hline).symm

/-- `await_suspend` finds nothing to resume, as `operator co_await` found the event not set. -/
theorem act_await (hnot : ¬s.isSet = true) (hword : s.state < 2 ^ 64) :
    act .await s = some { s with
      newWaiters := s.ops :: s.newWaiters
      state := add s.state waiterIncrement
      ops := s.ops + 1
      waited := s.waited ++ [s.ops] } := by
  have hle : setCount s.state ≤ waiterCount s.state := by simpa [isSet] using hnot
  have hlock : ¬(s.state ≠ 0 ∧ waiterCount s.state = 0) := by
    unfold setCount waiterCount at *
    omega
  simp only [act, if_neg hnot, if_neg hlock]

/-- A call returns. -/
theorem Fifo.pop (h : Fifo s) {rest : List AutoFrame} (hrest : ∀ f ∈ rest, f ∈ s.running) :
    Fifo { s with running := rest } :=
  { h with
    counted := { h.counted with }
    resuming := fun l hl => h.resuming l (hrest _ hl)
    setAll := fun l n hl => h.setAll l n (hrest _ hl) }

theorem Fifo.act (h : Fifo s) {a : Act} (hroom : Room s a) (hs : act a s = some s') :
    Fifo s' := by
  cases a with
  | set =>
    simp only [AutoThread.act] at hs
    split at hs
    · exact Option.some.inj hs ▸ h
    · exact h.raise ‹_› (fun f hf => .inl hf) hs
  | reset =>
    obtain rfl := Option.some.inj hs
    split
    · exact h.consume ‹_›
    · exact h
  | setAll =>
    obtain rfl := Option.some.inj hs
    refine { h with counted := { h.counted with }, resuming := ?_, setAll := fun l rounds hmem => ?_ }
    · have hresuming := h.resuming
      grind
    rcases mem_cons.mp hmem with heq | hmem
    · cases heq
      exact ⟨s.resumed.length, by simp [h.fifo], by simp⟩
    · exact h.setAll l rounds hmem
  | next =>
    simp only [AutoThread.act] at hs
    split at hs
    · cases hs
    · rename_i waiting rounds rest hrunning
      have hmem : .setAll waiting rounds ∈ s.running := hrunning ▸ mem_cons_self
      have hrest : ∀ f ∈ rest, f ∈ s.running := fun f hf => hrunning ▸ mem_cons_of_mem _ hf
      split at hs
      · obtain rfl := Option.some.inj hs
        have hline := (h.counted.consume ‹_›).1
        have hpop := h.pop hrest
        refine { hpop with counted := { hpop.counted with }, returned := fun l hl op hop => ?_ }
        rcases mem_cons.mp hl with rfl | hl
        · obtain ⟨start, hfront, -⟩ := h.setAll _ _ hmem
          have hfifo := h.fifo
          rw [hline, append_nil] at hfifo
          exact hfifo ▸ mem_of_mem_drop (hfront.subset hop)
        · exact h.returned l hl op hop
      · refine h.raise ‹_› (fun f hf => ?_) hs
        rcases mem_cons.mp hf with rfl | hf
        · exact .inr ⟨waiting, rounds, rfl, h.setAll _ _ hmem⟩
        · exact .inl (hrest f hf)
    · rename_i left rest hrunning
      obtain rfl := h.resuming left (hrunning ▸ mem_cons_self)
      obtain rfl := Option.some.inj hs
      simp only [resumeNext, hrunning]
      exact h.pop fun f hf => hrunning ▸ mem_cons_of_mem _ hf
  | await =>
    by_cases hset : s.isSet = true
    · simp only [AutoThread.act, if_pos hset] at hs
      have hconsume := h.consume ‹_›
      rw [(h.counted.consume ‹_›).2] at hs hconsume
      obtain rfl := Option.some.inj hs
      exact { hconsume with
        counted := { hconsume.counted with }
        fresh := fun op hop => lt_succ_of_lt (hconsume.fresh op hop) }
    · obtain ⟨hcounted, hfifo, honce, hfresh, hresuming, hsetAll, hreturned⟩ := h
      have hsets := hcounted.sets.resolve_right fun h1 => hset (hcounted.isSet_iff.mpr h1.1)
      have hroom : s.line.length + 1 < 2 ^ 32 := hroom
      have hword := hcounted.word
      have hadd : add s.state waiterIncrement = 2 ^ 32 * (s.line.length + 1) := by
        unfold add waiterIncrement
        omega
      rw [act_await hset (by omega), hadd] at hs
      obtain rfl := Option.some.inj hs
      have hlength : (s.line ++ [s.ops]).length = s.line.length + 1 := length_append
      have hline : ∀ t : AutoThread, t.waiters = s.waiters → t.newWaiters = s.ops :: s.newWaiters →
          t.line = s.line ++ [s.ops] := fun t h1 h2 => by simp [line, h1, h2]
      refine ⟨⟨?_, .inl hsets, ?_⟩, ?_, ?_, ?_, hresuming, ?_, hreturned⟩
      · simp only [hline, hlength, hsets, zero_add]
      · simp only [hline, hlength, hroom]
      · simp only [hline, hfifo, append_assoc]
      · exact honce.append (nodup_singleton _)
          (List.disjoint_singleton.mpr fun hmem => Nat.lt_irrefl _ (hfresh _ hmem))
      · grind
      · exact fun l n hl => (hsetAll l n hl).mono rfl (Nat.le_refl _)

/-- The word never wraps around and holds the number of unused sets and of suspended operations, and no
assertion fails. Operations are resumed in the order of their suspension, each one once. A `set` that
finds the event not set resumes one operation or leaves the event set. `set_all` makes rounds until it
finds the event set, and each of them resumes one operation if any waits: one of those that waited
when it was called, all of which are resumed before it returns. -/
theorem autoResetEvent_sound {initiallySet : Bool} (h : Reaches Room initiallySet s) :
    (s.state = s.unconsumed + 2 ^ 32 * s.line.length ∧ setCount s.state = s.unconsumed ∧
      waiterCount s.state = s.line.length) ∧
    (s.unconsumed = 0 ∨ s.unconsumed = 1 ∧ s.line = []) ∧
    (s.waited = s.resumed ++ s.line ∧ s.waited.Nodup) ∧
    (∃ s', act .set s = some s' ∧ (s.unconsumed = 1 → s' = s) ∧ (s.unconsumed = 0 →
      s'.resumed = s.resumed ++ s.line.head?.toList ∧ s'.line = s.line.tail ∧
        (s'.unconsumed = 1 ↔ s.line = []))) ∧
    (∃ s', act .await s = some s' ∧
      (s.unconsumed = 1 → s'.unconsumed = 0 ∧ s'.waited = s.waited) ∧
      (s.unconsumed = 0 → s'.waited = s.waited ++ [s.ops])) ∧
    (∃ s', act .reset s = some s' ∧ s'.unconsumed = 0 ∧ s'.line = s.line ∧
      s'.resumed = s.resumed) ∧
    act .setAll s = some { s with running := .setAll s.line 0 :: s.running } ∧
    (∀ waiting rounds rest, s.running = .setAll waiting rounds :: rest → ∃ s', act .next s = some s' ∧
      (s.unconsumed = 1 → s' = { s with running := rest, returned := waiting :: s.returned }) ∧
      (s.unconsumed = 0 → .setAll waiting (rounds + 1) :: rest <:+ s'.running ∧
        s'.resumed = s.resumed ++ s.line.head?.toList ∧ s'.line = s.line.tail ∧
        (s'.unconsumed = 1 ↔ s.line = []))) ∧
    (∀ left rest, s.running = .resuming left :: rest →
      act .next s = some { s with running := rest }) ∧
    (∀ waiting rounds, .setAll waiting rounds ∈ s.running →
      ∀ op ∈ waiting.take rounds, op ∈ s.resumed) ∧
    ∀ waiting ∈ s.returned, ∀ op ∈ waiting, op ∈ s.resumed := by
  have hinitial : Fifo (initial initiallySet) := by
    refine ⟨⟨rfl, ?_, Nat.two_pow_pos _⟩, rfl, List.nodup_nil, nofun, nofun, nofun, nofun⟩
    cases initiallySet
    · exact .inl rfl
    · exact .inr ⟨rfl, rfl⟩
  have hsound : Fifo s := h.invariant Fifo hinitial fun _ _ _ hx hroom hn => hx.act hroom hn
  obtain ⟨hcounted, hfifo, honce, -, hresuming, hsetAll, hreturned⟩ := hsound
  have hword := hcounted.word
  have hsmall := hcounted.small
  have hset := hcounted.isSet_iff
  refine ⟨⟨hword, ?_, ?_⟩, hcounted.sets, ⟨hfifo, honce⟩, ?_, ?_, ?_, rfl, ?_, ?_, ?_, hreturned⟩
  · unfold setCount
    have := hcounted.sets
    omega
  · unfold waiterCount
    have := hcounted.sets
    omega
  · by_cases hone : s.unconsumed = 1
    · exact ⟨s, if_pos (hset.mpr hone), fun _ => rfl, by omega⟩
    · have hnot := mt hset.mp hone
      obtain ⟨s', hraise, -, heffect⟩ := hcounted.raised hnot
      exact ⟨s', (if_neg hnot).trans hraise, fun h1 => absurd h1 hone, fun _ => heffect⟩
  · by_cases hone : s.unconsumed = 1
    · have hconsume := (hcounted.consume (hset.mpr hone)).2
      refine ⟨_, if_pos (hset.mpr hone), fun _ => ?_, by omega⟩
      rw [hconsume]
      exact ⟨rfl, rfl⟩
    · have hsets := hcounted.sets
      exact ⟨_, act_await (mt hset.mp hone) (by omega), fun h1 => absurd h1 hone, fun _ => rfl⟩
  · refine ⟨_, rfl, ?_⟩
    by_cases hone : s.isSet = true
    · rw [if_pos hone, (hcounted.consume hone).2]
      exact ⟨rfl, rfl, rfl⟩
    · have hsets := hcounted.sets.resolve_right fun h1 => hone (hset.mpr h1.1)
      rw [if_neg hone]
      exact ⟨hsets, rfl, rfl⟩
  · intro waiting rounds rest hrunning
    by_cases hone : s.unconsumed = 1
    · refine ⟨_, ?_, fun _ => rfl, by omega⟩
      simp only [act, hrunning, if_pos (hset.mpr hone)]
    · have hnot := mt hset.mp hone
      obtain ⟨s', hraise, heffect⟩ := WordCounts.raised (s := { s with
        running := .setAll waiting (rounds + 1) :: rest }) { hcounted with } hnot
      refine ⟨s', ?_, fun h1 => absurd h1 hone, fun _ => heffect⟩
      simp only [act, hrunning, if_neg hnot]
      exact hraise
  · intro left rest hrunning
    obtain rfl := hresuming left (hrunning ▸ mem_cons_self)
    simp only [act, hrunning, resumeNext]
  · intro waiting rounds hmem op hop
    obtain ⟨start, hfront, hlength⟩ := hsetAll waiting rounds hmem
    have htake : waiting.take rounds <+: s.waited.drop start :=
      ( take_prefix _ _).trans hfront
    have hmem : op ∈ s.waited.take s.resumed.length := by
      rw [prefix_iff_eq_take.mp htake, length_take, take_drop] at hop
      exact (take_prefix_take_left hlength).subset (mem_of_mem_drop hop)
    rwa [hfifo, take_left] at hmem

/-- Two operations wait for `set_all`, and the first one waits again when it is resumed. -/
theorem autoResetEvent_sound_again : ∃ s, Reaches Room false s ∧ s.resumed = [0, 1, 2] ∧
    s.returned = [[0, 1]] ∧ ∀ waiting ∈ s.returned, ∀ op ∈ waiting, op ∈ s.resumed := by
  let test (s : AutoThread) : Act → Bool
    | .await => s.line.length + 1 < 2 ^ 32
    | _ => true
  have htest : ∀ s a, test s a = true → Room s a := by
    intro s a ha
    cases a with
    | await =>
      have hroom : s.line.length + 1 < 2 ^ 32 := decide_eq_true_iff.mp ha
      exact hroom
    | _ => exact trivial
  have hexec : GuardedRuns.exec act test
      [.await, .await, .setAll, .next, .await, .next, .next, .next, .next, .next, .next, .next]
      (initial false) = some ⟨1, [], [], [], 3, 1, [0, 1, 2], [0, 1, 2], [[0, 1]]⟩ := by
    decide +kernel
  have hreach := GuardedRuns.exec_run _ _ _ htest hexec
  exact ⟨_, hreach, rfl, rfl, (autoResetEvent_sound hreach).2.2.2.2.2.2.2.2.2.2⟩

/-- After `2 ^ 32` operations the word is zero again, and a `set` resumes none of them. -/
theorem autoResetEvent_wraps : ∃ s, Reaches (fun _ _ => True) false s ∧
    s.line.length = 2 ^ 32 ∧ waiterCount s.state = 0 ∧
      ∃ s', act .set s = some s' ∧ s'.resumed = [] ∧ s'.line = s.line := by
  have hawaits : ∀ n ≤ 2 ^ 32, ∃ s, Reaches (fun _ _ => True) false s ∧
      s.state = 2 ^ 32 * n % 2 ^ 64 ∧ s.line.length = n ∧ s.resumed = [] := by
    intro n
    induction n with
    | zero => exact fun _ => ⟨_, .refl, rfl, rfl, rfl⟩
    | succ n ih =>
      intro hn
      obtain ⟨s, hreach, hstate, hlength, hresumed⟩ := ih (le_of_succ_le hn)
      have hnot : ¬s.isSet = true := by
        refine mt decide_eq_true_iff.mp ?_
        unfold setCount waiterCount
        omega
      refine ⟨_, hreach.tail ⟨.await, trivial, act_await hnot (by omega)⟩, ?_, ?_, hresumed⟩
      · simp only [add, waiterIncrement, hstate]
        omega
      · simp only [line, length_append, length_reverse, length_cons] at hlength ⊢
        omega
  obtain ⟨s, hreach, hstate, hlength, hresumed⟩ := hawaits (2 ^ 32) (Nat.le_refl _)
  have hzero : s.state = 0 := hstate
  have hset : act .set s = some { s with state := add s.state 1, unconsumed := s.unconsumed + 1 } := by
    simp [act, isSet, raise, hzero, waiterCount, setCount, setIncrement]
  exact ⟨s, hreach, hlength, by simp [hzero, waiterCount], _, hset, hresumed, rfl⟩

end AutoThread

end Ichor
