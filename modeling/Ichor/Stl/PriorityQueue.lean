import Ichor.Lib.Runs
import Ichor.Model.Types
import Mathlib.Data.List.Sort

/-! The queue of `SectionalPriorityQueue` with `OrderedPriorityQueueCompare`, over heap algorithms of
which only the specification of the standard library is known. -/
namespace Ichor
open List

/-! ## Heaps -/

section Heap

variable {α : Type}

/-- No element is less than one of the two below it. -/
def IsHeap (comp : α → α → Bool) (l : List α) : Prop :=
  ∀ i x y, 0 < i → l[(i - 1) / 2]? = some x → l[i]? = some y → comp x y = false

def StrictWeak (comp : α → α → Bool) : Prop := IsStrictWeakOrder α fun x y => comp x y = true

variable {comp : α → α → Bool}

theorem StrictWeak.not_trans (h : StrictWeak comp) {x y z : α} (hxy : comp x y = false)
    (hyz : comp y z = false) : comp x z = false := by
  by_contra hxz
  have hxz : comp x z = true := by simpa using hxz
  have hyx : ¬comp y x = true := fun hyx => by simp [h.trans y x z hyx hxz] at hyz
  have hzy : ¬comp z y = true := fun hzy => by simp [h.trans x z y hxz hzy] at hxy
  exact (h.incomp_trans x y z ⟨by simp [hxy], hyx⟩ ⟨by simp [hyz], hzy⟩).1 hxz

/-- The first element is not less than any other one. -/
theorem IsHeap.head (hcomp : StrictWeak comp) {l : List α} (h : IsHeap comp l) {x y : α}
    (hx : l.head? = some x) (hy : y ∈ l) : comp x y = false := by
  have hindex : ∀ (i : ℕ) y, l[i]? = some y → comp x y = false := by
    intro i
    induction i using Nat.strongRecOn with
    | ind i ih =>
      intro y hy
      rcases Nat.eq_zero_or_pos i with rfl | hi
      · rw [← head?_eq_getElem?, hx] at hy
        cases hy
        simpa using hcomp.irrefl x
      · have hlt : (i - 1) / 2 < l.length := by
          have := (List.getElem?_eq_some_iff.mp hy).1
          omega
        have hparent := List.getElem?_eq_getElem hlt
        exact hcomp.not_trans (ih _ (by omega) _ hparent) (h i _ _ hi hparent hy)
  obtain ⟨i, hi⟩ := mem_iff_getElem?.mp hy
  exact hindex i y hi

theorem StrictWeak.isHeap_insertionSort (h : StrictWeak comp) (c : List α) :
    IsHeap comp (c.insertionSort fun x y => comp x y = false) := by
  have htotal : Std.Total fun x y => comp x y = false := ⟨fun x y => by
    have := h.irrefl x
    have := h.trans x y x
    grind⟩
  have htrans : IsTrans α fun x y => comp x y = false := ⟨fun _ _ _ => h.not_trans⟩
  have hsorted := pairwise_insertionSort (fun x y => comp x y = false) c
  intro i x y hi hx hy
  obtain ⟨hlt, rfl⟩ := List.getElem?_eq_some_iff.mp hx
  obtain ⟨hlt', rfl⟩ := List.getElem?_eq_some_iff.mp hy
  exact List.pairwise_iff_getElem.mp hsorted _ _ hlt hlt' (by omega)

/-- `std::push_heap` and `std::pop_heap`: a heap with one more element at its end is made a heap, and
the first element of a heap is brought to the end with a heap before it. -/
structure HeapAlgorithms (α : Type) where
  pushHeap : (α → α → Bool) → List α → List α
  popHeap : (α → α → Bool) → List α → List α
  push_spec : ∀ comp c x, StrictWeak comp → IsHeap comp c →
    (pushHeap comp (c ++ [x])).Perm (c ++ [x]) ∧ IsHeap comp (pushHeap comp (c ++ [x]))
  pop_spec : ∀ comp c x, StrictWeak comp → IsHeap comp c → c.head? = some x →
    ∃ rest, popHeap comp c = rest ++ [x] ∧ (rest ++ [x]).Perm c ∧ IsHeap comp rest

end Heap

/-! ## The queue -/

def orderedPriorityQueueCompare (lhs rhs : Event) : Bool :=
  if lhs.priority = rhs.priority then lhs.id > rhs.id else lhs.priority > rhs.priority

theorem orderedPriorityQueueCompare_strictWeak : StrictWeak orderedPriorityQueueCompare where
  irrefl x := by simp [orderedPriorityQueueCompare]
  trans x y z := by
    simp only [orderedPriorityQueueCompare]
    grind
  incomp_trans x y z := by
    simp only [orderedPriorityQueueCompare]
    grind

/-- The vector of the queue, and all that was pushed and popped, in that order. -/
structure SectionalPriorityQueue where
  c : List Event
  pushed : List Event
  popped : List Event

namespace SectionalPriorityQueue

variable (std : HeapAlgorithms Event)

def push (q : SectionalPriorityQueue) (e : Event) : SectionalPriorityQueue :=
  { q with
    c := std.pushHeap orderedPriorityQueueCompare (q.c ++ [e])
    pushed := q.pushed ++ [e] }

/-- `pop`; the loop of `start` calls it only for a queue that is not empty. -/
def pop (q : SectionalPriorityQueue) : Option (Event × SectionalPriorityQueue) :=
  let c := std.popHeap orderedPriorityQueueCompare q.c
  if q.c.isEmpty then none
  else c.getLast?.map fun e => (e, { q with c := c.dropLast, popped := q.popped ++ [e] })

/-- Push an event, or pop one. -/
def act (a : Option Event) (q : SectionalPriorityQueue) : Option SectionalPriorityQueue :=
  match a with
  | some e => some (q.push std e)
  | none => (q.pop std).map Prod.snd

def Reaches (q : SectionalPriorityQueue) : Prop :=
  GuardedRuns.Run (act std) (fun _ _ => True) ⟨[], [], []⟩ q

/-- Of two events of one priority the older one comes first. -/
def Before (x y : Event) : Prop := x.priority = y.priority → x.id < y.id

structure HeapFifo (q : SectionalPriorityQueue) : Prop where
  heap : IsHeap orderedPriorityQueueCompare q.c
  all : (q.popped ++ q.c).Perm q.pushed
  fifo : q.pushed.Pairwise (·.id < ·.id) →
    q.popped.Pairwise Before ∧ ∀ x ∈ q.popped, ∀ y ∈ q.c, Before x y

variable {std} {q q' : SectionalPriorityQueue} {e : Event}

/-- What `pop` takes from a heap, and what it leaves. -/
theorem HeapFifo.pop_spec (h : HeapFifo q) (hpop : q.pop std = some (e, q')) :
    (q'.c ++ [e]).Perm q.c ∧ IsHeap orderedPriorityQueueCompare q'.c ∧ q'.pushed = q.pushed ∧
      q'.popped = q.popped ++ [e] ∧ ∀ x ∈ q.c, orderedPriorityQueueCompare e x = false := by
  have hcomp := orderedPriorityQueueCompare_strictWeak
  cases hc : q.c with
  | nil => simp [pop, hc] at hpop
  | cons x rest =>
    have hhead : q.c.head? = some x := by rw [hc]; rfl
    obtain ⟨c, heq, hperm, hheap⟩ := std.pop_spec _ q.c x hcomp h.heap hhead
    simp only [pop, hc, isEmpty_cons, Bool.false_eq_true, if_false] at hpop
    rw [← hc, heq, getLast?_concat, dropLast_concat] at hpop
    cases hpop
    exact ⟨hc ▸ hperm, hheap, rfl, rfl, fun y hy => h.heap.head hcomp hhead (hc ▸ hy)⟩

theorem HeapFifo.push (h : HeapFifo q) (e : Event) : HeapFifo (q.push std e) := by
  have hcomp := orderedPriorityQueueCompare_strictWeak
  obtain ⟨hperm, hheap⟩ := std.push_spec orderedPriorityQueueCompare q.c e hcomp h.heap
  refine ⟨hheap, ?_, fun hids => ?_⟩
  · refine (hperm.append_left _).trans ?_
    rw [← append_assoc]
    exact h.all.append_right _
  · obtain ⟨hids, -, hlast⟩ := pairwise_append.mp hids
    obtain ⟨hpopped, hbefore⟩ := h.fifo hids
    refine ⟨hpopped, fun x hx y hy hprio => ?_⟩
    rcases mem_append.mp (hperm.subset hy) with hy | hy
    · exact hbefore x hx y hy hprio
    · exact hlast x (h.all.subset (mem_append_left _ hx)) y hy

theorem HeapFifo.pop (h : HeapFifo q) (hpop : q.pop std = some (e, q')) : HeapFifo q' := by
  obtain ⟨hperm, hheap, hpushed, hpopped, hleast⟩ := h.pop_spec hpop
  have hall : (q'.popped ++ q'.c).Perm q'.pushed := by
    rw [hpopped, hpushed, append_assoc]
    exact ((perm_append_comm.trans hperm).append_left _).trans h.all
  refine ⟨hheap, hall, fun hids => ?_⟩
  rw [hpushed] at hids
  obtain ⟨hbefore, hrest⟩ := h.fifo hids
  have hmem : ∀ x ∈ q'.c ++ [e], x ∈ q.c := fun x hx => hperm.subset hx
  have hdistinct : (q'.popped ++ q'.c).Pairwise (·.id ≠ ·.id) :=
    (hall.pairwise_iff Ne.symm).mpr (hpushed ▸ hids.imp Nat.ne_of_lt)
  have he : ∀ x ∈ q'.c, Before e x := by
    intro x hx hprio
    have hne := (pairwise_append.mp hdistinct).2.2 e (by simp [hpopped]) x hx
    have hle := hleast x (hmem x (mem_append_left _ hx))
    have hle : e.id ≤ x.id := by simpa [orderedPriorityQueueCompare, hprio] using hle
    exact Nat.lt_of_le_of_ne hle hne
  rw [hpopped]
  refine ⟨pairwise_append.mpr ⟨hbefore, pairwise_singleton _ _, ?_⟩, ?_⟩
  · intro x hx y hy
    exact hrest x hx y (hmem y (mem_append_right _ hy))
  · intro x hx y hy
    rcases mem_append.mp hx with hx | hx
    · exact hrest x hx y (hmem y (mem_append_left _ hy))
    · rw [mem_singleton.mp hx]
      exact he y hy

/-- Nothing is lost or popped twice, and each event that is popped is least in priority and id among
those in the queue. If the ids grow with every push, events of one priority come out in the order they
were pushed in. -/
theorem orderedPriorityQueue_pops_least (h : Reaches std q) : (q.popped ++ q.c).Perm q.pushed ∧
    (q.c ≠ [] → ∃ e q', q.pop std = some (e, q') ∧ (e :: q'.c).Perm q.c ∧
      q'.popped = q.popped ++ [e] ∧
      ∀ x ∈ q.c, e.priority < x.priority ∨ e.priority = x.priority ∧ e.id ≤ x.id) ∧
    (q.pushed.Pairwise (·.id < ·.id) →
      q.popped.Pairwise Before ∧ ∀ x ∈ q.popped, ∀ y ∈ q.c, Before x y) := by
  have hsound : HeapFifo q := by
    refine h.invariant HeapFifo ⟨by simp [IsHeap], .refl _, by simp⟩ fun x a y hx _ hstep => ?_
    cases a with
    | some e => exact Option.some.inj hstep ▸ hx.push e
    | none =>
      obtain ⟨⟨e, y⟩, hpop, rfl⟩ := Option.map_eq_some_iff.mp hstep
      exact hx.pop hpop
  refine ⟨hsound.all, fun hne => ?_, hsound.fifo⟩
  obtain ⟨e, q', hpop⟩ : ∃ e q', q.pop std = some (e, q') := by
    obtain ⟨x, rest, hc⟩ := exists_cons_of_ne_nil hne
    obtain ⟨c, heq, -⟩ := std.pop_spec _ q.c x orderedPriorityQueueCompare_strictWeak hsound.heap
      (by rw [hc]; rfl)
    exact ⟨x, _, by simp [pop, heq, hne]; rfl⟩
  obtain ⟨hperm, -, -, hpopped, hleast⟩ := hsound.pop_spec hpop
  refine ⟨e, q', hpop, perm_append_comm.trans hperm, hpopped, fun x hx => ?_⟩
  have hle := hleast x hx
  unfold orderedPriorityQueueCompare at hle
  grind

/-- Heap algorithms that sort. -/
def sorting : HeapAlgorithms Event where
  pushHeap comp c := c.insertionSort fun x y => comp x y = false
  popHeap comp c := (c.tail.insertionSort fun x y => comp x y = false) ++ c.head?.toList
  push_spec comp c x hcomp _ := ⟨perm_insertionSort _ _, hcomp.isHeap_insertionSort _⟩
  pop_spec comp c x hcomp hc hx := by
    obtain ⟨rest, rfl⟩ := head?_eq_some_iff.mp hx
    refine ⟨_, rfl, ?_, hcomp.isHeap_insertionSort _⟩
    exact perm_append_comm.trans ((perm_insertionSort _ _).cons x)

/-- Three events are pushed and two are popped: the older one of priority 50, then the other one. -/
theorem orderedPriorityQueue_pops_least_of_three : ∃ q, Reaches sorting q ∧
    q.popped.map (·.id) = [1, 2] ∧ q.c.map (·.id) = [0] ∧ (q.popped ++ q.c).Perm q.pushed := by
  have hreach : Reaches sorting _ := GuardedRuns.run_exec
    [some ⟨0, 0, 100, .quit⟩, some ⟨1, 0, 50, .quit⟩, some ⟨2, 0, 50, .quit⟩, none, none] rfl
  exact ⟨_, hreach, by decide +kernel, by decide +kernel, (orderedPriorityQueue_pops_least hreach).1⟩

end SectionalPriorityQueue

end Ichor
