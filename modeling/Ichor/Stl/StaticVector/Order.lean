import Mathlib.Data.List.Lex
import Ichor.Stl.StaticVector.Contents

/-! The comparison operators of `IStaticVector` on the contents, and the iterators. -/
namespace Ichor.StaticVector

/-! ## Comparison -/

section Comparison

variable {α : Type} [LinearOrder α]

/-- `std::equal` over both whole ranges. -/
def equal : List α → List α → Bool
  | [], [] => true
  | x :: a, y :: b => if x = y then equal a b else false
  | _, _ => false

def lexicographicalCompare : List α → List α → Bool
  | _, [] => false
  | [], _ :: _ => true
  | x :: a, y :: b => if x < y then true else if y < x then false else lexicographicalCompare a b

def equals (a b : List α) : Bool := a.length == b.length && equal a b

def less (a b : List α) : Bool := decide (a.length < b.length) && lexicographicalCompare a b

def lessEqual (a b : List α) : Bool := !less b a

def greater (a b : List α) : Bool := less b a

def greaterEqual (a b : List α) : Bool := !less a b

theorem equal_iff (a b : List α) : equal a b = true ↔ a = b := by
  induction a generalizing b with
  | nil => cases b <;> simp [equal]
  | cons x a ih =>
    cases b with
    | nil => simp [equal]
    | cons y b => by_cases hxy : x = y <;> simp [equal, hxy, ih]

theorem lexicographicalCompare_iff (a b : List α) : lexicographicalCompare a b = true ↔ a < b := by
  induction a generalizing b with
  | nil => cases b <;> simp [lexicographicalCompare]
  | cons x a ih =>
    cases b with
    | nil => simp [lexicographicalCompare]
    | cons y b =>
      rcases lt_trichotomy x y with hxy | rfl | hxy
      · simp [lexicographicalCompare, List.cons_lt_cons_iff, hxy]
      · simp [lexicographicalCompare, ih]
      · simp [lexicographicalCompare, List.cons_lt_cons_iff, hxy, hxy.not_gt, hxy.ne']

theorem equals_iff (a b : List α) : equals a b = true ↔ a = b := by
  rw [equals, Bool.and_eq_true, equal_iff, beq_iff_eq]
  exact ⟨fun h => h.2, fun h => ⟨congrArg List.length h, h⟩⟩

theorem less_iff (a b : List α) : less a b = true ↔ a.length < b.length ∧ a < b := by
  rw [less, Bool.and_eq_true, lexicographicalCompare_iff, decide_eq_true_eq]

/-- The operators order two vectors as their contents are ordered. -/
structure Ordered (a b : List α) : Prop where
  one : (less a b = true ∧ equals a b = false ∧ less b a = false) ∨
    (less a b = false ∧ equals a b = true ∧ less b a = false) ∨
    (less a b = false ∧ equals a b = false ∧ less b a = true)
  less : less a b = true ↔ a < b
  lessEqual : lessEqual a b = true ↔ a ≤ b
  greater : greater a b = true ↔ b < a
  greaterEqual : greaterEqual a b = true ↔ b ≤ a

/-- The comparison is that of the contents exactly between equal vectors and between vectors of
different sizes of which the shorter one comes first; and it is transitive. -/
theorem comparison_ordered_iff (a b : List α) :
    (Ordered a b ↔ a = b ∨ (a.length < b.length ∧ a < b) ∨ (b.length < a.length ∧ b < a)) ∧
      ∀ c, less a b = true → less b c = true → less a c = true := by
  refine ⟨⟨fun h => ?_, fun h => ?_⟩, fun c hab hbc => ?_⟩
  · rcases h.one with ⟨hab, -⟩ | ⟨-, heq, -⟩ | ⟨-, -, hba⟩
    · exact .inr (.inl ((less_iff a b).mp hab))
    · exact .inl ((equals_iff a b).mp heq)
    · exact .inr (.inr ((less_iff b a).mp hba))
  · have hab := less_iff a b
    have hba := less_iff b a
    have heq := equals_iff a b
    have hlt : less a b = true ↔ a < b := by
      refine ⟨fun hl => (hab.mp hl).2, fun hl => hab.mpr ?_⟩
      rcases h with rfl | h | h
      · exact absurd hl (lt_irrefl a)
      · exact h
      · exact absurd hl h.2.asymm
    have hgt : less b a = true ↔ b < a := by
      refine ⟨fun hl => (hba.mp hl).2, fun hl => hba.mpr ?_⟩
      rcases h with rfl | h | h
      · exact absurd hl (lt_irrefl a)
      · exact absurd hl h.2.asymm
      · exact h
    refine ⟨?_, hlt, ?_, hgt, ?_⟩
    · simp only [← Bool.not_eq_true, hlt, hgt, heq]
      rcases lt_trichotomy a b with hl | rfl | hl
      · exact .inl ⟨hl, hl.ne, hl.asymm⟩
      · exact .inr (.inl ⟨lt_irrefl a, rfl, lt_irrefl a⟩)
      · exact .inr (.inr ⟨hl.asymm, hl.ne', hl⟩)
    · rw [StaticVector.lessEqual, Bool.not_eq_true', ← Bool.not_eq_true, hgt, not_lt]
    · rw [StaticVector.greaterEqual, Bool.not_eq_true', ← Bool.not_eq_true, hlt, not_lt]
  · rw [less_iff] at hab hbc ⊢
    exact ⟨hab.1.trans hbc.1, hab.2.trans hbc.2⟩

/-- Neither of two different vectors of one size is less, so that each is at least and at most
the other; and a vector that comes later may be less by neither order. -/
theorem comparison_gap : less [1] [2] = false ∧ equals [1] [2] = false ∧ less [2] [1] = false ∧
      lessEqual [2] [1] = true ∧ less [0, 5] [1] = false ∧ less [1] [0, 5] = false := by
  decide

end Comparison

/-! ## Iterators -/

/-- `SVIterator`: where its pointer points to, counted from the begin of the storage. The steps
give the iterator that they return and the one that is left. -/
structure SVIterator where
  ptr : ℤ
deriving DecidableEq, Repr

namespace SVIterator

def preIncrement (it : SVIterator) : SVIterator × SVIterator := (⟨it.ptr + 1⟩, ⟨it.ptr + 1⟩)

/-- `return SVIterator{++_ptr}`. -/
def postIncrement (it : SVIterator) : SVIterator × SVIterator := (⟨it.ptr + 1⟩, ⟨it.ptr + 1⟩)

def preDecrement (it : SVIterator) : SVIterator × SVIterator := (⟨it.ptr - 1⟩, ⟨it.ptr - 1⟩)

/-- `return SVIterator{--_ptr}`. -/
def postDecrement (it : SVIterator) : SVIterator × SVIterator := (⟨it.ptr - 1⟩, ⟨it.ptr - 1⟩)

def plus (it : SVIterator) (n : ℤ) : SVIterator := ⟨it.ptr + n⟩

def minus (it : SVIterator) (n : ℤ) : SVIterator := ⟨it.ptr - n⟩

def difference (a b : SVIterator) : ℤ := a.ptr - b.ptr

def equal (a b : SVIterator) : Bool := a.ptr == b.ptr

def notEqual (a b : SVIterator) : Bool := a.ptr != b.ptr

def less (a b : SVIterator) : Bool := a.ptr < b.ptr

def lessEqual (a b : SVIterator) : Bool := a.ptr ≤ b.ptr

def greater (a b : SVIterator) : Bool := a.ptr > b.ptr

def greaterEqual (a b : SVIterator) : Bool := a.ptr ≥ b.ptr

end SVIterator

/-- A loop over a vector: while it goes on, a round reads at one iterator and leaves another. It
gives nothing when the rounds do not suffice. -/
def loop (more : SVIterator → Bool) (round : SVIterator → SVIterator × SVIterator) :
    ℕ → SVIterator → Option (List SVIterator)
  | 0, it => if more it then none else some []
  | n + 1, it =>
    if more it then (loop more round n (round it).2).map ((round it).1 :: ·) else some []

/-- How a loop tells that it has not reached the end: by a comparison or by the difference. -/
def beforeEnd (last : SVIterator) : List (SVIterator → Bool) :=
  [fun it => it.notEqual last, fun it => !it.equal last, fun it => it.less last,
    fun it => last.greater it, fun it => !it.greaterEqual last, fun it => !last.lessEqual it,
    fun it => decide (last.difference it > 0), fun it => it.difference last != 0]

/-- How a round reads and steps, the value of a postfix step not being used: at the iterator, or
at an offset from the begin. -/
def rounds (first : SVIterator) : List (SVIterator → SVIterator × SVIterator) :=
  [fun it => (it, it.preIncrement.2), fun it => (it, it.postIncrement.2),
    fun it => (it, it.plus 1), fun it => (it, it.minus (-1)),
    fun it => (first.plus (it.difference first), first.plus (it.difference first + 1))]

theorem loop_visits (more : SVIterator → Bool) (round : SVIterator → SVIterator × SVIterator)
    (offset : ℤ) (n : ℕ) (hmore : ∀ k ≤ n, (more ⟨k⟩ = true ↔ k < n))
    (hround : ∀ it, round it = (it.plus offset, it.plus 1)) :
    loop more round n ⟨0⟩ = some ((List.range n).map fun i => ⟨i + offset⟩) := by
  have hfrom : ∀ m k, k + m = n →
      loop more round m ⟨k⟩ = some ((List.range' k m).map fun i => ⟨i + offset⟩) := by
    intro m
    induction m with
    | zero =>
      intro k hk
      have hstop : more ⟨k⟩ = false := by
        rw [← Bool.not_eq_true, hmore k (by omega)]
        omega
      simp [loop, hstop]
    | succ m ih =>
      intro k hk
      have hgo : more ⟨k⟩ = true := (hmore k (by omega)).mpr (by omega)
      have hrest := ih (k + 1) (by omega)
      rw [loop, if_pos hgo, hround, List.range'_succ]
      simpa [SVIterator.plus] using congrArg (Option.map (⟨k + offset⟩ :: ·)) hrest
  rw [List.range_eq_range']
  exact hfrom n 0 (Nat.zero_add n)

theorem beforeEnd_iff {more : SVIterator → Bool} {n k : ℕ} (h : more ∈ beforeEnd ⟨n⟩) (hk : k ≤ n) :
    more ⟨k⟩ = true ↔ k < n := by
  simp only [beforeEnd, List.mem_cons, List.not_mem_nil, or_false] at h
  rcases h with rfl | rfl | rfl | rfl | rfl | rfl | rfl | rfl <;>
    simp [SVIterator.notEqual, SVIterator.equal, SVIterator.less, SVIterator.greater,
      SVIterator.greaterEqual, SVIterator.lessEqual, SVIterator.difference] <;> omega

theorem rounds_eq {round : SVIterator → SVIterator × SVIterator} (h : round ∈ rounds ⟨0⟩)
    (it : SVIterator) : round it = (it.plus 0, it.plus 1) := by
  simp only [rounds, List.mem_cons, List.not_mem_nil, or_false] at h
  rcases h with rfl | rfl | rfl | rfl | rfl <;>
    simp [SVIterator.preIncrement, SVIterator.postIncrement, SVIterator.plus, SVIterator.minus,
      SVIterator.difference]

/-- The laws but for the values of the postfix steps, which are never the old positions; and the loops
that do not use these values read the contents, each element once and in order. -/
theorem iterator_laws {α : Type} (N : ℕ) (w : World α) (v : ℕ) (l : List α) (h : Holds N w v l) :
    (∀ i j : SVIterator, ∀ n : ℤ, i.postIncrement.2 = i.plus 1 ∧ i.postDecrement.2 = i.minus 1 ∧
      i.postIncrement.1 ≠ i ∧ i.postDecrement.1 ≠ i ∧
      i.preIncrement = (i.plus 1, i.plus 1) ∧ i.preDecrement = (i.minus 1, i.minus 1) ∧
      (i.plus n).minus n = i ∧ (i.minus n).plus n = i ∧ i.plus (j.difference i) = j ∧
      (i.equal j = true ↔ i = j) ∧ (i.notEqual j = true ↔ i ≠ j) ∧
      (i.less j = true ↔ i.ptr < j.ptr) ∧ (i.lessEqual j = true ↔ i.ptr ≤ j.ptr) ∧
      (i.greater j = true ↔ j.ptr < i.ptr) ∧ (i.greaterEqual j = true ↔ j.ptr ≤ i.ptr)) ∧
      ∀ more ∈ beforeEnd ⟨l.length⟩, ∀ round ∈ rounds ⟨0⟩,
        (loop more round l.length ⟨0⟩).map (·.map fun it => w.value v it.ptr.toNat) = some l := by
  refine ⟨fun i j n => ?_, fun more hmore round hround => ?_⟩
  · obtain ⟨i⟩ := i
    obtain ⟨j⟩ := j
    have hback : i + (j - i) = j := by omega
    have hup : i + 1 ≠ i := by omega
    have hdown : i - 1 ≠ i := by omega
    simp [hback, hup, hdown, SVIterator.postIncrement, SVIterator.postDecrement, SVIterator.preIncrement,
      SVIterator.preDecrement, SVIterator.plus, SVIterator.minus, SVIterator.difference,
      SVIterator.equal, SVIterator.notEqual, SVIterator.less, SVIterator.lessEqual,
      SVIterator.greater, SVIterator.greaterEqual]
  · rw [loop_visits more round 0 l.length (fun k hk => beforeEnd_iff hmore hk) (rounds_eq hround),
      Option.map_some, List.map_map]
    refine congrArg some (Eq.trans (List.map_congr_left fun i hi => ?_) h.map_value)
    simp

/-- Two elements, read backwards in the comparison and by differences. -/
theorem iterator_laws_pushed : ∃ w, pushAll 4 0 [1, 2] (World.pair 0) = some w ∧
    (loop (fun it => SVIterator.greater ⟨2⟩ it) (fun it => (SVIterator.plus ⟨0⟩ (it.difference ⟨0⟩),
      SVIterator.plus ⟨0⟩ (it.difference ⟨0⟩ + 1))) 2 ⟨0⟩).map
        (·.map fun it => w.value 0 it.ptr.toNat) = some [1, 2] := by
  obtain ⟨w, hw, hagrees⟩ := agrees_pushed
  exact ⟨w, hw, (iterator_laws 4 w 0 [1, 2] (hagrees.holds 0 [1, 2] rfl)).2 _
    (by simp [beforeEnd]) _ (by simp [rounds])⟩

/-- `*it++` does not read the element at the old position: a loop with it skips the first element
and reads at the end. -/
theorem postfix_value_is_new :
    (SVIterator.postIncrement ⟨0⟩).1 ≠ ⟨0⟩ ∧ (SVIterator.postDecrement ⟨1⟩).1 ≠ ⟨1⟩ ∧
      ∀ n : ℕ, loop (SVIterator.notEqual · ⟨n⟩) SVIterator.postIncrement n ⟨0⟩ =
        some ((List.range n).map fun i => ⟨i + 1⟩) := by
  refine ⟨by decide, by decide, fun n => loop_visits _ _ 1 n (fun k hk => ?_) fun it => rfl⟩
  exact beforeEnd_iff List.mem_cons_self hk

end Ichor.StaticVector
