import Ichor.Lib.Runs
import Ichor.Stl.StringUtils

/-! `ReferenceCountedPointer`: handles that share control blocks. A step gives nothing where the
code follows a null pointer or uses a control block that has been deleted. The managed objects own
no handles, so a deleter changes none: with the source of an assignment inside the object that the
target gives up, the code reads it after the object has been deleted. -/
namespace Ichor.ReferenceCounted
open List Option

/-- A handle: destroyed, empty, or referring to a control block. -/
inductive Handle where
  | gone
  | empty
  | refers (block : ℕ)
deriving DecidableEq, Repr

/-- The handles by the order of their construction, the use count of each control block while it
exists, and the objects whose deleter ran, by their blocks. -/
structure State where
  handles : List Handle
  blocks : List (Option ℕ)
  deleted : List ℕ
deriving DecidableEq, Repr

namespace State

/-- `_ptr->useCount++`, the count having 64 bits. -/
def increment (s : State) : Handle → Option State
  | .refers b => (s.blocks[b]?.getD none).map fun n =>
      { s with blocks := s.blocks.set b (some (wrap (n + 1))) }
  | _ => none

/-- The control block is deleted with its last handle, and its destructor runs the deleter. -/
def setCount (s : State) (b n : ℕ) : State :=
  if n = 0 then { s with blocks := s.blocks.set b none, deleted := s.deleted ++ [b] }
  else { s with blocks := s.blocks.set b (some n) }

def decrement (s : State) : Handle → Option State
  | .refers b => (s.blocks[b]?.getD none).map fun n => s.setCount b (wrap (n + (2 ^ 64 - 1)))
  | _ => some s

/-- A new control block with the count 1, for an object that is not null. -/
def allocate (s : State) : State := { s with blocks := s.blocks ++ [some 1] }

def construct (s : State) (x : Handle) : State := { s with handles := s.handles ++ [x] }

def write (s : State) (h : ℕ) (x : Handle) : State := { s with handles := s.handles.set h x }

/-- A handle that has not been destroyed. -/
def read (s : State) (h : ℕ) : Option Handle :=
  s.handles[h]?.bind fun x => if x = .gone then none else some x

end State

/-- `create` is construction from a pointer, from arguments or from a unique pointer, `reset` the
assignment of `nullptr`. The operators for other types differ in that they do not compare the
handles, which are never the same one. -/
inductive Action where
  | default
  | create
  | copyConstruct (o : ℕ)
  | moveConstruct (o : ℕ)
  | copyAssign (h o : ℕ)
  | moveAssign (h o : ℕ)
  | assignNew (h : ℕ)
  | reset (h : ℕ)
  | swap (h o : ℕ)
  | destroy (h : ℕ)
deriving DecidableEq, Repr

open State

def act : Action → State → Option State
  | .default, s => some (s.construct .empty)
  | .create, s => some (s.allocate.construct (.refers s.blocks.length))
  | .copyConstruct o, s => (s.read o).bind fun x => (s.increment x).map (·.construct x)
  | .moveConstruct o, s => (s.read o).map fun x => (s.write o .empty).construct x
  | .copyAssign h o, s => (s.read h).bind fun y =>
      if h = o then some s
      else (s.decrement y).bind fun s => (s.read o).bind fun x => (s.increment x).map (·.write h x)
  | .moveAssign h o, s => (s.read h).bind fun y =>
      if h = o then some s
      else (s.decrement y).bind fun s => (s.read o).map fun x => (s.write h x).write o .empty
  | .assignNew h, s => (s.read h).bind fun y => (s.decrement y).map fun s =>
      s.allocate.write h (.refers s.blocks.length)
  | .reset h, s => (s.read h).bind fun y => (s.decrement y).map (·.write h .empty)
  | .swap h o, s => (s.read h).bind fun y => (s.read o).map fun x => (s.write h x).write o y
  | .destroy h, s => (s.read h).bind fun y => (s.decrement y).map (·.write h .gone)

/-- The handles that an operation looks at. -/
def Action.operands : Action → List ℕ
  | .copyConstruct o | .moveConstruct o => [o]
  | .copyAssign h o | .moveAssign h o | .swap h o => [h, o]
  | .assignNew h | .reset h | .destroy h => [h]
  | _ => []

/-- The handles of a call exist. -/
def Action.Called (s : State) (a : Action) : Prop := ∀ h ∈ a.operands, (s.read h).isSome = true

/-- Nothing is copied from an empty handle, and no count passes 64 bits. -/
def Action.Proper (s : State) : Action → Prop
  | .copyConstruct o => ∀ x ∈ s.read o, x ≠ .empty ∧ s.handles.count x + 1 < 2 ^ 64
  | .copyAssign h o => h = o ∨ ∀ x ∈ s.read o, x ≠ .empty ∧ s.handles.count x + 1 < 2 ^ 64
  | _ => True

instance (s : State) (a : Action) : Decidable (a.Called s) :=
  inferInstanceAs (Decidable (∀ h ∈ a.operands, (s.read h).isSome = true))

instance (s : State) : (a : Action) → Decidable (a.Proper s)
  | .copyConstruct o =>
    inferInstanceAs (Decidable (∀ x ∈ s.read o, x ≠ .empty ∧ s.handles.count x + 1 < 2 ^ 64))
  | .copyAssign h o => inferInstanceAs
      (Decidable (h = o ∨ ∀ x ∈ s.read o, x ≠ .empty ∧ s.handles.count x + 1 < 2 ^ 64))
  | .default | .create | .moveConstruct _ | .moveAssign _ _ | .assignNew _ | .reset _ | .swap _ _
  | .destroy _ => inferInstanceAs (Decidable True)

/-! ## The counts -/

/-- What a control block is, for the number of the handles that refer to it. -/
def Right (s : State) (b n : ℕ) : Prop :=
  match s.blocks[b]? with
  | none => n = 0 ∧ s.deleted.count b = 0
  | some none => n = 0 ∧ s.deleted.count b = 1
  | some (some useCount) => useCount = n ∧ 0 < n ∧ n < 2 ^ 64 ∧ s.deleted.count b = 0

/-- The control blocks are those for the handles `l`. -/
def Counts (s : State) (l : List Handle) : Prop := ∀ b, Right s b (l.count (.refers b))

variable {s : State} {l : List Handle} {b h : ℕ} {x : Handle}

theorem count_set (hx : l[h]? = some x) (y z : Handle) :
    (l.set h y).count z + (if x = z then 1 else 0) = l.count z + if y = z then 1 else 0 := by
  induction l generalizing h with
  | nil => simp at hx
  | cons a l ih =>
    cases h with
    | zero =>
      obtain rfl : a = x := by simpa using hx
      simp only [set_cons_zero, count_cons, beq_iff_eq]
      omega
    | succ h =>
      have hrest := ih (by simpa using hx)
      simp only [set_cons_succ, count_cons]
      omega

theorem Counts.congr {s' : State} {l' : List Handle} (hc : Counts s l) (hblocks : s'.blocks = s.blocks)
    (hdeleted : s'.deleted = s.deleted) (h : ∀ b, l'.count (.refers b) = l.count (.refers b)) :
    Counts s' l' := by
  intro b
  unfold Right
  rw [hblocks, hdeleted, h b]
  exact hc b

/-- A control block that a handle refers to exists. -/
theorem Counts.block (hc : Counts s l) (hb : .refers b ∈ l) :
    s.blocks[b]? = some (some (l.count (.refers b))) ∧ 0 < l.count (.refers b) ∧
      l.count (.refers b) < 2 ^ 64 ∧ s.deleted.count b = 0 := by
  have hpos := count_pos_iff.mpr hb
  have hright := hc b
  unfold Right at hright
  split at hright
  · omega
  · omega
  · next useCount hblock =>
    obtain ⟨rfl, hrest⟩ := hright
    exact ⟨hblock, hrest⟩

theorem decrement_spec (hc : Counts s l) (hx : l[h]? = some x) :
    ∃ s', s.decrement x = some s' ∧ s'.handles = s.handles ∧ Counts s' (l.set h .empty) := by
  cases x with
  | gone | empty =>
    refine ⟨s, rfl, rfl, hc.congr rfl rfl fun b => ?_⟩
    simpa using count_set hx .empty (.refers b)
  | refers b =>
    obtain ⟨hblock, hpos, hlt, hdeleted⟩ := hc.block (mem_of_getElem? hx)
    have hcount := fun b' => count_set hx .empty (.refers b')
    simp only [Handle.refers.injEq, reduceCtorEq, if_false, Nat.add_zero] at hcount
    have hown := hcount b
    rw [if_pos rfl] at hown
    have hwrap : wrap (l.count (.refers b) + (2 ^ 64 - 1)) = l.count (.refers b) - 1 := by
      unfold wrap
      omega
    have hlen : b < s.blocks.length := (List.getElem?_eq_some_iff.mp hblock).1
    have hother : ∀ b', b' ≠ b → (l.set h .empty).count (.refers b') = l.count (.refers b') := by
      intro b' hne
      have hb' := hcount b'
      rwa [if_neg (Ne.symm hne), Nat.add_zero] at hb'
    refine ⟨s.setCount b (l.count (.refers b) - 1), ?_, ?_, fun b' => ?_⟩
    · rw [decrement, hblock, getD_some, map_some, hwrap]
    · unfold setCount
      split <;> rfl
    · have hright := hc b'
      unfold setCount
      by_cases hb' : b' = b
      · subst hb'
        split
        · simp only [Right, List.getElem?_set_self hlen, count_append, count_singleton_self]
          omega
        · simp only [Right, List.getElem?_set_self hlen]
          omega
      · rw [hother b' hb']
        split
        · simpa [Right, getElem?_set_ne (Ne.symm hb'), count_append,
            count_singleton, Ne.symm hb'] using hright
        · simpa [Right, getElem?_set_ne (Ne.symm hb')] using hright

theorem increment_spec (hc : Counts s l) (hb : .refers b ∈ l) (hn : l.count (.refers b) + 1 < 2 ^ 64)
    (hx : l[h]? = some .empty) :
    ∃ s', s.increment (.refers b) = some s' ∧ s'.handles = s.handles ∧ Counts s' (l.set h (.refers b)) := by
  obtain ⟨hblock, hpos, -, hdeleted⟩ := hc.block hb
  have hlen : b < s.blocks.length := (List.getElem?_eq_some_iff.mp hblock).1
  rw [increment, hblock]
  refine ⟨_, rfl, rfl, fun b' => ?_⟩
  have hcount := count_set hx (.refers b) (.refers b')
  simp only [Handle.refers.injEq, reduceCtorEq, if_false, Nat.add_zero] at hcount
  rw [hcount]
  by_cases hb' : b' = b
  · subst hb'
    rw [if_pos rfl, Right, List.getElem?_set_self hlen]
    exact ⟨wrap_of_lt hn, Nat.succ_pos _, hn, hdeleted⟩
  · rw [if_neg (Ne.symm hb')]
    have hright := hc b'
    simpa [Right, getElem?_set_ne (Ne.symm hb')] using hright

theorem allocate_spec (hc : Counts s l) (hx : l[h]? = some .empty) :
    Counts s.allocate (l.set h (.refers s.blocks.length)) := by
  intro b
  have hcount := count_set hx (.refers s.blocks.length) (.refers b)
  simp only [Handle.refers.injEq, reduceCtorEq, if_false, Nat.add_zero] at hcount
  rw [hcount]
  have hright := hc b
  unfold Right at hright ⊢
  by_cases hb : b = s.blocks.length
  · subst hb
    rw [getElem?_eq_none (Nat.le_refl _)] at hright
    simp [allocate, hright.1, hright.2]
  · rw [if_neg (Ne.symm hb)]
    by_cases hlt : b < s.blocks.length
    · rwa [allocate, getElem?_append_left hlt]
    · rw [getElem?_eq_none (by omega)] at hright
      rw [allocate, getElem?_eq_none (by simp; omega)]
      exact hright

/-! ## Steps and runs -/

theorem read_eq_some : s.read h = some x ↔ s.handles[h]? = some x ∧ x ≠ .gone := by
  unfold State.read
  cases hx : s.handles[h]? with
  | none => simp
  | some y =>
    by_cases hy : y = .gone
    · simp only [bind_some, hy, if_true, reduceCtorEq, Option.some.injEq, false_iff, not_and,
        not_not]
      exact Eq.symm
    · simp only [bind_some, hy, if_false, Option.some.injEq]
      exact ⟨fun h => ⟨h, h ▸ hy⟩, fun h => h.1⟩

theorem Counts.concat_empty (hc : Counts s l) : Counts s (l ++ [.empty]) :=
  hc.congr rfl rfl fun b => by simp [count_append]

theorem set_concat (l : List Handle) (x : Handle) :
    (l ++ [Handle.empty]).set l.length x = l ++ [x] := by
  rw [set_append_right _ _ (Nat.le_refl _), Nat.sub_self, set_cons_zero]

/-- Exchanging two handles, or moving one over an empty one, keeps the counts. -/
theorem count_exchanged {y : Handle} {o : ℕ} (hy : l[h]? = some y) (hx : l[o]? = some x)
    (z : Handle) : ((l.set h x).set o y).count z = l.count z := by
  have hlen : h < l.length := (List.getElem?_eq_some_iff.mp hy).1
  have hmid : (l.set h x)[o]? = some x := by
    by_cases hho : h = o
    · rw [← hho, List.getElem?_set_self hlen]
    · rw [getElem?_set_ne hho, hx]
  have hto := count_set hy x z
  have hfrom := count_set hmid y z
  omega

/-- An operation that gives back what the handle `h` refers to, before it writes to it. -/
theorem released (hc : Counts s s.handles) (hread : (s.read h).isSome = true) :
    ∃ y s₁, s.read h = some y ∧ s.decrement y = some s₁ ∧ s₁.handles = s.handles ∧
      (∀ o, s₁.read o = s.read o) ∧ Counts s₁ (s.handles.set h .empty) ∧
      (s.handles.set h .empty)[h]? = some .empty := by
  obtain ⟨y, hy⟩ := isSome_iff_exists.mp hread
  have hget := (read_eq_some.mp hy).1
  obtain ⟨s₁, hs₁, hsame, hc₁⟩ := decrement_spec hc hget
  have hreads : ∀ o, s₁.read o = s.read o := fun o => by rw [State.read, hsame, State.read]
  exact ⟨y, s₁, hy, hs₁, hsame, hreads, hc₁, List.getElem?_set_self (List.getElem?_eq_some_iff.mp hget).1⟩

/-- The source of a copy refers to an object. -/
theorem copied {o : ℕ} (hread : (s.read o).isSome = true)
    (hp : ∀ x ∈ s.read o, x ≠ .empty ∧ s.handles.count x + 1 < 2 ^ 64) :
    ∃ b, s.read o = some (.refers b) ∧ s.handles[o]? = some (.refers b) ∧
      s.handles.count (.refers b) + 1 < 2 ^ 64 := by
  obtain ⟨x, hx⟩ := isSome_iff_exists.mp hread
  obtain ⟨hget, hgone⟩ := read_eq_some.mp hx
  cases x with
  | gone => exact absurd rfl hgone
  | empty => exact absurd rfl (hp _ hx).1
  | refers b => exact ⟨b, hx, hget, (hp _ hx).2⟩

theorem act_counts (hc : Counts s s.handles) (a : Action) (hp : a.Proper s) (hops : a.Called s) :
    ∃ s', act a s = some s' ∧ Counts s' s'.handles := by
  cases a with
  | default => exact ⟨_, rfl, hc.concat_empty⟩
  | create =>
    have hnew := allocate_spec hc.concat_empty getElem?_concat_length
    rw [set_concat] at hnew
    exact ⟨_, rfl, hnew⟩
  | copyConstruct o =>
    obtain ⟨b, hx, hget, hn⟩ := copied (hops o mem_cons_self) hp
    obtain ⟨s', hs', hsame, hcounts⟩ := increment_spec hc.concat_empty
      (mem_append_left _ (mem_of_getElem? hget))
      (by simpa [count_append] using hn) getElem?_concat_length
    refine ⟨s'.construct (.refers b), by rw [act, hx, bind_some, hs']; rfl, ?_⟩
    rw [set_concat, ← hsame] at hcounts
    exact hcounts
  | moveConstruct o =>
    obtain ⟨x, hx⟩ := isSome_iff_exists.mp (hops o mem_cons_self)
    refine ⟨(s.write o .empty).construct x, by rw [act, hx]; rfl, hc.congr rfl rfl fun b => ?_⟩
    have hcount := count_set (read_eq_some.mp hx).1 .empty (.refers b)
    simp only [reduceCtorEq, if_false, Nat.add_zero] at hcount
    simp only [State.construct, State.write, count_append, count_singleton, beq_iff_eq]
    exact hcount
  | copyAssign h o =>
    obtain ⟨y, s₁, hy, hs₁, hsame, hreads, hc₁, hempty⟩ := released hc (hops h mem_cons_self)
    have hread := hops o (mem_cons_of_mem _ mem_cons_self)
    by_cases hho : h = o
    · subst hho
      exact ⟨s, by rw [act, hy, bind_some, if_pos rfl], hc⟩
    obtain ⟨b, hx, hget, hn⟩ := copied hread (hp.resolve_left hho)
    -- the source is another handle, so its object is not the one that may just have gone
    have hmem : .refers b ∈ s.handles.set h .empty := by
      refine mem_of_getElem? (i := o) ?_
      rw [getElem?_set_ne hho, hget]
    have hle := count_set (read_eq_some.mp hy).1 .empty (.refers b)
    rw [if_neg (by simp : Handle.empty ≠ .refers b)] at hle
    obtain ⟨s₂, hs₂, hsame₂, hc₂⟩ := increment_spec hc₁ hmem (by omega) hempty
    refine ⟨s₂.write h (.refers b), ?_, ?_⟩
    · rw [act, hy, bind_some, if_neg hho, hs₁, bind_some, hreads, hx, bind_some, hs₂]
      rfl
    · rw [set_set, ← hsame, ← hsame₂] at hc₂
      exact hc₂
  | moveAssign h o =>
    obtain ⟨y, s₁, hy, hs₁, hsame, hreads, hc₁, hempty⟩ := released hc (hops h mem_cons_self)
    obtain ⟨x, hx⟩ :=
      isSome_iff_exists.mp (hops o (mem_cons_of_mem _ mem_cons_self))
    by_cases hho : h = o
    · exact ⟨s, by rw [act, hy, bind_some, if_pos hho], hc⟩
    refine ⟨(s₁.write h x).write o .empty, ?_, hc₁.congr rfl rfl fun b => ?_⟩
    · rw [act, hy, bind_some, if_neg hho, hs₁, bind_some, hreads, hx]
      rfl
    · have hmoved := count_exchanged (o := o) (x := x) hempty
        (by rw [getElem?_set_ne hho, (read_eq_some.mp hx).1]) (.refers b)
      rw [set_set] at hmoved
      simpa only [State.write, hsame] using hmoved
  | assignNew h =>
    obtain ⟨y, s₁, hy, hs₁, hsame, -, hc₁, hempty⟩ := released hc (hops h mem_cons_self)
    have hnew := allocate_spec hc₁ hempty
    rw [set_set, ← hsame] at hnew
    exact ⟨_, by rw [act, hy, bind_some, hs₁]; rfl, hnew⟩
  | reset h =>
    obtain ⟨y, s₁, hy, hs₁, hsame, -, hc₁, -⟩ := released hc (hops h mem_cons_self)
    rw [← hsame] at hc₁
    exact ⟨_, by rw [act, hy, bind_some, hs₁]; rfl, hc₁⟩
  | swap h o =>
    obtain ⟨y, hy⟩ := isSome_iff_exists.mp (hops h mem_cons_self)
    obtain ⟨x, hx⟩ :=
      isSome_iff_exists.mp (hops o (mem_cons_of_mem _ mem_cons_self))
    exact ⟨(s.write h x).write o y, by rw [act, hy, hx]; rfl, hc.congr rfl rfl fun b =>
      count_exchanged (read_eq_some.mp hy).1 (read_eq_some.mp hx).1 (.refers b)⟩
  | destroy h =>
    obtain ⟨y, s₁, hy, hs₁, hsame, -, hc₁, hempty⟩ := released hc (hops h mem_cons_self)
    refine ⟨s₁.write h .gone, by rw [act, hy, bind_some, hs₁]; rfl, hc₁.congr rfl rfl fun b => ?_⟩
    have hgone := count_set hempty .gone (.refers b)
    rw [set_set] at hgone
    simpa [State.write, hsame] using hgone

def State.initial : State := ⟨[], [], []⟩

/-- Operations on handles that are all empty touch no counter. -/
theorem act_empty {s' : State} (a : Action) (hops : ∀ h ∈ a.operands, s.read h = some .empty)
    (hnew : a ≠ .create ∧ ∀ h, a ≠ .assignNew h) (hs : act a s = some s') :
    s'.blocks = s.blocks ∧ s'.deleted = s.deleted := by
  cases a with
  | create => exact absurd rfl hnew.1
  | assignNew h => exact absurd rfl (hnew.2 h)
  | default => cases hs; exact ⟨rfl, rfl⟩
  | copyConstruct o => simp [act, hops o mem_cons_self, State.increment] at hs
  | moveConstruct o | reset o | destroy o =>
    simp only [act, hops o mem_cons_self, State.decrement, bind_some] at hs
    cases hs
    exact ⟨rfl, rfl⟩
  | swap h o =>
    rw [act, hops h mem_cons_self, hops o (mem_cons_of_mem _ mem_cons_self)] at hs
    cases hs
    exact ⟨rfl, rfl⟩
  | copyAssign h o | moveAssign h o =>
    simp only [act, hops h mem_cons_self, hops o (mem_cons_of_mem _ mem_cons_self),
      State.decrement, State.increment, bind_some] at hs
    split at hs <;> cases hs <;> exact ⟨rfl, rfl⟩

/-- As long as nothing is copied from an empty handle: the counts are the numbers of the handles,
the deleter has run once exactly for the objects that no handle refers to any more, and every call
on existing handles works on control blocks that exist. -/
theorem counts_correct (s : State)
    (hrun : GuardedRuns.Run act (fun s a => a.Called s ∧ a.Proper s) State.initial s) :
    (∀ b useCount, s.blocks[b]? = some (some useCount) → useCount = s.handles.count (.refers b)) ∧
      (∀ b < s.blocks.length,
        s.deleted.count b = if s.handles.count (.refers b) = 0 then 1 else 0) ∧
      (∀ b, .refers b ∈ s.handles → (∃ useCount, s.blocks[b]? = some (some useCount)) ∧
        b ∉ s.deleted) ∧
      (∀ a : Action, a.Called s → a.Proper s → ∃ s', act a s = some s') ∧
      ∀ (a : Action) (s' : State), (∀ h ∈ a.operands, s.read h = some .empty) →
        (a ≠ .create ∧ ∀ h, a ≠ .assignNew h) → act a s = some s' →
          s'.blocks = s.blocks ∧ s'.deleted = s.deleted := by
  have hc : Counts s s.handles := by
    refine hrun.invariant (fun s => Counts s s.handles) (fun b => by simp [Right, State.initial]) ?_
    rintro s a s' hs ⟨hcalled, hproper⟩ hact
    obtain ⟨s'', hs'', hcounts⟩ := act_counts hs a hproper hcalled
    obtain rfl : s' = s'' := Option.some.inj (hact.symm.trans hs'')
    exact hcounts
  refine ⟨fun b useCount hb => ?_, fun b hb => ?_, fun b hb => ?_, ?_, ?_⟩
  · have hright := hc b
    rw [Right, hb] at hright
    exact hright.1
  · have hright := hc b
    unfold Right at hright
    split at hright
    · next hnone => exact absurd (getElem?_eq_none_iff.mp hnone) (by omega)
    · rw [hright.2, if_pos hright.1]
    · rw [hright.2.2.2, if_neg (by omega)]
  · obtain ⟨hblock, -, -, hdeleted⟩ := hc.block hb
    exact ⟨⟨_, hblock⟩, count_eq_zero.mp hdeleted⟩
  · intro a hcalled hproper
    obtain ⟨s', hs', -⟩ := act_counts hc a hproper hcalled
    exact ⟨s', hs'⟩
  · exact fun a s' hops hnew hs => act_empty a hops hnew hs

theorem counts_correct_last_handle : ∃ s : State, s.handles = [.gone, .empty] ∧ s.deleted = [0] ∧
      ∀ b < s.blocks.length, s.deleted.count b = if s.handles.count (.refers b) = 0 then 1 else 0 := by
  have hrun : GuardedRuns.Run act (fun s a => a.Called s ∧ a.Proper s) State.initial
      ⟨[.gone, .empty], [none], [0]⟩ :=
    GuardedRuns.exec_run [.create, .copyConstruct 0, .destroy 0, .reset 1] _ _
      (fun s a h => of_decide_eq_true (p := a.Called s ∧ a.Proper s) h) (by decide +kernel)
  exact ⟨_, rfl, rfl, (counts_correct _ hrun).2.1⟩

/-- A copy of an empty handle, by construction or by assignment, follows a null pointer. -/
theorem copy_of_empty_fails : (act .default State.initial).bind (act (.copyConstruct 0)) = none ∧
      ((act .default State.initial).bind (act .create)).bind (act (.copyAssign 1 0)) = none ∧
      (act .default State.initial).map (fun s => (s.read 0, s.handles)) =
        some (some .empty, [.empty]) := by
  decide +kernel

end Ichor.ReferenceCounted
