import Ichor.Lib.Runs
import Mathlib.Data.List.Nodup

/-! The objects of type `any`: what they record about the value they hold, and the values that are
constructed and destroyed. -/
namespace Ichor
open Option

structure CppType where
  hash : ℕ
  name : String
  size : ℕ
  nothrowMoveConstructible : Bool
  deriving DecidableEq

/-- A value of the type is stored in the buffer of the object, others on the heap. -/
def CppType.inBuffer (t : CppType) : Bool := decide (t.size ≤ 16) && t.nothrowMoveConstructible

/-- A value, numbered by its construction. -/
structure Value where
  id : ℕ
  type : CppType
  formattable : Bool

/-- The two functions are known by the type that they were made for. -/
structure Any where
  size : ℕ := 0
  typeHash : ℕ := 0
  typeName : String := ""
  opFn : Option CppType := none
  formatFn : Option CppType := none
  ptr : Option Value := none

/-- All objects, how many values were constructed, and those that were destroyed. -/
structure Anys where
  objects : ℕ → Option Any
  constructed : ℕ
  destroyed : List ℕ

namespace Anys

def put (w : Anys) (i : ℕ) (x : Option Any) : Anys :=
  { w with objects := Function.update w.objects i x }

/-- A fresh copy of a value. -/
def copy (w : Anys) (v : Value) : Value × Anys :=
  (⟨w.constructed, v.type, v.formattable⟩, { w with constructed := w.constructed + 1 })

/-- The fields that `reset` clears. -/
def cleared (a : Any) : Any := { a with size := 0, typeHash := 0, typeName := "", ptr := none }

/-- `reset`. A function for another type than the value's has no defined meaning. -/
def reset (w : Anys) (i : ℕ) (a : Any) : Option Anys :=
  match a.ptr with
  | none => some (w.put i (some (cleared a)))
  | some v =>
    if a.opFn = some v.type then
      some { w.put i (some (cleared a)) with destroyed := v.id :: w.destroyed }
    else none

/-- The pointer for a copy of the value of `o`. -/
def clone (w : Anys) (o : Any) : Option (Option Value × Anys) :=
  match o.ptr with
  | none => some (none, w)
  | some v =>
    if o.opFn = some v.type then some (some (w.copy v).1, (w.copy v).2) else none

/-- The pointer for the value that is moved out of `o`: a new one in the buffer, or the same one. -/
def take (w : Anys) (o : Any) : Option (Option Value × Anys) :=
  match o.ptr with
  | none => some (none, w)
  | some v => if v.type.inBuffer then w.clone o else some (some v, w)

inductive Act where
  | construct (i : ℕ)
  | copyConstruct (i j : ℕ)
  | moveConstruct (i j : ℕ)
  | copyAssign (i j : ℕ)
  | moveAssign (i j : ℕ)
  | emplace (i : ℕ) (type : CppType) (formattable : Bool)
  | reset (i : ℕ)
  | destroy (i : ℕ)

def act : Act → Anys → Option Anys
  | .construct i, w => if (w.objects i).isSome then none else some (w.put i (some {}))
  | .copyConstruct i j, w =>
    if (w.objects i).isSome then none
    else do
      let o ← w.objects j
      let (ptr, w) ← w.clone o
      some (w.put i (some { o with ptr := ptr }))
  | .moveConstruct i j, w =>
    if (w.objects i).isSome then none
    else do
      let o ← w.objects j
      let (ptr, w) ← w.take o
      some ((w.put i (some { o with ptr := ptr })).put j
        (some (if o.ptr.isNone then o else cleared o)))
  | .copyAssign i j, w =>
    if i = j then some w
    else do
      let a ← w.objects i
      let o ← w.objects j
      let w ← w.reset i a
      let (ptr, w) ← w.clone o
      some (w.put i (some { o with ptr := ptr }))
  | .moveAssign i j, w =>
    if i = j then some w
    else do
      let a ← w.objects i
      let o ← w.objects j
      let w ← w.reset i a
      let (ptr, w) ← w.take o
      some ((w.put i (some { o with ptr := ptr })).put j (some { o with ptr := none }))
  | .emplace i type formattable, w => do
    let a ← w.objects i
    let w ← w.reset i a
    let (v, w) := w.copy ⟨0, type, formattable⟩
    some (w.put i (some ⟨type.size, type.hash, type.name, some type,
      if formattable then some type else a.formatFn, some v⟩))
  | .reset i, w => do
    let a ← w.objects i
    w.reset i a
  | .destroy i, w => do
    let a ← w.objects i
    let w ← w.reset i a
    some (w.put i none)

/-- A value that has no formatter is put only where none is recorded or the recorded one is its own,
values in a buffer are not moved, and no value is moved by an assignment. -/
def Careful (w : Anys) : Act → Prop
  | .emplace i type formattable => formattable = true ∨
      ∀ a, w.objects i = some a → a.formatFn = none ∨ a.formatFn = some type
  | .moveConstruct _ j => ∀ o v, w.objects j = some o → o.ptr = some v → v.type.inBuffer = false
  | .moveAssign i j => i = j ∨ ∀ o, w.objects j = some o → o.ptr = none
  | _ => True

def Reaches (condition : Anys → Act → Prop) (w : Anys) : Prop :=
  GuardedRuns.Run act condition ⟨fun _ => none, 0, []⟩ w

/-- What an object records is what it holds. -/
def Represents (a : Any) : Prop :=
  match a.ptr with
  | none => a.size = 0 ∧ a.typeHash = 0 ∧ a.typeName = ""
  | some v => (a.size = v.type.size ∧ a.typeHash = v.type.hash ∧ a.typeName = v.type.name) ∧
      a.opFn = some v.type ∧ (a.formatFn = none ∨ a.formatFn = some v.type) ∧
      (v.formattable = true → a.formatFn = some v.type)

def Holds (w : Anys) (i id : ℕ) : Prop :=
  ∃ a v, w.objects i = some a ∧ a.ptr = some v ∧ v.id = id

/-- Every value that was constructed is held by one object or was destroyed once. -/
def HeldOrDestroyed (holds : ℕ → ℕ → Prop) (constructed : ℕ) (destroyed : List ℕ) : Prop :=
  (∀ i id, holds i id → id < constructed ∧ id ∉ destroyed) ∧
  (∀ i j id, holds i id → holds j id → i = j) ∧
  (∀ id ∈ destroyed, id < constructed) ∧ destroyed.Nodup ∧
  ∀ id < constructed, id ∈ destroyed ∨ ∃ i, holds i id

def Represented (w : Anys) : Prop :=
  (∀ i a, w.objects i = some a → Represents a) ∧ HeldOrDestroyed w.Holds w.constructed w.destroyed

section
variable {holds holds' : ℕ → ℕ → Prop} {n i j : ℕ} {destroyed : List ℕ}

section
variable (h : HeldOrDestroyed holds n destroyed)
include h

theorem HeldOrDestroyed.congr (hfree : ∀ id, ¬holds i id)
    (heq : ∀ k id, holds' k id ↔ k ≠ i ∧ holds k id) : HeldOrDestroyed holds' n destroyed := by
  have : holds' = holds := by grind
  exact this ▸ h

theorem HeldOrDestroyed.construct (hfree : ∀ id, ¬holds i id)
    (heq : ∀ k id, holds' k id ↔ k = i ∧ id = n ∨ k ≠ i ∧ holds k id) :
    HeldOrDestroyed holds' (n + 1) destroyed := by
  obtain ⟨h1, h2, h3, h4, h5⟩ := h
  have hnew : holds' i n := (heq i n).mpr (.inl ⟨rfl, rfl⟩)
  refine ⟨?_, ?_, ?_, h4, ?_⟩ <;> grind

theorem HeldOrDestroyed.destroy {v : ℕ}
    (hv : ∀ id, holds i id ↔ id = v) (heq : ∀ k id, holds' k id ↔ k ≠ i ∧ holds k id) :
    HeldOrDestroyed holds' n (v :: destroyed) := by
  obtain ⟨h1, h2, h3, h4, h5⟩ := h
  have hold : holds i v := (hv v).mpr rfl
  refine ⟨?_, ?_, ?_, ?_, ?_⟩ <;> grind

theorem HeldOrDestroyed.move {v : ℕ} (hv : ∀ id, holds j id ↔ id = v) (hfree : ∀ id, ¬holds i id)
    (heq : ∀ k id, holds' k id ↔ k ≠ j ∧ (k = i ∧ id = v ∨ k ≠ i ∧ holds k id)) :
    HeldOrDestroyed holds' n destroyed := by
  obtain ⟨h1, h2, h3, h4, h5⟩ := h
  have hold : holds j v := (hv v).mpr rfl
  have hnew : holds' i v := (heq i v).mpr ⟨fun hij => hfree v (hij ▸ hold), .inl ⟨rfl, rfl⟩⟩
  refine ⟨?_, ?_, h3, h4, ?_⟩ <;> grind

end

end

variable {w w' : Anys} {i j : ℕ} {a o : Any} {ptr : Option Value} {x : Option Any}

theorem holds_put (w : Anys) (i : ℕ) (x : Option Any) (k id : ℕ) : (w.put i x).Holds k id ↔
    (k = i ∧ ∃ v, x.bind Any.ptr = some v ∧ v.id = id) ∨ (k ≠ i ∧ w.Holds k id) := by
  unfold Holds put
  by_cases h : k = i
  · subst h
    cases x <;> simp
  · simp [h]

theorem represents_put (h : ∀ k a, w.objects k = some a → Represents a)
    (hx : ∀ a, x = some a → Represents a) : ∀ k a, (w.put i x).objects k = some a → Represents a := by
  intro k a hk
  simp only [put, Function.update_apply] at hk
  split at hk
  · exact hx a hk
  · exact h k a hk

/-! ## The operations -/

theorem not_holds_of_none (h : (w.objects i).bind Any.ptr = none) (id : ℕ) : ¬w.Holds i id := by
  rintro ⟨a, v, ha, hv, -⟩
  simp [ha, hv] at h

theorem Represented.put (h : Represented w) (hfree : ∀ id, ¬w.Holds i id) (hx : x.bind Any.ptr = none)
    (hrep : ∀ a, x = some a → Represents a) : Represented (w.put i x) := by
  refine ⟨represents_put h.1 hrep, h.2.congr hfree fun k id => ?_⟩
  rw [holds_put, hx]
  simp

theorem Represented.reset (h : Represented w) (ha : w.objects i = some a) (hw : w.reset i a = some w') :
    Represented w' ∧ (∀ id, ¬w'.Holds i id) ∧ ∀ k, k ≠ i → w'.objects k = w.objects k := by
  have hcleared : ∀ b, some (cleared a) = some b → Represents b := fun b hb => by
    cases hb
    exact ⟨rfl, rfl, rfl⟩
  have hfree : ∀ id, ¬(w.put i (some (cleared a))).Holds i id :=
    not_holds_of_none (by simp [Anys.put, cleared])
  have hothers : ∀ k, k ≠ i → (w.put i (some (cleared a))).objects k = w.objects k :=
    fun k hk => Function.update_of_ne hk _ _
  unfold Anys.reset at hw
  split at hw
  · rename_i hptr
    cases hw
    exact ⟨h.put (not_holds_of_none (by simp [ha, hptr])) rfl hcleared, hfree, hothers⟩
  · rename_i v hptr
    split at hw <;> cases hw
    have hheld : ∀ id, w.Holds i id ↔ id = v.id := fun id => by simp [Holds, ha, hptr, eq_comm]
    refine ⟨⟨represents_put h.1 hcleared, h.2.destroy hheld fun k id => ?_⟩, hfree, hothers⟩
    exact (holds_put w i _ k id).trans (by simp [cleared])

/-- An object without a value gets a copy of what another one holds. -/
theorem Represented.clone (h : Represented w) (hfree : ∀ id, ¬w.Holds i id) (ho : Represents o)
    (hw : w.clone o = some (ptr, w')) : Represented (w'.put i (some { o with ptr := ptr })) := by
  unfold Anys.clone at hw
  split at hw
  · rename_i hptr
    cases hw
    refine h.put hfree rfl fun b hb => ?_
    cases hb
    simpa only [Represents, hptr] using ho
  · rename_i v hptr
    split at hw <;> cases hw
    refine ⟨represents_put h.1 fun b hb => ?_, h.2.construct hfree fun k id => ?_⟩
    · cases hb
      simpa only [Represents, hptr, copy] using ho
    · exact (holds_put _ i _ k id).trans (by simp [eq_comm]; rfl)

/-- A value on the heap gets another owner. -/
theorem Represented.take (h : Represented w) (hfree : ∀ id, ¬w.Holds i id) (ho : w.objects j = some o)
    {v : Value} (hptr : o.ptr = some v) : Represented ((w.put i (some o)).put j (some (cleared o))) := by
  have hheld : ∀ id, w.Holds j id ↔ id = v.id := fun id => by simp [Holds, ho, hptr, eq_comm]
  refine ⟨represents_put (represents_put h.1 fun b hb => ?_) fun b hb => ?_,
    h.2.move hheld hfree fun k id => ?_⟩
  · exact h.1 j b (ho.trans hb)
  · cases hb
    exact ⟨rfl, rfl, rfl⟩
  · rw [holds_put, holds_put]
    simp [cleared, hptr, eq_comm]

theorem take_eq (h : ∀ v, o.ptr = some v → v.type.inBuffer = false) :
    w.take o = some (o.ptr, w) := by
  unfold take
  split
  · rename_i hptr
    rw [hptr]
  · rename_i v hptr
    rw [h v hptr, if_neg Bool.false_ne_true, hptr]

/-- Two objects without values. -/
theorem Represented.put_put (h : Represented w) (hi : ∀ id, ¬w.Holds i id) (hj : ∀ id, ¬w.Holds j id)
    (hptr : o.ptr = none) (ho : Represents o) : Represented ((w.put i (some o)).put j (some o)) := by
  have hrep : ∀ b, some o = some b → Represents b := fun b hb => Option.some.inj hb ▸ ho
  have hbind : (some o).bind Any.ptr = none := hptr
  refine (h.put hi hbind hrep).put (fun id => ?_) hbind hrep
  rw [holds_put]
  simp [hptr, hj]

theorem Represented.act (h : Represented w) {act : Act} (hc : Careful w act) (hs : Anys.act act w = some w') :
    Represented w' := by
  cases act with
  | construct i =>
    simp only [Anys.act] at hs
    split at hs
    · cases hs
    · rename_i hnone
      cases hs
      refine h.put (not_holds_of_none (by simp_all)) rfl fun b hb => ?_
      cases hb
      exact ⟨rfl, rfl, rfl⟩
  | copyConstruct i j =>
    simp only [Anys.act] at hs
    split at hs
    · cases hs
    · rename_i hnone
      obtain ⟨o, ho, hs⟩ := bind_eq_some_iff.mp hs
      obtain ⟨⟨ptr, w1⟩, hclone, hs⟩ := bind_eq_some_iff.mp hs
      cases hs
      exact h.clone (not_holds_of_none (by simp_all)) (h.1 j o ho) hclone
  | moveConstruct i j =>
    simp only [Anys.act] at hs
    split at hs
    · cases hs
    · rename_i hnone
      have hfree := not_holds_of_none (w := w) (i := i) (by simp_all)
      obtain ⟨o, ho, hs⟩ := bind_eq_some_iff.mp hs
      rw [take_eq fun v hv => hc o v ho hv] at hs
      obtain rfl := Option.some.inj hs
      cases hptr : o.ptr with
      | none =>
        have hsame : { o with ptr := none } = o := by rw [← hptr]
        simp only [hsame, isNone_none, if_true]
        exact h.put_put hfree (not_holds_of_none (by rw [ho]; exact hptr)) hptr (h.1 j o ho)
      | some v =>
        have hsame : { o with ptr := some v } = o := by rw [← hptr]
        simp only [hsame, isNone_some, Bool.false_eq_true, if_false]
        exact h.take hfree ho hptr
  | copyAssign i j =>
    simp only [Anys.act] at hs
    split at hs
    · cases hs
      exact h
    · rename_i hij
      obtain ⟨a, ha, hs⟩ := bind_eq_some_iff.mp hs
      obtain ⟨o, ho, hs⟩ := bind_eq_some_iff.mp hs
      obtain ⟨w1, hreset, hs⟩ := bind_eq_some_iff.mp hs
      obtain ⟨⟨ptr, w2⟩, hclone, hs⟩ := bind_eq_some_iff.mp hs
      cases hs
      have ho := h.1 j o ho
      obtain ⟨h, hfree, -⟩ := h.reset ha hreset
      exact h.clone hfree ho hclone
  | moveAssign i j =>
    simp only [Anys.act] at hs
    split at hs
    · cases hs
      exact h
    · rename_i hij
      obtain ⟨a, ha, hs⟩ := bind_eq_some_iff.mp hs
      obtain ⟨o, ho, hs⟩ := bind_eq_some_iff.mp hs
      obtain ⟨w1, hreset, hs⟩ := bind_eq_some_iff.mp hs
      have hptr := hc.resolve_left hij o ho
      have hrep := h.1 j o ho
      rw [take_eq (by simp [hptr])] at hs
      obtain rfl := Option.some.inj hs
      obtain ⟨h, hfree, hothers⟩ := h.reset ha hreset
      have hfree' := not_holds_of_none (w := w1) (i := j)
        (by rw [hothers j (Ne.symm hij), ho]; exact hptr)
      have hsame : { o with ptr := none } = o := by rw [← hptr]
      simp only [hsame]
      exact h.put_put hfree hfree' hptr hrep
  | emplace i type formattable =>
    obtain ⟨a, ha, hs⟩ := bind_eq_some_iff.mp hs
    obtain ⟨w1, hreset, hs⟩ := bind_eq_some_iff.mp hs
    cases hs
    obtain ⟨h, hfree, -⟩ := h.reset ha hreset
    refine ⟨represents_put h.1 fun b hb => ?_, h.2.construct hfree fun k id => ?_⟩
    · cases hb
      refine ⟨⟨rfl, rfl, rfl⟩, rfl, ?_, fun hformat => if_pos hformat⟩
      rcases hc with rfl | hc
      · exact .inr rfl
      · have := hc a ha
        split <;> grind
    · exact (holds_put _ i _ k id).trans (by simp [eq_comm]; rfl)
  | reset i =>
    obtain ⟨a, ha, hs⟩ := bind_eq_some_iff.mp hs
    exact (h.reset ha hs).1
  | destroy i =>
    obtain ⟨a, ha, hs⟩ := bind_eq_some_iff.mp hs
    obtain ⟨w1, hreset, hs⟩ := bind_eq_some_iff.mp hs
    cases hs
    obtain ⟨h, hfree, -⟩ := h.reset ha hreset
    exact h.put hfree rfl nofun

/-- In every state of a run whose steps are careful: an object records the type, the name, the size and
the functions of the value that it holds and nothing else, and every value that was constructed is held
by one object or was destroyed once. -/
theorem any_represents (h : Reaches Careful w) :
    (∀ i a, w.objects i = some a → Represents a) ∧ HeldOrDestroyed w.Holds w.constructed w.destroyed := by
  have hinitial : Represented ⟨fun _ => none, 0, []⟩ :=
    ⟨nofun, (fun _ _ ⟨_, _, ha, _⟩ => nomatch ha), (fun _ _ _ ⟨_, _, ha, _⟩ => nomatch ha), nofun,
      List.nodup_nil, nofun⟩
  exact h.invariant Represented hinitial fun _ _ _ hx hc hs => hx.act hc hs

def intType : CppType := ⟨1, "int", 4, true⟩
def stringType : CppType := ⟨2, "string", 32, true⟩

/-- A string is put in an object, moved into another one and destroyed there. -/
theorem any_represents_moved : ∃ w, Reaches Careful w ∧ w.destroyed = [0] ∧
    HeldOrDestroyed w.Holds w.constructed w.destroyed := by
  have hreach : Reaches Careful _ :=
    .tail (.tail (.tail (.tail .refl ⟨.construct 0, trivial, rfl⟩)
      ⟨.emplace 0 stringType true, .inl rfl, rfl⟩)
      ⟨.moveConstruct 1 0, fun o v ho hv => by cases ho; cases hv; rfl, rfl⟩)
      ⟨.destroy 1, trivial, rfl⟩
  exact ⟨_, hreach, rfl, (any_represents hreach).2⟩

/-- An int that has no formatter gets the one of the string before it; an object that was assigned from
keeps its type; an int that is moved out of a buffer is never destroyed. -/
theorem any_misrepresents :
    (∃ w a v, Reaches (fun _ _ => True) w ∧ w.objects 0 = some a ∧ a.ptr = some v ∧
      v.type = intType ∧ a.formatFn = some stringType) ∧
    (∃ w a, Reaches (fun _ _ => True) w ∧ w.objects 0 = some a ∧ a.ptr = none ∧
      a.typeHash = stringType.hash) ∧
    ∃ w, Reaches (fun _ _ => True) w ∧ w.constructed = 2 ∧ w.destroyed = [1] ∧
      w.objects 0 = none ∧ w.objects 1 = none := by
  exact ⟨⟨_, _, _, GuardedRuns.run_exec [.construct 0, .emplace 0 stringType true,
      .emplace 0 intType false] rfl, rfl, rfl, rfl, rfl⟩,
    ⟨_, _, GuardedRuns.run_exec [.construct 0, .construct 1, .emplace 0 stringType true,
      .moveAssign 1 0] rfl, rfl, rfl, rfl⟩,
    ⟨_, GuardedRuns.run_exec [.construct 0, .emplace 0 intType true, .moveConstruct 1 0,
      .destroy 0, .destroy 1] rfl, rfl, rfl, rfl, rfl⟩⟩

end Anys

end Ichor
