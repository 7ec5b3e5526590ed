import Mathlib.Logic.Relation
import Mathlib.Data.List.Basic

/-! Loops over a list as folds, with and without failing rounds: what every round keeps,
as a reflexive and transitive relation, the loop keeps. -/
namespace Loops

universe u v

variable {α : Type u} {β : Type v} (R : β → β → Prop) (hrefl : ∀ b, R b b)
  (htrans : ∀ {a b c}, R a b → R b c → R a c)

include hrefl htrans

theorem rel_foldl (f : β → α → β) (l : List α) (b : β) (hf : ∀ b, ∀ a ∈ l, R b (f b a)) :
    R b (l.foldl f b) := by
  induction l generalizing b with
  | nil => exact hrefl b
  | cons a rest ih =>
    have hone : R b (f b a) := hf b a List.mem_cons_self
    exact htrans hone (ih (f b a) fun x y hy => hf x y (List.mem_cons_of_mem a hy))

theorem rel_foldlM (f : β → α → Option β) (l : List α) {b b' : β}
    (hf : ∀ b, ∀ a ∈ l, ∀ b', f b a = some b' → R b b') (h : l.foldlM f b = some b') : R b b' := by
  induction l generalizing b with
  | nil =>
    cases h
    exact hrefl _
  | cons a rest ih =>
    rw [List.foldlM_cons] at h
    obtain ⟨c, hc, hrest⟩ := Option.bind_eq_some_iff.mp h
    have hone : R b c := hf b a List.mem_cons_self c hc
    exact htrans hone (ih (fun x y hy => hf x y (List.mem_cons_of_mem a hy)) hrest)

omit hrefl htrans

/-- A counted loop whose rounds all succeed ends, with what the rounds establish. -/
theorem exists_foldlM_range {γ : Type v} (P : ℕ → γ → Prop) (f : γ → ℕ → Option γ) (n : ℕ) {c : γ}
    (h0 : P 0 c) (hstep : ∀ i < n, ∀ c, P i c → ∃ c', f c i = some c' ∧ P (i + 1) c') :
    ∃ c', (List.range n).foldlM f c = some c' ∧ P n c' := by
  induction n with
  | zero => exact ⟨c, rfl, h0⟩
  | succ n ih =>
    obtain ⟨c', hc', hP⟩ := ih fun i hi => hstep i (Nat.lt_succ_of_lt hi)
    obtain ⟨d, hd, hPd⟩ := hstep n (Nat.lt_succ_self n) c' hP
    refine ⟨d, ?_, hPd⟩
    rw [List.range_succ, List.foldlM_append, hc']
    simp [hd]

end Loops
