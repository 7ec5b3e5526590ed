import Mathlib.Logic.Relation

/-! Runs of a transition function whose steps are guarded: the invariant rule,
composition of runs, and execution of a list of actions as a run. -/
namespace GuardedRuns

universe u v

variable {σ : Type u} {α : Type v}

/-- One step by an action that the guard admits. -/
def Step (next : α → σ → Option σ) (guard : σ → α → Prop) (s s' : σ) : Prop :=
  ∃ a, guard s a ∧ next a s = some s'

def Run (next : α → σ → Option σ) (guard : σ → α → Prop) : σ → σ → Prop :=
  Relation.ReflTransGen (Step next guard)

variable {next : α → σ → Option σ} {guard : σ → α → Prop}

theorem Run.invariant {s t : σ} (h : Run next guard s t) (inv : σ → Prop) (h0 : inv s)
    (hstep : ∀ x a y, inv x → guard x a → next a x = some y → inv y) : inv t := by
  induction h with
  | refl => exact h0
  | tail _ hst ih =>
    obtain ⟨a, hg, hn⟩ := hst
    exact hstep _ a _ ih hg hn

/-- Run a list of actions, stopping where the test fails or the step does not exist. -/
def exec (next : α → σ → Option σ) (test : σ → α → Bool) : List α → σ → Option σ
  | [], s => some s
  | a :: rest, s => if test s a then (next a s).bind (exec next test rest) else none

theorem exec_run {test : σ → α → Bool} (acts : List α) (s t : σ)
    (htest : ∀ x a, test x a = true → guard x a) (h : exec next test acts s = some t) :
    Run next guard s t := by
  induction acts generalizing s with
  | nil =>
    have hst : s = t := by simpa [exec] using h
    exact hst ▸ Relation.ReflTransGen.refl
  | cons a rest ih =>
    by_cases ht : test s a = true
    · simp only [exec, ht, if_true] at h
      obtain ⟨x, hx, hrest⟩ := Option.bind_eq_some_iff.mp h
      exact Relation.ReflTransGen.head ⟨a, htest s a ht, hx⟩ (ih x hrest)
    · simp [exec, ht] at h

/-- Without a guard. -/
theorem run_exec (acts : List α) {s t : σ} (h : exec next (fun _ _ => true) acts s = some t) :
    Run next (fun _ _ => True) s t :=
  exec_run acts s t (fun _ _ _ => trivial) h

end GuardedRuns
