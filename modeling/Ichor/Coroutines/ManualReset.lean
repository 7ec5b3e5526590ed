import Ichor.Coroutines.Mutex
import Mathlib.Data.List.Perm.Basic

/-! `AsyncManualResetEvent` on one thread: coroutines await, set and reset the event, also those that
a running `set` has just resumed. -/
namespace Ichor

/-- A call of `set`: how many were made before it, the operations that waited when it was made, and
those that its loop has resumed and has left. -/
structure SetCall where
  number : ℕ
  waiting : List ℕ
  resumed : List ℕ
  left : List ℕ

/-- The event, the calls of `set` that are running, innermost first, and those that have returned.
`waited` are the operations that were suspended, each with the number of `set` calls before it. -/
structure EventThread where
  event : AsyncManualResetEvent ℕ
  running : List SetCall
  returned : List SetCall
  sets : ℕ
  ops : ℕ
  waited : List (ℕ × ℕ)

namespace EventThread

def initial (initiallySet : Bool) : EventThread :=
  ⟨if initiallySet then .isSet else .notSet [], [], [], 0, 0, []⟩

inductive Act where
  | await
  | set
  | reset
  /-- The coroutine that runs gives control back to the innermost loop. -/
  | next

def calls (s : EventThread) : List SetCall := s.running ++ s.returned

/-- One round of the loop, or its end. -/
def resumeNext (s : EventThread) : Option EventThread :=
  match s.running with
  | [] => none
  | c :: rest =>
    match c.left with
    | [] => some { s with running := rest, returned := c :: s.returned }
    | op :: left =>
      some { s with running := { c with resumed := c.resumed ++ [op], left := left } :: rest }

def act : Act → EventThread → Option EventThread
  | .await, s =>
    match s.event.awaitSuspend s.ops with
    | none => some { s with ops := s.ops + 1 }
    | some event =>
      some { s with event := event, ops := s.ops + 1, waited := (s.ops, s.sets) :: s.waited }
  | .set, s =>
    let waiting := s.event.resumedBySet
    { s with
      event := .isSet
      sets := s.sets + 1
      running := ⟨s.sets, waiting, [], waiting⟩ :: s.running }.resumeNext
  | .reset, s =>
    match s.event with
    | .isSet => some { s with event := .notSet [] }
    | .notSet _ => some s
  | .next, s => s.resumeNext

def Reaches (initiallySet : Bool) (s : EventThread) : Prop :=
  GuardedRuns.Run act (fun _ _ => True) (initial initiallySet) s

/-- Every operation that was suspended waits or belongs to one call of `set`, which was made after it
was suspended and has resumed it or will. -/
structure WaitsOrSet (s : EventThread) : Prop where
  placed : (s.event.resumedBySet ++ s.calls.flatMap (·.waiting)).Perm (s.waited.map (·.1))
  once : (s.waited.map (·.1)).Nodup
  fresh : ∀ w ∈ s.waited, w.1 < s.ops ∧ w.2 ≤ s.sets
  progress : ∀ c ∈ s.calls, c.resumed ++ c.left = c.waiting
  ended : ∀ c ∈ s.returned, c.left = []
  later : ∀ c ∈ s.calls, ∀ w ∈ s.waited, w.1 ∈ c.waiting → w.2 ≤ c.number

variable {s s' : EventThread}

theorem resumeNext_end {c : SetCall} {rest : List SetCall} (h : s.running = c :: rest)
    (hleft : c.left = []) :
    s.resumeNext = some { s with running := rest, returned := c :: s.returned } := by
  simp only [resumeNext, h, hleft]

theorem resumeNext_round {c : SetCall} {rest : List SetCall} {op : ℕ} {left : List ℕ}
    (h : s.running = c :: rest) (hleft : c.left = op :: left) : s.resumeNext = some { s with
      running := { c with resumed := c.resumed ++ [op], left := left } :: rest } := by
  simp only [resumeNext, h, hleft]

theorem WaitsOrSet.resumeNext (h : WaitsOrSet s) (hs : s.resumeNext = some s') : WaitsOrSet s' := by
  obtain ⟨h1, h2, h3, h4, h5, h6⟩ := h
  unfold EventThread.resumeNext at hs
  cases hrunning : s.running with
  | nil => simp [hrunning] at hs
  | cons c rest =>
    simp only [calls, hrunning] at h1 h4 h6 hs
    cases hleft : c.left with
    | nil =>
      simp only [hleft] at hs
      cases hs
      have hsame : (rest ++ c :: s.returned).Perm (c :: rest ++ s.returned) := List.perm_middle
      refine ⟨(List.Perm.append_left _ (hsame.flatMap_right _)).trans h1, h2, h3, ?_, ?_, ?_⟩
      all_goals grind [calls]
    | cons op left =>
      simp only [hleft] at hs
      cases hs
      refine ⟨h1, h2, h3, ?_, h5, ?_⟩
      all_goals grind [calls]

theorem WaitsOrSet.act (h : WaitsOrSet s) {a : Act} (hs : act a s = some s') : WaitsOrSet s' := by
  cases a with
  | next => exact h.resumeNext hs
  | set =>
    simp only [EventThread.act] at hs
    refine WaitsOrSet.resumeNext ?_ hs
    obtain ⟨h1, h2, h3, h4, h5, h6⟩ := h
    have hmem : ∀ op ∈ s.event.resumedBySet, op ∈ s.waited.map (·.1) := fun op hop =>
      h1.subset (List.mem_append_left _ hop)
    refine ⟨h1, h2, ?_, ?_, h5, ?_⟩
    all_goals grind [calls]
  | reset =>
    obtain ⟨h1, h2, h3, h4, h5, h6⟩ := h
    simp only [EventThread.act] at hs
    split at hs
    · rename_i hevent
      cases hs
      rw [hevent] at h1
      exact ⟨h1, h2, h3, h4, h5, h6⟩
    · cases hs
      exact ⟨h1, h2, h3, h4, h5, h6⟩
  | await =>
    obtain ⟨h1, h2, h3, h4, h5, h6⟩ := h
    simp only [EventThread.act] at hs
    split at hs
    · cases hs
      exact ⟨h1, h2, fun w hw => ⟨Nat.lt_succ_of_lt (h3 w hw).1, (h3 w hw).2⟩, h4, h5, h6⟩
    · rename_i event hsuspend
      cases hs
      obtain ⟨waiters, hevent, rfl⟩ : ∃ waiters, s.event = .notSet waiters ∧
          event = .notSet (s.ops :: waiters) := by
        cases hev : s.event with
        | isSet => simp [hev, AsyncManualResetEvent.awaitSuspend] at hsuspend
        | notSet waiters =>
          simp only [hev, AsyncManualResetEvent.awaitSuspend, Option.some.injEq] at hsuspend
          exact ⟨waiters, rfl, hsuspend.symm⟩
      rw [hevent] at h1
      have hnew : s.ops ∉ s.waited.map (·.1) := by grind
      have hno : ∀ c ∈ s.calls, s.ops ∉ c.waiting := fun c hc hop =>
        hnew (h1.subset (List.mem_append_right _ (List.mem_flatMap.mpr ⟨c, hc, hop⟩)))
      refine ⟨List.Perm.cons _ h1, List.nodup_cons.mpr ⟨hnew, h2⟩, ?_, h4, h5, ?_⟩
      all_goals grind [calls]

end EventThread

end Ichor
