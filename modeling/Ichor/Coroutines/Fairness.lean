import Ichor.Coroutines.Mutex

/-! The mutex is fair as long as at most one call waits for it and no guard that owns it is
overwritten: each mutex is at every moment the view of an owner and a line of waiting calls. -/
namespace Ichor.LockThread
open List Function Nat

/-- The guard owns the mutex. -/
def Owns (s : LockThread) (m : MutexId) (g : GuardId) : Prop := s.guards g = some ⟨m, true⟩

/-- No guard has been made with a number that is still to come, and a running `set` has
nobody left to resume. -/
structure Tidy (s : LockThread) : Prop where
  fresh : ∀ g, s.made ≤ g → s.guards g = none
  alone : ∀ r ∈ s.running, r.2 = []

/-- The owner of the mutex, if any, and the calls that wait for it, the first one first. -/
structure Line (s : LockThread) (m : MutexId) (owner : Option GuardId) (line : List LockCall) :
    Prop where
  owns : ∀ g, s.Owns m g ↔ owner = some g
  evts : (s.mutexes m).evts = line.map fun call => .notSet [call]
  waited : s.waited m = s.obtained m ++ line
  once : (s.waited m).Nodup
  bound : ∀ call : ℕ, call ∈ s.waited m → call < s.calls

/-- Between two steps the flag tells whether there is an owner, and only an owned mutex is
waited for. -/
structure View (s : LockThread) (m : MutexId) (owner : Option GuardId) (line : List LockCall) :
    Prop extends Line s m owner line where
  locked : (s.mutexes m).locked = owner.isSome
  served : owner = none → line = []

/-! ## What one step does -/

variable {line : List LockCall} {m m' : MutexId} {owner : Option GuardId} {s s' : LockThread}
  {g o : GuardId} {x : Option AsyncSingleThreadedLockGuard} {a : LockAction}

theorem View.frame (h : View s m owner line)
    (hm : s'.mutexes m = s.mutexes m) (ho : ∀ g, s'.Owns m g ↔ s.Owns m g)
    (hw : s'.waited m = s.waited m) (hob : s'.obtained m = s.obtained m)
    (hc : s.calls ≤ s'.calls) : View s' m owner line where
  owns := fun g => (ho g).trans (h.owns g)
  evts := by rw [hm]; exact h.evts
  waited := by rw [hw, hob]; exact h.waited
  once := by rw [hw]; exact h.once
  bound := by
    intro call hcall
    rw [hw] at hcall
    have hlt := h.bound call hcall
    omega
  locked := by rw [hm]; exact h.locked
  served := h.served

theorem owns_setGuard_ne {g' : GuardId} (m : MutexId)
    (x : Option AsyncSingleThreadedLockGuard) (hg : g' ≠ g) :
    (s.setGuard g x).Owns m g' ↔ s.Owns m g' := by
  simp [Owns, setGuard, Function.update_of_ne hg]

theorem owns_setGuard_self (m : MutexId) (x : Option AsyncSingleThreadedLockGuard) :
    (s.setGuard g x).Owns m g ↔ x = some ⟨m, true⟩ := by
  simp [Owns, setGuard]

section
variable (h : Tidy s)
include h

theorem Tidy.not_owns (m : MutexId) : ¬s.Owns m s.made := by
  intro howns
  simp [Owns, h.fresh s.made (Nat.le_refl _)] at howns

theorem owns_makeGuard (x : AsyncSingleThreadedLockGuard) (m : MutexId) (g : GuardId) :
    (s.makeGuard x).Owns m g ↔ s.Owns m g ∨ (g = s.made ∧ x = ⟨m, true⟩) := by
  show (s.setGuard s.made (some x)).Owns m g ↔ _
  by_cases hg : g = s.made
  · subst hg
    rw [owns_setGuard_self]
    simp [h.not_owns m]
  · rw [owns_setGuard_ne m _ hg]
    simp [hg]

theorem Tidy.makeGuard (x : AsyncSingleThreadedLockGuard) : Tidy (s.makeGuard x) where
  fresh := by
    intro g hg
    have hle : s.made + 1 ≤ g := hg
    have hne : g ≠ s.made := by omega
    have hnone := h.fresh g (by omega)
    simpa [LockThread.makeGuard, setGuard, Function.update_of_ne hne] using hnone
  alone := h.alone

theorem Tidy.setGuard {g : ℕ}
    (x : Option AsyncSingleThreadedLockGuard) (hg : g < s.made) : Tidy (s.setGuard g x) where
  fresh := by
    intro g' hg'
    have hle : s.made ≤ g' := hg'
    have hne : g' ≠ g := by omega
    have hnone := h.fresh g' hle
    simpa [LockThread.setGuard, Function.update_of_ne hne] using hnone
  alone := h.alone

theorem Tidy.lt_made {g : ℕ}
    {x : AsyncSingleThreadedLockGuard} (hg : s.guards g = some x) : g < s.made := by
  by_contra hlt
  rw [h.fresh g (by omega)] at hg
  cases hg

theorem Tidy.takeLock (m : MutexId) : Tidy (s.takeLock m) :=
  Tidy.makeGuard (s := s.setMutex m { s.mutexes m with locked := true }) ⟨h.fresh, h.alone⟩ _

/-! ### Taking the lock -/

theorem owns_takeLock (m m' : MutexId) (g : GuardId) :
    (s.takeLock m).Owns m' g ↔ s.Owns m' g ∨ (g = s.made ∧ m = m') := by
  have hmake := owns_makeGuard (s := s.setMutex m { s.mutexes m with locked := true })
    ⟨h.fresh, h.alone⟩ ⟨m, true⟩ m' g
  simp only [AsyncSingleThreadedLockGuard.mk.injEq, and_true] at hmake
  exact hmake

end

theorem Line.takeLock
    (h : Line s m none line) (ht : Tidy s) : View (s.takeLock m) m (some s.made) line where
  owns := by
    intro g
    rw [owns_takeLock ht, h.owns g]
    simp [eq_comm]
  evts := by
    have hevts : ((s.takeLock m).mutexes m).evts = (s.mutexes m).evts := by
      simp [LockThread.takeLock, makeGuard, setMutex, setGuard]
    rw [hevts]; exact h.evts
  __ := h
  locked := by simp [LockThread.takeLock, makeGuard, setMutex, setGuard]
  served := by simp

theorem View.takeLock_ne (h : View s m' owner line) (ht : Tidy s) (hne : m' ≠ m) :
    View (s.takeLock m) m' owner line := by
  apply h.frame
  · simp [LockThread.takeLock, makeGuard, setMutex, setGuard, Function.update_of_ne hne]
  · intro g
    rw [owns_takeLock ht]
    simp [hne.symm]
  · rfl
  · rfl
  · exact Nat.le_refl _

/-! ### Passing it on -/

theorem Tidy.resumeOne (h : Tidy s) (m : MutexId) (call : LockCall) :
    Tidy (s.resumeNext m [call]) where
  fresh := (h.takeLock m).fresh
  alone := by
    intro r hr
    rcases mem_cons.mp hr with rfl | hr
    · rfl
    · exact h.alone r hr

theorem Line.resumeOne {call : LockCall}
    (h : Line s m none (call :: line)) (ht : Tidy s) {rest : AsyncSingleThreadedMutex}
    (hrest : rest.evts = line.map fun call => .notSet [call]) :
    View ((s.setMutex m rest).resumeNext m [call]) m (some s.made) line := by
  let s₁ : LockThread := { s.setMutex m rest with
    obtained := update s.obtained m (s.obtained m ++ [call]) }
  have hline : Line s₁ m none line := {
    __ := h
    evts := by simp [s₁, setMutex, hrest]
    waited := by
      have hw := h.waited
      simp only [s₁, Function.update_self, append_assoc, singleton_append]
      exact hw
    bound := h.bound }
  have hview := hline.takeLock ⟨ht.fresh, ht.alone⟩
  exact hview.frame rfl (fun _ => Iff.rfl) rfl rfl (Nat.le_refl _)

theorem View.resumeOne_ne (h : View s m' owner line) (ht : Tidy s) (hne : m' ≠ m)
    (call : LockCall) : View (s.resumeNext m [call]) m' owner line := by
  apply (h.takeLock_ne ht hne).frame
  · rfl
  · exact fun _ => Iff.rfl
  · rfl
  · simp [resumeNext, resume, LockThread.takeLock, makeGuard, setMutex, setGuard,
      Function.update_of_ne hne]
  · exact Nat.le_refl _

theorem View.setMutex_ne (h : View s m' owner line) (hne : m' ≠ m)
    (x : AsyncSingleThreadedMutex) : View (s.setMutex m x) m' owner line :=
  h.frame (by simp [setMutex, Function.update_of_ne hne]) (fun _ => Iff.rfl) rfl rfl (Nat.le_refl _)

/-! ### Releasing it -/

theorem unlock_nil (h : Line s m none []) : s.unlock m = s.setMutex m ⟨false, []⟩ := by
  have hevts : (s.mutexes m).evts = [] := h.evts
  simp [LockThread.unlock, hevts]

theorem unlock_cons {call : LockCall} (h : Line s m none (call :: line)) :
    s.unlock m = (s.setMutex m { s.mutexes m with
      evts := line.map fun call => .notSet [call] }).resumeNext m [call] := by
  have hevts := h.evts
  rw [map_cons] at hevts
  simp [LockThread.unlock, hevts, AsyncManualResetEvent.resumedBySet]

theorem Line.unlock (h : Line s m none line) (ht : Tidy s) :
    ∃ owner, View (s.unlock m) m owner line.tail ∧
      (s.unlock m).obtained m = s.obtained m ++ line.head?.toList := by
  cases line with
  | nil =>
    rw [unlock_nil h]
    refine ⟨none, ⟨⟨h.owns, ?_, h.waited, h.once, h.bound⟩, ?_, fun _ => rfl⟩, ?_⟩
    · simp [setMutex]
    · simp [setMutex]
    · simp [setMutex]
  | cons call line =>
    rw [unlock_cons h]
    refine ⟨some s.made, h.resumeOne ht rfl, ?_⟩
    simp [resumeNext, resume, setMutex]

theorem Line.unlock_ne {line' : List LockCall} (h : Line s m none line) (h' : View s m' owner line')
    (ht : Tidy s) (hne : m' ≠ m) : View (s.unlock m) m' owner line' := by
  cases line with
  | nil =>
    rw [unlock_nil h]
    exact h'.setMutex_ne hne _
  | cons call line =>
    rw [unlock_cons h]
    exact (h'.setMutex_ne hne _).resumeOne_ne ⟨ht.fresh, ht.alone⟩ hne call

theorem Line.unlock_tidy (h : Line s m none line) (ht : Tidy s) : Tidy (s.unlock m) := by
  cases line with
  | nil =>
    rw [unlock_nil h]
    exact ⟨ht.fresh, ht.alone⟩
  | cons call line =>
    rw [unlock_cons h]
    exact Tidy.resumeOne (s := s.setMutex m _) ⟨ht.fresh, ht.alone⟩ m call

/-! ## Runs -/

/-- Every mutex is the view of an owner and a line. -/
structure Viewed (s : LockThread) : Prop where
  tidy : Tidy s
  view : ∀ m, ∃ owner line, View s m owner line

theorem View.vacate (h : View s m owner line) (hg : s.Owns m g) (hx : x ≠ some ⟨m, true⟩) :
    Line (s.setGuard g x) m none line where
  owns := by
    intro g'
    have howner := (h.owns g).mp hg
    by_cases hgg : g' = g
    · subst hgg
      rw [owns_setGuard_self]
      simp [hx]
    · rw [owns_setGuard_ne m x hgg, h.owns g', howner]
      simp [Ne.symm hgg]
  __ := h

theorem View.setGuard_ne (h : View s m' owner line) (hg : s.Owns m g)
    (hne : m' ≠ m) (hx : x ≠ some ⟨m', true⟩) : View (s.setGuard g x) m' owner line := by
  refine h.frame rfl (fun g' => ?_) rfl rfl (Nat.le_refl _)
  by_cases hgg : g' = g
  · subst hgg
    rw [owns_setGuard_self]
    have hnot : ¬s.Owns m' g' := by
      intro howns
      have hsame := hg.symm.trans howns
      simp only [Option.some.injEq, AsyncSingleThreadedLockGuard.mk.injEq, and_true] at hsame
      exact hne hsame.symm
    exact iff_of_false hx hnot
  · exact owns_setGuard_ne m' x hgg

/-- The guard gives the lock up: what `~AsyncSingleThreadedLockGuard` and
`AsyncSingleThreadedLockGuard::unlock` do. -/
theorem Viewed.release (h : Viewed s) (hg : s.Owns m g) (hx : ∀ m', x ≠ some ⟨m', true⟩) :
    Viewed ((s.setGuard g x).unlock m) ∧ ∀ line, s.waited m = s.obtained m ++ line →
        ((s.setGuard g x).unlock m).obtained m = s.obtained m ++ line.head?.toList := by
  obtain ⟨owner, line, hview⟩ := h.view m
  have hline := hview.vacate hg (hx m)
  have htidy := h.tidy.setGuard x (h.tidy.lt_made hg)
  obtain ⟨owner', hview', hob⟩ := hline.unlock htidy
  refine ⟨⟨hline.unlock_tidy htidy, fun m' => ?_⟩, fun line' hline' => ?_⟩
  · by_cases hne : m' = m
    · subst hne
      exact ⟨owner', line.tail, hview'⟩
    · obtain ⟨owner'', line'', hother⟩ := h.view m'
      exact ⟨owner'', line'', hline.unlock_ne (hother.setGuard_ne hg hne (hx m')) htidy hne⟩
  · have hsame : line' = line := append_cancel_left (hline'.symm.trans hview.waited)
    rw [hsame]
    exact hob

theorem Viewed.takeLock (h : Viewed s)
    (hm : (s.mutexes m).locked = false) : Viewed (s.takeLock m) := by
  refine ⟨h.tidy.takeLock m, fun m' => ?_⟩
  obtain ⟨owner, line, hview⟩ := h.view m'
  by_cases hne : m' = m
  · subst hne
    have hnone : owner = none := by
      have hlocked := hview.locked
      rw [hm] at hlocked
      simpa using hlocked.symm
    subst hnone
    exact ⟨_, _, hview.toLine.takeLock h.tidy⟩
  · exact ⟨owner, line, hview.takeLock_ne h.tidy hne⟩

theorem Viewed.called (h : Viewed s) : Viewed { s with calls := s.calls + 1 } :=
  ⟨⟨h.tidy.fresh, h.tidy.alone⟩, fun m => by
    obtain ⟨owner, line, hview⟩ := h.view m
    exact ⟨owner, line, hview.frame rfl (fun _ => Iff.rfl) rfl rfl (le_succ _)⟩⟩

theorem lock_of_locked (hlocked : (s.mutexes m).locked = true) (hevts : (s.mutexes m).evts = []) :
    s.lock m = { s.setMutex m ⟨true, [.notSet [s.calls]]⟩ with
      calls := s.calls + 1
      waited := update s.waited m (s.waited m ++ [s.calls]) } := by
  simp [LockThread.lock, hlocked, hevts, AsyncManualResetEvent.awaitSuspend, setMutex]

theorem View.lock (h : View s m owner []) (hlocked : (s.mutexes m).locked = true) :
    View (s.lock m) m owner [s.calls] := by
  have hwaited : s.waited m = s.obtained m := by simpa using h.waited
  rw [lock_of_locked hlocked h.evts]
  refine ⟨⟨h.owns, ?_, ?_, ?_, ?_⟩, ?_, ?_⟩
  · simp [setMutex]
  · simp [setMutex, hwaited]
  · simp only [Function.update_self]
    refine nodup_append.mpr ⟨h.once, nodup_singleton _, fun call hcall call' hcall' => ?_⟩
    have hlt := h.bound call hcall
    have hcalls : call' = s.calls := List.mem_singleton.mp hcall'
    intro heq
    rw [heq, hcalls] at hlt
    exact Nat.lt_irrefl _ hlt
  · intro call hcall
    simp only [Function.update_self, List.mem_append, List.mem_singleton] at hcall
    show call < s.calls + 1
    rcases hcall with hcall | hcall
    · have hlt := h.bound call hcall
      omega
    · omega
  · have howner : owner.isSome = true := h.locked ▸ hlocked
    simp [setMutex, howner]
  · intro hnone
    have hflag := h.locked
    rw [hlocked, hnone] at hflag
    cases hflag

theorem Viewed.lock (h : Viewed s)
    (hm : (s.mutexes m).locked = true → (s.mutexes m).evts = []) : Viewed (s.lock m) := by
  cases hlocked : (s.mutexes m).locked with
  | false =>
    have heq : s.lock m = { s with calls := s.calls + 1 }.takeLock m := by
      simp [LockThread.lock, hlocked]
    rw [heq]
    exact h.called.takeLock hlocked
  | true =>
    have hevts := hm hlocked
    refine ⟨?_, fun m' => ?_⟩
    · rw [lock_of_locked hlocked hevts]
      exact ⟨h.tidy.fresh, h.tidy.alone⟩
    · obtain ⟨owner, line, hview⟩ := h.view m'
      by_cases hne : m' = m
      · subst hne
        have hnil : line = [] := by simpa [hevts] using hview.evts
        subst hnil
        exact ⟨owner, _, hview.lock hlocked⟩
      · refine ⟨owner, line, hview.frame ?_ ?_ ?_ ?_ ?_⟩
        all_goals rw [lock_of_locked hlocked hevts]
        · simp [setMutex, Function.update_of_ne hne]
        · exact fun _ => Iff.rfl
        · simp [Function.update_of_ne hne]
        · rfl
        · exact le_succ _

theorem Viewed.hand (h : Viewed s) (htidy : Tidy s')
    (hm : s'.mutexes = s.mutexes) (hw : s'.waited = s.waited) (hob : s'.obtained = s.obtained)
    (hc : s'.calls = s.calls) (hg : ∀ m, ¬s.Owns m g)
    (howns : ∀ m g', s'.Owns m g' ↔ (g' ≠ o ∧ s.Owns m g') ∨ (g' = g ∧ g ≠ o ∧ s.Owns m o)) :
    Viewed s' := by
  refine ⟨htidy, fun m => ?_⟩
  obtain ⟨owner, line, hview⟩ := h.view m
  by_cases hmo : s.Owns m o
  · have howner := (hview.owns o).mp hmo
    have hgo : g ≠ o := fun heq => hg m (heq ▸ hmo)
    refine ⟨some g, line, ⟨⟨fun g' => ?_, ?_, ?_, ?_, ?_⟩, ?_, fun hnone => by cases hnone⟩⟩
    · rw [howns m g', hview.owns g', howner]
      constructor
      · rintro (⟨hne, heq⟩ | ⟨heq, -, -⟩)
        · exact absurd (Option.some.inj heq).symm hne
        · rw [heq]
      · intro heq
        exact .inr ⟨(Option.some.inj heq).symm, hgo, hmo⟩
    · rw [hm]; exact hview.evts
    · rw [hw, hob]; exact hview.waited
    · rw [hw]; exact hview.once
    · rw [hw, hc]; exact hview.bound
    · rw [hm, hview.locked, howner]; rfl
  · refine ⟨owner, line, hview.frame (by rw [hm]) (fun g' => ?_) (by rw [hw]) (by rw [hob])
      (Nat.le_of_eq hc.symm)⟩
    rw [howns m g']
    constructor
    · rintro (⟨-, h⟩ | ⟨-, -, h⟩)
      · exact h
      · exact absurd h hmo
    · intro h
      exact .inl ⟨fun heq => hmo (heq ▸ h), h⟩

theorem Viewed.moveConstruct (h : Viewed s) (hs : s.moveConstruct o = some s') : Viewed s' := by
  obtain ⟨x, ho, rfl⟩ := Option.map_eq_some_iff.mp hs
  have hlt := h.tidy.lt_made ho
  have hne : s.made ≠ o := Nat.ne_of_gt hlt
  have htidy := (h.tidy.makeGuard x).setGuard (some { x with hasLock := false })
    (Nat.lt_succ_of_lt hlt)
  refine h.hand (o := o) (g := s.made) htidy rfl rfl rfl rfl h.tidy.not_owns fun m g' => ?_
  by_cases hgo : g' = o
  · subst hgo
    rw [owns_setGuard_self]
    simp [Ne.symm hne]
  · have hx : x = ⟨m, true⟩ ↔ s.Owns m o := by simp [Owns, ho]
    rw [owns_setGuard_ne m _ hgo, owns_makeGuard h.tidy, hx]
    simp [hgo, hne]

theorem Viewed.moveAssign (h : Viewed s)
    (hg : ∀ m, ¬s.Owns m g) (hs : s.moveAssign g o = some s') : Viewed s' := by
  simp only [LockThread.moveAssign] at hs
  split at hs
  · next y x hgy hox =>
    cases hs
    have htidy := (h.tidy.setGuard (some x) (h.tidy.lt_made hgy)).setGuard
      (some { x with hasLock := false }) (h.tidy.lt_made hox)
    refine h.hand (o := o) (g := g) htidy rfl rfl rfl rfl hg fun m g' => ?_
    by_cases hgo : g' = o
    · subst hgo
      rw [owns_setGuard_self]
      simp only [ne_eq, not_true_eq_false, false_and, false_or, Option.some.injEq,
        AsyncSingleThreadedLockGuard.mk.injEq, Bool.false_eq_true, and_false, false_iff]
      rintro ⟨rfl, hne, -⟩
      exact hne rfl
    · rw [owns_setGuard_ne m _ hgo]
      by_cases hgg : g' = g
      · subst hgg
        have hx : some x = some (⟨m, true⟩ : AsyncSingleThreadedLockGuard) ↔ s.Owns m o := by
          simp [Owns, hox]
        rw [owns_setGuard_self, hx]
        simp [hgo, hg m]
      · rw [owns_setGuard_ne m _ hgg]
        simp [hgo, hgg]
  · cases hs

theorem Viewed.giveBack (h : Viewed s) (hs : s.giveBack = some s') : Viewed s' := by
  cases hrun : s.running with
  | nil => simp [LockThread.giveBack, hrun] at hs
  | cons r outer =>
    obtain ⟨m, calls⟩ := r
    have hnil : calls = [] := h.tidy.alone (m, calls) (by rw [hrun]; exact mem_cons_self)
    subst hnil
    have hs' : s' = { s with running := outer } := by
      simpa [LockThread.giveBack, hrun, resumeNext] using hs.symm
    subst hs'
    refine ⟨⟨h.tidy.fresh, fun r hr => h.tidy.alone r ?_⟩, fun m => ?_⟩
    · rw [hrun]; exact mem_cons_of_mem _ hr
    · obtain ⟨owner, line, hview⟩ := h.view m
      exact ⟨owner, line, hview.frame rfl (fun _ => Iff.rfl) rfl rfl (Nat.le_refl _)⟩

/-- `lock` is called on a locked mutex only while nobody waits for it, a guard is assigned to
only while it owns nothing, and `unlock` of a locked mutex is left to its guards. -/
def Careful (s : LockThread) : LockAction → Prop
  | .lock m => (s.mutexes m).locked = true → (s.mutexes m).evts = []
  | .moveAssign g _ => ∀ m, ¬s.Owns m g
  | .unlock m => (s.mutexes m).locked = false
  | _ => True

/-- The step by which a guard gives up a mutex that it owns. -/
def Releases (s : LockThread) (m : MutexId) : LockAction → Prop
  | .guardUnlock g | .guardDestroy g => s.Owns m g
  | _ => False

theorem guardUnlock_of_owns (h : s.Owns m g) :
    s.guardUnlock g = some ((s.setGuard g (some ⟨m, false⟩)).unlock m) := by
  have hg : s.guards g = some ⟨m, true⟩ := h
  simp [guardUnlock, hg]

theorem guardDestroy_of_owns (h : s.Owns m g) :
    s.guardDestroy g = some ((s.setGuard g none).unlock m) := by
  have hg : s.guards g = some ⟨m, true⟩ := h
  simp [guardDestroy, hg]

theorem Viewed.handover (h : Viewed s) (ha : s.Releases m a) (hs : act a s = some s') :
    Viewed s' ∧ ∀ line, s.waited m = s.obtained m ++ line →
      s'.obtained m = s.obtained m ++ line.head?.toList := by
  cases a with
  | guardUnlock g =>
    have hs' := (guardUnlock_of_owns ha).symm.trans hs
    cases hs'
    exact h.release ha (by simp)
  | guardDestroy g =>
    have hs' := (guardDestroy_of_owns ha).symm.trans hs
    cases hs'
    exact h.release ha (by simp)
  | _ => exact absurd ha id

theorem Viewed.setGuard (h : Viewed s)
    {x : AsyncSingleThreadedLockGuard} (hg : s.guards g = some x) (hx : x.hasLock = false) :
    Viewed (s.setGuard g none) := by
  refine ⟨h.tidy.setGuard none (h.tidy.lt_made hg), fun m => ?_⟩
  obtain ⟨owner, line, hview⟩ := h.view m
  refine ⟨owner, line, hview.frame rfl (fun g' => ?_) rfl rfl (Nat.le_refl _)⟩
  by_cases hgg : g' = g
  · subst hgg
    rw [owns_setGuard_self]
    have hnot : ¬s.Owns m g' := by
      intro howns
      have hsame : x = ⟨m, true⟩ := Option.some.inj (hg.symm.trans howns)
      rw [hsame] at hx
      cases hx
    simp [hnot]
  · exact owns_setGuard_ne m none hgg

theorem Viewed.guardStep (h : Viewed s)
    (ha : a = .guardUnlock g ∨ a = .guardDestroy g) (hs : act a s = some s') : Viewed s' := by
  cases hg : s.guards g with
  | none =>
    rcases ha with rfl | rfl
    · simp [act, guardUnlock, hg] at hs
    · simp [act, guardDestroy, hg] at hs
  | some x =>
    cases hx : x.hasLock with
    | true =>
      have howns : s.Owns x.m g := by rw [Owns, hg, ← hx]
      have hrel : s.Releases x.m a := by
        rcases ha with rfl | rfl
        · exact howns
        · exact howns
      exact (h.handover hrel hs).1
    | false =>
      rcases ha with rfl | rfl
      · have hs' : s = s' := by simpa [act, guardUnlock, hg, hx] using hs
        exact hs' ▸ h
      · have hs' : s.setGuard g none = s' := by simpa [act, guardDestroy, hg, hx] using hs
        exact hs' ▸ h.setGuard hg hx

theorem Viewed.unlock (h : Viewed s) (hm : (s.mutexes m).locked = false) : s.unlock m = s := by
  obtain ⟨owner, line, hview⟩ := h.view m
  have howner : owner = none := by
    have hlocked := hview.locked
    rw [hm] at hlocked
    simpa using hlocked.symm
  subst howner
  have hline := hview.served rfl
  subst hline
  have hevts : (s.mutexes m).evts = [] := hview.evts
  have hsame : (⟨false, []⟩ : AsyncSingleThreadedMutex) = s.mutexes m := by rw [← hm, ← hevts]
  rw [unlock_nil hview.toLine, hsame, setMutex, update_eq_self]

theorem Viewed.step (h : Viewed s) (ha : s.Careful a) (hs : act a s = some s') : Viewed s' := by
  cases a with
  | lock m =>
    cases hs
    exact h.lock ha
  | nonBlockingLock m =>
    cases hs
    cases hlocked : (s.mutexes m).locked with
    | true => simpa [nonBlockingLock, hlocked] using h
    | false => simpa [nonBlockingLock, hlocked] using h.takeLock hlocked
  | unlock m =>
    cases hs
    rw [h.unlock ha]
    exact h
  | guardUnlock g => exact h.guardStep (.inl rfl) hs
  | guardDestroy g => exact h.guardStep (.inr rfl) hs
  | moveConstruct o => exact h.moveConstruct hs
  | moveAssign g o => exact h.moveAssign ha hs
  | giveBack => exact h.giveBack hs

theorem viewed_initial : Viewed initial where
  tidy := ⟨fun _ _ => rfl, fun _ hr => by cases hr⟩
  view := fun _ => ⟨none, [], ⟨⟨fun _ => by simp [Owns, initial], rfl, rfl, nodup_nil,
    fun _ h => by cases h⟩, rfl, fun _ => rfl⟩⟩

/-! ## Fairness -/

/-- At most one guard owns the mutex, and it is locked exactly while one does; the calls that
waited obtain it in their order and once each, and all have obtained it when nobody owns it. -/
structure Fair (s : LockThread) (m : MutexId) : Prop where
  exclusive : ∀ g g', s.Owns m g → s.Owns m g' → g = g'
  locked : (s.mutexes m).locked = true ↔ ∃ g, s.Owns m g
  inOrder : s.obtained m <+: s.waited m
  once : (s.waited m).Nodup
  served : (∀ g, ¬s.Owns m g) → s.obtained m = s.waited m

theorem View.fair (h : View s m owner line) : Fair s m where
  exclusive := by
    intro g g' hg hg'
    have howner := (h.owns g).mp hg
    have howner' := (h.owns g').mp hg'
    exact Option.some.inj (howner.symm.trans howner')
  locked := by
    rw [h.locked, Option.isSome_iff_exists]
    exact exists_congr fun g => (h.owns g).symm
  inOrder := ⟨line, h.waited.symm⟩
  once := h.once
  served := by
    intro hfree
    have hnone : owner = none := by
      cases owner with
      | none => rfl
      | some g => exact absurd ((h.owns g).mpr rfl) (hfree g)
    have hw := h.waited
    rw [h.served hnone, append_nil] at hw
    exact hw.symm

/-- In every run in which at most one call waits for each mutex and no guard that owns one is
overwritten, every mutex is fair, and every release hands it to the first call that waits. -/
theorem mutex_fair {s : LockThread} (h : RunWhere Careful initial s) (m : MutexId) :
    Fair s m ∧ ∀ a s' first rest, s.Releases m a → act a s = some s' →
      s.waited m = s.obtained m ++ first :: rest →
      s'.obtained m = s.obtained m ++ [first] := by
  have hsound : Viewed s :=
    GuardedRuns.Run.invariant h Viewed viewed_initial fun _ _ _ hx ha hn => hx.step ha hn
  obtain ⟨owner, line, hview⟩ := hsound.view m
  refine ⟨hview.fair, fun a s' first rest ha hs hwaited => ?_⟩
  have hob := (hsound.handover ha hs).2 (first :: rest) hwaited
  simpa using hob

/-- A coroutine locks, a second one waits and obtains the lock from the first. -/
theorem mutex_fair_second : ∃ s s', RunWhere Careful initial s ∧ act (.guardDestroy 0) s = some s' ∧
      s'.obtained 0 = [1] ∧ Fair s 0 := by
  have hrun : RunWhere Careful initial ((initial.lock 0).lock 0) :=
    .tail (.tail .refl ⟨.lock 0, (fun h => by cases h), rfl⟩) ⟨.lock 0, fun _ => rfl, rfl⟩
  obtain ⟨hfair, hrelease⟩ := mutex_fair hrun 0
  exact ⟨_, _, hrun, rfl, hrelease (.guardDestroy 0) _ 1 [] rfl rfl rfl, hfair⟩

/-- Two coroutines wait for one mutex: both wait for the first event of its queue, the one that
called last is resumed first, and the other one then obtains the lock as well. -/
theorem mutex_two_owners : ¬∀ s, RunWhere (fun _ _ => True) initial s → ∀ m, Fair s m := by
  intro hfair
  have hrun : RunWhere (fun _ _ => True) initial _ :=
    GuardedRuns.run_exec [.lock 0, .lock 0, .lock 0, .guardDestroy 0, .giveBack] rfl
  have h12 := (hfair _ hrun 0).exclusive 1 2 rfl rfl
  cases h12

end Ichor.LockThread
