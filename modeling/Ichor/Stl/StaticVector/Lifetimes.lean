import Mathlib.Data.List.Nodup
import Ichor.Lib.Runs
import Ichor.Stl.StaticVector.Assignment

/-! The elements over whole runs: each one that was constructed lives in one slot or has been
destroyed once. -/
namespace Ichor.StaticVector
open List Function Option

variable {α : Type} {N : ℕ} {T : Element α} {w w' w'' : World α} {v u : ℕ} {l m : List α}
  {c : ℕ → Option (List α)}

open World

/-- The element in a slot. -/
def World.elem (w : World α) (v i : ℕ) : Option ℕ := (w.slot v i).elem

/-- Of the elements constructed so far, each is alive in one slot or was destroyed once. -/
structure AliveOrDestroyed (w : World α) : Prop where
  known : ∀ e, e ∈ w.destroyed ∨ (∃ v i, w.elem v i = some e) ↔ e < w.next
  once : w.destroyed.Nodup
  apart : ∀ v i e, w.elem v i = some e → e ∉ w.destroyed
  one : ∀ v i u j e, w.elem v i = some e → w.elem u j = some e → v = u ∧ i = j

/-- A step that is found sound started from a sound world and keeps the account. -/
structure Accounts (w w' : World α) : Prop where
  before : w'.sound = true → w.sound = true
  keeps : w'.sound = true → AliveOrDestroyed w → AliveOrDestroyed w'

theorem Accounts.refl (w : World α) : Accounts w w := ⟨id, fun _ => id⟩

theorem Accounts.trans (h : Accounts w w') (h' : Accounts w' w'') : Accounts w w'' :=
  ⟨fun hs => h.before (h'.before hs), fun hs ha => h'.keeps hs (h.keeps (h'.before hs) ha)⟩

/-- Steps that neither construct nor destroy. -/
theorem Accounts.of_same (helem : ∀ v i, w'.elem v i = w.elem v i) (hnext : w'.next = w.next)
    (hdestroyed : w'.destroyed = w.destroyed) (hsound : w'.sound = true → w.sound = true) :
    Accounts w w' where
  before := hsound
  keeps _ h := by
    have heq : w'.elem = w.elem := funext fun v => funext fun i => helem v i
    refine ⟨?_, ?_, ?_, ?_⟩
    · rw [heq, hnext, hdestroyed]
      exact h.known
    · rw [hdestroyed]
      exact h.once
    · rw [heq, hdestroyed]
      exact h.apart
    · rw [heq]
      exact h.one

theorem sound_of_and {b : Bool} (h : (w.sound && b) = true) : w.sound = true :=
  (Bool.and_eq_true_iff.mp h).1

theorem accounts_check (b : Bool) : Accounts w (w.check b) :=
  .of_same (fun _ _ => rfl) rfl rfl sound_of_and

theorem accounts_setValue (v i : ℕ) (x : α) : Accounts w (w.setValue v i x) :=
  .of_same (fun _ _ => elem_setValue) rfl rfl id

theorem accounts_setSize (v : ℕ) (n : Option ℕ) : Accounts w (w.setSize v n) :=
  .of_same (fun _ _ => rfl) rfl rfl id

def Keeps (f : World α → Option (World α)) : Prop := ∀ w w', f w = some w' → Accounts w w'

namespace Keeps

variable {f g : World α → Option (World α)}

theorem none : Keeps fun _ : World α => Option.none := nofun

theorem some : Keeps (@Option.some (World α)) := by
  rintro w _ ⟨⟩
  exact .refl w

theorem ite {p : Prop} [Decidable p] (hf : Keeps f) (hg : Keeps g) :
    Keeps fun w => if p then f w else g w := by
  by_cases hp : p
  · simpa only [if_pos hp] using hf
  · simpa only [if_neg hp] using hg

theorem bind (hf : Keeps f) (hg : Keeps g) : Keeps fun w => (f w).bind g := by
  intro w w' h
  obtain ⟨w₁, h₁, h₂⟩ := bind_eq_some_iff.mp h
  exact (hf w w₁ h₁).trans (hg w₁ w' h₂)

theorem setSize (hf : Keeps f) (v : ℕ) (n : Option ℕ) : Keeps fun w => (f w).map (·.setSize v n) := by
  intro w w' h
  obtain ⟨w₁, h₁, rfl⟩ := map_eq_some_iff.mp h
  exact (hf w w₁ h₁).trans (accounts_setSize v n)

theorem sized {f : ℕ → World α → Option (World α)} (v : ℕ) (hf : ∀ n, Keeps (f n)) :
    Keeps (StaticVector.sized v f) := by
  intro w w' h
  obtain ⟨n, -, hn⟩ := bind_eq_some_iff.mp h
  exact hf n w w' hn

theorem foldlM {β : Type} {f : World α → β → Option (World α)} (l : List β)
    (hf : ∀ b, Keeps fun w => f w b) : Keeps fun w => l.foldlM f w :=
  fun _ _ h => Loops.rel_foldlM Accounts .refl .trans f l (fun w b _ w' => hf b w w') h

end Keeps

/-! ## Slots -/

theorem elem_set (v i u j : ℕ) (s : Slot α) :
    (w.set v i s).elem u j = if u = v ∧ j = i then s.elem else w.elem u j := by
  rw [World.elem, slot_set]
  split <;> rfl

theorem keeps_constructAt (v i : ℕ) (x : α) : Keeps (constructAt N v i x) := by
  refine Keeps.ite (fun w w' h => ?_) .none
  cases h
  refine ⟨sound_of_and, fun hsound hw => ?_⟩
  have hdead : w.elem v i = none := by
    have hlive := (Bool.and_eq_true_iff.mp hsound).2
    simpa [World.live, World.elem] using hlive
  have helem : ∀ u j, World.elem { (w.check !w.live v i).set v i ⟨x, some w.next⟩ with
      next := w.next + 1 } u j = if u = v ∧ j = i then some w.next else w.elem u j :=
    fun u j => elem_set v i u j _
  have hold : ∀ u j e, w.elem u j = some e → ¬(u = v ∧ j = i) := by
    rintro u j e he ⟨rfl, rfl⟩
    rw [hdead] at he
    cases he
  have hnew : w.next ∉ w.destroyed := fun h => Nat.lt_irrefl _ ((hw.known _).mp (.inl h))
  have hnone : ∀ u j, w.elem u j ≠ some w.next :=
    fun u j h => Nat.lt_irrefl _ ((hw.known _).mp (.inr ⟨u, j, h⟩))
  refine ⟨fun e => ?_, hw.once, fun u j e he => ?_, fun u j u' j' e he he' => ?_⟩
  · constructor
    · rintro (h | ⟨u, j, h⟩)
      · exact Nat.lt_succ_of_lt ((hw.known e).mp (.inl h))
      · rw [helem] at h
        split at h
        · cases h
          exact Nat.lt_succ_self _
        · exact Nat.lt_succ_of_lt ((hw.known e).mp (.inr ⟨u, j, h⟩))
    · intro he
      rcases Nat.lt_succ_iff_lt_or_eq.mp he with he | rfl
      · refine ((hw.known e).mpr he).imp_right ?_
        rintro ⟨u, j, h⟩
        exact ⟨u, j, by rw [helem, if_neg (hold u j e h), h]⟩
      · exact .inr ⟨v, i, by rw [helem, if_pos ⟨rfl, rfl⟩]⟩
  · rw [helem] at he
    split at he
    · cases he
      exact hnew
    · exact hw.apart u j e he
  · rw [helem] at he he'
    split at he
    · next hat =>
      cases he
      split at he'
      · next hat' => exact ⟨hat.1.trans hat'.1.symm, hat.2.trans hat'.2.symm⟩
      · exact absurd he' (hnone u' j')
    · split at he'
      · cases he'
        exact absurd he (hnone u j)
      · exact hw.one u j u' j' e he he'

theorem keeps_destroyAt (v i : ℕ) : Keeps (destroyAt N T v i) := by
  refine Keeps.ite (fun w w' h => ?_) .none
  cases h
  split
  · exact .refl w
  refine ⟨sound_of_and, fun hsound hw => ?_⟩
  obtain ⟨e₀, he₀⟩ : ∃ e, w.elem v i = some e :=
    isSome_iff_exists.mp (Bool.and_eq_true_iff.mp hsound).2
  have hlist : (w.slot v i).elem.toList = [e₀] := by
    rw [← World.elem, he₀]
    rfl
  rw [hlist]
  have helem : ∀ u j e, World.elem { (w.check (w.live v i)).set v i ⟨w.value v i, none⟩ with
      destroyed := w.destroyed ++ [e₀] } u j = some e ↔ ¬(u = v ∧ j = i) ∧ w.elem u j = some e := by
    intro u j e
    refine (iff_of_eq (congrArg (· = some e) (elem_set v i u j _))).trans ?_
    by_cases hat : u = v ∧ j = i
    · simp [hat]
    · rw [if_neg hat]
      exact ⟨fun h => ⟨hat, h⟩, fun h => h.2⟩
  refine ⟨fun e => ?_, ?_, fun u j e he => ?_, fun u j u' j' e he he' => ?_⟩
  · refine Iff.trans ?_ (hw.known e)
    constructor
    · rintro (h | ⟨u, j, h⟩)
      · rcases mem_append.mp h with h | h
        · exact .inl h
        · exact .inr ⟨v, i, mem_singleton.mp h ▸ he₀⟩
      · exact .inr ⟨u, j, ((helem u j e).mp h).2⟩
    · rintro (h | ⟨u, j, h⟩)
      · exact .inl (mem_append_left _ h)
      · by_cases hat : u = v ∧ j = i
        · obtain ⟨rfl, rfl⟩ := hat
          rw [he₀] at h
          cases h
          exact .inl (mem_append_right _ (mem_singleton_self _))
        · exact .inr ⟨u, j, (helem u j e).mpr ⟨hat, h⟩⟩
  · refine nodup_append.mpr ⟨hw.once, by simp, fun a ha b hb => ?_⟩
    rintro rfl
    exact hw.apart v i a (mem_singleton.mp hb ▸ he₀) ha
  · obtain ⟨hat, hu⟩ := (helem u j e).mp he
    intro hmem
    rcases mem_append.mp hmem with hmem | hmem
    · exact hw.apart u j e hu hmem
    · exact hat (hw.one u j v i e hu (mem_singleton.mp hmem ▸ he₀))
  · exact hw.one u j u' j' e ((helem u j e).mp he).2 ((helem u' j' e).mp he').2

theorem keeps_assignAt (v i : ℕ) (x : α) : Keeps (assignAt N v i x) := by
  refine Keeps.ite (fun w w' h => ?_) .none
  cases h
  exact (accounts_check _).trans (accounts_setValue v i x)

theorem keeps_moveAt (v i j : ℕ) : Keeps (moveAt N T v i j) := by
  refine Keeps.ite (fun w w' h => ?_) .none
  cases h
  split
  · exact (accounts_check _).trans (accounts_setValue _ _ _)
  · exact (accounts_check _).trans ((accounts_setValue _ _ _).trans (accounts_setValue _ _ _))

theorem keeps_swapAt (v u i : ℕ) : Keeps (@swapAt α N v u i) := by
  refine Keeps.ite (fun w w' h => ?_) .none
  cases h
  exact (accounts_check _).trans ((accounts_setValue _ _ _).trans (accounts_setValue _ _ _))

/-! ## Loops and operations -/

theorem keeps_destroyRange (v first last : ℕ) : Keeps (destroyRange N T v first last) :=
  .foldlM _ fun _ => keeps_destroyAt _ _

theorem keeps_moveForward (v first last dest : ℕ) : Keeps (moveForward N T v first last dest) :=
  .foldlM _ fun _ => keeps_moveAt _ _ _

theorem keeps_moveBackward (v first last dlast : ℕ) : Keeps (moveBackward N T v first last dlast) :=
  .foldlM _ fun _ => .ite (keeps_moveAt _ _ _) .none

theorem keeps_constructAll (v pos : ℕ) (xs : List α) : Keeps (constructAll N v pos xs) := by
  refine .foldlM _ fun k w w' h => ?_
  obtain ⟨x, -, hx⟩ := bind_eq_some_iff.mp h
  exact keeps_constructAt v (pos + k) x w w' hx

theorem keeps_pushBack (v : ℕ) (x : α) : Keeps (pushBack N v x) :=
  .sized v fun n => .ite ((keeps_constructAt v n x).setSize v _) .none

theorem keeps_pushAll (v : ℕ) (xs : List α) : Keeps (pushAll N v xs) :=
  .foldlM _ fun _ => keeps_pushBack _ _

theorem keeps_popBack (v : ℕ) : Keeps (popBack N T v) :=
  .sized v fun _ => .ite ((keeps_destroyAt _ _).setSize v _) .none

theorem keeps_clear (v : ℕ) : Keeps (clear N T v) :=
  .sized v fun _ => (keeps_destroyRange _ _ _).setSize v _

theorem keeps_insertAll (v pos n newSize : ℕ) (xs : List α) :
    Keeps (insertAll N T v pos n newSize xs) := by
  intro w w' h
  obtain ⟨w₁, h₁, h₂⟩ := bind_eq_some_iff.mp h
  exact (accounts_setSize v _).trans
    ((keeps_moveBackward _ _ _ _ _ _ h₁).trans (keeps_constructAll _ _ _ _ _ h₂))

theorem keeps_eraseRange (v first last : ℕ) : Keeps (eraseRange N T v first last) :=
  .sized v fun _ => .ite
    (((keeps_moveForward _ _ _ _).bind (keeps_destroyRange _ _ _)).setSize v _) .some

theorem keeps_call (e : Edit α) : Keeps (e.call N T) := by
  cases e with
  | pushBack v x => exact keeps_pushBack v x
  | popBack v => exact keeps_popBack v
  | insert v pos x | insertN v pos count x | insertRange v pos xs =>
    exact .sized v fun _ => .ite (keeps_insertAll _ _ _ _ _) .none
  | erase v pos =>
    exact .sized v fun _ => .bind (.ite (keeps_moveForward _ _ _ _) .some) (keeps_popBack v)
  | eraseRange v first last => exact keeps_eraseRange v first last
  | resize v sz =>
    exact .sized v fun _ =>
      .ite (.ite (keeps_pushAll _ _) (.ite (keeps_eraseRange _ _ _) .some)) .none
  | resizeWith v sz x =>
    exact .sized v fun _ =>
      .ite ((Keeps.ite (keeps_pushAll _ _) (keeps_destroyRange _ _ _)).setSize v _) .none
  | clear v => exact keeps_clear v
  | swap v u =>
    refine .sized v fun n => .sized u fun m w w' h => ?_
    obtain ⟨w₁, h₁, rfl⟩ := map_eq_some_iff.mp h
    exact (Keeps.foldlM _ (fun _ => keeps_swapAt _ _ _) w w₁ h₁).trans
      ((accounts_setSize _ _).trans (accounts_setSize _ _))

/-! ## Whole runs -/

/-- Every operation on the vectors; the constructors that push one element after the other are
`create`. -/
inductive Action (α : Type) where
  | create (v : ℕ) (xs : List α)
  | copyCreate (v u : ℕ)
  | moveCreate (v u : ℕ)
  | destruct (v : ℕ)
  | copyAssign (v u : ℕ)
  | moveAssign (v u : ℕ)
  | assignRange (v : ℕ) (xs : List α)
  | assignN (v count : ℕ) (x : α)
  | edit (e : Edit α)

variable (N T) in
def Action.call : Action α → World α → Option (World α)
  | create v xs => StaticVector.create N v xs
  | copyCreate v u => StaticVector.copyCreate N v u
  | moveCreate v u => StaticVector.moveCreate N T v u
  | destruct v => StaticVector.destruct N T v
  | copyAssign v u => StaticVector.copyAssign N T v u
  | moveAssign v u => StaticVector.moveAssign N T v u
  | assignRange v xs => StaticVector.assignRange N v xs
  | assignN v count x => StaticVector.assignN N v count x
  | edit e => e.call N T

variable (N T) in
/-- The ranges fit, `assign` writes over elements only, and the edits are safe. -/
def Action.Safe (c : ℕ → Option (List α)) : Action α → Prop
  | create _ xs => xs.length ≤ N
  | assignRange v xs => ∀ l ∈ c v, xs.length ≤ l.length
  | assignN v count _ => ∀ l ∈ c v, count ≤ l.length
  | edit e => e.Proper T c ∧ e.Safe c
  | _ => True

theorem keeps_takeAll (leave : α → α) (v u : ℕ) : Keeps (takeAll N leave v u) := by
  refine .sized u fun n => .foldlM _ fun i w w' h => ?_
  obtain ⟨w₁, h₁, rfl⟩ := map_eq_some_iff.mp h
  exact (keeps_pushBack _ _ _ _ h₁).trans (accounts_setValue _ _ _)

theorem Keeps.created {f : World α → Option (World α)} (hf : Keeps f) (v : ℕ) :
    Keeps fun w => if w.size v = Option.none then f (w.setSize v (Option.some 0)) else Option.none := by
  intro w w' h
  dsimp only at h
  split at h
  · exact (accounts_setSize v _).trans (hf _ _ h)
  · cases h

theorem keeps_action (a : Action α) : Keeps (a.call N T) := by
  cases a with
  | create v xs => exact (keeps_pushAll v xs).created v
  | copyCreate v u => exact (keeps_takeAll id v u).created v
  | moveCreate v u => exact ((keeps_takeAll T.movedFrom v u).bind (keeps_clear u)).created v
  | destruct v => exact (keeps_clear v).setSize v _
  | copyAssign v u => exact (keeps_clear v).bind (keeps_takeAll id v u)
  | moveAssign v u =>
    exact ((keeps_clear v).bind (keeps_takeAll T.movedFrom v u)).bind (keeps_clear u)
  | assignRange v xs =>
    refine .sized v fun _ => .foldlM _ fun i => .sized v fun n w w' h => ?_
    dsimp only at h
    split at h
    · split at h
      · obtain ⟨x, -, hx⟩ := bind_eq_some_iff.mp h
        exact (accounts_setSize v _).trans (keeps_assignAt v i x _ w' hx)
      · cases h
    · cases h
  | assignN v count x =>
    refine .sized v fun n => .ite (fun w w' h => ?_) .none
    exact (accounts_setSize v _).trans
      (Keeps.foldlM _ (fun i => .ite (keeps_assignAt v i x) .none) _ w' h)
  | edit e => exact keeps_call e

section
variable (h : Agrees N w c)
include h

theorem Agrees.contents_eq : w.contents = c := by
  funext v
  cases hv : c v with
  | none => rw [contents, h.absent v hv, map_none]
  | some l =>
    have hl := h.holds v l hv
    rw [contents, hl.size, map_some, hl.map_value]

theorem created_sim (hv : w.size v = none) :
    Sim N T (update c v (some [])) True w (w.setSize v (some 0)) :=
  ((Local.refl w).setSize (n := 0) (l := []) (Nat.zero_le N) nofun fun _ _ hlive => ⟨hlive, rfl⟩).sim h
    (by rw [hv]; rfl)

theorem Agrees.exists_of_size {n : ℕ} (hv : w.size v = some n) : ∃ l, c v = some l := by
  cases hc : c v with
  | none => rw [h.absent v hc] at hv; cases hv
  | some l => exact ⟨l, rfl⟩

/-- An operation on a vector only succeeds where the vector exists. -/
theorem Agrees.of_sized {f : ℕ → World α → Option (World α)}
    (hs : sized v f w = some w') : ∃ l, c v = some l := by
  obtain ⟨n, hn, -⟩ := bind_eq_some_iff.mp hs
  exact h.exists_of_size hn

theorem destruct_sim (hs : destruct N T v w = some w') : Sim N T (update c v none) True w w' := by
  obtain ⟨w₁, hw₁, rfl⟩ := map_eq_some_iff.mp hs
  obtain ⟨l, hv⟩ := h.of_sized hw₁
  obtain ⟨w₂, hw₂, hclear⟩ := h.becomes hv (clear_spec (T := T) (h.holds v l hv))
  obtain rfl : w₁ = w₂ := Option.some.inj (hw₁.symm.trans hw₂)
  have hother : ∀ u, u ≠ v → (w₁.setSize v none).size u = w₁.size u :=
    fun u hu => by simp [World.setSize, hu]
  refine ⟨hclear.agrees.change fun u => ?_, fun _ ht hw => ?_⟩
  · by_cases huv : u = v
    · exact .inr (.inl (by simp [World.setSize, huv]))
    · exact .inl ⟨by simp [huv], hother u huv, rfl⟩
  · obtain ⟨hshaped, hsound⟩ := hclear.lifetimes trivial ht hw
    refine ⟨fun u i => (hshaped u i).trans (decide_eq_decide.mpr ?_), hsound⟩
    by_cases huv : u = v
    · rw [huv, (hclear.agrees.holds v [] (update_self ..)).size]
      simp [World.setSize]
    · rw [hother u huv]

end

/-- The step that a specification gives is the one that was taken. -/
theorem sim_of_spec {o : Option (World α)} {safe : Prop}
    (h : ∃ w'', o = some w'' ∧ Sim N T c safe w w'') (hsafe : safe) (hs : o = some w') :
    ∃ c', Sim N T c' True w w' := by
  obtain ⟨w'', hw'', hsim⟩ := h
  obtain rfl : w' = w'' := Option.some.inj (hs.symm.trans hw'')
  exact ⟨c, hsim.agrees, fun _ => hsim.lifetimes hsafe⟩

/-- A vector that is created holds nothing at first. -/
theorem sim_of_created {f : World α → Option (World α)} (h : Agrees N w c)
    (hs : (if w.size v = none then f (w.setSize v (some 0)) else none) = some w')
    (hf : Agrees N (w.setSize v (some 0)) (update c v (some [])) →
      f (w.setSize v (some 0)) = some w' → ∃ c', Sim N T c' True (w.setSize v (some 0)) w') :
    ∃ c', Sim N T c' True w w' := by
  split at hs
  · next hv =>
    have hnew := created_sim (T := T) h hv
    obtain ⟨c', hsim⟩ := hf hnew.agrees hs
    exact ⟨c', hnew.trans hsim id id⟩
  · cases hs

theorem Agrees.of_cleared {w₁ : World α} {f : ℕ → World α → Option (World α)} (h : Agrees N w c)
    (hw₁ : clear N T v w = some w₁) (hs : sized u f w₁ = some w') :
    ∃ l m, c v = some l ∧ c u = some m := by
  obtain ⟨l, hv⟩ := h.of_sized hw₁
  obtain ⟨w₂, hw₂, hclear⟩ := h.becomes hv (clear_spec (T := T) (h.holds v l hv))
  obtain rfl : w₁ = w₂ := Option.some.inj (hw₁.symm.trans hw₂)
  obtain ⟨m, hu⟩ := hclear.agrees.of_sized hs
  by_cases huv : u = v
  · exact ⟨l, l, hv, huv ▸ hv⟩
  · exact ⟨l, m, hv, by rwa [update_of_ne huv] at hu⟩

theorem action_sim (hN : N < 2 ^ 63) (h : Agrees N w c) (a : Action α) (hsafe : a.Safe N T c)
    (hs : a.call N T w = some w') : ∃ c', Sim N T c' True w w' := by
  cases a with
  | create v xs =>
    refine sim_of_created h hs fun hnew => sim_of_spec (hnew.becomes (update_self ..)
      (pushAll_spec hN (hnew.holds v [] (update_self ..)) xs ?_)) trivial
    rw [length_nil, Nat.zero_add]
    exact hsafe
  | copyCreate v u =>
    refine sim_of_created h hs fun hnew hs' => ?_
    obtain ⟨m, hu⟩ := hnew.of_sized hs'
    exact sim_of_spec (copyAll_sim hN hnew (update_self ..) hu) trivial hs'
  | moveCreate v u =>
    refine sim_of_created (f := fun w => (takeAll N T.movedFrom v u w).bind (clear N T u)) h hs
      fun hnew hs' => ?_
    obtain ⟨w₁, hw₁, -⟩ := bind_eq_some_iff.mp hs'
    obtain ⟨m, hu⟩ := hnew.of_sized hw₁
    exact sim_of_spec (moveAll_sim hN hnew (update_self ..) hu) trivial hs'
  | destruct v => exact ⟨_, destruct_sim h hs⟩
  | copyAssign v u =>
    obtain ⟨w₁, hw₁, hs'⟩ := bind_eq_some_iff.mp hs
    obtain ⟨l, m, hv, hu⟩ := h.of_cleared hw₁ hs'
    exact sim_of_spec (copyAssign_sim hN h hv hu) trivial hs
  | moveAssign v u =>
    obtain ⟨w₂, hw₂, -⟩ := bind_eq_some_iff.mp hs
    obtain ⟨w₁, hw₁, hs'⟩ := bind_eq_some_iff.mp hw₂
    obtain ⟨l, m, hv, hu⟩ := h.of_cleared hw₁ hs'
    exact sim_of_spec (moveAssign_sim hN h hv hu) trivial hs
  | assignRange v xs =>
    obtain ⟨l, hv⟩ := h.of_sized (show assignRange N v xs w = some w' from hs)
    have hfits := (h.holds v l hv).fits
    exact sim_of_spec (h.becomes hv (assignRange_spec hN (h.holds v l hv) xs
      ((hsafe l hv).trans hfits))) (hsafe l hv) hs
  | assignN v count x =>
    obtain ⟨l, hv⟩ := h.of_sized (show assignN N v count x w = some w' from hs)
    have hfits := (h.holds v l hv).fits
    exact sim_of_spec (h.becomes hv (assignN_spec hN (h.holds v l hv) count x
      ((hsafe l hv).trans hfits))) (hsafe l hv) hs
  | edit e =>
    rcases Edit.follows hN h hsafe.1 with ⟨-, hnone⟩ | ⟨c', w'', -, hw'', hsim⟩
    · cases hnone.symm.trans hs
    · exact sim_of_spec ⟨w'', hw'', hsim⟩ hsafe.2 hs

/-- For elements with an observable construction and destruction: from no vectors on, along any
operations that insert at the end only, swap vectors of one size and assign no more elements than
the vector holds. -/
theorem slots_and_lifetimes (hN : N < 2 ^ 63) (ht : T.trivial = false) (x : α) (w : World α)
    (hrun : GuardedRuns.Run (Action.call N T) (fun w a => a.Safe N T w.contents) (World.empty x) w) :
    (∀ v i, w.live v i = true ↔ ∃ n, w.size v = some n ∧ i < n) ∧ w.sound = true ∧ AliveOrDestroyed w ∧
      ((∀ v, w.size v = none) → ∀ e < w.next, w.destroyed.count e = 1) := by
  have hinv : (∃ c, Agrees N w c) ∧ Shaped w ∧ w.sound = true ∧ AliveOrDestroyed w := by
    refine hrun.invariant
      (fun w => (∃ c, Agrees N w c) ∧ Shaped w ∧ w.sound = true ∧ AliveOrDestroyed w)
      ⟨⟨fun _ => none, fun _ _ => rfl, nofun⟩, fun _ _ => rfl, rfl, ?_⟩ ?_
    · exact ⟨fun e => by simp [World.empty, World.elem], nodup_nil, nofun, nofun⟩
    · rintro w a w' ⟨⟨c, hagrees⟩, hshaped, hsound, hacc⟩ hsafe hs
      rw [hagrees.contents_eq] at hsafe
      obtain ⟨c', hsim⟩ := action_sim hN hagrees a hsafe hs
      obtain ⟨hshaped', hsound'⟩ := hsim.lifetimes trivial ht hshaped
      have hstill : w'.sound = true := hsound'.trans hsound
      exact ⟨⟨c', hsim.agrees⟩, hshaped', hstill, (keeps_action a w w' hs).keeps hstill hacc⟩
  obtain ⟨-, hshaped, hsound, hacc⟩ := hinv
  have hlive : ∀ v i, w.live v i = true ↔ ∃ n, w.size v = some n ∧ i < n := by
    intro v i
    rw [hshaped v i, decide_eq_true_eq]
    cases w.size v <;> simp
  refine ⟨hlive, hsound, hacc, fun hnone e he => ?_⟩
  refine count_eq_one_of_mem hacc.once (((hacc.known e).mpr he).resolve_right ?_)
  rintro ⟨v, i, hvi⟩
  obtain ⟨n, hn, -⟩ := (hlive v i).mp (by rw [World.live, ← World.elem, hvi]; rfl)
  rw [hnone v] at hn
  cases hn

/-- Two elements are moved to another vector, the last of them is popped there. -/
theorem slots_and_lifetimes_moved :
    ∃ w : World ℕ, w.next = 4 ∧ w.destroyed = [0, 1, 3] ∧ w.sound = true ∧ AliveOrDestroyed w := by
  let test (_ : World ℕ) : Action ℕ → Bool
    | .create _ xs => decide (xs.length ≤ 4)
    | .moveCreate _ _ => true
    | .edit (.popBack _) => true
    | _ => false
  have hend : (GuardedRuns.exec (Action.call 4 stringLike) test
      [.create 0 [5, 6], .moveCreate 1 0, .edit (.popBack 1)] (World.empty 0)).map
        (fun w => (w.next, w.destroyed)) = some (4, [0, 1, 3]) := by
    decide +kernel
  obtain ⟨w, hw, hlast⟩ := map_eq_some_iff.mp hend
  have hrun : GuardedRuns.Run (Action.call 4 stringLike)
      (fun w a => a.Safe 4 stringLike w.contents) (World.empty 0) w := by
    refine GuardedRuns.exec_run _ _ _ (fun w a ha => ?_) hw
    cases a with
    | create v xs => exact of_decide_eq_true (p := xs.length ≤ 4) ha
    | moveCreate v u => trivial
    | edit e =>
      cases e with
      | popBack v => exact ⟨trivial, trivial⟩
      | _ => cases ha
    | _ => cases ha
  obtain ⟨-, hsound, hacc, -⟩ := slots_and_lifetimes (by decide) rfl 0 w hrun
  exact ⟨w, congrArg Prod.fst hlast, congrArg Prod.snd hlast, hsound, hacc⟩

/-- An insertion before the end, an `assign` of more elements than there are and a swap of
different sizes use dead slots as live ones or construct over an element, which is never
destroyed. -/
theorem slots_confused : ((pushAll 4 0 [1, 2] (World.pair 0)).bind (insert 4 stringLike 0 0 9)).map
        (fun w => (w.sound, w.live 0 2)) = some (false, false) ∧
      (((pushAll 4 0 [1, 2] (World.pair 0)).bind (insert 4 stringLike 0 0 9)).bind
        (destruct 4 stringLike 0)).map (fun w => (w.next, w.destroyed)) = some (3, [2, 1]) ∧
      (assignN 4 0 1 9 (World.pair 0)).map (fun w => (w.sound, w.live 0 0)) = some (false, false) ∧
      ((pushAll 4 0 [1] (World.pair 0)).bind (swap 4 0 1)).map
        (fun w => (w.sound, w.live 0 0, w.live 1 0)) = some (false, true, false) := by
  decide +kernel

end Ichor.StaticVector
