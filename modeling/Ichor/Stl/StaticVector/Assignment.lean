import Ichor.Stl.StaticVector.Contents

/-! Construction from and assignment of other vectors, which take the elements of the other one
after the other. -/
namespace Ichor.StaticVector
open List Function

variable {α : Type} {N : ℕ} {T : Element α} {w w' : World α} {v u : ℕ} {l m : List α}
  {c c' : ℕ → Option (List α)} {x : α}

open World

theorem setValue_becomes {k : ℕ} (h : Holds N w u m) (x : α) :
    Becomes N T u m.length (m.set k x) True w (w.setValue u k x) where
  holds := by
    refine ⟨by rw [length_set]; exact h.size, by rw [length_set]; exact h.fits, ?_⟩
    intro i hi
    rw [length_set] at hi
    rw [value_setValue, getElem?_set]
    by_cases hik : k = i
    · subst hik
      simp [hi]
    · simp only [hik, if_false, Ne.symm hik, and_false]
      exact h.value i hi
  size _ _ := rfl
  other _ hx := slot_set_ne _ hx
  lifetimes _ _ hlive := by
    refine ⟨fun i => ?_, rfl⟩
    rw [length_set, World.live, elem_setValue]
    exact hlive i

/-- A list whose first `k` elements have been taken from. -/
def taken (leave : α → α) (m : List α) (k : ℕ) : List α := (m.take k).map leave ++ m.drop k

theorem taken_succ (leave : α → α) {k : ℕ} (hk : k < m.length) : (taken leave m k)[k]? = some m[k] ∧
      (taken leave m k).set k (leave m[k]) = taken leave m (k + 1) := by
  have hlen : ((m.take k).map leave).length = k := by
    rw [length_map, length_take_of_le hk.le]
  constructor
  · rw [taken, getElem?_append_right (by omega), hlen, getElem?_drop]
    simp [hk]
  · rw [taken, set_append_right _ _ (by omega), hlen, Nat.sub_self, drop_eq_getElem_cons hk,
      set_cons_zero, taken, take_succ_eq_append_getElem hk, map_append,
      append_assoc]
    rfl

theorem takeAll_sim (hN : N < 2 ^ 63) (leave : α → α) (h : Agrees N w c) (huv : u ≠ v)
    (hv : c v = some []) (hu : c u = some m) : ∃ w', takeAll N leave v u w = some w' ∧
      Sim N T (update (update c u (some (m.map leave))) v (some m)) True w w' := by
  have hfits := (h.holds u m hu).fits
  let C (k : ℕ) := update (update c u (some (taken leave m k))) v (some (m.take k))
  have hstart : C 0 = c := by
    funext x
    by_cases hxv : x = v
    · simp [C, hxv, hv]
    · by_cases hxu : x = u
      · simp [C, hxu, huv, taken, hu]
      · simp [C, hxv, hxu]
  obtain ⟨w', hw', hsim⟩ := Loops.exists_foldlM_range (fun k w' => Sim N T (C k) True w w')
    (fun w i => (pushBack N v (w.value u i) w).map fun w' => w'.setValue u i (leave (w.value u i)))
    m.length (c := w) (by
      rw [hstart]
      exact ⟨h, fun _ _ hw => ⟨hw, rfl⟩⟩) (by
    intro k hk w₀ hsim
    obtain ⟨hget, hset⟩ := taken_succ leave hk
    have hholds := hsim.agrees.holds u (taken leave m k) (by simp [C, huv])
    have hvalue : w₀.value u k = m[k] := by
      have hlen : k < (taken leave m k).length := by
        simp [taken]
        omega
      exact Option.some.inj ((hholds.value k hlen).symm.trans hget)
    obtain ⟨w₁, hw₁, hpush⟩ := hsim.agrees.becomes (v := v) (by simp [C])
      (pushBack_spec (T := T) hN (hsim.agrees.holds v (m.take k) (by simp [C])) m[k]
        (by rw [length_take_of_le hk.le]; exact hk.trans_le hfits))
    have hsource := hpush.agrees.holds u (taken leave m k) (by simp [C, huv])
    have hleave := (setValue_becomes (T := T) (k := k) hsource (leave m[k])).sim hpush.agrees
      (by rw [hsource.size]; rfl)
    refine ⟨w₁.setValue u k (leave m[k]), ?_, ?_⟩
    · rw [hvalue, hw₁]
      rfl
    · have hnext : C (k + 1) = update (update (C k) v
          (some (m.take k ++ [m[k]]))) u (some ((taken leave m k).set k (leave m[k]))) := by
        funext x
        by_cases hxu : x = u
        · simp [C, hxu, huv, hset]
        · by_cases hxv : x = v
          · subst hxv
            rw [update_of_ne huv.symm, update_self, ← take_succ_eq_append_getElem hk]
            simp [C]
          · simp [C, hxu, hxv]
      rw [hnext]
      exact (hsim.trans hpush id id).trans hleave id id)
  refine ⟨w', ?_, ?_⟩
  · rw [takeAll, (h.holds u m hu).sized, hw']
  · have hend : C m.length = update (update c u (some (m.map leave))) v (some m) := by
      simp only [C, taken, take_length, drop_length, append_nil]
    rwa [hend] at hsim

/-- A vector without elements, taken as the copy of another one or of itself. -/
theorem copyAll_sim (hN : N < 2 ^ 63) (h : Agrees N w c) (hv : c v = some []) (hu : c u = some m) :
    ∃ w', takeAll N id v u w = some w' ∧ Sim N T (update c v (some m)) True w w' := by
  by_cases huv : u = v
  · subst huv
    obtain rfl : [] = m := Option.some.inj (hv.symm.trans hu)
    refine ⟨w, ?_, ?_, fun _ _ hw => ⟨hw, rfl⟩⟩
    · rw [takeAll, (h.holds u [] hu).sized]
      rfl
    · rwa [← hu, update_eq_self]
  · obtain ⟨w', hw', htake⟩ := takeAll_sim (T := T) hN id h huv hv hu
    rw [map_id, ← hu, update_eq_self, hu] at htake
    exact ⟨w', hw', htake⟩

/-- The other vector is cleared once its elements have been moved. -/
theorem moveAll_sim (hN : N < 2 ^ 63) (h : Agrees N w c) (hv : c v = some []) (hu : c u = some m) :
    ∃ w', (takeAll N T.movedFrom v u w).bind (clear N T u) = some w' ∧
      Sim N T (update (update c u (some [])) v (some m)) True w w' := by
  by_cases huv : u = v
  · subst huv
    obtain rfl : [] = m := Option.some.inj (hv.symm.trans hu)
    rw [takeAll, (h.holds u [] hu).sized, update_idem]
    exact h.becomes hu (clear_spec (h.holds u [] hu))
  · obtain ⟨w₁, hw₁, htake⟩ := takeAll_sim (T := T) hN T.movedFrom h huv hv hu
    have hu₁ : update (update c u (some (m.map T.movedFrom))) v (some m) u =
        some (m.map T.movedFrom) := by simp [huv]
    obtain ⟨w₂, hw₂, hclear⟩ :=
      htake.agrees.becomes hu₁ (clear_spec (T := T) (htake.agrees.holds u _ hu₁))
    rw [update_comm (Ne.symm huv), update_idem] at hclear
    rw [hw₁]
    exact ⟨w₂, hw₂, htake.trans hclear id id⟩

/-- What is left of the other vector when this one has been cleared: nothing, if it is the same. -/
def others (m : List α) (v u : ℕ) : List α := if u = v then [] else m

section
variable (hN : N < 2 ^ 63) (h : Agrees N w c) (hv : c v = some l) (hu : c u = some m)
include hN h hv hu

/-- The assignments clear the vector first, so that one that is assigned to itself has nothing
left to take and has lost its elements. -/
theorem copyAssign_sim : ∃ w', copyAssign N T v u w = some w' ∧
      Sim N T (update c v (some (others m v u))) True w w' := by
  obtain ⟨w₁, hw₁, hclear⟩ := h.becomes hv (clear_spec (T := T) (h.holds v l hv))
  have hu₁ : update c v (some []) u = some (others m v u) := by
    by_cases huv : u = v <;> simp [others, huv, hu]
  obtain ⟨w₂, hw₂, hcopy⟩ := copyAll_sim (T := T) hN hclear.agrees (update_self ..) hu₁
  rw [update_idem] at hcopy
  rw [copyAssign, hw₁]
  exact ⟨w₂, hw₂, hclear.trans hcopy id id⟩

theorem moveAssign_sim : ∃ w', moveAssign N T v u w = some w' ∧
      Sim N T (update (update c u (some [])) v (some (others m v u))) True w w' := by
  obtain ⟨w₁, hw₁, hclear⟩ := h.becomes hv (clear_spec (T := T) (h.holds v l hv))
  have hu₁ : update c v (some []) u = some (others m v u) := by
    by_cases huv : u = v <;> simp [others, huv, hu]
  obtain ⟨w₂, hw₂, hmove⟩ := moveAll_sim (T := T) hN hclear.agrees (update_self ..) hu₁
  have hsame : update (update (update c v (some [])) u (some [])) v
      (some (others m v u)) = update (update c u (some [])) v (some (others m v u)) := by
    by_cases huv : u = v
    · rw [huv, update_idem]
    · rw [update_comm (Ne.symm huv), update_idem]
  rw [hsame] at hmove
  rw [moveAssign, hw₁, Option.bind_some]
  exact ⟨w₂, hw₂, hclear.trans hmove id id⟩

end

end Ichor.StaticVector
