import Ichor.Stl.StaticVector.Model

/-! One specification for each loop and each operation of `StaticVector`: it succeeds when its
asserts hold, what the vector holds then, and that it treats live and dead slots as such. -/
namespace Ichor.StaticVector
open List Option Nat

variable {α : Type} {N : ℕ} {T : Element α} {w w' w'' : World α} {v u i j n : ℕ} {x : α}

/-! ## Sizes -/

theorem lt_width (hN : N < 2 ^ 63) : N < 2 ^ width N := by
  unfold width
  split_ifs <;> omega

theorem narrow_of_le (hN : N < 2 ^ 63) (h : n ≤ N) : narrow N n = n :=
  mod_eq_of_lt (h.trans_lt (lt_width hN))

/-! ## Reading a changed slot -/

namespace World

theorem slot_set (s : Slot α) : (w.set v i s).slot u j = if u = v ∧ j = i then s else w.slot u j := by
  by_cases hu : u = v
  · subst hu
    simp [set, Function.update_apply]
  · simp [set, hu]

theorem value_set (s : Slot α) :
    (w.set v i s).value u j = if u = v ∧ j = i then s.value else w.value u j := by
  rw [value, slot_set, apply_ite Slot.value]
  rfl

theorem live_set (s : Slot α) :
    (w.set v i s).live u j = if u = v ∧ j = i then s.elem.isSome else w.live u j := by
  rw [live, slot_set, apply_ite Slot.elem, apply_ite Option.isSome]
  rfl

theorem slot_set_ne (s : Slot α) (h : u ≠ v) : (w.set v i s).slot u = w.slot u :=
  Function.update_of_ne h _ _

theorem value_setValue : (w.setValue v i x).value u j = if u = v ∧ j = i then x else w.value u j :=
  value_set _

theorem elem_setValue : ((w.setValue v i x).slot u j).elem = (w.slot u j).elem := by
  rw [setValue, slot_set]
  split
  · next h => rw [h.1, h.2]
  · rfl

theorem setSize_self (h : w.size v = some n) : w.setSize v (some n) = w := by
  rw [setSize, ← h, Function.update_eq_self]

end World

open World

/-- Only values of `v` changed; where `keep` holds, no dead slot was touched. -/
structure Moved (v : ℕ) (keep : Prop) (w w' : World α) : Prop where
  size : w'.size = w.size
  other : ∀ u, u ≠ v → w'.slot u = w.slot u
  elem : ∀ i, (w'.slot v i).elem = (w.slot v i).elem
  next : w'.next = w.next
  destroyed : w'.destroyed = w.destroyed
  sound : keep → w'.sound = w.sound

theorem Moved.refl (keep : Prop) (w : World α) : Moved v keep w w :=
  ⟨rfl, fun _ _ => rfl, fun _ => rfl, rfl, rfl, fun _ => rfl⟩

theorem Moved.live {keep : Prop} (h : Moved v keep w w') (i : ℕ) : w'.live v i = w.live v i :=
  congrArg Option.isSome (h.elem i)

theorem Moved.trans {k₁ k₂ k : Prop} (h : Moved v k₁ w w') (h' : Moved v k₂ w' w'') (hk₁ : k → k₁)
    (hk₂ : k → k₂) : Moved v k w w'' where
  size := h'.size.trans h.size
  other u hu := (h'.other u hu).trans (h.other u hu)
  elem i := (h'.elem i).trans (h.elem i)
  next := h'.next.trans h.next
  destroyed := h'.destroyed.trans h.destroyed
  sound hk := (h'.sound (hk₂ hk)).trans (h.sound (hk₁ hk))

theorem moved_check (b : Bool) : Moved v (b = true) w (w.check b) :=
  ⟨rfl, fun _ _ => rfl, fun _ => rfl, rfl, rfl, fun hb => by simp [hb, World.check]⟩

theorem moved_setValue (keep : Prop) (i : ℕ) (x : α) : Moved v keep w (w.setValue v i x) :=
  ⟨rfl, fun _ hu => slot_set_ne _ hu, fun _ => elem_setValue, rfl, rfl, fun _ => rfl⟩

theorem assignAt_spec (h : i < N) :
    ∃ w', assignAt N v i x w = some w' ∧ Moved v (w.live v i = true) w w' ∧
      ∀ j, w'.value v j = if j = i then x else w.value v j := by
  refine ⟨_, if_pos h, (moved_check _).trans (moved_setValue _ i x) id id, fun j => ?_⟩
  simp only [value_setValue, true_and]
  rfl

/-- The target gets the value of the source, which keeps none that matters. -/
theorem moveAt_spec (v : ℕ) {target source : ℕ} (ht : target < N) (hs : source < N)
    (hself : target ≠ source ∨ T.selfMoved (w.value v source) = w.value v source) :
    ∃ w', moveAt N T v target source w = some w' ∧
      Moved v (w.live v target = true ∧ w.live v source = true) w w' ∧
      w'.value v target = w.value v source ∧
      ∀ j, j ≠ target → j ≠ source → w'.value v j = w.value v j := by
  have hcheck : Moved v (w.live v target = true ∧ w.live v source = true) w
      (w.check (w.live v target && w.live v source)) :=
    (moved_check _).trans (.refl True _) (by simp) (by simp)
  refine ⟨_, if_pos ⟨ht, hs⟩, ?_, ?_, ?_⟩
  · split
    · exact hcheck.trans (moved_setValue _ _ _) id id
    · exact hcheck.trans ((moved_setValue _ _ _).trans (moved_setValue _ _ _) id id) id id
  · split
    · next heq =>
      subst heq
      rw [value_setValue, if_pos ⟨rfl, rfl⟩]
      exact hself.resolve_left fun h => h rfl
    · simp [value_setValue]
  · intro j hjt hjs
    split <;> simp [value_setValue, hjt, hjs] <;> rfl

variable {round : World α → ℕ → Option (World α)}

/-- A loop of moves, none of which takes from or writes to a slot that an earlier one wrote to or
took from. -/
theorem moves_spec (target source : ℕ → ℕ)
    (hround : ∀ k < n, ∀ c, round c k = moveAt N T v (target k) (source k) c)
    (hin : ∀ k < n, target k < N ∧ source k < N)
    (hself : ∀ k < n, target k ≠ source k ∨ ∀ x, T.selfMoved x = x) (hapart : ∀ k < n, ∀ j < k,
      target j ≠ target k ∧ target j ≠ source k ∧ source j ≠ source k) :
    ∃ w', (List.range n).foldlM round w = some w' ∧
      Moved v (∀ k < n, w.live v (target k) = true ∧ w.live v (source k) = true) w w' ∧
      (∀ k < n, w'.value v (target k) = w.value v (source k)) ∧
      ∀ i, (∀ k < n, i ≠ target k ∧ i ≠ source k) → w'.value v i = w.value v i := by
  refine Loops.exists_foldlM_range (fun m w' =>
      Moved v (∀ k < m, w.live v (target k) = true ∧ w.live v (source k) = true) w w' ∧
      (∀ k < m, w'.value v (target k) = w.value v (source k)) ∧
      ∀ i, (∀ k < m, i ≠ target k ∧ i ≠ source k) → w'.value v i = w.value v i)
    round n ⟨.refl _ w, nofun, fun _ _ => rfl⟩ ?_
  rintro m hm c ⟨hmoved, hdone, hrest⟩
  obtain ⟨c', hc', hstep, hvalue, hkept⟩ := moveAt_spec (w := c) v (hin m hm).1 (hin m hm).2
    ((hself m hm).imp_right fun h => h _)
  refine ⟨c', by rw [hround m hm, hc'], ?_, ?_, ?_⟩
  · refine hmoved.trans hstep (fun h k hk => h k (by omega)) fun h => ?_
    rw [hmoved.live, hmoved.live]
    exact h m (by omega)
  · intro k hk
    by_cases hkm : k = m
    · rw [hkm, hvalue]
      exact hrest _ fun j hj => ⟨(hapart m hm j hj).2.1.symm, (hapart m hm j hj).2.2.symm⟩
    · obtain ⟨htarget, hsource, -⟩ := hapart m hm k (by omega)
      rw [hkept _ htarget hsource, hdone k (by omega)]
  · intro i hi
    rw [hkept i (hi m (by omega)).1 (hi m (by omega)).2]
    exact hrest i fun k hk => hi k (by omega)

variable {first last : ℕ}

theorem moveBackward_spec {shift : ℕ} (hle : first ≤ last) (hN : last + shift ≤ N)
    (hself : 0 < shift ∨ first = last ∨ ∀ x, T.selfMoved x = x) :
    ∃ w', moveBackward N T v first last (last + shift) w = some w' ∧
      Moved v (∀ i, first ≤ i → i < last → w.live v (i + shift) = true ∧ w.live v i = true) w w' ∧
      (∀ i < first, w'.value v i = w.value v i) ∧
      ∀ i, first ≤ i → i < last → w'.value v (i + shift) = w.value v i := by
  have hround : ∀ k < last - first, ∀ c : World α, (if k < last + shift then
      moveAt N T v (last + shift - k - 1) (last - k - 1) c else none) =
        moveAt N T v (last - k - 1 + shift) (last - k - 1) c := fun k hk c => by
    rw [if_pos (by omega), show last + shift - k - 1 = last - k - 1 + shift by omega]
  obtain ⟨w', hw', hmoved, hdone, hrest⟩ := moves_spec (w := w) _ _ hround
    (fun k hk => by omega) (fun k hk => hself.imp (by omega) fun h => h.resolve_left (by omega))
    fun k hk j hj => by omega
  refine ⟨w', hw', hmoved.trans (.refl True w') (fun h k hk => ?_) fun _ => trivial, ?_, ?_⟩
  · exact h _ (by omega) (by omega)
  · exact fun i hi => hrest i fun k hk => by omega
  · intro i h1 h2
    have hmove := hdone (last - 1 - i) (by omega)
    rwa [show last - (last - 1 - i) - 1 = i by omega] at hmove

theorem moveForward_spec {dest : ℕ} (hle : first ≤ last) (hlt : dest < first) (hN : last ≤ N) :
    ∃ w', moveForward N T v first last dest w = some w' ∧
      Moved v (∀ i < last, w.live v i = true) w w' ∧
      (∀ i < dest, w'.value v i = w.value v i) ∧
      ∀ i, first ≤ i → i < last → w'.value v (dest + (i - first)) = w.value v i := by
  obtain ⟨w', hw', hmoved, hdone, hrest⟩ := moves_spec (N := N) (T := T) (v := v) (w := w)
    (n := last - first) (dest + ·) (first + ·) (fun _ _ _ => rfl) (fun k hk => by omega)
    (fun k hk => .inl (by omega)) fun k hk j hj => by omega
  refine ⟨w', hw', hmoved.trans (.refl True w') (fun h k hk => ?_) fun _ => trivial, ?_, ?_⟩
  · exact ⟨h _ (by omega), h _ (by omega)⟩
  · exact fun i hi => hrest i fun k hk => by omega
  · intro i h1 h2
    have hmove := hdone (i - first) (by omega)
    rwa [show first + (i - first) = i by omega] at hmove

/-- The slots of `v` that hold an element are those below `n`. -/
def Live (w : World α) (v n : ℕ) : Prop := ∀ i, w.live v i = decide (i < n)

/-- No size and no other vector changed. -/
structure Local (v : ℕ) (w w' : World α) : Prop where
  size : w'.size = w.size
  other : ∀ u, u ≠ v → w'.slot u = w.slot u

theorem constructAt_spec (v : ℕ) (x : α) (h : i < N) :
    ∃ w', constructAt N v i x w = some w' ∧ Local v w w' ∧
      (∀ j, w'.value v j = if j = i then x else w.value v j) ∧
      (∀ j, w'.live v j = if j = i then true else w.live v j) ∧
      (w.live v i = false → w'.sound = w.sound) := by
  refine ⟨_, if_pos h, ⟨rfl, fun u hu => slot_set_ne _ hu⟩, fun j => ?_, fun j => ?_, fun hdead => ?_⟩
  · show (World.set _ v i _).value v j = _
    simp only [value_set, true_and]
    rfl
  · show (World.set _ v i _).live v j = _
    simp only [live_set, true_and]
    rfl
  · simp [World.set, World.check, hdead]

theorem destroyAt_spec (v : ℕ) (h : i < N) :
    ∃ w', destroyAt N T v i w = some w' ∧ Local v w w' ∧ (∀ j, w'.value v j = w.value v j) ∧
      (T.trivial = false → (∀ j, w'.live v j = if j = i then false else w.live v j) ∧
        (w.live v i = true → w'.sound = w.sound)) := by
  refine ⟨_, if_pos h, ?_⟩
  cases ht : T.trivial with
  | true => exact ⟨⟨rfl, fun _ _ => rfl⟩, fun _ => rfl, nofun⟩
  | false =>
    rw [if_neg Bool.false_ne_true]
    refine ⟨⟨rfl, fun u hu => slot_set_ne _ hu⟩, fun j => ?_, fun _ => ⟨fun j => ?_, fun hlive => ?_⟩⟩
    · show (World.set _ v i _).value v j = _
      rw [value_set]
      split
      · next hj => rw [hj.2]
      · rfl
    · show (World.set _ v i _).live v j = _
      simp only [live_set, true_and]
      rfl
    · simp [World.set, World.check, hlive]

theorem Local.refl (w : World α) : Local v w w := ⟨rfl, fun _ _ => rfl⟩

theorem Local.trans (h : Local v w w') (h' : Local v w' w'') : Local v w w'' :=
  ⟨h'.size.trans h.size, fun u hu => (h'.other u hu).trans (h.other u hu)⟩

theorem constructAll_spec (pos : ℕ) (xs : List α) (hN : pos + xs.length ≤ N) :
    ∃ w', constructAll N v pos xs w = some w' ∧ Local v w w' ∧
      (∀ i, i < pos ∨ pos + xs.length ≤ i → w'.value v i = w.value v i) ∧
      (∀ i < xs.length, xs[i]? = some (w'.value v (pos + i))) ∧
      (Live w v pos → Live w' v (pos + xs.length) ∧ w'.sound = w.sound) := by
  refine Loops.exists_foldlM_range
    (fun k w' => Local v w w' ∧ (∀ i, i < pos ∨ pos + k ≤ i → w'.value v i = w.value v i) ∧
      (∀ i < k, xs[i]? = some (w'.value v (pos + i))) ∧
      (Live w v pos → Live w' v (pos + k) ∧ w'.sound = w.sound)) _ xs.length
    ⟨.refl w, fun _ _ => rfl, fun i hi => absurd hi (by omega), fun h => ⟨h, rfl⟩⟩ ?_
  rintro k hk c ⟨hlocal, hkept, hdone, hlive⟩
  have hget : xs[k]? = some (xs[k]) := getElem?_eq_getElem hk
  obtain ⟨c', hc', hstep, hvalue, halive, hsafe⟩ :=
    constructAt_spec (w := c) v xs[k] (show pos + k < N by omega)
  refine ⟨c', by rw [hget, bind_some, hc'], hlocal.trans hstep, ?_, ?_, ?_⟩
  · intro i hi
    rw [hvalue, if_neg (by omega), hkept i (by omega)]
  · intro i hi
    by_cases hik : i = k
    · rw [hik, hget, hvalue, if_pos rfl]
    · rw [hvalue, if_neg (by omega), hdone i (by omega)]
  · intro hpos
    obtain ⟨hbelow, hsound⟩ := hlive hpos
    refine ⟨fun i => ?_, (hsafe (by simp [hbelow (pos + k)])).trans hsound⟩
    rw [halive, hbelow i]
    by_cases hik : i = pos + k
    · simp [hik]
    · rw [if_neg hik]
      exact decide_eq_decide.mpr (by omega)

theorem destroyRange_spec (hle : first ≤ last) (hN : last ≤ N) :
    ∃ w', destroyRange N T v first last w = some w' ∧ Local v w w' ∧
      (∀ i, w'.value v i = w.value v i) ∧
      (T.trivial = false → Live w v last → Live w' v first ∧ w'.sound = w.sound) := by
  have hloop := Loops.exists_foldlM_range
    (fun k w' => Local v w w' ∧ (∀ i, w'.value v i = w.value v i) ∧
      (T.trivial = false → Live w v last →
        (∀ i, w'.live v i = decide (i < first ∨ first + k ≤ i ∧ i < last)) ∧ w'.sound = w.sound))
    (fun w k => destroyAt N T v (first + k) w) (last - first) (c := w) ?_ ?_
  · obtain ⟨w', hw', hlocal, hvalue, hlive⟩ := hloop
    refine ⟨w', hw', hlocal, hvalue, fun ht hw => ⟨fun i => ?_, (hlive ht hw).2⟩⟩
    exact ((hlive ht hw).1 i).trans (decide_eq_decide.mpr (by omega))
  · refine ⟨.refl w, fun _ => rfl, fun _ hw => ⟨fun i => ?_, rfl⟩⟩
    exact (hw i).trans (decide_eq_decide.mpr (by omega))
  rintro k hk c ⟨hlocal, hvalue, hlive⟩
  obtain ⟨c', hc', hstep, hsame, halive⟩ :=
    destroyAt_spec (T := T) (w := c) v (show first + k < N by omega)
  refine ⟨c', hc', hlocal.trans hstep, fun i => (hsame i).trans (hvalue i), fun ht hw => ?_⟩
  obtain ⟨hleft, hsound⟩ := hlive ht hw
  obtain ⟨hgone, hsafe⟩ := halive ht
  have hone : c.live v (first + k) = true := by
    rw [hleft, decide_eq_true_eq]
    omega
  refine ⟨fun i => ?_, (hsafe hone).trans hsound⟩
  rw [hgone, hleft i]
  by_cases hik : i = first + k
  · rw [if_pos hik]
    exact (decide_eq_false (by omega)).symm
  · rw [if_neg hik]
    exact decide_eq_decide.mpr (by omega)

/-! ## Operations on one vector -/

variable (N) in
structure Holds (w : World α) (v : ℕ) (l : List α) : Prop where
  size : w.size v = some l.length
  fits : l.length ≤ N
  value : ∀ i < l.length, l[i]? = some (w.value v i)

variable (N T) in
/-- `v`, of size `n` before, holds `l`; no other vector changed; and where the call is `safe`,
its slots are treated as what they are. -/
structure Becomes (v n : ℕ) (l : List α) (safe : Prop) (w w' : World α) : Prop where
  holds : Holds N w' v l
  size : ∀ u, u ≠ v → w'.size u = w.size u
  other : ∀ u, u ≠ v → w'.slot u = w.slot u
  lifetimes : safe → T.trivial = false → Live w v n → Live w' v l.length ∧ w'.sound = w.sound

variable {l l' xs : List α} {pos : ℕ} (hN : N < 2 ^ 63) (h : Holds N w v l)

theorem Holds.sized (h : Holds N w v l) (f : ℕ → World α → Option (World α)) :
    sized v f w = f l.length w := by
  rw [StaticVector.sized, h.size, bind_some]

variable {safe : Prop}

theorem Local.setSize (hlocal : Local v w w') (hl : l.length ≤ N)
    (hvalue : ∀ i < l.length, l[i]? = some (w'.value v i))
    (hlive : safe → T.trivial = false → Live w v n → Live w' v l.length ∧ w'.sound = w.sound) :
    Becomes N T v n l safe w (w'.setSize v (some l.length)) where
  holds := ⟨by simp [World.setSize], hl, hvalue⟩
  size u hu := by simp [World.setSize, hu, hlocal.size]
  other := hlocal.other
  lifetimes := hlive

theorem Becomes.trans {safe' both : Prop} (hb : Becomes N T v n l safe w w')
    (hb' : Becomes N T v l.length l' safe' w' w'') (hs : both → safe) (hs' : both → safe') :
    Becomes N T v n l' both w w'' where
  holds := hb'.holds
  size u hu := (hb'.size u hu).trans (hb.size u hu)
  other u hu := (hb'.other u hu).trans (hb.other u hu)
  lifetimes hsafe ht hlive := by
    obtain ⟨hmid, hsound⟩ := hb.lifetimes (hs hsafe) ht hlive
    obtain ⟨hend, hsound'⟩ := hb'.lifetimes (hs' hsafe) ht hmid
    exact ⟨hend, hsound'.trans hsound⟩

include h in
theorem Becomes.refl : Becomes N T v l.length l True w w :=
  ⟨h, fun _ _ => rfl, fun _ _ => rfl, fun _ _ hlive => ⟨hlive, rfl⟩⟩

theorem getElem?_append_singleton (l : List α) (x : α) (f : ℕ → α) (hf : f l.length = x)
    (hl : ∀ i < l.length, l[i]? = some (f i)) :
    ∀ i < (l ++ [x]).length, (l ++ [x])[i]? = some (f i) := by
  intro i hi
  rw [List.length_append, length_singleton] at hi
  by_cases hil : i < l.length
  · rw [getElem?_append_left hil, hl i hil]
  · obtain rfl : i = l.length := by omega
    rw [getElem?_concat_length, hf]

include hN h

theorem pushBack_spec (x : α) (hl : l.length < N) :
    ∃ w', pushBack N v x w = some w' ∧ Becomes N T v l.length (l ++ [x]) True w w' := by
  obtain ⟨w', hw', hlocal, hvalue, halive, hsafe⟩ := constructAt_spec (w := w) v x hl
  have hlen : (l ++ [x]).length = l.length + 1 := by simp
  refine ⟨w'.setSize v (some (l ++ [x]).length), ?_, hlocal.setSize (by omega) ?_ ?_⟩
  · rw [pushBack, h.sized, if_pos hl, hw', narrow_of_le hN hl, hlen]
    rfl
  · refine getElem?_append_singleton l x _ (by rw [hvalue, if_pos rfl]) fun i hi => ?_
    rw [hvalue, if_neg (by omega), h.value i hi]
  · intro _ _ hlive
    refine ⟨fun i => ?_, hsafe (by simp [hlive l.length])⟩
    rw [halive, hlive i, hlen]
    by_cases hi : i = l.length
    · simp [hi]
    · rw [if_neg hi]
      exact decide_eq_decide.mpr (by omega)

theorem pushAll_spec (xs : List α) (hl : l.length + xs.length ≤ N) :
    ∃ w', pushAll N v xs w = some w' ∧ Becomes N T v l.length (l ++ xs) True w w' := by
  induction xs generalizing l w with
  | nil => exact ⟨w, rfl, by simpa using Becomes.refl h⟩
  | cons x xs ih =>
    rw [length_cons] at hl
    obtain ⟨w', hw', hb⟩ := pushBack_spec (T := T) hN h x (by omega)
    obtain ⟨w'', hw'', hb'⟩ := ih hb.holds (by simp; omega)
    refine ⟨w'', ?_, ?_⟩
    · rw [pushAll, foldlM_cons, hw']
      exact hw''
    · simpa using hb.trans hb' id id

theorem popBack_spec (hl : l ≠ []) :
    ∃ w', popBack N T v w = some w' ∧ Becomes N T v l.length l.dropLast True w w' := by
  have hpos := length_pos_of_ne_nil hl
  have hlen : l.dropLast.length = l.length - 1 := length_dropLast
  obtain ⟨w', hw', hlocal, hvalue, halive⟩ :=
    destroyAt_spec (T := T) (w := w) v (show l.length - 1 < N by have := h.fits; omega)
  refine ⟨w'.setSize v (some l.dropLast.length), ?_, hlocal.setSize (by have := h.fits; omega) ?_ ?_⟩
  · rw [popBack, h.sized, if_pos hpos, hw', narrow_of_le hN (by have := h.fits; omega), hlen]
    rfl
  · intro i hi
    rw [hvalue, ← h.value i (by omega), getElem?_dropLast, if_pos (by omega)]
  · intro _ ht hlive
    obtain ⟨hgone, hsafe⟩ := halive ht
    refine ⟨fun i => ?_, hsafe ((hlive _).trans (decide_eq_true (by omega)))⟩
    rw [hgone, hlive i, hlen]
    by_cases hi : i = l.length - 1
    · simp [hi]
    · rw [if_neg hi]
      exact decide_eq_decide.mpr (by omega)

omit hN in
theorem clear_spec : ∃ w', clear N T v w = some w' ∧ Becomes N T v l.length [] True w w' := by
  obtain ⟨w', hw', hlocal, -, hlive⟩ :=
    destroyRange_spec (T := T) (w := w) (v := v) (zero_le l.length) h.fits
  refine ⟨w'.setSize v (some 0), ?_, hlocal.setSize (l := []) (zero_le N) nofun fun _ => hlive⟩
  rw [clear, h.sized, hw']
  rfl

/-! ## Insertion -/

/-- The elements of the list with others put in at a position. -/
def spliced (l : List α) (pos : ℕ) (xs : List α) : List α := l.take pos ++ xs ++ l.drop pos

omit hN h in
theorem getElem?_spliced (hpos : pos ≤ l.length) (xs : List α) (i : ℕ) :
    (spliced l pos xs)[i]? = if i < pos then l[i]? else
      if i < pos + xs.length then xs[i - pos]? else l[i - xs.length]? := by
  have htake : (l.take pos).length = pos := length_take_of_le hpos
  unfold spliced
  split
  · next hi =>
    rw [append_assoc, getElem?_append_left (by omega), getElem?_take_of_lt hi]
  · split
    · rw [getElem?_append_left (by simp; omega), getElem?_append_right (by omega), htake]
    · rw [getElem?_append_right (by simp; omega), List.length_append, htake, getElem?_drop]
      congr 1
      omega

omit hN in
/-- A call that moves elements is safe only where it moves none into the dead slots behind the
end and constructs none over live ones: with nothing to insert, or at the end. -/
theorem insertAll_spec (xs : List α) (hpos : pos ≤ l.length) (hl : l.length + xs.length ≤ N)
    (hdiff : xs.length < 2 ^ 63) (hself : xs ≠ [] ∨ pos = l.length ∨ ∀ x, T.selfMoved x = x) :
    ∃ w', insertAll N T v pos xs.length (l.length + xs.length) xs w = some w' ∧
      Becomes N T v l.length (spliced l pos xs) (xs = [] ∨ pos = l.length) w w' := by
  have hlen : (spliced l pos xs).length = l.length + xs.length := by
    simp [spliced]
    omega
  have hlast : ((l.length + xs.length : ℕ) - toDifference xs.length).toNat = l.length := by
    simp only [toDifference, if_pos hdiff]
    omega
  obtain ⟨w₁, hw₁, hmoved, hlow, hhigh⟩ := moveBackward_spec (T := T)
    (w := w.setSize v (some (l.length + xs.length))) (v := v) hpos hl
    (hself.imp_left length_pos_of_ne_nil)
  obtain ⟨w₂, hw₂, hlocal, hkept, hnew, hlive⟩ := constructAll_spec (N := N) (w := w₁) (v := v) pos xs
    (by omega)
  refine ⟨w₂, ?_, ⟨?_, ?_, ?_⟩, ?_, ?_, ?_⟩
  · rw [insertAll, hlast, hw₁, bind_some, hw₂]
  · rw [hlocal.size, hmoved.size, hlen]
    simp [World.setSize]
  · omega
  · intro i hi
    rw [getElem?_spliced hpos]
    split
    · next hlt =>
      rw [hkept i (.inl hlt), hlow i hlt]
      exact h.value i (by omega)
    · split
      · next hge hlt =>
        rw [hnew _ (by omega)]
        congr 2
        omega
      · have hi' : i - xs.length + xs.length = i := by omega
        rw [hkept i (.inr (by omega)), ← hi', hhigh (i - xs.length) (by omega) (by omega), hi']
        exact h.value _ (by omega)
  · intro u hu
    rw [hlocal.size, hmoved.size]
    simp [World.setSize, hu]
  · intro u hu
    rw [hlocal.other u hu, hmoved.other u hu]
    rfl
  · intro hsafe ht hw
    have hlive₁ : Live w₁ v l.length := fun i => (hmoved.live i).trans (hw i)
    have hsound : w₁.sound = w.sound := by
      refine hmoved.sound fun i h1 h2 => ?_
      rcases hsafe with rfl | hend
      · exact ⟨(hw i).trans (decide_eq_true h2), (hw i).trans (decide_eq_true h2)⟩
      · omega
    rw [hlen]
    rcases hsafe with rfl | rfl
    · cases hw₂
      exact ⟨hlive₁, hsound⟩
    · exact ⟨(hlive hlive₁).1, (hlive hlive₁).2.trans hsound⟩

theorem insert_spec (x : α) (hpos : pos ≤ l.length) (hl : l.length < N) :
    ∃ w', insert N T v pos x w = some w' ∧
      Becomes N T v l.length (spliced l pos [x]) (pos = l.length) w w' := by
  obtain ⟨w', hw', hb⟩ := insertAll_spec (T := T) h [x] hpos hl (by simp) (.inl (by simp))
  refine ⟨w', ?_, { hb with lifetimes := fun hsafe => hb.lifetimes (.inr hsafe) }⟩
  rw [insert, h.sized, if_pos hl, narrow_of_le hN hl]
  exact hw'

theorem insertRange_spec (hpos : pos ≤ l.length) (hl : l.length + xs.length ≤ N)
    (hself : xs ≠ [] ∨ pos = l.length ∨ ∀ x, T.selfMoved x = x) :
    ∃ w', insertRange N T v pos xs w = some w' ∧
      Becomes N T v l.length (spliced l pos xs) (xs = [] ∨ pos = l.length) w w' := by
  obtain ⟨w', hw', hb⟩ := insertAll_spec h xs hpos hl (by omega) hself
  refine ⟨w', ?_, hb⟩
  rw [insertRange, h.sized, mod_eq_of_lt (by omega), if_pos hl,
    narrow_of_le (n := xs.length) hN (by omega), narrow_of_le hN hl, hw']

theorem insertN_spec (count : ℕ) (x : α) (hpos : pos ≤ l.length) (hl : l.length + count ≤ N)
    (hself : 0 < count ∨ pos = l.length ∨ ∀ x, T.selfMoved x = x) :
    ∃ w', insertN N T v pos count x w = some w' ∧
      Becomes N T v l.length (spliced l pos (List.replicate count x)) (count = 0 ∨ pos = l.length)
        w w' := by
  have hlen : (List.replicate count x).length = count := List.length_replicate
  obtain ⟨w', hw', hb⟩ := insertAll_spec (T := T) h (List.replicate count x) hpos (by omega)
    (by omega) (hself.imp_left fun hc => ne_nil_of_length_pos (by omega))
  rw [hlen] at hw'
  refine ⟨w', ?_, { hb with
    lifetimes := fun hsafe => hb.lifetimes (hsafe.imp_left fun hc => by rw [hc, replicate_zero]) }⟩
  have hcount : (toDifference count).toNat = count := by
    rw [toDifference, if_pos (by omega), Int.toNat_natCast]
  rw [insertN, h.sized, mod_eq_of_lt (by omega), if_pos hl,
    narrow_of_le (n := count) hN (by omega), narrow_of_le hN hl, hcount, hw']

/-! ## Removal -/

theorem eraseRange_spec (hle : first ≤ last) (hl : last ≤ l.length) :
    ∃ w', eraseRange N T v first last w = some w' ∧
      Becomes N T v l.length (l.take first ++ l.drop last) True w w' := by
  have hfits := h.fits
  rw [eraseRange, h.sized]
  by_cases heq : first = last
  · subst heq
    exact ⟨w, by simp, by simpa using Becomes.refl h⟩
  have hlt : first < last := by omega
  have hlen : (l.take first ++ l.drop last).length = first + (l.length - last) := by
    simp
    omega
  obtain ⟨w₁, hw₁, hmoved, hlow, hhigh⟩ := moveForward_spec (T := T) (w := w) (v := v) hl hlt hfits
  obtain ⟨w₂, hw₂, hlocal, hvalue, hlive⟩ := destroyRange_spec (T := T) (w := w₁) (v := v)
    (show first + (l.length - last) ≤ l.length by omega) hfits
  refine ⟨w₂.setSize v (some (l.take first ++ l.drop last).length), ?_,
    Local.setSize (Local.trans ⟨hmoved.size, hmoved.other⟩ hlocal) (by omega) ?_ ?_⟩
  · have hwidth := lt_width hN
    have hsub : (l.length + (2 ^ width N - (last - first))) % 2 ^ width N =
        first + (l.length - last) := by
      have hsum : l.length + (2 ^ width N - (last - first)) =
          first + (l.length - last) + 2 ^ width N := by omega
      rw [hsum, add_mod_right, mod_eq_of_lt (by omega)]
    rw [if_pos heq, hw₁, bind_some, hw₂, hlen,
      narrow_of_le (n := last - first) hN (by omega), narrow, hsub]
    rfl
  · intro i hi
    rw [hvalue]
    have htake : (l.take first).length = first := length_take_of_le (by omega)
    by_cases hif : i < first
    · rw [getElem?_append_left (by omega), getElem?_take_of_lt hif, hlow i hif]
      exact h.value i (by omega)
    · have hsource := hhigh (last + (i - first)) (by omega) (by omega)
      have hi' : first + (last + (i - first) - last) = i := by omega
      rw [hi'] at hsource
      rw [getElem?_append_right (by omega), htake, getElem?_drop, hsource]
      exact h.value _ (by omega)
  · intro _ ht hw
    have hlive₁ : Live w₁ v l.length := fun i => (hmoved.live i).trans (hw i)
    obtain ⟨hend, hsound⟩ := hlive ht hlive₁
    rw [hlen]
    exact ⟨hend, hsound.trans (hmoved.sound fun i hi => (hw i).trans (decide_eq_true hi))⟩

theorem erase_eq_eraseRange (hl : pos < l.length) :
    erase N T v pos w = eraseRange N T v pos (pos + 1) w := by
  have hfits := h.fits
  have hmove : (if pos + 1 ≠ l.length then moveForward N T v (pos + 1) l.length pos w else some w) =
      moveForward N T v (pos + 1) l.length pos w := by
    split
    · rfl
    · next heq =>
      rw [moveForward, show l.length - (pos + 1) = 0 by omega]
      rfl
  obtain ⟨w', hw', hmoved, -⟩ := moveForward_spec (T := T) (w := w) (v := v)
    (show pos + 1 ≤ l.length from hl) (lt_succ_self pos) hfits
  have hsize : w'.size v = some l.length := by rw [hmoved.size, h.size]
  have hone : destroyRange N T v (pos + (l.length - (pos + 1))) l.length w' =
      destroyAt N T v (l.length - 1) w' := by
    rw [destroyRange, show l.length - (pos + (l.length - (pos + 1))) = 1 by omega,
      show pos + (l.length - (pos + 1)) = l.length - 1 by omega]
    exact bind_pure _
  have hsub : narrow N (l.length + (2 ^ width N - narrow N (pos + 1 - pos))) =
      narrow N (l.length - 1) := by
    have hwidth := lt_width hN
    rw [narrow_of_le (n := pos + 1 - pos) hN (by omega), narrow, narrow,
      show l.length + (2 ^ width N - (pos + 1 - pos)) = l.length - 1 + 2 ^ width N by omega,
      add_mod_right]
  rw [erase, eraseRange, h.sized, h.sized, hmove, if_pos (by omega), hw', bind_some,
    bind_some, hone, hsub, popBack, StaticVector.sized, hsize, bind_some,
    if_pos (by omega)]

theorem erase_spec (hl : pos < l.length) :
    ∃ w', erase N T v pos w = some w' ∧ Becomes N T v l.length (l.eraseIdx pos) True w w' := by
  rw [erase_eq_eraseRange hN h hl, eraseIdx_eq_take_drop_succ]
  exact eraseRange_spec hN h (le_succ pos) hl

/-! ## Resizing -/

theorem resizeWith_spec (sz : ℕ) (x : α) (hl : sz ≤ N) : ∃ w', resizeWith N T v sz x w = some w' ∧
      Becomes N T v l.length (l.take sz ++ List.replicate (sz - l.length) x) True w w' := by
  have hwidth := lt_width hN
  rw [resizeWith, h.sized, if_pos ⟨by omega, hl⟩, narrow_of_le hN hl]
  by_cases hup : l.length < sz
  · obtain ⟨w', hw', hb⟩ := pushAll_spec (T := T) hN h (List.replicate (sz - l.length) x)
      (by rw [List.length_replicate]; omega)
    rw [if_pos hup, hw', take_of_length_le (by omega)]
    have hsize := hb.holds.size
    rw [List.length_append, List.length_replicate, Nat.add_sub_cancel' (by omega)] at hsize
    exact ⟨w', congrArg some (setSize_self hsize), hb⟩
  · obtain ⟨w', hw', hlocal, hvalue, hlive⟩ := destroyRange_spec (T := T) (w := w) (v := v)
      (show sz ≤ l.length by omega) h.fits
    have hlen : (l.take sz).length = sz := length_take_of_le (by omega)
    have hb := hlocal.setSize (N := N) (T := T) (l := l.take sz) (n := l.length) (by omega)
      (fun i hi => ?_) fun (_ : True) => by rwa [hlen]
    · rw [hlen] at hb
      rw [if_neg hup, hw', show sz - l.length = 0 by omega, replicate_zero, append_nil]
      exact ⟨_, rfl, hb⟩
    · rw [hvalue, getElem?_take_of_lt (by omega)]
      exact h.value i (by omega)

theorem resize_spec (sz : ℕ) (hl : sz ≤ N) : ∃ w', resize N T v sz w = some w' ∧
      Becomes N T v l.length (l.take sz ++ List.replicate (sz - l.length) T.default) True w w' := by
  rw [resize, h.sized, if_pos hl]
  by_cases hup : l.length < sz
  · rw [if_pos hup, take_of_length_le (by omega)]
    exact pushAll_spec hN h _ (by rw [List.length_replicate]; omega)
  rw [if_neg hup, show sz - l.length = 0 by omega, replicate_zero, append_nil]
  by_cases hdown : sz < l.length
  · rw [if_pos hdown]
    have hspec := eraseRange_spec (T := T) hN h (show sz ≤ l.length by omega) (le_refl _)
    rwa [drop_length, append_nil] at hspec
  · rw [if_neg hdown, take_of_length_le (by omega)]
    exact ⟨w, rfl, .refl h⟩

/-! ## `assign` -/

omit hN h in
/-- Both overloads write the new values over the front; what stands behind them stays. -/
theorem getElem?_overwritten (xs l : List α) (f g : ℕ → α) (hxs : ∀ i < xs.length, xs[i]? = some (f i))
    (hl : ∀ i < l.length, l[i]? = some (g i)) (hfg : ∀ i, xs.length ≤ i → f i = g i) (i : ℕ)
    (hi : i < max l.length xs.length) : (xs ++ l.drop xs.length)[i]? = some (f i) := by
  by_cases hix : i < xs.length
  · rw [getElem?_append_left hix, hxs i hix]
  · rw [getElem?_append_right (by omega), getElem?_drop,
      show xs.length + (i - xs.length) = i by omega, hl i (by omega), hfg i (by omega)]

omit hN h in
theorem length_overwritten (xs l : List α) :
    (xs ++ l.drop xs.length).length = max l.length xs.length := by
  rw [List.length_append, length_drop]
  omega

omit hN in
/-- A loop that assigns the elements of `xs` one after the other and has the size grow as it goes. -/
theorem overwrite_spec (xs : List α) (round : World α → ℕ → Option (World α)) (grown : ℕ → ℕ)
    (hl : xs.length ≤ N) (hend : grown xs.length = max l.length xs.length)
    (hround : ∀ k < xs.length, ∀ c : World α, c.size v = some (grown k) → round c k =
      xs[k]?.bind fun x => assignAt N v k x (c.setSize v (some (grown (k + 1))))) :
    ∃ w', (List.range xs.length).foldlM round (w.setSize v (some (grown 0))) = some w' ∧
      Becomes N T v l.length (xs ++ l.drop xs.length) (xs.length ≤ l.length) w w' := by
  have hfits := h.fits
  have hlen := length_overwritten xs l
  obtain ⟨w', hw', hmoved, hdone, hrest⟩ := Loops.exists_foldlM_range
    (fun k w' => Moved v (∀ i < k, w.live v i = true) (w.setSize v (some (grown k))) w' ∧
      (∀ i < k, xs[i]? = some (w'.value v i)) ∧ ∀ i, k ≤ i → w'.value v i = w.value v i)
    round xs.length (c := w.setSize v (some (grown 0))) ⟨.refl _ _, nofun, fun _ _ => rfl⟩ (by
      rintro k hk c ⟨hmoved, hdone, hrest⟩
      have hget : xs[k]? = some xs[k] := getElem?_eq_getElem hk
      obtain ⟨c', hc', hstep, hvalue⟩ := assignAt_spec (v := v) (x := xs[k])
        (w := c.setSize v (some (grown (k + 1)))) (show k < N by omega)
      have hsized : Moved v (∀ i < k, w.live v i = true) (w.setSize v (some (grown (k + 1))))
          (c.setSize v (some (grown (k + 1)))) :=
        { hmoved with size := by simp [World.setSize, hmoved.size] }
      refine ⟨c', ?_, ?_, ?_, ?_⟩
      · rw [hround k hk c (by simp [hmoved.size, World.setSize]), hget, bind_some, hc']
      · exact hsized.trans hstep (fun hk i hi => hk i (by omega))
          fun hk => (hmoved.live k).trans (hk k (by omega))
      · intro i hi
        rw [hvalue]
        by_cases hik : i = k
        · rw [if_pos hik, hik, hget]
        · rw [if_neg hik]
          exact hdone i (by omega)
      · intro i hi
        rw [hvalue, if_neg (by omega)]
        exact hrest i (by omega))
  refine ⟨w', hw', ⟨?_, by omega, ?_⟩, ?_, hmoved.other, ?_⟩
  · simp [hmoved.size, World.setSize, hend, hlen]
  · exact fun i hi => getElem?_overwritten xs l _ _ hdone h.value hrest i (hlen ▸ hi)
  · intro u hu
    simp [hmoved.size, World.setSize, hu]
  · intro hshort _ hlive
    refine ⟨fun i => ?_, hmoved.sound fun i hi => (hlive i).trans (decide_eq_true (by omega))⟩
    rw [hmoved.live, hlen, max_eq_left hshort]
    exact hlive i

theorem assignRange_spec (xs : List α) (hl : xs.length ≤ N) : ∃ w', assignRange N v xs w = some w' ∧
      Becomes N T v l.length (xs ++ l.drop xs.length) (xs.length ≤ l.length) w w' := by
  have hspec := overwrite_spec (T := T) h xs (assignRound N v xs) (max l.length) hl rfl ?_
  · rw [max_eq_left (zero_le _), setSize_self h.size] at hspec
    rwa [assignRange, h.sized]
  intro k hk c hc
  have hgrow : max (max l.length k) (k + 1) = max l.length (k + 1) := by omega
  rw [assignRound, StaticVector.sized, hc, bind_some, if_pos (by omega),
    narrow_of_le hN (by omega), hgrow]
  exact if_pos (by omega)

theorem assignN_spec (count : ℕ) (x : α) (hl : count ≤ N) : ∃ w', assignN N v count x w = some w' ∧
      Becomes N T v l.length (List.replicate count x ++ l.drop count) (count ≤ l.length) w w' := by
  have hcount : (List.replicate count x).length = count := List.length_replicate
  have hspec := overwrite_spec (T := T) h (List.replicate count x)
    (fun w i => if i < max l.length count then assignAt N v i x w else none)
    (fun _ => max l.length count) (by omega) (by rw [hcount]) ?_
  · rw [hcount] at hspec
    rwa [assignN, h.sized, if_pos hl, narrow_of_le hN hl]
  intro k hk c hc
  rw [getElem?_replicate_of_lt (by omega), bind_some, setSize_self hc]
  exact if_pos (by omega)

end Ichor.StaticVector
