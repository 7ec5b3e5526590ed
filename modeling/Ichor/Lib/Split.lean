import Mathlib.Data.List.Infix

/-! Texts as lists over any alphabet: the first occurrence of a delimiter, and the pieces
between the occurrences that are met from the left. A delimiter that does not overlap itself
is found exactly where a text without it is joined to it. -/
namespace Delimited
open List

universe u

variable {α : Type u} [DecidableEq α]

/-- The text before and the text behind the first occurrence of the delimiter. -/
def cut (d : List α) : List α → Option (List α × List α)
  | [] => if d = [] then some ([], []) else none
  | a :: s =>
    if d.isPrefixOf (a :: s) then some ([], (a :: s).drop d.length)
    else (cut d s).map fun x => (a :: x.1, x.2)

/-- The position of the first occurrence. -/
def find (d s : List α) : Option ℕ := (cut d s).map fun x => x.1.length

/-- The pieces, with fuel for the length of the text. -/
def pieces (d : List α) : ℕ → List α → List (List α)
  | 0, _ => []
  | _, [] => []
  | n + 1, s =>
    match cut d s with
    | none => [s]
    | some (p, r) => p :: pieces d n r

/-- The pieces of a text between the delimiters; a delimiter at the end closes the last piece. -/
def split (d s : List α) : List (List α) := pieces d s.length s

/-- No occurrence of the delimiter begins in the text when the delimiter follows it. -/
def Free (d p : List α) : Prop := ¬d <:+: p ++ d.dropLast

/-- The delimiter does not overlap itself. -/
def Unbordered (d : List α) : Prop := ∀ q, q <+: d → q <:+ d → q = [] ∨ q = d

/-! ## The first occurrence -/

variable {d s p r : List α}

theorem cut_of_start (h : d <+: s) : cut d s = some ([], s.drop d.length) := by
  cases s with
  | nil =>
    have hd : d = [] := prefix_nil.mp h
    subst hd
    rfl
  | cons a s => simp [cut, isPrefixOf_iff_prefix.mpr h]

theorem cut_cons_of_not_start {a : α} (h : ¬d <+: a :: s) :
    cut d (a :: s) = (cut d s).map fun x => (a :: x.1, x.2) := by
  have hfalse : d.isPrefixOf (a :: s) = false := by
    rw [← Bool.not_eq_true, isPrefixOf_iff_prefix]
    exact h
  simp [cut, hfalse]

theorem cut_eq_append (h : cut d s = some (p, r)) : s = p ++ d ++ r := by
  induction s generalizing p r with
  | nil =>
    by_cases hd : d = []
    · subst hd
      simp only [cut, if_true, Option.some.injEq, Prod.mk.injEq] at h
      simp [← h.1, ← h.2]
    · simp [cut, hd] at h
  | cons a s ih =>
    by_cases hp : d <+: a :: s
    · rw [cut_of_start hp, Option.some.injEq, Prod.mk.injEq] at h
      rw [← h.1, ← h.2, nil_append]
      exact (prefix_iff_eq_append.mp hp).symm
    · rw [cut_cons_of_not_start hp] at h
      obtain ⟨⟨p', r'⟩, hcut, heq⟩ := Option.map_eq_some_iff.mp h
      rw [Prod.mk.injEq] at heq
      rw [← heq.1, ← heq.2, ih hcut]
      simp

theorem cut_eq_none : cut d s = none ↔ ¬d <:+: s := by
  induction s with
  | nil =>
    by_cases hd : d = [] <;> simp [cut, hd]
  | cons a s ih =>
    by_cases hp : d <+: a :: s
    · simp [cut_of_start hp, hp.isInfix]
    · rw [cut_cons_of_not_start hp, Option.map_eq_none_iff, ih, infix_cons_iff]
      simp [hp]

theorem cut_append (h : cut d s = some (p, r)) (t : List α) :
    cut d (s ++ t) = some (p, r ++ t) := by
  induction s generalizing p r with
  | nil =>
    have hd := cut_eq_append h
    simp only [nil_eq, append_eq_nil_iff] at hd
    obtain ⟨⟨hp, hd⟩, hr⟩ := hd
    subst hp hd hr
    rw [cut_of_start nil_prefix]
    rfl
  | cons a s ih =>
    by_cases hp : d <+: a :: s
    · have hlen : d.length ≤ (a :: s).length := hp.length_le
      rw [cut_of_start hp, Option.some.injEq, Prod.mk.injEq] at h
      rw [cut_of_start (hp.trans (prefix_append _ t)), drop_append_of_le_length hlen, ← h.1, ← h.2]
    · have hlen : d.length ≤ (a :: s).length := by
        have heq := congrArg List.length (cut_eq_append h)
        simp only [length_append] at heq
        omega
      have hp' : ¬d <+: (a :: s) ++ t := fun hpre =>
        hp (prefix_of_prefix_length_le hpre (prefix_append _ t) hlen)
      rw [cut_cons_of_not_start hp] at h
      obtain ⟨⟨p', r'⟩, hcut, heq⟩ := Option.map_eq_some_iff.mp h
      rw [Prod.mk.injEq] at heq
      rw [cons_append] at hp' ⊢
      rw [cut_cons_of_not_start hp', ih hcut]
      simp [← heq.1, ← heq.2]

/-! ## Joining a text to the delimiter -/

theorem cut_of_free (h : Free d p) (r : List α) : cut d (p ++ d ++ r) = some (p, r) := by
  induction p with
  | nil =>
    rw [nil_append, cut_of_start (prefix_append d r), drop_left]
  | cons a p ih =>
    have hfree : Free d p := fun hin => h (hin.trans (suffix_cons a _).isInfix)
    have hp : ¬d <+: a :: (p ++ d ++ r) := by
      intro hpre
      have hshort : a :: (p ++ d.dropLast) <+: a :: (p ++ d ++ r) := by
        rw [append_assoc, cons_prefix_cons]
        refine ⟨rfl, (prefix_append_right_inj p).mpr ?_⟩
        exact ( dropLast_prefix d).trans (prefix_append d r)
      have hlen : d.length ≤ (a :: (p ++ d.dropLast)).length := by
        simp only [length_cons, length_append, length_dropLast]
        omega
      exact h (prefix_of_prefix_length_le hpre hshort hlen).isInfix
    rw [cons_append, cons_append, cut_cons_of_not_start hp, ih hfree]
    rfl

omit [DecidableEq α] in
theorem Unbordered.free (hd : Unbordered d) (h : ¬d <:+: p) : Free d p := by
  rintro ⟨x, y, hxy⟩
  -- the occurrence ends inside the copy of the delimiter behind the text
  by_cases hlen : (x ++ d).length ≤ p.length
  · have hpre : x ++ d <+: p :=
      prefix_of_prefix_length_le ⟨y, hxy⟩ (prefix_append p _) hlen
    exact h ((suffix_append x d).isInfix.trans hpre.isInfix)
  · have hp : p <+: x ++ d :=
      prefix_of_prefix_length_le (prefix_append p _) ⟨y, hxy⟩ (by omega)
    obtain ⟨q, hq⟩ := hp
    have hqy : q ++ y = d.dropLast := by
      rw [← hq, append_assoc] at hxy
      exact append_cancel_left hxy
    have hpref : q <+: d := (prefix_append q y).trans (hqy ▸ dropLast_prefix d)
    have hlens := congrArg List.length hxy
    have hlenq := congrArg List.length hq
    simp only [length_append, length_dropLast] at hlens hlenq hlen
    have hsuff : q <:+ d :=
      suffix_of_suffix_length_le (hq ▸ suffix_append p q) (suffix_append x d) (by omega)
    have hd0 : d ≠ [] := by
      rintro rfl
      exact h nil_infix
    have hdpos : 0 < d.length := length_pos_of_ne_nil hd0
    rcases hd q hpref hsuff with hnil | heq
    · have hq0 : q.length = 0 := by rw [hnil]; rfl
      omega
    · have hqd : q.length = d.length := by rw [heq]
      omega

theorem free_of_cut (h : cut d s = some (p, r)) (hd : d ≠ []) : Free d p := by
  induction s generalizing p r with
  | nil => simp [cut, hd] at h
  | cons a s ih =>
    by_cases hp : d <+: a :: s
    · rw [cut_of_start hp, Option.some.injEq, Prod.mk.injEq] at h
      intro hin
      have hlen := hin.length_le
      have hpos := length_pos_of_ne_nil hd
      rw [← h.1, nil_append, length_dropLast] at hlen
      omega
    · have heq := cut_eq_append h
      rw [cut_cons_of_not_start hp] at h
      obtain ⟨⟨p', r'⟩, hcut, hpr⟩ := Option.map_eq_some_iff.mp h
      rw [Prod.mk.injEq] at hpr
      intro hin
      rw [← hpr.1, cons_append, infix_cons_iff] at hin
      rcases hin with hpre | hin
      · refine hp (hpre.trans ?_)
        rw [heq, ← hpr.1, append_assoc, cons_append, cons_prefix_cons]
        refine ⟨rfl, (prefix_append_right_inj _).mpr ?_⟩
        exact ( dropLast_prefix d).trans (prefix_append d r)
      · exact ih hcut hin

omit [DecidableEq α] in
theorem unbordered_singleton (a : α) : Unbordered [a] := by
  intro q hpre _
  rcases prefix_cons_iff.mp hpre with hq | ⟨t, hq, ht⟩
  · exact .inl hq
  · rw [prefix_nil.mp ht] at hq
    exact .inr hq

omit [DecidableEq α] in
theorem unbordered_pair {a b : α} (h : a ≠ b) : Unbordered [a, b] := by
  intro q hpre hsuf
  rcases prefix_cons_iff.mp hpre with hq | ⟨t, hq, ht⟩
  · exact .inl hq
  · rcases prefix_cons_iff.mp ht with ht | ⟨t', ht, ht'⟩
    · -- the border would be the first letter, which is not the last one
      rw [hq, ht] at hsuf
      obtain ⟨x, hx⟩ := hsuf
      have hlast := congrArg List.getLast? hx
      simp only [getLast?_append_of_ne_nil, ne_eq, cons_ne_self, not_false_eq_true,
        getLast?_singleton] at hlast
      exact absurd (by simpa using hlast) h
    · rw [ht, prefix_nil.mp ht'] at hq
      exact .inr hq

/-! ## Pieces -/

theorem pieces_nil (d : List α) (n : ℕ) : pieces d n [] = [] := by
  cases n <;> rfl

theorem pieces_eq (hd : d ≠ []) {n m : ℕ} (hn : s.length ≤ n)
    (hm : s.length ≤ m) : pieces d n s = pieces d m s := by
  induction n generalizing m s with
  | zero =>
    have hs : s = [] := eq_nil_of_length_eq_zero (by omega)
    rw [hs, pieces_nil, pieces_nil]
  | succ n ih =>
    cases s with
    | nil => rw [pieces_nil, pieces_nil]
    | cons a s =>
      cases m with
      | zero => simp at hm
      | succ m =>
        cases hcut : cut d (a :: s) with
        | none => simp [pieces, hcut]
        | some x =>
          obtain ⟨p, r⟩ := x
          have hlen := congrArg List.length (cut_eq_append hcut)
          have hpos := length_pos_of_ne_nil hd
          simp only [length_append] at hlen
          have htail := ih (m := m) (s := r) (by omega) (by omega)
          simp [pieces, hcut, htail]

theorem split_nil (d : List α) : split d [] = [] := rfl

theorem split_of_cut (hd : d ≠ []) (h : cut d s = some (p, r)) : split d s = p :: split d r := by
  have hlen := congrArg List.length (cut_eq_append h)
  have hpos := length_pos_of_ne_nil hd
  simp only [length_append] at hlen
  cases s with
  | nil =>
    simp only [length_nil] at hlen
    omega
  | cons a s =>
    have htail : pieces d s.length r = pieces d r.length r :=
      pieces_eq hd (by simp only [length_cons] at hlen; omega) le_rfl
    simp [split, pieces, h, htail]

theorem split_of_uncut (h : ¬d <:+: s) (hs : s ≠ []) : split d s = [s] := by
  cases s with
  | nil => exact absurd rfl hs
  | cons a s => simp [split, pieces, cut_eq_none.mpr h]

theorem split_append (hd : d ≠ []) (h : Free d p) (r : List α) :
    split d (p ++ d ++ r) = p :: split d r :=
  split_of_cut hd (cut_of_free h r)

theorem split_flatMap (hd : d ≠ []) (ls : List (List α)) (h : ∀ l ∈ ls, Free d l)
    (r : List α) : split d (ls.flatMap (· ++ d) ++ r) = ls ++ split d r := by
  induction ls with
  | nil => rfl
  | cons l ls ih =>
    rw [flatMap_cons, append_assoc, split_append hd (h l mem_cons_self),
      ih fun l' hl' => h l' (mem_cons_of_mem l hl'), cons_append]

theorem flatMap_split (hd : d ≠ []) (hb : Unbordered d)
    (h : d <:+ s) : (split d s).flatMap (· ++ d) = s ∧ ∀ l ∈ split d s, Free d l := by
  induction hn : s.length using Nat.strong_induction_on generalizing s with
  | _ n ih =>
    cases hcut : cut d s with
    | none => exact absurd h.isInfix (cut_eq_none.mp hcut)
    | some x =>
      obtain ⟨p, r⟩ := x
      have heq := cut_eq_append hcut
      have hlen := congrArg List.length heq
      have hpos := length_pos_of_ne_nil hd
      simp only [length_append] at hlen
      rw [split_of_cut hd hcut]
      by_cases hr : r = []
      · subst hr
        simp only [split_nil, flatMap_cons, flatMap_nil, mem_singleton]
        exact ⟨heq.symm, fun l hl => hl ▸ free_of_cut hcut hd⟩
      · have hsuf : d <:+ r := by
          by_cases hshort : d.length ≤ r.length
          · exact suffix_of_suffix_length_le h (heq ▸ suffix_append (p ++ d) r) hshort
          · -- the last occurrence would overlap the first one
            have hrd : r <:+ d := suffix_of_suffix_length_le
              (heq ▸ suffix_append (p ++ d) r) h (by omega)
            obtain ⟨q, hq⟩ := hrd
            have hqd : q <:+ d := by
              have hdr : q ++ r <:+ d ++ r := by
                rw [hq]
                rw [heq, append_assoc] at h
                exact suffix_of_suffix_length_le h (suffix_append p _) (by simp)
              obtain ⟨x, hx⟩ := hdr
              rw [← append_assoc] at hx
              exact ⟨x, append_cancel_right hx⟩
            have hlens := congrArg List.length hq
            have hrpos := length_pos_of_ne_nil hr
            simp only [length_append] at hlens
            rcases hb q ⟨r, hq⟩ hqd with hnil | hall
            · have hq0 : q.length = 0 := by rw [hnil]; rfl
              omega
            · have hqd' : q.length = d.length := by rw [hall]
              omega
        obtain ⟨hjoin, hfree⟩ := ih r.length (by omega) hsuf rfl
        rw [flatMap_cons, hjoin]
        refine ⟨heq.symm, fun l hl => ?_⟩
        rcases mem_cons.mp hl with rfl | hl
        · exact free_of_cut hcut hd
        · exact hfree l hl

omit [DecidableEq α] in
theorem Free.not_infix (h : Free d p) : ¬d <:+: p :=
  fun hd => h (hd.trans (prefix_append p d.dropLast).isInfix)

/-- A piece is a part of the text and holds no delimiter. -/
theorem mem_split (hd : d ≠ []) (h : p ∈ split d s) : p <:+: s ∧ ¬d <:+: p := by
  induction hn : s.length using Nat.strong_induction_on generalizing s with
  | _ n ih =>
    cases hcut : cut d s with
    | none =>
      by_cases hs : s = []
      · simp [hs, split_nil] at h
      · rw [split_of_uncut (cut_eq_none.mp hcut) hs, mem_singleton] at h
        subst h
        exact ⟨infix_rfl, cut_eq_none.mp hcut⟩
    | some x =>
      have heq := cut_eq_append hcut
      have hlen := congrArg List.length heq
      have hpos := length_pos_of_ne_nil hd
      simp only [length_append] at hlen
      rw [split_of_cut hd hcut, mem_cons] at h
      rcases h with rfl | h
      · rw [heq, append_assoc]
        exact ⟨(prefix_append _ _).isInfix, Free.not_infix (free_of_cut hcut hd)⟩
      · obtain ⟨hin, hfree⟩ := ih _ (by omega) h rfl
        rw [heq]
        exact ⟨hin.trans (suffix_append _ _).isInfix, hfree⟩

theorem split_ne_nil (hd : d ≠ []) (hs : s ≠ []) : split d s ≠ [] := by
  cases hcut : cut d s with
  | none => simp [split_of_uncut (cut_eq_none.mp hcut) hs]
  | some x => simp [split_of_cut hd hcut]

/-- Joining the pieces gives the text back, but for a delimiter at its very end. -/
theorem intercalate_split (hd : d ≠ []) (s : List α) :
    d.intercalate (split d s) = s ∨ d.intercalate (split d s) ++ d = s := by
  induction hn : s.length using Nat.strong_induction_on generalizing s with
  | _ n ih =>
    cases hcut : cut d s with
    | none =>
      left
      by_cases hs : s = []
      · simp [hs, split_nil]
      · simp [split_of_uncut (cut_eq_none.mp hcut) hs]
    | some x =>
      obtain ⟨p, r⟩ := x
      have happ := cut_eq_append hcut
      have hlen := congrArg List.length happ
      have hpos := length_pos_of_ne_nil hd
      simp only [length_append] at hlen
      rw [split_of_cut hd hcut]
      by_cases hr : r = []
      · right
        simp [hr, split_nil, happ]
      · have hrest := ih r.length (by omega) r rfl
        have hcons : d.intercalate (p :: split d r) = p ++ d ++ d.intercalate (split d r) := by
          obtain ⟨q, qs, hq⟩ := exists_cons_of_ne_nil (split_ne_nil hd hr)
          simp [hq, List.intercalate]
        rw [hcons]
        exact hrest.imp (fun h => by rw [h, happ]) (fun h => by rw [append_assoc, h, happ])

/-! ## Two delimiters in a row -/

theorem cut_skip {x : List α} (h : ∀ y, y <:+ x → y ≠ [] → ¬d <+: y ++ r) :
    cut d (x ++ r) = (cut d r).map fun c => (x ++ c.1, c.2) := by
  induction x with
  | nil => simp
  | cons a x ih =>
    have hp : ¬d <+: a :: (x ++ r) := h (a :: x) suffix_rfl (by simp)
    have hx := ih fun y hy hne => h y (hy.trans (suffix_cons a x)) hne
    rw [cons_append, cut_cons_of_not_start hp, hx, Option.map_map]
    rfl

omit [DecidableEq α] in
theorem Free.not_start {y : List α} (h : Free d p) (hy : y <:+ p) (hne : y ≠ [])
    (r : List α) : ¬d <+: y ++ d ++ r := by
  intro hpre
  have hshort : y ++ d.dropLast <+: y ++ d ++ r := by
    rw [append_assoc]
    exact (prefix_append_right_inj y).mpr (( dropLast_prefix d).trans (prefix_append d r))
  have hlen : d.length ≤ (y ++ d.dropLast).length := by
    have hpos := length_pos_of_ne_nil hne
    simp only [length_append, length_dropLast]
    omega
  have hin := (prefix_of_prefix_length_le hpre hshort hlen).isInfix
  obtain ⟨x, hx⟩ := hy
  refine h (hin.trans ?_)
  rw [← hx, append_assoc]
  exact (suffix_append x _).isInfix

theorem cut_double (h : Free d p) (r : List α) :
    cut (d ++ d) (p ++ d ++ (d ++ r)) = some (p, r) := by
  have hskip : ∀ y, y <:+ p → y ≠ [] → ¬d ++ d <+: y ++ (d ++ (d ++ r)) := by
    intro y hy hne hpre
    refine h.not_start hy hne (d ++ r) ?_
    rw [append_assoc]
    exact (prefix_append d d).trans hpre
  rw [append_assoc, cut_skip hskip]
  have hhere : d ++ d <+: d ++ (d ++ r) := by
    rw [← append_assoc]
    exact prefix_append _ _
  rw [cut_of_start hhere, ← append_assoc, drop_left]
  simp

theorem cut_double_skip (hb : Unbordered d) (h : Free d p) (hr : ¬d <+: r) :
    cut (d ++ d) (p ++ d ++ r) = (cut (d ++ d) r).map fun c => (p ++ d ++ c.1, c.2) := by
  apply cut_skip
  intro y hy hne hpre
  by_cases hlen : y.length ≤ d.length
  · have hyd : y <:+ d := suffix_of_suffix_length_le hy (suffix_append p d) hlen
    -- the first of the two begins inside the delimiter, so at its start
    have hyp : y <+: d := prefix_of_prefix_length_le (prefix_append y r)
      ((prefix_append d d).trans hpre) hlen
    rcases hb y hyp hyd with hnil | hall
    · exact hne hnil
    · rw [hall] at hpre
      exact hr ((prefix_append_right_inj d).mp hpre)
  · obtain ⟨x, hx⟩ := hy
    have hd : d <:+ y := suffix_of_suffix_length_le (hx ▸ suffix_append p d)
      (suffix_append x y) (by omega)
    obtain ⟨z, hz⟩ := hd
    have hzp : z <:+ p := by
      rw [← hz, ← append_assoc] at hx
      exact ⟨x, append_cancel_right hx⟩
    have hzne : z ≠ [] := by
      rintro rfl
      rw [nil_append] at hz
      rw [hz] at hlen
      exact hlen (le_refl _)
    rw [← hz] at hpre
    exact h.not_start hzp hzne r ((prefix_append d d).trans hpre)

theorem cut_double_flatMap (hb : Unbordered d) (ls : List (List α))
    (hls : ls ≠ []) (h : ∀ l ∈ ls, Free d l ∧ l ≠ []) (r : List α) :
    ∃ p, cut (d ++ d) (ls.flatMap (· ++ d) ++ (d ++ r)) = some (p, r) ∧
      p ++ d = ls.flatMap (· ++ d) := by
  induction ls with
  | nil => exact absurd rfl hls
  | cons l ls ih =>
    obtain ⟨hfree, hne⟩ := h l mem_cons_self
    cases ls with
    | nil =>
      refine ⟨l, ?_, by simp⟩
      simp only [flatMap_cons, flatMap_nil, append_nil]
      exact cut_double hfree r
    | cons l' ls =>
      obtain ⟨hfree', hne'⟩ := h l' (mem_cons_of_mem l mem_cons_self)
      obtain ⟨p, hcut, hp⟩ := ih (by simp) fun x hx => h x (mem_cons_of_mem l hx)
      have hr : ¬d <+: (l' :: ls).flatMap (· ++ d) ++ (d ++ r) := by
        intro hpre
        rw [flatMap_cons, append_assoc] at hpre
        exact hfree'.not_start suffix_rfl hne' _ hpre
      refine ⟨l ++ d ++ p, ?_, ?_⟩
      · rw [flatMap_cons, append_assoc, cut_double_skip hb hfree hr, hcut]
        rfl
      · rw [flatMap_cons, ← hp, append_assoc]

end Delimited
