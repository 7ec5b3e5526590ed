import Mathlib.Data.List.Nodup
import Mathlib.Data.List.Perm.Basic

/-! Finite tables with unique keys, kept in insertion order: the part of an
unordered map's interface that a shallow embedding of such a container needs
(find, emplace, in-place update, erase), with one lookup equation each. -/
namespace FiniteTable
open List

universe u v

/-- A finite map as the list of its entries; no two entries share a key. -/
structure Table (κ : Type u) (α : Type v) where
  entries : List (κ × α)
  nodup : (entries.map Prod.fst).Nodup

/-! ## Association lists -/

section Assoc
variable {κ : Type u} {α : Type v} [DecidableEq κ]

def assoc (k : κ) : List (κ × α) → Option α
  | [] => none
  | e :: rest => if e.1 = k then some e.2 else assoc k rest

theorem assoc_eq_none (k : κ) (l : List (κ × α)) : assoc k l = none ↔ k ∉ l.map Prod.fst := by
  induction l with
  | nil => simp [assoc]
  | cons e rest ih =>
    by_cases h : e.1 = k
    · simp [assoc, h]
    · simp [assoc, h, ih, Ne.symm h]

theorem assoc_mem (k : κ) (v : α) (l : List (κ × α)) (h : assoc k l = some v) : (k, v) ∈ l := by
  induction l with
  | nil => simp [assoc] at h
  | cons e rest ih =>
    by_cases he : e.1 = k
    · simp only [assoc, he, if_true, Option.some.injEq] at h
      subst he h
      exact mem_cons_self
    · simp only [assoc, he, if_false] at h
      exact mem_cons_of_mem _ (ih h)

theorem assoc_of_mem (k : κ) (v : α) (l : List (κ × α)) (hl : (l.map Prod.fst).Nodup)
    (h : (k, v) ∈ l) : assoc k l = some v := by
  induction l with
  | nil => simp at h
  | cons e rest ih =>
    rw [map_cons, nodup_cons] at hl
    rcases mem_cons.mp h with rfl | h
    · simp [assoc]
    · have hne : e.1 ≠ k := by
        rintro rfl
        exact hl.1 (mem_map.mpr ⟨_, h, rfl⟩)
      simp [assoc, hne, ih hl.2 h]

theorem assoc_append (k : κ) (l r : List (κ × α)) :
    assoc k (l ++ r) = (assoc k l).or (assoc k r) := by
  induction l with
  | nil => simp [assoc]
  | cons e rest ih =>
    by_cases h : e.1 = k
    · simp [assoc, h]
    · simp [assoc, h, ih]

theorem assoc_map (k k' : κ) (f : α → α) (l : List (κ × α)) :
    assoc k (l.map fun e => if e.1 = k' then (e.1, f e.2) else e)
      = if k = k' then (assoc k l).map f else assoc k l := by
  induction l with
  | nil => simp [assoc]
  | cons e rest ih =>
    by_cases hk' : e.1 = k'
    · by_cases hk : e.1 = k
      · have : k = k' := hk ▸ hk'
        simp [assoc, hk', this]
      · have : k ≠ k' := fun h => hk (h ▸ hk')
        simp [assoc, hk', ih, this, Ne.symm this]
    · by_cases hk : e.1 = k
      · have : k ≠ k' := hk ▸ hk'
        simp [assoc, hk, this]
      · simp [assoc, hk', hk, ih]

theorem assoc_filter_ne (k k' : κ) (l : List (κ × α)) :
    assoc k (l.filter fun e => decide (e.1 ≠ k')) = if k = k' then none else assoc k l := by
  induction l with
  | nil => simp [assoc]
  | cons e rest ih =>
    by_cases hk' : e.1 = k'
    · by_cases hk : k = k'
      · simpa [hk', hk] using ih
      · simpa [assoc, hk', hk, Ne.symm hk] using ih
    · by_cases hk : e.1 = k
      · have : k ≠ k' := hk ▸ hk'
        simp [assoc, hk, this]
      · simpa [assoc, hk', hk] using ih

end Assoc

namespace Table
variable {κ : Type u} {α : Type v}

def keys (t : Table κ α) : List κ := t.entries.map Prod.fst

def empty : Table κ α := ⟨[], nodup_nil⟩

def isEmpty (t : Table κ α) : Bool := t.entries.isEmpty

variable [DecidableEq κ]

def get? (t : Table κ α) (k : κ) : Option α := assoc k t.entries

def contains (t : Table κ α) (k : κ) : Bool := (t.get? k).isSome

/-- Insert unless the key is present, as `emplace` of a map does. -/
def emplace (t : Table κ α) (k : κ) (v : α) : Table κ α :=
  if h : k ∈ t.entries.map Prod.fst then t
  else ⟨t.entries ++ [(k, v)], by
    rw [map_append, map_cons, map_nil]
    exact nodup_append.mpr ⟨t.nodup, nodup_singleton k, by
      intro a ha b hb hab
      rw [mem_singleton] at hb
      rw [hab, hb] at ha
      exact h ha⟩⟩

/-- Update the value in place; a missing key changes nothing. -/
def modify (t : Table κ α) (k : κ) (f : α → α) : Table κ α :=
  ⟨t.entries.map fun e => if e.1 = k then (e.1, f e.2) else e, by
    have h : (t.entries.map fun e => if e.1 = k then (e.1, f e.2) else e).map Prod.fst
        = t.entries.map Prod.fst := by
      rw [map_map]
      refine map_congr_left fun e _ => ?_
      by_cases he : e.1 = k <;> simp [he]
    rw [h]
    exact t.nodup⟩

def erase (t : Table κ α) (k : κ) : Table κ α :=
  ⟨t.entries.filter fun e => decide (e.1 ≠ k), t.nodup.sublist (filter_sublist.map Prod.fst)⟩

/-- Write through the key, inserting it when it is missing. -/
def put (t : Table κ α) (k : κ) (v : α) : Table κ α := (t.emplace k v).modify k fun _ => v

/-- Keep the entries whose value passes the test, after mapping every value. -/
def mapFilter (t : Table κ α) (f : α → α) (keep : α → Bool) : Table κ α :=
  ⟨(t.entries.map fun e => (e.1, f e.2)).filter fun e => keep e.2, by
    have h : ((t.entries.map fun e => (e.1, f e.2)).map Prod.fst).Nodup := by
      rw [map_map]
      exact t.nodup
    exact h.sublist (filter_sublist.map Prod.fst)⟩

/-! ## Lookup equations -/

@[simp] theorem get?_empty (k : κ) : (empty : Table κ α).get? k = none := rfl

section
variable (t : Table κ α)

theorem get?_eq_none (k : κ) : t.get? k = none ↔ k ∉ t.keys :=
  assoc_eq_none k t.entries

theorem mem_entries_iff (k : κ) (v : α) : (k, v) ∈ t.entries ↔ t.get? k = some v :=
  ⟨assoc_of_mem k v t.entries t.nodup, assoc_mem k v t.entries⟩

theorem mem_keys_iff (k : κ) : k ∈ t.keys ↔ ∃ v, t.get? k = some v := by
  rw [← not_iff_not, ← get?_eq_none, not_exists, Option.eq_none_iff_forall_not_mem]
  rfl

@[simp] theorem get?_emplace (k k' : κ) (v : α) :
    (t.emplace k' v).get? k = if k = k' then (t.get? k).or (some v) else t.get? k := by
  unfold emplace
  split
  · rename_i h
    by_cases hk : k = k'
    · subst hk
      obtain ⟨w, hw⟩ := (mem_keys_iff t k).mp h
      simp [hw]
    · simp [hk]
  · by_cases hk : k = k'
    · simp [get?, assoc_append, assoc, hk]
    · simp [get?, assoc_append, assoc, hk, Ne.symm hk]

theorem entries_emplace {k : κ} (v : α) (h : k ∉ t.entries.map Prod.fst) :
    (t.emplace k v).entries = t.entries ++ [(k, v)] := by
  simp [emplace, h]

theorem entries_foldl_emplace (l : List (κ × α)) (h : ((t.entries ++ l).map Prod.fst).Nodup) :
    (l.foldl (fun t e => t.emplace e.1 e.2) t).entries = t.entries ++ l := by
  induction l generalizing t with
  | nil => simp
  | cons e l ih =>
    have hfresh : e.1 ∉ t.entries.map Prod.fst := by
      intro hmem
      rw [map_append, nodup_append] at h
      exact h.2.2 e.1 hmem e.1 (by simp) rfl
    have hentries := t.entries_emplace e.2 hfresh
    rw [foldl_cons, ih, hentries, append_assoc]
    · rfl
    · rw [hentries, append_assoc]
      exact h

@[simp] theorem get?_modify (k k' : κ) (f : α → α) :
    (t.modify k' f).get? k = if k = k' then (t.get? k).map f else t.get? k :=
  assoc_map k k' f t.entries

@[simp] theorem get?_erase (k k' : κ) : (t.erase k').get? k = if k = k' then none else t.get? k :=
  assoc_filter_ne k k' t.entries

@[simp] theorem get?_put (k k' : κ) (v : α) :
    (t.put k' v).get? k = if k = k' then some v else t.get? k := by
  by_cases h : k = k'
  · subst h
    cases ht : t.get? k <;> simp [put, ht]
  · simp [put, h]

theorem get?_mapFilter (f : α → α) (keep : α → Bool) (k : κ) (v : α) :
    (t.mapFilter f keep).get? k = some v ↔ ∃ w, t.get? k = some w ∧ f w = v ∧ keep v = true := by
  rw [← mem_entries_iff]
  show (k, v) ∈ (t.entries.map fun e => (e.1, f e.2)).filter (fun e => keep e.2) ↔ _
  rw [mem_filter, mem_map]
  constructor
  · rintro ⟨⟨⟨k', w⟩, hmem, heq⟩, hkeep⟩
    obtain ⟨rfl, rfl⟩ := Prod.mk.inj heq
    exact ⟨w, (mem_entries_iff t k' w).mp hmem, rfl, hkeep⟩
  · rintro ⟨w, hw, rfl, hkeep⟩
    exact ⟨⟨(k, w), (mem_entries_iff t k w).mpr hw, rfl⟩, hkeep⟩

end

theorem modify_of_none (t : Table κ α) (k : κ) (f : α → α) (h : t.get? k = none) :
    t.modify k f = t := by
  have hne : ∀ e ∈ t.entries, e.1 ≠ k := by
    rintro e he rfl
    rw [get?_eq_none] at h
    exact h (mem_map_of_mem he)
  have hmap : (t.entries.map fun e => if e.1 = k then (e.1, f e.2) else e) = t.entries := by
    rw [map_congr_left fun e he => if_neg (hne e he)]
    exact map_id t.entries
  unfold modify
  congr 1

/-! ## Keys -/

@[simp] theorem keys_modify (t : Table κ α) (k : κ) (f : α → α) : (t.modify k f).keys = t.keys := by
  simp only [keys, modify, map_map]
  refine map_congr_left fun e _ => ?_
  by_cases he : e.1 = k <;> simp [he]

theorem exists_get?_modify (t : Table κ α) (k x : κ) (f : α → α) :
    (∃ v, (t.modify k f).get? x = some v) ↔ ∃ v, t.get? x = some v := by
  rw [← mem_keys_iff, keys_modify, mem_keys_iff]

theorem isEmpty_iff (t : Table κ α) : t.isEmpty = true ↔ ∀ k, t.get? k = none := by
  rw [isEmpty, List.isEmpty_iff]
  constructor
  · intro h k
    simp [get?, h, assoc]
  · intro h
    rcases hl : t.entries with _ | ⟨e, rest⟩
    · rfl
    · have := h e.1
      simp [get?, hl, assoc] at this

end Table

end FiniteTable
