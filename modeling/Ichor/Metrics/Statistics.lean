import Mathlib.Algebra.BigOperators.Group.List.Basic
import Mathlib.Algebra.Order.Ring.Int

/-! `EventStatisticsService`: the processing times of the events are collected in intervals, an
interval is folded into one record, and the report folds the records. Times are differences of one
monotone 64 bit clock, so that their sums stay in its range. -/
namespace Ichor
open List

/-- The entry that `std::min_element` or `std::max_element` finds, or the sum: the operation over
a non-empty list. -/
def foldOf (op : ℤ → ℤ → ℤ) : List ℤ → ℤ
  | [] => 0
  | x :: xs => xs.foldl op x

/-- The record of an interval. Its timestamp is left out, since nothing reads it. -/
structure AveragedStatisticEntry where
  minProcessingTimeRequired : ℤ
  maxProcessingTimeRequired : ℤ
  avgProcessingTimeRequired : ℤ
  occurrences : ℤ

/-- The line of the report for one event type. -/
structure StatisticReport where
  occ : ℤ
  min : ℤ
  max : ℤ
  avg : ℤ
  deriving DecidableEq

/-- The statistics by event type; `recent` has the processing times of the open interval. -/
structure EventStatistics where
  startProcessingTimestamp : ℤ
  recentEventStatistics : ℕ → List ℤ
  averagedStatistics : ℕ → List AveragedStatisticEntry

namespace EventStatistics

def initial : EventStatistics := ⟨0, fun _ => [], fun _ => []⟩

def preInterceptEvent (s : EventStatistics) (now : ℤ) : EventStatistics :=
  { s with startProcessingTimestamp := now }

def postInterceptEvent (s : EventStatistics) (type : ℕ) (processed : Bool) (now : ℤ) :
    EventStatistics :=
  if ¬processed then s
  else { s with
    recentEventStatistics := Function.update s.recentEventStatistics type
      (s.recentEventStatistics type ++ [now - s.startProcessingTimestamp]) }

/-- One interval as a record. -/
def average (times : List ℤ) : AveragedStatisticEntry :=
  ⟨foldOf Min.min times, foldOf Max.max times, (times.foldl (· + ·) 0).tdiv times.length,
    times.length⟩

def calculateAverage (s : EventStatistics) : EventStatistics :=
  { s with
    recentEventStatistics := fun _ => []
    averagedStatistics := fun key =>
      if s.recentEventStatistics key = [] then s.averagedStatistics key
      else s.averagedStatistics key ++ [average (s.recentEventStatistics key)] }

/-- The report that `stop` writes; a type without records is left out. -/
def report (records : List AveragedStatisticEntry) : Option StatisticReport :=
  if records = [] then none
  else some ⟨(records.map AveragedStatisticEntry.occurrences).foldl (· + ·) 0,
    foldOf Min.min (records.map AveragedStatisticEntry.minProcessingTimeRequired),
    foldOf Max.max (records.map AveragedStatisticEntry.maxProcessingTimeRequired),
    ((records.map AveragedStatisticEntry.avgProcessingTimeRequired).foldl (· + ·) 0).tdiv
      records.length⟩

inductive Act where
  | event (type : ℕ) (start now : ℤ) (processed : Bool)
  /-- The timer ends an averaging interval. -/
  | interval

def act (s : EventStatistics) : Act → EventStatistics
  | .event type start now processed => (s.preInterceptEvent start).postInterceptEvent type processed now
  | .interval => s.calculateAverage

def stop (s : EventStatistics) (key : ℕ) : Option StatisticReport :=
  report (s.calculateAverage.averagedStatistics key)

/-- The report of a whole run. -/
def runReport (acts : List Act) (key : ℕ) : Option StatisticReport :=
  (acts.foldl act initial).stop key

/-! ## What is asked for -/

/-- The processing times of a type over the whole run. -/
def times (key : ℕ) : List Act → List ℤ
  | [] => []
  | .event type start now processed :: rest =>
    if processed ∧ type = key then (now - start) :: times key rest else times key rest
  | .interval :: rest => times key rest

/-- The report over all times at once. -/
def wholeReport (l : List ℤ) : Option StatisticReport :=
  if l = [] then none
  else some ⟨l.length, foldOf Min.min l, foldOf Max.max l, l.sum.tdiv l.length⟩

/-- The times of a type, cut at the ends of the intervals; `current` are those of the open one. -/
def groups (key : ℕ) : List Act → List ℤ → List (List ℤ)
  | [], current => if current = [] then [] else [current]
  | .event type start now processed :: rest, current =>
    groups key rest (if processed ∧ type = key then current ++ [now - start] else current)
  | .interval :: rest, current =>
    (if current = [] then [] else [current]) ++ groups key rest []

/-- The average does not notice the intervals: only one has events of the type, or all have the same
number of them and a whole-number average. -/
def Even (gs : List (List ℤ)) : Prop :=
  gs.length ≤ 1 ∨ ∃ k : ℕ, ∀ g ∈ gs, g.length = k ∧ (k : ℤ) ∣ g.sum

theorem groups_ne_nil (key : ℕ) (acts : List Act) (current : List ℤ) :
    ∀ g ∈ groups key acts current, g ≠ [] := by
  induction acts generalizing current with
  | nil =>
    intro g hg
    simp only [groups] at hg
    split_ifs at hg with hnil
    · cases hg
    · rw [mem_singleton.mp hg]
      exact hnil
  | cons a rest ih =>
    cases a with
    | event type start now processed => exact ih _
    | interval =>
      intro g hg
      rcases mem_append.mp hg with hg | hg
      · split_ifs at hg with hnil
        · cases hg
        · rw [mem_singleton.mp hg]
          exact hnil
      · exact ih [] g hg

theorem flatten_groups (key : ℕ) (acts : List Act) (current : List ℤ) :
    (groups key acts current).flatten = current ++ times key acts := by
  induction acts generalizing current with
  | nil =>
    by_cases hnil : current = []
    · simp [groups, times, hnil]
    · simp [groups, times, hnil]
  | cons a rest ih =>
    cases a with
    | event type start now processed =>
      by_cases hkey : processed = true ∧ type = key
      · simp [groups, times, hkey, ih]
      · simp [groups, times, hkey, ih]
    | interval =>
      by_cases hnil : current = []
      · simp [groups, times, hnil, ih]
      · simp [groups, times, hnil, ih]

theorem records_eq (key : ℕ) (acts : List Act) (s : EventStatistics) :
    (acts.foldl act s).calculateAverage.averagedStatistics key = s.averagedStatistics key ++
      (groups key acts (s.recentEventStatistics key)).map average := by
  induction acts generalizing s with
  | nil =>
    by_cases hnil : s.recentEventStatistics key = []
    · simp [calculateAverage, groups, hnil]
    · simp [calculateAverage, groups, hnil]
  | cons a rest ih =>
    rw [foldl_cons, ih]
    cases a with
    | event type start stamp processed =>
      have hrecent : (s.act (.event type start stamp processed)).recentEventStatistics key =
          if processed ∧ type = key then s.recentEventStatistics key ++ [stamp - start]
          else s.recentEventStatistics key := by
        cases processed with
        | false => simp [act, postInterceptEvent, preInterceptEvent]
        | true =>
          by_cases hkey : type = key
          · simp [act, postInterceptEvent, preInterceptEvent, hkey]
          · simp [act, postInterceptEvent, preInterceptEvent, Function.update_of_ne (Ne.symm hkey),
              hkey]
      have hkept : (s.act (.event type start stamp processed)).averagedStatistics key =
          s.averagedStatistics key := by
        cases processed <;> rfl
      rw [hrecent, hkept]
      rfl
    | interval =>
      by_cases hnil : s.recentEventStatistics key = []
      · simp [act, groups, hnil, calculateAverage]
      · simp [act, groups, hnil, calculateAverage]

/-! ## Folding in groups -/

theorem foldOf_append (op : ℤ → ℤ → ℤ) [Std.Associative op] {l l' : List ℤ} (hl : l ≠ [])
    (hl' : l' ≠ []) : foldOf op (l ++ l') = op (foldOf op l) (foldOf op l') := by
  obtain ⟨x, xs, rfl⟩ := exists_cons_of_ne_nil hl
  obtain ⟨y, ys, rfl⟩ := exists_cons_of_ne_nil hl'
  show (xs ++ y :: ys).foldl op x = op (xs.foldl op x) (ys.foldl op y)
  rw [foldl_append, foldl_cons, foldl_assoc]

theorem foldOf_groups (op : ℤ → ℤ → ℤ) [Std.Associative op] (gs : List (List ℤ))
    (h : ∀ g ∈ gs, g ≠ []) : foldOf op (gs.map (foldOf op)) = foldOf op gs.flatten := by
  induction gs with
  | nil => rfl
  | cons g rest ih =>
    have hrest := ih fun x hx => h x (mem_cons_of_mem g hx)
    cases rest with
    | nil => simp [foldOf]
    | cons g' rest =>
      have hflat : (g' :: rest).flatten ≠ [] := by
        simp [h g' (by simp)]
      have hmap : foldOf op ((g :: g' :: rest).map (foldOf op)) =
          op (foldOf op g) (foldOf op ((g' :: rest).map (foldOf op))) :=
        foldOf_append op (cons_ne_nil (foldOf op g) []) (cons_ne_nil (foldOf op g') _)
      rw [hmap, hrest]
      exact (foldOf_append op (h g (by simp)) hflat).symm

theorem foldl_add_eq_sum (l : List ℤ) : l.foldl (· + ·) 0 = l.sum := sum_eq_foldl.symm

theorem sum_lengths (gs : List (List ℤ)) :
    (gs.map fun g => (g.length : ℤ)).sum = gs.flatten.length := by
  induction gs with
  | nil => rfl
  | cons g rest ih => simp [ih]

theorem average_of_even (gs : List (List ℤ)) (hne : ∀ g ∈ gs, g ≠ []) (h : Even gs) :
    (gs.map fun g : List ℤ => g.sum.tdiv g.length).sum.tdiv gs.length =
      gs.flatten.sum.tdiv gs.flatten.length := by
  rcases h with hone | ⟨k, hk⟩
  · match gs, hone with
    | [], _ => rfl
    | [g], _ => simp
  · by_cases hnil : gs = []
    · rw [hnil]
      rfl
    have hpos : 0 < (k : ℤ) := by
      obtain ⟨g, rest, rfl⟩ := exists_cons_of_ne_nil hnil
      rw [← (hk g (by simp)).1]
      exact_mod_cast length_pos_of_ne_nil (hne g (by simp))
    have hsum : gs.flatten.sum = k * (gs.map fun g : List ℤ => g.sum.tdiv g.length).sum ∧
        (gs.flatten.length : ℤ) = k * gs.length := by
      clear hnil hne
      induction gs with
      | nil => simp
      | cons g rest ih =>
        obtain ⟨hs, hl⟩ := ih fun x hx => hk x (mem_cons_of_mem g hx)
        obtain ⟨hlen, hdvd⟩ := hk g (by simp)
        constructor
        · simp only [flatten_cons, sum_append, map_cons, sum_cons]
          rw [hs, mul_add, hlen, Int.mul_tdiv_cancel' hdvd]
        · simp only [flatten_cons, length_append, length_cons, Nat.cast_add, hl, hlen, Nat.cast_one]
          rw [mul_add, mul_one, add_comm]
    rw [hsum.1, hsum.2, Int.mul_tdiv_mul_of_pos _ _ hpos]

/-! ## The report of a run -/

end EventStatistics

end Ichor
