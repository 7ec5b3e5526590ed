import Ichor.Lib.Runs
import Mathlib.Data.List.Count
import Mathlib.Data.List.Perm.Basic
import Mathlib.Data.Int.Notation

/-! The counter of `IOUringQueue`: events and submissions are counted when they are pushed or armed,
and taken off by the loop that handles their completions. -/
namespace Ichor
open List

/-- What a pointer in `user_data` stands for: an event for the manager, or the handler of a submission. -/
inductive RingEntry where
  | event (id : ℕ)
  | response (id : ℕ) (multishot : Bool)
  deriving DecidableEq

structure RingCompletion where
  entry : RingEntry
  /-- `IORING_CQE_F_MORE`. -/
  more : Bool
  deriving DecidableEq

structure IOUringQueue where
  /-- `_pendingEvents`, where a value below zero has wrapped. -/
  pendingEvents : ℤ
  quit : Bool
  /-- Entries that were not submitted, that the kernel has, and completions. -/
  sq : List RingEntry
  kernel : List RingEntry
  cq : List RingCompletion
  /-- The completion that the loop is handling. -/
  current : Option RingCompletion
  /-- Events that the manager keeps for a suspended handler. -/
  taken : List ℕ

namespace IOUringQueue

def initial : IOUringQueue := ⟨0, false, [], [], [], none, []⟩

/-- What the loop does behind the handler: `uniqueEvt` is empty when the manager has taken the event over
or more completions follow. -/
def finish (s : IOUringQueue) (suspends : Bool) : RingCompletion → IOUringQueue
  | ⟨.event id, _⟩ =>
    if suspends then { s with current := none, taken := id :: s.taken }
    else { s with current := none, pendingEvents := s.pendingEvents - 1 }
  | ⟨.response _ _, more⟩ =>
    if more then { s with current := none }
    else { s with current := none, pendingEvents := s.pendingEvents - 1 }

inductive Act where
  | pushEvent (id : ℕ) (otherThread : Bool)
  | getSqeWithData (id : ℕ) (multishot : Bool)
  | submit (n : ℕ)
  | complete (index : ℕ) (more : Bool)
  | begin
  | finish (suspends : Bool)
  /-- The manager destroys an event whose handler has come to its end. -/
  | resume (id : ℕ)
  | quit
  /-- A round of the last loop, which deletes whatever the completion points to. -/
  | drain

def act : Act → IOUringQueue → Option IOUringQueue
  | .pushEvent id otherThread, s =>
    if s.quit then some s
    else if otherThread then
      some { s with pendingEvents := s.pendingEvents + 1, kernel := s.kernel ++ [.event id] }
    else some { s with pendingEvents := s.pendingEvents + 1, sq := s.sq ++ [.event id] }
  | .getSqeWithData id multishot, s =>
    some { s with pendingEvents := s.pendingEvents + 1, sq := s.sq ++ [.response id multishot] }
  | .submit n, s => some { s with sq := s.sq.drop n, kernel := s.kernel ++ s.sq.take n }
  | .complete index more, s =>
    match s.kernel[index]? with
    | none => none
    | some entry =>
      if more then
        if entry matches .response _ true then some { s with cq := s.cq ++ [⟨entry, true⟩] } else none
      else some { s with kernel := s.kernel.eraseIdx index, cq := s.cq ++ [⟨entry, false⟩] }
  | .begin, s =>
    match s.current, s.cq with
    | none, c :: rest => some { s with current := some c, cq := rest }
    | _, _ => none
  | .finish suspends, s => s.current.map (s.finish suspends)
  | .resume id, s => if id ∈ s.taken then some { s with taken := s.taken.erase id } else none
  | .quit, s => some { s with quit := true }
  | .drain, s =>
    match s.quit, s.current, s.cq with
    | true, none, _ :: rest => some { s with pendingEvents := s.pendingEvents - 1, cq := rest }
    | _, _, _ => none

def Reaches (condition : IOUringQueue → Act → Prop) (s : IOUringQueue) : Prop :=
  GuardedRuns.Run act condition initial s

/-- No handler suspends, and no completion is left for the last loop that others follow. -/
def NothingLeftOpen (s : IOUringQueue) : Act → Prop
  | .finish suspends => suspends = false
  | .drain => ∀ c ∈ s.cq.head?, c.more = false
  | _ => True

instance (s : IOUringQueue) : DecidablePred s.NothingLeftOpen
  | .finish _ => inferInstanceAs (Decidable (_ = _))
  | .drain => inferInstanceAs (Decidable (∀ c ∈ (_ : Option RingCompletion), _))
  | .pushEvent _ _ | .getSqeWithData _ _ | .submit _ | .complete _ _ | .begin | .resume _ | .quit =>
    inferInstanceAs (Decidable True)

/-- Entries on their way to their last completion, and events that are not processed to their end. -/
def outstanding (s : IOUringQueue) : ℕ :=
  s.sq.length + s.kernel.length + (s.current.toList ++ s.cq).countP (!·.more) + s.taken.length

/-- A completion that promises others has its entry in the kernel or the last completion behind it. -/
def Followed (kernel : List RingEntry) : List RingCompletion → Prop
  | [] => True
  | c :: rest => (c.more = true → c.entry ∈ kernel ∨ ⟨c.entry, false⟩ ∈ rest) ∧ Followed kernel rest

/-- The counter is right, no completion of an event promises others, those promised come, and the
manager keeps no event. -/
structure CounterRight (s : IOUringQueue) : Prop where
  count : s.pendingEvents = s.outstanding
  followed : Followed s.kernel (s.current.toList ++ s.cq)
  event : ∀ c ∈ s.current.toList ++ s.cq, ∀ id, c.entry = .event id → c.more = false
  taken : s.taken = []

variable {s s' : IOUringQueue} {kernel : List RingEntry} {l : List RingCompletion}

theorem Followed.mono {kernel' : List RingEntry} (h : Followed kernel l)
    (hk : ∀ entry ∈ kernel, entry ∈ kernel') : Followed kernel' l := by
  induction l with
  | nil => trivial
  | cons c rest ih => exact ⟨fun hmore => (h.1 hmore).imp_left (hk _), ih h.2⟩

/-- A new completion of an entry of the kernel. -/
theorem Followed.concat (h : Followed kernel l) {entry : RingEntry} {more : Bool}
    {kernel' : List RingEntry} (hmore : more = true → entry ∈ kernel')
    (hk : ∀ x ∈ kernel, x ∈ kernel' ∨ more = false ∧ x = entry) :
    Followed kernel' (l ++ [⟨entry, more⟩]) := by
  induction l with
  | nil => exact ⟨fun hm => .inl (hmore hm), trivial⟩
  | cons c rest ih =>
    refine ⟨fun hm => ?_, ih h.2⟩
    rcases h.1 hm with hin | hlast
    · rcases hk _ hin with hin | ⟨rfl, heq⟩
      · exact .inl hin
      · exact .inr (mem_append_right _ (mem_singleton.mpr (by rw [heq])))
    · exact .inr (mem_append_left _ hlast)

theorem Followed.nil_of_more (h : Followed [] l) (hmore : ∀ c ∈ l, c.more = true) : l = [] := by
  cases l with
  | nil => rfl
  | cons c rest =>
    rcases h.1 (hmore c mem_cons_self) with hin | hlast
    · cases hin
    · cases hmore _ (mem_cons_of_mem c hlast)

theorem CounterRight.complete (h : s.CounterRight) {index : ℕ} {more : Bool}
    (hs : act (.complete index more) s = some s') : s'.CounterRight := by
  simp only [act] at hs
  cases hget : s.kernel[index]? with
  | none =>
    rw [hget] at hs
    cases hs
  | some entry =>
    rw [hget] at hs
    have hlt := (List.getElem?_eq_some_iff.mp hget).1
    have hcount := h.count
    -- A new completion is the last one of its entry, or its entry stays in the kernel.
    have hevent : ∀ more, (∀ id, entry = .event id → more = false) →
        ∀ c ∈ s.current.toList ++ (s.cq ++ [⟨entry, more⟩]), ∀ id, c.entry = .event id → c.more = false := by
      intro more hmore c hc
      rw [← append_assoc] at hc
      rcases mem_append.mp hc with hc | hc
      · exact h.event c hc
      · rw [mem_singleton.mp hc]
        exact hmore
    cases more with
    | true =>
      simp only [if_true] at hs
      split_ifs at hs with hmulti
      cases hs
      refine ⟨?_, ?_, hevent true fun id heq => ?_, h.taken⟩
      · rw [hcount]
        simp [outstanding]
      · rw [← append_assoc]
        exact h.followed.concat (fun _ => mem_of_getElem? hget) fun x hx => .inl hx
      · rw [heq] at hmulti
        cases hmulti
    | false =>
      simp only [Bool.false_eq_true, if_false] at hs
      cases hs
      refine ⟨?_, ?_, hevent false fun _ _ => rfl, h.taken⟩
      · rw [hcount]
        simp only [outstanding, length_eraseIdx_of_lt hlt, countP_append, countP_singleton,
          Bool.not_false, if_true]
        omega
      · rw [← append_assoc]
        refine h.followed.concat nofun fun x hx => ?_
        obtain ⟨-, rfl⟩ := List.getElem?_eq_some_iff.mp hget
        rcases mem_cons.mp ((getElem_cons_eraseIdx_perm hlt).symm.subset hx) with heq | hx
        · exact .inr ⟨rfl, heq⟩
        · exact .inl hx

theorem CounterRight.finish (h : s.CounterRight) {c : RingCompletion} (hcurrent : s.current = some c) :
    (s.finish false c).CounterRight := by
  have hcount := h.count
  have hrest : ∀ c ∈ s.cq, ∀ id, c.entry = .event id → c.more = false :=
    fun c hc => h.event c (mem_append_right _ hc)
  have hmore := h.event c (by simp [hcurrent])
  have hfollowed : Followed s.kernel s.cq := by
    have hall := h.followed
    rw [hcurrent] at hall
    exact hall.2
  obtain ⟨entry, more⟩ := c
  simp only [outstanding, hcurrent, Option.toList_some, singleton_append, countP_cons] at hcount
  cases entry with
  | event id =>
    obtain rfl := hmore id rfl
    refine ⟨?_, hfollowed, hrest, h.taken⟩
    simp [IOUringQueue.finish, outstanding] at hcount ⊢
    omega
  | response id multishot =>
    cases more with
    | true => exact ⟨by simpa [outstanding, IOUringQueue.finish] using hcount, hfollowed, hrest, h.taken⟩
    | false =>
      refine ⟨?_, hfollowed, hrest, h.taken⟩
      simp [IOUringQueue.finish, outstanding] at hcount ⊢
      omega

theorem CounterRight.act (h : s.CounterRight) {a : Act} (hg : s.NothingLeftOpen a) (hs : act a s = some s') :
    s'.CounterRight := by
  have hcount := h.count
  cases a with
  | pushEvent id otherThread =>
    simp only [IOUringQueue.act] at hs
    split_ifs at hs
    all_goals cases hs
    · exact h
    · refine ⟨?_, h.followed.mono fun x => mem_append_left _, h.event, h.taken⟩
      simp only [outstanding, length_append, length_singleton] at hcount ⊢
      omega
    · refine ⟨?_, h.followed, h.event, h.taken⟩
      simp only [outstanding, length_append, length_singleton] at hcount ⊢
      omega
  | getSqeWithData id multishot =>
    cases hs
    refine ⟨?_, h.followed, h.event, h.taken⟩
    simp only [outstanding, length_append, length_singleton] at hcount ⊢
    omega
  | submit n =>
    cases hs
    refine ⟨?_, h.followed.mono fun x => mem_append_left _, h.event, h.taken⟩
    simp only [outstanding, length_append, length_take, length_drop] at hcount ⊢
    omega
  | complete index more => exact h.complete hs
  | begin =>
    simp only [IOUringQueue.act] at hs
    split at hs
    · next c rest hcurrent hcq =>
      cases hs
      have hsame : s.current.toList ++ s.cq = [c] ++ rest := by
        rw [hcurrent, hcq]
        rfl
      refine ⟨?_, ?_, fun x hx => h.event x (hsame ▸ hx), h.taken⟩
      · simp only [outstanding, hsame] at hcount ⊢
        exact hcount
      · have hall := h.followed
        rw [hsame] at hall
        exact hall
    · cases hs
  | finish suspends =>
    obtain ⟨c, hcurrent, rfl⟩ := Option.map_eq_some_iff.mp hs
    have hsuspends : suspends = false := hg
    rw [hsuspends]
    exact h.finish hcurrent
  | resume id =>
    simp only [IOUringQueue.act] at hs
    rw [if_neg (by simp [h.taken])] at hs
    cases hs
  | quit =>
    cases hs
    exact ⟨hcount, h.followed, h.event, h.taken⟩
  | drain =>
    simp only [IOUringQueue.act] at hs
    split at hs
    · next c rest _ hcurrent hcq =>
      cases hs
      have hlast : c.more = false := hg c (by rw [hcq]; rfl)
      simp only [outstanding, hcurrent, hcq, Option.toList_none, nil_append, countP_cons, hlast,
        Bool.not_false, if_true] at hcount
      refine ⟨?_, ?_, fun x hx => h.event x ?_, h.taken⟩
      · simp only [outstanding, hcurrent, Option.toList_none, nil_append]
        omega
      · have hall := h.followed
        rw [hcurrent, hcq] at hall
        rw [hcurrent]
        exact hall.2
      · rw [hcurrent] at hx
        rw [hcurrent, hcq]
        exact mem_cons_of_mem c hx
    · cases hs

/-- The counter is the number of entries and events that are not done, and it is zero exactly when
nothing is left. -/
theorem accounting (h : Reaches NothingLeftOpen s) : s.pendingEvents = s.outstanding ∧
    (s.pendingEvents = 0 ↔
      s.sq = [] ∧ s.kernel = [] ∧ s.taken = [] ∧ s.current = none ∧ s.cq = []) := by
  have hcounted : s.CounterRight := by
    refine h.invariant CounterRight ⟨rfl, trivial, nofun, rfl⟩ fun s a s' hc hg hs => hc.act hg hs
  refine ⟨hcounted.count, ?_⟩
  rw [hcounted.count, outstanding]
  constructor
  · intro hzero
    have hsq : s.sq = [] := length_eq_zero_iff.mp (by omega)
    have hkernel : s.kernel = [] := length_eq_zero_iff.mp (by omega)
    have hfollowed := hcounted.followed
    rw [hkernel] at hfollowed
    have hlast : (s.current.toList ++ s.cq).countP (!·.more) = 0 := by omega
    have hnone := hfollowed.nil_of_more fun c hc => by simpa using countP_eq_zero.mp hlast c hc
    rw [append_eq_nil_iff, Option.toList_eq_nil_iff] at hnone
    exact ⟨hsq, hkernel, hcounted.taken, hnone⟩
  · rintro ⟨hsq, hkernel, htaken, hcurrent, hcq⟩
    simp [hsq, hkernel, htaken, hcurrent, hcq]

/-- An event and a submission with several completions, flushed in two batches. -/
theorem accounting_multishot : ∃ s, Reaches NothingLeftOpen s ∧ s.pendingEvents = 1 ∧ s.outstanding = 1 := by
  have hplay : (GuardedRuns.exec act (fun s a => decide (s.NothingLeftOpen a))
      [.pushEvent 1 false, .getSqeWithData 2 true, .submit 1, .complete 0 false, .begin, .submit 1,
        .complete 0 true, .finish false, .begin, .finish false] initial).map pendingEvents = some 1 := by
    decide
  obtain ⟨s, hs, hone⟩ := Option.map_eq_some_iff.mp hplay
  have hreach : Reaches NothingLeftOpen s := GuardedRuns.exec_run _ _ _ (fun _ _ h => of_decide_eq_true h) hs
  have hcount := (accounting hreach).1
  exact ⟨s, hreach, hone, by omega⟩

/-- An event whose handler suspends stays counted after the handler has come to its end; and the last
loop takes a submission off for each of its completions. -/
theorem miscounted : (∃ s, Reaches (fun _ _ => True) s ∧ s.outstanding = 0 ∧ s.pendingEvents = 1) ∧
      ∃ s, Reaches (fun _ _ => True) s ∧ s.pendingEvents = -1 := by
  exact ⟨⟨_, GuardedRuns.run_exec [.pushEvent 1 false, .submit 1, .complete 0 false, .begin,
      .finish true, .resume 1] rfl, rfl, rfl⟩,
    _, GuardedRuns.run_exec [.getSqeWithData 1 true, .submit 1, .complete 0 true, .complete 0 true,
      .quit, .drain, .drain] rfl, rfl⟩

end IOUringQueue

end Ichor
