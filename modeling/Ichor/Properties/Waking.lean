import Ichor.Desk.Frame

/-! `finishWaitingService` with coroutines that register waiters while it resumes them: the waiters of
the service and the type are resumed in the order of their registration, old and new ones, and no
other is touched. -/
namespace Ichor
open FiniteTable List Function

/-- What the resumed coroutines register, by the number of the resumption. `finishWaitingService` is
private to the manager and called for the event that it processes, so they do not call it. -/
abbrev Registering := ℕ → List (ServiceId × EventType × PromiseId)

namespace Waiters

/-- The coroutines that wait for the service and the type, in the order of their registration. -/
def waiting (w : Waiters) (id : ServiceId) (type : EventType) : List PromiseId :=
  ((of w id).filter fun e => decide (e.1 = type)).map Prod.snd

def addAll (w : Waiters) (rs : List (ServiceId × EventType × PromiseId)) : Waiters :=
  rs.foldl (fun w r => add w r.1 r.2.1 r.2.2) w

end Waiters

/-- The waiters, the coroutines resumed so far and the answer of the function. -/
structure Waking where
  waiters : Waiters
  resumed : List PromiseId
  ret : Bool

/-- Why the function has no result: the model's bound on the rounds, or an entry that is not found. -/
inductive Stuck where
  | rounds
  | missing

namespace Waking

/-- `evt->set()` for one of the waiters that were taken out. -/
def set (r : Registering) (w : Waking) (promise : PromiseId) : Waking :=
  { w with
    waiters := w.waiters.addAll (r w.resumed.length)
    resumed := w.resumed ++ [promise] }

def take (w : Waking) (id : ServiceId) (type : EventType) : Waking :=
  { w with
    waiters := w.waiters.modify id fun e =>
      { e with events := e.events.filter fun e => decide (e.1 ≠ type) }
    ret := w.ret || !(w.waiters.waiting id type).isEmpty }

/-- The `do … while`, which looks the entry up again after a round that set a waiter. -/
def rounds (r : Registering) (id : ServiceId) (type : EventType) : ℕ → Waking → Except Stuck Waking
  | 0, _ => .error .rounds
  | fuel + 1, w =>
    match w.waiters.get? id with
    | none => .error .missing
    | some _ =>
      let evts := w.waiters.waiting id type
      if evts.isEmpty then .ok w
      else rounds r id type fuel (evts.foldl (set r) (w.take id type))

def erase (w : Waking) (id : ServiceId) : Waking :=
  if (w.waiters.of id).isEmpty then { w with waiters := Table.erase w.waiters id, ret := true } else w

def finishWaitingService (r : Registering) (fuel : ℕ) (waiters : Waiters) (id : ServiceId)
    (type : EventType) : Except Stuck Waking :=
  match waiters.get? id with
  | none => .ok ⟨waiters, [], false⟩
  | some _ => (rounds r id type fuel ⟨waiters, [], false⟩).map fun w => w.erase id

end Waking

/-- What the first resumptions register for a service and a type. -/
def Registering.registered (r : Registering) (n : ℕ) (id : ServiceId) (type : EventType) :
    List PromiseId :=
  (((List.range n).flatMap r).filter fun e => decide (e.1 = id ∧ e.2.1 = type)).map fun e => e.2.2

namespace Waiters

variable {w : Waiters} {id k : ServiceId} {type kind : EventType}

theorem waiting_add (r : ServiceId × EventType × PromiseId) :
    (add w r.1 r.2.1 r.2.2).waiting k kind = w.waiting k kind ++
      (([r].filter fun e => decide (e.1 = k ∧ e.2.1 = kind)).map fun e => e.2.2) := by
  unfold waiting
  rw [of_add]
  by_cases hk : k = r.1
  · subst hk
    rw [update_self, filter_append, map_append]
    by_cases hkind : r.2.1 = kind <;> simp [hkind]
  · rw [update_of_ne hk]
    simp [Ne.symm hk]

theorem waiting_addAll (rs : List (ServiceId × EventType × PromiseId)) :
    (w.addAll rs).waiting k kind = w.waiting k kind ++
      ((rs.filter fun e => decide (e.1 = k ∧ e.2.1 = kind)).map fun e => e.2.2) := by
  induction rs generalizing w with
  | nil => simp [addAll]
  | cons r rs ih =>
    have hcons := filter_append (p := fun e : ServiceId × EventType × PromiseId =>
      decide (e.1 = k ∧ e.2.1 = kind)) [r] rs
    rw [singleton_append] at hcons
    rw [hcons, map_append, ← append_assoc, ← waiting_add]
    exact ih

theorem get?_addAll (rs : List (ServiceId × EventType × PromiseId))
    (h : ∃ e, w.get? id = some e) : ∃ e, (w.addAll rs).get? id = some e := by
  induction rs generalizing w with
  | nil => exact h
  | cons r rs ih => exact ih ((get?_add w r.1 id r.2.1 r.2.2).mpr (.inl h))

end Waiters

namespace Waking

/-- Every waiter of the service and the type was resumed, is taken out (`pending`) or is in its entry,
in the order of their registration; the others are where they were. -/
structure Woken (r : Registering) (start : Waiters) (id : ServiceId) (type : EventType)
    (pending : List PromiseId) (w : Waking) : Prop where
  queue : w.resumed ++ (pending ++ w.waiters.waiting id type) =
    start.waiting id type ++ r.registered w.resumed.length id type
  others : ∀ k kind, (k, kind) ≠ (id, type) → w.waiters.waiting k kind =
    start.waiting k kind ++ r.registered w.resumed.length k kind
  entry : ∃ e, w.waiters.get? id = some e

variable {r : Registering} {start : Waiters} {id : ServiceId} {type : EventType}
  {pending : List PromiseId} {promise : PromiseId} {w : Waking}

theorem registered_succ (n : ℕ) (k : ServiceId) (kind : EventType) :
    r.registered (n + 1) k kind = r.registered n k kind ++
      (((r n).filter fun e => decide (e.1 = k ∧ e.2.1 = kind)).map fun e => e.2.2) := by
  unfold Registering.registered
  rw [range_succ, flatMap_append, filter_append, map_append]
  simp

theorem Woken.set (h : Woken r start id type (promise :: pending) w) :
    Woken r start id type pending (w.set r promise) := by
  have hlength : (w.resumed ++ [promise]).length = w.resumed.length + 1 := by simp
  refine ⟨?_, fun k kind hne => ?_, Waiters.get?_addAll _ h.entry⟩
  · have hqueue := h.queue
    show (w.resumed ++ [promise]) ++ (pending ++ (w.waiters.addAll _).waiting id type) = _ ++
      r.registered (w.resumed ++ [promise]).length id type
    rw [hlength, registered_succ, ← append_assoc (start.waiting id type), ← hqueue,
      Waiters.waiting_addAll]
    simp
  · show (w.waiters.addAll _).waiting k kind = _ ++
      r.registered (w.resumed ++ [promise]).length k kind
    rw [hlength, registered_succ, ← append_assoc, ← h.others k kind hne, Waiters.waiting_addAll]

theorem Woken.sets (h : Woken r start id type pending w) :
    Woken r start id type [] (pending.foldl (Waking.set r) w) := by
  induction pending generalizing w with
  | nil => exact h
  | cons promise pending ih => exact ih h.set

theorem waiting_take (w : Waking) (k : ServiceId) (kind : EventType) :
    (w.take id type).waiters.waiting k kind =
      if (k, kind) = (id, type) then [] else w.waiters.waiting k kind := by
  unfold take Waiters.waiting
  rw [Waiters.of_modify w.waiters id k (fun l => l.filter fun e => decide (e.1 ≠ type)) rfl]
  by_cases hk : k = id
  · subst hk
    rw [update_self, filter_filter]
    by_cases hkind : kind = type
    · simp [hkind]
    · rw [if_neg (by simp [hkind])]
      congr 2
      funext e
      by_cases he : e.1 = kind <;> simp [he, hkind]
  · rw [update_of_ne hk, if_neg (by simp [hk])]

theorem Woken.take (h : Woken r start id type [] w) :
    Woken r start id type (w.waiters.waiting id type) (w.take id type) := by
  refine ⟨?_, fun k kind hne => ?_, ?_⟩
  · rw [waiting_take, if_pos rfl, append_nil]
    exact h.queue
  · rw [waiting_take, if_neg hne]
    exact h.others k kind hne
  · obtain ⟨e, he⟩ := h.entry
    simp [Waking.take, he]

theorem foldl_resumed (pending : List PromiseId) (w : Waking) :
    (pending.foldl (set r) w).resumed = w.resumed ++ pending := by
  induction pending generalizing w with
  | nil => simp
  | cons promise pending ih =>
    rw [foldl_cons, ih]
    simp [set]

/-- The rounds find the entry every time, and what they end with has no such waiter any more. -/
theorem woken_rounds (h : Woken r start id type [] w) (fuel : ℕ) :
    rounds r id type fuel w ≠ .error .missing ∧ ∀ w', rounds r id type fuel w = .ok w' →
      Woken r start id type [] w' ∧ w'.waiters.waiting id type = [] := by
  induction fuel generalizing w with
  | zero => simp [Waking.rounds]
  | succ fuel ih =>
    obtain ⟨e, he⟩ := h.entry
    unfold Waking.rounds
    rw [he]
    dsimp only
    split
    · rename_i hnone
      refine ⟨by simp, fun w' hw => ?_⟩
      cases hw
      exact ⟨h, isEmpty_iff.mp hnone⟩
    · exact ih h.take.sets

/-- Every round that goes on resumes a coroutine, of which there are finitely many. -/
theorem rounds_terminate (h : Woken r start id type [] w) (bound fuel : ℕ)
    (hbound : ∀ n, (start.waiting id type ++ r.registered n id type).length ≤ bound)
    (hfuel : bound < w.resumed.length + fuel) : ∃ w', rounds r id type fuel w = .ok w' := by
  induction fuel generalizing w with
  | zero =>
    have hqueue := congrArg List.length h.queue
    have hle := hbound w.resumed.length
    rw [← hqueue, length_append] at hle
    omega
  | succ fuel ih =>
    obtain ⟨e, he⟩ := h.entry
    unfold Waking.rounds
    rw [he]
    dsimp only
    split
    · exact ⟨w, rfl⟩
    · rename_i hsome
      refine ih h.take.sets ?_
      have hpos : 0 < (w.waiters.waiting id type).length :=
        length_pos_iff.mpr fun hnil => hsome (isEmpty_iff.mpr hnil)
      rw [foldl_resumed, length_append]
      show bound < w.resumed.length + _ + fuel
      omega

theorem registered_bounded {N : ℕ}
    (hfinite : ∀ n, N ≤ n → ∀ e ∈ r n, ¬(e.1 = id ∧ e.2.1 = type)) (n : ℕ) :
    (r.registered n id type).length ≤ (r.registered N id type).length := by
  have hmono : ∀ m k, (r.registered m id type).length ≤ (r.registered (m + k) id type).length := by
    intro m k
    induction k with
    | zero => exact Nat.le_refl _
    | succ k ih =>
      rw [← Nat.add_assoc, registered_succ, length_append]
      omega
  have hstays : ∀ k, r.registered (N + k) id type = r.registered N id type := by
    intro k
    induction k with
    | zero => rfl
    | succ k ih =>
      rw [← Nat.add_assoc, registered_succ, ih]
      have hnone : (r (N + k)).filter (fun e => decide (e.1 = id ∧ e.2.1 = type)) = [] :=
        filter_eq_nil_iff.mpr fun e he => by
          simpa using hfinite (N + k) (Nat.le_add_right N k) e he
      rw [hnone, map_nil, append_nil]
  calc (r.registered n id type).length
    _ ≤ (r.registered (n + N) id type).length := hmono n N
    _ = (r.registered N id type).length := by rw [Nat.add_comm, hstays n]

theorem woken_start (r : Registering) {start : Waiters} {e : EventWaiter}
    (he : start.get? id = some e) : Woken r start id type [] ⟨start, [], false⟩ where
  queue := (append_nil _).symm
  others := fun _ _ _ => (append_nil _).symm
  entry := ⟨e, he⟩

theorem waiting_erase (w : Waking) (k : ServiceId) (kind : EventType) :
    (w.erase id).waiters.waiting k kind = w.waiters.waiting k kind := by
  unfold erase Waiters.waiting
  split
  · rename_i hnone
    rw [Waiters.of_erase w.waiters id k (isEmpty_iff.mp hnone)]
  · rfl

theorem erase_resumed (w : Waking) : (w.erase id).resumed = w.resumed := by
  unfold erase
  split <;> rfl

theorem entry_erase (hentry : ∃ e, w.waiters.get? id = some e)
    (hnone : w.waiters.waiting id type = []) : (∃ e, (w.erase id).waiters.get? id = some e) ↔
      ∃ kind, kind ≠ type ∧ (w.erase id).waiters.waiting id kind ≠ [] := by
  simp only [waiting_erase]
  unfold erase
  split
  · rename_i hempty
    simp [Waiters.waiting, isEmpty_iff.mp hempty]
  · rename_i hsome
    refine ⟨fun _ => ?_, fun _ => hentry⟩
    obtain ⟨e, he⟩ := exists_mem_of_ne_nil _ fun hnil => hsome (isEmpty_iff.mpr hnil)
    have hmem : e.2 ∈ w.waiters.waiting id e.1 :=
      mem_map_of_mem (mem_filter.mpr ⟨he, decide_eq_true rfl⟩)
    refine ⟨e.1, fun htype => ?_, ne_nil_of_mem hmem⟩
    rw [htype, hnone] at hmem
    cases hmem

end Waking

/-! ## The manager's own coroutines -/

/-- The coroutines that were resumed, the last one first. -/
def resumedOf (trace : List Call) : List PromiseId :=
  trace.filterMap fun c =>
    match c with
    | .resumed promise => some promise
    | _ => none

namespace DependencyManager

variable {s s' : DependencyManager} {d p : ServiceId} {promise : PromiseId}

/-- Nothing but waiters were added, and no coroutine was resumed. -/
def Adds (s s' : DependencyManager) : Prop :=
  (∃ rs, s'.dependencyWaiters = Waiters.addAll s.dependencyWaiters rs) ∧
    resumedOf s'.trace = resumedOf s.trace

theorem Adds.of_eq (hwaiters : s'.dependencyWaiters = s.dependencyWaiters)
    (htrace : resumedOf s'.trace = resumedOf s.trace) : Adds s s' :=
  ⟨⟨[], hwaiters⟩, htrace⟩

theorem Adds.trans {s'' : DependencyManager} (h : Adds s s') (h' : Adds s' s'') : Adds s s'' := by
  obtain ⟨⟨rs, hrs⟩, htrace⟩ := h
  obtain ⟨⟨rs', hrs'⟩, htrace'⟩ := h'
  refine ⟨⟨rs ++ rs', ?_⟩, htrace'.trans htrace⟩
  rw [hrs', hrs, Waiters.addAll, Waiters.addAll, Waiters.addAll, foldl_append]

theorem adds_rule : OfflineRule Adds where
  refl _ := .of_eq rfl rfl
  trans := .trans
  decrement h := by
    unfold decrementSatisfied at h
    split at h
    · cases h
    · split_ifs at h
      cases h
      exact .of_eq rfl rfl
  wait _ d type q := ⟨⟨[(d, type, q)], rfl⟩, rfl⟩
  push _ _ _ := .of_eq rfl rfl

theorem adds_setWaiter (h : s.setWaiter promise = some s') : Adds (s.call (.resumed promise)) s' := by
  unfold setWaiter at h
  dsimp only at h
  split at h
  · cases h
    exact .of_eq rfl rfl
  · split at h
    · split at h
      · cases h
      · next hres =>
        cases h
        exact (adds_rule.resumeOffline _ _ _ _ _ hres).trans (.of_eq rfl rfl)
      · next hres =>
        cases h
        exact (adds_rule.resumeOffline _ _ _ _ _ hres).trans (.of_eq rfl rfl)
    · cases h
      exact .of_eq rfl rfl

/-- The waiters are those of the manager, and what was resumed is in its trace behind `before`. -/
def Mirrors (before : List PromiseId) (w : Waking) (s : DependencyManager) : Prop :=
  w.waiters = s.dependencyWaiters ∧ resumedOf s.trace = w.resumed.reverse ++ before

variable (before : List PromiseId)

/-- What the coroutines of the manager register is chosen step by step; `later` is what is registered
behind the loop. -/
theorem setWaiters_mirror (evts : List PromiseId) (h : evts.foldlM setWaiter s = some s') (k : ℕ)
    (later : Registering) : ∃ f : Registering, (∀ n ≥ k + evts.length, f n = later n) ∧
      ∀ (r : Registering) (w : Waking), (∀ n ≥ k, r n = f n) → w.resumed.length = k →
        Mirrors before w s → Mirrors before (evts.foldl (Waking.set r) w) s' := by
  induction evts generalizing s k with
  | nil =>
    cases h
    exact ⟨later, fun _ _ => rfl, fun _ _ _ _ hw => hw⟩
  | cons promise rest ih =>
    rw [foldlM_cons] at h
    obtain ⟨s₁, hset, hrest⟩ := Option.bind_eq_some_iff.mp h
    obtain ⟨⟨rs, hrs⟩, htrace⟩ := adds_setWaiter hset
    obtain ⟨f, hlater, hf⟩ := ih hrest (k + 1)
    refine ⟨update f k rs, fun n hn => ?_, fun r w hr hk hw => ?_⟩
    · rw [length_cons] at hn
      rw [update_of_ne (by omega)]
      exact hlater n (by omega)
    · have hnow : r k = rs := (hr k (Nat.le_refl k)).trans (update_self ..)
      refine hf r (Waking.set r w promise) (fun n hn => ?_) (by simp [Waking.set, hk]) ⟨?_, ?_⟩
      · rw [hr n (by omega), update_of_ne (by omega)]
      · rw [hrs]
        simp [Waking.set, hk, hnow, hw.1, call]
      · rw [htrace]
        simp [Waking.set, resumedOf, call, ← hw.2]

theorem rounds_mirror {id : ServiceId} {type : EventType} (fuel : ℕ)
    (h : finishWaitingRounds id type fuel s = some s') (k : ℕ) : ∃ f : Registering,
      ∀ (r : Registering) (start : Waiters) (w : Waking), (∀ n ≥ k, r n = f n) →
        w.resumed.length = k → Waking.Woken r start id type [] w → Mirrors before w s →
          ∃ w', Waking.rounds r id type fuel w = .ok w' ∧ Mirrors before w' s' := by
  induction fuel generalizing s k with
  | zero => cases h
  | succ fuel ih =>
    unfold finishWaitingRounds at h
    dsimp only at h
    split_ifs at h with hnone
    · cases h
      refine ⟨fun _ => [], fun r start w _ _ hwoken hw => ⟨w, ?_, hw⟩⟩
      obtain ⟨e, he⟩ := hwoken.entry
      unfold Waking.rounds
      rw [he]
      exact if_pos (by rw [hw.1]; exact hnone)
    · obtain ⟨s₁, hloop, hrest⟩ := Option.bind_eq_some_iff.mp h
      obtain ⟨later, hlater⟩ := ih hrest (k + (Waiters.waiting s.dependencyWaiters id type).length)
      obtain ⟨f, hbehind, hf⟩ := setWaiters_mirror before _ hloop k later
      refine ⟨f, fun r start w hr hk hwoken hw => ?_⟩
      obtain ⟨e, he⟩ := hwoken.entry
      have htaken : Mirrors before (w.take id type) (s.takeWaiters id type) :=
        ⟨by simp [Waking.take, takeWaiters, hw.1], hw.2⟩
      have hnext := hf r (w.take id type) hr hk htaken
      unfold Waking.rounds
      rw [he]
      dsimp only
      rw [if_neg (by rw [hw.1]; exact hnone)]
      refine hlater r start _ (fun n hn => ?_) ?_ hwoken.take.sets ?_
      · rw [hr n (by omega), hbehind n hn]
      · rw [Waking.foldl_resumed, length_append, hw.1]
        exact congrArg (· + _) hk
      · rw [hw.1]
        exact hnext

/-- The manager's `finishWaitingService` is the one of this module for some coroutines: the same
waiters are left, and those that it resumed are in the trace. -/
theorem finishWaitingService_mirror {id : ServiceId} {type : EventType}
    (h : s.finishWaitingService id type = some s') : ∃ r fuel w,
      Waking.finishWaitingService r fuel s.dependencyWaiters id type = .ok w ∧
        w.waiters = s'.dependencyWaiters ∧
          resumedOf s'.trace = w.resumed.reverse ++ resumedOf s.trace := by
  unfold finishWaitingService at h
  unfold Waking.finishWaitingService
  cases he : s.dependencyWaiters.get? id with
  | none =>
    rw [he] at h
    cases h
    exact ⟨fun _ => [], 0, _, rfl, rfl, rfl⟩
  | some e =>
    rw [he] at h
    obtain ⟨s₁, hrounds, rfl⟩ := Option.map_eq_some_iff.mp h
    obtain ⟨f, hf⟩ := rounds_mirror (resumedOf s.trace) _ hrounds 0
    obtain ⟨w, hw, hmirrors⟩ := hf f s.dependencyWaiters ⟨s.dependencyWaiters, [], false⟩
      (fun _ _ => rfl) rfl (Waking.woken_start f he) ⟨rfl, rfl⟩
    refine ⟨f, _, w.erase id, by rw [hw]; rfl, ?_, ?_⟩
    · unfold Waking.erase
      rw [hmirrors.1]
      split_ifs
      · rfl
      · exact hmirrors.1
    · rw [Waking.erase_resumed, ← hmirrors.2]
      split_ifs <;> rfl

end DependencyManager

namespace Waking

/-- The entry is found again after every round. When the function returns, it has resumed the waiters
of the service and the type and those that the resumed coroutines registered, each once and in their
order; every other waiter still waits, and so do those that the coroutines added to them; and the
service has an entry if and only if waiters of another type are left. It returns if from some
resumption on no coroutine registers another waiter of the service and the type. The manager's own
function is the same one, with the coroutines that it has. -/
theorem finishWaitingService_wakes (r : Registering) (start : Waiters) (id : ServiceId)
    (type : EventType) :
    (∀ fuel, finishWaitingService r fuel start id type ≠ .error .missing) ∧
    (∀ fuel w, finishWaitingService r fuel start id type = .ok w →
      w.resumed = start.waiting id type ++ r.registered w.resumed.length id type ∧
      w.waiters.waiting id type = [] ∧
      (∀ k kind, (k, kind) ≠ (id, type) → w.waiters.waiting k kind =
        start.waiting k kind ++ r.registered w.resumed.length k kind) ∧
      ((∃ e, w.waiters.get? id = some e) ↔ ∃ kind, kind ≠ type ∧ w.waiters.waiting id kind ≠ [])) ∧
    (∀ N, (∀ n, N ≤ n → ∀ e ∈ r n, ¬(e.1 = id ∧ e.2.1 = type)) →
      ∃ fuel w, finishWaitingService r fuel start id type = .ok w) ∧
    ∀ s s' : DependencyManager, s.finishWaitingService id type = some s' → ∃ r fuel w,
      finishWaitingService r fuel s.dependencyWaiters id type = .ok w ∧
        w.waiters = s'.dependencyWaiters ∧
          resumedOf s'.trace = w.resumed.reverse ++ resumedOf s.trace := by
  rw [← and_assoc, ← and_assoc]
  refine ⟨and_assoc.mpr ?_, fun s s' => DependencyManager.finishWaitingService_mirror⟩
  unfold finishWaitingService
  cases he : start.get? id with
  | none =>
    have hof : start.of id = [] := by
      unfold Waiters.of
      rw [he]
    refine ⟨fun _ => by simp, fun _ w hw => ?_, fun _ _ => ⟨0, _, rfl⟩⟩
    cases hw
    refine ⟨?_, ?_, fun k kind _ => (append_nil _).symm, ?_⟩
    · simp [Waiters.waiting, hof, Registering.registered]
    · simp [Waiters.waiting, hof]
    · simp [Waiters.waiting, hof, he]
  | some e =>
    have hstart : Woken r start id type [] ⟨start, [], false⟩ := woken_start r he
    refine ⟨fun fuel => ?_, fun fuel w hw => ?_, fun N hfinite => ?_⟩
    · have hfound := (woken_rounds hstart fuel).1
      cases hrounds : rounds r id type fuel ⟨start, [], false⟩ with
      | error stuck =>
        rw [hrounds] at hfound
        exact fun herr => hfound (by simpa [Except.map] using herr)
      | ok w => simp [Except.map]
    · cases hrounds : rounds r id type fuel ⟨start, [], false⟩ with
      | error stuck =>
        rw [hrounds] at hw
        cases hw
      | ok w' =>
        rw [hrounds] at hw
        obtain ⟨hend, hnone⟩ := (woken_rounds hstart fuel).2 w' hrounds
        obtain rfl : w'.erase id = w := Except.ok.inj hw
        rw [erase_resumed]
        have hqueue := hend.queue
        rw [hnone, append_nil, append_nil] at hqueue
        refine ⟨hqueue, (waiting_erase w' id type).trans hnone, fun k kind hne => ?_, ?_⟩
        · rw [waiting_erase]
          exact hend.others k kind hne
        · exact entry_erase hend.entry hnone
    · obtain ⟨w, hw⟩ := rounds_terminate hstart ((start.waiting id type).length +
        (r.registered N id type).length) _ (fun n => by
          rw [length_append]
          exact Nat.add_le_add_left (registered_bounded hfinite n) _)
        (Nat.lt_of_lt_of_le (Nat.lt_succ_self _) (Nat.le_add_left _ _))
      exact ⟨_, _, by rw [hw]; rfl⟩

end Waking

end Ichor
