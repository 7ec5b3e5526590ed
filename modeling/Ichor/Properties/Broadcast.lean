import Ichor.Properties.Processed

/-! The dispatch of an event to its listeners with what the callbacks do inside: they may change every
table that the loop works on, finish what earlier callbacks have left suspended, and suspend. -/
namespace Ichor
open DependencyManager List

/-- What the callbacks do, by the number of the call: how they change the manager, whether they
suspend, and which of the callbacks suspended before them they finish. -/
structure Callbacks where
  effect : ℕ → DependencyManager → DependencyManager
  suspends : ℕ → Bool
  finishes : ℕ → ℕ → Bool

/-- The locals of `broadcastEvent` and its entries of `_scopedGenerators`, by the number of the call;
`suspended` are the callbacks that have not finished. Of every listener `turns` has the service table
that the loop looks it up in, and `calls` are the calls with the event that `evt` points to. -/
structure Dispatch where
  manager : DependencyManager
  uniqueEvt : Option Event
  refEvt : Option Event
  useCount : ℕ
  scopedGenerators : List ℕ
  suspended : List ℕ
  turns : List (EventCallbackInfo × Services)
  calls : List (EventCallbackInfo × Event)

inductive DispatchAction where
  /-- A suspended callback runs to its end. -/
  | finish (n : ℕ)
  /-- The ContinuableEvent of a callback's generator. -/
  | continuable (n : ℕ)

namespace Dispatch

def start (s : DependencyManager) (e : Event) : Dispatch := ⟨s, some e, none, 0, [], [], [], []⟩

/-- The event that `evt` points to: from the first suspension on it is that of `refEvt`. -/
def evt (d : Dispatch) : Option Event := d.uniqueEvt.or d.refEvt

/-- The event object exists. -/
def alive (d : Dispatch) : Bool := d.uniqueEvt.isSome || decide (0 < d.useCount)

def call (cb : Callbacks) (e : Event) (info : EventCallbackInfo) (d : Dispatch) : Dispatch :=
  let n := d.calls.length
  let d := { d with
    manager := cb.effect n d.manager
    calls := d.calls ++ [(info, e)]
    suspended := d.suspended.filter fun k => !cb.finishes n k }
  if cb.suspends n then
    let d := { d with
      scopedGenerators := d.scopedGenerators ++ [n]
      suspended := d.suspended ++ [n] }
    if d.refEvt.isSome then { d with useCount := d.useCount + 1 }
    else { d with uniqueEvt := none, refEvt := d.uniqueEvt, useCount := 2 }
  else d

def turn (cb : Callbacks) (d : Dispatch) (info : EventCallbackInfo) : Dispatch :=
  let services := d.manager.services
  let d := { d with turns := d.turns ++ [(info, services)] }
  match d.evt with
  | none => d
  | some e => if passes services e info then d.call cb e info else d

/-- `broadcastEvent` works on a copy of the registered callbacks. -/
def broadcast (cb : Callbacks) (s : DependencyManager) (e : Event) : Dispatch :=
  (s.callbacksOf e.body.type).foldl (turn cb) (start s e)

/-- `broadcastEvent` and `processEvent` return, which destroys `refEvt` and `uniqueEvt`. -/
def leave (d : Dispatch) : Dispatch :=
  { d with
    uniqueEvt := none
    refEvt := none
    useCount := if d.refEvt.isSome then d.useCount - 1 else d.useCount }

/-- A generator is erased when the manager finds that it has finished. -/
def act : DispatchAction → Dispatch → Option Dispatch
  | .finish n, d => some { d with suspended := d.suspended.filter fun k => decide (k ≠ n) }
  | .continuable n, d =>
    if n ∈ d.scopedGenerators ∧ n ∉ d.suspended then some { d with
      scopedGenerators := d.scopedGenerators.erase n
      useCount := d.useCount - 1 }
    else some d

/-- The references are counted, and every suspended callback has one. -/
structure Held (d : Dispatch) : Prop where
  counted : d.useCount = d.scopedGenerators.length + if d.refEvt.isSome then 1 else 0
  held : ∀ n ∈ d.suspended, n ∈ d.scopedGenerators

/-- The manager after so many calls. -/
def effects (cb : Callbacks) (calls : ℕ) (s : DependencyManager) : DependencyManager :=
  (List.range calls).foldl (fun s n => cb.effect n s) s

/-- After so many calls the `n`-th one has suspended and none of the later ones has finished it. -/
def unfinished (cb : Callbacks) (calls n : ℕ) : Bool :=
  cb.suspends n && (List.range calls).all fun m => !(decide (n < m) && cb.finishes m n)

/-- In the loop, moreover, `evt` points to the event, every listener so far was called as it should
be, what it does was done, and it is suspended if it did not finish. -/
structure Delivering (cb : Callbacks) (s : DependencyManager) (e : Event) (d : Dispatch) : Prop
    extends Held d where
  evt : d.evt = some e
  unique : d.refEvt = none → d.scopedGenerators = []
  calls : d.calls = (d.turns.filter fun t => passes t.2 e t.1).map fun t => (t.1, e)
  manager : d.manager = effects cb d.calls.length s
  suspended : d.suspended = (List.range d.calls.length).filter (unfinished cb d.calls.length)

variable {cb : Callbacks} {d d' : Dispatch} {e : Event} {s : DependencyManager}

theorem effects_succ (cb : Callbacks) (n : ℕ) (s : DependencyManager) :
    effects cb (n + 1) s = cb.effect n (effects cb n s) := by
  unfold effects
  rw [range_succ, foldl_append]
  rfl

theorem unfinished_succ (cb : Callbacks) (calls : ℕ) :
    (List.range (calls + 1)).filter (unfinished cb (calls + 1)) =
      ((List.range calls).filter (unfinished cb calls)).filter (fun n => !cb.finishes calls n) ++
        if cb.suspends calls then [calls] else [] := by
  have hlast : unfinished cb (calls + 1) calls = cb.suspends calls := by
    have hnone : ∀ m < calls + 1, ¬calls < m := by omega
    simp only [unfinished, Bool.and_eq_left_iff_imp, all_eq_true, mem_range]
    exact fun _ m hm => by simp [hnone m hm]
  rw [range_succ, filter_append, filter_filter]
  congr 1
  · refine filter_congr fun n hn => ?_
    simp [unfinished, range_succ, mem_range.mp hn, Bool.and_comm, Bool.and_left_comm]
  · rw [filter_singleton, hlast, cond_eq_ite]

theorem Delivering.call (h : Delivering cb s e d) (info : EventCallbackInfo) (services : Services)
    (hpasses : passes services e info = true) :
    Delivering cb s e ({ d with turns := d.turns ++ [(info, services)] }.call cb e info) := by
  have hlength : (d.calls ++ [(info, e)]).length = d.calls.length + 1 := by simp
  have hmanager : cb.effect d.calls.length d.manager =
      effects cb (d.calls ++ [(info, e)]).length s := by
    rw [hlength, effects_succ, ← h.manager]
  have hsuspended := unfinished_succ cb d.calls.length
  rw [← h.suspended, ← hlength] at hsuspended
  have hcalls : d.calls ++ [(info, e)] = ((d.turns ++ [(info, services)]).filter fun t =>
      passes t.2 e t.1).map fun t => (t.1, e) := by
    rw [h.calls, filter_append, map_append]
    simp [hpasses]
  have hheld : ∀ n ∈ d.suspended.filter fun k => !cb.finishes d.calls.length k,
      n ∈ d.scopedGenerators := fun n hn => h.held n (mem_filter.mp hn).1
  unfold Dispatch.call
  dsimp only
  split
  · rename_i hsuspends
    rw [if_pos hsuspends] at hsuspended
    have hheld' : ∀ n ∈ (d.suspended.filter fun k => !cb.finishes d.calls.length k) ++
        [d.calls.length], n ∈ d.scopedGenerators ++ [d.calls.length] := by
      intro n hn
      rcases mem_append.mp hn with hn | hn
      · exact mem_append_left _ (hheld n hn)
      · exact mem_append_right _ hn
    split
    · rename_i hshared
      refine ⟨⟨?_, hheld'⟩, h.evt, fun hnone => ?_, hcalls, hmanager, hsuspended.symm⟩
      · have hcounted := h.counted
        rw [if_pos hshared] at hcounted
        simp [hcounted, hshared]
      · rw [hnone] at hshared
        cases hshared
    · -- the first suspension: the generator takes the event over from `uniqueEvt`
      rename_i hnone
      have hnone : d.refEvt = none := by simpa using hnone
      have hevt := h.evt
      unfold Dispatch.evt at hevt
      rw [hnone, Option.or_none] at hevt
      refine ⟨⟨?_, hheld'⟩, ?_, fun hno => ?_, hcalls, hmanager, hsuspended.symm⟩
      · simp [h.unique hnone, hevt]
      · simp [Dispatch.evt, hevt]
      · simp [hevt] at hno
  · rename_i hends
    rw [if_neg hends, append_nil] at hsuspended
    exact ⟨⟨h.counted, hheld⟩, h.evt, h.unique, hcalls, hmanager, hsuspended.symm⟩

theorem Delivering.turn (h : Delivering cb s e d) (info : EventCallbackInfo) :
    Delivering cb s e (d.turn cb info) := by
  unfold Dispatch.turn
  dsimp only
  rw [show Dispatch.evt { d with turns := d.turns ++ [(info, d.manager.services)] } = some e
    from h.evt]
  dsimp only
  split
  · rename_i hpasses
    exact h.call info _ hpasses
  · rename_i hskip
    refine ⟨⟨h.counted, h.held⟩, h.evt, h.unique, ?_, h.manager, h.suspended⟩
    rw [h.calls, filter_append]
    simp [hskip]

theorem delivering_foldl (callbacks : List EventCallbackInfo) (h : Delivering cb s e d) :
    Delivering cb s e (callbacks.foldl (turn cb) d) :=
  foldlRecOn callbacks _ h fun _ ht info _ => ht.turn info

theorem delivering_start (cb : Callbacks) (s : DependencyManager) (e : Event) :
    Delivering cb s e (start s e) :=
  ⟨⟨rfl, by simp [start]⟩, rfl, fun _ => rfl, rfl, rfl, rfl⟩

theorem turn_turns (cb : Callbacks) (d : Dispatch) (info : EventCallbackInfo) :
    (d.turn cb info).turns = d.turns ++ [(info, d.manager.services)] := by
  unfold turn call
  dsimp only
  repeat' split
  all_goals rfl

theorem foldl_turns (cb : Callbacks) (callbacks : List EventCallbackInfo) (d : Dispatch) :
    ∃ turns, (callbacks.foldl (turn cb) d).turns = d.turns ++ turns ∧
      turns.map Prod.fst = callbacks := by
  induction callbacks generalizing d with
  | nil => exact ⟨[], by simp⟩
  | cons info callbacks ih =>
    obtain ⟨turns, hturns, hmap⟩ := ih (d.turn cb info)
    refine ⟨(info, d.manager.services) :: turns, ?_, by simp [hmap]⟩
    rw [foldl_cons, hturns, turn_turns, append_assoc, singleton_append]

theorem Held.act (h : Held d) {a : DispatchAction} (hact : act a d = some d') : Held d' := by
  cases a with
  | finish n =>
    cases hact
    exact ⟨h.counted, fun m hm => h.held m (mem_filter.mp hm).1⟩
  | continuable n =>
    unfold Dispatch.act at hact
    dsimp only at hact
    split at hact
    · rename_i hdone
      cases hact
      constructor
      · have hpos : 0 < d.scopedGenerators.length := length_pos_of_mem hdone.1
        show d.useCount - 1 = (d.scopedGenerators.erase n).length +
          if d.refEvt.isSome then 1 else 0
        rw [length_erase_of_mem hdone.1, h.counted]
        omega
      · intro m hm
        have hne : m ≠ n := fun heq => hdone.2 (heq ▸ hm)
        exact (mem_erase_of_ne hne).mpr (h.held m hm)
    · cases hact
      exact h

theorem act_owners {a : DispatchAction} (hact : act a d = some d') :
    d'.uniqueEvt = d.uniqueEvt ∧ d'.refEvt = d.refEvt := by
  unfold act at hact
  split at hact
  · cases hact
    exact ⟨rfl, rfl⟩
  · split at hact <;> cases hact <;> exact ⟨rfl, rfl⟩

theorem Held.leave (h : Held d) : d.leave.useCount = d.leave.scopedGenerators.length + 0 := by
  have hcounted := h.counted
  unfold Dispatch.leave
  split <;> simp_all

/-- While the `n`-th callback is not finished, it stays suspended. -/
theorem suspended_of_run {n : ℕ} (h : GuardedRuns.Run act (fun _ a => a ≠ .finish n) d d')
    (hn : n ∈ d.suspended) : n ∈ d'.suspended := by
  refine h.invariant (fun x => n ∈ x.suspended) hn fun x a y hx hguard hact => ?_
  cases a with
  | finish m =>
    cases hact
    have hne : n ≠ m := fun heq => hguard (heq ▸ rfl)
    exact mem_filter.mpr ⟨hx, decide_eq_true hne⟩
  | continuable m =>
    unfold act at hact
    dsimp only at hact
    split at hact <;> cases hact <;> exact hx

theorem alive_of_run {condition : Dispatch → DispatchAction → Prop} (hd : Held d)
    (h : GuardedRuns.Run act condition d.leave d') :
    (∀ n ∈ d'.suspended, n ∈ d'.scopedGenerators) ∧
      (d'.alive = true ↔ d'.scopedGenerators ≠ []) := by
  obtain ⟨hheld, hunique, href⟩ := h.invariant
    (fun d => Held d ∧ d.uniqueEvt = none ∧ d.refEvt = none) ⟨⟨hd.leave, hd.held⟩, rfl, rfl⟩
    (fun x a y hx _ hact => ⟨hx.1.act hact, (act_owners hact).1.trans hx.2.1,
      (act_owners hact).2.trans hx.2.2⟩)
  refine ⟨hheld.held, ?_⟩
  have hcount : d'.useCount = d'.scopedGenerators.length := by
    rw [hheld.counted, href]
    rfl
  unfold alive
  rw [hunique, hcount, ← length_pos_iff]
  simp

/-- The `n`-th turn: the listener is looked up in the services as the calls before it left them. -/
theorem broadcast_turn {before after : List EventCallbackInfo} {info : EventCallbackInfo}
    (hsplit : s.callbacksOf e.body.type = before ++ info :: after) :
    (broadcast cb s e).turns[before.length]? = some (info, (effects cb
      (((broadcast cb s e).turns.take before.length).filter fun t => passes t.2 e t.1).length
        s).services) := by
  have hbefore : Delivering cb s e (before.foldl (turn cb) (start s e)) :=
    delivering_foldl before (delivering_start cb s e)
  obtain ⟨turns, hturns, hmap⟩ := foldl_turns cb before (start s e)
  have hturns : (before.foldl (turn cb) (start s e)).turns = turns := hturns
  have hlength : turns.length = before.length := by rw [← hmap, length_map]
  obtain ⟨rest, hrest, -⟩ :=
    foldl_turns cb after ((before.foldl (turn cb) (start s e)).turn cb info)
  have hall : (broadcast cb s e).turns = turns ++
      (info, (before.foldl (turn cb) (start s e)).manager.services) :: rest := by
    unfold broadcast
    rw [hsplit, foldl_append, foldl_cons, hrest, turn_turns, hturns]
    simp
  have hcalls := congrArg List.length hbefore.calls
  rw [length_map, hturns] at hcalls
  rw [hall, ← hlength, take_left, ← hcalls, ← hbefore.manager,
    getElem?_append_right (Nat.le_refl _), Nat.sub_self]
  rfl

/-- Callbacks that leave the services as they are: every listener is looked up in the same table. -/
theorem foldl_services (hkept : ∀ n t, (cb.effect n t).services = t.services)
    (callbacks : List EventCallbackInfo) (d : Dispatch) : (callbacks.foldl (turn cb) d).turns =
      d.turns ++ callbacks.map fun info => (info, d.manager.services) := by
  induction callbacks generalizing d with
  | nil => exact (append_nil _).symm
  | cons info callbacks ih =>
    have hservices : (d.turn cb info).manager.services = d.manager.services := by
      unfold turn call
      dsimp only
      repeat' split
      all_goals first | rfl | exact hkept _ _
    rw [foldl_cons, ih, turn_turns, hservices, append_assoc]
    rfl

/-- Every callback that is registered at the beginning has its turn, in the order of registration, and
at its turn the loop sees the services as the calls before it left them. It is called with the event,
once, if and only if it passes the checks then; what it does is done, and it is suspended unless it
ends or a later callback finishes it. Afterwards, while callbacks finish and the manager goes on with
them in any order, the event exists as long as a generator holds it, and as long as a callback has not
finished. Where callbacks leave the services alone, the calls are those of the manager's own model,
in which the rest of what a callback does comes after the event. -/
theorem broadcast_delivers (cb : Callbacks) (s : DependencyManager) (e : Event) :
    (broadcast cb s e).turns.map Prod.fst = s.callbacksOf e.body.type ∧
    (∀ before info after, s.callbacksOf e.body.type = before ++ info :: after →
      (broadcast cb s e).turns[before.length]? = some (info, (effects cb
        (((broadcast cb s e).turns.take before.length).filter fun t => passes t.2 e t.1).length
          s).services)) ∧
    (broadcast cb s e).calls =
      ((broadcast cb s e).turns.filter fun t => passes t.2 e t.1).map (fun t => (t.1, e)) ∧
    (broadcast cb s e).evt = some e ∧
    (broadcast cb s e).manager = effects cb (broadcast cb s e).calls.length s ∧
    (∀ n, n ∈ (broadcast cb s e).suspended ↔ n < (broadcast cb s e).calls.length ∧
      unfinished cb (broadcast cb s e).calls.length n = true) ∧
    (∀ d, GuardedRuns.Run act (fun _ _ => True) (broadcast cb s e).leave d →
      (∀ n ∈ d.suspended, n ∈ d.scopedGenerators) ∧
      (d.alive = true ↔ d.scopedGenerators ≠ [])) ∧
    (∀ n ∈ (broadcast cb s e).suspended, ∀ d,
      GuardedRuns.Run act (fun _ a => a ≠ .finish n) (broadcast cb s e).leave d →
        n ∈ d.suspended ∧ n ∈ d.scopedGenerators ∧ d.alive = true) ∧
    ((∀ n t, (cb.effect n t).services = t.services) → ∀ u,
      (s.broadcastEvent u e).manager.trace = ((broadcast cb s e).calls.map fun c =>
        .handler c.1.listeningServiceId c.2.id).reverse ++ s.trace) := by
  have hend : Delivering cb s e (broadcast cb s e) :=
    delivering_foldl _ (delivering_start cb s e)
  refine ⟨?_, fun before info after hsplit => broadcast_turn hsplit, hend.calls, hend.evt,
    hend.manager, fun n => ?_, fun d hrun => alive_of_run hend.toHeld hrun, fun n hn d hrun => ?_,
    fun hkept u => ?_⟩
  · obtain ⟨turns, hturns, hmap⟩ := foldl_turns cb (s.callbacksOf e.body.type) (start s e)
    exact (congrArg (List.map Prod.fst) hturns).trans hmap
  · rw [hend.suspended, mem_filter, mem_range]
  · obtain ⟨hheld, halive⟩ := alive_of_run hend.toHeld hrun
    have hstays : n ∈ d.suspended := suspended_of_run hrun hn
    exact ⟨hstays, hheld n hstays, halive.mpr (ne_nil_of_mem (hheld n hstays))⟩
  · have hturns : (broadcast cb s e).turns =
        (s.callbacksOf e.body.type).map fun info => (info, s.services) :=
      foldl_services hkept _ _
    rw [(broadcastEvent_trace s u e).2, hend.calls, hturns, filter_map, map_map, map_map]
    rfl

end Dispatch

end Ichor
