import Ichor.Abstract.Waiting

/-! Identifiers are handed out once: promises, service ids and the events that
mention them. -/
namespace Ichor.Lifecycle
open DependencyManager List Function Nat

/-- The service that the event brings into the table. -/
def insertedId (e : Event) : Option ServiceId :=
  match e.body with
  | .insertService _ => some e.originatingService
  | _ => none

/-- The event continues the generator stored under `q`. -/
def continues (q : PromiseId) : EventBody → Prop
  | .continuable q' => q' = q
  | .continuableStart q' => q' = q
  | _ => False

structure Fresh (state : ServiceId → ServiceState)
    (generator : PromiseId → Option ScopedGenerator) (queue : List Event)
    (nextPromise : PromiseId) (nextService : ServiceId) : Prop where
  promise : ∀ q g, generator q = some g → q < nextPromise
  service : ∀ d, state d ≠ .uninstalled → d < nextService
  first : 0 < nextService
  inserted : ∀ e ∈ queue, ∀ m, e.body = .insertService m →
    0 < e.originatingService ∧ e.originatingService < nextService ∧
      state e.originatingService = .uninstalled ∧
      ∃ desc, m = createdManager e.originatingService desc
  insertedOnce : (queue.filterMap insertedId).Nodup
  owner : ∀ q g, generator q = some g → g.generator.coroutine ≠ .user →
    g.generator.serviceId < nextService ∧
      ∀ e ∈ queue, insertedId e ≠ some g.generator.serviceId
  continued : ∀ e ∈ queue, ∀ q, continues q e.body → q < nextPromise
  ofUser : ∀ e ∈ queue, ∀ q g, e.body = .continuable q → generator q = some g →
    g.generator.coroutine = .user
  ofManager : ∀ e ∈ queue, ∀ q g, e.body = .continuableStart q → generator q = some g →
    g.generator.coroutine ≠ .user

namespace Fresh
variable {state : ServiceId → ServiceState} {generator : PromiseId → Option ScopedGenerator}
  {queue : List Event} {nextPromise : PromiseId} {nextService : ServiceId}

variable {e : Event} {d : ServiceId}

theorem insertedId_eq_some :
    insertedId e = some d ↔ (∃ m, e.body = .insertService m) ∧ e.originatingService = d := by
  unfold insertedId
  cases e.body <;> simp

theorem setQueue (h : Fresh state generator queue nextPromise nextService) {queue' : List Event}
    (hq : queue'.Subperm queue) : Fresh state generator queue' nextPromise nextService where
  __ := h
  inserted e he := h.inserted e (hq.subset he)
  insertedOnce := by
    obtain ⟨l, hl, hs⟩ := hq
    exact (hl.filterMap insertedId).nodup_iff.mp ((hs.filterMap insertedId).nodup h.insertedOnce)
  owner q g hg hc := ⟨(h.owner q g hg hc).1, fun e he => (h.owner q g hg hc).2 e (hq.subset he)⟩
  continued e he := h.continued e (hq.subset he)
  ofUser e he := h.ofUser e (hq.subset he)
  ofManager e he := h.ofManager e (hq.subset he)

variable {rest : List Event}

theorem tail (h : Fresh state generator (e :: rest) nextPromise nextService) :
    Fresh state generator rest nextPromise nextService :=
  h.setQueue (sublist_cons_self e rest).subperm

/-- An event that neither inserts a service nor continues a generator. -/
def Inert (e : Event) : Prop := insertedId e = none ∧ ∀ q, ¬continues q e.body

section
variable (h : Fresh state generator queue nextPromise nextService)
include h

theorem push (e : Event) (hi : insertedId e = none) (hu : ∀ q, e.body = .continuable q →
      q < nextPromise ∧ ∀ g, generator q = some g → g.generator.coroutine = .user)
    (hm : ∀ q, e.body = .continuableStart q →
      q < nextPromise ∧ ∀ g, generator q = some g → g.generator.coroutine ≠ .user) :
    Fresh state generator (queue ++ [e]) nextPromise nextService := by
  have hmem : ∀ x, x ∈ queue ++ [e] → x ∈ queue ∨ x = e := by
    intro x hx
    simpa using hx
  exact {
    __ := h
    inserted := fun x hx m hxm => by
      rcases hmem x hx with hx | rfl
      · exact h.inserted x hx m hxm
      · simp [insertedId, hxm] at hi
    insertedOnce := by
      rw [filterMap_append]
      simpa [hi] using h.insertedOnce
    owner := fun q g hg hc => by
      refine ⟨(h.owner q g hg hc).1, fun x hx => ?_⟩
      rcases hmem x hx with hx | rfl
      · exact (h.owner q g hg hc).2 x hx
      · simp [hi]
    continued := fun x hx q hq => by
      rcases hmem x hx with hx | rfl
      · exact h.continued x hx q hq
      · generalize hb : x.body = b at hq hu hm
        cases b <;> simp only [continues] at hq
        · exact hq ▸ (hu _ rfl).1
        · exact hq ▸ (hm _ rfl).1
    ofUser := fun x hx q g hb hg => by
      rcases hmem x hx with hx | rfl
      · exact h.ofUser x hx q g hb hg
      · exact (hu q hb).2 g hg
    ofManager := fun x hx q g hb hg => by
      rcases hmem x hx with hx | rfl
      · exact h.ofManager x hx q g hb hg
      · exact (hm q hb).2 g hg }

theorem pushInert (e : Event) (he : Inert e) :
    Fresh state generator (queue ++ [e]) nextPromise nextService := by
  refine h.push e he.1 (fun q hq => ?_) (fun q hq => ?_)
  · exact absurd (by simp [continues, hq]) (he.2 q)
  · exact absurd (by simp [continues, hq]) (he.2 q)

theorem pushAll (events : List Event) (he : ∀ e ∈ events, Inert e) :
    Fresh state generator (queue ++ events) nextPromise nextService := by
  induction events generalizing queue with
  | nil => simpa using h
  | cons e rest ih =>
    have hpush := h.pushInert e (he e mem_cons_self)
    have hall := ih hpush fun x hx => he x (mem_cons_of_mem _ hx)
    rwa [append_assoc, singleton_append] at hall

theorem create (e : Event) (desc : ServiceDescription)
    (hb : e.body = .insertService (createdManager nextService desc))
    (he : e.originatingService = nextService) :
    Fresh state generator (queue ++ [e]) nextPromise (nextService + 1) := by
  have hid : insertedId e = some nextService := insertedId_eq_some.mpr ⟨⟨_, hb⟩, he⟩
  have hmem : ∀ x, x ∈ queue ++ [e] → x ∈ queue ∨ x = e := by
    intro x hx
    simpa using hx
  have hlt : ∀ x ∈ queue, ∀ d, insertedId x = some d → d < nextService := by
    intro x hx d hd
    obtain ⟨⟨m, hm⟩, rfl⟩ := insertedId_eq_some.mp hd
    exact (h.inserted x hx m hm).2.1
  exact {
    promise := h.promise
    service := fun d hd => Nat.lt_succ_of_lt (h.service d hd)
    first := succ_pos _
    inserted := fun x hx m hm => by
      rcases hmem x hx with hx | rfl
      · obtain ⟨h0, h1, h2⟩ := h.inserted x hx m hm
        exact ⟨h0, Nat.lt_succ_of_lt h1, h2⟩
      · rw [he]
        refine ⟨h.first, lt_succ_self _, ?_, desc, ?_⟩
        · by_contra hs
          exact Nat.lt_irrefl _ (h.service nextService hs)
        · rw [hb] at hm
          injection hm with hm
          exact hm.symm
    insertedOnce := by
      rw [filterMap_append]
      simp only [filterMap_cons, hid, filterMap_nil]
      rw [nodup_append]
      refine ⟨h.insertedOnce, nodup_singleton _, ?_⟩
      intro a ha b hb' hab
      rw [mem_singleton] at hb'
      obtain ⟨x, hx, hxa⟩ := mem_filterMap.mp ha
      rw [hab, hb'] at hxa
      exact Nat.lt_irrefl _ (hlt x hx _ hxa)
    owner := fun q g hg hc => by
      obtain ⟨h1, h2⟩ := h.owner q g hg hc
      refine ⟨Nat.lt_succ_of_lt h1, fun x hx => ?_⟩
      rcases hmem x hx with hx | rfl
      · exact h2 x hx
      · rw [hid]
        intro heq
        injection heq with heq
        exact Nat.ne_of_gt h1 heq
    continued := fun x hx q hq => by
      rcases hmem x hx with hx | rfl
      · exact h.continued x hx q hq
      · simp [continues, hb] at hq
    ofUser := fun x hx q g hxb hg => by
      rcases hmem x hx with hx | rfl
      · exact h.ofUser x hx q g hxb hg
      · simp [hb] at hxb
    ofManager := fun x hx q g hxb hg => by
      rcases hmem x hx with hx | rfl
      · exact h.ofManager x hx q g hxb hg
      · simp [hb] at hxb }

theorem setState {state' : ServiceId → ServiceState}
    (hs : ∀ d, state' d ≠ .uninstalled → state d ≠ .uninstalled) :
    Fresh state' generator queue nextPromise nextService where
  __ := h
  service d hd := h.service d (hs d hd)
  inserted e he m hm := by
    obtain ⟨h0, h1, h2, h3⟩ := h.inserted e he m hm
    refine ⟨h0, h1, ?_, h3⟩
    by_contra hn
    exact hs _ hn h2

theorem updateState (d : ServiceId) (st : ServiceState) (hd : state d ≠ .uninstalled) :
    Fresh (update state d st) generator queue nextPromise nextService := by
  refine h.setState fun x hx => ?_
  by_cases hxd : x = d
  · rw [hxd]
    exact hd
  · rwa [update_of_ne hxd] at hx

end

theorem install {m : LifecycleManager}
    (h : Fresh state generator (e :: rest) nextPromise nextService)
    (hb : e.body = .insertService m) (hd : e.originatingService = d) (st : ServiceState) :
    Fresh (update state d st) generator rest nextPromise nextService := by
  have hid : insertedId e = some d := insertedId_eq_some.mpr ⟨⟨m, hb⟩, hd⟩
  have hins := h.inserted e mem_cons_self m hb
  rw [hd] at hins
  have honce := h.insertedOnce
  simp only [filterMap_cons, hid, nodup_cons] at honce
  exact { h.tail with
    service := fun x hx => by
      by_cases hxd : x = d
      · rw [hxd]
        exact hins.2.1
      · rw [update_of_ne hxd] at hx
        exact h.service x hx
    inserted := fun x hx m' hm' => by
      obtain ⟨h0, h1, h2, h3⟩ := h.tail.inserted x hx m' hm'
      refine ⟨h0, h1, ?_, h3⟩
      have hne : x.originatingService ≠ d := by
        intro heq
        refine honce.1 (mem_filterMap.mpr ⟨x, hx, ?_⟩)
        exact insertedId_eq_some.mpr ⟨⟨m', hm'⟩, heq⟩
      rw [update_of_ne hne]
      exact h2 }

variable (h : Fresh state generator queue nextPromise nextService)
include h

theorem takePromise : Fresh state generator queue (nextPromise + 1) nextService where
  promise q g hg := Nat.lt_succ_of_lt (h.promise q g hg)
  __ := h
  continued e he q hq := Nat.lt_succ_of_lt (h.continued e he q hq)

theorem next_none : generator nextPromise = none := by
  cases hg : generator nextPromise with
  | none => rfl
  | some g => exact absurd (h.promise nextPromise g hg) (Nat.lt_irrefl _)

theorem store (g : ScopedGenerator)
    (hg : g.generator.coroutine ≠ .user → state g.generator.serviceId ≠ .uninstalled) :
    Fresh state (update generator nextPromise (some g)) queue (nextPromise + 1)
      nextService := by
  have hlt : ∀ e ∈ queue, ∀ q, continues q e.body → q ≠ nextPromise :=
    fun e he q hq => Nat.ne_of_lt (h.continued e he q hq)
  exact { h.takePromise with
    promise := fun q g' hg' => by
      rcases Coroutines.get_update hg' with ⟨rfl, _⟩ | ⟨_, hg'⟩
      · exact lt_succ_self _
      · exact h.takePromise.promise q g' hg'
    owner := fun q g' hg' hc => by
      rcases Coroutines.get_update hg' with ⟨_, hog⟩ | ⟨_, hg'⟩
      · cases hog
        refine ⟨h.service _ (hg hc), fun e he hid => ?_⟩
        obtain ⟨⟨m, hm⟩, ho⟩ := insertedId_eq_some.mp hid
        exact hg hc (ho ▸ (h.inserted e he m hm).2.2.1)
      · exact h.owner q g' hg' hc
    ofUser := fun e he q g' hb hg' => by
      have hq := hlt e he q (by simp [continues, hb])
      rw [update_of_ne hq] at hg'
      exact h.ofUser e he q g' hb hg'
    ofManager := fun e he q g' hb hg' => by
      have hq := hlt e he q (by simp [continues, hb])
      rw [update_of_ne hq] at hg'
      exact h.ofManager e he q g' hb hg' }

theorem replace (q : PromiseId) (g g' : ScopedGenerator) (hg : generator q = some g)
    (hd : g'.generator.serviceId = g.generator.serviceId)
    (hc : g'.generator.coroutine = .user ↔ g.generator.coroutine = .user) :
    Fresh state (update generator q (some g')) queue nextPromise nextService := by
  have hback : ∀ q' x, update generator q (some g') q' = some x →
      ∃ y, generator q' = some y ∧ x.generator.serviceId = y.generator.serviceId ∧
        (x.generator.coroutine = .user ↔ y.generator.coroutine = .user) := by
    intro q' x hx
    rcases Coroutines.get_update hx with ⟨rfl, hog⟩ | ⟨_, hx⟩
    · cases hog
      exact ⟨g, hg, hd, hc⟩
    · exact ⟨x, hx, rfl, Iff.rfl⟩
  exact { h with
    promise := fun q' x hx => by
      obtain ⟨y, hy, _⟩ := hback q' x hx
      exact h.promise q' y hy
    owner := fun q' x hx hxc => by
      obtain ⟨y, hy, hs, hu⟩ := hback q' x hx
      rw [hs]
      exact h.owner q' y hy fun hyc => hxc (hu.mpr hyc)
    ofUser := fun e he q' x hb hx => by
      obtain ⟨y, hy, _, hu⟩ := hback q' x hx
      exact hu.mpr (h.ofUser e he q' y hb hy)
    ofManager := fun e he q' x hb hx => by
      obtain ⟨y, hy, _, hu⟩ := hback q' x hx
      exact fun hxc => h.ofManager e he q' y hb hy (hu.mp hxc) }

theorem erase (q : PromiseId) :
    Fresh state (update generator q none) queue nextPromise nextService := by
  have hback : ∀ q' x, update generator q none q' = some x → generator q' = some x := by
    intro q' x hx
    rcases Coroutines.get_update hx with ⟨_, hog⟩ | ⟨_, hx⟩
    · cases hog
    · exact hx
  exact { h with
    promise := fun q' x hx => h.promise q' x (hback q' x hx)
    owner := fun q' x hx => h.owner q' x (hback q' x hx)
    ofUser := fun e he q' x hb hx => h.ofUser e he q' x hb (hback q' x hx)
    ofManager := fun e he q' x hb hx => h.ofManager e he q' x hb (hback q' x hx) }

end Fresh

end Ichor.Lifecycle
