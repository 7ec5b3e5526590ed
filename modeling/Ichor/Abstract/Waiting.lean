import Ichor.Abstract.Leaving

/-! The table of waiting coroutines. Every suspended `dependencyOffline` waits for
the event its point names, exactly once, and whatever waits is suspended. -/
namespace Ichor.Lifecycle
open List Function

/-- The coroutine waits for this event of `d`. -/
def WaitsAs (d : ServiceId) (type : EventType) (g : ScopedGenerator) : Prop :=
  (∃ p point, g.generator.coroutine = .dependencyOffline p point ∧ g.generator.serviceId = d ∧
    type = waitType point) ∨
  (¬offlineLike g.generator.coroutine ∧ (type = .startService ∨ type = .stopService))

/-- The phase wakes the coroutines that wait for this event of `d`. -/
def Phase.Wakes (d : ServiceId) (type : EventType) : Phase → Prop
  | .online p => p = d ∧ type = .dependencyOnline
  | .offlineWake p _ => p = d ∧ type = .dependencyOffline
  | .stopWake p => p = d ∧ type = .dependencyOffline
  | _ => False

structure Waiting (waiters : ServiceId → List (EventType × PromiseId))
    (generator : PromiseId → Option ScopedGenerator) (taken : List PromiseId)
    (entry : ServiceId → Prop) (phase : Phase) : Prop where
  sound : ∀ d type q, (type, q) ∈ waiters d →
    ∃ g, generator q = some g ∧ g.generator.state = .suspended ∧ WaitsAs d type g
  complete : ∀ q g p point, generator q = some g → g.generator.state = .suspended →
    g.generator.coroutine = .dependencyOffline p point →
    (waitType point, q) ∈ waiters g.generator.serviceId ∨ q ∈ taken
  nodup : ∀ d, ((waiters d).map Prod.snd).Nodup
  takenNodup : taken.Nodup
  takenOut : ∀ q ∈ taken, ∀ d type, (type, q) ∉ waiters d
  takenSound : ∀ q ∈ taken, ∃ g p point, generator q = some g ∧ g.generator.state = .suspended ∧
    g.generator.coroutine = .dependencyOffline p point ∧
    phase.Wakes g.generator.serviceId (waitType point)
  entries : ∀ d, waiters d ≠ [] → entry d

namespace Waiting
variable {waiters : ServiceId → List (EventType × PromiseId)}
  {generator : PromiseId → Option ScopedGenerator} {taken : List PromiseId}
  {entry : ServiceId → Prop} {phase : Phase}

theorem setPhase (h : Waiting waiters generator [] entry phase) (phase' : Phase) :
    Waiting waiters generator [] entry phase' where
  __ := h
  takenSound q hq := by cases hq

section
variable (h : Waiting waiters generator taken entry phase)
include h

theorem setGenerator (q : PromiseId)
    (og : Option ScopedGenerator) (hw : ∀ d type, (type, q) ∉ waiters d) (ht : q ∉ taken)
    (hnew : ∀ g ∈ og, offlineLike g.generator.coroutine → g.generator.state ≠ .suspended) :
    Waiting waiters (update generator q og) taken entry phase where
  __ := h
  sound d type q' hq' := by
    obtain ⟨g, hg, hs, hwa⟩ := h.sound d type q' hq'
    refine ⟨g, Coroutines.keep_update hg ?_, hs, hwa⟩
    rintro rfl
    exact hw d type hq'
  complete q' g' p point hg' hs hc := by
    rcases Coroutines.get_update hg' with ⟨_, hog⟩ | ⟨_, hg'⟩
    · exact absurd hs (hnew g' hog (by simp [hc, offlineLike]))
    · exact h.complete q' g' p point hg' hs hc
  takenSound q' hq' := by
    obtain ⟨g, p, point, hg, hrest⟩ := h.takenSound q' hq'
    refine ⟨g, p, point, Coroutines.keep_update hg ?_, hrest⟩
    rintro rfl
    exact ht hq'

theorem not_waiting {q : PromiseId}
    (hq : ∀ g, generator q = some g → g.generator.state ≠ .suspended) :
    (∀ d type, (type, q) ∉ waiters d) ∧ q ∉ taken := by
  refine ⟨fun d type hw => ?_, fun ht => ?_⟩
  · obtain ⟨g, hg, hs, _⟩ := h.sound d type q hw
    exact hq g hg hs
  · obtain ⟨g, _, _, hg, hs, _⟩ := h.takenSound q ht
    exact hq g hg hs

theorem wait (d : ServiceId) (type : EventType)
    (q : PromiseId) (g : ScopedGenerator) (hw : ∀ d type, (type, q) ∉ waiters d) (ht : q ∉ taken)
    (hs : g.generator.state = .suspended) (hwa : WaitsAs d type g) :
    Waiting (update waiters d (waiters d ++ [(type, q)]))
      (update generator q (some g)) taken (fun x => entry x ∨ x = d) phase := by
  have hmem : ∀ x t q', (t, q') ∈ update waiters d (waiters d ++ [(type, q)]) x ↔
      (t, q') ∈ waiters x ∨ (x = d ∧ t = type ∧ q' = q) := by
    intro x t q'
    rw [mem_update_append, Prod.mk.injEq]
  exact {
    takenNodup := h.takenNodup
    sound := fun x t q' hq' => by
      rcases (hmem x t q').mp hq' with hold | ⟨rfl, rfl, rfl⟩
      · obtain ⟨g', hg', hrest⟩ := h.sound x t q' hold
        refine ⟨g', Coroutines.keep_update hg' ?_, hrest⟩
        rintro rfl
        exact hw x t hold
      · exact ⟨g, update_self .., hs, hwa⟩
    complete := fun q' g' p point hg' hs' hc => by
      rcases Coroutines.get_update hg' with ⟨rfl, hog⟩ | ⟨_, hg'⟩
      · cases hog
        refine .inl ((hmem _ _ _).mpr (.inr ?_))
        rcases hwa with ⟨p', point', hc', hd, ht'⟩ | ⟨hn, _⟩
        · rw [hc] at hc'
          injection hc' with _ hpt
          exact ⟨hd, by rw [ht', hpt], rfl⟩
        · rw [hc] at hn
          exact absurd trivial hn
      · exact (h.complete q' g' p point hg' hs' hc).imp_left fun hm => (hmem _ _ _).mpr (.inl hm)
    nodup := by
      refine nodup_update_append Prod.snd h.nodup ?_
      rintro ⟨t, _⟩ hq' rfl
      exact hw d t hq'
    takenOut := fun q' hq' x t hm => by
      rcases (hmem x t q').mp hm with hm | ⟨_, _, rfl⟩
      · exact h.takenOut q' hq' x t hm
      · exact ht hq'
    takenSound := fun q' hq' => by
      obtain ⟨g', p, point, hg', hrest⟩ := h.takenSound q' hq'
      refine ⟨g', p, point, Coroutines.keep_update hg' ?_, hrest⟩
      rintro rfl
      exact ht hq'
    entries := fun x hx => by
      by_cases hxd : x = d
      · exact .inr hxd
      · rw [update_of_ne hxd] at hx
        exact .inl (h.entries x hx) }

end

theorem wake (h : Waiting waiters generator [] entry phase) (d : ServiceId) (type : EventType)
    (phase' : Phase) (hwakes : phase'.Wakes d type)
    (hty : type = .dependencyOnline ∨ type = .dependencyOffline) :
    Waiting (update waiters d ((waiters d).filter fun w => decide (w.1 ≠ type))) generator
      (((waiters d).filter fun w => decide (w.1 = type)).map Prod.snd) entry phase' := by
  have hmem : ∀ x t q, (t, q) ∈ update waiters d
      ((waiters d).filter fun w => decide (w.1 ≠ type)) x ↔
      (t, q) ∈ waiters x ∧ (x = d → t ≠ type) := by
    intro x t q
    by_cases hx : x = d
    · subst hx
      rw [update_self]
      simp
    · rw [update_of_ne hx]
      simp [hx]
  have htaken : ∀ q, q ∈ ((waiters d).filter fun w => decide (w.1 = type)).map Prod.snd ↔
      (type, q) ∈ waiters d := by
    intro q
    constructor
    · intro hq
      obtain ⟨⟨t, q'⟩, hm, rfl⟩ := mem_map.mp hq
      rw [mem_filter] at hm
      have ht : t = type := of_decide_eq_true hm.2
      exact ht ▸ hm.1
    · intro hq
      exact mem_map.mpr ⟨(type, q), mem_filter.mpr ⟨hq, decide_eq_true rfl⟩, rfl⟩
  have hoff : ∀ q, (type, q) ∈ waiters d → ∃ g p point, generator q = some g ∧
      g.generator.state = .suspended ∧ g.generator.coroutine = .dependencyOffline p point ∧
      g.generator.serviceId = d ∧ type = waitType point := by
    intro q hq
    obtain ⟨g, hg, hs, ⟨p, point, hc, hd, ht⟩ | ⟨_, ht⟩⟩ := h.sound d type q hq
    · exact ⟨g, p, point, hg, hs, hc, hd, ht⟩
    · rcases hty with rfl | rfl <;> simp at ht
  exact {
    sound := fun x t q hq => h.sound x t q ((hmem x t q).mp hq).1
    complete := fun q g p point hg hs hc => by
      rcases h.complete q g p point hg hs hc with hm | hm
      · by_cases hx : g.generator.serviceId = d ∧ waitType point = type
        · right
          rw [htaken, ← hx.1, ← hx.2]
          exact hm
        · left
          exact (hmem _ _ _).mpr ⟨hm, fun hd ht => hx ⟨hd, ht⟩⟩
      · cases hm
    nodup := fun x => by
      by_cases hx : x = d
      · subst hx
        rw [update_self]
        exact (h.nodup x).sublist (filter_sublist.map Prod.snd)
      · rw [update_of_ne hx]
        exact h.nodup x
    takenNodup := (h.nodup d).sublist (filter_sublist.map Prod.snd)
    takenOut := fun q hq x t hm => by
      rw [htaken] at hq
      obtain ⟨g, p, point, hg, _, hc, hd, ht⟩ := hoff q hq
      obtain ⟨hx, hne⟩ := (hmem x t q).mp hm
      obtain ⟨g', hg', _, ⟨p', point', hc', hd', ht'⟩ | ⟨hn, _⟩⟩ := h.sound x t q hx
      · rw [hg] at hg'
        cases hg'
        rw [hc] at hc'
        injection hc' with _ hpt
        exact hne (hd'.symm.trans hd) (by rw [ht', ht, hpt])
      · rw [hg] at hg'
        cases hg'
        rw [hc] at hn
        exact hn trivial
    takenSound := fun q hq => by
      rw [htaken] at hq
      obtain ⟨g, p, point, hg, hs, hc, hd, ht⟩ := hoff q hq
      refine ⟨g, p, point, hg, hs, hc, ?_⟩
      rw [hd, ← ht]
      exact hwakes
    entries := fun x hx => by
      refine h.entries x fun hn => hx ?_
      by_cases hxd : x = d
      · subst hxd
        rw [update_self, hn]
        rfl
      · rw [update_of_ne hxd]
        exact hn }

theorem untake {q : PromiseId} (h : Waiting waiters generator (q :: taken) entry phase)
    (g : ScopedGenerator) (hg : g.generator.state ≠ .suspended) :
    Waiting waiters (update generator q (some g)) taken entry phase := by
  have hnd := nodup_cons.mp h.takenNodup
  exact {
    __ := h
    takenNodup := hnd.2
    takenOut := fun q' hq' => h.takenOut q' (mem_cons_of_mem _ hq')
    sound := fun d type q' hq' => by
      obtain ⟨g', hg', hrest⟩ := h.sound d type q' hq'
      refine ⟨g', Coroutines.keep_update hg' ?_, hrest⟩
      rintro rfl
      exact h.takenOut q' mem_cons_self d type hq'
    complete := fun q' g' p point hg' hs hc => by
      rcases Coroutines.get_update hg' with ⟨_, hog⟩ | ⟨hne, hg'⟩
      · cases hog
        exact absurd hs hg
      · refine (h.complete q' g' p point hg' hs hc).imp_right fun hm => ?_
        exact (mem_cons.mp hm).resolve_left hne
    takenSound := fun q' hq' => by
      obtain ⟨g', p, point, hg', hrest⟩ := h.takenSound q' (mem_cons_of_mem _ hq')
      refine ⟨g', p, point, Coroutines.keep_update hg' ?_, hrest⟩
      rintro rfl
      exact hnd.1 hq' }

theorem woken (h : Waiting waiters generator [] entry phase) (d : ServiceId) (phase' : Phase) :
    Waiting waiters generator [] (fun x => entry x ∧ (x = d → waiters d ≠ [])) phase' where
  __ := h
  takenSound q hq := by cases hq
  entries x hx := ⟨h.entries x hx, fun he => he ▸ hx⟩

end Waiting

end Ichor.Lifecycle
