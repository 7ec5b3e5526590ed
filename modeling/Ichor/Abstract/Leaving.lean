import Ichor.Abstract.Coroutines

/-! Providers on their way out. A dependent that is letting a provider go has
either a `dependencyOffline` coroutine for it or a pending entry, never both and
never two of a kind. -/
namespace Ichor.Lifecycle
open List Function

/-- The `dependencyOffline` of `d` for the provider `p`. -/
def LetsGo (d p : ServiceId) (g : ScopedGenerator) : Prop :=
  g.generator.serviceId = d ∧ ∃ point, g.generator.coroutine = .dependencyOffline p point

/-- A `stop()` of `d` that has ended and whose continuation is still to come. -/
def StopEnded (d : ServiceId) (g : ScopedGenerator) : Prop :=
  g.generator.serviceId = d ∧ g.generator.coroutine = .stop ∧ ∃ v, g.generator.state = .finished v

variable {d p x : ServiceId} {g : ScopedGenerator}

/-! ## One more entry for a service -/

theorem mem_update_append {β : Type} {f : ServiceId → List β} {b c : β} :
    c ∈ update f d (f d ++ [b]) x ↔ c ∈ f x ∨ (x = d ∧ c = b) := by
  by_cases hx : x = d
  · subst hx
    simp
  · simp [hx]

theorem nodup_update_append {β γ : Type} {f : ServiceId → List β} (key : β → γ) {b : β}
    (h : ∀ x, ((f x).map key).Nodup) (hb : ∀ c ∈ f d, key c ≠ key b) (x : ServiceId) :
    ((update f d (f d ++ [b]) x).map key).Nodup := by
  by_cases hx : x = d
  · subst hx
    rw [update_self, map_append, map_singleton, nodup_append]
    refine ⟨h x, nodup_singleton _, fun a ha b' hb' => ?_⟩
    obtain ⟨c, hc, rfl⟩ := mem_map.mp ha
    rw [mem_singleton.mp hb']
    exact hb c hc
  · rw [update_of_ne hx]
    exact h x

theorem LetsGo.eq {y : ServiceId} (h : LetsGo d p g) (hx : LetsGo x y g) : x = d ∧ y = p := by
  obtain ⟨hd, point, hc⟩ := h
  obtain ⟨hx, point', hy⟩ := hx
  rw [hc] at hy
  injection hy with hy
  exact ⟨hx.symm.trans hd, hy.symm⟩

structure Leaving (kind : ServiceId → ManagerKind) (state : ServiceId → ServiceState)
    (away : ServiceId → ServiceId → Prop)
    (generator : PromiseId → Option ScopedGenerator)
    (pending : ServiceId → List WaitingStopService) (finishing : ServiceId → Prop) : Prop where
  ofGenerator : ∀ q g d p, generator q = some g → LetsGo d p g → away d p ∨ state d = .uninstalled
  ofPending : ∀ d w, w ∈ pending d → away d w.originatingServiceId ∨ state d = .uninstalled
  cause : ∀ d p, away d p → (∃ q g, generator q = some g ∧ LetsGo d p g) ∨
    ∃ w ∈ pending d, w.originatingServiceId = p
  unique : ∀ d p q g q' g', generator q = some g → generator q' = some g' → LetsGo d p g →
    LetsGo d p g' → q = q'
  disjoint : ∀ d p q g, generator q = some g → LetsGo d p g →
    ∀ w ∈ pending d, w.originatingServiceId ≠ p
  nodup : ∀ d, ((pending d).map WaitingStopService.originatingServiceId).Nodup
  deps : ∀ d w, w ∈ pending d → w.deps ≠ []
  stops : ∀ d w, w ∈ pending d → state d = .uninjecting ∨ state d = .stopping ∨
    (∃ q g, generator q = some g ∧ StopEnded d g) ∨ finishing d
  notInternal : ∀ d w, w ∈ pending d → kind d ≠ .internal
  notSelf : ∀ d p, away d p → p ≠ selfServiceId

namespace Leaving
variable {kind : ServiceId → ManagerKind} {state : ServiceId → ServiceState}
  {away : ServiceId → ServiceId → Prop} {generator : PromiseId → Option ScopedGenerator}
  {pending : ServiceId → List WaitingStopService} {finishing : ServiceId → Prop}

section
variable (h : Leaving kind state away generator pending finishing)
include h

theorem setState (d : ServiceId) (st : ServiceState) (hd : state d ≠ .uninstalled)
    (hs : pending d = [] ∨ st = .uninjecting ∨ st = .stopping ∨ finishing d ∨
      ∃ q g, generator q = some g ∧ StopEnded d g) :
    Leaving kind (update state d st) away generator pending finishing where
  __ := h
  ofGenerator q g x p hg hl := by
    by_cases hx : x = d
    · exact .inl ((h.ofGenerator q g x p hg hl).resolve_right (hx ▸ hd))
    · rw [update_of_ne hx]
      exact h.ofGenerator q g x p hg hl
  ofPending x w hw := by
    by_cases hx : x = d
    · exact .inl ((h.ofPending x w hw).resolve_right (hx ▸ hd))
    · rw [update_of_ne hx]
      exact h.ofPending x w hw
  stops x w hw := by
    by_cases hx : x = d
    · subst hx
      rw [update_self]
      rcases hs with hs | hs | hs | hs | hs
      · rw [hs] at hw
        cases hw
      · exact .inl hs
      · exact .inr (.inl hs)
      · exact .inr (.inr (.inr hs))
      · exact .inr (.inr (.inl hs))
    · rw [update_of_ne hx]
      exact h.stops x w hw

theorem pending_nil (h1 : state d ≠ .uninjecting) (h2 : state d ≠ .stopping)
    (h3 : ¬finishing d) (h4 : ∀ q g, generator q = some g → ¬StopEnded d g) : pending d = [] := by
  rw [eq_nil_iff_forall_not_mem]
  intro w hw
  rcases h.stops d w hw with hs | hs | ⟨q, g, hg, hs⟩ | hs
  · exact h1 hs
  · exact h2 hs
  · exact h4 q g hg hs
  · exact h3 hs

/-- A state change of a service that stays in the table and is not one of those that
hold pending entries. -/
theorem setState_of_ne (d : ServiceId) (st : ServiceState) (hd : state d ≠ .uninstalled)
    (h1 : state d ≠ .uninjecting) (h2 : state d ≠ .stopping) (h3 : ¬finishing d) :
    Leaving kind (update state d st) away generator pending finishing := by
  refine h.setState d st hd ?_
  by_cases h4 : ∃ q g, generator q = some g ∧ StopEnded d g
  · exact .inr (.inr (.inr (.inr h4)))
  · refine .inl (h.pending_nil h1 h2 h3 fun q g hg hs => h4 ⟨q, g, hg, hs⟩)

theorem setFinishing {finishing' : ServiceId → Prop}
    (hf : ∀ d, finishing d → pending d ≠ [] → state d = .uninjecting ∨ state d = .stopping ∨
      (∃ q g, generator q = some g ∧ StopEnded d g) ∨ finishing' d) :
    Leaving kind state away generator pending finishing' where
  __ := h
  stops d w hw := by
    rcases h.stops d w hw with hs | hs | hs | hs
    · exact .inl hs
    · exact .inr (.inl hs)
    · exact .inr (.inr (.inl hs))
    · exact hf d hs (ne_nil_of_mem hw)

/-- Write one place of the generator table with the same kind of generator, or with
one that has nothing to do with providers. -/
theorem setGenerator (q : PromiseId) (og : Option ScopedGenerator)
    (hold : ∀ g d p, generator q = some g → LetsGo d p g → ∃ g', og = some g' ∧ LetsGo d p g')
    (hnew : ∀ g d p, og = some g → LetsGo d p g → ∃ g', generator q = some g' ∧ LetsGo d p g')
    (hstop : ∀ g d, generator q = some g → StopEnded d g →
      (∃ g', og = some g' ∧ StopEnded d g') ∨ pending d = [] ∨ finishing d) :
    Leaving kind state away (update generator q og) pending finishing := by
  have hback : ∀ q' g' d p, update generator q og q' = some g' → LetsGo d p g' →
      ∃ g, generator q' = some g ∧ LetsGo d p g := by
    intro q' g' d p hg' hl
    rcases Coroutines.get_update hg' with ⟨hq, hog⟩ | ⟨_, hg'⟩
    · subst hq
      exact hnew g' d p hog hl
    · exact ⟨g', hg', hl⟩
  exact {
    __ := h
    ofGenerator := fun q' g' d p hg' hl => by
      obtain ⟨g, hg, hl⟩ := hback q' g' d p hg' hl
      exact h.ofGenerator q' g d p hg hl
    cause := fun d p ha => by
      rcases h.cause d p ha with ⟨q', g, hg, hl⟩ | hw
      · refine .inl ?_
        by_cases hq : q' = q
        · subst hq
          obtain ⟨g', rfl, hl'⟩ := hold g d p hg hl
          exact ⟨q', g', update_self .., hl'⟩
        · exact ⟨q', g, Coroutines.keep_update hg hq, hl⟩
      · exact .inr hw
    unique := fun d p q1 g1 q2 g2 hg1 hg2 hl1 hl2 => by
      obtain ⟨g1', hg1', hl1'⟩ := hback q1 g1 d p hg1 hl1
      obtain ⟨g2', hg2', hl2'⟩ := hback q2 g2 d p hg2 hl2
      exact h.unique d p q1 g1' q2 g2' hg1' hg2' hl1' hl2'
    disjoint := fun d p q' g' hg' hl => by
      obtain ⟨g, hg, hl⟩ := hback q' g' d p hg' hl
      exact h.disjoint d p q' g hg hl
    stops := fun d w hw => by
      rcases h.stops d w hw with hs | hs | ⟨q', g, hg, hs⟩ | hs
      · exact .inl hs
      · exact .inr (.inl hs)
      · by_cases hq : q' = q
        · subst hq
          rcases hstop g d hg hs with ⟨g', rfl, hs'⟩ | hn | hf
          · exact .inr (.inr (.inl ⟨q', g', update_self .., hs'⟩))
          · rw [hn] at hw
            cases hw
          · exact .inr (.inr (.inr hf))
        · exact .inr (.inr (.inl ⟨q', g, Coroutines.keep_update hg hq, hs⟩))
      · exact .inr (.inr (.inr hs)) }

end

theorem not_letsGo (hc : ¬offlineLike g.generator.coroutine) : ¬LetsGo d p g := by
  rintro ⟨_, point, hp⟩
  rw [hp] at hc
  exact hc trivial

/-- Write one place of the generator table that has nothing to do with providers. -/
theorem setOther (h : Leaving kind state away generator pending finishing) (q : PromiseId)
    (og : Option ScopedGenerator) (hold : ∀ g ∈ generator q, ¬offlineLike g.generator.coroutine)
    (hnew : ∀ g ∈ og, ¬offlineLike g.generator.coroutine)
    (hstop : ∀ g ∈ generator q, ∀ d, StopEnded d g →
      (∃ g' ∈ og, StopEnded d g') ∨ pending d = [] ∨ finishing d) :
    Leaving kind state away (update generator q og) pending finishing :=
  h.setGenerator q og (fun g _ _ hg hl => absurd hl (not_letsGo (hold g hg)))
    (fun g _ _ hg hl => absurd hl (not_letsGo (hnew g hg))) fun g d hg => hstop g hg d

/-! ## Entering and leaving -/

theorem begin_generator (h : Leaving kind state away generator pending finishing)
    (d p : ServiceId) (q : PromiseId) (g : ScopedGenerator) (hq : generator q = none)
    (ha : ¬away d p) (hd : state d ≠ .uninstalled) (hp : p ≠ selfServiceId) (hg : LetsGo d p g) :
    Leaving kind state (fun x y => away x y ∨ (x = d ∧ y = p))
      (update generator q (some g)) pending finishing := by
  have hnone : ∀ q' g', generator q' = some g' → ¬LetsGo d p g' := by
    intro q' g' hg' hl
    rcases h.ofGenerator q' g' d p hg' hl with h' | h'
    · exact ha h'
    · exact hd h'
  have hkeep : ∀ q' g', generator q' = some g' → update generator q (some g) q' = some g' := by
    intro q' g' hg'
    refine Coroutines.keep_update hg' ?_
    rintro rfl
    rw [hq] at hg'
    cases hg'
  exact {
    __ := h
    ofGenerator := fun q' g' x y hg' hl => by
      rcases Coroutines.get_update hg' with ⟨_, hog⟩ | ⟨_, hg'⟩
      · cases hog
        exact .inl (.inr (hg.eq hl))
      · exact (h.ofGenerator q' g' x y hg' hl).imp_left .inl
    ofPending := fun x w hw => (h.ofPending x w hw).imp_left .inl
    cause := fun x y hxy => by
      rcases hxy with hxy | ⟨rfl, rfl⟩
      · rcases h.cause x y hxy with ⟨q', g', hg', hl⟩ | hw
        · exact .inl ⟨q', g', hkeep q' g' hg', hl⟩
        · exact .inr hw
      · exact .inl ⟨q, g, update_self .., hg⟩
    unique := fun x y q1 g1 q2 g2 hg1 hg2 hl1 hl2 => by
      rcases Coroutines.get_update hg1 with ⟨hq1, hog1⟩ | ⟨_, hg1'⟩
      · cases hog1
        obtain ⟨rfl, rfl⟩ := hg.eq hl1
        rcases Coroutines.get_update hg2 with ⟨hq2, _⟩ | ⟨_, hg2'⟩
        · exact hq1.trans hq2.symm
        · exact absurd hl2 (hnone q2 g2 hg2')
      · rcases Coroutines.get_update hg2 with ⟨_, hog2⟩ | ⟨_, hg2'⟩
        · cases hog2
          obtain ⟨rfl, rfl⟩ := hg.eq hl2
          exact absurd hl1 (hnone q1 g1 hg1')
        · exact h.unique x y q1 g1 q2 g2 hg1' hg2' hl1 hl2
    disjoint := fun x y q' g' hg' hl w hw hy => by
      rcases Coroutines.get_update hg' with ⟨_, hog⟩ | ⟨_, hg'⟩
      · cases hog
        obtain ⟨rfl, rfl⟩ := hg.eq hl
        rcases h.ofPending x w hw with h' | h'
        · exact ha (hy ▸ h')
        · exact hd h'
      · exact h.disjoint x y q' g' hg' hl w hw hy
    stops := fun x w hw => by
      refine (h.stops x w hw).imp_right (Or.imp_right (Or.imp_left ?_))
      rintro ⟨q', g', hg', hs⟩
      exact ⟨q', g', hkeep q' g' hg', hs⟩
    notSelf := fun x y hxy => by
      rcases hxy with hxy | ⟨_, rfl⟩
      · exact h.notSelf x y hxy
      · exact hp }

section
variable (h : Leaving kind state away generator pending finishing)
include h

/-- An UNINJECTING dependent gets a pending entry for the provider `p`, which it
was not letting go in any other way. -/
theorem begin_pending (d : ServiceId) (w : WaitingStopService) (hs : state d = .uninjecting)
    (hk : kind d ≠ .internal) (hw : w.deps ≠ []) (hp : w.originatingServiceId ≠ selfServiceId)
    (hgen : ∀ q g, generator q = some g → ¬LetsGo d w.originatingServiceId g)
    (hpend : ∀ w' ∈ pending d, w'.originatingServiceId ≠ w.originatingServiceId) :
    Leaving kind state (fun x y => away x y ∨ (x = d ∧ y = w.originatingServiceId)) generator
      (update pending d (pending d ++ [w])) finishing where
  unique := h.unique
  ofGenerator q g x y hg hl := (h.ofGenerator q g x y hg hl).imp_left .inl
  ofPending x w' hw' := by
    rcases mem_update_append.mp hw' with hw' | ⟨rfl, rfl⟩
    · exact (h.ofPending x w' hw').imp_left .inl
    · exact .inl (.inr ⟨rfl, rfl⟩)
  cause x y hxy := by
    rcases hxy with hxy | ⟨rfl, rfl⟩
    · rcases h.cause x y hxy with hg | ⟨w', hw', hy⟩
      · exact .inl hg
      · exact .inr ⟨w', mem_update_append.mpr (.inl hw'), hy⟩
    · exact .inr ⟨w, mem_update_append.mpr (.inr ⟨rfl, rfl⟩), rfl⟩
  disjoint x y q g hg hl w' hw' hy := by
    rcases mem_update_append.mp hw' with hw' | ⟨rfl, rfl⟩
    · exact h.disjoint x y q g hg hl w' hw' hy
    · exact hgen q g hg (hy ▸ hl)
  nodup := nodup_update_append _ h.nodup hpend
  deps x w' hw' := by
    rcases mem_update_append.mp hw' with hw' | ⟨_, rfl⟩
    · exact h.deps x w' hw'
    · exact hw
  stops x w' hw' := by
    rcases mem_update_append.mp hw' with hw' | ⟨rfl, _⟩
    · exact h.stops x w' hw'
    · exact .inl hs
  notInternal x w' hw' := by
    rcases mem_update_append.mp hw' with hw' | ⟨rfl, _⟩
    · exact h.notInternal x w' hw'
    · exact hk
  notSelf x y hxy := by
    rcases hxy with hxy | ⟨_, rfl⟩
    · exact h.notSelf x y hxy
    · exact hp

/-- The coroutine that lets the provider `p` go leaves the table, and so does the mark. -/
theorem end_generator {q : PromiseId} (hg : generator q = some g) (hl : LetsGo d p g) :
    Leaving kind state (fun x y => away x y ∧ ¬(x = d ∧ y = p)) (update generator q none)
      pending finishing := by
  have hback : ∀ q' g', update generator q none q' = some g' → q' ≠ q ∧ generator q' = some g' := by
    intro q' g' hg'
    rcases Coroutines.get_update hg' with ⟨_, hog⟩ | hg'
    · cases hog
    · exact hg'
  have hkeep : ∀ q' g', generator q' = some g' → g' ≠ g → update generator q none q' = some g' := by
    intro q' g' hg' hne
    refine Coroutines.keep_update hg' ?_
    rintro rfl
    rw [hg] at hg'
    exact hne (Option.some.inj hg').symm
  exact {
    __ := h
    notSelf := fun x y hxy => h.notSelf x y hxy.1
    ofGenerator := fun q' g' x y hg' hl' => by
      obtain ⟨hne, hg'⟩ := hback q' g' hg'
      refine (h.ofGenerator q' g' x y hg' hl').imp_left fun hxy => ⟨hxy, ?_⟩
      rintro ⟨rfl, rfl⟩
      exact hne (h.unique x y q' g' q g hg' hg hl' hl)
    ofPending := fun x w hw => by
      refine (h.ofPending x w hw).imp_left fun hxy => ⟨hxy, ?_⟩
      rintro ⟨rfl, hy⟩
      exact h.disjoint x p q g hg hl w hw hy
    cause := fun x y hxy => by
      rcases h.cause x y hxy.1 with ⟨q', g', hg', hl'⟩ | hw
      · refine .inl ⟨q', g', hkeep q' g' hg' ?_, hl'⟩
        rintro rfl
        exact hxy.2 (hl.eq hl')
      · exact .inr hw
    unique := fun x y q1 g1 q2 g2 hg1 hg2 =>
      h.unique x y q1 g1 q2 g2 (hback q1 g1 hg1).2 (hback q2 g2 hg2).2
    disjoint := fun x y q' g' hg' => h.disjoint x y q' g' (hback q' g' hg').2
    stops := fun x w hw => by
      refine (h.stops x w hw).imp_right (Or.imp_right (Or.imp_left ?_))
      rintro ⟨q', g', hg', hs⟩
      refine ⟨q', g', hkeep q' g' hg' ?_, hs⟩
      rintro rfl
      obtain ⟨_, point, hc⟩ := hl
      rw [hs.2.1] at hc
      cases hc }

theorem setAway {away' : ServiceId → ServiceId → Prop} (ha : ∀ x y, away' x y ↔ away x y) :
    Leaving kind state away' generator pending finishing := by
  have he : away' = away := by
    funext x y
    exact propext (ha x y)
  rw [he]
  exact h

/-- The coroutine hands over to a pending entry. -/
theorem hand_over (d : ServiceId) (q : PromiseId) (g : ScopedGenerator) (w : WaitingStopService)
    (hg : generator q = some g) (hl : LetsGo d w.originatingServiceId g)
    (hs : state d = .uninjecting) (hk : kind d ≠ .internal) (hw : w.deps ≠ []) :
    Leaving kind state away (update generator q none)
      (update pending d (pending d ++ [w])) finishing := by
  have haway : away d w.originatingServiceId :=
    (h.ofGenerator q g d _ hg hl).resolve_right (by simp [hs])
  have hnone : ∀ q' g', update generator q none q' = some g' →
      ¬LetsGo d w.originatingServiceId g' := by
    intro q' g' hg' hl'
    rcases Coroutines.get_update hg' with ⟨_, hog⟩ | ⟨hne, hg'⟩
    · cases hog
    · exact hne (h.unique d _ q' g' q g hg' hg hl' hl)
  refine ((h.end_generator hg hl).begin_pending d w hs hk hw (h.notSelf d _ haway) hnone
    (h.disjoint d _ q g hg hl)).setAway fun x y => ?_
  by_cases hxy : x = d ∧ y = w.originatingServiceId
  · simp [hxy, haway]
  · simp [hxy]

theorem release (d : ServiceId) (w : WaitingStopService) (left : List WaitingStopService)
    (hl : pending d = w :: left) :
    Leaving kind state (fun x y => away x y ∧ ¬(x = d ∧ y = w.originatingServiceId)) generator
      (update pending d left) finishing := by
  have hsub : ∀ x w', w' ∈ update pending d left x → w' ∈ pending x := by
    intro x w' hw'
    by_cases hx : x = d
    · subst hx
      rw [update_self] at hw'
      rw [hl]
      exact mem_cons_of_mem _ hw'
    · rw [update_of_ne hx] at hw'
      exact hw'
  have hnodup := h.nodup d
  rw [hl, map_cons, nodup_cons] at hnodup
  have hw : w ∈ pending d := by
    rw [hl]
    exact mem_cons_self
  exact {
    unique := h.unique
    notSelf := fun x y hxy => h.notSelf x y hxy.1
    ofGenerator := fun q g x y hg hlg => by
      refine (h.ofGenerator q g x y hg hlg).imp_left fun hxy => ⟨hxy, ?_⟩
      rintro ⟨rfl, rfl⟩
      exact h.disjoint x _ q g hg hlg w hw rfl
    ofPending := fun x w' hw' => by
      refine (h.ofPending x w' (hsub x w' hw')).imp_left fun hxy => ⟨hxy, ?_⟩
      rintro ⟨rfl, hy⟩
      rw [update_self] at hw'
      exact hnodup.1 (hy ▸ mem_map_of_mem hw')
    cause := fun x y hxy => by
      rcases h.cause x y hxy.1 with hg | ⟨w', hw', hy⟩
      · exact .inl hg
      · refine .inr ⟨w', ?_, hy⟩
        by_cases hx : x = d
        · subst hx
          rw [hl] at hw'
          rw [update_self]
          rcases mem_cons.mp hw' with rfl | hw'
          · exact absurd ⟨rfl, hy.symm⟩ hxy.2
          · exact hw'
        · rw [update_of_ne hx]
          exact hw'
    disjoint := fun x y q g hg hlg w' hw' => h.disjoint x y q g hg hlg w' (hsub x w' hw')
    nodup := fun x => by
      by_cases hx : x = d
      · rw [hx, update_self]
        exact hnodup.2
      · rw [update_of_ne hx]
        exact h.nodup x
    deps := fun x w' hw' => h.deps x w' (hsub x w' hw')
    stops := fun x w' hw' => h.stops x w' (hsub x w' hw')
    notInternal := fun x w' hw' => h.notInternal x w' (hsub x w' hw') }

theorem setResting (d : ServiceId) (k : ManagerKind) (st : ServiceState) (hk : k ≠ .internal)
    (hs : state d = .installed ∨ state d = .uninstalled)
    (hst : st = .uninstalled ∨ ((∀ q g p, generator q = some g → ¬LetsGo d p g) ∧ pending d = [])) :
    Leaving (update kind d k) (update state d st)
      (fun x y => away x y ∧ (st = .uninstalled → x ≠ d)) generator pending finishing where
  __ := h
  notSelf x y hxy := h.notSelf x y hxy.1
  cause x y hxy := h.cause x y hxy.1
  ofGenerator q g x y hg hl := by
    by_cases hx : x = d
    · subst hx
      rw [update_self]
      rcases hst with hst | ⟨hn, _⟩
      · exact .inr hst
      · exact absurd hl (hn q g y hg)
    · rw [update_of_ne hx]
      exact (h.ofGenerator q g x y hg hl).imp_left fun hxy => ⟨hxy, fun _ => hx⟩
  ofPending x w hw := by
    by_cases hx : x = d
    · subst hx
      rw [update_self]
      rcases hst with hst | ⟨_, hn⟩
      · exact .inr hst
      · rw [hn] at hw
        cases hw
    · rw [update_of_ne hx]
      exact (h.ofPending x w hw).imp_left fun hxy => ⟨hxy, fun _ => hx⟩
  stops x w hw := by
    have hold := h.stops x w hw
    by_cases hx : x = d
    · subst hx
      rcases hs with hs | hs <;> simpa [hs] using Or.inr (Or.inr hold)
    · rw [update_of_ne hx]
      exact hold
  notInternal x w hw := by
    by_cases hx : x = d
    · rw [hx, update_self]
      exact hk
    · rw [update_of_ne hx]
      exact h.notInternal x w hw

theorem pending_eq_nil (hg : ∀ q, generator q = none)
    (hs : ∀ d, state d = .uninstalled ∨ kind d = .internal ∨ state d = .installed)
    (hf : ∀ d, ¬finishing d) (d : ServiceId) : pending d = [] := by
  rw [eq_nil_iff_forall_not_mem]
  intro w hw
  have hk := h.notInternal d w hw
  rcases h.stops d w hw with hst | hst | ⟨q, g, hq, _⟩ | hst
  · have := hs d
    simp [hst, hk] at this
  · have := hs d
    simp [hst, hk] at this
  · rw [hg q] at hq
    cases hq
  · exact hf d hst

end

theorem empty (hg : ∀ q, generator q = none) (hp : ∀ d, pending d = [])
    (ha : ∀ d p, ¬away d p) : Leaving kind state away generator pending finishing where
  ofGenerator q _ _ _ h := by simp [hg q] at h
  ofPending d w hw := by simp [hp d] at hw
  cause d p h := absurd h (ha d p)
  unique _ _ q _ _ _ h := by simp [hg q] at h
  disjoint _ _ q _ h := by simp [hg q] at h
  nodup d := by simp [hp d]
  deps d w hw := by simp [hp d] at hw
  stops d w hw := by simp [hp d] at hw
  notInternal d w hw := by simp [hp d] at hw
  notSelf d p h := absurd h (ha d p)

end Leaving

end Ichor.Lifecycle
