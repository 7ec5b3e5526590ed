import Ichor.Abstract.Links

/-! Stored coroutines and the states of their services. A suspended `start()`
belongs to a STARTING service and the other way round, likewise `stop()` and
STOPPING; a finished coroutine whose continuation is still to come pins its
service down as well. -/
namespace Ichor.Lifecycle
open Function

/-- The state a service can be in while it has this coroutine; `dependee` says that the
service has dependees. -/
inductive Fits (kind : ManagerKind) (state : ServiceState) (dependee : Prop) :
    Coroutine → GeneratorState → Prop
  | user (gs : GeneratorState) : Fits kind state dependee .user gs
  | starting (co : Coroutine) (hc : startLike co) (hk : kind ≠ .internal)
      (hs : state = .starting) : Fits kind state dependee co .suspended
  | startFailed (co : Coroutine) (hc : startLike co) :
      Fits kind state dependee co (.finished .stopped)
  | startedUp (co : Coroutine) (v : StartBehaviour) (hc : startLike co)
      (hv : co = .startAfterDependencyOnline → v = .started) (hk : kind ≠ .internal)
      (hs : state = .injecting ∨ state = .active ∨ state = .uninjecting) :
      Fits kind state dependee co (.finished v)
  | stopping (hk : kind ≠ .internal) (hs : state = .stopping) :
      Fits kind state dependee .stop .suspended
  | stopped : Fits kind state dependee .stop (.finished .done)
  | awaitOnline (p : ServiceId) (left : List ℕ) (interested : DependencyChange)
      (ret : StartBehaviour) (hk : kind ≠ .internal) (hi : interested ≠ .foundAndStopMe) :
      Fits kind state dependee (.dependencyOffline p (.awaitOnline left interested ret)) .suspended
  | awaitOffline (p : ServiceId) (wasActive : Bool) (left : List ℕ) (ret : StartBehaviour)
      (hk : kind ≠ .internal) :
      Fits kind state dependee (.dependencyOffline p (.awaitOffline wasActive left ret)) .suspended
  | leaving (p : ServiceId) (point : OfflinePoint) (hk : kind ≠ .internal)
      (hs : state = .uninjecting) (hd : ¬dependee) :
      Fits kind state dependee (.dependencyOffline p point) (.finished .stopMe)

namespace Fits
variable {kind : ManagerKind} {state : ServiceState} {dependees : Prop} {co : Coroutine}
  {gs : GeneratorState}

variable {st : ServiceState} {kind' : ManagerKind} {dependees' : Prop}

/-- What a change of the service has to keep for the coroutines that are suspended or have a
continuation to come. -/
theorem change (h : Fits kind state dependees co gs) (hkind : kind ≠ .internal → kind' ≠ .internal)
    (hstarting : startLike co → gs = .suspended → state = .starting → st = .starting)
    (hup : state = .injecting ∨ state = .active ∨ state = .uninjecting →
      st = .injecting ∨ st = .active ∨ st = .uninjecting)
    (hstopping : co = .stop → gs = .suspended → state = .stopping → st = .stopping)
    (hleaving : state = .uninjecting → ¬dependees → st = .uninjecting ∧ ¬dependees') :
    Fits kind' st dependees' co gs := by
  cases h with
  | user => exact .user _
  | starting _ hc hk hs => exact .starting _ hc (hkind hk) (hstarting hc rfl hs)
  | startFailed _ hc => exact .startFailed _ hc
  | startedUp _ _ hc hv hk hs => exact .startedUp _ _ hc hv (hkind hk) (hup hs)
  | stopping hk hs => exact .stopping (hkind hk) (hstopping rfl rfl hs)
  | stopped => exact .stopped
  | awaitOnline _ _ _ _ hk hi => exact .awaitOnline _ _ _ _ (hkind hk) hi
  | awaitOffline _ _ _ _ hk => exact .awaitOffline _ _ _ _ (hkind hk)
  | leaving _ _ hk hs hd => exact .leaving _ _ (hkind hk) (hleaving hs hd).1 (hleaving hs hd).2

theorem of_starting (h : Fits kind .starting dependees co gs)
    (hother : startLike co → gs ≠ .suspended) : Fits kind st dependees co gs :=
  h.change id (fun hc hs => absurd hs (hother hc)) (by simp) (by simp) (by simp)

theorem of_injecting (h : Fits kind .injecting dependees co gs) :
    Fits kind .active dependees co gs :=
  h.change id (by simp) (by simp) (by simp) (by simp)

theorem of_active (h : Fits kind .active dependees co gs) :
    Fits kind .uninjecting dependees co gs :=
  h.change id (by simp) (by simp) (by simp) (by simp)

theorem of_stopping (h : Fits kind .stopping dependees co gs)
    (hother : co = .stop → gs ≠ .suspended) : Fits kind .installed dependees co gs :=
  h.change id (by simp) (by simp) (fun hc hs => absurd hs (hother hc)) (by simp)

theorem of_internal (h : Fits .internal state dependees co gs) :
    Fits .internal st dependees co gs := by
  cases h with
  | user => exact .user _
  | startFailed _ hc => exact .startFailed _ hc
  | stopped => exact .stopped
  | starting _ _ hk | startedUp _ _ _ _ hk | stopping hk | awaitOnline _ _ _ _ hk
  | awaitOffline _ _ _ _ hk | leaving _ _ hk => exact absurd rfl hk

variable (h : Fits kind state dependees co gs)
include h

theorem of_resting (hs : state = .installed ∨ state = .uninstalled)
    (hk : kind ≠ .internal → kind' ≠ .internal) : Fits kind' st dependees co gs := by
  refine h.change hk ?_ ?_ ?_ ?_ <;>
  · rcases hs with rfl | rfl <;> simp

theorem of_dependees (hd : state = .uninjecting → dependees' → dependees) :
    Fits kind state dependees' co gs :=
  h.change id (fun _ _ => id) id (fun _ _ => id) fun hs hn => ⟨hs, fun h => hn (hd hs h)⟩

theorem not_internal (hc : offlineLike co) : kind ≠ .internal := by
  cases h with
  | user | stopped => exact hc.elim
  | startFailed co hl => cases co <;> simp_all [startLike, offlineLike]
  | starting _ _ hk | startedUp _ _ _ _ hk | stopping hk | awaitOnline _ _ _ _ hk
  | awaitOffline _ _ _ _ hk | leaving _ _ hk => exact hk

end Fits

/-- The event a stored coroutine works on. -/
def Shaped (g : ScopedGenerator) : Prop :=
  match g.generator.coroutine with
  | .start => g.event.body = .startService g.generator.serviceId
  | .startAfterDependencyOnline =>
    g.event.body = .dependencyOnline ∧ g.event.originatingService = g.generator.serviceId
  | .stop => ∃ remove, g.event.body = .stopService g.generator.serviceId remove
  | .dependencyOffline p _ => ∃ remove deps,
    g.event.body = .continuableDependencyOffline p remove deps ∧
      g.event.originatingService = g.generator.serviceId ∧ deps ≠ []
  | .user => True

/-- A suspended `start()` of `d`. -/
def Starts (d : ServiceId) (g : ScopedGenerator) : Prop :=
  g.generator.serviceId = d ∧ startLike g.generator.coroutine ∧ g.generator.state = .suspended

/-- A suspended `stop()` of `d`. -/
def Stops (d : ServiceId) (g : ScopedGenerator) : Prop :=
  g.generator.serviceId = d ∧ g.generator.coroutine = .stop ∧ g.generator.state = .suspended

structure Coroutines (kind : ServiceId → ManagerKind) (state : ServiceId → ServiceState)
    (dee : ServiceId → ServiceId → Prop)
    (generator : PromiseId → Option ScopedGenerator) : Prop where
  fits : ∀ q g, generator q = some g →
    Fits (kind g.generator.serviceId) (state g.generator.serviceId)
      (∃ x, dee g.generator.serviceId x) g.generator.coroutine g.generator.state
  shaped : ∀ q g, generator q = some g → Shaped g
  starting : ∀ d, state d = .starting → ∃ q g, generator q = some g ∧ Starts d g
  stopping : ∀ d, state d = .stopping → ∃ q g, generator q = some g ∧ Stops d g
  startUnique : ∀ d q g q' g', generator q = some g → generator q' = some g' → Starts d g →
    Starts d g' → q = q'
  stopUnique : ∀ q g q' g', generator q = some g → generator q' = some g' →
    g.generator.coroutine = .stop → g'.generator.coroutine = .stop →
    g.generator.serviceId = g'.generator.serviceId → q = q'

namespace Coroutines
variable {kind : ServiceId → ManagerKind} {state : ServiceId → ServiceState}
  {dee : ServiceId → ServiceId → Prop}
  {generator : PromiseId → Option ScopedGenerator} {q : PromiseId}

variable {q' : PromiseId} {og : Option ScopedGenerator} {g' : ScopedGenerator}

theorem get_update (h : update generator q og q' = some g') :
    (q' = q ∧ og = some g') ∨ (q' ≠ q ∧ generator q' = some g') := by
  by_cases hqq : q' = q
  · rw [hqq, update_self] at h
    exact .inl ⟨hqq, h⟩
  · rw [update_of_ne hqq] at h
    exact .inr ⟨hqq, h⟩

theorem keep_update (hg : generator q' = some g') (hne : q' ≠ q) :
    update generator q og q' = some g' := by
  rw [update_of_ne hne]
  exact hg

theorem empty (hg : ∀ q, generator q = none) (hs : ∀ d, state d ≠ .starting ∧ state d ≠ .stopping) :
    Coroutines kind state dee generator where
  fits q _ h := by simp [hg q] at h
  shaped q _ h := by simp [hg q] at h
  starting d h := absurd h (hs d).1
  stopping d h := absurd h (hs d).2
  startUnique _ q _ _ _ h := by simp [hg q] at h
  stopUnique q _ _ _ h := by simp [hg q] at h

variable (h : Coroutines kind state dee generator)
include h

/-! ## State changes -/

theorem setState (d : ServiceId) (st : ServiceState) (h1 : st ≠ .starting) (h2 : st ≠ .stopping)
    (hfit : ∀ q g, generator q = some g → g.generator.serviceId = d →
      Fits (kind d) (state d) (∃ x, dee d x) g.generator.coroutine g.generator.state →
      Fits (kind d) st (∃ x, dee d x) g.generator.coroutine g.generator.state) :
    Coroutines kind (update state d st) dee generator where
  __ := h
  fits q g hg := by
    by_cases hd : g.generator.serviceId = d
    · have hold := h.fits q g hg
      rw [hd] at hold ⊢
      rw [update_self]
      exact hfit q g hg hd hold
    · rw [update_of_ne hd]
      exact h.fits q g hg
  starting x hx := by
    by_cases hxd : x = d
    · rw [hxd, update_self] at hx
      exact absurd hx h1
    · rw [update_of_ne hxd] at hx
      exact h.starting x hx
  stopping x hx := by
    by_cases hxd : x = d
    · rw [hxd, update_self] at hx
      exact absurd hx h2
    · rw [update_of_ne hxd] at hx
      exact h.stopping x hx

theorem setResting (d : ServiceId) (k : ManagerKind) (st : ServiceState)
    (hs : state d = .installed ∨ state d = .uninstalled) (hk : k ≠ .internal)
    (hst : st = .installed ∨ st = .uninstalled) :
    Coroutines (update kind d k) (update state d st) dee generator := by
  have hne : ∀ x st', update state d st x = st' → st' ≠ .installed →
      st' ≠ .uninstalled → state x = st' := by
    intro x st' hx h1 h2
    by_cases hxd : x = d
    · rw [hxd, update_self] at hx
      rcases hst with hst | hst
      · exact absurd (hx.symm.trans hst) h1
      · exact absurd (hx.symm.trans hst) h2
    · rw [update_of_ne hxd] at hx
      exact hx
  exact {
    __ := h
    fits := fun q g hg => by
      have hold := h.fits q g hg
      by_cases hd : g.generator.serviceId = d
      · rw [hd] at hold ⊢
        rw [update_self, update_self]
        exact hold.of_resting hs fun _ => hk
      · rw [update_of_ne hd, update_of_ne hd]
        exact hold
    starting := fun x hx => h.starting x (hne x _ hx (by simp) (by simp))
    stopping := fun x hx => h.stopping x (hne x _ hx (by simp) (by simp)) }

/-! ## Stored generators -/

theorem move (d : ServiceId) (st : ServiceState) (q : PromiseId) (og : Option ScopedGenerator)
    (hold : ∀ g, generator q = some g → g.generator.serviceId = d)
    (hfit : ∀ q' g', q' ≠ q → generator q' = some g' → g'.generator.serviceId = d →
      Fits (kind d) (state d) (∃ x, dee d x) g'.generator.coroutine g'.generator.state →
      Fits (kind d) st (∃ x, dee d x) g'.generator.coroutine g'.generator.state)
    (hnew : ∀ g, og = some g → g.generator.serviceId = d ∧ Shaped g ∧
      Fits (kind d) st (∃ x, dee d x) g.generator.coroutine g.generator.state)
    (hstarting : st = .starting → (∃ g, og = some g ∧ Starts d g) ∨
      ∃ q' g', q' ≠ q ∧ generator q' = some g' ∧ Starts d g')
    (hstopping : st = .stopping → (∃ g, og = some g ∧ Stops d g) ∨
      ∃ q' g', q' ≠ q ∧ generator q' = some g' ∧ Stops d g')
    (hstart : ∀ g, og = some g → Starts d g → ∀ q' g', q' ≠ q → generator q' = some g' →
      ¬Starts d g')
    (hstop : ∀ g, og = some g → g.generator.coroutine = .stop → ∀ q' g', q' ≠ q →
      generator q' = some g' → g'.generator.serviceId = d → g'.generator.coroutine ≠ .stop) :
    Coroutines kind (update state d st) dee (update generator q og) where
  fits q' g' hg' := by
    rcases get_update hg' with ⟨rfl, hog⟩ | ⟨hne, hg'⟩
    · obtain ⟨hd, _, hf⟩ := hnew g' hog
      rw [hd, update_self]
      exact hf
    · have hf := h.fits q' g' hg'
      by_cases hd : g'.generator.serviceId = d
      · rw [hd] at hf ⊢
        rw [update_self]
        exact hfit q' g' hne hg' hd hf
      · rw [update_of_ne hd]
        exact hf
  shaped q' g' hg' := by
    rcases get_update hg' with ⟨_, hog⟩ | ⟨_, hg'⟩
    · exact (hnew g' hog).2.1
    · exact h.shaped q' g' hg'
  starting x hx := by
    by_cases hxd : x = d
    · rw [hxd, update_self] at hx
      rcases hstarting hx with ⟨g, rfl, hs⟩ | ⟨q', g', hne, hg', hs⟩
      · exact ⟨q, g, update_self .., hxd ▸ hs⟩
      · exact ⟨q', g', keep_update hg' hne, hxd ▸ hs⟩
    · rw [update_of_ne hxd] at hx
      obtain ⟨q', g', hg', hs⟩ := h.starting x hx
      have hne : q' ≠ q := by
        rintro rfl
        exact hxd (hs.1.symm.trans (hold g' hg'))
      exact ⟨q', g', keep_update hg' hne, hs⟩
  stopping x hx := by
    by_cases hxd : x = d
    · rw [hxd, update_self] at hx
      rcases hstopping hx with ⟨g, rfl, hs⟩ | ⟨q', g', hne, hg', hs⟩
      · exact ⟨q, g, update_self .., hxd ▸ hs⟩
      · exact ⟨q', g', keep_update hg' hne, hxd ▸ hs⟩
    · rw [update_of_ne hxd] at hx
      obtain ⟨q', g', hg', hs⟩ := h.stopping x hx
      have hne : q' ≠ q := by
        rintro rfl
        exact hxd (hs.1.symm.trans (hold g' hg'))
      exact ⟨q', g', keep_update hg' hne, hs⟩
  startUnique x q1 g1 q2 g2 hg1 hg2 hs1 hs2 := by
    rcases get_update hg1 with ⟨hq1, hog1⟩ | ⟨hne1, hg1'⟩
    · rcases get_update hg2 with ⟨hq2, _⟩ | ⟨hne2, hg2'⟩
      · exact hq1.trans hq2.symm
      · have hxd : x = d := hs1.1.symm.trans (hnew g1 hog1).1
        subst hxd
        exact absurd hs2 (hstart g1 hog1 hs1 q2 g2 hne2 hg2')
    · rcases get_update hg2 with ⟨_, hog2⟩ | ⟨_, hg2'⟩
      · have hxd : x = d := hs2.1.symm.trans (hnew g2 hog2).1
        subst hxd
        exact absurd hs1 (hstart g2 hog2 hs2 q1 g1 hne1 hg1')
      · exact h.startUnique x q1 g1 q2 g2 hg1' hg2' hs1 hs2
  stopUnique q1 g1 q2 g2 hg1 hg2 hs1 hs2 hd := by
    rcases get_update hg1 with ⟨hq1, hog1⟩ | ⟨hne1, hg1'⟩
    · rcases get_update hg2 with ⟨hq2, _⟩ | ⟨hne2, hg2'⟩
      · exact hq1.trans hq2.symm
      · have hd2 : g2.generator.serviceId = d := hd.symm.trans (hnew g1 hog1).1
        exact absurd hs2 (hstop g1 hog1 hs1 q2 g2 hne2 hg2' hd2)
    · rcases get_update hg2 with ⟨_, hog2⟩ | ⟨_, hg2'⟩
      · have hd1 : g1.generator.serviceId = d := hd.trans (hnew g2 hog2).1
        exact absurd hs1 (hstop g2 hog2 hs2 q1 g1 hne1 hg1' hd1)
      · exact h.stopUnique q1 g1 q2 g2 hg1' hg2' hs1 hs2 hd

theorem setGenerator (d : ServiceId) (q : PromiseId) (og : Option ScopedGenerator)
    (hold : ∀ g, generator q = some g → g.generator.serviceId = d ∧ ¬Starts d g ∧ ¬Stops d g)
    (hnew : ∀ g, og = some g → g.generator.serviceId = d ∧ Shaped g ∧ ¬Starts d g ∧
      g.generator.coroutine ≠ .stop ∧ Fits (kind d) (state d) (∃ x, dee d x)
        g.generator.coroutine g.generator.state) :
    Coroutines kind state dee (update generator q og) := by
  have hmove := h.move d (state d) q og (fun g hg => (hold g hg).1) (fun _ _ _ _ _ hf => hf)
    (fun g hg => ⟨(hnew g hg).1, (hnew g hg).2.1, (hnew g hg).2.2.2.2⟩)
    (fun hs => ?_) (fun hs => ?_) (fun g hg hs => absurd hs (hnew g hg).2.2.1)
    (fun g hg hs => absurd hs (hnew g hg).2.2.2.1)
  · rwa [update_eq_self] at hmove
  · obtain ⟨q', g', hg', hs'⟩ := h.starting d hs
    refine .inr ⟨q', g', ?_, hg', hs'⟩
    rintro rfl
    exact (hold g' hg').2.1 hs'
  · obtain ⟨q', g', hg', hs'⟩ := h.stopping d hs
    refine .inr ⟨q', g', ?_, hg', hs'⟩
    rintro rfl
    exact (hold g' hg').2.2 hs'

theorem store (q : PromiseId) (g : ScopedGenerator) (hq : generator q = none) (hshape : Shaped g)
    (h1 : ¬startLike g.generator.coroutine) (h2 : g.generator.coroutine ≠ .stop)
    (hfit : Fits (kind g.generator.serviceId) (state g.generator.serviceId)
      (∃ x, dee g.generator.serviceId x) g.generator.coroutine g.generator.state) :
    Coroutines kind state dee (update generator q (some g)) := by
  refine h.setGenerator g.generator.serviceId q (some g) (fun g' hg' => ?_) (fun g' hg' => ?_)
  · rw [hq] at hg'
    cases hg'
  · cases hg'
    exact ⟨rfl, hshape, fun hs => h1 hs.2.1, h2, hfit⟩

theorem erase (q : PromiseId) (g : ScopedGenerator) (hg : generator q = some g)
    (hs : g.generator.coroutine = .user ∨ g.generator.state ≠ .suspended) :
    Coroutines kind state dee (update generator q none) := by
  refine h.setGenerator g.generator.serviceId q none (fun g' hg' => ?_) (fun g' hg' => ?_)
  · rw [hg] at hg'
    cases hg'
    rcases hs with hs | hs
    · exact ⟨rfl, fun hd => by simpa [hs, startLike] using hd.2.1,
        fun hd => by simpa [hs] using hd.2.1⟩
    · exact ⟨rfl, fun hd => hs hd.2.2, fun hd => hs hd.2.2⟩
  · cases hg'

theorem replace (q : PromiseId) (g g' : ScopedGenerator) (hg : generator q = some g)
    (hd : g'.generator.serviceId = g.generator.serviceId) (hshape : Shaped g')
    (h1 : ¬startLike g.generator.coroutine) (h2 : g.generator.coroutine ≠ .stop)
    (h1' : ¬startLike g'.generator.coroutine) (h2' : g'.generator.coroutine ≠ .stop)
    (hfit : Fits (kind g.generator.serviceId) (state g.generator.serviceId)
      (∃ x, dee g.generator.serviceId x) g'.generator.coroutine g'.generator.state) :
    Coroutines kind state dee (update generator q (some g')) := by
  refine h.setGenerator g.generator.serviceId q (some g') (fun x hx => ?_) (fun x hx => ?_)
  · rw [hg] at hx
    cases hx
    exact ⟨rfl, fun hs => h1 hs.2.1, fun hs => h2 hs.2.1⟩
  · cases hx
    exact ⟨hd, hshape, fun hs => h1' hs.2.1, h2', hfit⟩

/-! ## Starting and stopping coroutines -/

theorem no_start {d : ServiceId} {g : ScopedGenerator} (hg : generator q = some g)
    (hs : state d ≠ .starting) : ¬Starts d g := by
  rintro ⟨hd, hc, hsus⟩
  have hf := h.fits q g hg
  rw [hd, hsus] at hf
  generalize g.generator.coroutine = co at hf hc
  cases hf with
  | user | stopping | awaitOnline | awaitOffline => exact hc
  | starting _ _ _ hst => exact hs hst

theorem storeStart (d : ServiceId) (q : PromiseId) (g : ScopedGenerator) (hq : generator q = none)
    (hs : state d = .installed) (hk : kind d ≠ .internal) (hg : Starts d g) (hshape : Shaped g) :
    Coroutines kind (update state d .starting) dee (update generator q (some g)) := by
  refine h.move d .starting q (some g) ?_ ?_ ?_ (fun _ => .inl ⟨g, rfl, hg⟩) ?_ ?_ ?_
  · intro g' hg'
    rw [hq] at hg'
    cases hg'
  · intro q' g' _ _ _ hf
    exact hf.of_resting (.inl hs) id
  · intro g' hg'
    cases hg'
    refine ⟨hg.1, hshape, ?_⟩
    rw [hg.2.2]
    exact .starting _ hg.2.1 hk rfl
  · intro hst
    cases hst
  · intro _ _ _ q' g' _ hg'
    exact h.no_start hg' (by simp [hs])
  · intro g' hg' hc
    cases hg'
    have hl := hg.2.1
    rw [hc] at hl
    exact hl.elim

theorem storeStop (d : ServiceId) (q : PromiseId) (g : ScopedGenerator) (hq : generator q = none)
    (hn : ∀ q' g', generator q' = some g' → g'.generator.serviceId ≠ d) (hk : kind d ≠ .internal)
    (hg : Stops d g) (hshape : Shaped g) :
    Coroutines kind (update state d .stopping) dee (update generator q (some g)) := by
  refine h.move d .stopping q (some g) ?_ ?_ ?_ ?_ (fun _ => .inl ⟨g, rfl, hg⟩) ?_ ?_
  · intro g' hg'
    rw [hq] at hg'
    cases hg'
  · intro q' g' _ hg' hd
    exact absurd hd (hn q' g' hg')
  · intro g' hg'
    cases hg'
    refine ⟨hg.1, hshape, ?_⟩
    rw [hg.2.1, hg.2.2]
    exact .stopping hk rfl
  · intro hst
    cases hst
  · intro _ _ _ q' g' _ hg' hs
    exact hn q' g' hg' hs.1
  · intro _ _ _ q' g' _ hg' hd
    exact absurd hd (hn q' g' hg')

theorem finishStart (q : PromiseId) (g : ScopedGenerator) (v : StartBehaviour) (st : ServiceState)
    (hg : generator q = some g) (hsus : g.generator.state = .suspended)
    (hc : startLike g.generator.coroutine)
    (hst : (st = .injecting ∧ (g.generator.coroutine = .startAfterDependencyOnline → v = .started)) ∨
      (st = .installed ∧ v = .stopped)) :
    Coroutines kind (update state g.generator.serviceId st) dee
      (update generator q (some (finished g (.finished v)))) := by
  have hstarts : Starts g.generator.serviceId g := ⟨rfl, hc, hsus⟩
  have hne : state g.generator.serviceId = .starting := by
    by_contra hs
    exact h.no_start hg hs hstarts
  have hk : kind g.generator.serviceId ≠ .internal := by
    have hf := h.fits q g hg
    rw [hsus] at hf
    generalize g.generator.coroutine = co at hf hc
    cases hf with
    | user | stopping | awaitOnline | awaitOffline => exact hc.elim
    | starting _ _ hk => exact hk
  refine h.move g.generator.serviceId st q _ ?_ ?_ ?_ ?_ ?_ ?_ ?_
  · intro g' hg'
    rw [hg] at hg'
    cases hg'
    rfl
  · intro q' g' hq' hg' hd hf
    rw [hne] at hf
    refine hf.of_starting fun hl hs => hq' ?_
    exact h.startUnique _ q' g' q g hg' hg ⟨hd, hl, hs⟩ hstarts
  · intro g' hg'
    cases hg'
    refine ⟨rfl, h.shaped q g hg, ?_⟩
    rcases hst with ⟨hst, hv⟩ | ⟨_, hv⟩
    · exact .startedUp _ _ hc hv hk (.inl hst)
    · rw [hv]
      exact .startFailed _ hc
  · rcases hst with ⟨hst, _⟩ | ⟨hst, _⟩ <;> simp [hst]
  · rcases hst with ⟨hst, _⟩ | ⟨hst, _⟩ <;> simp [hst]
  · intro g' hg' hs
    cases hg'
    cases hs.2.2
  · intro g' hg' hs
    cases hg'
    have hs' : g.generator.coroutine = .stop := hs
    rw [hs'] at hc
    exact hc.elim

theorem finishStop (q : PromiseId) (g : ScopedGenerator) (hg : generator q = some g)
    (hsus : g.generator.state = .suspended) (hc : g.generator.coroutine = .stop) :
    Coroutines kind (update state g.generator.serviceId .installed) dee
      (update generator q (some (finished g (.finished .done)))) := by
  have hne : state g.generator.serviceId = .stopping := by
    have hf := h.fits q g hg
    rw [hsus, hc] at hf
    cases hf with
    | starting _ hl => exact hl.elim
    | stopping _ hs => exact hs
  refine h.move g.generator.serviceId .installed q _ ?_ ?_ ?_ (by simp) (by simp) ?_ ?_
  · intro g' hg'
    rw [hg] at hg'
    cases hg'
    rfl
  · intro q' g' hq' hg' hd hf
    rw [hne] at hf
    exact hf.of_stopping fun hc' _ => hq' (h.stopUnique q' g' q g hg' hg hc' hc hd)
  · intro g' hg'
    cases hg'
    refine ⟨rfl, h.shaped q g hg, ?_⟩
    have hco : (finished g (.finished .done)).generator.coroutine = .stop := hc
    rw [hco]
    exact .stopped
  · intro g' hg' hs
    cases hg'
    cases hs.2.2
  · intro _ _ _ q' g' hq' hg' hd hc'
    exact hq' (h.stopUnique q' g' q g hg' hg hc' hc hd)

/-! ## Dependees and wake-ups -/

theorem setDee {dee' : ServiceId → ServiceId → Prop}
    (hd : ∀ p x, state p = .uninjecting → dee' p x → dee p x) :
    Coroutines kind state dee' generator where
  __ := h
  fits q g hg := (h.fits q g hg).of_dependees fun hs hx => by
    obtain ⟨x, hx⟩ := hx
    exact ⟨x, hd _ x hs hx⟩

end Coroutines

end Ichor.Lifecycle
