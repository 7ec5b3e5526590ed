import Ichor.Refinement.Starting

/-! Injecting providers: `dependencyOnline` of one dependent, the branch of a
DependencyOnlineEvent behind the waiters, and the InsertServiceEvent. -/
namespace Ichor.Lifecycle
open FiniteTable DependencyManager

/-! ## `dependencyOnline` -/

section
variable (s : DependencyManager) (current : List Event) (phase : Phase) (taken : List PromiseId)
  {d p : ServiceId}

theorem link_link (c : Core) (d p : ServiceId) : (c.link d p).link d p = c.link d p := by
  unfold Core.link
  congr 1
  all_goals
    funext x y
    exact propext (or_assoc.trans (or_congr_right or_self_iff))

theorem inject_inject (c : Core) (d p : ServiceId) (reg reg' : DependencyRegister)
    (calls calls' : List Call) :
    (((((c.link d p).setRegistry d reg).record calls).link d p).setRegistry d reg').record calls' =
      ((c.link d p).setRegistry d reg').record (calls' ++ calls) := by
  have hlink : ((((c.link d p).setRegistry d reg).record calls).link d p) =
      (((c.link d p).link d p).setRegistry d reg).record calls := rfl
  rw [hlink, link_link]
  unfold Core.record Core.setRegistry
  rw [Function.update_idem, List.append_assoc]

variable {m : LifecycleManager}

theorem get?_modifyService (h : s.services.get? d = some m)
    (f : LifecycleManager → LifecycleManager) (x : ServiceId) :
    (s.modifyService x f).services.get? d = some (if d = x then f m else m) := by
  unfold DependencyManager.modifyService
  rw [Table.get?_modify, h]
  by_cases hx : d = x
  · rw [if_pos hx, if_pos hx]
    rfl
  · rw [if_neg hx, if_neg hx]

theorem get?_modifyService_none (h : s.services.get? d = none)
    (f : LifecycleManager → LifecycleManager) (x : ServiceId) :
    (s.modifyService x f).services.get? d = none := by
  unfold DependencyManager.modifyService
  rw [Table.get?_modify, h]
  by_cases hx : d = x
  · rw [if_pos hx]
    rfl
  · rw [if_neg hx]

/-- A provider is a service of the table or the self sentinel, which is none. -/
def Provides (s : DependencyManager) (p : ServiceId) : Prop :=
  (p ≠ selfServiceId ∧ ∃ mp, s.services.get? p = some mp) ∨
    (p = selfServiceId ∧ s.services.get? p = none)

theorem Provides.modifyService (hp : Provides s p) (x : ServiceId)
    (f : LifecycleManager → LifecycleManager) : Provides (s.modifyService x f) p := by
  rcases hp with ⟨hself, mp, hmp⟩ | ⟨hself, hnone⟩
  · exact .inl ⟨hself, _, get?_modifyService s hmp f x⟩
  · exact .inr ⟨hself, get?_modifyService_none s hnone f x⟩

theorem view_injectIntoSelf (hp : Provides s p) (d : ServiceId) (r : ℕ) :
    view (s.injectIntoSelfDoubleDispatch d r p) current phase taken =
      ((view s current phase taken).record [.add d r p]).setDee fun x y =>
        (view s current phase taken).dee x y ∨ (x = p ∧ y = d ∧ p ≠ selfServiceId) := by
  unfold injectIntoSelfDoubleDispatch
  rcases hp with ⟨hself, mp, hmp⟩ | ⟨hself, hnone⟩
  · have hcall : (s.call (.add d r p)).services.get? p = some mp := hmp
    rw [view_insertDependee _ current phase taken hcall, view_call]
    refine congrArg (Core.setDee _) ?_
    funext x y
    exact propext (or_congr_right ⟨fun h => ⟨h.1, h.2, hself⟩, fun h => ⟨h.1, h.2.1⟩⟩)
  · have hcall : (s.call (.add d r p)).services.get? p = none := hnone
    have hdee : (fun x y => (view s current phase taken).dee x y ∨
        (x = p ∧ y = d ∧ p ≠ selfServiceId)) = (view s current phase taken).dee := by
      funext x y
      exact propext ⟨fun h => h.resolve_right fun h' => h'.2.2 hself, .inl⟩
    rw [modifyService_of_none _ hcall, view_call, hdee]
    rfl

theorem get?_injectIntoSelf (hd : s.services.get? d = some m) (r : ℕ) (p : ServiceId) :
    ∃ m', (s.injectIntoSelfDoubleDispatch d r p).services.get? d = some m' ∧
      m'.registry = m.registry := by
  have hcall : (s.call (.add d r p)).services.get? d = some m := hd
  refine ⟨_, get?_modifyService _ hcall _ p, ?_⟩
  split <;> rfl

theorem Provides.injectIntoSelf (hp : Provides s p) (d : ServiceId) (r : ℕ) :
    Provides (s.injectIntoSelfDoubleDispatch d r p) p := by
  have hcall : Provides (s.call (.add d r p)) p := hp
  exact Provides.modifyService _ hcall p _

def noteDependency (s : DependencyManager) (d p : ServiceId) : DependencyManager :=
  s.modifyService d fun m =>
    { m with serviceIdsOfInjectedDependencies := insertId p m.serviceIdsOfInjectedDependencies }

/-- One interface of the provider that leads to the registration `r`. -/
def injectAt (s : DependencyManager) (d p : ServiceId) (r : ℕ) : DependencyManager :=
  ((noteDependency s d p).injectIntoSelfDoubleDispatch d r p).modifyService d fun m =>
    { m with
      registry := m.registry.modify r fun dep => { dep with satisfied := dep.satisfied + 1 } }

theorem get?_noteDependency (hd : s.services.get? d = some m)
    (p : ServiceId) : ∃ m', (noteDependency s d p).services.get? d = some m' ∧
      m'.registry = m.registry := by
  refine ⟨_, get?_modifyService s hd _ d, ?_⟩
  split <;> rfl

theorem get?_injectAt (hd : s.services.get? d = some m) (p : ServiceId)
    (r : ℕ) : ∃ m', (injectAt s d p r).services.get? d = some m' ∧
      m'.registry = raise [r] m.registry := by
  obtain ⟨m1, h1, hr1⟩ := get?_noteDependency s hd p
  obtain ⟨m2, h2, hr2⟩ := get?_injectIntoSelf _ h1 r p
  refine ⟨_, get?_modifyService _ h2 _ d, ?_⟩
  rw [if_pos rfl, ← hr1, ← hr2]
  rfl

theorem Provides.injectAt (hp : Provides s p) (d : ServiceId) (r : ℕ) :
    Provides (Lifecycle.injectAt s d p r) p :=
  Provides.modifyService _ (Provides.injectIntoSelf _ (Provides.modifyService s hp d _) d r) d _

theorem view_injectAt (hd : s.services.get? d = some m) (hp : Provides s p) (r : ℕ) :
    view (injectAt s d p r) current phase taken =
      (((view s current phase taken).link d p).setRegistry d (raise [r] m.registry)).record
        [.add d r p] := by
  have hdep : view (noteDependency s d p) current phase taken = _ :=
    view_insertDependency s current phase taken hd p
  have hnote : Provides (noteDependency s d p) p := Provides.modifyService s hp d _
  obtain ⟨m1, h1, hr1⟩ := get?_noteDependency s hd p
  obtain ⟨m2, h2, hr2⟩ := get?_injectIntoSelf _ h1 r p
  unfold injectAt
  rw [view_setRegistry _ current phase taken h2 (fun reg => reg.modify r fun dep =>
    { dep with satisfied := dep.satisfied + 1 }), view_registry _ current phase taken h2, hr2, hr1,
    view_injectIntoSelf _ current phase taken hnote, hdep]
  rfl

theorem dependencyOnlineInterface_none (acc : DependencyManager × DependencyChange)
    (interface : NameHash) (h : (acc.1.registryOf d).find interface false = none) :
    dependencyOnlineInterface d p acc interface = acc := by
  unfold dependencyOnlineInterface
  dsimp only
  rw [h]

theorem dependencyOnlineInterface_some (acc : DependencyManager × DependencyChange)
    (interface : NameHash) (r : ℕ) (h : (acc.1.registryOf d).find interface false = some r) :
    (dependencyOnlineInterface d p acc interface).1 = injectAt acc.1 d p r := by
  unfold dependencyOnlineInterface
  dsimp only
  rw [h]
  rfl

theorem addCalls_cons (d p : ServiceId) (r : ℕ) (rs : List ℕ) :
    addCalls d p (r :: rs) = addCalls d p rs ++ [.add d r p] := by
  simp [addCalls]

theorem view_onlineLoop (interfaces : List NameHash) (acc : DependencyManager × DependencyChange)
    (hd : acc.1.services.get? d = some m) (hp : Provides acc.1 p) :
    (onlineRegistrations interfaces m.registry = [] ∧
      interfaces.foldl (dependencyOnlineInterface d p) acc = acc) ∨
    (onlineRegistrations interfaces m.registry ≠ [] ∧
      view (interfaces.foldl (dependencyOnlineInterface d p) acc).1 current phase taken =
        (((view acc.1 current phase taken).link d p).setRegistry d
          (raise (onlineRegistrations interfaces m.registry) m.registry)).record
            (addCalls d p (onlineRegistrations interfaces m.registry))) := by
  induction interfaces generalizing acc m with
  | nil => exact .inl ⟨rfl, rfl⟩
  | cons interface rest ih =>
    have hreg : acc.1.registryOf d = m.registry := Services.view_some _ _ _ _ hd
    rw [List.foldl_cons]
    cases hfind : m.registry.find interface false with
    | none =>
      have hrs : onlineRegistrations (interface :: rest) m.registry =
          onlineRegistrations rest m.registry := by
        simp only [onlineRegistrations, hfind]
      rw [hrs, dependencyOnlineInterface_none acc interface (hreg.symm ▸ hfind)]
      exact ih acc hd hp
    | some r =>
      have hrs : onlineRegistrations (interface :: rest) m.registry =
          r :: onlineRegistrations rest (raise [r] m.registry) := by
        simp only [onlineRegistrations, hfind]
      have hacc : (dependencyOnlineInterface d p acc interface).1 = injectAt acc.1 d p r :=
        dependencyOnlineInterface_some acc interface r (hreg.symm ▸ hfind)
      obtain ⟨m', hm', hr'⟩ := get?_injectAt acc.1 hd p r
      have hv := view_injectAt acc.1 current phase taken hd hp r
      right
      rw [hrs]
      refine ⟨List.cons_ne_nil _ _, ?_⟩
      rw [← hacc] at hm' hv
      have hp' : Provides (dependencyOnlineInterface d p acc interface).1 p :=
        hacc.symm ▸ Provides.injectAt acc.1 hp d r
      have hnext := ih (dependencyOnlineInterface d p acc interface) hm' hp'
      rw [hr'] at hnext
      rcases hnext with ⟨hnil, hfold⟩ | ⟨_, hview⟩
      · rw [hfold, hnil]
        exact hv
      · rw [hview, hv, addCalls_cons]
        exact inject_inject _ d p _ _ _ _

end

section
variable {o : Origin} {current : List Event} {taken : List PromiseId}

/-- The dependent that a `dependencyOnline` with answer STARTED leaves behind. -/
def MayStart (s : DependencyManager) (d : ServiceId) : Prop :=
  ∃ m, s.services.get? d = some m ∧ m.state = .installed ∧ m.kind = .dependency ∧
    m.registry.allSatisfied = true

theorem mayStart_of {s : DependencyManager} {d : ServiceId} (h : Inv (view s current .idle taken))
    (hk : (view s current .idle taken).kind d = .dependency)
    (hpres : (view s current .idle taken).state d ≠ .uninstalled)
    (hrank : (s.stateOf d).rank ≤ ServiceState.installed.rank)
    (hsat : (s.registryOf d).allSatisfied = true) : MayStart s d := by
  obtain ⟨m, hm⟩ := (h.links.inTable d).mpr hpres
  rw [view_kind s current .idle taken hm] at hk
  have hst : s.stateOf d = m.state := Services.view_some _ _ _ _ hm
  have hreg : s.registryOf d = m.registry := Services.view_some _ _ _ _ hm
  refine ⟨m, hm, ?_, hk, hreg ▸ hsat⟩
  have hne : m.state ≠ .uninstalled := hst ▸ hpres
  rw [hst] at hrank
  cases hstate : m.state <;> simp_all [ServiceState.rank]

theorem provides_of {s : DependencyManager} {p : ServiceId} (h : Inv (view s current .idle taken))
    (hp : p = selfServiceId ∨ (view s current .idle taken).state p = .active) : Provides s p := by
  rcases hp with hp | hp
  · refine .inr ⟨hp, ?_⟩
    cases hget : s.services.get? p with
    | none => rfl
    | some m => exact absurd h.links.noSelf ((h.links.inTable _).mp ⟨m, hp ▸ hget⟩)
  · have hne : (view s current .idle taken).state p ≠ .uninstalled := by simp [hp]
    exact .inl ⟨h.links.ne_self hne, (h.links.inTable p).mpr hne⟩

theorem path_dependencyOnline {s : DependencyManager} (h : Inv (view s current .idle taken))
    (d p : ServiceId) (interfaces : List NameHash)
    (hprov : (p = selfServiceId ∧ interfaces = [iServiceHash] ∧ o.core.state d = .uninstalled) ∨
      ((view s current .idle taken).state p = .active ∧ p ≠ d ∧
        interfaces = (view s current .idle taken).interfaces p))
    (hcause : Inserting o d ∨ (p ≠ selfServiceId ∧ o.core.state p = .injecting)) :
    ∃ s', Path o (view s current .idle taken) (view s' current .idle taken) ∧
      s'.stateOf = s.stateOf ∧
      (s.dependencyOnline d p interfaces = (s', .done) ∨
        (s.dependencyOnline d p interfaces = (s', .started) ∧ MayStart s' d)) := by
  unfold dependencyOnline
  cases hd : s.services.get? d with
  | none => exact ⟨s, .refl, rfl, .inl rfl⟩
  | some m =>
    dsimp only
    by_cases hcond : (decide (m.kind ≠ .dependency) ||
        decide (p ∈ m.serviceIdsOfInjectedDependencies)) = true
    · rw [if_pos hcond]
      exact ⟨s, .refl, rfl, .inl rfl⟩
    rw [if_neg hcond]
    have hkind : m.kind = .dependency := by
      by_contra hne
      exact hcond (by simp [hne])
    have hnew : p ∉ m.serviceIdsOfInjectedDependencies := fun hmem => hcond (by simp [hmem])
    have hpres : (view s current .idle taken).state d ≠ .uninstalled :=
      (h.links.inTable d).mp ⟨m, hd⟩
    have hp : Provides s p := provides_of h (hprov.imp And.left And.left)
    obtain ⟨hnil, hfold⟩ | ⟨hne, hview⟩ :=
      view_onlineLoop current .idle taken interfaces (s, .notFound) hd hp
    · rw [hfold]
      exact ⟨s, .refl, rfl, .inl (by simp)⟩
    · have hpath : Path o (view s current .idle taken)
          (view (interfaces.foldl (dependencyOnlineInterface d p) (s, .notFound)).1 current .idle
            taken) := by
        rw [hview, ← view_registry s current .idle taken hd]
        refine .single (.online (.inject d p interfaces _ rfl ?_ hpres ?_ hprov hcause rfl ?_))
        · exact (view_kind s current .idle taken hd).trans hkind
        · exact fun hdep => hnew ((view_dep s current .idle taken hd).mp hdep)
        · rwa [view_registry s current .idle taken hd]
      have hinv := h.path hpath
      have hstate : (interfaces.foldl (dependencyOnlineInterface d p) (s, .notFound)).1.stateOf =
          s.stateOf := congrArg Core.state hview
      have hkind' : (view (interfaces.foldl (dependencyOnlineInterface d p) (s, .notFound)).1
          current .idle taken).kind d = .dependency := by
        rw [hview]
        exact (view_kind s current .idle taken hd).trans hkind
      refine ⟨_, hpath, hstate, ?_⟩
      split
      · rename_i hst
        obtain ⟨hst, hsat⟩ := (Bool.and_eq_true _ _).mp hst
        obtain ⟨_, hrank⟩ := (Bool.and_eq_true _ _).mp hst
        refine .inr ⟨rfl, mayStart_of hinv hkind' ?_ (of_decide_eq_true hrank) hsat⟩
        show (interfaces.foldl (dependencyOnlineInterface d p) (s, .notFound)).1.stateOf d ≠ _
        rw [hstate]
        exact hpres
      · exact .inl rfl

/-- What a provider is offered to one service comes to: the injection, and the start of a
service that waited for it. -/
structure Offered (o : Origin) (s : DependencyManager) (current : List Event)
    (taken : List PromiseId) (d : ServiceId) (s' : DependencyManager) : Prop where
  path : Path o (view s current .idle taken) (view s' current .idle taken)
  others : ∀ x, x ≠ d → s'.stateOf x = s.stateOf x
  notActive : s.stateOf d ≠ .active → s'.stateOf d ≠ .active

theorem Offered.refl (s : DependencyManager) (d : ServiceId) : Offered o s current taken d s :=
  ⟨.refl, fun _ _ => rfl, id⟩

theorem offered_start {s s' : DependencyManager} (h : Inv (view s current .idle taken))
    (u : UserCode) (d : ServiceId) (priority : ℕ)
    (hpath : Path o (view s current .idle taken) (view s' current .idle taken))
    (hstate : s'.stateOf = s.stateOf) (hmay : MayStart s' d) :
    Offered o s current taken d (s'.startDependent u d priority) := by
  obtain ⟨m, hm, hst, hk, hsat⟩ := hmay
  have hinv := h.path hpath
  have hstart := path_startDependent hinv u d priority m hm hst (by rw [hk]; decide) (fun _ => hsat)
    (o := o)
  obtain ⟨hother, hself⟩ := stateOf_startDependent s' u d priority
  rw [hstate] at hother hself
  exact ⟨hpath.trans hstart, hother, hself⟩

theorem offered_onlineDependent {s : DependencyManager} (h : Inv (view s current .idle taken))
    (u : UserCode) (e : Event) (d : ServiceId) (hp : s.stateOf e.originatingService = .active)
    (hcause : o.core.state e.originatingService = .injecting) :
    Offered o s current taken d (onlineDependent u e s d) := by
  unfold onlineDependent
  split
  · rename_i mp md hmp hmd
    split
    · exact .refl s d
    · rename_i hcond
      have hne : e.originatingService ≠ d := fun he => hcond (by simp [he])
      have hpres : s.stateOf e.originatingService ≠ .uninstalled := by simp [hp]
      obtain ⟨s', hpath, hstate, hout | ⟨hout, hmay⟩⟩ := path_dependencyOnline h d
        e.originatingService mp.interfaces
        (.inr ⟨hp, hne, (view_interfaces s current .idle taken hmp).symm⟩)
        (.inr ⟨h.links.ne_self hpres, hcause⟩)
      · rw [hout]
        exact ⟨hpath, fun x _ => congrFun hstate x, fun hd => (congrFun hstate d).symm ▸ hd⟩
      · rw [hout]
        exact offered_start h u d _ hpath hstate hmay
  · exact .refl s d

theorem path_onlineDependents (u : UserCode) (e : Event) (keys : List ServiceId)
    {s : DependencyManager} (h : Inv (view s current .idle taken))
    (hp : s.stateOf e.originatingService = .active)
    (hcause : o.core.state e.originatingService = .injecting) : Path o (view s current .idle taken)
      (view (keys.foldl (onlineDependent u e) s) current .idle taken) := by
  induction keys generalizing s with
  | nil => exact .refl
  | cons d rest ih =>
    have hoff := offered_onlineDependent h u e d hp hcause
    refine hoff.path.trans (ih (h.path hoff.path) ?_)
    by_cases hd : e.originatingService = d
    · have hsame : onlineDependent u e s d = s := by
        unfold onlineDependent
        split
        · rw [if_pos (by simp [hd])]
        · rfl
      rw [hsame]
      exact hp
    · rw [hoff.others _ hd]
      exact hp

/-! ## InsertServiceEvent -/

theorem offered_insertProvider {s : DependencyManager} (h : Inv (view s current .idle taken))
    (u : UserCode) (e : Event) (d p : ServiceId) (hd : s.stateOf d ≠ .active)
    (hcause : Inserting o d) : Offered o s current taken d (insertProvider u e d s p) := by
  unfold insertProvider
  split
  · rename_i mp md hmp hmd
    split
    · exact .refl s d
    · rename_i hcond
      have hact : s.stateOf p = .active := by
        rw [show s.stateOf p = mp.state from Services.view_some _ _ _ _ hmp]
        by_contra hne
        exact hcond (by simp [hne])
      have hne : p ≠ d := fun he => hd (he ▸ hact)
      obtain ⟨s', hpath, hstate, hout | ⟨hout, hmay⟩⟩ := path_dependencyOnline h d p mp.interfaces
        (.inr ⟨hact, hne, (view_interfaces s current .idle taken hmp).symm⟩) (.inl hcause)
      · rw [hout]
        exact ⟨hpath, fun x _ => congrFun hstate x, fun hd => (congrFun hstate d).symm ▸ hd⟩
      · rw [hout]
        exact offered_start h u d _ hpath hstate hmay
  · exact .refl s d

theorem path_insertProviders (u : UserCode) (e : Event) (d : ServiceId) (keys : List ServiceId)
    {s : DependencyManager} (h : Inv (view s current .idle taken)) (hd : s.stateOf d ≠ .active)
    (hcause : Inserting o d) : Path o (view s current .idle taken)
      (view (keys.foldl (insertProvider u e d) s) current .idle taken) := by
  induction keys generalizing s with
  | nil => exact .refl
  | cons p rest ih =>
    have hoff := offered_insertProvider h u e d p hd hcause
    exact hoff.path.trans (ih (h.path hoff.path) (hoff.notActive hd))

theorem path_handleInsertService {s : DependencyManager} {e : Event} {mgr : LifecycleManager}
    (h : Inv (view s [e] .idle [])) (u : UserCode) (ho : o.event = some e)
    (hb : e.body = .insertService mgr) (hq : s.quitDone = false)
    (horigin : o.core.state e.originatingService = .uninstalled) :
    Path o (view s [e] .idle []) (view (s.handleInsertService u e mgr) [] .idle []) := by
  obtain ⟨_, _, hun, desc, hmgr⟩ := h.fresh.inserted e List.mem_cons_self mgr hb
  have hnone : s.services.get? e.originatingService = none := by
    cases hget : s.services.get? e.originatingService with
    | none => rfl
    | some m => exact absurd hun ((h.links.inTable _).mp ⟨m, hget⟩)
  have hcause : Inserting o e.originatingService := ⟨e, mgr, ho, hb, rfl⟩
  have hv := view_install s [] .idle [] e.originatingService mgr hnone (by rw [hmgr]; rfl)
    (by rw [hmgr]; rfl) (by rw [hmgr]; rfl)
  have hinstall : Path o (view s [e] .idle [])
      (view { s with services := s.services.emplace e.originatingService mgr } [] .idle []) := by
    rw [hv]
    exact .single (.start (.install e s.queue e.originatingService mgr desc rfl ho hb rfl hmgr hun
      rfl hq))
  have hinv := h.path hinstall
  have hstate : DependencyManager.stateOf
      { s with services := s.services.emplace e.originatingService mgr } e.originatingService ≠
        .active := by
    have hst := congrFun (congrArg Core.state hv) e.originatingService
    have hinst : ((view s [] .idle []).install e.originatingService mgr).state
        e.originatingService = mgr.state := Function.update_self ..
    rw [hinst] at hst
    have hnew : DependencyManager.stateOf
        { s with services := s.services.emplace e.originatingService mgr } e.originatingService =
          mgr.state := hst
    rw [hnew, hmgr]
    simp [createdManager]
  unfold handleInsertService
  dsimp only
  obtain ⟨s', hpath, hsame, hout⟩ := path_dependencyOnline hinv e.originatingService selfServiceId
    [iServiceHash] (.inl ⟨rfl, rfl, horigin⟩) (.inl hcause)
  have hrest : ∀ t, Offered o { s with services := s.services.emplace e.originatingService mgr } [] []
      e.originatingService t → Path o (view s [e] .idle []) (view
        (if mgr.kind ≠ .dependency || mgr.registry.isEmpty then t
        else t.services.keys.foldl (insertProvider u e e.originatingService) t) [] .idle []) := by
    intro t ht
    refine hinstall.trans (ht.path.trans ?_)
    split
    · exact .refl
    · exact path_insertProviders u e e.originatingService _ (hinv.path ht.path)
        (ht.notActive hstate) hcause
  rcases hout with hout | ⟨hout, hmay⟩
  · rw [hout]
    exact hrest s' ⟨hpath, fun x _ => congrFun hsame x, fun hd => (congrFun hsame _).symm ▸ hd⟩
  · rw [hout]
    exact hrest _ (offered_start hinv u e.originatingService _ hpath hsame hmay)

end

end Ichor.Lifecycle
