import Ichor.Refinement.Injecting

/-! Taking providers out: the loop of `dependencyOffline`, its waits and its ends. -/
namespace Ichor.Lifecycle
open DependencyManager List Function

/-! ## Registers -/

section
variable (c : Core) (d p : ServiceId) (r : ℕ) (rs : List ℕ)

theorem lower_cons (rest : List ℕ) (reg : DependencyRegister) :
    lower (r :: rest) reg = lower rest (lower [r] reg) := rfl

theorem lower_getElem?_of_notMem (reg : DependencyRegister) (r : ℕ) (h : r ∉ rs) :
    (lower rs reg)[r]? = reg[r]? := by
  induction rs generalizing reg with
  | nil => rfl
  | cons x rest ih =>
    rw [lower_cons, ih _ (not_mem_of_not_mem_cons h)]
    have hx : x ≠ r := fun he => h (he ▸ mem_cons_self)
    simp [lower, hx]

theorem lower_getElem?_self {reg : DependencyRegister} {r : ℕ} {dep : Registration}
    (h : reg[r]? = some dep) :
    (lower [r] reg)[r]? = some { dep with satisfied := dep.satisfied - 1 } := by
  simp [lower, h]

theorem takeOutCalls_cons :
    takeOutCalls d p (r :: rs) = takeOutCalls d p rs ++ [.takeOut d r p] := by
  simp [takeOutCalls]

/-- The registrations `rs` of `d` have lost the provider `p`. -/
def takenOut : Core :=
  (c.setRegistry d (lower rs (c.registry d))).record (takeOutCalls d p rs)

theorem takenOut_nil : takenOut c d p [] = c := by
  unfold takenOut Core.setRegistry Core.record
  have hreg : update c.registry d (lower [] (c.registry d)) = c.registry :=
    update_eq_self d c.registry
  rw [hreg]
  rfl

theorem takenOut_takenOut : takenOut (takenOut c d p [r]) d p rs = takenOut c d p (r :: rs) := by
  unfold takenOut Core.setRegistry Core.record
  dsimp only
  rw [update_idem, update_self, takeOutCalls_cons d p r rs, append_assoc]
  rfl

theorem takenOut_registry :
    (takenOut c d p rs).registry d = lower rs (c.registry d) := update_self ..

end

/-- The states in which a dependent has to do with a REQUIRED provider that goes away. -/
def Running (st : ServiceState) : Prop :=
  st = .starting ∨ st = .injecting ∨ st = .active ∨ st = .uninjecting

/-- How the loop of `dependencyOffline` ends: the provider is out of all the
registrations, or the dependent has to stop and nobody waits for that, or the
loop waits at a REQUIRED registration that lost its last provider. -/
inductive LoopEnd (c : Core) (d p : ServiceId) (q : PromiseId) (deps : List ℕ) (c' : Core) :
    OfflineResult → Prop
  | done (hl : Lowerable deps (c.registry d))
      (hstay : Running (c.state d) → ∀ r ∈ deps, ¬RequiredGone (lower deps (c.registry d)) r)
      (hc : c' = takenOut c d p deps) : LoopEnd c d p q deps c' (.finished .done)
  | stopMe (hl : Lowerable deps (c.registry d)) (hs : c.state d = .uninjecting)
      (hw : ¬c.HasOfflineWaiter d)
      (hgone : ∃ pre r post, deps = pre ++ r :: post ∧
        RequiredGone (lower (pre ++ [r]) (c.registry d)) r)
      (hc : c' = takenOut c d p deps) : LoopEnd c d p q deps c' (.finished .stopMe)
  | wait (pre : List ℕ) (r : ℕ) (point : OfflinePoint) (events : List Event)
      (hdeps : deps = pre ++ r :: unreached point) (hl : Lowerable (pre ++ [r]) (c.registry d))
      (hgone : RequiredGone (lower (pre ++ [r]) (c.registry d)) r) (hw : Waits c d point events)
      (hc : c' = ((takenOut c d p (pre ++ [r])).push events).wait d (waitType point) q) :
      LoopEnd c d p q deps c' (.suspended point)

variable {events : List Event} {point : OfflinePoint}

theorem Waits.transfer {c c' : Core} {d : ServiceId}
    (h : Waits c d point events) (hs : c'.state d = c.state d) (hw : c'.waiters d = c.waiters d) :
    Waits c' d point events := by
  have hwaiter : c'.HasOfflineWaiter d ↔ c.HasOfflineWaiter d := by
    unfold Core.HasOfflineWaiter
    rw [hw]
  cases h with
  | online left interested ret hst hi => exact .online left interested ret (hs.symm ▸ hst) hi
  | queued left ret hst hw => exact .queued left ret (hs.trans hst) (hwaiter.mpr hw)
  | active left ret e hst hw he ho =>
    exact .active left ret e (hs.trans hst) (fun h => hw (hwaiter.mp h)) he ho
  | uninjecting left ret hst hw => exact .uninjecting left ret (hs.trans hst) (hwaiter.mpr hw)

variable {res : OfflineResult}

theorem LoopEnd.cons {c c' : Core} {d p : ServiceId} {q : PromiseId} {r : ℕ} {rest : List ℕ}
    (h : LoopEnd (takenOut c d p [r]) d p q rest c' res)
    (hpos : ∃ dep, (c.registry d)[r]? = some dep ∧ dep.satisfied ≠ 0)
    (hkeep : Running (c.state d) → ¬RequiredGone (lower [r] (c.registry d)) r) :
    LoopEnd c d p q (r :: rest) c' res := by
  cases h with
  | done hl hstay hc =>
    rw [takenOut_registry] at hl hstay
    rw [takenOut_takenOut] at hc
    refine .done ⟨hpos, hl⟩ (fun hs x hx => ?_) hc
    rw [lower_cons]
    by_cases hmem : x ∈ rest
    · exact hstay hs x hmem
    · have hxr : x = r := (mem_cons.mp hx).resolve_right hmem
      subst hxr
      intro hgone
      refine hkeep hs ?_
      unfold RequiredGone at hgone ⊢
      rwa [lower_getElem?_of_notMem rest _ x hmem] at hgone
  | stopMe hl hs hw hgone hc =>
    rw [takenOut_registry] at hl hgone
    rw [takenOut_takenOut] at hc
    obtain ⟨pre, x, post, hrest, hx⟩ := hgone
    exact .stopMe ⟨hpos, hl⟩ hs hw ⟨r :: pre, x, post, by rw [hrest]; rfl, hx⟩ hc
  | wait pre x point events hdeps hl hgone hw hc =>
    rw [takenOut_registry] at hl hgone
    rw [takenOut_takenOut] at hc
    exact .wait (r :: pre) x point events (by rw [hdeps]; rfl) ⟨hpos, hl⟩ hgone (hw.transfer rfl rfl) hc

/-! ## The loop of `dependencyOffline` -/

section
variable {s s' : DependencyManager} {d p : ServiceId} {q : PromiseId}
  (current : List Event) (phase : Phase) (taken : List PromiseId)

theorem decrementSatisfied_spec {r : ℕ} {gone : Bool}
    (h : s.decrementSatisfied d r p = some (s', gone)) :
    (∃ dep, (s.registryOf d)[r]? = some dep ∧ dep.satisfied ≠ 0) ∧
      (gone = true ↔ RequiredGone (lower [r] (s.registryOf d)) r) ∧
      view s' current phase taken = takenOut (view s current phase taken) d p [r] := by
  unfold decrementSatisfied at h
  split at h
  · cases h
  rename_i dep hdep
  split at h
  · cases h
  rename_i hpos
  cases h
  obtain ⟨m, hm⟩ : ∃ m, s.services.get? d = some m := by
    cases hget : s.services.get? d with
    | some m => exact ⟨m, rfl⟩
    | none =>
      have hnil : s.registryOf d = [] := Services.view_none _ _ _ _ hget
      rw [hnil] at hdep
      cases hdep
  refine ⟨⟨dep, hdep, hpos⟩, ?_, ?_⟩
  · unfold RequiredGone
    rw [lower_getElem?_self hdep]
    simp
  · have hcall : (s.call (.takeOut d r p)).services.get? d = some m := hm
    rw [view_setRegistry _ current phase taken hcall (fun reg => reg.modify r fun dep =>
      { dep with satisfied := dep.satisfied - 1 }), view_call]
    rfl

/-- The second half of the loop body once the register says that no REQUIRED provider
went away, or that the dependent stops anyway. -/
theorem offlineStop_go (ret : StartBehaviour) (gone : Bool) (interested : DependencyChange)
    (h : gone = false ∨ interested = .foundAndStopMe) :
    ∃ interested', s.offlineStop d q gone interested ret = (s, .go interested' ret) ∧
      (interested' = .foundAndStopMe ↔ interested = .foundAndStopMe) := by
  unfold offlineStop
  have hcond : ¬(gone && decide (interested ≠ .foundAndStopMe) &&
      (decide (s.stateOf d = .active) || decide (s.stateOf d = .uninjecting))) = true := by
    rcases h with h | h <;> simp [h]
  rw [if_neg hcond]
  by_cases hi : interested = .foundAndStopMe
  · exact ⟨interested, by rw [if_neg (not_not_intro hi)], Iff.rfl⟩
  · exact ⟨.found, by rw [if_pos hi], by simp [hi]⟩

theorem offlineLoop_stopMe (rest : List ℕ) (hst : s.stateOf d = .uninjecting)
    (h : offlineLoop d p q rest .foundAndStopMe .stopMe s = some (s', res)) :
    res = .finished .stopMe ∧ Lowerable rest (s.registryOf d) ∧
      view s' current phase taken = takenOut (view s current phase taken) d p rest := by
  induction rest generalizing s with
  | nil =>
    cases h
    exact ⟨rfl, trivial, (takenOut_nil _ d p).symm⟩
  | cons r rest ih =>
    rw [offlineLoop] at h
    cases hdec : s.decrementSatisfied d r p with
    | none => simp [hdec] at h
    | some out =>
      obtain ⟨s1, gone⟩ := out
      obtain ⟨hpos, _, hv⟩ := decrementSatisfied_spec current phase taken hdec
      have hst1 : s1.stateOf d = .uninjecting := (congrFun (congrArg Core.state hv) d).trans hst
      have hreg1 : s1.registryOf d = lower [r] (s.registryOf d) :=
        (congrFun (congrArg Core.registry hv) d).trans (takenOut_registry _ d p [r])
      obtain ⟨i, hgo, hi⟩ := offlineStop_go (s := s1) (d := d) (q := q) .stopMe gone .foundAndStopMe
        (.inr rfl)
      rw [hdec] at h
      dsimp only at h
      rw [if_neg (by simp [hst1]), hgo, hi.mpr rfl] at h
      obtain ⟨hres, hlow, hview⟩ := ih hst1 h
      rw [hreg1] at hlow
      refine ⟨hres, ⟨hpos, hlow⟩, ?_⟩
      rw [hview, hv, takenOut_takenOut]

theorem offlineStop_gone (ret : StartBehaviour) (interested : DependencyChange) (rest : List ℕ)
    (hi : interested ≠ .foundAndStopMe) (hst : s.stateOf d = .active ∨ s.stateOf d = .uninjecting) :
    (∃ s' wasActive events, s.offlineStop d q true interested ret = (s', .wait wasActive) ∧
      Waits (view s current phase taken) d (.awaitOffline wasActive rest ret) events ∧
      view s' current phase taken =
        ((view s current phase taken).push events).wait d .dependencyOffline q) ∨
    (s.offlineStop d q true interested ret = (s, .go .foundAndStopMe .stopMe) ∧
      s.stateOf d = .uninjecting ∧ ¬(view s current phase taken).HasOfflineWaiter d) := by
  unfold offlineStop
  rw [if_pos (by simp [hi, hst])]
  have hwaiter := view_hasOfflineWaiter s current phase taken d
  have hnil : (view s current phase taken).push [] = view s current phase taken := by
    unfold Core.push
    rw [append_nil]
  by_cases hact : s.stateOf d = .active
  · rw [if_pos hact]
    left
    by_cases hw : s.hasDependencyWaiter d .dependencyOffline = true
    · simp only [hw, if_true]
      refine ⟨_, true, [], rfl, .queued rest ret hact (hwaiter.mpr hw), ?_⟩
      rw [view_waitForService, hnil]
    · simp only [hw, if_false, Bool.false_eq_true]
      refine ⟨_, true, [_], rfl,
        .active rest ret ⟨s.nextEventId, d, internalDependencyEventPriority - 1,
          .dependencyOffline false⟩ hact (fun h => hw (hwaiter.mp h)) rfl rfl, ?_⟩
      rw [view_waitForService, view_push]
  · have hun := hst.resolve_left hact
    rw [if_neg hact]
    by_cases hw : s.hasDependencyWaiter d .dependencyOffline = true
    · simp only [hw, if_true]
      refine .inl ⟨_, false, [], rfl, .uninjecting rest ret hun (hwaiter.mpr hw), ?_⟩
      rw [view_waitForService, hnil]
    · rw [if_neg hw]
      exact .inr ⟨rfl, hun, fun h => hw (hwaiter.mp h)⟩

theorem offlineLoop_spec (rest : List ℕ) (interested : DependencyChange)
    (hi : interested ≠ .foundAndStopMe)
    (h : offlineLoop d p q rest interested .done s = some (s', res)) :
    LoopEnd (view s current phase taken) d p q rest (view s' current phase taken) res := by
  induction rest generalizing s interested with
  | nil =>
    cases h
    exact .done trivial (fun _ r hr => by cases hr) (takenOut_nil _ d p).symm
  | cons r rest ih =>
    rw [offlineLoop] at h
    cases hdec : s.decrementSatisfied d r p with
    | none => simp [hdec] at h
    | some out =>
      obtain ⟨s1, gone⟩ := out
      obtain ⟨hpos, hgone, hv⟩ := decrementSatisfied_spec current phase taken hdec
      have hst1 : s1.stateOf d = s.stateOf d := congrFun (congrArg Core.state hv) d
      rw [hdec] at h
      dsimp only at h
      by_cases honline : (gone && (decide (s1.stateOf d = .starting) ||
          decide (s1.stateOf d = .injecting))) = true
      · rw [if_pos honline] at h
        cases h
        obtain ⟨hg, hs⟩ := (Bool.and_eq_true _ _).mp honline
        have hs' : s.stateOf d = .starting ∨ s.stateOf d = .injecting := by
          simpa [hst1] using hs
        refine .wait [] r (.awaitOnline rest interested .done) [] rfl ⟨hpos, trivial⟩
          (hgone.mp hg) (.online rest interested .done hs' hi) ?_
        rw [view_waitForService, hv]
        unfold Core.push
        rw [append_nil]
        rfl
      rw [if_neg honline] at h
      by_cases hmatters : gone = true ∧ (s1.stateOf d = .active ∨ s1.stateOf d = .uninjecting)
      · obtain ⟨hg, hs⟩ := hmatters
        subst hg
        obtain ⟨s2, wasActive, events, hstop, hw, hv2⟩ | ⟨hstop, hun, hw⟩ :=
          offlineStop_gone (q := q) current phase taken .done interested rest hi hs
        · rw [hstop] at h
          cases h
          rw [hv] at hw hv2
          refine .wait [] r (.awaitOffline wasActive rest .done) events rfl ⟨hpos, trivial⟩
            (hgone.mp rfl) (hw.transfer rfl rfl) ?_
          exact hv2
        · rw [hstop] at h
          obtain ⟨hres, hlow, hview⟩ := offlineLoop_stopMe current phase taken rest hun h
          subst hres
          rw [hv, takenOut_takenOut] at hview
          rw [hv] at hw
          have hreg1 : s1.registryOf d = lower [r] (s.registryOf d) :=
            (congrFun (congrArg Core.registry hv) d).trans (takenOut_registry _ d p [r])
          rw [hreg1] at hlow
          exact .stopMe ⟨hpos, hlow⟩ (hst1.symm.trans hun) hw ⟨[], r, rest, rfl, hgone.mp rfl⟩ hview
      · have hkeep : Running ((view s current phase taken).state d) →
            ¬RequiredGone (lower [r] ((view s current phase taken).registry d)) r := by
          intro hrun hg
          have hg' := hgone.mpr hg
          have hrun' : Running (s1.stateOf d) := hst1.symm ▸ hrun
          rcases hrun' with hs | hs | hs | hs
          · exact honline (by simp [hg', hs])
          · exact honline (by simp [hg', hs])
          · exact hmatters ⟨hg', .inl hs⟩
          · exact hmatters ⟨hg', .inr hs⟩
        have hgo : s1.offlineStop d q gone interested .done = (s1, .go .found .done) := by
          unfold offlineStop
          rw [if_neg, if_pos hi]
          intro hc
          obtain ⟨hc, hs⟩ := (Bool.and_eq_true _ _).mp hc
          obtain ⟨hg, _⟩ := (Bool.and_eq_true _ _).mp hc
          exact hmatters ⟨hg, by simpa using hs⟩
        rw [hgo] at h
        have hnext := ih .found (by simp) h
        rw [hv] at hnext
        exact hnext.cons hpos hkeep

/-! ## `finishDependencyOffline` -/

theorem removeCalls_cons (d p : ServiceId) (r : ℕ) (rs : List ℕ) :
    removeCalls d p (r :: rs) = removeCalls d p rs ++ [.remove d r p] := by
  simp [removeCalls]

/-- `d` is no dependee of `p` any more. -/
def dropDependee (c : Core) (d p : ServiceId) : Core :=
  c.setDee fun x y => c.dee x y ∧ ¬(x = p ∧ y = d)

theorem dropDependee_twice (c : Core) (d p : ServiceId) (calls calls' : List Call) :
    ((dropDependee ((dropDependee c d p).record calls) d p).record calls') =
      (dropDependee c d p).record (calls' ++ calls) := by
  have hdee : (fun x y => (c.dee x y ∧ ¬(x = p ∧ y = d)) ∧ ¬(x = p ∧ y = d)) =
      fun x y => c.dee x y ∧ ¬(x = p ∧ y = d) := by
    funext x y
    exact propext ⟨And.left, fun h => ⟨h, h.2⟩⟩
  unfold dropDependee Core.record Core.setDee
  dsimp only
  rw [hdee, append_assoc]

variable {mp m : LifecycleManager}

theorem view_removeSelf (hp : s.services.get? p = some mp) (r : ℕ) :
    view (removeSelfIntoDoubleDispatch d p s r) current phase taken =
      (dropDependee (view s current phase taken) d p).record [.remove d r p] := by
  unfold removeSelfIntoDoubleDispatch
  have hcall : (s.call (.remove d r p)).services.get? p = some mp := hp
  rw [view_eraseDependee _ current phase taken hcall d, view_call]
  rfl

theorem view_removeSelfs (deps : List ℕ) (hne : deps ≠ []) (hp : s.services.get? p = some mp) :
    view (deps.foldl (removeSelfIntoDoubleDispatch d p) s) current phase taken =
      (dropDependee (view s current phase taken) d p).record (removeCalls d p deps) := by
  induction deps generalizing s mp with
  | nil => exact absurd rfl hne
  | cons r rest ih =>
    rw [foldl_cons]
    have hv := view_removeSelf (d := d) current phase taken hp r
    by_cases hrest : rest = []
    · subst hrest
      exact hv
    · have hp' := get?_modifyService (s.call (.remove d r p)) (d := p) hp
        (fun m => { m with serviceIdsOfDependees := eraseId d m.serviceIdsOfDependees }) p
      have hnext := ih (s := removeSelfIntoDoubleDispatch d p s r) hrest hp'
      rw [hnext, hv, removeCalls_cons]
      exact dropDependee_twice _ d p _ _

theorem view_eraseProvider (hd : s.services.get? d = some m) (p : ServiceId) :
    view (s.modifyService d fun m => { m with
        serviceIdsOfInjectedDependenciesButGoingAway :=
          eraseId p m.serviceIdsOfInjectedDependenciesButGoingAway
        serviceIdsOfInjectedDependencies := eraseId p m.serviceIdsOfInjectedDependencies })
      current phase taken =
      { view s current phase taken with
        dep := fun x y => (view s current phase taken).dep x y ∧ ¬(x = d ∧ y = p)
        away := fun x y => (view s current phase taken).away x y ∧ ¬(x = d ∧ y = p) } := by
  rw [view_modifyService _ _ _ _ hd rfl rfl]
  dsimp only
  rw [stateOf_unchanged s hd, registryOf_unchanged s hd, dependeesOf_unchanged s hd]
  have hdep : s.dependenciesOf d = m.serviceIdsOfInjectedDependencies :=
    Services.view_some _ _ _ _ hd
  have haway : s.goingAwayOf d = m.serviceIdsOfInjectedDependenciesButGoingAway :=
    Services.view_some _ _ _ _ hd
  unfold view
  congr 1
  · funext x y
    rw [← hdep]
    exact propext (mem_update_eraseId s.dependenciesOf d _ x y)
  · funext x y
    rw [← haway]
    exact propext (mem_update_eraseId s.goingAwayOf d _ x y)

theorem get?_foldl_removeSelf (deps : List ℕ) (hd : s.services.get? d = some m) :
    ∃ m', (deps.foldl (removeSelfIntoDoubleDispatch d p) s).services.get? d = some m' := by
  refine foldlRecOn (motive := fun t : DependencyManager => ∃ m', t.services.get? d = some m')
    deps _ ⟨m, hd⟩ ?_
  rintro t ⟨_, ht⟩ r -
  exact ⟨_, get?_modifyService (t.call (.remove d r p)) ht _ p⟩

theorem view_finishDependencyOffline (deps : List ℕ) (hne : deps ≠ [])
    (hd : s.services.get? d = some m) (hp : s.services.get? p = some mp) :
    view (s.finishDependencyOffline d p deps) current phase taken =
      ((view s current phase taken).unlink d p).record (removeCalls d p deps) := by
  unfold finishDependencyOffline
  obtain ⟨m', hm'⟩ := get?_foldl_removeSelf (p := p) deps hd
  rw [view_eraseProvider current phase taken hm' p,
    view_removeSelfs current phase taken deps hne hp]
  rfl

end

/-! ## One dependee -/

section
variable {o : Origin} {s s' : DependencyManager} {d p : ServiceId} {current : List Event}
  {remove : Bool} {todo : List ServiceId}

/-- The dependent is as it was when the event was taken from the queue. -/
structure Untouched (o : Origin) (c : Core) (d : ServiceId) : Prop where
  registry : c.registry d = o.core.registry d
  state : c.state d = o.core.state d
  dep : ∀ x, c.dep d x ↔ o.core.dep d x
  away : ∀ x, c.away d x ↔ o.core.away d x
  calls : ∃ calls : List Call, c.trace = calls ++ o.core.trace ∧
    ∀ r x, Call.add d r x ∉ calls ∧ Call.takeOut d r x ∉ calls ∧ Call.remove d r x ∉ calls

/-- There is nothing of `p` to take out of `d`. -/
def NothingLeft (c : Core) (d p : ServiceId) : Prop :=
  ¬c.dep d p ∨ c.away d p ∨ offlineRegistrations (c.interfaces p) (c.registry d) = []

/-- What taking `p` out of `d` does to everybody else. -/
structure OnlyTouches (c c' : Core) (d p : ServiceId) : Prop where
  interfaces : c'.interfaces = c.interfaces
  registry : ∀ x, x ≠ d → c'.registry x = c.registry x
  state : c'.state = c.state
  dep : ∀ x y, x ≠ d → (c'.dep x y ↔ c.dep x y)
  away : ∀ x y, x ≠ d → (c'.away x y ↔ c.away x y)
  gone : NothingLeft c' d p
  calls : ∃ calls : List Call, c'.trace = calls ++ c.trace ∧ ∀ x r y, x ≠ d →
    Call.add x r y ∉ calls ∧ Call.takeOut x r y ∉ calls ∧ Call.remove x r y ∉ calls

/-- The handler has told `d` that `p` is offline. -/
def Tells (o : Origin) (d p : ServiceId) (c c' : Core) : Prop :=
  Path o c c' ∧ OnlyTouches c c' d p

variable {x : ServiceId} {deps : List ℕ} {s1 : DependencyManager} {seen : List ServiceId}

theorem Untouched.other {c c' : Core} (h : Untouched o c x)
    (ht : OnlyTouches c c' d p) (hx : x ≠ d) : Untouched o c' x where
  registry := (ht.registry x hx).trans h.registry
  state := (congrFun ht.state x).trans h.state
  dep y := (ht.dep x y hx).trans (h.dep y)
  away y := (ht.away x y hx).trans (h.away y)
  calls := by
    obtain ⟨calls, htrace, hnone⟩ := h.calls
    obtain ⟨more, hmore, hnone'⟩ := ht.calls
    refine ⟨more ++ calls, by rw [hmore, htrace, append_assoc], fun r y => ?_⟩
    obtain ⟨h1, h2, h3⟩ := hnone r y
    obtain ⟨h1', h2', h3'⟩ := hnone' x r y hx
    simp only [mem_append, not_or]
    exact ⟨⟨h1', h1⟩, ⟨h2', h2⟩, h3', h3⟩

theorem NothingLeft.other {c c' : Core} (h : NothingLeft c x p)
    (ht : OnlyTouches c c' d p) (hx : x ≠ d) : NothingLeft c' x p := by
  unfold NothingLeft
  rw [ht.interfaces, ht.registry x hx]
  exact h.imp (fun hn hd => hn ((ht.dep x p hx).mp hd)) (Or.imp_left (ht.away x p hx).mpr)

theorem not_mem_takeOutCalls (hx : x ≠ d) (rs : List ℕ) (r : ℕ) (y : ServiceId) :
    Call.add x r y ∉ takeOutCalls d p rs ∧ Call.takeOut x r y ∉ takeOutCalls d p rs ∧
      Call.remove x r y ∉ takeOutCalls d p rs := by
  simp [takeOutCalls, Ne.symm hx]

theorem not_mem_removeCalls (hx : x ≠ d) (rs : List ℕ) (r : ℕ) (y : ServiceId) :
    Call.add x r y ∉ removeCalls d p rs ∧ Call.takeOut x r y ∉ removeCalls d p rs ∧
      Call.remove x r y ∉ removeCalls d p rs := by
  simp [removeCalls, Ne.symm hx]

theorem interestedIn_eq {phase : Phase} {taken : List PromiseId}
    (h : Inv (view s current phase taken)) (hp : s.stateOf p ≠ .uninstalled) :
    (s.interestedInDependencyGoingOffline d p ≠ [] →
      (view s current phase taken).dep d p ∧ ¬(view s current phase taken).away d p ∧
      s.interestedInDependencyGoingOffline d p = offlineRegistrations
        ((view s current phase taken).interfaces p) ((view s current phase taken).registry d)) ∧
    (s.interestedInDependencyGoingOffline d p = [] →
      NothingLeft (view s current phase taken) d p) := by
  unfold NothingLeft
  obtain ⟨mp, hmp⟩ := (h.links.inTable p).mpr hp
  cases hd : s.services.get? d with
  | none =>
    have hun : s.stateOf d = .uninstalled := Services.view_none _ _ _ _ hd
    refine ⟨fun hne => ?_, fun _ => .inl fun hdep => (h.links.dependent d p hdep).2 hun⟩
    simp [interestedInDependencyGoingOffline, hd] at hne
  | some md =>
    have hdep := view_dep s current phase taken hd (p := p)
    have haway := view_away s current phase taken hd (p := p)
    rw [view_interfaces s current phase taken hmp, view_registry s current phase taken hd]
    unfold interestedInDependencyGoingOffline
    rw [hd, hmp]
    dsimp only
    by_cases hk : md.kind = .dependency
    · by_cases hin : p ∈ md.serviceIdsOfInjectedDependencies
      · by_cases haw : p ∈ md.serviceIdsOfInjectedDependenciesButGoingAway
        · simp [hk, hin, haw, haway.mpr haw]
        · rw [if_neg (by simp [hk, hin, haw])]
          exact ⟨fun _ => ⟨hdep.mpr hin, fun ha => haw (haway.mp ha), rfl⟩,
            fun hnil => .inr (.inr hnil)⟩
      · rw [if_pos (by simp [hin])]
        exact ⟨fun hne => absurd rfl hne, fun _ => .inl fun hd' => hin (hdep.mp hd')⟩
    · rw [if_pos (by simp [hk])]
      refine ⟨fun hne => absurd rfl hne, fun _ => .inl fun hd' => hk ?_⟩
      rw [← view_kind s current phase taken hd]
      exact (h.links.dependent d p hd').1

theorem unlink_leave (c : Core) (d p : ServiceId) : (c.leave d p).unlink d p = c.unlink d p := by
  unfold Core.leave Core.unlink
  congr 1
  funext x y
  refine propext ⟨fun h => ⟨h.1.resolve_right h.2, h.2⟩, fun h => ⟨.inl h.1, h.2⟩⟩

theorem offlineDependee_skip {e : Event}
    (hi : s.interestedInDependencyGoingOffline d e.originatingService = [])
    (hs : offlineDependee e remove s d = some s') : s' = s := by
  unfold offlineDependee at hs
  split at hs
  · cases hs
  · dsimp only at hs
    rw [hi, if_pos isEmpty_nil] at hs
    exact (Option.some.inj hs).symm

theorem push_nil (c : Core) : c.push [] = c := by
  unfold Core.push
  rw [append_nil]

theorem view_pushIf (s : DependencyManager) (current : List Event) (phase : Phase)
    (taken : List PromiseId) (condition : Bool) (svc : ServiceId) (priority : ℕ) (body : EventBody) :
    ∃ events, Queues (condition = true) (fun e => e.body = body ∧ e.originatingService = svc) events ∧
      view (if condition then s.pushPrioritisedEvent svc priority body else s) current phase taken =
        (view s current phase taken).push events := by
  cases condition with
  | true => exact ⟨_, .inl ⟨rfl, ⟨s.nextEventId, svc, priority, body⟩, ⟨rfl, rfl⟩, rfl⟩,
      view_push s current phase taken svc priority body⟩
  | false => exact ⟨[], .inr ⟨by simp, rfl⟩, (push_nil _).symm⟩

theorem Queues.imp {condition condition' : Prop} {is is' : Event → Prop}
    (h : Queues condition is events) (hc : condition ↔ condition') (hi : ∀ e, is e → is' e) :
    Queues condition' is' events := by
  rcases h with ⟨hcond, e, he, hev⟩ | ⟨hcond, hev⟩
  · exact .inl ⟨hc.mp hcond, e, hi e he, hev⟩
  · exact .inr ⟨fun h' => hcond (hc.mpr h'), hev⟩

theorem reached_of (h : Inv (view s current (.offline p remove (d :: todo)) []))
    (hd : Untouched o (view s current (.offline p remove (d :: todo)) []) d)
    (hp : s.stateOf p ≠ .uninstalled)
    (hdeps : s.interestedInDependencyGoingOffline d p = deps) (hne : deps ≠ []) :
    Reached o (view s current (.offline p remove (d :: todo)) []) p d remove todo deps := by
  obtain ⟨hdep, haway, hregs⟩ := (interestedIn_eq h hp).1 (hdeps.symm ▸ hne)
  exact {
    phase := rfl
    dep := hdep
    notAway := haway
    regs := hdeps.symm.trans hregs
    nonempty := hne
    ne := fun he => h.links.irrefl d (he ▸ hdep)
    sameRegistry := hd.registry
    sameState := hd.state
    sameDep := hd.dep
    sameAway := hd.away
    sameCalls := hd.calls }

theorem view_beginOffline {m : LifecycleManager} (hm : s.services.get? d = some m) (p : ServiceId)
    (phase : Phase) (taken : List PromiseId) :
    view (s.takePromiseId.modifyService d fun m => { m with
        serviceIdsOfInjectedDependenciesButGoingAway :=
          insertId p m.serviceIdsOfInjectedDependenciesButGoingAway }) current phase taken =
      ((view s current phase taken).leave d p).takePromise := by
  have hm' : s.takePromiseId.services.get? d = some m := hm
  rw [view_leave _ current phase taken hm' p, view_takePromiseId]
  rfl

section
variable (c c' : Core) (d p : ServiceId) (reg : DependencyRegister) (rs : List ℕ)

theorem onlyTouches_done (phase : Phase) :
    OnlyTouches c (((((c.setRegistry d reg).unlink d p).record
      (removeCalls d p rs ++ takeOutCalls d p rs)).takePromise).setPhase phase) d p where
  interfaces := rfl
  registry x hx := update_of_ne hx _ _
  state := rfl
  dep x y hx := ⟨And.left, fun h => ⟨h, fun hxy => hx hxy.1⟩⟩
  away x y hx := ⟨And.left, fun h => ⟨h, fun hxy => hx hxy.1⟩⟩
  gone := .inl fun h => h.2 ⟨rfl, rfl⟩
  calls := by
    refine ⟨_, rfl, fun x r y hx => ?_⟩
    obtain ⟨h1, h2, h3⟩ := not_mem_removeCalls hx rs r y (p := p)
    obtain ⟨h1', h2', h3'⟩ := not_mem_takeOutCalls hx rs r y (p := p)
    simp only [mem_append, not_or]
    exact ⟨⟨h1, h1'⟩, ⟨h2, h2'⟩, h3, h3'⟩

theorem unlink_takenOut (deps : List ℕ) (phase : Phase) :
    ((takenOut (((c.setPhase phase).leave d p).takePromise) d p deps).unlink d p).record
        (removeCalls d p deps) =
      ((((c.setRegistry d (lower deps (c.registry d))).unlink d p).record
        (removeCalls d p deps ++ takeOutCalls d p deps)).takePromise).setPhase phase := by
  have hcommute : ((takenOut (((c.setPhase phase).leave d p).takePromise) d p deps).unlink d p) =
      takenOut ((((c.setPhase phase).leave d p).unlink d p).takePromise) d p deps := rfl
  rw [hcommute, unlink_leave]
  unfold takenOut Core.record
  rw [append_assoc]
  rfl

theorem wait_takenOut (phase : Phase)
    (events : List Event) (type : EventType) (g : ScopedGenerator) :
    (((takenOut (((c.setPhase phase).leave d p).takePromise) d p rs).push events).wait d type
        c.nextPromise).setGenerator c.nextPromise (some g) =
      (((((((c.setRegistry d (lower rs (c.registry d))).leave d p).record
        (takeOutCalls d p rs)).push events).wait d type c.nextPromise).store g).setPhase phase) := rfl

theorem onlyTouches_leave
    (hi : c'.interfaces = c.interfaces) (hreg : c'.registry = update c.registry d reg)
    (hst : c'.state = c.state) (hdep : c'.dep = c.dep) (haway : c'.away = (c.leave d p).away)
    (htrace : c'.trace = takeOutCalls d p rs ++ c.trace) : OnlyTouches c c' d p where
  interfaces := hi
  registry x hx := by rw [hreg, update_of_ne hx]
  state := hst
  dep x y _ := by rw [hdep]
  away x y hx := by
    rw [haway]
    exact ⟨fun h => h.resolve_right fun hxy => hx hxy.1, .inl⟩
  gone := by
    refine .inr (.inl ?_)
    rw [haway]
    exact .inr ⟨rfl, rfl⟩
  calls := ⟨_, htrace, fun _ r y hx => not_mem_takeOutCalls hx rs r y⟩

end

/-- The waiting providers of `d` are written back. -/
def deferStop (s : DependencyManager) (d : ServiceId) (l : List WaitingStopService) :
    DependencyManager :=
  { s with pendingStopsDueToDependencies := s.pendingStopsDueToDependencies.put d l }

section
variable (hreach : Reached o (view s current (.offline p remove (d :: todo)) []) p d remove todo deps)
include hreach

theorem path_offlineDone
    (hd : ∃ m, s.services.get? d = some m) (hp : ∃ m, s.services.get? p = some m)
    (hl : Lowerable deps (s.registryOf d))
    (hstay : Running (s.stateOf d) → ∀ r ∈ deps, ¬RequiredGone (lower deps (s.registryOf d)) r)
    (hc : view s1 current (.offline p remove todo) [] =
      takenOut (((view s current (.offline p remove todo) []).leave d p).takePromise) d p deps) :
    Tells o d p (view s current (.offline p remove (d :: todo)) [])
      (view (s1.finishDependencyOffline d p deps) current (.offline p remove todo) []) := by
  obtain ⟨m1, hm1⟩ : ∃ m1, s1.services.get? d = some m1 :=
    Eq.mpr (congrFun (congrArg Core.present hc) d) hd
  obtain ⟨mp1, hmp1⟩ : ∃ mp1, s1.services.get? p = some mp1 :=
    Eq.mpr (congrFun (congrArg Core.present hc) p) hp
  have hv := view_finishDependencyOffline current (.offline p remove todo) [] deps
    hreach.nonempty hm1 hmp1
  have heq := unlink_takenOut (view s current (.offline p remove (d :: todo)) []) d p deps
    (.offline p remove todo)
  rw [hc] at hv
  rw [hv.trans heq]
  exact ⟨.single (.offline (.done p d remove todo deps hreach hl hstay)),
    onlyTouches_done _ d p _ _ _⟩

theorem path_offlineStopMe (priority : ℕ)
    (hl : Lowerable deps (s.registryOf d)) (hst : s.stateOf d = .uninjecting)
    (hw : ¬(view s current (.offline p remove (d :: todo)) []).HasOfflineWaiter d)
    (hgone : ∃ pre r post, deps = pre ++ r :: post ∧
      RequiredGone (lower (pre ++ [r]) (s.registryOf d)) r)
    (hc : view s1 current (.offline p remove todo) [] =
      takenOut (((view s current (.offline p remove todo) []).leave d p).takePromise) d p deps)
    {s2 : DependencyManager} (hs2 : s2 = if ((s1.pendingStopsDueToDependencies.get? d).getD []).isEmpty
      then s1.pushPrioritisedEvent p priority (.stopService d remove) else s1) :
    Tells o d p (view s current (.offline p remove (d :: todo)) []) (view (deferStop s2 d
      ((s1.pendingStopsDueToDependencies.get? d).getD [] ++ [⟨p, priority, remove, deps⟩]))
        current (.offline p remove todo) []) := by
  have hpend : (s1.pendingStopsDueToDependencies.get? d).getD [] =
      (view s current (.offline p remove (d :: todo)) []).pending d :=
    congrFun (congrArg Core.pending hc) d
  obtain ⟨stops, hstops, hvs⟩ := view_pushIf s1 current (.offline p remove todo) []
    ((s1.pendingStopsDueToDependencies.get? d).getD []).isEmpty p priority (.stopService d remove)
  have hstops' : Queues ((view s current (.offline p remove (d :: todo)) []).pending d = [])
      (IsStop d remove) stops :=
    hstops.imp (by rw [hpend, List.isEmpty_iff]) fun _ he => he.1
  unfold deferStop
  rw [view_putPending, hs2, hvs, hc, hpend]
  exact ⟨.single (.offline (.stopMe p d remove todo deps priority stops hreach hl hst hw hgone
    hstops')), onlyTouches_leave _ _ d p _ deps rfl rfl rfl rfl rfl rfl⟩

theorem path_offlineWait {pre : List ℕ} {r : ℕ} (g : ScopedGenerator)
    (hnone : s.scopedGenerators.get? s.nextPromiseId = none)
    (hdeps : deps = pre ++ r :: unreached point) (hl : Lowerable (pre ++ [r]) (s.registryOf d))
    (hgone : RequiredGone (lower (pre ++ [r]) (s.registryOf d)) r)
    (hw : Waits (view s current (.offline p remove (d :: todo)) []) d point events)
    (hc : view s1 current (.offline p remove todo) [] =
      ((takenOut (((view s current (.offline p remove todo) []).leave d p).takePromise) d p
        (pre ++ [r])).push events).wait d (waitType point) s.nextPromiseId)
    (hg : g.generator.serviceId = d ∧ g.generator.state = .suspended ∧
      g.generator.coroutine = .dependencyOffline p point ∧
      g.event.body = .continuableDependencyOffline p remove deps ∧ g.event.originatingService = d) :
    Tells o d p (view s current (.offline p remove (d :: todo)) [])
      (view (s1.takeEventId.scopeGenerator s.nextPromiseId g) current (.offline p remove todo) []) := by
  have hg1 : s1.takeEventId.scopedGenerators.get? s.nextPromiseId = none := by
    have hgen : (view s1 current (.offline p remove todo) []).generator = s.scopedGenerators.get? :=
      congrArg Core.generator hc
    exact (congrFun hgen _).trans hnone
  obtain ⟨hgd, hgs, hgc, hge, hgo⟩ := hg
  have heq := wait_takenOut (view s current (.offline p remove (d :: todo)) []) d p (pre ++ [r])
    (.offline p remove todo) events (waitType point) g
  rw [view_scopeGenerator _ _ _ _ _ _ hg1, view_takeEventId, hc]
  have hstep := OfflineStep.wait p d remove todo deps pre r point g events hreach hdeps hl hgone hw
    hgd hgs hgc hge hgo
  exact ⟨.single (.offline (heq ▸ hstep)), onlyTouches_leave _ _ d p _ (pre ++ [r]) rfl rfl rfl rfl
    rfl rfl⟩

end

theorem path_offlineDependee (e : Event) (he : e.originatingService = p)
    (h : Inv (view s current (.offline p remove (d :: todo)) []))
    (hd : Untouched o (view s current (.offline p remove (d :: todo)) []) d)
    (hs : offlineDependee e remove s d = some s') :
    Tells o d p (view s current (.offline p remove (d :: todo)) [])
      (view s' current (.offline p remove todo) []) := by
  have hp : s.stateOf p ≠ .uninstalled := by
    have hun : s.stateOf p = .uninjecting := h.phase
    simp [hun]
  by_cases hnil : s.interestedInDependencyGoingOffline d p = []
  · have hleft := (interestedIn_eq h hp).2 hnil
    have hsame := offlineDependee_skip (he.symm ▸ hnil) hs
    subst hsame
    refine ⟨.single (.offline (.skip p d remove todo rfl hleft hd.registry)), ?_⟩
    exact ⟨rfl, fun _ _ => rfl, rfl, fun _ _ _ => Iff.rfl, fun _ _ _ => Iff.rfl, hleft,
      [], rfl, fun _ _ _ _ => by simp⟩
  have hreach := reached_of h hd hp rfl hnil
  have hnone := get?_next h
  obtain ⟨mp, hmp⟩ := (h.links.inTable p).mpr hp
  unfold offlineDependee at hs
  cases hm : s.services.get? d with
  | none => simp [hm] at hs
  | some md =>
    rw [hm] at hs
    dsimp only at hs
    rw [he, if_neg (by simpa using hnil)] at hs
    cases hloop : s.takePromiseId.dependencyOffline d p s.nextPromiseId
        (s.interestedInDependencyGoingOffline d p) with
    | none => simp [hloop] at hs
    | some out =>
      obtain ⟨s1, res⟩ := out
      rw [hloop] at hs
      unfold dependencyOffline at hloop
      have hend := offlineLoop_spec current (.offline p remove todo) [] _ .notFound (by simp) hloop
      rw [view_beginOffline hm p] at hend
      cases hend with
      | done hl hstay hc =>
        cases hs
        exact path_offlineDone hreach ⟨md, hm⟩ ⟨mp, hmp⟩ hl hstay hc
      | stopMe hl hst hw hgone hc =>
        cases hs
        exact path_offlineStopMe hreach _ hl hst hw hgone hc rfl
      | wait pre r point events hdeps hl hgone hw hc =>
        cases hs
        exact path_offlineWait hreach _ hnone hdeps hl hgone (hw.transfer rfl rfl) hc
          ⟨rfl, rfl, rfl, rfl, rfl⟩

/-! ## All dependees -/

/-- The dependees in the list that have not been reached, each of them once. -/
def stillToTell (seen l : List ServiceId) : List ServiceId :=
  (l.filter fun d => decide (d ∉ seen)).eraseDups

theorem mem_stillToTell {l : List ServiceId} : d ∈ stillToTell seen l ↔ d ∈ l ∧ d ∉ seen := by
  simp [stillToTell]

theorem stillToTell_seen (l : List ServiceId) (h : d ∈ seen) :
    stillToTell seen (d :: l) = stillToTell seen l := by
  simp [stillToTell, h]

theorem stillToTell_new (l : List ServiceId) (h : d ∉ seen) :
    stillToTell seen (d :: l) = d :: stillToTell (d :: seen) l := by
  unfold stillToTell
  rw [filter_cons_of_pos (by simpa using h), eraseDups_cons, filter_filter]
  congr 2
  refine filter_congr fun x _ => ?_
  by_cases hx : x = d <;> simp [hx]

theorem path_offlineDependees (e : Event) (he : e.originatingService = p) (l seen : List ServiceId)
    (h : Inv (view s current (.offline p remove (stillToTell seen l)) []))
    (hd : ∀ d ∈ stillToTell seen l,
      Untouched o (view s current (.offline p remove (stillToTell seen l)) []) d)
    (hseen : ∀ d ∈ seen, NothingLeft (view s current .idle []) d p)
    (hs : l.foldlM (offlineDependee e remove) s = some s') :
    Path o (view s current (.offline p remove (stillToTell seen l)) [])
      (view s' current (.offline p remove []) []) := by
  induction l generalizing s seen with
  | nil =>
    cases hs
    exact .refl
  | cons d rest ih =>
    rw [foldlM_cons] at hs
    obtain ⟨s1, hs1, hrest⟩ := Option.bind_eq_some_iff.mp hs
    have hp : s.stateOf p ≠ .uninstalled := by
      have hun : s.stateOf p = .uninjecting := h.phase
      simp [hun]
    by_cases hmem : d ∈ seen
    · -- a second entry for a dependee that has been told already
      rw [stillToTell_seen rest hmem] at h hd ⊢
      have hnil : s.interestedInDependencyGoingOffline d p = [] := by
        by_contra hne
        obtain ⟨hdep, haway, hregs⟩ := (interestedIn_eq h hp).1 hne
        rcases hseen d hmem with hl | hl | hl
        · exact hl hdep
        · exact haway hl
        · exact hne (hregs.trans hl)
      have hsame := offlineDependee_skip (he.symm ▸ hnil) hs1
      subst hsame
      exact ih seen h hd hseen hrest
    · rw [stillToTell_new rest hmem] at h hd ⊢
      obtain ⟨hpath, htouch⟩ := path_offlineDependee e he h (hd d mem_cons_self) hs1 (o := o)
      refine hpath.trans (ih (d :: seen) (h.path hpath) ?_ ?_ hrest)
      · intro x hx
        have hxd : x ≠ d := fun hxd => (mem_stillToTell.mp hx).2 (hxd ▸ mem_cons_self)
        exact (hd x (mem_cons_of_mem d hx)).other htouch hxd
      · intro x hx
        by_cases hxd : x = d
        · exact hxd ▸ htouch.gone
        · have hold : NothingLeft (view s current
              (.offline p remove (d :: stillToTell (d :: seen) rest)) []) x p :=
            hseen x ((mem_cons.mp hx).resolve_left hxd)
          have hnew := hold.other htouch hxd
          exact hnew

end

end Ichor.Lifecycle
