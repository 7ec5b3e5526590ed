import Ichor.Abstract.Fresh

/-! The invariant of the lifecycle system and its preservation by every small
step, whatever user code does. -/
namespace Ichor.Lifecycle
open DependencyManager List Function

def Phase.Finishes (d : ServiceId) : Phase → Prop
  | .finishing x _ => x = d
  | _ => False

/-- The phase wakes no coroutine and finishes no `stop()`. -/
def Phase.Calm : Phase → Prop
  | .idle | .offline _ _ _ | .removing _ => True
  | _ => False

variable {phase : Phase}

theorem Phase.Calm.not_wakes (h : phase.Calm) (d : ServiceId) (type : EventType) :
    ¬phase.Wakes d type := by
  cases phase <;> simp_all [Phase.Calm, Phase.Wakes]

theorem Phase.Calm.not_finishes (h : phase.Calm) (d : ServiceId) : ¬phase.Finishes d := by
  cases phase <;> simp_all [Phase.Calm, Phase.Finishes]

/-- What a phase says about the service it is about. -/
def Phase.Sound (state : ServiceId → ServiceState) (dee : ServiceId → ServiceId → Prop) :
    Phase → Prop
  | .idle => True
  | .online p => state p = .active
  | .offline p _ _ => state p = .uninjecting
  | .offlineWake p _ => state p = .uninjecting ∧ ∀ x, ¬dee p x
  | .stopWake p => state p = .uninjecting ∧ ∀ x, ¬dee p x
  | .finishing d _ => state d = .installed ∧ ∀ x, ¬dee d x
  | .removing d => state d = .installed

structure Inv (c : Core) : Prop where
  links : Links c.present c.kind c.state c.dep c.dee
  coroutines : Coroutines c.kind c.state c.dee c.generator
  leaving : Leaving c.kind c.state c.away c.generator c.pending c.phase.Finishes
  waiting : Waiting c.waiters c.generator c.taken c.entry c.phase
  fresh : Fresh c.state c.generator c.queue c.nextPromise c.nextService
  phase : c.phase.Sound c.state c.dee

/-! ## Events that are safe to queue -/

variable {d : ServiceId} {e : Event}

theorem Inert.of_isStop {remove : Bool} (h : IsStop d remove e) : Fresh.Inert e := by
  unfold IsStop at h
  simp [Fresh.Inert, insertedId, continues, h]

theorem Inert.of_isOnline (h : IsOnline d e) : Fresh.Inert e := by
  simp [Fresh.Inert, insertedId, continues, h.1]

theorem Inert.of_isOffline {remove : Bool} (h : IsOffline d remove e) : Fresh.Inert e := by
  simp [Fresh.Inert, insertedId, continues, h.1]

variable {events : List Event}

theorem Inert.of_queues {condition : Prop} {is : Event → Prop}
    (h : Queues condition is events) (hi : ∀ e, is e → Fresh.Inert e) :
    ∀ e ∈ events, Fresh.Inert e := by
  intro e he
  rcases h with ⟨_, x, hx, rfl⟩ | ⟨_, rfl⟩
  · rw [mem_singleton] at he
    exact he ▸ hi x hx
  · cases he

theorem Inert.of_unconditional (h : Unconditional e.body) : Fresh.Inert e := by
  unfold Fresh.Inert insertedId
  generalize e.body = b at h
  cases b <;> simp_all [Unconditional, continues]

theorem Inert.of_isRequest (h : e.body.isRequest = true) : Fresh.Inert e := by
  unfold Fresh.Inert insertedId
  generalize e.body = b at h
  cases b <;> simp_all [EventBody.isRequest, continues]

variable {point : OfflinePoint}

theorem Inert.of_waits {c : Core} (h : Waits c d point events) : ∀ e ∈ events, Fresh.Inert e := by
  intro e he
  cases h with
  | online | queued | uninjecting => cases he
  | active _ _ e' _ _ hb ho =>
    have hoff : IsOffline d false e' := ⟨hb, ho⟩
    rw [mem_singleton] at he
    exact he ▸ Inert.of_isOffline hoff

namespace Inv
variable {o : Origin} {c c' : Core}

theorem queueStep (h : Inv c) (hs : QueueStep o c c') : Inv c' := by
  cases hs with
  | permute queue hq => exact { h with fresh := h.fresh.setQueue hq.subperm }
  | quiet => exact { h with }
  | takePromise => exact { h with fresh := h.fresh.takePromise }
  | push e hp => exact { h with fresh := h.fresh.pushInert e (Inert.of_unconditional hp) }
  | request e hr => exact { h with fresh := h.fresh.pushInert e (Inert.of_isRequest hr) }
  | create desc e _ hb he => exact { h with fresh := h.fresh.create e desc hb he }
  | quitStop e d _ he => exact { h with fresh := h.fresh.pushInert e (Inert.of_isStop he) }
  | veto e rest hq | ignore e rest hq | dead e rest hq =>
    exact { h with fresh := (hq ▸ h.fresh).tail }

/-! ## User code -/

variable {d p : ServiceId} {g : ScopedGenerator} {q : PromiseId} {co : Coroutine}

theorem shaped_user (hc : g.generator.coroutine = .user) : Shaped g := by
  simp [Shaped, hc]

theorem nextPromise_unused (h : Inv c) :
    c.generator c.nextPromise = none ∧ (∀ d type, (type, c.nextPromise) ∉ c.waiters d) ∧
      c.nextPromise ∉ c.taken := by
  have hn := h.fresh.next_none
  exact ⟨hn, h.waiting.not_waiting (by simp [hn])⟩

theorem storeUser (h : Inv c) (g : ScopedGenerator) (hc : g.generator.coroutine = .user) :
    Inv (c.store g) := by
  obtain ⟨hn, hw, ht⟩ := h.nextPromise_unused
  exact { h with
    coroutines := h.coroutines.store c.nextPromise g hn (shaped_user hc) (by simp [hc, startLike])
      (by simp [hc]) (by rw [hc]; exact .user _)
    leaving := h.leaving.setOther c.nextPromise (some g) (by simp [hn]) (by simp [hc, offlineLike])
      (by simp [hn])
    waiting := h.waiting.setGenerator c.nextPromise (some g) hw ht (by simp [hc, offlineLike])
    fresh := h.fresh.store g fun hne => absurd hc hne }

/-- A generator of user code goes on or leaves the table; nothing waits for it
unless it stays suspended. -/
theorem setUser (h : Inv c) (q : PromiseId) (g : ScopedGenerator) (gs : GeneratorState)
    (hg : c.generator q = some g) (hc : g.generator.coroutine = .user)
    (hw : (∀ d type, (type, q) ∉ c.waiters d) ∧ q ∉ c.taken) :
    Inv (c.setGenerator q (some (finished g gs))) := by
  have hc' : (finished g gs).generator.coroutine = .user := hc
  exact { h with
    coroutines := h.coroutines.replace q g _ hg rfl (shaped_user hc') (by simp [hc, startLike])
      (by simp [hc]) (by simp [hc', startLike]) (by simp [hc']) (by rw [hc']; exact .user _)
    leaving := h.leaving.setOther q _ (by simp [hg, hc, offlineLike]) (by simp [hc', offlineLike])
      (by simp [hg, hc, StopEnded])
    waiting := h.waiting.setGenerator q _ hw.1 hw.2 (by simp [hc', offlineLike])
    fresh := h.fresh.replace q g _ hg rfl (by rw [hc, hc']) }

theorem eraseUser (h : Inv c) (q : PromiseId) (g : ScopedGenerator)
    (hg : c.generator q = some g) (hc : g.generator.coroutine = .user)
    (hs : g.generator.state ≠ .suspended) : Inv (c.setGenerator q none) := by
  have hw := h.waiting.not_waiting (q := q) (by simp [hg, hs])
  exact { h with
    coroutines := h.coroutines.erase q g hg (.inl hc)
    leaving := h.leaving.setOther q none (by simp [hg, hc, offlineLike]) (by simp)
      (by simp [hg, hc, StopEnded])
    waiting := h.waiting.setGenerator q none hw.1 hw.2 (by simp)
    fresh := h.fresh.erase q }

theorem pushUser (h : Inv c) (q : PromiseId) (e : Event) (hb : e.body = .continuable q)
    (hq : q < c.nextPromise) (hc : ∀ g, c.generator q = some g → g.generator.coroutine = .user) :
    Inv (c.push [e]) := by
  refine { h with fresh := h.fresh.push e (by simp [insertedId, hb]) ?_ ?_ }
  · intro q' hq'
    rw [hb] at hq'
    injection hq' with hq'
    exact hq' ▸ ⟨hq, hc⟩
  · intro q' hq'
    rw [hb] at hq'
    cases hq'

theorem pushUserAt (h : Inv c) (q : PromiseId) (g : ScopedGenerator) (e : Event)
    (hg : c.generator q = some g) (hc : g.generator.coroutine = .user)
    (hb : e.body = .continuable q) : Inv (c.push [e]) :=
  h.pushUser q e hb (h.fresh.promise q g hg) (by simp [hg, hc])

theorem push_append (c : Core) (events more : List Event) :
    c.push (events ++ more) = (c.push events).push more := by
  simp only [Core.push, append_assoc]

theorem pushStale (h : Inv c) (q : PromiseId) (hq : q < c.nextPromise) (hn : c.generator q = none)
    (stale : List Event) (hs : ∀ e ∈ stale, e.body = .continuable q) : Inv (c.push stale) := by
  induction stale generalizing c with
  | nil =>
    have hnil : c.push [] = c := by simp only [Core.push, append_nil]
    rw [hnil]
    exact h
  | cons e stale ih =>
    rw [← singleton_append, push_append]
    refine ih (h.pushUser q e (hs e mem_cons_self) hq fun g hg => ?_) hq hn
      fun x hx => hs x (mem_cons_of_mem e hx)
    rw [hn] at hg
    cases hg

theorem pushAll (h : Inv c) (events : List Event) (he : ∀ e ∈ events, Fresh.Inert e) :
    Inv (c.push events) :=
  { h with fresh := h.fresh.pushAll events he }

theorem pushOne (h : Inv c) (he : Fresh.Inert e) : Inv (c.push [e]) :=
  h.pushAll [e] (by simp [he])

variable {rest : List Event}

theorem tail (h : Inv c) (hq : c.queue = e :: rest) : Inv (c.setQueue rest) :=
  { h with fresh := (hq ▸ h.fresh).tail }

theorem user_of_continuation (h : Inv c) (ha : AtContinuation o c e rest q g (.continuable q)) :
    g.generator.coroutine = .user := by
  refine h.fresh.ofUser e ?_ q g ha.body ha.generator
  rw [ha.queue]
  exact mem_cons_self

theorem not_taken_of_not_offline (h : Inv c)
    (hg : c.generator q = some g) (hc : ¬offlineLike g.generator.coroutine) : q ∉ c.taken := by
  intro hq
  obtain ⟨g', p, point, hg', _, hc', _⟩ := h.waiting.takenSound q hq
  rw [hg] at hg'
  cases hg'
  rw [hc'] at hc
  exact hc trivial

theorem userStep (h : Inv c) (hs : UserStep o c c') : Inv c' := by
  cases hs with
  | suspended g hc _ => exact h.storeUser g hc
  | yielded g e hc _ he =>
    exact (h.storeUser g hc).pushUserAt c.nextPromise g e (update_self ..) hc he
  | resume q g e rest ha hst =>
    have hc := h.user_of_continuation ha
    have hw := h.waiting.not_waiting (q := q) (by simp [ha.generator, hst])
    exact (h.setUser q g .suspended ha.generator hc hw).tail ha.queue
  | again q g e e' rest ha _ he =>
    have hc := h.user_of_continuation ha
    exact (h.tail ha.queue).pushUserAt q g e' ha.generator hc he
  | done q g e rest stale stops ha hst hstale hp hn =>
    have hc := h.user_of_continuation ha
    have hnone : ((c.setGenerator q none).setQueue rest).generator q = none :=
      update_self q _ _
    have hgone := ((h.eraseUser q g ha.generator hc hst).tail ha.queue).pushStale q
      (h.fresh.promise q g ha.generator) hnone stale hstale
    rw [push_append]
    refine hgone.pushAll stops fun x hx => ?_
    cases hpk : c.parked g.generator.serviceId with
    | none =>
      rw [hn hpk] at hx
      cases hx
    | some w =>
      obtain ⟨x', hx', rfl⟩ := hp w hpk
      rw [mem_singleton] at hx
      exact hx ▸ Inert.of_isStop hx'
  | finish q g e v ha hc he =>
    have ht := h.not_taken_of_not_offline ha.generator (by simp [hc, offlineLike])
    exact (h.setUser q g (.finished v) ha.generator hc ⟨ha.notWaiting, ht⟩).pushUserAt q _ e
      (update_self ..) hc he
  | yieldAgain q g e ha hc he =>
    have ht := h.not_taken_of_not_offline ha.generator (by simp [hc, offlineLike])
    exact (h.setUser q g .yielded ha.generator hc ⟨ha.notWaiting, ht⟩).pushUserAt q _ e
      (update_self ..) hc he
  | wait q g d type ha hc ht =>
    have hnt := h.not_taken_of_not_offline ha.generator hc
    have hw := h.waiting.wait d type q g ha.notWaiting hnt ha.suspended (.inr ⟨hc, ht⟩)
    rw [← ha.generator, update_eq_self] at hw
    exact { h with waiting := hw }

/-! ## Starting -/

theorem sound_of_idle (hp : c.phase = .idle) (state : ServiceId → ServiceState)
    (dee : ServiceId → ServiceId → Prop) : c.phase.Sound state dee := by
  rw [hp]
  exact trivial

theorem not_finishes_of_idle (hp : c.phase = .idle) (d : ServiceId) : ¬c.phase.Finishes d := by
  rw [hp]
  exact id

theorem setState (h : Inv c) (d : ServiceId) (st : ServiceState) (hp : c.phase = .idle)
    (hd : c.state d ≠ .uninstalled) (hst : st ≠ .uninstalled ∧ st ≠ .starting ∧ st ≠ .stopping)
    (hprov : st = .active ∨ st = .uninjecting ∨ ∀ x, ¬c.dee d x)
    (hint : c.kind d = .internal → st = .installed ∨ st = .active ∨ st = .uninjecting)
    (hleave : st = .uninjecting ∨ c.pending d = [] ∨
      (c.state d ≠ .uninjecting ∧ c.state d ≠ .stopping))
    (hfit : ∀ q g, c.generator q = some g → g.generator.serviceId = d →
      Fits (c.kind d) (c.state d) (∃ x, c.dee d x) g.generator.coroutine g.generator.state →
      Fits (c.kind d) st (∃ x, c.dee d x) g.generator.coroutine g.generator.state) :
    Inv (c.setState d st) := by
  have hl : Leaving c.kind (update c.state d st) c.away c.generator c.pending c.phase.Finishes := by
    rcases hleave with hs | hs | ⟨h1, h2⟩
    · exact h.leaving.setState d st hd (.inr (.inl hs))
    · exact h.leaving.setState d st hd (.inl hs)
    · exact h.leaving.setState_of_ne d st hd h1 h2 (not_finishes_of_idle hp d)
  exact { h with
    links := h.links.setState d st hd hst.1 hprov hint
    coroutines := h.coroutines.setState d st hst.2.1 hst.2.2 hfit
    leaving := hl
    fresh := h.fresh.updateState d st hd
    phase := sound_of_idle hp _ _ }

theorem no_dependee (h : Inv c) (hd : c.state d ≠ .uninstalled)
    (h1 : c.state d ≠ .active) (h2 : c.state d ≠ .uninjecting) : ∀ x, ¬c.dee d x :=
  h.links.no_dependee h1 h2 (h.links.ne_self hd)

theorem starting_of_suspended (h : Inv c)
    (hg : c.generator q = some g) (hs : g.generator.state = .suspended)
    (hc : startLike g.generator.coroutine) : c.state g.generator.serviceId = .starting := by
  by_contra hne
  exact h.coroutines.no_start hg hne ⟨rfl, hc, hs⟩

theorem stopping_of_suspended (h : Inv c)
    (hg : c.generator q = some g) (hs : g.generator.state = .suspended)
    (hc : g.generator.coroutine = .stop) :
    c.state g.generator.serviceId = .stopping ∧ c.kind g.generator.serviceId ≠ .internal := by
  have hf := h.coroutines.fits q g hg
  rw [hs, hc] at hf
  cases hf with
  | starting _ hl => exact hl.elim
  | stopping hk hs => exact ⟨hs, hk⟩

theorem ne_user_of_offlineLike (h : offlineLike co) : co ≠ .user := by
  rintro rfl
  exact h

theorem ne_stop_of_offlineLike (h : offlineLike co) : co ≠ .stop := by
  rintro rfl
  exact h

theorem fits_of_waits (hw : Waits c d point events) (hk : c.kind d ≠ .internal) (dependee : Prop)
    (p : ServiceId) : Fits (c.kind d) (c.state d) dependee (.dependencyOffline p point) .suspended := by
  cases hw with
  | online left i ret hs hi => exact .awaitOnline _ _ _ _ hk hi
  | queued | active | uninjecting => exact .awaitOffline _ _ _ _ hk

theorem not_offlineLike_of_startLike (h : startLike co) : ¬offlineLike co := by
  cases co <;> simp_all [startLike, offlineLike]

theorem ne_user_of_startLike (h : startLike co) : co ≠ .user := by
  rintro rfl
  exact h

theorem ne_stop_of_startLike (h : startLike co) : co ≠ .stop := by
  rintro rfl
  exact h

section
variable (h : Inv c)
include h

theorem finishStart (q : PromiseId) (g : ScopedGenerator) (v : StartBehaviour)
    (st : ServiceState) (ha : AtUser o c q g) (hc : startLike g.generator.coroutine)
    (hst : (st = .injecting ∧ (g.generator.coroutine = .startAfterDependencyOnline → v = .started)) ∨
      (st = .installed ∧ v = .stopped)) :
    Inv ((c.setState g.generator.serviceId st).setGenerator q
      (some (finished g (.finished v)))) := by
  have hs := h.starting_of_suspended ha.generator ha.suspended hc
  have hd : c.state g.generator.serviceId ≠ .uninstalled := by simp [hs]
  have hst' : st ≠ .uninstalled := by
    rcases hst with ⟨rfl, _⟩ | ⟨rfl, _⟩ <;> simp
  have hoff := not_offlineLike_of_startLike hc
  have ht := h.not_taken_of_not_offline ha.generator hoff
  have hk := h.links.not_internal_of_starting (.inl hs)
  have hleave := h.leaving.setState_of_ne g.generator.serviceId st hd (by simp [hs]) (by simp [hs])
    (not_finishes_of_idle ha.idle _)
  exact { h with
    links := h.links.setState _ st hd hst'
      (.inr (.inr (h.no_dependee hd (by simp [hs]) (by simp [hs])))) fun hi => absurd hi hk
    coroutines := h.coroutines.finishStart q g v st ha.generator ha.suspended hc hst
    leaving := hleave.setOther q _ (by simp [ha.generator, hoff]) (by simp [finished, hoff])
      (by simp [ha.generator, StopEnded, ne_stop_of_startLike hc])
    waiting := h.waiting.setGenerator q _ ha.notWaiting ht (by simp [finished])
    fresh := (h.fresh.updateState _ st hd).replace q g _ ha.generator rfl Iff.rfl
    phase := sound_of_idle ha.idle _ _ }

theorem pushManager (q : PromiseId) (e : Event) (hb : e.body = .continuableStart q)
    (hq : q < c.nextPromise) (hc : ∀ g, c.generator q = some g → g.generator.coroutine ≠ .user) :
    Inv (c.push [e]) := by
  refine { h with fresh := h.fresh.push e (by simp [insertedId, hb]) ?_ ?_ }
  · intro q' hq'
    rw [hb] at hq'
    cases hq'
  · intro q' hq'
    rw [hb] at hq'
    injection hq' with hq'
    exact hq' ▸ ⟨hq, hc⟩

theorem pushWritten (q : PromiseId) (g : ScopedGenerator) (e : Event)
    (hg : c.generator q = some g) (hc : g.generator.coroutine ≠ .user)
    (hb : e.body = .continuableStart q) : Inv (c.push [e]) :=
  h.pushManager q e hb (h.fresh.promise q g hg) (by simp [hg, hc])

theorem eraseEnded (q : PromiseId) (g : ScopedGenerator)
    (hg : c.generator q = some g) (hs : g.generator.state ≠ .suspended)
    (hc : ¬offlineLike g.generator.coroutine)
    (hstop : g.generator.coroutine = .stop → c.pending g.generator.serviceId = []) :
    Inv (c.setGenerator q none) := by
  have hw := h.waiting.not_waiting (q := q) (by simp [hg, hs])
  exact { h with
    coroutines := h.coroutines.erase q g hg (.inr hs)
    leaving := h.leaving.setOther q none (by simp [hg, hc]) (by simp) fun g' hg' d hl => by
      rw [hg] at hg'
      cases hg'
      exact .inr (.inl (hl.1 ▸ hstop hl.2.1))
    waiting := h.waiting.setGenerator q none hw.1 hw.2 (by simp)
    fresh := h.fresh.erase q }

theorem startStep (hs : StartStep o c c') : Inv c' := by
  cases hs with
  | install e rest d m desc hq _ hb hd hm hst hp =>
    have hmem : e ∈ c.queue := by
      rw [hq]
      exact mem_cons_self
    have hid : insertedId e = some d := Fresh.insertedId_eq_some.mpr ⟨⟨m, hb⟩, hd⟩
    have hself : d ≠ selfServiceId := by
      have h0 := (h.fresh.inserted e hmem m hb).1
      rw [hd] at h0
      exact Nat.ne_of_gt h0
    have hmk : m.kind ≠ .internal := by
      rw [hm]
      simp only [createdManager]
      split <;> simp
    have hms : m.state = .installed := by
      rw [hm]
      rfl
    have howner : ∀ q g, c.generator q = some g → g.generator.coroutine ≠ .user →
        g.generator.serviceId ≠ d := by
      intro q g hg hc he
      exact (h.fresh.owner q g hg hc).2 e hmem (he ▸ hid)
    have hgo : ∀ q g p, c.generator q = some g → ¬LetsGo d p g := by
      rintro q g p hg ⟨hx, point, hc⟩
      exact howner q g hg (by simp [hc]) hx
    have hpend : c.pending d = [] := by
      refine h.leaving.pending_nil (by simp [hst]) (by simp [hst]) (not_finishes_of_idle hp d) ?_
      rintro q g hg ⟨hx, hc, _⟩
      exact howner q g hg (by simp [hc]) hx
    have hleave := h.leaving.setResting d m.kind m.state hmk (.inr hst) (.inr ⟨hgo, hpend⟩)
    exact { h with
      links := h.links.install d m hst hself hms
      coroutines := h.coroutines.setResting d m.kind m.state (.inr hst) hmk (.inl hms)
      leaving := hleave.setAway fun x y =>
        ⟨fun hxy => ⟨hxy, fun hu => by simp [hms] at hu⟩, fun hxy => hxy.1⟩
      fresh := (hq ▸ h.fresh).install hb hd m.state
      phase := sound_of_idle hp _ _ }
  | started d e ha he =>
    have hinv := h.setState d .injecting ha.idle (by simp [ha.installed]) (by simp)
      (.inr (.inr (h.no_dependee (by simp [ha.installed]) (by simp [ha.installed])
        (by simp [ha.installed])))) (fun hi => absurd hi ha.notInternal)
      (.inr (.inr ⟨by simp [ha.installed], by simp [ha.installed]⟩))
      (fun q g _ _ hf => hf.of_resting (.inl ha.installed) id)
    have hpush := hinv.pushOne (Inert.of_isOnline he)
    exact { hpush with fresh := hpush.fresh.takePromise }
  | failed d _ => exact { h with fresh := h.fresh.takePromise }
  | suspended d g ha hg =>
    obtain ⟨hn, hw, ht⟩ := h.nextPromise_unused
    have hc : startLike g.generator.coroutine := by
      rcases hg.2.2 with ⟨hc, _⟩ | ⟨hc, _⟩ <;> simp [hc, startLike]
    have hshape : Shaped g := by
      rcases hg.2.2 with ⟨hc, hb⟩ | ⟨hc, hb⟩ <;> simp [Shaped, hc, hb, hg.1]
    have hd : c.state d ≠ .uninstalled := by simp [ha.installed]
    have hleave := h.leaving.setState_of_ne d .starting hd (by simp [ha.installed])
      (by simp [ha.installed]) (not_finishes_of_idle ha.idle d)
    exact { h with
      links := h.links.setState d .starting hd (by simp)
        (.inr (.inr (h.no_dependee hd (by simp [ha.installed]) (by simp [ha.installed]))))
        fun hi => absurd hi ha.notInternal
      coroutines := h.coroutines.storeStart d c.nextPromise g hn ha.installed ha.notInternal
        ⟨hg.1, hc, hg.2.1⟩ hshape
      leaving := hleave.setOther c.nextPromise (some g) (by simp [hn])
        (by simp [not_offlineLike_of_startLike hc]) (by simp [hn])
      waiting := h.waiting.setGenerator c.nextPromise (some g) hw ht
        (by simp [not_offlineLike_of_startLike hc])
      fresh := (h.fresh.updateState d .starting hd).store g fun _ => by
        rw [hg.1, update_self]
        simp
      phase := sound_of_idle ha.idle _ _ }
  | internal d hk hst hp =>
    refine h.setState d .active hp ?_ (by simp) (.inl rfl) (fun _ => .inr (.inl rfl)) ?_ ?_
    · rcases hst with hst | hst <;> simp [hst]
    · refine .inr (.inl ?_)
      rw [eq_nil_iff_forall_not_mem]
      intro w hw
      exact h.leaving.notInternal d w hw hk
    · intro q g _ _ hf
      rw [hk] at hf ⊢
      exact hf.of_internal
  | finishOk q g e v ha hc he =>
    have hl : startLike g.generator.coroutine := by
      rcases hc with ⟨hc, _⟩ | ⟨hc, _⟩ <;> simp [hc, startLike]
    have hv : g.generator.coroutine = .startAfterDependencyOnline → v = .started := by
      rcases hc with ⟨hc, _⟩ | ⟨_, hv⟩
      · simp [hc]
      · exact fun _ => hv
    have hinv := h.finishStart q g v .injecting ha hl (.inl ⟨rfl, hv⟩)
    exact hinv.pushWritten q _ e (update_self ..) (ne_user_of_startLike hl) he
  | finishFail q g e ha hl he =>
    have hinv := h.finishStart q g .stopped .installed ha hl (.inr ⟨rfl, rfl⟩)
    exact hinv.pushWritten q _ e (update_self ..) (ne_user_of_startLike hl) he
  | continueStart q g e rest onlines stops v ha hst hc hon hstop =>
    have hinv := (h.eraseEnded q g ha.generator (by simp [hst]) (not_offlineLike_of_startLike hc)
      fun hs => absurd hs (ne_stop_of_startLike hc)).tail ha.queue
    refine hinv.pushAll (onlines ++ stops) fun x hx => ?_
    rcases mem_append.mp hx with hx | hx
    · exact Inert.of_queues hon (fun _ => Inert.of_isOnline) x hx
    · exact Inert.of_queues hstop (fun _ => Inert.of_isStop) x hx

/-! ## Going online -/

theorem sound_of_phase (hp : c.phase = phase) : phase.Sound c.state c.dee := hp ▸ h.phase

theorem waiting_of_taken {l : List PromiseId} (ht : c.taken = l) :
    Waiting c.waiters c.generator l c.entry c.phase := ht ▸ h.waiting

theorem woken (p : ServiceId) (ht : c.taken = [])
    (hp : c.phase = .online p ∨ (∃ remove, c.phase = .offlineWake p remove) ∨
      c.phase = .stopWake p) : Inv ((c.woken p).setPhase .idle) := by
  have hphase : ∀ x, ¬c.phase.Finishes x := by
    rcases hp with hp | ⟨remove, hp⟩ | hp
    all_goals
      rw [hp]
      exact fun _ => id
  have hw := (h.waiting_of_taken ht).woken p .idle
  exact { h with
    leaving := h.leaving.setFinishing fun x hx => absurd hx (hphase x)
    waiting := ht ▸ hw
    phase := trivial }

theorem resumeOnline (p x : ServiceId) (q : PromiseId) (taken : List PromiseId)
    (g : ScopedGenerator) (point : OfflinePoint)
    (ht : c.taken = q :: taken) (hg : c.generator q = some g) (hd : g.generator.serviceId = p)
    (hc : ∃ point', g.generator.coroutine = .dependencyOffline x point')
    (hw : Waits c p point events) (hk : c.kind p ≠ .internal) :
    Inv (({ c with taken := taken }.wait p (waitType point) q).setGenerator q
      (some (resumedAt g x point))) := by
  have hwt := h.waiting_of_taken ht
  have hnd := nodup_cons.mp hwt.takenNodup
  have hsus : g.generator.state = .suspended := by
    obtain ⟨g', _, _, hg', hs, _⟩ := hwt.takenSound q mem_cons_self
    rw [hg] at hg'
    cases hg'
    exact hs
  have hoff : offlineLike g.generator.coroutine := by
    obtain ⟨point', hc⟩ := hc
    simp [hc, offlineLike]
  -- the coroutine is taken off the list first, as if it had yielded
  have hout := hwt.untake (finished g .yielded) (by simp [finished])
  have hwait := hout.wait p (waitType point) q (resumedAt g x point)
    (fun d type => hwt.takenOut q mem_cons_self d type) hnd.1 hsus
    (.inl ⟨x, point, rfl, hd, rfl⟩)
  rw [update_idem] at hwait
  have hshape : Shaped (resumedAt g x point) := by
    obtain ⟨point', hc⟩ := hc
    have hold := h.coroutines.shaped q g hg
    simp only [Shaped, hc] at hold
    exact hold
  have hs' : (resumedAt g x point).generator.state = .suspended := hsus
  exact { h with
    coroutines := h.coroutines.replace q g (resumedAt g x point) hg rfl hshape
      (fun hl => not_offlineLike_of_startLike hl hoff) (ne_stop_of_offlineLike hoff) id
      (by simp [resumedAt]) (by
        rw [hs', hd]
        exact fits_of_waits hw hk _ x)
    waiting := hwait
    leaving := h.leaving.setGenerator q _ (fun g' d' p' hg' hl => by
        rw [hg] at hg'
        cases hg'
        obtain ⟨point', hc⟩ := hc
        obtain ⟨hd', point'', hc''⟩ := hl
        rw [hc] at hc''
        injection hc'' with hx
        exact ⟨_, rfl, hd', point, by rw [← hx]; rfl⟩)
      (fun g' d' p' hg' hl => by
        cases hg'
        obtain ⟨point', hc⟩ := hc
        obtain ⟨hd', point'', hc''⟩ := hl
        have hc3 : Coroutine.dependencyOffline x point = .dependencyOffline p' point'' := hc''
        injection hc3 with hx
        exact ⟨g, hg, hd', point', by rw [hc, hx]⟩)
      (fun g' d' hg' hl => by
        rw [hg] at hg'
        cases hg'
        rw [hl.2.1] at hoff
        exact hoff.elim)
    fresh := h.fresh.replace q g _ hg rfl (by simp [resumedAt, ne_user_of_offlineLike hoff])
    phase := h.phase }

theorem onlineStep (hs : OnlineStep o c c') : Inv c' := by
  cases hs with
  | online e rest p hq _ he hst hp ht =>
    have hd : c.state p ≠ .uninstalled := by simp [hst]
    have hwt := h.waiting_of_taken ht
    have hw := hwt.wake p .dependencyOnline (.online p) ⟨rfl, rfl⟩ (.inl rfl)
    have hk := h.links.not_internal_of_starting (.inr (.inl hst))
    exact { h with
      links := h.links.setState p .active hd (by simp) (.inl rfl) fun hi => absurd hi hk
      coroutines := h.coroutines.setState p .active (by simp) (by simp) fun q g _ _ hf => by
        rw [hst] at hf
        exact hf.of_injecting
      leaving := (h.leaving.setState_of_ne p .active hd (by simp [hst]) (by simp [hst])
        (not_finishes_of_idle hp p)).setFinishing fun x hx => absurd hx (not_finishes_of_idle hp x)
      waiting := hw
      fresh := ((hq ▸ h.fresh).tail).updateState p .active hd
      phase := update_self .. }
  | resume p x q taken g left i ret point events hp ht hg hd hc hw hl =>
    have hk : c.kind p ≠ .internal := by
      have hf := h.coroutines.fits q g hg
      rw [hd] at hf
      exact hf.not_internal (by simp [hc, offlineLike])
    have hinv := h.resumeOnline p x q taken g point ht hg hd ⟨_, hc⟩ hw hk
    have hpush := hinv.pushAll events (Inert.of_waits hw)
    exact { hpush with }
  | woken p hp ht =>
    exact h.woken p ht (.inl hp)
  | inject d p interfaces rs hp hk hd hn hprov hr hne =>
    have hp' : p = selfServiceId ∨ (c.state p = .active ∧ p ≠ d) := by
      rcases hprov with hprov | hprov
      · exact .inl hprov.1
      · exact .inr ⟨hprov.1, hprov.2.1⟩
    exact { h with
      links := h.links.link d p hk hd hp'
      coroutines := h.coroutines.setDee fun x y hx hxy => by
        rcases hxy with hxy | ⟨rfl, _, hself⟩
        · exact hxy
        · rcases hp' with hp' | hp'
          · exact absurd hp' hself
          · rw [hp'.1] at hx
            cases hx
      phase := sound_of_idle hp _ _ }

/-! ## Going offline -/

theorem taken_nil (hp : ∀ d type, ¬c.phase.Wakes d type) : c.taken = [] := by
  rw [eq_nil_iff_forall_not_mem]
  intro q hq
  obtain ⟨g, p, point, _, _, _, hw⟩ := h.waiting.takenSound q hq
  exact hp _ _ hw

theorem waiting_setPhase (phase : Phase) (hp : ∀ d type, ¬c.phase.Wakes d type) :
    Waiting c.waiters c.generator c.taken c.entry phase := by
  have ht := h.taken_nil hp
  have hw := (h.waiting_of_taken ht).setPhase phase
  rw [ht]
  exact hw

theorem setPhase (phase : Phase) (hp : c.phase.Calm)
    (hs : phase.Sound c.state c.dee) : Inv (c.setPhase phase) :=
  { h with
    leaving := h.leaving.setFinishing fun d hd => absurd hd (hp.not_finishes d)
    waiting := h.waiting_setPhase phase hp.not_wakes
    phase := hs }

theorem wakeOffline (p : ServiceId) (phase : Phase) (ht : c.taken = []) (hp : c.phase.Calm)
    (hw : phase.Wakes p .dependencyOffline) (hs : phase.Sound c.state c.dee) :
    Inv ((c.wake p .dependencyOffline).setPhase phase) :=
  { h with
    leaving := h.leaving.setFinishing fun x hx => absurd hx (hp.not_finishes x)
    waiting := (h.waiting_of_taken ht).wake p .dependencyOffline phase hw (.inr rfl)
    phase := hs }

end

theorem reached (h : Inv c) {remove : Bool} {todo : List ServiceId}
    {deps : List ℕ} (hr : Reached o c p d remove todo deps) :
    c.kind d = .dependency ∧ c.state d ≠ .uninstalled ∧ p ≠ selfServiceId ∧
      (∀ q g, c.generator q = some g → ¬LetsGo d p g) ∧
      ∀ w ∈ c.pending d, w.originatingServiceId ≠ p := by
  obtain ⟨hk, hd⟩ := h.links.dependent d p hr.dep
  have hps : c.state p = .uninjecting := h.sound_of_phase hr.phase
  refine ⟨hk, hd, h.links.ne_self (by simp [hps]), fun q g hg hl => ?_, fun w hw he => ?_⟩
  · rcases h.leaving.ofGenerator q g d p hg hl with ha | ha
    · exact hr.notAway ha
    · exact hd ha
  · rcases h.leaving.ofPending d w hw with ha | ha
    · exact hr.notAway (he ▸ ha)
    · exact hd ha

variable (h : Inv c)
include h

theorem offlineWait (p d : ServiceId) (remove : Bool) (todo : List ServiceId) (deps : List ℕ)
    (point : OfflinePoint) (g : ScopedGenerator) (events : List Event)
    (hr : Reached o c p d remove todo deps) (hw : Waits c d point events)
    (hg : g.generator.serviceId = d) (hgs : g.generator.state = .suspended)
    (hgc : g.generator.coroutine = .dependencyOffline p point)
    (hge : g.event.body = .continuableDependencyOffline p remove deps)
    (hgo : g.event.originatingService = d) :
    Inv (((((c.leave d p).push events).wait d (waitType point) c.nextPromise).store g).setPhase
      (.offline p remove todo)) := by
  obtain ⟨hk, hd, hp, hno, _⟩ := h.reached hr
  obtain ⟨hn, hnw, hnt⟩ := h.nextPromise_unused
  have hoff : offlineLike g.generator.coroutine := by simp [hgc, offlineLike]
  have hphase : ∀ x type, ¬c.phase.Wakes x type := by
    rw [hr.phase]
    exact fun _ _ => id
  have hshape : Shaped g := by
    simp only [Shaped, hgc]
    exact ⟨remove, deps, hge, hgo.trans hg.symm, hr.nonempty⟩
  have hwait := h.waiting.wait d (waitType point) c.nextPromise g hnw hnt hgs
    (.inl ⟨p, point, hgc, hg, rfl⟩)
  have ht := h.taken_nil hphase
  exact { h with
    coroutines := h.coroutines.store c.nextPromise g hn hshape
      (fun hl => not_offlineLike_of_startLike hl hoff) (ne_stop_of_offlineLike hoff)
      (by
        rw [hg, hgc, hgs]
        exact fits_of_waits hw (by simp [hk]) _ p)
    leaving := (h.leaving.begin_generator d p c.nextPromise g hn hr.notAway hd hp
      ⟨hg, point, hgc⟩).setFinishing fun x hx => by
        rw [hr.phase] at hx
        exact hx.elim
    waiting := by
      rw [ht] at hwait
      have hset := hwait.setPhase (.offline p remove todo)
      exact ht ▸ hset
    fresh := (h.fresh.pushAll events (Inert.of_waits hw)).store g fun _ => hg ▸ hd
    phase := (h.sound_of_phase hr.phase :) }

theorem resumeOffline (p x : ServiceId) (q : PromiseId) (taken : List PromiseId)
    (g : ScopedGenerator) (e : Event)
    (hp : (∃ remove, c.phase = .offlineWake p remove) ∨ c.phase = .stopWake p)
    (ht : c.taken = q :: taken) (hg : c.generator q = some g) (hd : g.generator.serviceId = p)
    (hc : ∃ point, g.generator.coroutine = .dependencyOffline x point)
    (he : e.body = .continuableStart q) :
    Inv (({ c with taken := taken }.setGenerator q (some (finished g (.finished .stopMe)))).push
      [e]) := by
  have hs : c.state p = .uninjecting ∧ ∀ y, ¬c.dee p y := by
    rcases hp with ⟨remove, hp⟩ | hp
    · exact h.sound_of_phase hp
    · exact h.sound_of_phase hp
  have hoff : offlineLike g.generator.coroutine := by
    obtain ⟨point, hc⟩ := hc
    simp [hc, offlineLike]
  have hk : c.kind p ≠ .internal := by
    have hf := h.coroutines.fits q g hg
    rw [hd] at hf
    exact hf.not_internal hoff
  have hwt := h.waiting_of_taken ht
  have hshape : Shaped (finished g (.finished .stopMe)) := h.coroutines.shaped q g hg
  have hco := h.coroutines.replace q g (finished g (.finished .stopMe)) hg rfl hshape
    (fun hl => not_offlineLike_of_startLike hl hoff) (ne_stop_of_offlineLike hoff)
    (fun hl => not_offlineLike_of_startLike hl hoff) (ne_stop_of_offlineLike hoff)
    (by
      obtain ⟨point, hc⟩ := hc
      have hco : (finished g (.finished .stopMe)).generator.coroutine =
        .dependencyOffline x point := hc
      rw [hco, hd]
      exact .leaving _ _ hk hs.1 (not_exists.mpr hs.2))
  have hinv : Inv ({ c with taken := taken }.setGenerator q
      (some (finished g (.finished .stopMe)))) := { h with
    coroutines := hco
    waiting := hwt.untake _ (by simp [finished])
    leaving := h.leaving.setGenerator q _ (fun g' d' p' hg' hl => by
        rw [hg] at hg'
        cases hg'
        exact ⟨_, rfl, hl⟩)
      (fun g' d' p' hg' hl => by
        cases hg'
        exact ⟨g, hg, hl⟩)
      (fun g' d' hg' hl => by
        rw [hg] at hg'
        cases hg'
        exact absurd hl.2.1 (ne_stop_of_offlineLike hoff))
    fresh := h.fresh.replace q g _ hg rfl Iff.rfl }
  exact hinv.pushWritten q _ e (update_self ..) (ne_user_of_offlineLike hoff) he

theorem continueOffline (q : PromiseId) (g : ScopedGenerator) (e : Event) (rest : List Event)
    (p d : ServiceId) (remove : Bool) (deps : List ℕ) (priority : ℕ)
    (ha : AtContinuation o c e rest q g (.continuableStart q))
    (hs : g.generator.state = .finished .stopMe) (hc : offlineLike g.generator.coroutine)
    (hb : g.event.body = .continuableDependencyOffline p remove deps)
    (hd : g.event.originatingService = d) :
    Inv (((c.setGenerator q none).setQueue rest).setPending d
      (c.pending d ++ [⟨p, priority, remove, deps⟩])) := by
  have hshape := h.coroutines.shaped q g ha.generator
  have hf := h.coroutines.fits q g ha.generator
  obtain ⟨x, point, hgc⟩ : ∃ x point, g.generator.coroutine = .dependencyOffline x point := by
    generalize g.generator.coroutine = co at hc
    cases co <;> simp_all [offlineLike]
  simp only [Shaped, hgc] at hshape
  obtain ⟨remove', deps', hb', ho, hne⟩ := hshape
  rw [hb] at hb'
  injection hb' with hx _ hdeps
  have hgd : g.generator.serviceId = d := ho.symm.trans hd
  rw [hgc, hs, hgd] at hf
  have hst : c.kind d ≠ .internal ∧ c.state d = .uninjecting := by
    cases hf with
    | startedUp _ _ hl => exact hl.elim
    | leaving _ _ hk hst => exact ⟨hk, hst⟩
  have hw := h.waiting.not_waiting (q := q) (by simp [ha.generator, hs])
  exact { h with
    coroutines := h.coroutines.erase q g ha.generator (.inr (by simp [hs]))
    leaving := h.leaving.hand_over d q g ⟨p, priority, remove, deps⟩ ha.generator
      ⟨hgd, point, hx ▸ hgc⟩ hst.2 hst.1 (hdeps ▸ hne)
    waiting := h.waiting.setGenerator q none hw.1 hw.2 (by simp)
    fresh := (ha.queue ▸ h.fresh.erase q).tail }

theorem offlineDone (p d : ServiceId) (remove : Bool) (todo : List ServiceId) (deps : List ℕ)
    (hr : Reached o c p d remove todo deps) :
    Inv (((c.unlink d p).takePromise).setPhase (.offline p remove todo)) := by
  have hsound := h.sound_of_phase hr.phase
  have hl : Leaving c.kind c.state (c.unlink d p).away c.generator c.pending c.phase.Finishes :=
    h.leaving.setAway fun x y =>
      ⟨fun hxy => hxy.1, fun hxy => ⟨hxy, fun hd => hr.notAway (hd.1 ▸ hd.2 ▸ hxy)⟩⟩
  exact { h with
    links := h.links.unlink d p
    coroutines := h.coroutines.setDee fun x y _ hxy => hxy.1
    leaving := hl.setFinishing fun x hx => by
      rw [hr.phase] at hx
      exact hx.elim
    waiting := h.waiting_setPhase _ (by rw [hr.phase]; exact fun _ _ => id)
    fresh := h.fresh.takePromise
    phase := hsound }

theorem offlineStopMe (p d : ServiceId) (remove : Bool) (todo : List ServiceId) (deps : List ℕ)
    (priority : ℕ) (stops : List Event) (hr : Reached o c p d remove todo deps)
    (hst : c.state d = .uninjecting) (hstop : Queues (c.pending d = []) (IsStop d remove) stops) :
    Inv (((((c.leave d p).takePromise).push stops).setPending d
      (c.pending d ++ [⟨p, priority, remove, deps⟩])).setPhase (.offline p remove todo)) := by
  obtain ⟨hk, hd, hp, hno, hpend⟩ := h.reached hr
  have hsound := h.sound_of_phase hr.phase
  exact { h with
    leaving := (h.leaving.begin_pending d ⟨p, priority, remove, deps⟩ hst (by simp [hk])
      hr.nonempty hp hno hpend).setFinishing fun x hx => by
        rw [hr.phase] at hx
        exact hx.elim
    waiting := h.waiting_setPhase _ (by rw [hr.phase]; exact fun _ _ => id)
    fresh := (h.fresh.pushAll stops (Inert.of_queues hstop fun _ => Inert.of_isStop)).takePromise
    phase := hsound }

theorem offlineStep (hs : OfflineStep o c c') : Inv c' := by
  cases hs with
  | offline e rest p remove todo hq _ he hst hp =>
    have hd : c.state p ≠ .uninstalled := by simp [hst]
    exact { h with
      links := h.links.setState p .uninjecting hd (by simp) (.inr (.inl rfl))
        fun _ => .inr (.inr rfl)
      coroutines := h.coroutines.setState p .uninjecting (by simp) (by simp) fun q g _ _ hf => by
          rw [hst] at hf
          exact hf.of_active
      leaving := (h.leaving.setState p .uninjecting hd (.inr (.inl rfl))).setFinishing
        fun x hx => absurd hx (not_finishes_of_idle hp x)
      waiting := h.waiting_setPhase _ (by rw [hp]; exact fun _ _ => id)
      fresh := ((hq ▸ h.fresh).tail).updateState p .uninjecting hd
      phase := update_self .. }
  | skip p d remove todo hp =>
    have hsound := h.sound_of_phase hp
    exact h.setPhase _ (hp ▸ trivial) hsound
  | done p d remove todo deps hr hl hstay =>
    have hinv := h.offlineDone p d remove todo deps hr
    exact { hinv with }
  | stopMe p d remove todo deps priority stops hr hl hst hw hgone hstop =>
    have hinv := h.offlineStopMe p d remove todo deps priority stops hr hst hstop
    exact { hinv with }
  | wait p d remove todo deps pre r point g events hr hdeps hl hgone hw hg hgs hgc hge hgo =>
    have hinv := h.offlineWait p d remove todo deps point g events hr hw hg hgs hgc hge hgo
    exact { hinv with }
  | stay p remove hp _ =>
    exact h.setPhase .idle (hp ▸ trivial) trivial
  | wake p remove hp hd ht =>
    exact h.wakeOffline p _ ht (hp ▸ trivial) ⟨rfl, rfl⟩
      ⟨h.sound_of_phase hp, fun x hx => hd ⟨x, hx⟩⟩
  | resume p x q taken g wasActive left ret e hp ht hg hd hc hl he =>
    have hinv := h.resumeOffline p x q taken g e hp ht hg hd ⟨_, hc⟩ he
    exact { hinv with }
  | woken p remove e hp ht he =>
    have hpush := (h.woken p ht (.inr (.inl ⟨remove, hp⟩))).pushOne (Inert.of_isStop he)
    exact { hpush with }
  | continueOffline q g e rest stops p d remove deps priority ha hst hc hb hd hp hstop =>
    have hinv := h.continueOffline q g e rest p d remove deps priority ha hst hc hb hd
    have hpush := hinv.pushAll stops (Inert.of_queues hstop fun _ => Inert.of_isStop)
    exact { hpush with }

/-! ## Stopping -/

theorem stopped (d : ServiceId) (remove : Bool) (hp : c.phase = .idle) (hg : ¬c.HasCoroutine d)
    (hs : c.state d = .uninjecting) (hd : ¬c.HasDependee d) :
    Inv ((c.setState d .installed).setPhase (.finishing d remove)) := by
  have hpres : c.state d ≠ .uninstalled := by simp [hs]
  have hn : ∀ x, ¬c.dee d x := fun x hx => hd ⟨x, hx⟩
  exact { h with
    links := h.links.setState d .installed hpres (by simp) (.inr (.inr hn)) fun _ => .inl rfl
    coroutines := h.coroutines.setState d .installed (by simp) (by simp) fun q g hq hgd =>
      absurd ⟨q, g, hq, hgd⟩ hg
    leaving := (h.leaving.setFinishing fun x hx => absurd hx (not_finishes_of_idle hp x)).setState d
      .installed hpres (.inr (.inr (.inr (.inl rfl))))
    waiting := h.waiting_setPhase _ (by rw [hp]; exact fun _ _ => id)
    fresh := h.fresh.updateState d .installed hpres
    phase := ⟨update_self .., hn⟩ }

theorem stopSuspended (d : ServiceId) (g : ScopedGenerator) (remove : Bool) (hp : c.phase = .idle)
    (hg : ¬c.HasCoroutine d) (hk : c.kind d ≠ .internal) (hs : c.state d = .uninjecting)
    (hd : ¬c.HasDependee d) (hgd : g.generator.serviceId = d) (hgs : g.generator.state = .suspended)
    (hgc : g.generator.coroutine = .stop) (hb : g.event.body = .stopService d remove) :
    Inv ((c.setState d .stopping).store g) := by
  obtain ⟨hn, hw, ht⟩ := h.nextPromise_unused
  have hpres : c.state d ≠ .uninstalled := by simp [hs]
  have hshape : Shaped g := by
    simp only [Shaped, hgc]
    exact ⟨remove, hgd ▸ hb⟩
  have hl := h.leaving.setState d .stopping hpres (.inr (.inr (.inl rfl)))
  exact { h with
    links := h.links.setState d .stopping hpres (by simp)
      (.inr (.inr fun x hx => hd ⟨x, hx⟩)) fun hi => absurd hi hk
    coroutines := h.coroutines.storeStop d c.nextPromise g hn
      (fun q' g' hq' hgd' => hg ⟨q', g', hq', hgd'⟩) hk ⟨hgd, hgc, hgs⟩ hshape
    leaving := hl.setOther c.nextPromise (some g) (by simp [hn]) (by simp [hgc, offlineLike])
      (by simp [hn])
    waiting := h.waiting.setGenerator c.nextPromise (some g) hw ht (by simp [hgc, offlineLike])
    fresh := (h.fresh.updateState d .stopping hpres).store g fun _ => by
      rw [hgd, update_self]
      simp
    phase := sound_of_idle hp _ _ }

theorem finishStop (q : PromiseId) (g : ScopedGenerator) (ha : AtUser o c q g)
    (hc : g.generator.coroutine = .stop) :
    Inv ((c.setState g.generator.serviceId .installed).setGenerator q
      (some (finished g (.finished .done)))) := by
  have hs := h.stopping_of_suspended ha.generator ha.suspended hc
  have hpres : c.state g.generator.serviceId ≠ .uninstalled := by simp [hs.1]
  have hoff : ¬offlineLike g.generator.coroutine := by simp [hc, offlineLike]
  have ht := h.not_taken_of_not_offline ha.generator hoff
  have hl := h.leaving.setOther q (some (finished g (.finished .done)))
    (by simp [ha.generator, hoff]) (by simp [finished, hoff]) fun g' hg' d hl => by
      rw [ha.generator] at hg'
      cases hg'
      exact .inl ⟨_, rfl, hl.1, hc, _, rfl⟩
  exact { h with
    links := h.links.setState _ .installed hpres (by simp)
      (.inr (.inr (h.no_dependee hpres (by simp [hs.1]) (by simp [hs.1])))) fun _ => .inl rfl
    coroutines := h.coroutines.finishStop q g ha.generator ha.suspended hc
    leaving := hl.setState _ .installed hpres
      (.inr (.inr (.inr (.inr ⟨q, _, update_self .., rfl, hc, _, rfl⟩))))
    waiting := h.waiting.setGenerator q _ ha.notWaiting ht (by simp [finished])
    fresh := (h.fresh.updateState _ .installed hpres).replace q g _ ha.generator rfl Iff.rfl
    phase := sound_of_idle ha.idle _ _ }

theorem release (d : ServiceId) (remove : Bool) (w : WaitingStopService)
    (left : List WaitingStopService) (hp : c.phase = .finishing d remove)
    (hl : c.pending d = w :: left) :
    Inv ((c.unlink d w.originatingServiceId).setPending d left) := by
  have hsound := h.sound_of_phase hp
  exact { h with
    links := h.links.unlink d w.originatingServiceId
    coroutines := h.coroutines.setDee fun x y _ hxy => hxy.1
    leaving := h.leaving.release d w left hl
    phase := by
      have hp' : ((c.unlink d w.originatingServiceId).setPending d left).phase =
        .finishing d remove := hp
      rw [hp']
      exact ⟨hsound.1, fun x hx => hsound.2 x hx.1⟩ }

theorem clear (d : ServiceId) (remove : Bool) (hp : c.phase = .finishing d remove)
    (hl : c.pending d = []) (phase : Phase) (hph : phase = .removing d ∨ phase = .idle) :
    Inv ((c.clear d).setPhase phase) := by
  have hsound := h.sound_of_phase hp
  exact { h with
    links := h.links.clear d
    coroutines := h.coroutines.setDee fun x y _ hxy => hxy.1
    leaving := h.leaving.setFinishing fun x hx hn => by
      rw [hp] at hx
      have hx' : d = x := hx
      exact absurd (hx' ▸ hl) hn
    waiting := h.waiting_setPhase _ (by rw [hp]; exact fun _ _ => id)
    phase := by
      rcases hph with rfl | rfl
      · exact hsound.1
      · exact trivial }

theorem remove (d : ServiceId) (hp : c.phase = .removing d) (hs : c.state d = .installed)
    (hd : ¬c.HasDependee d) (hn : ∀ p, ¬c.dep d p) : Inv ((c.uninstall d).setPhase .idle) := by
  have hdee : ∀ x, ¬c.dee d x := fun x hx => hd ⟨x, hx⟩
  have hl := h.leaving.setResting d .plain .uninstalled (by simp) (.inl hs) (.inl rfl)
  have hl' := hl.setFinishing (fun x hx => by
    rw [hp] at hx
    exact hx.elim : ∀ x, c.phase.Finishes x → _ → _ ∨ _ ∨ _ ∨ Phase.Finishes x .idle)
  exact { h with
    links := h.links.uninstall d hn hdee
    coroutines := (h.coroutines.setResting d .plain .uninstalled (.inl hs) (by simp)
      (.inr rfl)).setDee fun x y _ hxy => hxy.1
    leaving := hl'.setAway fun x y => ⟨fun hxy => ⟨hxy.1, fun _ => hxy.2⟩,
      fun hxy => ⟨hxy.1, hxy.2 rfl⟩⟩
    waiting := h.waiting_setPhase _ (by rw [hp]; exact fun _ _ => id)
    fresh := h.fresh.updateState d .uninstalled (by simp [hs])
    phase := trivial }

theorem stopStep (hs : StopStep o c c') : Inv c' := by
  cases hs with
  | wake e rest d remove hq _ hb hst hd hp ht =>
    exact h.wakeOffline d _ ht (hp ▸ trivial) ⟨rfl, rfl⟩ ⟨hst, fun x hx => hd ⟨x, hx⟩⟩
  | woken d hp ht =>
    exact h.woken d ht (.inr (.inr hp))
  | park e rest d remove w ha _ _ _ =>
    have hinv := h.tail ha.queue
    exact { hinv with }
  | toOffline e e' rest d remove ha _ he _ =>
    exact (h.tail ha.queue).pushOne (Inert.of_isOffline he)
  | sync e rest d remove ha hg _ hst hd | internal e rest d remove ha hg _ hst hd =>
    have hinv := (h.stopped d remove ha.idle hg hst hd).tail ha.queue
    exact { hinv with fresh := hinv.fresh.takePromise }
  | suspended e rest d remove g ha hg hk hst hd hgd hgs hgc hge =>
    have hinv := (h.stopSuspended d g remove ha.idle hg hk hst hd hgd hgs hgc
      (hge ▸ ha.body)).tail ha.queue
    exact { hinv with }
  | finishStop q g e ha hc he =>
    have hinv := h.finishStop q g ha hc
    have hpush := hinv.pushWritten q _ e (update_self ..) (by simp [finished, hc]) he
    exact { hpush with }
  | continueStop q g e rest d remove v ha _ _ _ hst hd =>
    exact h.setPhase _ (ha.idle ▸ trivial) ⟨hst, fun x hx => hd ⟨x, hx⟩⟩
  | pending d remove w left stops hp hl _ hst =>
    have hinv := h.release d remove w left hp hl
    have hpush := hinv.pushAll stops (Inert.of_queues hst fun _ => Inert.of_isStop)
    exact { hpush with }
  | clear d remove hp hl =>
    refine h.clear d remove hp hl _ ?_
    cases remove <;> simp
  | forget q g e rest v ha hst hc hn =>
    exact (h.eraseEnded q g ha.generator (by simp [hst]) (by simp [hc, offlineLike])
      fun _ => hn).tail ha.queue
  | removeBegin e rest d hq _ _ hp hst _ _ =>
    have hcalm : c.phase.Calm := hp ▸ trivial
    exact (h.tail hq).setPhase _ hcalm hst
  | remove d hp hst hd hn =>
    have hinv := h.remove d hp hst hd hn
    exact { hinv with }

/-! ## Quitting -/

theorem quitStep (hs : QuitStep o c c') : Inv c' := by
  cases hs with
  | quit e rest hq =>
    have hinv := h.tail hq
    exact { hinv with }
  | done _ hg hst _ hp =>
    have hpend := h.leaving.pending_eq_nil hg hst (not_finishes_of_idle hp)
    exact { h with
      links := Links.empty
      coroutines := .empty hg fun _ => ⟨by rintro ⟨⟩, by rintro ⟨⟩⟩
      leaving := .empty hg hpend fun _ _ => id
      fresh := h.fresh.setState fun d hd => absurd rfl hd
      phase := sound_of_idle hp _ _ }

theorem step (hs : Step o c c') : Inv c' := by
  cases hs with
  | queue hs => exact h.queueStep hs
  | user hs => exact h.userStep hs
  | start hs => exact h.startStep hs
  | online hs => exact h.onlineStep hs
  | offline hs => exact h.offlineStep hs
  | stop hs => exact h.stopStep hs
  | quit hs => exact h.quitStep hs

theorem path (hp : Path o c c') : Inv c' := by
  induction hp with
  | refl => exact h
  | tail _ hs ih => exact ih.step hs

end Inv

end Ichor.Lifecycle
