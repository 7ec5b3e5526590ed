import Ichor.Abstract.Invariant
import Ichor.Abstract.Busy

/-! The continuations of stored generators. A generator that is suspended has none in the queue,
and one that has ended or yielded has exactly one, of its own kind. -/
namespace Ichor.Lifecycle
open List Function

def isContinuation (q : PromiseId) : EventBody → Bool
  | .continuable q' => decide (q' = q)
  | .continuableStart q' => decide (q' = q)
  | _ => false

/-- What is queued to go on with the generator under `q`. -/
def continuations (q : PromiseId) (queue : List Event) : List EventBody :=
  (queue.map Event.body).filter (isContinuation q)

/-- The continuation that a generator queues: user code behind an `AsyncGenerator<IchorBehaviour>`
a ContinuableEvent, the coroutines of the manager a ContinuableStartEvent. -/
def continuation (q : PromiseId) (g : ScopedGenerator) : EventBody :=
  match g.generator.coroutine with
  | .user => .continuable q
  | _ => .continuableStart q

/-- What the state of a generator calls for. -/
def expected (q : PromiseId) (g : ScopedGenerator) : List EventBody :=
  if g.generator.state = .suspended then [] else [continuation q g]

def Booked (c : Core) : Prop :=
  ∀ q g, c.generator q = some g → continuations q c.queue = expected q g

/-! ## Continuations of a queue -/

theorem isContinuation_iff {q : PromiseId} {b : EventBody} :
    isContinuation q b = true ↔ continues q b := by
  cases b <;> simp [isContinuation, continues]

theorem isContinuation_unique {q x : PromiseId} {b : EventBody} (h : isContinuation q b = true)
    (hx : x ≠ q) : isContinuation x b = false := by
  cases b <;> simp_all [isContinuation, eq_comm]

theorem continuations_append (q : PromiseId) (queue events : List Event) :
    continuations q (queue ++ events) = continuations q queue ++ continuations q events := by
  simp [continuations]

theorem continuations_nil {q : PromiseId} {events : List Event}
    (h : ∀ e ∈ events, isContinuation q e.body = false) : continuations q events = [] := by
  rw [continuations, filter_eq_nil_iff]
  intro b hb
  obtain ⟨e, he, rfl⟩ := mem_map.mp hb
  simp [h e he]

theorem continuations_inert (q : PromiseId) {events : List Event}
    (h : ∀ e ∈ events, Fresh.Inert e) : continuations q events = [] := by
  refine continuations_nil fun e he => ?_
  rw [← Bool.not_eq_true, isContinuation_iff]
  exact (h e he).2 q

theorem continuations_cons (q : PromiseId) (e : Event) (rest : List Event) :
    continuations q (e :: rest) =
      (if isContinuation q e.body = true then [e.body] else []) ++ continuations q rest := by
  unfold continuations
  rw [map_cons, filter_cons]
  split <;> rfl

theorem continuations_tail {q : PromiseId} {e : Event} {rest : List Event}
    (h : isContinuation q e.body = false) : continuations q (e :: rest) = continuations q rest := by
  rw [continuations_cons, h]
  rfl

theorem isContinuation_next {q nextPromise : PromiseId} {queue : List Event}
    (h : ∀ e ∈ queue, ∀ q, continues q e.body → q < nextPromise) (hq : nextPromise ≤ q) :
    continuations q queue = [] := by
  refine continuations_nil fun e he => ?_
  rw [← Bool.not_eq_true, isContinuation_iff]
  intro hc
  exact Nat.not_lt.mpr hq (h e he q hc)

variable {g : ScopedGenerator}

theorem expected_suspended {q : PromiseId}
    (h : g.generator.state = .suspended) : expected q g = [] := by
  simp [expected, h]

theorem expected_of_ne {q : PromiseId}
    (h : g.generator.state ≠ .suspended) : expected q g = [continuation q g] := by
  simp [expected, h]

theorem continuation_user {q : PromiseId}
    (h : g.generator.coroutine = .user) : continuation q g = .continuable q := by
  simp [continuation, h]

theorem continuation_manager {q : PromiseId}
    (h : g.generator.coroutine ≠ .user) : continuation q g = .continuableStart q := by
  unfold continuation
  split
  · next huser => exact absurd huser h
  · rfl

-- the updates, unfolded where only one field of the result matters
attribute [local simp] Core.setState Core.setRegistry Core.push Core.record Core.setQueue
  Core.setPhase Core.takePromise Core.store Core.setGenerator Core.link Core.leave Core.unlink
  Core.clear Core.wait Core.wake Core.woken Core.setPending Core.park Core.install Core.uninstall
  Core.uninstallAll

namespace Booked
variable {o : Origin} {c c' : Core}

theorem update (h : Booked c) (q : PromiseId) (hgen : ∀ x, x ≠ q → c'.generator x = c.generator x)
    (hqueue : ∀ x, x ≠ q → continuations x c'.queue = continuations x c.queue)
    (hq : ∀ g, c'.generator q = some g → continuations q c'.queue = expected q g) : Booked c' := by
  intro x g hg
  by_cases hx : x = q
  · subst hx
    exact hq g hg
  · rw [hgen x hx] at hg
    rw [hqueue x hx]
    exact h x g hg

theorem same (h : Booked c) (hgen : c'.generator = c.generator)
    (hqueue : ∀ x, continuations x c'.queue = continuations x c.queue) : Booked c' := by
  intro x g hg
  rw [hgen] at hg
  rw [hqueue x]
  exact h x g hg

theorem push (h : Booked c) {events : List Event} (he : ∀ e ∈ events, Fresh.Inert e) :
    Booked (c.push events) := by
  refine h.same rfl fun x => ?_
  change continuations x (c.queue ++ events) = continuations x c.queue
  rw [continuations_append, continuations_inert x he, append_nil]

variable {e : Event} {rest : List Event} {g : ScopedGenerator}

section
variable (h : Booked c)
include h

theorem pushOne (he : Fresh.Inert e) : Booked (c.push [e]) :=
  h.push fun _ hx => mem_singleton.mp hx ▸ he

theorem pop (hq : c.queue = e :: rest)
    (he : ∀ q, continues q e.body → c.generator q = none) : Booked (c.setQueue rest) := by
  intro x g hg
  have hx : isContinuation x e.body = false := by
    rw [← Bool.not_eq_true, isContinuation_iff]
    intro hc
    have hnone := he x hc
    rw [show c.generator x = some g from hg] at hnone
    cases hnone
  have hold := h x g hg
  rw [hq, continuations_tail hx] at hold
  exact hold

theorem popOther (hq : c.queue = e :: rest)
    (he : ∀ q, ¬continues q e.body) : Booked (c.setQueue rest) :=
  h.pop hq fun q hc => absurd hc (he q)

theorem store (hi : Inv c) (g : ScopedGenerator)
    (hs : g.generator.state = .suspended) : Booked (c.store g) := by
  refine h.update c.nextPromise (fun x hx => update_of_ne hx _ _) (fun x _ => rfl) ?_
  intro g' hg'
  have hsame : some g = some g' := (update_self c.nextPromise _ _).symm.trans hg'
  cases hsame
  rw [expected_suspended hs]
  exact isContinuation_next hi.fresh.continued (Nat.le_refl _)

theorem leave {q : PromiseId} {g' : ScopedGenerator}
    (hg : c.generator q = some g) (hs : g.generator.state = .suspended)
    (hs' : g'.generator.state ≠ .suspended) (he : e.body = continuation q g')
    (hcont : isContinuation q e.body = true) : Booked ((c.setGenerator q (some g')).push [e]) := by
  have hone : ∀ x, continuations x (c.queue ++ [e]) =
      continuations x c.queue ++ if isContinuation x e.body = true then [e.body] else [] := by
    intro x
    rw [continuations_append, continuations_cons]
    simp [continuations]
  refine h.update q (fun x hx => update_of_ne hx _ _) (fun x hx => ?_) fun g'' hg'' => ?_
  · change continuations x (c.queue ++ [e]) = continuations x c.queue
    rw [hone, isContinuation_unique hcont hx]
    simp
  · have hsame : some g' = some g'' := (update_self q _ _).symm.trans hg''
    cases hsame
    change continuations q (c.queue ++ [e]) = expected q g'
    rw [hone, h q g hg, expected_suspended hs, expected_of_ne hs', if_pos hcont, he, nil_append]

theorem leaveUser {q : PromiseId} {g' : ScopedGenerator}
    (hg : c.generator q = some g) (hs : g.generator.state = .suspended)
    (hs' : g'.generator.state ≠ .suspended) (hc : g'.generator.coroutine = .user)
    (he : e.body = .continuable q) : Booked ((c.setGenerator q (some g')).push [e]) :=
  h.leave hg hs hs' (by rw [continuation_user hc, he]) (by simp [he, isContinuation])

theorem leaveManager {q : PromiseId} {g g' : ScopedGenerator} {e : Event}
    (hg : c.generator q = some g) (hs : g.generator.state = .suspended)
    (hs' : g'.generator.state ≠ .suspended) (hc : g'.generator.coroutine ≠ .user)
    (he : e.body = .continuableStart q) : Booked ((c.setGenerator q (some g')).push [e]) :=
  h.leave hg hs hs' (by rw [continuation_manager hc, he]) (by simp [he, isContinuation])

theorem erase {q : PromiseId} {body : EventBody} (ha : AtContinuation o c e rest q g body)
    (hb : isContinuation q body = true) : Booked ((c.setGenerator q none).setQueue rest) := by
  refine h.update q (fun x hx => update_of_ne hx _ _) (fun x hx => ?_) fun g' hg' => ?_
  · have hother : isContinuation x e.body = false := by
      rw [ha.body]
      exact isContinuation_unique hb hx
    change continuations x rest = continuations x c.queue
    rw [ha.queue, continuations_tail hother]
  · have hnone : ((c.setGenerator q none).setQueue rest).generator q = none :=
      update_self q _ _
    cases hnone.symm.trans hg'

theorem rest_nil {q : PromiseId} {body : EventBody} (ha : AtContinuation o c e rest q g body)
    (hb : isContinuation q body = true) : continuations q rest = [] := by
  have hold := h q g ha.generator
  rw [ha.queue, continuations_cons, if_pos (by rw [ha.body]; exact hb), singleton_append] at hold
  unfold expected at hold
  split at hold
  · cases hold
  · exact (List.cons.inj hold).2

end

/-! ## The steps -/

theorem finished_of_manager (hi : Inv c) {q : PromiseId}
    (hg : c.generator q = some g) (hc : g.generator.coroutine ≠ .user)
    (hs : g.generator.state ≠ .suspended) : ∃ v, g.generator.state = .finished v := by
  have hfits := hi.coroutines.fits q g hg
  cases hst : g.generator.state with
  | suspended => exact absurd hst hs
  | finished v => exact ⟨v, rfl⟩
  | yielded =>
    rw [hst] at hfits
    generalize g.generator.coroutine = co at hfits hc
    cases hfits with
    | user => exact absurd rfl hc

section
variable (h : Booked c) (hi : Inv c)
include h hi

theorem queueStep (ho : ∀ e q, o.event = some e → continues q e.body → o.allowed = true)
    (hquit : c.quitDone = false) (hs : QueueStep o c c') : Booked c' := by
  cases hs with
  | permute queue hq =>
    intro q g hg
    have hperm : (continuations q queue).Perm (continuations q c.queue) :=
      (hq.map Event.body).filter _
    have hold := h q g hg
    change continuations q queue = expected q g
    by_cases hst : g.generator.state = .suspended
    · rw [hold, expected_suspended hst] at hperm
      rw [expected_suspended hst]
      exact perm_nil.mp hperm
    · rw [hold, expected_of_ne hst] at hperm
      rw [expected_of_ne hst]
      exact perm_singleton.mp hperm
  | quiet calls hn | takePromise => exact h.same (by simp) (by simp)
  | push e hp => exact h.pushOne (Inert.of_unconditional hp)
  | request e hr => exact h.pushOne (Inert.of_isRequest hr)
  | create desc e _ hb he =>
    refine h.same rfl fun x => ?_
    change continuations x (c.queue ++ [e]) = continuations x c.queue
    rw [continuations_append, continuations_cons, hb]
    simp [isContinuation, continuations]
  | quitStop e d _ he => exact h.pushOne (Inert.of_isStop he)
  | veto e rest hq hevent ha =>
    refine h.popOther hq fun q hc => ?_
    rw [ho e q hevent hc] at ha
    cases ha
  | ignore e rest hq _ hignored =>
    -- a continuation is ignored only when its generator has left the table
    refine h.pop hq fun q hc => ?_
    have hmem : e.body ∈ continuations q c.queue := by
      rw [hq, continuations, map_cons]
      exact mem_filter.mpr ⟨mem_cons_self, isContinuation_iff.mpr hc⟩
    cases hg : c.generator q with
    | none => rfl
    | some g =>
      rw [h q g hg] at hmem
      unfold expected at hmem
      split at hmem
      · cases hmem
      · next hstate =>
        rw [mem_singleton] at hmem
        by_cases huser : g.generator.coroutine = .user
        · rw [continuation_user huser] at hmem
          simp only [Ignored, hmem] at hignored
          exact absurd (hignored g hg) hstate
        · rw [continuation_manager huser] at hmem
          simp only [Ignored, hmem] at hignored
          obtain ⟨v, hv⟩ := finished_of_manager hi hg huser hstate
          exact absurd hv (hignored g v hg)
  | dead e rest hq hd =>
    rw [hquit] at hd
    cases hd

theorem userStep (hs : UserStep o c c') : Booked c' := by
  cases hs with
  | suspended g hc hst => exact h.store hi g hst
  | yielded g e hc hst he =>
    -- stored and at once continued
    refine h.update c.nextPromise (fun x hx => update_of_ne hx _ _) (fun x hx => ?_)
      fun g' hg' => ?_
    · change continuations x (c.queue ++ [e]) = continuations x c.queue
      have hother : isContinuation x e.body = false := by
        refine @isContinuation_unique c.nextPromise x e.body ?_ hx
        simp [he, isContinuation]
      rw [continuations_append, continuations_tail hother]
      simp [continuations]
    · have hsame : some g = some g' := (update_self c.nextPromise _ _).symm.trans hg'
      cases hsame
      change continuations c.nextPromise (c.queue ++ [e]) = expected c.nextPromise g
      rw [continuations_append, isContinuation_next hi.fresh.continued (Nat.le_refl _),
        expected_of_ne (by rw [hst]; simp), continuation_user hc, continuations_cons, he]
      simp [isContinuation, continuations]
  | resume q g e rest ha hst =>
    refine h.update q (fun x hx => update_of_ne hx _ _) (fun x hx => ?_) fun g' hg' => ?_
    · have hother : isContinuation x e.body = false := by
        rw [ha.body]
        exact @isContinuation_unique q x (.continuable q) (by simp [isContinuation]) hx
      change continuations x rest = continuations x c.queue
      rw [ha.queue, continuations_tail hother]
    · have hsame : some (finished g .suspended) = some g' :=
        (update_self q _ _).symm.trans hg'
      cases hsame
      rw [expected_suspended rfl]
      exact h.rest_nil ha (by simp [isContinuation])
  | again q g e e' rest ha hst he =>
    have hcont : isContinuation q (.continuable q) = true := by simp [isContinuation]
    refine h.update q (fun x _ => rfl) (fun x hx => ?_) fun g' hg' => ?_
    · have hother : isContinuation x (.continuable q) = false := isContinuation_unique hcont hx
      change continuations x (rest ++ [e']) = continuations x c.queue
      have he' : isContinuation x e'.body = false := by rw [he, hother]
      have hold : isContinuation x e.body = false := by rw [ha.body, hother]
      rw [ha.queue, continuations_append, continuations_tail hold, continuations_tail he']
      simp [continuations]
    · have hsame : some g = some g' := ha.generator.symm.trans hg'
      cases hsame
      change continuations q (rest ++ [e']) = expected q g
      rw [continuations_append, h.rest_nil ha hcont, expected_of_ne (by rw [hst]; simp),
        continuation_user (hi.user_of_continuation ha), continuations_cons, he]
      simp [isContinuation, continuations]
  | done q g e rest stale stops ha hst hstale hp hn =>
    have hcont : isContinuation q (.continuable q) = true := by simp [isContinuation]
    have herased := h.erase ha hcont
    have hstops : ∀ x ∈ stops, Fresh.Inert x := by
      intro x hx
      cases hparked : c.parked g.generator.serviceId with
      | none =>
        rw [hn hparked] at hx
        cases hx
      | some w =>
        obtain ⟨e', he', rfl⟩ := hp w hparked
        exact mem_singleton.mp hx ▸ Inert.of_isStop he'
    rw [Inv.push_append]
    refine Booked.push ?_ hstops
    refine herased.update q (fun x _ => rfl) (fun x hx => ?_) fun g' hg' => ?_
    · change continuations x (rest ++ stale) = continuations x rest
      have hnone : continuations x stale = [] := continuations_nil fun e' he' => by
        rw [hstale e' he']
        exact isContinuation_unique hcont hx
      rw [continuations_append, hnone, append_nil]
    · have hnone : (((c.setGenerator q none).setQueue rest).push stale).generator q = none :=
        update_self q _ _
      cases hnone.symm.trans hg'
  | finish q g e v ha hc he | yieldAgain q g e ha hc he =>
    exact h.leaveUser ha.generator ha.suspended (by simp [finished]) hc he
  | wait q g d type ha hc ht => exact h.same (by simp) (by simp)

theorem startStep (hs : StartStep o c c') : Booked c' := by
  cases hs with
  | install e rest d m desc hq ho hb =>
    have hpop := h.popOther hq fun q hc => by
      rw [hb] at hc
      exact hc
    exact hpop.same (by simp) (by simp)
  | started d e hst he =>
    have hpush := h.pushOne (Inert.of_isOnline he)
    exact hpush.same (by simp) (by simp)
  | failed d hst | internal d hk hst hp => exact h.same (by simp) (by simp)
  | suspended d g hst hg =>
    have hstore := h.store hi g hg.2.1
    exact hstore.same (by simp) (by simp)
  | finishOk q g e v ha hc he =>
    have huser : g.generator.coroutine ≠ .user := by
      rcases hc with ⟨hc, -⟩ | ⟨hc, -⟩ <;> simp [hc]
    have hleave := @leaveManager c h q g (finished g (.finished v)) e ha.generator ha.suspended
      (by simp [finished]) huser he
    exact hleave.same (by simp) (by simp)
  | finishFail q g e ha hc he =>
    have huser : g.generator.coroutine ≠ .user := by
      intro huser
      rw [huser] at hc
      exact hc
    have hleave := @leaveManager c h q g (finished g (.finished .stopped)) e ha.generator
      ha.suspended (by simp [finished]) huser he
    exact hleave.same (by simp) (by simp)
  | continueStart q g e rest onlines stops v ha hst hc hon hstops =>
    refine (h.erase ha (by simp [isContinuation])).push fun x hx => ?_
    rcases mem_append.mp hx with hx | hx
    · exact Inert.of_queues hon (fun e he => Inert.of_isOnline he) x hx
    · exact Inert.of_queues hstops (fun e he => Inert.of_isStop he) x hx

theorem onlineStep (hs : OnlineStep o c c') : Booked c' := by
  cases hs with
  | online e rest p hq ho he =>
    have hpop := h.popOther hq (Inert.of_isOnline he).2
    exact hpop.same (by simp) (by simp)
  | resume p x q taken g left interested ret point events hp ht hg hd hc hw hl =>
    -- the coroutine goes on from one wait to the next
    obtain ⟨g', _, _, hg', hst, -, -⟩ := hi.waiting.takenSound q (by rw [ht]; exact mem_cons_self)
    have hsame : some g = some g' := hg.symm.trans hg'
    cases hsame
    have hpush := h.push (Inert.of_waits hw)
    refine hpush.update q (fun y hy => update_of_ne hy _ _) (fun y _ => rfl) fun g' hg' => ?_
    have hsame : some (resumedAt g x point) = some g' := (update_self q _ _).symm.trans hg'
    cases hsame
    have hold := hpush q g hg
    rw [expected_suspended hst] at hold
    have hst' : (resumedAt g x point).generator.state = .suspended := hst
    rw [expected_suspended hst']
    exact hold
  | woken p hp ht | inject d p interfaces rs => exact h.same (by simp) (by simp)

theorem offlineStep (hs : OfflineStep o c c') : Booked c' := by
  cases hs with
  | offline e rest p remove todo hq ho he =>
    have hpop := h.popOther hq (Inert.of_isOffline he).2
    exact hpop.same (by simp) (by simp)
  | skip p d remove todo hp | done p d remove todo deps | stay p remove | wake p remove =>
    exact h.same (by simp) (by simp)
  | stopMe p d remove todo deps priority stops hr hl hst hw hgone hstops =>
    have hpush := h.push (Inert.of_queues hstops fun e he => Inert.of_isStop he)
    exact hpush.same (by simp) (by simp)
  | wait p d remove todo deps pre r point g events hr hdeps hl hgone hw hg hgs hgc =>
    have hpush := (h.store hi g hgs).push (Inert.of_waits hw)
    exact hpush.same (by simp) (by simp)
  | resume p x q taken g wasActive left ret e hp ht hg hd hc hl he =>
    obtain ⟨g', _, _, hg', hst, -, -⟩ := hi.waiting.takenSound q (by rw [ht]; exact mem_cons_self)
    have hsame : some g = some g' := hg.symm.trans hg'
    cases hsame
    have hleave := @leaveManager c h q g (finished g (.finished .stopMe)) e hg hst
      (by simp [finished]) (by simp [finished, hc]) he
    exact hleave.same (by simp) (by simp)
  | woken p remove e hp ht he =>
    have hpush := h.pushOne (Inert.of_isStop he)
    exact hpush.same (by simp) (by simp)
  | continueOffline q g e rest stops p d remove deps priority ha hst hc hb hd hp hstops =>
    have hpush := (h.erase ha (by simp [isContinuation])).push
      (Inert.of_queues hstops fun e he => Inert.of_isStop he)
    exact hpush.same (by simp) (by simp)

theorem stopStep (hs : StopStep o c c') : Booked c' := by
  have hstop : ∀ {e : Event} {d : ServiceId} {remove : Bool}, e.body = .stopService d remove →
      ∀ q, ¬continues q e.body := by
    intro e d remove hb q
    rw [hb]
    exact id
  cases hs with
  | wake e rest d remove | woken d | continueStop q g e rest d remove v | clear d remove
  | remove d => exact h.same (by simp) (by simp)
  | park e rest d remove w ha =>
    have hpop := h.popOther ha.queue (hstop ha.body)
    exact hpop.same (by simp) (by simp)
  | toOffline e e' rest d remove ha hg he =>
    exact (h.popOther ha.queue (hstop ha.body)).pushOne (Inert.of_isOffline he)
  | sync e rest d remove ha =>
    have hpop := h.popOther ha.queue (hstop ha.body)
    exact hpop.same (by simp) (by simp)
  | internal e rest d remove ha =>
    have hpop := h.popOther ha.queue (hstop ha.body)
    exact hpop.same (by simp) (by simp)
  | suspended e rest d remove g ha hg hk hst hd hgd hgs =>
    have hpop := (h.store hi g hgs).popOther (e := e) ha.queue (hstop ha.body)
    exact hpop.same (by simp) (by simp)
  | finishStop q g e ha hc he =>
    have hleave := @leaveManager c h q g (finished g (.finished .done)) e ha.generator
      ha.suspended (by simp [finished]) (by simp [finished, hc]) he
    exact hleave.same (by simp) (by simp)
  | pending d remove w left stops hp hl hst hstops =>
    have hpush := h.push (Inert.of_queues hstops fun e he => Inert.of_isStop he)
    exact hpush.same (by simp) (by simp)
  | forget q g e rest v ha => exact h.erase ha (by simp [isContinuation])
  | removeBegin e rest d hq ho hb =>
    have hpop := h.popOther hq fun q hc => by
      rw [hb] at hc
      exact hc
    exact hpop.same (by simp) (by simp)

end

section
variable (h : Booked c) (hi : Inv c)
  (ho : ∀ e q, o.event = some e → continues q e.body → o.allowed = true)
include h hi ho

theorem step (hquit : c.quitDone = false) (hs : Step o c c') : Booked c' := by
  cases hs with
  | queue hs => exact h.queueStep hi ho hquit hs
  | user hs => exact h.userStep hi hs
  | start hs => exact h.startStep hi hs
  | online hs => exact h.onlineStep hi hs
  | offline hs => exact h.offlineStep hi hs
  | stop hs => exact h.stopStep hi hs
  | quit hs =>
    cases hs with
    | quit e rest hq ho hb =>
      have hpop := h.popOther hq fun q hc => by
        rw [hb] at hc
        exact hc
      exact hpop.same (by simp) (by simp)
    | done => exact h.same (by simp) (by simp)

theorem path (hs : Path o c c') (hquit : c'.quitDone = false) : Inv c' ∧ Booked c' := by
  induction hs with
  | refl => exact ⟨hi, h⟩
  | tail _ hstep ih =>
    have hbefore := quitDone_step hstep hquit
    obtain ⟨hib, hbb⟩ := ih hbefore
    exact ⟨hib.step hstep, hbb.step hib ho hbefore hstep⟩

end

end Booked

/-! ## Erasure -/

section
variable {o : Origin} {c c' : Core} {q : PromiseId}

/-- What a step can do to the entry of one promise. -/
structure Entry (o : Origin) (q : PromiseId) (c c' : Core) : Prop where
  counter : c.nextPromise ≤ c'.nextPromise
  erased : c.generator q ≠ none → c'.generator q = none → ∃ e, o.event = some e ∧ continues q e.body
  fresh : c.generator q = none → q < c.nextPromise → c'.generator q = none

namespace Entry

theorem same (hgen : c'.generator = c.generator) (hn : c.nextPromise ≤ c'.nextPromise) :
    Entry o q c c' where
  counter := hn
  erased hsome hnone := absurd (hgen ▸ hnone) hsome
  fresh hnone _ := by rw [hgen, hnone]

theorem store (g : ScopedGenerator) (hgen : c'.generator =
    update c.generator c.nextPromise (some g)) (hn : c'.nextPromise = c.nextPromise + 1) :
    Entry o q c c' where
  counter := by
    rw [hn]
    exact Nat.le_succ _
  erased hsome hnone := by
    rw [hgen] at hnone
    by_cases hq : q = c.nextPromise
    · rw [hq, update_self] at hnone
      cases hnone
    · rw [update_of_ne hq] at hnone
      exact absurd hnone hsome
  fresh hnone hlt := by
    rw [hgen, update_of_ne (Nat.ne_of_lt hlt)]
    exact hnone

theorem set {x : PromiseId} (hg : c.generator x = some g) (g' : ScopedGenerator)
    (hgen : c'.generator = update c.generator x (some g'))
    (hn : c'.nextPromise = c.nextPromise) : Entry o q c c' where
  counter := Nat.le_of_eq hn.symm
  erased hsome hnone := by
    rw [hgen] at hnone
    by_cases hq : q = x
    · rw [hq, update_self] at hnone
      cases hnone
    · rw [update_of_ne hq] at hnone
      exact absurd hnone hsome
  fresh hnone _ := by
    have hq : q ≠ x := by
      rintro rfl
      rw [hg] at hnone
      cases hnone
    rw [hgen, update_of_ne hq]
    exact hnone

theorem erase {x : PromiseId} {e : Event} {rest : List Event}
    {body : EventBody} (ha : AtContinuation o c e rest x g body) (hb : continues x body)
    (hgen : c'.generator = update c.generator x none)
    (hn : c'.nextPromise = c.nextPromise) : Entry o q c c' where
  counter := Nat.le_of_eq hn.symm
  erased hsome hnone := by
    by_cases hq : q = x
    · exact ⟨e, ha.event, by rw [ha.body, hq]; exact hb⟩
    · rw [hgen, update_of_ne hq] at hnone
      exact absurd hnone hsome
  fresh hnone _ := by
    by_cases hq : q = x
    · rw [hgen, hq, update_self]
    · rw [hgen, update_of_ne hq]
      exact hnone

theorem queueStep (hs : QueueStep o c c') : Entry o q c c' := by
  cases hs with
  | takePromise => exact same (by simp) (by simp)
  | permute | quiet | push | request | create | quitStop | veto | ignore | dead =>
    exact same (by simp) (by simp)

theorem userStep (hs : UserStep o c c') : Entry o q c c' := by
  cases hs with
  | suspended g | yielded g e => exact store g (by simp) (by simp)
  | resume x g e rest ha => exact set ha.generator (finished g .suspended) (by simp) (by simp)
  | again | wait => exact same (by simp) (by simp)
  | done x g e rest stale stops ha => exact erase ha rfl (by simp) (by simp)
  | finish x g e v ha => exact set ha.generator (finished g (.finished v)) (by simp) (by simp)
  | yieldAgain x g e ha => exact set ha.generator (finished g .yielded) (by simp) (by simp)

theorem startStep (hs : StartStep o c c') : Entry o q c c' := by
  cases hs with
  | install | internal | started | failed => exact same (by simp) (by simp)
  | suspended d g => exact store g (by simp) (by simp)
  | finishOk x g e v ha => exact set ha.generator (finished g (.finished v)) (by simp) (by simp)
  | finishFail x g e ha =>
    exact set ha.generator (finished g (.finished .stopped)) (by simp) (by simp)
  | continueStart x g e rest onlines stops v ha => exact erase ha rfl (by simp) (by simp)

theorem onlineStep (hs : OnlineStep o c c') : Entry o q c c' := by
  cases hs with
  | online | woken | inject => exact same (by simp) (by simp)
  | resume p y x taken g left interested ret point events hp ht hg =>
    exact set hg (resumedAt g y point) (by simp) (by simp)

theorem offlineStep (hs : OfflineStep o c c') : Entry o q c c' := by
  cases hs with
  | offline | skip | stay | wake | woken | done | stopMe => exact same (by simp) (by simp)
  | wait p d remove todo deps pre r point g =>
    exact store g (by simp) (by simp)
  | resume p y x taken g wasActive left ret e hp ht hg =>
    exact set hg (finished g (.finished .stopMe)) (by simp) (by simp)
  | continueOffline x g e rest stops p d remove deps priority ha => exact erase ha rfl (by simp) (by simp)

theorem stopStep (hs : StopStep o c c') : Entry o q c c' := by
  cases hs with
  | wake | woken | park | toOffline | continueStop | pending | clear | removeBegin | remove =>
    exact same (by simp) (by simp)
  | sync | internal => exact same (by simp) (by simp)
  | suspended e rest d remove g => exact store g (by simp) (by simp)
  | finishStop x g e ha => exact set ha.generator (finished g (.finished .done)) (by simp) (by simp)
  | forget x g e rest v ha => exact erase ha rfl (by simp) (by simp)

theorem step (hs : Step o c c') : Entry o q c c' := by
  cases hs with
  | queue hs => exact queueStep hs
  | user hs => exact userStep hs
  | start hs => exact startStep hs
  | online hs => exact onlineStep hs
  | offline hs => exact offlineStep hs
  | stop hs => exact stopStep hs
  | quit hs =>
    cases hs with
    | quit | done => exact same (by simp) (by simp)

theorem path (hs : Path o c c') : Entry o q c c' := by
  induction hs with
  | refl => exact same (by simp) (by simp)
  | @tail b d hpath hstep ih =>
    have hone : Entry o q b d := step hstep
    refine ⟨Nat.le_trans ih.counter hone.counter, fun hsome hnone => ?_, fun hnone hlt => ?_⟩
    · by_cases hb : b.generator q = none
      · exact ih.erased hsome hb
      · exact hone.erased hb hnone
    · exact hone.fresh (ih.fresh hnone hlt) (Nat.lt_of_lt_of_le hlt ih.counter)

end Entry

end

end Ichor.Lifecycle
