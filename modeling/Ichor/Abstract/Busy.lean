import Ichor.Abstract.Step

/-! Activity: stored coroutines and services that are not at rest. Which steps can
end the last of it decides when the manager may quit. -/
namespace Ichor.Lifecycle
open Function

namespace Core

/-- Some coroutine is stored or some ordinary service is not INSTALLED. -/
def Busy (c : Core) : Prop :=
  (∃ q g, c.generator q = some g) ∨
    ∃ d, c.state d ≠ .uninstalled ∧ c.kind d ≠ .internal ∧ c.state d ≠ .installed

end Core

section
variable {o : Origin} {c c' : Core}

theorem Core.Busy.setState (h : c.Busy) (d : ServiceId) (st : ServiceState)
    (h1 : st ≠ .uninstalled) (h2 : st ≠ .installed) : (c.setState d st).Busy := by
  rcases h with h | ⟨x, hx, hk, hi⟩
  · exact .inl h
  · refine .inr ⟨x, ?_⟩
    by_cases hxd : x = d
    · subst hxd
      have hst : (c.setState x st).state x = st := update_self _ _ _
      rw [hst]
      exact ⟨h1, hk, h2⟩
    · have hst : (c.setState d st).state x = c.state x := update_of_ne hxd _ _
      rw [hst]
      exact ⟨hx, hk, hi⟩

/-- The events whose handlers may leave the manager less busy. -/
def Settles : EventBody → Prop
  | .stopService _ _ | .continuable _ | .continuableStart _ => True
  | _ => False

theorem Core.Busy.store (c : Core) (g : ScopedGenerator) : (c.store g).Busy :=
  .inl ⟨c.nextPromise, g, update_self _ _ _⟩

theorem Core.Busy.other (h : c.Busy) (hgen : c'.generator = c.generator) {d : ServiceId}
    (hd : c.state d = .uninstalled ∨ c.state d = .installed)
    (hsame : ∀ x, x ≠ d → c'.state x = c.state x ∧ c'.kind x = c.kind x) : c'.Busy := by
  rcases h with h | ⟨x, hx, hk, hi⟩
  · exact .inl (hgen ▸ h)
  · have hne : x ≠ d := by
      rintro rfl
      exact hd.elim hx hi
    obtain ⟨hstate, hkind⟩ := hsame x hne
    exact .inr ⟨x, hstate ▸ hx, hkind ▸ hk, hstate ▸ hi⟩

theorem busy_queueStep (hb : c.Busy) (h : QueueStep o c c') : c'.Busy := by
  cases h <;> exact hb

/-! ### Steps of an event that does not settle anything -/

section
variable {e : Event} (ho : o.event = some e) (he : ¬Settles e.body)
include ho

theorem not_atUser {q : PromiseId} {g : ScopedGenerator} (h : AtUser o c q g) : False :=
  nomatch ho.symm.trans h.noEvent

include he

theorem not_settling {e' : Event} {body : EventBody} (ho' : o.event = some e')
    (hbody : e'.body = body) (hs : Settles body) : False := by
  obtain rfl : e = e' := Option.some.inj (ho.symm.trans ho')
  rw [hbody] at he
  exact he hs

theorem busy_userStep (h : UserStep o c c') : c'.Busy := by
  cases h with
  | suspended g => exact .store c g
  | yielded g => exact .inl ⟨c.nextPromise, g, update_self _ _ _⟩
  | resume _ _ _ _ hat | again _ _ _ _ _ hat | done _ _ _ _ _ _ hat =>
    exact (not_settling ho he hat.event hat.body trivial).elim
  | finish _ _ _ _ hat | yieldAgain _ _ _ hat | wait _ _ _ _ hat => exact (not_atUser ho hat).elim

theorem busy_startStep (hb : c.Busy) (h : StartStep o c c') : c'.Busy := by
  cases h with
  | install e' rest d m desc hq ho' hb' hd hm hs =>
    exact hb.other rfl (.inl hs) fun x hx =>
      ⟨update_of_ne hx _ _, update_of_ne hx _ _⟩
  | started d =>
    have hset := hb.setState d .injecting (by simp) (by simp)
    simpa only [Core.Busy, Core.record, Core.takePromise, Core.push] using hset
  | failed => exact hb
  | suspended d g => exact .store _ g
  | internal d => exact hb.setState d .active (by simp) (by simp)
  | finishOk _ _ _ _ hat | finishFail _ _ _ hat => exact (not_atUser ho hat).elim
  | continueStart _ _ _ _ _ _ _ hat =>
    exact (not_settling ho he hat.event hat.body trivial).elim

omit ho he in
theorem busy_onlineStep (hb : c.Busy) (h : OnlineStep o c c') : c'.Busy := by
  cases h with
  | online _ _ p =>
    have hset := hb.setState p .active (by simp) (by simp)
    simpa only [Core.Busy, Core.wake, Core.setQueue, Core.setPhase] using hset
  | resume _ x q => exact .inl ⟨q, _, update_self q _ _⟩
  | woken => exact hb
  | inject => simpa only [Core.Busy, Core.link, Core.setRegistry, Core.record] using hb

theorem busy_offlineStep (hb : c.Busy) (h : OfflineStep o c c') : c'.Busy := by
  cases h with
  | offline _ _ p =>
    have hset := hb.setState p .uninjecting (by simp) (by simp)
    simpa only [Core.Busy, Core.setQueue, Core.setPhase] using hset
  | wait _ _ _ _ _ _ _ _ g => exact .inl ⟨c.nextPromise, g, update_self _ _ _⟩
  | resume _ _ q => exact .inl ⟨q, _, update_self q _ _⟩
  | continueOffline _ _ _ _ _ _ _ _ _ _ hat =>
    exact (not_settling ho he hat.event hat.body trivial).elim
  | _ =>
    simpa only [Core.Busy, Core.setPhase, Core.setRegistry, Core.unlink, Core.leave, Core.record,
      Core.takePromise, Core.push, Core.setPending, Core.wake, Core.woken] using hb

theorem busy_stopStep (hb : c.Busy) (h : StopStep o c c') : c'.Busy := by
  cases h with
  | wake _ _ _ _ _ ho' hbody => exact (not_settling ho he ho' hbody trivial).elim
  | park _ _ _ _ _ hat | toOffline _ _ _ _ _ hat | sync _ _ _ _ hat | internal _ _ _ _ hat
  | suspended _ _ _ _ _ hat | continueStop _ _ _ _ _ _ _ hat | forget _ _ _ _ _ hat =>
    exact (not_settling ho he hat.event hat.body trivial).elim
  | finishStop _ _ _ hat => exact (not_atUser ho hat).elim
  | remove d hp hs =>
    exact hb.other rfl (.inr hs) fun x hx =>
      ⟨update_of_ne hx _ _, update_of_ne hx _ _⟩
  | _ =>
    simpa only [Core.Busy, Core.woken, Core.setPhase, Core.unlink, Core.record, Core.setPending,
      Core.push, Core.clear, Core.setQueue] using hb

end

theorem quitDone_step (h : Step o c c') (hq : c'.quitDone = false) : c.quitDone = false := by
  cases h with
  | quit h =>
    cases h with
    | quit => exact hq
    | done => cases hq
  | queue h | user h => cases h <;> exact hq
  | start h | online h | offline h | stop h =>
    cases h <;> simpa only [Core.setQueue, Core.record, Core.takePromise, Core.push, Core.wake,
      Core.setPhase, Core.setState, Core.wait, Core.setGenerator, Core.woken, Core.link,
      Core.unlink, Core.leave, Core.setRegistry, Core.store, Core.setPending, Core.park,
      Core.clear, Core.install, Core.uninstall] using hq

theorem busy_path {e : Event} (ho : o.event = some e) (he : ¬Settles e.body) (hb : c.Busy)
    (h : Path o c c') (hq : c'.quitDone = false) : c'.Busy := by
  induction h with
  | refl => exact hb
  | @tail b d _ hstep ih =>
    have hb := ih (quitDone_step hstep hq)
    cases hstep with
    | queue h => exact busy_queueStep hb h
    | user h => exact busy_userStep ho he h
    | start h => exact busy_startStep ho he hb h
    | online h => exact busy_onlineStep hb h
    | offline h => exact busy_offlineStep ho he hb h
    | stop h => exact busy_stopStep ho he hb h
    | quit h =>
      cases h with
      | quit => exact hb
      | done => cases hq

end

end Ichor.Lifecycle
