import Ichor.Abstract.Step

/-! Which events the manager queues by itself: it never asks for the removal of a
registration and never creates a service. -/
namespace Ichor
open List

def EventBody.ofManager : EventBody → Bool
  | .dependencyOnline | .dependencyOffline _ | .dependencyRequest _ _ | .stopService _ _
  | .startService _ | .addTracker _ | .continuable _ | .continuableStart _ => true
  | _ => false

namespace Lifecycle

/-- What is queued between `c` and `c'` is of the manager's own making. -/
def OwnEvents (c c' : Core) : Prop :=
  ∀ e ∈ c'.queue, e ∈ c.queue ∨ e.body.ofManager = true

namespace OwnEvents
variable {o : Origin} {c c' c'' : Core}

theorem trans (h : OwnEvents c c') (h' : OwnEvents c' c'') : OwnEvents c c'' := by
  intro e he
  rcases h' e he with he | he
  · exact h e he
  · exact .inr he

theorem push (events : List Event) (h : ∀ e ∈ events, e.body.ofManager = true)
    (hq : ∃ queue, c'.queue = queue ++ events ∧ ∀ e ∈ queue, e ∈ c.queue) : OwnEvents c c' := by
  obtain ⟨queue, hq, hold⟩ := hq
  intro e he
  rw [hq, mem_append] at he
  rcases he with he | he
  · exact .inl (hold e he)
  · exact .inr (h e he)

variable {events : List Event} {e : Event} {d : ServiceId}

theorem of_queues {condition : Prop} {is : Event → Prop}
    (h : Queues condition is events) (his : ∀ e, is e → e.body.ofManager = true) :
    ∀ e ∈ events, e.body.ofManager = true := by
  intro e he
  rcases h with ⟨_, x, hx, rfl⟩ | ⟨_, rfl⟩
  · rw [mem_singleton] at he
    exact he ▸ his x hx
  · cases he

theorem queueStep (ho : o.event ≠ none) (hs : QueueStep o c c') : OwnEvents c c' := by
  cases hs with
  | permute queue h => exact fun e he => .inl (h.mem_iff.mp he)
  | push e h =>
    refine push [e] (fun x hx => ?_) ⟨c.queue, rfl, fun _ h => h⟩
    rw [mem_singleton.mp hx]
    cases hb : e.body <;> simp [hb, Unconditional] at h <;> rfl
  | request e h hno | create desc e hno => exact absurd hno ho
  | quitStop e d hq he =>
    refine push [e] (fun x hx => ?_) ⟨c.queue, rfl, fun _ h => h⟩
    rw [mem_singleton.mp hx, he]
    rfl
  | veto e rest hq | ignore e rest hq | dead e rest hq =>
    exact fun x hx => .inl (hq ▸ mem_cons_of_mem e hx)
  | _ => exact fun x hx => .inl hx

variable {q : PromiseId}

theorem ofManager_continuable (he : e.body = .continuable q) : e.body.ofManager = true := by
  rw [he]
  rfl

theorem ofManager_continuableStart
    (he : e.body = .continuableStart q) : e.body.ofManager = true := by
  rw [he]
  rfl

variable {remove : Bool}

theorem ofManager_isStop (he : IsStop d remove e) : e.body.ofManager = true := by
  rw [he]
  rfl

theorem ofManager_isOnline (he : IsOnline d e) : e.body.ofManager = true := by
  rw [he.1]
  rfl

theorem ofManager_isOffline (he : IsOffline d remove e) : e.body.ofManager = true := by
  rw [he.1]
  rfl

theorem same (h : c'.queue = c.queue) : OwnEvents c c' := fun _ he => .inl (h ▸ he)

variable {rest : List Event}

theorem pop (hq : c.queue = e :: rest) (h : c'.queue = rest) :
    OwnEvents c c' := fun _ hx => .inl (hq ▸ mem_cons_of_mem e (h ▸ hx))

theorem pushOne (h : c'.queue = c.queue ++ [e]) (he : e.body.ofManager = true) : OwnEvents c c' :=
  push [e] (fun _ hx => mem_singleton.mp hx ▸ he) ⟨c.queue, h, fun _ h => h⟩

theorem popPush (hq : c.queue = e :: rest)
    (h : c'.queue = rest ++ events) (hevents : ∀ x ∈ events, x.body.ofManager = true) :
    OwnEvents c c' :=
  push events hevents ⟨rest, h, fun _ hx => hq ▸ mem_cons_of_mem e hx⟩

theorem userStep (hs : UserStep o c c') : OwnEvents c c' := by
  cases hs with
  | suspended g => exact same rfl
  | yielded g e hc hs he | finish q g e v h hc he | yieldAgain q g e h hc he =>
    exact pushOne rfl (ofManager_continuable he)
  | resume q g e rest h hs => exact pop h.queue rfl
  | again q g e e' rest h hs he =>
    exact popPush h.queue rfl fun x hx => mem_singleton.mp hx ▸ ofManager_continuable he
  | done q g e rest stale stops h hs hstale hp hn =>
    refine popPush h.queue rfl fun x hx => ?_
    rcases mem_append.mp hx with hx | hx
    · exact ofManager_continuable (hstale x hx)
    cases hw : c.parked g.generator.serviceId with
    | none =>
      rw [hn hw] at hx
      cases hx
    | some w =>
      obtain ⟨e', he', rfl⟩ := hp w hw
      exact mem_singleton.mp hx ▸ ofManager_isStop he'
  | wait q g d type h hc ht => exact same rfl

theorem startStep (hs : StartStep o c c') : OwnEvents c c' := by
  cases hs with
  | install e rest d m desc hq => exact pop hq rfl
  | started d e h he => exact pushOne rfl (ofManager_isOnline he)
  | failed d h | suspended d g h hg | internal d hk hs hp => exact same rfl
  | finishOk q g e v h hc he | finishFail q g e h hc he =>
    exact pushOne rfl (ofManager_continuableStart he)
  | continueStart q g e rest onlines stops v h hs hc hon hst =>
    refine popPush h.queue rfl fun x hx => ?_
    rcases mem_append.mp hx with hx | hx
    · exact of_queues hon (fun _ => ofManager_isOnline) x hx
    · exact of_queues hst (fun _ => ofManager_isStop) x hx

theorem waits {point : OfflinePoint}
    (h : Waits c d point events) : ∀ e ∈ events, e.body.ofManager = true := by
  cases h with
  | active left ret e hs hw he ho =>
    intro x hx
    rw [mem_singleton.mp hx, he]
    rfl
  | _ => nofun

theorem onlineStep (hs : OnlineStep o c c') : OwnEvents c c' := by
  cases hs with
  | online e rest p hq => exact pop hq rfl
  | resume p x q taken g left interested ret point events hp ht hg hd hc hw hl =>
    exact push events (waits hw) ⟨c.queue, rfl, fun _ h => h⟩
  | woken p => exact same rfl
  | inject d p interfaces rs => exact same rfl

theorem offlineStep (hs : OfflineStep o c c') : OwnEvents c c' := by
  cases hs with
  | offline e rest p remove todo hq => exact pop hq rfl
  | skip | done | stay | wake => exact same rfl
  | stopMe p d remove todo deps priority stops h hl hs hw hgone hst =>
    exact push stops (of_queues hst fun _ => ofManager_isStop) ⟨c.queue, rfl, fun _ h => h⟩
  | wait p d remove todo deps pre r point g events h hdeps hl hgone hw =>
    exact push events (waits hw) ⟨c.queue, rfl, fun _ h => h⟩
  | resume p x q taken g wasActive left ret e hp ht hg hd hc hl he =>
    exact pushOne rfl (ofManager_continuableStart he)
  | woken p remove e hp ht he => exact pushOne rfl (ofManager_isStop he)
  | continueOffline q g e rest stops p d remove deps priority h hs hc hb hd hp hst =>
    exact popPush h.queue rfl (of_queues hst fun _ => ofManager_isStop)

theorem stopStep (hs : StopStep o c c') : OwnEvents c c' := by
  cases hs with
  | wake | woken | continueStop | clear | remove => exact same rfl
  | park e rest d remove w h | sync e rest d remove h | internal e rest d remove h
  | suspended e rest d remove g h | forget q g e rest v h => exact pop h.queue rfl
  | toOffline e e' rest d remove h hg he =>
    exact popPush h.queue rfl fun x hx => mem_singleton.mp hx ▸ ofManager_isOffline he
  | finishStop q g e h hc he => exact pushOne rfl (ofManager_continuableStart he)
  | pending d remove w left stops hp hl hs hst =>
    exact push stops (of_queues hst fun _ => ofManager_isStop) ⟨c.queue, rfl, fun _ h => h⟩
  | removeBegin e rest d hq => exact pop hq rfl

theorem path (ho : o.event ≠ none) (hp : Path o c c') : OwnEvents c c' := by
  induction hp with
  | refl => exact same rfl
  | tail _ hstep ih =>
    refine ih.trans ?_
    cases hstep with
    | queue h => exact queueStep ho h
    | user h => exact userStep h
    | start h => exact startStep h
    | online h => exact onlineStep h
    | offline h => exact offlineStep h
    | stop h => exact stopStep h
    | quit h =>
      cases h with
      | quit e rest hq => exact pop hq rfl
      | done => exact same rfl

end OwnEvents

end Lifecycle

end Ichor
