import Ichor.Abstract.Step

/-! The two link relations. They mirror each other, a provider stays ACTIVE or
UNINJECTING for as long as somebody holds it, and only services with a
dependency register hold providers. -/
namespace Ichor.Lifecycle
open Function

structure Links (present : ServiceId → Prop) (kind : ServiceId → ManagerKind)
    (state : ServiceId → ServiceState) (dep dee : ServiceId → ServiceId → Prop) : Prop where
  inTable : ∀ d, present d ↔ state d ≠ .uninstalled
  back : ∀ d p, dee p d → dep d p
  forth : ∀ d p, dep d p → p ≠ selfServiceId → dee p d
  provider : ∀ d p, dep d p → p ≠ selfServiceId → state p = .active ∨ state p = .uninjecting
  dependent : ∀ d p, dep d p → kind d = .dependency ∧ state d ≠ .uninstalled
  irrefl : ∀ d, ¬dep d d
  noSelf : state selfServiceId = .uninstalled
  internal : ∀ d, kind d = .internal →
    state d = .uninstalled ∨ state d = .installed ∨ state d = .active ∨ state d = .uninjecting

namespace Links
variable {present : ServiceId → Prop} {kind : ServiceId → ManagerKind}
  {state : ServiceId → ServiceState} {dep dee : ServiceId → ServiceId → Prop}

section
variable (h : Links present kind state dep dee)
include h

theorem setState (d : ServiceId) (st : ServiceState) (hd : state d ≠ .uninstalled)
    (hst : st ≠ .uninstalled) (hprov : st = .active ∨ st = .uninjecting ∨ ∀ x, ¬dee d x)
    (hint : kind d = .internal → st = .installed ∨ st = .active ∨ st = .uninjecting) :
    Links present kind (update state d st) dep dee where
  inTable x := by
    by_cases hxd : x = d
    · rw [hxd, update_self, h.inTable d]
      exact ⟨fun _ => hst, fun _ => hd⟩
    · rw [update_of_ne hxd]
      exact h.inTable x
  __ := h
  provider x p hx hp := by
    by_cases hpd : p = d
    · subst hpd
      rw [update_self]
      rcases hprov with hprov | hprov | hprov
      · exact .inl hprov
      · exact .inr hprov
      · exact absurd (h.forth x p hx hp) (hprov x)
    · rw [update_of_ne hpd]
      exact h.provider x p hx hp
  dependent x p hx := by
    refine ⟨(h.dependent x p hx).1, ?_⟩
    by_cases hxd : x = d
    · rw [hxd, update_self]
      exact hst
    · rw [update_of_ne hxd]
      exact (h.dependent x p hx).2
  noSelf := by
    have hne : selfServiceId ≠ d := fun he => hd (he ▸ h.noSelf)
    rw [update_of_ne hne]
    exact h.noSelf
  internal x hx := by
    by_cases hxd : x = d
    · subst hxd
      rw [update_self]
      exact .inr (hint hx)
    · rw [update_of_ne hxd]
      exact h.internal x hx

theorem not_internal_of_starting {d : ServiceId}
    (hs : state d = .starting ∨ state d = .injecting ∨ state d = .stopping) :
    kind d ≠ .internal := by
  intro hk
  have hi := h.internal d hk
  rcases hs with hs | hs | hs <;> simp [hs] at hi

theorem no_dependee {p : ServiceId} (ha : state p ≠ .active) (hu : state p ≠ .uninjecting)
    (hself : p ≠ selfServiceId) : ∀ x, ¬dee p x := by
  intro x hx
  rcases h.provider x p (h.back x p hx) hself with hp | hp
  · exact ha hp
  · exact hu hp

theorem ne_self {d : ServiceId} (hd : state d ≠ .uninstalled) :
    d ≠ selfServiceId := fun he => hd (he ▸ h.noSelf)

theorem link (d p : ServiceId) (hk : kind d = .dependency) (hd : state d ≠ .uninstalled)
    (hp : p = selfServiceId ∨ (state p = .active ∧ p ≠ d)) :
    Links present kind state (fun x y => dep x y ∨ (x = d ∧ y = p))
      (fun x y => dee x y ∨ (x = p ∧ y = d ∧ p ≠ selfServiceId)) where
  __ := h
  back x y hxy := by
    rcases hxy with hxy | ⟨hy, hx, _⟩
    · exact .inl (h.back x y hxy)
    · exact .inr ⟨hx, hy⟩
  forth x y hxy hself := by
    rcases hxy with hxy | ⟨hx, hy⟩
    · exact .inl (h.forth x y hxy hself)
    · exact .inr ⟨hy, hx, hy ▸ hself⟩
  provider x y hxy hself := by
    rcases hxy with hxy | ⟨_, hy⟩
    · exact h.provider x y hxy hself
    · subst hy
      rcases hp with hp | hp
      · exact absurd hp hself
      · exact .inl hp.1
  dependent x y hxy := by
    rcases hxy with hxy | ⟨hx, _⟩
    · exact h.dependent x y hxy
    · exact hx ▸ ⟨hk, hd⟩
  irrefl x hx := by
    rcases hx with hx | ⟨rfl, hx⟩
    · exact h.irrefl x hx
    · rcases hp with hp | hp
      · exact h.ne_self hd (hx.trans hp)
      · exact hp.2 hx.symm

theorem restrict (keep : ServiceId → ServiceId → Prop) {dep' dee' : ServiceId → ServiceId → Prop}
    (hdep : ∀ x y, dep' x y ↔ dep x y ∧ keep x y) (hdee : ∀ x y, dee' x y ↔ dee x y ∧ keep y x) :
    Links present kind state dep' dee' where
  __ := h
  back x y hxy := by
    rw [hdee] at hxy
    exact (hdep x y).mpr ⟨h.back x y hxy.1, hxy.2⟩
  forth x y hxy hself := by
    rw [hdep] at hxy
    exact (hdee y x).mpr ⟨h.forth x y hxy.1 hself, hxy.2⟩
  provider x y hxy := h.provider x y ((hdep x y).mp hxy).1
  dependent x y hxy := h.dependent x y ((hdep x y).mp hxy).1
  irrefl x hx := h.irrefl x ((hdep x x).mp hx).1

theorem unlink (d p : ServiceId) : Links present kind state (fun x y => dep x y ∧ ¬(x = d ∧ y = p))
      (fun x y => dee x y ∧ ¬(x = p ∧ y = d)) :=
  h.restrict (fun x y => ¬(x = d ∧ y = p)) (fun _ _ => Iff.rfl) fun x y => by
    rw [and_comm (a := x = p)]

theorem clear (d : ServiceId) : Links present kind state (fun x y => dep x y ∧ x ≠ d)
      (fun x y => dee x y ∧ ¬(y = d ∧ dep d x)) := by
  refine h.restrict (fun x _ => x ≠ d) (fun _ _ => Iff.rfl) fun x y => ?_
  constructor
  · rintro ⟨hxy, hn⟩
    exact ⟨hxy, fun hy => hn ⟨hy, hy ▸ h.back y x hxy⟩⟩
  · rintro ⟨hxy, hy⟩
    exact ⟨hxy, fun hn => hy hn.1⟩

theorem install (d : ServiceId) (m : LifecycleManager) (hd : state d = .uninstalled)
    (hself : d ≠ selfServiceId) (hm : m.state = .installed) :
    Links (fun x => present x ∨ x = d) (update kind d m.kind) (update state d m.state) dep dee := by
  have hdep : ∀ x y, dep x y → x ≠ d := fun x y hxy he => (h.dependent x y hxy).2 (he ▸ hd)
  have hprov : ∀ x y, dep x y → y ≠ selfServiceId → y ≠ d := by
    intro x y hxy hy he
    have hp := h.provider x y hxy hy
    rw [he, hd] at hp
    simp at hp
  exact {
    inTable := fun x => by
      by_cases hxd : x = d
      · rw [hxd, update_self, hm]
        simp
      · rw [update_of_ne hxd, ← h.inTable x]
        exact ⟨fun hx => hx.resolve_right hxd, .inl⟩
    __ := h
    provider := fun x y hxy hy => by
      rw [update_of_ne (hprov x y hxy hy)]
      exact h.provider x y hxy hy
    dependent := fun x y hxy => by
      rw [update_of_ne (hdep x y hxy), update_of_ne (hdep x y hxy)]
      exact h.dependent x y hxy
    noSelf := by
      rw [update_of_ne (Ne.symm hself)]
      exact h.noSelf
    internal := fun x hx => by
      by_cases hxd : x = d
      · rw [hxd, update_self, hm]
        simp
      · rw [update_of_ne hxd] at hx ⊢
        exact h.internal x hx }

theorem uninstall (d : ServiceId) (hdep : ∀ p, ¬dep d p) (hdee : ∀ x, ¬dee d x) :
    Links (fun x => present x ∧ x ≠ d) (update kind d .plain)
      (update state d .uninstalled) (fun x y => dep x y ∧ x ≠ d)
      (fun x y => dee x y ∧ x ≠ d) where
  inTable x := by
    by_cases hxd : x = d
    · rw [hxd, update_self]
      simp
    · rw [update_of_ne hxd, ← h.inTable x]
      exact ⟨And.left, fun hx => ⟨hx, hxd⟩⟩
  back x y hxy := ⟨h.back x y hxy.1, fun he => hdep y (he ▸ h.back x y hxy.1)⟩
  forth x y hxy hself := by
    have hyx := h.forth x y hxy.1 hself
    exact ⟨hyx, fun he => hdee x (he ▸ hyx)⟩
  provider x y hxy hself := by
    have hyd : y ≠ d := fun he => hdee x (he ▸ h.forth x y hxy.1 hself)
    rw [update_of_ne hyd]
    exact h.provider x y hxy.1 hself
  dependent x y hxy := by
    rw [update_of_ne hxy.2, update_of_ne hxy.2]
    exact h.dependent x y hxy.1
  irrefl x hx := h.irrefl x hx.1
  noSelf := by
    by_cases hd : selfServiceId = d
    · rw [hd, update_self]
    · rw [update_of_ne hd]
      exact h.noSelf
  internal x hx := by
    by_cases hxd : x = d
    · rw [hxd, update_self]
      exact .inl rfl
    · rw [update_of_ne hxd] at hx ⊢
      exact h.internal x hx

end

theorem empty : Links (fun _ => False) (fun _ => .plain) (fun _ => .uninstalled)
    (fun _ _ => False) (fun _ _ => False) :=
  ⟨fun _ => by simp, fun _ _ h => h, fun _ _ h _ => h, fun _ _ h => h.elim, fun _ _ h => h.elim,
    fun _ h => h, rfl, fun _ _ => .inl rfl⟩

end Links

end Ichor.Lifecycle
