import Mathlib.Data.List.Basic

/-! Streams of frames: a function that takes the next frame off the front of a buffer, and
the buffer drained by taking frames as long as there is one. If more text never changes the
next frame, it does not matter in which pieces a stream arrives. -/
namespace Framing

universe u v

/-- How the next frame is taken from a buffer of at most a given size. -/
structure Framer (α : Type u) (β : Type v) where
  next : List α → Option (β × List α)
  bound : ℕ
  shrinks : ∀ s b r, s.length ≤ bound → next s = some (b, r) → r.length < s.length
  stable : ∀ s t b r, (s ++ t).length ≤ bound → next s = some (b, r) →
    next (s ++ t) = some (b, r ++ t)

variable {α : Type u} {β : Type v}

namespace Framer

def drainFuel (F : Framer α β) : ℕ → List α → List β × List α
  | 0, s => ([], s)
  | n + 1, s =>
    match F.next s with
    | none => ([], s)
    | some (b, r) => (b :: (drainFuel F n r).1, (drainFuel F n r).2)

/-- The frames at the front of a buffer, and what is left. -/
def drain (F : Framer α β) (s : List α) : List β × List α := F.drainFuel (s.length + 1) s

/-- One more piece arrives. -/
def feed (F : Framer α β) (x : List β × List α) (piece : List α) : List β × List α :=
  (x.1 ++ (F.drain (x.2 ++ piece)).1, (F.drain (x.2 ++ piece)).2)

variable {F : Framer α β}

variable {s : List α}

theorem drainFuel_eq {n m : ℕ} (hs : s.length ≤ F.bound) (hn : s.length < n)
    (hm : s.length < m) : F.drainFuel n s = F.drainFuel m s := by
  induction n generalizing m s with
  | zero => omega
  | succ n ih =>
    cases m with
    | zero => omega
    | succ m =>
      cases hnext : F.next s with
      | none => simp [drainFuel, hnext]
      | some x =>
        obtain ⟨b, r⟩ := x
        have hlt := F.shrinks s b r hs hnext
        have hrest := ih (m := m) (s := r) (by omega) (by omega) (by omega)
        simp [drainFuel, hnext, hrest]

theorem drain_none (h : F.next s = none) : F.drain s = ([], s) := by
  simp [drain, drainFuel, h]

theorem drain_some {r : List α} {b : β} (hs : s.length ≤ F.bound) (h : F.next s = some (b, r)) :
    F.drain s = (b :: (F.drain r).1, (F.drain r).2) := by
  have hlt := F.shrinks s b r hs h
  have hfuel : F.drainFuel s.length r = F.drain r :=
    drainFuel_eq (by omega) hlt (by omega)
  rw [drain, drainFuel]
  simp [h, hfuel]

theorem drain_length (hs : s.length ≤ F.bound) : (F.drain s).2.length ≤ s.length := by
  induction hn : s.length using Nat.strongRecOn generalizing s with
  | _ n ih =>
    cases hnext : F.next s with
    | none => simp [drain_none hnext, hn]
    | some x =>
      obtain ⟨b, r⟩ := x
      have hlt := F.shrinks s b r hs hnext
      have hrest := ih r.length (by omega) (s := r) (by omega) rfl
      rw [drain_some hs hnext]
      show (F.drain r).2.length ≤ n
      omega

theorem next_drain (hs : s.length ≤ F.bound) : F.next (F.drain s).2 = none := by
  induction hn : s.length using Nat.strongRecOn generalizing s with
  | _ n ih =>
    cases hnext : F.next s with
    | none => rw [drain_none hnext]; exact hnext
    | some x =>
      obtain ⟨b, r⟩ := x
      have hlt := F.shrinks s b r hs hnext
      rw [drain_some hs hnext]
      exact ih r.length (by omega) (by omega) rfl

theorem drain_append {t : List α} (hst : (s ++ t).length ≤ F.bound) :
    F.drain (s ++ t) = F.feed (F.drain s) t := by
  induction hn : s.length using Nat.strongRecOn generalizing s with
  | _ n ih =>
    have hlen : s.length + t.length ≤ F.bound := by simpa using hst
    cases hnext : F.next s with
    | none => simp [feed, drain_none hnext]
    | some x =>
      obtain ⟨b, r⟩ := x
      have hlt := F.shrinks s b r (by omega) hnext
      have hbound : (r ++ t).length ≤ F.bound := by
        rw [List.length_append]
        omega
      rw [drain_some hst (F.stable s t b r hst hnext), drain_some (by omega) hnext,
        ih r.length (by omega) hbound rfl]
      rfl

end Framer

end Framing
