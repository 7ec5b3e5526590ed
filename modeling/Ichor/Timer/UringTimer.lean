import Ichor.Timer.Timer

/-! `IOUringTimer`: the timer is a timeout in the kernel's ring. Its state changes in the handlers of
the completions, and a stop is the request to remove the timeout. -/
namespace Ichor
open List

inductive TimeoutSubmission where
  | timeout (id : ℕ) (multishot : Bool)
  | remove (id : ℕ)
  deriving DecidableEq

/-- A completion: a timeout has expired or was cancelled, a removal was carried out or found no
timeout that it could remove (`-ENOENT`, `-EALREADY`). -/
inductive TimeoutCompletion where
  | expired
  | canceled
  | removed
  | missing (id : ℕ)
  deriving DecidableEq

structure UringTimer where
  state : TimerState
  fireOnce : Bool
  multishotCapable : Bool
  quitCbs : List StopCallback
  uringTimerId : ℕ
  nextId : ℕ
  /-- What was submitted, the timeouts that the kernel has, and its completions. -/
  sq : List TimeoutSubmission
  armed : List (ℕ × Bool)
  cq : List TimeoutCompletion
  starts : ℕ
  given : List StopCallback
  trace : List TimerRecord
  deriving DecidableEq

namespace UringTimer

def initial (multishotCapable : Bool) : UringTimer :=
  ⟨.stopped, false, multishotCapable, [], 0, 1, [], [], [], 0, [], []⟩

variable (s : UringTimer)

def arm (multishot : Bool) : UringTimer :=
  { s with
    sq := s.sq ++ [.timeout s.nextId multishot], uringTimerId := s.nextId, nextId := s.nextId + 1 }

def fire : UringTimer := { s with trace := .fired s.starts :: s.trace }

def startTimer (fireImmediately : Bool) : UringTimer :=
  if s.state = .stopped then
    let s := if ¬fireImmediately ∨ ¬s.fireOnce then s.arm (!s.fireOnce && s.multishotCapable) else s
    let s := { s with state := .running, starts := s.starts + 1 }
    if fireImmediately then s.fire else s
  else s

def stopTimer (cb : Option ℕ) : UringTimer :=
  let given := (cb.map fun id => (⟨id, s.starts⟩ : StopCallback)).toList
  if s.state = .running then
    { s with
      sq := s.sq ++ [.remove s.uringTimerId], quitCbs := s.quitCbs ++ given
      given := given ++ s.given, state := .stopping }
  else { s with given := given ++ s.given, trace := given.map .ran ++ s.trace }

/-- The handlers of `createNewHandler` and `createNewStopHandler`. -/
def handle : TimeoutCompletion → UringTimer
  | .expired =>
    if s.state = .stopping then s
    else if ¬s.fireOnce ∧ ¬s.multishotCapable then s.fire.arm false
    else s.fire
  | .canceled =>
    { s with state := .stopped, trace := (s.quitCbs.map TimerRecord.ran).reverse ++ s.trace }
  | .removed => s
  | .missing id => { s with sq := s.sq ++ [.remove id] }

inductive Act where
  | setFireOnce (fireOnce : Bool)
  | startTimer (fireImmediately : Bool)
  | stopTimer (cb : Option ℕ)
  /-- The kernel takes a submission; a removal may find its timeout busy, and posts its two completions
  in either order. -/
  | submit (busy canceledFirst : Bool)
  | expire (index : ℕ) (more : Bool)
  | handle

def act : Act → UringTimer → Option UringTimer
  | .setFireOnce fireOnce, s => some { s with fireOnce := fireOnce }
  | .startTimer fireImmediately, s => some (s.startTimer fireImmediately)
  | .stopTimer cb, s => some (s.stopTimer cb)
  | .submit busy canceledFirst, s =>
    match s.sq with
    | [] => none
    | .timeout id multishot :: rest => some { s with sq := rest, armed := s.armed ++ [(id, multishot)] }
    | .remove id :: rest =>
      if ¬busy ∧ id ∈ s.armed.map Prod.fst then
        some { s with
          sq := rest, armed := s.armed.filter fun t => t.1 ≠ id
          cq := s.cq ++ if canceledFirst then [.canceled, .removed] else [.removed, .canceled] }
      else some { s with sq := rest, cq := s.cq ++ [.missing id] }
  | .expire index more, s =>
    match s.armed[index]? with
    | none => none
    | some t =>
      if more ∧ ¬t.2 then none
      else some { s with
        armed := if more then s.armed else s.armed.eraseIdx index, cq := s.cq ++ [.expired] }
  | .handle, s =>
    match s.cq with
    | [] => none
    | cqe :: rest => some ({ s with cq := rest }.handle cqe)

def Reaches (multishotCapable : Bool) (condition : UringTimer → Act → Prop) (s : UringTimer) : Prop :=
  GuardedRuns.Run act condition (initial multishotCapable) s

/-- The removal at the head of the submissions finds its timeout in the kernel. -/
def finds (s : UringTimer) (busy : Bool) : Bool :=
  match s.sq with
  | .remove id :: _ => !busy && decide (id ∈ s.armed.map Prod.fst)
  | _ => true

/-- The timer is not fire-once when it fires, it has no callback of an earlier stop when it is stopped,
it is not stopped while it stops, and a removal finds its timeout. -/
def StopsOneByOne (s : UringTimer) : Act → Prop
  | .startTimer fireImmediately => fireImmediately = true → s.fireOnce = false
  | .stopTimer _ => s.state ≠ .stopping ∧ (s.state = .running → s.quitCbs = [])
  | .submit busy _ => s.finds busy = true
  | .handle => s.cq.head? = some .expired → s.state = .running → s.fireOnce = false
  | _ => True

instance (s : UringTimer) : DecidablePred s.StopsOneByOne
  | .setFireOnce _ | .expire _ _ => inferInstanceAs (Decidable True)
  | .startTimer _ => inferInstanceAs (Decidable (_ → _))
  | .stopTimer _ => inferInstanceAs (Decidable (_ ∧ _))
  | .submit _ _ => inferInstanceAs (Decidable (_ = _))
  | .handle => inferInstanceAs (Decidable (_ → _ → _))

/-! ## What the ring holds in each state -/

/-- A plain timeout repeats only where the kernel can repeat it. -/
def OnlyTimeouts (capable : Bool) (sq : List TimeoutSubmission) : Prop :=
  ∀ x ∈ sq, ∃ id multishot, x = .timeout id multishot ∧ (multishot = true → capable = true)

/-- Completions that leave a timer that stops as it is. -/
def Idle (cq : List TimeoutCompletion) : Prop := ∀ x ∈ cq, x = .expired ∨ x = .removed

/-- What the ring holds while the timer is stopped, runs, waits for its removal to be carried out and
waits for the handler of the cancellation. -/
inductive Phase (s : UringTimer) : Prop where
  | stopped (hstate : s.state = .stopped) (hsq : s.sq = []) (harmed : s.armed = [])
      (hcq : ∀ x ∈ s.cq, x = .removed) : Phase s
  | running (hstate : s.state = .running) (hsq : OnlyTimeouts s.multishotCapable s.sq)
      (harmed : ∀ t ∈ s.armed, t.2 = true → s.multishotCapable = true) (hcq : Idle s.cq)
      (hone : s.sq.length + s.armed.length +
        (if s.multishotCapable then 0 else s.cq.count .expired) ≤ 1) : Phase s
  | removing (hstate : s.state = .stopping) (l : List TimeoutSubmission)
      (hsq : s.sq = l ++ [.remove s.uringTimerId]) (hl : OnlyTimeouts s.multishotCapable l)
      (hone : l.length + s.armed.length ≤ 1) (hcq : Idle s.cq) : Phase s
  | canceled (hstate : s.state = .stopping) (hsq : s.sq = []) (harmed : s.armed = [])
      (before after : List TimeoutCompletion) (hcq : s.cq = before ++ .canceled :: after)
      (hbefore : Idle before) (hafter : ∀ x ∈ after, x = .removed) : Phase s

variable {s s' : UringTimer}

theorem Idle.append_expired {cq : List TimeoutCompletion} (h : Idle cq) : Idle (cq ++ [.expired]) := by
  intro x hx
  rcases mem_append.mp hx with hx | hx
  · exact h x hx
  · exact .inl (mem_singleton.mp hx)

variable {capable : Bool}

theorem OnlyTimeouts.append {multishot : Bool} {sq : List TimeoutSubmission}
    (h : OnlyTimeouts capable sq) (id : ℕ) (hmulti : multishot = true → capable = true) :
    OnlyTimeouts capable (sq ++ [.timeout id multishot]) := by
  intro x hx
  rcases mem_append.mp hx with hx | hx
  · exact h x hx
  · exact ⟨id, multishot, mem_singleton.mp hx, hmulti⟩

theorem Phase.startTimer (h : s.Phase) (fireImmediately : Bool) :
    (s.startTimer fireImmediately).Phase := by
  unfold UringTimer.startTimer
  split_ifs with hstate harm hf hf
  all_goals try exact h
  all_goals
    cases h with
    | stopped _ hsq harmed hcq =>
      have hcount : s.cq.count .expired = 0 :=
        count_eq_zero.mpr fun hx => TimeoutCompletion.noConfusion (hcq _ hx)
      refine .running rfl ?_ ?_ (fun x hx => .inr (hcq x hx)) ?_
      · have hnil : OnlyTimeouts s.multishotCapable s.sq := by simp [OnlyTimeouts, hsq]
        first
          | exact hnil.append _ fun h => (Bool.and_eq_true_iff.mp h).2
          | exact hnil
      all_goals simp [arm, fire, hsq, harmed, hcount]
    | running hrun | removing hrun | canceled hrun => exact absurd (hstate.symm.trans hrun) nofun

theorem Phase.stopTimer (h : s.Phase) (cb : Option ℕ) : (s.stopTimer cb).Phase := by
  unfold UringTimer.stopTimer
  cases h with
  | stopped hstate hsq harmed hcq =>
    rw [if_neg (by rw [hstate]; nofun)]
    exact .stopped hstate hsq harmed hcq
  | running hstate hsq harmed hcq hone =>
    rw [if_pos hstate]
    exact .removing rfl s.sq rfl hsq (Nat.le_trans (Nat.le_add_right _ _) hone) hcq
  | removing hstate l hsq hl hone hcq =>
    rw [if_neg (by rw [hstate]; nofun)]
    exact .removing hstate l hsq hl hone hcq
  | canceled hstate hsq harmed before after hcq hbefore hafter =>
    rw [if_neg (by rw [hstate]; nofun)]
    exact .canceled hstate hsq harmed before after hcq hbefore hafter

variable {busy first : Bool}

theorem Phase.submit (h : s.Phase) (hfinds : s.finds busy = true)
    (hs : act (.submit busy first) s = some s') : s'.Phase := by
  simp only [act] at hs
  cases h with
  | stopped _ hsq | canceled _ hsq =>
    rw [hsq] at hs
    cases hs
  | running hstate hsq harmed hcq hone =>
    cases hhead : s.sq with
    | nil =>
      rw [hhead] at hs
      cases hs
    | cons x rest =>
      obtain ⟨id, multishot, rfl, hmulti⟩ := hsq x (by rw [hhead]; exact mem_cons_self)
      rw [hhead] at hs hsq hone
      cases hs
      refine .running hstate (fun y hy => hsq y (mem_cons_of_mem _ hy)) ?_ hcq ?_
      · intro t ht
        rcases mem_append.mp ht with ht | ht
        · exact harmed t ht
        · rw [mem_singleton.mp ht]
          exact hmulti
      · simp only [length_append, length_cons, length_nil] at hone ⊢
        omega
  | removing hstate l hsq hl hone hcq =>
    cases l with
    | nil =>
      have hfound : busy = false ∧ s.uringTimerId ∈ s.armed.map Prod.fst := by
        simpa [finds, hsq] using hfinds
      rw [hsq] at hs
      simp only [nil_append] at hs
      rw [if_pos ⟨by simp [hfound.1], hfound.2⟩] at hs
      cases hs
      -- The only timeout is the one that is removed.
      obtain ⟨t, ht, hid⟩ := mem_map.mp hfound.2
      have hone : s.armed = [t] := by
        obtain ⟨u, hu⟩ := length_eq_one_iff.mp
          (Nat.le_antisymm (by simpa using hone) (length_pos_of_mem ht))
        rw [hu] at ht ⊢
        rw [mem_singleton.mp ht]
      have hremoved : ∀ x ∈ [TimeoutCompletion.removed], x = .removed := by simp
      cases first with
      | true =>
        exact .canceled hstate rfl (by simp [hone, hid]) s.cq [.removed] rfl hcq hremoved
      | false =>
        refine .canceled hstate rfl (by simp [hone, hid]) (s.cq ++ [.removed]) [] (by simp) ?_ (by simp)
        intro x hx
        rcases mem_append.mp hx with hx | hx
        · exact hcq x hx
        · exact .inr (hremoved x hx)
    | cons x rest =>
      obtain ⟨id, multishot, rfl, -⟩ := hl x mem_cons_self
      rw [hsq] at hs
      cases hs
      refine .removing hstate rest rfl (fun y hy => hl y (mem_cons_of_mem _ hy)) ?_ hcq
      simp only [length_append, length_cons, length_nil] at hone ⊢
      omega

variable {index : ℕ} {more : Bool}

theorem Phase.expire (h : s.Phase) (hs : act (.expire index more) s = some s') : s'.Phase := by
  simp only [act] at hs
  cases hget : s.armed[index]? with
  | none =>
    rw [hget] at hs
    cases hs
  | some t =>
    rw [hget] at hs
    simp only at hs
    by_cases hmore : more ∧ ¬t.2
    · rw [if_pos hmore] at hs
      cases hs
    rw [if_neg hmore] at hs
    cases hs
    have hmem := mem_of_getElem? hget
    have hlen : (if more then s.armed else s.armed.eraseIdx index).length + (if more then 0 else 1) =
        s.armed.length := by
      cases more with
      | true => rfl
      | false =>
        have hlt := (List.getElem?_eq_some_iff.mp hget).1
        simp only [Bool.false_eq_true, if_false, List.length_eraseIdx_of_lt hlt]
        omega
    cases h with
    | stopped _ _ harmed | canceled _ _ harmed =>
      rw [harmed] at hmem
      cases hmem
    | running hstate hsq harmed hcq hone =>
      refine .running hstate hsq ?_ hcq.append_expired ?_
      · intro u hu
        refine harmed u ?_
        dsimp only at hu
        split_ifs at hu
        · exact hu
        · exact mem_of_mem_eraseIdx hu
      · show s.sq.length + _ + (if s.multishotCapable then 0
          else (s.cq ++ [TimeoutCompletion.expired]).count .expired) ≤ 1
        cases hcap : s.multishotCapable with
        | true =>
          rw [hcap] at hone
          simp only [if_true] at hone ⊢
          omega
        | false =>
          -- Without multishot the timeout that expires leaves the kernel.
          have hsingle : more = false := by
            cases more with
            | false => rfl
            | true => exact absurd (harmed t hmem (by simpa using hmore)) (by simp [hcap])
          subst hsingle
          rw [hcap] at hone
          simp only [count_append, count_singleton_self, Bool.false_eq_true, if_false]
            at hone hlen ⊢
          omega
    | removing hstate l hsq hl hone hcq =>
      refine .removing hstate l hsq hl ?_ hcq.append_expired
      dsimp only
      omega

theorem Phase.handle (h : s.Phase) (hs : act .handle s = some s') : s'.Phase := by
  simp only [act] at hs
  cases hhead : s.cq with
  | nil =>
    rw [hhead] at hs
    cases hs
  | cons cqe rest =>
    rw [hhead] at hs
    cases hs
    cases h with
    | stopped hstate hsq harmed hcq =>
      rw [hhead] at hcq
      rw [hcq cqe mem_cons_self]
      exact .stopped hstate hsq harmed fun x hx => hcq x (mem_cons_of_mem _ hx)
    | running hstate hsq harmed hcq hone =>
      rw [hhead] at hcq hone
      have hrest : Idle rest := fun x hx => hcq x (mem_cons_of_mem _ hx)
      rcases hcq cqe mem_cons_self with rfl | rfl
      · rw [count_cons_self] at hone
        simp only [UringTimer.handle]
        rw [if_neg (by rw [hstate]; nofun)]
        split_ifs with harm
        · rw [if_neg harm.2] at hone
          refine .running hstate (hsq.append _ nofun) harmed hrest ?_
          show (s.sq ++ [_]).length + s.armed.length + (if s.multishotCapable then 0
            else rest.count .expired) ≤ 1
          rw [if_neg harm.2, length_append, length_singleton]
          omega
        · refine .running hstate hsq harmed hrest (Nat.le_trans (Nat.add_le_add_left ?_ _) hone)
          show (if s.multishotCapable then 0 else rest.count .expired) ≤ _
          split_ifs
          · exact Nat.le_refl 0
          · exact Nat.le_succ _
      · rw [count_cons_of_ne (by decide)] at hone
        exact .running hstate hsq harmed hrest hone
    | removing hstate l hsq hl hone hcq =>
      rw [hhead] at hcq
      have hrest : Idle rest := fun x hx => hcq x (mem_cons_of_mem _ hx)
      rcases hcq cqe mem_cons_self with rfl | rfl
      · simp only [UringTimer.handle]
        rw [if_pos hstate]
        exact .removing hstate l hsq hl hone hrest
      · exact .removing hstate l hsq hl hone hrest
    | canceled hstate hsq harmed before after hcq hbefore hafter =>
      cases before with
      | nil =>
        rw [hhead] at hcq
        cases hcq
        exact .stopped rfl hsq harmed hafter
      | cons x before =>
        rw [hhead] at hcq
        cases hcq
        have hrest : Idle before := fun x hx => hbefore x (mem_cons_of_mem _ hx)
        rcases hbefore cqe mem_cons_self with rfl | rfl
        · simp only [UringTimer.handle]
          rw [if_pos hstate]
          exact .canceled hstate hsq harmed before after rfl hrest hafter
        · exact .canceled hstate hsq harmed before after rfl hrest hafter

/-! ## What a step does to the books -/

theorem submitted (hs : act (.submit busy first) s = some s') :
    ∃ x armed cq, s.sq = x :: s.sq.tail ∧ s' = { s with sq := s.sq.tail, armed := armed, cq := cq } := by
  simp only [act] at hs
  cases hhead : s.sq with
  | nil =>
    rw [hhead] at hs
    cases hs
  | cons x rest =>
    rw [hhead] at hs
    cases x with
    | timeout id multishot => exact ⟨_, _, _, rfl, (Option.some.inj hs).symm⟩
    | remove id =>
      simp only at hs
      split_ifs at hs
      all_goals exact ⟨_, _, _, rfl, (Option.some.inj hs).symm⟩

theorem expired (hs : act (.expire index more) s = some s') :
    s.armed ≠ [] ∧ ∃ armed, s' = { s with armed := armed, cq := s.cq ++ [.expired] } := by
  simp only [act] at hs
  cases hget : s.armed[index]? with
  | none =>
    rw [hget] at hs
    cases hs
  | some t =>
    rw [hget] at hs
    have harmed := ne_nil_of_mem (mem_of_getElem? hget)
    simp only at hs
    split_ifs at hs
    all_goals exact ⟨harmed, _, (Option.some.inj hs).symm⟩

theorem Phase.handled (h : s.Phase) (hs : act .handle s = some s') :
    ∃ cqe, s.cq = cqe :: s.cq.tail ∧ (s' = { s with cq := s.cq.tail } ∨
      (s.state = .running ∧ ∃ sq id next, s' = { s with
        cq := s.cq.tail, sq := sq, uringTimerId := id, nextId := next
        trace := .fired s.starts :: s.trace }) ∨
      (s.state = .stopping ∧ s' = { s with
        cq := s.cq.tail, state := .stopped
        trace := (s.quitCbs.map TimerRecord.ran).reverse ++ s.trace })) := by
  simp only [act] at hs
  cases hhead : s.cq with
  | nil =>
    rw [hhead] at hs
    cases hs
  | cons cqe rest =>
    rw [hhead] at hs
    refine ⟨cqe, rfl, ?_⟩
    have hmem : cqe ∈ s.cq := hhead ▸ mem_cons_self
    cases cqe with
    | removed => exact .inl (Option.some.inj hs).symm
    | expired =>
      cases h with
      | stopped _ _ _ hcq => exact nomatch hcq _ hmem
      | running hstate =>
        simp only [UringTimer.handle] at hs
        rw [if_neg (by rw [hstate]; nofun)] at hs
        split_ifs at hs
        all_goals exact .inr (.inl ⟨hstate, _, _, _, (Option.some.inj hs).symm⟩)
      | removing hstate | canceled hstate =>
        simp only [UringTimer.handle] at hs
        rw [if_pos hstate] at hs
        exact .inl (Option.some.inj hs).symm
    | canceled =>
      cases h with
      | stopped _ _ _ hcq => exact nomatch hcq _ hmem
      | running _ _ _ hcq | removing _ _ _ _ _ hcq => exact absurd (hcq _ hmem) nofun
      | canceled hstate => exact .inr (.inr ⟨hstate, (Option.some.inj hs).symm⟩)
    | missing id =>
      cases h with
      | stopped _ _ _ hcq => exact nomatch hcq _ hmem
      | running _ _ _ hcq | removing _ _ _ _ _ hcq => exact absurd (hcq _ hmem) nofun
      | canceled _ _ _ before after hcq hbefore hafter =>
        rw [hcq] at hmem
        rcases mem_append.mp hmem with hmem | hmem
        · exact absurd (hbefore _ hmem) nofun
        · rcases mem_cons.mp hmem with hx | hmem
          · cases hx
          · exact nomatch hafter _ hmem

/-- Callbacks of the stop that is under way. -/
def waiting (s : UringTimer) : List StopCallback := if s.state = .stopping then s.quitCbs else []

def ran (s : UringTimer) : List StopCallback := s.trace.filterMap TimerRecord.callback

def Kept (s : UringTimer) : Prop :=
  Timer.Contract s.waiting s.given s.starts (s.state ≠ .running) s.trace

theorem Kept.startTimer (h : s.Kept) (fireImmediately : Bool) : (s.startTimer fireImmediately).Kept := by
  have hstart : s.state = .stopped →
      Timer.Contract [] s.given (s.starts + 1) (TimerState.running ≠ .running) s.trace := by
    intro hstate
    unfold Kept waiting at h
    rw [if_neg (by rw [hstate]; nofun)] at h
    exact h.start
  unfold UringTimer.startTimer
  split_ifs with hstate
  all_goals first
    | exact h
    | exact hstart hstate
    | exact (hstart hstate).fire fun hne => hne rfl

theorem Kept.stopTimer (h : s.Kept) (cb : Option ℕ) (hidle : s.state ≠ .stopping)
    (hcbs : s.state = .running → s.quitCbs = []) : (s.stopTimer cb).Kept := by
  have hgiven : ∀ c ∈ (cb.map fun id => (⟨id, s.starts⟩ : StopCallback)).toList, c.start = s.starts := by
    cases cb
    all_goals simp
  unfold Kept waiting at h
  rw [if_neg hidle] at h
  unfold UringTimer.stopTimer
  dsimp only
  split_ifs with hstate
  · have hgive : Timer.Contract _ _ _ (TimerState.stopping ≠ .running) _ := h.give hgiven nofun
    rw [append_nil] at hgive
    unfold Kept waiting
    dsimp only
    rw [if_pos rfl, hcbs hstate]
    exact hgive
  · unfold Kept waiting
    dsimp only
    rw [if_neg hidle]
    exact (h.give hgiven hstate).ran (.refl _)

variable {a : Act}

theorem Kept.act (h : s.Kept) (hp : s.Phase) (hg : s.StopsOneByOne a)
    (hs : act a s = some s') : s'.Kept := by
  cases a with
  | setFireOnce fireOnce =>
    cases hs
    exact h
  | startTimer fireImmediately =>
    cases hs
    exact h.startTimer fireImmediately
  | stopTimer cb =>
    cases hs
    exact h.stopTimer cb hg.1 hg.2
  | submit busy first =>
    obtain ⟨_, armed, cq, -, rfl⟩ := submitted hs
    exact h
  | expire index more =>
    obtain ⟨-, armed, rfl⟩ := expired hs
    exact h
  | handle =>
    obtain ⟨_, -, rfl | ⟨hstate, sq, id, next, rfl⟩ | ⟨hstate, rfl⟩⟩ := hp.handled hs
    · exact h
    · exact h.fire (not_not.mpr hstate)
    · unfold Kept waiting at h
      rw [if_pos hstate, ← append_nil s.quitCbs] at h
      exact (h.imp fun _ => nofun).ran (reverse_perm _)

theorem phase_of_reaches (h : Reaches capable StopsOneByOne s) : s.Phase ∧ s.Kept := by
  refine h.invariant (fun s => s.Phase ∧ s.Kept) ?_ ?_
  · exact ⟨.stopped rfl rfl rfl nofun, .refl _, nofun, .nil⟩
  · rintro s a s' ⟨hp, hk⟩ hg hs
    refine ⟨?_, hk.act hp hg hs⟩
    cases a with
    | setFireOnce fireOnce =>
      cases hs
      cases hp with
      | stopped h1 h2 h3 h4 => exact .stopped h1 h2 h3 h4
      | running h1 h2 h3 h4 h5 => exact .running h1 h2 h3 h4 h5
      | removing h1 l h2 h3 h4 h5 => exact .removing h1 l h2 h3 h4 h5
      | canceled h1 h2 h3 before after h4 h5 h6 => exact .canceled h1 h2 h3 before after h4 h5 h6
    | startTimer fireImmediately =>
      cases hs
      exact hp.startTimer fireImmediately
    | stopTimer cb =>
      cases hs
      exact hp.stopTimer cb
    | submit busy first => exact hp.submit hg hs
    | expire index more => exact hp.expire hs
    | handle => exact hp.handle hs

/-! ## The contract -/

def fired (s : UringTimer) : List TimerRecord := s.trace.filter fun r => r.callback.isNone

/-- The kernel takes a submission, or a handler runs. -/
def Act.ofRing : Act → Bool
  | .submit _ _ | .handle => true
  | _ => false

/-- A step of a timer that stops: it does not fire or submit anything, and the kernel and the handlers
use up what there is. -/
structure Winding (s : UringTimer) (a : Act) (s' : UringTimer) : Prop where
  state : s'.state = .stopping ∨ s'.state = .stopped
  fired : s'.fired = s.fired
  sq : s'.sq <:+ s.sq
  nearer : a.ofRing = true → s'.sq ≠ s.sq ∨ s'.cq.length < s.cq.length

theorem Phase.winding (h : s.Phase) (hstate : s.state = .stopping) (hg : s.StopsOneByOne a)
    (hs : act a s = some s') : Winding s a s' := by
  cases a with
  | setFireOnce fireOnce =>
    cases hs
    exact ⟨.inl hstate, rfl, suffix_rfl, nofun⟩
  | startTimer fireImmediately =>
    have heq : s.startTimer fireImmediately = s := by
      unfold UringTimer.startTimer
      rw [if_neg (by rw [hstate]; nofun)]
    cases hs
    rw [heq]
    exact ⟨.inl hstate, rfl, suffix_rfl, nofun⟩
  | stopTimer cb => exact absurd hstate hg.1
  | submit busy first =>
    obtain ⟨x, armed, cq, hsq, rfl⟩ := submitted hs
    refine ⟨.inl hstate, rfl, tail_suffix _, fun _ => .inl fun heq => ?_⟩
    exact cons_ne_self x s.sq.tail (hsq.symm.trans heq.symm)
  | expire index more =>
    obtain ⟨-, armed, rfl⟩ := expired hs
    exact ⟨.inl hstate, rfl, suffix_rfl, nofun⟩
  | handle =>
    obtain ⟨cqe, hcq, hs'⟩ := h.handled hs
    have hlt : s.cq.tail.length < s.cq.length := by
      rw [hcq]
      exact Nat.lt_succ_self _
    rcases hs' with rfl | ⟨hrun, -⟩ | ⟨-, rfl⟩
    · exact ⟨.inl hstate, rfl, suffix_rfl, fun _ => .inr hlt⟩
    · exact absurd (hstate.symm.trans hrun) nofun
    · refine ⟨.inr rfl, ?_, suffix_rfl, fun _ => .inr hlt⟩
      simp [UringTimer.fired, TimerRecord.callback, filter_reverse, filter_map]

theorem Phase.ran_or (h : s.Phase) (hg : s.StopsOneByOne a) (hs : act a s = some s') :
    s'.ran = s.ran ∨ s'.state = .stopped := by
  cases a with
  | setFireOnce fireOnce =>
    cases hs
    exact .inl rfl
  | startTimer fireImmediately =>
    cases hs
    refine .inl ?_
    unfold UringTimer.startTimer
    split_ifs
    all_goals rfl
  | stopTimer cb =>
    cases hs
    unfold UringTimer.stopTimer
    split_ifs with hrun
    · exact .inl rfl
    · cases h with
      | stopped hstate => exact .inr hstate
      | running hstate => exact absurd hstate hrun
      | removing hstate | canceled hstate => exact absurd hstate hg.1
  | submit busy first =>
    obtain ⟨_, armed, cq, -, rfl⟩ := submitted hs
    exact .inl rfl
  | expire index more =>
    obtain ⟨-, armed, rfl⟩ := expired hs
    exact .inl rfl
  | handle =>
    obtain ⟨_, -, rfl | ⟨-, sq, id, next, rfl⟩ | ⟨-, rfl⟩⟩ := h.handled hs
    · exact .inl rfl
    · exact .inl rfl
    · exact .inr rfl

/-- The contract of the timer: after a callback it fires for a later start only; each callback waits
for its stop or has run, and runs in a step after which the timer is stopped; and a timer that stops
winds down, where nothing expires any more once the kernel has taken the removal. -/
theorem uring_contract {capable : Bool} (h : Reaches capable StopsOneByOne s) :
    Timer.NoFiringBehind s.trace ∧ (s.waiting ++ s.ran).Perm s.given ∧
      (∀ a s', s.StopsOneByOne a → act a s = some s' → s'.ran = s.ran ∨ s'.state = .stopped) ∧
      (s.state = .stopping → (s.sq = [] → s.armed = [] ∧ s.cq ≠ []) ∧
        ∀ a s', s.StopsOneByOne a → act a s = some s' → Winding s a s') := by
  obtain ⟨hp, hk⟩ := phase_of_reaches h
  refine ⟨hk.quiet, hk.place, fun a s' => hp.ran_or, fun hstate => ⟨fun hsq => ?_, fun a s' =>
    hp.winding hstate⟩⟩
  cases hp with
  | stopped hs | running hs => exact absurd (hs.symm.trans hstate) nofun
  | removing _ l hl => exact absurd (hl.symm.trans hsq) (append_ne_nil_of_right_ne_nil l nofun)
  | canceled _ _ harmed before after hcq =>
    refine ⟨harmed, ?_⟩
    rw [hcq]
    exact append_ne_nil_of_right_ne_nil before nofun

/-- A timer without multishot that fires at once and at its first expiry, and is then stopped. -/
theorem uring_contract_repeating : ∃ s, Reaches false StopsOneByOne s ∧
    s.trace = [.ran ⟨7, 1⟩, .fired 1, .fired 1] ∧ Timer.NoFiringBehind s.trace := by
  have hplay : (GuardedRuns.exec act (fun s a => decide (s.StopsOneByOne a))
      [.startTimer true, .submit false true, .expire 0 false, .handle, .submit false true,
        .stopTimer (some 7), .submit false false, .handle, .handle] (initial false)).map trace =
      some [.ran ⟨7, 1⟩, .fired 1, .fired 1] := by decide
  obtain ⟨s, hs, htrace⟩ := Option.map_eq_some_iff.mp hplay
  have hreach : Reaches false StopsOneByOne s :=
    GuardedRuns.exec_run _ _ _ (fun _ _ h => of_decide_eq_true h) hs
  exact ⟨s, hreach, htrace, (uring_contract hreach).1⟩

/-- A fire-once timer that has fired still runs, with nothing left in the ring; and where the timeout
expires before the removal is taken, the removal is submitted again for ever. -/
theorem removal_resubmitted :
    (∃ s, Reaches true (fun _ _ => True) s ∧ s.fireOnce = true ∧ s.trace = [.fired 1] ∧
      s.state = .running ∧ s.sq = [] ∧ s.armed = [] ∧ s.cq = []) ∧
      ∃ s, Reaches false (fun _ _ => True) s ∧ s.state = .stopping ∧ s.armed = [] ∧
        ∀ first, GuardedRuns.exec act (fun _ _ => true) [.submit false first, .handle] s = some s := by
  refine ⟨⟨_, GuardedRuns.run_exec [.setFireOnce true, .startTimer false, .submit false true,
      .expire 0 false, .handle] rfl, rfl, rfl, rfl, rfl, rfl, rfl⟩,
    _, GuardedRuns.run_exec [.startTimer false, .submit false true, .expire 0 false,
      .stopTimer (some 7), .handle] rfl, rfl, rfl, ?_⟩
  decide

end UringTimer

end Ichor
