import Ichor.Io.SharedOverThreads
import Mathlib.Data.List.Perm.Basic

/-! What the shared I/O thread guarantees, and under which condition: each submission is in one place
on its way to the coroutine that waits for it. -/
namespace Ichor
open List

universe u

/-- The submission that the thread has taken from the queue. -/
def IoPhase.taken : IoPhase → List ℕ
  | .run id => [id]
  | .push id => [id]
  | _ => []

/-- The submission that the thread has run, but whose event it has not pushed. -/
def IoPhase.hasRun : IoPhase → List ℕ
  | .push id => [id]
  | _ => []

/-- The steps that the thread makes before it is back at the queue. -/
def IoPhase.delay : IoPhase → ℕ
  | .check => 1
  | .drain => 0
  | .run _ => 2
  | .push _ => 1
  | .sleep => 2
  | .done => 0

namespace SharedIo

variable {ω : Type u} {world : ω}

section
variable {loopOf : ℕ → ℕ} {s t : SharedIo ω}

/-! ## The thread and its owner -/

/-- The thread belongs to an instance that is started, and as long as submissions wait it is not
told to stop. -/
structure Owned (s : SharedIo ω) : Prop where
  owner : ∀ thread, s.ioThread = some thread → thread.owner ∈ s.users
  initialized : s.initialized = s.ioThread.isSome
  done : ∀ thread, s.ioThread = some thread → thread.phase = .done → thread.owner ∈ s.shouldStop
  waiting : s.evts ≠ [] → ∃ thread, s.ioThread = some thread ∧ thread.owner ∉ s.shouldStop

theorem Owned.idle (h : Owned s) (hnone : s.ioThread = none) : s.evts = [] := by
  by_contra hne
  obtain ⟨thread, hthread, -⟩ := h.waiting hne
  rw [hnone] at hthread
  cases hthread

theorem Owned.none (h : Owned s) (hinit : s.initialized = false) : s.ioThread = none := by
  have hsome := h.initialized
  rw [hinit] at hsome
  exact Option.isNone_iff_eq_none.mp (by simpa using hsome.symm)

theorem Owned.goTo {thread : IoThread} {phase : IoPhase} (h : Owned s)
    (hthread : s.ioThread = some thread) (husers : t.users = s.users)
    (hinit : t.initialized = s.initialized) (hstop : t.shouldStop = s.shouldStop)
    (hevts : t.evts ≠ [] → s.evts ≠ []) (hdone : phase = .done → thread.owner ∈ s.shouldStop) :
    Owned (t.goTo thread phase) where
  owner := by
    intro thread' hthread'
    obtain rfl := Option.some.inj hthread'
    show thread.owner ∈ t.users
    rw [husers]
    exact h.owner thread hthread
  initialized := by
    show t.initialized = true
    rw [hinit, h.initialized, hthread]
    rfl
  done := by
    intro thread' hthread' hphase
    obtain rfl := Option.some.inj hthread'
    show thread.owner ∈ t.shouldStop
    rw [hstop]
    exact hdone hphase
  waiting := by
    intro hne
    obtain ⟨thread', hthread', howner⟩ := h.waiting (hevts hne)
    rw [hthread] at hthread'
    cases hthread'
    refine ⟨_, rfl, ?_⟩
    show thread.owner ∉ t.shouldStop
    rw [hstop]
    exact howner

theorem runSubmission_frame (s : SharedIo ω) (id : ℕ) :
    (s.runSubmission id).users = s.users ∧ (s.runSubmission id).initialized = s.initialized ∧
    (s.runSubmission id).shouldStop = s.shouldStop ∧ (s.runSubmission id).evts = s.evts := by
  unfold runSubmission
  split <;> exact ⟨rfl, rfl, rfl, rfl⟩

variable {a : Act ω} {id loop : ℕ} {submission : IoSubmission ω}

theorem Owned.step (h : Owned s) (ha : SubmitsToRunning loopOf s a)
    (hmove : Moves loopOf s a t) : Owned t := by
  cases hmove with
  | begins user hinit =>
    refine ⟨?_, rfl, ?_, fun hne => absurd (h.idle (h.none hinit)) hne⟩
    · intro thread hthread
      obtain rfl := Option.some.inj hthread
      exact mem_cons_self
    · intro thread hthread hphase
      obtain rfl := Option.some.inj hthread
      cases hphase
  | joins user hinit =>
    exact { h with owner := fun thread hthread => mem_cons_of_mem _ (h.owner thread hthread) }
  | stops thread hthread huser =>
    refine ⟨h.owner, h.initialized, fun thread' hthread' hphase => ?_, fun hne => ?_⟩
    · exact mem_cons_of_mem _ (h.done thread' hthread' hphase)
    · exact absurd (ha thread hthread rfl) hne
  | leaves user hother =>
    refine ⟨fun thread hthread => ?_, h.initialized, h.done, h.waiting⟩
    exact (mem_erase_of_ne (hother thread hthread)).mpr (h.owner thread hthread)
  | joined thread hthread hphase =>
    refine ⟨nofun, rfl, nofun, fun hne => ?_⟩
    obtain ⟨thread', hthread', howner⟩ := h.waiting hne
    rw [hthread] at hthread'
    cases hthread'
    exact absurd (h.done thread hthread hphase) howner
  | submits user fn =>
    obtain ⟨thread, hthread, howner, -⟩ := ha
    exact { h with waiting := fun _ => ⟨thread, hthread, howner⟩ }
  | checks thread hthread hphase =>
    refine h.goTo hthread rfl rfl rfl id fun hdone => ?_
    split at hdone
    · assumption
    · cases hdone
  | rests thread hthread hphase hevts => exact h.goTo hthread rfl rfl rfl id nofun
  | takes thread id rest hthread hphase hevts =>
    refine h.goTo hthread rfl rfl rfl (fun _ => ?_) nofun
    rw [hevts]
    exact cons_ne_nil _ _
  | runs thread id hthread hphase =>
    obtain ⟨husers, hinit, hstop, hevts⟩ := runSubmission_frame s id
    exact h.goTo hthread husers hinit hstop (fun hne => hevts ▸ hne) nofun
  | pushes thread id hthread hphase | wakes thread hthread hphase =>
    exact h.goTo hthread rfl rfl rfl (fun hne => hne) nofun
  | resumes index loop id submission hqueued hsubmission => exact { h with }

/-! ## Each submission is in one place -/

def taken (s : SharedIo ω) : List ℕ :=
  match s.ioThread with
  | some thread => thread.phase.taken
  | none => []

def hasRun (s : SharedIo ω) : List ℕ :=
  match s.ioThread with
  | some thread => thread.phase.hasRun
  | none => []

theorem taken_of {thread : IoThread} (h : s.ioThread = some thread) :
    s.taken = thread.phase.taken := by
  rw [taken, h]

theorem mem_taken {thread : IoThread} (h : s.ioThread = some thread)
    (hphase : thread.phase = .run id ∨ thread.phase = .push id) : id ∈ s.taken := by
  rw [taken_of h]
  rcases hphase with hphase | hphase
  · rw [hphase]
    exact mem_cons_self
  · rw [hphase]
    exact mem_cons_self

theorem hasRun_of {thread : IoThread} (h : s.ioThread = some thread) :
    s.hasRun = thread.phase.hasRun := by
  rw [hasRun, h]

/-- A submission waits, or is with the thread, or its event waits, or its coroutine was resumed;
what the thread is done with was run once. -/
structure Placed (s : SharedIo ω) : Prop where
  places : ∀ id, s.evts.count id + s.taken.count id + (s.queued.map Prod.snd).count id +
    (s.resumed.map Prod.fst).count id = if id < s.submissions.length then 1 else 0
  once : ∀ id, (s.ran.map Prod.fst).count id = s.hasRun.count id +
    (s.queued.map Prod.snd).count id + (s.resumed.map Prod.fst).count id

/-- Nothing moves while the thread goes from one phase to another that holds the same. -/
theorem Placed.same (h : Placed s) (htaken : t.taken = s.taken) (hrun : t.hasRun = s.hasRun)
    (hevts : t.evts = s.evts) (hqueued : t.queued = s.queued) (hresumed : t.resumed = s.resumed)
    (hran : t.ran = s.ran) (hsubmissions : t.submissions = s.submissions) : Placed t := by
  refine ⟨fun id => ?_, fun id => ?_⟩
  · rw [htaken, hevts, hqueued, hresumed, hsubmissions]
    exact h.places id
  · rw [hrun, hran, hqueued, hresumed]
    exact h.once id

theorem Placed.goTo (h : Placed s) {thread : IoThread} {phase : IoPhase}
    (hthread : s.ioThread = some thread) (htaken : phase.taken = thread.phase.taken)
    (hrun : phase.hasRun = thread.phase.hasRun) : Placed (s.goTo thread phase) :=
  h.same (htaken.trans (taken_of hthread).symm) (hrun.trans (hasRun_of hthread).symm) rfl rfl rfl
    rfl rfl

theorem Placed.lt (h : Placed s) (hid : id ∈ s.evts ∨ id ∈ s.taken) :
    id < s.submissions.length := by
  by_contra hnot
  have hplaces := h.places id
  rw [if_neg hnot] at hplaces
  rcases hid with hid | hid
  · have hpos := count_pos_iff.mpr hid
    omega
  · have hpos := count_pos_iff.mpr hid
    omega

theorem Placed.queued_lt (h : Placed s) (hid : (loop, id) ∈ s.queued) :
    id < s.submissions.length := by
  by_contra hnot
  have hplaces := h.places id
  have hmem : id ∈ s.queued.map Prod.snd := mem_map.mpr ⟨_, hid, rfl⟩
  have hpos := count_pos_iff.mpr hmem
  rw [if_neg hnot] at hplaces
  omega

theorem runSubmission_of (h : s.submissions[id]? = some submission) :
    s.runSubmission id = { s with
      submissions := s.submissions.set id { submission with result := (submission.fn s.world).1 }
      world := (submission.fn s.world).2
      ran := s.ran ++ [(id, s.world, (submission.fn s.world).1)] } := by
  unfold runSubmission
  rw [h]

theorem count_eraseIdx {index : ℕ} {l : List (ℕ × ℕ)} (h : l[index]? = some (loop, id))
    (id' : ℕ) : ((l.eraseIdx index).map Prod.snd).count id' + [id].count id' =
      (l.map Prod.snd).count id' := by
  obtain ⟨hlt, hget⟩ := List.getElem?_eq_some_iff.mp h
  have hcount := ((List.getElem_cons_eraseIdx_perm hlt).map Prod.snd).count_eq id'
  rw [List.map_cons, List.count_cons, hget] at hcount
  rw [List.count_singleton]
  exact hcount

theorem Placed.step (h : Placed s) (howned : Owned s) (hmove : Moves loopOf s a t) : Placed t := by
  cases hmove with
  | begins user hinit =>
    have hnone := howned.none hinit
    exact h.same (by rw [taken, taken, hnone]; rfl) (by rw [hasRun, hasRun, hnone]; rfl) rfl rfl rfl
      rfl rfl
  | joins user hinit | stops thread hthread huser | leaves user hother => exact ⟨h.places, h.once⟩
  | joined thread hthread hphase =>
    exact h.same (by rw [taken_of hthread, hphase]; rfl) (by rw [hasRun_of hthread, hphase]; rfl)
      rfl rfl rfl rfl rfl
  | submits user fn =>
    refine ⟨fun id => ?_, h.once⟩
    have hplaces := h.places id
    simp only [submit, taken, count_append, List.count_singleton, length_append, length_singleton,
      beq_iff_eq] at hplaces ⊢
    split_ifs at hplaces ⊢ <;> omega
  | checks thread hthread hphase =>
    refine h.goTo hthread ?_ ?_
    · rw [hphase]
      split <;> rfl
    · rw [hphase]
      split <;> rfl
  | rests thread hthread hphase hevts | wakes thread hthread hphase =>
    exact h.goTo hthread (by rw [hphase]; rfl) (by rw [hphase]; rfl)
  | takes thread id rest hthread hphase hevts =>
    have hplaces := h.places
    have honce := h.once
    rw [taken_of hthread, hphase, hevts] at hplaces
    rw [hasRun_of hthread, hphase] at honce
    refine ⟨fun id' => ?_, honce⟩
    have hplaces := hplaces id'
    simp only [SharedIo.goTo, taken, IoPhase.taken, List.count_cons, count_nil] at hplaces ⊢
    exact Eq.trans (by omega) hplaces
  | runs thread id hthread hphase =>
    have hlt := h.lt (.inr (mem_taken hthread (.inl hphase)))
    rw [runSubmission_of (getElem?_eq_getElem hlt)]
    have hplaces := h.places
    have honce := h.once
    rw [taken_of hthread, hphase] at hplaces
    rw [hasRun_of hthread, hphase] at honce
    refine ⟨fun id' => ?_, fun id' => ?_⟩
    · have hplaces := hplaces id'
      simp only [SharedIo.goTo, taken, IoPhase.taken, length_set] at hplaces ⊢
      exact hplaces
    · have honce := honce id'
      simp only [SharedIo.goTo, hasRun, IoPhase.hasRun, map_append, count_append, List.map_cons, map_nil,
        count_nil] at honce ⊢
      omega
  | pushes thread id hthread hphase =>
    have hplaces := h.places
    have honce := h.once
    rw [taken_of hthread, hphase] at hplaces
    rw [hasRun_of hthread, hphase] at honce
    refine ⟨fun id' => ?_, fun id' => ?_⟩
    · have hplaces := hplaces id'
      simp only [SharedIo.goTo, taken, IoPhase.taken, map_append, count_append, List.map_cons, map_nil,
        count_nil] at hplaces ⊢
      exact Eq.trans (by omega) hplaces
    · have honce := honce id'
      simp only [SharedIo.goTo, hasRun, IoPhase.hasRun, map_append, count_append, List.map_cons, map_nil,
        count_nil] at honce ⊢
      omega
  | resumes index loop id submission hqueued hsubmission =>
    refine ⟨fun id' => ?_, fun id' => ?_⟩
    · have hplaces := h.places id'
      have hcount := count_eraseIdx hqueued id'
      simp only [taken, map_append, count_append, List.map_cons, map_nil] at hplaces ⊢
      omega
    · have honce := h.once id'
      have hcount := count_eraseIdx hqueued id'
      simp only [hasRun, map_append, count_append, List.map_cons, map_nil] at honce ⊢
      omega

/-! ## Results and event loops -/

/-- What is on its way is handled by the event loop of its instance, and a coroutine sees the result
of its own operation. -/
structure Paired (loopOf : ℕ → ℕ) (s : SharedIo ω) : Prop where
  home : ∀ thread, s.ioThread = some thread → ∀ id, id ∈ s.evts ∨ id ∈ s.taken →
    ∀ submission, s.submissions[id]? = some submission → thread.queue = loopOf submission.user
  queued : ∀ loop id, (loop, id) ∈ s.queued →
    ∀ submission, s.submissions[id]? = some submission → loop = loopOf submission.user
  resumed : ∀ id loop result, (id, loop, result) ∈ s.resumed → ∃ submission world,
    s.submissions[id]? = some submission ∧ loop = loopOf submission.user ∧
    (id, world, result) ∈ s.ran
  results : ∀ id world result, (id, world, result) ∈ s.ran → ∃ submission,
    s.submissions[id]? = some submission ∧ submission.result = result ∧
    result = (submission.fn world).1

/-- The submissions keep their instances and operations, and what was run keeps its result. -/
structure Extends (s t : SharedIo ω) : Prop where
  kept : ∀ (id : ℕ) submission, s.submissions[id]? = some submission → ∃ submission',
    t.submissions[id]? = some submission' ∧ submission'.user = submission.user ∧
    submission'.fn = submission.fn ∧
    (id ∈ s.ran.map Prod.fst → submission'.result = submission.result)
  ran : ∀ x ∈ s.ran, x ∈ t.ran

theorem Extends.of_eq (hsubmissions : t.submissions = s.submissions) (hran : t.ran = s.ran) :
    Extends s t :=
  ⟨fun _ submission h => ⟨submission, hsubmissions ▸ h, rfl, rfl, fun _ => rfl⟩,
    fun _ hx => hran ▸ hx⟩

section
variable (h : Paired loopOf s)
include h

theorem Paired.resumed_extends (hext : Extends s t)
    {result : Except IOError Unit} (hmem : (id, loop, result) ∈ s.resumed) :
    ∃ submission world, t.submissions[id]? = some submission ∧ loop = loopOf submission.user ∧
      (id, world, result) ∈ t.ran := by
  obtain ⟨submission, world, hget, hloop, hran⟩ := h.resumed id loop result hmem
  obtain ⟨submission', hget', huser, -, -⟩ := hext.kept id submission hget
  exact ⟨submission', world, hget', huser ▸ hloop, hext.ran _ hran⟩

theorem Paired.results_extends (hext : Extends s t) {world : ω}
    {result : Except IOError Unit} (hmem : (id, world, result) ∈ s.ran) :
    ∃ submission, t.submissions[id]? = some submission ∧ submission.result = result ∧
      result = (submission.fn world).1 := by
  obtain ⟨submission, hget, hresult, hfn⟩ := h.results id world result hmem
  obtain ⟨submission', hget', -, hsame, hkept⟩ := hext.kept id submission hget
  refine ⟨submission', hget', ?_, hsame ▸ hfn⟩
  rw [hkept (mem_map.mpr ⟨_, hmem, rfl⟩)]
  exact hresult

theorem Paired.of_same (hsubmissions : t.submissions = s.submissions)
    (hran : t.ran = s.ran) (hresumed : t.resumed = s.resumed)
    (hhome : ∀ thread, t.ioThread = some thread → ∀ id, id ∈ t.evts ∨ id ∈ t.taken →
      ∀ submission, s.submissions[id]? = some submission → thread.queue = loopOf submission.user)
    (hqueued : ∀ loop id, (loop, id) ∈ t.queued →
      ∀ submission, s.submissions[id]? = some submission → loop = loopOf submission.user) :
    Paired loopOf t := by
  refine ⟨?_, ?_, ?_, ?_⟩
  · rw [hsubmissions]
    exact hhome
  · rw [hsubmissions]
    exact hqueued
  · intro id loop result hmem
    rw [hresumed] at hmem
    exact h.resumed_extends (.of_eq hsubmissions hran) hmem
  · intro id world result hmem
    rw [hran] at hmem
    exact h.results_extends (.of_eq hsubmissions hran) hmem

theorem Paired.goTo {thread : IoThread} {phase : IoPhase}
    (hthread : s.ioThread = some thread) (hsubmissions : t.submissions = s.submissions)
    (hran : t.ran = s.ran) (hresumed : t.resumed = s.resumed)
    (hids : ∀ id, id ∈ t.evts ∨ id ∈ phase.taken → id ∈ s.evts ∨ id ∈ s.taken)
    (hqueued : ∀ loop id, (loop, id) ∈ t.queued →
      ∀ submission, s.submissions[id]? = some submission → loop = loopOf submission.user) :
    Paired loopOf (t.goTo thread phase) := by
  refine h.of_same (t := t.goTo thread phase) hsubmissions hran hresumed ?_ hqueued
  intro thread' hthread' id hid
  obtain rfl := Option.some.inj hthread'
  exact h.home thread hthread id (hids id hid)

theorem Paired.idle {thread : IoThread} {phase : IoPhase}
    (hthread : s.ioThread = some thread) (hphase : phase.taken = []) :
    Paired loopOf (s.goTo thread phase) := by
  refine h.goTo hthread rfl rfl rfl (fun id hid => ?_) h.queued
  rw [hphase] at hid
  exact .inl (hid.resolve_right not_mem_nil)

end

theorem mem_ran_of_queued (hplaced : Placed s) (hqueued : (loop, id) ∈ s.queued) :
    ∃ world result, (id, world, result) ∈ s.ran := by
  have hmem : id ∈ s.queued.map Prod.snd := mem_map.mpr ⟨_, hqueued, rfl⟩
  have hpos := count_pos_iff.mpr hmem
  have honce := hplaced.once id
  have hran : id ∈ s.ran.map Prod.fst := count_pos_iff.mp (by omega)
  obtain ⟨⟨id', world, result⟩, hmem', rfl⟩ := mem_map.mp hran
  exact ⟨world, result, hmem'⟩

theorem extends_runSubmission
    (hget : s.submissions[id]? = some submission) (hnot : id ∉ s.ran.map Prod.fst) :
    Extends s (s.runSubmission id) := by
  rw [runSubmission_of hget]
  refine ⟨fun id' submission' hget' => ?_, fun x hx => mem_append_left _ hx⟩
  by_cases hid : id' = id
  · subst hid
    rw [hget] at hget'
    obtain rfl := Option.some.inj hget'
    obtain ⟨hlt, -⟩ := List.getElem?_eq_some_iff.mp hget
    exact ⟨_, List.getElem?_set_self hlt, rfl, rfl, fun hran => absurd hran hnot⟩
  · refine ⟨submission', ?_, rfl, rfl, fun _ => rfl⟩
    show (s.submissions.set id _)[id']? = _
    rw [getElem?_set_ne (Ne.symm hid)]
    exact hget'

theorem extends_submit (user : ℕ) (fn : ω → Except IOError Unit × ω) :
    Extends s (s.submit user fn) := by
  refine ⟨fun id submission hget => ⟨submission, ?_, rfl, rfl, fun _ => rfl⟩, fun _ hx => hx⟩
  obtain ⟨hlt, -⟩ := List.getElem?_eq_some_iff.mp hget
  show (s.submissions ++ [_])[id]? = _
  rw [List.getElem?_append_left hlt]
  exact hget

theorem Extends.user (h : Extends s t)
    (hget : t.submissions[id]? = some submission) (hlt : id < s.submissions.length) :
    ∃ old, s.submissions[id]? = some old ∧ old.user = submission.user := by
  refine ⟨_, getElem?_eq_getElem hlt, ?_⟩
  obtain ⟨submission', hget', huser, -, -⟩ := h.kept id _ (getElem?_eq_getElem hlt)
  rw [hget] at hget'
  obtain rfl := Option.some.inj hget'
  exact huser.symm

section
variable (h : Paired loopOf s) (hplaced : Placed s)
include h hplaced

theorem Paired.home_extends (hext : Extends s t)
    {thread : IoThread} (hthread : s.ioThread = some thread) (hid : id ∈ s.evts ∨ id ∈ s.taken)
    (hget : t.submissions[id]? = some submission) : thread.queue = loopOf submission.user := by
  obtain ⟨old, hget', huser⟩ := hext.user hget (hplaced.lt hid)
  rw [← huser]
  exact h.home thread hthread id hid old hget'

theorem Paired.queued_extends (hext : Extends s t)
    (hmem : (loop, id) ∈ s.queued) (hget : t.submissions[id]? = some submission) :
    loop = loopOf submission.user := by
  obtain ⟨old, hget', huser⟩ := hext.user hget (hplaced.queued_lt hmem)
  rw [← huser]
  exact h.queued loop id hmem old hget'

theorem Paired.submits {user : ℕ}
    {fn : ω → Except IOError Unit × ω} (ha : SubmitsToRunning loopOf s (.submit user fn)) :
    Paired loopOf (s.submit user fn) := by
  have hext : Extends s (s.submit user fn) := extends_submit user fn
  obtain ⟨thread, hthread, -, hqueue⟩ := ha
  refine ⟨fun thread' hthread' id hid submission hget => ?_,
    fun loop id hmem submission hget => h.queued_extends hplaced hext hmem hget,
    fun id loop result hmem => h.resumed_extends hext hmem,
    fun id world result hmem => h.results_extends hext hmem⟩
  rcases hid with hid | hid
  · rcases mem_append.mp hid with hid | hid
    · exact h.home_extends hplaced hext hthread' (.inl hid) hget
    · -- the new submission is made on the thread's event loop
      rw [mem_singleton.mp hid] at hget
      have hnew : (s.submissions ++ [(⟨user, fn, .ok ()⟩ : IoSubmission ω)])[
        s.submissions.length]? = some submission := hget
      rw [getElem?_concat_length] at hnew
      obtain rfl := Option.some.inj hnew
      obtain rfl := Option.some.inj (hthread.symm.trans hthread')
      exact hqueue
  · exact h.home_extends hplaced hext hthread' (.inr hid) hget

theorem Paired.runs {thread : IoThread}
    (hthread : s.ioThread = some thread) (hphase : thread.phase = .run id) :
    Paired loopOf ((s.runSubmission id).goTo thread (.push id)) := by
  have htaken := mem_taken hthread (.inl hphase)
  have hget := getElem?_eq_getElem (hplaced.lt (.inr htaken))
  -- what the thread has taken is neither queued nor resumed, so it was not run
  have hnot : id ∉ s.ran.map Prod.fst := by
    intro hran
    have hplaces := hplaced.places id
    have honce := hplaced.once id
    have hpos := count_pos_iff.mpr hran
    have htaken' := count_pos_iff.mpr htaken
    rw [if_pos (hplaced.lt (.inr htaken))] at hplaces
    rw [hasRun_of hthread, hphase] at honce
    simp only [IoPhase.hasRun, count_nil] at honce
    omega
  have hext := extends_runSubmission hget hnot
  have hrun := runSubmission_of hget
  refine ⟨fun thread' hthread' id' hid' submission hget' => ?_,
    fun loop id' hmem submission hget' => ?_, fun id' loop result hmem => ?_,
    fun id' world result hmem => ?_⟩
  · obtain rfl := Option.some.inj hthread'
    have hid : id' ∈ s.evts ∨ id' ∈ s.taken := by
      rcases hid' with hid' | hid'
      · rw [hrun] at hid'
        exact .inl hid'
      · rw [mem_singleton.mp hid']
        exact .inr htaken
    exact (h.home_extends hplaced hext hthread hid hget' :)
  · rw [hrun] at hmem
    exact h.queued_extends hplaced hext hmem hget'
  · rw [hrun] at hmem
    exact h.resumed_extends hext hmem
  · rw [hrun] at hmem
    rcases mem_append.mp hmem with hmem | hmem
    · exact h.results_extends hext hmem
    · cases mem_singleton.mp hmem
      rw [hrun]
      exact ⟨_, List.getElem?_set_self (hplaced.lt (.inr htaken)), rfl, rfl⟩

theorem Paired.resumes {index : ℕ} (hqueued : s.queued[index]? = some (loop, id))
    (hget : s.submissions[id]? = some submission) :
    Paired loopOf { s with
      queued := s.queued.eraseIdx index
      resumed := s.resumed ++ [(id, loop, submission.result)] } := by
  have hmem := mem_of_getElem? hqueued
  refine ⟨h.home, fun loop' id' hmem' => h.queued loop' id' (mem_of_mem_eraseIdx hmem'),
    fun id' loop' result hmem' => ?_, h.results⟩
  rcases mem_append.mp hmem' with hmem' | hmem'
  · exact h.resumed id' loop' result hmem'
  · cases mem_singleton.mp hmem'
    obtain ⟨world, result, hran⟩ := mem_ran_of_queued hplaced hmem
    obtain ⟨old, hold, hresult, -⟩ := h.results id world result hran
    rw [hget] at hold
    obtain rfl := Option.some.inj hold
    exact ⟨submission, world, hget, h.queued loop id hmem submission hget, hresult ▸ hran⟩

end

theorem Paired.step (h : Paired loopOf s) (howned : Owned s) (hplaced : Placed s)
    (ha : SubmitsToRunning loopOf s a) (hmove : Moves loopOf s a t) : Paired loopOf t := by
  cases hmove with
  | begins user hinit =>
    refine ⟨fun thread hthread id hid => ?_, h.queued, h.resumed, h.results⟩
    rcases hid with hid | hid
    · rw [howned.idle (howned.none hinit)] at hid
      exact absurd hid not_mem_nil
    · exact absurd hid not_mem_nil
  | joins user hinit | stops thread hthread huser | leaves user hother => exact { h with }
  | joined thread hthread hphase => exact { h with home := nofun }
  | submits user fn => exact h.submits hplaced ha
  | checks thread hthread hphase =>
    exact h.idle hthread (by split <;> rfl)
  | rests thread hthread hphase hevts | wakes thread hthread hphase => exact h.idle hthread rfl
  | takes thread id rest hthread hphase hevts =>
    refine h.goTo (t := { s with evts := rest }) hthread rfl rfl rfl (fun id' hid => ?_) h.queued
    rw [hevts]
    rcases hid with hid | hid
    · exact .inl (mem_cons_of_mem _ hid)
    · rw [mem_singleton.mp hid]
      exact .inl mem_cons_self
  | runs thread id hthread hphase => exact h.runs hplaced hthread hphase
  | pushes thread id hthread hphase =>
    have htaken := mem_taken hthread (.inr hphase)
    refine h.goTo (t := { s with queued := s.queued ++ [(thread.queue, id)] }) hthread rfl rfl rfl
      (fun id' hid => ?_) fun loop id' hmem submission hget => ?_
    · rcases hid with hid | hid
      · exact .inl hid
      · exact absurd hid not_mem_nil
    · rcases mem_append.mp hmem with hmem | hmem
      · exact h.queued loop id' hmem submission hget
      · cases mem_singleton.mp hmem
        exact h.home thread hthread id (.inr htaken) submission hget
  | resumes index loop id submission hqueued hsubmission =>
    exact h.resumes hplaced hqueued hsubmission

/-! ## Whole runs -/

structure Inv (loopOf : ℕ → ℕ) (s : SharedIo ω) : Prop where
  owned : Owned s
  placed : Placed s
  paired : Paired loopOf s

theorem inv_initial (world : ω) : Inv loopOf (initial world) :=
  ⟨⟨nofun, rfl, nofun, fun hne => absurd rfl hne⟩, ⟨fun _ => rfl, fun _ => rfl⟩,
    ⟨nofun, nofun, nofun, nofun⟩⟩

theorem Inv.run (h : Reaches loopOf (SubmitsToRunning loopOf) world s) : Inv loopOf s := by
  refine GuardedRuns.Run.invariant h (Inv loopOf) (inv_initial world) fun x a y hinv ha hact => ?_
  have hmove := moves hact
  exact ⟨hinv.owned.step ha hmove, hinv.placed.step hinv.owned hmove,
    hinv.paired.step hinv.owned hinv.placed ha hmove⟩

/-! ## Progress -/

/-- The submission waits for the thread or is with it. -/
def Unprocessed (s : SharedIo ω) (id : ℕ) : Prop := id ∈ s.evts ∨ id ∈ s.taken

/-- The steps that the thread makes before it has pushed the event of a submission: three for each
submission up to this one. -/
def stepsLeft (s : SharedIo ω) (id : ℕ) : ℕ :=
  match s.ioThread with
  | none => 0
  | some thread =>
    if id ∈ thread.phase.taken then thread.phase.delay
    else thread.phase.delay + 3 * (s.evts.idxOf id + 1)

theorem stepsLeft_of {thread : IoThread} (h : s.ioThread = some thread) (id : ℕ) :
    s.stepsLeft id = if id ∈ thread.phase.taken then thread.phase.delay
      else thread.phase.delay + 3 * (s.evts.idxOf id + 1) := by
  rw [stepsLeft, h]

theorem Inv.thread (h : Inv loopOf s) (hid : Unprocessed s id) :
    ∃ thread, s.ioThread = some thread ∧ thread.phase ≠ .done ∧
      (id ∈ s.evts → thread.owner ∉ s.shouldStop) := by
  rcases hid with hid | hid
  · obtain ⟨thread, hthread, howner⟩ := h.owned.waiting (ne_nil_of_mem hid)
    exact ⟨thread, hthread, fun hdone => howner (h.owned.done thread hthread hdone),
      fun _ => howner⟩
  · rcases hthread : s.ioThread with _ | thread
    · rw [taken, hthread] at hid
      exact absurd hid not_mem_nil
    · refine ⟨thread, rfl, fun hdone => ?_, fun hevts => ?_⟩
      · rw [taken_of hthread, hdone] at hid
        exact absurd hid not_mem_nil
      · obtain ⟨thread', hthread', howner⟩ := h.owned.waiting (ne_nil_of_mem hevts)
        rw [hthread] at hthread'
        cases hthread'
        exact howner

theorem Inv.not_both (h : Inv loopOf s) (htaken : id ∈ s.taken) : id ∉ s.evts := by
  intro hevts
  have hplaces := h.placed.places id
  have hpos := count_pos_iff.mpr htaken
  have hpos' := count_pos_iff.mpr hevts
  rw [if_pos (h.placed.lt (.inl hevts))] at hplaces
  omega

theorem threadStep_isSome {thread : IoThread} (h : thread.phase ≠ .done) :
    (threadStep s thread).isSome := by
  unfold threadStep
  split
  · rfl
  · split <;> rfl
  · rfl
  · rfl
  · rfl
  · rename_i hdone
    exact absurd hdone h

theorem Inv.progress (h : Inv loopOf s) (hid : Unprocessed s id) (hmove : Moves loopOf s a t) :
    ¬Unprocessed t id ∨
      (t.stepsLeft id ≤ s.stepsLeft id ∧ (a = .ioThread → t.stepsLeft id < s.stepsLeft id)) := by
  obtain ⟨thread, hthread, hdone, howner⟩ := h.thread hid
  have hsame (thread' : IoThread) (hthread' : s.ioThread = some thread') : thread' = thread :=
    Option.some.inj (hthread'.symm.trans hthread)
  have hdown (hlt : t.stepsLeft id < s.stepsLeft id) : ¬Unprocessed t id ∨
      (t.stepsLeft id ≤ s.stepsLeft id ∧ (a = .ioThread → t.stepsLeft id < s.stepsLeft id)) :=
    .inr ⟨Nat.le_of_lt hlt, fun _ => hlt⟩
  cases hmove with
  | begins user hinit => cases (h.owned.none hinit).symm.trans hthread
  | joins user hinit | stops thread' hthread' huser | leaves user hother
  | resumes index loop id' submission hqueued hsubmission => exact .inr ⟨Nat.le_refl _, nofun⟩
  | joined thread' hthread' hphase => exact absurd (hsame thread' hthread' ▸ hphase) hdone
  | submits user fn =>
    refine .inr ⟨Nat.le_of_eq ?_, nofun⟩
    rw [stepsLeft_of hthread, stepsLeft_of (s := s.submit user fn) hthread]
    rcases hid with hid | hid
    · have hidx : (s.submit user fn).evts.idxOf id = s.evts.idxOf id :=
        idxOf_append_of_mem hid
      rw [hidx]
    · rw [taken_of hthread] at hid
      rw [if_pos hid, if_pos hid]
  | checks thread' hthread' hphase =>
    obtain rfl := hsame thread' hthread'
    have hevts : id ∈ s.evts := by
      rcases hid with hid | hid
      · exact hid
      · rw [taken_of hthread, hphase] at hid
        exact absurd hid not_mem_nil
    refine hdown ?_
    rw [if_neg (howner hevts), stepsLeft_of hthread, hphase, stepsLeft_of rfl]
    simp only [goTo, IoPhase.taken, not_mem_nil, if_false, IoPhase.delay]
    omega
  | rests thread' hthread' hphase hempty =>
    obtain rfl := hsame thread' hthread'
    rcases hid with hid | hid
    · rw [hempty] at hid
      exact absurd hid not_mem_nil
    · rw [taken_of hthread, hphase] at hid
      exact absurd hid not_mem_nil
  | takes thread' first rest hthread' hphase hevts =>
    obtain rfl := hsame thread' hthread'
    refine hdown ?_
    rw [stepsLeft_of hthread, hphase, hevts, stepsLeft_of rfl]
    simp only [goTo, IoPhase.taken, not_mem_nil, if_false, IoPhase.delay, mem_singleton]
    by_cases heq : id = first
    · rw [if_pos heq, heq, idxOf_cons_self]
      omega
    · rw [if_neg heq, idxOf_cons_ne _ (Ne.symm heq)]
      omega
  | runs thread' id' hthread' hphase =>
    obtain rfl := hsame thread' hthread'
    have hevts := (runSubmission_frame s id').2.2.2
    refine hdown ?_
    rw [stepsLeft_of hthread, hphase, stepsLeft_of rfl]
    simp only [goTo, IoPhase.taken, IoPhase.delay, mem_singleton, hevts]
    split <;> omega
  | pushes thread' id' hthread' hphase =>
    obtain rfl := hsame thread' hthread'
    by_cases heq : id = id'
    · -- its event is pushed
      subst heq
      have htaken := mem_taken hthread (.inr hphase)
      refine .inl fun hnew => ?_
      rcases hnew with hnew | hnew
      · exact h.not_both htaken hnew
      · exact absurd hnew not_mem_nil
    · refine hdown ?_
      rw [stepsLeft_of hthread, hphase, stepsLeft_of rfl]
      simp only [goTo, IoPhase.taken, IoPhase.delay, mem_singleton, heq, not_mem_nil, if_false]
      omega
  | wakes thread' hthread' hphase =>
    obtain rfl := hsame thread' hthread'
    refine hdown ?_
    rw [stepsLeft_of hthread, hphase, stepsLeft_of rfl]
    simp only [goTo, IoPhase.taken, not_mem_nil, if_false, IoPhase.delay]
    omega

end

/-- What the event loops may rely on. -/
structure Serves (loopOf : ℕ → ℕ) (s : SharedIo ω) : Prop where
  /-- A submission is in one place, so it is neither lost nor completed twice. -/
  places : ∀ id < s.submissions.length, s.evts.count id + s.taken.count id +
    (s.queued.map Prod.snd).count id + (s.resumed.map Prod.fst).count id = 1
  once : ∀ id, (s.ran.map Prod.fst).count id ≤ 1
  /-- A coroutine is resumed on its event loop, with the result of its operation. -/
  resumed : ∀ id loop result, (id, loop, result) ∈ s.resumed → ∃ submission world,
    s.submissions[id]? = some submission ∧ loop = loopOf submission.user ∧
    (id, world, result) ∈ s.ran ∧ result = (submission.fn world).1
  /-- The events that wait are in the queue of the event loop of their submission. -/
  queued : ∀ loop id, (loop, id) ∈ s.queued →
    ∃ submission, s.submissions[id]? = some submission ∧ loop = loopOf submission.user
  /-- An unprocessed submission is processed after `stepsLeft` steps of the thread, whatever
  happens between them. -/
  progress : ∀ id, Unprocessed s id → (act loopOf .ioThread s).isSome ∧
    ∀ a t, SubmitsToRunning loopOf s a → act loopOf a s = some t → ¬Unprocessed t id ∨
        (t.stepsLeft id ≤ s.stepsLeft id ∧ (a = .ioThread → t.stepsLeft id < s.stepsLeft id))
  /-- Nothing is left behind when the last instance is stopped. -/
  stopped : s.users = [] → ∀ id, ¬Unprocessed s id

/-- In every run in which submissions are made on the event loop of a thread that is not told to
stop, and in which its owner is stopped only after every submission was taken. -/
theorem shared_io_serves (loopOf : ℕ → ℕ) (world : ω) (s : SharedIo ω)
    (h : Reaches loopOf (SubmitsToRunning loopOf) world s) : Serves loopOf s := by
  have hinv := Inv.run h
  refine ⟨fun id hid => ?_, fun id => ?_, fun id loop result hmem => ?_,
    fun loop id hmem => ?_, fun id hid => ⟨?_, fun a t _ hact => ?_⟩, fun husers id hid => ?_⟩
  · have hplaces := hinv.placed.places id
    rw [if_pos hid] at hplaces
    exact hplaces
  · have hplaces := hinv.placed.places id
    have honce := hinv.placed.once id
    have hle : s.hasRun.count id ≤ s.taken.count id := by
      rcases hthread : s.ioThread with _ | thread
      · rw [hasRun, hthread]
        exact Nat.zero_le _
      · rw [hasRun_of hthread, taken_of hthread]
        cases thread.phase <;> first | exact Nat.le_refl _ | exact Nat.zero_le _
    split at hplaces <;> omega
  · obtain ⟨submission, world, hget, hloop, hran⟩ := hinv.paired.resumed id loop result hmem
    obtain ⟨submission', hget', -, hresult⟩ := hinv.paired.results id world result hran
    rw [hget] at hget'
    obtain rfl := Option.some.inj hget'
    exact ⟨submission, world, hget, hloop, hran, hresult⟩
  · have hget := getElem?_eq_getElem (hinv.placed.queued_lt hmem)
    exact ⟨_, hget, hinv.paired.queued loop id hmem _ hget⟩
  · obtain ⟨thread, hthread, hdone, -⟩ := hinv.thread hid
    show (s.ioThread.bind (threadStep s)).isSome
    rw [hthread]
    exact threadStep_isSome hdone
  · exact hinv.progress hid (moves hact)
  · obtain ⟨thread, hthread, -, -⟩ := hinv.thread hid
    have howner := hinv.owned.owner thread hthread
    rw [husers] at howner
    exact absurd howner not_mem_nil

/-- An operation that leaves the file system as it is. -/
def noOperation : Unit → Except IOError Unit × Unit := fun world => (.ok (), world)

def missingFile : Unit → Except IOError Unit × Unit := fun world => (.error .fileDoesNotExist, world)

/-- Operations of two instances on one event loop, which handles their events in the other order, and
then the stops of both. -/
theorem shared_io_serves_two : ∃ s : SharedIo Unit,
    Reaches (fun _ => 0) (SubmitsToRunning fun _ => 0) () s ∧ s.users = [] ∧
    s.submissions.map IoSubmission.user = [0, 1] ∧
    s.resumed = [(1, 0, .error .fileDoesNotExist), (0, 0, .ok ())] ∧ Serves (fun _ => 0) s := by
  have hrun : Reaches (fun _ => 0) (SubmitsToRunning fun _ => 0) () _ :=
    .tail (.tail (.tail (.tail (.tail (.tail (.tail (.tail (.tail (.tail (.tail (.tail (.tail (.tail (.tail
      (.tail (.tail (.tail (.tail .refl
      ⟨.start 0, trivial, rfl⟩) ⟨.start 1, trivial, rfl⟩)
      ⟨.submit 0 noOperation, ⟨_, rfl, nofun, rfl⟩, rfl⟩)
      ⟨.submit 1 missingFile, ⟨_, rfl, nofun, rfl⟩, rfl⟩)
      ⟨.ioThread, trivial, rfl⟩) ⟨.ioThread, trivial, rfl⟩) ⟨.ioThread, trivial, rfl⟩)
      ⟨.ioThread, trivial, rfl⟩) ⟨.ioThread, trivial, rfl⟩) ⟨.ioThread, trivial, rfl⟩)
      ⟨.ioThread, trivial, rfl⟩) ⟨.handle 1, trivial, rfl⟩) ⟨.handle 0, trivial, rfl⟩)
      ⟨.stop 1, fun _ _ _ => rfl, rfl⟩) ⟨.stop 0, fun _ _ _ => rfl, rfl⟩)
      ⟨.ioThread, trivial, rfl⟩) ⟨.ioThread, trivial, rfl⟩) ⟨.ioThread, trivial, rfl⟩)
      ⟨.joined 0, trivial, rfl⟩
  exact ⟨_, hrun, rfl, rfl, rfl, shared_io_serves _ _ _ hrun⟩

/-- A coroutine of the second event loop is resumed on the first one, and the stop of the only
instance returns with a submission in the queue. -/
theorem shared_io_breaks : (∃ s : SharedIo Unit, Reaches (fun user => user) (fun _ _ => True) () s ∧
      s.submissions.map IoSubmission.user = [1] ∧ s.resumed = [(0, 0, .ok ())]) ∧
    ∃ s : SharedIo Unit, Reaches (fun user => user) (fun _ _ => True) () s ∧
      s.users = [] ∧ s.ioThread.isNone ∧ s.evts = [0] :=
  ⟨⟨_, GuardedRuns.run_exec [.start 0, .start 1, .submit 1 noOperation, .ioThread, .ioThread, .ioThread,
      .ioThread, .handle 0] rfl, rfl, rfl⟩,
    ⟨_, GuardedRuns.run_exec [.start 0, .ioThread, .ioThread, .submit 0 noOperation, .stop 0, .ioThread,
      .ioThread, .joined 0] rfl, rfl, rfl, rfl⟩⟩

end SharedIo

end Ichor
