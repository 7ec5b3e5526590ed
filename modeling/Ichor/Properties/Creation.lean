import Ichor.Desk.Growth
import Ichor.Abstract.Requests
import Ichor.Model.Script

/-! The order in which the events of one creation call are processed. The
InsertServiceEvent comes first for priorities above its own clamp, whatever the
queue does among equals, and for every priority with the ordered queue. -/
namespace Ichor.DependencyManager
open FiniteTable

variable {s s' : DependencyManager} {order : QueueOrder}

/-! ## What a queue hands over -/

variable {e : Event} {index : ℕ} {queue : List Event} {e' : Event}

theorem le_of_priorityQueue
    (h : priorityQueue queue index = true) (he : queue[index]? = some e) (he' : e' ∈ queue) :
    e.priority ≤ e'.priority := by
  unfold priorityQueue at h
  rw [he] at h
  dsimp only at h
  rw [List.all_eq_true] at h
  exact of_decide_eq_true (h e' he')

theorem before_of_orderedPriorityQueue
    (h : orderedPriorityQueue queue index = true) (he : queue[index]? = some e) (he' : e' ∈ queue) :
    e.priority < e'.priority ∨ e.priority = e'.priority ∧ e.id ≤ e'.id := by
  unfold orderedPriorityQueue at h
  rw [he] at h
  dsimp only at h
  rw [List.all_eq_true] at h
  have hbefore := h e' he'
  rwa [Bool.or_eq_true, Bool.and_eq_true, decide_eq_true_eq, decide_eq_true_eq,
    decide_eq_true_eq] at hbefore

/-- The queue hands over the InsertServiceEvent of such a service before the rest. -/
def InsertsFirst (order : QueueOrder) (desc : ServiceDescription) : Prop :=
  internalInsertServiceEventPriority < desc.priority ∨
    ∀ queue index, order queue index = true → orderedPriorityQueue queue index = true

variable {desc : ServiceDescription}

section
variable (hmin : ∀ queue index, order queue index = true → priorityQueue queue index = true)
  (hfirst : InsertsFirst order desc)
include hmin hfirst

theorem not_mem_of_insertsFirst {i : Event}
    (hindex : queue[index]? = some e) (hpop : order queue index = true)
    (hpriority : e.priority = min internalDependencyEventPriority desc.priority)
    (hi : i.priority = min internalInsertServiceEventPriority desc.priority) (hid : i.id < e.id) :
    i ∉ queue := by
  intro hmem
  rcases hfirst with habove | hordered
  · have hle := le_of_priorityQueue (hmin queue index hpop) hindex hmem
    have hinsert : i.priority = internalInsertServiceEventPriority :=
      hi.trans (Nat.min_eq_left (Nat.le_of_lt habove))
    rw [hpriority, hinsert] at hle
    have habove' : internalInsertServiceEventPriority <
        min internalDependencyEventPriority desc.priority :=
      Nat.lt_min.mpr ⟨by decide, habove⟩
    omega
  · have hclamp : i.priority ≤ e.priority := by
      rw [hpriority, hi]
      exact Nat.le_min.mpr ⟨Nat.le_trans (Nat.min_le_left _ _) (by decide), Nat.min_le_right _ _⟩
    rcases before_of_orderedPriorityQueue (hordered queue index hpop) hindex hmem with
      hlt | ⟨_, hle⟩
    · omega
    · exact absurd hid (Nat.not_lt.mpr hle)

theorem insertEvent_first (he : e ∈ s.followUpEvents desc) (hindex : queue[index]? = some e)
    (hpop : order queue index = true) : s.insertEvent desc ∉ queue := by
  obtain ⟨_, hpriority, hid, _⟩ := mem_followUpEvents he
  exact not_mem_of_insertsFirst hmin hfirst hindex hpop hpriority rfl hid

end

/-! ## An event stays queued until it is processed -/

/-- The run from `s` to `s'` has a step that processes the event. -/
def Processes (order : QueueOrder) (e : Event) (s s' : DependencyManager) : Prop :=
  ∃ t index u t', RunWhere order (fun _ _ => True) s t ∧ order t.queue index = true ∧
    t.queue[index]? = some e ∧ next (.processEvent index u) t = some t' ∧
    RunWhere order (fun _ _ => True) t' s'

theorem mem_eraseIdx_or {α : Type} (l : List α) (index : ℕ) (a : α) (h : a ∈ l) :
    a ∈ l.eraseIdx index ∨ l[index]? = some a := by
  obtain ⟨i, hi⟩ := List.mem_iff_getElem?.mp h
  by_cases heq : i = index
  · exact .inr (heq ▸ hi)
  · exact .inl (List.mem_eraseIdx_iff_getElem?.mpr ⟨i, heq, hi⟩)

theorem queued_or_processed (h : RunWhere order (fun _ _ => True) s s')
    (he : e ∈ s.queue) : e ∈ s'.queue ∨ Processes order e s s' := by
  induction h with
  | refl => exact .inl he
  | @tail t r hrun hstep ih =>
    obtain ⟨a, hg, hn⟩ := hstep
    rcases ih with hmem | ⟨x, index, u, x', hx, hpop, hindex, hnext, hrest⟩
    · rcases next_grows hn with ⟨index, u, e', rfl, hindex, hgrows⟩ | ⟨_, hgrows⟩
      · rcases mem_eraseIdx_or t.queue index e hmem with hleft | hpopped
        · exact .inl (hgrows.mem hleft)
        · exact .inr ⟨t, index, u, r, hrun, hg.1, hpopped, hn, .refl⟩
      · exact .inl (hgrows.mem hmem)
    · exact .inr ⟨x, index, u, x', hx, hpop, hindex, hnext, hrest.tail ⟨a, hg, hn⟩⟩

variable {u : UserCode}

theorem queue_of_processed (hi : Lifecycle.Inv (Lifecycle.core s)) (hids : s.QueueBounded)
    (he : s.queue[index]? = some e) (hp : Processed (s.dequeue index) u e s')
    (hstep : next (.processEvent index u) s = some s') :
    ∀ e' ∈ s'.queue, e' ∈ (s.dequeue index).queue ∨ e'.body.ofManager = true := by
  have ho : (Lifecycle.origin s (.processEvent index u)).event ≠ none := by
    simp [Lifecycle.origin, he]
  have hown := Lifecycle.OwnEvents.path ho (Lifecycle.path_next _ hi hstep)
  obtain ⟨events, hq, hnew⟩ := hp.grows.queue
  intro e' he'
  rw [hq, List.mem_append] at he'
  rcases he' with he' | he'
  · exact .inl he'
  · have hin : e' ∈ s'.queue := hq ▸ List.mem_append_right _ he'
    rcases hown e' hin with hold | hbody
    · have hlow : s.nextEventId ≤ e'.id := (hnew e' he').1
      exact absurd (hids e' hold) (Nat.not_lt.mpr hlow)
    · exact .inr hbody

/-- A processed InsertServiceEvent brings the service into the table, unless it is
vetoed or the manager is done. -/
theorem contains_of_processed {m : LifecycleManager}
    (h : Processed s u e s') (hb : e.body = .insertService m) :
    s.quitDone = true ∨ (s.preIntercept u e).2 = false ∨
      s'.services.contains e.originatingService = true := by
  have hin : ∀ out, (s.preIntercept u e).1.handle u e = some out → out.check = false ∧
      out.manager.services.contains e.originatingService = true := by
    intro out hh
    simp only [handle, hb] at hh
    cases hh
    refine ⟨rfl, ?_⟩
    have hm := moves_handleInsertService (s.preIntercept u e).1 u e m
    have hfixed := hm.fixed e.originatingService
    have hsome : (((s.preIntercept u e).1.insert e.originatingService m).fixedOf
        e.originatingService).isSome = true := by
      show (((s.preIntercept u e).1.services.emplace e.originatingService m).get?
        e.originatingService |>.map LifecycleManager.fixed).isSome = true
      rw [Option.isSome_map, Table.get?_emplace, if_pos rfl]
      cases (s.preIntercept u e).1.services.get? e.originatingService <;> rfl
    rw [← hfixed] at hsome
    unfold fixedOf at hsome
    rwa [Option.isSome_map] at hsome
  cases h with
  | dead hq => exact .inl hq
  | vetoed hq ha => exact .inr (.inl ha)
  | handled out hq ha hh hc =>
    right; right
    have hquiet := same_finishEvent out.manager u e out true
    rw [hquiet.services]
    exact (hin out hh).2
  | quits out hq ha hh hc => exact absurd (hc.symm.trans (hin out hh).1) (by simp)

/-! ## The order of a creation -/

/-- When one of the other events of a creation call is handed over, the
InsertServiceEvent has been processed: the service has entered the table, unless an
interceptor vetoed it or the manager was done. -/
theorem insert_processed_first (order : QueueOrder)
    (hmin : ∀ queue index, order queue index = true → priorityQueue queue index = true)
    (s s' : DependencyManager) (desc : ServiceDescription) (hfirst : InsertsFirst order desc)
    (hrun : RunWhere order (fun _ _ => True) (s.createServiceManager desc) s')
    (e : Event) (he : e ∈ s.followUpEvents desc) (index : ℕ) (hindex : s'.queue[index]? = some e)
    (hpop : order s'.queue index = true) :
    ∃ t i u t', RunWhere order (fun _ _ => True) (s.createServiceManager desc) t ∧
      order t.queue i = true ∧ t.queue[i]? = some (s.insertEvent desc) ∧
      next (.processEvent i u) t = some t' ∧ RunWhere order (fun _ _ => True) t' s' ∧
      (t.quitDone = true ∨ (t.preIntercept u (s.insertEvent desc)).2 = false ∨
        t'.services.contains s.nextServiceId = true) := by
  have hqueued : s.insertEvent desc ∈ (s.createServiceManager desc).queue := by
    rw [createServiceManager_eq]
    exact List.mem_append_right _ List.mem_cons_self
  rcases queued_or_processed hrun hqueued with hmem | ⟨t, i, u, t', ht, hi, hget, hn, hrest⟩
  · exact absurd hmem (insertEvent_first hmin hfirst he hindex hpop)
  · refine ⟨t, i, u, t', ht, hi, hget, hn, hrest, ?_⟩
    obtain ⟨e', he', hp⟩ := processNext_eq_some hn
    have heq : e' = s.insertEvent desc := Option.some.inj (he'.symm.trans hget)
    subst heq
    have hin := contains_of_processed hp rfl
    exact hin

theorem insert_processed_first_by_default : ∃ t i u t', RunWhere priorityQueue (fun _ _ => True)
        ((initial [0]).createServiceManager (.simple [] [])) t ∧
      t.queue[i]? = some ((initial [0]).insertEvent (.simple [] [])) ∧
      next (.processEvent i u) t = some t' := by
  have hrun : RunWhere priorityQueue (fun _ _ => True)
      ((initial [0]).createServiceManager (.simple [] [])) _ :=
    .single ⟨.processEvent 0 .prompt, ⟨rfl, trivial⟩, rfl⟩
  obtain ⟨t, i, u, t', ht, _, hget, hn, _⟩ := insert_processed_first priorityQueue
    (fun _ _ h => h) (initial [0]) _ (.simple [] []) (.inl (by decide)) hrun
    ⟨1, 2, internalDependencyEventPriority, .startService 2⟩ (List.mem_cons_self ..) 0 rfl rfl
  exact ⟨t, i, u, t', ht, hget, hn⟩

/-- A service without dependencies whose events all have the same priority. -/
def urgentService : ServiceDescription :=
  { ServiceDescription.simple [] [] with priority := internalInsertServiceEventPriority }

/-- Of four events of one priority the heap of the unordered queue hands over the third before the
second: here the start of such a service before its insertion. The start is discarded, and the service
stays INSTALLED. -/
theorem start_handed_over_before_insert : ∃ s t s',
    RunWhere priorityQueue (fun _ _ => True) (initial [0]) s ∧
    RunWhere priorityQueue (fun _ _ => True) (s.createServiceManager urgentService) t ∧
    (∃ e ∈ s.followUpEvents urgentService, t.queue[1]? = some e ∧ priorityQueue t.queue 1 = true ∧
      s.insertEvent urgentService ∈ t.queue) ∧
    RunWhere priorityQueue (fun _ _ => True) t s' ∧ s'.queue = [] ∧ s'.stateOf 2 = .installed ∧
    s'.trace = [.function 3, .function 0] := by
  have hplay : ∃ s t s', GuardedRuns.exec next (respects priorityQueue)
        [.pushEvent 0 internalInsertServiceEventPriority .runFunction] (initial [0]) = some s ∧
      GuardedRuns.exec next (respects priorityQueue)
        [.pushEvent 0 internalInsertServiceEventPriority .runFunction, .processEvent 0 .prompt]
        (s.createServiceManager urgentService) = some t ∧
      GuardedRuns.exec next (respects priorityQueue)
        [.processEvent 1 .prompt, .processEvent 0 .prompt, .processEvent 0 .prompt] t = some s' ∧
      (∃ e ∈ s.followUpEvents urgentService, t.queue[1]? = some e ∧ priorityQueue t.queue 1 = true ∧
        s.insertEvent urgentService ∈ t.queue) ∧
      s'.queue = [] ∧ s'.stateOf 2 = .installed ∧ s'.trace = [.function 3, .function 0] :=
    ⟨_, _, _, rfl, rfl, rfl, ⟨_, List.mem_cons_self .., rfl, rfl, List.mem_cons_self ..⟩, rfl, rfl, rfl⟩
  obtain ⟨s, t, s', hs, ht, hs', hfirst, hend⟩ := hplay
  have hrun : ∀ {script s s'}, GuardedRuns.exec next (respects priorityQueue) script s = some s' →
      RunWhere priorityQueue (fun _ _ => True) s s' :=
    fun h => GuardedRuns.exec_run _ _ _ (fun _ _ h => ⟨h, trivial⟩) h
  exact ⟨s, t, s', hrun hs, hrun ht, hfirst, hrun hs', hend⟩

end Ichor.DependencyManager
