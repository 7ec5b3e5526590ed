import Ichor.Http.Respond

/-! The route table of `HttpHostService`: routes are kept for each method, and a request is handed
to the first one met that accepts it. -/
namespace Ichor
open FiniteTable

abbrev RouteId := ℕ

/-- A `RouteMatcher`: whether it accepts a route, and the parameters that it takes from it. -/
structure RouteMatcher where
  accepts : Bytes → Bool
  routeParams : Bytes → List Bytes

/-- `StringRouteMatcher`. -/
def stringRouteMatcher (route : Bytes) : RouteMatcher where
  accepts := fun r => decide (r = route)
  routeParams := fun _ => []

/-- An entry of the table. Its handler is code of the host's clients; it is known by the id. -/
structure Route where
  id : ℕ
  matcher : RouteMatcher

/-- The order in which a map of routes is walked, which nothing is known about. -/
def Walk : Type := { walk : List Route → List Route // ∀ routes, (walk routes).Perm routes }

/-- The walk in the order of insertion. -/
def Walk.inOrder : Walk := ⟨id, fun routes => List.Perm.refl routes⟩

structure HttpRoutes where
  handlers : Table HttpMethod (List Route)
  matchersIdCounter : ℕ

namespace HttpRoutes

def initial : HttpRoutes := ⟨Table.empty, 0⟩

/-- The id of the new registration is the counter before the call. -/
def addRoute (s : HttpRoutes) (method : HttpMethod) (newMatcher : RouteMatcher) : HttpRoutes where
  handlers :=
    match s.handlers.get? method with
    | none => s.handlers.emplace method [⟨s.matchersIdCounter, newMatcher⟩]
    | some _ => s.handlers.modify method (· ++ [⟨s.matchersIdCounter, newMatcher⟩])
  matchersIdCounter := s.matchersIdCounter + 1

def removeRoute (s : HttpRoutes) (method : HttpMethod) (id : RouteId) : HttpRoutes :=
  match s.handlers.get? method with
  | none => s
  | some _ =>
    { s with handlers := s.handlers.modify method fun routes =>
        routes.filter fun r => decide (r.id ≠ id) }

/-- The route whose handler is called. -/
def select (s : HttpRoutes) (walk : Walk) (req : HttpRequest) : Option Route :=
  ((s.handlers.get? req.method).map walk.1).bind fun routes =>
    routes.find? fun r => r.matcher.accepts req.route

/-- The response when no handler is called: it is left as it was constructed if the loop over the
routes has found none. -/
def fallback (s : HttpRoutes) (req : HttpRequest) : HttpResponse :=
  match s.handlers.get? req.method with
  | none => ⟨HttpStatus.notFound, none, [], Table.empty⟩
  | some _ => ⟨0, none, [], Table.empty⟩

/-- The request as the handler gets it. -/
def withParams (req : HttpRequest) (r : Route) : HttpRequest :=
  { req with regexParams := r.matcher.routeParams req.route }

/-- The reply to a request, given what the handlers would answer. -/
def reply (s : HttpRoutes) (walk : Walk) (answer : RouteId → HttpRequest → HttpResponse)
    (req : HttpRequest) : HttpResponse :=
  match s.select walk req with
  | some r => answer r.id (withParams req r)
  | none => s.fallback req

/-! ## The table -/

/-- The routes of a method. -/
def routesOf (s : HttpRoutes) (method : HttpMethod) : List Route :=
  (s.handlers.get? method).getD []

theorem routesOf_addRoute (s : HttpRoutes) (method m : HttpMethod) (newMatcher : RouteMatcher) :
    (s.addRoute method newMatcher).routesOf m =
      s.routesOf m ++ if m = method then [⟨s.matchersIdCounter, newMatcher⟩] else [] := by
  unfold routesOf addRoute
  by_cases hm : m = method
  · subst hm
    cases h : s.handlers.get? m <;> simp [h]
  · cases h : s.handlers.get? method <;> simp [hm]

theorem routesOf_removeRoute (s : HttpRoutes) (method m : HttpMethod) (id : RouteId) :
    (s.removeRoute method id).routesOf m =
      if m = method then (s.routesOf m).filter fun r => decide (r.id ≠ id) else s.routesOf m := by
  unfold routesOf removeRoute
  by_cases hm : m = method
  · subst hm
    cases h : s.handlers.get? m <;> simp [h]
  · cases h : s.handlers.get? method <;> simp [hm]

/-- Ids are given once: those of the routes of a method are different, and below the counter. -/
structure Numbered (s : HttpRoutes) : Prop where
  nodup : ∀ m, ((s.routesOf m).map Route.id).Nodup
  below : ∀ m, ∀ r ∈ s.routesOf m, r.id < s.matchersIdCounter
  method : ∀ m m', ∀ r ∈ s.routesOf m, ∀ r' ∈ s.routesOf m', r.id = r'.id → m = m'

theorem numbered_initial : Numbered initial where
  nodup := fun _ => List.nodup_nil
  below := fun _ _ hr => by cases hr
  method := fun _ _ _ hr => by cases hr

variable {s : HttpRoutes} {req : HttpRequest}

theorem Numbered.addRoute (h : Numbered s) (method : HttpMethod)
    (newMatcher : RouteMatcher) : Numbered (s.addRoute method newMatcher) := by
  have hold : ∀ m, ∀ r ∈ (s.addRoute method newMatcher).routesOf m,
      r ∈ s.routesOf m ∨ (m = method ∧ r.id = s.matchersIdCounter) := by
    intro m r hr
    rw [routesOf_addRoute] at hr
    rcases List.mem_append.mp hr with hr | hr
    · exact .inl hr
    · split at hr
      · next hm =>
        rw [List.mem_singleton.mp hr]
        exact .inr ⟨hm, rfl⟩
      · cases hr
  refine ⟨fun m => ?_, fun m r hr => ?_, fun m m' r hr r' hr' hid => ?_⟩
  · rw [routesOf_addRoute]
    split
    · rw [List.map_append]
      refine List.nodup_append.mpr ⟨h.nodup m, by simp, ?_⟩
      rintro a ha b hb rfl
      obtain ⟨r, hr, rfl⟩ := List.mem_map.mp ha
      have hlt := h.below m r hr
      have hnew : r.id = s.matchersIdCounter := by simpa using hb
      omega
    · simpa using h.nodup m
  · show r.id < s.matchersIdCounter + 1
    rcases hold m r hr with hr | ⟨-, hnew⟩
    · exact Nat.lt_succ_of_lt (h.below m r hr)
    · omega
  · rcases hold m r hr with hr | ⟨hm, hnew⟩
    · rcases hold m' r' hr' with hr' | ⟨-, hnew'⟩
      · exact h.method m m' r hr r' hr' hid
      · have hlt := h.below m r hr
        omega
    · rcases hold m' r' hr' with hr' | ⟨hm', -⟩
      · have hlt := h.below m' r' hr'
        omega
      · exact hm.trans hm'.symm

theorem Numbered.removeRoute (h : Numbered s) (method : HttpMethod)
    (id : RouteId) : Numbered (s.removeRoute method id) := by
  have hsub : ∀ m, ((s.removeRoute method id).routesOf m).Sublist (s.routesOf m) := by
    intro m
    rw [routesOf_removeRoute]
    split
    · exact List.filter_sublist
    · exact List.Sublist.refl _
  have hcounter : (s.removeRoute method id).matchersIdCounter = s.matchersIdCounter := by
    unfold HttpRoutes.removeRoute
    split <;> rfl
  refine ⟨fun m => (h.nodup m).sublist ((hsub m).map Route.id), fun m r hr => ?_, ?_⟩
  · rw [hcounter]
    exact h.below m r ((hsub m).subset hr)
  · intro m m' r hr r' hr'
    exact h.method m m' r ((hsub m).subset hr) r' ((hsub m').subset hr')

/-! ## The reply -/

/-- A handler is registered that accepts the request. -/
def Accepts (s : HttpRoutes) (req : HttpRequest) : Prop :=
  ∃ r ∈ s.routesOf req.method, r.matcher.accepts req.route = true

/-- The loop over the routes is not run in vain: no route was ever added for the method, or one
accepts the request. -/
def Covered (s : HttpRoutes) (req : HttpRequest) : Prop :=
  s.handlers.get? req.method = none ∨ s.Accepts req

theorem select_eq_some {walk : Walk} {r : Route} (h : s.select walk req = some r) :
    r ∈ s.routesOf req.method ∧ r.matcher.accepts req.route = true := by
  unfold select at h
  cases hget : s.handlers.get? req.method with
  | none => simp [hget] at h
  | some routes =>
    rw [hget] at h
    have hfind : (walk.1 routes).find? (fun r => r.matcher.accepts req.route) = some r := h
    have haccept := List.find?_some (p := fun r : Route => r.matcher.accepts req.route) hfind
    refine ⟨?_, haccept⟩
    rw [routesOf, hget]
    exact (walk.2 routes).subset (List.mem_of_find?_eq_some hfind)

theorem select_eq_none {walk : Walk} (h : s.select walk req = none) : ¬s.Accepts req := by
  rintro ⟨r, hr, haccept⟩
  unfold select at h
  cases hget : s.handlers.get? req.method with
  | none => simp [routesOf, hget] at hr
  | some routes =>
    rw [hget] at h
    rw [routesOf, hget] at hr
    have hnone : (walk.1 routes).find? (fun r => r.matcher.accepts req.route) = none := h
    rw [List.find?_eq_none] at hnone
    exact hnone r ((walk.2 routes).mem_iff.mpr hr) haccept

theorem fallback_covered (h : s.Covered req)
    (hnone : ¬s.Accepts req) : (s.fallback req).status = HttpStatus.notFound := by
  rcases h with hget | haccept
  · simp [fallback, hget]
  · exact absurd haccept hnone

end HttpRoutes

end Ichor
