import Ichor.Http.Host

/-! What the host replies: the response of a registered handler that accepts the request, or "not
found", unless routes were added for the method and none accepts. -/
namespace Ichor

/-- A status that the client accepts. -/
def InRange (status : ℕ) : Prop := 100 ≤ status ∧ status ≤ 599

theorem statusLine_inRange {status : ℕ} (h : InRange status) (reason : Bytes) :
    (ResponseLocals.initial.statusLine (statusLineText status reason)).badRequest = false := by
  have hvalue : fastAtoiu (decimal status) = status := fastAtoiu_decimal (by have := h.2; omega)
  rw [ResponseLocals.statusLine_words (v := ResponseLocals.initial) rfl
    (split_statusLineText status reason) (decimal_ne_nil status) (isOnlyDigits_decimal status)
    (by rw [hvalue]; exact h.1) (by rw [hvalue]; exact h.2)]
  rfl

namespace HttpHost

/-- The request that a step takes out of a view finds a handler, or no route was ever added for
its method; and handlers answer with a status in range. -/
def Served (h : HttpHost) : HostAction → Prop
  | .start _ => ∀ req len, searchRequest h.buffer = .found req len → h.routes.Covered req
  | .sent run _ => ∀ msg pos, h.runs[run]? = some (.sending msg pos) →
      ∀ req len, searchRequest (msg.drop pos) = .found req len → h.routes.Covered req
  | .handled _ resp => InRange resp.status
  | _ => True

/-- All that was written has a status in range, and ids are given once. -/
structure WellWritten (h : HttpHost) : Prop where
  written : ∀ e ∈ h.written, InRange e.2.status
  numbered : h.routes.Numbered

variable {h : HttpHost}

theorem WellWritten.write (hs : WellWritten h) (req : Option HttpRequest) (resp : HttpResponse)
    (hresp : InRange resp.status) : WellWritten (h.write req resp) := by
  unfold HttpHost.write
  split
  · refine ⟨fun e he => ?_, hs.numbered⟩
    rcases List.mem_append.mp he with he | he
    · exact hs.written e he
    · rw [List.mem_singleton.mp he]
      exact hresp
  · exact hs

theorem inRange_fallback {s : HttpRoutes} {req : HttpRequest} (h : s.Covered req)
    (hnone : ¬s.Accepts req) : InRange (s.fallback req).status := by
  rw [HttpRoutes.fallback_covered h hnone]
  exact ⟨by decide, by decide⟩

theorem WellWritten.serve (hs : WellWritten h) (walk : Walk) (msg : Bytes)
    (hcovered : ∀ req len, searchRequest msg = .found req len → h.routes.Covered req) :
    WellWritten (h.serve walk msg) := by
  unfold HttpHost.serve
  split
  · exact ⟨hs.written, hs.numbered⟩
  · have hbad := hs.write none (statusOnly HttpStatus.badRequest) ⟨by decide, by decide⟩
    exact ⟨hbad.written, hbad.numbered⟩
  · next req len hsearch =>
    split
    · exact ⟨hs.written, hs.numbered⟩
    · next hselect =>
      have hnone := HttpRoutes.select_eq_none hselect
      have hnext := hs.write (some req) _ (inRange_fallback (hcovered req len hsearch) hnone)
      exact ⟨hnext.written, hnext.numbered⟩
  · exact ⟨hs.written, hs.numbered⟩

theorem WellWritten.act {h' : HttpHost} (hs : WellWritten h) {a : HostAction} (hserved : h.Served a)
    (hact : HttpHost.act a h = some h') : WellWritten h' := by
  have heffect := (act_effect hact).2
  cases a with
  | addRoute method matcher =>
    cases heffect
    exact ⟨hs.written, hs.numbered.addRoute method matcher⟩
  | removeRoute method id =>
    cases heffect
    exact ⟨hs.written, hs.numbered.removeRoute method id⟩
  | receive bytes | close =>
    obtain ⟨-, rfl⟩ := heffect
    exact ⟨hs.written, hs.numbered⟩
  | start walk =>
    obtain ⟨-, rfl⟩ := heffect
    simp only [HttpHost.start]
    split
    · have hcleared : WellWritten { h with queued := h.queued - 1, buffer := [] } :=
        ⟨hs.written, hs.numbered⟩
      have hlarge := hcleared.write none (statusOnly HttpStatus.internalServerError)
        ⟨by decide, by decide⟩
      exact ⟨hlarge.written, hlarge.numbered⟩
    · have hstarted : WellWritten { h with queued := h.queued - 1 } := ⟨hs.written, hs.numbered⟩
      exact hstarted.serve walk h.buffer hserved
  | handled run resp =>
    obtain ⟨msg, pos, req, -, rfl⟩ := heffect
    have hnext := hs.write (some req) resp hserved
    exact ⟨hnext.written, hnext.numbered⟩
  | sent run walk =>
    have hsame : WellWritten { h with runs := h.runs.eraseIdx run } := ⟨hs.written, hs.numbered⟩
    rcases heffect with ⟨msg, pos, hrun, rfl⟩ | ⟨-, rfl⟩
    · simp only [HttpHost.sent]
      split
      · exact hsame
      · split
        · exact ⟨hs.written, hs.numbered⟩
        · exact hsame.serve walk _ (hserved msg pos hrun)
    · exact hsame

theorem WellWritten.run (hrun : RunWhere Served initial h) : WellWritten h :=
  GuardedRuns.Run.invariant hrun WellWritten ⟨fun _ he => (by cases he), HttpRoutes.numbered_initial⟩
    fun _ _ _ hs hserved hact => hs.act hserved hact

/-- What a run writes for the request that it has found is the reply: at once if no route is
selected, and otherwise when the handler of that route has answered. -/
theorem serve_writes_reply (walk : Walk) (answer : RouteId → HttpRequest → HttpResponse)
    {msg : Bytes} {req : HttpRequest} {len : ℕ} (hfound : searchRequest msg = .found req len)
    (hup : h.connected = true) (halive : h.terminated = false) :
    ∃ h', (h' = h.serve walk msg ∨ ∃ r, h.routes.select walk req = some r ∧
        act (.handled h.runs.length (answer r.id (HttpRoutes.withParams req r)))
          (h.serve walk msg) = some h') ∧
      h'.written = h.written ++ [(some req, h.routes.reply walk answer req)] := by
  cases hselect : h.routes.select walk req with
  | none =>
    refine ⟨_, .inl rfl, ?_⟩
    simp [HttpHost.serve, HttpRoutes.reply, hfound, hselect, HttpHost.write, hup]
  | some r =>
    have hact : ∃ h', act (.handled h.runs.length (answer r.id (HttpRoutes.withParams req r)))
        (h.serve walk msg) = some h' ∧
          h'.written = h.written ++ [(some req, h.routes.reply walk answer req)] := by
      simp [HttpHost.serve, HttpRoutes.reply, hfound, hselect, HttpHost.act, halive, HttpHost.write, hup]
    obtain ⟨h', hact, hwritten⟩ := hact
    exact ⟨h', .inr ⟨r, rfl, hact⟩, hwritten⟩

end HttpHost

end Ichor
