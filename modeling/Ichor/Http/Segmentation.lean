import Ichor.Http.Client
import Ichor.Http.Stability

/-! The client does not see how a stream of responses was cut: what it delivers and keeps is
determined by all that has come in. -/
namespace Ichor.HttpConnection
open Framing List

/-- Calls wait for their responses, and nothing has come in. -/
structure Ready (c : HttpConnection) : Prop where
  connected : c.connected = true
  buffer : c.buffer = []
  handler : c.handler = []
  received : c.received = []
  running : c.terminated = false
  waiting : ∀ e ∈ c.events, e.isSet = false

/-- The calls that get the responses, in order. -/
def paired (events : List ResponseEvent) (responses : List HttpResponse) :
    List (SendCall × Except HttpParseError HttpResponse) :=
  (events.map ResponseEvent.call).zip (responses.map .ok)

/-- What the handler still has to do for the responses that are not delivered yet. -/
def remaining (todo : List HttpResponse) (crash : Bool) : List HandlerTask :=
  todo.map .deliver ++ if crash then [.crash] else []

/-- The state between two steps, as the bytes that have come in determine it: some of their
responses have been delivered, and the handler is to deliver the others. -/
structure Following (c₀ c : HttpConnection) (done todo : List HttpResponse) : Prop where
  responses : (receiveResponses c.received).responses = done ++ todo
  handler : c.handler = remaining todo ((receiveResponses c.received).crashed && !c.terminated)
  completed : c.completed = c₀.completed ++ paired c₀.events done
  events : c.events = c₀.events.drop done.length
  buffer : c.buffer = (receiveResponses c.received).rest
  ended : c.terminated = true → (receiveResponses c.received).crashed = true

theorem tasks_eq {r : Reception} (h : r.error = none) :
    tasks r = remaining r.responses r.crashed := by
  simp [tasks, remaining, h]

theorem receiveResponses_nil : receiveResponses [] = ⟨[], [], none, false⟩ := by rfl

theorem receiveResponses_rest {msg : Bytes} (hcap : msg.length ≤ bufferCap) :
    (receiveResponses msg).rest.length ≤ msg.length := by
  have hdrain := Framer.drain_length (F := responseFramer) hcap
  rw [receiveResponses_eq hcap]
  unfold stuckAt
  split
  · exact hdrain
  · exact Nat.zero_le _
  · exact hdrain

variable {c c₀ : HttpConnection} {done todo : List HttpResponse}

theorem Ready.following (h : Ready c) : Following c c [] [] where
  responses := by rw [h.received, receiveResponses_nil]; rfl
  handler := by rw [h.received, receiveResponses_nil, h.handler]; rfl
  completed := by simp [paired]
  events := by simp
  buffer := by rw [h.received, receiveResponses_nil, h.buffer]
  ended := by
    intro hover
    rw [h.running] at hover
    cases hover

/-! ## The steps -/

theorem paired_snoc (events : List ResponseEvent) (done : List HttpResponse) (resp : HttpResponse) :
    paired events (done ++ [resp]) =
      paired events done ++ paired (events.drop done.length) [resp] := by
  induction done generalizing events with
  | nil => simp [paired]
  | cons r done ih =>
    cases events with
    | nil => simp [paired]
    | cons e events =>
      have hrest : (e.call, .ok r) :: paired events (done ++ [resp]) =
          (e.call, .ok r) :: (paired events done ++ paired (events.drop done.length) [resp]) :=
        congrArg _ (ih events)
      exact hrest

theorem Following.proceed
    (h : Following c₀ c done todo) (hready : Ready c₀) (hne : c.handler ≠ []) :
    (∃ done' todo', Following c₀ c.proceed done' todo') ∧
      c.proceed.handler = c.handler.tail ∧ c.proceed.received = c.received := by
  cases todo with
  | nil =>
    cases hcrash : (receiveResponses c.received).crashed && !c.terminated with
    | false =>
      have hnil := h.handler
      rw [hcrash] at hnil
      exact absurd hnil hne
    | true =>
      have hhandler : c.handler = [.crash] := by
        rw [h.handler, hcrash]
        rfl
      rw [Bool.and_eq_true] at hcrash
      have hproceed : c.proceed = { c with handler := [], terminated := true } := by
        simp [HttpConnection.proceed, hhandler]
      rw [hproceed]
      refine ⟨⟨done, [], ?_⟩, by simp [hhandler], rfl⟩
      exact { h with handler := by simp [remaining], ended := fun _ => hcrash.1 }
  | cons resp todo =>
    have hhandler : c.handler =
        .deliver resp :: remaining todo ((receiveResponses c.received).crashed && !c.terminated) := by
      rw [h.handler]
      rfl
    have hresponses : (receiveResponses c.received).responses = (done ++ [resp]) ++ todo := by
      rw [h.responses]
      simp
    cases hevents : c₀.events.drop done.length with
    | nil =>
      have hproceed : c.proceed = { c with
          handler := remaining todo ((receiveResponses c.received).crashed && !c.terminated)
          userCode := false } := by
        simp [HttpConnection.proceed, hhandler, h.events, hevents]
      rw [hproceed]
      refine ⟨⟨done ++ [resp], todo, ?_⟩, by simp [hhandler], rfl⟩
      refine ⟨hresponses, rfl, ?_, ?_, h.buffer, h.ended⟩
      · rw [paired_snoc, hevents]
        simpa [paired] using h.completed
      · rw [length_append, ← drop_drop, hevents]
        exact h.events.trans hevents
    | cons e rest =>
      have hunset : e.isSet = false :=
        hready.waiting e (mem_of_mem_drop (hevents ▸ mem_cons_self))
      have hproceed : c.proceed = { c with
          completed := c.completed ++ [(e.call, .ok resp)]
          userCode := true
          events := rest
          handler := remaining todo ((receiveResponses c.received).crashed && !c.terminated) } := by
        simp [HttpConnection.proceed, hhandler, h.events, hevents, setEvent, hunset]
      rw [hproceed]
      refine ⟨⟨done ++ [resp], todo, ?_⟩, by simp [hhandler], rfl⟩
      refine ⟨hresponses, rfl, ?_, ?_, h.buffer, h.ended⟩
      · show c.completed ++ [(e.call, .ok resp)] = _
        rw [paired_snoc, hevents, h.completed, append_assoc]
        simp [paired]
      · show rest = _
        rw [length_append, ← drop_drop, hevents]
        rfl

theorem Following.receive (h : Following c₀ c done todo) (hidle : c.handler = []) {bytes : Bytes}
    (hcap : (c.received ++ bytes).length ≤ bufferCap)
    (hgood : ∀ p, p <+: c.received ++ bytes → (receiveResponses p).error = none) :
    ∃ todo', Following c₀ (c.receive bytes) done todo' := by
  have htodo : todo = [] ∧
      ((receiveResponses c.received).crashed && !c.terminated) = false := by
    have hnil := h.handler.symm.trans hidle
    simp only [remaining, append_eq_nil_iff, map_eq_nil_iff] at hnil
    refine ⟨hnil.1, ?_⟩
    cases hcrash : (receiveResponses c.received).crashed && !c.terminated with
    | false => rfl
    | true => simp [hcrash] at hnil
  obtain ⟨rfl, hover⟩ := htodo
  have herror := hgood c.received (prefix_append _ _)
  cases hterm : c.terminated with
  | true =>
    -- the process is gone, and more bytes change nothing
    have hcrash := h.ended hterm
    have hsame := receiveResponses_append_crashed hcap hcrash
    have hreceive : c.receive bytes = { c with received := c.received ++ bytes } := by
      simp [HttpConnection.receive, hterm]
    refine ⟨[], ?_⟩
    rw [hreceive]
    refine ⟨?_, ?_, h.completed, h.events, ?_, fun _ => ?_⟩
    · show (receiveResponses (c.received ++ bytes)).responses = _
      rw [hsame]
      exact h.responses
    · show c.handler = remaining [] ((receiveResponses (c.received ++ bytes)).crashed && _)
      rw [hidle, hterm]
      simp [remaining]
    · show c.buffer = (receiveResponses (c.received ++ bytes)).rest
      rw [hsame]
      exact h.buffer
    · show (receiveResponses (c.received ++ bytes)).crashed = true
      rw [hsame]
      exact hcrash
  | false =>
    have hcrash : (receiveResponses c.received).crashed = false := by
      simpa [hterm] using hover
    have happend := receiveResponses_append hcap herror hcrash
    rw [← h.buffer] at happend
    have hshort : ¬bufferCap < (c.buffer ++ bytes).length := by
      have hrest := receiveResponses_rest (length_left_le hcap)
      rw [← h.buffer] at hrest
      rw [length_append] at hcap ⊢
      omega
    have hreceive : c.receive bytes = { c with
        received := c.received ++ bytes
        buffer := (receiveResponses (c.buffer ++ bytes)).rest
        handler := tasks (receiveResponses (c.buffer ++ bytes))
        userCode := false } := by
      simp only [HttpConnection.receive, hterm, hshort]
      rfl
    refine ⟨(receiveResponses (c.buffer ++ bytes)).responses, ?_⟩
    rw [hreceive]
    refine ⟨?_, ?_, h.completed, h.events, ?_, fun htrue => ?_⟩
    · show (receiveResponses (c.received ++ bytes)).responses = _
      have hresponses := h.responses
      rw [append_nil] at hresponses
      rw [happend, hresponses]
    · show tasks _ = remaining _ ((receiveResponses (c.received ++ bytes)).crashed && _)
      have herror' : (receiveResponses (c.buffer ++ bytes)).error = none := by
        have hall := hgood (c.received ++ bytes) prefix_rfl
        rwa [happend] at hall
      rw [happend, tasks_eq herror', hterm]
      simp
    · show _ = (receiveResponses (c.received ++ bytes)).rest
      rw [happend]
    · rw [hterm] at htrue
      cases htrue

/-! ## Whole streams -/

/-- Let the handler go on until it is over. Fuel for its turns. -/
def settle : ℕ → HttpConnection → HttpConnection
  | 0, c => c
  | n + 1, c => if c.handler.isEmpty then c else settle n c.proceed

/-- The turns that the handler can take: one for each task, and one more for each event when it
sets all of them. -/
def turns (c : HttpConnection) : ℕ := c.handler.length + c.events.length

/-- One receive call, with its handler run to the end. -/
def handle (c : HttpConnection) (bytes : Bytes) : HttpConnection :=
  settle (c.receive bytes).turns (c.receive bytes)

theorem Following.settle {n : ℕ}
    (h : Following c₀ c done todo) (hready : Ready c₀) (hn : c.handler.length ≤ n) :
    (∃ done' todo', Following c₀ (settle n c) done' todo') ∧
      (settle n c).handler = [] ∧ (settle n c).received = c.received := by
  induction n generalizing c done todo with
  | zero => exact ⟨⟨done, todo, h⟩, length_eq_zero_iff.mp (Nat.le_zero.mp hn), rfl⟩
  | succ n ih =>
    unfold HttpConnection.settle
    split
    · next hidle => exact ⟨⟨done, todo, h⟩, isEmpty_iff.mp hidle, rfl⟩
    · next hbusy =>
      have hne : c.handler ≠ [] := fun hnil => hbusy (isEmpty_iff.mpr hnil)
      obtain ⟨⟨done', todo', hnext⟩, htail, hreceived⟩ := h.proceed hready hne
      have hshort : c.proceed.handler.length ≤ n := by
        rw [htail, length_tail]
        omega
      obtain ⟨hfollow, hover, hall⟩ := ih hnext hshort
      exact ⟨hfollow, hover, hall.trans hreceived⟩

theorem received_receive (c : HttpConnection) (bytes : Bytes) :
    (c.receive bytes).received = c.received ++ bytes := by
  simp only [HttpConnection.receive]
  split
  · rfl
  · split <;> rfl

theorem Following.handle_all
    (h : Following c₀ c done todo) (hready : Ready c₀) (hidle : c.handler = [])
    (cut : List Bytes) (hcap : (c.received ++ cut.flatten).length ≤ bufferCap)
    (hgood : ∀ p, p <+: c.received ++ cut.flatten → (receiveResponses p).error = none) :
    (∃ done' todo', Following c₀ (cut.foldl handle c) done' todo') ∧
      (cut.foldl handle c).handler = [] ∧
      (cut.foldl handle c).received = c.received ++ cut.flatten := by
  induction cut generalizing c done todo with
  | nil => exact ⟨⟨done, todo, h⟩, hidle, by simp⟩
  | cons bytes cut ih =>
    rw [flatten_cons, ← append_assoc] at hcap hgood
    have hpre : c.received ++ bytes <+: (c.received ++ bytes) ++ cut.flatten :=
      prefix_append _ _
    obtain ⟨todo', hreceive⟩ := h.receive hidle (Nat.le_trans hpre.length_le hcap)
      fun p hp => hgood p (hp.trans hpre)
    obtain ⟨⟨done', todo'', hsettled⟩, hover, hreceived⟩ :=
      hreceive.settle hready (Nat.le_add_right _ _)
    rw [received_receive] at hreceived
    have hrest := ih hsettled hover (by rw [hreceived]; exact hcap) (by rw [hreceived]; exact hgood)
    rw [hreceived] at hrest
    rw [flatten_cons, ← append_assoc]
    exact hrest

theorem Following.settled (h : Following c₀ c done todo) (hidle : c.handler = []) :
    c.completed = c₀.completed ++ paired c₀.events (receiveResponses c.received).responses ∧
      c.buffer = (receiveResponses c.received).rest := by
  have hnil := h.handler.symm.trans hidle
  simp only [remaining, append_eq_nil_iff, map_eq_nil_iff] at hnil
  have hall := h.responses
  rw [hnil.1, append_nil] at hall
  rw [hall]
  exact ⟨h.completed, h.buffer⟩

theorem Ready.handle_all (hready : Ready c₀) {cut : List Bytes}
    (hcap : cut.flatten.length ≤ bufferCap)
    (hgood : ∀ p, p <+: cut.flatten → (receiveResponses p).error = none) :
    (cut.foldl handle c₀).completed =
        c₀.completed ++ paired c₀.events (receiveResponses cut.flatten).responses ∧
      (cut.foldl handle c₀).buffer = (receiveResponses cut.flatten).rest := by
  obtain ⟨⟨done, todo, hfollow⟩, hidle, hreceived⟩ :=
    hready.following.handle_all hready hready.handler cut
      (by rw [hready.received]; exact hcap) (by rw [hready.received]; exact hgood)
  have hsettled := hfollow.settled hidle
  rw [hreceived, hready.received, nil_append] at hsettled
  exact hsettled

/-- The results of the calls that have completed since an earlier state, in order. -/
def delivered (c₀ c : HttpConnection) : List (Except HttpParseError HttpResponse) :=
  (c.completed.drop c₀.completed.length).map Prod.snd

/-- However a stream of responses is cut into receive calls, the calls that wait get the
responses that the whole stream holds, and the buffer keeps the rest. -/
theorem handle_cut {c₀ : HttpConnection} (hready : Ready c₀) {stream : Bytes}
    (hcap : stream.length ≤ bufferCap)
    (hgood : ∀ p, p <+: stream → (receiveResponses p).error = none)
    (henough : (receiveResponses stream).responses.length ≤ c₀.events.length)
    {cut cut' : List Bytes} (hcut : cut.flatten = stream) (hcut' : cut'.flatten = stream) :
    delivered c₀ (cut.foldl handle c₀) = delivered c₀ (cut'.foldl handle c₀) ∧
      (cut.foldl handle c₀).buffer = (cut'.foldl handle c₀).buffer ∧
      delivered c₀ (cut.foldl handle c₀) = delivered c₀ (c₀.handle stream) ∧
      (cut.foldl handle c₀).buffer = (c₀.handle stream).buffer ∧
      delivered c₀ (c₀.handle stream) = (receiveResponses stream).responses.map .ok ∧
      (c₀.handle stream).buffer = (receiveResponses stream).rest := by
  have hany : ∀ cut : List Bytes, cut.flatten = stream →
      delivered c₀ (cut.foldl handle c₀) = (receiveResponses stream).responses.map .ok ∧
      (cut.foldl handle c₀).buffer = (receiveResponses stream).rest := by
    intro cut hcut
    subst hcut
    obtain ⟨hcompleted, hbuffer⟩ := hready.handle_all hcap hgood
    refine ⟨?_, hbuffer⟩
    rw [delivered, hcompleted, drop_left]
    exact map_snd_zip (by simpa using henough)
  have hone := hany [stream] (by simp)
  obtain ⟨h, hb⟩ := hany cut hcut
  obtain ⟨h', hb'⟩ := hany cut' hcut'
  exact ⟨h.trans h'.symm, hb.trans hb'.symm, h.trans hone.1.symm, hb.trans hone.2.symm, hone⟩

/-- Two responses, one with a body and one without, cut inside the first one's terminator. -/
theorem handle_cut_twoResponses :
    let c₀ : HttpConnection := { initial with events := [⟨0, false⟩, ⟨1, false⟩] }
    let cut := [ascii "HTTP/1.1 200 OK\r\nContent-Length: 2\r\n\r", ascii "\nhiHTTP/1.1 204 No",
      ascii " Content\r\n\r\nHT"]
    (delivered c₀ (cut.foldl handle c₀)).length = 2 ∧
      (cut.foldl handle c₀).buffer = ascii "HT" ∧
      delivered c₀ (cut.foldl handle c₀) = delivered c₀ (c₀.handle cut.flatten) := by
  intro c₀ cut
  have hready : Ready c₀ := ⟨rfl, rfl, rfl, rfl, rfl, by decide⟩
  have hgood : ∀ p ∈ cut.flatten.inits, (receiveResponses p).error = none := by
    decide +kernel
  have hcut := @handle_cut c₀ hready cut.flatten (by decide)
    (fun p hp => hgood p ((mem_inits p _).mpr hp)) (by decide) cut cut rfl rfl
  exact ⟨by rw [hcut.2.2.1, hcut.2.2.2.2.1]; decide, by rw [hcut.2.2.2.1, hcut.2.2.2.2.2]; decide,
    hcut.2.2.1⟩

end Ichor.HttpConnection
