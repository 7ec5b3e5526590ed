import Ichor.Http.Client
import Ichor.Http.Head

/-! `HttpHostService::sendResponse` writes what the client reads back. -/
namespace Ichor
open FiniteTable Delimited List

/-! ## Receiving into an empty buffer -/

section
variable {c : HttpConnection} {msg rest : Bytes}

/-- A response at the front is delivered, and the handler goes on as if only the bytes behind it
had come in. -/
theorem receive_found (hbuffer : c.buffer = []) (hrunning : c.terminated = false)
    (hcap : (msg ++ rest).length ≤ bufferCap) {resp : HttpResponse}
    (hsearch : search (msg ++ rest).length (msg ++ rest) 0 = .found resp msg.length) :
    (c.receive (msg ++ rest)).handler = .deliver resp :: (c.receive rest).handler ∧
      (c.receive (msg ++ rest)).buffer = (c.receive rest).buffer := by
  have hfound := receiveResponses_found hcap hsearch
  rw [drop_left] at hfound
  have hall : ¬bufferCap < (msg ++ rest).length := by omega
  have hrest : ¬bufferCap < rest.length := by
    rw [length_append] at hcap
    omega
  simp only [HttpConnection.receive, hbuffer, hrunning, nil_append, if_neg hall, if_neg hrest,
    hfound]
  exact ⟨rfl, rfl⟩

theorem receive_not_found (hbuffer : c.buffer = []) (hrunning : c.terminated = false)
    (hcap : msg.length ≤ bufferCap) (hsearch : search msg.length msg 0 = .waiting ∨
      ∃ error, search msg.length msg 0 = .malformed error) :
    (c.receive msg).handler = [] ∨ ∃ error, (c.receive msg).handler = [.failAll error] := by
  have hall : ¬bufferCap < msg.length := by omega
  rcases hsearch with hwait | ⟨error, hbad⟩
  · refine .inl ?_
    simp [HttpConnection.receive, hbuffer, hrunning, hall, receiveResponses, receiveLoop, hwait,
      HttpConnection.tasks]
  · refine .inr ⟨error, ?_⟩
    simp [HttpConnection.receive, hbuffer, hrunning, hall, receiveResponses, receiveLoop, hbad,
      HttpConnection.tasks]

end

/-! ## What the host writes -/

def contentTypeName : Bytes := ascii "Content-Type"

/-- The bytes that `sendResponse` hands to the connection. -/
def sendResponse (response : HttpResponse) : Bytes :=
  statusLineText response.status (statusText response.status) ++ crlf ++
    response.headers.entries.flatMap (fun h => headerText h ++ crlf) ++
    (match response.contentType with
      | some contentType => headerText (contentTypeName, contentType) ++ crlf
      | none => []) ++
    if response.body ≠ [] then
      headerText (contentLengthName, decimal response.body.length) ++ crlf ++ crlf ++ response.body
    else crlf

/-- The headers of a response other than its length. -/
def plainHeaders (response : HttpResponse) : List (Bytes × Bytes) :=
  response.headers.entries ++
    response.contentType.toList.map fun contentType => (contentTypeName, contentType)

/-- The header with the length, for a response that has a body. -/
def lengthHeader (body : Bytes) : List (Bytes × Bytes) :=
  if body ≠ [] then [(contentLengthName, decimal body.length)] else []

/-- The lines of the head that is written. -/
def responseLines (response : HttpResponse) : List Bytes :=
  statusLineText response.status (statusText response.status) ::
    (plainHeaders response ++ lengthHeader response.body).map headerText

theorem sendResponse_eq (response : HttpResponse) :
    sendResponse response = headText (responseLines response) ++ response.body := by
  unfold sendResponse headText responseLines plainHeaders lengthHeader
  by_cases hbody : response.body = []
  · cases response.contentType <;> simp [hbody, flatMap_map]
  · cases response.contentType <;> simp [hbody, flatMap_map]

theorem statusText_line (status : HttpStatus) : ¬crlf <:+: statusText status := by
  have hall : ∀ e ∈ statusMatching, ¬crlf <:+: e.2 := by decide +kernel
  have hunknown : ¬crlf <:+: ascii "Unknown" := by decide
  unfold statusText
  cases h : assoc status statusMatching with
  | none => exact hunknown
  | some text => exact hall _ (assoc_mem _ _ _ h)

/-- What the client can read back: the status is in range, and the headers and the content type
hold no separator and none of the names that the host or the parser uses. -/
structure Sendable (response : HttpResponse) : Prop where
  low : 100 ≤ response.status
  high : response.status ≤ 599
  headers : ∀ h ∈ response.headers.entries, FitsHeader h.1 ∧ FitsHeader h.2 ∧
    h.1 ≠ contentLengthName ∧ h.1 ≠ transferEncodingName ∧ h.1 ≠ contentTypeName
  contentType : ∀ t, response.contentType = some t → FitsHeader t

theorem fitsHeader_decimal (n : ℕ) : FitsHeader (decimal n) where
  ne_nil := decimal_ne_nil n
  line := decimal_line n
  colon := by
    intro h
    have hmem : (32 : UInt8) ∈ decimal n := h.subset (by decide)
    have hdigit := decimal_digits hmem
    revert hdigit
    decide

section
variable {response : HttpResponse}

theorem Sendable.plainHeaders (h : Sendable response) {e : Bytes × Bytes}
    (he : e ∈ plainHeaders response) :
    FitsHeader e.1 ∧ FitsHeader e.2 ∧ e.1 ≠ contentLengthName ∧ e.1 ≠ transferEncodingName := by
  rcases mem_append.mp he with hmem | hmem
  · obtain ⟨hk, hw, hlength, hcoding, -⟩ := h.headers e hmem
    exact ⟨hk, hw, hlength, hcoding⟩
  · obtain ⟨t, ht, rfl⟩ := mem_map.mp hmem
    have hname : FitsHeader contentTypeName := ⟨by decide, by decide, by decide⟩
    have hlength : contentTypeName ≠ contentLengthName := by decide
    have hcoding : contentTypeName ≠ transferEncodingName := by decide
    exact ⟨hname, h.contentType t (by simpa using ht), hlength, hcoding⟩

theorem Sendable.lines (h : Sendable response) {l : Bytes} (hl : l ∈ responseLines response) :
    ¬crlf <:+: l ∧ l ≠ [] := by
  rcases mem_cons.mp hl with rfl | hl
  · exact ⟨statusLineText_line (statusText_line _), statusLineText_ne_nil _ _⟩
  · obtain ⟨e, he, rfl⟩ := mem_map.mp hl
    refine ⟨?_, headerText_ne_nil e⟩
    rcases mem_append.mp he with hmem | hmem
    · obtain ⟨hk, hw, -, -⟩ := h.plainHeaders hmem
      exact headerText_line hk.line hw.line
    · unfold lengthHeader at hmem
      split at hmem
      · rw [mem_singleton.mp hmem]
        exact headerText_line (by decide) (decimal_line _)
      · cases hmem

theorem Sendable.nodup (h : Sendable response) :
    ((Ichor.plainHeaders response ++ lengthHeader response.body).map Prod.fst).Nodup := by
  have htype : ((Ichor.plainHeaders response).map Prod.fst).Nodup := by
    rw [Ichor.plainHeaders, map_append]
    refine nodup_append.mpr ⟨response.headers.nodup, ?_, ?_⟩
    · cases response.contentType <;> simp
    · rintro a ha b hb rfl
      obtain ⟨e, he, rfl⟩ := mem_map.mp ha
      obtain ⟨x, hx, hname⟩ := mem_map.mp hb
      obtain ⟨t, -, rfl⟩ := mem_map.mp hx
      exact (h.headers e he).2.2.2.2 hname.symm
  rw [map_append]
  refine nodup_append.mpr ⟨htype, ?_, ?_⟩
  · unfold lengthHeader
    split <;> simp
  · rintro a ha b hb rfl
    obtain ⟨e, he, rfl⟩ := mem_map.mp ha
    have hname := (h.plainHeaders he).2.2.1
    unfold lengthHeader at hb
    split at hb
    · exact hname (by simpa using hb)
    · cases hb

open ResponseLocals in
theorem Sendable.foldl (h : Sendable response) (hlen : response.body.length < 2 ^ 64) :
    ∃ u, (responseLines response).foldl line initial = u ∧ u.halted = false ∧ u.lineNo ≠ 0 ∧
      u.crlfCounter = 1 ∧ u.chunkedTransfer = false ∧
      u.contentLength = response.body.length ∧ u.resp.status = response.status ∧
      u.resp.headers.entries = Ichor.plainHeaders response ++ lengthHeader response.body := by
  obtain ⟨u, hfold, hat, hstatus, -, -, hheaders, hcoding, hchunked, hzero⟩ :=
    foldl_head h.low h.high (statusText response.status) (Ichor.plainHeaders response)
      fun e he => ⟨(h.plainHeaders he).1, (h.plainHeaders he).2.1, (h.plainHeaders he).2.2.1⟩
  have hnocoding : declaresCoding (Ichor.plainHeaders response) = false := by
    rw [declaresCoding, any_eq_false]
    intro e he
    simpa using (h.plainHeaders he).2.2.2
  have hnochunked : declaresChunked (Ichor.plainHeaders response) = false := by
    rw [declaresChunked, any_eq_false]
    intro e he
    simp [(h.plainHeaders he).2.2.2]
  have hnodup := h.nodup
  by_cases hbody : response.body = []
  · have hnone : lengthHeader response.body = [] := by simp [lengthHeader, hbody]
    rw [hnone, append_nil] at hnodup ⊢
    refine ⟨u, ?_, hat.running, hat.lineNo, hat.counter, hchunked.trans hnochunked, ?_, hstatus, ?_⟩
    · rw [responseLines, hnone, append_nil]
      exact hfold
    · rw [hzero, hbody]
      rfl
    · rw [hheaders]
      exact Table.entries_foldl_emplace Table.empty _ hnodup
  · have hone : lengthHeader response.body =
        [(contentLengthName, decimal response.body.length)] := by
      simp [lengthHeader, hbody]
    have hplain := fitsHeader_decimal response.body.length
    have hsplit : split colonSpace (headerText (contentLengthName, decimal response.body.length)) =
        [contentLengthName, decimal response.body.length] :=
      split_headerText ⟨by decide, by decide, by decide⟩ hplain
    have hbad := (halted_eq_false.mp hat.running).1
    have hline : u.line (headerText (contentLengthName, decimal response.body.length)) =
        { u.addHeader contentLengthName (decimal response.body.length) with
          contentLength := response.body.length
          contentLengthHeader := false
          contentLengthSet := true
          crlfCounter := 1 }.count
            (headerText (contentLengthName, decimal response.body.length)) := by
      rw [line_text hat.running hat.lineNo (headerText_ne_nil _), textLine, hat.status]
      show (({ headerWords.line u _ with crlfCounter := 1 } : ResponseLocals).count _) = _
      rw [headerLine_contentLength hbad hat.unset (hcoding.trans hnocoding) hsplit
        (isOnlyDigits_decimal _), fastAtoiu_decimal hlen]
    refine ⟨_, rfl, ?_⟩
    have hlines : responseLines response =
        (statusLineText response.status (statusText response.status) ::
          (Ichor.plainHeaders response).map headerText) ++
            [headerText (contentLengthName, decimal response.body.length)] := by
      simp [responseLines, hone]
    rw [hlines, foldl_append, hfold, foldl_cons, foldl_nil, hline]
    refine ⟨hat.running, Nat.succ_ne_zero _, rfl, hchunked.trans hnochunked, rfl, hstatus, ?_⟩
    show (u.resp.headers.emplace contentLengthName (decimal response.body.length)).entries = _
    rw [hheaders, hone]
    have hentries := Table.entries_foldl_emplace Table.empty
      (Ichor.plainHeaders response ++ [(contentLengthName, decimal response.body.length)])
      (by rw [← hone]; exact hnodup)
    rw [foldl_append] at hentries
    exact hentries

theorem Sendable.search (h : Sendable response) {rest : Bytes}
    (hcap : (sendResponse response ++ rest).length ≤ bufferCap) :
    ∃ resp, Ichor.search (sendResponse response ++ rest).length (sendResponse response ++ rest) 0 =
        .found resp (sendResponse response).length ∧
      resp.status = response.status ∧ resp.body = response.body ++ [0] ∧
      resp.headers.entries = Ichor.plainHeaders response ++ lengthHeader response.body := by
  have hcap64 := bufferCap_lt
  rw [sendResponse_eq] at hcap ⊢
  have hlen : response.body.length < 2 ^ 64 := by
    simp only [length_append] at hcap
    omega
  obtain ⟨u, hfold, hrunning, hlineNo, hcounter, hchunked, hlength, hstatus, hheaders⟩ :=
    h.foldl hlen
  exact ⟨_, search_head (cons_ne_nil _ _) (fun l hl => h.lines hl) hfold hrunning hlineNo
    hcounter hchunked hlength (hcap.trans_lt hcap64), hstatus, rfl, hheaders⟩

/-- Receiving what the host wrote, with anything behind it, delivers one response with the
status, the headers and the body, and goes on as if only the bytes behind it had come in. -/
theorem receive_sendResponse (h : Sendable response) {rest : Bytes}
    (hcap : (sendResponse response ++ rest).length ≤ bufferCap) {c : HttpConnection}
    (hbuffer : c.buffer = []) (hrunning : c.terminated = false) :
    ∃ resp : HttpResponse, resp.status = response.status ∧
      resp.headers.entries = response.headers.entries ++
        (response.contentType.toList.map fun t => (contentTypeName, t)) ++
        (if response.body ≠ [] then [(contentLengthName, decimal response.body.length)] else []) ∧
      resp.body = response.body ++ [0] ∧
      (c.receive (sendResponse response ++ rest)).handler =
        .deliver resp :: (c.receive rest).handler ∧
      (c.receive (sendResponse response ++ rest)).buffer = (c.receive rest).buffer := by
  obtain ⟨resp, hsearch, hstatus, hbody, hheaders⟩ := h.search hcap
  exact ⟨resp, hstatus, hheaders, hbody, receive_found hbuffer hrunning hcap hsearch⟩

end

/-- A small response with two headers, in front of the next one. -/
theorem receive_sendResponse_hello :
    let response : HttpResponse := ⟨200, some (ascii "text/plain"), ascii "a\r\n\r\nb",
      ⟨[(ascii "Server", ascii "Ichor"), (ascii "X-Id", ascii "a:b")], by decide⟩⟩
    ∃ resp : HttpResponse, resp.status = 200 ∧ resp.body = response.body ++ [0] ∧
      resp.headers.entries.length = 4 ∧
      (HttpConnection.initial.receive (sendResponse response ++ ascii "HTTP/1.1")).handler =
        [.deliver resp] := by
  intro response
  have hsendable : Sendable response := by
    refine ⟨by decide, by decide, ?_, ?_⟩
    · intro h hmem
      have hheaders : ∀ h ∈ response.headers.entries, (h.1 ≠ [] ∧ ¬crlf <:+: h.1 ∧
          ¬colonSpace <:+: h.1) ∧ (h.2 ≠ [] ∧ ¬crlf <:+: h.2 ∧ ¬colonSpace <:+: h.2) ∧
          h.1 ≠ contentLengthName ∧ h.1 ≠ transferEncodingName ∧ h.1 ≠ contentTypeName := by
        decide
      obtain ⟨⟨k1, k2, k3⟩, ⟨w1, w2, w3⟩, hnames⟩ := hheaders h hmem
      exact ⟨⟨k1, k2, k3⟩, ⟨w1, w2, w3⟩, hnames⟩
    · rintro t ht
      cases ht
      exact ⟨by decide, by decide, by decide⟩
  obtain ⟨resp, hstatus, hheaders, hbody, hhandler, -⟩ :=
    @receive_sendResponse _ hsendable (ascii "HTTP/1.1") (by decide) HttpConnection.initial rfl rfl
  exact ⟨resp, hstatus, hbody, by rw [hheaders]; rfl, hhandler⟩

/-- The client gives up a buffer of more than 512 MiB, so a larger body does not come through. -/
theorem receive_sendResponse_overflow :
    let response : HttpResponse := ⟨200, none, List.replicate (bufferCap + 1) 0, Table.empty⟩
    let c : HttpConnection := { HttpConnection.initial with events := [⟨0, false⟩] }
    Sendable response ∧ (c.receive (sendResponse response)).handler = [.overflow 0] ∧
      (c.receive (sendResponse response)).buffer = [] := by
  intro response c
  have hlong : bufferCap < (sendResponse response).length := by
    rw [sendResponse_eq, length_append]
    show bufferCap < _ + (List.replicate (bufferCap + 1) (0 : UInt8)).length
    rw [length_replicate]
    omega
  have hlong' : bufferCap < (c.buffer ++ sendResponse response).length := hlong
  refine ⟨⟨by show 100 ≤ 200; decide, by show 200 ≤ 599; decide, ?_, ?_⟩, ?_⟩
  · intro h hmem
    cases hmem
  · intro t ht
    cases ht
  · have hreceive : c.receive (sendResponse response) =
        { c with
          received := sendResponse response
          buffer := []
          handler := [.overflow 0]
          userCode := false } := by
      simp only [HttpConnection.receive]
      rw [if_pos hlong']
      rfl
    rw [hreceive]
    exact ⟨rfl, rfl⟩

end Ichor
