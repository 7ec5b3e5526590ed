import Ichor.Http.Respond

/-! `HttpConnectionService::sendAsync` up to the bytes that it hands to the connection, and the
host reading them. -/
namespace Ichor
open FiniteTable Delimited List

def hostName : Bytes := ascii "Host"

/-- A name or a value that `sendAsync` refuses to format. -/
def refused (t : Bytes) : Bool :=
  t.isEmpty || decide (t.head? = some 32) || decide (t.getLast? = some 32)

/-- The first line of a request. -/
def requestLineText (method route : Bytes) : Bytes :=
  method ++ space ++ (route ++ space ++ httpVersionMatch)

/-- The text of the headers, as long as each is formatted. -/
def formatHeaders (resp : Bytes) : List (Bytes × Bytes) → Except HttpError Bytes
  | [] => .ok resp
  | h :: headers =>
    if refused h.1 then .error .unableToParseHeader
    else if refused h.2 then .error .unableToParseHeader
    else formatHeaders (resp ++ (headerText h ++ crlf)) headers

/-- The lines that the client adds, the empty line and the body. -/
def formatRest (resp : Bytes) (address : Option Bytes) (headers : Headers) (msg : Bytes) : Bytes :=
  let resp :=
    match headers.get? hostName, address with
    | none, some address => resp ++ (headerText (hostName, address) ++ crlf)
    | _, _ => resp
  let resp :=
    if msg ≠ [] then resp ++ (headerText (contentLengthName, decimal msg.length) ++ crlf) else resp
  let resp := resp ++ crlf
  if msg ≠ [] then resp ++ msg else resp

/-- The bytes of a request, or why it is not sent. -/
def sendAsync (connected : Bool) (address : Option Bytes) (method : HttpMethod) (route : Bytes)
    (headers : Headers) (msg : Bytes) : Except HttpError Bytes :=
  if !connected then .error .noConnection
  else if method = .get ∧ msg ≠ [] then .error .getRequestsCannotHaveBody
  else
    match assoc method reverseMethodMatching with
    | none => .error .wrongMethod
    | some methodText =>
      (formatHeaders (requestLineText methodText route ++ crlf) headers.entries).map fun resp =>
        formatRest resp address headers msg

/-- The `Host` header that is added. -/
def hostHeader (address : Option Bytes) (headers : Headers) : List (Bytes × Bytes) :=
  match headers.get? hostName, address with
  | none, some address => [(hostName, address)]
  | _, _ => []

/-- The lines of the head that is written. -/
def requestLines (methodText route : Bytes) (hs : List (Bytes × Bytes)) : List Bytes :=
  requestLineText methodText route :: hs.map headerText

theorem formatHeaders_ok {resp out : Bytes} {hs : List (Bytes × Bytes)}
    (h : formatHeaders resp hs = .ok out) :
    out = resp ++ hs.flatMap (fun h => headerText h ++ crlf) ∧ ∀ h ∈ hs, h.1 ≠ [] ∧ h.2 ≠ [] := by
  induction hs generalizing resp with
  | nil =>
    cases h
    simp
  | cons e hs ih =>
    unfold formatHeaders at h
    split at h
    · cases h
    · next hname =>
      split at h
      · cases h
      · next hvalue =>
        obtain ⟨hout, hall⟩ := ih h
        refine ⟨by rw [hout]; simp, fun x hx => ?_⟩
        rcases mem_cons.mp hx with rfl | hx
        · simp only [refused, Bool.or_eq_true, List.isEmpty_iff, not_or] at hname hvalue
          exact ⟨hname.1.1, hvalue.1.1⟩
        · exact hall x hx

theorem formatRest_eq (resp : Bytes) (address : Option Bytes) (headers : Headers) (msg : Bytes) :
    formatRest resp address headers msg =
      resp ++ (hostHeader address headers ++ lengthHeader msg).flatMap
        (fun h => headerText h ++ crlf) ++ crlf ++ msg := by
  unfold formatRest hostHeader lengthHeader
  by_cases hmsg : msg = []
  · cases headers.get? hostName <;> cases address <;> simp [hmsg]
  · cases headers.get? hostName <;> cases address <;> simp [hmsg]

theorem sendAsync_ok {connected : Bool} {address : Option Bytes} {method : HttpMethod}
    {route : Bytes} {headers : Headers} {msg bytes : Bytes}
    (h : sendAsync connected address method route headers msg = .ok bytes) :
    ∃ methodText, assoc method reverseMethodMatching = some methodText ∧
      bytes = headText (requestLines methodText route
        (headers.entries ++ hostHeader address headers ++ lengthHeader msg)) ++ msg ∧
      ∀ h ∈ headers.entries, h.1 ≠ [] ∧ h.2 ≠ [] := by
  unfold sendAsync at h
  split at h
  · cases h
  · split at h
    · cases h
    · split at h
      · cases h
      · next methodText hmethod =>
        cases hformat : formatHeaders (requestLineText methodText route ++ crlf) headers.entries with
        | error e =>
          rw [hformat] at h
          cases h
        | ok resp =>
          rw [hformat] at h
          cases h
          obtain ⟨hresp, hne⟩ := formatHeaders_ok hformat
          refine ⟨methodText, hmethod, ?_, hne⟩
          show formatRest resp address headers msg = _
          rw [formatRest_eq, hresp]
          simp [headText, requestLines, flatMap_map]

/-- What the host reads back: the route holds no separator of the first line, and the headers and
the address hold no separator of the headers; the length is left to the client. -/
structure Readable (address : Option Bytes) (route : Bytes) (headers : Headers) : Prop where
  path : ¬space <:+: route ∧ ¬crlf <:+: route
  given : ∀ h ∈ headers.entries, (¬crlf <:+: h.1 ∧ ¬colonSpace <:+: h.1) ∧
    (¬crlf <:+: h.2 ∧ ¬colonSpace <:+: h.2) ∧ h.1 ≠ contentLengthName
  host : ∀ a, address = some a → headers.get? hostName = none → FitsHeader a

variable {text : Bytes}

theorem methodText_spec {method : HttpMethod} (h : assoc method reverseMethodMatching = some text) :
    assoc text methodMatching = some method ∧ ¬space <:+: text ∧ ¬crlf <:+: text := by
  have hall : ∀ e ∈ methodMatching, assoc e.1 methodMatching = some e.2 ∧ ¬space <:+: e.1 ∧
      ¬crlf <:+: e.1 := by
    decide +kernel
  obtain ⟨⟨text', method'⟩, hmem, hswap⟩ := mem_map.mp (assoc_mem _ _ _ h)
  cases hswap
  exact hall _ hmem

theorem split_requestLineText {route : Bytes} (htext : ¬space <:+: text)
    (hroute : ¬space <:+: route) :
    split space (requestLineText text route) = [text, route, httpVersionMatch] := by
  have hversion : split space httpVersionMatch = [httpVersionMatch] := by decide
  rw [requestLineText, split_append space_ne_nil (space_unbordered.free htext),
    split_append space_ne_nil (space_unbordered.free hroute), hversion]

theorem requestLineText_line {route : Bytes} (htext : ¬crlf <:+: text)
    (hroute : ¬crlf <:+: route) : ¬crlf <:+: requestLineText text route := by
  have hversion : ¬crlf <:+: route ++ (space ++ httpVersionMatch) :=
    not_crlf_append hroute (by decide) (.inr (by decide))
  have hafter : ¬crlf <:+: space ++ (route ++ (space ++ httpVersionMatch)) :=
    not_crlf_append (by decide) hversion (.inl (by decide))
  rw [requestLineText, append_assoc route, append_assoc]
  exact not_crlf_append htext hafter (.inr (by simp [space, ascii]))

section
variable {address : Option Bytes} {route : Bytes} {headers : Headers}

theorem Readable.fitsHeader (h : Readable address route headers)
    (hne : ∀ e ∈ headers.entries, e.1 ≠ [] ∧ e.2 ≠ []) {e : Bytes × Bytes}
    (he : e ∈ headers.entries ++ hostHeader address headers) :
    FitsHeader e.1 ∧ FitsHeader e.2 ∧ e.1 ≠ contentLengthName := by
  rcases mem_append.mp he with hmem | hmem
  · obtain ⟨⟨hk, hk'⟩, ⟨hw, hw'⟩, hname⟩ := h.given e hmem
    obtain ⟨hk0, hw0⟩ := hne e hmem
    exact ⟨⟨hk0, hk, hk'⟩, ⟨hw0, hw, hw'⟩, hname⟩
  · unfold hostHeader at hmem
    split at hmem
    · next a hget =>
      rw [mem_singleton.mp hmem]
      have hname : FitsHeader hostName := ⟨by decide, by decide, by decide⟩
      have hlength : hostName ≠ contentLengthName := by decide
      exact ⟨hname, h.host a rfl hget, hlength⟩
    · cases hmem

theorem Readable.nodup (h : Readable address route headers)
    (hne : ∀ e ∈ headers.entries, e.1 ≠ [] ∧ e.2 ≠ []) (msg : Bytes) :
    ((headers.entries ++ hostHeader address headers ++ lengthHeader msg).map Prod.fst).Nodup := by
  have hhost : ((headers.entries ++ hostHeader address headers).map Prod.fst).Nodup := by
    rw [map_append]
    unfold hostHeader
    split
    · next a hget =>
      refine nodup_append.mpr ⟨headers.nodup, by simp, ?_⟩
      rintro k hk k' hk' rfl
      rw [map_cons, map_nil, mem_singleton] at hk'
      rw [hk'] at hk
      exact (Table.get?_eq_none headers hostName).mp hget hk
    · simpa using headers.nodup
  rw [map_append]
  refine nodup_append.mpr ⟨hhost, ?_, ?_⟩
  · unfold lengthHeader
    split <;> simp
  · rintro k hk k' hk' rfl
    obtain ⟨e, he, rfl⟩ := mem_map.mp hk
    have hname := (h.fitsHeader hne he).2.2
    unfold lengthHeader at hk'
    split at hk'
    · exact hname (by simpa using hk')
    · cases hk'

variable {msg : Bytes}

theorem Readable.lines (h : Readable address route headers)
    (hne : ∀ e ∈ headers.entries, e.1 ≠ [] ∧ e.2 ≠ []) {text : Bytes}
    (htext : ¬crlf <:+: text) {l : Bytes} (hl : l ∈ requestLines text route
      (headers.entries ++ hostHeader address headers ++ lengthHeader msg)) :
    ¬crlf <:+: l ∧ l ≠ [] := by
  rcases mem_cons.mp hl with rfl | hl
  · refine ⟨requestLineText_line htext h.path.2, ?_⟩
    simp [requestLineText, space_ne_nil]
  · obtain ⟨e, he, rfl⟩ := mem_map.mp hl
    refine ⟨?_, headerText_ne_nil e⟩
    rcases mem_append.mp he with hmem | hmem
    · obtain ⟨hk, hw, -⟩ := h.fitsHeader hne hmem
      exact headerText_line hk.line hw.line
    · unfold lengthHeader at hmem
      split at hmem
      · rw [mem_singleton.mp hmem]
        exact headerText_line (by decide) (decimal_line _)
      · cases hmem

open RequestLocals in
theorem Readable.foldl (h : Readable address route headers)
    (hne : ∀ e ∈ headers.entries, e.1 ≠ [] ∧ e.2 ≠ []) {method : HttpMethod} {text : Bytes}
    (hmethod : assoc method reverseMethodMatching = some text) (hlen : msg.length < 2 ^ 64) :
    ∃ u, (requestLines text route
        (headers.entries ++ hostHeader address headers ++ lengthHeader msg)).foldl line initial = u ∧
      u.badRequest = false ∧ u.lineNo ≠ 0 ∧ u.crlfCounter = 1 ∧ u.contentLength = msg.length ∧
      u.req.method = method ∧ u.req.route = route ∧
      u.req.headers.entries =
        headers.entries ++ hostHeader address headers ++ lengthHeader msg := by
  obtain ⟨htext, hspace, -⟩ := methodText_spec hmethod
  have hfirst : initial.line (requestLineText text route) =
      { initial with
        req := { initial.req with method := method, route := route }
        crlfCounter := 1 }.count (requestLineText text route) := by
    rw [line_first rfl rfl, requestLine_words (v := initial) rfl
      (split_requestLineText hspace h.path.1) htext]
    rfl
  have hat : AtHeader ({ initial with
        req := { initial.req with method := method, route := route }
        crlfCounter := 1 }.count (requestLineText text route)) :=
    ⟨rfl, rfl, Nat.succ_ne_zero _, rfl⟩
  obtain ⟨n, p, hn, hfold⟩ := foldl_headerText hat
    (headers.entries ++ hostHeader address headers) fun e he => h.fitsHeader hne he
  have hnodup := h.nodup hne msg
  have hentries : ((headers.entries ++ hostHeader address headers ++ lengthHeader msg).foldl
      (fun t e => t.emplace e.1 e.2) (Table.empty : Headers)).entries =
        headers.entries ++ hostHeader address headers ++ lengthHeader msg :=
    Table.entries_foldl_emplace Table.empty _ hnodup
  rw [requestLines, map_append, ← cons_append, foldl_append, foldl_cons, hfirst, hfold]
  by_cases hmsg : msg = []
  · have hnone : lengthHeader msg = [] := by simp [lengthHeader, hmsg]
    rw [hnone] at hentries ⊢
    refine ⟨_, rfl, rfl, hn, rfl, ?_, rfl, rfl, ?_⟩
    · rw [hmsg]
      rfl
    · rw [append_nil] at hentries ⊢
      exact hentries
  · have hone : lengthHeader msg = [(contentLengthName, decimal msg.length)] := by
      simp [lengthHeader, hmsg]
    have hsplit : split colonSpace (headerText (contentLengthName, decimal msg.length)) =
        [contentLengthName, decimal msg.length] :=
      split_headerText ⟨by decide, by decide, by decide⟩ (fitsHeader_decimal _)
    rw [hone] at hentries ⊢
    rw [map_cons, map_nil, foldl_cons, foldl_nil,
      line_header rfl hn (headerText_ne_nil _), headerLine_contentLength rfl rfl hsplit
        (isOnlyDigits_decimal _), fastAtoiu_decimal hlen]
    refine ⟨_, rfl, rfl, Nat.succ_ne_zero _, rfl, rfl, rfl, rfl, ?_⟩
    rw [foldl_append] at hentries
    exact hentries

theorem Readable.request (h : Readable address route headers) {connected : Bool}
    {method : HttpMethod} {bytes : Bytes}
    (hsend : sendAsync connected address method route headers msg = .ok bytes)
    (hsize : bytes.length ≤ maxSize) (rest : Bytes) :
    ∃ req, searchRequest (bytes ++ rest) = .found req bytes.length ∧ req.method = method ∧
      req.route = route ∧ req.body = msg ++ [0] ∧
      req.headers.entries = headers.entries ++ hostHeader address headers ++ lengthHeader msg := by
  obtain ⟨text, hmethod, hbytes, hne⟩ := sendAsync_ok hsend
  have hmax : maxSize < 2 ^ 64 := by decide
  have hlen : msg.length < 2 ^ 64 := by
    have hle := congrArg List.length hbytes
    rw [length_append] at hle
    omega
  obtain ⟨u, hfold, hgood, hlineNo, hcounter, hlength, hm, hr, hheaders⟩ :=
    h.foldl hne hmethod hlen
  have hsearch := @searchRequest_head msg [] _ (cons_ne_nil _ _)
    (fun l hl => h.lines hne (methodText_spec hmethod).2.2 hl) u hfold hgood hlineNo hcounter
    hlength (by rw [append_nil]; exact hbytes ▸ hsize.trans_lt hmax)
  rw [append_nil] at hsearch
  rw [hbytes]
  exact ⟨_, searchRequest_append hsearch rest, hm, hr, rfl, hheaders⟩

/-- The host reads what the client sends as one request with the method, the route, the headers
and the body of the caller, and nothing is left over. -/
theorem sendAsync_read (h : Readable address route headers) {connected : Bool}
    {method : HttpMethod} {msg bytes : Bytes}
    (hsend : sendAsync connected address method route headers msg = .ok bytes)
    (hsize : bytes.length ≤ maxSize) :
    ∃ req, searchRequest bytes = .found req bytes.length ∧ req.method = method ∧
      req.route = route ∧ req.body = msg ++ [0] ∧
      req.headers.entries = headers.entries ++ hostHeader address headers ++ lengthHeader msg := by
  have hread := h.request hsend hsize []
  rw [append_nil] at hread
  exact hread

end

theorem sendAsync_read_post :
    ∃ bytes req, sendAsync true (some (ascii "localhost")) .post (ascii "/a")
        ⟨[(ascii "X-Id", ascii "7")], by decide⟩ (ascii "hi") = .ok bytes ∧
      searchRequest bytes = .found req bytes.length ∧ req.route = ascii "/a" ∧
      req.headers.entries.length = 3 := by
  have hreadable : Readable (some (ascii "localhost")) (ascii "/a")
      ⟨[(ascii "X-Id", ascii "7")], by decide⟩ := by
    refine ⟨by decide, by decide, ?_⟩
    rintro a ha -
    cases ha
    exact ⟨by decide, by decide, by decide⟩
  obtain ⟨req, hfound, -, hroute, -, hheaders⟩ :=
    @sendAsync_read _ _ _ hreadable true .post (ascii "hi") _ rfl (by decide)
  exact ⟨_, req, rfl, hfound, hroute, by rw [hheaders]; rfl⟩

/-- A route with a line end: the host reads a request for another route, and a second one. -/
theorem sendAsync_injection :
    ∃ bytes first second len, sendAsync true none .get (ascii "/ HTTP/1.1\r\n\r\nGET /admin")
        Table.empty [] = .ok bytes ∧
      searchRequest bytes = .found first len ∧ len < bytes.length ∧ first.route = ascii "/" ∧
      searchRequest (bytes.drop len) = .found second (bytes.length - len) ∧
      second.route = ascii "/admin" := by
  exact ⟨_, _, _, _, rfl, rfl, by decide, rfl, rfl, rfl⟩

end Ichor
