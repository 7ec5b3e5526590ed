import Ichor.Http.Parse

/-! What one line does to the local variables of the two parsers, for the lines that are
accepted, and that every other line makes the message malformed. -/
namespace Ichor
open FiniteTable Delimited

/-! ## Words of a header line -/

variable {w : Bytes}

namespace HeaderWords
variable {σ : Type} {p : HeaderWords σ} {x : σ × ℕ × Bool × Bytes}

theorem foldl_of_bad (h : p.badRequest x.1 = true)
    (words : List Bytes) : words.foldl p.word x = x :=
  List.foldl_fixed' (fun w => by simp [word, h]) words

theorem line_pair {v u : σ} {l k : Bytes} (hv : p.badRequest v = false) (hname : p.name v k = u)
    (hu : p.badRequest u = false) (hl : split colonSpace l = [k, w]) :
    p.line v l = p.value u k w := by
  simp [line, hl, word, hv, hname, hu]

theorem foldl_bad (hset : ∀ v, p.badRequest (p.setBadRequest v) = true)
    (h : 2 ≤ x.2.1) {words : List Bytes} (hw : words ≠ []) :
    p.badRequest (words.foldl p.word x).1 = true := by
  cases words with
  | nil => exact absurd rfl hw
  | cons w words =>
    have h0 : x.2.1 ≠ 0 := by omega
    have h1 : x.2.1 ≠ 1 := by omega
    have hbad : p.badRequest (p.word x w).1 = true := by
      cases hx : p.badRequest x.1 <;> simp [word, hx, h0, h1, hset]
    rw [List.foldl_cons, foldl_of_bad hbad]
    exact hbad

theorem line_inv (hset : ∀ v, p.badRequest (p.setBadRequest v) = true) {v : σ} {l : Bytes}
    (hv : p.badRequest v = false) (h : p.badRequest (p.line v l) = false) :
    ∃ k w, split colonSpace l = [k, w] ∧ p.badRequest (p.name v k) = false ∧
      p.line v l = p.value (p.name v k) k w := by
  have hgood : p.badRequest ((split colonSpace l).foldl p.word (v, 0, false, [])).1 = false := by
    rw [← Bool.not_eq_true]
    intro hbad
    have hline : p.badRequest (p.line v l) = true := by
      simp only [line]
      split <;> simp [hbad, hset]
    rw [h] at hline
    cases hline
  cases hl : split colonSpace l with
  | nil => simp [line, hl, hset] at h
  | cons k rest =>
    rw [hl, List.foldl_cons] at hgood
    have hfirst : p.word (v, 0, false, []) k = (p.name v k, 1, false, k) := by simp [word, hv]
    rw [hfirst] at hgood
    have hk : p.badRequest (p.name v k) = false := by
      rw [← Bool.not_eq_true]
      intro hbad
      rw [foldl_of_bad hbad, hbad] at hgood
      cases hgood
    cases rest with
    | nil => simp [line, hl, word, hv, hset] at h
    | cons w rest =>
      cases rest with
      | nil => exact ⟨k, w, rfl, hk, line_pair hv rfl hk hl⟩
      | cons z rest =>
        have hsecond : p.word (p.name v k, 1, false, k) w = (p.value (p.name v k) k w, 2, true, k) := by
          simp [word, hk]
        rw [List.foldl_cons, hsecond, foldl_bad hset (le_refl 2) (by simp)] at hgood
        cases hgood

end HeaderWords

/-! ## Lines that are read until one stops the reading -/

section
variable {σ : Type} {P : List Bytes → σ → Prop} {line : σ → Bytes → σ} {stopped : σ → Bool}
  {done : List Bytes} {v : σ}

/-- What every line keeps that does not stop the reading holds when all have been read. -/
theorem foldl_lines (hstop : ∀ v, stopped v = true → ∀ ls : List Bytes, ls.foldl line v = v)
    (hline : ∀ {done v}, P done v → stopped v = false → ∀ l, stopped (line v l) = false →
      P (done ++ [l]) (line v l)) (h : P done v) (hv : stopped v = false) (ls : List Bytes)
    (hls : stopped (ls.foldl line v) = false) : P (done ++ ls) (ls.foldl line v) := by
  induction ls generalizing done v with
  | nil => simpa using h
  | cons l ls ih =>
    rw [List.foldl_cons] at hls ⊢
    cases hl : stopped (line v l) with
    | true =>
      rw [hstop _ hl, hl] at hls
      cases hls
    | false =>
      have hstep := ih (hline h hv l hl) hl hls
      simpa using hstep

end

/-! ## Lines of a request -/

namespace RequestLocals

/-- A header is stored, and the line ends. -/
def addHeader (v : RequestLocals) (k w : Bytes) : RequestLocals :=
  { v with
    req := { v.req with headers := v.req.headers.emplace k w }
    crlfCounter := 1 }

variable {l : Bytes} {v : RequestLocals} {done : List Bytes}

theorem headerLine_plain {k : Bytes} (hv : v.badRequest = false)
    (hflag : v.contentLengthHeader = false) (hl : split colonSpace l = [k, w])
    (hk : k ≠ contentLengthName) : v.headerLine l = v.addHeader k w := by
  have hname : headerWords.name v k = v := by simp [headerWords, headerName, hk]
  rw [headerLine, HeaderWords.line_pair hv hname hv hl]
  simp [headerWords, headerValue, hflag, addHeader]

theorem headerLine_contentLength (hv : v.badRequest = false)
    (hset : v.contentLengthSet = false) (hl : split colonSpace l = [contentLengthName, w])
    (hw : isOnlyDigits w = true) :
    v.headerLine l = { v.addHeader contentLengthName w with
      contentLength := fastAtoiu w
      contentLengthHeader := false
      contentLengthSet := true } := by
  have hname : headerWords.name v contentLengthName = { v with contentLengthHeader := true } := by
    simp [headerWords, headerName, hv, hset]
  rw [headerLine, HeaderWords.line_pair hv hname hv hl]
  simp [headerWords, headerValue, hw, addHeader]

theorem headerLine_inv (hv : v.badRequest = false) (h : (v.headerLine l).badRequest = false) :
    ∃ k w, split colonSpace l = [k, w] ∧
      (k = contentLengthName → v.contentLengthSet = false ∧ isOnlyDigits w = true) := by
  obtain ⟨k, w, hl, hname, hline⟩ :=
    HeaderWords.line_inv (p := headerWords) (fun _ => rfl) hv h
  refine ⟨k, w, hl, fun hk => ?_⟩
  subst hk
  have hset : v.contentLengthSet = false := by
    simpa [headerWords, headerName, hv] using hname
  refine ⟨hset, ?_⟩
  cases hw : isOnlyDigits w with
  | true => rfl
  | false =>
    rw [headerLine, hline] at h
    simp [headerWords, headerName, headerValue, hw] at h

theorem requestLine_frame (v : RequestLocals) (l : Bytes) :
    ∃ method route bad, v.requestLine l = { v with
      req := { v.req with method := method, route := route }
      badRequest := bad
      crlfCounter := v.crlfCounter + 1 } := by
  obtain ⟨method, route, bad, h⟩ := List.foldlRecOn (motive := fun x : RequestLocals × ℕ × Bool =>
      ∃ method route bad, x.1 = { v with
        req := { v.req with method := method, route := route }, badRequest := bad })
    (split space l) requestLineWord (b := (v, 0, false)) ⟨_, _, _, rfl⟩ (by
      rintro ⟨u, wordNo, matched⟩ ⟨method, route, bad, rfl⟩ w -
      simp only [requestLineWord]
      repeat' split
      all_goals exact ⟨_, _, _, rfl⟩)
  simp only [requestLine, h]
  split
  · exact ⟨_, _, _, rfl⟩
  · exact ⟨_, _, _, rfl⟩

theorem requestLine_words {text route : Bytes} {method : HttpMethod}
    (hv : v.badRequest = false) (hl : split space l = [text, route, httpVersionMatch])
    (htext : assoc text methodMatching = some method) :
    v.requestLine l = { v with
      req := { v.req with method := method, route := route }
      crlfCounter := v.crlfCounter + 1 } := by
  simp [requestLine, hl, requestLineWord, hv, htext]

theorem line_of_bad (h : v.badRequest = true) (l : Bytes) : v.line l = v := by
  simp [line, h]

theorem foldl_of_bad (h : v.badRequest = true) (ls : List Bytes) : ls.foldl line v = v :=
  List.foldl_fixed' (line_of_bad h) ls

/-- Count a line. -/
def count (v : RequestLocals) (l : Bytes) : RequestLocals :=
  { v with
    protocolLength := wrap (v.protocolLength + (l.length + 2))
    lineNo := v.lineNo + 1 }

theorem line_first (hv : v.badRequest = false) (h0 : v.lineNo = 0)
    (l : Bytes) : v.line l = (v.requestLine l).count l := by
  simp [line, hv, h0, count]

theorem line_header (hv : v.badRequest = false) (h0 : v.lineNo ≠ 0)
    (hl : l ≠ []) : v.line l = (v.headerLine l).count l := by
  simp [line, hv, h0, hl, count]

theorem line_empty (hv : v.badRequest = false) (h0 : v.lineNo ≠ 0) :
    v.line [] = { v with crlfCounter := v.crlfCounter + 1 }.count [] := by
  simp [line, hv, h0, count]

/-! ### What the lines so far have left -/

/-- The local variables after some lines, while the message is not malformed. -/
structure Sane (done : List Bytes) (v : RequestLocals) : Prop where
  protocolLength : v.protocolLength = wrap (done.map fun l => l.length + 2).sum
  header : v.contentLengthHeader = false
  unset : v.contentLengthSet = false → v.contentLength = 0

theorem sane_initial : Sane [] initial where
  protocolLength := rfl
  header := rfl
  unset := fun _ => rfl

theorem wrap_add (a b : ℕ) : wrap (wrap a + b) = wrap (a + b) := by
  simp [wrap]

theorem Sane.frame {u : RequestLocals} (h : Sane done v) (l : Bytes)
    (hp : u.protocolLength = v.protocolLength)
    (hh : u.contentLengthHeader = v.contentLengthHeader)
    (hs : u.contentLengthSet = v.contentLengthSet) (hc : u.contentLength = v.contentLength) :
    Sane (done ++ [l]) (u.count l) where
  protocolLength := by
    show wrap (u.protocolLength + (l.length + 2)) = _
    rw [hp, h.protocolLength, wrap_add]
    simp
  header := hh.trans h.header
  unset := by
    intro hset
    have hset' : v.contentLengthSet = false := hs ▸ hset
    exact hc.trans (h.unset hset')

theorem Sane.line (h : Sane done v)
    (hv : v.badRequest = false) (l : Bytes) (hl : (v.line l).badRequest = false) :
    Sane (done ++ [l]) (v.line l) := by
  by_cases h0 : v.lineNo = 0
  · rw [line_first hv h0]
    obtain ⟨method, route, bad, hframe⟩ := requestLine_frame v l
    rw [hframe]
    exact h.frame l rfl rfl rfl rfl
  · by_cases hnil : l = []
    · subst hnil
      rw [line_empty hv h0]
      exact h.frame [] rfl rfl rfl rfl
    · rw [line_header hv h0 hnil] at hl ⊢
      obtain ⟨k, w, hsplit, hk⟩ := headerLine_inv hv hl
      by_cases hname : k = contentLengthName
      · obtain ⟨hset, hd⟩ := hk hname
        subst hname
        rw [headerLine_contentLength hv hset hsplit hd]
        have hframe := h.frame (u := v) l rfl rfl rfl rfl
        exact ⟨hframe.protocolLength, rfl, fun hfalse => by cases hfalse⟩
      · rw [headerLine_plain hv h.header hsplit hname]
        exact h.frame l rfl rfl rfl rfl

theorem read_good {part : Bytes} (h : (read part).badRequest = false) :
    read part = (split crlf part).foldl RequestLocals.line initial ∧
      Sane (split crlf part) (read part) := by
  have hread : read part = (split crlf part).foldl RequestLocals.line initial := by
    simp only [read] at h ⊢
    split at h
    · cases h
    · next hcount => rw [if_neg hcount]
  refine ⟨hread, ?_⟩
  rw [hread] at h ⊢
  exact foldl_lines (fun _ => foldl_of_bad) Sane.line sane_initial rfl _ h

/-! ### The ends of `parseRequest` -/

/-- What `parseRequest` comes to, and when. -/
inductive Verdict (v : RequestLocals) (complete : Bytes) (len : ℕ) :
    ParseOutcome HttpRequest → Prop where
  | bad (hbad : v.badRequest = true) (n : ℕ) : Verdict v complete len (.failed .badRequest n)
  | incomplete (hgood : v.badRequest = false) (hinc : v.incomplete complete = true) :
    Verdict v complete len (.failed .incompleteRequest len)
  | tooLong (hgood : v.badRequest = false) (hinc : v.incomplete complete = false)
      (hat : contentAt complete len v.contentLength = none) (hlong : maxSize ≤ v.contentLength) :
    Verdict v complete len .lengthError
  | overrun (hgood : v.badRequest = false) (hinc : v.incomplete complete = false)
      (hat : contentAt complete len v.contentLength = none) (hshort : ¬maxSize ≤ v.contentLength) :
    Verdict v complete len (.overrun len v.contentLength)
  | content (hgood : v.badRequest = false) (hinc : v.incomplete complete = false)
      (content : Bytes) (hat : contentAt complete len v.contentLength = some content) :
    Verdict v complete len
      (.parsed { v.req with body := content ++ [0] } (wrap (len + v.contentLength)))

theorem result_verdict (v : RequestLocals) (complete : Bytes) (len : ℕ) :
    Verdict v complete len (v.result complete len) := by
  unfold result
  split
  · next hbad => exact .bad hbad _
  · next hbad =>
    rw [Bool.not_eq_true] at hbad
    split
    · next hinc => exact .incomplete hbad hinc
    · next hinc =>
      rw [Bool.not_eq_true] at hinc
      unfold copyContent
      cases hat : contentAt complete len v.contentLength with
      | none =>
        dsimp only [ParseOutcome.outside]
        split
        · next hlong => exact .tooLong hbad hinc hat hlong
        · next hshort => exact .overrun hbad hinc hat hshort
      | some content => exact .content hbad hinc content hat

theorem result_content {complete : Bytes} {len : ℕ}
    (hgood : v.badRequest = false) (hinc : v.incomplete complete = false) {content : Bytes}
    (hat : contentAt complete len v.contentLength = some content) : v.result complete len =
      .parsed { v.req with body := content ++ [0] } (wrap (len + v.contentLength)) := by
  simp [result, hgood, hinc, copyContent, hat]

end RequestLocals

end Ichor
