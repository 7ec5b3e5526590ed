import Ichor.Http.Lines

/-! What one line does to the local variables of `parseResponse`. -/
namespace Ichor
open Delimited

namespace ResponseLocals

/-! ## Header lines -/

def addHeader (v : ResponseLocals) (k w : Bytes) : ResponseLocals :=
  { v with resp := { v.resp with headers := v.resp.headers.emplace k w } }

/-- Between two lines no value is expected, and the two ways to tell the length exclude each
other. -/
structure Settled (v : ResponseLocals) : Prop where
  contentLength : v.contentLengthHeader = false
  transferEncoding : v.transferEncodingHeader = false
  exclusive : v.contentLengthSet = true → v.transferEncodingSet = false

variable {v : ResponseLocals} {l w : Bytes} {done : List Bytes}

theorem headerLine_plain {k : Bytes} (hv : v.badRequest = false)
    (h : Settled v) (hl : split colonSpace l = [k, w]) (hk : k ≠ contentLengthName)
    (hk' : k ≠ transferEncodingName) : headerWords.line v l = v.addHeader k w := by
  have hname : headerWords.name v k = v := by simp [headerWords, headerName, hk, hk']
  have hex : (v.contentLengthSet && v.transferEncodingSet) = false := by
    cases hset : v.contentLengthSet with
    | false => rfl
    | true => exact h.exclusive hset
  rw [HeaderWords.line_pair hv hname hv hl]
  simp [headerWords, headerValue, h.contentLength, h.transferEncoding, hex, addHeader]

theorem headerLine_contentLength (hv : v.badRequest = false)
    (hset : v.contentLengthSet = false) (htransfer : v.transferEncodingSet = false)
    (hl : split colonSpace l = [contentLengthName, w]) (hw : isOnlyDigits w = true) :
    headerWords.line v l = { v.addHeader contentLengthName w with
      contentLength := fastAtoiu w
      contentLengthHeader := false
      contentLengthSet := true } := by
  have hname : headerWords.name v contentLengthName = { v with contentLengthHeader := true } := by
    simp [headerWords, headerName, hv, hset]
  rw [HeaderWords.line_pair hv hname hv hl]
  simp [headerWords, headerValue, hw, htransfer, addHeader]

theorem headerLine_transferEncoding (hv : v.badRequest = false)
    (h : Settled v) (hset : v.contentLengthSet = false)
    (hl : split colonSpace l = [transferEncodingName, w]) :
    headerWords.line v l = { v.addHeader transferEncodingName w with
      chunkedTransfer := v.chunkedTransfer || (find chunkedCoding w).isSome
      transferEncodingHeader := false
      transferEncodingSet := true } := by
  have hne : transferEncodingName ≠ contentLengthName := by decide
  have hname : headerWords.name v transferEncodingName
      = { v with transferEncodingHeader := true } := by
    simp [headerWords, headerName, hne]
  rw [HeaderWords.line_pair hv hname hv hl]
  simp [headerWords, headerValue, h.contentLength, hset, addHeader]

theorem headerLine_inv (hv : v.badRequest = false)
    (hs : Settled v) (h : (headerWords.line v l).badRequest = false) :
    ∃ k w, split colonSpace l = [k, w] ∧
      (k = contentLengthName → v.contentLengthSet = false ∧ v.transferEncodingSet = false ∧
        isOnlyDigits w = true) ∧
      (k = transferEncodingName → v.contentLengthSet = false) := by
  obtain ⟨k, w, hl, hname, hline⟩ :=
    HeaderWords.line_inv (p := headerWords) (fun _ => rfl) hv h
  rw [hline] at h
  refine ⟨k, w, hl, fun hk => ?_, fun hk => ?_⟩
  · subst hk
    have hset : v.contentLengthSet = false := by
      simpa [headerWords, headerName, hv] using hname
    cases htransfer : v.transferEncodingSet with
    | true =>
      cases hw : isOnlyDigits w <;>
        simp [headerWords, headerName, headerValue, hw, htransfer] at h
    | false =>
      cases hw : isOnlyDigits w with
      | true => exact ⟨hset, rfl, rfl⟩
      | false =>
        simp [headerWords, headerName, headerValue, hw, htransfer] at h
  · subst hk
    have hne : transferEncodingName ≠ contentLengthName := by decide
    cases hset : v.contentLengthSet with
    | false => rfl
    | true =>
      simp [headerWords, headerName, headerValue, hne, hset, hs.contentLength] at h

/-! ## The status line -/

theorem statusLine_frame (v : ResponseLocals) (l : Bytes) :
    ∃ status bad, v.statusLine l = { v with
      resp := { v.resp with status := status }
      badRequest := bad
      crlfCounter := v.crlfCounter + 1 } := by
  obtain ⟨status, bad, h⟩ := List.foldlRecOn (motive := fun x : ResponseLocals × ℕ × Bool =>
      ∃ status bad, x.1 = { v with resp := { v.resp with status := status }, badRequest := bad })
    (split space l) statusLineWord (b := (v, 0, false)) ⟨_, _, rfl⟩ (by
      rintro ⟨u, wordNo, matched⟩ ⟨status, bad, rfl⟩ w -
      simp only [statusLineWord]
      repeat' split
      all_goals exact ⟨_, _, rfl⟩)
  simp only [statusLine, h]
  split
  · exact ⟨_, _, rfl⟩
  · exact ⟨_, _, rfl⟩

theorem statusLineWord_rest (words : List Bytes) {n : ℕ} (hn : 2 ≤ n) (matched : Bool) :
    ∃ m, words.foldl statusLineWord (v, n, matched) = (v, m, matched) := by
  induction words generalizing n with
  | nil => exact ⟨n, rfl⟩
  | cons w words ih =>
    have h0 : n ≠ 0 := by omega
    have h1 : n ≠ 1 := by omega
    cases hv : v.badRequest with
    | true =>
      have hw : statusLineWord (v, n, matched) w = (v, n, matched) := by
        simp [statusLineWord, hv]
      rw [List.foldl_cons, hw]
      exact ih hn
    | false =>
      have hw : statusLineWord (v, n, matched) w = (v, n + 1, matched) := by
        simp [statusLineWord, hv, h0, h1]
      rw [List.foldl_cons, hw]
      exact ih (by omega)

theorem statusLine_words {text : Bytes} {rest : List Bytes}
    (hv : v.badRequest = false) (hl : split space l = httpVersionMatch :: text :: rest)
    (htext : text ≠ []) (hd : isOnlyDigits text = true)
    (hlow : 100 ≤ fastAtoiu text) (hhigh : fastAtoiu text ≤ 599) :
    v.statusLine l = { v with
      resp := { v.resp with status := fastAtoiu text }
      crlfCounter := v.crlfCounter + 1 } := by
  have hrange : ¬(fastAtoiu text < 100 ∨ 599 < fastAtoiu text) := by omega
  have hfirst : statusLineWord (v, 0, false) httpVersionMatch = (v, 1, false) := by
    simp [statusLineWord, hv]
  have hsecond : statusLineWord (v, 1, false) text =
      ({ v with resp := { v.resp with status := fastAtoiu text } }, 2, true) := by
    simp [statusLineWord, hv, htext, hd, hrange]
  obtain ⟨m, hm⟩ := statusLineWord_rest
    (v := { v with resp := { v.resp with status := fastAtoiu text } }) rest (le_refl 2) true
  simp [statusLine, hl, hfirst, hsecond, hm]

/-! ## One line -/

/-- The lines from here on are not looked at. -/
def halted (v : ResponseLocals) : Bool := v.badRequest || v.lengthError

theorem line_of_halted (h : v.halted = true) (l : Bytes) : v.line l = v := by
  have h' : (v.badRequest || v.lengthError) = true := h
  simp [line, h']

theorem foldl_of_halted (h : v.halted = true) (ls : List Bytes) : ls.foldl line v = v :=
  List.foldl_fixed' (line_of_halted h) ls

theorem halted_eq_false : v.halted = false ↔ v.badRequest = false ∧ v.lengthError = false := by
  simp [halted]

/-- Count a line. -/
def count (v : ResponseLocals) (l : Bytes) : ResponseLocals :=
  { v with
    protocolLength := wrap (v.protocolLength + (l.length + 2))
    lineNo := v.lineNo + 1 }

theorem line_first (hv : v.halted = false) (h0 : v.lineNo = 0)
    (l : Bytes) : v.line l = (v.statusLine l).count l := by
  have hv' : (v.badRequest || v.lengthError) = false := hv
  simp [line, hv', h0, count]

theorem line_text (hv : v.halted = false) (h0 : v.lineNo ≠ 0)
    (hl : l ≠ []) : v.line l = { v.textLine l with crlfCounter := 1 }.count l := by
  have hv' : (v.badRequest || v.lengthError) = false := hv
  simp [line, hv', h0, hl, count]

theorem line_empty (hv : v.halted = false) (h0 : v.lineNo ≠ 0) :
    v.line [] = v.emptyLine.count [] := by
  have hv' : (v.badRequest || v.lengthError) = false := hv
  simp [line, hv', h0, count]

/-! ## What the lines so far have left -/

/-- The local variables after some lines, while the message is not malformed. -/
structure Sane (done : List Bytes) (v : ResponseLocals) : Prop extends Settled v where
  protocolLength : v.protocolLength = wrap (done.map fun l => l.length + 2).sum
  unset : v.contentLengthSet = false → v.contentLength = 0

theorem sane_initial : Sane [] initial where
  contentLength := rfl
  transferEncoding := rfl
  exclusive := fun h => by cases h
  protocolLength := rfl
  unset := fun _ => rfl

theorem Sane.frame {v u : ResponseLocals} (h : Sane done v) (l : Bytes)
    (hp : u.protocolLength = v.protocolLength) (hc : u.contentLength = v.contentLength)
    (hch : u.contentLengthHeader = v.contentLengthHeader)
    (hcs : u.contentLengthSet = v.contentLengthSet)
    (hth : u.transferEncodingHeader = v.transferEncodingHeader)
    (hts : u.transferEncodingSet = v.transferEncodingSet) : Sane (done ++ [l]) (u.count l) where
  contentLength := hch.trans h.contentLength
  transferEncoding := hth.trans h.transferEncoding
  exclusive := by
    intro hset
    have hset' : v.contentLengthSet = true := hcs ▸ hset
    exact hts.trans (h.exclusive hset')
  protocolLength := by
    show wrap (u.protocolLength + (l.length + 2)) = _
    rw [hp, h.protocolLength, RequestLocals.wrap_add]
    simp
  unset := by
    intro hset
    have hset' : v.contentLengthSet = false := hcs ▸ hset
    exact hc.trans (h.unset hset')

section
variable (h : Sane done v)
include h

theorem Sane.headerLine (hv : v.badRequest = false) (l : Bytes)
    (hl : (headerWords.line v l).badRequest = false) :
    Sane (done ++ [l]) ({ headerWords.line v l with crlfCounter := 1 }.count l) := by
  obtain ⟨k, w, hsplit, hlen, hcoding⟩ := headerLine_inv hv h.toSettled hl
  have hframe := h.frame (u := v) l rfl rfl rfl rfl rfl rfl
  by_cases hk : k = contentLengthName
  · obtain ⟨hset, htransfer, hd⟩ := hlen hk
    subst hk
    rw [headerLine_contentLength hv hset htransfer hsplit hd]
    exact ⟨⟨rfl, h.transferEncoding, fun _ => htransfer⟩, hframe.protocolLength,
      fun hfalse => by cases hfalse⟩
  · by_cases hk' : k = transferEncodingName
    · have hset := hcoding hk'
      subst hk'
      rw [headerLine_transferEncoding hv h.toSettled hset hsplit]
      have hunset : ¬v.contentLengthSet = true := by simp [hset]
      exact ⟨⟨h.contentLength, rfl, fun htrue => absurd htrue hunset⟩,
        hframe.protocolLength, hframe.unset⟩
    · rw [headerLine_plain hv h.toSettled hsplit hk hk']
      exact h.frame l rfl rfl rfl rfl rfl rfl

theorem Sane.chunkLengthLine (l : Bytes) :
    Sane (done ++ [l]) ({ v.chunkLengthLine l with crlfCounter := 1 }.count l) := by
  apply h.frame
  all_goals
    simp only [ResponseLocals.chunkLengthLine]
    repeat' split
    all_goals rfl

theorem Sane.chunkContentLine (l : Bytes) :
    Sane (done ++ [l]) ({ v.chunkContentLine l with crlfCounter := 1 }.count l) := by
  apply h.frame
  all_goals
    simp only [ResponseLocals.chunkContentLine]
    repeat' split
    all_goals rfl

theorem Sane.line (hv : v.halted = false) (l : Bytes) (hl : (v.line l).halted = false) :
    Sane (done ++ [l]) (v.line l) := by
  obtain ⟨hbad, -⟩ := halted_eq_false.mp hv
  by_cases h0 : v.lineNo = 0
  · rw [line_first hv h0]
    obtain ⟨status, bad, hframe⟩ := statusLine_frame v l
    rw [hframe]
    exact h.frame l rfl rfl rfl rfl rfl rfl
  · by_cases hnil : l = []
    · subst hnil
      rw [line_empty hv h0]
      exact h.frame [] rfl rfl rfl rfl rfl rfl
    · rw [line_text hv h0 hnil] at hl ⊢
      have hl' : (v.textLine l).badRequest = false := (halted_eq_false.mp hl).1
      cases hstatus : v.chunkedStatus with
      | none | done =>
        simp only [textLine, hstatus] at hl' ⊢
        exact h.headerLine hbad l hl'
      | length =>
        simp only [textLine, hstatus]
        exact h.chunkLengthLine l
      | content =>
        simp only [textLine, hstatus]
        exact h.chunkContentLine l

end

theorem read_good {part : Bytes} (h : (read part).halted = false) :
    read part = (split crlf part).foldl ResponseLocals.line initial ∧
      Sane (split crlf part) (read part) := by
  have hread : read part = (split crlf part).foldl ResponseLocals.line initial := by
    simp only [read] at h ⊢
    split at h
    · cases h
    · next hcount => rw [if_neg hcount]
  refine ⟨hread, ?_⟩
  rw [hread] at h ⊢
  exact foldl_lines (fun _ => foldl_of_halted) Sane.line sane_initial rfl _ h

/-! ## The ends of `parseResponse` -/

/-- What `parseResponse` comes to, and when. -/
inductive Verdict (v : ResponseLocals) (complete : Bytes) (len : ℕ) :
    ParseOutcome HttpResponse → Prop where
  | lengthError (herr : v.lengthError = true) : Verdict v complete len .lengthError
  | bad (herr : v.lengthError = false) (hbad : v.badRequest = true) (n : ℕ) :
    Verdict v complete len (.failed .badRequest n)
  | chunked (hgood : v.halted = false) (hwait : v.unfinished = true) :
    Verdict v complete len (.failed .chunked len)
  | incomplete (hgood : v.halted = false) (hwait : v.unfinished = false)
      (hinc : v.incomplete complete = true) :
    Verdict v complete len (.failed .incompleteRequest len)
  | done (hgood : v.halted = false) (hwait : v.unfinished = false)
      (hinc : v.incomplete complete = false) (hchunked : v.chunkedTransfer = true) :
    Verdict v complete len (.parsed v.resp len)
  | tooLong (hgood : v.halted = false) (hwait : v.unfinished = false)
      (hinc : v.incomplete complete = false) (hchunked : v.chunkedTransfer = false)
      (hat : contentAt complete len v.contentLength = none) (hlong : maxSize ≤ v.contentLength) :
    Verdict v complete len .lengthError
  | overrun (hgood : v.halted = false) (hwait : v.unfinished = false)
      (hinc : v.incomplete complete = false) (hchunked : v.chunkedTransfer = false)
      (hat : contentAt complete len v.contentLength = none) (hshort : ¬maxSize ≤ v.contentLength) :
    Verdict v complete len (.overrun len v.contentLength)
  | content (hgood : v.halted = false) (hwait : v.unfinished = false)
      (hinc : v.incomplete complete = false) (hchunked : v.chunkedTransfer = false)
      (content : Bytes) (hat : contentAt complete len v.contentLength = some content) :
    Verdict v complete len
      (.parsed { v.resp with body := content ++ [0] } (wrap (len + v.contentLength)))

theorem result_verdict (v : ResponseLocals) (complete : Bytes) (len : ℕ) :
    Verdict v complete len (v.result complete len) := by
  unfold result
  split
  · next herr => exact .lengthError herr
  · next herr =>
  rw [Bool.not_eq_true] at herr
  split
  · next hbad => exact .bad herr hbad _
  · next hbad =>
  rw [Bool.not_eq_true] at hbad
  have hgood := halted_eq_false.mpr ⟨hbad, herr⟩
  split
  · next hwait => exact .chunked hgood hwait
  · next hwait =>
  rw [Bool.not_eq_true] at hwait
  split
  · next hinc => exact .incomplete hgood hwait hinc
  · next hinc =>
  rw [Bool.not_eq_true] at hinc
  split
  · next hchunked => exact .done hgood hwait hinc hchunked
  · next hchunked =>
    rw [Bool.not_eq_true] at hchunked
    unfold copyContent
    cases hat : contentAt complete len v.contentLength with
    | none =>
      dsimp only [ParseOutcome.outside]
      split
      · next hlong => exact .tooLong hgood hwait hinc hchunked hat hlong
      · next hshort => exact .overrun hgood hwait hinc hchunked hat hshort
    | some content => exact .content hgood hwait hinc hchunked content hat

section
variable {complete : Bytes} {len : ℕ}

theorem result_chunked (hgood : v.halted = false) (hwait : v.unfinished = true) :
    v.result complete len = .failed .chunked len := by
  obtain ⟨hbad, herr⟩ := halted_eq_false.mp hgood
  simp [result, herr, hbad, hwait]

section
variable (hgood : v.halted = false) (hwait : v.unfinished = false)
  (hinc : v.incomplete complete = false)
include hgood hwait hinc

theorem result_done (hchunked : v.chunkedTransfer = true) :
    v.result complete len = .parsed v.resp len := by
  obtain ⟨hbad, herr⟩ := halted_eq_false.mp hgood
  simp [result, herr, hbad, hwait, hinc, hchunked]

theorem result_content (hchunked : v.chunkedTransfer = false) {content : Bytes}
    (hat : contentAt complete len v.contentLength = some content) : v.result complete len =
      .parsed { v.resp with body := content ++ [0] } (wrap (len + v.contentLength)) := by
  obtain ⟨hbad, herr⟩ := halted_eq_false.mp hgood
  simp [result, herr, hbad, hwait, hinc, hchunked, copyContent, hat]

theorem result_outside (hchunked : v.chunkedTransfer = false)
    (hat : contentAt complete len v.contentLength = none) :
    v.result complete len = .outside len v.contentLength := by
  obtain ⟨hbad, herr⟩ := halted_eq_false.mp hgood
  simp [result, herr, hbad, hwait, hinc, hchunked, copyContent, hat]

end

theorem result_bad (herr : v.lengthError = false) (hbad : v.badRequest = true) :
    ∃ n, v.result complete len = .failed .badRequest n := by
  simp [result, herr, hbad]

theorem result_lengthError (herr : v.lengthError = true) :
    v.result complete len = .lengthError := by
  simp [result, herr]

end

end ResponseLocals

end Ichor
