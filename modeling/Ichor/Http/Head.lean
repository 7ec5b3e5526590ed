import Ichor.Http.Stability

/-! The head of a message: its first line, header lines and an empty line. A receiver finds its
end, and the parsers read the lines back. -/
namespace Ichor
open FiniteTable Delimited List

/-! ## Text of a head -/

/-- The text of a name or a value that a header line can hold. -/
structure FitsHeader (t : Bytes) : Prop where
  ne_nil : t ≠ []
  line : ¬crlf <:+: t
  colon : ¬colonSpace <:+: t

/-- A header line. -/
def headerText (h : Bytes × Bytes) : Bytes := h.1 ++ colonSpace ++ h.2

/-- The first line of a response. -/
def statusLineText (status : HttpStatus) (reason : Bytes) : Bytes :=
  httpVersionMatch ++ space ++ (decimal status ++ space ++ reason)

/-- Lines with their ends, and an empty one. -/
def headText (lines : List Bytes) : Bytes := lines.flatMap (· ++ crlf) ++ crlf

theorem colonSpace_ne_nil : colonSpace ≠ [] := by decide

theorem colonSpace_unbordered : Unbordered colonSpace := unbordered_pair (by decide)

theorem space_ne_nil : space ≠ [] := by decide

theorem space_unbordered : Unbordered space := unbordered_singleton _

theorem split_headerText {k w : Bytes} (hk : FitsHeader k) (hw : FitsHeader w) :
    split colonSpace (headerText (k, w)) = [k, w] := by
  rw [headerText, split_append colonSpace_ne_nil (colonSpace_unbordered.free hk.colon),
    split_of_uncut hw.colon hw.ne_nil]

theorem crlf_append {x y : Bytes} (h : crlf <:+: x ++ y) :
    crlf <:+: x ∨ crlf <:+: y ∨ (x.getLast? = some 13 ∧ y.head? = some 10) := by
  induction x with
  | nil => exact .inr (.inl h)
  | cons a x ih =>
    rw [cons_append, infix_cons_iff] at h
    rcases h with hpre | hin
    · obtain ⟨r, hr⟩ := hpre
      have ha : a = 13 := (List.cons.inj hr).1.symm
      have htail : [10] ++ r = x ++ y := (List.cons.inj hr).2
      cases x with
      | nil =>
        rw [nil_append] at htail
        exact .inr (.inr ⟨by simp [ha], by simp [← htail]⟩)
      | cons b x =>
        have hb : b = 10 := (List.cons.inj htail).1.symm
        refine .inl ⟨[], x, ?_⟩
        rw [ha, hb]
        rfl
    · rcases ih hin with hx | hy | ⟨hx, hy⟩
      · exact .inl (hx.trans (suffix_cons a x).isInfix)
      · exact .inr (.inl hy)
      · refine .inr (.inr ⟨?_, hy⟩)
        cases x with
        | nil => cases hx
        | cons b x => simpa using hx

theorem not_crlf_append {x y : Bytes} (hx : ¬crlf <:+: x) (hy : ¬crlf <:+: y)
    (hmeet : x.getLast? ≠ some 13 ∨ y.head? ≠ some 10) : ¬crlf <:+: x ++ y := by
  intro h
  rcases crlf_append h with hin | hin | ⟨hlast, hhead⟩
  · exact hx hin
  · exact hy hin
  · rcases hmeet with hne | hne
    · exact hne hlast
    · exact hne hhead

theorem headerText_ne_nil (h : Bytes × Bytes) : headerText h ≠ [] := by
  simp [headerText, colonSpace_ne_nil]

theorem headerText_line {k w : Bytes} (hk : ¬crlf <:+: k) (hw : ¬crlf <:+: w) :
    ¬crlf <:+: headerText (k, w) := by
  have hvalue : ¬crlf <:+: colonSpace ++ w :=
    not_crlf_append (by decide) hw (.inl (by decide))
  rw [headerText, append_assoc]
  exact not_crlf_append hk hvalue (.inr (by simp [colonSpace, ascii]))

theorem decimal_line (n : ℕ) : ¬crlf <:+: decimal n := by
  intro h
  have hmem : (13 : UInt8) ∈ decimal n := h.subset (by decide)
  have hdigit := decimal_digits hmem
  revert hdigit
  decide

theorem split_statusLineText (status : HttpStatus) (reason : Bytes) :
    split space (statusLineText status reason) =
      httpVersionMatch :: decimal status :: split space reason := by
  have hversion : ¬space <:+: httpVersionMatch := by decide
  have hstatus : ¬space <:+: decimal status := by
    intro h
    have hmem : (32 : UInt8) ∈ decimal status := h.subset (by decide)
    have hdigit := decimal_digits hmem
    revert hdigit
    decide
  rw [statusLineText, split_append space_ne_nil (space_unbordered.free hversion),
    split_append space_ne_nil (space_unbordered.free hstatus)]

theorem statusLineText_line {status : HttpStatus} {reason : Bytes} (h : ¬crlf <:+: reason) :
    ¬crlf <:+: statusLineText status reason := by
  have hreason : ¬crlf <:+: space ++ reason :=
    not_crlf_append (by decide) h (.inl (by decide))
  have hstatus : ¬crlf <:+: decimal status ++ (space ++ reason) :=
    not_crlf_append (decimal_line status) hreason (.inr (by simp [space, ascii]))
  rw [statusLineText, append_assoc (decimal status)]
  exact not_crlf_append (by decide) hstatus (.inl (by decide))

theorem statusLineText_ne_nil (status : HttpStatus) (reason : Bytes) :
    statusLineText status reason ≠ [] := by
  simp [statusLineText, space_ne_nil]

/-! ## The end of a head -/

section
variable {lines : List Bytes}

section
variable (hne : lines ≠ []) (hlines : ∀ l ∈ lines, ¬crlf <:+: l ∧ l ≠ [])
include hne hlines

theorem find_headText (r : Bytes) :
    ∃ i, find terminator (headText lines ++ r) = some i ∧ i + 4 = (headText lines).length := by
  obtain ⟨p, hcut, hp⟩ := cut_double_flatMap crlf_unbordered lines hne
    (fun l hl => ⟨crlf_unbordered.free (hlines l hl).1, (hlines l hl).2⟩) r
  refine ⟨p.length, ?_, ?_⟩
  · rw [find, headText, terminator_eq, append_assoc, hcut]
    rfl
  · rw [headText, ← hp, length_append, length_append]
    rfl

/-- Lines with text in them hold no terminator, so the first one ends behind them with the end of
a later line. -/
theorem find_lines {r : Bytes}
    {j : ℕ} (hj : find terminator (lines.flatMap (· ++ crlf) ++ r) = some j) :
    ∃ t, (lines.flatMap (· ++ crlf) ++ r).take (j + 4) = lines.flatMap (· ++ crlf) ++ t ∧
      t <+: r ∧ crlf <:+ t := by
  obtain ⟨p, hcut, hp⟩ := cut_double_flatMap crlf_unbordered lines hne
    (fun l hl => ⟨crlf_unbordered.free (hlines l hl).1, (hlines l hl).2⟩) []
  have hlen : (lines.flatMap (· ++ crlf)).length = p.length + 2 := by
    rw [← hp, length_append]
    rfl
  have hnone : find terminator (lines.flatMap (· ++ crlf)) = none := by
    cases hfind : find terminator (lines.flatMap (· ++ crlf)) with
    | none => rfl
    | some k =>
      have hlong := find_append hfind (crlf ++ [])
      have hend : 0 + k + 4 ≤ (lines.flatMap (· ++ crlf)).length :=
        (@find_terminator _ 0 k hfind).2
      rw [find, terminator_eq, hcut] at hlong
      have hk : p.length = k := Option.some.inj hlong
      omega
  have hfree : ¬terminator <:+: lines.flatMap (· ++ crlf) :=
    cut_eq_none.mp (Option.map_eq_none_iff.mp hnone)
  obtain ⟨hterm, hbound⟩ := @find_terminator _ 0 j hj
  rw [Nat.zero_add] at hterm hbound
  generalize lines.flatMap (· ++ crlf) = x at *
  have hbehind : x.length < j + 4 := by
    by_contra hle
    rw [Nat.not_lt] at hle
    refine hfree ?_
    rw [drop_append_of_le_length (by omega)] at hterm
    have hpre : terminator <+: x.drop j := by
      refine prefix_of_prefix_length_le hterm (prefix_append _ r) ?_
      rw [length_drop]
      show 4 ≤ x.length - j
      omega
    exact hpre.isInfix.trans (drop_suffix j x).isInfix
  have htake : (x ++ r).take (j + 4) = x ++ r.take (j + 4 - x.length) := by
    rw [take_append, take_of_length_le (by omega)]
  refine ⟨r.take (j + 4 - x.length), htake, take_prefix _ _, ?_⟩
  have hend := (take_of_terminator hterm).1
  rw [htake] at hend
  have hshort : (r.take (j + 4 - x.length)).length = j + 4 - x.length := by
    rw [length_take, Nat.min_eq_left]
    rw [length_append] at hbound
    omega
  by_cases hone : j + 4 - x.length = 1
  · -- one letter more would make the end of a line begin with its own last letter
    obtain ⟨b, hb⟩ := length_eq_one_iff.mp (hshort.trans hone)
    rw [hb, ← hp] at hend
    obtain ⟨y, hy⟩ := hend
    have hy' : (y ++ [13]) ++ [10] = (p ++ [13] ++ [10]) ++ [b] := by
      rw [append_assoc y, append_assoc p]
      exact hy
    have hlast := append_inj_left' hy' rfl
    have hletter := append_inj_right' hlast rfl
    exact absurd hletter (by decide)
  · refine suffix_of_suffix_length_le hend (suffix_append x _) ?_
    rw [hshort]
    show 2 ≤ j + 4 - x.length
    omega

end

theorem headText_eq (lines : List Bytes) :
    headText lines = (lines ++ [[]]).flatMap (· ++ crlf) := by
  simp [headText]

theorem length_flatten_le (lines : List Bytes) :
    lines.flatten.length ≤ (headText lines).length := by
  induction lines with
  | nil => exact Nat.zero_le _
  | cons l lines ih =>
    simp only [headText, flatMap_cons, flatten_cons, length_append] at ih ⊢
    omega

theorem split_headText (hlines : ∀ l ∈ lines, ¬crlf <:+: l) (r : Bytes) :
    split crlf (headText lines ++ r) = lines ++ [[]] ++ split crlf r := by
  rw [headText_eq]
  refine split_flatMap crlf_ne_nil _ (fun l hl => ?_) r
  refine crlf_unbordered.free ?_
  rcases mem_append.mp hl with hmem | hmem
  · exact hlines l hmem
  · rw [mem_singleton.mp hmem]
    decide

end

theorem headText_position {lines : List Bytes} (hne : lines ≠ [])
    (hlines : ∀ l ∈ lines, ¬crlf <:+: l ∧ l ≠ []) (body rest : Bytes) :
    ∃ i, find terminator (headText lines ++ body ++ rest) = some i ∧
      (headText lines ++ body).length = i + 4 + body.length ∧
      i + 4 + body.length ≤ (headText lines ++ body ++ rest).length ∧
      split crlf ((headText lines ++ body ++ rest).take (i + 4)) = lines ++ [[]] ∧
      terminator <+: (headText lines ++ body ++ rest).drop i ∧
      contentAt (headText lines ++ body ++ rest) (i + 4) body.length = some body := by
  obtain ⟨i, hfind, hi⟩ := find_headText hne hlines (body ++ rest)
  have hle : i + 4 + body.length ≤ (headText lines ++ (body ++ rest)).length := by
    simp only [length_append]
    omega
  rw [append_assoc]
  refine ⟨i, hfind, by rw [length_append, hi], hle, ?_, ?_, ?_⟩
  · rw [hi, take_left, ← append_nil (headText lines),
      split_headText (fun l hl => (hlines l hl).1), split_nil, append_nil]
  · have hterm := (@find_terminator _ 0 i hfind).1
    rwa [Nat.zero_add] at hterm
  · rw [contentAt, if_pos hle, hi, drop_left, take_left]

/-! ## Header lines of a response -/

/-- One of the headers declares chunked transfer. -/
def declaresChunked (hs : List (Bytes × Bytes)) : Bool :=
  hs.any fun h => decide (h.1 = transferEncodingName) && (find chunkedCoding h.2).isSome

/-- One of the headers names a coding. -/
def declaresCoding (hs : List (Bytes × Bytes)) : Bool :=
  hs.any fun h => decide (h.1 = transferEncodingName)

variable {part : Bytes} {u : ResponseLocals} {h : Bytes × Bytes}

namespace ResponseLocals

/-- The headers of the message so far, and the codings that they declare. -/
def withHeaders (v : ResponseLocals) (hs : List (Bytes × Bytes)) : ResponseLocals :=
  { v with
    resp := { v.resp with headers := hs.foldl (fun t h => t.emplace h.1 h.2) v.resp.headers }
    transferEncodingSet := v.transferEncodingSet || declaresCoding hs
    chunkedTransfer := v.chunkedTransfer || declaresChunked hs }

/-- The local variables where a header line is expected. -/
structure AtHeader (v : ResponseLocals) : Prop extends Settled v where
  running : v.halted = false
  lineNo : v.lineNo ≠ 0
  unset : v.contentLengthSet = false
  status : v.chunkedStatus = .none
  counter : v.crlfCounter = 1

variable {v : ResponseLocals}

theorem line_headerText (hv : AtHeader v)
    (hk : FitsHeader h.1) (hw : FitsHeader h.2) (hname : h.1 ≠ contentLengthName) :
    v.line (headerText h) = (v.withHeaders [h]).count (headerText h) ∧
      AtHeader ((v.withHeaders [h]).count (headerText h)) := by
  have hbad := (halted_eq_false.mp hv.running).1
  have hsplit := split_headerText hk hw
  have htext : v.textLine (headerText h) = headerWords.line v (headerText h) := by
    simp [textLine, hv.status]
  constructor
  · rw [line_text hv.running hv.lineNo (headerText_ne_nil h), htext]
    congr 1
    by_cases hcoding : h.1 = transferEncodingName
    · have hsplit' : split colonSpace (headerText h) = [transferEncodingName, h.2] := by
        rw [← hcoding]
        exact hsplit
      rw [headerLine_transferEncoding hbad hv.toSettled hv.unset hsplit']
      simp [withHeaders, addHeader, declaresCoding, declaresChunked, hcoding, hv.counter,
        hv.transferEncoding]
    · rw [headerLine_plain hbad hv.toSettled hsplit hname hcoding]
      simp [withHeaders, addHeader, declaresCoding, declaresChunked, hcoding, hv.counter]
  · exact ⟨⟨hv.contentLength, hv.transferEncoding, fun hset => by
      rw [show ((v.withHeaders [h]).count (headerText h)).contentLengthSet = v.contentLengthSet
        from rfl, hv.unset] at hset
      cases hset⟩, hv.running, Nat.succ_ne_zero _, hv.unset, hv.status, hv.counter⟩

theorem foldl_headerText (hv : AtHeader v) (hs : List (Bytes × Bytes))
    (hplain : ∀ h ∈ hs, FitsHeader h.1 ∧ FitsHeader h.2 ∧ h.1 ≠ contentLengthName) :
    ∃ n p, (hs.map headerText).foldl line v =
        { v.withHeaders hs with lineNo := n, protocolLength := p } ∧
      AtHeader { v.withHeaders hs with lineNo := n, protocolLength := p } := by
  induction hs generalizing v with
  | nil =>
    refine ⟨v.lineNo, v.protocolLength, ?_⟩
    have hnone : { v.withHeaders [] with lineNo := v.lineNo, protocolLength := v.protocolLength }
        = v := by
      simp [withHeaders, declaresCoding, declaresChunked]
    rw [hnone]
    exact ⟨rfl, hv⟩
  | cons h hs ih =>
    obtain ⟨hk, hw, hname⟩ := hplain h mem_cons_self
    obtain ⟨hline, hnext⟩ := line_headerText hv hk hw hname
    obtain ⟨n, p, hfold, hafter⟩ := ih hnext fun x hx => hplain x (mem_cons_of_mem h hx)
    refine ⟨n, p, ?_⟩
    have hsame : { ((v.withHeaders [h]).count (headerText h)).withHeaders hs with
        lineNo := n, protocolLength := p } =
          { v.withHeaders (h :: hs) with lineNo := n, protocolLength := p } := by
      simp [withHeaders, count, declaresCoding, declaresChunked, Bool.or_assoc]
    rw [map_cons, foldl_cons, hline, hfold, ← hsame]
    exact ⟨rfl, hafter⟩

theorem foldl_head {status : ℕ} (hlow : 100 ≤ status) (hhigh : status ≤ 599)
    (reason : Bytes) (hs : List (Bytes × Bytes))
    (hplain : ∀ h ∈ hs, FitsHeader h.1 ∧ FitsHeader h.2 ∧ h.1 ≠ contentLengthName) :
    ∃ u, (statusLineText status reason :: hs.map headerText).foldl line initial = u ∧
      AtHeader u ∧ u.resp.status = status ∧ u.resp.contentType = none ∧ u.resp.body = [] ∧
      u.resp.headers = hs.foldl (fun t h => t.emplace h.1 h.2) Table.empty ∧
      u.transferEncodingSet = declaresCoding hs ∧ u.chunkedTransfer = declaresChunked hs ∧
      u.contentLength = 0 := by
  have hvalue : fastAtoiu (decimal status) = status := fastAtoiu_decimal (by omega)
  have hfirst : initial.line (statusLineText status reason) =
      { initial with
        resp := { initial.resp with status := status }
        crlfCounter := 1 }.count (statusLineText status reason) := by
    rw [line_first rfl rfl, statusLine_words (v := initial) rfl (split_statusLineText status reason)
      (decimal_ne_nil status) (isOnlyDigits_decimal status) (by omega) (by omega), hvalue]
    rfl
  have hat : AtHeader ({ initial with
        resp := { initial.resp with status := status }
        crlfCounter := 1 }.count (statusLineText status reason)) :=
    ⟨⟨rfl, rfl, fun h => by cases h⟩, rfl, Nat.succ_ne_zero _, rfl, rfl, rfl⟩
  obtain ⟨n, p, hfold, hafter⟩ := foldl_headerText hat hs hplain
  refine ⟨_, rfl, ?_⟩
  rw [foldl_cons, hfirst, hfold]
  exact ⟨hafter, rfl, rfl, rfl, rfl, by simp [withHeaders, count, initial],
    by simp [withHeaders, count, initial], rfl⟩

theorem read_eq (hfold : (split crlf part).foldl line initial = u)
    (hcount : ¬u.crlfCounter < 2) : read part = u := by
  simp only [read, hfold, if_neg hcount]

theorem read_head {lines : List Bytes}
    (hsplit : split crlf part = lines ++ [[]]) (hfold : lines.foldl line initial = u)
    (hrunning : u.halted = false) (hlineNo : u.lineNo ≠ 0) (hcounter : u.crlfCounter = 1) :
    read part = u.emptyLine.count [] := by
  have hall : (split crlf part).foldl line initial = u.emptyLine.count [] := by
    rw [hsplit, foldl_append, hfold]
    exact line_empty hrunning hlineNo
  exact read_eq hall (by simp [count, emptyLine, hcounter])

end ResponseLocals

variable {body rest : Bytes}

theorem search_head {lines : List Bytes} (hne : lines ≠ [])
    (hlines : ∀ l ∈ lines, ¬crlf <:+: l ∧ l ≠ [])
    (hfold : lines.foldl ResponseLocals.line ResponseLocals.initial = u)
    (hrunning : u.halted = false) (hlineNo : u.lineNo ≠ 0) (hcounter : u.crlfCounter = 1)
    (hchunked : u.chunkedTransfer = false) (hlength : u.contentLength = body.length)
    (hsize : (headText lines ++ body ++ rest).length < 2 ^ 64) :
    search (headText lines ++ body ++ rest).length (headText lines ++ body ++ rest) 0 =
      .found { u.resp with body := body ++ [0] } (headText lines ++ body).length := by
  obtain ⟨i, hfind, hlen, hfits, hsplit, hterm, hat⟩ := headText_position hne hlines body rest
  rw [hlen]
  generalize headText lines ++ body ++ rest = msg at *
  have hread : ResponseLocals.read (msg.take (i + 4)) = u.emptyLine.count [] :=
    ResponseLocals.read_head hsplit hfold hrunning hlineNo hcounter
  have hgood : (u.emptyLine.count []).halted = false := hrunning
  have hsane := (ResponseLocals.read_good (hread ▸ hgood)).2
  rw [hread] at hsane
  have hproto : (u.emptyLine.count []).protocolLength = i + 4 :=
    hsane.protocolLength.trans (wrap_sum_lines hsize hterm)
  have hwrap : wrap (i + 4 + u.contentLength) = i + 4 + body.length := by
    rw [hlength, wrap_of_lt (by omega)]
  have hinc : (u.emptyLine.count []).incomplete msg = false := by
    simp only [ResponseLocals.incomplete, hproto, Bool.and_eq_false_iff, decide_eq_false_iff_not]
    refine .inr ?_
    show ¬msg.length < wrap (i + 4 + u.contentLength)
    omega
  have hparse : parseResponse msg (i + 4) =
      .parsed { u.resp with body := body ++ [0] } (i + 4 + body.length) := by
    have hwait : (u.emptyLine.count []).unfinished = false := by
      simp [ResponseLocals.unfinished, ResponseLocals.count, ResponseLocals.emptyLine, hchunked]
    rw [← hlength] at hat
    rw [parseResponse, hread, ← hwrap]
    exact ResponseLocals.result_content hgood hwait hinc hchunked hat
  obtain ⟨n, hn⟩ : ∃ n, msg.length = n + 1 := ⟨msg.length - 1, by omega⟩
  rw [hn]
  simp only [search, drop_zero, hfind, Nat.zero_add, hparse, if_pos hfits]

/-! ## Header lines of a request -/

namespace RequestLocals

/-- The headers of the message so far. -/
def withHeaders (v : RequestLocals) (hs : List (Bytes × Bytes)) : RequestLocals :=
  { v with req := { v.req with headers := hs.foldl (fun t h => t.emplace h.1 h.2) v.req.headers } }

/-- The local variables where a header line is expected. -/
structure AtHeader (v : RequestLocals) : Prop where
  good : v.badRequest = false
  header : v.contentLengthHeader = false
  lineNo : v.lineNo ≠ 0
  counter : v.crlfCounter = 1

theorem line_headerText {v : RequestLocals} (hv : AtHeader v)
    (hk : FitsHeader h.1) (hw : FitsHeader h.2) (hname : h.1 ≠ contentLengthName) :
    v.line (headerText h) = (v.withHeaders [h]).count (headerText h) := by
  rw [line_header hv.good hv.lineNo (headerText_ne_nil h),
    headerLine_plain hv.good hv.header (split_headerText hk hw) hname]
  congr 1
  simp [withHeaders, addHeader, hv.counter]

theorem foldl_headerText {v : RequestLocals} (hv : AtHeader v) (hs : List (Bytes × Bytes))
    (hplain : ∀ h ∈ hs, FitsHeader h.1 ∧ FitsHeader h.2 ∧ h.1 ≠ contentLengthName) :
    ∃ n p, n ≠ 0 ∧ (hs.map headerText).foldl line v =
        { v.withHeaders hs with lineNo := n, protocolLength := p } := by
  induction hs generalizing v with
  | nil => exact ⟨v.lineNo, v.protocolLength, hv.lineNo, rfl⟩
  | cons h hs ih =>
    obtain ⟨hk, hw, hname⟩ := hplain h mem_cons_self
    have hnext : AtHeader ((v.withHeaders [h]).count (headerText h)) :=
      { hv with lineNo := Nat.succ_ne_zero _ }
    obtain ⟨n, p, hn, hfold⟩ := ih hnext fun x hx => hplain x (mem_cons_of_mem h hx)
    refine ⟨n, p, hn, ?_⟩
    rw [map_cons, foldl_cons, line_headerText hv hk hw hname, hfold]
    rfl

theorem read_head {lines : List Bytes} {u : RequestLocals}
    (hsplit : split crlf part = lines ++ [[]]) (hfold : lines.foldl line initial = u)
    (hgood : u.badRequest = false) (hlineNo : u.lineNo ≠ 0) (hcounter : u.crlfCounter = 1) :
    read part = { u with crlfCounter := 2 }.count [] := by
  have hall : (split crlf part).foldl line initial = { u with crlfCounter := 2 }.count [] := by
    rw [hsplit, foldl_append, hfold, foldl_cons, foldl_nil, line_empty hgood hlineNo, hcounter]
  have hcount : ¬({ u with crlfCounter := 2 }.count []).crlfCounter < 2 := by
    simp [count]
  simp only [read, hall, if_neg hcount]

end RequestLocals

theorem searchRequest_head {lines : List Bytes} (hne : lines ≠ [])
    (hlines : ∀ l ∈ lines, ¬crlf <:+: l ∧ l ≠ []) {u : RequestLocals}
    (hfold : lines.foldl RequestLocals.line RequestLocals.initial = u)
    (hgood : u.badRequest = false) (hlineNo : u.lineNo ≠ 0) (hcounter : u.crlfCounter = 1)
    (hlength : u.contentLength = body.length)
    (hsize : (headText lines ++ body ++ rest).length < 2 ^ 64) :
    searchRequest (headText lines ++ body ++ rest) =
      .found { u.req with body := body ++ [0] } (headText lines ++ body).length := by
  obtain ⟨i, hfind, hlen, hfits, hsplit, hterm, hat⟩ := headText_position hne hlines body rest
  rw [hlen]
  generalize headText lines ++ body ++ rest = msg at *
  have hread := RequestLocals.read_head hsplit hfold hgood hlineNo hcounter
  have hgood' : (RequestLocals.read (msg.take (i + 4))).badRequest = false := by
    rw [hread]
    exact hgood
  have hsane := (RequestLocals.read_good hgood').2
  rw [hread] at hsane
  have hproto := hsane.protocolLength.trans (wrap_sum_lines hsize hterm)
  have hwrap : wrap (i + 4 + u.contentLength) = i + 4 + body.length := by
    rw [hlength, wrap_of_lt (by omega)]
  have hinc : (RequestLocals.count { u with crlfCounter := 2 } []).incomplete msg = false := by
    simp only [RequestLocals.incomplete, hproto, Bool.and_eq_false_iff, decide_eq_false_iff_not]
    refine .inr ?_
    show ¬msg.length < wrap (i + 4 + u.contentLength)
    omega
  have hparse : parseRequest msg (i + 4) =
      .parsed { u.req with body := body ++ [0] } (i + 4 + body.length) := by
    rw [← hlength] at hat
    rw [parseRequest, hread, ← hwrap]
    exact RequestLocals.result_content (v := RequestLocals.count { u with crlfCounter := 2 } [])
      hgood hinc hat
  simp only [searchRequest, hfind, hparse, if_pos hfits]

end Ichor
