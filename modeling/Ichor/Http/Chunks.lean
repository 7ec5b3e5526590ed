import Ichor.Http.Respond

/-! Chunked responses. The parser looks for the boundaries of the chunks in the lines of the text,
so it reads a chunk back only if no line ends inside the bytes that the chunk declares. -/
namespace Ichor
open FiniteTable Delimited

/-! ## Text of a chunked message -/

/-- The lines of some chunks, each given as its length field and its data. -/
def chunkLines (chunks : List (Bytes × Bytes)) : List Bytes := chunks.flatMap fun c => [c.1, c.2]

/-- The chunks and the zero chunk. -/
def chunkedText (chunks : List (Bytes × Bytes)) : Bytes :=
  headText (chunkLines chunks ++ [ascii "0"])

/-- The length field is the length of the data in hexadecimal digits, and the data is neither
empty nor divided by a line end. -/
structure Undivided (c : Bytes × Bytes) : Prop where
  short : c.1.length ≤ 16
  length : hexValue c.1 = some c.2.length
  ne_nil : c.2 ≠ []
  line : ¬crlf <:+: c.2

theorem hexValue_line {str : Bytes} {v : ℕ} (h : hexValue str = some v) : ¬crlf <:+: str := by
  intro hin
  have hdigit := hexValue_digits h (hin.subset (by decide : (13 : UInt8) ∈ crlf))
  revert hdigit
  decide

section
variable {c : Bytes × Bytes} {chunks : List (Bytes × Bytes)}

theorem Undivided.pos (h : Undivided c) : 0 < c.2.length := List.length_pos_of_ne_nil h.ne_nil

theorem Undivided.field_ne_nil (h : Undivided c) : c.1 ≠ [] := by
  intro hnil
  have hpos := h.pos
  have hlength := h.length
  rw [hnil] at hlength
  have hzero : 0 = c.2.length := Option.some.inj hlength
  omega

theorem chunkLines_line (h : ∀ c ∈ chunks, Undivided c) {l : Bytes} (hl : l ∈ chunkLines chunks) :
    ¬crlf <:+: l ∧ l ≠ [] := by
  obtain ⟨c, hc, hmem⟩ := List.mem_flatMap.mp hl
  have hchunk := h c hc
  rcases List.mem_cons.mp hmem with rfl | hmem
  · exact ⟨hexValue_line hchunk.length, hchunk.field_ne_nil⟩
  · rw [List.mem_singleton.mp hmem]
    exact ⟨hchunk.line, hchunk.ne_nil⟩

end

/-! ## The lines of the chunks -/

namespace ResponseLocals

/-- The local variables where the length of a chunk is expected. -/
structure AtLength (v : ResponseLocals) : Prop where
  running : v.halted = false
  lineNo : v.lineNo ≠ 0
  unset : v.contentLengthSet = false
  chunked : v.chunkedTransfer = true
  status : v.chunkedStatus = .length

/-- The data of a chunk has been read. -/
def withData (v : ResponseLocals) (data : Bytes) (n p : ℕ) : ResponseLocals :=
  { v with
    resp := { v.resp with body := v.resp.body ++ data }
    chunkLength := 0
    crlfCounter := 1
    lineNo := n
    protocolLength := p }

variable {v : ResponseLocals}

theorem AtLength.empty (h : AtHeader v) (hchunked : v.chunkedTransfer = true) :
    AtLength (v.emptyLine.count []) where
  __ := h
  lineNo := Nat.succ_ne_zero _
  chunked := hchunked
  status := by
    simp [count, emptyLine, unfinished, hchunked, h.status]

theorem line_field (h : AtLength v) {f : Bytes} (hf : f ≠ []) {len : ℕ}
    (hlen : safeHexToUint f = some len) (hpos : len ≠ 0)
    (hfits : wrap (v.resp.body.length + wrap (len + 2)) ≤ maxSize) :
    v.line f = { v with
      chunkLength := wrap (len + 2)
      chunkedStatus := .content
      crlfCounter := 1 }.count f := by
  have herr := (halted_eq_false.mp h.running).2
  rw [line_text h.running h.lineNo hf]
  simp only [textLine, h.status, chunkLengthLine, hlen, if_neg hpos]
  congr 1
  have hno : decide (maxSize < wrap (v.resp.body.length + wrap (len + 2))) = false := by
    simpa using hfits
  rw [hno, ← herr]

section
variable (hrunning : v.halted = false) (h0 : v.lineNo ≠ 0) (hstatus : v.chunkedStatus = .content)
include hrunning h0 hstatus

theorem line_data {l : Bytes} (hl : l ≠ []) (hlen : v.chunkLength = l.length + 2) :
    v.line l = { v with
      resp := { v.resp with body := v.resp.body ++ l }
      chunkLength := 0
      chunkedStatus := .length
      crlfCounter := 1 }.count l := by
  rw [line_text hrunning h0 hl]
  simp [textLine, hstatus, chunkContentLine, hlen]

theorem line_data_bad {l : Bytes} (hl : l ≠ []) (hlen : v.chunkLength < l.length + 2) :
    (v.line l).badRequest = true ∧ (v.line l).lengthError = false := by
  have herr := (halted_eq_false.mp hrunning).2
  rw [line_text hrunning h0 hl]
  simp [textLine, hstatus, chunkContentLine, hlen, count, herr]

end

theorem foldl_chunk (h : AtLength v) {c : Bytes × Bytes} (hc : Undivided c)
    (hsize : v.resp.body.length + c.2.length + 2 ≤ maxSize) :
    ∃ n p, [c.1, c.2].foldl line v = v.withData c.2 n p ∧ AtLength (v.withData c.2 n p) := by
  have hmax : maxSize < 2 ^ 64 := by decide
  have hpos := hc.pos
  have hfield : safeHexToUint c.1 = some c.2.length := by
    rw [safeHexToUint_eq hc.short]
    exact hc.length
  have hwrap : wrap (c.2.length + 2) = c.2.length + 2 := wrap_of_lt (by omega)
  have hfits : wrap (v.resp.body.length + wrap (c.2.length + 2)) ≤ maxSize := by
    rw [hwrap, wrap_of_lt (by omega)]
    omega
  have hline := line_field h hc.field_ne_nil hfield (by omega) hfits
  rw [hwrap] at hline
  refine ⟨v.lineNo + 1 + 1,
    wrap (wrap (v.protocolLength + (c.1.length + 2)) + (c.2.length + 2)), ?_,
    { h with lineNo := Nat.succ_ne_zero _ }⟩
  rw [List.foldl_cons, hline, List.foldl_cons, List.foldl_nil]
  refine (line_data ?_ (Nat.succ_ne_zero _) rfl hc.ne_nil rfl).trans ?_
  · exact h.running
  · rw [withData, ← h.status]
    rfl

theorem foldl_chunks (h : AtLength v) (chunks : List (Bytes × Bytes))
    (hchunks : ∀ c ∈ chunks, Undivided c)
    (hsize : v.resp.body.length + (chunkLines chunks).flatten.length + 2 ≤ maxSize) :
    ∃ u, (chunkLines chunks).foldl line v = u ∧ AtLength u ∧
      u.resp = { v.resp with body := v.resp.body ++ chunks.flatMap Prod.snd } := by
  induction chunks generalizing v with
  | nil => exact ⟨v, rfl, h, by simp⟩
  | cons c chunks ih =>
    have hlines : chunkLines (c :: chunks) = [c.1, c.2] ++ chunkLines chunks := rfl
    rw [hlines, List.flatten_append, List.length_append] at hsize
    have hpair : [c.1, c.2].flatten.length = c.1.length + c.2.length := by simp
    obtain ⟨n, p, hfold, hnext⟩ := foldl_chunk h (hchunks c List.mem_cons_self) (by omega)
    obtain ⟨u, hrest, hat, hresp⟩ := ih hnext (fun x hx => hchunks x (List.mem_cons_of_mem c hx))
      (by
        show (v.resp.body ++ c.2).length + _ + 2 ≤ maxSize
        rw [List.length_append]
        omega)
    refine ⟨u, ?_, hat, ?_⟩
    · rw [hlines, List.foldl_append, hfold, hrest]
    · rw [hresp]
      simp [withData]

/-- The zero chunk has been read. -/
def finished (v : ResponseLocals) : ResponseLocals :=
  { v with
    chunkLength := 0
    chunkedStatus := .done
    resp := { v.resp with body := v.resp.body ++ [0] }
    crlfCounter := 1 }

theorem line_last (h : AtLength v) : v.line (ascii "0") = v.finished.count (ascii "0") := by
  have hzero : safeHexToUint (ascii "0") = some 0 := by decide
  have hne : ascii "0" ≠ [] := by decide
  rw [line_text h.running h.lineNo hne]
  simp only [textLine, h.status, chunkLengthLine, hzero, if_true]
  rfl

theorem foldl_last (h : AtLength v) :
    ∃ u, [ascii "0", []].foldl line v = u ∧ u.halted = false ∧ u.unfinished = false ∧
      u.chunkedTransfer = true ∧ u.contentLengthSet = false ∧ ¬u.crlfCounter < 2 ∧
      u.resp = { v.resp with body := v.resp.body ++ [0] } := by
  have hempty := line_empty (v := v.finished.count (ascii "0")) h.running (Nat.succ_ne_zero _)
  refine ⟨_, rfl, ?_⟩
  rw [List.foldl_cons, line_last h, List.foldl_cons, List.foldl_nil, hempty]
  refine ⟨h.running, ?_, h.chunked, h.unset, ?_, rfl⟩
  · simp [count, emptyLine, unfinished, finished]
  · simp [count, emptyLine, finished]

end ResponseLocals

/-! ## Searching a chunked message -/

/-- The first part of a chunked message: its head, which declares the coding. -/
structure ChunkedHead (status : ℕ) (reason : Bytes) (hs : List (Bytes × Bytes)) : Prop where
  low : 100 ≤ status
  high : status ≤ 599
  reason : ¬crlf <:+: reason
  headers : ∀ h ∈ hs, FitsHeader h.1 ∧ FitsHeader h.2 ∧ h.1 ≠ contentLengthName
  coding : declaresChunked hs = true

/-- The lines of the head. -/
def chunkedHeadLines (status : ℕ) (reason : Bytes) (hs : List (Bytes × Bytes)) : List Bytes :=
  statusLineText status reason :: hs.map headerText

section
open ResponseLocals
variable {status : ℕ} {reason : Bytes} {hs : List (Bytes × Bytes)}

section
variable (h : ChunkedHead status reason hs)
include h

theorem ChunkedHead.lines {l : Bytes}
    (hl : l ∈ chunkedHeadLines status reason hs) : ¬crlf <:+: l ∧ l ≠ [] := by
  rcases List.mem_cons.mp hl with rfl | hl
  · exact ⟨statusLineText_line h.reason, statusLineText_ne_nil _ _⟩
  · obtain ⟨e, he, rfl⟩ := List.mem_map.mp hl
    obtain ⟨hk, hw, -⟩ := h.headers e he
    exact ⟨headerText_line hk.line hw.line, headerText_ne_nil e⟩

theorem ChunkedHead.foldl :
    ∃ u, (chunkedHeadLines status reason hs ++ [[]]).foldl line initial = u ∧ AtLength u ∧
      u.crlfCounter = 2 ∧ u.resp.status = status ∧ u.resp.body = [] ∧
      u.resp.headers = hs.foldl (fun t h => t.emplace h.1 h.2) Table.empty := by
  obtain ⟨u, hfold, hat, hstatus, -, hbody, hheaders, -, hchunked, -⟩ :=
    foldl_head h.low h.high reason hs h.headers
  refine ⟨u.emptyLine.count [], ?_, AtLength.empty hat (hchunked.trans h.coding), ?_, hstatus, hbody,
    hheaders⟩
  · rw [List.foldl_append, chunkedHeadLines, hfold]
    exact line_empty hat.running hat.lineNo
  · simp [count, emptyLine, hat.counter]

theorem ChunkedHead.search (r : Bytes) (n : ℕ) :
    Ichor.search (n + 1) (headText (chunkedHeadLines status reason hs) ++ r) 0 =
      Ichor.search n (headText (chunkedHeadLines status reason hs) ++ r)
        (headText (chunkedHeadLines status reason hs)).length := by
  obtain ⟨i, hfind, hi, -, hsplit, -, -⟩ := @headText_position
    (chunkedHeadLines status reason hs) (List.cons_ne_nil _ _) (fun l hl => h.lines hl) [] r
  obtain ⟨u, hfold, hat, hcounter, -, -, -⟩ := h.foldl
  rw [List.append_nil] at hfind hi hsplit
  have hread : read ((headText (chunkedHeadLines status reason hs) ++ r).take (i + 4)) = u := by
    refine read_eq ?_ (by omega)
    rw [hsplit]
    exact hfold
  have hwait : u.unfinished = true := by
    simp [unfinished, hat.chunked, hat.status]
  have hparse : parseResponse (headText (chunkedHeadLines status reason hs) ++ r) (i + 4) =
      .failed .chunked (i + 4) := by
    rw [parseResponse, hread]
    exact result_chunked hat.running hwait
  rw [hi]
  simp only [Ichor.search, List.drop_zero, hfind, Nat.zero_add, hparse]
  rfl

theorem ChunkedHead.search_chunks
    {chunks : List (Bytes × Bytes)} (hchunks : ∀ c ∈ chunks, Undivided c) {rest : Bytes}
    (hcap : (headText (chunkedHeadLines status reason hs) ++
      (chunkedText chunks ++ rest)).length ≤ bufferCap) :
    ∃ resp, Ichor.search
        (headText (chunkedHeadLines status reason hs) ++ (chunkedText chunks ++ rest)).length
        (headText (chunkedHeadLines status reason hs) ++ (chunkedText chunks ++ rest)) 0 =
          .found resp (headText (chunkedHeadLines status reason hs) ++ chunkedText chunks).length ∧
      resp.status = status ∧ resp.body = chunks.flatMap Prod.snd ++ [0] ∧
      resp.headers = hs.foldl (fun t h => t.emplace h.1 h.2) Table.empty := by
  obtain ⟨u, hfold, hat, -, hstatus, hbody, hheaders⟩ := h.foldl
  have hlines : ∀ l ∈ chunkLines chunks ++ [ascii "0"], ¬crlf <:+: l ∧ l ≠ [] := by
    intro l hl
    rcases List.mem_append.mp hl with hmem | hmem
    · exact chunkLines_line hchunks hmem
    · rw [List.mem_singleton.mp hmem]
      decide
  obtain ⟨j, hfind, hj⟩ := find_headText (by simp) hlines rest
  have hsize : u.resp.body.length + (chunkLines chunks).flatten.length + 2 ≤ maxSize := by
    have hmax : bufferCap + 2 ≤ maxSize := by decide
    have hshort := length_flatten_le (chunkLines chunks ++ [ascii "0"])
    rw [List.flatten_append, List.length_append] at hshort
    simp only [chunkedText, List.length_append] at hcap
    rw [hbody, List.length_nil]
    omega
  obtain ⟨u', hfold', hat', hresp'⟩ := foldl_chunks hat chunks hchunks hsize
  obtain ⟨w, hlast, hgood, hdone, hchunked, hunset, hcount, hresp⟩ := foldl_last hat'
  have hsplit : split crlf (headText (chunkedHeadLines status reason hs) ++ chunkedText chunks) =
      (chunkedHeadLines status reason hs ++ [[]]) ++ (chunkLines chunks ++ [ascii "0", []]) := by
    rw [split_headText fun l hl => (h.lines hl).1, chunkedText,
      ← List.append_nil (headText (chunkLines chunks ++ [ascii "0"])),
      split_headText fun l hl => (hlines l hl).1, split_nil]
    simp
  have hread : read (headText (chunkedHeadLines status reason hs) ++ chunkedText chunks) = w := by
    refine read_eq ?_ hcount
    rw [hsplit, List.foldl_append, hfold, List.foldl_append, hfold', hlast]
  have hinc : ∀ msg, w.incomplete msg = false := by
    intro msg
    simp [incomplete, hunset]
  refine ⟨w.resp, ?_, ?_, ?_, ?_⟩
  · have hfind' : find terminator (chunkedText chunks ++ rest) = some j := hfind
    have hj' : j + 4 = (chunkedText chunks).length := hj
    obtain ⟨n, hn⟩ : ∃ n, (headText (chunkedHeadLines status reason hs) ++
        (chunkedText chunks ++ rest)).length = n + 1 + 1 := by
      refine ⟨(headText (chunkedHeadLines status reason hs) ++
        (chunkedText chunks ++ rest)).length - 2, ?_⟩
      simp only [List.length_append]
      omega
    rw [hn, h.search, List.length_append, ← hj', ← Nat.add_assoc]
    have htake : (headText (chunkedHeadLines status reason hs) ++ (chunkedText chunks ++ rest)).take
        ((headText (chunkedHeadLines status reason hs)).length + j + 4) =
          headText (chunkedHeadLines status reason hs) ++ chunkedText chunks := by
      rw [Nat.add_assoc, hj', ← List.append_assoc, ← List.length_append, List.take_left]
    have hparse : parseResponse (headText (chunkedHeadLines status reason hs) ++
        (chunkedText chunks ++ rest))
          ((headText (chunkedHeadLines status reason hs)).length + j + 4) =
        .parsed w.resp ((headText (chunkedHeadLines status reason hs)).length + j + 4) := by
      rw [parseResponse, htake, hread]
      exact result_done hgood hdone (hinc _) hchunked
    have hfits : (headText (chunkedHeadLines status reason hs)).length + j + 4 ≤
        (headText (chunkedHeadLines status reason hs) ++ (chunkedText chunks ++ rest)).length := by
      simp only [List.length_append]
      omega
    simp only [Ichor.search, List.drop_left, hfind', hparse, if_pos hfits]
  · rw [hresp, hresp']
    exact hstatus
  · rw [hresp, hresp', hbody]
    rfl
  · rw [hresp, hresp']
    exact hheaders

end

/-! ## Other length fields -/

/-- A length field, with the text behind it, that is not the one of a chunk: it is not a number
that the parser reads, or the declared bytes are not followed by a line end. -/
def Mislabelled (f tail : Bytes) : Prop :=
  ∀ v, safeHexToUint f = some v → v ≠ 0 ∧ ¬crlf <+: tail.drop v

/-- What is reserved for the declared length and for what has been decoded before stays within the
cap; and no line ends inside the declared bytes, or the length is so near to the width that the next
line is longer in any case. -/
def Declares (decoded : ℕ) (f tail : Bytes) : Prop :=
  ∀ v, safeHexToUint f = some v → wrap (decoded + wrap (v + 2)) ≤ bufferCap ∧
    ((∀ i < v, ¬crlf <+: tail.drop i) ∨ (2 ^ 64 ≤ v + 2 ∧ ¬crlf <+: tail))

/-- The length field holds text, and once a terminator lets the parser read it, the declared bytes
stay together. -/
structure FieldUndivided (decoded : ℕ) (f tail : Bytes) : Prop where
  ne_nil : f ≠ []
  line : ¬crlf <:+: f
  declares : terminator <:+: crlf ++ tail → Declares decoded f tail

theorem foldl_mislabelled {u : ResponseLocals} (hat : AtLength u) {f tail t : Bytes}
    (hother : Mislabelled f tail) (hne : f ≠ []) (hdeclares : Declares u.resp.body.length f tail)
    (ht : t <+: tail) (hend : crlf <:+ t) : ((f :: split crlf t).foldl line u).badRequest = true ∧
      ((f :: split crlf t).foldl line u).lengthError = false := by
  obtain ⟨hbad, herr⟩ := halted_eq_false.mp hat.running
  cases hvalue : safeHexToUint f with
  | none =>
    have hline : (u.line f).badRequest = true ∧ (u.line f).lengthError = false := by
      rw [line_text hat.running hat.lineNo hne]
      simp [textLine, hat.status, chunkLengthLine, hvalue, count, herr]
    have hhalted : (u.line f).halted = true := by simp [halted, hline.1]
    rw [List.foldl_cons, foldl_of_halted hhalted]
    exact hline
  | some v =>
    obtain ⟨hpos, hbehind⟩ := hother v hvalue
    have hmax : bufferCap ≤ maxSize := by decide
    have hline := line_field hat hne hvalue hpos ((hdeclares v hvalue).1.trans hmax)
    cases hcut : cut crlf t with
    | none => exact absurd hend.isInfix (cut_eq_none.mp hcut)
    | some x =>
      obtain ⟨p, r⟩ := x
      have heq := cut_eq_append hcut
      have hat' : crlf <+: tail.drop p.length := by
        obtain ⟨z, hz⟩ := ht
        rw [← hz, heq, List.append_assoc, List.append_assoc, List.drop_left]
        exact List.prefix_append _ _
      have hlong : wrap (v + 2) < p.length + 2 ∧ p ≠ [] := by
        have hv64 := safeHexToUint_lt hvalue
        rcases (hdeclares v hvalue).2 with hfree | ⟨hbig, hstart⟩
        · have hgt : v < p.length := by
            by_contra hle
            rcases Nat.lt_or_ge p.length v with hlt | hge
            · exact hfree _ hlt hat'
            · have hsame : p.length = v := by omega
              rw [hsame] at hat'
              exact hbehind hat'
          have hle := wrap_le (v + 2)
          refine ⟨by omega, ?_⟩
          rintro rfl
          exact absurd hgt (by simp)
        · have hne : p ≠ [] := by
            rintro rfl
            exact hstart hat'
          have hposp := List.length_pos_of_ne_nil hne
          have hwrap : wrap (v + 2) ≤ 1 := by
            simp only [wrap]
            omega
          exact ⟨by omega, hne⟩
      have hdata := line_data_bad (v := ResponseLocals.count { u with
          chunkLength := wrap (v + 2)
          chunkedStatus := .content
          crlfCounter := 1 } f) hat.running (Nat.succ_ne_zero _) rfl hlong.2 hlong.1
      have hhalted := hdata.1
      rw [List.foldl_cons, hline, split_of_cut crlf_ne_nil hcut, List.foldl_cons,
        foldl_of_halted (by simp [halted, hhalted])]
      exact hdata

theorem ChunkedHead.search_mislabelled (h : ChunkedHead status reason hs)
    {chunks : List (Bytes × Bytes)} (hchunks : ∀ c ∈ chunks, Undivided c) {f tail : Bytes}
    (hother : Mislabelled f tail) (hwhole : FieldUndivided (chunks.flatMap Prod.snd).length f tail)
    (hsize : (chunkLines chunks).flatten.length + 2 ≤ maxSize) (n : ℕ) :
    Ichor.search n (headText (chunkedHeadLines status reason hs) ++
        ((chunkLines chunks ++ [f]).flatMap (· ++ crlf) ++ tail)) 0 = .waiting ∨
      ∃ error, Ichor.search n (headText (chunkedHeadLines status reason hs) ++
        ((chunkLines chunks ++ [f]).flatMap (· ++ crlf) ++ tail)) 0 = .malformed error := by
  obtain ⟨u, hfold, hat, -, -, hbody, -⟩ := h.foldl
  have hlines : ∀ l ∈ chunkLines chunks ++ [f], ¬crlf <:+: l ∧ l ≠ [] := by
    intro l hl
    rcases List.mem_append.mp hl with hmem | hmem
    · exact chunkLines_line hchunks hmem
    · rw [List.mem_singleton.mp hmem]
      exact ⟨hwhole.line, hwhole.ne_nil⟩
  obtain ⟨u', hfold', hat', hresp'⟩ := foldl_chunks hat chunks hchunks (by
    rw [hbody, List.length_nil]
    omega)
  have hdecoded : u'.resp.body.length = (chunks.flatMap Prod.snd).length := by
    rw [hresp', hbody]
    rfl
  rw [← hdecoded] at hwhole
  cases n with
  | zero => exact .inl rfl
  | succ n =>
    rw [h.search]
    cases n with
    | zero => exact .inl rfl
    | succ n =>
      cases hfind : find terminator ((chunkLines chunks ++ [f]).flatMap (· ++ crlf) ++ tail) with
      | none =>
        refine .inl ?_
        simp only [Ichor.search, List.drop_left, hfind]
      | some j =>
        obtain ⟨t, htake, ht, hend⟩ := find_lines (by simp) hlines hfind
        have hterm : terminator <:+: crlf ++ tail := by
          -- the terminator ends with `t`, and `f` with its line end stands before it
          have hall : terminator <:+ (chunkLines chunks ++ [f]).flatMap (· ++ crlf) ++ t := by
            have hat := (@find_terminator _ 0 j hfind).1
            rw [Nat.zero_add] at hat
            rw [← htake, take_terminator hat]
            exact List.suffix_append _ _
          have hline : crlf ++ t <:+ (chunkLines chunks ++ [f]).flatMap (· ++ crlf) ++ t :=
            ⟨(chunkLines chunks).flatMap (· ++ crlf) ++ f, by simp⟩
          have hlength : terminator.length ≤ (crlf ++ t).length := by
            rw [terminator_eq, List.length_append, List.length_append]
            exact Nat.add_le_add_left hend.length_le _
          have hshort := List.suffix_of_suffix_length_le hall hline hlength
          exact hshort.isInfix.trans ((List.prefix_append_right_inj _).mpr ht).isInfix
        have hbad := foldl_mislabelled hat' hother hwhole.ne_nil (hwhole.declares hterm) ht hend
        have hsplit : split crlf (headText (chunkedHeadLines status reason hs) ++
            ((chunkLines chunks ++ [f]).flatMap (· ++ crlf) ++ t)) =
              (chunkedHeadLines status reason hs ++ [[]]) ++
                (chunkLines chunks ++ (f :: split crlf t)) := by
          rw [split_headText fun l hl => (h.lines hl).1, split_flatMap crlf_ne_nil _
            fun l hl => crlf_unbordered.free (hlines l hl).1]
          simp
        have hread : (read (headText (chunkedHeadLines status reason hs) ++
            ((chunkLines chunks ++ [f]).flatMap (· ++ crlf) ++ t))).badRequest = true ∧
          (read (headText (chunkedHeadLines status reason hs) ++
            ((chunkLines chunks ++ [f]).flatMap (· ++ crlf) ++ t))).lengthError = false := by
          simp only [ResponseLocals.read, hsplit, List.foldl_append, hfold, hfold']
          split
          · exact ⟨rfl, hbad.2⟩
          · exact hbad
        refine .inr ⟨.badRequest, ?_⟩
        have htake' : (headText (chunkedHeadLines status reason hs) ++
            ((chunkLines chunks ++ [f]).flatMap (· ++ crlf) ++ tail)).take
              ((headText (chunkedHeadLines status reason hs)).length + j + 4) =
            headText (chunkedHeadLines status reason hs) ++
              ((chunkLines chunks ++ [f]).flatMap (· ++ crlf) ++ t) := by
          rw [Nat.add_assoc, List.take_length_add_append, htake]
        obtain ⟨m, hparse⟩ : ∃ m, parseResponse (headText (chunkedHeadLines status reason hs) ++
            ((chunkLines chunks ++ [f]).flatMap (· ++ crlf) ++ tail))
              ((headText (chunkedHeadLines status reason hs)).length + j + 4) =
            .failed .badRequest m := by
          rw [parseResponse, htake']
          exact result_bad hread.2 hread.1
        simp only [Ichor.search, List.drop_left, hfind, hparse]

/-- A chunked response whose chunks are not divided by line ends is delivered with its data put
together; and behind chunks, a length field that is not the one of a chunk delivers nothing. -/
theorem receive_chunked (h : ChunkedHead status reason hs) {chunks : List (Bytes × Bytes)}
    (hchunks : ∀ c ∈ chunks, Undivided c) {c : HttpConnection} (hbuffer : c.buffer = [])
    (hrunning : c.terminated = false) :
    (∀ rest, (headText (chunkedHeadLines status reason hs) ++
        (chunkedText chunks ++ rest)).length ≤ bufferCap →
      ∃ resp : HttpResponse, resp.status = status ∧ resp.body = chunks.flatMap Prod.snd ++ [0] ∧
        resp.headers = hs.foldl (fun t h => t.emplace h.1 h.2) Table.empty ∧
        (c.receive (headText (chunkedHeadLines status reason hs) ++
          (chunkedText chunks ++ rest))).handler = .deliver resp :: (c.receive rest).handler ∧
        (c.receive (headText (chunkedHeadLines status reason hs) ++
          (chunkedText chunks ++ rest))).buffer = (c.receive rest).buffer) ∧
    ∀ f tail, Mislabelled f tail → FieldUndivided (chunks.flatMap Prod.snd).length f tail →
      (headText (chunkedHeadLines status reason hs) ++
        ((chunkLines chunks ++ [f]).flatMap (· ++ crlf) ++ tail)).length ≤ bufferCap →
      (c.receive (headText (chunkedHeadLines status reason hs) ++
          ((chunkLines chunks ++ [f]).flatMap (· ++ crlf) ++ tail))).handler = [] ∨
        ∃ error, (c.receive (headText (chunkedHeadLines status reason hs) ++
          ((chunkLines chunks ++ [f]).flatMap (· ++ crlf) ++ tail))).handler = [.failAll error] := by
  constructor
  · intro rest hcap
    obtain ⟨resp, hsearch, hstatus, hbody, hheaders⟩ := h.search_chunks hchunks hcap
    rw [← List.append_assoc] at hcap hsearch ⊢
    exact ⟨resp, hstatus, hbody, hheaders, receive_found hbuffer hrunning hcap hsearch⟩
  · intro f tail hother hwhole hcap
    refine receive_not_found hbuffer hrunning hcap (h.search_mislabelled hchunks hother hwhole ?_ _)
    have hmax : bufferCap + 2 ≤ maxSize := by decide
    have hshort := length_flatten_le (chunkLines chunks)
    simp only [headText, List.flatMap_append, List.length_append] at hshort hcap
    have hline : crlf.length = 2 := rfl
    simp only [List.flatMap_cons, List.flatMap_nil, List.length_append, hline] at hcap hshort
    omega

end

/-- Two chunks, and then a length field near to the width. -/
theorem receive_chunked_two :
    let hs := [(transferEncodingName, chunkedCoding)]
    let head := headText (chunkedHeadLines 200 (ascii "OK") hs)
    ∃ resp : HttpResponse, resp.body = ascii "abcd" ++ [0] ∧
      (HttpConnection.initial.receive
        (head ++ ascii "3\r\nabc\r\n1\r\nd\r\n0\r\n\r\n")).handler = [.deliver resp] ∧
      (HttpConnection.initial.receive
        (head ++ ascii "3\r\nabc\r\n1\r\nd\r\nFFFFFFFFFFFFFFFE\r\ne\r\n\r\n")).handler ≠
          [.deliver resp] := by
  intro hs head
  have hhead : ChunkedHead 200 (ascii "OK") hs := by
    refine ⟨by decide, by decide, by decide, ?_, by decide⟩
    intro h hmem
    rw [List.mem_singleton.mp hmem]
    exact ⟨⟨by decide, by decide, by decide⟩, ⟨by decide, by decide, by decide⟩, by decide⟩
  have hchunks : ∀ c ∈ [(ascii "3", ascii "abc"), (ascii "1", ascii "d")], Undivided c := by
    intro c hc
    rcases List.mem_cons.mp hc with rfl | hc
    · exact ⟨by decide, by decide, by decide, by decide⟩
    · rw [List.mem_singleton.mp hc]
      exact ⟨by decide, by decide, by decide, by decide⟩
  have hvalue : safeHexToUint (ascii "FFFFFFFFFFFFFFFE") = some (2 ^ 64 - 2) := by decide
  have hother : Mislabelled (ascii "FFFFFFFFFFFFFFFE") (ascii "e\r\n\r\n") := by
    intro v hv
    rw [hvalue] at hv
    cases hv
    exact ⟨by decide, by decide⟩
  have hwhole : FieldUndivided 4 (ascii "FFFFFFFFFFFFFFFE") (ascii "e\r\n\r\n") := by
    refine ⟨by decide, by decide, ?_⟩
    intro _ v hv
    rw [hvalue] at hv
    cases hv
    exact ⟨by decide, .inr ⟨by decide, by decide⟩⟩
  obtain ⟨hgood, hbad⟩ := receive_chunked hhead hchunks (c := HttpConnection.initial) rfl rfl
  obtain ⟨resp, -, hbody, -, hhandler, -⟩ := hgood [] (by decide)
  refine ⟨resp, hbody, hhandler, ?_⟩
  rcases hbad _ _ hother hwhole (by decide) with hnone | ⟨error, herror⟩
  · exact fun heq => by cases hnone.symm.trans heq
  · exact fun heq => by cases herror.symm.trans heq

/-- A chunk that holds a line end loses it, a length that is too large is taken for the right
one when an empty line follows, and a large length makes the vector throw. -/
theorem receive_chunked_divided :
    let head := ascii "HTTP/1.1 200 OK\r\nTransfer-Encoding: chunked\r\n\r\n"
    let bodies := fun msg => (receiveResponses (head ++ ascii msg)).responses.map HttpResponse.body
    bodies "4\r\na\r\nb\r\n0\r\n\r\n" = [ascii "ab" ++ [0]] ∧
      bodies "FFFF\r\nabc\r\n\r\n0\r\n\r\n" = [ascii "abc" ++ [0]] ∧
      (receiveResponses (head ++ ascii "8000000000000000\r\nabc\r\n\r\n")).crashed = true := by
  intro head bodies
  exact ⟨by decide +kernel, by decide +kernel, by decide +kernel⟩

end Ichor
