import Ichor.Http.Bounds
import Ichor.Http.Receive
import Ichor.Lib.Framing

/-! More text behind a message does not change how it is read, so the receivers are framers of
their streams. -/
namespace Ichor
open Delimited Framing List

variable {start len n : ℕ} {resp : HttpResponse} {t rest : Bytes}

theorem length_left_le {msg : Bytes} (h : (msg ++ t).length ≤ n) : msg.length ≤ n :=
  Nat.le_trans (by simp) h

theorem contentAt_append {complete : Bytes} {length : ℕ} {content : Bytes}
    (h : contentAt complete start length = some content) (t : Bytes) :
    contentAt (complete ++ t) start length = some content := by
  unfold contentAt at h ⊢
  split at h
  · next hle =>
    have hle' : start + length ≤ (complete ++ t).length := by
      rw [length_append]
      omega
    have hslice : ((complete ++ t).drop start).take length = (complete.drop start).take length := by
      rw [drop_append_of_le_length (by omega), take_append_of_le_length]
      rw [length_drop]
      omega
    rw [if_pos hle', hslice]
    exact h
  · cases h

theorem contentAt_eq_some {complete : Bytes} {length : ℕ} {content : Bytes}
    (h : contentAt complete start length = some content) : start + length ≤ complete.length := by
  unfold contentAt at h
  split at h
  · next hle => exact hle
  · cases h

theorem find_terminator {msg : Bytes} {start i : ℕ}
    (h : find terminator (msg.drop start) = some i) :
    terminator <+: msg.drop (start + i) ∧ start + i + 4 ≤ msg.length := by
  obtain ⟨⟨p, r⟩, hcut, hi⟩ := Option.map_eq_some_iff.mp h
  have heq := cut_eq_append hcut
  have hdrop : msg.drop (start + i) = terminator ++ r := by
    rw [← drop_drop, heq, ← hi, append_assoc, drop_left]
  have hpre : terminator <+: msg.drop (start + i) := hdrop ▸ prefix_append _ _
  exact ⟨hpre, (take_of_terminator hpre).2⟩

theorem find_append {d msg : Bytes} {i : ℕ} (h : find d msg = some i) (t : Bytes) :
    find d (msg ++ t) = some i := by
  obtain ⟨⟨p, r⟩, hcut, hi⟩ := Option.map_eq_some_iff.mp h
  rw [find, cut_append hcut t]
  exact congrArg some hi

/-- A message whose content ends with the text is incomplete in any shorter text. -/
theorem declared_short {msg : Bytes} {i proto contentLength : ℕ} {declared : Bool} (ht : t ≠ [])
    (hterm : terminator <+: msg.drop i)
    (hproto : proto = wrap ((split crlf (msg.take (i + 4))).map fun l => l.length + 2).sum)
    (hunset : declared = false → contentLength = 0)
    (hfits : i + 4 + contentLength ≤ (msg ++ t).length)
    (hlen : wrap (i + 4 + contentLength) = (msg ++ t).length) :
    (declared && decide (msg.length < wrap (proto + contentLength))) = true := by
  have hpos := length_pos_of_ne_nil ht
  have hi := (take_of_terminator hterm).2
  have hlt := wrap_lt (i + 4 + contentLength)
  rw [length_append] at hfits hlen
  have hpos' : proto = i + 4 := hproto.trans (wrap_sum_lines (by omega) hterm)
  have hsmall : i + 4 + contentLength < 2 ^ 64 := by omega
  rw [wrap_of_lt hsmall] at hlen
  have hset : declared = true := by
    cases hd : declared with
    | true => rfl
    | false =>
      have hzero := hunset hd
      omega
  rw [hset, hpos', wrap_of_lt hsmall, Bool.true_and, decide_eq_true_eq]
  omega

/-! ## Responses -/

namespace ResponseLocals
variable {v : ResponseLocals} {msg : Bytes} {pos : ℕ}

theorem incomplete_append (h : v.incomplete msg = false) (t : Bytes) :
    v.incomplete (msg ++ t) = false := by
  simp only [incomplete, Bool.and_eq_false_iff, decide_eq_false_iff_not, length_append] at h ⊢
  rcases h with h | h
  · exact .inl h
  · exact .inr (by omega)

end ResponseLocals

section
variable {msg : Bytes} {pos : ℕ}

theorem parseResponse_take (hpos : pos ≤ msg.length) (t : Bytes) : parseResponse (msg ++ t) pos =
      (ResponseLocals.read (msg.take pos)).result (msg ++ t) pos := by
  rw [parseResponse, take_append_of_le_length hpos]

/-- Only a malformed and an incomplete response are read anew with more text behind them. -/
theorem parseResponse_append {i : ℕ} (hi : terminator <+: msg.drop i)
    (hcap : (msg ++ t).length ≤ bufferCap)
    (h : ∀ error n, parseResponse msg (i + 4) = .failed error n → error = .chunked) :
    parseResponse (msg ++ t) (i + 4) = parseResponse msg (i + 4) := by
  rw [parseResponse_take (take_of_terminator hi).2]
  have hverdict := ResponseLocals.result_verdict
    (ResponseLocals.read (msg.take (i + 4))) msg (i + 4)
  rw [parseResponse] at h ⊢
  generalize (ResponseLocals.read (msg.take (i + 4))).result msg (i + 4) = out at h hverdict ⊢
  cases hverdict with
  | lengthError herr => exact ResponseLocals.result_lengthError herr
  | bad herr hbad n => cases h _ _ rfl
  | chunked hgood hwait => exact ResponseLocals.result_chunked hgood hwait
  | incomplete hgood hwait hinc => cases h _ _ rfl
  | done hgood hwait hinc hchunked =>
    exact ResponseLocals.result_done hgood hwait (ResponseLocals.incomplete_append hinc t) hchunked
  | tooLong hgood hwait hinc hchunked hat hlong =>
    refine (ResponseLocals.result_outside hgood hwait (ResponseLocals.incomplete_append hinc t) hchunked
      (if_neg ?_)).trans (if_pos hlong)
    unfold bufferCap at hcap
    unfold maxSize at hlong
    omega
  | overrun hgood hwait hinc hchunked hat hshort =>
    have hsane := (ResponseLocals.read_good hgood).2
    exact absurd (declared_fits (length_left_le hcap) hi (not_le.mp hshort) hsane.protocolLength
      hsane.unset hinc) (not_overrun hat)
  | content hgood hwait hinc hchunked content hat =>
    exact ResponseLocals.result_content hgood hwait (ResponseLocals.incomplete_append hinc t) hchunked
      (contentAt_append hat t)

/-- Behind a terminator a response takes up at least the text before that position, and no more
than there is. -/
theorem parsed_len {start i : ℕ} (hcap : msg.length ≤ bufferCap)
    (hi : find terminator (msg.drop start) = some i) {resp : HttpResponse} {len : ℕ}
    (h : parseResponse msg (start + i + 4) = .parsed resp len) :
    start + i + 4 ≤ len ∧ len ≤ msg.length := by
  obtain ⟨-, hlen⟩ := find_terminator hi
  have hcap64 := bufferCap_lt
  have hverdict := ResponseLocals.result_verdict
    (ResponseLocals.read (msg.take (start + i + 4))) msg (start + i + 4)
  rw [parseResponse] at h
  rw [h] at hverdict
  cases hverdict with
  | done _ _ _ _ => exact ⟨le_rfl, hlen⟩
  | content _ _ _ _ content hat =>
    have hle := contentAt_eq_some hat
    rw [wrap_of_lt (by omega)]
    exact ⟨by omega, hle⟩

end

/-- A search that neither waits nor meets a malformed response ends the same with more text. -/
theorem search_append {m : ℕ} {msg : Bytes} {out : Search} (hnm : n ≤ m)
    (hcap : (msg ++ t).length ≤ bufferCap) (h : search n msg start = out)
    (hwait : out ≠ .waiting) (hbad : ∀ error, out ≠ .malformed error) :
    search m (msg ++ t) start = out := by
  subst h
  induction n generalizing m start with
  | zero => exact absurd rfl hwait
  | succ n ih =>
    obtain ⟨m, rfl⟩ := Nat.exists_eq_succ_of_ne_zero (show m ≠ 0 by omega)
    cases hfind : find terminator (msg.drop start) with
    | none => exact absurd (by simp [search, hfind]) hwait
    | some i =>
      obtain ⟨hterm, hlen⟩ := find_terminator hfind
      have hfind' : find terminator ((msg ++ t).drop start) = some i := by
        rw [drop_append_of_le_length (by omega)]
        exact find_append hfind t
      have hsame : (∀ error n, parseResponse msg (start + i + 4) = .failed error n →
          error = .chunked) → parseResponse (msg ++ t) (start + i + 4) = _ :=
        parseResponse_append hterm hcap
      simp only [search, hfind, hfind'] at hwait hbad ⊢
      cases hout : parseResponse msg (start + i + 4) with
      | failed error len =>
        cases error with
        | chunked =>
          rw [hout] at hsame
          rw [hsame (by rintro _ _ ⟨⟩; rfl)]
          simp only [hout] at hwait hbad ⊢
          exact ih (by omega) hwait hbad
        | incompleteRequest => simp [hout] at hwait
        | _ => simp [hout] at hbad
      | parsed resp len =>
        have hmsg := length_left_le hcap
        have hle := (parsed_len hmsg hfind hout).2
        have hle' : len ≤ msg.length + t.length := by omega
        simp [hsame (by simp [hout]), hout, hle, hle']
      | overrun _ _ | lengthError => simp [hsame (by simp [hout]), hout]

theorem search_found {msg : Bytes}
    (hcap : msg.length ≤ bufferCap) (h : search n msg start = .found resp len) :
    0 < len ∧ len ≤ msg.length := by
  induction n generalizing start with
  | zero => cases h
  | succ n ih =>
    cases hfind : find terminator (msg.drop start) with
    | none => simp [search, hfind] at h
    | some i =>
      cases hout : parseResponse msg (start + i + 4) with
      | failed error n' =>
        cases error with
        | chunked =>
          simp only [search, hfind, hout] at h
          exact ih h
        | _ => simp [search, hfind, hout] at h
      | parsed resp' len' =>
        obtain ⟨hlow, hhigh⟩ := parsed_len hcap hfind hout
        simp only [search, hfind, hout, if_pos hhigh] at h
        cases h
        exact ⟨by omega, hhigh⟩
      | overrun _ _ | lengthError => simp [search, hfind, hout] at h

/-- The next response and the text behind it. -/
def nextResponse (msg : Bytes) : Option (HttpResponse × Bytes) :=
  match search msg.length msg 0 with
  | .found resp len => some (resp, msg.drop len)
  | _ => none

theorem nextResponse_eq_some {msg : Bytes} (h : nextResponse msg = some (resp, rest)) :
    ∃ len, search msg.length msg 0 = .found resp len ∧ rest = msg.drop len := by
  unfold nextResponse at h
  split at h
  · next resp' len hsearch =>
    cases h
    exact ⟨len, hsearch, rfl⟩
  · cases h

/-- The client is a framer of responses, for buffers within the cap. -/
def responseFramer : Framer UInt8 HttpResponse where
  next := nextResponse
  bound := bufferCap
  shrinks := by
    intro s resp rest hs h
    obtain ⟨len, hsearch, rfl⟩ := nextResponse_eq_some h
    have hlen := search_found hs hsearch
    rw [length_drop]
    omega
  stable := by
    intro s t resp rest hst h
    obtain ⟨len, hsearch, rfl⟩ := nextResponse_eq_some h
    have hs := length_left_le hst
    have hlen := search_found hs hsearch
    have happend : search (s ++ t).length (s ++ t) 0 = .found resp len :=
      search_append (by simp) hst hsearch (by simp) (by simp)
    simp only [nextResponse, happend]
    rw [drop_append_of_le_length hlen.2]

/-! ## The loop of the client -/

/-- The end of the loop, when no response is left to find. -/
def stuckAt (responses : List HttpResponse) (rest : Bytes) : Reception :=
  match search rest.length rest 0 with
  | .malformed error => ⟨responses, rest, some error, false⟩
  | .crashed => ⟨responses, [], none, true⟩
  | _ => ⟨responses, rest, none, false⟩

theorem stuckAt_append (first responses : List HttpResponse) (rest : Bytes) :
    stuckAt (first ++ responses) rest =
      { stuckAt responses rest with responses := first ++ (stuckAt responses rest).responses } := by
  unfold stuckAt
  split <;> rfl

theorem stuckAt_crashed (h : search rest.length rest 0 = .crashed)
    (responses : List HttpResponse) : stuckAt responses rest = ⟨responses, [], none, true⟩ := by
  simp [stuckAt, h]

theorem next_of_crashed (h : search rest.length rest 0 = .crashed) :
    responseFramer.next rest = none := by
  simp [responseFramer, nextResponse, h]

section
variable {msg : Bytes} (hcap : msg.length ≤ bufferCap)
include hcap

theorem receiveLoop_eq (hn : msg.length < n) :
    receiveLoop n msg = stuckAt (responseFramer.drain msg).1 (responseFramer.drain msg).2 := by
  induction n generalizing msg with
  | zero => omega
  | succ n ih =>
    cases hsearch : search msg.length msg 0 with
    | waiting | malformed error | crashed =>
      have hnone : responseFramer.next msg = none := by simp [responseFramer, nextResponse, hsearch]
      simp [receiveLoop, hsearch, Framer.drain_none hnone, stuckAt]
    | found resp len =>
      have hsome : responseFramer.next msg = some (resp, msg.drop len) := by
        simp [responseFramer, nextResponse, hsearch]
      have hlen := search_found hcap hsearch
      have hshort : (msg.drop len).length ≤ bufferCap ∧ (msg.drop len).length < n := by
        rw [length_drop]
        omega
      have hrest := ih hshort.1 hshort.2
      rw [Framer.drain_some hcap hsome, ← singleton_append, stuckAt_append, ← hrest]
      simp [receiveLoop, hsearch]

theorem receiveResponses_eq : receiveResponses msg =
      stuckAt (responseFramer.drain msg).1 (responseFramer.drain msg).2 :=
  receiveLoop_eq hcap (Nat.lt_succ_self _)

theorem receiveResponses_found (h : search msg.length msg 0 = .found resp len) :
    receiveResponses msg = { receiveResponses (msg.drop len) with
      responses := resp :: (receiveResponses (msg.drop len)).responses } := by
  have hsome : responseFramer.next msg = some (resp, msg.drop len) := by
    simp [responseFramer, nextResponse, h]
  have hrest : (msg.drop len).length ≤ bufferCap := by
    rw [length_drop]
    omega
  rw [receiveResponses_eq hcap, receiveResponses_eq hrest, Framer.drain_some hcap hsome]
  exact stuckAt_append [resp] _ _

theorem receiveResponses_left : ∃ error, receiveResponses (receiveResponses msg).rest =
      ⟨[], (receiveResponses msg).rest, error, false⟩ := by
  have hshort := Framer.drain_length (F := responseFramer) hcap
  have hrest : (responseFramer.drain msg).2.length ≤ bufferCap := by omega
  have hagain := receiveResponses_eq hrest
  rw [Framer.drain_none (Framer.next_drain hcap)] at hagain
  rw [receiveResponses_eq hcap]
  unfold stuckAt at hagain ⊢
  split
  · next error hsearch =>
    rw [hsearch] at hagain
    exact ⟨some error, hagain⟩
  · exact ⟨none, rfl⟩
  · next hbad hcrash =>
    refine ⟨none, ?_⟩
    split at hagain
    · next hsearch => exact absurd hsearch (hbad _)
    · next hsearch => exact absurd hsearch hcrash
    · exact hagain

end

theorem receiveResponses_append {msg : Bytes} (hcap : (msg ++ t).length ≤ bufferCap)
    (herror : (receiveResponses msg).error = none) (hcrash : (receiveResponses msg).crashed = false) :
    receiveResponses (msg ++ t) =
      { receiveResponses ((receiveResponses msg).rest ++ t) with
        responses := (receiveResponses msg).responses ++
          (receiveResponses ((receiveResponses msg).rest ++ t)).responses } := by
  have hmsg := length_left_le hcap
  have hshort := Framer.drain_length (F := responseFramer) hmsg
  have hmid : receiveResponses msg =
      ⟨(responseFramer.drain msg).1, (responseFramer.drain msg).2, none, false⟩ := by
    rw [receiveResponses_eq hmsg] at herror hcrash ⊢
    unfold stuckAt at herror hcrash ⊢
    split
    · next hsearch => simp [hsearch] at herror
    · next hsearch => simp [hsearch] at hcrash
    · rfl
  have hrest : ((responseFramer.drain msg).2 ++ t).length ≤ bufferCap := by
    rw [length_append] at hcap ⊢
    omega
  rw [hmid, receiveResponses_eq hcap, receiveResponses_eq hrest, Framer.drain_append hcap]
  exact stuckAt_append _ _ _

theorem receiveResponses_append_crashed {msg : Bytes} (hcap : (msg ++ t).length ≤ bufferCap)
    (hcrash : (receiveResponses msg).crashed = true) :
    receiveResponses (msg ++ t) = receiveResponses msg := by
  have hmsg := length_left_le hcap
  have hshort := Framer.drain_length (F := responseFramer) hmsg
  rw [receiveResponses_eq hmsg] at hcrash ⊢
  rw [receiveResponses_eq hcap, Framer.drain_append hcap]
  have hsearch : search (responseFramer.drain msg).2.length (responseFramer.drain msg).2 0
      = .crashed := by
    unfold stuckAt at hcrash
    split at hcrash
    · cases hcrash
    · next hsearch => exact hsearch
    · cases hcrash
  have hrest : ((responseFramer.drain msg).2 ++ t).length ≤ bufferCap := by
    rw [length_append] at hcap ⊢
    omega
  have hsearch' : search ((responseFramer.drain msg).2 ++ t).length
      ((responseFramer.drain msg).2 ++ t) 0 = .crashed :=
    search_append (by simp) hrest hsearch (by simp) (by simp)
  rw [Framer.feed, Framer.drain_none (next_of_crashed hsearch'), stuckAt_crashed hsearch,
    stuckAt_crashed hsearch', append_nil]

/-! ## Requests -/

namespace RequestLocals
variable {v : RequestLocals} {msg : Bytes} {pos : ℕ}

theorem incomplete_append (h : v.incomplete msg = false) (t : Bytes) :
    v.incomplete (msg ++ t) = false := by
  simp only [incomplete, Bool.and_eq_false_iff, decide_eq_false_iff_not, length_append] at h ⊢
  rcases h with h | h
  · exact .inl h
  · exact .inr (by omega)

theorem result_append_parsed {req : HttpRequest} {len : ℕ}
    (h : v.result msg pos = .parsed req len) (t : Bytes) :
    v.result (msg ++ t) pos = .parsed req len := by
  have hverdict := result_verdict v msg pos
  rw [h] at hverdict
  cases hverdict with
  | content hgood hinc content hat =>
    exact result_content hgood (incomplete_append hinc t) (contentAt_append hat t)

end RequestLocals

theorem parseRequest_append {msg : Bytes} {pos : ℕ} (hpos : pos ≤ msg.length) (t : Bytes) :
    parseRequest (msg ++ t) pos = (RequestLocals.read (msg.take pos)).result (msg ++ t) pos := by
  rw [parseRequest, take_append_of_le_length hpos]

theorem searchRequest_found {msg : Bytes} {req : HttpRequest}
    (h : searchRequest msg = .found req len) :
    ∃ i, find terminator msg = some i ∧ i + 4 ≤ msg.length ∧
      parseRequest msg (i + 4) = .parsed req len ∧ len ≤ msg.length := by
  unfold searchRequest at h
  cases hfind : find terminator msg with
  | none => simp [hfind] at h
  | some i =>
    have hlen := (@find_terminator msg 0 i hfind).2
    refine ⟨i, rfl, by omega, ?_⟩
    simp only [hfind] at h
    cases hout : parseRequest msg (i + 4) with
    | failed error n => cases error <;> simp [hout] at h
    | parsed req' len' =>
      simp only [hout] at h
      split at h
      · next hle =>
        cases h
        exact ⟨rfl, hle⟩
      · cases h
    | overrun _ _ => simp [hout] at h
    | lengthError => simp [hout] at h

theorem searchRequest_append {msg : Bytes} {req : HttpRequest}
    (h : searchRequest msg = .found req len) (t : Bytes) :
    searchRequest (msg ++ t) = .found req len := by
  obtain ⟨i, hfind, hi, hparse, hle⟩ := searchRequest_found h
  have happend := parseRequest_append hi t
  rw [parseRequest] at hparse
  rw [RequestLocals.result_append_parsed hparse t] at happend
  have hle' : len ≤ (msg ++ t).length := by
    rw [length_append]
    omega
  simp only [searchRequest, find_append hfind t, happend, if_pos hle']

theorem searchRequest_part {msg t : Bytes} {req : HttpRequest}
    (h : searchRequest (msg ++ t) = .found req (msg ++ t).length) (ht : t ≠ []) :
    searchRequest msg = .waiting := by
  cases hfind : find terminator msg with
  | none => simp [searchRequest, hfind]
  | some i =>
    obtain ⟨j, hfind', hj, hparse, -⟩ := searchRequest_found h
    rw [find_append hfind t, Option.some.injEq] at hfind'
    subst hfind'
    obtain ⟨hterm, hi⟩ := @find_terminator msg 0 i hfind
    rw [Nat.zero_add] at hterm hi
    rw [parseRequest_append hi] at hparse
    have hverdict := RequestLocals.result_verdict
      (RequestLocals.read (msg.take (i + 4))) (msg ++ t) (i + 4)
    generalize hlen : (msg ++ t).length = n at hparse
    rw [hparse] at hverdict
    cases hverdict with
    | content hgood hinc content hat =>
      have hsane := (RequestLocals.read_good hgood).2
      have hshort : (RequestLocals.read (msg.take (i + 4))).incomplete msg = true :=
        declared_short ht hterm hsane.protocolLength hsane.unset (contentAt_eq_some hat) hlen.symm
      have hwait : parseRequest msg (i + 4) = .failed .incompleteRequest (i + 4) := by
        simp [parseRequest, RequestLocals.result, hgood, hshort]
      simp only [searchRequest, hfind, hwait]

end Ichor
