import Ichor.Http.ResponseLines

/-! The parsers stay inside their buffer: a declared length for which the completeness check wraps
is one that no vector can hold. -/
namespace Ichor
open Delimited

theorem crlf_ne_nil : crlf ≠ [] := by decide

theorem crlf_unbordered : Unbordered crlf := unbordered_pair (by decide)

theorem terminator_eq : terminator = crlf ++ crlf := by decide

theorem sum_lines {part : Bytes} (h : crlf <:+ part) :
    ((split crlf part).map fun l => l.length + 2).sum = part.length := by
  have hjoin := (flatMap_split crlf_ne_nil crlf_unbordered h).1
  have hlen := congrArg List.length hjoin
  rw [List.length_flatMap] at hlen
  rw [← hlen]
  congr 1
  refine List.map_congr_left fun l _ => ?_
  rw [List.length_append]
  rfl

theorem take_terminator {complete : Bytes} {i : ℕ} (h : terminator <+: complete.drop i) :
    complete.take (i + 4) = complete.take i ++ terminator := by
  obtain ⟨rest, hrest⟩ := h
  rw [List.take_add, ← hrest]
  congr 1

theorem take_of_terminator {complete : Bytes} {i : ℕ} (h : terminator <+: complete.drop i) :
    crlf <:+ complete.take (i + 4) ∧ i + 4 ≤ complete.length := by
  rw [take_terminator h]
  obtain ⟨rest, hrest⟩ := h
  have hlen : i + 4 ≤ complete.length := by
    have hdrop := congrArg List.length hrest
    rw [List.length_append, List.length_drop] at hdrop
    have h4 : terminator.length = 4 := by decide
    omega
  refine ⟨?_, hlen⟩
  rw [terminator_eq, ← List.append_assoc]
  exact List.suffix_append _ _

/-- A result lies inside the buffer: the new position is not before the old one and not behind
the end, and the content is the slice between them. -/
def ParseOutcome.Inside {α : Type} (complete : Bytes) (pos : ℕ) (body : α → Bytes)
    (scattered : Prop) : ParseOutcome α → Prop
  | .parsed value len => pos ≤ len ∧ len ≤ complete.length ∧
      (body value = (complete.drop pos).take (len - pos) ++ [0] ∨ (scattered ∧ len = pos))
  | .overrun _ _ => False
  | _ => True

theorem inside_content {α : Type} {complete content : Bytes} {pos n : ℕ} {value : α}
    {body : α → Bytes} (scattered : Prop) (hbody : body value = content ++ [0])
    (hcap : complete.length ≤ bufferCap) (hat : contentAt complete pos n = some content) :
    (ParseOutcome.parsed value (wrap (pos + n))).Inside complete pos body scattered := by
  unfold contentAt at hat
  split at hat
  · rename_i hle
    cases hat
    rw [wrap_of_lt (by unfold bufferCap at hcap; omega)]
    refine ⟨by omega, hle, .inl ?_⟩
    rw [hbody, Nat.add_sub_cancel_left]
  · cases hat

theorem bufferCap_lt : bufferCap < 2 ^ 64 := by decide

section
variable {complete : Bytes} {i : ℕ}

theorem wrap_sum_lines (hsize : complete.length < 2 ^ 64) (hi : terminator <+: complete.drop i) :
    wrap ((split crlf (complete.take (i + 4))).map fun l => l.length + 2).sum = i + 4 := by
  obtain ⟨hend, hlen⟩ := take_of_terminator hi
  rw [sum_lines hend, List.length_take, Nat.min_eq_left hlen, wrap_of_lt (by omega)]

/-- A content that a vector can hold passes the completeness check only if the buffer holds it. -/
theorem declared_fits {proto contentLength : ℕ} {declared : Bool}
    (hcap : complete.length ≤ bufferCap) (hi : terminator <+: complete.drop i)
    (hsmall : contentLength < maxSize)
    (hproto : proto = wrap ((split crlf (complete.take (i + 4))).map fun l => l.length + 2).sum)
    (hunset : declared = false → contentLength = 0)
    (hinc : (declared && decide (complete.length < wrap (proto + contentLength))) = false) :
    i + 4 + contentLength ≤ complete.length := by
  obtain ⟨-, hlen⟩ := take_of_terminator hi
  have hpos : proto = i + 4 :=
    hproto.trans (wrap_sum_lines (Nat.lt_of_le_of_lt hcap bufferCap_lt) hi)
  cases hd : declared with
  | false =>
    rw [hunset hd]
    exact hlen
  | true =>
    have hlt : i + 4 + contentLength < 2 ^ 64 := by
      unfold bufferCap at hcap
      unfold maxSize at hsmall
      omega
    have hcheck : ¬complete.length < wrap (i + 4 + contentLength) := by
      simpa [hd, hpos] using hinc
    rw [wrap_of_lt hlt] at hcheck
    exact not_lt.mp hcheck

theorem not_overrun {n : ℕ} (hat : contentAt complete (i + 4) n = none) :
    ¬i + 4 + n ≤ complete.length := by
  intro hle
  rw [contentAt, if_pos hle] at hat
  cases hat

section
variable (hcap : complete.length ≤ bufferCap) (hi : terminator <+: complete.drop i)
include hcap hi

theorem parseRequest_inside :
    (parseRequest complete (i + 4)).Inside complete (i + 4) HttpRequest.body False := by
  have hverdict := RequestLocals.result_verdict
    (RequestLocals.read (complete.take (i + 4))) complete (i + 4)
  rw [parseRequest]
  generalize hout : (RequestLocals.read (complete.take (i + 4))).result complete (i + 4) = out
    at hverdict
  cases hverdict with
  | bad _ n | incomplete _ _ | tooLong _ _ _ _ => trivial
  | overrun hgood hinc hat hshort =>
    obtain ⟨-, hsane⟩ := RequestLocals.read_good hgood
    exact not_overrun hat
      (declared_fits hcap hi (not_le.mp hshort) hsane.protocolLength hsane.unset hinc)
  | content hgood hinc content hat => exact inside_content _ rfl hcap hat

theorem parseResponse_inside :
    (parseResponse complete (i + 4)).Inside complete (i + 4) HttpResponse.body
      ((ResponseLocals.read (complete.take (i + 4))).chunkedTransfer = true) := by
  have hverdict := ResponseLocals.result_verdict
    (ResponseLocals.read (complete.take (i + 4))) complete (i + 4)
  rw [parseResponse]
  generalize hout : (ResponseLocals.read (complete.take (i + 4))).result complete (i + 4) = out
    at hverdict
  cases hverdict with
  | lengthError _ | bad _ _ n | chunked _ _ | incomplete _ _ _ | tooLong _ _ _ _ _ _ => trivial
  | done _ _ _ hchunked => exact ⟨le_rfl, (take_of_terminator hi).2, .inr ⟨hchunked, rfl⟩⟩
  | overrun hgood _ hinc _ hat hshort =>
    obtain ⟨-, hsane⟩ := ResponseLocals.read_good hgood
    exact not_overrun hat
      (declared_fits hcap hi (not_le.mp hshort) hsane.protocolLength hsane.unset hinc)
  | content hgood _ hinc _ content hat => exact inside_content _ rfl hcap hat

end

/-- Both parsers stay inside a buffer within the cap at every position behind a terminator. -/
theorem parsers_inside (hcap : complete.length ≤ bufferCap) (hi : terminator <+: complete.drop i) :
    (parseRequest complete (i + 4)).Inside complete (i + 4) HttpRequest.body False ∧
      (parseResponse complete (i + 4)).Inside complete (i + 4) HttpResponse.body
        ((ResponseLocals.read (complete.take (i + 4))).chunkedTransfer = true) :=
  ⟨parseRequest_inside hcap hi, parseResponse_inside hcap hi⟩

end

/-- A request with three bytes of content and one byte of the next. -/
def shortPost : Bytes := ascii "POST / HTTP/1.1\r\nContent-Length: 3\r\n\r\nabcG"

theorem parsers_inside_shortPost :
    ∃ req, parseRequest shortPost 38 = .parsed req 41 ∧ req.body = ascii "abc" ++ [0] ∧
      (parseRequest shortPost 38).Inside shortPost 38 HttpRequest.body False :=
  ⟨_, rfl, rfl, (parsers_inside (i := 34) (by decide) (by decide)).1⟩

/-- Position and length add up to less than the size of the buffer, modulo 64 bits. -/
example : parseRequest (ascii "POST / HTTP/1.1\r\nContent-Length: 18446744073709551615\r\n\r\n") 57 =
    .lengthError := rfl

end Ichor
