import Ichor.Http.Stability

/-! Streams of requests and of responses: a part of a stream is a number of whole messages and a
part of the next one, and that is how the receivers read it. -/
namespace Ichor
open Delimited List

/-- The bytes of a stream of messages, each given with its text. -/
def streamBytes {α : Type} (stream : List (Bytes × α)) : Bytes := (stream.map Prod.fst).flatten

variable {α : Type} {msg : Bytes}

theorem streamBytes_append (done todo : List (Bytes × α)) :
    streamBytes (done ++ todo) = streamBytes done ++ streamBytes todo := by
  simp [streamBytes]

theorem streamBytes_cons (x : Bytes × α) (stream : List (Bytes × α)) :
    streamBytes (x :: stream) = x.1 ++ streamBytes stream := by
  simp [streamBytes]

theorem part_of_stream {x : Bytes × α} {todo : List (Bytes × α)}
    (hmsg : msg <+: streamBytes (x :: todo)) :
    (∃ rest, msg = x.1 ++ rest ∧ rest <+: streamBytes todo) ∨
      ∃ t, t ≠ [] ∧ msg ++ t = x.1 ∧ msg.length < x.1.length := by
  rw [streamBytes_cons] at hmsg
  by_cases hlen : x.1.length ≤ msg.length
  · obtain ⟨rest, rfl⟩ := prefix_of_prefix_length_le (prefix_append _ _) hmsg hlen
    exact .inl ⟨rest, rfl, (prefix_append_right_inj x.1).mp hmsg⟩
  · obtain ⟨t, ht⟩ := prefix_of_prefix_length_le hmsg (prefix_append _ _) (by omega)
    refine .inr ⟨t, ?_, ht, by omega⟩
    rintro rfl
    rw [append_nil] at ht
    rw [ht] at hlen
    exact hlen (Nat.le_refl _)

/-! ## Requests -/

/-- A text that is one request, with the request. -/
def IsRequest (x : Bytes × HttpRequest) : Prop := searchRequest x.1 = .found x.2 x.1.length

theorem IsRequest.ne_nil {x : Bytes × HttpRequest} (h : IsRequest x) : x.1 ≠ [] := by
  obtain ⟨i, -, hi, -, -⟩ := searchRequest_found h
  intro hnil
  rw [hnil, length_nil] at hi
  omega

theorem search_stream {todo : List (Bytes × HttpRequest)} (htodo : ∀ x ∈ todo, IsRequest x)
    (hmsg : msg <+: streamBytes todo) :
    (searchRequest msg = .waiting ∧ ∀ x ∈ todo.head?, msg.length < x.1.length) ∨
      ∃ x rest todo', todo = x :: todo' ∧ msg = x.1 ++ rest ∧
        searchRequest msg = .found x.2 x.1.length ∧ rest <+: streamBytes todo' := by
  cases todo with
  | nil =>
    have hnil : msg = [] := prefix_nil.mp hmsg
    subst hnil
    exact .inl ⟨rfl, fun x hx => by cases hx⟩
  | cons x todo =>
    have hx : IsRequest x := htodo x mem_cons_self
    rcases part_of_stream hmsg with ⟨rest, rfl, hrest⟩ | ⟨t, hne, ht, hlen⟩
    · exact .inr ⟨x, rest, todo, rfl, rfl, searchRequest_append hx rest, hrest⟩
    · have hwait : searchRequest msg = .waiting := by
        refine @searchRequest_part msg t x.2 ?_ hne
        rw [ht]
        exact hx
      exact .inl ⟨hwait, fun y hy => by
        cases hy
        exact hlen⟩

/-! ## Responses -/

theorem search_part {n m : ℕ} {msg t : Bytes} {start : ℕ} {resp : HttpResponse}
    (h : search n (msg ++ t) start = .found resp (msg ++ t).length) (ht : t ≠ [])
    (hstart : start ≤ msg.length) : search m msg start = .waiting := by
  have hpos := length_pos_of_ne_nil ht
  induction m generalizing n start with
  | zero => rfl
  | succ m ih =>
    cases n with
    | zero => cases h
    | succ n =>
      cases hfind : find terminator (msg.drop start) with
      | none => simp [search, hfind]
      | some i =>
        obtain ⟨hterm, hi⟩ := find_terminator hfind
        have hfind' : find terminator ((msg ++ t).drop start) = some i := by
          rw [drop_append_of_le_length hstart]
          exact find_append hfind t
        have happend := parseResponse_take hi t
        have hverdict := ResponseLocals.result_verdict
          (ResponseLocals.read (msg.take (start + i + 4))) (msg ++ t) (start + i + 4)
        generalize (ResponseLocals.read (msg.take (start + i + 4))).result (msg ++ t) (start + i + 4)
          = out at hverdict happend
        simp only [search, hfind', happend] at h
        cases hverdict with
        | lengthError herr | bad herr hbad k | incomplete hgood hwait hinc
        | tooLong hgood hwait hinc hchunked hat hlong
        | overrun hgood hwait hinc hchunked hat hshort => cases h
        | chunked hgood hwait =>
          have hparse : parseResponse msg (start + i + 4) = .failed .chunked (start + i + 4) :=
            ResponseLocals.result_chunked hgood hwait
          simp only [search, hfind, hparse]
          exact ih h hi
        | done hgood hwait hinc hchunked =>
          -- the message would end before the text does
          have hlen : start + i + 4 = (msg ++ t).length := by
            simp only at h
            split at h
            · exact (Search.found.inj h).2
            · cases h
          rw [length_append] at hlen
          omega
        | content hgood hwait hinc hchunked content hat =>
          have hlen : wrap (start + i + 4 +
              (ResponseLocals.read (msg.take (start + i + 4))).contentLength) = (msg ++ t).length := by
            simp only at h
            split at h
            · exact (Search.found.inj h).2
            · cases h
          have hsane := (ResponseLocals.read_good hgood).2
          have hshort : (ResponseLocals.read (msg.take (start + i + 4))).incomplete msg = true :=
            declared_short ht hterm hsane.protocolLength hsane.unset (contentAt_eq_some hat) hlen
          have hparse : parseResponse msg (start + i + 4) =
              .failed .incompleteRequest (start + i + 4) := by
            obtain ⟨hbad, herr⟩ := ResponseLocals.halted_eq_false.mp hgood
            simp [parseResponse, ResponseLocals.result, herr, hbad, hwait, hshort]
          simp only [search, hfind, hparse]

/-- A text that is one response, with the response. -/
def IsResponse (x : Bytes × HttpResponse) : Prop :=
  search x.1.length x.1 0 = .found x.2 x.1.length

theorem IsResponse.ne_nil {x : Bytes × HttpResponse} (h : IsResponse x) : x.1 ≠ [] := by
  intro hnil
  rw [IsResponse, hnil] at h
  cases h

theorem receive_stream {todo : List (Bytes × HttpResponse)} (htodo : ∀ x ∈ todo, IsResponse x)
    (hcap : msg.length ≤ bufferCap) (hmsg : msg <+: streamBytes todo) :
    ∃ whole left rest, todo = whole ++ left ∧ msg = streamBytes whole ++ rest ∧
      receiveResponses msg = ⟨whole.map Prod.snd, rest, none, false⟩ ∧
      ∀ x ∈ left.head?, rest.length < x.1.length := by
  induction todo generalizing msg with
  | nil =>
    have hnil : msg = [] := prefix_nil.mp hmsg
    subst hnil
    exact ⟨[], [], [], rfl, rfl, rfl, fun x hx => by cases hx⟩
  | cons x todo ih =>
    have hx : IsResponse x := htodo x mem_cons_self
    rcases part_of_stream hmsg with ⟨rest, rfl, hrest⟩ | ⟨t, hne, ht, hlen⟩
    · have hfound : search (x.1 ++ rest).length (x.1 ++ rest) 0 = .found x.2 x.1.length :=
        search_append (by simp) hcap hx (by simp) (by simp)
      have hshort : rest.length ≤ bufferCap := by
        rw [length_append] at hcap
        omega
      obtain ⟨whole, left, tail, rfl, rfl, hreceive, hleft⟩ :=
        ih (fun y hy => htodo y (mem_cons_of_mem x hy)) hshort hrest
      refine ⟨x :: whole, left, tail, rfl, ?_, ?_, hleft⟩
      · rw [streamBytes_cons, append_assoc]
      · rw [receiveResponses_found hcap hfound, drop_left, hreceive]
        rfl
    · have hwait : search msg.length msg 0 = .waiting := by
        refine @search_part x.1.length msg.length msg t 0 x.2 ?_ hne (Nat.zero_le _)
        rw [ht]
        exact hx
      refine ⟨[], x :: todo, msg, rfl, rfl, ?_, fun y hy => ?_⟩
      · simp [receiveResponses, receiveLoop, hwait]
      · cases hy
        exact hlen

end Ichor
