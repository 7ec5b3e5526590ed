import Ichor.Http.Head

/-! The letter case of header names. A buffer is read the same way after a change of the letter
case of its header names as long as the names that frame a body, `Content-Length` and
`Transfer-Encoding`, are recognised as before; the parsers compare them letter by letter. -/
namespace Ichor
open Delimited List

/-! ## Texts that differ in letter case -/

/-- The code of a byte with the capital letters of ASCII made small. -/
def smallCode (b : UInt8) : ℕ := if 65 ≤ b.toNat ∧ b.toNat ≤ 90 then b.toNat + 32 else b.toNat

/-- The texts differ in the case of letters only. -/
def SameLetters (t t' : Bytes) : Prop := t.map smallCode = t'.map smallCode

instance (t t' : Bytes) : Decidable (SameLetters t t') :=
  inferInstanceAs (Decidable (t.map smallCode = t'.map smallCode))

/-- A header line and the line with its name changed as `change` allows. The name reaches up to
the first separator. -/
inductive Renamed (change : Bytes → Bytes → Prop) : Bytes → Bytes → Prop where
  | name {k k' : Bytes} (value : Bytes) (hk : ¬colonSpace <:+: k)
      (hvalue : value = [] ∨ colonSpace <+: value) (hchange : change k k') :
      Renamed change (k ++ value) (k' ++ value)

/-- The change keeps the letters, and the parsers recognise the same names. -/
structure Harmless (k k' : Bytes) : Prop where
  letters : SameLetters k k'
  length : k = contentLengthName ↔ k' = contentLengthName
  encoding : k = transferEncodingName ↔ k' = transferEncodingName

theorem Harmless.refl (k : Bytes) : Harmless k k := ⟨rfl, Iff.rfl, Iff.rfl⟩

theorem smallCode_eq {b c : UInt8} (hc : c.toNat < 65) (h : smallCode b = smallCode c) : b = c := by
  unfold smallCode at h
  rw [if_neg (by omega : ¬(65 ≤ c.toNat ∧ c.toNat ≤ 90))] at h
  split at h
  · omega
  · exact UInt8.toNat_inj.mp h

theorem SameLetters.occurs {d t t' : Bytes} (h : SameLetters t t')
    (hd : ∀ b ∈ d, b.toNat < 65) (hin : d <:+: t') : d <:+: t := by
  have hmap : d.map smallCode <:+: t.map smallCode := by
    rw [h]
    exact hin.map smallCode
  obtain ⟨x, hx, heq⟩ := infix_map_iff.mp hmap
  have hsame : d = x := by
    have hlength : d.length = x.length := by simpa using congrArg List.length heq
    refine ext_getElem hlength fun i hi hi' => ?_
    have hcode : smallCode d[i] = smallCode x[i] := by
      have hget := congrArg (fun l => l[i]?) heq
      simpa [hi, hi'] using hget
    exact (smallCode_eq (hd _ (getElem_mem hi)) hcode.symm).symm
  rw [hsame]
  exact hx

section
variable {change : Bytes → Bytes → Prop} {l l' : Bytes}

theorem Renamed.words (h : Renamed change l l') (hl : l ≠ [])
    (hletters : ∀ k k', change k k' → SameLetters k k') :
    ∃ k k' rest, change k k' ∧ split colonSpace l = k :: rest ∧
      split colonSpace l' = k' :: rest := by
  obtain ⟨value, hk, hvalue, hchange⟩ := h
  rename_i k k'
  have hsame := hletters k k' hchange
  have hk' : ¬colonSpace <:+: k' := fun hin => hk (hsame.occurs (by decide +kernel) hin)
  rcases hvalue with rfl | ⟨w, rfl⟩
  · rw [append_nil] at hl
    have hl' : k' ≠ [] := by
      rintro rfl
      exact hl (map_eq_nil_iff.mp hsame)
    refine ⟨k, k', [], hchange, ?_, ?_⟩
    · rw [append_nil]
      exact split_of_uncut hk hl
    · rw [append_nil]
      exact split_of_uncut hk' hl'
  · refine ⟨k, k', split colonSpace w, hchange, ?_, ?_⟩
    · rw [← append_assoc]
      exact split_append colonSpace_ne_nil (colonSpace_unbordered.free hk) w
    · rw [← append_assoc]
      exact split_append colonSpace_ne_nil (colonSpace_unbordered.free hk') w

theorem Renamed.length (h : Renamed change l l')
    (hletters : ∀ k k', change k k' → SameLetters k k') : l'.length = l.length := by
  obtain ⟨value, _, _, hchange⟩ := h
  have hsame := congrArg List.length (hletters _ _ hchange)
  simp only [length_map] at hsame
  simp [hsame]

end

/-! ## Header lines -/

namespace HeaderWords
variable {σ : Type} {p : HeaderWords σ} {Alike : σ → σ → Prop}

/-- The callback treats the words of both lines alike. -/
structure Respects (p : HeaderWords σ) (Alike : σ → σ → Prop) (change : Bytes → Bytes → Prop) :
    Prop where
  bad : ∀ v v', Alike v v' → p.badRequest v' = p.badRequest v
  setBad : ∀ v v', Alike v v' → Alike (p.setBadRequest v) (p.setBadRequest v')
  name : ∀ v v' k k', Alike v v' → change k k' → Alike (p.name v k) (p.name v' k')
  value : ∀ v v' k k' w, Alike v v' → Alike (p.value v k w) (p.value v' k' w)

variable {change : Bytes → Bytes → Prop}

variable {v v' : σ} {k' : Bytes}

/-- The same words have been read behind the two names. -/
def Beside (Alike : σ → σ → Prop) (x x' : σ × ℕ × Bool × Bytes) : Prop :=
  x.2.1 = x'.2.1 ∧ x.2.2.1 = x'.2.2.1 ∧ x.2.1 ≠ 0 ∧ Alike x.1 x'.1

theorem Respects.words (h : p.Respects Alike change) (words : List Bytes)
    {x x' : σ × ℕ × Bool × Bytes} (hx : Beside Alike x x') :
    Beside Alike (words.foldl p.word x) (words.foldl p.word x') := by
  refine foldl_rel hx fun w _ => ?_
  rintro ⟨v, n, matched, k⟩ ⟨v', _, _, k'⟩ ⟨rfl, rfl, hn, hv⟩
  dsimp only at hn hv
  simp only [word, h.bad v v' hv, if_neg hn]
  split
  · exact ⟨rfl, rfl, hn, hv⟩
  · split
    · exact ⟨rfl, rfl, Nat.succ_ne_zero n, h.value v v' k k' w hv⟩
    · exact ⟨rfl, rfl, Nat.succ_ne_zero n, h.setBad v v' hv⟩

theorem Respects.line (h : p.Respects Alike change) (hv : Alike v v') {l l' : Bytes}
    {k : Bytes} {rest : List Bytes} (hchange : change k k')
    (hl : split colonSpace l = k :: rest) (hl' : split colonSpace l' = k' :: rest) :
    Alike (p.line v l) (p.line v' l') := by
  unfold HeaderWords.line
  rw [hl, hl']
  have hbad := h.bad v v' hv
  cases hb : p.badRequest v with
  | true =>
    rw [foldl_of_bad hb, foldl_of_bad (hbad.trans hb)]
    exact h.setBad v v' hv
  | false =>
    rw [hb] at hbad
    have hfirst : p.word (v, 0, false, []) k = (p.name v k, 1, false, k) := by simp [word, hb]
    have hfirst' : p.word (v', 0, false, []) k' = (p.name v' k', 1, false, k') := by
      simp [word, hbad]
    rw [foldl_cons, foldl_cons, hfirst, hfirst']
    have hbeside : Beside Alike (p.name v k, 1, false, k) (p.name v' k', 1, false, k') :=
      ⟨rfl, rfl, Nat.one_ne_zero, h.name v v' k k' hv hchange⟩
    obtain ⟨-, hmatched, -, hu⟩ := h.words rest hbeside
    dsimp only
    rw [hmatched]
    split
    · exact hu
    · exact h.setBad _ _ hu

theorem Respects.renamed (h : p.Respects Alike change) (hrefl : ∀ k, change k k)
    (hletters : ∀ k k', change k k' → SameLetters k k') (hv : Alike v v')
    {l l' : Bytes} (hl : l = l' ∨ l ≠ [] ∧ Renamed change l l') :
    Alike (p.line v l) (p.line v' l') := by
  rcases hl with rfl | ⟨hne, hrenamed⟩
  · cases hwords : split colonSpace l with
    | nil =>
      unfold HeaderWords.line
      rw [hwords]
      exact h.setBad v v' hv
    | cons k rest => exact h.line hv (hrefl k) hwords hwords
  · obtain ⟨k, k', rest, hchange, hwords, hwords'⟩ := hrenamed.words hne hletters
    exact h.line hv hchange hwords hwords'

end HeaderWords

/-- The words of a first line, folded from local variables that are alike. -/
theorem foldl_alike {σ : Type} {Alike : σ → σ → Prop} (word : σ × ℕ × Bool → Bytes → σ × ℕ × Bool)
    (hword : ∀ v v' x w, Alike v v' →
      Alike (word (v, x) w).1 (word (v', x) w).1 ∧ (word (v', x) w).2 = (word (v, x) w).2)
    {v v' : σ} (h : Alike v v') (x : ℕ × Bool) (words : List Bytes) :
    ∃ u u' y, words.foldl word (v, x) = (u, y) ∧ words.foldl word (v', x) = (u', y) ∧
      Alike u u' := by
  refine foldl_rel (r := fun z z' => ∃ u u' y, z = (u, y) ∧ z' = (u', y) ∧ Alike u u')
    ⟨v, v', x, rfl, rfl, h⟩ fun w _ => ?_
  rintro _ _ ⟨u, u', y, rfl, rfl, hu⟩
  obtain ⟨hone, hrest⟩ := hword u u' y w hu
  exact ⟨_, _, _, rfl, Prod.ext rfl hrest, hone⟩

/-- The lines of a message from some local variables on, with the names of its headers changed: only
lines that are read as headers, or that come behind a refusal and are not read at all. -/
inductive RenamedLines {σ : Type} (line : σ → Bytes → σ) (readsHeader refused : σ → Prop)
    (change : Bytes → Bytes → Prop) : σ → List Bytes → List Bytes → Prop
  | nil (v : σ) : RenamedLines line readsHeader refused change v [] []
  | same {v : σ} (l : Bytes) {ls ls' : List Bytes}
      (h : RenamedLines line readsHeader refused change (line v l) ls ls') :
      RenamedLines line readsHeader refused change v (l :: ls) (l :: ls')
  | header {v : σ} {l l' : Bytes} {ls ls' : List Bytes} (hv : readsHeader v) (hne : l ≠ [])
      (hl : Renamed change l l') (h : RenamedLines line readsHeader refused change (line v l) ls ls') :
      RenamedLines line readsHeader refused change v (l :: ls) (l' :: ls')
  | unread {v : σ} {ls ls' : List Bytes} (hv : refused v)
      (h : List.Forall₂ (fun l l' => l = l' ∨ l ≠ [] ∧ Renamed SameLetters l l') ls ls') :
      RenamedLines line readsHeader refused change v ls ls'

theorem RenamedLines.foldl {σ : Type} {Alike : σ → σ → Prop} {line : σ → Bytes → σ}
    {readsHeader refused : σ → Prop} {v v' : σ} {ls ls' : List Bytes}
    (hline : ∀ v v' l l', Alike v v' → (l = l' ∨ readsHeader v ∧ l ≠ [] ∧ Renamed Harmless l l') →
      Alike (line v l) (line v' l'))
    (hrefused : ∀ v v', Alike v v' → refused v → ∀ ls : List Bytes, ls.foldl line v = v ∧
      ls.foldl line v' = v')
    (h : RenamedLines line readsHeader refused Harmless v ls ls') (hv : Alike v v') :
    Alike (ls.foldl line v) (ls'.foldl line v') := by
  induction h generalizing v' with
  | nil => exact hv
  | same l _ ih => exact ih (hline _ _ _ _ hv (.inl rfl))
  | header hread hne hl _ ih => exact ih (hline _ _ _ _ hv (.inr ⟨hread, hne, hl⟩))
  | unread hstop _ =>
    rw [(hrefused _ _ hv hstop _).1, (hrefused _ _ hv hstop _).2]
    exact hv

/-! ## Requests -/

/-- The two outcomes are of the same kind, with the same length and with messages that `alike`
relates. -/
inductive SameOutcome {α : Type} (alike : α → α → Prop) : ParseOutcome α → ParseOutcome α → Prop
  | failed (error : HttpParseError) (len : ℕ) : SameOutcome alike (.failed error len) (.failed error len)
  | parsed {x x' : α} (len : ℕ) (h : alike x x') : SameOutcome alike (.parsed x len) (.parsed x' len)
  | overrun (start length : ℕ) : SameOutcome alike (.overrun start length) (.overrun start length)
  | lengthError : SameOutcome alike .lengthError .lengthError

theorem SameOutcome.imp {α : Type} {alike alike' : α → α → Prop} {x y : ParseOutcome α}
    (h : SameOutcome alike x y) (himp : ∀ a b, alike a b → alike' a b) :
    SameOutcome alike' x y := by
  cases h with
  | failed => exact .failed _ _
  | parsed n h => exact .parsed n (himp _ _ h)
  | overrun => exact .overrun _ _
  | lengthError => exact .lengthError

variable {complete complete' : Bytes} {len : ℕ}

theorem sameOutcome_copyContent {α : Type} {alike : α → α → Prop}
    (hdrop : complete'.drop len = complete.drop len)
    (hlength : complete'.length = complete.length) (n : ℕ) {f f' : Bytes → α}
    (hf : ∀ body, alike (f body) (f' body)) :
    SameOutcome alike (copyContent complete len n f) (copyContent complete' len n f') := by
  unfold copyContent contentAt
  rw [hdrop, hlength]
  by_cases hle : len + n ≤ complete.length
  · rw [if_pos hle]
    exact .parsed _ (hf _)
  · rw [if_neg hle]
    dsimp only [ParseOutcome.outside]
    split
    · exact .lengthError
    · exact .overrun len n

variable {part part' : Bytes}

theorem length_of_renamed {p : Prop} {l l' : Bytes} (hl : l = l' ∨ p ∧ l ≠ [] ∧ Renamed Harmless l l') :
    l'.length = l.length ∧ (l' = [] ↔ l = []) := by
  have hlength : l'.length = l.length := by
    rcases hl with rfl | ⟨_, _, hrenamed⟩
    · rfl
    · exact hrenamed.length fun _ _ hk => hk.letters
  exact ⟨hlength, by rw [← length_eq_zero_iff, hlength, length_eq_zero_iff]⟩

namespace RequestLocals

/-- The local variables are the same, apart from the headers that were stored. -/
def Alike (v v' : RequestLocals) : Prop :=
  v' = { v with req := { v.req with headers := v'.req.headers } }

/-- The lines of a request, with the names of its headers changed. -/
abbrev Renaming := RenamedLines RequestLocals.line (·.lineNo ≠ 0) (·.badRequest = true)

theorem respects_headerWords : headerWords.Respects Alike Harmless where
  bad v v' h := by
    rw [h]
    rfl
  setBad v v' h := by
    rw [h]
    rfl
  name v v' k k' h hchange := by
    rw [h]
    by_cases hk : k = contentLengthName
    · have hk' := hchange.length.mp hk
      simp only [headerWords, headerName, hk, hk', if_pos]
      rfl
    · have hk' : k' ≠ contentLengthName := fun hno => hk (hchange.length.mpr hno)
      simp only [headerWords, headerName, hk, hk', if_neg, not_false_eq_true]
      rfl
  value v v' k k' w h := by
    rw [h]
    simp only [headerWords, headerValue]
    split
    · split <;> rfl
    · rfl

variable {v v' : RequestLocals}

theorem Alike.requestLine (h : Alike v v') (l : Bytes) :
    Alike (v.requestLine l) (v'.requestLine l) := by
  obtain ⟨u, u', y, hfold, hfold', hu⟩ := foldl_alike requestLineWord (fun v v' x w h => by
    rw [h]
    simp only [requestLineWord]
    repeat' split
    all_goals exact ⟨rfl, rfl⟩) h (0, false) (split space l)
  unfold RequestLocals.requestLine
  rw [hfold, hfold', hu]
  dsimp only
  split <;> rfl

theorem Alike.headerLine (h : Alike v v') {l l' : Bytes}
    (hl : l = l' ∨ l ≠ [] ∧ Renamed Harmless l l') : Alike (v.headerLine l) (v'.headerLine l') := by
  have hline := respects_headerWords.renamed Harmless.refl (fun _ _ hk => hk.letters) h hl
  unfold RequestLocals.headerLine
  rw [hline]
  rfl

theorem Alike.line (h : Alike v v') {l l' : Bytes}
    (hl : l = l' ∨ v.lineNo ≠ 0 ∧ l ≠ [] ∧ Renamed Harmless l l') :
    Alike (v.line l) (v'.line l') := by
  obtain ⟨hlength, hnil⟩ := length_of_renamed hl
  have hbad : v'.badRequest = v.badRequest := by rw [h]
  have hno : v'.lineNo = v.lineNo := by rw [h]
  have hcount : ∀ {u u' : RequestLocals}, Alike u u' → Alike (u.count l) (u'.count l') := by
    intro u u' hu
    rw [hu]
    simp only [count, hlength]
    rfl
  unfold RequestLocals.line
  rw [hbad]
  split
  · exact h
  · refine hcount ?_
    rw [hno]
    by_cases h0 : v.lineNo = 0
    · rw [if_pos h0, if_pos h0]
      rcases hl with rfl | ⟨hne, _⟩
      · exact h.requestLine l
      · exact absurd h0 hne
    · rw [if_neg h0, if_neg h0]
      by_cases hempty : l = []
      · rw [if_neg (not_not.mpr hempty), if_neg (not_not.mpr (hnil.mpr hempty)), h]
        rfl
      · rw [if_pos hempty, if_pos (fun hno => hempty (hnil.mp hno))]
        exact h.headerLine (hl.imp_right fun hrenamed => hrenamed.2)

theorem Alike.read (h : Renaming Harmless initial (split crlf part) (split crlf part')) :
    Alike (RequestLocals.read part) (RequestLocals.read part') := by
  have hstart : Alike initial initial := rfl
  have hfold : Alike ((split crlf part).foldl RequestLocals.line initial)
      ((split crlf part').foldl RequestLocals.line initial) := h.foldl (fun _ _ _ _ hv hl => Alike.line hv hl)
    (fun v v' hv hbad ls => ⟨foldl_of_bad hbad ls, foldl_of_bad (by rw [hv]; exact hbad) ls⟩) hstart
  unfold RequestLocals.read
  rw [hfold]
  dsimp only
  split <;> rfl

theorem Alike.result (h : Alike v v') (hdrop : complete'.drop len = complete.drop len)
    (hlength : complete'.length = complete.length) :
    SameOutcome (fun req req' => req' = { req with headers := req'.headers })
      (v.result complete len) (v'.result complete' len) := by
  have hincomplete : v'.incomplete complete' = v.incomplete complete := by
    unfold RequestLocals.incomplete
    rw [h, hlength]
  have hbad : v'.badRequest = v.badRequest := by rw [h]
  have hcontent : v'.contentLength = v.contentLength := by rw [h]
  unfold RequestLocals.result
  rw [hincomplete, hbad, hcontent, length_take, length_take, hlength]
  split
  · exact .failed _ _
  · split
    · exact .failed _ _
    · refine sameOutcome_copyContent hdrop hlength _ fun body => ?_
      rw [h]

end RequestLocals

/-- A change of the letter case of header names in the text that a request is parsed from. -/
structure RenamedRequest (change : Bytes → Bytes → Prop) (len : ℕ) (complete complete' : Bytes) :
    Prop where
  length : complete'.length = complete.length
  rest : complete'.drop len = complete.drop len
  lines : RequestLocals.Renaming change RequestLocals.initial (split crlf (complete.take len))
    (split crlf (complete'.take len))

theorem RenamedRequest.parse (h : RenamedRequest Harmless len complete complete') :
    SameOutcome (fun req req' => req' = { req with headers := req'.headers })
      (parseRequest complete len) (parseRequest complete' len) :=
  (RequestLocals.Alike.read h.lines).result h.rest h.length

/-! ## Responses -/

namespace ResponseLocals

/-- The local variables are the same, apart from the headers that were stored. -/
def Alike (v v' : ResponseLocals) : Prop :=
  v' = { v with resp := { v.resp with headers := v'.resp.headers } }

/-- The next line with text is read as a header. -/
def readsHeader (v : ResponseLocals) : Prop :=
  v.lineNo ≠ 0 ∧ (v.chunkedStatus = .none ∨ v.chunkedStatus = .done)

/-- The lines of a response, with the names of its headers changed: those of the head and those
behind the last chunk, but no line of a chunk. -/
abbrev Renaming := RenamedLines ResponseLocals.line readsHeader (·.halted = true)

theorem respects_headerWords : headerWords.Respects Alike Harmless where
  bad v v' h := by
    rw [h]
    rfl
  setBad v v' h := by
    rw [h]
    rfl
  name v v' k k' h hchange := by
    rw [h]
    by_cases hk : k = contentLengthName
    · have hk' := hchange.length.mp hk
      simp only [headerWords, headerName, hk, hk', if_pos]
      rfl
    · have hk' : k' ≠ contentLengthName := fun hno => hk (hchange.length.mpr hno)
      by_cases ht : k = transferEncodingName
      · have ht' := hchange.encoding.mp ht
        simp only [headerWords, headerName, if_neg hk, if_neg hk', if_pos ht, if_pos ht']
        rfl
      · have ht' : k' ≠ transferEncodingName := fun hno => ht (hchange.encoding.mpr hno)
        simp only [headerWords, headerName, if_neg hk, if_neg hk', if_neg ht, if_neg ht']
        rfl
  value v v' k k' w h := by
    rw [h]
    simp only [headerWords, headerValue]
    repeat' split
    all_goals rfl

variable {v v' : ResponseLocals}

theorem Alike.statusLine (h : Alike v v') (l : Bytes) :
    Alike (v.statusLine l) (v'.statusLine l) := by
  obtain ⟨u, u', y, hfold, hfold', hu⟩ := foldl_alike statusLineWord (fun v v' x w h => by
    rw [h]
    simp only [statusLineWord]
    repeat' split
    all_goals exact ⟨rfl, rfl⟩) h (0, false) (split space l)
  unfold ResponseLocals.statusLine
  rw [hfold, hfold', hu]
  dsimp only
  split <;> rfl

theorem Alike.textLine (h : Alike v v') {l l' : Bytes}
    (hl : l = l' ∨ v.readsHeader ∧ l ≠ [] ∧ Renamed Harmless l l') :
    Alike (v.textLine l) (v'.textLine l') := by
  have hstatus : v'.chunkedStatus = v.chunkedStatus := by rw [h]
  have hheader : Alike (headerWords.line v l) (headerWords.line v' l') :=
    respects_headerWords.renamed Harmless.refl (fun _ _ hk => hk.letters) h
      (hl.imp_right fun hrenamed => hrenamed.2)
  unfold ResponseLocals.textLine
  rw [hstatus]
  cases hst : v.chunkedStatus with
  | none => exact hheader
  | done => exact hheader
  | length =>
    rcases hl with rfl | ⟨⟨_, hno⟩, _⟩
    · rw [h]
      simp only [chunkLengthLine]
      repeat' split
      all_goals rfl
    · rw [hst] at hno
      rcases hno with hno | hno <;> cases hno
  | content =>
    rcases hl with rfl | ⟨⟨_, hno⟩, _⟩
    · rw [h]
      simp only [chunkContentLine]
      split <;> rfl
    · rw [hst] at hno
      rcases hno with hno | hno <;> cases hno

theorem Alike.line (h : Alike v v') {l l' : Bytes}
    (hl : l = l' ∨ v.readsHeader ∧ l ≠ [] ∧ Renamed Harmless l l') :
    Alike (v.line l) (v'.line l') := by
  obtain ⟨hlength, hnil⟩ := length_of_renamed hl
  have hstop : (v'.badRequest || v'.lengthError) = (v.badRequest || v.lengthError) := by rw [h]
  have hno : v'.lineNo = v.lineNo := by rw [h]
  have hcount : ∀ {u u' : ResponseLocals}, Alike u u' →
      Alike { u with
        protocolLength := wrap (u.protocolLength + (l.length + 2))
        lineNo := u.lineNo + 1 }
      { u' with
        protocolLength := wrap (u'.protocolLength + (l'.length + 2))
        lineNo := u'.lineNo + 1 } := by
    intro u u' hu
    rw [hu, hlength]
    rfl
  unfold ResponseLocals.line
  rw [hstop]
  split
  · exact h
  · refine hcount ?_
    rw [hno]
    by_cases h0 : v.lineNo = 0
    · rw [if_pos h0, if_pos h0]
      rcases hl with rfl | ⟨⟨hne, _⟩, _⟩
      · exact h.statusLine l
      · exact absurd h0 hne
    · rw [if_neg h0, if_neg h0]
      by_cases hempty : l = []
      · rw [if_neg (not_not.mpr hempty), if_neg (not_not.mpr (hnil.mpr hempty)), h]
        unfold emptyLine
        rfl
      · rw [if_pos hempty, if_pos (fun hno => hempty (hnil.mp hno)), h.textLine hl]
        rfl

theorem Alike.read (h : Renaming Harmless initial (split crlf part) (split crlf part')) :
    Alike (ResponseLocals.read part) (ResponseLocals.read part') := by
  have hstart : Alike initial initial := rfl
  have hfold : Alike ((split crlf part).foldl ResponseLocals.line initial)
      ((split crlf part').foldl ResponseLocals.line initial) :=
    h.foldl (fun _ _ _ _ hv hl => Alike.line hv hl)
    (fun v v' hv hstop ls => ⟨foldl_of_halted hstop ls, foldl_of_halted (by rw [hv]; exact hstop) ls⟩)
    hstart
  unfold ResponseLocals.read
  rw [hfold]
  dsimp only
  split <;> rfl

theorem Alike.result (h : Alike v v') (hdrop : complete'.drop len = complete.drop len)
    (hlength : complete'.length = complete.length) :
    SameOutcome (fun resp resp' => resp' = { resp with headers := resp'.headers })
      (v.result complete len) (v'.result complete' len) := by
  have hincomplete : v'.incomplete complete' = v.incomplete complete := by
    unfold ResponseLocals.incomplete
    rw [h, hlength]
  have hunfinished : v'.unfinished = v.unfinished := by
    unfold unfinished
    rw [h]
  have herror : v'.lengthError = v.lengthError := by rw [h]
  have hbad : v'.badRequest = v.badRequest := by rw [h]
  have hchunked : v'.chunkedTransfer = v.chunkedTransfer := by rw [h]
  have hcontent : v'.contentLength = v.contentLength := by rw [h]
  unfold ResponseLocals.result
  rw [hincomplete, hunfinished, herror, hbad, hchunked, hcontent, length_take, length_take, hlength]
  split
  · exact .lengthError
  · split
    · exact .failed _ _
    · split
      · exact .failed _ _
      · split
        · exact .failed _ _
        · split
          · refine .parsed _ ?_
            rw [h]
          · refine sameOutcome_copyContent hdrop hlength _ fun body => ?_
            rw [h]

end ResponseLocals

/-- A change of the letter case of header names in the text that a response is parsed from. -/
structure RenamedResponse (change : Bytes → Bytes → Prop) (len : ℕ) (complete complete' : Bytes) :
    Prop where
  length : complete'.length = complete.length
  rest : complete'.drop len = complete.drop len
  lines : ResponseLocals.Renaming change ResponseLocals.initial (split crlf (complete.take len))
    (split crlf (complete'.take len))

theorem RenamedResponse.parse (h : RenamedResponse Harmless len complete complete') :
    SameOutcome (fun resp resp' => resp' = { resp with headers := resp'.headers })
      (parseResponse complete len) (parseResponse complete' len) :=
  (ResponseLocals.Alike.read h.lines).result h.rest h.length

/-- The condition is not necessary: a length of zero frames the request like no length at all. -/
example : (∃ req, parseRequest (ascii "POST / HTTP/1.1\r\nContent-Length: 0\r\n\r\n") 38 =
      .parsed req 38 ∧ req.body = [0]) ∧
    ∃ req, parseRequest (ascii "POST / HTTP/1.1\r\ncontent-length: 0\r\n\r\n") 38 =
      .parsed req 38 ∧ req.body = [0] := ⟨⟨_, rfl, rfl⟩, _, rfl, rfl⟩

end Ichor
