import Ichor.Stl.StringUtils

/-! `split` of `StringUtils.h` in both overloads, over views of one text, and
`parseStringAsVersion`. -/
namespace Ichor.StringUtils
open List

open Delimited (cut)

/-- A view into a text: where it begins and its length. -/
structure StringView where
  first : ℕ
  length : ℕ
deriving DecidableEq, Repr

def StringView.bytes (str : Bytes) (v : StringView) : Bytes := (str.drop v.first).take v.length

/-- `std::search` from a position on: where the first occurrence begins, or the end. -/
def searchFrom (str delims : Bytes) (first : ℕ) : ℕ :=
  (Delimited.find delims (str.drop first)).elim str.length (first + ·)

/-- The view of one round of the loop, from `first` to the occurrence found. -/
def roundView (str delims : Bytes) (includeDelims : Bool) (first second : ℕ) : StringView :=
  ⟨first, second - first + if includeDelims && second != str.length then delims.length else 0⟩

def splitLoop (str delims : Bytes) (includeDelims : Bool) :
    ℕ → ℕ → ℕ → List StringView → Option (List StringView)
  | fuel, first, second, output =>
    if second != str.length && first != str.length then
      match fuel with
      | 0 => none
      | fuel + 1 =>
        let second := searchFrom str delims first
        splitLoop str delims includeDelims fuel (second + delims.length) second
          (output ++ [roundView str delims includeDelims first second])
    else some output

def split (str delims : Bytes) (includeDelims : Bool) : Option (List StringView) :=
  splitLoop str delims includeDelims (str.length + 1) 0 0 []

/-- The loop of the overload with a callback, which changes a state of its own. -/
def splitCallbackLoop {σ : Type} (str delims : Bytes) (includeDelims : Bool) (cb : σ → StringView → σ) :
    ℕ → ℕ → ℕ → σ → Option σ
  | fuel, first, second, s =>
    if second != str.length && first != str.length then
      match fuel with
      | 0 => none
      | fuel + 1 =>
        let second := searchFrom str delims first
        splitCallbackLoop str delims includeDelims cb fuel (second + delims.length) second
          (cb s (roundView str delims includeDelims first second))
    else some s

def splitCallback {σ : Type} (str delims : Bytes) (includeDelims : Bool) (cb : σ → StringView → σ) (s : σ) :
    Option σ :=
  splitCallbackLoop str delims includeDelims cb (str.length + 1) 0 0 s

variable {str delims : Bytes}

theorem splitCallbackLoop_eq {σ : Type} (str delims : Bytes) (includeDelims : Bool) (cb : σ → StringView → σ)
    (fuel first second : ℕ) (output : List StringView) (s : σ) :
    splitCallbackLoop str delims includeDelims cb fuel first second (output.foldl cb s) =
      (splitLoop str delims includeDelims fuel first second output).map (·.foldl cb s) := by
  induction fuel generalizing first second output with
  | zero =>
    unfold splitCallbackLoop splitLoop
    split <;> rfl
  | succ fuel ih =>
    unfold splitCallbackLoop splitLoop
    split
    · simpa using ih (searchFrom str delims first + delims.length) (searchFrom str delims first)
        (output ++ [roundView str delims includeDelims first (searchFrom str delims first)])
    · rfl

/-- What the views of one run of the loop are: what they hold, and what stands behind each. -/
structure Pieces (str delims : Bytes) (includeDelims : Bool) (text : Bytes) (views : List StringView) :
    Prop where
  included : includeDelims = true → (views.map (·.bytes str)).flatten = text
  excluded : includeDelims = false → views.map (·.bytes str) = Delimited.split delims text
  inner : includeDelims = false → ∀ v ∈ views.dropLast, v.first ≤ str.length ∧
    v.bytes str ++ delims <+: str.drop v.first
  last : includeDelims = false → ∀ v ∈ views.getLast?, v.first ≤ str.length ∧
    (str.drop v.first = v.bytes str ∨ str.drop v.first = v.bytes str ++ delims)

theorem splitLoop_pieces (hd : delims ≠ []) (includeDelims : Bool) (fuel first second : ℕ)
    (output : List StringView) (hfirst : first ≤ str.length) (hsecond : second ≠ str.length)
    (hfuel : str.length - first < fuel) :
    ∃ views, splitLoop str delims includeDelims fuel first second output = some (output ++ views) ∧
      Pieces str delims includeDelims (str.drop first) views := by
  induction fuel generalizing first second output with
  | zero => omega
  | succ fuel ih =>
    by_cases hend : first = str.length
    · refine ⟨[], ?_, ?_⟩
      · simp [splitLoop, hend]
      · subst hend
        exact ⟨by simp, by simp [Delimited.split_nil], by simp, by simp⟩
    have hpos := length_pos_of_ne_nil hd
    have hgo : splitLoop str delims includeDelims (fuel + 1) first second output =
        splitLoop str delims includeDelims fuel (searchFrom str delims first + delims.length)
          (searchFrom str delims first)
          (output ++ [roundView str delims includeDelims first (searchFrom str delims first)]) := by
      rw [splitLoop, if_pos (by simp [hsecond, hend])]
    rw [hgo]
    cases hcut : cut delims (str.drop first) with
    | none =>
      -- the last piece reaches the end, where the first condition of the loop fails
      have hsearch : searchFrom str delims first = str.length := by
        simp [searchFrom, Delimited.find, hcut]
      have hbytes : (roundView str delims includeDelims first str.length).bytes str =
          str.drop first := by
        simp [roundView, StringView.bytes, take_of_length_le]
      have hne : str.drop first ≠ [] := by
        rw [ne_eq, drop_eq_nil_iff]
        omega
      refine ⟨[roundView str delims includeDelims first str.length], ?_, ?_, ?_, by simp, ?_⟩
      · rw [hsearch]
        cases fuel <;> simp [splitLoop]
      · intro _
        simp [hbytes]
      · intro _
        rw [map_singleton, hbytes, Delimited.split_of_uncut (Delimited.cut_eq_none.mp hcut) hne]
      · rintro _ _ ⟨⟩
        exact ⟨hfirst, .inl hbytes.symm⟩
    | some x =>
      obtain ⟨p, r⟩ := x
      have happ := Delimited.cut_eq_append hcut
      have hlen := congrArg List.length happ
      simp only [length_append, length_drop] at hlen
      have hsearch : searchFrom str delims first = first + p.length := by
        simp [searchFrom, Delimited.find, hcut]
      have hnext : str.drop (first + p.length + delims.length) = r := by
        rw [Nat.add_assoc, ← drop_drop, happ, ← length_append, drop_left]
      have hbytes : (roundView str delims includeDelims first (first + p.length)).bytes str =
          p ++ if includeDelims then delims else [] := by
        have hne : first + p.length ≠ str.length := by omega
        cases includeDelims
        · simp [roundView, StringView.bytes, happ]
        · have htake : (p ++ delims ++ r).take (p.length + delims.length) = p ++ delims := by
            rw [← length_append, take_left]
          simpa [roundView, StringView.bytes, happ, hne] using htake
      rw [hsearch]
      obtain ⟨views, hviews, hrest⟩ := ih (first + p.length + delims.length) (first + p.length)
        (output ++ [roundView str delims includeDelims first (first + p.length)]) (by omega)
        (by omega) (by omega)
      rw [hnext] at hrest
      refine ⟨roundView str delims includeDelims first (first + p.length) :: views, ?_, ?_, ?_, ?_, ?_⟩
      · rw [hviews, append_assoc]
        rfl
      · intro hi
        rw [map_cons, flatten_cons, hrest.included hi, hbytes, if_pos hi, happ]
      · intro hi
        rw [map_cons, hrest.excluded hi, hbytes, Delimited.split_of_cut hd hcut]
        simp [hi]
      · intro hi v hv
        cases views with
        | nil => simp at hv
        | cons w views =>
          rw [dropLast_cons_cons] at hv
          rcases mem_cons.mp hv with rfl | hv
          · refine ⟨hfirst, ?_⟩
            rw [hbytes]
            simp [hi, roundView, happ]
          · exact hrest.inner hi v hv
      · intro hi v hv
        cases views with
        | nil =>
          -- no piece follows, so nothing stands behind the delimiter
          have hr : r = [] := by
            by_contra hne
            exact Delimited.split_ne_nil hd hne (hrest.excluded hi).symm
          obtain rfl : _ = v := by simpa using hv
          refine ⟨hfirst, .inr ?_⟩
          rw [hbytes]
          simp [hi, roundView, happ, hr]
        | cons w views =>
          rw [getLast?_cons_cons] at hv
          exact hrest.last hi v hv

/-- From the start of the text; an empty text has no pieces. -/
theorem split_pieces (hd : delims ≠ []) (str : Bytes) (includeDelims : Bool) :
    ∃ views, split str delims includeDelims = some views ∧
      Pieces str delims includeDelims str views := by
  by_cases hs : str = []
  · subst hs
    exact ⟨[], by rfl, by simp, by simp [Delimited.split_nil], by simp, by simp⟩
  · have hpos := length_pos_of_ne_nil hs
    obtain ⟨views, hviews, hpieces⟩ := splitLoop_pieces hd includeDelims (str.length + 1) 0 0 []
      (Nat.zero_le str.length) (by omega) (by omega)
    exact ⟨views, hviews, hpieces⟩

/-- Both overloads end on every text; the pieces with their delimiters give the text. Those
without are the pieces of `Delimited.split`: they hold no delimiter and give the text when they
are joined, but for a delimiter at its end, behind which there is no piece. The callback receives
the views of the vector in their order. -/
theorem split_invertible (str delims : Bytes) (hd : delims ≠ []) :
    ∃ whole bare, split str delims true = some whole ∧ split str delims false = some bare ∧
      (whole.map (·.bytes str)).flatten = str ∧
      bare.map (·.bytes str) = Delimited.split delims str ∧
      (∀ v ∈ bare, ¬delims <:+: v.bytes str) ∧
      (delims.intercalate (bare.map (·.bytes str)) = str ∨
        delims.intercalate (bare.map (·.bytes str)) ++ delims = str) ∧
      ∀ (σ : Type) (cb : σ → StringView → σ) (s : σ),
        splitCallback str delims true cb s = some (whole.foldl cb s) ∧
          splitCallback str delims false cb s = some (bare.foldl cb s) := by
  obtain ⟨whole, hwhole, hw⟩ := split_pieces hd str true
  obtain ⟨bare, hbare, hb⟩ := split_pieces hd str false
  have hcallback : ∀ (σ : Type) (cb : σ → StringView → σ) (s : σ) (includeDelims : Bool) views,
      split str delims includeDelims = some views →
        splitCallback str delims includeDelims cb s = some (views.foldl cb s) := by
    intro σ cb s includeDelims views hviews
    have heq := splitCallbackLoop_eq str delims includeDelims cb (str.length + 1) 0 0 [] s
    unfold split at hviews
    rw [hviews] at heq
    exact heq
  refine ⟨whole, bare, hwhole, hbare, hw.included rfl, hb.excluded rfl, ?_, ?_, ?_⟩
  · intro v hv
    have hmem : v.bytes str ∈ Delimited.split delims str := by
      rw [← hb.excluded rfl]
      exact mem_map_of_mem hv
    exact (Delimited.mem_split hd hmem).2
  · rw [hb.excluded rfl]
    exact Delimited.intercalate_split hd str
  · intro σ cb s
    exact ⟨hcallback σ cb s true whole hwhole, hcallback σ cb s false bare hbare⟩

theorem split_invertible_overlapping :
    ∃ bare, split (ascii "aaabaa") (ascii "aa") false = some bare ∧
      bare.map (·.bytes (ascii "aaabaa")) = [[], ascii "ab"] ∧
      ∀ v ∈ bare, ¬ascii "aa" <:+: v.bytes (ascii "aaabaa") := by
  obtain ⟨_, bare, -, hbare, -, hpieces, hfree, -⟩ :=
    split_invertible (ascii "aaabaa") (ascii "aa") (by decide)
  have heval : Delimited.split (ascii "aa") (ascii "aaabaa") = [[], ascii "ab"] := by decide +kernel
  exact ⟨bare, hbare, hpieces.trans heval, hfree⟩

/-! ## Versions -/

structure Version where
  major : ℕ
  minor : ℕ
  patch : ℕ
deriving DecidableEq, Repr

def dot : UInt8 := 46

def Version.toString (v : Version) : Bytes :=
  decimal v.major ++ [dot] ++ decimal v.minor ++ [dot] ++ decimal v.patch

/-- The view `str` with the bytes behind it: `FastAtoiu` is given the begin of a piece only and
reads on as long as it finds digits. -/
def parseStringAsVersion (str rest : Bytes) : Option Version :=
  if str.length < 5 then none
  else if str.any fun c => !(ascii "0123456789.").contains c then none
  else if str.getLast? = some dot then none
  else
    (split str [dot] false).bind fun splitStr =>
      let read (v : StringView) := fastAtoiu ((str ++ rest).drop v.first)
      match splitStr with
      | [a, b, c] => some ⟨read a, read b, read c⟩
      | _ => none

/-- The three groups, separated by single dots, and the version they denote. -/
def Denotes (str : Bytes) (v : Version) : Prop :=
  ∃ a b c, str = a ++ [dot] ++ b ++ [dot] ++ c ∧ v = ⟨number a, number b, number c⟩ ∧
    ∀ g ∈ [a, b, c], isOnlyDigits g = true ∧ g ≠ [] ∧ number g < 2 ^ 64

variable {rest : Bytes}

theorem accepted_char (c : UInt8) :
    (ascii "0123456789.").contains c = true ↔ isDigit c = true ∨ c = dot := by
  have hall : ∀ i : Fin 256, (ascii "0123456789.").contains ⟨⟨i⟩⟩ = true ↔
      isDigit ⟨⟨i⟩⟩ = true ∨ (⟨⟨i⟩⟩ : UInt8) = dot := by
    decide +kernel
  exact hall c.toFin

theorem isOnlyDigits_of_mem_split {p : Bytes} (hchars : ∀ c ∈ str, isDigit c = true ∨ c = dot)
    (h : p ∈ Delimited.split [dot] str) : isOnlyDigits p = true := by
  obtain ⟨hin, hfree⟩ := Delimited.mem_split (by simp) h
  rw [singleton_infix_iff] at hfree
  refine all_eq_true.mpr fun c hc => (hchars c (hin.subset hc)).resolve_right ?_
  rintro rfl
  exact hfree hc

/-- The number read at a piece is its own when a dot follows it; at the last piece it goes on
with the digits behind the view. -/
theorem read_views (rest : Bytes) {a b c : StringView}
    (hchars : ∀ x ∈ str, isDigit x = true ∨ x = dot) (hlast : str.getLast? ≠ some dot)
    (h : Pieces str [dot] false str [a, b, c]) :
    [a, b, c].map (fun v => fastAtoiu ((str ++ rest).drop v.first)) =
      [wrap (number (a.bytes str)), wrap (number (b.bytes str)),
        wrap (number (c.bytes str ++ rest.takeWhile isDigit))] := by
  have hdigits : ∀ v ∈ [a, b, c], isOnlyDigits (v.bytes str) = true := by
    intro v hv
    refine isOnlyDigits_of_mem_split hchars ?_
    rw [← h.excluded rfl]
    exact mem_map_of_mem hv
  have hinner : ∀ v ∈ [a, b], fastAtoiu ((str ++ rest).drop v.first) = wrap (number (v.bytes str)) := by
    intro v hv
    obtain ⟨hfirst, t, ht⟩ := h.inner rfl v hv
    rw [drop_append_of_le_length hfirst, ← ht, append_assoc, append_assoc,
      fastAtoiu_number (hdigits v (mem_of_mem_dropLast hv))]
    intro x hx
    rw [← Option.some.inj hx]
    rfl
  obtain ⟨hfirst, hend | hend⟩ := h.last rfl c rfl
  · have hsplit : c.bytes str ++ rest = c.bytes str ++ rest.takeWhile isDigit ++ rest.dropWhile isDigit := by
      rw [append_assoc, takeWhile_append_dropWhile]
    have hended : Ended (rest.dropWhile isDigit) := by
      intro x hx
      have hhead := head?_dropWhile_not isDigit rest
      rw [Option.mem_def.mp hx] at hhead
      exact hhead
    have hgroup : isOnlyDigits (c.bytes str ++ rest.takeWhile isDigit) = true := by
      rw [isOnlyDigits, all_append, all_takeWhile, Bool.and_true]
      exact hdigits c (by simp)
    simp only [map_cons, map_nil, hinner a (by simp), hinner b (by simp)]
    rw [drop_append_of_le_length hfirst, hend, hsplit, fastAtoiu_number hgroup hended]
  · -- a dot behind the last piece is the last byte, which is refused
    refine absurd ?_ hlast
    rw [← take_append_drop c.first str, hend, ← append_assoc]
    exact getLast?_concat

/-- The text passes the checks: five bytes or more, and three groups of digits between the dots,
of which the first two may be empty. -/
def Accepted (str a b c : Bytes) : Prop :=
  5 ≤ str.length ∧ str = a ++ [dot] ++ b ++ [dot] ++ c ∧ c ≠ [] ∧
    ∀ g ∈ [a, b, c], isOnlyDigits g = true

/-- The number at the last group, read on through the digits behind the view. -/
def readOn (c rest : Bytes) : ℕ := wrap (number (c ++ rest.takeWhile isDigit))

theorem parseStringAsVersion_split (v : Version) : parseStringAsVersion str rest = some v ↔
      5 ≤ str.length ∧ (∀ c ∈ str, isDigit c = true ∨ c = dot) ∧ str.getLast? ≠ some dot ∧
        ∃ a b c, Delimited.split [dot] str = [a, b, c] ∧
          v = ⟨wrap (number a), wrap (number b), readOn c rest⟩ := by
  have hany : (str.any fun c => !(ascii "0123456789.").contains c) = true ↔
      ¬∀ c ∈ str, isDigit c = true ∨ c = dot := by
    simp [← accepted_char]
  obtain ⟨views, hsplit, hpieces⟩ := split_pieces (cons_ne_nil dot []) str false
  have hmap := hpieces.excluded rfl
  unfold parseStringAsVersion
  by_cases hlen : str.length < 5
  · rw [if_pos hlen]
    exact ⟨nofun, fun h => absurd hlen (Nat.not_lt.mpr h.1)⟩
  rw [if_neg hlen]
  by_cases hchars : ∀ c ∈ str, isDigit c = true ∨ c = dot
  · rw [if_neg (fun h => hany.mp h hchars)]
    by_cases hlast : str.getLast? = some dot
    · rw [if_pos hlast]
      exact ⟨nofun, fun h => absurd hlast h.2.2.1⟩
    rw [if_neg hlast, hsplit, Option.bind_some, ← hmap]
    rcases views with _ | ⟨a, _ | ⟨b, _ | ⟨c, _ | ⟨e, views⟩⟩⟩⟩
    case cons.cons.cons.nil =>
      have hread := read_views rest hchars hlast hpieces
      simp only [map_cons, map_nil, List.cons.injEq, and_true] at hread
      obtain ⟨ha, hb, hc⟩ := hread
      simp only [map_cons, map_nil, ha, hb, hc, Option.some.injEq, List.cons.injEq, and_true]
      constructor
      · rintro rfl
        exact ⟨Nat.not_lt.mp hlen, hchars, hlast, _, _, _, ⟨rfl, rfl, rfl⟩, rfl⟩
      · rintro ⟨-, -, -, _, _, _, ⟨rfl, rfl, rfl⟩, rfl⟩
        rfl
    all_goals simp
  · rw [if_pos (hany.mpr hchars)]
    exact ⟨nofun, fun h => absurd h.2.1 hchars⟩

theorem split_groups {a b c : Bytes} (h : ∀ g ∈ [a, b, c], isOnlyDigits g = true) (hc : c ≠ []) :
    Delimited.split [dot] (a ++ [dot] ++ b ++ [dot] ++ c) = [a, b, c] := by
  have hfree : ∀ g, g ∈ [a, b, c] → ¬[dot] <:+: g := by
    intro g hg hdot
    have hmem := (singleton_infix_iff dot g).mp hdot
    exact absurd (all_eq_true.mp (h g hg) dot hmem) (by decide)
  have hb := Delimited.unbordered_singleton dot
  rw [append_assoc, append_assoc, Delimited.split_append (by simp) (hb.free (hfree a (by simp))),
    ← append_assoc, Delimited.split_append (by simp) (hb.free (hfree b (by simp))),
    Delimited.split_of_uncut (hfree c (by simp)) hc]

/-- What is accepted and returned, whatever follows the view: the numbers are reduced to 64 bits,
and the last one is read on through the digits behind the view. -/
theorem parseStringAsVersion_iff (v : Version) : parseStringAsVersion str rest = some v ↔
      ∃ a b c, Accepted str a b c ∧ v = ⟨wrap (number a), wrap (number b), readOn c rest⟩ := by
  rw [parseStringAsVersion_split]
  constructor
  · rintro ⟨hlen, hchars, hlast, a, b, c, habc, rfl⟩
    have hstr : str = a ++ [dot] ++ b ++ [dot] ++ c := by
      have hjoin := Delimited.intercalate_split (cons_ne_nil dot []) str
      rw [habc] at hjoin
      rcases hjoin with hjoin | hjoin
      · simp [← hjoin, List.intercalate]
      · exact absurd (hjoin ▸ getLast?_concat) hlast
    refine ⟨a, b, c, ⟨hlen, hstr, ?_, ?_⟩, rfl⟩
    · rintro rfl
      rw [hstr, append_nil] at hlast
      exact hlast getLast?_concat
    · intro g hg
      exact isOnlyDigits_of_mem_split hchars (habc ▸ hg)
  · rintro ⟨a, b, c, ⟨hlen, rfl, hc, hdigits⟩, rfl⟩
    refine ⟨hlen, ?_, ?_, a, b, c, split_groups hdigits hc, rfl⟩
    · intro x hx
      simp only [mem_append, mem_singleton] at hx
      have hall : ∀ g ∈ [a, b, c], x ∈ g → isDigit x = true :=
        fun g hg => all_eq_true.mp (hdigits g hg) x
      rcases hx with (((hx | hx) | hx) | hx) | hx
      · exact .inl (hall a (by simp) hx)
      · exact .inr hx
      · exact .inl (hall b (by simp) hx)
      · exact .inr hx
      · exact .inl (hall c (by simp) hx)
    · intro hlast
      rw [getLast?_append_of_ne_nil _ hc] at hlast
      have hdigit := all_eq_true.mp (hdigits c (by simp)) dot (mem_of_getLast? hlast)
      exact absurd hdigit (by decide)

/-- The groups of an accepted text are determined by it. -/
theorem Accepted.unique {a b c a' b' c' : Bytes} (h : Accepted str a b c) (h' : Accepted str a' b' c') :
    a = a' ∧ b = b' ∧ c = c' := by
  obtain ⟨-, hstr, hc, hdigits⟩ := h
  obtain ⟨-, hstr', hc', hdigits'⟩ := h'
  have hsplit := split_groups hdigits hc
  rw [← hstr, hstr', split_groups hdigits' hc'] at hsplit
  simpa [eq_comm] using hsplit

theorem Denotes.accepted {v : Version} (h : Denotes str v) :
    ∃ a b c, Accepted str a b c ∧ v = ⟨number a, number b, number c⟩ ∧
      ∀ g ∈ [a, b, c], g ≠ [] ∧ number g < 2 ^ 64 := by
  obtain ⟨a, b, c, rfl, rfl, hall⟩ := h
  have hpos : ∀ g ∈ [a, b, c], 0 < g.length :=
    fun g hg => length_pos_of_ne_nil (hall g hg).2.1
  refine ⟨a, b, c, ⟨?_, rfl, (hall c (by simp)).2.1, fun g hg => (hall g hg).1⟩, rfl,
    fun g hg => (hall g hg).2⟩
  have ha := hpos a (by simp)
  have hb := hpos b (by simp)
  have hc := hpos c (by simp)
  simp only [length_append, length_singleton]
  omega

theorem readOn_of_ended (hrest : Ended rest) (c : Bytes) : readOn c rest = wrap (number c) := by
  have hnone : rest.takeWhile isDigit = [] := by
    cases rest with
    | nil => rfl
    | cons x rest => simp [hrest x rfl]
  rw [readOn, hnone, append_nil]

theorem parseStringAsVersion_of_denotes {v : Version} (hrest : Ended rest) (h : Denotes str v) :
    parseStringAsVersion str rest = some v := by
  obtain ⟨a, b, c, hacc, rfl, hall⟩ := h.accepted
  have hwrap : ∀ g ∈ [a, b, c], wrap (number g) = number g := fun g hg => wrap_of_lt (hall g hg).2
  refine (parseStringAsVersion_iff _).mpr ⟨a, b, c, hacc, ?_⟩
  rw [readOn_of_ended hrest, hwrap a (by simp), hwrap b (by simp), hwrap c (by simp)]

theorem denotes_toString (v : Version) (h : ∀ n ∈ [v.major, v.minor, v.patch], n < 2 ^ 64) :
    Denotes v.toString v := by
  refine ⟨decimal v.major, decimal v.minor, decimal v.patch, rfl, ?_, ?_⟩
  · simp only [number_decimal]
  · intro g hg
    obtain ⟨n, hn, rfl⟩ : ∃ n ∈ [v.major, v.minor, v.patch], decimal n = g := by
      simpa [eq_comm] using hg
    exact ⟨isOnlyDigits_decimal n, decimal_ne_nil n, (number_decimal n).symm ▸ h n hn⟩

/-- The texts, with the bytes behind them, for which exactly the three groups are accepted: those
the checks refuse, and those with no empty group, no number of more than 64 bits and no change of
the last number by the digits behind the view. With no digit there the bytes behind do not matter,
and the text of a version gives the version back. -/
theorem parseStringAsVersion_exact (str rest : Bytes) :
    ((∀ v, parseStringAsVersion str rest = some v ↔ Denotes str v) ↔
      ∀ a b c, Accepted str a b c →
        (∀ g ∈ [a, b, c], g ≠ [] ∧ number g < 2 ^ 64) ∧ readOn c rest = number c) ∧
    (Ended rest → ∀ other, Ended other → parseStringAsVersion str other = parseStringAsVersion str rest) ∧
    ∀ v : Version, Ended rest → (∀ n ∈ [v.major, v.minor, v.patch], n < 2 ^ 64) →
      parseStringAsVersion v.toString rest = some v := by
  refine ⟨⟨?_, ?_⟩, ?_, fun v hrest hv => parseStringAsVersion_of_denotes hrest (denotes_toString v hv)⟩
  · intro hclaim a b c hacc
    have hden := (hclaim _).mp ((parseStringAsVersion_iff _).mpr ⟨a, b, c, hacc, rfl⟩)
    obtain ⟨a', b', c', hacc', hv, hall⟩ := hden.accepted
    obtain ⟨rfl, rfl, rfl⟩ := hacc.unique hacc'
    exact ⟨hall, congrArg Version.patch hv⟩
  · intro hgroups v
    constructor
    · intro h
      obtain ⟨a, b, c, hacc, rfl⟩ := (parseStringAsVersion_iff v).mp h
      obtain ⟨hall, hread⟩ := hgroups a b c hacc
      refine ⟨a, b, c, hacc.2.1, ?_, fun g hg => ⟨hacc.2.2.2 g hg, hall g hg⟩⟩
      rw [hread, wrap_of_lt (hall a (by simp)).2, wrap_of_lt (hall b (by simp)).2]
    · intro h
      obtain ⟨a, b, c, hacc, rfl, hall⟩ := h.accepted
      refine (parseStringAsVersion_iff _).mpr ⟨a, b, c, hacc, ?_⟩
      rw [(hgroups a b c hacc).2, wrap_of_lt (hall a (by simp)).2, wrap_of_lt (hall b (by simp)).2]
  · intro hrest other hother
    refine Option.ext fun v => ?_
    simp only [parseStringAsVersion_iff, readOn_of_ended hrest, readOn_of_ended hother]

theorem parseStringAsVersion_exact_witness :
    parseStringAsVersion (ascii "10.2.3") (ascii "-rc") = some ⟨10, 2, 3⟩ := by
  have hended : Ended (ascii "-rc") := by
    intro c hc
    rw [← Option.some.inj hc]
    rfl
  exact (parseStringAsVersion_exact (ascii "10.2.3") (ascii "-rc")).2.2 ⟨10, 2, 3⟩ hended (by decide)

/-- An empty group is read as zero, a number of more than 64 bits is reduced, and a digit behind
the view is read as part of the last number. -/
theorem parseStringAsVersion_accepts_more :
    parseStringAsVersion (ascii "1..23") [] = some ⟨1, 0, 23⟩ ∧
      (¬∃ v, Denotes (ascii "1..23") v) ∧
      parseStringAsVersion (ascii "18446744073709551616.0.0") [] = some ⟨0, 0, 0⟩ ∧
      parseStringAsVersion (ascii "1.2.3") [] = some ⟨1, 2, 3⟩ ∧
      parseStringAsVersion (ascii "1.2.3") (ascii "4") = some ⟨1, 2, 34⟩ := by
  refine ⟨by decide +kernel, ?_, by decide +kernel, by decide +kernel, by decide +kernel⟩
  rintro ⟨v, a, b, c, heq, -, hall⟩
  have hsplit := split_groups (fun g hg => (hall g hg).1) (hall c (by simp)).2.1
  rw [← heq] at hsplit
  have hpieces : Delimited.split [dot] (ascii "1..23") = [ascii "1", [], ascii "23"] := by
    decide +kernel
  rw [hpieces] at hsplit
  have hb : ([] : Bytes) = b := by
    simp only [List.cons.injEq] at hsplit
    exact hsplit.2.1
  exact (hall b (by simp)).2.1 hb.symm

end Ichor.StringUtils
