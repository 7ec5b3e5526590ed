import Ichor.Stl.StringUtils

/-! The SET commands of `HiredisService`. The overload without options hands key and value over as
counted arguments. The overload with options writes the whole command into a buffer, which the client
library reads again as a format text: up to a zero byte, cut at spaces, with percent directives. -/
namespace Ichor.Redis
open List

/-! ## The client library -/

/-- The arguments of a command text, by the format rules of the library; `none` for a directive that
no argument was passed for. `current` is the argument that is being read, and `percent` says that the
byte before was a percent sign; one at the very end stands for itself. -/
def formatFrom : Bytes → List Bytes → Bool → Option Bytes → Option (List Bytes)
  | [], _, true, current => some [current.getD [] ++ [37]]
  | [], _, false, current => some current.toList
  | c :: rest, args, true, current =>
    if c = 98 then
      match args with
      | [] => none
      | arg :: args => formatFrom rest args false (some (current.getD [] ++ arg))
    else if c = 37 then formatFrom rest args false (some (current.getD [] ++ [c]))
    else none
  | c :: rest, args, false, current =>
    if c = 37 then formatFrom rest args true current
    else if c = 32 then
      match current with
      | none => formatFrom rest args false none
      | some arg => (formatFrom rest args false none).map (arg :: ·)
    else formatFrom rest args false (some (current.getD [] ++ [c]))

def formatCommand (format : Bytes) (args : List Bytes) : Option (List Bytes) :=
  formatFrom format args false none

/-- The text that a pointer into memory stands for. -/
def cString (memory : Bytes) : Bytes := memory.takeWhile fun c => decide (c ≠ 0)

/-! ## `HiredisService` -/

structure RedisSetOptions where
  EX : Option ℕ := none
  PX : Option ℕ := none
  EXAT : Option ℕ := none
  PXAT : Option ℕ := none
  NX : Bool := false
  XX : Bool := false
  KEEPTTL : Bool := false
  GET : Bool := false

namespace RedisSetOptions

def timeOptsSet (opts : RedisSetOptions) : ℕ :=
  opts.KEEPTTL.toNat + opts.EX.isSome.toNat + opts.PX.isSome.toNat + opts.EXAT.isSome.toNat +
    opts.PXAT.isSome.toNat

end RedisSetOptions

/-- A keyword with its number, if the option is set. -/
def timeOption (keyword : Bytes) (value : Option ℕ) : Bytes :=
  match value with
  | none => []
  | some n => keyword ++ decimal n

/-- The buffer with the command, or `none` where the call terminates. -/
def formatSet (key value : Bytes) (opts : RedisSetOptions) : Option Bytes :=
  if opts.NX ∧ opts.XX then none
  else if 1 < opts.timeOptsSet then none
  else some (ascii "SET " ++ key ++ ascii " " ++ value ++
    (if opts.NX then ascii " NX" else []) ++ (if opts.XX then ascii " XX" else []) ++
    (if opts.GET then ascii " GET" else []) ++ (if opts.KEEPTTL then ascii " KEEPTTL" else []) ++
    timeOption (ascii " EX ") opts.EX ++ timeOption (ascii " EX ") opts.PX ++
    timeOption (ascii " EX ") opts.EXAT ++ timeOption (ascii " EX ") opts.PXAT)

/-- The arguments of `set(key, value)`. -/
def set (key value : Bytes) : Option (List Bytes) :=
  formatCommand (ascii "SET %b %b") [key, value]

/-- The arguments of `set(key, value, opts)`; `behind` is the memory that follows the buffer. -/
def setWith (key value : Bytes) (opts : RedisSetOptions) (behind : Bytes) : Option (List Bytes) :=
  (formatSet key value opts).bind fun buf => formatCommand (cString (buf ++ behind)) []

/-! ## What is asked for -/

def timeArguments (keyword : Bytes) : Option ℕ → List Bytes
  | none => []
  | some n => [keyword, decimal n]

def optionArguments (opts : RedisSetOptions) : List Bytes :=
  (if opts.NX then [ascii "NX"] else []) ++ (if opts.XX then [ascii "XX"] else []) ++
    (if opts.GET then [ascii "GET"] else []) ++ (if opts.KEEPTTL then [ascii "KEEPTTL"] else []) ++
    timeArguments (ascii "EX") opts.EX ++ timeArguments (ascii "PX") opts.PX ++
    timeArguments (ascii "EXAT") opts.EXAT ++ timeArguments (ascii "PXAT") opts.PXAT

def setArguments (key value : Bytes) (opts : RedisSetOptions) : List Bytes :=
  ascii "SET" :: key :: value :: optionArguments opts

/-- Bytes that the library reads back as one argument. -/
def Word (w : Bytes) : Prop := w ≠ [] ∧ ∀ c ∈ w, c ≠ 0 ∧ c ≠ 32 ∧ c ≠ 37

instance (w : Bytes) : Decidable (Word w) := inferInstanceAs (Decidable (_ ∧ _))

/-- Each word after a space. -/
def spaced (ws : List Bytes) : Bytes := (ws.map fun w => 32 :: w).flatten

/-! ## Reading words back -/

theorem formatFrom_plain {c : UInt8} (h : c ≠ 32 ∧ c ≠ 37) (rest : Bytes) (args : List Bytes)
    (current : Option Bytes) : formatFrom (c :: rest) args false current =
      formatFrom rest args false (some (current.getD [] ++ [c])) := by
  rw [formatFrom.eq_def]
  simp [h.1, h.2]

theorem formatFrom_word {w : Bytes} (hw : ∀ c ∈ w, c ≠ 0 ∧ c ≠ 32 ∧ c ≠ 37) (rest : Bytes)
    (args : List Bytes) (arg : Bytes) :
    formatFrom (w ++ rest) args false (some arg) = formatFrom rest args false (some (arg ++ w)) := by
  induction w generalizing arg with
  | nil => simp
  | cons c w ih =>
    have hc := hw c (by simp)
    rw [cons_append, formatFrom_plain hc.2, ih fun x hx => hw x (by simp [hx])]
    simp

theorem formatFrom_space (rest : Bytes) (args : List Bytes) (arg : Bytes) :
    formatFrom (32 :: rest) args false (some arg) =
      (formatFrom rest args false none).map (arg :: ·) := by
  rw [formatFrom, if_neg (by decide), if_pos rfl]

theorem formatFrom_spaced (ws : List Bytes) (hws : ∀ w ∈ ws, Word w) (arg : Bytes) :
    formatFrom (spaced ws) [] false (some arg) = some (arg :: ws) := by
  induction ws generalizing arg with
  | nil => rfl
  | cons w ws ih =>
    obtain ⟨hne, hw⟩ := hws w (by simp)
    obtain ⟨c, w, rfl⟩ := exists_cons_of_ne_nil hne
    show formatFrom (32 :: (c :: w ++ spaced ws)) [] false (some arg) = _
    rw [formatFrom_space, cons_append, formatFrom_plain (hw c (by simp)).2,
      formatFrom_word fun x hx => hw x (by simp [hx]), ih fun x hx => hws x (by simp [hx])]
    rfl

theorem ne_zero_of_spaced {ws : List Bytes} (hws : ∀ w ∈ ws, Word w) : ∀ c ∈ spaced ws, c ≠ 0 := by
  intro c hc
  obtain ⟨l, hl, hcl⟩ := mem_flatten.mp hc
  obtain ⟨w, hw, rfl⟩ := mem_map.mp hl
  rcases mem_cons.mp hcl with rfl | hcw
  · decide
  · exact ((hws w hw).2 c hcw).1

theorem cString_append {text behind : Bytes} (htext : ∀ c ∈ text, c ≠ 0)
    (hbehind : behind.head? = some 0) : cString (text ++ behind) = text := by
  obtain ⟨rest, rfl⟩ := head?_eq_some_iff.mp hbehind
  unfold cString
  rw [takeWhile_append_of_pos fun c hc => decide_eq_true (htext c hc)]
  simp

theorem word_decimal (n : ℕ) : Word (decimal n) := by
  refine ⟨decimal_ne_nil n, fun c hc => ?_⟩
  have hdigit := decimal_digits hc
  refine ⟨?_, ?_, ?_⟩ <;>
    · rintro rfl
      exact absurd hdigit (by decide)

/-! ## The commands -/

theorem set_eq (key value : Bytes) : set key value = some [ascii "SET", key, value] := by
  simp [set, formatCommand, ascii, formatFrom]

/-- The only time option is EX, if any. -/
def OnlyEX (opts : RedisSetOptions) : Prop :=
  opts.PX = none ∧ opts.EXAT = none ∧ opts.PXAT = none

theorem formatSet_eq {key value buf : Bytes} {opts : RedisSetOptions} (htime : OnlyEX opts)
    (h : formatSet key value opts = some buf) :
    buf = ascii "SET" ++ spaced (key :: value :: optionArguments opts) := by
  obtain ⟨EX, PX, EXAT, PXAT, NX, XX, KEEPTTL, GET⟩ := opts
  obtain ⟨rfl, rfl, rfl⟩ := htime
  have hspaced : ∀ ws ws' : List Bytes, spaced (ws ++ ws') = spaced ws ++ spaced ws' := by
    intro ws ws'
    simp [spaced]
  have hflag : ∀ (b : Bool) text keyword, text = 32 :: keyword →
      (if b = true then text else []) = spaced (if b = true then [keyword] else []) := by
    intro b text keyword htext
    cases b <;> simp [spaced, htext]
  have htimed : timeOption (ascii " EX ") EX = spaced (timeArguments (ascii "EX") EX) := by
    cases EX <;> simp [timeOption, timeArguments, spaced, ascii]
  unfold formatSet at h
  split at h
  · cases h
  split at h
  · cases h
  cases h
  show _ = ascii "SET" ++ (32 :: key ++ (32 :: value ++ spaced (optionArguments _)))
  simp only [optionArguments, hspaced, htimed, hflag NX (ascii " NX") (ascii "NX") (by decide),
    hflag XX (ascii " XX") (ascii "XX") (by decide),
    hflag GET (ascii " GET") (ascii "GET") (by decide),
    hflag KEEPTTL (ascii " KEEPTTL") (ascii "KEEPTTL") (by decide)]
  simp [timeOption, timeArguments, ascii, spaced]

theorem word_optionArguments {opts : RedisSetOptions} : ∀ w ∈ optionArguments opts, Word w := by
  have htime : ∀ keyword value, Word keyword → ∀ w ∈ timeArguments keyword value, Word w := by
    intro keyword value hk w hw
    cases value with
    | none => cases hw
    | some n =>
      simp only [timeArguments, mem_cons, not_mem_nil, or_false] at hw
      rcases hw with rfl | rfl
      · exact hk
      · exact word_decimal n
  have hflag : ∀ (b : Bool) keyword, Word keyword →
      ∀ w ∈ (if b = true then [keyword] else []), Word w := by
    intro b keyword hk w hw
    cases b with
    | false => cases hw
    | true => exact mem_singleton.mp hw ▸ hk
  intro w hw
  simp only [optionArguments, mem_append] at hw
  rcases hw with ((((((hw | hw) | hw) | hw) | hw) | hw) | hw) | hw
  · exact hflag _ _ (by decide +kernel) w hw
  · exact hflag _ _ (by decide +kernel) w hw
  · exact hflag _ _ (by decide +kernel) w hw
  · exact hflag _ _ (by decide +kernel) w hw
  all_goals exact htime _ _ (by decide +kernel) w hw

/-- The overload without options is faithful for all bytes. The overload with options is for a key
and a value that are words, without PX, EXAT and PXAT, and with a zero byte behind the buffer. -/
theorem set_faithful (key value behind : Bytes) (opts : RedisSetOptions) :
    set key value = some (setArguments key value {}) ∧
      ((formatSet key value opts).isSome → Word key → Word value → OnlyEX opts →
        behind.head? = some 0 →
          setWith key value opts behind = some (setArguments key value opts)) := by
  refine ⟨set_eq key value, fun haccepted hkey hvalue htime hbehind => ?_⟩
  obtain ⟨buf, hbuf⟩ := Option.isSome_iff_exists.mp haccepted
  have hwords : ∀ w ∈ key :: value :: optionArguments opts, Word w := by
    intro w hw
    rcases mem_cons.mp hw with rfl | hw
    · exact hkey
    rcases mem_cons.mp hw with rfl | hw
    · exact hvalue
    · exact word_optionArguments w hw
  have htext : ∀ c ∈ buf, c ≠ 0 := by
    intro c hc
    rw [formatSet_eq htime hbuf] at hc
    rcases mem_append.mp hc with hc | hc
    · have hset : ∀ x ∈ ascii "SET", x ≠ 0 := by decide +kernel
      exact hset c hc
    · exact ne_zero_of_spaced hwords c hc
  have hread : ∀ rest, formatCommand (ascii "SET" ++ rest) [] =
      formatFrom rest [] false (some (ascii "SET")) := by
    intro rest
    simp [formatCommand, ascii, formatFrom]
  unfold setWith
  rw [hbuf, Option.bind_some, cString_append htext hbehind, formatSet_eq htime hbuf, hread,
    formatFrom_spaced _ hwords]
  rfl

/-- SET k v NX GET EX 60. -/
theorem set_faithful_ex :
    setWith (ascii "k") (ascii "v") { NX := true, GET := true, EX := some 60 } [0] =
      some [ascii "SET", ascii "k", ascii "v", ascii "NX", ascii "GET", ascii "EX", ascii "60"] := by
  have h := (set_faithful (ascii "k") (ascii "v") [0] { NX := true, GET := true, EX := some 60 }).2
    rfl (by decide +kernel) (by decide +kernel) ⟨rfl, rfl, rfl⟩ rfl
  have hdecimal : decimal 60 = ascii "60" := by
    simp [decimal, ascii]
  simpa [setArguments, optionArguments, timeArguments, hdecimal] using h

/-- A value with a space becomes two arguments, one with a zero byte loses its end, a percent sign
asks for an argument that is not there, and PX is sent as EX. Without a zero byte behind the buffer
other memory is sent. -/
theorem set_unfaithful : setWith (ascii "k") (ascii "a b") {} [0] =
        some [ascii "SET", ascii "k", ascii "a", ascii "b"] ∧
      setWith (ascii "k") [97, 0, 98] {} [0] = some [ascii "SET", ascii "k", ascii "a"] ∧
      setWith (ascii "k") (ascii "5%d") {} [0] = none ∧
      setWith (ascii "k") (ascii "v") { PX := some 0 } [0] =
        some [ascii "SET", ascii "k", ascii "v", ascii "EX", ascii "0"] ∧
      setWith (ascii "k") (ascii "v") {} [33, 0] = some [ascii "SET", ascii "k", ascii "v!"] := by
  decide +kernel

end Ichor.Redis
