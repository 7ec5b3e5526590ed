import Mathlib.Data.FinEnum
import Mathlib.Data.Nat.Digits.Lemmas
import Ichor.Lib.Split

/-! Byte strings and the number parsing of `StringUtils.h`. Lengths and numbers are 64 bits
wide; a sum that can pass that width is reduced where the code reduces it. -/
namespace Ichor
open List Option Nat

abbrev Bytes := List UInt8

/-- The bytes of a string literal. -/
def ascii (s : String) : Bytes := s.toList.map fun c => UInt8.ofNat c.toNat

/-- Unsigned 64 bit arithmetic. -/
def wrap (n : ℕ) : ℕ := n % 2 ^ 64

variable {n d : ℕ} {c : UInt8}

theorem wrap_of_lt (h : n < 2 ^ 64) : wrap n = n := mod_eq_of_lt h

theorem wrap_lt (n : ℕ) : wrap n < 2 ^ 64 := mod_lt _ (by decide)

theorem wrap_le (n : ℕ) : wrap n ≤ n := mod_le _ _

/-! ## Decimal numbers -/

def isDigit (c : UInt8) : Bool := decide (48 ≤ c.toNat) && decide (c.toNat ≤ 57)

def isOnlyDigits (str : Bytes) : Bool := str.all isDigit

def fastAtoiuFrom (val : ℕ) : Bytes → ℕ
  | [] => val
  | c :: str => if isDigit c then fastAtoiuFrom (wrap (val * 10 + (c.toNat - 48))) str else val

def fastAtoiu (str : Bytes) : ℕ := fastAtoiuFrom 0 str

/-- How `fmt` writes an unsigned number. -/
def decimal (n : ℕ) : Bytes :=
  if n = 0 then [48] else (Nat.digits 10 n).reverse.map fun d => UInt8.ofNat (48 + d)

theorem digit_toNat (h : d < 10) : (UInt8.ofNat (48 + d)).toNat = 48 + d := by
  rw [UInt8.toNat_ofNat', mod_eq_of_lt (by omega)]

theorem isDigit_ofNat (h : d < 10) : isDigit (UInt8.ofNat (48 + d)) = true := by
  simp only [isDigit, digit_toNat h, Bool.and_eq_true, decide_eq_true_eq]
  omega

/-- The number a group of digits denotes. -/
def number (group : Bytes) : ℕ := Nat.ofDigits 10 (group.map (·.toNat - 48)).reverse

/-- A number that stands before this text ends there. -/
def Ended (rest : Bytes) : Prop := ∀ c ∈ rest.head?, isDigit c = false

theorem number_cons (c : UInt8) (group : Bytes) :
    number (c :: group) = (c.toNat - 48) * 10 ^ group.length + number group := by
  simp [number, ofDigits_append, add_comm, mul_comm]

theorem fastAtoiuFrom_number (group rest : Bytes) (h : isOnlyDigits group = true)
    (hrest : Ended rest) (val : ℕ) :
    fastAtoiuFrom (wrap val) (group ++ rest) = wrap (val * 10 ^ group.length + number group) := by
  induction group generalizing val with
  | nil =>
    cases rest with
    | nil => simp [number, fastAtoiuFrom]
    | cons c rest =>
      have hc : isDigit c = false := hrest c rfl
      simp [number, fastAtoiuFrom, hc]
  | cons c group ih =>
    obtain ⟨hc, hgroup⟩ : isDigit c = true ∧ isOnlyDigits group = true := by
      simpa [isOnlyDigits] using h
    have hstep : wrap (wrap val * 10 + (c.toNat - 48)) = wrap (val * 10 + (c.toNat - 48)) := by
      unfold wrap
      omega
    rw [cons_append, fastAtoiuFrom, if_pos hc, hstep, ih hgroup, number_cons, length_cons]
    congr 1
    ring

theorem fastAtoiu_number {group rest : Bytes} (h : isOnlyDigits group = true) (hrest : Ended rest) :
    fastAtoiu (group ++ rest) = wrap (number group) := by
  have hread := fastAtoiuFrom_number group rest h hrest 0
  rw [zero_mul, zero_add] at hread
  exact hread

theorem digits_lt (h : d ∈ (Nat.digits 10 n).reverse) : d < 10 :=
  digits_lt_base (by decide) (mem_reverse.mp h)

theorem decimal_digits (hc : c ∈ decimal n) : isDigit c = true := by
  unfold decimal at hc
  split at hc
  · rw [mem_singleton.mp hc]
    decide
  · obtain ⟨d, hd, rfl⟩ := mem_map.mp hc
    exact isDigit_ofNat (digits_lt hd)

theorem isOnlyDigits_decimal (n : ℕ) : isOnlyDigits (decimal n) = true :=
  all_eq_true.mpr fun _ hc => decimal_digits hc

theorem number_decimal (n : ℕ) : number (decimal n) = n := by
  by_cases hn : n = 0
  · subst hn
    rfl
  · have hmap : ((Nat.digits 10 n).reverse.map fun d => UInt8.ofNat (48 + d)).map (·.toNat - 48) =
        (Nat.digits 10 n).reverse := by
      rw [List.map_map]
      refine (List.map_congr_left fun d hd => ?_).trans (List.map_id _)
      rw [Function.comp_apply, digit_toNat (digits_lt hd), Nat.add_sub_cancel_left, id]
    rw [decimal, if_neg hn, number, hmap, List.reverse_reverse, Nat.ofDigits_digits]

theorem fastAtoiu_decimal (h : n < 2 ^ 64) : fastAtoiu (decimal n) = n := by
  have hread := fastAtoiu_number (isOnlyDigits_decimal n) (fun c (hc : c ∈ ([] : Bytes).head?) => nomatch hc)
  rwa [append_nil, number_decimal, wrap_of_lt h] at hread

theorem decimal_ne_nil (n : ℕ) : decimal n ≠ [] := by
  unfold decimal
  split
  · simp
  · next hn =>
    rw [ne_eq, map_eq_nil_iff, reverse_eq_nil_iff, digits_eq_nil_iff_eq_zero]
    exact hn

/-! ## Hexadecimal numbers -/

/-- The entries of the table other than -1. -/
def digittoval (c : UInt8) : Option ℕ :=
  if 48 ≤ c.toNat ∧ c.toNat ≤ 57 then some (c.toNat - 48)
  else if 65 ≤ c.toNat ∧ c.toNat ≤ 70 then some (c.toNat - 55)
  else if 97 ≤ c.toNat ∧ c.toNat ≤ 102 then some (c.toNat - 87)
  else none

/-- The loop from the last character on: the value so far and the shift. -/
def safeHexToUintLoop (ret shift : ℕ) : Bytes → Option ℕ
  | [] => some ret
  | c :: rest =>
    match digittoval c with
    | none => none
    | some v => safeHexToUintLoop (wrap (ret + wrap (v <<< shift))) (shift + 4) rest

def safeHexToUint (str : Bytes) : Option ℕ :=
  if 16 < str.length then none else safeHexToUintLoop 0 0 str.reverse

variable {str : Bytes}

theorem safeHexToUint_lt {v : ℕ} (h : safeHexToUint str = some v) : v < 2 ^ 64 := by
  have hloop : ∀ (str : Bytes) (ret shift : ℕ), ret < 2 ^ 64 →
      safeHexToUintLoop ret shift str = some v → v < 2 ^ 64 := by
    intro str
    induction str with
    | nil =>
      intro ret shift hret hsome
      rw [safeHexToUintLoop, Option.some.injEq] at hsome
      omega
    | cons c str ih =>
      intro ret shift hret hsome
      unfold safeHexToUintLoop at hsome
      split at hsome
      · cases hsome
      · exact ih _ _ (wrap_lt _) hsome
  unfold safeHexToUint at h
  split at h
  · cases h
  · exact hloop _ 0 0 (by decide) h

/-- The positional value of a text of hexadecimal digits, in any case. -/
def hexValue (str : Bytes) : Option ℕ :=
  str.foldl (fun v c => v.bind fun v => (digittoval c).map fun d => v * 16 + d) (some 0)

theorem hexValue_concat (str : Bytes) (c : UInt8) :
    hexValue (str ++ [c]) = (hexValue str).bind fun v => (digittoval c).map fun d => v * 16 + d := by
  simp [hexValue]

theorem digittoval_lt (h : digittoval c = some d) : d < 16 := by
  unfold digittoval at h
  split at h
  · cases h
    omega
  · split at h
    · cases h
      omega
    · split at h
      · cases h
        omega
      · cases h

theorem safeHexToUintLoop_eq (str : Bytes) (ret shift : ℕ) (hshift : shift + 4 * str.length ≤ 64)
    (hret : ret < 2 ^ shift) :
    safeHexToUintLoop ret shift str = (hexValue str.reverse).map fun v => ret + v * 2 ^ shift := by
  induction str generalizing ret shift with
  | nil => simp [safeHexToUintLoop, hexValue]
  | cons c str ih =>
    rw [length_cons] at hshift
    rw [reverse_cons, hexValue_concat, safeHexToUintLoop]
    cases hc : digittoval c with
    | none => cases hexValue str.reverse <;> rfl
    | some d =>
      have hd := digittoval_lt hc
      have hpow : 2 ^ (shift + 4) = 16 * 2 ^ shift := by
        rw [pow_add]
        omega
      have hsum : ret + d * 2 ^ shift < 2 ^ (shift + 4) := by
        have hmul : d * 2 ^ shift ≤ 15 * 2 ^ shift := mul_le_mul_right _ (by omega)
        omega
      have hfit : 2 ^ (shift + 4) ≤ 2 ^ 64 := Nat.pow_le_pow_right (by decide) (by omega)
      have hwrap : wrap (ret + wrap (d <<< shift)) = ret + d * 2 ^ shift := by
        rw [Nat.shiftLeft_eq, wrap_of_lt (n := d * 2 ^ shift) (by omega), wrap_of_lt (by omega)]
      have hnext := ih (ret + d * 2 ^ shift) (shift + 4) (by omega) hsum
      simp only [hwrap, hnext]
      cases hexValue str.reverse with
      | none => rfl
      | some v =>
        simp only [map_some, bind_some, Option.some.injEq, hpow]
        rw [add_mul, mul_assoc]
        omega

theorem safeHexToUint_eq (h : str.length ≤ 16) : safeHexToUint str = hexValue str := by
  have hloop := safeHexToUintLoop_eq str.reverse 0 0 (by rw [length_reverse]; omega) (by decide)
  rw [safeHexToUint, if_neg (by omega), hloop, List.reverse_reverse]
  cases hexValue str <;> simp

theorem hexValue_digits {v : ℕ} (h : hexValue str = some v)
    (hc : c ∈ str) : (digittoval c).isSome = true := by
  induction str using List.reverseRecOn generalizing v with
  | nil => cases hc
  | append_singleton str x ih =>
    rw [hexValue_concat] at h
    obtain ⟨u, hu, hx⟩ := bind_eq_some_iff.mp h
    obtain ⟨d, hd, -⟩ := map_eq_some_iff.mp hx
    rcases mem_append.mp hc with hmem | hmem
    · exact ih hu hmem
    · rw [mem_singleton.mp hmem, hd]
      rfl

/-- The table of 256 entries the code reads, run by run. -/
def digittovalTable : List ℤ :=
  List.replicate 48 (-1) ++ [0, 1, 2, 3, 4, 5, 6, 7, 8, 9] ++ List.replicate 7 (-1) ++
    [10, 11, 12, 13, 14, 15] ++ List.replicate 26 (-1) ++ [10, 11, 12, 13, 14, 15] ++
    List.replicate 153 (-1)

def tableEntry (c : UInt8) : ℤ := digittovalTable.getD c.toNat (-1)

def fastHexToUintLoop (ret shift : ℕ) : Bytes → ℕ
  | [] => ret
  | c :: rest =>
    -- the entry -1 becomes 2^64 - 1 in the cast
    fastHexToUintLoop (wrap (ret + wrap ((tableEntry c % 2 ^ 64).toNat <<< shift))) (shift + 4) rest

def fastHexToUint (str : Bytes) : ℕ :=
  if 16 < str.length then 2 ^ 64 - 1 else fastHexToUintLoop 0 0 str.reverse

/-- The value of a hexadecimal digit: its place among the sixteen, in either case. -/
def hexDigit (c : UInt8) : Option ℕ :=
  (ascii "0123456789abcdef").idxOf? c <|> (ascii "0123456789ABCDEF").idxOf? c

theorem digittoval_table (c : UInt8) :
    digittoval c = hexDigit c ∧ tableEntry c = (digittoval c).elim (-1) Int.ofNat := by
  have hall : ∀ i : Fin 256, digittoval ⟨⟨i⟩⟩ = hexDigit ⟨⟨i⟩⟩ ∧
      tableEntry ⟨⟨i⟩⟩ = (digittoval ⟨⟨i⟩⟩).elim (-1) Int.ofNat := by
    decide +kernel
  exact hall c.toFin

theorem hexValue_eq (str : Bytes) : hexValue str = if ∀ c ∈ str, (hexDigit c).isSome then
      some (Nat.ofDigits 16 (str.filterMap hexDigit).reverse) else none := by
  induction str using List.reverseRecOn with
  | nil => exact (if_pos fun _ hc => absurd hc not_mem_nil).symm
  | append_singleton str c ih =>
    have hone : ∀ d, hexDigit c = some d →
        Nat.ofDigits 16 ((str ++ [c]).filterMap hexDigit).reverse =
          Nat.ofDigits 16 (str.filterMap hexDigit).reverse * 16 + d := by
      intro d hd
      rw [filterMap_append, filterMap_cons_some hd, filterMap_nil, reverse_append,
        reverse_singleton, singleton_append, ofDigits_cons]
      omega
    have hmem : (∀ x ∈ str ++ [c], (hexDigit x).isSome) ↔
        (∀ x ∈ str, (hexDigit x).isSome) ∧ (hexDigit c).isSome := by
      simp [or_imp, forall_and]
    rw [hexValue_concat, ih, (digittoval_table c).1]
    cases hc : hexDigit c with
    | none =>
      simp only [hmem, hc, isSome_none, Bool.false_eq_true, and_false, if_false]
      split <;> rfl
    | some d =>
      simp only [hmem, hc, isSome_some, and_true, hone d hc]
      split <;> rfl

theorem fastHexToUintLoop_eq (str : Bytes) (ret shift v : ℕ)
    (h : safeHexToUintLoop ret shift str = some v) : fastHexToUintLoop ret shift str = v := by
  induction str generalizing ret shift with
  | nil => exact Option.some.inj h
  | cons c str ih =>
    cases hc : digittoval c with
    | none => simp [safeHexToUintLoop, hc] at h
    | some d =>
      have hd := digittoval_lt hc
      have hcast : (tableEntry c % 2 ^ 64).toNat = d := by
        rw [(digittoval_table c).2, hc]
        simp only [elim_some, Int.ofNat_eq_natCast]
        omega
      simp only [safeHexToUintLoop, hc] at h
      rw [fastHexToUintLoop, hcast]
      exact ih _ _ h

theorem hexValue_zeros (k : ℕ) (str : Bytes) :
    hexValue (List.replicate k 48 ++ str) = hexValue str := by
  have hzero : hexValue (List.replicate k 48) = some 0 := by
    induction k with
    | zero => rfl
    | succ k ih =>
      rw [replicate_succ', hexValue_concat, ih]
      rfl
  rw [hexValue, foldl_append]
  exact congrArg (str.foldl _) hzero

theorem safeHexToUint_exact (str : Bytes) :
    safeHexToUint str = (if str.length ≤ 16 ∧ ∀ c ∈ str, (hexDigit c).isSome then
        some (Nat.ofDigits 16 (str.filterMap hexDigit).reverse) else none) ∧
      (∀ v, safeHexToUint str = some v → v < 2 ^ 64 ∧ fastHexToUint str = v) ∧
      ∀ k, k + str.length ≤ 16 →
        safeHexToUint (List.replicate k 48 ++ str) = safeHexToUint str := by
  refine ⟨?_, fun v hv => ⟨safeHexToUint_lt hv, ?_⟩, fun k hk => ?_⟩
  · by_cases hlen : str.length ≤ 16
    · rw [safeHexToUint_eq hlen, hexValue_eq]
      simp only [hlen, true_and]
    · rw [safeHexToUint, if_pos (by omega), if_neg fun h => hlen h.1]
  · unfold safeHexToUint at hv
    unfold fastHexToUint
    split at hv
    · cases hv
    · next hlen =>
      rw [if_neg hlen]
      exact fastHexToUintLoop_eq _ 0 0 v hv
  · rw [safeHexToUint_eq (by simpa using hk), safeHexToUint_eq (by omega), hexValue_zeros]

end Ichor
