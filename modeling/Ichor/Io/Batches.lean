import Ichor.Io.FileIO

/-! The batches of reads that `readWholeFile` and `copyFile` submit. A file is cut into blocks of
`bufferSize` bytes; a batch is a run of consecutive blocks, and the handler of its last block
submits the next one. -/
namespace Ichor

namespace FileCall

variable (cfg : FileSettings) (file : Bytes)

/-- The reads of the blocks `i`, …, `j - 1`, of which at most the last one carries the flag. -/
inductive Batch (fd : ℤ) (flag : Bool) : ℕ → ℕ → List FileOp → Prop where
  | last (i : ℕ) : Batch fd flag i (i + 1) [.read fd (cfg.bufferSize * i) cfg.bufferSize flag]
  | more {i j : ℕ} {ops : List FileOp} : Batch fd flag (i + 1) j ops →
      Batch fd flag i j (.read fd (cfg.bufferSize * i) cfg.bufferSize false :: ops)

/-- The last block of the file is short, or it is the last one of a full batch: then the loop
flags it. -/
def Flagged (size : ℕ) : Prop :=
  ∀ blocks, size = cfg.bufferSize * blocks → cfg.maxSubmissions ∣ blocks

/-- A read transfers everything up to the end of the block or of the file, a write everything, or
it fails. -/
def Whole (r : ℤ) : FileOp → Prop
  | .read _ offset length _ => r < 0 ∨ r = (min length (file.length - offset) : ℕ)
  | .write _ data _ => r < 0 ∨ r = data.length
  | _ => True

/-- The kernel answers in the order of the submissions, and with whole transfers. -/
def InOrder (s : FileCall) : Act → Prop
  | .complete index r => index = 0 ∧ ∀ x ∈ s.pending.head?, Whole file r x
  | .stop => True

variable {cfg file}

variable {op : FileOperation} {s t : FileCall} {fd : ℤ} {i j size : ℕ} {ops : List FileOp}

variable {index : ℕ}

theorem act_complete {r : ℤ} (h : act cfg file op (.complete index r) s = some t) :
    s.terminated = false ∧ ∃ x, s.pending[index]? = some x ∧ answerable file index r x = true ∧
      t = handle cfg file op (s.answered index x r) x r := by
  simp only [act] at h
  split at h
  · cases h
  · rename_i hterminated
    split at h
    · cases h
    · rename_i x hx
      split at h
      · rename_i hanswer
        exact ⟨by simpa using hterminated, x, hx, hanswer, (Option.some.inj h).symm⟩
      · cases h

theorem act_stop (h : act cfg file op .stop s = some t) : t = { s with shouldStop := true } := by
  simp only [act] at h
  split at h
  · cases h
  · exact (Option.some.inj h).symm

theorem InOrder.of_head {x : FileOp} {r : ℤ} (hx : s.pending.head? = some x) (hr : Whole file r x) :
    InOrder file s (.complete 0 r) :=
  ⟨rfl, fun _ hy => Option.some.inj (hx.symm.trans hy) ▸ hr⟩

theorem InOrder.front {r : ℤ} (hg : InOrder file s (.complete index r))
    (h : act cfg file op (.complete index r) s = some t) :
    ∃ x rest, s.pending = x :: rest ∧ Whole file r x ∧ answerable file 0 r x = true ∧
      t = handle cfg file op (s.answered 0 x r) x r := by
  obtain ⟨rfl, hwhole⟩ := hg
  obtain ⟨-, x, hx, hanswer, rfl⟩ := act_complete h
  rw [← List.head?_eq_getElem?] at hx
  obtain ⟨rest, hrest⟩ := List.head?_eq_some_iff.mp hx
  exact ⟨x, rest, hrest, hwhole x hx, hanswer, rfl⟩

theorem Batch.lt {flag : Bool} (h : Batch cfg fd flag i j ops) : i < j := by
  induction h with
  | last i => exact Nat.lt_succ_self i
  | more _ ih => omega

theorem Batch.ne_nil {flag : Bool} (h : Batch cfg fd flag i j ops) : ops ≠ [] := by
  cases h <;> exact List.cons_ne_nil _ _

theorem Batch.length {flag : Bool} (h : Batch cfg fd flag i j ops) : ops.length = j - i := by
  induction h with
  | last i => exact (Nat.add_sub_cancel_left i 1).symm
  | more hrest ih =>
    have hlt := hrest.lt
    rw [List.length_cons, ih]
    omega

/-- What is left of a batch behind its block `i`. -/
def Rest (cfg : FileSettings) (fd : ℤ) (flag : Bool) (i j : ℕ) (last : Bool) (ops : List FileOp) :
    Prop :=
  (last = flag ∧ j = i + 1 ∧ ops = []) ∨ (last = false ∧ Batch cfg fd flag (i + 1) j ops)

theorem Batch.front {flag : Bool} {x : FileOp} (h : Batch cfg fd flag i j (x :: ops)) :
    ∃ last, x = .read fd (cfg.bufferSize * i) cfg.bufferSize last ∧
      Rest cfg fd flag i j last ops := by
  cases h with
  | last => exact ⟨flag, rfl, .inl ⟨rfl, rfl, rfl⟩⟩
  | more hrest => exact ⟨false, rfl, .inr ⟨rfl, hrest⟩⟩

variable {submissions offset : ℕ}

theorem submitReads_zero (h : s.sizeLeft = 0) : submitReads cfg submissions offset s = s := by
  cases submissions with
  | zero => rfl
  | succ n => simp only [submitReads, h, if_true]

theorem submitReads_succ (h : 0 < s.sizeLeft) : submitReads cfg (submissions + 1) offset s =
      submitReads cfg submissions (offset + cfg.bufferSize)
        { s.submit (.read s.fromFd offset cfg.bufferSize
            (decide (s.sizeLeft < cfg.bufferSize) || decide (submissions = 0))) with
          sizeLeft := s.sizeLeft - cfg.bufferSize } := by
  have hne : s.sizeLeft ≠ 0 := by omega
  simp only [submitReads, if_neg hne]

/-- The call after the loop: a batch from block `i` on is pending, which ends where the submissions
were used up or the file ends. Only a file that is not `Flagged` ends without the flag. -/
def Submitted (cfg : FileSettings) (size i : ℕ) (s t : FileCall) : Prop :=
  ∃ ops j flag, Batch cfg s.fromFd flag i j ops ∧
    (cfg.maxSubmissions ∣ j ∨ size ≤ cfg.bufferSize * j) ∧
    (flag = false → size = cfg.bufferSize * j ∧ ¬Flagged cfg size) ∧
    (∀ k < j, cfg.bufferSize * k < size) ∧
    t = { s with pending := s.pending ++ ops, sizeLeft := size - cfg.bufferSize * j }

theorem block_lt (hi : cfg.bufferSize * i < size) : ∀ k < i + 1, cfg.bufferSize * k < size := by
  intro k hk
  have hmul : cfg.bufferSize * k ≤ cfg.bufferSize * i := Nat.mul_le_mul_left _ (by omega)
  omega

theorem submitted_last {flag : Bool} (hi : cfg.bufferSize * i < size)
    (hend : cfg.maxSubmissions ∣ i + 1 ∨ size ≤ cfg.bufferSize * (i + 1))
    (hflag : flag = false → size = cfg.bufferSize * (i + 1) ∧ ¬Flagged cfg size) :
    Submitted cfg size i s
      { s.submit (.read s.fromFd (cfg.bufferSize * i) cfg.bufferSize flag) with
        sizeLeft := size - cfg.bufferSize * (i + 1) } :=
  ⟨_, i + 1, flag, .last i, hend, hflag, block_lt hi, rfl⟩

theorem submitted_more (h : Submitted cfg size (i + 1)
      { s.submit (.read s.fromFd (cfg.bufferSize * i) cfg.bufferSize false) with
        sizeLeft := size - cfg.bufferSize * (i + 1) } t) : Submitted cfg size i s t := by
  obtain ⟨ops, j, flag, hbatch, hend, hflag, hinside, rfl⟩ := h
  refine ⟨_, j, flag, .more hbatch, hend, hflag, hinside, ?_⟩
  simp only [submit, List.append_assoc, List.cons_append, List.nil_append]

/-- The last block of a file whose size is `Flagged` is not left without its flag by a batch with
room for more. -/
theorem Flagged.ne (hsize : Flagged cfg size) {n : ℕ} (hn : 0 < n)
    (hmax : n < cfg.maxSubmissions) (hpos : cfg.maxSubmissions ∣ i + (n + 1)) :
    size ≠ cfg.bufferSize * (i + 1) := by
  intro heq
  have hdvd : cfg.maxSubmissions ∣ i + 1 := hsize (i + 1) heq
  have hsum : i + (n + 1) = (i + 1) + n := by omega
  rw [hsum] at hpos
  have hle := Nat.le_of_dvd hn ((Nat.dvd_add_right hdvd).mp hpos)
  omega

/-- What the loop submits from block `i` on. The flag is computed from the bytes and the
submissions that are left; a last block that fills its buffer gets it from the submissions only. -/
theorem submitReads_batch (size : ℕ) {n : ℕ}
    (hleft : s.sizeLeft = size - cfg.bufferSize * i) (hi : cfg.bufferSize * i < size)
    (hn : 0 < n) (hmax : n ≤ cfg.maxSubmissions) (hpos : cfg.maxSubmissions ∣ i + n) :
    Submitted cfg size i s (submitReads cfg n (cfg.bufferSize * i) s) := by
  induction n generalizing i s with
  | zero => omega
  | succ n ih =>
    have hnext : cfg.bufferSize * (i + 1) = cfg.bufferSize * i + cfg.bufferSize :=
      Nat.mul_succ cfg.bufferSize i
    have hrest : size - cfg.bufferSize * i - cfg.bufferSize =
        size - cfg.bufferSize * (i + 1) := by omega
    rw [submitReads_succ (by omega), hleft, hrest, ← hnext]
    by_cases hzero : n = 0
    · subst hzero
      simp only [decide_true, Bool.or_true]
      exact submitted_last hi (.inl hpos) fun hflag => absurd hflag.symm Bool.false_ne_true
    · by_cases hshort : size - cfg.bufferSize * i < cfg.bufferSize
      · have hdone : size - cfg.bufferSize * (i + 1) = 0 := by omega
        rw [submitReads_zero hdone]
        simp only [hshort, decide_true, Bool.true_or]
        exact submitted_last hi (.inr (by omega)) fun hflag => absurd hflag.symm Bool.false_ne_true
      · simp only [hshort, hzero, decide_false, Bool.or_false]
        by_cases hexact : size = cfg.bufferSize * (i + 1)
        · have hdone : size - cfg.bufferSize * (i + 1) = 0 := by omega
          rw [submitReads_zero hdone]
          refine submitted_last hi (.inr (by omega)) fun _ => ⟨hexact, fun hsize => ?_⟩
          exact hsize.ne (by omega : 0 < n) (by omega) hpos hexact
        · have hsum : i + 1 + n = i + (n + 1) := by omega
          exact submitted_more (ih rfl (by omega) (by omega) (by omega) (hsum ▸ hpos))

theorem Flagged.flag {flag : Bool} (hsize : Flagged cfg size)
    (h : flag = false → size = cfg.bufferSize * j ∧ ¬Flagged cfg size) : flag = true := by
  cases flag with
  | true => rfl
  | false => exact absurd hsize (h rfl).2

end FileCall

end Ichor
