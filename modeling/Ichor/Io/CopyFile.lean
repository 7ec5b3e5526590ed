import Ichor.Io.ReadWholeFile

/-! `copyFile` over whole runs. With answers in the order of the submissions the ring holds either
the rest of a batch with the writes of its first blocks behind it, or these writes with the next
batch behind them. -/
namespace Ichor
open List Nat

namespace FileCall

section
variable (cfg : FileSettings) (file : Bytes)

/-- The write of block `k`, which is the last one if the file ends in it. -/
def blockWrite (fd : ℤ) (k : ℕ) : FileOp :=
  .write fd ((file.drop (cfg.bufferSize * k)).take cfg.bufferSize)
    (decide (file.length ≤ cfg.bufferSize * (k + 1)))

/-- The writes of the blocks `w`, …, `r - 1`. -/
def blockWrites (fd : ℤ) (w r : ℕ) : List FileOp :=
  (List.range' w (r - w)).map (blockWrite cfg file fd)

/-- No write is pending. -/
def NoWritePending (s : FileCall) : Prop := ∀ fd data last, .write fd data last ∉ s.pending

/-- If reads are pending, then the last one of the file is going to be flagged. -/
def Ends (s : FileCall) : Prop :=
  (∃ fd offset length last, .read fd offset length last ∈ s.pending) → Flagged cfg file.length

/-- The kernel answers in order and with whole transfers. A read fails and the service is stopped
only while no write is pending, and a transfer fails or the service is stopped during the reads only
if the last read is flagged. -/
def CopyOrder (s : FileCall) : Act → Prop
  | .complete index r => InOrder file s (.complete index r) ∧
      (r < 0 → Ends cfg file s ∧
        ((∃ fd offset length last, .read fd offset length last ∈ s.pending.head?) → NoWritePending s))
  | .stop => Ends cfg file s ∧ NoWritePending s

/-- `w` blocks are written, `r` are read and the reads of `j` are submitted. -/
structure Copying (s : FileCall) (w r j : ℕ) (flag : Bool) : Prop where
  live : s.Live
  running : s.shouldStop = false
  res : 0 ≤ s.res
  fileSize : s.fileSize = file.length
  sizeLeft : s.sizeLeft = file.length - cfg.bufferSize * j
  aligned : cfg.maxSubmissions ∣ j ∨ file.length ≤ cfg.bufferSize * j
  flagged : flag = false → file.length = cfg.bufferSize * j ∧ ¬Flagged cfg file.length
  inside : ∀ k < j, cfg.bufferSize * k < file.length
  written_le : w ≤ r
  target : s.target = file.take (cfg.bufferSize * w)
  untroubled : s.Untroubled

/-- A transfer whose handler has captured the flag. -/
def Transfer (flag : Bool) : FileOp → Prop
  | .read _ _ _ last => last = flag
  | .write _ _ last => last = flag
  | _ => False

/-- Transfers of which exactly the last one is flagged. -/
inductive Drains : List FileOp → Prop where
  | last {x : FileOp} : Transfer true x → Drains [x]
  | more {x : FileOp} {ops : List FileOp} : Transfer false x → Drains ops → Drains (x :: ops)

/-- A bound for the answers that a call gets: two opens, the size, and two for each block. -/
def copyBound : ℕ := 2 * (file.length / cfg.bufferSize) + 5

/-- A copy that is over because of a stop or an error, but has operations in the ring. -/
structure Draining (s : FileCall) : Prop where
  live : s.Live
  bad : s.shouldStop = true ∨ s.res < 0
  drains : Drains s.pending
  count : s.answers.length + s.pending.length ≤ copyBound cfg file

/-- The reads from block `r` on that are in the ring behind the writes: a batch, or none if all
blocks are read. -/
def Behind (fd : ℤ) (flag : Bool) (r j : ℕ) (ops : List FileOp) : Prop :=
  Batch cfg fd flag r j ops ∨ (r = j ∧ ops = [] ∧ file.length ≤ cfg.bufferSize * j)

/-- Where the coroutine is suspended. -/
inductive CopyPhase (s : FileCall) : Prop where
  | opening : s.Live → s.pending = [.openat .readOnly, .openat .truncate] → s.answers = [] →
      CopyPhase s
  | linked : s.Live → s.pending = [.openat .truncate] →
      s.answers = [(.openat .readOnly, s.fromFd)] → CopyPhase s
  | sizing (fd : ℤ) : s.Live → s.pending = [.statx fd] → s.answers.length = 2 → s.Untroubled →
      s.target = [] → CopyPhase s
  | reading (w r j : ℕ) (flag : Bool) (ops : List FileOp) : Copying cfg file s w r j flag →
      Batch cfg s.fromFd flag r j ops → s.pending = ops ++ blockWrites cfg file s.toFd w r →
      s.answers.length + s.pending.length = r + j + 3 → CopyPhase s
  | writing (w r j : ℕ) (flag : Bool) (ops : List FileOp) : Copying cfg file s w r j flag →
      w < r → Behind cfg file s.fromFd flag r j ops →
      s.pending = blockWrites cfg file s.toFd w r ++ ops →
      s.answers.length + s.pending.length = r + j + 3 → CopyPhase s
  | draining : Draining cfg file s → CopyPhase s
  | returned : Returned s (fun _ => s.target = file) → CopyPhase s

end

section
variable {cfg : FileSettings} {file : Bytes} {s : FileCall}

/-! ## The lists of writes -/

theorem blockWrites_self (fd : ℤ) (w : ℕ) : blockWrites cfg file fd w w = [] := by
  simp [blockWrites]

variable {r w j : ℕ} {fd a : ℤ} {ops : List FileOp} {x : FileOp} {flag last : Bool}

theorem blockWrites_cons (fd : ℤ) (h : w < r) : blockWrites cfg file fd w r =
      blockWrite cfg file fd w :: blockWrites cfg file fd (w + 1) r := by
  have hlength : r - w = r - (w + 1) + 1 := by omega
  rw [blockWrites, hlength, range'_succ, map_cons]
  rfl

theorem blockWrites_snoc (fd : ℤ) (h : w ≤ r) : blockWrites cfg file fd w (r + 1) =
      blockWrites cfg file fd w r ++ [blockWrite cfg file fd r] := by
  have hlength : r + 1 - w = r - w + 1 := by omega
  have hlast : w + 1 * (r - w) = r := by omega
  rw [blockWrites, hlength, range'_concat, map_append, hlast]
  rfl

/-! ## Batches and writes that are only waited for -/

theorem Batch.drains {i : ℕ} (h : Batch cfg fd true i j ops) : Drains ops := by
  induction h with
  | last i => exact .last rfl
  | more _ ih => exact .more rfl ih

theorem drains_blockWrites_append (fd : ℤ) (hops : Drains ops)
    (hwr : w ≤ r) (hinside : ∀ k < r, cfg.bufferSize * (k + 1) < file.length) :
    Drains (blockWrites cfg file fd w r ++ ops) := by
  induction r, hwr using le_induction generalizing ops with
  | base =>
    rw [blockWrites_self]
    exact hops
  | succ r hwr ih =>
    have hlt := hinside r (lt_succ_self r)
    have hflag : Transfer false (blockWrite cfg file fd r) := by
      show decide _ = false
      exact decide_eq_false (by omega)
    rw [blockWrites_snoc fd hwr, append_assoc]
    exact ih (.more hflag hops) fun k hk => hinside k (by omega)

theorem drains_blockWrites (fd : ℤ) (hwr : w < r)
    (hinside : ∀ k < r, cfg.bufferSize * k < file.length)
    (hend : file.length ≤ cfg.bufferSize * r) : Drains (blockWrites cfg file fd w r) := by
  obtain ⟨k, rfl⟩ : ∃ k, r = k + 1 := ⟨r - 1, by omega⟩
  have hflag : Transfer true (blockWrite cfg file fd k) := decide_eq_true hend
  rw [blockWrites_snoc fd (by omega)]
  exact drains_blockWrites_append fd (.last hflag) (by omega) fun i hi => hinside (i + 1) (by omega)

theorem Drains.front (h : Drains (x :: ops)) :
    (Transfer true x ∧ ops = []) ∨ (Transfer false x ∧ Drains ops) := by
  cases h with
  | last hx => exact .inl ⟨hx, rfl⟩
  | more hx hops => exact .inr ⟨hx, hops⟩

/-! ## The handlers after a stop or an error -/

theorem returned_afterCopy (hlive : s.Live) (hpending : s.pending = [])
    (hgood : s.shouldStop = false → 0 ≤ s.res → s.target = file ∧ s.Untroubled) :
    CopyPhase cfg file s.afterCopy := by
  have htarget : s.afterCopy.target = s.target := by
    unfold afterCopy checked
    repeat' split
    all_goals rfl
  refine .returned ?_
  rw [htarget]
  exact returned_checked hlive hpending hgood

/-- The first error is kept. -/
def failed (s : FileCall) (r : ℤ) : FileCall :=
  if s.shouldStop || decide (s.res < 0) then s else { s with res := r }

section
variable {r : ℤ} (hbad : (s.shouldStop = true ∨ s.res < 0) ∨ r < 0)
include hbad

theorem failed_eq : ∃ res, s.failed r = { s with res := res } ∧ (s.shouldStop = true ∨ res < 0) := by
  unfold failed
  split
  · rename_i hcond
    exact ⟨s.res, rfl, by simpa using hcond⟩
  · rename_i hcond
    exact ⟨r, rfl, .inr (hbad.resolve_left (by simpa using hcond))⟩

theorem handle_failed (hx : Transfer flag x) (hfinished : s.finished = []) :
    handle cfg file .copyFile s x r = if flag then (s.failed r).afterCopy else s.failed r := by
  have hr (hcond : ¬(s.shouldStop || decide (s.res < 0)) = true) : r < 0 :=
    hbad.resolve_left (by simpa using hcond)
  cases x with
  | read fd offset length last =>
    obtain rfl : last = flag := hx
    simp only [handle, copyReadHandler, hfinished, ne_eq, not_true_eq_false, if_false, failed]
    split
    · rfl
    · next hcond => rw [if_pos (hr hcond)]
  | write fd data last =>
    obtain rfl : last = flag := hx
    simp only [handle, copyWriteHandler, hfinished, ne_eq, not_true_eq_false, if_false, failed]
    split
    · rfl
    · next hcond => rw [if_pos (hr hcond)]
  | openat | statx | unlinkat | close => exact absurd hx id

end

theorem pending_answered (h : s.pending = x :: ops) (r : ℤ) : (s.answered 0 x r).pending = ops := by
  simp [answered, h]

theorem count_answered (h : s.pending = x :: ops) (r : ℤ) :
    (s.answered 0 x r).answers.length + ops.length = s.answers.length + s.pending.length := by
  simp only [answered, h, length_append, length_cons, length_nil]
  omega

/-- An answer that is not looked at, or that ends the copy. -/
theorem Drains.answer {r : ℤ} (hdrains : Drains s.pending) (hlive : s.Live)
    (hcount : s.answers.length + s.pending.length ≤ copyBound cfg file)
    (hpending : s.pending = x :: ops) (hbad : (s.shouldStop = true ∨ s.res < 0) ∨ r < 0) :
    CopyPhase cfg file (handle cfg file .copyFile (s.answered 0 x r) x r) := by
  have hrest := pending_answered hpending r
  have hsame := count_answered hpending r
  obtain ⟨res, heq, hends⟩ := failed_eq (s := s.answered 0 x r) hbad
  rw [hpending] at hdrains
  rcases hdrains.front with ⟨hx, rfl⟩ | ⟨hx, hmore⟩
  · rw [handle_failed (s := s.answered 0 x r) hbad hx hlive.unfinished, if_pos rfl, heq]
    refine returned_afterCopy { hlive with } ?_ fun hrun hres => ?_
    · exact hrest
    rcases hends with hstop | hneg
    · exact absurd (hrun.symm.trans hstop) Bool.false_ne_true
    · exact absurd hres (not_le.mpr hneg)
  · rw [handle_failed (s := s.answered 0 x r) hbad hx hlive.unfinished,
      if_neg Bool.false_ne_true, heq]
    refine .draining ⟨{ hlive with }, hends, ?_, ?_⟩
    · simp only [hrest]
      exact hmore
    · simp only [hrest]
      omega

/-! ## Whole transfers -/

theorem block_take {k n : ℕ} (h : n = min cfg.bufferSize (file.length - cfg.bufferSize * k)) :
    (file.drop (cfg.bufferSize * k)).take n =
      (file.drop (cfg.bufferSize * k)).take cfg.bufferSize := by
  rw [h, ← length_drop, ← take_eq_take_min]

theorem copyReadHandler_block {k : ℕ} {r : ℤ} (hfinished : s.finished = [])
    (hstop : s.shouldStop = false) (hres : 0 ≤ s.res) (hsize : s.fileSize = file.length)
    (hk : cfg.bufferSize * k < file.length)
    (hr : r = (min cfg.bufferSize (file.length - cfg.bufferSize * k) : ℕ)) :
    s.copyReadHandler cfg file fd (cfg.bufferSize * k) last r =
      if cfg.bufferSize * (k + 1) < file.length ∧ last = true then
        submitReads cfg cfg.maxSubmissions (cfg.bufferSize * (k + 1))
          (s.submit (blockWrite cfg file s.toFd k))
      else s.submit (blockWrite cfg file s.toFd k) := by
  have hcond := unchecked hstop hres
  have hneg : ¬(r < 0) := by omega
  have hnext : cfg.bufferSize * (k + 1) = cfg.bufferSize * k + cfg.bufferSize :=
    mul_succ cfg.bufferSize k
  have hbytes : r.toNat = min cfg.bufferSize (file.length - cfg.bufferSize * k) := by omega
  have hflag : decide (cfg.bufferSize * k + r.toNat = s.fileSize) =
      decide (file.length ≤ cfg.bufferSize * (k + 1)) := by
    rw [hsize, hbytes]
    exact decide_eq_decide.mpr (by omega)
  simp only [copyReadHandler, hfinished, ne_eq, not_true_eq_false, if_false, hcond, hneg,
    Bool.false_eq_true, hflag, block_take hbytes]
  by_cases hmore : cfg.bufferSize * (k + 1) < file.length
  · have hlast : decide (file.length ≤ cfg.bufferSize * (k + 1)) = false :=
      decide_eq_false (by omega)
    have hwhole : r.toNat = cfg.bufferSize := by omega
    simp only [hlast, hwhole, lt_irrefl, decide_false, Bool.and_false, if_false, Bool.not_false,
      Bool.true_and, hmore, true_and, Bool.false_eq_true, blockWrite, ← hnext]
  · have hlast : decide (file.length ≤ cfg.bufferSize * (k + 1)) = true :=
      decide_eq_true (by omega)
    simp only [hlast, Bool.not_true, Bool.false_and, if_false, hmore, false_and, Bool.false_eq_true,
      blockWrite]

theorem copyWriteHandler_whole {r : ℤ} (hfinished : s.finished = [])
    (hstop : s.shouldStop = false) (hres : 0 ≤ s.res) (hr : 0 ≤ r) :
    s.copyWriteHandler last r = if last then s.afterCopy else s := by
  have hcond := unchecked hstop hres
  have hneg : ¬(r < 0) := by omega
  simp only [copyWriteHandler, hfinished, ne_eq, not_true_eq_false, if_false, hcond, hneg,
    Bool.false_eq_true]

theorem Behind.le (h : Behind cfg file fd flag r j ops) : r ≤ j := by
  rcases h with hbatch | ⟨rfl, -, -⟩
  · exact le_of_lt hbatch.lt
  · exact le_refl _

theorem Copying.read_le (h : Copying cfg file s w r j flag)
    (hrj : r ≤ j) : r + j + 3 ≤ copyBound cfg file := by
  have hle : j ≤ file.length / cfg.bufferSize + 1 := by
    rcases Nat.eq_zero_or_pos j with rfl | hpos
    · exact Nat.zero_le _
    · have hblock := block_le_div (h.inside (j - 1) (by omega))
      omega
  unfold copyBound
  omega

theorem Copying.answered (h : Copying cfg file s w r j flag) (ha : 0 ≤ a) {w' : ℕ} (hw : w' ≤ r)
    (htarget : written s.target a x = file.take (cfg.bufferSize * w')) :
    Copying cfg file (s.answered 0 x a) w' r j flag :=
  { h with
    live := { h.live with }
    written_le := hw
    target := htarget
    untroubled := untroubled_answered h.untroubled ha }

/-- A block was read and its write submitted: the batch goes on, or the next one is submitted, or
only writes are left. -/
theorem copy_block_read
    (h : Copying cfg file s w (r + 1) j flag) (hrest : Rest cfg s.fromFd flag r j last ops)
    (hpending : s.pending = ops ++ blockWrites cfg file s.toFd w (r + 1)) (hw : w ≤ r)
    (hcount : s.answers.length + s.pending.length = (r + 1) + j + 3) : CopyPhase cfg file
      (if cfg.bufferSize * (r + 1) < file.length ∧ last = true then
        submitReads cfg cfg.maxSubmissions (cfg.bufferSize * (r + 1)) s
      else s) := by
  rcases hrest with ⟨rfl, rfl, rfl⟩ | ⟨rfl, hbatch⟩
  · rw [nil_append] at hpending
    by_cases hmore : cfg.bufferSize * (r + 1) < file.length
    · have hlast : last = true := by
        cases last with
        | true => rfl
        | false =>
          have heq := (h.flagged rfl).1
          omega
      have hdvd : cfg.maxSubmissions ∣ r + 1 := by
        rcases h.aligned with hdvd | hle
        · exact hdvd
        · omega
      obtain ⟨ops, j, flag, hbatch, hend, hflag, hinside, heq⟩ := submitReads_batch file.length
        h.sizeLeft hmore cfg.maxSubmissions_pos (le_refl _)
        (dvd_add hdvd (dvd_refl _))
      rw [if_pos ⟨hmore, hlast⟩, heq]
      refine .writing w (r + 1) j flag ops
        { h with
          live := { h.live with }
          sizeLeft := rfl
          aligned := hend
          flagged := hflag
          inside := hinside } (by omega) (.inl hbatch) ?_ ?_
      · simp only [hpending]
      · have hlength := hbatch.length
        have hlt := hbatch.lt
        simp only [length_append]
        omega
    · rw [if_neg (fun hboth => hmore hboth.1)]
      refine .writing w (r + 1) (r + 1) last [] h (by omega) (.inr ⟨rfl, rfl, by omega⟩) ?_ hcount
      rw [hpending, append_nil]
  · rw [if_neg (fun hboth => Bool.false_ne_true hboth.2)]
    exact .reading w (r + 1) j flag ops h hbatch hpending hcount

theorem copy_reads (h : Copying cfg file s w r j flag)
    (hbatch : Batch cfg s.fromFd flag r j (x :: ops))
    (hpending : s.pending = x :: (ops ++ blockWrites cfg file s.toFd w r))
    (hcount : s.answers.length + s.pending.length = r + j + 3) (ha : 0 ≤ a)
    (hwhole : Whole file a x) :
    CopyPhase cfg file (handle cfg file .copyFile (s.answered 0 x a) x a) := by
  have hlt := hbatch.lt
  obtain ⟨last, rfl, hrest⟩ := hbatch.front
  have hr : cfg.bufferSize * r < file.length := h.inside r hlt
  have hbytes : a = (min cfg.bufferSize (file.length - cfg.bufferSize * r) : ℕ) := by
    rcases hwhole with hneg | hbytes
    · omega
    · exact hbytes
  have hold := pending_answered hpending a
  have hsame := count_answered hpending a
  have hsnoc : blockWrites cfg file s.toFd w (r + 1) = _ := blockWrites_snoc s.toFd h.written_le
  have hnew : Copying cfg file
      (s.answered 0 (.read s.fromFd (cfg.bufferSize * r) cfg.bufferSize last) a) w r j flag :=
    h.answered ha h.written_le h.target
  simp only [handle]
  rw [copyReadHandler_block hnew.live.unfinished hnew.running hnew.res hnew.fileSize hr hbytes]
  refine copy_block_read
    { hnew with
      live := { h.live with }
      written_le := le_succ_of_le h.written_le } hrest ?_ h.written_le ?_
  · -- the block's write goes behind everything that is pending
    show (s.answered 0 _ a).pending ++ [blockWrite cfg file s.toFd r] =
      ops ++ blockWrites cfg file s.toFd w (r + 1)
    rw [hold, hsnoc, append_assoc]
  · show (s.answered 0 _ a).answers.length +
      ((s.answered 0 _ a).pending ++ [blockWrite cfg file s.toFd r]).length = _
    rw [hold, length_append, length_singleton]
    omega

theorem copy_writes (h : Copying cfg file s w r j flag)
    (hwr : w < r) (hbehind : Behind cfg file s.fromFd flag r j ops)
    (hpending : s.pending = blockWrites cfg file s.toFd w r ++ ops)
    (hcount : s.answers.length + s.pending.length = r + j + 3) (ha : 0 ≤ a)
    (hwhole : Whole file a (blockWrite cfg file s.toFd w)) :
    CopyPhase cfg file (handle cfg file .copyFile
      (s.answered 0 (blockWrite cfg file s.toFd w) a) (blockWrite cfg file s.toFd w) a) := by
  rw [blockWrites_cons s.toFd hwr, cons_append] at hpending
  have hold := pending_answered hpending a
  have hsame := count_answered hpending a
  have hbytes : a = ((file.drop (cfg.bufferSize * w)).take cfg.bufferSize).length := by
    rcases hwhole with hneg | hbytes
    · omega
    · exact hbytes
  have htarget : written s.target a (blockWrite cfg file s.toFd w) =
      file.take (cfg.bufferSize * (w + 1)) := by
    show s.target ++ ((file.drop (cfg.bufferSize * w)).take cfg.bufferSize).take a.toNat = _
    rw [hbytes, Int.toNat_natCast, take_length, take_block h.target, mul_succ]
  have hnew := h.answered ha (succ_le_of_lt hwr) htarget
  generalize hu : s.answered 0 (blockWrite cfg file s.toFd w) a = u at hold hsame hnew
  have hfrom : s.fromFd = u.fromFd := hu ▸ rfl
  have hto : s.toFd = u.toFd := hu ▸ rfl
  simp only [blockWrite, handle]
  rw [copyWriteHandler_whole hnew.live.unfinished hnew.running hnew.res ha]
  rw [hfrom] at hbehind
  rw [hto] at hold hsame
  by_cases hend : file.length ≤ cfg.bufferSize * (w + 1)
  · -- nothing can be behind the last block of the file
    have hr : r = w + 1 := by
      by_contra hne
      have hrj := hbehind.le
      have hlt := h.inside (w + 1) (by omega)
      omega
    subst hr
    have hops : ops = [] := by
      rcases hbehind with hbatch | ⟨-, hops, -⟩
      · have hlt := h.inside (w + 1) hbatch.lt
        omega
      · exact hops
    rw [hops, blockWrites_self] at hold
    rw [decide_eq_true hend, if_pos rfl]
    refine returned_afterCopy hnew.live hold fun _ _ => ⟨?_, hnew.untroubled⟩
    rw [hnew.target]
    exact take_of_length_le hend
  · rw [decide_eq_false hend, if_neg Bool.false_ne_true]
    have hcount' : u.answers.length + u.pending.length = r + j + 3 := by
      rw [hold]
      omega
    by_cases hlast : w + 1 < r
    · exact .writing (w + 1) r j flag ops hnew hlast hbehind hold hcount'
    · have hr : r = w + 1 := by omega
      subst hr
      rcases hbehind with hbatch | ⟨rfl, -, hle⟩
      · refine .reading (w + 1) (w + 1) j flag ops hnew hbatch ?_ hcount'
        rw [hold, blockWrites_self, nil_append, append_nil]
      · exact absurd hle hend

/-! ## Stops and errors -/

theorem Batch.read_mem {i : ℕ}
    (h : Batch cfg fd flag i j ops) : ∃ fd offset length last, .read fd offset length last ∈ ops := by
  cases h with
  | last | more _ => exact ⟨_, _, _, _, mem_cons_self⟩

theorem Copying.batch_drains (h : Copying cfg file s w r j flag)
    (hbatch : Batch cfg s.fromFd flag r j ops) (hsub : ops ⊆ s.pending)
    (hends : Ends cfg file s) : Drains ops := by
  obtain ⟨fd, offset, length, last, hmem⟩ := hbatch.read_mem
  have hsize := hends ⟨fd, offset, length, last, hsub hmem⟩
  have hflag := hsize.flag h.flagged
  subst hflag
  exact hbatch.drains

theorem NoWritePending.blockWrite_not_mem (h : NoWritePending s) (fd : ℤ) (k : ℕ) :
    blockWrite cfg file fd k ∉ s.pending :=
  h _ _ _

theorem Copying.reading_drains (h : Copying cfg file s w r j flag)
    (hbatch : Batch cfg s.fromFd flag r j ops)
    (hpending : s.pending = ops ++ blockWrites cfg file s.toFd w r) (hends : Ends cfg file s)
    (hquiet : NoWritePending s) : Drains s.pending := by
  have hw : w = r := by
    by_contra hne
    have hlt : w < r := lt_of_le_of_ne h.written_le hne
    have hmem : blockWrite cfg file s.toFd w ∈ s.pending := by
      rw [hpending, blockWrites_cons s.toFd hlt]
      exact mem_append_right _ mem_cons_self
    exact hquiet.blockWrite_not_mem s.toFd w hmem
  subst hw
  rw [blockWrites_self, append_nil] at hpending
  rw [hpending]
  exact h.batch_drains hbatch (fun x hx => hpending ▸ hx) hends

theorem Copying.writing_drains (h : Copying cfg file s w r j flag)
    (hwr : w < r) (hbehind : Behind cfg file s.fromFd flag r j ops)
    (hpending : s.pending = blockWrites cfg file s.toFd w r ++ ops) (hends : Ends cfg file s) :
    Drains s.pending := by
  rcases hbehind with hbatch | ⟨rfl, rfl, hend⟩
  · have hops := h.batch_drains hbatch (fun x hx => hpending ▸ mem_append_right _ hx) hends
    have hlt := hbatch.lt
    rw [hpending]
    exact drains_blockWrites_append s.toFd hops h.written_le fun k hk => h.inside (k + 1) (by omega)
  · rw [hpending, append_nil]
    exact drains_blockWrites s.toFd hwr h.inside hend

/-! ## The operations before the first read -/

theorem copy_afterOpens (hlive : s.Live) (hpending : s.pending = [])
    (hanswers : s.answers = [(.openat .readOnly, s.fromFd), (.openat .truncate, s.toFd)])
    (htarget : 0 ≤ s.toFd → s.target = []) : CopyPhase cfg file s.afterOpens := by
  refine checked_cases (P := CopyPhase cfg file)
    (fun _ => .returned (returned_error hlive hpending _)) fun _ hfrom => ?_
  split
  · exact .returned (returned_error hlive hpending _)
  · rename_i hneg
    have hto : 0 ≤ s.toFd := by omega
    refine .sizing s.fromFd { hlive with } ?_ ?_ ?_ (htarget hto)
    · simp only [submit, hpending, nil_append]
    · simp only [submit, hanswers, length_cons, length_nil]
    · intro a ha
      simp only [submit, hanswers, mem_cons, not_mem_nil, or_false] at ha
      rcases ha with rfl | rfl
      · exact hfrom
      · exact hto

theorem copy_afterSize (hlive : s.Live) (hpending : s.pending = [])
    (hcount : s.answers.length = 3) (hgood : 0 ≤ s.res → s.Untroubled) (htarget : s.target = []) :
    CopyPhase cfg file (s.afterSizeOfSource cfg file) := by
  refine checked_cases (P := CopyPhase cfg file)
    (fun _ => .returned (returned_error hlive hpending _)) fun hrun hres => ?_
  split
  · rename_i hempty
    refine .returned (returned_ok hlive hpending ?_ (hgood hres))
    exact htarget.trans (length_eq_zero_iff.mp hempty).symm
  · rename_i hne
    obtain ⟨ops, j, flag, hbatch, hend, hflag, hinside, heq⟩ :=
      submitReads_batch file.length (i := 0)
        (s := { s with res := 0, fileSize := file.length, sizeLeft := file.length })
        (by simp) (by omega) cfg.maxSubmissions_pos (le_refl _) (by simp)
    have hlength := hbatch.length
    have hlt := hbatch.lt
    rw [mul_zero] at heq
    rw [heq]
    refine .reading 0 0 j flag ops
      { live := { hlive with }
        running := hrun
        res := Int.le_refl 0
        fileSize := rfl
        sizeLeft := rfl
        aligned := hend
        flagged := hflag
        inside := hinside
        written_le := le_refl 0
        target := by simpa using htarget
        untroubled := hgood hres } hbatch ?_ ?_
    · simp only [hpending, blockWrites_self, nil_append, append_nil]
    · simp only [hpending, hcount, nil_append]
      omega

/-! ## Whole runs -/

theorem copyPhase_start (stopped : Bool) (old : Bytes) :
    CopyPhase cfg file (start .copyFile stopped old) := by
  cases stopped with
  | true => exact .returned (returned_error ⟨rfl, rfl, rfl⟩ rfl _)
  | false => exact .opening ⟨rfl, rfl, rfl⟩ rfl rfl

theorem CopyPhase.stop (h : CopyPhase cfg file s) (hends : Ends cfg file s) (hquiet : NoWritePending s) :
    CopyPhase cfg file { s with shouldStop := true } := by
  cases h with
  | opening hlive hpending hanswers => exact .opening { hlive with } hpending hanswers
  | linked hlive hpending hanswers => exact .linked { hlive with } hpending hanswers
  | sizing fd hlive hpending hcount hgood htarget =>
    exact .sizing fd { hlive with } hpending hcount hgood htarget
  | reading w r j flag ops h hbatch hpending hcount =>
    have hbound := h.read_le (le_of_lt hbatch.lt)
    exact .draining ⟨{ h.live with }, .inl rfl, h.reading_drains hbatch hpending hends hquiet,
      hcount ▸ hbound⟩
  | writing w r j flag ops h hwr hbehind hpending hcount =>
    have hmem : blockWrite cfg file s.toFd w ∈ s.pending := by
      rw [hpending, blockWrites_cons s.toFd hwr]
      exact mem_cons_self
    exact absurd hmem (hquiet.blockWrite_not_mem s.toFd w)
  | draining h => exact .draining { h with live := { h.live with }, bad := .inl rfl }
  | returned h => exact .returned { h with }

theorem CopyPhase.step (h : CopyPhase cfg file s) {a : Act} (ha : CopyOrder cfg file s a)
    {t : FileCall} (ht : act cfg file .copyFile a s = some t) : CopyPhase cfg file t := by
  cases a with
  | stop =>
    rw [act_stop ht]
    exact h.stop ha.1 ha.2
  | complete index r =>
    obtain ⟨horder, hfails⟩ := ha
    obtain ⟨x, rest, hfront, hwhole, -, rfl⟩ := horder.front ht
    cases h with
    | opening hlive hpending hanswers =>
      obtain ⟨rfl, rfl⟩ := List.cons.inj (hfront.symm.trans hpending)
      refine .linked { hlive with } (pending_answered hpending r) ?_
      show s.answers ++ _ = _
      rw [hanswers]
      rfl
    | linked hlive hpending hanswers =>
      obtain ⟨rfl, rfl⟩ := List.cons.inj (hfront.symm.trans hpending)
      refine copy_afterOpens { hlive with } (pending_answered hpending r) ?_ fun hr => ?_
      · show s.answers ++ _ = _
        rw [hanswers]
        rfl
      · have hneg : ¬(r < 0) := by
          have hto : 0 ≤ r := hr
          omega
        exact if_neg hneg
    | sizing fd hlive hpending hcount hgood htarget =>
      obtain ⟨rfl, rfl⟩ := List.cons.inj (hfront.symm.trans hpending)
      refine copy_afterSize { hlive with } (pending_answered hpending r) ?_
        (untroubled_answered hgood) htarget
      show (s.answers ++ [_]).length = 3
      rw [length_append, hcount]
      rfl
    | reading w k j flag ops h hbatch hpending hcount =>
      obtain ⟨y, ops', rfl⟩ := exists_cons_of_ne_nil hbatch.ne_nil
      have hpending' := hpending
      rw [cons_append] at hpending'
      obtain ⟨rfl, hrest⟩ := List.cons.inj (hfront.symm.trans hpending')
      by_cases hr : r < 0
      · obtain ⟨hends, hquiet⟩ := hfails hr
        obtain ⟨last, hx, -⟩ := hbatch.front
        have hhead : s.pending.head? = some x := by rw [hfront]; rfl
        have hdrains := h.reading_drains hbatch hpending hends
          (hquiet ⟨_, _, _, last, by rw [hhead, hx]; rfl⟩)
        exact hdrains.answer h.live (hcount ▸ h.read_le (le_of_lt hbatch.lt)) hfront (.inr hr)
      · exact copy_reads h hbatch hpending' hcount (by omega) hwhole
    | writing w k j flag ops h hwr hbehind hpending hcount =>
      by_cases hr : r < 0
      · exact (h.writing_drains hwr hbehind hpending (hfails hr).1).answer h.live
          (hcount ▸ h.read_le hbehind.le) hfront (.inr hr)
      · have hpending' := hpending
        rw [blockWrites_cons s.toFd hwr, cons_append] at hpending'
        obtain ⟨rfl, -⟩ := List.cons.inj (hfront.symm.trans hpending')
        exact copy_writes h hwr hbehind hpending hcount (by omega) hwhole
    | draining h => exact h.drains.answer h.live h.count hfront (.inl h.bad)
    | returned h => exact absurd (hfront.symm.trans h.pending) (cons_ne_nil x rest)

theorem CopyPhase.run {old : Bytes} (h : Reaches cfg file (CopyOrder cfg file) .copyFile old s) :
    CopyPhase cfg file s := by
  obtain ⟨stopped, hrun⟩ := h
  exact hrun.invariant (CopyPhase cfg file) (copyPhase_start stopped old)
    fun _ _ _ hphase ha ht => hphase.step ha ht

theorem Drains.ne_nil (h : Drains ops) : ops ≠ [] := by
  cases h <;> exact cons_ne_nil _ _

theorem CopyPhase.completesOnce (h : CopyPhase cfg file s) :
    CompletesOnce s (copyBound cfg file) := by
  have hbound : 5 ≤ copyBound cfg file := le_add_left 5 _
  cases h with
  | opening hlive hpending hanswers =>
    refine hlive.completesOnce (hpending ▸ cons_ne_nil _ _) ?_
    rw [hanswers, length_nil]
    omega
  | linked hlive hpending hanswers =>
    refine hlive.completesOnce (hpending ▸ cons_ne_nil _ _) ?_
    rw [hanswers, length_singleton]
    omega
  | sizing fd hlive hpending hcount =>
    exact hlive.completesOnce (hpending ▸ cons_ne_nil _ _) (by omega)
  | reading w r j flag ops h hbatch hpending hcount =>
    have hle := h.read_le (le_of_lt hbatch.lt)
    have hne : s.pending ≠ [] := by
      rw [hpending]
      exact append_ne_nil_of_left_ne_nil hbatch.ne_nil _
    have hpos := length_pos_iff.mpr hne
    exact h.live.completesOnce hne (by omega)
  | writing w r j flag ops h hwr hbehind hpending hcount =>
    have hle := h.read_le hbehind.le
    have hne : s.pending ≠ [] := by
      rw [hpending, blockWrites_cons s.toFd hwr]
      exact cons_ne_nil _ _
    have hpos := length_pos_iff.mpr hne
    exact h.live.completesOnce hne (by omega)
  | draining h =>
    have hpos := length_pos_iff.mpr h.drains.ne_nil
    have hle := h.count
    exact h.live.completesOnce h.drains.ne_nil (by omega)
  | returned h => exact h.completesOnce

theorem CopyPhase.live_or (h : CopyPhase cfg file s) :
    s.Live ∨ Returned s (fun _ => s.target = file) := by
  cases h with
  | opening hlive | linked hlive | sizing _ hlive => exact .inl hlive
  | reading _ _ _ _ _ h | writing _ _ _ _ _ h | draining h => exact .inl h.live
  | returned h => exact .inr h

end

/-- In every run whose steps are in `CopyOrder`: the copy returns once, with no operation left in
the ring, after less than two answers for each block and five more, and if it returns success then
the destination is the source and no operation has failed. -/
theorem copyFile_in_order (cfg : FileSettings) (file old : Bytes) (s : FileCall)
    (h : Reaches cfg file (CopyOrder cfg file) .copyFile old s) :
    CompletesOnce s (copyBound cfg file) ∧
    ∀ value, .ok value ∈ s.finished → s.target = file ∧ s.Untroubled := by
  have hphase := CopyPhase.run h
  exact ⟨hphase.completesOnce, fun _ hmem => (returned_right hphase.live_or hmem :)⟩

/-- Three bytes in two blocks of two bytes. -/
theorem copyFile_in_order_three : ∃ s, Reaches ⟨2, 2, 10, by decide, by decide⟩ [1, 2, 3]
      (CopyOrder ⟨2, 2, 10, by decide, by decide⟩ [1, 2, 3]) .copyFile [7] s ∧
    s.finished = [.ok []] ∧ s.target = [1, 2, 3] := by
  have hrun : Reaches ⟨2, 2, 10, by decide, by decide⟩ [1, 2, 3]
      (CopyOrder ⟨2, 2, 10, by decide, by decide⟩ [1, 2, 3]) .copyFile [7] _ :=
    ⟨false, .tail (.tail (.tail (.tail (.tail (.tail (.tail .refl
      ⟨.complete 0 5, ⟨.of_head rfl trivial, (nomatch ·)⟩, rfl⟩)
      ⟨.complete 0 6, ⟨.of_head rfl trivial, (nomatch ·)⟩, rfl⟩)
      ⟨.complete 0 0, ⟨.of_head rfl trivial, (nomatch ·)⟩, rfl⟩)
      ⟨.complete 0 2, ⟨.of_head rfl (.inr rfl), (nomatch ·)⟩, rfl⟩)
      ⟨.complete 0 1, ⟨.of_head rfl (.inr rfl), (nomatch ·)⟩, rfl⟩)
      ⟨.complete 0 2, ⟨.of_head rfl (.inr rfl), (nomatch ·)⟩, rfl⟩)
      ⟨.complete 0 1, ⟨.of_head rfl (.inr rfl), (nomatch ·)⟩, rfl⟩⟩
  exact ⟨_, hrun, rfl, ((copyFile_in_order _ _ _ _ hrun).2 [] mem_cons_self).1⟩

/-- A short write is a success; writes that are answered out of order are a success; a failed read
ends the copy before the writes; a failed read of a last block without its flag never ends it. -/
theorem copyFile_breaks :
    (∃ s, Reaches ⟨4, 1, 10, by decide, by decide⟩ [1, 2, 3] (fun _ _ => True) .copyFile [] s ∧
      s.finished = [.ok []] ∧ s.target = [1, 2]) ∧
    (∃ s, Reaches ⟨1, 3, 10, by decide, by decide⟩ [1, 2, 3] (fun _ _ => True) .copyFile [] s ∧
      s.finished = [.ok []] ∧ s.target = [2, 1, 3]) ∧
    (∃ s, Reaches ⟨1, 2, 10, by decide, by decide⟩ [1, 2, 3] (fun _ _ => True) .copyFile [] s ∧
      s.finished = [.error .ioError] ∧ s.pending = [.write 6 [1] false]) ∧
    ∃ s, Reaches ⟨1, 2, 10, by decide, by decide⟩ [1] (fun _ _ => True) .copyFile [] s ∧
      s.finished = [] ∧ s.pending = [] := by
  refine ⟨⟨_, reaches_exec [.complete 0 5, .complete 0 6, .complete 0 0, .complete 0 3,
      .complete 0 2] rfl, rfl, rfl⟩,
    ⟨_, reaches_exec [.complete 0 5, .complete 0 6, .complete 0 0, .complete 0 1, .complete 0 1,
      .complete 0 1, .complete 1 1, .complete 0 1, .complete 0 1] rfl, rfl, rfl⟩,
    ⟨_, reaches_exec [.complete 0 5, .complete 0 6, .complete 0 0, .complete 0 1,
      .complete 0 (-5)] rfl, rfl, rfl⟩,
    ⟨_, reaches_exec [.complete 0 5, .complete 0 6, .complete 0 0, .complete 0 (-5)] rfl, rfl, rfl⟩⟩

end FileCall

end Ichor
