import Ichor.Io.CopyFile

/-! Whether a batch is closed: which of its reads carries the flag, for every remaining size and every
limit, and that no handler asks for a batch when nothing is left. -/
namespace Ichor

namespace FileCall

section
variable (cfg : FileSettings) (file : Bytes)

/-- The flag of the `k`-th read of a batch. -/
def flagOf (left submissions k : ℕ) : Bool :=
  decide (left - cfg.bufferSize * k < cfg.bufferSize) || decide (k + 1 = submissions)

/-- The first `n` reads of a batch. -/
def reads (fd : ℤ) (offset left submissions n : ℕ) : List FileOp :=
  (List.range n).map fun k =>
    .read fd (offset + cfg.bufferSize * k) cfg.bufferSize (flagOf cfg left submissions k)

/-- The handler that runs in this step calls the loop, but nothing is left to submit. -/
def CallsInVain (op : FileOperation) (s : FileCall) : Act → Prop
  | .complete index r => ∃ fd offset length,
      s.pending[index]? = some (.read fd offset length true) ∧ s.finished = [] ∧
      s.shouldStop = false ∧ 0 ≤ s.res ∧ 0 ≤ r ∧ s.sizeLeft = 0 ∧
      match op with
      | .readWholeFile => s.contents.length < s.fileSize ∧
          (s.contents ++ (file.drop offset).take r.toNat).length ≠ s.fileSize
      | _ => offset + r.toNat ≠ s.fileSize
  | .stop => False

end

variable {cfg : FileSettings} {file : Bytes} {s : FileCall}

theorem reads_succ (fd : ℤ) (offset left submissions n : ℕ) :
    reads cfg fd offset left (submissions + 1) (n + 1) =
      .read fd offset cfg.bufferSize (flagOf cfg left (submissions + 1) 0) ::
        reads cfg fd (offset + cfg.bufferSize) (left - cfg.bufferSize) submissions n := by
  have hnext : ∀ k, cfg.bufferSize * (k + 1) = cfg.bufferSize + cfg.bufferSize * k := fun k => by
    rw [Nat.mul_succ, Nat.add_comm]
  simp only [reads, List.range_succ_eq_map, List.map_cons, List.map_map, Nat.mul_zero,
    Nat.add_zero, List.cons.injEq, true_and]
  refine List.map_congr_left fun k _ => ?_
  simp [flagOf, hnext, Nat.add_assoc, Nat.sub_sub]

/-- What one call submits. -/
theorem submitReads_reads (cfg : FileSettings) (submissions offset : ℕ) (h : 0 < s.sizeLeft)
    (hn : 0 < submissions) :
    ∃ n, 0 < n ∧ n ≤ submissions ∧ (n = submissions ∨ s.sizeLeft ≤ cfg.bufferSize * n) ∧
      (∀ k < n, cfg.bufferSize * k < s.sizeLeft) ∧
      submitReads cfg submissions offset s = { s with
        pending := s.pending ++ reads cfg s.fromFd offset s.sizeLeft submissions n
        sizeLeft := s.sizeLeft - cfg.bufferSize * n } := by
  induction submissions generalizing offset s with
  | zero => omega
  | succ m ih =>
    have hone : reads cfg s.fromFd offset s.sizeLeft (m + 1) 1 =
        [.read s.fromFd offset cfg.bufferSize
          (decide (s.sizeLeft < cfg.bufferSize) || decide (m = 0))] := by
      simp [reads, flagOf, eq_comm]
    rw [submitReads_succ h]
    by_cases hdone : m = 0 ∨ s.sizeLeft ≤ cfg.bufferSize
    · refine ⟨1, Nat.one_pos, by omega, by omega, fun k hk => ?_, ?_⟩
      · obtain rfl : k = 0 := by omega
        rwa [Nat.mul_zero]
      · rw [hone, Nat.mul_one]
        rcases hdone with rfl | hle
        · rfl
        · rw [submitReads_zero (Nat.sub_eq_zero_of_le hle)]
          rfl
    · obtain ⟨n, hpos, hle, hend, hinside, heq⟩ := ih (offset + cfg.bufferSize)
        (s := { s.submit (.read s.fromFd offset cfg.bufferSize
            (decide (s.sizeLeft < cfg.bufferSize) || decide (m = 0))) with
          sizeLeft := s.sizeLeft - cfg.bufferSize }) (by simp only; omega) (by omega)
      have hnext : cfg.bufferSize * (n + 1) = cfg.bufferSize + cfg.bufferSize * n := by
        rw [Nat.mul_succ, Nat.add_comm]
      simp only at hend hinside
      refine ⟨n + 1, Nat.succ_pos n, by omega, by omega, fun k hk => ?_, ?_⟩
      · cases k with
        | zero => rwa [Nat.mul_zero]
        | succ k =>
          have hk' := hinside k (by omega)
          rw [Nat.mul_succ]
          omega
      · rw [heq, reads_succ, hnext, Nat.sub_sub]
        simp [submit, flagOf]

/-- Only the last read of a batch can have the flag, and it has it unless the batch ends with the file
and a full buffer before the limit is reached. -/
theorem flagOf_last {left submissions n : ℕ} (hpos : 0 < n) (hle : n ≤ submissions)
    (hend : n = submissions ∨ left ≤ cfg.bufferSize * n)
    (hinside : ∀ k < n, cfg.bufferSize * k < left) :
    (∀ k < n, flagOf cfg left submissions k = true ↔ k + 1 = n) ↔
      ∀ blocks, left = cfg.bufferSize * blocks → submissions ≤ blocks := by
  have hflag : ∀ k < n, flagOf cfg left submissions k = true ↔
      left < cfg.bufferSize * (k + 1) ∨ k + 1 = submissions := by
    intro k hk
    have hk := hinside k hk
    rw [Nat.mul_succ]
    simp only [flagOf, Bool.or_eq_true, decide_eq_true_eq]
    omega
  obtain ⟨m, rfl⟩ : ∃ m, n = m + 1 := ⟨n - 1, by omega⟩
  constructor
  · intro hclosed blocks hblocks
    have hlast := (hflag m (Nat.lt_succ_self m)).mp ((hclosed m (Nat.lt_succ_self m)).mpr rfl)
    have hbehind : m < blocks :=
      Nat.lt_of_mul_lt_mul_left (hblocks ▸ hinside m (Nat.lt_succ_self m))
    rcases hlast with hshort | hlimit
    · have hbefore := Nat.lt_of_mul_lt_mul_left (hblocks ▸ hshort)
      omega
    · omega
  · intro hsize k hk
    rw [hflag k hk]
    constructor
    · rintro (hshort | hlimit)
      · by_contra hne
        have hnext := hinside (k + 1) (by omega)
        omega
      · omega
    · rintro hlast
      have hexact := hsize (m + 1)
      rw [hlast]
      omega

/-- A whole read of the last block that is left reaches the end of the file. -/
theorem whole_last {fd r : ℤ} {i : ℕ} {last : Bool}
    (h : Whole file r (.read fd (cfg.bufferSize * i) cfg.bufferSize last)) (hr : 0 ≤ r)
    (hleft : file.length - cfg.bufferSize * (i + 1) = 0) (hin : cfg.bufferSize * i < file.length) :
    cfg.bufferSize * i + r.toNat = file.length := by
  rw [Nat.mul_succ] at hleft
  rcases h with h | h <;> omega

/-- What is read lies at the place of the block, and what is left begins behind the batch. -/
theorem ReadPhase.not_in_vain (h : ReadPhase cfg file s) {a : Act} (ha : InOrder file s a) :
    ¬CallsInVain file .readWholeFile s a := by
  cases a with
  | stop => exact id
  | complete index r =>
    rintro ⟨fd, offset, length, hpending, hfinished, hstop, hres, hr, hleft, -, hmore⟩
    obtain ⟨rfl, hwhole⟩ := ha
    rw [← List.head?_eq_getElem?] at hpending
    obtain ⟨rest, hrest⟩ := List.head?_eq_some_iff.mp hpending
    cases h with
    | opening h | sizing fd h | returned h => simp [h.pending] at hrest
    | reading i j h =>
      have hbatch := h.batch
      rw [hrest] at hbatch
      obtain ⟨last, heq, hend⟩ := hbatch.front
      cases heq
      obtain rfl : j = i + 1 := hend.elim (fun hend => hend.2.1) fun hend => nomatch hend.1
      have happended := h.appended hstop hres
      have hbytes := whole_last (hwhole _ hpending) hr (happended.sizeLeft.symm.trans hleft)
        (h.inside i (Nat.lt_succ_self i))
      rw [take_block happended.contents, happended.fileSize, hbytes, List.take_length] at hmore
      exact hmore rfl

theorem CopyPhase.not_in_vain (h : CopyPhase cfg file s) {a : Act} (ha : CopyOrder cfg file s a) :
    ¬CallsInVain file .copyFile s a := by
  cases a with
  | stop => exact id
  | complete index r =>
    rintro ⟨fd, offset, length, hpending, hfinished, hstop, hres, hr, hleft, hmore⟩
    obtain ⟨⟨rfl, hwhole⟩, -⟩ := ha
    rw [← List.head?_eq_getElem?] at hpending
    obtain ⟨rest, hrest⟩ := List.head?_eq_some_iff.mp hpending
    cases h with
    | opening _ h | linked _ h | sizing _ _ h => simp [h] at hrest
    | returned h => simp [h.pending] at hrest
    | draining h =>
      rcases h.bad with hbad | hbad
      · simp [hstop] at hbad
      · omega
    | reading w q j flag ops h hbatch hops _ =>
      obtain ⟨x, ops, rfl⟩ := List.exists_cons_of_ne_nil hbatch.ne_nil
      rw [hops] at hrest
      cases hrest
      obtain ⟨last, heq, hend⟩ := hbatch.front
      cases heq
      obtain rfl : j = q + 1 := hend.elim (fun hend => hend.2.1) fun hend => nomatch hend.1
      refine hmore ?_
      rw [h.fileSize]
      exact whole_last (hwhole _ hpending) hr (h.sizeLeft.symm.trans hleft)
        (h.inside q (Nat.lt_succ_self q))
    | writing w q j flag ops h hlt _ hops _ =>
      rw [hops, blockWrites_cons _ hlt] at hrest
      cases hrest

/-- One call submits consecutive reads, up to the limit or the end of the file, and exactly the last one
has the flag, if and only if the limit is reached or the last buffer is not filled exactly. With answers
in order and whole transfers, no handler calls the loop with nothing left. -/
theorem batch_closed_iff (cfg : FileSettings) (file old : Bytes) :
    (∀ s submissions offset, 0 < s.sizeLeft → 0 < submissions →
      ∃ n, 0 < n ∧ n ≤ submissions ∧ (n = submissions ∨ s.sizeLeft ≤ cfg.bufferSize * n) ∧
        (∀ k < n, cfg.bufferSize * k < s.sizeLeft) ∧
        submitReads cfg submissions offset s = { s with
          pending := s.pending ++ reads cfg s.fromFd offset s.sizeLeft submissions n
          sizeLeft := s.sizeLeft - cfg.bufferSize * n } ∧
        ((∀ k < n, flagOf cfg s.sizeLeft submissions k = true ↔ k + 1 = n) ↔
          ∀ blocks, s.sizeLeft = cfg.bufferSize * blocks → submissions ≤ blocks)) ∧
    (Flagged cfg file.length → ∀ s a, Reaches cfg file (InOrder file) .readWholeFile old s →
      InOrder file s a → ¬CallsInVain file .readWholeFile s a) ∧
    ∀ s a, Reaches cfg file (CopyOrder cfg file) .copyFile old s → CopyOrder cfg file s a →
      ¬CallsInVain file .copyFile s a := by
  refine ⟨fun s submissions offset h hn => ?_, fun hsize s a h ha => ?_, fun s a h ha => ?_⟩
  · obtain ⟨n, hpos, hle, hend, hinside, heq⟩ := submitReads_reads cfg submissions offset h hn
    exact ⟨n, hpos, hle, hend, hinside, heq, flagOf_last hpos hle hend hinside⟩
  · exact (ReadPhase.run hsize h).not_in_vain ha
  · exact (CopyPhase.run h).not_in_vain ha

/-- Two bytes in a buffer of two with a limit of two: the only read has no flag. A short answer to the
read of three bytes makes its handler call the loop with nothing left. -/
theorem batch_not_closed :
    (∃ s, Reaches ⟨2, 2, 10, by decide, by decide⟩ [1, 2] (fun _ _ => True) .readWholeFile [] s ∧
      s.pending = [.read 5 0 2 false] ∧ s.sizeLeft = 0) ∧
    ∃ s, Reaches ⟨4, 1, 10, by decide, by decide⟩ [1, 2, 3] (fun _ _ => True) .readWholeFile [] s ∧
      CallsInVain [1, 2, 3] .readWholeFile s (.complete 0 1) :=
  ⟨⟨_, reaches_exec [.complete 0 5, .complete 0 0] rfl, rfl, rfl⟩,
    ⟨_, reaches_exec [.complete 0 5, .complete 0 0] rfl, 5, 0, 4, rfl, rfl, rfl, by decide, by decide,
      rfl, by decide, by decide⟩⟩

end FileCall

end Ichor
