import Ichor.Io.Batches

/-! `readWholeFile` over whole runs. As long as the kernel answers in the order of the submissions
and with whole transfers, the blocks are appended in their order and the flagged block is the last
one to be answered. -/
namespace Ichor
open List Nat

namespace FileCall

theorem checked_cases {P : FileCall → Prop} {s : FileCall} {res : ℤ} {next : FileCall → FileCall}
    (herror : ∀ e, P (s.finish (.error e)))
    (hnext : s.shouldStop = false → 0 ≤ res → P (next s)) : P (s.checked res next) := by
  unfold checked
  split
  · exact herror _
  · rename_i hrun
    split
    · exact herror _
    · rename_i hneg
      exact hnext (by simpa using hrun) (by omega)

/-- The call has not returned, and neither a consistency check nor the lifetime of a buffer or of
the frame was violated. -/
structure Live (s : FileCall) : Prop where
  terminated : s.terminated = false
  undefined : s.undefined = false
  unfinished : s.finished = []

/-- No operation of the call was answered with an error. -/
def Untroubled (s : FileCall) : Prop := ∀ a ∈ s.answers, 0 ≤ a.2

section
variable (cfg : FileSettings) (file : Bytes)

/-- The first `i` blocks have been appended, and what is left starts at block `j`. -/
structure Appended (s : FileCall) (i j : ℕ) : Prop where
  contents : s.contents = file.take (cfg.bufferSize * i)
  sizeLeft : s.sizeLeft = file.length - cfg.bufferSize * j
  fileSize : s.fileSize = file.length
  aligned : cfg.maxSubmissions ∣ j ∨ file.length ≤ cfg.bufferSize * j
  untroubled : s.Untroubled

/-- The blocks `i`, …, `j - 1` are being read. -/
structure Reading (s : FileCall) (i j : ℕ) : Prop where
  live : s.Live
  batch : Batch cfg s.fromFd true i j s.pending
  inside : ∀ k < j, cfg.bufferSize * k < file.length
  count : s.answers.length = i + 2
  -- after a stop or an error the batch is only waited for
  appended : s.shouldStop = false → 0 ≤ s.res → Appended cfg file s i j

/-- The call has returned, once, and nothing of it is left in the ring; a success is `right`. -/
structure Returned (s : FileCall) (right : Bytes → Prop) : Prop where
  terminated : s.terminated = false
  undefined : s.undefined = false
  pending : s.pending = []
  finished : ∃ result, s.finished = [result] ∧
    ∀ value, result = .ok value → right value ∧ s.Untroubled

/-- One operation before the first read is pending, and those before it have succeeded. -/
structure Beginning (s : FileCall) (x : FileOp) (count : ℕ) : Prop where
  live : s.Live
  pending : s.pending = [x]
  contents : s.contents = []
  count : s.answers.length = count
  untroubled : s.Untroubled

/-- Where the coroutine is suspended. -/
inductive ReadPhase (s : FileCall) : Prop where
  | opening : Beginning s (.openat .readOnly) 0 → ReadPhase s
  | sizing (fd : ℤ) : Beginning s (.statx fd) 1 → ReadPhase s
  | reading (i j : ℕ) : Reading cfg file s i j → ReadPhase s
  | returned : Returned s (· = file) → ReadPhase s

end

variable {contents old : Bytes} {count : ℕ}

section
variable {cfg : FileSettings} {file : Bytes} {s : FileCall}

variable {i offset j : ℕ} {fd r : ℤ} {last : Bool} {x : FileOp} {right : Bytes → Prop}

section
variable (hlive : s.Live) (hpending : s.pending = [])
include hlive hpending

theorem returned_error (e : IOError) : Returned (s.finish (.error e)) right where
  __ := hlive
  pending := hpending
  finished := ⟨.error e, by simp [finish, hlive.unfinished], fun _ h => nomatch h⟩

theorem returned_ok {value : Bytes} (hright : right value) (hgood : s.Untroubled) :
    Returned (s.finish (.ok value)) right where
  __ := hlive
  pending := hpending
  finished := ⟨.ok value, by simp [finish, hlive.unfinished],
    fun _ h => by cases h; exact ⟨hright, hgood⟩⟩

theorem returned_checked {value : FileCall → Bytes}
    (hgood : s.shouldStop = false → 0 ≤ s.res → right (value s) ∧ s.Untroubled) :
    Returned (s.checked s.res fun s => s.finish (.ok (value s))) right := by
  refine checked_cases (P := fun t => Returned t right)
    (fun _ => returned_error hlive hpending _) fun hrun hres => ?_
  obtain ⟨hright, htrouble⟩ := hgood hrun hres
  exact returned_ok hlive hpending hright htrouble

theorem returned_afterReads
    (hgood : s.shouldStop = false → 0 ≤ s.res → s.contents = file ∧ s.Untroubled) :
    Returned s.afterReads (· = file) :=
  returned_checked hlive hpending hgood

end

theorem block_le_div (h : cfg.bufferSize * i < file.length) : i ≤ file.length / cfg.bufferSize := by
  rw [le_div_iff_mul_le cfg.bufferSize_pos, mul_comm]
  omega

/-! ## The handler of a read, by what it finds -/

theorem unchecked (hstop : s.shouldStop = false) (hres : 0 ≤ s.res) :
    (s.shouldStop || decide (s.res < 0)) = false := by
  simp only [hstop, Bool.false_or, decide_eq_false_iff_not]
  omega

theorem readHandler_skips (hfinished : s.finished = []) (h : s.shouldStop = true ∨ s.res < 0) :
    s.readHandler cfg file fd offset last r = if last then s.afterReads else s := by
  have hcond : (s.shouldStop || decide (s.res < 0)) = true := by simpa using h
  simp only [readHandler, hfinished, ne_eq, not_true_eq_false, if_false, hcond, if_true]

section
variable (hfinished : s.finished = []) (hstop : s.shouldStop = false) (hres : 0 ≤ s.res)
include hfinished hstop hres

theorem readHandler_fails (hr : r < 0) : s.readHandler cfg file fd offset last r =
      if last then { s with res := r }.afterReads else { s with res := r } := by
  have hcond := unchecked hstop hres
  simp only [readHandler, hfinished, ne_eq, not_true_eq_false, if_false, hcond, hr, if_true,
    Bool.false_eq_true]

theorem readHandler_block (hroom : s.contents.length < s.fileSize) (hr : r = cfg.bufferSize)
    (hne : (s.contents ++ (file.drop offset).take cfg.bufferSize).length ≠ s.fileSize) :
    s.readHandler cfg file fd offset last r = if last then
        submitReads cfg cfg.maxSubmissions (offset + cfg.bufferSize)
          { s with contents := s.contents ++ (file.drop offset).take cfg.bufferSize }
      else { s with contents := s.contents ++ (file.drop offset).take cfg.bufferSize } := by
  subst hr
  have hcond := unchecked hstop hres
  have hnonneg : ¬((cfg.bufferSize : ℤ) < 0) := by omega
  have hroom' : ¬(s.fileSize ≤ s.contents.length) := by omega
  simp only [readHandler, hfinished, ne_eq, not_true_eq_false, if_false, hcond, hnonneg, hroom',
    Int.toNat_natCast, lt_irrefl, hne, Bool.false_eq_true]

theorem readHandler_last (hroom : s.contents.length < s.fileSize) (hr : 0 ≤ r)
    (heq : (s.contents ++ (file.drop offset).take r.toNat).length = s.fileSize) :
    s.readHandler cfg file fd offset true r =
      { s with contents := s.contents ++ (file.drop offset).take r.toNat }.afterReads := by
  have hcond := unchecked hstop hres
  have hnonneg : ¬(r < 0) := by omega
  have hroom' : ¬(s.fileSize ≤ s.contents.length) := by omega
  simp only [readHandler, hfinished, ne_eq, not_true_eq_false, if_false, hcond, hnonneg, hroom',
    heq, if_true, Bool.not_true, Bool.false_eq_true]

end

/-! ## One answer -/

/-- The call between the answer for block `i` and its handler. -/
structure Taken (cfg : FileSettings) (file : Bytes) (s : FileCall) (i j : ℕ) (last : Bool) :
    Prop where
  live : s.Live
  rest : Rest cfg s.fromFd true i j last s.pending
  inside : ∀ k < j, cfg.bufferSize * k < file.length
  here : cfg.bufferSize * i < file.length
  count : s.answers.length = i + 3

variable {ops : List FileOp}

theorem Reading.take (h : Reading cfg file s i j) (hpending : s.pending = x :: ops) (r : ℤ) :
    ∃ last, x = .read s.fromFd (cfg.bufferSize * i) cfg.bufferSize last ∧
      Taken cfg file (s.answered 0 x r) i j last := by
  have hbatch := h.batch
  have hlt := hbatch.lt
  rw [hpending] at hbatch
  obtain ⟨last, rfl, hrest⟩ := hbatch.front
  refine ⟨last, rfl, { h.live with }, ?_, h.inside, h.inside i hlt, ?_⟩
  · simpa [answered, hpending] using hrest
  · simp [answered, h.count]

/-- The handler of the last block of a batch resumes the coroutine, the others leave the call as it
is; the text matters only if the coroutine is going to return it. -/
theorem Taken.returns (h : Taken cfg file s i j last) (hbad : ¬(s.shouldStop = false ∧ 0 ≤ s.res)) :
    ReadPhase cfg file (if last then s.afterReads else s) := by
  rcases h.rest with ⟨rfl, rfl, hpending⟩ | ⟨rfl, hbatch⟩
  · rw [if_pos rfl]
    refine .returned (returned_afterReads h.live hpending ?_)
    exact fun hrun hres => absurd ⟨hrun, hres⟩ hbad
  · rw [if_neg Bool.false_ne_true]
    refine .reading (i + 1) j ⟨h.live, hbatch, h.inside, h.count, ?_⟩
    exact fun hrun hres => absurd ⟨hrun, hres⟩ hbad

theorem take_block {n : ℕ} (h : contents = file.take (cfg.bufferSize * i)) :
    contents ++ (file.drop (cfg.bufferSize * i)).take n = file.take (cfg.bufferSize * i + n) := by
  rw [h, take_add]

theorem Taken.completes (h : Taken cfg file s i j true)
    (happended : Appended cfg file s i j) (hstop : s.shouldStop = false) (hres : 0 ≤ s.res)
    (hr : r = (file.length - cfg.bufferSize * i : ℕ)) : ReadPhase cfg file
      (s.readHandler cfg file s.fromFd (cfg.bufferSize * i) true r) := by
  have hroom : s.contents.length < s.fileSize := by
    rw [happended.contents, happended.fileSize, length_take]
    have hhere := h.here
    omega
  have htake : s.contents ++ (file.drop (cfg.bufferSize * i)).take r.toNat = file := by
    rw [take_block happended.contents]
    exact take_of_length_le (by omega)
  have hlength : (s.contents ++ (file.drop (cfg.bufferSize * i)).take r.toNat).length =
      s.fileSize := by
    rw [htake, happended.fileSize]
  rw [readHandler_last h.live.unfinished hstop hres hroom (by omega) hlength]
  rcases h.rest with ⟨-, -, hpending⟩ | ⟨hlast, -⟩
  · exact .returned (returned_afterReads { h.live with } hpending fun _ _ =>
      ⟨htake, happended.untroubled⟩)
  · exact absurd hlast.symm Bool.false_ne_true

theorem Taken.appends (h : Taken cfg file s i j last)
    (hsize : Flagged cfg file.length) (happended : Appended cfg file s i j)
    (hstop : s.shouldStop = false) (hres : 0 ≤ s.res) (hr : r = cfg.bufferSize)
    (hmore : cfg.bufferSize * (i + 1) < file.length) : ReadPhase cfg file
      (s.readHandler cfg file s.fromFd (cfg.bufferSize * i) last r) := by
  have hnext : cfg.bufferSize * (i + 1) = cfg.bufferSize * i + cfg.bufferSize :=
    mul_succ cfg.bufferSize i
  have hroom : s.contents.length < s.fileSize := by
    rw [happended.contents, happended.fileSize, length_take]
    omega
  have htake : s.contents ++ (file.drop (cfg.bufferSize * i)).take cfg.bufferSize =
      file.take (cfg.bufferSize * (i + 1)) := by
    rw [take_block happended.contents, hnext]
  have hne : (s.contents ++
      (file.drop (cfg.bufferSize * i)).take cfg.bufferSize).length ≠ s.fileSize := by
    rw [htake, happended.fileSize, length_take]
    omega
  rw [readHandler_block h.live.unfinished hstop hres hroom hr hne, htake, ← hnext]
  rcases h.rest with ⟨rfl, rfl, hpending⟩ | ⟨rfl, hbatch⟩
  · -- the batch is full, and the next one is submitted
    have hdvd : cfg.maxSubmissions ∣ i + 1 := by
      rcases happended.aligned with hdvd | hle
      · exact hdvd
      · omega
    rw [if_pos rfl]
    obtain ⟨ops, j, flag, hbatch, hend, hflag, hinside, heq⟩ := submitReads_batch file.length
      (s := { s with contents := file.take (cfg.bufferSize * (i + 1)) }) happended.sizeLeft hmore
      cfg.maxSubmissions_pos (le_refl _) (dvd_add hdvd (dvd_refl _))
    rw [heq]
    refine .reading (i + 1) j ⟨{ h.live with }, ?_, hinside, h.count,
      fun _ _ => ⟨rfl, rfl, happended.fileSize, hend, happended.untroubled⟩⟩
    simpa [hpending, hsize.flag hflag] using hbatch
  · rw [if_neg Bool.false_ne_true]
    exact .reading (i + 1) j ⟨{ h.live with }, hbatch, h.inside, h.count,
      fun _ _ => { happended with contents := rfl }⟩

theorem untroubled_answered (h : s.Untroubled) (hr : 0 ≤ r) : (s.answered 0 x r).Untroubled := by
  intro a ha
  rcases mem_append.mp ha with hold | hnew
  · exact h a hold
  · rw [mem_singleton.mp hnew]
    exact hr

theorem Reading.answer (h : Reading cfg file s i j) (hsize : Flagged cfg file.length)
    (hpending : s.pending = x :: ops) (hwhole : Whole file r x) :
    ReadPhase cfg file (handle cfg file .readWholeFile (s.answered 0 x r) x r) := by
  obtain ⟨last, rfl, htaken⟩ := h.take hpending r
  generalize hu : s.answered 0 (.read s.fromFd (cfg.bufferSize * i) cfg.bufferSize last) r = u
    at htaken
  simp only [handle]
  by_cases hskip : s.shouldStop = true ∨ s.res < 0
  · -- the answer is not looked at any more
    have hskips : u.shouldStop = true ∨ u.res < 0 := hu ▸ hskip
    rw [readHandler_skips htaken.live.unfinished hskips]
    refine htaken.returns fun hgood => ?_
    rcases hskips with hstop | hres
    · exact Bool.false_ne_true (hgood.1.symm.trans hstop)
    · omega
  · have hstop : s.shouldStop = false := by simpa using fun hstop => hskip (.inl hstop)
    have hres : 0 ≤ s.res := by
      by_contra hneg
      exact hskip (.inr (by omega))
    have hstop' : u.shouldStop = false := hu ▸ hstop
    have hres' : 0 ≤ u.res := hu ▸ hres
    by_cases hneg : r < 0
    · -- the error is kept until the batch is over
      rw [readHandler_fails htaken.live.unfinished hstop' hres' hneg]
      have hfailed : Taken cfg file { u with res := r } i j last :=
        { htaken with live := { htaken.live with } }
      refine hfailed.returns fun hgood => ?_
      have hr : 0 ≤ r := hgood.2
      omega
    · have hold := h.appended hstop hres
      have happended : Appended cfg file u i j := by
        rw [← hu]
        exact { hold with untroubled := untroubled_answered hold.untroubled (by omega) }
      have hfd : s.fromFd = u.fromFd := by rw [← hu]; rfl
      have hr : r = (min cfg.bufferSize (file.length - cfg.bufferSize * i) : ℕ) := by
        rcases hwhole with hr | hr
        · exact absurd hr hneg
        · exact hr
      have hnext : cfg.bufferSize * (i + 1) = cfg.bufferSize * i + cfg.bufferSize :=
        mul_succ cfg.bufferSize i
      rw [hfd]
      by_cases hmore : cfg.bufferSize * (i + 1) < file.length
      · exact htaken.appends hsize happended hstop' hres' (by omega) hmore
      · rcases htaken.rest with ⟨rfl, -, -⟩ | ⟨-, hbatch⟩
        · exact htaken.completes happended hstop' hres' (by omega)
        · -- the next block of the batch would lie in the file
          exact absurd (htaken.inside (i + 1) hbatch.lt) hmore

/-- The call after an operation before the first read. -/
structure BeforeReads (s : FileCall) (count : ℕ) : Prop where
  live : s.Live
  pending : s.pending = []
  contents : s.contents = []
  count : s.answers.length = count
  untroubled : 0 ≤ s.res → s.Untroubled

theorem Beginning.begun (h : Beginning s x count) (r : ℤ) :
    BeforeReads { s.answered 0 x r with res := r } (count + 1) where
  live := { h.live with }
  __ := h
  pending := by simp [answered, h.pending]
  count := by simp [answered, h.count]
  untroubled := untroubled_answered h.untroubled

theorem BeforeReads.afterOpen (h : BeforeReads s 1) : ReadPhase cfg file s.afterOpen := by
  refine checked_cases (P := ReadPhase cfg file)
    (fun _ => .returned (returned_error h.live h.pending _)) fun _ hres => ?_
  refine .sizing s.res ⟨{ h.live with }, ?_, h.contents, h.count, h.untroubled hres⟩
  simp [submit, h.pending]

theorem BeforeReads.afterSize (h : BeforeReads s 2) (hsize : Flagged cfg file.length) :
    ReadPhase cfg file (s.afterSize cfg file) := by
  refine checked_cases (P := ReadPhase cfg file)
    (fun _ => .returned (returned_error h.live h.pending _)) fun _ hres => ?_
  split
  · rename_i hempty
    have hnil : [] = file := (length_eq_zero_iff.mp hempty).symm
    exact .returned (returned_ok h.live h.pending hnil (h.untroubled hres))
  · rename_i hne
    split
    · exact .returned (returned_error h.live h.pending _)
    · obtain ⟨ops, j, flag, hbatch, hend, hflag, hinside, heq⟩ := submitReads_batch file.length (i := 0)
        (s := { s with res := 0, fileSize := file.length, sizeLeft := file.length })
        (by simp) (by omega) cfg.maxSubmissions_pos (le_refl _) (by simp)
      rw [mul_zero] at heq
      rw [heq]
      refine .reading 0 j ⟨{ h.live with }, ?_, hinside, h.count,
        fun _ _ => ⟨?_, rfl, rfl, hend, h.untroubled hres⟩⟩
      · simpa [h.pending, hsize.flag hflag] using hbatch
      · simp [h.contents]

/-! ## Whole runs -/

theorem readPhase_start (stopped : Bool) (old : Bytes) :
    ReadPhase cfg file (start .readWholeFile stopped old) := by
  cases stopped with
  | true => exact .returned (returned_error ⟨rfl, rfl, rfl⟩ rfl _)
  | false => exact .opening ⟨⟨rfl, rfl, rfl⟩, rfl, rfl, rfl, fun _ ha => nomatch ha⟩

theorem ReadPhase.stop (h : ReadPhase cfg file s) :
    ReadPhase cfg file { s with shouldStop := true } := by
  cases h with
  | opening h => exact .opening { h with live := { h.live with } }
  | sizing fd h => exact .sizing fd { h with live := { h.live with } }
  | reading i j h =>
    exact .reading i j { h with
      live := { h.live with }
      appended := fun hrun _ => absurd hrun.symm Bool.false_ne_true }
  | returned h => exact .returned { h with }

theorem ReadPhase.step (hsize : Flagged cfg file.length) (h : ReadPhase cfg file s) {a : Act}
    (ha : InOrder file s a) {t : FileCall} (ht : act cfg file .readWholeFile a s = some t) :
    ReadPhase cfg file t := by
  cases a with
  | stop =>
    rw [act_stop ht]
    exact h.stop
  | complete index r =>
    obtain ⟨x, rest, hpending, hwhole, -, rfl⟩ := ha.front ht
    cases h with
    | opening h =>
      obtain ⟨rfl, rfl⟩ := List.cons.inj (hpending.symm.trans h.pending)
      exact (h.begun r).afterOpen
    | sizing fd h =>
      obtain ⟨rfl, rfl⟩ := List.cons.inj (hpending.symm.trans h.pending)
      exact (h.begun r).afterSize hsize
    | reading i j h => exact h.answer hsize hpending hwhole
    | returned h => exact absurd (hpending.symm.trans h.pending) (cons_ne_nil x rest)

theorem ReadPhase.run (hsize : Flagged cfg file.length)
    (h : Reaches cfg file (InOrder file) .readWholeFile old s) : ReadPhase cfg file s := by
  obtain ⟨stopped, hrun⟩ := h
  exact hrun.invariant (ReadPhase cfg file) (readPhase_start stopped old)
    fun _ _ _ hphase ha ht => hphase.step hsize ha ht

end

/-- The call goes on as long as it has not returned, for less than `bound` answers, and it returns
once, with nothing left in the ring. -/
structure CompletesOnce (s : FileCall) (bound : ℕ) : Prop where
  terminated : s.terminated = false
  undefined : s.undefined = false
  waits : s.finished = [] → s.pending ≠ [] ∧ s.answers.length < bound
  once : s.finished ≠ [] → s.pending = [] ∧ s.finished.length = 1

variable {bound : ℕ}

theorem Live.completesOnce {s : FileCall} (h : s.Live) (hpending : s.pending ≠ [])
    (hcount : s.answers.length < bound) : CompletesOnce s bound :=
  ⟨h.terminated, h.undefined, fun _ => ⟨hpending, hcount⟩, fun hne => absurd h.unfinished hne⟩

section
variable {right : Bytes → Prop} {s : FileCall}

theorem Returned.completesOnce (h : Returned s right) : CompletesOnce s bound := by
  obtain ⟨result, hfinished, -⟩ := h.finished
  refine ⟨h.terminated, h.undefined, fun hnil => ?_, fun _ => ⟨h.pending, ?_⟩⟩
  · exact absurd (hfinished.symm.trans hnil) (cons_ne_nil _ _)
  · rw [hfinished]
    rfl

/-- A value that the call has returned, unless it is still live, is right. -/
theorem returned_right (h : s.Live ∨ Returned s right) (hmem : .ok contents ∈ s.finished) :
    right contents ∧ s.Untroubled := by
  rcases h with hlive | h
  · rw [hlive.unfinished] at hmem
    exact absurd hmem not_mem_nil
  · obtain ⟨result, hfinished, hresult⟩ := h.finished
    rw [hfinished] at hmem
    exact hresult contents (mem_singleton.mp hmem).symm

end

theorem Beginning.completesOnce {s : FileCall} {x : FileOp}
    (h : Beginning s x count) (hcount : count < 3) : CompletesOnce s (bound + 3) := by
  refine h.live.completesOnce ?_ ?_
  · rw [h.pending]
    exact cons_ne_nil _ _
  · rw [h.count]
    omega

section
variable {cfg : FileSettings} {file : Bytes} {s : FileCall}

theorem ReadPhase.completesOnce (h : ReadPhase cfg file s) :
    CompletesOnce s (file.length / cfg.bufferSize + 3) := by
  cases h with
  | opening h | sizing fd h => exact h.completesOnce (by omega)
  | reading i j h =>
    have hbound := block_le_div (h.inside i h.batch.lt)
    have hcount := h.count
    exact h.live.completesOnce h.batch.ne_nil (by omega)
  | returned h => exact h.completesOnce

theorem ReadPhase.live_or (h : ReadPhase cfg file s) : s.Live ∨ Returned s (· = file) := by
  cases h with
  | opening h | sizing fd h | reading i j h => exact .inl h.live
  | returned h => exact .inr h

end

/-- In every run in which the kernel answers in order and with whole transfers, for a file whose
last block is flagged: the call returns once, after less than one answer for each block and three
more, no check terminates it, and what it returns is the file, unless an operation failed. -/
theorem readWholeFile_in_order (cfg : FileSettings) (file old : Bytes)
    (hsize : Flagged cfg file.length) (s : FileCall)
    (h : Reaches cfg file (InOrder file) .readWholeFile old s) :
    CompletesOnce s (file.length / cfg.bufferSize + 3) ∧
    ∀ contents, .ok contents ∈ s.finished → contents = file ∧ s.Untroubled := by
  have hphase := ReadPhase.run hsize h
  exact ⟨hphase.completesOnce, fun _ hmem => (returned_right hphase.live_or hmem :)⟩

theorem reaches_exec {cfg : FileSettings} {file : Bytes} {op : FileOperation}
    (acts : List Act) {s : FileCall}
    (h : GuardedRuns.exec (act cfg file op) (fun _ _ => true) acts (start op false old) = some s) :
    Reaches cfg file (fun _ _ => True) op old s :=
  ⟨false, GuardedRuns.run_exec acts h⟩

/-- Three bytes in two blocks of two bytes. -/
theorem readWholeFile_in_order_three : ∃ s,
    Reaches ⟨2, 2, 10, by decide, by decide⟩ [1, 2, 3] (InOrder [1, 2, 3]) .readWholeFile [] s ∧
    s.finished = [.ok [1, 2, 3]] ∧ CompletesOnce s 4 := by
  have hrun : Reaches ⟨2, 2, 10, by decide, by decide⟩ [1, 2, 3] (InOrder [1, 2, 3])
      .readWholeFile [] _ :=
    ⟨false, .tail (.tail (.tail (.tail .refl ⟨.complete 0 5, .of_head rfl trivial, rfl⟩)
      ⟨.complete 0 0, .of_head rfl trivial, rfl⟩)
      ⟨.complete 0 2, .of_head rfl (.inr rfl), rfl⟩)
      ⟨.complete 0 1, .of_head rfl (.inr rfl), rfl⟩⟩
  have hsize : Flagged ⟨2, 2, 10, by decide, by decide⟩ 3 := by
    intro blocks hblocks
    have hodd : 3 = 2 * blocks := hblocks
    omega
  exact ⟨_, hrun, rfl, (readWholeFile_in_order _ _ _ hsize _ hrun).1⟩

/-- A file of exactly one buffer terminates the process, or the call never returns if its read
fails; blocks that are answered out of order are returned out of order; the rest of a short read
goes into a freed buffer. -/
theorem readWholeFile_breaks :
    (∃ s, Reaches ⟨2, 2, 10, by decide, by decide⟩ [1, 2] (InOrder [1, 2]) .readWholeFile [] s ∧
      s.terminated = true) ∧
    (∃ s, Reaches ⟨2, 2, 10, by decide, by decide⟩ [1, 2] (InOrder [1, 2]) .readWholeFile [] s ∧
      s.finished = [] ∧ s.pending = []) ∧
    (∃ s, Reaches ⟨1, 3, 10, by decide, by decide⟩ [1, 2, 3] (fun _ _ => True) .readWholeFile [] s ∧
      s.finished = [.ok [2, 1, 3]]) ∧
    ∃ s, Reaches ⟨2, 2, 10, by decide, by decide⟩ [1, 2, 3] (fun _ _ => True) .readWholeFile [] s ∧
      s.undefined = true := by
  refine ⟨⟨_, ⟨false, .tail (.tail (.tail .refl ⟨.complete 0 5, .of_head rfl trivial, rfl⟩)
      ⟨.complete 0 0, .of_head rfl trivial, rfl⟩)
      ⟨.complete 0 2, .of_head rfl (.inr rfl), rfl⟩⟩, rfl⟩,
    ⟨_, ⟨false, .tail (.tail (.tail .refl ⟨.complete 0 5, .of_head rfl trivial, rfl⟩)
      ⟨.complete 0 0, .of_head rfl trivial, rfl⟩)
      ⟨.complete 0 (-5), .of_head rfl (.inl (by decide)), rfl⟩⟩, rfl, rfl⟩,
    ⟨_, reaches_exec [.complete 0 5, .complete 0 0, .complete 1 1, .complete 0 1, .complete 0 1] rfl,
      rfl⟩,
    ⟨_, reaches_exec [.complete 0 5, .complete 0 0, .complete 0 1] rfl, rfl⟩⟩

end FileCall

end Ichor
