import Ichor.Io.ReadWholeFile

/-! The descriptors of the file service. The handlers submit operations on the descriptors that the
call has opened, and never a close. -/
namespace Ichor
open List

namespace FileCall

/-- An operation on a descriptor that is already open. -/
def Uses : FileOp → Prop
  | .statx _ => True
  | .read _ _ _ _ => True
  | .write _ _ _ => True
  | _ => False

/-- What the code behind an answer does to the ring: it submits operations on open descriptors. -/
structure Submits (s t : FileCall) : Prop where
  answers : t.answers = s.answers
  pending : ∀ x ∈ t.pending, x ∈ s.pending ∨ Uses x

section
variable {cfg : FileSettings} {file : Bytes} {s t u : FileCall}

theorem Submits.of_eq (hanswers : t.answers = s.answers) (hpending : t.pending = s.pending) :
    Submits s t :=
  ⟨hanswers, fun _ hx => .inl (hpending ▸ hx)⟩

theorem Submits.trans (hst : Submits s t) (htu : Submits t u) : Submits s u := by
  refine ⟨htu.answers.trans hst.answers, fun x hx => ?_⟩
  rcases htu.pending x hx with hold | hnew
  · exact hst.pending x hold
  · exact .inr hnew

theorem Submits.after (h : Submits t u) (hanswers : t.answers = s.answers)
    (hpending : t.pending = s.pending) : Submits s u :=
  (Submits.of_eq hanswers hpending).trans h

theorem submits_submit {x : FileOp} (hx : Uses x) : Submits s (s.submit x) := by
  refine ⟨rfl, fun y hy => ?_⟩
  rcases mem_append.mp hy with hold | hnew
  · exact .inl hold
  · rw [mem_singleton.mp hnew]
    exact .inr hx

theorem submits_finish {result : Except IOError Bytes} : Submits s (s.finish result) :=
  .of_eq rfl rfl

theorem submits_checked {res : ℤ} {next : FileCall → FileCall} (h : Submits s (next s)) :
    Submits s (s.checked res next) :=
  checked_cases (P := Submits s) (fun _ => submits_finish) fun _ _ => h

theorem submits_submitReads (n offset : ℕ) (s : FileCall) :
    Submits s (submitReads cfg n offset s) := by
  induction n generalizing offset s with
  | zero => exact .of_eq rfl rfl
  | succ n ih =>
    unfold submitReads
    split
    · exact .of_eq rfl rfl
    · have hread : Submits s (s.submit (.read s.fromFd offset cfg.bufferSize
          (decide (s.sizeLeft < cfg.bufferSize) || decide (n = 0)))) := submits_submit trivial
      exact hread.trans ((ih _ _).after rfl rfl)

theorem submits_afterReads : Submits s s.afterReads := submits_checked submits_finish

theorem submits_afterCopy : Submits s s.afterCopy := submits_checked submits_finish

variable {last : Bool} {r : ℤ}

theorem submits_if (h : Submits s t) (hs : Submits s u) : Submits s (if last then t else u) := by
  cases last with
  | true => exact h
  | false => exact hs

variable {offset : ℕ}

theorem submits_readHandler {fd : ℤ} : Submits s (s.readHandler cfg file fd offset last r) := by
  unfold readHandler
  split
  · exact .of_eq rfl rfl
  · split
    · exact submits_if submits_afterReads (.of_eq rfl rfl)
    · split
      · exact submits_if (submits_afterReads.after rfl rfl) (.of_eq rfl rfl)
      · split
        · exact submits_if (submits_afterReads.after rfl rfl) (.of_eq rfl rfl)
        · dsimp only
          split
          · split
            · exact .of_eq rfl rfl
            · exact submits_afterReads.after rfl rfl
          · generalize hv : ite (r.toNat < cfg.bufferSize) _ _ = v
            have hshort : Submits s v := by
              rw [← hv]
              split
              · exact (submits_submit (x := .read fd (offset + r.toNat)
                  (cfg.bufferSize - r.toNat) last) trivial).trans (.of_eq rfl rfl)
              · exact .of_eq rfl rfl
            exact submits_if (hshort.trans (submits_submitReads _ _ _)) hshort

theorem submits_copyReadHandler {fd : ℤ} :
    Submits s (s.copyReadHandler cfg file fd offset last r) := by
  unfold copyReadHandler
  split
  · exact .of_eq rfl rfl
  · split
    · exact submits_if submits_afterCopy (.of_eq rfl rfl)
    · split
      · exact submits_if (submits_afterCopy.after rfl rfl) (.of_eq rfl rfl)
      · have hwrite : Submits s (s.submit (.write s.toFd ((file.drop offset).take r.toNat)
            (decide (offset + r.toNat = s.fileSize)))) := submits_submit trivial
        refine hwrite.trans ?_
        dsimp only
        generalize s.submit (.write s.toFd ((file.drop offset).take r.toNat)
          (decide (offset + r.toNat = s.fileSize))) = v
        have hshort : Submits v
            (if !decide (offset + r.toNat = s.fileSize) && decide (r.toNat < cfg.bufferSize) then
              v.submit (.read fd (offset + r.toNat) (cfg.bufferSize - r.toNat) last) else v) :=
          submits_if (submits_submit trivial) (.of_eq rfl rfl)
        exact submits_if (hshort.trans (submits_submitReads _ _ _)) hshort

theorem submits_copyWriteHandler : Submits s (s.copyWriteHandler last r) := by
  unfold copyWriteHandler
  split
  · exact .of_eq rfl rfl
  · split
    · exact submits_if submits_afterCopy (.of_eq rfl rfl)
    · split
      · exact submits_if (submits_afterCopy.after rfl rfl) (.of_eq rfl rfl)
      · exact submits_if submits_afterCopy (.of_eq rfl rfl)

theorem submits_afterSize : Submits s (s.afterSize cfg file) := by
  refine submits_checked ?_
  split
  · exact submits_finish
  · split
    · exact submits_finish
    · exact (submits_submitReads _ _ _).after rfl rfl

theorem submits_afterSizeOfSource : Submits s (s.afterSizeOfSource cfg file) := by
  refine submits_checked ?_
  split
  · exact submits_finish
  · exact (submits_submitReads _ _ _).after rfl rfl

theorem submits_afterOpens : Submits s s.afterOpens := by
  refine submits_checked ?_
  split
  · exact submits_finish
  · exact (submits_submit (x := .statx s.fromFd) trivial).after rfl rfl

theorem submits_afterOpen : Submits s s.afterOpen :=
  submits_checked ((submits_submit (x := .statx s.res) trivial).after rfl rfl)

theorem submits_afterOpenForWriting {contents : Bytes} :
    Submits s (s.afterOpenForWriting contents) :=
  submits_checked ((submits_submit (x := .write s.res
    (contents.take (contents.length % 2 ^ 32)) true) trivial).after rfl rfl)

theorem submits_afterUnlink : Submits s s.afterUnlink := submits_checked submits_finish

theorem submits_handle (op : FileOperation) (x : FileOp) (r : ℤ) :
    Submits s (handle cfg file op s x r) := by
  unfold handle
  split
  · exact submits_afterOpen.after rfl rfl
  · exact submits_afterSize.after rfl rfl
  · exact submits_readHandler
  · exact .of_eq rfl rfl
  · exact submits_afterOpens.after rfl rfl
  · exact submits_afterSizeOfSource.after rfl rfl
  · exact submits_copyReadHandler
  · exact submits_copyWriteHandler
  · exact submits_afterUnlink.after rfl rfl
  · exact submits_afterOpenForWriting.after rfl rfl
  · exact (submits_finish).after rfl rfl
  · exact submits_afterOpenForWriting.after rfl rfl
  · exact (submits_finish).after rfl rfl
  · exact .of_eq rfl rfl

/-! ## Whole runs -/

/-- Everything that the call has submitted satisfies a property. -/
def Only (P : FileOp → Prop) (s : FileCall) : Prop :=
  (∀ x ∈ s.pending, P x) ∧ ∀ a ∈ s.answers, P a.1

variable {P : FileOp → Prop} {op : FileOperation}

theorem Only.step (hP : ∀ x, Uses x → P x) (h : Only P s)
    {a : Act} (ht : act cfg file op a s = some t) : Only P t := by
  cases a with
  | stop =>
    rw [act_stop ht]
    exact h
  | complete index r =>
    obtain ⟨-, x, hx, -, rfl⟩ := act_complete ht
    have hsubmits : Submits (s.answered index x r)
        (handle cfg file op (s.answered index x r) x r) := submits_handle op x r
    constructor
    · intro y hy
      rcases hsubmits.pending y hy with hold | hnew
      · exact h.1 y (mem_of_mem_eraseIdx hold)
      · exact hP y hnew
    · intro b hb
      rw [hsubmits.answers] at hb
      rcases mem_append.mp hb with hold | hnew
      · exact h.2 b hold
      · rw [mem_singleton.mp hnew]
        exact h.1 x (mem_of_getElem? hx)

theorem Only.run (hP : ∀ x, Uses x → P x) {old : Bytes}
    (hstart : ∀ stopped, Only P (start op stopped old))
    (h : Reaches cfg file (fun _ _ => True) op old s) : Only P s := by
  obtain ⟨stopped, hrun⟩ := h
  exact hrun.invariant (Only P) (hstart stopped) fun _ _ _ honly _ ht => honly.step hP ht

/-- Not a close. -/
def KeepsOpen : FileOp → Prop
  | .close _ => False
  | _ => True

/-- Not an open. -/
def OpensNothing : FileOp → Prop
  | .openat _ => False
  | _ => True

theorem only_start_keepsOpen (op : FileOperation) (stopped : Bool) (old : Bytes) :
    Only KeepsOpen (start op stopped old) := by
  refine ⟨fun x hx => ?_, fun a ha => ?_⟩
  · cases stopped with
    | true => exact absurd hx not_mem_nil
    | false =>
      cases op with
      | copyFile =>
        rcases mem_cons.mp hx with rfl | hx
        · trivial
        · rw [mem_singleton.mp hx]
          trivial
      | readWholeFile | removeFile | writeFile | appendFile =>
        rw [mem_singleton.mp hx]
        trivial
  · cases stopped <;> cases op <;> exact absurd ha not_mem_nil

theorem only_start_opensNothing (stopped : Bool) (old : Bytes) :
    Only OpensNothing (start .removeFile stopped old) := by
  refine ⟨fun x hx => ?_, fun a ha => ?_⟩
  · cases stopped with
    | true => exact absurd hx not_mem_nil
    | false =>
      rw [mem_singleton.mp hx]
      trivial
  · cases stopped <;> exact absurd ha not_mem_nil

theorem Only.closed_eq (h : Only KeepsOpen s) : s.closed = [] := by
  refine filterMap_eq_nil_iff.mpr fun a ha => ?_
  obtain ⟨x, r⟩ := a
  have hx := h.2 _ ha
  cases x with
  | close fd => exact absurd hx id
  | openat | statx | read | write | unlinkat => rfl

theorem Only.opened_eq (h : Only OpensNothing s) : s.opened = [] := by
  refine filterMap_eq_nil_iff.mpr fun a ha => ?_
  obtain ⟨x, r⟩ := a
  have hx := h.2 _ ha
  cases x with
  | openat mode => exact absurd hx id
  | close | statx | read | write | unlinkat => rfl

end

/-- Every descriptor that was opened is closed as often. -/
def Balanced (s : FileCall) : Prop := ∀ fd, s.closed.count fd = s.opened.count fd

/-- In every run of every operation nothing is closed, so the descriptors are balanced exactly as
long as no open has succeeded; `removeFile` opens nothing. -/
theorem balanced_iff (cfg : FileSettings) (file old : Bytes) (op : FileOperation) (s : FileCall)
    (h : Reaches cfg file (fun _ _ => True) op old s) :
    s.closed = [] ∧ (Balanced s ↔ s.opened = []) ∧ (op = .removeFile → Balanced s) := by
  have hclosed : s.closed = [] := by
    refine (Only.run (fun x hx => ?_) (fun stopped => only_start_keepsOpen op stopped old) h).closed_eq
    cases x with
    | close fd => exact absurd hx id
    | openat | statx | read | write | unlinkat => trivial
  have hiff : Balanced s ↔ s.opened = [] := by
    constructor
    · intro hbalanced
      refine eq_nil_iff_forall_not_mem.mpr fun fd hfd => ?_
      have hcount := hbalanced fd
      rw [hclosed, count_nil] at hcount
      exact count_eq_zero.mp hcount.symm hfd
    · intro hopened fd
      rw [hclosed, hopened]
  refine ⟨hclosed, hiff, fun hop => ?_⟩
  subst hop
  refine hiff.mpr (Only.run (fun x hx => ?_) (fun stopped => only_start_opensNothing stopped old)
    h).opened_eq
  cases x with
  | openat mode => exact absurd hx id
  | close | statx | read | write | unlinkat => trivial

/-- A file that does not exist leaves nothing open. -/
theorem balanced_iff_missing : ∃ s,
    Reaches ⟨2, 2, 10, by decide, by decide⟩ [1] (fun _ _ => True) .readWholeFile [] s ∧
    s.finished = [.error .fileDoesNotExist] ∧ Balanced s := by
  have hrun : Reaches ⟨2, 2, 10, by decide, by decide⟩ [1] (fun _ _ => True) .readWholeFile [] _ :=
    reaches_exec [.complete 0 (-2)] rfl
  exact ⟨_, hrun, rfl, (balanced_iff _ _ _ _ _ hrun).2.1.mpr rfl⟩

/-- Calls that return with their descriptors open: a read, a copy whose size is not known, a
write. -/
theorem descriptors_left_open :
    (∃ s, Reaches ⟨2, 2, 10, by decide, by decide⟩ [1] (fun _ _ => True) .readWholeFile [] s ∧
      s.finished = [.ok [1]] ∧ s.opened = [5] ∧ s.closed = []) ∧
    (∃ s, Reaches ⟨2, 2, 10, by decide, by decide⟩ [1] (fun _ _ => True) .copyFile [] s ∧
      s.finished = [.error .ioError] ∧ s.opened = [5, 6] ∧ s.closed = []) ∧
    ∃ s, Reaches ⟨2, 2, 10, by decide, by decide⟩ [1] (fun _ _ => True) (.writeFile [1]) [] s ∧
      s.finished = [.ok []] ∧ s.opened = [5] ∧ s.closed = [] :=
  ⟨⟨_, reaches_exec [.complete 0 5, .complete 0 0, .complete 0 1] rfl, rfl, rfl, rfl⟩,
    ⟨_, reaches_exec [.complete 0 5, .complete 0 6, .complete 0 (-5)] rfl, rfl, rfl, rfl⟩,
    ⟨_, reaches_exec [.complete 0 5, .complete 0 1] rfl, rfl, rfl, rfl⟩⟩

end FileCall

end Ichor
