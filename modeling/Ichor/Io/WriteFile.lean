import Ichor.Io.ReadWholeFile

/-! `writeFile` and `appendFile` over whole runs: what the kernel answers to the write is not looked
at, so a success says nothing about it. -/
namespace Ichor
open List

namespace FileCall

/-- The two operations that write a text, which differ in the mode of the open. -/
def writing (append : Bool) (contents : Bytes) : FileOperation :=
  if append then .appendFile contents else .writeFile contents

/-- What the file begins with: an appended text follows what was there. -/
def base (append : Bool) (old : Bytes) : Bytes := if append then old else []

def openMode (append : Bool) : OpenMode := if append then .append else .truncate

/-- What is submitted of a text: its length is cut to 32 bits. -/
def submittedText (contents : Bytes) : Bytes := contents.take (contents.length % 2 ^ 32)

/-- The kernel has answered the write with the length of the whole text. -/
def AllWritten (s : FileCall) (contents : Bytes) : Prop :=
  ∃ fd data last r, (.write fd data last, r) ∈ s.answers ∧ r.toNat = contents.length

/-- Where the coroutine is suspended. -/
inductive WritePhase (append : Bool) (contents old : Bytes) (s : FileCall) : Prop where
  | opening : s.finished = [] → s.pending = [.openat (openMode append)] → s.answers = [] →
      s.target = old → WritePhase append contents old s
  | writing (fd : ℤ) : s.finished = [] → s.pending = [.write fd (submittedText contents) true] →
      s.answers = [(.openat (openMode append), fd)] → s.target = base append old →
      WritePhase append contents old s
  | failed (e : IOError) : s.finished = [.error e] → s.pending = [] →
      WritePhase append contents old s
  | returned (fd r : ℤ) : s.finished = [.ok []] → s.pending = [] →
      r ≤ (submittedText contents).length →
      s.answers = [(.openat (openMode append), fd), (.write fd (submittedText contents) true, r)] →
      s.target = base append old ++ (submittedText contents).take r.toNat →
      WritePhase append contents old s

section
variable {cfg : FileSettings} {file contents old : Bytes} {append : Bool} {s : FileCall}

theorem handle_open (r : ℤ) :
    handle cfg file (writing append contents) s (.openat (openMode append)) r =
      { s with res := r }.afterOpenForWriting contents := by
  cases append <;> rfl

theorem handle_write (fd : ℤ) (data : Bytes) (last : Bool) (r : ℤ) :
    handle cfg file (writing append contents) s (.write fd data last) r =
      { s with res := r }.afterWrite := by
  cases append <;> rfl

theorem written_open {r : ℤ} (hr : 0 ≤ r) :
    written old r (.openat (openMode append)) = base append old := by
  cases append with
  | true => rfl
  | false => exact if_neg (by omega)

theorem writePhase_start (stopped : Bool) :
    WritePhase append contents old (start (writing append contents) stopped old) := by
  cases stopped with
  | true => exact .failed _ rfl rfl
  | false => cases append <;> exact .opening rfl rfl rfl rfl

theorem WritePhase.stop (h : WritePhase append contents old s) :
    WritePhase append contents old { s with shouldStop := true } := by
  cases h with
  | opening hfinished hpending hanswers htarget =>
    exact .opening hfinished hpending hanswers htarget
  | writing fd hfinished hpending hanswers htarget =>
    exact .writing fd hfinished hpending hanswers htarget
  | failed e hfinished hpending => exact .failed e hfinished hpending
  | returned fd r hfinished hpending hr hanswers htarget =>
    exact .returned fd r hfinished hpending hr hanswers htarget

theorem writePhase_afterOpen (hfinished : s.finished = []) (hpending : s.pending = [])
    (hanswers : s.answers = [(.openat (openMode append), s.res)])
    (htarget : 0 ≤ s.res → s.target = base append old) :
    WritePhase append contents old (s.afterOpenForWriting contents) := by
  refine checked_cases (P := WritePhase append contents old) (fun e => ?_) fun _ hres => ?_
  · exact .failed e (by simp [finish, hfinished]) hpending
  · exact .writing s.res hfinished (by simp [submit, hpending, submittedText]) hanswers
      (htarget hres)

theorem WritePhase.step (h : WritePhase append contents old s) {a : Act} {t : FileCall}
    (ht : act cfg file (FileCall.writing append contents) a s = some t) :
    WritePhase append contents old t := by
  cases a with
  | stop =>
    rw [act_stop ht]
    exact h.stop
  | complete index r =>
    obtain ⟨-, x, hx, hanswer, rfl⟩ := act_complete ht
    have hsingle (y : FileOp) (hpending : s.pending = [y]) : index = 0 ∧ x = y := by
      rw [hpending] at hx
      cases index with
      | zero => exact ⟨rfl, (Option.some.inj hx).symm⟩
      | succ n => simp at hx
    cases h with
    | opening hfinished hpending hanswers htarget =>
      obtain ⟨rfl, rfl⟩ := hsingle _ hpending
      rw [handle_open]
      refine writePhase_afterOpen hfinished ?_ ?_ fun hr => ?_
      · simp [answered, hpending]
      · simp [answered, hanswers]
      · show written s.target r _ = _
        rw [htarget]
        exact written_open hr
    | writing fd hfinished hpending hanswers htarget =>
      obtain ⟨rfl, rfl⟩ := hsingle _ hpending
      rw [handle_write]
      refine .returned fd r ?_ ?_ (of_decide_eq_true hanswer) ?_ ?_
      · simp [afterWrite, finish, answered, hfinished]
      · simp [afterWrite, finish, answered, hpending]
      · simp [afterWrite, finish, answered, hanswers]
      · show s.target ++ (submittedText contents).take r.toNat = _
        rw [htarget]
    | failed e _ hpending | returned fd r _ hpending =>
      rw [hpending] at hx
      simp at hx

theorem WritePhase.run
    (h : Reaches cfg file (fun _ _ => True) (FileCall.writing append contents) old s) :
    WritePhase append contents old s := by
  obtain ⟨stopped, hrun⟩ := h
  exact hrun.invariant (WritePhase append contents old) (writePhase_start stopped)
    fun _ _ _ hphase _ ht => hphase.step ht

theorem length_submittedText_le (contents : Bytes) :
    (submittedText contents).length ≤ contents.length := by
  rw [submittedText, length_take]
  exact Nat.min_le_right _ _

theorem submittedText_take_iff {r : ℤ} (hr : r ≤ (submittedText contents).length) :
    (submittedText contents).take r.toNat = contents ↔ r.toNat = contents.length := by
  have hle := length_submittedText_le contents
  constructor
  · intro heq
    have hlength := congrArg List.length heq
    rw [length_take] at hlength
    omega
  · intro heq
    have hfull : contents.length ≤ contents.length % 2 ^ 32 := by
      have hmin : (submittedText contents).length ≤ contents.length % 2 ^ 32 := by
        rw [submittedText, length_take]
        exact Nat.min_le_left _ _
      omega
    rw [submittedText, take_of_length_le hfull]
    exact take_of_length_le (by omega)

theorem WritePhase.allWritten (h : WritePhase append contents old s) {value : Bytes}
    (hok : .ok value ∈ s.finished) :
    s.target = base append old ++ contents ↔ AllWritten s contents := by
  cases h with
  | opening hfinished | writing fd hfinished =>
    rw [hfinished] at hok
    exact absurd hok not_mem_nil
  | failed e hfinished =>
    rw [hfinished] at hok
    exact nomatch mem_singleton.mp hok
  | returned fd r _ _ hr hanswers htarget =>
    rw [htarget, append_cancel_left_eq, submittedText_take_iff hr]
    constructor
    · intro heq
      refine ⟨fd, submittedText contents, true, r, ?_, heq⟩
      rw [hanswers]
      exact mem_cons_of_mem _ mem_cons_self
    · rintro ⟨fd', data, last, r', hmem, heq⟩
      rw [hanswers] at hmem
      simp only [mem_cons, Prod.mk.injEq, reduceCtorEq, false_and, not_mem_nil, or_false,
        false_or] at hmem
      rw [← hmem.2]
      exact heq

end

/-- In every run a success of `writeFile` means that the file is the text, and one of `appendFile`
that the text was added, exactly if the kernel has answered the write with the length of the
text. -/
theorem write_success_iff (cfg : FileSettings) (file contents old : Bytes) (s : FileCall)
    (value : Bytes) (hok : .ok value ∈ s.finished) :
    (Reaches cfg file (fun _ _ => True) (.writeFile contents) old s →
      (s.target = contents ↔ AllWritten s contents)) ∧
    (Reaches cfg file (fun _ _ => True) (.appendFile contents) old s →
      (s.target = old ++ contents ↔ AllWritten s contents)) := by
  constructor
  · intro h
    have hphase : WritePhase false contents old s := WritePhase.run h
    exact hphase.allWritten hok
  · intro h
    have hphase : WritePhase true contents old s := WritePhase.run h
    exact hphase.allWritten hok

/-- Two bytes are written and two are appended to one. -/
theorem write_success_iff_two :
    (∃ s, Reaches ⟨1, 1, 10, by decide, by decide⟩ [] (fun _ _ => True) (.writeFile [1, 2]) [7] s ∧
      .ok [] ∈ s.finished ∧ s.target = [1, 2]) ∧
    ∃ s, Reaches ⟨1, 1, 10, by decide, by decide⟩ [] (fun _ _ => True) (.appendFile [1, 2]) [7] s ∧
      .ok [] ∈ s.finished ∧ s.target = [7, 1, 2] := by
  have hwrite : Reaches ⟨1, 1, 10, by decide, by decide⟩ [] (fun _ _ => True) (.writeFile [1, 2])
      [7] _ := reaches_exec [.complete 0 5, .complete 0 2] rfl
  have happend : Reaches ⟨1, 1, 10, by decide, by decide⟩ [] (fun _ _ => True)
      (.appendFile [1, 2]) [7] _ := reaches_exec [.complete 0 5, .complete 0 2] rfl
  have hall : ∀ s : FileCall, s.answers.getLast? = some (.write 5 [1, 2] true, 2) →
      AllWritten s [1, 2] :=
    fun s h => ⟨5, [1, 2], true, 2, mem_of_getLast? h, rfl⟩
  exact ⟨⟨_, hwrite, mem_cons_self,
      ((write_success_iff _ _ _ _ _ [] mem_cons_self).1 hwrite).mpr (hall _ rfl)⟩,
    ⟨_, happend, mem_cons_self,
      ((write_success_iff _ _ _ _ _ [] mem_cons_self).2 happend).mpr (hall _ rfl)⟩⟩

theorem writeFile_answered (contents : Bytes) (r : ℤ) (hr : r ≤ (submittedText contents).length) :
    ∃ s, Reaches ⟨1, 1, 10, by decide, by decide⟩ [] (fun _ _ => True) (.writeFile contents) [] s ∧
      s.finished = [.ok []] ∧ s.target = (submittedText contents).take r.toNat := by
  refine ⟨_, ⟨false, .tail (.tail .refl ⟨.complete 0 5, trivial, rfl⟩)
    ⟨.complete 0 r, trivial, if_pos (decide_eq_true hr)⟩⟩, rfl, rfl⟩

/-- A short write and a failed write are successes, and a text of `2 ^ 32` bytes is not written at
all. -/
theorem write_success_without_contents :
    (∃ s, Reaches ⟨1, 1, 10, by decide, by decide⟩ [] (fun _ _ => True) (.writeFile [1, 2]) [] s ∧
      s.finished = [.ok []] ∧ s.target = [1]) ∧
    (∃ s, Reaches ⟨1, 1, 10, by decide, by decide⟩ [] (fun _ _ => True) (.appendFile [1, 2]) [7] s ∧
      s.finished = [.ok []] ∧ s.target = [7]) ∧
    ∃ contents s, contents.length = 2 ^ 32 ∧
      Reaches ⟨1, 1, 10, by decide, by decide⟩ [] (fun _ _ => True) (.writeFile contents) [] s ∧
      s.finished = [.ok []] ∧ s.target = [] := by
  refine ⟨⟨_, reaches_exec [.complete 0 5, .complete 0 1] rfl, rfl, rfl⟩,
    ⟨_, reaches_exec [.complete 0 5, .complete 0 (-28)] rfl, rfl, rfl⟩, ?_⟩
  obtain ⟨s, hreaches, hfinished, htarget⟩ :=
    writeFile_answered (List.replicate (2 ^ 32) 0) 0 (Int.natCast_nonneg _)
  exact ⟨_, s, length_replicate, hreaches, hfinished, by rw [htarget]; rfl⟩

end FileCall

end Ichor
