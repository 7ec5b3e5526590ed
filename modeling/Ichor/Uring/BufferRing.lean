import Ichor.Tcp.Receiving
import Mathlib.Data.Nat.Bitwise

/-! Who owns the provided buffers: an entry is offered to the kernel in one slot of the ring, or the
receiver holds it. `markEntryAvailableAgain` writes the slot at the tail plus the entry, and
publishes the slot at the tail. -/
namespace Ichor
open List Nat

namespace IOUringBuf

variable (b : IOUringBuf)

/-- The slot that a position of the 16 bit counters stands for. -/
def slot (position : ℕ) : ℕ := position &&& (b.entries - 1)

/-- The number of published slots. -/
def pending : ℕ := (b.tail + 2 ^ 16 - b.head) % 2 ^ 16

/-- The slots that the kernel may take, in their order. -/
def publishedSlots : List ℕ := (List.range b.pending).map fun i => b.slot (b.head + i)

/-- The entries in these slots. -/
def published : List ℕ := b.publishedSlots.map b.bufRing

/-- The slot that `markEntryAvailableAgain` writes is not published, and the slot at the tail, which
it publishes, is that slot or holds the entry already. -/
def WritesInPlace (entry : ℕ) : Prop :=
  b.slot (b.tail + entry) ∉ b.publishedSlots ∧
    (b.slot (b.tail + entry) = b.slot b.tail ∨ b.bufRing (b.slot b.tail) = entry)

instance (entry : ℕ) : Decidable (b.WritesInPlace entry) := inferInstanceAs (Decidable (_ ∧ _))

/-- A ring whose counters are 16 bit wide and at most the number of entries apart. -/
structure Counts : Prop where
  size : ∃ k ≤ 15, b.entries = 2 ^ k
  head_lt : b.head < 2 ^ 16
  tail_eq : b.tail = (b.head + b.pending) % 2 ^ 16
  pending_le : b.pending ≤ b.entries

end IOUringBuf

/-- The ring, and the entries that were received and not given back. -/
structure BufferLoan where
  ring : IOUringBuf
  held : List ℕ

namespace BufferLoan

inductive Act where
  /-- The kernel takes the next published buffer and receives into it. -/
  | take (segment : Bytes)
  | markEntryAvailableAgain (entry : ℕ)

def act : Act → BufferLoan → Option BufferLoan
  | .take segment, s =>
    if s.ring.head = s.ring.tail then none
    else some ⟨s.ring.fill segment, s.ring.next :: s.held⟩
  | .markEntryAvailableAgain entry, s =>
    if entry ∈ s.held then some ⟨s.ring.markEntryAvailableAgain entry, s.held.erase entry⟩
    else none

/-- An entry is given back where the ring expects it. -/
def InPlace (s : BufferLoan) : Act → Prop
  | .take _ => True
  | .markEntryAvailableAgain entry => s.ring.WritesInPlace entry

instance (s : BufferLoan) : DecidablePred s.InPlace
  | .take _ => inferInstanceAs (Decidable True)
  | .markEntryAvailableAgain entry => inferInstanceAs (Decidable (s.ring.WritesInPlace entry))

def Reaches (entries entryBufferSize : ℕ) (condition : BufferLoan → Act → Prop)
    (s : BufferLoan) : Prop :=
  ∃ ring, createProvidedBuffer entries entryBufferSize = some ring ∧
    GuardedRuns.Run act condition ⟨ring, []⟩ s

/-- Each entry is published in one slot or held, and not both. -/
structure Owned (entries : ℕ) (s : BufferLoan) : Prop where
  counts : s.ring.Counts
  entries_eq : s.ring.entries = entries
  once : (s.ring.published ++ s.held).Perm (List.range entries)

end BufferLoan

/-! ## The counters -/

namespace IOUringBuf

variable {b : IOUringBuf}

section
variable (h : b.Counts)
include h

theorem Counts.slot_eq (position : ℕ) : b.slot position = position % b.entries := by
  obtain ⟨k, -, hk⟩ := h.size
  unfold slot
  rw [hk, and_two_pow_sub_one_eq_mod]

theorem Counts.slot_wrap (position i : ℕ) :
    b.slot (position % 2 ^ 16 + i) = b.slot (position + i) := by
  have hdvd : b.entries ∣ 2 ^ 16 := by
    obtain ⟨k, hle, hk⟩ := h.size
    exact hk ▸ pow_dvd_pow 2 (by omega)
  rw [h.slot_eq, h.slot_eq, add_mod, mod_mod_of_dvd _ hdvd, ← add_mod]

theorem Counts.slot_tail : b.slot b.tail = b.slot (b.head + b.pending) := by
  have hw := h.slot_wrap (b.head + b.pending) 0
  rw [add_zero, add_zero, ← h.tail_eq] at hw
  exact hw

theorem Counts.entries_le : b.entries ≤ 2 ^ 15 := by
  obtain ⟨k, hle, hk⟩ := h.size
  exact hk ▸ Nat.pow_le_pow_right (by omega) hle

section
variable (hne : b.head ≠ b.tail)
include hne

theorem Counts.pending_pos : 0 < b.pending := by
  apply pos_of_ne_zero
  intro hzero
  have ht := h.tail_eq
  rw [hzero, add_zero, Nat.mod_eq_of_lt h.head_lt] at ht
  exact hne ht.symm

/-! ## One step -/

theorem pending_fill (segment : Bytes) : (b.fill segment).pending = b.pending - 1 := by
  have hpos := h.pending_pos hne
  have htail := h.tail_eq
  have hlt := h.head_lt
  have hle := h.pending_le.trans h.entries_le
  show (b.tail + 2 ^ 16 - (b.head + 1) % 2 ^ 16) % 2 ^ 16 = b.pending - 1
  omega

theorem Counts.fill (segment : Bytes) : (b.fill segment).Counts := by
  have hpend := pending_fill h hne segment
  have hpos := h.pending_pos hne
  have htail := h.tail_eq
  have hle := h.pending_le
  refine ⟨h.size, mod_lt _ (by decide), ?_, ?_⟩
  · rw [hpend]
    show b.tail = ((b.head + 1) % 2 ^ 16 + (b.pending - 1)) % 2 ^ 16
    omega
  · rw [hpend]
    show b.pending - 1 ≤ b.entries
    omega

theorem published_fill (segment : Bytes) : b.published = b.next :: (b.fill segment).published := by
  obtain ⟨n, hn⟩ := exists_eq_succ_of_ne_zero (h.pending_pos hne).ne'
  have hpend : (b.fill segment).pending = n := by
    rw [pending_fill h hne, hn]
    rfl
  have hslot : ∀ i, (b.fill segment).slot ((b.fill segment).head + i) = b.slot (b.head + (i + 1)) := by
    intro i
    show b.slot ((b.head + 1) % 2 ^ 16 + i) = _
    rw [h.slot_wrap, add_assoc, add_comm 1 i]
  unfold published publishedSlots
  rw [hn, hpend, range_succ_eq_map]
  simp only [map_cons, map_map]
  congr 1
  apply map_congr_left
  intro i _
  show b.bufRing (b.slot (b.head + (i + 1))) = b.bufRing ((b.fill segment).slot _)
  rw [hslot]

end

theorem pending_mark (hlt : b.pending < b.entries) (entry : ℕ) :
    (b.markEntryAvailableAgain entry).pending = b.pending + 1 := by
  have htail := h.tail_eq
  have hhead := h.head_lt
  have hle := h.entries_le
  show ((b.tail + 1) % 2 ^ 16 + 2 ^ 16 - b.head) % 2 ^ 16 = b.pending + 1
  omega

theorem Counts.mark (hlt : b.pending < b.entries) (entry : ℕ) :
    (b.markEntryAvailableAgain entry).Counts := by
  have htail := h.tail_eq
  refine ⟨h.size, h.head_lt, ?_, ?_⟩
  · rw [pending_mark h hlt]
    show (b.tail + 1) % 2 ^ 16 = (b.head + (b.pending + 1)) % 2 ^ 16
    omega
  · rw [pending_mark h hlt]
    exact hlt

theorem published_mark (hlt : b.pending < b.entries) {entry : ℕ} (hw : b.WritesInPlace entry) :
    (b.markEntryAvailableAgain entry).published = b.published ++ [entry] := by
  obtain ⟨hfree, hplace⟩ := hw
  have hentry : (b.markEntryAvailableAgain entry).bufRing (b.slot b.tail) = entry := by
    show Function.update b.bufRing (b.slot (b.tail + entry)) entry (b.slot b.tail) = entry
    rcases hplace with hslot | hheld
    · rw [hslot, Function.update_self]
    · rw [Function.update_apply, hheld, ite_self]
  have hslots : (b.markEntryAvailableAgain entry).publishedSlots =
      b.publishedSlots ++ [b.slot b.tail] := by
    unfold publishedSlots
    rw [pending_mark h hlt, range_succ, map_append, map_singleton, h.slot_tail]
    rfl
  have hsame : ∀ x ∈ b.publishedSlots, (b.markEntryAvailableAgain entry).bufRing x = b.bufRing x := by
    intro x hx
    apply Function.update_of_ne
    intro heq
    have hmem : b.slot (b.tail + entry) ∈ b.publishedSlots := by
      rw [show b.slot (b.tail + entry) = x from heq.symm]
      exact hx
    exact hfree hmem
  unfold published
  rw [hslots, map_append, map_singleton, hentry, map_congr_left hsame]

end

end IOUringBuf

/-! ## Whole runs -/

namespace BufferLoan
open IOUringBuf

variable {entries entryBufferSize : ℕ} {s s' : BufferLoan}

theorem Owned.length (h : Owned entries s) : s.ring.pending + s.held.length = entries := by
  have hlen := h.once.length_eq
  simpa [published, publishedSlots] using hlen

theorem Owned.initial {ring : IOUringBuf}
    (h : createProvidedBuffer entries entryBufferSize = some ring) : Owned entries ⟨ring, []⟩ := by
  unfold createProvidedBuffer at h
  split_ifs at h with h0 hbig hpow
  cases h
  rw [not_not, and_sub_one_eq_zero_iff_isPowerOfTwo h0] at hpow
  obtain ⟨k, rfl⟩ := hpow
  have hk : k ≤ 15 := (Nat.pow_le_pow_iff_right (by omega)).mp (show 2 ^ k ≤ 2 ^ 15 by omega)
  have hlt : 2 ^ k < 2 ^ 16 := Nat.pow_lt_pow_right (by omega) (by omega)
  have hpend : ((2 ^ k + 2 ^ 16 - 0) % 2 ^ 16) = 2 ^ k := by
    rw [Nat.sub_zero, Nat.add_mod_right, Nat.mod_eq_of_lt hlt]
  refine ⟨⟨⟨k, hk, rfl⟩, Nat.two_pow_pos 16, ?_, hpend.le⟩, rfl, ?_⟩
  · show 2 ^ k = (0 + (2 ^ k + 2 ^ 16 - 0) % 2 ^ 16) % 2 ^ 16
    rw [hpend, Nat.zero_add, Nat.mod_eq_of_lt hlt]
  · rw [List.append_nil]
    unfold published publishedSlots pending slot
    dsimp only
    rw [hpend, map_map]
    apply List.Perm.of_eq
    conv_rhs => rw [← map_id (List.range (2 ^ k))]
    apply map_congr_left
    intro i hi
    show (0 + i) &&& (2 ^ k - 1) = i
    rw [Nat.zero_add, and_two_pow_sub_one_eq_mod, Nat.mod_eq_of_lt (mem_range.mp hi)]

theorem Owned.take (h : Owned entries s) (hne : s.ring.head ≠ s.ring.tail) (segment : Bytes) :
    Owned entries ⟨s.ring.fill segment, s.ring.next :: s.held⟩ := by
  refine ⟨h.counts.fill hne segment, h.entries_eq, ?_⟩
  have honce := h.once
  rw [published_fill h.counts hne segment] at honce
  exact perm_middle.trans honce

theorem Owned.mark (h : Owned entries s) {entry : ℕ} (hheld : entry ∈ s.held)
    (hw : s.ring.WritesInPlace entry) :
    Owned entries ⟨s.ring.markEntryAvailableAgain entry, s.held.erase entry⟩ := by
  have hlt : s.ring.pending < s.ring.entries := by
    have hlen := h.length
    have hpos := length_pos_of_mem hheld
    rw [h.entries_eq]
    omega
  refine ⟨h.counts.mark hlt entry, h.entries_eq, ?_⟩
  show ((s.ring.markEntryAvailableAgain entry).published ++ s.held.erase entry).Perm _
  rw [published_mark h.counts hlt hw, append_assoc]
  exact ((perm_cons_erase hheld).symm.append_left _).trans h.once

theorem Owned.step (h : Owned entries s) {a : Act} (hplace : s.InPlace a)
    (hs : act a s = some s') : Owned entries s' := by
  cases a with
  | take segment =>
    simp only [act] at hs
    split_ifs at hs with hne
    cases hs
    exact h.take hne segment
  | markEntryAvailableAgain entry =>
    simp only [act] at hs
    split_ifs at hs with hheld
    cases hs
    exact h.mark hheld hplace

theorem owned_of_reaches (h : Reaches entries entryBufferSize InPlace s) : Owned entries s := by
  obtain ⟨ring, hring, hrun⟩ := h
  exact hrun.invariant (Owned entries) (Owned.initial hring) fun _ _ _ ho hg hs => ho.step hg hs

/-- While entries are given back in place, each entry is in one published slot or held once, and the
kernel never gets an entry that is still held. -/
theorem entry_owned_once (h : Reaches entries entryBufferSize InPlace s) :
    (∀ entry, s.ring.published.count entry + s.held.count entry = if entry < entries then 1 else 0) ∧
      (s.ring.head ≠ s.ring.tail → s.ring.next ∉ s.held) := by
  have howned := owned_of_reaches h
  have hcount : ∀ entry, s.ring.published.count entry + s.held.count entry =
      if entry < entries then 1 else 0 := by
    intro entry
    rw [← count_append, howned.once.count_eq, count_range]
  refine ⟨hcount, fun hne hheld => ?_⟩
  have hone := hcount s.ring.next
  rw [published_fill howned.counts hne [], count_cons_self] at hone
  have hpos := count_pos_iff.mpr hheld
  split_ifs at hone <;> omega

/-- The script of a run that starts with a new ring. -/
def play (entries entryBufferSize : ℕ) (test : BufferLoan → Act → Bool) (script : List Act) :
    Option BufferLoan :=
  (createProvidedBuffer entries entryBufferSize).bind fun ring =>
    GuardedRuns.exec act test script ⟨ring, []⟩

theorem reaches_of_play {test : BufferLoan → Act → Bool} {condition : BufferLoan → Act → Prop}
    (hc : ∀ s a, test s a = true → condition s a) {script : List Act}
    (h : play entries entryBufferSize test script = some s) :
    Reaches entries entryBufferSize condition s := by
  obtain ⟨ring, hring, hexec⟩ := Option.bind_eq_some_iff.mp h
  exact ⟨ring, hring, GuardedRuns.exec_run _ _ _ hc hexec⟩

/-- Four entries: all are received, and the first two come back in their order. -/
theorem entry_owned_once_four : ∃ s, Reaches 4 8 InPlace s ∧ s.held = [3, 2] ∧
    s.ring.published.count 1 + s.held.count 1 = 1 := by
  have hplay : (play 4 8 (fun s a => decide (s.InPlace a))
      [.take [], .take [], .take [], .take [], .markEntryAvailableAgain 0,
        .markEntryAvailableAgain 1]).map held = some [3, 2] := by decide +kernel
  obtain ⟨s, hs, hheld⟩ := Option.map_eq_some_iff.mp hplay
  have hreach : Reaches 4 8 InPlace s := reaches_of_play (fun _ _ h => of_decide_eq_true h) hs
  exact ⟨s, hreach, hheld, (entry_owned_once hreach).1 1⟩

/-- Two entries, each given back before the next is received: entry 1 is published twice and entry 0
is lost. -/
theorem entry_published_twice : ∃ s, Reaches 2 8 (fun _ _ => True) s ∧
    s.ring.published = [1, 1] ∧ s.held = [] := by
  have hplay : (play 2 8 (fun _ _ => true)
      [.take [], .markEntryAvailableAgain 0, .take [], .markEntryAvailableAgain 1]).map
        (fun s => (s.ring.published, s.held)) = some ([1, 1], []) := by decide +kernel
  obtain ⟨s, hs, heq⟩ := Option.map_eq_some_iff.mp hplay
  exact ⟨s, reaches_of_play (fun _ _ _ => trivial) hs, congrArg Prod.fst heq, congrArg Prod.snd heq⟩

end BufferLoan

end Ichor
