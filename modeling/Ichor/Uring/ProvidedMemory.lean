import Ichor.Io.Errors
import Ichor.Tcp.Receiving
import Mathlib.Algebra.Group.Nat.Defs
import Mathlib.Data.List.Basic

/-! The memory behind a ring of provided buffers: one allocation that is cut into entries of equal
size. Sizes and offsets are computed in 32 bit, the pointer of the loop in full width. -/
namespace Ichor
open List Nat

/-- What the system answers while the buffer is set up. -/
structure BufferSystem where
  /-- The kernel is older than 5.19.0. -/
  kernelTooOld : Bool
  aligned_alloc : ℕ → Option ℕ
  /-- The results of the four `madvise` calls. -/
  madvise : Fin 4 → ℤ
  /-- The error of `io_uring_setup_buf_ring`, or the address of the ring. -/
  setupBufRing : Except ℤ ℕ

/-- The memory of one entry, as the ring is told. -/
structure Region where
  address : ℕ
  length : ℕ
  bid : ℕ

def Region.Disjoint (r q : Region) : Prop :=
  r.address + r.length ≤ q.address ∨ q.address + q.length ≤ r.address

/-- The memory of an `IOUringBuf`. -/
structure ProvidedMemory where
  entries : UInt16
  entryBufferSize : UInt32
  entriesBuf : ℕ
  allocated : ℕ
  regions : List Region

namespace ProvidedMemory

/-- The loop that adds the entries to the ring. -/
def addEntries (entryBufferSize : ℕ) : ℕ → ℕ → ℕ → List Region
  | 0, _, _ => []
  | n + 1, i, ptr =>
    ⟨ptr, entryBufferSize, i⟩ :: addEntries entryBufferSize n (i + 1) (ptr + entryBufferSize)

def createProvidedBuffer (k : BufferSystem) (entries : UInt16) (entryBufferSize : UInt32) :
    Except IOError ProvidedMemory :=
  if entries = 0 then .error .notSupported
  else if 32768 < entries then .error .messageSizeTooBig
  else if entries &&& (entries - 1) ≠ 0 then .error .notSupported
  else if k.kernelTooOld then .error .kernelTooOld
  else
    let size := (entries.toUInt32 * entryBufferSize).toNat
    match k.aligned_alloc size with
    | none => .error .noMemoryAvailable
    | some entriesBuf =>
      if k.madvise 0 ≠ 0 ∨ k.madvise 1 ≠ 0 then .error .notSupported
      else match k.setupBufRing with
        | .error ret => .error (mapErrnoToError (-ret))
        | .ok _ =>
          if k.madvise 2 ≠ 0 ∨ k.madvise 3 ≠ 0 then .error .notSupported
          else .ok ⟨entries, entryBufferSize, entriesBuf, size,
            addEntries entryBufferSize.toNat entries.toNat 0 entriesBuf⟩

variable (m : ProvidedMemory)

/-- The bytes that a hardened build reads for an entry; `none` where it terminates. -/
def readMemory (entry : UInt32) : Option Region :=
  if m.entries.toUInt32 < entry then none
  else some ⟨m.entriesBuf + (m.entryBufferSize * entry).toNat, m.entryBufferSize.toNat, entry.toNat⟩

/-- The bytes that `markEntryAvailableAgain` offers to the kernel. -/
def markEntryAvailableAgain (entry : UInt16) : Option Region :=
  if m.entries < entry then none
  else some ⟨m.entriesBuf + (m.entryBufferSize * entry.toUInt32).toNat, m.entryBufferSize.toNat,
    entry.toNat⟩

theorem addEntries_eq (size n i ptr : ℕ) :
    addEntries size n i ptr = (List.range n).map fun j => ⟨ptr + j * size, size, i + j⟩ := by
  induction n generalizing i ptr with
  | zero => rfl
  | succ n ih =>
    rw [addEntries, ih, range_succ_eq_map, map_cons, map_map, zero_mul]
    congr 1
    apply map_congr_left
    intro j _
    simp only [Function.comp, Region.mk.injEq, true_and]
    constructor
    · rw [add_assoc, succ_mul, add_comm size]
    · omega

theorem of_created {k : BufferSystem} {entries : UInt16} {size : UInt32} {m : ProvidedMemory}
    (h : createProvidedBuffer k entries size = .ok m) :
    m.entries = entries ∧ m.entryBufferSize = size ∧
      m.allocated = entries.toNat * size.toNat % 2 ^ 32 ∧
      m.regions = (List.range entries.toNat).map fun j =>
        ⟨m.entriesBuf + j * size.toNat, size.toNat, j⟩ := by
  unfold createProvidedBuffer at h
  cases hbuf : k.aligned_alloc (entries.toUInt32 * size).toNat with
  | none =>
    simp only [hbuf] at h
    split_ifs at h
  | some entriesBuf =>
    cases hring : k.setupBufRing with
    | error ret =>
      simp only [hbuf, hring] at h
      split_ifs at h
    | ok ring =>
      simp only [hbuf, hring] at h
      split_ifs at h
      cases h
      refine ⟨rfl, rfl, ?_, ?_⟩
      · rw [UInt32.toNat_mul, UInt16.toNat_toUInt32]
      · simp only [addEntries_eq, zero_add]

/-- The ring that the receiver works with has the entries and the slots of the memory. -/
theorem ring_of_created {k : BufferSystem} {entries : UInt16} {size : UInt32} {m : ProvidedMemory}
    (h : createProvidedBuffer k entries size = .ok m) :
    ∃ ring, Ichor.createProvidedBuffer entries.toNat size.toNat = some ring ∧
      ring.entries = m.entries.toNat ∧ ring.entryBufferSize = m.entryBufferSize.toNat ∧
      m.regions.map Region.bid = (List.range ring.entries).map ring.bufRing := by
  obtain ⟨hentries, hsize, -, hregions⟩ := of_created h
  unfold createProvidedBuffer at h
  split at h
  · cases h
  split at h
  · cases h
  split at h
  · cases h
  rename_i h0 hbig hpow
  have h0' : entries.toNat ≠ 0 := fun hzero => h0 (UInt16.toNat_inj.mp hzero)
  have hbig' : ¬32768 < entries.toNat := fun hlt => hbig (UInt16.lt_iff_toNat_lt.mpr hlt)
  have hpow' : entries.toNat &&& (entries.toNat - 1) = 0 := by
    have hone : (1 : UInt16) ≤ entries := UInt16.le_iff_toNat_le.mpr (pos_of_ne_zero h0')
    have hand := congrArg UInt16.toNat (not_not.mp hpow)
    rwa [UInt16.toNat_and, UInt16.toNat_sub_of_le _ _ hone] at hand
  refine ⟨_, (if_neg h0').trans ((if_neg hbig').trans (if_neg (not_not.mpr hpow'))), ?_, ?_, ?_⟩
  · rw [hentries]
  · rw [hsize]
  · rw [hregions, map_map]
    rfl

theorem disjoint_slices (base size i j : ℕ) (h : i < j) :
    Region.Disjoint ⟨base + i * size, size, i⟩ ⟨base + j * size, size, j⟩ := by
  left
  have hle : (i + 1) * size ≤ j * size := mul_le_mul_right size h
  rw [succ_mul] at hle
  show base + i * size + size ≤ base + j * size
  omega

/-- When the total size fits into 32 bit, the entries are disjoint pieces of the allocation, and an
index below the number of entries leads to its own piece. -/
theorem regions_of_created (k : BufferSystem) (entries : UInt16) (size : UInt32) (m : ProvidedMemory)
    (h : createProvidedBuffer k entries size = .ok m) (hfit : entries.toNat * size.toNat < 2 ^ 32) :
    m.allocated = entries.toNat * size.toNat ∧
      m.regions.length = entries.toNat ∧ m.regions.Pairwise Region.Disjoint ∧
      (∀ r ∈ m.regions,
        m.entriesBuf ≤ r.address ∧ r.address + r.length ≤ m.entriesBuf + m.allocated) ∧
      (∀ entry r, m.readMemory entry = some r → entry ≠ entries.toUInt32 →
        r ∈ m.regions ∧ r.bid = entry.toNat ∧ r.address = m.entriesBuf + entry.toNat * size.toNat) ∧
      (∀ entry r, m.markEntryAvailableAgain entry = some r → entry ≠ entries →
        r ∈ m.regions ∧ r.bid = entry.toNat ∧
          r.address = m.entriesBuf + entry.toNat * size.toNat) := by
  obtain ⟨hentries, hsize, halloc, hregions⟩ := of_created h
  rw [mod_eq_of_lt hfit] at halloc
  -- The region of an index, as the two accessors compute it.
  have hpiece : ∀ entry : UInt32, entry.toNat < entries.toNat →
      (⟨m.entriesBuf + (m.entryBufferSize * entry).toNat, m.entryBufferSize.toNat, entry.toNat⟩ :
        Region) = ⟨m.entriesBuf + entry.toNat * size.toNat, size.toNat, entry.toNat⟩ ∧
      (⟨m.entriesBuf + entry.toNat * size.toNat, size.toNat, entry.toNat⟩ : Region) ∈ m.regions := by
    intro entry hlt
    have hle : entry.toNat * size.toNat ≤ entries.toNat * size.toNat :=
      mul_le_mul_right _ (le_of_lt hlt)
    rw [hsize, UInt32.toNat_mul, mul_comm, mod_eq_of_lt (lt_of_le_of_lt hle hfit), hregions]
    exact ⟨rfl, mem_map.mpr ⟨entry.toNat, mem_range.mpr hlt, rfl⟩⟩
  refine ⟨halloc, by rw [hregions, length_map, length_range], ?_, ?_, ?_, ?_⟩
  · rw [hregions, pairwise_map]
    exact pairwise_lt_range.imp fun hij => disjoint_slices _ _ _ _ hij
  · intro r hr
    rw [hregions] at hr
    obtain ⟨j, hj, rfl⟩ := mem_map.mp hr
    have hle : (j + 1) * size.toNat ≤ entries.toNat * size.toNat :=
      mul_le_mul_right _ (mem_range.mp hj)
    rw [succ_mul] at hle
    rw [halloc]
    dsimp only
    omega
  · intro entry r hr hne
    unfold readMemory at hr
    split_ifs at hr with hle
    cases hr
    have hlt : entry.toNat < entries.toNat := by
      rw [hentries, UInt32.lt_iff_toNat_lt, UInt16.toNat_toUInt32] at hle
      have hne' : entry.toNat ≠ entries.toUInt32.toNat := fun heq => hne (UInt32.toNat_inj.mp heq)
      rw [UInt16.toNat_toUInt32] at hne'
      omega
    obtain ⟨heq, hmem⟩ := hpiece entry hlt
    rw [heq]
    exact ⟨hmem, rfl, rfl⟩
  · intro entry r hr hne
    unfold markEntryAvailableAgain at hr
    split_ifs at hr with hle
    cases hr
    have hlt : entry.toUInt32.toNat < entries.toNat := by
      rw [hentries, UInt16.lt_iff_toNat_lt] at hle
      have hne' : entry.toNat ≠ entries.toNat := fun heq => hne (UInt16.toNat_inj.mp heq)
      rw [UInt16.toNat_toUInt32]
      omega
    obtain ⟨heq, hmem⟩ := hpiece entry.toUInt32 hlt
    rw [UInt16.toNat_toUInt32] at heq hmem
    rw [heq]
    exact ⟨hmem, rfl, rfl⟩

/-- A system that grants every request. -/
def grants : BufferSystem := ⟨false, fun _ => some 4096, fun _ => 0, .ok 0⟩

/-- Sixteen entries of 8192 bytes. -/
theorem regions_of_created_sixteen : ∃ m, createProvidedBuffer grants 16 8192 = .ok m ∧
    m.allocated = 131072 ∧ m.regions.Pairwise Region.Disjoint := by
  have h : createProvidedBuffer grants 16 8192 = .ok
      ⟨16, 8192, 4096, 131072, addEntries 8192 16 0 4096⟩ := rfl
  have hall := regions_of_created grants 16 8192 _ h (by decide)
  exact ⟨_, h, hall.1, hall.2.2.1⟩

/-- With 32768 entries of 131072 bytes nothing is allocated, and the index that equals the number of
entries is accepted although it lies behind the allocation. -/
theorem regions_outside :
    (∃ m, createProvidedBuffer grants 32768 131072 = .ok m ∧ m.allocated = 0) ∧
      ∃ m, createProvidedBuffer grants 1 8192 = .ok m ∧ m.allocated = 8192 ∧
        (m.readMemory 1).map Region.address = some (m.entriesBuf + 8192) ∧
        (m.markEntryAvailableAgain 1).map Region.address = some (m.entriesBuf + 8192) :=
  ⟨⟨_, rfl, rfl⟩, _, rfl, rfl, rfl, rfl⟩

end ProvidedMemory

end Ichor
