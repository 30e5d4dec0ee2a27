import Berberis.TinyLoader.TinyElfLoader

/-!
# Zeroing the Tail of a File Mapping

After a fixed private writable mapping of a file, the bytes behind a segment's file contents are
cleared. The ELF start and the table are whatever was found. File offsets are natural numbers:
their sums are taken not to overflow.
-/

namespace Berberis.SysMmanEmulation

open List TinyLoader

variable (page : PageSize) (elfBase : Nat) (phdrs : List ElfPhdr)

/-- Another segment has file contents between the two offsets. -/
def overlapsOtherSegment (i zeroFileStart zeroFileEnd : Nat) : Bool :=
  phdrs.zipIdx.any fun (p, j) => j ≠ i && p.ptLoad && p.pFilesz ≠ 0 &&
    elfBase + p.pOffset < zeroFileEnd && zeroFileStart < elfBase + p.pOffset + p.pFilesz

/-- The `memset` for one segment. The sums are those of 64-bit words as long as none of
    them reaches `2 ^ 64`. -/
def zeroSegment (result mappedLength offset : Nat) : ElfPhdr × Nat → Option (Nat × Nat)
  | (p, i) =>
    let segFileOffset := elfBase + p.pOffset
    let segMaxMapping := alignUp (segFileOffset - offset + p.pMemsz) page.size
    let segFileEnd := segFileOffset + p.pFilesz
    let bssStart := segFileEnd - offset
    let bytesToZero := min (mappedLength - bssStart) (p.pMemsz - p.pFilesz)
    if p.ptLoad = false ∨ p.pMemsz ≤ p.pFilesz then none
    else if offset ≠ alignDown segFileOffset page.size then none
    else if segMaxMapping < mappedLength then none
    else if offset ≤ segFileEnd ∧ segFileEnd < offset + mappedLength ∧
        0 < bytesToZero ∧ bssStart < mappedLength ∧
        overlapsOtherSegment elfBase phdrs i (offset + bssStart)
          (offset + bssStart + bytesToZero) = false then
      some (result + bssStart, bytesToZero)
    else none

/-- The `memset`s after a mapping, as addresses and sizes. -/
def mmapForGuest (result length offset : Nat) : List (Nat × Nat) :=
  phdrs.zipIdx.filterMap (zeroSegment page elfBase phdrs result (alignUp length page.size) offset)

/-- The byte is one of the segment's file contents. -/
def InFile (p : ElfPhdr) (b : Nat) : Prop :=
  p.ptLoad = true ∧ elfBase + p.pOffset ≤ b ∧ b < elfBase + p.pOffset + p.pFilesz

theorem not_inFile {elfBase i start stop j b : Nat} {phdrs : List ElfPhdr} {p : ElfPhdr}
    (h : overlapsOtherSegment elfBase phdrs i start stop = false) (hp : phdrs[j]? = some p)
    (hne : j ≠ i) (hb : start ≤ b ∧ b < stop) : ¬ InFile elfBase p b := by
  rintro ⟨hload, hfile⟩
  rw [overlapsOtherSegment, any_eq_false] at h
  have hsize : p.pFilesz ≠ 0 := by omega
  have hlt : elfBase + p.pOffset < stop := by omega
  have hgt : start < elfBase + p.pOffset + p.pFilesz := by omega
  exact h (p, j) (mk_mem_zipIdx_iff_getElem?.mpr hp) (by simp [hne, hload, hsize, hlt, hgt])

/-- Every byte that is cleared is in the mapping, and is the image of no segment's contents. -/
theorem mmapForGuest_zeroes_bss (result length offset : Nat) (m : Nat × Nat)
    (hm : m ∈ mmapForGuest page elfBase phdrs result length offset) (a : Nat)
    (ha : m.1 ≤ a ∧ a < m.1 + m.2) : result ≤ a ∧ a < result + alignUp length page.size ∧
      ∀ p ∈ phdrs, ¬ InFile elfBase p (offset + (a - result)) := by
  obtain ⟨⟨p, i⟩, hp, h⟩ := mem_filterMap.mp hm
  rw [mk_mem_zipIdx_iff_getElem?] at hp
  unfold zeroSegment at h
  dsimp only at h
  split_ifs at h with h1 h2 h3 h4
  obtain ⟨hle, hlt, hpos, hin, hover⟩ := h4
  cases h
  refine ⟨by omega, by omega, fun q hq => ?_⟩
  obtain ⟨j, hj⟩ := mem_iff_getElem?.mp hq
  by_cases hne : j = i
  · -- The bytes are behind the segment's own contents.
    rw [hne, hp] at hj
    cases hj
    rintro ⟨-, -, hfile⟩
    omega
  · exact not_inFile hover hj hne ⟨by omega, by omega⟩

/-- A segment with `0x234` bytes in the file and `0x500` in memory, and another one with contents
    in the same page. -/
theorem mmapForGuest_zeroes_bss_sharedPage :
    let page : PageSize := ⟨12, PageSize.twelve_le⟩
    let phdrs := [⟨true, 6, 0x1000, 0x1000, 0x234, 0x500⟩, ⟨true, 4, 0x1800, 0x1800, 0x100, 0x100⟩]
    (0x70234, 0x2cc) ∈ mmapForGuest page 0 phdrs 0x70000 0x900 0x1000 ∧
      ∀ p ∈ phdrs, ¬ InFile 0 p 0x1300 := by
  intro page phdrs
  have hm : (0x70234, 0x2cc) ∈ mmapForGuest page 0 phdrs 0x70000 0x900 0x1000 := by decide +kernel
  exact ⟨hm, (mmapForGuest_zeroes_bss page 0 phdrs _ _ _ _ hm 0x70300 (by decide)).2.2⟩

end Berberis.SysMmanEmulation
