import Berberis.TinyLoader.TinyElfLoader

/-!
# Segments and their Reservation

The space to reserve is computed from the addresses and the sizes in memory of
the segments. What is then mapped is computed from their offsets and their sizes
in the file. `Fits` is the condition under which the two agree. A segment that is
not larger in the file than in memory, and whose offset and address lie at the
same place of a page, meets it (`fits_loadLimit`). The loader does not check it: a
segment that is larger in the file is mapped beyond the reservation. Nor does it
look at pages that segments share. What is there in the end is what the last
segment puts there, and zeroes at the end of a page count.

## Theorems

* `Placed.segmentOps_inside`: A segment that fits stays inside.
* `Placed.puts_segmentOps`: What a segment puts at an address.
* `loadSegments_inside`: Loading stays inside, and places the bytes of the file,
  exactly when the segments can be loaded.
-/

namespace Berberis.TinyLoader

open List

variable (page : PageSize)

/-- An operation over the reservation changes a byte of memory. Mappings are of whole pages. -/
def MemoryOp.Changes : MemoryOp → Nat → Prop
  | .mapFile addr length _ _, a => addr ≤ a ∧ a < addr + roundUp page length
  | .memset addr length, a => addr ≤ a ∧ a < addr + length
  | .mapAnonymous addr length _, a => addr ≤ a ∧ a < addr + roundUp page length
  | .mapNone _ _, _ => False
  | .munmap _ _, _ => False

/-- The byte of the file that an operation puts at an address, or no byte of it. -/
def MemoryOp.puts : MemoryOp → Nat → Option (Option Nat)
  | .mapFile addr length _ offset, a =>
    if addr ≤ a ∧ a < addr + roundUp page length then some (some (offset + (a - addr))) else none
  | .memset addr length, a => if addr ≤ a ∧ a < addr + length then some none else none
  | .mapAnonymous addr length _, a | .mapNone addr length, a | .munmap addr length, a =>
    if addr ≤ a ∧ a < addr + roundUp page length then some none else none

/-- A byte is in memory that was mapped anew, and not unmapped since. -/
def Held (ops : List MemoryOp) (a : Nat) : Prop :=
  ∃ before after addr length, ops = before ++ .mapNone addr length :: after ∧
    addr ≤ a ∧ a < addr + length ∧
    ∀ start n, .munmap start n ∈ after → ¬(start ≤ a ∧ a < start + roundUp page n)

def Inside (loading : Loading) (reservation : Reservation) : Prop :=
  ∀ op ∈ loading.ops, ∀ a, op.Changes page a →
    reservation.loadStart ≤ a ∧ a < reservation.loadStart + reservation.loadSize ∧
      Held page loading.ops a

/-- In the end each byte of the file that belongs to a segment is where the bias says. -/
def FileBytesPlaced (phdrTable : List ElfPhdr) (loading : Loading) (reservation : Reservation) :
    Prop :=
  ∀ phdr ∈ phdrTable, phdr.ptLoad → ∀ k < phdr.pFilesz,
    lastSome? (·.puts page (wrap (reservation.loadBias + phdr.pVaddr + k))) loading.ops =
      some (some (phdr.pOffset + k))

/-- New mappings are of whole pages below the end of the address space. -/
def MmapFn.Lawful (fns : MmapFn) : Prop :=
  ∀ hint size ptr, fns.mmap hint size = some ptr → page.size ∣ ptr ∧ ptr + size < 2 ^ 64

def NoWrap (phdrTable : List ElfPhdr) : Prop :=
  ∀ phdr ∈ phdrTable, phdr.ptLoad →
    phdr.pVaddr + phdr.pMemsz + page.size ≤ 2 ^ 64 ∧ phdr.pOffset + phdr.pFilesz < 2 ^ 64

/-- What is mapped of the file for a segment ends with the space that is reserved, and its bytes lie
    at the same place of a page in the file and in memory. -/
def Fits (limit : Nat) (phdr : ElfPhdr) : Prop :=
  (phdr.pOffset % page.size + phdr.pFilesz ≠ 0 →
    phdr.pVaddr / page.size * page.size + phdr.pOffset % page.size + phdr.pFilesz ≤ limit) ∧
  (phdr.pFilesz ≠ 0 → phdr.pOffset % page.size = phdr.pVaddr % page.size)

instance (limit : Nat) (phdr : ElfPhdr) : Decidable (Fits page limit phdr) := by
  unfold Fits
  infer_instance

/-- The end of the space that is reserved, before the bias is added. -/
def loadLimit (phdrTable : List ElfPhdr) : Nat :=
  (phdrTableGetLoadSize page phdrTable).2 + (phdrTableGetLoadSize page phdrTable).1

namespace ElfPhdr

variable (phdr : ElfPhdr) (v : Nat)

abbrev InFilePages : Prop :=
  phdr.pVaddr / page.size * page.size ≤ v ∧
    v < phdr.pVaddr / page.size * page.size +
      roundUp page (phdr.pOffset % page.size + phdr.pFilesz)

abbrev InTail : Prop :=
  phdr.pFlags &&& pfW ≠ 0 ∧ phdr.pVaddr + phdr.pFilesz ≤ v ∧
    v < roundUp page (phdr.pVaddr + phdr.pFilesz)

abbrev InZeroPages : Prop :=
  roundUp page (phdr.pVaddr + phdr.pFilesz) ≤ v ∧ v < roundUp page (phdr.pVaddr + phdr.pMemsz)

/-- The byte of the file that a segment leaves at an address, before the bias is added, or none
    where it leaves a zero. -/
def puts : Option (Option Nat) :=
  if phdr.ptLoad then
    if phdr.InZeroPages page v ∨ phdr.InTail page v then some none
    else if phdr.InFilePages page v then
      some (some (phdr.pOffset / page.size * page.size +
        (v - phdr.pVaddr / page.size * page.size)))
    else none
  else none

def writable? : Option Bool :=
  if phdr.ptLoad ∧ (phdr.InZeroPages page v ∨ phdr.InFilePages page v) then
    some (phdr.pFlags &&& pfW != 0)
  else none

end ElfPhdr

/-- The segments fit. At each byte of the file the last segment whose pages hold it leaves that
    byte. Where zeroes are filled in for a segment that maps nothing, the page is one that was
    mapped for a writable segment. -/
structure Loadable (phdrTable : List ElfPhdr) : Prop where
  fits : ∀ phdr ∈ phdrTable, phdr.ptLoad → Fits page (loadLimit page phdrTable) phdr
  bytes : ∀ phdr ∈ phdrTable, phdr.ptLoad → ∀ k < phdr.pFilesz,
    lastSome? (·.puts page (phdr.pVaddr + k)) phdrTable = some (some (phdr.pOffset + k))
  tails : ∀ j phdr, phdrTable[j]? = some phdr → phdr.ptLoad → phdr.pFlags &&& pfW ≠ 0 →
    phdr.pFilesz = 0 → phdr.pOffset % page.size = 0 → phdr.pVaddr % page.size ≠ 0 →
      lastSome? (·.writable? page phdr.pVaddr) (phdrTable.take j) = some true

section LastSome

variable {α β γ : Type} {f g : α → Option β}

theorem lastSome?_append (l l' : List α) :
    lastSome? f (l ++ l') = (lastSome? f l').or (lastSome? f l) := by
  induction l with
  | nil => simp [lastSome?]
  | cons x xs ih => rw [cons_append, lastSome?, ih, lastSome?, Option.or_assoc]

theorem lastSome?_congr {l : List α} (h : ∀ x ∈ l, f x = g x) : lastSome? f l = lastSome? g l := by
  induction l with
  | nil => rfl
  | cons x xs ih =>
    rw [lastSome?, lastSome?, ih fun y hy => h y (mem_cons_of_mem _ hy), h x mem_cons_self]

theorem lastSome?_flatMap (f : β → Option γ) (g : α → List β) (l : List α) :
    lastSome? f (l.flatMap g) = lastSome? (fun x => lastSome? f (g x)) l := by
  induction l with
  | nil => rfl
  | cons x xs ih => rw [flatMap_cons, lastSome?_append, ih, lastSome?]

theorem mem_of_lastSome? {l : List α} {y : β} (h : lastSome? f l = some y) :
    ∃ x ∈ l, f x = some y := by
  induction l with
  | nil => cases h
  | cons x xs ih =>
    rw [lastSome?, Option.or_eq_some_iff] at h
    rcases h with h | ⟨-, h⟩
    · obtain ⟨z, hz, hy⟩ := ih h
      exact ⟨z, mem_cons_of_mem _ hz, hy⟩
    · exact ⟨x, mem_cons_self, h⟩

theorem lastSome?_isSome {l : List α} {x : α} (hmem : x ∈ l) (h : (f x).isSome) :
    (lastSome? f l).isSome := by
  induction l with
  | nil => cases hmem
  | cons z zs ih =>
    rw [lastSome?, Option.isSome_or, Bool.or_eq_true]
    rcases mem_cons.mp hmem with rfl | hmem
    · exact Or.inr h
    · exact Or.inl (ih hmem)

theorem lastSome?_ite (p : Prop) [Decidable p] (x : α) :
    lastSome? f (if p then [x] else []) = if p then f x else none := by
  split
  · rfl
  · rfl

end LastSome

section Range

variable {page}

theorem le_roundUp (n : Nat) : n ≤ roundUp page n := by
  have hlt := Nat.lt_div_mul_add (a := n + page.size - 1) page.size_pos
  unfold roundUp
  omega

theorem add_roundUp_le {a b n : Nat} (ha : page.size ∣ a) (hb : page.size ∣ b)
    (hle : a + n ≤ b) : a + roundUp page n ≤ b := by
  obtain ⟨k, hk⟩ := Nat.dvd_sub hb ha
  have hn : n ≤ k * page.size := by
    rw [Nat.mul_comm]
    omega
  have hdiv : (n + page.size - 1) / page.size ≤ k := by
    rw [← Nat.lt_succ_iff, Nat.div_lt_iff_lt_mul page.size_pos, Nat.succ_mul]
    have hpos := page.size_pos
    omega
  have hmul := Nat.mul_le_mul_right page.size hdiv
  have hcomm := Nat.mul_comm k page.size
  unfold roundUp
  omega

theorem roundUp_add {d : Nat} (hd : page.size ∣ d) (n : Nat) :
    roundUp page (d + n) = d + roundUp page n := by
  obtain ⟨k, rfl⟩ := hd
  have hpos := page.size_pos
  have hsum : page.size * k + n + page.size - 1 = page.size * k + (n + page.size - 1) := by omega
  unfold roundUp
  rw [hsum, Nat.mul_add_div hpos, Nat.add_mul, Nat.mul_comm k]

theorem roundUp_zero : roundUp page 0 = 0 := by
  have hpos := page.size_pos
  unfold roundUp
  rw [Nat.div_eq_of_lt (by omega), Nat.zero_mul]

theorem roundUp_eq_self {n : Nat} (h : page.size ∣ n) : roundUp page n = n := by
  have hadd := roundUp_add h 0
  rwa [roundUp_zero] at hadd

theorem dvd_roundUp (n : Nat) : page.size ∣ roundUp page n := Nat.dvd_mul_left _ _

theorem roundUp_of_mod {n : Nat} (h : n % page.size ≠ 0) :
    roundUp page n = n + (page.size - n % page.size) := by
  have hpos := page.size_pos
  have hlt := Nat.mod_lt n hpos
  have hdiv := Nat.div_add_mod n page.size
  have hone : roundUp page (n % page.size) = page.size := by
    unfold roundUp
    rw [show n % page.size + page.size - 1 = page.size + (n % page.size - 1) by omega,
      Nat.add_div_left _ hpos, Nat.div_eq_of_lt (by omega), Nat.zero_add, Nat.one_mul]
  have hadd := roundUp_add (Nat.dvd_mul_right page.size (n / page.size)) (n % page.size)
  rw [hdiv, hone] at hadd
  omega

/-- A range holds all segments that were seen, and nothing wraps around. -/
structure VaddrRange.Holds (page : PageSize) (seen : List ElfPhdr) (range : VaddrRange) : Prop where
  max_room : range.maxVaddr + page.size ≤ 2 ^ 64
  min_lt : range.minVaddr < 2 ^ 64
  min_le : range.foundPtLoad → range.minVaddr ≤ range.maxVaddr
  max_eq : range.foundPtLoad = false → range.maxVaddr = 0
  segments : ∀ phdr ∈ seen, phdr.ptLoad → range.foundPtLoad ∧
    range.minVaddr ≤ phdr.pVaddr ∧ phdr.pVaddr + phdr.pMemsz ≤ range.maxVaddr

theorem VaddrRange.Holds.extend {seen : List ElfPhdr} {range : VaddrRange} {phdr : ElfPhdr}
    (hrng : range.Holds page seen)
    (hphdr : phdr.ptLoad → phdr.pVaddr + phdr.pMemsz + page.size ≤ 2 ^ 64) :
    (range.extend phdr).Holds page (seen ++ [phdr]) := by
  have hpos := page.size_pos
  by_cases hload : phdr.ptLoad
  · have hroom := hphdr hload
    have hsum : wrap (phdr.pVaddr + phdr.pMemsz) = phdr.pVaddr + phdr.pMemsz :=
      Nat.mod_eq_of_lt (by omega)
    obtain ⟨hmax, hmin, -, -, hsegm⟩ := hrng
    simp only [VaddrRange.extend, hload, if_true, hsum]
    refine ⟨?_, ?_, fun _ => ?_, fun h => (by cases h), ?_⟩
    · dsimp only
      split <;> omega
    · dsimp only
      split <;> omega
    · dsimp only
      split <;> split <;> omega
    · intro other hmem hoth
      refine ⟨rfl, ?_⟩
      dsimp only
      rcases mem_append.mp hmem with hmem | hmem
      · have hold := (hsegm other hmem hoth).2
        split <;> split <;> omega
      · obtain rfl := mem_singleton.mp hmem
        split <;> split <;> omega
  · -- Other headers are not looked at.
    have hsame : range.extend phdr = range := by simp [VaddrRange.extend, hload]
    rw [hsame]
    refine ⟨hrng.max_room, hrng.min_lt, hrng.min_le, hrng.max_eq, ?_⟩
    intro other hmem hoth
    rcases mem_append.mp hmem with hmem | hmem
    · exact hrng.segments other hmem hoth
    · obtain rfl := mem_singleton.mp hmem
      exact absurd hoth hload

theorem VaddrRange.Holds.foldl {phdrTable : List ElfPhdr} (hwrap : NoWrap page phdrTable) :
    ∀ {seen : List ElfPhdr} {range : VaddrRange}, range.Holds page seen →
      (phdrTable.foldl VaddrRange.extend range).Holds page (seen ++ phdrTable) := by
  induction phdrTable with
  | nil =>
    intro seen range hrng
    simpa using hrng
  | cons phdr rest ih =>
    intro seen range hrng
    have hstep := hrng.extend (fun hload => (hwrap phdr mem_cons_self hload).1)
    have hrest := ih (fun other hmem => hwrap other (mem_cons_of_mem _ hmem)) hstep
    rwa [append_assoc, singleton_append] at hrest

/-- The space to reserve is of whole pages, and has room for all segments. -/
structure Room (page : PageSize) (phdrTable : List ElfPhdr) (size addr : Nat) : Prop where
  dvd_size : page.size ∣ size
  dvd_addr : page.size ∣ addr
  add_lt : addr + size < 2 ^ 64
  segments : ∀ phdr ∈ phdrTable, phdr.ptLoad →
    addr ≤ phdr.pVaddr ∧ phdr.pVaddr + phdr.pMemsz ≤ addr + size

theorem phdrTableGetLoadSize_room {phdrTable : List ElfPhdr} (hwrap : NoWrap page phdrTable) :
    Room page phdrTable (phdrTableGetLoadSize page phdrTable).1
      (phdrTableGetLoadSize page phdrTable).2 := by
  have hsize := page.size_le
  have hinit : VaddrRange.Holds page [] ⟨2 ^ 64 - 1, 0, false⟩ :=
    ⟨show 0 + page.size ≤ 2 ^ 64 by omega, show 2 ^ 64 - 1 < 2 ^ 64 by omega,
      fun h => (by cases h), fun _ => rfl, by simp⟩
  have hrng := VaddrRange.Holds.foldl hwrap hinit
  unfold phdrTableGetLoadSize
  generalize phdrTable.foldl VaddrRange.extend ⟨2 ^ 64 - 1, 0, false⟩ = range at hrng
  obtain ⟨low, high, found⟩ := range
  obtain ⟨hmax, hmin, hle, hzero, hsegm⟩ := hrng
  dsimp only at *
  have hup := page.le_alignUp hmax
  have hup_lt := page.alignUp_lt_add hmax
  have hdvd_ := page.dvd_alignUp hmax
  have hdvd_d : ∀ {x}, x < 2 ^ 64 → page.size ∣ alignDown x page.size := by
    intro x hx
    rw [page.alignDown_eq hx]
    exact Nat.dvd_mul_left _ _
  have hlow : (if found then low else 0) ≤ high := by
    cases found with
    | false => simp
    | true => simpa using hle rfl
  have hdown := page.alignDown_le (show (if found then low else 0) < 2 ^ 64 by omega)
  have hdvd := hdvd_d (show (if found then low else 0) < 2 ^ 64 by omega)
  have hsub : wrapSub (alignUp high page.size)
      (alignDown (if found then low else 0) page.size) =
      alignUp high page.size - alignDown (if found then low else 0) page.size := by
    unfold wrapSub
    omega
  unfold pageAlignUp pageAlignDown
  rw [hsub]
  refine ⟨Nat.dvd_sub hdvd_ hdvd, hdvd, by omega, ?_⟩
  intro phdr hmem hload
  obtain ⟨hfound, hge, hend⟩ := hsegm phdr hmem hload
  simp only [hfound, if_true] at hdown ⊢
  omega

/-- A segment that is not larger in the file than in memory fits, if it lies at
    the same place of a page in both. -/
theorem fits_loadLimit {phdrTable : List ElfPhdr} {phdr : ElfPhdr} (hwrap : NoWrap page phdrTable)
    (hmem : phdr ∈ phdrTable) (hload : phdr.ptLoad) (hle : phdr.pFilesz ≤ phdr.pMemsz)
    (hmod : phdr.pOffset % page.size = phdr.pVaddr % page.size) :
    Fits page (loadLimit page phdrTable) phdr := by
  have hend := ((phdrTableGetLoadSize_room hwrap).segments phdr hmem hload).2
  have hdiv := Nat.div_add_mod' phdr.pVaddr page.size
  unfold loadLimit
  exact ⟨fun _ => by omega, fun _ => hmod⟩

end Range

section Reservations

variable {page} {fns : MmapFn} {eType : ElfType} {phdrTable : List ElfPhdr} {align : Nat}

/-- What is expected of the reservation that the loader goes on with. -/
structure Reserved (page : PageSize) (size addr : Nat) (ops : List MemoryOp)
    (reservation : Reservation) : Prop where
  size_eq : reservation.loadSize = size
  bias_eq : reservation.loadBias = wrapSub reservation.loadStart addr
  dvd_start : page.size ∣ reservation.loadStart
  add_lt : reservation.loadStart + size < 2 ^ 64
  unchanged : ∀ op ∈ ops, ∀ a, ¬op.Changes page a
  held : ∀ a, reservation.loadStart ≤ a → a < reservation.loadStart + size → Held page ops a

variable {size ptr : Nat}

theorem reserve_spec {hint : Nat} {ops : List MemoryOp} (hfns : fns.Lawful page)
    (h : reserve fns hint size = (ptr, ops)) (hsome : ptr = 0 → (fns.mmap hint size).isSome) :
    ops = [.mapNone ptr size] ∧ page.size ∣ ptr ∧ ptr + size < 2 ^ 64 := by
  unfold reserve at h
  rcases hmmap : fns.mmap hint size with _ | start
  · rw [hmmap] at h hsome
    obtain ⟨rfl, rfl⟩ := Prod.mk.inj h
    exact absurd (hsome rfl) (by simp)
  · rw [hmmap] at h
    obtain ⟨rfl, rfl⟩ := Prod.mk.inj h
    exact ⟨rfl, hfns hint size start hmmap⟩

theorem reserved_mapNone {addr : Nat} (hdvd : page.size ∣ ptr) (hlt : ptr + size < 2 ^ 64) :
    Reserved page size addr [.mapNone ptr size] ⟨ptr, size, wrapSub ptr addr⟩ := by
  refine ⟨rfl, rfl, hdvd, hlt, ?_, ?_⟩
  · intro op hmem a hchang
    obtain rfl := mem_singleton.mp hmem
    exact hchang
  · intro a hge hlt
    exact ⟨[], [], ptr, size, rfl, hge, hlt, by simp⟩

theorem reserved_aligned {addr k : Nat} (hk : page.log2 ≤ k) (hdvd : page.size ∣ ptr)
    (hlt : ptr + (2 ^ k + size) < 2 ^ 64) : Reserved page size addr
      ([.mapNone ptr (2 ^ k + size)] ++ [.munmap ptr (wrapSub (alignUp ptr (2 ^ k)) ptr),
          .munmap (wrap (alignUp ptr (2 ^ k) + size))
            (wrapSub (wrap (ptr + 2 ^ k)) (alignUp ptr (2 ^ k)))])
      ⟨alignUp ptr (2 ^ k), size, wrapSub (alignUp ptr (2 ^ k)) addr⟩ := by
  have hpow : page.size ∣ 2 ^ k := pow_dvd_pow 2 hk
  have hpos : 0 < 2 ^ k := Nat.two_pow_pos k
  have hup := alignUp_two_pow (show ptr + 2 ^ k ≤ 2 ^ 64 by omega)
  have hstar : page.size ∣ alignUp ptr (2 ^ k) := by
    rw [hup]
    exact Dvd.dvd.mul_left hpow _
  -- The aligned address is at most one alignment further on.
  have hbnd : ptr ≤ alignUp ptr (2 ^ k) ∧ alignUp ptr (2 ^ k) < ptr + 2 ^ k := by
    have hle := Nat.div_mul_le_self (ptr + 2 ^ k - 1) (2 ^ k)
    have hge := Nat.lt_div_mul_add (a := ptr + 2 ^ k - 1) hpos
    omega
  generalize alignUp ptr (2 ^ k) = start at *
  have hwrap : wrap (start + size) = start + size := Nat.mod_eq_of_lt (by omega)
  have hend : wrap (ptr + 2 ^ k) = ptr + 2 ^ k := Nat.mod_eq_of_lt (by omega)
  have hsub : wrapSub start ptr = start - ptr := by
    unfold wrapSub
    omega
  rw [hwrap, hend, hsub]
  refine ⟨rfl, rfl, hstar, by dsimp only; omega, ?_, ?_⟩
  · intro op hmem a hchang
    simp only [singleton_append, mem_cons, not_mem_nil, or_false] at hmem
    rcases hmem with rfl | rfl | rfl <;> exact hchang
  · intro a hge ha
    dsimp only at hge ha
    refine ⟨[], [.munmap ptr _, .munmap (start + size) _], ptr, 2 ^ k + size, rfl,
      by omega, by omega, ?_⟩
    intro x n hmem hcov
    simp only [mem_cons, not_mem_nil, or_false, MemoryOp.munmap.injEq] at hmem
    rcases hmem with ⟨rfl, rfl⟩ | ⟨rfl, rfl⟩
    · have hle := add_roundUp_le (n := start - x) hdvd hstar (by omega)
      omega
    · omega

theorem reserveAddressSpace_spec {ops : List MemoryOp} {reservation : Reservation}
    (hfns : fns.Lawful page)
    (hnull : eType = .etExec → (phdrTableGetLoadSize page phdrTable).2 = 0 →
      (fns.mmap 0 (phdrTableGetLoadSize page phdrTable).1).isSome)
    (halign : eType ≠ .etExec → page.size < align →
      align + (phdrTableGetLoadSize page phdrTable).1 < 2 ^ 64)
    (h : reserveAddressSpace page fns eType phdrTable align = (ops, .ok reservation)) :
    Reserved page (phdrTableGetLoadSize page phdrTable).1
      (phdrTableGetLoadSize page phdrTable).2 ops reservation := by
  unfold reserveAddressSpace at h
  generalize phdrTableGetLoadSize page phdrTable = space at *
  obtain ⟨size, addr⟩ := space
  by_cases hzero : size = 0
  · simp [hzero] at h
  simp only [hzero, if_false] at h
  by_cases hexec : eType = .etExec
  · -- The reservation is at the segments' own addresses.
    rcases hres : reserve fns addr size with ⟨ptr, mapped⟩
    simp only [hexec, if_true, hres] at h
    split_ifs at h with hne <;> cases h
    obtain rfl := not_not.mp hne
    obtain ⟨rfl, hdvd, hlt⟩ := reserve_spec hfns hres
      (fun hptr => by rw [hptr] at hnull ⊢; exact hnull hexec rfl)
    exact reserved_mapNone hdvd hlt
  simp only [hexec, if_false] at h
  by_cases hle : align ≤ page.size
  · rcases hres : reserve fns 0 size with ⟨ptr, mapped⟩
    simp only [hle, if_true, hres] at h
    split_ifs at h with hptr <;> cases h
    obtain ⟨rfl, hdvd, hlt⟩ := reserve_spec hfns hres (fun h => absurd h hptr)
    exact reserved_mapNone hdvd hlt
  simp only [hle, if_false] at h
  by_cases hpow : align &&& (align - 1) = 0
  · have hsum := halign hexec (by omega)
    have hwrap : wrap (align + size) = align + size := Nat.mod_eq_of_lt hsum
    rcases hres : reserve fns 0 (align + size) with ⟨ptr, mapped⟩
    simp only [hpow, ne_eq, not_true_eq_false, if_false, hwrap, hres] at h
    split_ifs at h with hptr <;> cases h
    obtain ⟨rfl, hdvd, hlt⟩ := reserve_spec hfns hres (fun h => absurd h hptr)
    obtain ⟨k, rfl⟩ := (Nat.and_sub_one_eq_zero_iff_isPowerOfTwo (by omega)).mp hpow
    have hk : page.log2 ≤ k := by
      have hlt : 2 ^ page.log2 < 2 ^ k := not_le.mp hle
      exact le_of_lt ((Nat.pow_lt_pow_iff_right (by omega)).mp hlt)
    exact reserved_aligned hk hdvd hlt
  · simp [hpow] at h

end Reservations

section Segments

variable (loadBias : Nat) (phdr : ElfPhdr)

def fileOps : List MemoryOp :=
  let segStart := wrap (phdr.pVaddr + loadBias)
  let filePageStart := pageAlignDown page phdr.pOffset
  let fileLength := wrapSub (wrap (phdr.pOffset + phdr.pFilesz)) filePageStart
  if fileLength ≠ 0 then
    [.mapFile (pageAlignDown page segStart) fileLength (pflagsToProt phdr.pFlags) filePageStart]
  else []

/-- What is filled with zeroes in the last page of the file's contents. -/
def tailOps : List MemoryOp :=
  let segFileEnd := wrap (wrap (phdr.pVaddr + loadBias) + phdr.pFilesz)
  if phdr.pFlags &&& pfW ≠ 0 ∧ pageOffset page segFileEnd > 0 then
    [.memset segFileEnd (page.size - pageOffset page segFileEnd)]
  else []

def zeroOps : List MemoryOp :=
  let segStart := wrap (phdr.pVaddr + loadBias)
  let segPageEnd := pageAlignUp page (wrap (segStart + phdr.pMemsz))
  let segFileEnd := pageAlignUp page (wrap (segStart + phdr.pFilesz))
  if segPageEnd > segFileEnd then
    [.mapAnonymous segFileEnd (segPageEnd - segFileEnd) (pflagsToProt phdr.pFlags)]
  else []

def segmentOps : List MemoryOp :=
  fileOps page loadBias phdr ++ tailOps page loadBias phdr ++ zeroOps page loadBias phdr

def tableOps (phdrTable : List ElfPhdr) : List MemoryOp :=
  phdrTable.flatMap fun phdr => if phdr.ptLoad then segmentOps page loadBias phdr else []

/-- The last page of the file's contents is to be filled and is not writable. -/
def TailFaults (fns : MmapFn) (ops : List MemoryOp) : Prop :=
  let segFileEnd := wrap (wrap (phdr.pVaddr + loadBias) + phdr.pFilesz)
  (phdr.pFlags &&& pfW ≠ 0 ∧ pageOffset page segFileEnd > 0) ∧
    isWritable page fns (ops ++ fileOps page loadBias phdr) segFileEnd = false

variable {page loadBias phdr} {fns : MmapFn} {fileSize i : Nat} {phdrTable : List ElfPhdr}

theorem loadSegment_spec {ops ops' : List MemoryOp} {error : Option LoadError}
    (h : loadSegment page fns fileSize loadBias i phdr ops = (ops', error)) :
    error ≠ some .check ∧ (error = some .fault → TailFaults page loadBias phdr fns ops) ∧
      (error = none → ¬ TailFaults page loadBias phdr fns ops) ∧
      ∃ done rest, ops' = ops ++ done ∧ segmentOps page loadBias phdr = done ++ rest ∧
        (error = none → rest = []) := by
  unfold loadSegment at h
  unfold segmentOps TailFaults fileOps tailOps zeroOps
  dsimp only at h ⊢
  -- The addresses do not matter here.
  generalize wrapSub (wrap (phdr.pOffset + phdr.pFilesz)) _ = fileLength at h ⊢
  generalize wrap (phdr.pOffset + phdr.pFilesz) = fileEnd at h
  generalize wrap (wrap (phdr.pVaddr + loadBias) + phdr.pFilesz) = segFileEnd at h ⊢
  generalize wrap (wrap (phdr.pVaddr + loadBias) + phdr.pMemsz) = segEnd at h ⊢
  generalize wrap (phdr.pVaddr + loadBias) = segStart at h ⊢
  by_cases hsize : fileSize = 0
  · rw [if_pos hsize] at h
    obtain ⟨rfl, rfl⟩ := Prod.mk.inj h
    exact ⟨by simp, nofun, nofun, [], _, by simp, (nil_append _).symm, by simp⟩
  rw [if_neg hsize] at h
  by_cases hend : fileEnd > fileSize
  · rw [if_pos hend] at h
    obtain ⟨rfl, rfl⟩ := Prod.mk.inj h
    exact ⟨by simp, nofun, nofun, [], _, by simp, (nil_append _).symm, by simp⟩
  rw [if_neg hend] at h
  split at h
  · obtain ⟨rfl, rfl⟩ := Prod.mk.inj h
    exact ⟨by simp, nofun, nofun, [], _, by simp, (nil_append _).symm, by simp⟩
  split at h
  · obtain ⟨rfl, rfl⟩ := Prod.mk.inj h
    exact ⟨by simp, nofun, nofun, [], _, by simp, (nil_append _).symm, by simp⟩
  -- The file is mapped, and the rest of its last page is filled.
  have happend : ∀ (p : Prop) [Decidable p] (before : List MemoryOp) (x : MemoryOp),
      (if p then before ++ [x] else before) = before ++ if p then [x] else [] := by
    intro p _ before x
    split <;> simp
  simp only [happend, Bool.and_eq_true, Bool.not_eq_true', decide_eq_true_eq] at h
  generalize hfile : (if fileLength ≠ 0 then [_] else []) = file at h ⊢
  split at h
  · rename_i hfault
    obtain ⟨rfl, rfl⟩ := Prod.mk.inj h
    exact ⟨by simp, fun _ => hfault, nofun, file, _, rfl, append_assoc _ _ _, by simp⟩
  rename_i hfault
  rw [append_assoc] at h
  generalize file ++ (if phdr.pFlags &&& pfW ≠ 0 ∧ pageOffset page _ > 0 then [_] else []) = done
    at h ⊢
  by_cases hzero : pageAlignUp page segEnd > pageAlignUp page segFileEnd
  · rw [if_pos hzero] at h ⊢
    split at h
    · obtain ⟨rfl, rfl⟩ := Prod.mk.inj h
      exact ⟨by simp, nofun, nofun, done, _, rfl, rfl, by simp⟩
    · obtain ⟨rfl, rfl⟩ := Prod.mk.inj h
      exact ⟨by simp, nofun, fun _ => hfault, _, [], by rw [append_assoc], (append_nil _).symm,
        fun _ => rfl⟩
  · rw [if_neg hzero] at h ⊢
    obtain ⟨rfl, rfl⟩ := Prod.mk.inj h
    exact ⟨by simp, nofun, fun _ => hfault, done, [], rfl, rfl, fun _ => rfl⟩

theorem loadSegmentsFrom_spec :
    ∀ {phdrTable : List ElfPhdr} {i : Nat} {ops ops' : List MemoryOp} {error : Option LoadError},
      loadSegmentsFrom page fns fileSize loadBias i phdrTable ops = (ops', error) →
      error ≠ some .check ∧
        (error = some .fault → ∃ j phdr, phdrTable[j]? = some phdr ∧ phdr.ptLoad ∧
          TailFaults page loadBias phdr fns (ops ++ tableOps page loadBias (phdrTable.take j))) ∧
        (error = none → ∀ j phdr, phdrTable[j]? = some phdr → phdr.ptLoad →
          ¬ TailFaults page loadBias phdr fns
            (ops ++ tableOps page loadBias (phdrTable.take j))) ∧
        ∃ done rest, ops' = ops ++ done ∧ tableOps page loadBias phdrTable = done ++ rest ∧
          (error = none → rest = []) := by
  intro phdrTable
  induction phdrTable with
  | nil =>
    intro i ops ops' error h
    obtain ⟨rfl, rfl⟩ := Prod.mk.inj h
    exact ⟨by simp, nofun, by simp, [], [], by simp, rfl, fun _ => rfl⟩
  | cons phdr rest ih =>
    intro i ops ops' error h
    unfold loadSegmentsFrom at h
    by_cases hload : phdr.ptLoad
    · have hcons : ∀ l, tableOps page loadBias (phdr :: l) =
          segmentOps page loadBias phdr ++ tableOps page loadBias l := by
        intro l
        unfold tableOps
        rw [flatMap_cons, if_pos hload]
      rw [if_pos hload] at h
      rcases hsegm : loadSegment page fns fileSize loadBias i phdr ops with ⟨ops₁, error₁⟩
      obtain ⟨hcheck, hfault, hfine, done, more, rfl, heq, hall⟩ := loadSegment_spec hsegm
      rw [hsegm] at h
      cases error₁ with
      | some e =>
        obtain ⟨rfl, rfl⟩ := Prod.mk.inj h
        refine ⟨hcheck, fun he => ⟨0, phdr, rfl, hload, ?_⟩, nofun, done,
          more ++ tableOps page loadBias rest, rfl, ?_, nofun⟩
        · rw [take_zero, tableOps, flatMap_nil, append_nil]
          exact hfault he
        · rw [hcons, heq, append_assoc]
      | none =>
        rw [hall rfl, append_nil] at heq
        obtain ⟨hcheck', hfault', hfine', done', more', rfl, heq', hall'⟩ := ih h
        refine ⟨hcheck', fun he => ?_, fun he j other hj hoth => ?_, done ++ done', more',
          by rw [append_assoc], by rw [hcons, heq, heq', append_assoc], hall'⟩
        · obtain ⟨j, other, hj, hoth, hfaults⟩ := hfault' he
          refine ⟨j + 1, other, hj, hoth, ?_⟩
          rwa [take_succ_cons, hcons, heq, ← append_assoc]
        · cases j with
          | zero =>
            obtain rfl := Option.some.inj hj
            rw [take_zero, tableOps, flatMap_nil, append_nil]
            exact hfine rfl
          | succ j =>
            rw [take_succ_cons, hcons, heq, ← append_assoc]
            exact hfine' he j other hj hoth
    · have hcons : ∀ l, tableOps page loadBias (phdr :: l) = tableOps page loadBias l := by
        intro l
        unfold tableOps
        rw [flatMap_cons, if_neg hload, nil_append]
      rw [if_neg hload] at h
      obtain ⟨hcheck, hfault, hfine, done, more, rfl, heq, hall⟩ := ih h
      refine ⟨hcheck, fun he => ?_, fun he j other hj hoth => ?_, done, more, rfl,
        (hcons rest).trans heq, hall⟩
      · obtain ⟨j, other, hj, hoth, hfaults⟩ := hfault he
        refine ⟨j + 1, other, hj, hoth, ?_⟩
        rwa [take_succ_cons, hcons]
      · cases j with
        | zero =>
          obtain rfl := Option.some.inj hj
          exact absurd hoth hload
        | succ j =>
          rw [take_succ_cons, hcons]
          exact hfine he j other hj hoth

theorem mem_tableOps {op : MemoryOp} (h : op ∈ tableOps page loadBias phdrTable) :
    ∃ phdr ∈ phdrTable, phdr.ptLoad ∧ op ∈ segmentOps page loadBias phdr := by
  obtain ⟨phdr, hmem, hop⟩ := mem_flatMap.mp h
  split at hop
  · exact ⟨phdr, hmem, ‹_›, hop⟩
  · cases hop

end Segments

section Placement

variable {page} {start addr size : Nat} {phdr : ElfPhdr}

/-- A segment and the space that is reserved: whole pages, with room for what the
    segment takes in memory, and no sum that wraps around. -/
structure Placed (page : PageSize) (start addr size : Nat) (phdr : ElfPhdr) : Prop where
  dvd_start : page.size ∣ start
  dvd_addr : page.size ∣ addr
  dvd_size : page.size ∣ size
  start_lt : start + size < 2 ^ 64
  addr_lt : addr + size < 2 ^ 64
  addr_le : addr ≤ phdr.pVaddr
  end_le : phdr.pVaddr + phdr.pMemsz ≤ addr + size
  file_lt : phdr.pOffset + phdr.pFilesz < 2 ^ 64

namespace Placed

section

variable (h : Placed page start addr size phdr)
include h

theorem segStart_eq : wrap (phdr.pVaddr + wrapSub start addr) = start + (phdr.pVaddr - addr) := by
  have hle := h.addr_le
  have hend := h.end_le
  have hst := h.start_lt
  have haddr := h.addr_lt
  unfold wrap wrapSub
  omega

theorem addr_le_page : addr ≤ phdr.pVaddr / page.size * page.size := by
  obtain ⟨k, hk⟩ := h.dvd_addr
  have hle := h.addr_le
  rw [hk, Nat.mul_comm] at hle ⊢
  exact Nat.mul_le_mul_right _ ((Nat.le_div_iff_mul_le page.size_pos).mpr hle)

theorem dvd_pageStart : page.size ∣ start + (phdr.pVaddr / page.size * page.size - addr) :=
  Nat.dvd_add h.dvd_start (Nat.dvd_sub (Nat.dvd_mul_left _ _) h.dvd_addr)

theorem fileOps_eq : fileOps page (wrapSub start addr) phdr =
      if phdr.pOffset % page.size + phdr.pFilesz ≠ 0 then
        [.mapFile (start + (phdr.pVaddr / page.size * page.size - addr))
          (phdr.pOffset % page.size + phdr.pFilesz) (pflagsToProt phdr.pFlags)
          (phdr.pOffset / page.size * page.size)]
      else [] := by
  have hle := h.addr_le_page
  have hend := h.end_le
  have hlt := h.start_lt
  have hfile := h.file_lt
  have hdiv := Nat.div_add_mod' phdr.pVaddr page.size
  have hmod := Nat.mod_lt phdr.pVaddr page.size_pos
  have hoff := Nat.div_add_mod' phdr.pOffset page.size
  have hpage : pageAlignDown page phdr.pOffset = phdr.pOffset / page.size * page.size :=
    page.alignDown_eq (by omega)
  have hst : pageAlignDown page (start + (phdr.pVaddr - addr)) =
      start + (phdr.pVaddr / page.size * page.size - addr) := by
    have hsum : start + (phdr.pVaddr - addr) =
        start + (phdr.pVaddr / page.size * page.size - addr) + phdr.pVaddr % page.size := by
      omega
    rw [hsum]
    exact page.alignDown_add h.dvd_pageStart hmod (by omega)
  have hlen : wrapSub (wrap (phdr.pOffset + phdr.pFilesz))
      (phdr.pOffset / page.size * page.size) = phdr.pOffset % page.size + phdr.pFilesz := by
    unfold wrapSub wrap
    omega
  unfold fileOps
  dsimp only
  rw [h.segStart_eq, hpage, hlen, hst]

theorem fileEnd_le (hfits : Fits page (addr + size) phdr) :
    phdr.pVaddr + phdr.pFilesz ≤ addr + size := by
  have hend := h.end_le
  by_cases hzero : phdr.pFilesz = 0
  · omega
  · have hle := hfits.1 (by omega)
    have hmod := hfits.2 hzero
    have hdiv := Nat.div_add_mod' phdr.pVaddr page.size
    omega

theorem fileOps_inside_iff :
    (∀ op ∈ fileOps page (wrapSub start addr) phdr, ∀ a, op.Changes page a →
      start ≤ a ∧ a < start + size) ↔ (phdr.pOffset % page.size + phdr.pFilesz ≠ 0 →
      phdr.pVaddr / page.size * page.size + phdr.pOffset % page.size + phdr.pFilesz ≤
        addr + size) := by
  have hle := h.addr_le_page
  rw [h.fileOps_eq]
  by_cases hlen : phdr.pOffset % page.size + phdr.pFilesz = 0
  · simp [hlen]
  simp only [hlen, ne_eq, not_false_eq_true, if_true, mem_singleton, forall_eq,
    MemoryOp.Changes, true_implies]
  have hround : phdr.pOffset % page.size + phdr.pFilesz ≤
      roundUp page (phdr.pOffset % page.size + phdr.pFilesz) := le_roundUp _
  constructor
  · intro hin
    -- The last byte that is asked for is changed.
    have hlast := hin (start + (phdr.pVaddr / page.size * page.size - addr) +
      (phdr.pOffset % page.size + phdr.pFilesz) - 1) (by omega)
    omega
  · intro hfits a ha
    have hpag := add_roundUp_le (n := phdr.pOffset % page.size + phdr.pFilesz) h.dvd_pageStart
      (Nat.dvd_add h.dvd_start h.dvd_size) (by omega)
    omega

/-- Rounding up does not depend on where the pages are. -/
theorem pageAlignUp_eq {v : Nat} (hge : addr ≤ v) (hle : v ≤ addr + size) :
    pageAlignUp page (start + (v - addr)) = start + (roundUp page v - addr) := by
  have hroom := page.add_size_le (Nat.dvd_add h.dvd_start h.dvd_size) h.start_lt
  obtain ⟨n, rfl⟩ := Nat.exists_eq_add_of_le hge
  have halign : pageAlignUp page (start + (addr + n - addr)) = roundUp page (start + n) := by
    rw [Nat.add_sub_cancel_left]
    exact page.alignUp_eq (by omega)
  rw [halign, roundUp_add h.dvd_start, roundUp_add h.dvd_addr, Nat.add_sub_cancel_left]

theorem roundUp_le {v : Nat} (hge : addr ≤ v) (hle : v ≤ addr + size) :
    addr ≤ roundUp page v ∧ roundUp page v ≤ addr + size := by
  have hup := add_roundUp_le h.dvd_addr (Nat.dvd_add h.dvd_addr h.dvd_size)
    (show addr + (v - addr) ≤ addr + size by omega)
  have hadd := roundUp_add h.dvd_addr (v - addr)
  rw [Nat.add_sub_cancel' hge] at hadd
  omega

theorem wrap_eq {n : Nat} (hle : phdr.pVaddr + n ≤ addr + size) :
    wrap (start + (phdr.pVaddr - addr) + n) = start + (phdr.pVaddr + n - addr) := by
  have hge := h.addr_le
  have hlt := h.start_lt
  unfold wrap
  omega

theorem pageOffset_eq {v : Nat} (hge : addr ≤ v) (hle : v ≤ addr + size) :
    pageOffset page (start + (v - addr)) = v % page.size := by
  have hlt := h.start_lt
  obtain ⟨n, rfl⟩ := Nat.exists_eq_add_of_le hge
  obtain ⟨k, hk⟩ := h.dvd_start
  obtain ⟨m, hm⟩ := h.dvd_addr
  have hmod := page.sub_alignDown (show start + (addr + n - addr) < 2 ^ 64 by omega)
  rw [Nat.add_sub_cancel_left] at hmod ⊢
  have heq : (start + n) % page.size = (addr + n) % page.size := by
    rw [hk, hm, Nat.mul_add_mod, Nat.mul_add_mod]
  exact hmod.trans heq

theorem writable?_fileOps {v : Nat} (hv : addr ≤ v) :
    lastSome? (·.writable? page (start + (v - addr))) (fileOps page (wrapSub start addr) phdr) =
      if phdr.InFilePages page v then some (phdr.pFlags &&& pfW != 0) else none := by
  have hpage := h.addr_le_page
  rw [h.fileOps_eq, lastSome?_ite]
  unfold MemoryOp.writable? ElfPhdr.InFilePages
  dsimp only
  rw [← ite_and]
  refine if_congr ⟨fun hin => by omega, fun hin => ⟨fun hlen => ?_, by omega⟩⟩ rfl rfl
  rw [hlen, roundUp_zero] at hin
  omega

section

variable (hfits : Fits page (addr + size) phdr)
include hfits

theorem tailOps_eq : tailOps page (wrapSub start addr) phdr =
    if phdr.pFlags &&& pfW ≠ 0 ∧ (phdr.pVaddr + phdr.pFilesz) % page.size > 0 then
      [.memset (start + (phdr.pVaddr + phdr.pFilesz - addr))
        (page.size - (phdr.pVaddr + phdr.pFilesz) % page.size)]
    else [] := by
  have hend := h.fileEnd_le hfits
  have hge := h.addr_le
  unfold tailOps
  dsimp only
  rw [h.segStart_eq, h.wrap_eq hend, h.pageOffset_eq (by omega) hend]

theorem zeroOps_eq : zeroOps page (wrapSub start addr) phdr =
    if roundUp page (phdr.pVaddr + phdr.pMemsz) > roundUp page (phdr.pVaddr + phdr.pFilesz) then
      [.mapAnonymous (start + (roundUp page (phdr.pVaddr + phdr.pFilesz) - addr))
        (roundUp page (phdr.pVaddr + phdr.pMemsz) - roundUp page (phdr.pVaddr + phdr.pFilesz))
        (pflagsToProt phdr.pFlags)]
    else [] := by
  have hfile := h.fileEnd_le hfits
  have hend := h.end_le
  have hge := h.addr_le
  have hlow := h.roundUp_le (show addr ≤ phdr.pVaddr + phdr.pFilesz by omega) hfile
  have hhigh := h.roundUp_le (show addr ≤ phdr.pVaddr + phdr.pMemsz by omega) hend
  unfold zeroOps
  dsimp only
  rw [h.segStart_eq, h.wrap_eq hfile, h.wrap_eq hend, h.pageAlignUp_eq (by omega) hfile,
    h.pageAlignUp_eq (by omega) hend]
  have hlength : start + (roundUp page (phdr.pVaddr + phdr.pMemsz) - addr) -
      (start + (roundUp page (phdr.pVaddr + phdr.pFilesz) - addr)) =
      roundUp page (phdr.pVaddr + phdr.pMemsz) - roundUp page (phdr.pVaddr + phdr.pFilesz) := by
    omega
  rw [hlength]
  exact if_congr (by omega) rfl rfl

theorem tailOps_inside : ∀ op ∈ tailOps page (wrapSub start addr) phdr, ∀ a,
    op.Changes page a → start ≤ a ∧ a < start + size := by
  intro op hop a hchang
  have hend := h.fileEnd_le hfits
  have hge := h.addr_le
  have hup := h.roundUp_le (show addr ≤ phdr.pVaddr + phdr.pFilesz by omega) hend
  rw [h.tailOps_eq hfits] at hop
  split at hop
  · rename_i hcond
    rw [roundUp_of_mod (by omega)] at hup
    obtain rfl := mem_singleton.mp hop
    obtain ⟨hlow, hhigh⟩ := hchang
    omega
  · cases hop

theorem zeroOps_inside : ∀ op ∈ zeroOps page (wrapSub start addr) phdr, ∀ a,
    op.Changes page a → start ≤ a ∧ a < start + size := by
  intro op hop a hchang
  have hfile := h.fileEnd_le hfits
  have hend := h.end_le
  have hge := h.addr_le
  have hlow := h.roundUp_le (show addr ≤ phdr.pVaddr + phdr.pFilesz by omega) hfile
  have hhigh := h.roundUp_le (show addr ≤ phdr.pVaddr + phdr.pMemsz by omega) hend
  rw [h.zeroOps_eq hfits] at hop
  split at hop
  · obtain rfl := mem_singleton.mp hop
    obtain ⟨hin, hlt⟩ := hchang
    rw [roundUp_eq_self (Nat.dvd_sub (dvd_roundUp _) (dvd_roundUp _))] at hlt
    omega
  · cases hop

variable {v : Nat} (hv : addr ≤ v)
include hv

/-- What a segment puts at an address. -/
theorem puts_segmentOps (hload : phdr.ptLoad) :
    lastSome? (·.puts page (start + (v - addr))) (segmentOps page (wrapSub start addr) phdr) =
      phdr.puts page v := by
  have hge := h.addr_le
  have hpage := h.addr_le_page
  have hlow := h.roundUp_le (show addr ≤ phdr.pVaddr + phdr.pFilesz by omega) (h.fileEnd_le hfits)
  have hfile : lastSome? (·.puts page (start + (v - addr)))
      (fileOps page (wrapSub start addr) phdr) = if phdr.InFilePages page v then
        some (some (phdr.pOffset / page.size * page.size +
          (v - phdr.pVaddr / page.size * page.size)))
      else none := by
    rw [h.fileOps_eq, lastSome?_ite]
    by_cases hlen : phdr.pOffset % page.size + phdr.pFilesz = 0
    · rw [if_neg (not_not.mpr hlen), if_neg]
      unfold ElfPhdr.InFilePages
      rw [hlen, roundUp_zero]
      omega
    · rw [if_pos hlen]
      unfold MemoryOp.puts ElfPhdr.InFilePages
      dsimp only
      by_cases hin : phdr.pVaddr / page.size * page.size ≤ v ∧
          v < phdr.pVaddr / page.size * page.size +
            roundUp page (phdr.pOffset % page.size + phdr.pFilesz)
      · rw [if_pos (by omega), if_pos hin]
        congr 3
        omega
      · rw [if_neg (by omega), if_neg hin]
  have htail : lastSome? (·.puts page (start + (v - addr)))
      (tailOps page (wrapSub start addr) phdr) =
        if phdr.InTail page v then some none else none := by
    rw [h.tailOps_eq hfits, lastSome?_ite]
    unfold MemoryOp.puts ElfPhdr.InTail
    dsimp only
    by_cases hmod : (phdr.pVaddr + phdr.pFilesz) % page.size = 0
    · rw [roundUp_eq_self (Nat.dvd_of_mod_eq_zero hmod), if_neg (by omega), if_neg (by omega)]
    · rw [roundUp_of_mod hmod, ← ite_and]
      exact if_congr (by omega) rfl rfl
  have hzero : lastSome? (·.puts page (start + (v - addr)))
      (zeroOps page (wrapSub start addr) phdr) =
        if phdr.InZeroPages page v then some none else none := by
    rw [h.zeroOps_eq hfits, lastSome?_ite]
    unfold MemoryOp.puts ElfPhdr.InZeroPages
    dsimp only
    rw [roundUp_eq_self (Nat.dvd_sub (dvd_roundUp _) (dvd_roundUp _)), ← ite_and]
    exact if_congr (by omega) rfl rfl
  unfold segmentOps ElfPhdr.puts
  rw [lastSome?_append, lastSome?_append, hfile, htail, hzero, if_pos hload]
  by_cases hz : phdr.InZeroPages page v
  · rw [if_pos hz, if_pos (Or.inl hz), Option.some_or]
  by_cases ht : phdr.InTail page v
  · rw [if_neg hz, if_pos ht, if_pos (Or.inr ht), Option.none_or, Option.some_or]
  · rw [if_neg hz, if_neg ht, if_neg (not_or.mpr ⟨hz, ht⟩), Option.none_or, Option.none_or]

theorem writable?_segmentOps (hload : phdr.ptLoad) :
    lastSome? (·.writable? page (start + (v - addr)))
      (segmentOps page (wrapSub start addr) phdr) = phdr.writable? page v := by
  have hge := h.addr_le
  have hlow := h.roundUp_le (show addr ≤ phdr.pVaddr + phdr.pFilesz by omega) (h.fileEnd_le hfits)
  have htail : lastSome? (·.writable? page (start + (v - addr)))
      (tailOps page (wrapSub start addr) phdr) = none := by
    rw [h.tailOps_eq hfits, lastSome?_ite]
    exact ite_self none
  have hzero : lastSome? (·.writable? page (start + (v - addr)))
      (zeroOps page (wrapSub start addr) phdr) =
        if phdr.InZeroPages page v then some (phdr.pFlags &&& pfW != 0) else none := by
    rw [h.zeroOps_eq hfits, lastSome?_ite]
    unfold MemoryOp.writable? ElfPhdr.InZeroPages
    dsimp only
    rw [roundUp_eq_self (Nat.dvd_sub (dvd_roundUp _) (dvd_roundUp _)), ← ite_and]
    exact if_congr (by omega) rfl rfl
  unfold segmentOps ElfPhdr.writable?
  rw [lastSome?_append, lastSome?_append, h.writable?_fileOps hv, htail, hzero]
  by_cases hz : phdr.InZeroPages page v
  · rw [if_pos hz, Option.some_or, if_pos ⟨hload, Or.inl hz⟩]
  · rw [if_neg hz, Option.none_or, Option.none_or]
    exact if_congr (by tauto) rfl rfl

end

/-- Only a segment without contents can be one whose last page is not its own. -/
theorem tailFaults_iff (hfits : Fits page (addr + size) phdr) {fns : MmapFn}
    {ops : List MemoryOp} : TailFaults page (wrapSub start addr) phdr fns ops ↔
      phdr.pFlags &&& pfW ≠ 0 ∧ phdr.pFilesz = 0 ∧ phdr.pOffset % page.size = 0 ∧
        phdr.pVaddr % page.size ≠ 0 ∧
          isWritable page fns ops (start + (phdr.pVaddr - addr)) = false := by
  have hend := h.fileEnd_le hfits
  have hge := h.addr_le
  have hpos := page.size_pos
  have hdiv := Nat.div_add_mod' phdr.pVaddr page.size
  have hlt := Nat.mod_lt phdr.pVaddr hpos
  unfold TailFaults isWritable
  dsimp only
  rw [h.segStart_eq, h.wrap_eq hend, h.pageOffset_eq (by omega) hend, lastSome?_append,
    h.writable?_fileOps (by omega)]
  by_cases hfile : phdr.InFilePages page (phdr.pVaddr + phdr.pFilesz)
  · -- The page is mapped for the segment itself.
    rw [if_pos hfile, Option.some_or, Option.getD_some]
    refine iff_of_false (fun hcond => ?_) (fun hcond => ?_)
    · exact absurd (bne_iff_ne.mpr hcond.1.1) (Bool.eq_false_iff.mp hcond.2)
    · unfold ElfPhdr.InFilePages at hfile
      rw [hcond.2.1, hcond.2.2.1, Nat.add_zero, roundUp_zero] at hfile
      omega
  · rw [if_neg hfile, Option.none_or]
    have hempty : (phdr.pVaddr + phdr.pFilesz) % page.size ≠ 0 →
        phdr.pFilesz = 0 ∧ phdr.pOffset % page.size = 0 := by
      intro hmod
      by_contra hne
      refine hfile ⟨by omega, ?_⟩
      by_cases hzero : phdr.pFilesz = 0
      · have hoff : phdr.pOffset % page.size ≠ 0 := by tauto
        have hmodmod := Nat.mod_mod phdr.pOffset page.size
        simp only [hzero, Nat.add_zero]
        rw [roundUp_of_mod (by omega)]
        omega
      · -- The end of the contents is not at the end of the page.
        have hlen : phdr.pVaddr + phdr.pFilesz = phdr.pVaddr / page.size * page.size +
            (phdr.pOffset % page.size + phdr.pFilesz) := by
          rw [hfits.2 hzero]
          omega
        rw [hlen, Nat.mul_comm, Nat.mul_add_mod] at hmod
        rw [hlen, roundUp_of_mod hmod]
        have hlast := Nat.mod_lt (phdr.pOffset % page.size + phdr.pFilesz) hpos
        omega
    constructor
    · rintro ⟨⟨hflag, hmod⟩, hnot⟩
      obtain ⟨hzero, hoff⟩ := hempty (by omega)
      rw [hzero, Nat.add_zero] at hmod hnot
      exact ⟨hflag, hzero, hoff, by omega, hnot⟩
    · rintro ⟨hflag, hzero, hoff, hmod, hnot⟩
      rw [hzero, Nat.add_zero]
      exact ⟨⟨hflag, by omega⟩, hnot⟩

theorem mod_eq_of_puts {op : MemoryOp} {i a : Nat}
    (hop : op ∈ segmentOps page (wrapSub start addr) phdr)
    (hputs : op.puts page a = some (some i)) : a % page.size = i % page.size := by
  rcases mem_append.mp hop with hop | hop
  · rcases mem_append.mp hop with hop | hop
    · rw [h.fileOps_eq] at hop
      split at hop
      · obtain rfl := mem_singleton.mp hop
        unfold MemoryOp.puts at hputs
        dsimp only at hputs
        split at hputs
        · rename_i hin
          obtain ⟨k, hk⟩ := h.dvd_pageStart
          obtain rfl := Option.some.inj (Option.some.inj hputs)
          conv_lhs => rw [← Nat.add_sub_cancel' hin.1, hk, Nat.mul_add_mod]
          rw [Nat.mul_comm (phdr.pOffset / page.size), Nat.mul_add_mod, hk]
        · cases hputs
      · cases hop
    · unfold tailOps at hop
      dsimp only at hop
      split at hop
      · obtain rfl := mem_singleton.mp hop
        unfold MemoryOp.puts at hputs
        dsimp only at hputs
        split at hputs <;> cases hputs
      · cases hop
  · unfold zeroOps at hop
    dsimp only at hop
    split at hop
    · obtain rfl := mem_singleton.mp hop
      unfold MemoryOp.puts at hputs
      dsimp only at hputs
      split at hputs <;> cases hputs
    · cases hop

/-- A segment whose bytes are placed, by whatever mapping, lies at the same place
    of a page in the file and in memory. -/
theorem offset_mod_eq
    (hmod : wrap (wrapSub start addr + phdr.pVaddr) % page.size = phdr.pOffset % page.size) :
    phdr.pOffset % page.size = phdr.pVaddr % page.size := by
  rw [Nat.add_comm, h.segStart_eq] at hmod
  obtain ⟨k, hk⟩ := h.dvd_pageStart
  have hle := h.addr_le_page
  have hdiv := Nat.div_add_mod' phdr.pVaddr page.size
  have hsum : start + (phdr.pVaddr - addr) = page.size * k + phdr.pVaddr % page.size := by omega
  rw [hsum, Nat.mul_add_mod, Nat.mod_mod] at hmod
  exact hmod.symm

theorem segmentOps_inside (hfits : Fits page (addr + size) phdr) :
    ∀ op ∈ segmentOps page (wrapSub start addr) phdr, ∀ a, op.Changes page a →
      start ≤ a ∧ a < start + size := by
  intro op hop
  rcases mem_append.mp hop with hop | hop
  · rcases mem_append.mp hop with hop | hop
    · exact h.fileOps_inside_iff.mpr hfits.1 op hop
    · exact h.tailOps_inside hfits op hop
  · exact h.zeroOps_inside hfits op hop

end

end Placed

end Placement

section Loading

variable {page} {fns : MmapFn} {fileSize align : Nat} {eType : ElfType}
  {phdrTable : List ElfPhdr}

variable {ops : List MemoryOp}

theorem reserveAddressSpace_ne_check (hpow : page.size < align → align &&& (align - 1) = 0)
    {error : LoadError}
    (h : reserveAddressSpace page fns eType phdrTable align = (ops, .error error)) :
    error ≠ .check := by
  rintro rfl
  unfold reserveAddressSpace at h
  generalize phdrTableGetLoadSize page phdrTable = space at h
  obtain ⟨size, addr⟩ := space
  repeat' split at h
  all_goals simp_all

theorem held_append {done : List MemoryOp} {a : Nat} (hheld : Held page ops a)
    (hdone : ∀ start n, .munmap start n ∉ done) : Held page (ops ++ done) a := by
  obtain ⟨before, after, addr, length, rfl, hge, hlt, hkept⟩ := hheld
  refine ⟨before, after ++ done, addr, length, by simp, hge, hlt, ?_⟩
  intro start n hmem
  rcases mem_append.mp hmem with hmem | hmem
  · exact hkept start n hmem
  · exact absurd hmem (hdone start n)

theorem munmap_notMem_segmentOps {loadBias start n : Nat} {phdr : ElfPhdr} :
    .munmap start n ∉ segmentOps page loadBias phdr := by
  intro hmem
  unfold segmentOps fileOps tailOps zeroOps at hmem
  dsimp only at hmem
  rcases mem_append.mp hmem with hmem | hmem
  · rcases mem_append.mp hmem with hmem | hmem
    · split at hmem <;> simp at hmem
    · split at hmem <;> simp at hmem
  · split at hmem <;> simp at hmem

theorem loadReserved_ok {ops' : List MemoryOp} {reservation : Reservation}
    {error : Option LoadError}
    (h : loadSegmentsFrom page fns fileSize reservation.loadBias 0 phdrTable ops = (ops', error)) :
    loadReserved page fns fileSize phdrTable (ops, .ok reservation) =
      ⟨some reservation, ops', error⟩ := by
  simp [loadReserved, h]

section

variable {size addr : Nat} {reservation : Reservation}
  (hres : Reserved page size addr ops reservation)
include hres

theorem Reserved.puts_ne (a i : Nat) : lastSome? (·.puts page a) ops ≠ some (some i) := by
  intro h
  obtain ⟨op, hop, hputs⟩ := mem_of_lastSome? h
  have hsame := hres.unchanged op hop a
  cases op with
  | mapFile start length prot offset =>
    unfold MemoryOp.puts at hputs
    dsimp only at hputs
    split at hputs
    · exact hsame ‹_›
    · cases hputs
  | _ =>
    unfold MemoryOp.puts at hputs
    dsimp only at hputs
    split at hputs <;> cases hputs

/-- Nothing can be written in what is reserved. -/
theorem Reserved.writable?_eq {a : Nat} (hge : reservation.loadStart ≤ a)
    (hlt : a < reservation.loadStart + size) :
    lastSome? (·.writable? page a) ops = some false := by
  obtain ⟨before, after, start, length, heq, hlow, hhigh, -⟩ := hres.held a hge hlt
  have hround : length ≤ roundUp page length := le_roundUp length
  have hnone : (MemoryOp.mapNone start length).writable? page a = some false :=
    if_pos ⟨hlow, by omega⟩
  have hsome : (lastSome? (·.writable? page a) ops).isSome :=
    lastSome?_isSome (x := .mapNone start length) (by simp [heq]) (by rw [hnone]; rfl)
  obtain ⟨w, hw⟩ := Option.isSome_iff_exists.mp hsome
  obtain ⟨op, hop, hwrite⟩ := mem_of_lastSome? hw
  have hsame := hres.unchanged op hop a
  rw [hw]
  unfold MemoryOp.writable? at hwrite
  cases op with
  | mapFile | mapAnonymous =>
    dsimp only at hwrite
    split at hwrite
    · exact absurd ‹_› hsame
    · cases hwrite
  | mapNone | munmap =>
    dsimp only at hwrite
    split at hwrite
    · exact hwrite.symm
    · cases hwrite
  | memset => cases hwrite

variable (hplac : ∀ phdr ∈ phdrTable, phdr.ptLoad →
    Placed page reservation.loadStart addr size phdr)
  (hfits : ∀ phdr ∈ phdrTable, phdr.ptLoad → Fits page (addr + size) phdr)
include hplac hfits

/-- What the table leaves at the place of a byte of the file. -/
theorem Reserved.puts_tableOps {phdr : ElfPhdr} (hmem : phdr ∈ phdrTable) (hload : phdr.ptLoad)
    {k : Nat} (hk : k < phdr.pFilesz) (i : Nat) :
    lastSome? (·.puts page (wrap (reservation.loadBias + phdr.pVaddr + k)))
        (ops ++ tableOps page reservation.loadBias phdrTable) = some (some i) ↔
      lastSome? (·.puts page (phdr.pVaddr + k)) phdrTable = some (some i) := by
  have h := hplac phdr hmem hload
  have hend := h.fileEnd_le (hfits phdr hmem hload)
  have hge := h.addr_le
  have hlt := h.start_lt
  have haddr := h.addr_lt
  have hwrap : wrap (reservation.loadBias + phdr.pVaddr + k) =
      reservation.loadStart + (phdr.pVaddr + k - addr) := by
    rw [hres.bias_eq]
    unfold wrap wrapSub
    omega
  have htable : lastSome? (·.puts page (reservation.loadStart + (phdr.pVaddr + k - addr)))
      (tableOps page reservation.loadBias phdrTable) =
        lastSome? (·.puts page (phdr.pVaddr + k)) phdrTable := by
    unfold tableOps
    rw [lastSome?_flatMap]
    refine lastSome?_congr fun other hoth => ?_
    by_cases hl : other.ptLoad
    · rw [if_pos hl, hres.bias_eq]
      exact (hplac other hoth hl).puts_segmentOps (hfits other hoth hl) (by omega) hl
    · rw [if_neg hl, ElfPhdr.puts, if_neg hl]
      rfl
  rw [hwrap, lastSome?_append, htable, Option.or_eq_some_iff]
  exact or_iff_left fun h => hres.puts_ne _ _ h.2

theorem Reserved.tailFaults_iff {j : Nat} {phdr : ElfPhdr} (hj : phdrTable[j]? = some phdr)
    (hload : phdr.ptLoad) : TailFaults page reservation.loadBias phdr fns
        (ops ++ tableOps page reservation.loadBias (phdrTable.take j)) ↔
      phdr.pFlags &&& pfW ≠ 0 ∧ phdr.pFilesz = 0 ∧ phdr.pOffset % page.size = 0 ∧
        phdr.pVaddr % page.size ≠ 0 ∧
          lastSome? (·.writable? page phdr.pVaddr) (phdrTable.take j) ≠ some true := by
  have hmem := mem_of_getElem? hj
  have h := hplac phdr hmem hload
  have hge := h.addr_le
  have hend := h.end_le
  have htable : lastSome? (·.writable? page (reservation.loadStart + (phdr.pVaddr - addr)))
      (tableOps page reservation.loadBias (phdrTable.take j)) =
        lastSome? (·.writable? page phdr.pVaddr) (phdrTable.take j) := by
    unfold tableOps
    rw [lastSome?_flatMap]
    refine lastSome?_congr fun other hoth => ?_
    have hoth := mem_of_mem_take hoth
    by_cases hl : other.ptLoad
    · rw [if_pos hl, hres.bias_eq]
      exact (hplac other hoth hl).writable?_segmentOps (hfits other hoth hl) hge hl
    · rw [if_neg hl, ElfPhdr.writable?, if_neg fun hw => hl hw.1]
      rfl
  rw [hres.bias_eq, h.tailFaults_iff (hfits phdr hmem hload), ← hres.bias_eq]
  refine and_congr_right fun _ => and_congr_right fun _ => and_congr_right fun _ =>
    and_congr_right fun hmod => ?_
  -- An address within a page is not the end of the reservation.
  have hne : phdr.pVaddr ≠ addr + size := by
    intro heq
    exact hmod (Nat.mod_eq_zero_of_dvd (heq ▸ Nat.dvd_add h.dvd_addr h.dvd_size))
  have hreserved : lastSome? (·.writable? page (reservation.loadStart + (phdr.pVaddr - addr))) ops =
      some false := hres.writable?_eq (by omega) (by omega)
  unfold isWritable
  rw [lastSome?_append, htable, hreserved]
  generalize lastSome? (fun other : ElfPhdr => other.writable? page phdr.pVaddr) _ = w
  rcases w with _ | _ | _ <;> simp

end

/-- What the run does over a reservation that is as expected. -/
structure LoadsInside (page : PageSize) (phdrTable : List ElfPhdr) (loading : Loading)
    (reservation : Reservation) : Prop where
  inside : (∀ phdr ∈ phdrTable, phdr.ptLoad → Fits page (loadLimit page phdrTable) phdr) →
    Inside page loading reservation
  loads : Loadable page phdrTable → loading.error ≠ some .fault ∧
    (loading.error = none → FileBytesPlaced page phdrTable loading reservation)
  loadable : loading.error = none → Inside page loading reservation →
    FileBytesPlaced page phdrTable loading reservation → Loadable page phdrTable

theorem loadSegmentsFrom_inside {ops' : List MemoryOp} {reservation : Reservation}
    {error : Option LoadError} (hwrap : NoWrap page phdrTable)
    (hres : Reserved page (phdrTableGetLoadSize page phdrTable).1
      (phdrTableGetLoadSize page phdrTable).2 ops reservation)
    (h : loadSegmentsFrom page fns fileSize reservation.loadBias 0 phdrTable ops = (ops', error)) :
    LoadsInside page phdrTable ⟨some reservation, ops', error⟩ reservation := by
  have hroom := phdrTableGetLoadSize_room hwrap
  obtain ⟨-, hfault, hfine, done, rest, rfl, heq, hall⟩ := loadSegmentsFrom_spec h
  have hask : ∀ op ∈ done, ∃ phdr ∈ phdrTable, phdr.ptLoad ∧
      op ∈ segmentOps page reservation.loadBias phdr :=
    fun op hop => mem_tableOps (heq ▸ mem_append_left _ hop)
  have hplac : ∀ phdr ∈ phdrTable, phdr.ptLoad → Placed page reservation.loadStart
      (phdrTableGetLoadSize page phdrTable).2 (phdrTableGetLoadSize page phdrTable).1 phdr := by
    intro phdr hmem hload
    have hsegm := hroom.segments phdr hmem hload
    exact ⟨hres.dvd_start, hroom.dvd_addr, hroom.dvd_size, hres.add_lt, hroom.add_lt, hsegm.1,
      hsegm.2, (hwrap phdr hmem hload).2⟩
  constructor
  · intro hfits op hop a hchang
    rcases mem_append.mp hop with hop | hop
    · exact absurd hchang (hres.unchanged op hop a)
    · obtain ⟨phdr, hmem, hload, hop⟩ := hask op hop
      rw [hres.bias_eq] at hop
      have hin := (hplac phdr hmem hload).segmentOps_inside (hfits phdr hmem hload) op hop a
        hchang
      rw [hres.size_eq]
      refine ⟨hin.1, hin.2, held_append (hres.held a hin.1 hin.2) ?_⟩
      intro start n hmunm
      obtain ⟨other, -, -, hoth⟩ := hask _ hmunm
      exact munmap_notMem_segmentOps hoth
  · intro hloadable
    refine ⟨fun herror => ?_, fun hnone phdr hmem hload k hk => ?_⟩
    · obtain ⟨j, phdr, hj, hload, hfaults⟩ := hfault herror
      obtain ⟨hflag, hzero, hoff, hmod, hnot⟩ :=
        (hres.tailFaults_iff hplac hloadable.fits hj hload).mp hfaults
      exact hnot (hloadable.tails j phdr hj hload hflag hzero hoff hmod)
    · rw [hall hnone, append_nil] at heq
      dsimp only
      rw [← heq]
      exact (hres.puts_tableOps hplac hloadable.fits hmem hload hk _).mpr
        (hloadable.bytes phdr hmem hload k hk)
  · intro hnone hins hbyt
    rw [hall hnone, append_nil] at heq
    subst heq
    have hfits : ∀ phdr ∈ phdrTable, phdr.ptLoad → Fits page (loadLimit page phdrTable) phdr := by
      intro phdr hmem hload
      constructor
      · refine (hplac phdr hmem hload).fileOps_inside_iff.mp ?_
        intro op hop a hchang
        have hasks : op ∈ tableOps page reservation.loadBias phdrTable := by
          refine mem_flatMap.mpr ⟨phdr, hmem, ?_⟩
          rw [if_pos hload, hres.bias_eq]
          exact mem_append_left _ (mem_append_left _ hop)
        have hin := hins op (mem_append_right _ hasks) a hchang
        rw [hres.size_eq] at hin
        exact ⟨hin.1, hin.2.1⟩
      · intro hsize
        have hbyte := hbyt phdr hmem hload 0 (by omega)
        rw [lastSome?_append, Option.or_eq_some_iff] at hbyte
        rcases hbyte with hbyte | hbyte
        · obtain ⟨op, hop, hputs⟩ := mem_of_lastSome? hbyte
          obtain ⟨other, hmem', hload', hop⟩ := hask op hop
          rw [hres.bias_eq] at hop hputs
          exact (hplac phdr hmem hload).offset_mod_eq
            ((hplac other hmem' hload').mod_eq_of_puts hop hputs)
        · -- Before the segments nothing of the file is mapped.
          exact absurd hbyte.2 (hres.puts_ne _ _)
    refine ⟨hfits, fun phdr hmem hload k hk => ?_, fun j phdr hj hload hflag hzero hoff hmod => ?_⟩
    · exact (hres.puts_tableOps hplac hfits hmem hload hk _).mp (hbyt phdr hmem hload k hk)
    · by_contra hnot
      exact hfine hnone j phdr hj hload
        ((hres.tailFaults_iff hplac hfits hj hload).mpr ⟨hflag, hzero, hoff, hmod, hnot⟩)

variable (page fns fileSize align eType phdrTable)

end Loading

/-- Pages of 4096 bytes, and mappings that are all placed at one address. -/
def page4K : PageSize := ⟨12, PageSize.twelve_le⟩

/-- Two segments from one page of the file, the second one writable and with zeroes after its
    contents, and a third one that is only zeroes and begins in a page of the second. -/
def threeSegments : List ElfPhdr :=
  [⟨true, pfR, 0, 0, 0x20, 0x20⟩, ⟨true, pfR + pfW, 0x20, 0x1020, 0x10, 0x1800⟩,
    ⟨true, pfR + pfW, 0, 0x2800, 0, 0x20⟩]

theorem noWrap_threeSegments : NoWrap page4K threeSegments := by
  unfold NoWrap
  decide +kernel

theorem fits_loadLimit_zeroes :
    Fits page4K (loadLimit page4K threeSegments) ⟨true, pfR + pfW, 0x20, 0x1020, 0x10, 0x1800⟩ :=
  fits_loadLimit noWrap_threeSegments (by decide) rfl (by decide) (by decide)

theorem loadable_threeSegments : Loadable page4K threeSegments := by
  refine ⟨by decide +kernel, by decide +kernel, fun j phdr hj => ?_⟩
  rcases j with _ | _ | _ | j
  · obtain rfl := Option.some.inj hj
    decide
  · obtain rfl := Option.some.inj hj
    decide
  · obtain rfl := Option.some.inj hj
    decide +kernel
  · cases hj

def mmapAt64K : MmapFn :=
  ⟨fun _ size => if size < 2 ^ 32 then some 0x10000 else none, fun _ _ => true, fun _ => true⟩

theorem mmapAt64K_lawful : mmapAt64K.Lawful page4K := by
  intro hint size ptr h
  unfold mmapAt64K at h
  dsimp only at h
  split at h
  · obtain rfl := Option.some.inj h
    exact ⟨by decide, by omega⟩
  · cases h

-- A reservation that fails is null, which is where this executable is to be.
example :
    loadSegments page4K ⟨fun _ _ => none, fun _ _ => true, fun _ => false⟩ 0x1000 .etExec
      [ElfPhdr.mk true pfR 0 0 0x1000 0x1000] 0 =
      ⟨some ⟨0, 0x1000, 0⟩, [.mapFile 0 0x1000 ⟨false, true, false⟩ 0], none⟩ := by
  decide +kernel

-- The zeroes after the second segment are where the contents of the first one were.
example :
    let loading := loadSegments page4K mmapAt64K 0x1000 .other
      [ElfPhdr.mk true pfR 0x800 0x800 0x800 0x800, ElfPhdr.mk true (pfR + pfW) 0 0 0x700 0x700] 0
    loading.error = none ∧ lastSome? (·.puts page4K 0x10800) loading.ops = some none := by
  decide +kernel

-- A page that is reserved only is filled with zeroes.
example : (loadSegments page4K mmapAt64K 0x1000 .other
    [ElfPhdr.mk true (pfR + pfW) 0 0x800 0 0x100] 0).error = some .fault := by
  decide +kernel

-- The end of the second segment wraps around, and is not seen.
example :
    loadSegments page4K mmapAt64K 0x1000 .other
      [ElfPhdr.mk true pfR 0 0 0x1000 0x1000,
        ElfPhdr.mk true pfR 0 0x2000 0x1000 (2 ^ 64 - 0x2000)] 0 =
      ⟨some ⟨0x10000, 0x1000, 0x10000⟩,
        [.mapNone 0x10000 0x1000, .mapFile 0x10000 0x1000 ⟨false, true, false⟩ 0,
          .mapFile 0x12000 0x1000 ⟨false, true, false⟩ 0], none⟩ := by
  decide +kernel

end Berberis.TinyLoader
