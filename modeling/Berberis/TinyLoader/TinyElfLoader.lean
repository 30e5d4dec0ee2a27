import Berberis.Base.BitUtil

/-!
# Loading the Segments of a File

The loader reserves address space for all segments in one piece, and then maps
the file's contents and zeroes over it, segment by segment. Addresses and sizes
have 64 bits; sums and differences wrap around as they do in the source.
-/

namespace Berberis.TinyLoader

inductive ElfType where
  | etExec
  | other
  deriving DecidableEq

structure ElfPhdr where
  ptLoad : Bool
  pFlags : Nat
  pOffset : Nat
  pVaddr : Nat
  pFilesz : Nat
  pMemsz : Nat
  deriving DecidableEq

def pfX : Nat := 1

def pfW : Nat := 2

def pfR : Nat := 4

structure Prot where
  exec : Bool
  read : Bool
  write : Bool
  deriving DecidableEq

def pflagsToProt (flags : Nat) : Prot :=
  ⟨flags &&& pfX != 0, flags &&& pfR != 0, flags &&& pfW != 0⟩

inductive MemoryOp where
  /-- Map inaccessible memory somewhere. -/
  | mapNone (addr length : Nat)
  | munmap (addr length : Nat)
  /-- Map a part of the file at a fixed address. -/
  | mapFile (addr length : Nat) (prot : Prot) (offset : Nat)
  /-- Fill memory with zeroes. -/
  | memset (addr length : Nat)
  /-- Map anonymous memory at a fixed address. -/
  | mapAnonymous (addr length : Nat) (prot : Prot)
  deriving DecidableEq

/-- Errors, as the messages tell them apart. -/
inductive LoadError where
  | noLoadableSegments
  | couldntReserveAt (size addr : Nat)
  | couldntReserve (size : Nat)
  | couldntReserveAligned (size align : Nat)
  | invalidFileSize (fileSize : Nat)
  | pastEndOfFile (segment : Nat)
  | writableAndExecutable
  | couldntMap (segment : Nat)
  | couldntZeroFill
  /-- A check failed. -/
  | check
  /-- Not a message: memory that is not writable was filled, and a signal raised. -/
  | fault
  deriving DecidableEq

structure MmapFn where
  mmap : (hint size : Nat) → Option Nat
  mmapFixed : (before : List MemoryOp) → MemoryOp → Bool
  /-- The memory that was writable before. -/
  writable : Nat → Bool

/-- What the last of the elements that decide says. -/
def lastSome? {α β : Type} (f : α → Option β) : List α → Option β
  | [] => none
  | x :: xs => (lastSome? f xs).or (f x)

variable (page : PageSize)

def roundUp (n : Nat) : Nat := (n + page.size - 1) / page.size * page.size

/-- Whether an operation makes a byte of memory writable or not. Mappings are of whole pages. -/
def MemoryOp.writable? : MemoryOp → Nat → Option Bool
  | .mapFile addr length prot _, a | .mapAnonymous addr length prot, a =>
    if addr ≤ a ∧ a < addr + roundUp page length then some prot.write else none
  | .mapNone addr length, a | .munmap addr length, a =>
    if addr ≤ a ∧ a < addr + roundUp page length then some false else none
  | .memset _ _, _ => none

def isWritable (fns : MmapFn) (ops : List MemoryOp) (a : Nat) : Bool :=
  (lastSome? (·.writable? page a) ops).getD (fns.writable a)

def pageAlignDown (addr : Nat) : Nat := alignDown addr page.size

def pageAlignUp (addr : Nat) : Nat := alignUp addr page.size

def pageOffset (addr : Nat) : Nat := addr - pageAlignDown page addr

def wrap (n : Nat) : Nat := n % 2 ^ 64

def wrapSub (m n : Nat) : Nat := (m + 2 ^ 64 - n) % 2 ^ 64

/-- The lowest and the highest address so far, and whether there was a segment. -/
structure VaddrRange where
  minVaddr : Nat
  maxVaddr : Nat
  foundPtLoad : Bool
  deriving DecidableEq

def VaddrRange.extend (range : VaddrRange) (phdr : ElfPhdr) : VaddrRange :=
  if phdr.ptLoad then
    { minVaddr := if phdr.pVaddr < range.minVaddr then phdr.pVaddr else range.minVaddr
      maxVaddr :=
        if wrap (phdr.pVaddr + phdr.pMemsz) > range.maxVaddr then
          wrap (phdr.pVaddr + phdr.pMemsz)
        else range.maxVaddr
      foundPtLoad := true }
  else range

/-- The size to reserve, and the lowest address rounded to a page. -/
def phdrTableGetLoadSize (phdrTable : List ElfPhdr) : Nat × Nat :=
  let range := phdrTable.foldl VaddrRange.extend ⟨2 ^ 64 - 1, 0, false⟩
  let minVaddr := if range.foundPtLoad then range.minVaddr else 0
  let minVaddr := pageAlignDown page minVaddr
  let maxVaddr := pageAlignUp page range.maxVaddr
  (wrapSub maxVaddr minVaddr, minVaddr)

structure Reservation where
  loadStart : Nat
  loadSize : Nat
  loadBias : Nat
  deriving DecidableEq

/-- The address of the new mapping, which is null when there is none. -/
def reserve (fns : MmapFn) (hint size : Nat) : Nat × List MemoryOp :=
  match fns.mmap hint size with
  | none => (0, [])
  | some ptr => (ptr, [.mapNone ptr size])

def reserveAddressSpace (fns : MmapFn) (eType : ElfType) (phdrTable : List ElfPhdr)
    (align : Nat) : List MemoryOp × Except LoadError Reservation :=
  let (size, addr) := phdrTableGetLoadSize page phdrTable
  if size = 0 then ([], .error .noLoadableSegments)
  else if eType = .etExec then
    let (start, ops) := reserve fns addr size
    if start ≠ addr then
      (if start ≠ 0 then ops ++ [.munmap start size] else ops,
        .error (.couldntReserveAt size addr))
    else (ops, .ok ⟨start, size, wrapSub start addr⟩)
  else if align ≤ page.size then
    let (start, ops) := reserve fns 0 size
    if start = 0 then (ops, .error (.couldntReserve size))
    else (ops, .ok ⟨start, size, wrapSub start addr⟩)
  else if align &&& (align - 1) ≠ 0 then ([], .error .check)
  else
    let (unalignedStart, ops) := reserve fns 0 (wrap (align + size))
    if unalignedStart = 0 then (ops, .error (.couldntReserveAligned size align))
    else
      let start := alignUp unalignedStart align
      (ops ++ [.munmap unalignedStart (wrapSub start unalignedStart),
          .munmap (wrap (start + size)) (wrapSub (wrap (unalignedStart + align)) start)],
        .ok ⟨start, size, wrapSub start addr⟩)

def loadSegment (fns : MmapFn) (fileSize loadBias i : Nat) (phdr : ElfPhdr)
    (ops : List MemoryOp) : List MemoryOp × Option LoadError :=
  let segStart := wrap (phdr.pVaddr + loadBias)
  let segEnd := wrap (segStart + phdr.pMemsz)
  let segPageStart := pageAlignDown page segStart
  let segPageEnd := pageAlignUp page segEnd
  let segFileEnd := wrap (segStart + phdr.pFilesz)
  let fileStart := phdr.pOffset
  let fileEnd := wrap (fileStart + phdr.pFilesz)
  let filePageStart := pageAlignDown page fileStart
  let fileLength := wrapSub fileEnd filePageStart
  let prot := pflagsToProt phdr.pFlags
  if fileSize = 0 then (ops, some (.invalidFileSize fileSize))
  else if fileEnd > fileSize then (ops, some (.pastEndOfFile i))
  else
    let mapFile := MemoryOp.mapFile segPageStart fileLength prot filePageStart
    if fileLength ≠ 0 ∧ prot.exec ∧ prot.write then (ops, some .writableAndExecutable)
    else if fileLength ≠ 0 ∧ fns.mmapFixed ops mapFile = false then (ops, some (.couldntMap i))
    else
      let ops := if fileLength ≠ 0 then ops ++ [mapFile] else ops
      let fills := phdr.pFlags &&& pfW ≠ 0 && pageOffset page segFileEnd > 0
      if fills && !isWritable page fns ops segFileEnd then (ops, some .fault)
      else
        let ops :=
          if fills then ops ++ [.memset segFileEnd (page.size - pageOffset page segFileEnd)]
          else ops
        let segFileEnd := pageAlignUp page segFileEnd
        if segPageEnd > segFileEnd then
          let zeromap := MemoryOp.mapAnonymous segFileEnd (segPageEnd - segFileEnd) prot
          if fns.mmapFixed ops zeromap = false then (ops, some .couldntZeroFill)
          else (ops ++ [zeromap], none)
        else (ops, none)

def loadSegmentsFrom (fns : MmapFn) (fileSize loadBias : Nat) :
    Nat → List ElfPhdr → List MemoryOp → List MemoryOp × Option LoadError
  | _, [], ops => (ops, none)
  | i, phdr :: rest, ops =>
    if phdr.ptLoad then
      match loadSegment page fns fileSize loadBias i phdr ops with
      | (ops, some error) => (ops, some error)
      | (ops, none) => loadSegmentsFrom fns fileSize loadBias (i + 1) rest ops
    else loadSegmentsFrom fns fileSize loadBias (i + 1) rest ops

/-- What came of loading: the reservation, what was done to memory, and the
    error that was reported. -/
structure Loading where
  reservation : Option Reservation
  ops : List MemoryOp
  error : Option LoadError
  deriving DecidableEq

def loadReserved (fns : MmapFn) (fileSize : Nat) (phdrTable : List ElfPhdr) :
    List MemoryOp × Except LoadError Reservation → Loading
  | (ops, .error error) => ⟨none, ops, some error⟩
  | (ops, .ok reservation) =>
    let loaded := loadSegmentsFrom page fns fileSize reservation.loadBias 0 phdrTable ops
    ⟨some reservation, loaded.1, loaded.2⟩

def loadSegments (fns : MmapFn) (fileSize : Nat) (eType : ElfType) (phdrTable : List ElfPhdr)
    (align : Nat) : Loading :=
  loadReserved page fns fileSize phdrTable
    (reserveAddressSpace page fns eType phdrTable align)

end Berberis.TinyLoader
