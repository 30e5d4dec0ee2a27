import Berberis.Lib.Run
import Berberis.Lib.SortedMap

/-!
# Translation Cache

The cache of translated regions. Each guest pc that was ever looked up has an
entry in `guest_entries_`, and each guest pc has a slot in the table of tables
that says what to run for it: generated code, or one of the runtime's own
entry points. An entry whose slot is `kEntryTranslating`, `kEntryWrapping` or
`kEntryInvalidating` is locked by the client that is producing its code.
-/

namespace Berberis

/-- A host address to run, as kept in a slot: one of the runtime's entry
    points the cache itself tells apart, or any other code. -/
inductive HostCodeAddr where
  | kEntryNotTranslated
  | kEntryTranslating
  | kEntryInvalidating
  | kEntryWrapping
  | code (addr : Nat)
  deriving DecidableEq

def HostCodeAddr.IsLock (a : HostCodeAddr) : Prop :=
  a = .kEntryTranslating ∨ a = .kEntryInvalidating ∨ a = .kEntryWrapping

instance (a : HostCodeAddr) : Decidable a.IsLock :=
  inferInstanceAs (Decidable (_ ∨ _))

structure HostCodePiece where
  code : HostCodeAddr
  size : Nat
  deriving DecidableEq

namespace TranslationCache

def kTableBits : Nat := 24

def kTableSize : Nat := 2 ^ kTableBits

/-- The two indices of a slot. -/
structure SplitKey where
  low : Nat
  high : Nat
  deriving DecidableEq

def SplitKey.ofKey (key : Nat) : SplitKey :=
  { low := key % kTableSize, high := key / kTableSize % kTableSize }

inductive Kind where
  | kInterpreted
  | kLiteTranslated
  | kHeavyOptimized
  | kGuestWrapped
  | kHostWrapped
  | kUnderProcessing
  | kSpecialHandler
  deriving DecidableEq

structure GuestCodeEntry where
  hostCode : SplitKey
  hostSize : Nat
  guestSize : Nat
  kind : Kind
  invocationCounter : Nat
  /-- Tells the node apart from every other node ever allocated. -/
  stamp : Nat
  deriving DecidableEq

/-- A pointer to a node of `guest_entries_`. -/
structure EntryPtr where
  pc : Nat
  stamp : Nat
  deriving DecidableEq

end TranslationCache

open TranslationCache

structure TranslationCache where
  translating : List EntryPtr
  guestEntries : Lib.SortedMap Nat GuestCodeEntry
  addressMap : SplitKey → HostCodeAddr
  maxGuestSize : Nat
  /-- The next stamp to give out. -/
  allocated : Nat

namespace TranslationCache

/-- The conditions the operations `CHECK`. -/
inductive Check where
  | inserted
  | kindIsTranslated
  | slotIsTranslating
  | slotIsWrapping
  | kindIsUnderProcessing
  | guestSizeIsPositive
  | guestSizeIsOne
  | erasedOne
  deriving DecidableEq

inductive Failure where
  | check (c : Check)
  | danglingEntry
  deriving DecidableEq

def check (p : Prop) [Decidable p] (c : Check) : Except Failure Unit :=
  if p then .ok () else .error (.check c)

theorem check_bind {α : Type} {p : Prop} [Decidable p] {c : Check} {f : Unit → Except Failure α}
    (h : p) : (check p c >>= f) = f () := by
  rw [check, if_pos h]
  rfl

def empty : TranslationCache :=
  { translating := []
    guestEntries := Lib.SortedMap.empty
    addressMap := fun _ => .kEntryNotTranslated
    maxGuestSize := 1
    allocated := 0 }

def slot (c : TranslationCache) (pc : Nat) : HostCodeAddr := c.addressMap (SplitKey.ofKey pc)

def store (c : TranslationCache) (key : SplitKey) (code : HostCodeAddr) : TranslationCache :=
  { c with addressMap := Function.update c.addressMap key code }

def setEntry (c : TranslationCache) (pc : Nat) (entry : GuestCodeEntry) : TranslationCache :=
  { c with guestEntries := c.guestEntries.insert pc entry }

def eraseEntry (c : TranslationCache) (pc : Nat) : TranslationCache :=
  { c with guestEntries := c.guestEntries.erase pc }

variable (c : TranslationCache) (pc : Nat) (entry : GuestCodeEntry)

@[simp]
theorem store_translating (key : SplitKey) (code : HostCodeAddr) :
    (c.store key code).translating = c.translating := rfl

@[simp]
theorem store_guestEntries (key : SplitKey) (code : HostCodeAddr) :
    (c.store key code).guestEntries = c.guestEntries := rfl

@[simp]
theorem setEntry_translating : (c.setEntry pc entry).translating = c.translating := rfl

@[simp]
theorem setEntry_slot (pc q : Nat) (entry : GuestCodeEntry) :
    (c.setEntry pc entry).slot q = c.slot q := rfl

@[simp]
theorem setEntry_guestEntries :
    (c.setEntry pc entry).guestEntries = c.guestEntries.insert pc entry := rfl

@[simp]
theorem eraseEntry_slot (pc q : Nat) : (c.eraseEntry pc).slot q = c.slot q := rfl

@[simp]
theorem eraseEntry_guestEntries : (c.eraseEntry pc).guestEntries = c.guestEntries.erase pc := rfl

def deref (c : TranslationCache) (ptr : EntryPtr) : Except Failure GuestCodeEntry :=
  match c.guestEntries.get? ptr.pc with
  | some entry => if entry.stamp = ptr.stamp then .ok entry else .error .danglingEntry
  | none => .error .danglingEntry

/-- The entry of a pc, added if it is not there; the slot is written only then. -/
def addUnsafe (c : TranslationCache) (pc : Nat) (hostCodePtr : SplitKey) (piece : HostCodePiece)
    (guestSize : Nat) (kind : Kind) : TranslationCache × EntryPtr × Bool :=
  match c.guestEntries.get? pc with
  | some entry => (c, ⟨pc, entry.stamp⟩, false)
  | none =>
    let entry : GuestCodeEntry := ⟨hostCodePtr, piece.size, guestSize, kind, 0, c.allocated⟩
    let added := ({ c with allocated := c.allocated + 1 }.setEntry pc entry)
    (added.store hostCodePtr piece.code, ⟨pc, c.allocated⟩, true)

def lockForTranslationUnsafe (c : TranslationCache) (ptr : EntryPtr) :
    Except Failure TranslationCache := do
  let entry ← c.deref ptr
  let c := c.store entry.hostCode .kEntryTranslating
  let c := c.setEntry ptr.pc { entry with kind := .kUnderProcessing }
  check (ptr ∉ c.translating) .inserted
  return { c with translating := ptr :: c.translating }

/-- The locked entry, or nothing when the pc is not in the state to be translated. -/
def addAndLockForTranslation (c : TranslationCache) (pc counterThreshold : Nat) :
    Except Failure (TranslationCache × Option EntryPtr) := do
  let (c, ptr, _) :=
    c.addUnsafe pc (SplitKey.ofKey pc) ⟨.kEntryNotTranslated, 0⟩ 1 .kInterpreted
  let entry ← c.deref ptr
  if c.addressMap entry.hostCode ≠ .kEntryNotTranslated then
    return (c, none)
  if entry.invocationCounter < counterThreshold then
    return (c.setEntry pc { entry with invocationCounter := entry.invocationCounter + 1 }, none)
  let c ← c.lockForTranslationUnsafe ptr
  return (c, some ptr)

def lockForGearUpTranslation (c : TranslationCache) (pc : Nat) :
    Except Failure (TranslationCache × Option EntryPtr) :=
  match c.guestEntries.get? pc with
  | none => return (c, none)
  | some entry => do
      if entry.kind ≠ .kLiteTranslated then
        return (c, none)
      let ptr : EntryPtr := ⟨pc, entry.stamp⟩
      let c ← c.lockForTranslationUnsafe ptr
      return (c, some ptr)

def setTranslatedAndUnlock (c : TranslationCache) (pc : Nat) (ptr : EntryPtr) (guestSize : Nat)
    (kind : Kind) (piece : HostCodePiece) : Except Failure TranslationCache := do
  check (kind ≠ .kUnderProcessing) .kindIsTranslated
  check (kind ≠ .kGuestWrapped) .kindIsTranslated
  check (kind ≠ .kHostWrapped) .kindIsTranslated
  let entry ← c.deref ptr
  let current := c.addressMap entry.hostCode
  -- Invalidated while translating: the entry goes.
  if current = .kEntryInvalidating then
    return (c.store entry.hostCode .kEntryNotTranslated).eraseEntry pc
  check (current = .kEntryTranslating) .slotIsTranslating
  check (entry.kind = .kUnderProcessing) .kindIsUnderProcessing
  let c := c.store entry.hostCode piece.code
  check (0 < guestSize) .guestSizeIsPositive
  let c := c.setEntry ptr.pc
    { entry with hostSize := piece.size, guestSize := guestSize, kind := kind }
  check (ptr ∈ c.translating) .erasedOne
  return { c with
    translating := c.translating.erase ptr
    maxGuestSize := max c.maxGuestSize guestSize }

def addAndLockForWrapping (c : TranslationCache) (pc : Nat) :
    TranslationCache × Option EntryPtr :=
  let (c, ptr, locked) :=
    c.addUnsafe pc (SplitKey.ofKey pc) ⟨.kEntryWrapping, 0⟩ 1 .kUnderProcessing
  (c, if locked then some ptr else none)

def setWrappedAndUnlock (c : TranslationCache) (pc : Nat) (ptr : EntryPtr) (isHostFunc : Bool)
    (piece : HostCodePiece) : Except Failure TranslationCache := do
  let entry ← c.deref ptr
  let current := c.addressMap entry.hostCode
  -- Invalidated while wrapping: the entry goes.
  if current = .kEntryInvalidating then
    return (c.store entry.hostCode .kEntryNotTranslated).eraseEntry pc
  check (current = .kEntryWrapping) .slotIsWrapping
  check (entry.kind = .kUnderProcessing) .kindIsUnderProcessing
  let c := c.store entry.hostCode piece.code
  let kind := if isHostFunc then .kHostWrapped else .kGuestWrapped
  let c := c.setEntry ptr.pc { entry with hostSize := piece.size, kind := kind }
  check (entry.guestSize = 1) .guestSizeIsOne
  return c

def invalidateTranslating (c : TranslationCache) : List EntryPtr →
    Except Failure TranslationCache
  | [] => return c
  | ptr :: ptrs => do
      let entry ← c.deref ptr
      check (entry.kind = .kUnderProcessing) .kindIsUnderProcessing
      check (c.addressMap entry.hostCode = .kEntryTranslating) .slotIsTranslating
      let c := c.store entry.hostCode .kEntryInvalidating
      invalidateTranslating (c.setEntry ptr.pc { entry with hostSize := 0 }) ptrs

def invalidateEntriesBeingTranslatedUnsafe (c : TranslationCache) :
    Except Failure TranslationCache := do
  let c ← c.invalidateTranslating c.translating
  return { c with translating := [] }

def guestEnd (pc : Nat) (entry : GuestCodeEntry) : Nat := (pc + entry.guestSize) % 2 ^ 64

/-- The loop of `InvalidateGuestRange` from a node on. Erasing a node leaves
    the nodes after it where they are. -/
def invalidateNodes (start stop : Nat) (c : TranslationCache) (invalidatedExecutable : Bool) :
    List (Nat × GuestCodeEntry) → Except Failure (TranslationCache × Bool)
  | [] => return (c, invalidatedExecutable)
  | (guestPc, entry) :: nodes => do
      check (0 < entry.guestSize) .guestSizeIsPositive
      if guestEnd guestPc entry ≤ start then
        invalidateNodes start stop c invalidatedExecutable nodes
      else if stop ≤ guestPc then
        return (c, invalidatedExecutable)
      else match c.addressMap entry.hostCode with
        | .kEntryInvalidating => invalidateNodes start stop c invalidatedExecutable nodes
        | .kEntryWrapping =>
          invalidateNodes start stop (c.store entry.hostCode .kEntryInvalidating) true nodes
        | _ =>
          invalidateNodes start stop
            ((c.store entry.hostCode .kEntryNotTranslated).eraseEntry guestPc) true nodes

def invalidateGuestRange (c : TranslationCache) (start stop : Nat) :
    Except Failure (TranslationCache × Bool) := do
  let c ← c.invalidateEntriesBeingTranslatedUnsafe
  let first :=
    if start ≤ c.maxGuestSize then c.guestEntries.toList
    else c.guestEntries.upperBound (start - c.maxGuestSize)
  invalidateNodes start stop c false first

def kGearSwitchThreshold : Nat := 1000

def gearShiftNodes (target range : Nat) (c : TranslationCache) :
    List (Nat × GuestCodeEntry) → Except Failure TranslationCache
  | [] => return c
  | (guestPc, entry) :: nodes => do
      check (0 < entry.guestSize) .guestSizeIsPositive
      if target < guestPc ∧ range < guestPc - target then
        return c
      else if entry.kind = .kLiteTranslated then
        gearShiftNodes target range
          (c.setEntry guestPc { entry with invocationCounter := kGearSwitchThreshold }) nodes
      else gearShiftNodes target range c nodes

def triggerGearShift (c : TranslationCache) (target range : Nat) :
    Except Failure TranslationCache :=
  let start := if range < target then target - range else 0
  gearShiftNodes target range c (c.guestEntries.lowerBound start)

def dropUnfinished (c : TranslationCache) : List (Nat × GuestCodeEntry) → TranslationCache
  | [] => c
  | (guestPc, entry) :: nodes =>
    if entry.kind = .kUnderProcessing then
      dropUnfinished ((c.store entry.hostCode .kEntryNotTranslated).eraseEntry guestPc) nodes
    else dropUnfinished c nodes

def finishFork (c : TranslationCache) (isChild : Bool) : TranslationCache :=
  if isChild then dropUnfinished { c with translating := [] } c.guestEntries.toList else c

/-- What a client was handed a locked entry for. -/
inductive Mode where
  | translation
  | wrapping
  deriving DecidableEq

/-- A client with an entry it has yet to unlock. -/
structure Holder (Client : Type) where
  client : Client
  ptr : EntryPtr
  mode : Mode
  deriving DecidableEq

/-- The cache and its clients. `published` are the entries whose translated or wrapped code was
    published in their slot and that no `InvalidateGuestRange` has overlapped since. -/
structure System (Client : Type) where
  cache : TranslationCache
  held : List (Holder Client)
  published : List EntryPtr

inductive Action (Client : Type) where
  | addAndLockForTranslation (client : Client) (pc counterThreshold : Nat)
  | lockForGearUpTranslation (client : Client) (pc : Nat)
  | setTranslatedAndUnlock (client : Client) (ptr : EntryPtr) (guestSize : Nat) (kind : Kind)
      (piece : HostCodePiece)
  | addAndLockForWrapping (client : Client) (pc : Nat)
  | setWrappedAndUnlock (client : Client) (ptr : EntryPtr) (isHostFunc : Bool)
      (piece : HostCodePiece)
  | invalidateGuestRange (start stop : Nat)
  | triggerGearShift (target range : Nat)
  | finishFork (isChild : Bool)
  deriving DecidableEq

variable {Client : Type}

def init : System Client := { cache := empty, held := [], published := [] }

def System.hand (s : System Client) (client : Client) (mode : Mode)
    (r : TranslationCache × Option EntryPtr) : System Client :=
  match r with
  | (c, some ptr) => { s with cache := c, held := ⟨client, ptr, mode⟩ :: s.held }
  | (c, none) => { s with cache := c }

def Overlaps (start stop pc : Nat) (entry : GuestCodeEntry) : Prop :=
  start < pc + entry.guestSize ∧ pc < stop

instance (start stop pc : Nat) (entry : GuestCodeEntry) :
    Decidable (Overlaps start stop pc entry) :=
  inferInstanceAs (Decidable (start < pc + entry.guestSize ∧ pc < stop))

def touches (c : TranslationCache) (start stop : Nat) (ptr : EntryPtr) : Bool :=
  match c.deref ptr with
  | .ok entry => Overlaps start stop ptr.pc entry
  | .error _ => false

def keepsCode (c : TranslationCache) (ptr : EntryPtr) : Bool :=
  match c.deref ptr with
  | .ok entry => c.addressMap entry.hostCode ≠ .kEntryInvalidating
  | .error _ => false

/-- A client gives an entry back, with its code if the entry was not invalidated in the meantime. -/
def System.unlock [DecidableEq Client] (s : System Client) (holder : Holder Client)
    (c : TranslationCache) : System Client :=
  { cache := c
    held := s.held.erase holder
    published := if c.keepsCode holder.ptr then holder.ptr :: s.published else s.published }

def exec [DecidableEq Client] (s : System Client) : Action Client → Except Failure (System Client)
  | .addAndLockForTranslation client pc counterThreshold => do
      return s.hand client .translation (← s.cache.addAndLockForTranslation pc counterThreshold)
  | .lockForGearUpTranslation client pc => do
      return s.hand client .translation (← s.cache.lockForGearUpTranslation pc)
  | .setTranslatedAndUnlock client ptr guestSize kind piece => do
      return s.unlock ⟨client, ptr, .translation⟩
        (← s.cache.setTranslatedAndUnlock ptr.pc ptr guestSize kind piece)
  | .addAndLockForWrapping client pc =>
    return s.hand client .wrapping (s.cache.addAndLockForWrapping pc)
  | .setWrappedAndUnlock client ptr isHostFunc piece => do
      return s.unlock ⟨client, ptr, .wrapping⟩
        (← s.cache.setWrappedAndUnlock ptr.pc ptr isHostFunc piece)
  | .invalidateGuestRange start stop => do
      let (c, _) ← s.cache.invalidateGuestRange start stop
      -- Entries being translated elsewhere are given up too, but keep what they have published.
      return { s with
        cache := c
        published := s.published.filter fun ptr => !s.cache.touches start stop ptr }
  | .triggerGearShift target range => do
      return { s with cache := ← s.cache.triggerGearShift target range }
  | .finishFork isChild =>
    -- The clients are threads of the parent; the child has none of them.
    return { s with
      cache := s.cache.finishFork isChild
      held := if isChild then [] else s.held }

def step [DecidableEq Client] (s : System Client) (a : Action Client) : Option (System Client) :=
  (exec s a).toOption

/-- A client unlocks what it was handed, in the mode it was handed it, with
    arguments that are not those of a locked entry. -/
def Legal (s : System Client) : Action Client → Prop
  | .addAndLockForTranslation _ pc _ => pc < 2 ^ 64
  | .setTranslatedAndUnlock client ptr guestSize kind piece =>
    ⟨client, ptr, .translation⟩ ∈ s.held ∧ 0 < guestSize ∧ guestSize < 2 ^ 32 ∧
      kind ≠ .kUnderProcessing ∧ kind ≠ .kGuestWrapped ∧ kind ≠ .kHostWrapped ∧
      ¬ piece.code.IsLock
  | .addAndLockForWrapping _ pc => pc < 2 ^ 64
  | .setWrappedAndUnlock client ptr _ piece =>
    ⟨client, ptr, .wrapping⟩ ∈ s.held ∧ ¬ piece.code.IsLock
  | _ => True

def Untagged : Action Client → Prop
  | .addAndLockForTranslation _ pc _ => pc < 2 ^ 48
  | .addAndLockForWrapping _ pc => pc < 2 ^ 48
  | _ => True

instance [DecidableEq Client] (s : System Client) (a : Action Client) : Decidable (Legal s a) :=
  match a with
  | .addAndLockForTranslation .. | .addAndLockForWrapping .. => inferInstanceAs (Decidable (_ < _))
  | .setTranslatedAndUnlock .. | .setWrappedAndUnlock .. => inferInstanceAs (Decidable (_ ∧ _))
  | .lockForGearUpTranslation .. | .invalidateGuestRange .. | .triggerGearShift ..
  | .finishFork _ => isTrue trivial

instance (a : Action Client) : Decidable (Untagged a) :=
  match a with
  | .addAndLockForTranslation .. | .addAndLockForWrapping .. => inferInstanceAs (Decidable (_ < _))
  | .lockForGearUpTranslation .. | .setTranslatedAndUnlock .. | .setWrappedAndUnlock ..
  | .invalidateGuestRange .. | .triggerGearShift .. | .finishFork _ => isTrue trivial

end TranslationCache

end Berberis
