import Berberis.Backend.Lifetime
import Berberis.Lib.Run

/-!
# Register Allocation

The allocator walks the list of lifetimes in order and gives each a hard
register: one on which nothing interferes, or one whose interfering lifetimes
it spills. A spilled lifetime is cut down to the uses that end before the new
lifetime, and each of its other uses becomes a tiny lifetime that is merged
into the part of the list not yet visited.
-/

namespace Berberis.RegAlloc

def kInfiniteSpillWeight : Int := 99999

/-- A lifetime to spill and where to split it. -/
structure VRegLifetimeSpill where
  lifetime : Nat
  reallocPos : Option SplitPos
  deriving DecidableEq

structure HardRegAllocation where
  lifetimes : List Nat
  newLifetime : Option Nat
  spills : List VRegLifetimeSpill
  deriving DecidableEq

/-- The loop of `TryAssign`: what is left of the list, and whether a lifetime
    interfered. The walk stops at the first one that does. -/
def tryAssignLoop (heap : Nat → VRegLifetime) (new : VRegLifetime) : List Nat → List Nat × Bool
  | [] => ([], false)
  | curr :: rest =>
    if (heap curr).end_ ≤ new.begin_ then tryAssignLoop heap new rest
    else if (heap curr).testInterference new then (curr :: rest, true)
    else
      let next := tryAssignLoop heap new rest
      (curr :: next.1, next.2)

def HardRegAllocation.tryAssign (a : HardRegAllocation) (heap : Nat → VRegLifetime) (new : Nat) :
    HardRegAllocation × Bool :=
  match tryAssignLoop heap (heap new) a.lifetimes with
  | (lifetimes, true) => ({ a with newLifetime := some new, lifetimes := lifetimes }, false)
  | (lifetimes, false) =>
    ({ a with newLifetime := some new, lifetimes := lifetimes ++ [new] }, true)

/-- The loop of `ConsiderSpill`: the spills recorded, and the weight if it was
    not found to be infinite on the way. -/
def considerSpillLoop (heap : Nat → VRegLifetime) (new : VRegLifetime) :
    List Nat → List VRegLifetimeSpill × Option Int
  | [] => ([], some 0)
  | curr :: rest =>
    let next := considerSpillLoop heap new rest
    if (heap curr).testInterference new then
      match (heap curr).findSplitPos new.begin_ with
      | (.impossible, _) => ([], none)
      | (kind, pos) =>
        if kind = .conflict ∧ (heap curr).regClass.isSubsetOf new.regClass then ([], none)
        else
          -- Evicting a tiny lifetime is free.
          let weight := if (heap curr).spillSlot = none then (heap curr).spillWeight else 0
          (⟨curr, pos⟩ :: next.1, next.2.map (weight + ·))
    else next

/-- The spill weight of a register, or `none` when a `CHECK` fails. -/
def HardRegAllocation.considerSpill (a : HardRegAllocation) (heap : Nat → VRegLifetime)
    (new : Nat) : Option (HardRegAllocation × Int) :=
  if a.newLifetime = some new then
    let found := considerSpillLoop heap (heap new) a.lifetimes
    let considered := { a with spills := found.1 }
    match found.2 with
    | none => some (considered, kInfiniteSpillWeight)
    | some weight => if weight < kInfiniteSpillWeight then some (considered, weight) else none
  else none

/-- Merging from a position on, in the order of a key: the nodes of `src` with
    a smaller key than the node at the position go in front of it. -/
def mergeAfter (key : Nat → Int) : List Nat → List Nat → List Nat
  | src, [] => src
  | src, d :: dst =>
    src.takeWhile (key · < key d) ++
      d :: mergeAfter key (src.dropWhile (key · < key d)) dst

/-- Merge the nodes of `src` into a list that is cut at a position. Nodes that
    belong before the position go to the end of what is in front of it. -/
def mergeVRegLifetimeList (key : Nat → Int) (src : List Nat) :
    List Nat × List Nat → List Nat × List Nat
  | (front, []) => (front ++ src, [])
  | (front, d :: dst) =>
    (front ++ src.takeWhile (key · < key d),
      d :: mergeAfter key (src.dropWhile (key · < key d)) dst)

/-- The allocator: the lifetimes by node, the nodes allocated so far, the
    nodes from the current one on, and the hard registers. -/
structure AllocState where
  heap : Nat → VRegLifetime
  numNodes : Nat
  visited : List Nat
  pending : List Nat
  allocations : Nat → HardRegAllocation
  numSpillSlots : Nat

namespace AllocState

/-- Find the representative of the move hints of a lifetime, compressing the
    path to it. Hints that go in circles never get there. -/
def findMoveHint : Nat → (Nat → VRegLifetime) → Nat → Option ((Nat → VRegLifetime) × Nat)
  | 0, _, _ => none
  | fuel + 1, heap, x =>
    match (heap x).moveHint with
    | none => some (heap, x)
    | some hint =>
      (findMoveHint fuel heap hint).map fun r =>
        (Function.update r.1 x { r.1 x with moveHint := some r.2 }, r.2)

def setHardReg (st : AllocState) (x reg : Nat) : AllocState :=
  { st with heap := Function.update st.heap x { st.heap x with hardReg := reg } }

def setAllocation (st : AllocState) (reg : Nat) (a : HardRegAllocation) : AllocState :=
  { st with allocations := Function.update st.allocations reg a }

@[simp]
theorem setAllocation_self (st : AllocState) (reg : Nat) (a : HardRegAllocation) :
    (st.setAllocation reg a).allocations reg = a :=
  Function.update_self _ _ _

theorem setAllocation_of_ne (st : AllocState) (reg r : Nat) (a : HardRegAllocation)
    (h : r ≠ reg) : (st.setAllocation reg a).allocations r = st.allocations r :=
  Function.update_of_ne h _ _

@[simp]
theorem setHardReg_self (st : AllocState) (x reg : Nat) :
    (st.setHardReg x reg).heap x = { st.heap x with hardReg := reg } :=
  Function.update_self _ _ _

theorem setHardReg_of_ne (st : AllocState) (x reg y : Nat) (h : y ≠ x) :
    (st.setHardReg x reg).heap y = st.heap y :=
  Function.update_of_ne h _ _

theorem setHardReg_rangeList (st : AllocState) (x reg y : Nat) :
    ((st.setHardReg x reg).heap y).rangeList = (st.heap y).rangeList := by
  by_cases h : y = x
  · rw [h, setHardReg_self]
  · rw [setHardReg_of_ne st x reg y h]

def tryAssignHardReg (st : AllocState) (x reg : Nat) : AllocState × Bool :=
  let result := (st.allocations reg).tryAssign st.heap x
  let st := st.setAllocation reg result.1
  if result.2 then (st.setHardReg x reg, true) else (st, false)

def tryAssignRegs (x pref : Nat) : List Nat → AllocState → AllocState × Bool
  | [], st => (st, false)
  | reg :: regs, st =>
    if reg ≠ pref then
      match st.tryAssignHardReg x reg with
      | (st, true) => (st, true)
      | (st, false) => tryAssignRegs x pref regs st
    else tryAssignRegs x pref regs st

/-- Walk the registers again and keep the one with the least spill weight. -/
def considerSpillRegs (x : Nat) : List Nat → AllocState → Int × Nat →
    Option (AllocState × Int × Nat)
  | [], st, best => some (st, best)
  | reg :: regs, st, best =>
    match (st.allocations reg).considerSpill st.heap x with
    | none => none
    | some (a, weight) =>
      considerSpillRegs x regs (st.setAllocation reg a)
        (if weight < best.1 then (weight, reg) else best)

def addNodes (st : AllocState) (tiny : List VRegLifetime) : AllocState × List Nat :=
  ({ st with
      heap := fun n =>
        if st.numNodes ≤ n then (tiny[n - st.numNodes]?).getD (st.heap n) else st.heap n
      numNodes := st.numNodes + tiny.length },
    List.range' st.numNodes tiny.length)

/-- The loop of `SpillAndAssign` over the recorded spills. The list from the
    node after the current one on is cut at that node. -/
def spillLoop (slot : Nat) : List VRegLifetimeSpill → AllocState → List Nat × List Nat →
    AllocState × List Nat × List Nat
  | [], st, list => (st, list)
  | spill :: spills, st, list =>
    let lifetime := st.heap spill.lifetime
    let lifetime := { lifetime with spillSlot := some (lifetime.spillSlot.getD slot) }
    let parts := lifetime.split spill.reallocPos
    let st := { st with heap := Function.update st.heap spill.lifetime parts.1 }
    let added := st.addNodes parts.2
    spillLoop slot spills added.1
      (mergeVRegLifetimeList (fun n => (added.1.heap n).begin_) added.2 list)

/-- Spill what interferes on a register with the current lifetime, and assign the register. -/
def spillAndAssignHardReg (st : AllocState) (x reg : Nat) (rest : List Nat) : Option AllocState :=
  let a := st.allocations reg
  if a.newLifetime = some x ∧ a.spills ≠ [] then
    let result := spillLoop st.numSpillSlots a.spills st ([], rest)
    let kept := a.lifetimes.filter fun y => y ∉ a.spills.map (·.lifetime)
    let st := result.1.setAllocation reg { a with lifetimes := kept ++ [x] }
    some { st.setHardReg x reg with
      pending := x :: (result.2.1 ++ result.2.2)
      numSpillSlots := st.numSpillSlots + 1 }
  else none

def tryAssignClass (st : AllocState) (x pref : Nat) : AllocState × Bool :=
  let regClass := (st.heap x).regClass
  if regClass.hasReg pref then
    match st.tryAssignHardReg x pref with
    | (st, true) => (st, true)
    | (st, false) => tryAssignRegs x pref regClass.regs st
  else tryAssignRegs x pref regClass.regs st

/-- Assign a register that is free, or else tell which one to spill. -/
def chooseReg (st : AllocState) (x : Nat) : Option (AllocState × Option Nat) := do
  let (heap, hint) ← findMoveHint (st.numNodes + 1) st.heap x
  let st := { st with heap := heap }
  match st.tryAssignClass x (st.heap hint).hardReg with
  | (st, true) => return (st, none)
  | (st, false) =>
    let (st, weight, reg) ←
      considerSpillRegs x (st.heap x).regClass.regs st (kInfiniteSpillWeight, 0)
    if weight < kInfiniteSpillWeight then return (st, some reg) else none

def allocateLifetime (st : AllocState) (x : Nat) (rest : List Nat) : Option AllocState := do
  match ← st.chooseReg x with
  | (st, none) => return st
  | (st, some reg) => st.spillAndAssignHardReg x reg rest

/-- The iterator of `Allocate` moves on from the current lifetime. -/
def advance (st : AllocState) (x : Nat) : AllocState :=
  { st with visited := st.visited ++ [x], pending := st.pending.tail }

def step (st : AllocState) (_ : Unit) : Option AllocState :=
  match st.pending with
  | [] => none
  | x :: rest => (st.allocateLifetime x rest).map (·.advance x)

def start (lifetimes : List VRegLifetime) : AllocState :=
  { heap := fun n => (lifetimes[n]?).getD ⟨[], ⟨0, []⟩, 0, none, 0, none⟩
    numNodes := lifetimes.length
    visited := []
    pending := List.range lifetimes.length
    allocations := fun _ => ⟨[], none, []⟩
    numSpillSlots := 0 }

end AllocState

end Berberis.RegAlloc
