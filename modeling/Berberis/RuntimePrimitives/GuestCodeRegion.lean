import Berberis.Lib.SortedMap

/-!
# Regions of Guest Code

A region is a set of basic blocks, each with the addresses that control may go
to at its end. `resolveEdges` makes a graph of it: blocks are split where
control enters them in the middle, blocks that control does not reach are
removed, and each block gets the list of the blocks that lead to it.
-/

namespace Berberis

open Lib

structure GuestCodeBasicBlock where
  startAddr : Nat
  size : Nat
  inEdges : List Nat
  outEdges : List Nat
  deriving DecidableEq

def GuestCodeBasicBlock.endAddr (b : GuestCodeBasicBlock) : Nat := (b.startAddr + b.size) % 2 ^ 64

structure GuestCodeRegion where
  basicBlocks : SortedMap Nat GuestCodeBasicBlock
  branchTargets : SortedMap Nat Unit
  codeRegionFinalized : Bool

namespace GuestCodeRegion

def empty : GuestCodeRegion := ⟨SortedMap.empty, SortedMap.empty, false⟩

def insertAll (targets : SortedMap Nat Unit) (addrs : List Nat) : SortedMap Nat Unit :=
  addrs.foldl (fun m a => m.insert a ()) targets

def newBasicBlock (r : GuestCodeRegion) (guestAddr size : Nat) (outEdges : List Nat) :
    Option GuestCodeRegion :=
  if r.codeRegionFinalized then none
  else if (r.basicBlocks.get? guestAddr).isSome then none
  else
    some
      { r with
        basicBlocks := r.basicBlocks.insert guestAddr ⟨guestAddr, size, [], outEdges⟩
        branchTargets := insertAll r.branchTargets outEdges }

def validateRegionBeforeFinalize (r : GuestCodeRegion) : Bool :=
  go 0 r.basicBlocks.toList
where
  go (lastSeenEndAddr : Nat) : List (Nat × GuestCodeBasicBlock) → Bool
    | [] => true
    | (startAddr, b) :: rest =>
      lastSeenEndAddr ≤ startAddr && b.inEdges.isEmpty && go b.endAddr rest

def splitAt (r : GuestCodeRegion) (branchTarget : Nat) : Option GuestCodeRegion :=
  match r.basicBlocks.floor? branchTarget with
  | none => some r
  | some (guestAddr, codeBlock) =>
    if branchTarget ≤ guestAddr ∨ codeBlock.endAddr ≤ branchTarget then some r
    else
      let updatedSize := branchTarget - codeBlock.startAddr
      let newCodeBlockSize := codeBlock.size - updatedSize
      (r.newBasicBlock branchTarget newCodeBlockSize codeBlock.outEdges).map fun r =>
        { r with
          basicBlocks := r.basicBlocks.insert guestAddr
            { codeBlock with size := updatedSize, outEdges := [branchTarget] } }

def splitFrom : Nat → Option Nat → GuestCodeRegion → Option GuestCodeRegion
  | _, none, r => some r
  | 0, some _, _ => none
  | fuel + 1, some branchTarget, r =>
    (r.splitAt branchTarget).bind fun r =>
      splitFrom fuel ((r.branchTargets.upperBound branchTarget).head?.map (·.1)) r

def splitBasicBlocks (r : GuestCodeRegion) : Option GuestCodeRegion :=
  splitFrom r.branchTargets.toList.length (r.branchTargets.toList.head?.map (·.1)) r

/-- The targets of the blocks that control reaches, over a worklist of addresses. -/
def collectFrom (basicBlocks : SortedMap Nat GuestCodeBasicBlock)
    (kRegionStartAddr kRegionEndAddr : Nat) :
    Nat → (visited : Nat → Bool) → (targets : SortedMap Nat Unit) → (worklist : List Nat) →
      Option (SortedMap Nat Unit)
  | _, _, targets, [] => some targets
  | 0, _, _, _ :: _ => none
  | fuel + 1, visited, targets, branchAddr :: worklist =>
    match basicBlocks.get? branchAddr with
    | none => collectFrom basicBlocks kRegionStartAddr kRegionEndAddr fuel visited targets worklist
    | some b =>
      if ¬ (kRegionStartAddr ≤ branchAddr ∧ branchAddr < kRegionEndAddr) then none
      else if visited (branchAddr - kRegionStartAddr) then
        collectFrom basicBlocks kRegionStartAddr kRegionEndAddr fuel visited targets worklist
      else
        collectFrom basicBlocks kRegionStartAddr kRegionEndAddr fuel
          (Function.update visited (branchAddr - kRegionStartAddr) true)
          (insertAll targets b.outEdges) (worklist ++ b.outEdges)

/-- Every block is visited once, and adds its edges to the worklist. -/
def collectTurns (r : GuestCodeRegion) : Nat :=
  1 + (r.basicBlocks.toList.map fun x => x.2.outEdges.length).sum

def collectReachableBranchTargets (r : GuestCodeRegion) : Option (SortedMap Nat Unit) :=
  match r.basicBlocks.toList.head?, r.basicBlocks.toList.getLast? with
  | some first, some last =>
    collectFrom r.basicBlocks first.1 last.2.endAddr r.collectTurns (fun _ => false)
      SortedMap.empty [first.1]
  | _, _ => none

def removeUnreachableBlocks (r : GuestCodeRegion) : Option GuestCodeRegion :=
  if r.basicBlocks.toList.isEmpty then none
  else
    r.collectReachableBranchTargets.map fun targets =>
      { r with
        basicBlocks := r.basicBlocks.toList.tail.foldl
          (fun m x => if (targets.get? x.1).isSome then m else m.erase x.1) r.basicBlocks
        branchTargets := targets }

def addInEdge (sourceAddr : Nat) (m : SortedMap Nat GuestCodeBasicBlock) (targetAddr : Nat) :
    SortedMap Nat GuestCodeBasicBlock :=
  match m.get? targetAddr with
  | none => m
  | some b => m.insert targetAddr { b with inEdges := b.inEdges ++ [sourceAddr] }

def resolveInEdges (r : GuestCodeRegion) : GuestCodeRegion :=
  { r with
    basicBlocks := r.basicBlocks.toList.foldl
      (fun m x => x.2.outEdges.foldl (addInEdge x.1) m) r.basicBlocks }

def resolveEdges (r : GuestCodeRegion) : Option GuestCodeRegion :=
  if r.codeRegionFinalized ∨ r.validateRegionBeforeFinalize = false then none
  else
    r.splitBasicBlocks.bind fun r =>
      r.removeUnreachableBlocks.map fun r =>
        { r.resolveInEdges with codeRegionFinalized := true }

/-- What is passed to `newBasicBlock`. -/
structure Added where
  guestAddr : Nat
  size : Nat
  outEdges : List Nat
  deriving DecidableEq

def addBasicBlocks (added : List Added) : Option GuestCodeRegion :=
  added.foldlM (fun r b => r.newBasicBlock b.guestAddr b.size b.outEdges) empty

end GuestCodeRegion

end Berberis
