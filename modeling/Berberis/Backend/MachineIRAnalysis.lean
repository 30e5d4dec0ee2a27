import Berberis.Backend.MachineIRCheck
import Berberis.Lib.StdSort

/-!
# Loops of Machine IR

Blocks in reverse post order, loops, and how loops are nested. Edges to blocks
that have been visited are taken for back edges; the blocks from which the
sources of the back edges to one block can be reached without it are the loop
of that block, unless a block without predecessors is among them. Loops are
inserted into a tree by decreasing size, each under a loop that has its head.
-/

namespace Berberis.Backend

open Lib

namespace MachineIR

variable (ir : MachineIR)

def turns : Nat := ir.bbList.length + 1

/-! ### Reverse post order -/

/-- Visit a block, with the blocks that are visited and the list so far. -/
def postOrderTraverseBBListRecursive : Nat → Nat → List Nat × List Nat →
    Option (List Nat × List Nat)
  | 0, _, _ => none
  | fuel + 1, b, (isVisited, result) =>
    ((ir.succs b).foldlM
      (fun st dst =>
        if dst ∈ st.1 then some st else postOrderTraverseBBListRecursive fuel dst st)
      (b :: isVisited, result)).map fun st => (st.1, b :: st.2)

def getReversePostOrderBBList : Option (List Nat) :=
  match ir.bbOrder with
  | .reversePostOrder => some ir.bbList
  | .unordered =>
    match ir.bbList with
    | [] => none
    | entryBb :: _ =>
      if (ir.bb entryBb).inEdges = [] then
        (ir.postOrderTraverseBBListRecursive ir.turns entryBb ([], [])).map (·.2)
      else none

/-! ### Loops -/

/-- The blocks of a loop, the head first. -/
abbrev Loop := List Nat

def pushBackIfNotInLoop (loop : Loop) (b : Nat) : Loop := if b ∈ loop then loop else loop ++ [b]

/-- Add the predecessors of the blocks of a loop from a place on. `some none`
    when a block has none. -/
def walkLoop : Nat → Nat → Loop → Option (Option Loop)
  | 0, _, _ => none
  | fuel + 1, bbNo, loop =>
    match loop[bbNo]? with
    | none => some (some loop)
    | some b =>
      if (ir.bb b).inEdges = [] then some none
      else walkLoop fuel (bbNo + 1) ((ir.preds b).foldl pushBackIfNotInLoop loop)

def collectBackEdges (head : Nat) : List Nat → Loop → Option (Option Loop)
  | [], loop => some (some loop)
  | e :: rest, loop =>
    if (ir.edge e).dst ≠ head then none
    else if (ir.edge e).src ∈ loop then collectBackEdges head rest loop
    else
      match ir.walkLoop ir.turns loop.length (loop ++ [(ir.edge e).src]) with
      | some (some loop') => collectBackEdges head rest loop'
      | r => r

def collectLoop (backEdges : List Nat) : Option (Option Loop) :=
  match backEdges with
  | [] => none
  | e :: _ => ir.collectBackEdges (ir.edge e).dst backEdges [(ir.edge e).dst]

def backEdges : List Nat → List Nat → List Nat
  | _, [] => []
  | isVisited, b :: rest =>
    ((ir.bb b).outEdges.filter fun e => (ir.edge e).dst ∈ b :: isVisited) ++
      backEdges (b :: isVisited) rest

def sortedBackEdges (std : StdSort) (rpoList : List Nat) : List (List Nat) :=
  (std.sort (fun e e' => decide ((ir.edge e).dst < (ir.edge e').dst))
    (ir.backEdges [] rpoList)).splitBy fun e e' => (ir.edge e).dst == (ir.edge e').dst

def findLoops (std : StdSort) : Option (List Loop) :=
  ir.getReversePostOrderBBList.bind fun rpoList =>
    ((ir.sortedBackEdges std rpoList).mapM ir.collectLoop).map List.reduceOption

/-! ### The tree of loops -/

/-- The root has no loop. -/
inductive LoopTreeNode where
  | mk (loop : Option Loop) (innerloopNodes : List LoopTreeNode)

def admits (loop : Option Loop) (head : Nat) : Bool :=
  match loop with
  | some loop => head ∈ loop
  | none => true

mutual

/-- `none` when the loop does not belong there. -/
def tryInsertLoopAtNode (loop : Loop) : LoopTreeNode → Option LoopTreeNode
  | .mk nodeLoop innerloopNodes =>
    if admits nodeLoop loop.headI then
      match tryInsertLoopAtInner loop innerloopNodes with
      | some innerloopNodes' => some (.mk nodeLoop innerloopNodes')
      | none => some (.mk nodeLoop (innerloopNodes ++ [.mk (some loop) []]))
    else none

def tryInsertLoopAtInner (loop : Loop) : List LoopTreeNode → Option (List LoopTreeNode)
  | [] => none
  | node :: rest =>
    match tryInsertLoopAtNode loop node with
    | some node' => some (node' :: rest)
    | none => (tryInsertLoopAtInner loop rest).map (node :: ·)

end

def insertLoops (root : LoopTreeNode) (loops : List Loop) : Option LoopTreeNode :=
  loops.foldlM (fun root loop => tryInsertLoopAtNode loop root) root

def buildLoopTree (std : StdSort) : Option LoopTreeNode :=
  (ir.findLoops std).bind fun loops =>
    insertLoops (.mk none [])
      (std.sort (fun loop loop' => decide (loop'.length < loop.length)) loops)

end MachineIR

end Berberis.Backend
