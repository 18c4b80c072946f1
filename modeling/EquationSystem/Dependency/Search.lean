import Std.Data.HashMap

/-!
# Search for an order of dependencies

A depth-first search finds the strongly connected components of a dependency graph, in an order in
which a component comes after those it depends on. Nodes are numbered as they are reached. A node
stays open until its whole component is explored; `low` bounds from below the open nodes that it
leads back to, and a node that leads back to none before itself completes its component.

The search is a step function on its state, and asks for the dependencies of a node once, when it
first reaches the node. It stops at the first component that is a cycle, and at the first node
whose dependencies cannot be told.
-/

namespace EquationSystem.Dependency

/-- A node on the path from the root to where the search is. -/
structure Frame (ν : Type) where
  /-- The number of the node. -/
  node : Nat
  /-- The dependencies that are not looked at yet. -/
  pending : List ν
  /-- Whether the node was found among its own dependencies. -/
  selfLoop : Bool

structure Search (ν : Type) [BEq ν] [Hashable ν] where
  roots : List ν
  /-- The nodes whose dependencies were asked for, in that order. -/
  asked : Array ν
  /-- The nodes that were reached, each at its number. -/
  nodes : Array ν
  /-- The number of every node that was reached. -/
  index : Std.HashMap ν Nat
  /-- For every reached node, a number no larger than its own to which it leads back. -/
  low : Array Nat
  /-- For every reached node, whether it is open. -/
  isOpen : Array Bool
  /-- The open nodes, the one reached last in front. -/
  openNodes : List Nat
  /-- The path to where the search is, with its end in front. -/
  frames : List (Frame ν)
  /-- The nodes of the components that are complete. -/
  order : Array ν

inductive SortError (ν ε : Type) where
  /-- These nodes depend on each other, or the only one on itself. -/
  | cycle (nodes : List ν)
  /-- The dependencies of a node cannot be told. -/
  | edge (error : ε)
deriving DecidableEq

structure Outcome (ν ε : Type) where
  asked : List ν
  result : Except (SortError ν ε) (List ν)

inductive Step (ν ε : Type) [BEq ν] [Hashable ν] where
  | next (s : Search ν)
  | done (outcome : Outcome ν ε)

variable {ν ε : Type} [BEq ν] [Hashable ν]

namespace Search

def start (roots : List ν) : Search ν := ⟨roots, #[], #[], ∅, #[], #[], [], [], #[]⟩

def finish (s : Search ν) (result : Except (SortError ν ε) (List ν)) : Step ν ε :=
  .done ⟨s.asked.toList, result⟩

/-- Numbers a node that is reached for the first time, opens it and puts it on the path. -/
def enter (s : Search ν) (node : ν) (pending : List ν) : Search ν :=
  let id := s.nodes.size
  { s with
    nodes := s.nodes.push node
    index := s.index.insert node id
    low := s.low.push id
    isOpen := s.isOpen.push true
    openNodes := id :: s.openNodes
    frames := ⟨id, pending, false⟩ :: s.frames }

def visit (dependencies : ν → Except ε (List ν)) (s : Search ν) (node : ν) : Step ν ε :=
  let s := { s with asked := s.asked.push node }
  match dependencies node with
  | .ok pending => .next (s.enter node pending)
  | .error e => s.finish (.error (.edge e))

def lower (s : Search ν) (node bound : Nat) : Search ν :=
  { s with low := s.low.modify node (min bound) }

def lowOf (s : Search ν) (node : Nat) : Nat := s.low[node]?.getD 0

/-- Passes the bound of a node that is left on to the node that led to it. -/
def passOn (s : Search ν) (node : Nat) : Search ν :=
  match s.frames with
  | [] => s
  | parent :: _ => s.lower parent.node (s.lowOf node)

/-- The open nodes reached since `node`, that included, in the order in which they were reached;
and the nodes opened before. -/
def component (s : Search ν) (node : Nat) : List Nat × List Nat :=
  let since := s.openNodes.takeWhile (· != node)
  let rest := s.openNodes.dropWhile (· != node)
  ((since ++ rest.take 1).reverse, rest.drop 1)

/-- Closes the component that is complete when `frame` is left. A component of several nodes, or
of one that depends on itself, is a cycle. -/
def close (s : Search ν) (frame : Frame ν) : Step ν ε :=
  let (members, rest) := s.component frame.node
  if 1 < members.length || frame.selfLoop then
    s.finish (.error (.cycle (members.filterMap fun member => s.nodes[member]?)))
  else
    .next { s with
      isOpen := members.foldl (fun flags member => flags.setIfInBounds member false) s.isOpen
      openNodes := rest
      order := s.order ++ s.nodes[frame.node]?.toArray }

def leave (s : Search ν) (frame : Frame ν) : Step ν ε :=
  let s := s.passOn frame.node
  if s.lowOf frame.node = frame.node then s.close frame else .next s

/-- Looks at a dependency of the node at the end of the path that was reached before. -/
def meet (s : Search ν) (frame : Frame ν) (frames : List (Frame ν)) (seen : Nat) : Search ν :=
  if seen = frame.node then { s with frames := { frame with selfLoop := true } :: frames }
  else if s.isOpen[seen]?.getD false then s.lower frame.node seen
  else s

/-- One step of a search: it looks at one more root or at one more dependency, or leaves a node. -/
def step (dependencies : ν → Except ε (List ν)) (s : Search ν) : Step ν ε :=
  match s.frames with
  | [] =>
    match s.roots with
    | [] => s.finish (.ok s.order.toList)
    | root :: roots =>
      let s := { s with roots }
      if s.index.contains root then .next s else s.visit dependencies root
  | frame :: frames =>
    match frame.pending with
    | [] => { s with frames }.leave frame
    | node :: pending =>
      let frame := { frame with pending }
      let s := { s with frames := frame :: frames }
      match s.index[node]? with
      | some seen => .next (s.meet frame frames seen)
      | none => s.visit dependencies node

end Search

end EquationSystem.Dependency
