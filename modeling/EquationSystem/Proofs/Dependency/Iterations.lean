import EquationSystem.Proofs.Dependency.Access
import EquationSystem.Proofs.Dependency.DepthFirst
import Mathlib.Algebra.BigOperators.Group.Finset.Basic
import Mathlib.Algebra.GroupWithZero.Nat
import Mathlib.Algebra.Order.BigOperators.Group.Finset

/-!
# The iterations of a search

Every iteration of a search takes one root, takes one dependency that waits on the path, or leaves
the end of the path, and a root or a dependency that was not entered before is entered
(`Search.Performs`). Over a run the entered nodes are those that are numbered, and the nodes that
were left are those of them that are off the path, so that no node is entered or left twice. The
iterations that were made and the backlog of those to come add up to what the roots and the entered
nodes are worth (`Search.Runs.length_add_backlog`): where finitely many nodes are reached, that
bounds every run.
-/

namespace EquationSystem.Dependency

open Finset

/-- What one iteration of a search does. -/
inductive Action (ν : Type) where
  /-- It passes over a root that was entered before. -/
  | skip (root : ν)
  /-- It enters a root. -/
  | start (root : ν)
  /-- It takes a dependency of a node, which was entered before. -/
  | meet (node d : ν)
  /-- It takes a dependency of a node and enters it. -/
  | descend (node d : ν)
  /-- It leaves a node. -/
  | leave (node : ν)

namespace Action

variable {ν : Type}

def entered? : Action ν → Option ν
  | start node | descend _ node => some node
  | skip _ | meet _ _ | leave _ => none

def left? : Action ν → Option ν
  | leave node => some node
  | skip _ | start _ | meet _ _ | descend _ _ => none

end Action

variable {ν ε : Type} [DecidableEq ν] [Hashable ν]
variable {dependencies : ν → Except ε (List ν)} {roots : List ν}

namespace Search

/-- The iteration that leads from `s` to `s'` does this. -/
inductive Performs (dependencies : ν → Except ε (List ν)) (s s' : Search ν) : Action ν → Prop where
  | skip {root : ν} (path : s.frames = []) (next : s.roots = root :: s'.roots)
      (known : root ∈ s.nodes) (path' : s'.frames = []) (nodes : s'.nodes = s.nodes) :
      Performs dependencies s s' (.skip root)
  | start {root : ν} {found : List ν} (path : s.frames = []) (next : s.roots = root :: s'.roots)
      (fresh : root ∉ s.nodes) (told : dependencies root = .ok found)
      (path' : s'.frames = [⟨s.nodes.size, found, false⟩]) (nodes : s'.nodes = s.nodes.push root) :
      Performs dependencies s s' (.start root)
  | meet {id : Nat} {node d : ν} {pending : List ν} {selfLoop selfLoop' : Bool}
      {frames : List (Frame ν)} (named : s.nodes[id]? = some node)
      (path : s.frames = ⟨id, d :: pending, selfLoop⟩ :: frames) (known : d ∈ s.nodes)
      (roots : s'.roots = s.roots) (path' : s'.frames = ⟨id, pending, selfLoop'⟩ :: frames)
      (nodes : s'.nodes = s.nodes) : Performs dependencies s s' (.meet node d)
  | descend {id : Nat} {node d : ν} {pending found : List ν} {selfLoop : Bool}
      {frames : List (Frame ν)} (named : s.nodes[id]? = some node)
      (path : s.frames = ⟨id, d :: pending, selfLoop⟩ :: frames) (fresh : d ∉ s.nodes)
      (told : dependencies d = .ok found) (roots : s'.roots = s.roots)
      (path' : s'.frames = ⟨s.nodes.size, found, false⟩ :: ⟨id, pending, selfLoop⟩ :: frames)
      (nodes : s'.nodes = s.nodes.push d) : Performs dependencies s s' (.descend node d)
  | leave {id : Nat} {node : ν} {selfLoop : Bool} {frames : List (Frame ν)}
      (named : s.nodes[id]? = some node) (path : s.frames = ⟨id, [], selfLoop⟩ :: frames)
      (roots : s'.roots = s.roots) (path' : s'.frames = frames) (nodes : s'.nodes = s.nodes) :
      Performs dependencies s s' (.leave node)

/-- A search from `roots` does all this, in this order, and is then in the state. -/
inductive Runs (dependencies : ν → Except ε (List ν)) (roots : List ν) :
    List (Action ν) → Search ν → Prop where
  | start : Runs dependencies roots [] (.start roots)
  | step {actions : List (Action ν)} {s s' : Search ν} {action : Action ν}
      (before : Runs dependencies roots actions s) (next : Follows dependencies s' s)
      (performs : Performs dependencies s s' action) :
      Runs dependencies roots (actions ++ [action]) s'

variable {actions : List (Action ν)} {action : Action ν} {s s' : Search ν} {node : ν}

theorem Consistent.mem_nodes_iff (h : s.Consistent) :
    node ∈ s.nodes ↔ ∃ id, s.index[node]? = some id := by
  simp only [h.index_iff, Array.mem_iff_getElem?]

/-- Every move does one of the five actions. -/
theorem Consistent.exists_performs (h : s.Consistent) (m : Move dependencies s s') :
    ∃ action, Performs dependencies s s' action := by
  have known : ∀ {d : ν} {k : Nat}, s.index[d]? = some k → d ∈ s.nodes := fun hk =>
    h.mem_nodes_iff.2 ⟨_, hk⟩
  have unknown : ∀ {d : ν}, s.index[d]? = none → d ∉ s.nodes := by
    intro d fresh hd
    obtain ⟨k, hk⟩ := h.mem_nodes_iff.1 hd
    rw [fresh] at hk
    cases hk
  have named : ∀ {frame : Frame ν} {frames : List (Frame ν)}, s.frames = frame :: frames →
      ∃ node, s.nodes[frame.node]? = some node := fun path =>
    h.exists_node (h.path_open _ (path_cons path ▸ List.mem_cons_self))
  cases m with
  | skip path next seen => exact ⟨_, .skip path next (known seen) path rfl⟩
  | start path next fresh told =>
    refine ⟨_, .start path next (unknown fresh) told ?_ rfl⟩
    simp [Search.enter, path]
  | meet path found =>
    obtain ⟨node, hnode⟩ := named path
    exact ⟨_, .meet hnode path (known found) rfl rfl rfl⟩
  | descend path fresh told =>
    obtain ⟨node, hnode⟩ := named path
    exact ⟨_, .descend hnode path (unknown fresh) told rfl rfl rfl⟩
  | leave path =>
    obtain ⟨node, hnode⟩ := named path
    exact ⟨_, .leave hnode path rfl rfl rfl⟩
  | close path root alone hnode => exact ⟨_, .leave hnode path rfl rfl rfl⟩

/-- The node was entered and is off the path. -/
def Off (s : Search ν) (node : ν) : Prop := ∃ id, s.nodes[id]? = some node ∧ id ∉ s.path

theorem off_congr (nodes : s'.nodes = s.nodes) (path : s'.path = s.path) :
    s'.Off node ↔ s.Off node := by
  rw [Off, Off, nodes, path]

/-- A node that is entered is on the path, and no other goes off it. -/
theorem off_push {d : ν} (nodes : s'.nodes = s.nodes.push d)
    (path : s'.path = s.nodes.size :: s.path) : s'.Off node ↔ s.Off node := by
  unfold Off
  simp only [nodes, path, Array.getElem?_push, List.mem_cons, not_or]
  constructor
  · rintro ⟨id, named, last, off⟩
    rw [if_neg last] at named
    exact ⟨id, named, off⟩
  · rintro ⟨id, named, off⟩
    have last : id ≠ s.nodes.size := Nat.ne_of_lt (Array.getElem?_eq_some_iff.1 named).1
    exact ⟨id, by rw [if_neg last, named], last, off⟩

/-- The iterations that a node is worth: one for each of its dependencies, and one to leave it. -/
def worth (dependencies : ν → Except ε (List ν)) (node : ν) : Nat :=
  (dependenciesOf dependencies node).length + 1

namespace Performs

variable (h : Performs dependencies s s' action)
include h

theorem nodes_toList : s'.nodes.toList = s.nodes.toList ++ action.entered?.toList := by
  cases h with
  | skip _ _ _ _ nodes | meet _ _ _ _ _ nodes | leave _ _ _ _ nodes =>
    rw [nodes]
    exact (List.append_nil _).symm
  | start _ _ _ _ _ nodes | descend _ _ _ _ _ _ nodes => rw [nodes, Array.toList_push]; rfl

theorem off_iff (hc : s.Consistent) : s'.Off node ↔ s.Off node ∨ action.left? = some node := by
  cases h with
  | skip path next known path' nodes =>
    rw [off_congr nodes (by rw [Search.path, Search.path, path, path'])]
    simp [Action.left?]
  | start path next fresh told path' nodes =>
    rw [off_push nodes (by rw [Search.path, Search.path, path, path']; rfl)]
    simp [Action.left?]
  | meet named path known roots path' nodes =>
    rw [off_congr nodes (by rw [Search.path, Search.path, path, path']; rfl)]
    simp [Action.left?]
  | descend named path fresh told roots path' nodes =>
    rw [off_push nodes (by rw [Search.path, Search.path, path, path']; rfl)]
    simp [Action.left?]
  | @leave id node' selfLoop frames named path roots path' nodes =>
    have below : s'.path = frames.map (·.node) := by rw [Search.path, path']
    have off : id ∉ frames.map (·.node) := hc.end_not_mem path
    unfold Off
    rw [nodes, path_cons path, below, Action.left?, Option.some_inj]
    constructor
    · rintro ⟨i, hi, above⟩
      by_cases same : i = id
      · subst same
        exact .inr (Option.some.inj (named.symm.trans hi))
      · exact .inl ⟨i, hi, List.not_mem_cons_of_ne_of_not_mem same above⟩
    · rintro (⟨i, hi, above⟩ | rfl)
      · exact ⟨i, hi, List.not_mem_of_not_mem_cons above⟩
      · exact ⟨id, named, off⟩

/-- An iteration takes one from the backlog, and adds what the node that it enters is worth. -/
theorem backlog_add_one : s'.backlog + 1 =
    s.backlog + (action.entered?.toList.map (worth dependencies)).sum := by
  unfold backlog
  cases h with
  | skip path next known path' nodes =>
    rw [path, next, path', Action.entered?]
    simp
  | start path next fresh told path' nodes =>
    rw [path, next, path', Action.entered?]
    simp [worth, dependenciesOf_ok told]
    omega
  | meet named path known roots path' nodes =>
    rw [path, roots, path', Action.entered?]
    simp
    omega
  | descend named path fresh told roots path' nodes =>
    rw [path, roots, path', Action.entered?]
    simp [worth, dependenciesOf_ok told]
    omega
  | leave named path roots path' nodes =>
    rw [path, roots, path', Action.entered?]
    simp
    omega

/-- The node that is left was on the path, and was not left before. -/
theorem not_off_of_left (hc : s.Consistent) (left : action.left? = some node) : ¬s.Off node := by
  cases h with
  | skip | start | meet | descend => cases left
  | leave named path =>
    cases left
    rintro ⟨i, hi, off⟩
    obtain rfl := hc.node_unique hi named
    exact off (path_cons path ▸ List.mem_cons_self)

end Performs

namespace Runs

variable (h : Runs dependencies roots actions s)
include h

theorem reached : Reached dependencies roots s := by
  induction h with
  | start => exact .refl
  | step _ next _ ih => exact ih.tail next

/-- The nodes are numbered in the order in which they are entered. -/
theorem entered_eq : actions.filterMap Action.entered? = s.nodes.toList := by
  induction h with
  | start => rfl
  | step _ _ performs ih =>
    rw [performs.nodes_toList, List.filterMap_append, ih]
    rfl

/-- A node was left just if it was entered and is off the path. -/
theorem mem_left_iff : node ∈ actions.filterMap Action.left? ↔ s.Off node := by
  induction h with
  | start => simp [Off, Search.start]
  | step before _ performs ih =>
    rw [performs.off_iff before.reached.exploring.consistent, ← ih, List.filterMap_append]
    simp

theorem left_nodup : (actions.filterMap Action.left?).Nodup := by
  induction h with
  | start => exact .nil
  | @step actions s s' action before next performs ih =>
    rw [List.filterMap_append, List.nodup_append]
    refine ⟨ih, ?_, ?_⟩
    · cases left : action.left? <;> simp [left]
    · rintro node hn last hl rfl
      have left : action.left? = some node := by simpa using hl
      exact performs.not_off_of_left before.reached.exploring.consistent left
        (before.mem_left_iff.1 hn)

/-- The iterations that were made and those to come are what the roots and the entered nodes are
worth. -/
theorem length_add_backlog : actions.length + s.backlog =
    roots.length + (s.nodes.toList.map (worth dependencies)).sum := by
  induction h with
  | start => simp [backlog, Search.start]
  | step _ _ performs ih =>
    have added := performs.backlog_add_one
    rw [performs.nodes_toList, List.map_append, List.sum_append, List.length_append,
      List.length_singleton]
    omega

/-- Where finitely many nodes are reached, they bound the number of iterations. -/
theorem length_le (finite : {node | ReachedFrom dependencies roots node}.Finite) :
    actions.length ≤ roots.length + ∑ node ∈ finite.toFinset, worth dependencies node := by
  have made := h.length_add_backlog
  have hs := h.reached.exploring
  have entered : s.nodes.toList.toFinset ⊆ finite.toFinset := by
    intro node hn
    obtain ⟨id, named⟩ := Array.mem_iff_getElem?.1 (Array.mem_toList_iff.1 (List.mem_toFinset.1 hn))
    exact finite.mem_toFinset.2 (hs.traversal.reached named)
  have bound : (s.nodes.toList.map (worth dependencies)).sum ≤
      ∑ node ∈ finite.toFinset, worth dependencies node :=
    calc (s.nodes.toList.map (worth dependencies)).sum
        = ∑ node ∈ s.nodes.toList.toFinset, worth dependencies node :=
          (List.sum_toFinset _ hs.consistent.nodes_nodup).symm
      _ ≤ ∑ node ∈ finite.toFinset, worth dependencies node := sum_le_sum_of_subset entered
  omega

/-- A search that ends does so after a run. -/
theorem exists_end (ends : Acc (Follows dependencies) s) : ∃ actions s',
    Runs dependencies roots actions s' ∧
      s'.step dependencies = .done (run dependencies s ends) := by
  -- The run so far grows while fewer steps are left.
  induction ends generalizing actions with
  | intro s acc ih =>
    have consistent := h.reached.exploring.consistent
    rcases consistent.step_cases dependencies with ⟨s', next, m⟩ | ⟨outcome, done, -⟩
    · obtain ⟨action, performs⟩ := consistent.exists_performs m
      rw [run_of_next _ next]
      exact ih s' next (h.step next performs)
    · rw [run_of_done _ done]
      exact ⟨actions, s, h, done⟩

end Runs

end Search

/-- Where finitely many nodes are reached, a search ends, with an order, with a cycle or with a node
that cannot tell its dependencies. Each of its iterations takes a root or a dependency that waits
on the path, or leaves the end of the path; no node is entered twice or left twice, only entered
nodes are left, and no node on the path was left, so that the one with which a search may end is not
either. There is at most one iteration for each root, for each dependency of a node that is reached,
and for leaving each of these nodes. -/
theorem sort_terminates (finite : {node | ReachedFrom dependencies roots node}.Finite) :
    (∀ actions (s : Search ν), Search.Runs dependencies roots actions s →
      (∀ s', Search.Follows dependencies s' s → ∃ action, Search.Performs dependencies s s' action) ∧
      (actions.filterMap Action.entered?).Nodup ∧ (actions.filterMap Action.left?).Nodup ∧
      (∀ node ∈ actions.filterMap Action.left?, node ∈ actions.filterMap Action.entered?) ∧
      (∀ id ∈ s.path, ∀ node, s.nodes[id]? = some node → node ∉ actions.filterMap Action.left?) ∧
      actions.length ≤ roots.length +
        ∑ node ∈ finite.toFinset, ((dependenciesOf dependencies node).length + 1)) ∧
    ∃ actions s, Search.Runs dependencies roots actions s ∧
      s.step dependencies = .done (sort dependencies roots (finiteReach_iff.2 finite)) := by
  refine ⟨fun actions s h => ?_, Search.Runs.start.exists_end _⟩
  have consistent := h.reached.exploring.consistent
  refine ⟨fun s' next => consistent.exists_performs (consistent.move_of_follows next), ?_,
    h.left_nodup, fun node left => ?_, fun id path node named left => ?_, h.length_le finite⟩
  · rw [h.entered_eq]
    exact consistent.nodes_nodup
  · obtain ⟨id, named, -⟩ := h.mem_left_iff.1 left
    rw [h.entered_eq, Array.mem_toList_iff]
    exact Array.mem_of_getElem? named
  · obtain ⟨other, same, off⟩ := h.mem_left_iff.1 left
    exact off (consistent.node_unique same named ▸ path)

/-- Two nodes that depend on each other, and a third one below them that was entered before. -/
theorem sort_terminates_linked : ∃ (deps : Nat → Except Unit (List Nat)) (finite : _)
    (actions : List (Action Nat)) (s : Search Nat), Search.Runs deps [2, 0] actions s ∧
      s.step deps = .done (sort deps [2, 0] (finiteReach_iff.2 finite)) ∧
      (sort deps [2, 0] (finiteReach_iff.2 finite)).result = .error (.cycle [0, 1]) ∧
      (actions.filterMap Action.entered?).Nodup ∧ (actions.filterMap Action.left?).Nodup := by
  let deps : Nat → Except Unit (List Nat)
    | 0 => .ok [2, 1]
    | 1 => .ok [0, 2]
    | _ => .ok []
  have support : FiniteReach deps [2, 0] := by
    refine ⟨[0, 1, 2], by decide, ?_⟩
    simp [Closed, deps]
  have search : (Search.start [2, 0]).within deps 20 =
      some ⟨[2, 0, 1], .error (.cycle [0, 1])⟩ := by cbv
  have finite := finiteReach_iff.1 support
  obtain ⟨all, actions, s, runs, done⟩ := sort_terminates finite
  obtain ⟨-, entered, left, -⟩ := all actions s runs
  refine ⟨deps, finite, actions, s, runs, done, ?_, entered, left⟩
  rw [sort_of_within _ search]

end EquationSystem.Dependency
