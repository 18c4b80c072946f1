import EquationSystem.Proofs.Dependency.Sorting

/-!
# The accesses of a search

A step reads and writes the bounds, the flags and the names of nodes by their numbers, takes the
end of the path away and looks for a node among the open ones, and falls back on something where
there is none. `Search.step?` is the step without such a fallback: it has no result where a number
is out of range, the path is empty or the node is not open. In every state that a search comes
through it has the result of the step, so that nothing is ever fallen back on.
-/

namespace EquationSystem.Dependency.Search

variable {ν ε : Type} [DecidableEq ν] [Hashable ν]

/-- Lowers the bound of a node that has one. -/
def lower? (s : Search ν) (node bound : Nat) : Option (Search ν) :=
  if h : node < s.low.size then some { s with low := s.low.set node (min bound s.low[node]) }
  else none

/-- Passes the bound of a node on, where both it and the node before it have one. -/
def passOn? (s : Search ν) (node : Nat) : Option (Search ν) :=
  match s.frames with
  | [] => some s
  | parent :: _ => do s.lower? parent.node (← s.low[node]?)

/-- The open nodes reached since `node` and those opened before, where `node` is open. -/
def component? (s : Search ν) (node : Nat) : Option (List Nat × List Nat) := do
  let place ← s.openNodes.findIdx? (· == node)
  return ((s.openNodes.take (place + 1)).reverse, s.openNodes.drop (place + 1))

/-- Clears the flag of a node that has one. -/
def clear? (flags : Array Bool) (node : Nat) : Option (Array Bool) :=
  if h : node < flags.size then some (flags.set node false) else none

/-- Closes the component of `frame`, where its node is open and all members have flags and names. -/
def close? (s : Search ν) (frame : Frame ν) : Option (Step ν ε) := do
  let (members, rest) ← s.component? frame.node
  let isOpen ← members.foldlM clear? s.isOpen
  if 1 < members.length || frame.selfLoop then
    let names ← members.mapM fun member => s.nodes[member]?
    return s.finish (.error (.cycle names))
  else
    let node ← s.nodes[frame.node]?
    return .next { s with isOpen, openNodes := rest, order := s.order.push node }

/-- Leaves the end of the path, where there is one. -/
def leave? (s : Search ν) : Option (Step ν ε) :=
  match s.frames with
  | [] => none
  | frame :: frames => do
    let s ← { s with frames }.passOn? frame.node
    let low ← s.low[frame.node]?
    if low = frame.node then s.close? frame else return .next s

/-- Looks at a dependency that was reached before, where it has a flag and the node a bound. -/
def meet? (s : Search ν) (frame : Frame ν) (frames : List (Frame ν)) (seen : Nat) :
    Option (Search ν) :=
  if seen = frame.node then some { s with frames := { frame with selfLoop := true } :: frames }
  else do if ← s.isOpen[seen]? then s.lower? frame.node seen else return s

/-- The step, where every access that it makes is in range. -/
def step? (dependencies : ν → Except ε (List ν)) (s : Search ν) : Option (Step ν ε) :=
  match s.frames with
  | [] =>
    match s.roots with
    | [] => some (s.finish (.ok s.order.toList))
    | root :: roots =>
      let s := { s with roots }
      some (if s.index.contains root then .next s else s.visit dependencies root)
  | frame :: frames =>
    match frame.pending with
    | [] => s.leave?
    | node :: pending =>
      let frame := { frame with pending }
      let s := { s with frames := frame :: frames }
      match s.index[node]? with
      | some seen => (s.meet? frame frames seen).map .next
      | none => some (s.visit dependencies node)

variable {dependencies : ν → Except ε (List ν)} {roots : List ν} {s : Search ν} {node : Nat}

theorem lower?_eq (h : node < s.low.size) (bound : Nat) :
    s.lower? node bound = some (s.lower node bound) := by
  have same : s.low.set node (min bound s.low[node]) = s.low.modify node (min bound) := by
    refine Array.ext_getElem? fun i => ?_
    rw [Array.getElem?_set, Array.getElem?_modify]
    split
    · next here =>
      subst here
      rw [Array.getElem?_eq_getElem h]
      rfl
    · rfl
  rw [lower?, dif_pos h, same]
  rfl

theorem lowOf_eq (h : node < s.low.size) : s.low[node]? = some (s.lowOf node) := by
  rw [lowOf, Array.getElem?_eq_getElem h]
  rfl

theorem passOn?_eq (h : node < s.low.size)
    (path : ∀ parent, s.frames.head? = some parent → parent.node < s.low.size) :
    s.passOn? node = some (s.passOn node) := by
  unfold passOn? passOn
  cases before : s.frames with
  | nil => rfl
  | cons parent frames =>
    rw [lowOf_eq h]
    exact lower?_eq (path parent (by rw [before, List.head?_cons])) (s.lowOf node)

theorem clear?_foldlM {flags : Array Bool} {members : List Nat}
    (h : ∀ member ∈ members, member < flags.size) :
    members.foldlM clear? flags =
      some (members.foldl (fun flags member => flags.setIfInBounds member false) flags) := by
  induction members generalizing flags with
  | nil => rfl
  | cons member members ih =>
    rw [List.forall_mem_cons] at h
    rw [List.foldlM_cons, clear?, dif_pos h.1, List.foldl_cons, Array.setIfInBounds, dif_pos h.1]
    refine ih fun other ho => ?_
    rw [Array.size_set]
    exact h.2 other ho

theorem mapM_getElem? {α : Type} {xs : Array α} {places : List Nat}
    (h : ∀ i ∈ places, i < xs.size) :
    (places.mapM fun i => xs[i]?) = some (places.filterMap fun i => xs[i]?) := by
  induction places with
  | nil => rfl
  | cons i places ih =>
    rw [List.forall_mem_cons] at h
    rw [List.mapM_cons, ih h.2, List.filterMap_cons, Array.getElem?_eq_getElem h.1]
    rfl

namespace Consistent

variable (h : s.Consistent)
include h

theorem component?_eq (opened : node ∈ s.openNodes) :
    s.component? node = some (s.component node) := by
  obtain ⟨since, rest, split, component⟩ := component_of_mem opened
  have sorted := h.open_sorted
  rw [split, List.pairwise_append] at sorted
  have others : since.findIdx? (· == node) = none := by
    refine List.findIdx?_eq_none_iff.2 fun other ho => beq_eq_false_iff_ne.2 ?_
    exact Nat.ne_of_gt (sorted.2.2 other ho node List.mem_cons_self)
  have place : s.openNodes.findIdx? (· == node) = some since.length := by
    rw [split, List.findIdx?_append, others, List.findIdx?_cons]
    simp
  have whole : s.openNodes = (since ++ [node]) ++ rest := by simp [split]
  have length : since.length + 1 = (since ++ [node]).length := by simp
  rw [component?, place, component]
  simp only [Option.bind_eq_bind, Option.bind_some, Option.pure_def, whole, length,
    List.take_left, List.drop_left]

theorem meet?_eq {frame : Frame ν} {frames : List (Frame ν)} {seen : Nat}
    (hframe : frame.node < s.nodes.size) (hseen : seen < s.nodes.size) :
    s.meet? frame frames seen = some (s.meet frame frames seen) := by
  unfold meet? meet
  split
  · rfl
  · have flag : s.isOpen[seen]? = some (s.isOpen[seen]?.getD false) := by
      rw [Array.getElem?_eq_getElem (h.size_isOpen ▸ hseen)]
      rfl
    rw [flag]
    dsimp only [Option.bind_eq_bind, Option.bind_some, Option.getD_some]
    split
    · exact lower?_eq (h.size_low ▸ hframe) seen
    · rfl

theorem close?_eq {frame : Frame ν} (opened : frame.node ∈ s.openNodes) :
    (s.close? frame : Option (Step ν ε)) = some (s.close frame) := by
  obtain ⟨since, rest, split, component⟩ := component_of_mem opened
  have members : ∀ member ∈ (since ++ [frame.node]).reverse, member < s.nodes.size := by
    intro member hm
    refine h.open_lt (split ▸ ?_)
    simp only [List.mem_reverse, List.mem_append, List.mem_singleton] at hm
    rcases hm with hm | rfl
    · exact List.mem_append_left _ hm
    · exact List.mem_append_right _ List.mem_cons_self
  obtain ⟨name, named⟩ := h.exists_node opened
  unfold close? Search.close
  rw [h.component?_eq opened, component]
  dsimp only [Option.bind_eq_bind, Option.bind_some]
  rw [clear?_foldlM (h.size_isOpen ▸ members), mapM_getElem? members, named]
  dsimp only [Option.bind_some, Option.pure_def]
  split
  · rfl
  · simp

/-- The end of the path is left without an access that is out of range. -/
theorem leave?_eq {frame : Frame ν} {frames : List (Frame ν)} (path : s.frames = frame :: frames) :
    (s.leave? : Option (Step ν ε)) = some ({ s with frames }.leave frame) := by
  have bounded : ∀ id ∈ s.path, id < s.low.size := fun id hid =>
    h.size_low ▸ h.open_lt (h.path_open id hid)
  rw [path_cons path, List.forall_mem_cons] at bounded
  have before : ∀ parent, frames.head? = some parent → parent.node < s.low.size :=
    fun parent head => bounded.2 _ (List.mem_map_of_mem (List.mem_of_head? head))
  obtain ⟨low, passed, size⟩ := passOn_eq { s with frames } frame.node
  -- The component is closed in the state with the bounds that were passed on.
  have lowered : ({ s with frames, low } : Search ν).Consistent := by
    refine h.update size (fun i => ?_) ?_
    · have bound := lowOf_passOn { s with frames } frame.node i
      rw [passed] at bound
      refine bound.trans_le ?_
      split
      · exact Nat.min_le_right _ _
      · exact Nat.le_refl _
    · rw [path_cons path]
      exact List.sublist_cons_self _ _
  have opened : frame.node ∈ s.openNodes :=
    h.path_open _ (path_cons path ▸ List.mem_cons_self)
  unfold leave? leave
  rw [path]
  dsimp only
  rw [passOn?_eq (s := { s with frames }) bounded.1 before, passed]
  dsimp only [Option.bind_eq_bind, Option.bind_some]
  rw [lowOf_eq (s := { s with frames, low }) (size ▸ bounded.1)]
  dsimp only [Option.bind_some]
  split
  · exact lowered.close?_eq opened
  · rfl

/-- Where the parts are consistent, no access of a step is out of range. -/
theorem step?_eq (dependencies : ν → Except ε (List ν)) :
    s.step? dependencies = some (s.step dependencies) := by
  unfold step? step
  cases path : s.frames with
  | nil => cases s.roots <;> rfl
  | cons frame frames =>
    dsimp only
    cases waiting : frame.pending with
    | nil => exact h.leave?_eq path
    | cons node pending =>
      have turned : ({ s with frames := { frame with pending } :: frames } : Search ν).Consistent :=
        h.look (by rw [path, ← waiting]) s.asked
      have hframe : ({ frame with pending } : Frame ν).node < s.nodes.size :=
        h.open_lt (h.path_open _ (path_cons path ▸ List.mem_cons_self))
      dsimp only
      cases found : s.index[node]? with
      | none => rfl
      | some seen => exact congrArg (Option.map Step.next) (turned.meet?_eq hframe (h.index_lt found))

end Consistent

/-- In every state that a search comes through, whether it ends or not, the numbers are those of the
nodes; every node has a bound and a flag; the open nodes ascend from the first that was opened and
are those with a flag that is set; the path ascends and is open; no bound is above its number; and
the order lists, once each, the nodes that were reached and are not open. No access of the next
step is out of range, the path has an end to take away where a node is left, and its node is found
among those that are open. -/
theorem reached_spec (h : Reached dependencies roots s) :
    (∀ (node : ν) (id : Nat), s.index[node]? = some id ↔ s.nodes[id]? = some node) ∧
    s.low.size = s.nodes.size ∧ s.isOpen.size = s.nodes.size ∧
    s.openNodes.reverse.Pairwise (· < ·) ∧
    (∀ id, id ∈ s.openNodes ↔ s.isOpen[id]? = some true) ∧
    s.path.reverse.Pairwise (· < ·) ∧ (∀ id ∈ s.path, id ∈ s.openNodes) ∧
    (∀ (id low : Nat), s.low[id]? = some low → low ≤ id) ∧
    s.order.toList.Nodup ∧
    (∀ node, node ∈ s.order ↔ ∃ id, s.nodes[id]? = some node ∧ id ∉ s.openNodes) ∧
    s.step? dependencies = some (s.step dependencies) := by
  have hc := h.exploring.consistent
  refine ⟨hc.index_iff, hc.size_low, hc.size_isOpen, List.pairwise_reverse.2 hc.open_sorted,
    fun id => (hc.isOpen_iff id).symm, List.pairwise_reverse.2 hc.path_sorted, hc.path_open,
    fun id low found => ?_, hc.order_nodup, hc.mem_order_iff, hc.step?_eq dependencies⟩
  have bound := hc.low_le id
  rwa [lowOf, found] at bound

/-- Node 1 was left and is open off the path, because node 0 depends on it and it on node 0. -/
theorem reached_spec_linked : ∃ (deps : Nat → Except Unit (List Nat)) (s : Search Nat),
    Reached deps [0] s ∧ s.openNodes = [1, 0] ∧ s.path = [0] ∧
      s.step? deps = some (s.step deps) := by
  let deps : Nat → Except Unit (List Nat)
    | 0 => .ok [1, 2]
    | 1 => .ok [0]
    | _ => .ok []
  let entered := { start [0] with roots := [], asked := #[0] }.enter 0 [1, 2]
  let descended := { entered with
    frames := [⟨0, [2], false⟩]
    asked := #[0, 1] }.enter 1 [0]
  let met := { descended with
    frames := [⟨1, [], false⟩, ⟨0, [2], false⟩]
    low := #[0, 0] }
  let left := { met with frames := [⟨0, [2], false⟩] }
  have first : Follows deps entered (start [0]) := by cbv
  have second : Follows deps descended entered := by cbv
  have third : Follows deps met descended := by cbv
  have fourth : Follows deps left met := by cbv
  have reached : Reached deps [0] left :=
    .tail (.tail (.tail (.single first) second) third) fourth
  obtain ⟨-, -, -, -, -, -, -, -, -, -, checked⟩ := reached_spec reached
  exact ⟨deps, left, reached, rfl, rfl, checked⟩

end EquationSystem.Dependency.Search
