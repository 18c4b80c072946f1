import EquationSystem.Proofs.Dependency.Traversal

/-!
# Components of a search

The bounds of the open nodes and the order of the closed ones (`Search.Bounded`). A node of the
path leads to all that was reached since; an open node leads to its bound, which is open and, off
the path, before the node; and a node of the path has no larger bound than the open nodes between
it and the next. So the end of the path, when all its dependencies were looked at and its bound is
itself, makes up a strongly connected component with the open nodes since: they lead to each other,
and to nothing else but closed nodes.
-/

namespace EquationSystem.Dependency.Search

variable {ν ε : Type} [DecidableEq ν] [Hashable ν]
variable {dependencies : ν → Except ε (List ν)} {initial : List ν} {s s' : Search ν}
variable {node d : ν} {id i j k : Nat}

/-- The node of number `i` leads to that of number `j`. -/
def Leads (dependencies : ν → Except ε (List ν)) (s : Search ν) (i j : Nat) : Prop :=
  ∃ u v, s.nodes[i]? = some u ∧ s.nodes[j]? = some v ∧ Reaches dependencies u v

namespace Leads

theorem refl (h : s.nodes[i]? = some node) : s.Leads dependencies i i := ⟨node, node, h, h, .refl⟩

theorem trans (h1 : s.Leads dependencies i j) (h2 : s.Leads dependencies j k) :
    s.Leads dependencies i k := by
  obtain ⟨u, v, hu, hv, huv⟩ := h1
  obtain ⟨v', w, hv', hw, hvw⟩ := h2
  obtain rfl := Option.some.inj (hv.symm.trans hv')
  exact ⟨u, w, hu, hw, Relation.ReflTransGen.trans huv hvw⟩

theorem enter (h : s.Leads dependencies i j) (found : List ν) :
    (s.enter node found).Leads dependencies i j := by
  have kept : ∀ {k : Nat} {u : ν},
      s.nodes[k]? = some u → (s.enter node found).nodes[k]? = some u := by
    intro k u hu
    rw [nodes_enter, if_neg (Nat.ne_of_lt (Array.getElem?_eq_some_iff.1 hu).1), hu]
  obtain ⟨u, v, hu, hv, huv⟩ := h
  exact ⟨u, v, kept hu, kept hv, huv⟩

end Leads

/-- What the bounds of the open nodes say, and that the closed nodes are in order. -/
structure Bounded (dependencies : ν → Except ε (List ν)) (s : Search ν) : Prop where
  path_leads : ∀ i ∈ s.path, ∀ j, i ≤ j → j < s.nodes.size → s.Leads dependencies i j
  low_open : ∀ i ∈ s.openNodes, s.lowOf i ∈ s.openNodes
  low_leads : ∀ i ∈ s.openNodes, s.Leads dependencies i (s.lowOf i)
  low_lt : ∀ i ∈ s.openNodes, i ∉ s.path → s.lowOf i < i
  low_le : ∀ i ∈ s.path, ∀ j ∈ s.openNodes, i ≤ j → (∀ k ∈ s.path, k ≤ j → k ≤ i) →
    s.lowOf i ≤ s.lowOf j
  ordered : DependenciesFirst dependencies s.order.toList

theorem path_enter (s : Search ν) (node : ν) (found : List ν) :
    (s.enter node found).path = s.nodes.size :: s.path := rfl

namespace Bounded

theorem start (roots : List ν) : Bounded dependencies (.start roots) where
  path_leads _ h := by cases h
  low_open _ h := by cases h
  low_leads _ h := by cases h
  low_lt _ h := by cases h
  low_le _ h := by cases h
  ordered := .nil

theorem update (h : Bounded dependencies s) {roots : List ν} {asked : Array ν}
    {frames : List (Frame ν)} (path : frames.map (·.node) = s.path) :
    Bounded dependencies { s with roots, asked, frames } where
  path_leads := by
    rw [Search.path, path]
    exact h.path_leads
  low_open := h.low_open
  low_leads := h.low_leads
  low_lt := by
    rw [Search.path, path]
    exact h.low_lt
  low_le := by
    rw [Search.path, path]
    exact h.low_le
  ordered := h.ordered

theorem enter (h : Bounded dependencies s) (hc : s.Consistent) (found : List ν)
    (led : ∀ i ∈ s.path, ∃ u, s.nodes[i]? = some u ∧ Reaches dependencies u node) :
    Bounded dependencies (s.enter node found) := by
  have last : (s.enter node found).nodes[s.nodes.size]? = some node := by
    rw [nodes_enter, if_pos rfl]
  have low_last : (s.enter node found).lowOf s.nodes.size = s.nodes.size := by
    rw [lowOf_enter hc.size_low, if_pos rfl]
  have low_old : ∀ i ∈ s.openNodes, (s.enter node found).lowOf i = s.lowOf i := fun i hi => by
    rw [lowOf_enter hc.size_low, if_neg (Nat.ne_of_lt (hc.open_lt hi))]
  have path_lt : ∀ i ∈ s.path, i < s.nodes.size := fun i hi => hc.open_lt (hc.path_open i hi)
  refine ⟨?_, ?_, ?_, ?_, ?_, h.ordered⟩
  · intro i hi j hij hj
    have hsize : (s.enter node found).nodes.size = s.nodes.size + 1 := Array.size_push _
    rw [path_enter, List.mem_cons] at hi
    rcases hi with rfl | hi
    · obtain rfl : j = s.nodes.size := by omega
      exact .refl last
    · by_cases hlast : j = s.nodes.size
      · subst hlast
        obtain ⟨u, hu, reaches⟩ := led i hi
        exact ⟨u, node, by rw [nodes_enter, if_neg (Nat.ne_of_lt (path_lt i hi)), hu], last,
          reaches⟩
      · exact (h.path_leads i hi j hij (by omega)).enter found
  · intro i hi
    rcases List.mem_cons.1 hi with rfl | hi
    · rw [low_last]
      exact List.mem_cons_self
    · rw [low_old i hi]
      exact List.mem_cons_of_mem _ (h.low_open i hi)
  · intro i hi
    rcases List.mem_cons.1 hi with rfl | hi
    · rw [low_last]
      exact .refl last
    · rw [low_old i hi]
      exact (h.low_leads i hi).enter found
  · intro i hi off
    obtain ⟨other, off⟩ := not_or.1 (mt List.mem_cons.2 off)
    have hi := (List.mem_cons.1 hi).resolve_left other
    rw [low_old i hi]
    exact h.low_lt i hi off
  · intro i hi j hj hij hlast
    rw [path_enter] at hi hlast
    rcases List.mem_cons.1 hj with rfl | hj
    · rw [Nat.le_antisymm hij (hlast _ List.mem_cons_self (Nat.le_refl _))]
    · have := hc.open_lt hj
      have hi := (List.mem_cons.1 hi).resolve_left (by omega)
      rw [low_old i (hc.path_open i hi), low_old j hj]
      exact h.low_le i hi j hj hij fun k hk => hlast k (List.mem_cons_of_mem _ hk)

theorem meet (h : Bounded dependencies s) {seen : Nat} {pending : List ν} {b selfLoop : Bool}
    {frames : List (Frame ν)} {low : Array Nat}
    (path : s.frames = ⟨id, d :: pending, selfLoop⟩ :: frames)
    (leads : s.Leads dependencies id seen)
    (bound : ∀ i, low[i]?.getD 0 =
      if i = id ∧ seen ∈ s.openNodes then min seen (s.lowOf i) else s.lowOf i) :
    Bounded dependencies { s with low, frames := ⟨id, pending, b⟩ :: frames } := by
  have path_eq :
      ({ s with low, frames := ⟨id, pending, b⟩ :: frames } : Search ν).path = s.path := by
    simp [Search.path, path]
  have off : ∀ i, i ≠ id → low[i]?.getD 0 = s.lowOf i := fun i hi => by simp [bound, hi]
  have lower : ∀ i, low[i]?.getD 0 ≤ s.lowOf i := fun i => by
    rw [bound]
    split <;> omega
  refine ⟨?_, ?_, ?_, ?_, ?_, h.ordered⟩
  · rw [path_eq]
    exact h.path_leads
  · intro i hi
    change low[i]?.getD 0 ∈ s.openNodes
    rw [bound]
    split
    · next back => exact min_rec' (· ∈ s.openNodes) back.2 (h.low_open i hi)
    · exact h.low_open i hi
  · intro i hi
    change s.Leads dependencies i (low[i]?.getD 0)
    rw [bound]
    split
    · next back => exact min_rec' (s.Leads dependencies i) (back.1 ▸ leads) (h.low_leads i hi)
    · exact h.low_leads i hi
  · rw [path_eq]
    exact fun i hi hoff => (lower i).trans_lt (h.low_lt i hi hoff)
  · rw [path_eq]
    intro i hi j hj hij hlast
    change low[i]?.getD 0 ≤ low[j]?.getD 0
    by_cases top : j = id
    · have hid : id ∈ s.path := by simp [Search.path, path]
      rw [Nat.le_antisymm hij (top ▸ hlast id hid (Nat.le_of_eq top.symm))]
    · rw [off j top]
      exact (lower i).trans (h.low_le i hi j hj hij hlast)

theorem leave (h : Bounded dependencies s) (hc : s.Consistent) {selfLoop : Bool}
    {frames : List (Frame ν)} {low : Array Nat} (path : s.frames = ⟨id, [], selfLoop⟩ :: frames)
    (leads : s.lowOf id ≠ id)
    (bound : ∀ i, low[i]?.getD 0 = if frames.head?.map (·.node) = some i
      then min (s.lowOf id) (s.lowOf i) else s.lowOf i) :
    Bounded dependencies { s with low, frames } := by
  have path_eq : s.path = id :: frames.map (·.node) := path_cons path
  have hid : id ∈ s.path := path_eq ▸ List.mem_cons_self
  have hopen := hc.path_open id hid
  have before : s.lowOf id < id := Nat.lt_of_le_of_ne (hc.low_le id) leads
  have sub : ∀ i ∈ frames.map (·.node), i ∈ s.path := fun i hi =>
    path_eq ▸ List.mem_cons_of_mem id hi
  have parent_mem : ∀ {i}, frames.head?.map (·.node) = some i → i ∈ frames.map (·.node) := by
    intro i hi
    exact List.mem_of_head? (List.head?_map ▸ hi)
  have lower : ∀ i, low[i]?.getD 0 ≤ s.lowOf i := fun i => by
    rw [bound]
    split <;> omega
  refine ⟨fun i hi => h.path_leads i (sub i hi), ?_, ?_, ?_, ?_, h.ordered⟩
  · intro i hi
    change low[i]?.getD 0 ∈ s.openNodes
    rw [bound]
    split
    · exact min_rec' (· ∈ s.openNodes) (h.low_open id hopen) (h.low_open i hi)
    · exact h.low_open i hi
  · intro i hi
    change s.Leads dependencies i (low[i]?.getD 0)
    rw [bound]
    split
    · next parent =>
      have hpath := parent_mem parent
      have led := h.path_leads i (sub i hpath) id (Nat.le_of_lt (hc.lt_end path hpath))
        (hc.open_lt hopen)
      exact min_rec' (s.Leads dependencies i) (led.trans (h.low_leads id hopen)) (h.low_leads i hi)
    · exact h.low_leads i hi
  · intro i hi off
    by_cases left : i = id
    · exact left ▸ (lower id).trans_lt before
    · refine (lower i).trans_lt (h.low_lt i hi ?_)
      rw [path_eq, List.mem_cons]
      exact not_or.2 ⟨left, off⟩
  · intro i hi j hj hij hlast
    change low[i]?.getD 0 ≤ low[j]?.getD 0
    by_cases parent : frames.head?.map (·.node) = some j
    · rw [Nat.le_antisymm hij (hlast j (parent_mem parent) (Nat.le_refl j))]
    · rw [bound j, if_neg parent]
      by_cases since : id ≤ j
      · -- `j` was reached since the end of the path, so `i` is the node that takes over its bound.
        have parent : frames.head?.map (·.node) = some i := by
          rw [← List.head?_map]
          cases hp : frames.map (·.node) with
          | nil =>
            rw [Search.path, hp] at hi
            cases hi
          | cons q p =>
            have := hlast q (by simp [Search.path, hp])
            have : q < id := hc.lt_end path (by simp [hp])
            have sorted := hc.path_sorted
            rw [path_eq, hp, List.pairwise_cons, List.pairwise_cons] at sorted
            rw [Search.path, hp] at hi
            rcases List.mem_cons.1 hi with rfl | hi
            · rfl
            · have := sorted.2.1 i hi
              omega
        rw [bound i, if_pos parent]
        exact (Nat.min_le_left _ _).trans
          (h.low_le id hid j hj since fun k hk _ => hc.le_end path hk)
      · refine (lower i).trans (h.low_le i (sub i hi) j hj hij fun k hk hkj => ?_)
        rw [path_eq] at hk
        exact hlast k ((List.mem_cons.1 hk).resolve_left (by omega)) hkj

/-! ## The root of a component -/

section
variable (h : Bounded dependencies s) (ht : Traversal dependencies initial s) (hc : s.Consistent)
  {selfLoop : Bool} {frames : List (Frame ν)} (path : s.frames = ⟨id, [], selfLoop⟩ :: frames)
  (root : s.lowOf id = id)
include h hc path root

theorem root_le_low (hj : j ∈ s.openNodes) (since : id ≤ j) : id ≤ s.lowOf j := by
  have low_le := h.low_le id (path_cons path ▸ List.mem_cons_self) j hj since fun k hk _ =>
    hc.le_end path hk
  exact root ▸ low_le

/-- The open nodes since a root lead to it: their bounds fall down to it. -/
theorem leads_root (hj : j ∈ s.openNodes) (since : id ≤ j) : s.Leads dependencies j id := by
  induction j using Nat.strongRecOn with
  | ind j ih =>
    rcases Nat.eq_or_lt_of_le since with rfl | since'
    · obtain ⟨node, named⟩ := hc.exists_node hj
      exact .refl named
    · have off : j ∉ s.path := fun on => Nat.not_lt.2 (hc.le_end path on) since'
      exact (h.low_leads j hj).trans
        (ih _ (h.low_lt j hj off) (h.low_open j hj) (h.root_le_low hc path root hj since))

include ht

/-- A dependency of an open node since a root is open since the root itself, or closed. -/
theorem dependency_cases (hj : j ∈ s.openNodes) (since : id ≤ j) (named : s.nodes[j]? = some node)
    (hd : DependsOn dependencies node d) :
    (∃ k, s.nodes[k]? = some d ∧ k ∈ s.openNodes ∧ id ≤ k) ∨ d ∈ s.order := by
  obtain ⟨found, htold, hall⟩ := ht.told named
  rcases hall d (hd.mem htold) with ⟨k, hk, low⟩ | ⟨frame, hf, rfl, waits⟩
  · have hk := (hc.index_iff d k).1 hk
    by_cases hopen : k ∈ s.openNodes
    · exact .inl ⟨k, hk, hopen, (h.root_le_low hc path root hj since).trans (low hopen)⟩
    · exact .inr ((hc.mem_order_iff d).2 ⟨k, hk, hopen⟩)
  · -- Only the root itself is on the path at this height, and it waits for nothing.
    rw [path, List.mem_cons] at hf
    rcases hf with rfl | hf
    · cases waits
    · exact absurd since (Nat.not_le.2 (hc.lt_end path (List.mem_map_of_mem hf)))

/-- All that an open node since a root leads to is open since the root, or closed. -/
theorem reaches_cases (hj : j ∈ s.openNodes) (since : id ≤ j) (named : s.nodes[j]? = some node)
    (hd : Reaches dependencies node d) :
    (∃ k, s.nodes[k]? = some d ∧ k ∈ s.openNodes ∧ id ≤ k) ∨ d ∈ s.order := by
  induction hd with
  | refl => exact .inl ⟨j, named, hj, since⟩
  | tail _ hd ih =>
    rcases ih with ⟨k, hk, hopen, hle⟩ | closed
    · exact h.dependency_cases ht hc path root hopen hle hk hd
    · exact .inr (Array.mem_toList_iff.1
        (h.ordered.mem_of_reaches (Array.mem_toList_iff.2 closed) (.single hd)))

end

theorem close (h : Bounded dependencies s) (ht : Traversal dependencies initial s)
    (hc : s.Consistent) {frames : List (Frame ν)} {rest : List Nat} {low : Array Nat}
    {isOpen : Array Bool} (path : s.frames = ⟨id, [], false⟩ :: frames) (root : s.lowOf id = id)
    (alone : s.openNodes = id :: rest) (named : s.nodes[id]? = some node)
    (bound : ∀ i, low[i]?.getD 0 = s.lowOf i) :
    Bounded dependencies
      { s with low, frames, isOpen, openNodes := rest, order := s.order.push node } := by
  have path_eq : s.path = id :: frames.map (·.node) := path_cons path
  have sub : ∀ i ∈ frames.map (·.node), i ∈ s.path := fun i hi =>
    path_eq ▸ List.mem_cons_of_mem id hi
  have rest_open : ∀ i ∈ rest, i ∈ s.openNodes := fun i hi => alone ▸ List.mem_cons_of_mem id hi
  have rest_lt : ∀ i ∈ rest, i < id := by
    have sorted := hc.open_sorted
    rw [alone, List.pairwise_cons] at sorted
    exact sorted.1
  have low_eq : ∀ i, ({ s with
      low, frames, isOpen, openNodes := rest, order := s.order.push node } : Search ν).lowOf i =
        s.lowOf i := bound
  refine ⟨fun i hi => h.path_leads i (sub i hi), ?_, ?_, ?_, ?_, ?_⟩
  · intro i hi
    have := rest_lt i hi
    have := hc.low_le i
    have hopen := h.low_open i (rest_open i hi)
    rw [alone] at hopen
    rw [low_eq]
    exact (List.mem_cons.1 hopen).resolve_left (by omega)
  · intro i hi
    rw [low_eq]
    exact h.low_leads i (rest_open i hi)
  · intro i hi off
    rw [low_eq]
    refine h.low_lt i (rest_open i hi) ?_
    rw [path_eq, List.mem_cons]
    exact not_or.2 ⟨Nat.ne_of_lt (rest_lt i hi), off⟩
  · intro i hi j hj hij hlast
    rw [low_eq, low_eq]
    refine h.low_le i (sub i hi) j (rest_open j hj) hij fun k hk hkj => ?_
    have := rest_lt j hj
    rw [path_eq] at hk
    exact hlast k ((List.mem_cons.1 hk).resolve_left (by omega)) hkj
  · obtain ⟨found, htold, -⟩ := ht.told named
    rw [Array.toList_push]
    refine h.ordered.concat htold fun d hd => ?_
    have edge : DependsOn dependencies node d := ⟨found, htold, hd⟩
    have hopen : id ∈ s.openNodes := alone ▸ List.mem_cons_self
    rcases h.dependency_cases ht hc path root hopen (Nat.le_refl _) named edge with
      ⟨k, hk, hko, hle⟩ | closed
    · -- Only the node itself is open since it, and it is not among its own dependencies.
      rw [alone] at hko
      obtain rfl : k = id := by
        rcases List.mem_cons.1 hko with rfl | hko
        · rfl
        · have := rest_lt k hko
          omega
      obtain rfl := Option.some.inj (named.symm.trans hk)
      rcases ht.selfLoop_of_loop _ (path ▸ List.mem_cons_self) named edge with waits | looped
      · cases waits
      · cases looped
    · exact Array.mem_toList_iff.2 closed

/-- Every move keeps the bounds and the order. -/
theorem of_move (h : Bounded dependencies s) (ht : Traversal dependencies initial s)
    (hc : s.Consistent) (m : Move dependencies s s') : Bounded dependencies s' := by
  cases m with
  | skip => exact h.update rfl
  | @start root roots found path next fresh told =>
    have turned : ({ s with roots, asked := s.asked.push root } : Search ν).Consistent :=
      hc.update rfl (fun _ => Nat.le_refl _) (.refl _)
    refine (h.update rfl).enter turned found fun i hi => ?_
    simp [Search.path, path] at hi
  | @meet id d pending selfLoop frames seen low path found size bound =>
    obtain ⟨u, hu, edge⟩ := ht.edge_of_path hc path
    exact h.meet path ⟨u, d, hu, (hc.index_iff d seen).1 found, .single edge⟩ bound
  | @descend id d pending found selfLoop frames path fresh told =>
    obtain ⟨u, hu, edge⟩ := ht.edge_of_path hc path
    have path_eq : s.path = id :: frames.map (·.node) := path_cons path
    have turned : Bounded dependencies { s with
        frames := ⟨id, pending, selfLoop⟩ :: frames, asked := s.asked.push d } :=
      h.update path_eq.symm
    refine turned.enter (hc.look path (s.asked.push d)) found fun i hi => ?_
    have on : i ∈ s.path := path_eq ▸ hi
    obtain ⟨w, u', hw, hu', reaches⟩ := h.path_leads i on id (hc.le_end path on)
      (hc.open_lt (hc.path_open id (path_eq ▸ List.mem_cons_self)))
    obtain rfl := Option.some.inj (hu.symm.trans hu')
    exact ⟨w, hw, reaches.tail edge⟩
  | leave path leads size bound => exact h.leave hc path leads bound
  | close path root alone named size bound => exact h.close ht hc path root alone named bound

end Bounded

end EquationSystem.Dependency.Search
