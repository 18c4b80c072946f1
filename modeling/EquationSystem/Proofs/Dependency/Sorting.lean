import EquationSystem.Proofs.Dependency.Components
import Mathlib.Data.List.Sort

/-!
# The result of a search
-/

namespace EquationSystem.Dependency

theorem filterMap_range_getElem? {α : Type} (xs : Array α) :
    ((List.range xs.size).filterMap fun i => xs[i]?) = xs.toList := by
  rcases xs with ⟨xs⟩
  induction xs with
  | nil => rfl
  | cons x xs ih => simpa [List.range_succ_eq_map, List.filterMap_map, Function.comp_def] using ih

variable {ν ε : Type} [DecidableEq ν] [Hashable ν]
variable {dependencies : ν → Except ε (List ν)} {initial roots : List ν}

namespace Search

variable {s s' : Search ν} {outcome : Outcome ν ε}

/-- The invariant of a search from the nodes `initial`. -/
structure Exploring (dependencies : ν → Except ε (List ν)) (initial : List ν) (s : Search ν) :
    Prop where
  consistent : s.Consistent
  traversal : Traversal dependencies initial s
  bounded : Bounded dependencies s

theorem Exploring.start : Exploring dependencies roots (.start roots) :=
  ⟨.start roots, .start roots, .start roots⟩

theorem Exploring.of_move (h : Exploring dependencies initial s) (m : Move dependencies s s') :
    Exploring dependencies initial s' :=
  ⟨h.consistent.of_move m, h.traversal.of_move h.consistent m,
    h.bounded.of_move h.traversal h.consistent m⟩

theorem Consistent.move_of_follows (h : s.Consistent) (next : Follows dependencies s' s) :
    Move dependencies s s' := by
  rcases h.step_cases dependencies with ⟨t, hs, m⟩ | ⟨outcome, hs, -⟩
  · rw [Follows, hs] at next
    cases next
    exact m
  · rw [Follows, hs] at next
    cases next

/-- A search from the roots comes through the state. -/
def Reached (dependencies : ν → Except ε (List ν)) (roots : List ν) : Search ν → Prop :=
  Relation.ReflTransGen (fun s s' => Follows dependencies s' s) (.start roots)

theorem Reached.exploring (h : Reached dependencies roots s) : Exploring dependencies roots s := by
  induction h with
  | refl => exact .start
  | tail _ next ih => exact ih.of_move (ih.consistent.move_of_follows next)

theorem run_of_done (ends : Acc (Follows dependencies) s)
    (h : s.step dependencies = .done outcome) :
    run dependencies s ends = outcome := by
  rw [run]
  split
  · next halted =>
    rw [h] at halted
    cases halted
    rfl
  · next moved =>
    rw [h] at moved
    cases moved

theorem run_of_next (ends : Acc (Follows dependencies) s) (h : Follows dependencies s' s) :
    run dependencies s ends = run dependencies s' (ends.inv h) := by
  rw [run]
  split
  · next halted =>
    rw [Follows, halted] at h
    cases h
  · next moved =>
    rw [Follows, moved] at h
    cases h
    rfl

/-- A search that ends does so in a state that satisfies the invariant, and all else that moves
keep. -/
theorem exists_halt_of {P : Search ν → Prop} (ends : Acc (Follows dependencies) s)
    (h : Exploring dependencies initial s) (hp : P s)
    (keep : ∀ {s s'}, Exploring dependencies initial s → P s → Move dependencies s s' → P s') :
    ∃ t, Exploring dependencies initial t ∧ P t ∧
      Halt dependencies t (run dependencies s ends) := by
  induction ends with
  | intro s acc ih =>
    rcases h.consistent.step_cases dependencies with ⟨s', hs, m⟩ | ⟨outcome, hs, halt⟩
    · rw [run_of_next _ hs]
      exact ih s' hs (h.of_move m) (keep h hp m)
    · rw [run_of_done _ hs]
      exact ⟨s, h, hp, halt⟩

theorem exists_halt (ends : Acc (Follows dependencies) s)
    (h : Exploring dependencies initial s) :
    ∃ t, Exploring dependencies initial t ∧ Halt dependencies t (run dependencies s ends) := by
  obtain ⟨t, ht, -, halt⟩ := exists_halt_of ends h trivial fun _ _ _ => trivial
  exact ⟨t, ht, halt⟩

theorem Consistent.nodes_nodup (h : s.Consistent) : s.nodes.toList.Nodup := by
  refine List.nodup_iff_getElem?_ne_getElem?.2 fun i j hij hj same => ?_
  rw [List.getElem?_eq_getElem hj] at same
  exact Nat.ne_of_lt hij (h.node_unique (by simpa using same) (by simp))

/-- The nodes opened since `id` are the open ones of no smaller number. -/
theorem Consistent.mem_since_iff (h : s.Consistent) {id k : Nat} {since rest : List Nat}
    (split : s.openNodes = since ++ id :: rest) :
    k ∈ since ++ [id] ↔ k ∈ s.openNodes ∧ id ≤ k := by
  have sorted := h.open_sorted
  rw [split, List.pairwise_append, List.pairwise_cons] at sorted
  rw [split]
  simp only [List.mem_append, List.mem_cons, List.not_mem_nil, or_false]
  constructor
  · rintro (hk | rfl)
    · exact ⟨.inl hk, Nat.le_of_lt (sorted.2.2 k hk id List.mem_cons_self)⟩
    · exact ⟨.inr (.inl rfl), Nat.le_refl k⟩
  · rintro ⟨hk | rfl | hk, hle⟩
    · exact .inl hk
    · exact .inr rfl
    · exact absurd (sorted.2.1.1 k hk) (Nat.not_lt.2 hle)

namespace Exploring

variable (h : Exploring dependencies initial s)
include h

/-- No node is open where the path is empty: the least one would have a smaller bound. -/
theorem openNodes_eq_nil (path : s.frames = []) : s.openNodes = [] := by
  refine List.eq_nil_iff_forall_not_mem.2 fun id => ?_
  induction id using Nat.strongRecOn with
  | ind id ih =>
    intro hopen
    have off : id ∉ s.path := by simp [Search.path, path]
    exact ih _ (h.bounded.low_lt id hopen off) (h.bounded.low_open id hopen)

/-- Where nothing is left to look at, the closed nodes are all that is reached, in order. -/
theorem order_spec (path : s.frames = []) (next : s.roots = []) :
    s.order.toList.Nodup ∧ DependenciesFirst dependencies s.order.toList ∧
      ∀ node, node ∈ s.order.toList ↔ ReachedFrom dependencies initial node := by
  refine ⟨h.consistent.order_nodup, h.bounded.ordered, fun node => ⟨fun hn => ?_, ?_⟩⟩
  · obtain ⟨id, named, -⟩ := (h.consistent.mem_order_iff node).1 (Array.mem_toList_iff.1 hn)
    exact h.traversal.reached named
  · rintro ⟨root, hr, reaches⟩
    obtain ⟨id, hid⟩ : ∃ id, s.index[root]? = some id := by
      simpa [next] using h.traversal.initial_roots root hr
    refine h.bounded.ordered.mem_of_reaches (Array.mem_toList_iff.2 ?_) reaches
    exact (h.consistent.mem_order_iff root).2
      ⟨id, (h.consistent.index_iff root id).1 hid, by simp [h.openNodes_eq_nil path]⟩

/-- The nodes of the open numbers, in ascending order, are listed as they were reached. -/
theorem filterMap_sublist {members rest : List Nat} (split : s.openNodes = members ++ rest) :
    (members.reverse.filterMap fun id => s.nodes[id]?).Sublist s.nodes.toList := by
  have sorted := h.consistent.open_sorted
  rw [split] at sorted
  have ascending : members.reverse.Pairwise (· < ·) :=
    List.pairwise_reverse.2 (List.pairwise_append.1 sorted).1
  have sub : members.reverse.Sublist (List.range s.nodes.size) := by
    refine List.sublist_of_subperm_of_pairwise (List.subperm_of_subset ?_ fun id hid => ?_)
      ascending List.pairwise_lt_range
    · exact ascending.imp Nat.ne_of_lt
    · exact List.mem_range.2 (h.consistent.open_lt
        (split ▸ List.mem_append_left _ (List.mem_reverse.1 hid)))
  exact filterMap_range_getElem? s.nodes ▸ sub.filterMap fun id => s.nodes[id]?

section
variable {id : Nat} {selfLoop : Bool} {frames : List (Frame ν)} {since rest : List Nat} {first : ν}
  (path : s.frames = ⟨id, [], selfLoop⟩ :: frames) (root : s.lowOf id = id)
  (split : s.openNodes = since ++ id :: rest) (named : s.nodes[id]? = some first)
include path root split named

/-- The nodes that were opened since a root are those that it leads to and that lead to it. -/
theorem mem_component_iff (node : ν) :
    (∃ k ∈ since ++ [id], s.nodes[k]? = some node) ↔
      Reaches dependencies first node ∧ Reaches dependencies node first := by
  obtain ⟨hc, ht, hb⟩ := h
  have mem_iff := fun k => hc.mem_since_iff split (k := k)
  have hopen : id ∈ s.openNodes := ((mem_iff id).1 (by simp)).1
  constructor
  · rintro ⟨k, hk, hnode⟩
    obtain ⟨hko, hle⟩ := (mem_iff k).1 hk
    obtain ⟨u, v, hu, hv, down⟩ := hb.path_leads id (by simp [Search.path, path]) k hle
      (hc.open_lt hko)
    obtain ⟨v', u', hv', hu', up⟩ := hb.leads_root hc path root hko hle
    obtain rfl := Option.some.inj (named.symm.trans hu)
    obtain rfl := Option.some.inj (named.symm.trans hu')
    obtain rfl := Option.some.inj (hnode.symm.trans hv)
    obtain rfl := Option.some.inj (hnode.symm.trans hv')
    exact ⟨down, up⟩
  · rintro ⟨down, up⟩
    rcases hb.reaches_cases ht hc path root hopen (Nat.le_refl id) named down with
      ⟨k, hk, hko, hle⟩ | closed
    · exact ⟨k, (mem_iff k).2 ⟨hko, hle⟩, hk⟩
    · -- A closed node leads to closed nodes only, and the root is open.
      have closed := hb.ordered.mem_of_reaches (Array.mem_toList_iff.2 closed) up
      obtain ⟨k, hk, hko⟩ := (hc.mem_order_iff first).1 (Array.mem_toList_iff.1 closed)
      exact absurd (hc.node_unique hk named ▸ hopen) hko

/-- What a root leads to was asked for its dependencies and told them, and is of the component
or closed. -/
theorem reached_of_root {node : ν} (reaches : Reaches dependencies first node) :
    node ∈ s.asked.toList ∧ (∃ found, dependencies node = .ok found) ∧
      ((∃ k ∈ since ++ [id], s.nodes[k]? = some node) ∨ node ∈ s.order) := by
  obtain ⟨hc, ht, hb⟩ := h
  have of_named : ∀ {k : Nat}, s.nodes[k]? = some node →
      node ∈ s.asked.toList ∧ ∃ found, dependencies node = .ok found := by
    intro k hk
    obtain ⟨found, htold, -⟩ := ht.told hk
    exact ⟨ht.asked_eq ▸ Array.mem_toList_iff.2 (Array.mem_of_getElem? hk), found, htold⟩
  have hopen : id ∈ s.openNodes := ((hc.mem_since_iff split).1 (by simp)).1
  rcases hb.reaches_cases ht hc path root hopen (Nat.le_refl id) named reaches with
    ⟨k, hk, hko, hle⟩ | closed
  · exact ⟨(of_named hk).1, (of_named hk).2, .inl ⟨k, (hc.mem_since_iff split).2 ⟨hko, hle⟩, hk⟩⟩
  · obtain ⟨k, hk, -⟩ := (hc.mem_order_iff node).1 closed
    exact ⟨(of_named hk).1, (of_named hk).2, .inr closed⟩

end

end Exploring

end Search

/-! ## Results -/

theorem Search.Halt.cycleReport {s : Search ν} {asked names : List ν}
    (halt : Search.Halt dependencies s ⟨asked, .error (.cycle names)⟩)
    (h : s.Exploring dependencies initial) : CycleReport dependencies initial asked names := by
  cases halt with
  | @cycle id selfLoop frames since rest path root split cyclic =>
    obtain ⟨first, named⟩ := h.consistent.exists_node
      (h.consistent.path_open id (by simp [Search.path, path]))
    have names_eq : (since ++ [id]).reverse.filterMap (fun k => s.nodes[k]?) =
        first :: since.reverse.filterMap fun k => s.nodes[k]? := by simp [named]
    have mem_names : ∀ node, node ∈ (since ++ [id]).reverse.filterMap (fun k => s.nodes[k]?) ↔
        ∃ k ∈ since ++ [id], s.nodes[k]? = some node := by
      simp only [List.mem_filterMap, List.mem_reverse, implies_true]
    have component := h.mem_component_iff path root split named
    have explored : ∀ member ∈ (since ++ [id]).reverse.filterMap (fun k => s.nodes[k]?),
        ∀ node, Reaches dependencies member node → Reaches dependencies first node :=
      fun member hm node reaches =>
        Relation.ReflTransGen.trans ((component member).1 ((mem_names member).1 hm)).1 reaches
    refine ⟨?_, ?_, ⟨first, ?_, h.traversal.reached named, ?_⟩, ?_, ?_, ?_⟩
    · exact h.traversal.asked_eq ▸ h.consistent.nodes_nodup
    · rw [h.traversal.asked_eq]
      exact h.filterMap_sublist (by rw [split, List.append_assoc, List.singleton_append])
    · rw [names_eq, List.head?_cons]
    · exact fun node => (mem_names node).trans (component node)
    · rw [names_eq]
      by_cases alone : since = []
      · subst alone
        have looped := cyclic.resolve_left fun several => several rfl
        exact .inr ⟨first, rfl, h.traversal.loop_of_selfLoop _ (path ▸ List.mem_cons_self) named
          looped⟩
      · obtain ⟨k, hk⟩ := List.exists_mem_of_ne_nil since alone
        obtain ⟨node, hnode⟩ := h.consistent.exists_node
          ((h.consistent.mem_since_iff split).1 (List.mem_append_left _ hk)).1
        have other : node ∈ since.reverse.filterMap fun k => s.nodes[k]? :=
          List.mem_filterMap.2 ⟨k, List.mem_reverse.2 hk, hnode⟩
        exact .inl (Nat.succ_lt_succ (List.length_pos_of_mem other))
    · intro member hm node reaches
      obtain ⟨asked, told, -⟩ := h.reached_of_root path root split named
        (explored member hm node reaches)
      exact ⟨asked, told⟩
    · intro member hm node reaches out
      rcases (h.reached_of_root path root split named (explored member hm node reaches)).2.2 with
        within | closed
      · exact absurd ((mem_names node).2 within) out
      · exact h.bounded.ordered.not_onCycle h.consistent.order_nodup (Array.mem_toList_iff.2 closed)

section
variable (ends : Acc (Search.Follows dependencies) (.start roots))

/-- An order that a search ends with holds all that is reached, each node once and after its
dependencies. -/
theorem order_of_run {order : List ν}
    (h : (Search.run dependencies (.start roots) ends).result = .ok order) :
    order.Nodup ∧ DependenciesFirst dependencies order ∧
      ∀ node, node ∈ order ↔ ReachedFrom dependencies roots node := by
  obtain ⟨s, hs, halt⟩ := Search.exists_halt ends .start
  generalize Search.run dependencies (.start roots) ends = outcome at h halt
  cases halt with
  | ordered path next =>
    cases h
    exact hs.order_spec path next
  | untoldRoot | untold | cycle => cases h

theorem untold_of_run {e : ε}
    (h : (Search.run dependencies (.start roots) ends).result = .error (.edge e)) :
    ∃ node, ReachedFrom dependencies roots node ∧ dependencies node = .error e := by
  obtain ⟨s, hs, halt⟩ := Search.exists_halt ends .start
  generalize Search.run dependencies (.start roots) ends = outcome at h halt
  cases halt with
  | @untoldRoot root _ _ _ next _ untold =>
    cases h
    exact ⟨root, .of_mem (hs.traversal.roots_initial root (next ▸ List.mem_cons_self)), untold⟩
  | @untold id d _ _ _ _ path _ untold =>
    cases h
    obtain ⟨u, hu, edge⟩ := hs.traversal.edge_of_path hs.consistent path
    exact ⟨d, (hs.traversal.reached hu).dependency edge, untold⟩
  | ordered | cycle => cases h

theorem cycleReport_of_run {names : List ν}
    (h : (Search.run dependencies (.start roots) ends).result = .error (.cycle names)) :
    CycleReport dependencies roots (Search.run dependencies (.start roots) ends).asked names := by
  obtain ⟨s, hs, halt⟩ := Search.exists_halt ends .start
  generalize Search.run dependencies (.start roots) ends = outcome at h halt
  obtain ⟨asked, result⟩ := outcome
  cases h
  exact halt.cycleReport hs

end

/-- Where finitely many nodes are reached and all of them tell their dependencies, there is an
order exactly if none of them lies on a cycle. It holds each of them once and nothing else, and
every node stands after all of its dependencies. -/
theorem sort_ok_iff_acyclic (finite : {node | ReachedFrom dependencies roots node}.Finite)
    (told : ∀ node, ReachedFrom dependencies roots node → ∃ found, dependencies node = .ok found) :
    ((∃ order, (sort dependencies roots (finiteReach_iff.2 finite)).result = .ok order) ↔
      ∀ node, ReachedFrom dependencies roots node → ¬OnCycle dependencies node) ∧
    ∀ order, (sort dependencies roots (finiteReach_iff.2 finite)).result = .ok order →
      order.Nodup ∧ (∀ node, node ∈ order ↔ ReachedFrom dependencies roots node) ∧
      ∀ before node after, order = before ++ node :: after →
        ∀ d, DependsOn dependencies node d → d ∈ before := by
  refine ⟨⟨?_, fun acyclic => ?_⟩, fun order h => ?_⟩
  · rintro ⟨order, h⟩ node hn
    obtain ⟨nodup, first, mem_iff⟩ := order_of_run _ h
    exact first.not_onCycle nodup ((mem_iff node).2 hn)
  · rcases h : (sort dependencies roots (finiteReach_iff.2 finite)).result with
      (names | e) | order
    · have report := cycleReport_of_run _ h
      obtain ⟨first, hf, hr, mem_iff⟩ := report.component
      exact absurd (report.onCycle (List.mem_of_head? hf)) (acyclic first hr)
    · obtain ⟨node, hn, untold⟩ := untold_of_run _ h
      obtain ⟨found, htold⟩ := told node hn
      rw [untold] at htold
      cases htold
    · exact ⟨order, rfl⟩
  · obtain ⟨nodup, first, mem_iff⟩ := order_of_run _ h
    refine ⟨nodup, mem_iff, fun before node after split d hd => ?_⟩
    obtain ⟨found, hf, hmem⟩ := first before node after split
    exact hmem d (hd.mem hf)

theorem sort_ok_smaller : ∃ finite order,
    (sort (fun n : Nat => .ok (ε := Unit) (List.range n)) [3, 1, 3] finite).result = .ok order ∧
      3 ∈ order := by
  let smaller : Nat → Except Unit (List Nat) := fun n => .ok (List.range n)
  have descends : ∀ {n d : Nat}, DependsOn smaller n d → d < n := by
    rintro n d ⟨found, ⟨⟩, hd⟩
    exact List.mem_range.1 hd
  have finite : {n | ReachedFrom smaller [3, 1, 3] n}.Finite :=
    finiteReach_iff.1 ⟨List.range 4, by decide, fun n hn found hf d hd =>
      List.mem_range.2 (Nat.lt_trans (descends ⟨found, hf, hd⟩) (List.mem_range.1 hn))⟩
  obtain ⟨ok_iff, spec⟩ := sort_ok_iff_acyclic finite fun n _ => ⟨_, rfl⟩
  obtain ⟨order, h⟩ := ok_iff.2 fun n _ cycle => by
    have lower : ∀ m, Relation.TransGen (DependsOn smaller) n m → m < n := fun m hm => by
      induction hm with
      | single hd => exact descends hd
      | tail _ hd ih => exact Nat.lt_trans (descends hd) ih
    exact Nat.lt_irrefl n (lower n cycle)
  exact ⟨_, order, h, ((spec order h).2.1 3).2 (.of_mem List.mem_cons_self)⟩

/-- A cycle that a search reports, such as that of `sort`, is a strongly connected component of
several nodes, or of one that depends on itself. Its nodes are listed once, in the order in which
they were asked for their dependencies; all that they lead to was asked and has told its
dependencies, and holds no other cycle. -/
theorem run_cycle_spec (ends : Acc (Search.Follows dependencies) (.start roots)) {names : List ν}
    (h : (Search.run dependencies (.start roots) ends).result = .error (.cycle names)) :
    names.Nodup ∧
    (∃ first, names.head? = some first ∧ ReachedFrom dependencies roots first ∧
      ∀ node, node ∈ names ↔ Reaches dependencies first node ∧ Reaches dependencies node first) ∧
    (1 < names.length ∨ ∃ only, names = [only] ∧ DependsOn dependencies only only) ∧
    (Search.run dependencies (.start roots) ends).asked.Nodup ∧
    names.Sublist (Search.run dependencies (.start roots) ends).asked ∧
    ∀ member ∈ names, ∀ node, Reaches dependencies member node →
      node ∈ (Search.run dependencies (.start roots) ends).asked ∧
      (∃ found, dependencies node = .ok found) ∧
      (node ∉ names → ¬OnCycle dependencies node) := by
  have report := cycleReport_of_run ends h
  refine ⟨report.nodup, report.component, report.cyclic, report.asked_nodup, report.sublist, ?_⟩
  intro member hm node reaches
  obtain ⟨asked, told⟩ := report.told member hm node reaches
  exact ⟨asked, told, report.outside member hm node reaches⟩

/-- The end of a search that takes fewer than `steps` steps. -/
def Search.within (dependencies : ν → Except ε (List ν)) : Nat → Search ν → Option (Outcome ν ε)
  | 0, _ => none
  | steps + 1, s =>
    match s.step dependencies with
    | .next s' => s'.within dependencies steps
    | .done outcome => some outcome

theorem Search.run_of_within {steps : Nat} {s : Search ν} {outcome : Outcome ν ε}
    (h : s.within dependencies steps = some outcome) :
    ∃ ends, run dependencies s ends = outcome := by
  induction steps generalizing s with
  | zero => cases h
  | succ steps ih =>
    rw [within] at h
    cases hs : s.step dependencies with
    | next s' =>
      rw [hs] at h
      obtain ⟨ends, hrun⟩ := ih h
      refine ⟨.intro s fun t ht => ?_, (run_of_next _ hs).trans hrun⟩
      rw [Follows, hs] at ht
      cases ht
      exact ends
    | done o =>
      rw [hs] at h
      cases h
      refine ⟨.intro s fun t ht => ?_, run_of_done _ hs⟩
      rw [Follows, hs] at ht
      cases ht

theorem sort_of_within {steps : Nat} {outcome : Outcome ν ε}
    (finite : FiniteReach dependencies roots)
    (h : (Search.start roots).within dependencies steps = some outcome) :
    sort dependencies roots finite = outcome := by
  obtain ⟨ends, hrun⟩ := Search.run_of_within h
  exact hrun

/-- Two cycles through node 0, which also leads to node 3 on no cycle. -/
theorem run_cycle_linked : ∃ deps : Nat → Except Unit (List Nat),
    (∃ ends, (Search.run deps (.start [0]) ends).result = .error (.cycle [0, 1, 2])) ∧
      (∃ found, deps 3 = .ok found) ∧ ¬OnCycle deps 3 := by
  let deps : Nat → Except Unit (List Nat)
    | 0 => .ok [1, 2]
    | 1 => .ok [0]
    | 2 => .ok [0, 3]
    | _ => .ok []
  have finishes : ((Search.start [0]).within deps 20).map (·.result) =
      some (.error (.cycle [0, 1, 2])) := by cbv
  obtain ⟨outcome, within, result⟩ := Option.map_eq_some_iff.1 finishes
  obtain ⟨ends, rfl⟩ := Search.run_of_within within
  have to3 : Reaches deps 2 3 := .single ⟨[0, 3], rfl, by decide⟩
  obtain ⟨-, -, -, -, -, explored⟩ := run_cycle_spec ends result
  obtain ⟨-, told, acyclic⟩ := explored 2 (by decide) 3 to3
  exact ⟨deps, ⟨ends, result⟩, told, acyclic (by decide)⟩

end EquationSystem.Dependency
