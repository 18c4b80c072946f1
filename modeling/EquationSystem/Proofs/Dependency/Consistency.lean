import EquationSystem.Proofs.Dependency.Graph

/-!
# The parts of a search

What the numbers, the bounds, the open nodes, the path and the order of a search say about each
other (`Search.Consistent`). In a consistent state every step is one of six moves (`Search.Move`)
and every end one of four (`Search.Halt`); the moves are told without the helper functions of the
step, as changes of the bounds, the path and the open nodes. Every move keeps the parts consistent.
-/

namespace EquationSystem.Dependency.Search

variable {ν ε : Type} [DecidableEq ν] [Hashable ν]
variable {dependencies : ν → Except ε (List ν)} {s s' : Search ν} {node : ν} {id : Nat}

/-- The numbers of the nodes on the path, its end in front. -/
def path (s : Search ν) : List Nat := s.frames.map (·.node)

/-- What the parts of a search say about each other. -/
structure Consistent (s : Search ν) : Prop where
  index_iff : ∀ (node : ν) (id : Nat), s.index[node]? = some id ↔ s.nodes[id]? = some node
  size_low : s.low.size = s.nodes.size
  size_isOpen : s.isOpen.size = s.nodes.size
  isOpen_iff : ∀ id, s.isOpen[id]? = some true ↔ id ∈ s.openNodes
  open_sorted : s.openNodes.Pairwise (· > ·)
  path_sorted : s.path.Pairwise (· > ·)
  path_open : ∀ id ∈ s.path, id ∈ s.openNodes
  low_le : ∀ id, s.lowOf id ≤ id
  order_nodup : s.order.toList.Nodup
  mem_order_iff : ∀ node, node ∈ s.order ↔ ∃ id, s.nodes[id]? = some node ∧ id ∉ s.openNodes

/-- A step of a search that does not end it. -/
inductive Move (dependencies : ν → Except ε (List ν)) (s : Search ν) : Search ν → Prop where
  /-- The next root was reached before. -/
  | skip {root : ν} {roots : List ν} {id : Nat} (path : s.frames = [])
      (next : s.roots = root :: roots) (seen : s.index[root]? = some id) :
      Move dependencies s { s with roots }
  /-- The next root starts a path. -/
  | start {root : ν} {roots found : List ν} (path : s.frames = [])
      (next : s.roots = root :: roots) (fresh : s.index[root]? = none)
      (told : dependencies root = .ok found) :
      Move dependencies s ({ s with roots, asked := s.asked.push root }.enter root found)
  /-- The next dependency was reached before. If it is open, it bounds the end of the path. -/
  | meet {id : Nat} {d : ν} {pending : List ν} {selfLoop : Bool} {frames : List (Frame ν)}
      {seen : Nat} {low : Array Nat} (path : s.frames = ⟨id, d :: pending, selfLoop⟩ :: frames)
      (found : s.index[d]? = some seen) (size : low.size = s.low.size)
      (bound : ∀ i, low[i]?.getD 0 =
        if i = id ∧ seen ∈ s.openNodes then min seen (s.lowOf i) else s.lowOf i) :
      Move dependencies s { s with low, frames := ⟨id, pending, selfLoop || seen == id⟩ :: frames }
  /-- The next dependency extends the path. -/
  | descend {id : Nat} {d : ν} {pending found : List ν} {selfLoop : Bool}
      {frames : List (Frame ν)} (path : s.frames = ⟨id, d :: pending, selfLoop⟩ :: frames)
      (fresh : s.index[d]? = none) (told : dependencies d = .ok found) :
      Move dependencies s ({ s with
        frames := ⟨id, pending, selfLoop⟩ :: frames, asked := s.asked.push d }.enter d found)
  /-- The end of the path leads back to a node before it, and hands its bound on. -/
  | leave {id : Nat} {selfLoop : Bool} {frames : List (Frame ν)} {low : Array Nat}
      (path : s.frames = ⟨id, [], selfLoop⟩ :: frames) (leads : s.lowOf id ≠ id)
      (size : low.size = s.low.size)
      (bound : ∀ i, low[i]?.getD 0 = if frames.head?.map (·.node) = some i
        then min (s.lowOf id) (s.lowOf i) else s.lowOf i) :
      Move dependencies s { s with low, frames }
  /-- The end of the path is a component by itself and no cycle. -/
  | close {id : Nat} {frames : List (Frame ν)} {low : Array Nat} {rest : List Nat} {node : ν}
      (path : s.frames = ⟨id, [], false⟩ :: frames) (root : s.lowOf id = id)
      (alone : s.openNodes = id :: rest) (named : s.nodes[id]? = some node)
      (size : low.size = s.low.size) (bound : ∀ i, low[i]?.getD 0 = s.lowOf i) :
      Move dependencies s { s with
        low, frames
        isOpen := s.isOpen.setIfInBounds id false
        openNodes := rest
        order := s.order.push node }

/-- A step of a search that ends it. -/
inductive Halt (dependencies : ν → Except ε (List ν)) (s : Search ν) : Outcome ν ε → Prop where
  /-- Nothing is left to look at. -/
  | ordered (path : s.frames = []) (next : s.roots = []) :
      Halt dependencies s ⟨s.asked.toList, .ok s.order.toList⟩
  /-- The dependencies of the next root cannot be told. -/
  | untoldRoot {root : ν} {roots : List ν} {e : ε} (path : s.frames = [])
      (next : s.roots = root :: roots) (fresh : s.index[root]? = none)
      (untold : dependencies root = .error e) :
      Halt dependencies s ⟨(s.asked.push root).toList, .error (.edge e)⟩
  /-- The dependencies of the next dependency cannot be told. -/
  | untold {id : Nat} {d : ν} {pending : List ν} {selfLoop : Bool} {frames : List (Frame ν)}
      {e : ε} (path : s.frames = ⟨id, d :: pending, selfLoop⟩ :: frames)
      (fresh : s.index[d]? = none) (untold : dependencies d = .error e) :
      Halt dependencies s ⟨(s.asked.push d).toList, .error (.edge e)⟩
  /-- The open nodes since the end of the path are a component and a cycle. -/
  | cycle {id : Nat} {selfLoop : Bool} {frames : List (Frame ν)} {since rest : List Nat}
      (path : s.frames = ⟨id, [], selfLoop⟩ :: frames) (root : s.lowOf id = id)
      (split : s.openNodes = since ++ id :: rest) (cyclic : since ≠ [] ∨ selfLoop = true) :
      Halt dependencies s ⟨s.asked.toList, .error
        (.cycle ((since ++ [id]).reverse.filterMap fun member => s.nodes[member]?))⟩

/-! ## Bounds and components -/

theorem lowOf_lower (s : Search ν) (node bound i : Nat) :
    (s.lower node bound).lowOf i = if i = node then min bound (s.lowOf i) else s.lowOf i := by
  unfold lower lowOf
  rw [Array.getElem?_modify]
  by_cases h : node = i
  · subst h
    cases s.low[node]? <;> simp
  · simp [h, Ne.symm h]

theorem lowOf_passOn (s : Search ν) (node i : Nat) :
    (s.passOn node).lowOf i = if s.frames.head?.map (·.node) = some i
      then min (s.lowOf node) (s.lowOf i) else s.lowOf i := by
  unfold passOn
  split
  · next h => simp [h]
  · next parent _ h => simp [h, lowOf_lower, eq_comm]

/-- Only bounds change when a bound is passed on. -/
theorem passOn_eq (s : Search ν) (node : Nat) :
    ∃ low, s.passOn node = { s with low } ∧ low.size = s.low.size := by
  unfold passOn
  split
  · exact ⟨s.low, rfl, rfl⟩
  · exact ⟨_, rfl, Array.size_modify⟩

theorem nodes_enter (s : Search ν) (node : ν) (pending : List ν) (i : Nat) :
    (s.enter node pending).nodes[i]? = if i = s.nodes.size then some node else s.nodes[i]? :=
  Array.getElem?_push

theorem index_enter (s : Search ν) (node : ν) (pending : List ν) (d : ν) :
    (s.enter node pending).index[d]? = if node = d then some s.nodes.size else s.index[d]? := by
  simp [enter, Std.HashMap.getElem?_insert]

theorem lowOf_enter (h : s.low.size = s.nodes.size) (node : ν) (pending : List ν) (i : Nat) :
    (s.enter node pending).lowOf i = if i = s.nodes.size then i else s.lowOf i := by
  unfold enter lowOf
  simp only [Array.getElem?_push, h]
  split <;> simp_all

/-- The component of an open node splits the open nodes. -/
theorem component_of_mem (h : id ∈ s.openNodes) :
    ∃ since rest, s.openNodes = since ++ id :: rest ∧
      s.component id = ((since ++ [id]).reverse, rest) := by
  obtain ⟨since, rest, split, new⟩ := List.eq_append_cons_of_mem h
  have others : ∀ other ∈ since, (other != id) = true := by
    intro other ho
    simp only [bne_iff_ne, ne_eq]
    rintro rfl
    exact new ho
  refine ⟨since, rest, split, ?_⟩
  unfold component
  rw [split, List.takeWhile_append_of_pos others, List.dropWhile_append_of_pos others]
  simp

/-! ## Steps as moves -/

/-- An open node has a name. -/
theorem Consistent.exists_node (h : s.Consistent) (open' : id ∈ s.openNodes) :
    ∃ node, s.nodes[id]? = some node := by
  have flag := (h.isOpen_iff id).2 open'
  obtain ⟨lt, -⟩ := Array.getElem?_eq_some_iff.1 flag
  exact ⟨_, Array.getElem?_eq_getElem (h.size_isOpen ▸ lt)⟩

section
variable {frame : Frame ν} {frames : List (Frame ν)} {i : Nat}

theorem path_cons (path : s.frames = frame :: frames) :
    s.path = frame.node :: frames.map (·.node) := by
  rw [Search.path, path, List.map_cons]

/-- The nodes before the end of the path were reached before it. -/
theorem Consistent.lt_end (h : s.Consistent) (path : s.frames = frame :: frames)
    (hi : i ∈ frames.map (·.node)) : i < frame.node := by
  have sorted := h.path_sorted
  rw [path_cons path, List.pairwise_cons] at sorted
  exact sorted.1 i hi

theorem Consistent.le_end (h : s.Consistent) (path : s.frames = frame :: frames)
    (hi : i ∈ s.path) : i ≤ frame.node := by
  rw [path_cons path, List.mem_cons] at hi
  rcases hi with rfl | hi
  · exact Nat.le_refl _
  · exact Nat.le_of_lt (h.lt_end path hi)

theorem Consistent.head?_lt (h : s.Consistent) (path : s.frames = frame :: frames)
    (hi : frames.head?.map (·.node) = some i) : i < frame.node := by
  obtain ⟨parent, hp, rfl⟩ := Option.map_eq_some_iff.1 hi
  exact h.lt_end path (List.mem_map_of_mem (List.mem_of_head? hp))

end

section
variable {selfLoop : Bool} {frames : List (Frame ν)}

/-- A dependency that was reached before is met by a move. -/
theorem Consistent.meet_move (h : s.Consistent) {d : ν} {pending : List ν} {seen : Nat}
    (path : s.frames = ⟨id, d :: pending, selfLoop⟩ :: frames) (found : s.index[d]? = some seen) :
    Move dependencies s ({ s with frames := ⟨id, pending, selfLoop⟩ :: frames }.meet
      ⟨id, pending, selfLoop⟩ frames seen) := by
  unfold meet
  by_cases same : seen = id
  · subst same
    have kept : ∀ i, s.low[i]?.getD 0 =
        if i = seen ∧ seen ∈ s.openNodes then min seen (s.lowOf i) else s.lowOf i := by
      intro i
      have := h.low_le i
      change s.lowOf i = _
      split <;> omega
    rw [if_pos rfl]
    simpa using Move.meet path found rfl kept
  · have other : (seen == id) = false := by simpa using same
    rw [if_neg same]
    simp only [Option.getD_eq_iff, reduceCtorEq, and_false, or_false, h.isOpen_iff]
    by_cases back : seen ∈ s.openNodes
    · rw [if_pos back]
      have bound := lowOf_lower s id seen
      simpa [other, lower] using
        Move.meet path found Array.size_modify fun i => (bound i).trans (by simp [back])
    · rw [if_neg back]
      simpa [other] using Move.meet path found rfl fun i => (by simp [back, lowOf])

/-- The end of the path is left by a move, or ends the search with a cycle. -/
theorem Consistent.leave_cases (h : s.Consistent) (path : s.frames = ⟨id, [], selfLoop⟩ :: frames) :
    (∃ s', ({ s with frames }.leave ⟨id, [], selfLoop⟩ : Step ν ε) = .next s' ∧
      Move dependencies s s') ∨
    ∃ outcome, ({ s with frames }.leave ⟨id, [], selfLoop⟩ : Step ν ε) = .done outcome ∧
      Halt dependencies s outcome := by
  have bound := lowOf_passOn { s with frames } id
  obtain ⟨low, passed, size⟩ := passOn_eq { s with frames } id
  have same : ({ s with frames }.passOn id).lowOf id = s.lowOf id := by
    rw [bound, if_neg fun hp => Nat.lt_irrefl _ (h.head?_lt path hp)]
    rfl
  unfold leave
  simp only [same]
  rw [passed] at bound ⊢
  by_cases root : s.lowOf id = id
  · rw [if_pos root]
    have opened : id ∈ s.openNodes := h.path_open id (by simp [Search.path, path])
    obtain ⟨since, rest, split, component⟩ := component_of_mem (s := { s with frames, low }) opened
    unfold close
    simp only [component]
    by_cases cyclic : since ≠ [] ∨ selfLoop = true
    · have several : (1 < (since ++ [id]).reverse.length || selfLoop) = true := by
        cases since <;> simp_all
      rw [if_pos several]
      exact .inr ⟨_, rfl, .cycle path root split cyclic⟩
    · obtain ⟨rfl, rfl⟩ : since = [] ∧ selfLoop = false := by simpa using cyclic
      obtain ⟨node, named⟩ := h.exists_node opened
      have kept : ∀ i, low[i]?.getD 0 = s.lowOf i := by
        intro i
        refine (bound i).trans ?_
        split
        · next hp =>
          have before : i < id := h.head?_lt path hp
          have := h.low_le i
          change min (s.lowOf id) (s.lowOf i) = s.lowOf i
          omega
        · rfl
      simp only [List.nil_append, List.reverse_singleton, List.length_singleton, Nat.lt_irrefl,
        decide_false, Bool.or_self, Bool.false_eq_true, if_false, named]
      refine .inl ⟨_, rfl, ?_⟩
      simpa using Move.close path root split named size kept
  · rw [if_neg root]
    exact .inl ⟨_, rfl, .leave path root size bound⟩

end

/-- In a consistent state every step is a move, or ends the search. -/
theorem Consistent.step_cases (h : s.Consistent) (dependencies : ν → Except ε (List ν)) :
    (∃ s', s.step dependencies = .next s' ∧ Move dependencies s s') ∨
      ∃ outcome, s.step dependencies = .done outcome ∧ Halt dependencies s outcome := by
  rcases s with ⟨roots, asked, nodes, index, low, isOpen, openNodes, frames, order⟩
  rcases frames with _ | ⟨⟨id, _ | ⟨d, pending⟩, selfLoop⟩, frames⟩
  · rcases roots with _ | ⟨root, roots⟩
    · exact .inr ⟨_, rfl, .ordered rfl rfl⟩
    · simp only [step, visit, Std.HashMap.contains_eq_isSome_getElem?]
      cases seen : index[root]? with
      | some id => exact .inl ⟨_, rfl, .skip rfl rfl seen⟩
      | none =>
        cases told : dependencies root with
        | ok found => exact .inl ⟨_, rfl, .start rfl rfl seen told⟩
        | error e => exact .inr ⟨_, rfl, .untoldRoot rfl rfl seen told⟩
  · exact h.leave_cases rfl
  · simp only [step, visit]
    cases seen : index[d]? with
    | some id => exact .inl ⟨_, rfl, h.meet_move rfl seen⟩
    | none =>
      cases told : dependencies d with
      | ok found => exact .inl ⟨_, rfl, .descend rfl seen told⟩
      | error e => exact .inr ⟨_, rfl, .untold rfl seen told⟩

/-! ## Moves keep the parts consistent -/

namespace Consistent

theorem start (roots : List ν) : (Search.start roots).Consistent where
  index_iff node id := by simp [Search.start]
  size_low := rfl
  size_isOpen := rfl
  isOpen_iff id := by simp [Search.start]
  open_sorted := .nil
  path_sorted := .nil
  path_open _ h := by cases h
  low_le id := by simp [Search.start, lowOf]
  order_nodup := .nil
  mem_order_iff node := by simp [Search.start]

theorem node_unique (h : s.Consistent) {id' : Nat} (h1 : s.nodes[id]? = some node)
    (h2 : s.nodes[id']? = some node) : id = id' := by
  rw [← h.index_iff] at h1 h2
  exact Option.some.inj (h1.symm.trans h2)

theorem open_lt (h : s.Consistent) (open' : id ∈ s.openNodes) : id < s.nodes.size := by
  obtain ⟨node, named⟩ := h.exists_node open'
  exact (Array.getElem?_eq_some_iff.1 named).1

theorem index_lt (h : s.Consistent) (hi : s.index[node]? = some id) : id < s.nodes.size :=
  (Array.getElem?_eq_some_iff.1 ((h.index_iff node id).1 hi)).1

/-- Other bounds, none of them larger, other frames, all of them on the path, other roots and
another record of what was asked leave the parts consistent. -/
theorem update (h : s.Consistent) {roots : List ν} {asked : Array ν} {low : Array Nat}
    {frames : List (Frame ν)} (size : low.size = s.low.size)
    (lower : ∀ i, low[i]?.getD 0 ≤ s.lowOf i)
    (path : (frames.map (·.node)).Sublist s.path) :
    ({ s with roots, asked, low, frames } : Search ν).Consistent where
  index_iff := h.index_iff
  size_low := size.trans h.size_low
  size_isOpen := h.size_isOpen
  isOpen_iff := h.isOpen_iff
  open_sorted := h.open_sorted
  path_sorted := h.path_sorted.sublist path
  path_open id hid := h.path_open id (path.subset hid)
  low_le i := (lower i).trans (h.low_le i)
  order_nodup := h.order_nodup
  mem_order_iff := h.mem_order_iff

/-- The end of the path turns to one of its dependencies. -/
theorem look (h : s.Consistent) {d : ν} {pending : List ν} {selfLoop : Bool}
    {frames : List (Frame ν)} (path : s.frames = ⟨id, d :: pending, selfLoop⟩ :: frames)
    (asked : Array ν) :
    ({ s with frames := ⟨id, pending, selfLoop⟩ :: frames, asked } : Search ν).Consistent := by
  refine h.update rfl (fun _ => Nat.le_refl _) ?_
  rw [Search.path, path]
  exact .refl _

theorem enter (h : s.Consistent) (fresh : s.index[node]? = none) (pending : List ν) :
    (s.enter node pending).Consistent where
  index_iff other id := by
    have unnamed := h.index_iff node id
    have beyond := h.index_iff other s.nodes.size
    simp only [fresh, reduceCtorEq, false_iff] at unnamed
    simp only [Array.getElem?_eq_none (Nat.le_refl _), reduceCtorEq, iff_false] at beyond
    rw [index_enter, nodes_enter]
    by_cases same : node = other <;> by_cases last : id = s.nodes.size
    · simp [same, last]
    · subst same
      simp [last, unnamed, Ne.symm last]
    · subst last
      simp [same, beyond]
    · simp [same, last, h.index_iff]
  size_low := by simp [Search.enter, h.size_low]
  size_isOpen := by simp [Search.enter, h.size_isOpen]
  isOpen_iff id := by
    simp only [Search.enter, Array.getElem?_push, h.size_isOpen, List.mem_cons, ← h.isOpen_iff]
    by_cases last : id = s.nodes.size <;> simp [last]
  open_sorted := List.pairwise_cons.2 ⟨fun id hid => h.open_lt hid, h.open_sorted⟩
  path_sorted :=
    List.pairwise_cons.2 ⟨fun id hid => h.open_lt (h.path_open id hid), h.path_sorted⟩
  path_open id hid := by
    rcases List.mem_cons.1 hid with rfl | hid
    · exact List.mem_cons_self
    · exact List.mem_cons_of_mem _ (h.path_open id hid)
  low_le id := by
    rw [lowOf_enter h.size_low]
    split
    · exact Nat.le_refl _
    · exact h.low_le id
  order_nodup := h.order_nodup
  mem_order_iff other := by
    have lt_of_named : ∀ {id}, s.nodes[id]? = some other → id ≠ s.nodes.size := by
      rintro id named rfl
      simp at named
    simp only [nodes_enter]
    change other ∈ s.order ↔ ∃ i, _ ∧ i ∉ s.nodes.size :: s.openNodes
    simp only [List.mem_cons, not_or, h.mem_order_iff]
    constructor
    · rintro ⟨id, named, closed⟩
      exact ⟨id, by rw [if_neg (lt_of_named named), named], lt_of_named named, closed⟩
    · rintro ⟨id, named, last, closed⟩
      rw [if_neg last] at named
      exact ⟨id, named, closed⟩

theorem close (h : s.Consistent) {rest : List Nat} (alone : s.openNodes = id :: rest)
    (named : s.nodes[id]? = some node) (path : id ∉ s.path) :
    ({ s with
      isOpen := s.isOpen.setIfInBounds id false
      openNodes := rest
      order := s.order.push node } : Search ν).Consistent := by
  have sorted := h.open_sorted
  rw [alone, List.pairwise_cons] at sorted
  have closed : id ∉ rest := fun hid => Nat.lt_irrefl _ (sorted.1 id hid)
  have open_iff : ∀ {i}, i ≠ id → (i ∈ s.openNodes ↔ i ∈ rest) := by
    intro i other
    rw [alone, List.mem_cons]
    exact or_iff_right other
  have mem_order_iff : ∀ other, other ∈ s.order.push node ↔
      ∃ i, s.nodes[i]? = some other ∧ i ∉ rest := by
    intro other
    rw [Array.mem_push, h.mem_order_iff]
    constructor
    · rintro (⟨i, hi, shut⟩ | rfl)
      · refine ⟨i, hi, fun hr => shut ?_⟩
        rw [alone]
        exact List.mem_cons_of_mem _ hr
      · exact ⟨id, named, closed⟩
    · rintro ⟨i, hi, shut⟩
      by_cases same : i = id
      · subst same
        exact .inr (Option.some.inj (hi.symm.trans named))
      · exact .inl ⟨i, hi, mt (open_iff same).1 shut⟩
  refine ⟨h.index_iff, h.size_low, ?_, ?_, sorted.2, h.path_sorted, ?_, h.low_le, ?_,
    mem_order_iff⟩
  · rw [Array.size_setIfInBounds, h.size_isOpen]
  · intro i
    rw [Array.getElem?_setIfInBounds]
    by_cases same : id = i
    · subst same
      simp [closed]
    · rw [if_neg same, h.isOpen_iff, open_iff (Ne.symm same)]
  · intro i hi
    have other : i ≠ id := by
      rintro rfl
      exact path hi
    exact (open_iff other).1 (h.path_open i hi)
  · rw [Array.toList_push, List.nodup_append]
    refine ⟨h.order_nodup, by simp, ?_⟩
    rintro other ho last hl rfl
    obtain rfl := List.mem_singleton.1 hl
    obtain ⟨i, hi, shut⟩ := (h.mem_order_iff other).1 (Array.mem_toList_iff.1 ho)
    rw [h.node_unique hi named, alone] at shut
    exact shut List.mem_cons_self

theorem end_not_mem (h : s.Consistent) {frame : Frame ν} {frames : List (Frame ν)}
    (path : s.frames = frame :: frames) : frame.node ∉ frames.map (·.node) :=
  fun twice => Nat.lt_irrefl _ (h.lt_end path twice)

/-- Every move keeps the parts consistent. -/
theorem of_move (h : s.Consistent) (m : Move dependencies s s') : s'.Consistent := by
  cases m with
  | skip path next seen => exact h.update rfl (fun _ => Nat.le_refl _) (.refl _)
  | @start root roots found path next fresh told =>
    have turned : ({ s with roots, asked := s.asked.push root } : Search ν).Consistent :=
      h.update rfl (fun _ => Nat.le_refl _) (.refl _)
    exact turned.enter fresh found
  | meet path found size bound =>
    refine h.update size (fun i => ?_) ?_
    · rw [bound]
      split <;> omega
    · rw [Search.path, path]
      exact .refl _
  | @descend id d pending found selfLoop frames path fresh told =>
    have turned := h.look path (s.asked.push d)
    exact turned.enter fresh found
  | leave path leads size bound =>
    refine h.update size (fun i => ?_) ?_
    · rw [bound]
      split <;> omega
    · rw [Search.path, path]
      exact List.sublist_cons_self _ _
  | @close id frames low rest node path root alone named size bound =>
    have left : ({ s with low, frames } : Search ν).Consistent := by
      refine h.update size (fun i => Nat.le_of_eq (bound i)) ?_
      rw [Search.path, path]
      exact List.sublist_cons_self _ _
    exact left.close alone named (h.end_not_mem path)

end Consistent

end EquationSystem.Dependency.Search
