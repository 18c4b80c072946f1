import EquationSystem.Proofs.Dependency.Consistency

/-!
# What a search has looked at

Every node that was reached was asked for its dependencies once, they were told, and each of them
was met or waits on the path (`Search.Traversal`). A dependency that was met is numbered, and where
it is open it bounds the node that depends on it (`Search.Met`). Every move keeps this record.
-/

namespace EquationSystem.Dependency

variable {ν ε : Type} {node d : ν}

/-- The frame is `other` after it has looked at nothing but `node`. -/
structure Frame.Narrows (node : ν) (frame other : Frame ν) : Prop where
  node_eq : frame.node = other.node
  selfLoop_eq : frame.selfLoop = other.selfLoop
  sub : ∀ d ∈ frame.pending, d ∈ other.pending
  kept : ∀ d ∈ other.pending, d = node ∨ d ∈ frame.pending

theorem Frame.Narrows.refl (node : ν) (frame : Frame ν) : frame.Narrows node frame :=
  ⟨rfl, rfl, fun _ hd => hd, fun _ hd => .inr hd⟩

namespace Search

variable [DecidableEq ν] [Hashable ν]
variable {dependencies : ν → Except ε (List ν)} {initial : List ν} {s s' : Search ν} {id : Nat}

/-- The dependency `d` of the node of number `id` was reached, and bounds that node where `d` is
open. -/
def Met (s : Search ν) (id : Nat) (d : ν) : Prop :=
  ∃ k, s.index[d]? = some k ∧ (k ∈ s.openNodes → s.lowOf id ≤ k)

/-- What a search from the nodes `initial` has looked at. -/
structure Traversal (dependencies : ν → Except ε (List ν)) (initial : List ν) (s : Search ν) :
    Prop where
  asked_eq : s.asked = s.nodes
  roots_initial : ∀ root ∈ s.roots, root ∈ initial
  initial_roots : ∀ root ∈ initial, root ∈ s.roots ∨ ∃ k, s.index[root]? = some k
  reached : ∀ {id : Nat} {node : ν}, s.nodes[id]? = some node →
    ReachedFrom dependencies initial node
  told : ∀ {id : Nat} {node : ν}, s.nodes[id]? = some node →
    ∃ found, dependencies node = .ok found ∧
    ∀ d ∈ found, s.Met id d ∨ ∃ frame ∈ s.frames, frame.node = id ∧ d ∈ frame.pending
  pending_told : ∀ frame ∈ s.frames, ∀ {node : ν}, s.nodes[frame.node]? = some node →
    ∀ d ∈ frame.pending, DependsOn dependencies node d
  loop_of_selfLoop : ∀ frame ∈ s.frames, ∀ {node : ν}, s.nodes[frame.node]? = some node →
    frame.selfLoop = true → DependsOn dependencies node node
  selfLoop_of_loop : ∀ frame ∈ s.frames, ∀ {node : ν}, s.nodes[frame.node]? = some node →
    DependsOn dependencies node node → node ∈ frame.pending ∨ frame.selfLoop = true

/-- A dependency stays met when the bounds fall and no node is opened. -/
theorem Met.mono (h : s.Met id d) (index : s'.index = s.index)
    (opened : ∀ k ∈ s'.openNodes, k ∈ s.openNodes) (low : s'.lowOf id ≤ s.lowOf id) :
    s'.Met id d := by
  obtain ⟨k, hk, bound⟩ := h
  exact ⟨k, index ▸ hk, fun hopen => low.trans (bound (opened k hopen))⟩

theorem Met.enter (h : s.Met id d) (hc : s.Consistent) (hid : id < s.nodes.size)
    (fresh : s.index[node]? = none) (found : List ν) : (s.enter node found).Met id d := by
  obtain ⟨k, hk, bound⟩ := h
  have other : node ≠ d := by
    rintro rfl
    rw [fresh] at hk
    cases hk
  refine ⟨k, by rw [index_enter, if_neg other, hk], fun hopen => ?_⟩
  rw [lowOf_enter hc.size_low, if_neg (Nat.ne_of_lt hid)]
  exact bound ((List.mem_cons.1 hopen).resolve_left (Nat.ne_of_lt (hc.index_lt hk)))

/-- The node that is entered bounds no node before it. -/
theorem met_enter_self (hc : s.Consistent) (hid : id < s.nodes.size) (found : List ν) :
    (s.enter node found).Met id node := by
  refine ⟨s.nodes.size, by rw [index_enter, if_pos rfl], fun _ => ?_⟩
  rw [lowOf_enter hc.size_low, if_neg (Nat.ne_of_lt hid)]
  exact (hc.low_le id).trans (Nat.le_of_lt hid)

namespace Traversal

theorem start (roots : List ν) : Traversal dependencies roots (.start roots) where
  asked_eq := rfl
  roots_initial _ h := h
  initial_roots _ h := .inl h
  reached h := by simp [Search.start] at h
  told h := by simp [Search.start] at h
  pending_told _ h := by cases h
  loop_of_selfLoop _ h := by cases h
  selfLoop_of_loop _ h := by cases h

/-- Entering a node keeps the record, whatever frames and roots waited for the node. -/
theorem enter (h : Traversal dependencies initial s) (hc : s.Consistent) {found roots : List ν}
    {frames : List (Frame ν)} (fresh : s.index[node]? = none)
    (told : dependencies node = .ok found) (reached : ReachedFrom dependencies initial node)
    (roots_sub : ∀ root ∈ roots, root ∈ s.roots)
    (roots_kept : ∀ root ∈ s.roots, root = node ∨ root ∈ roots)
    (frames_sub : ∀ frame ∈ frames, ∃ other ∈ s.frames, frame.Narrows node other)
    (frames_kept : ∀ other ∈ s.frames, ∃ frame ∈ frames, frame.Narrows node other) :
    Traversal dependencies initial
      ({ s with roots, frames, asked := s.asked.push node }.enter node found) := by
  have hlt : ∀ {i : Nat} {u : ν}, s.nodes[i]? = some u → i < s.nodes.size := fun hu =>
    (Array.getElem?_eq_some_iff.1 hu).1
  have frame_lt : ∀ frame ∈ frames, frame.node < s.nodes.size := by
    intro frame hf
    obtain ⟨other, ho, narrows⟩ := frames_sub frame hf
    exact narrows.node_eq ▸ hc.open_lt (hc.path_open _ (List.mem_map_of_mem ho))
  refine ⟨?_, fun root hr => h.roots_initial root (roots_sub root hr), ?_, ?_, ?_, ?_, ?_, ?_⟩
  · simp [Search.enter, h.asked_eq]
  · intro root hr
    rw [index_enter]
    by_cases same : node = root
    · exact .inr ⟨_, if_pos same⟩
    · rw [if_neg same]
      exact (h.initial_roots root hr).imp_left fun hr =>
        (roots_kept root hr).resolve_left (Ne.symm same)
  · intro i u hu
    rw [nodes_enter] at hu
    split at hu
    · cases hu
      exact reached
    · exact h.reached hu
  · intro i u hu
    rw [nodes_enter] at hu
    split at hu
    · next last =>
      cases hu
      exact ⟨found, told, fun d hd => .inr ⟨_, List.mem_cons_self, last.symm, hd⟩⟩
    · obtain ⟨all, htold, hall⟩ := h.told hu
      refine ⟨all, htold, fun d hd => ?_⟩
      rcases hall d hd with met | ⟨other, ho, rfl, waits⟩
      · exact .inl (met.enter hc (hlt hu) fresh found)
      · obtain ⟨frame, hf, narrows⟩ := frames_kept other ho
        rcases narrows.kept d waits with rfl | waits
        · exact .inl (met_enter_self hc (hlt hu) found)
        · exact .inr ⟨frame, List.mem_cons_of_mem _ hf, narrows.node_eq, waits⟩
  · intro frame hf u hu
    rw [nodes_enter] at hu
    rcases List.mem_cons.1 hf with rfl | hf
    · rw [if_pos rfl] at hu
      cases hu
      exact fun d hd => ⟨found, told, hd⟩
    · rw [if_neg (Nat.ne_of_lt (frame_lt frame hf))] at hu
      obtain ⟨other, ho, narrows⟩ := frames_sub frame hf
      exact fun d hd => h.pending_told other ho (narrows.node_eq ▸ hu) d (narrows.sub d hd)
  · intro frame hf u hu loop
    rw [nodes_enter] at hu
    rcases List.mem_cons.1 hf with rfl | hf
    · cases loop
    · rw [if_neg (Nat.ne_of_lt (frame_lt frame hf))] at hu
      obtain ⟨other, ho, narrows⟩ := frames_sub frame hf
      exact h.loop_of_selfLoop other ho (narrows.node_eq ▸ hu) (narrows.selfLoop_eq ▸ loop)
  · intro frame hf u hu loop
    rw [nodes_enter] at hu
    rcases List.mem_cons.1 hf with rfl | hf
    · rw [if_pos rfl] at hu
      cases hu
      exact .inl (loop.mem told)
    · rw [if_neg (Nat.ne_of_lt (frame_lt frame hf))] at hu
      obtain ⟨other, ho, narrows⟩ := frames_sub frame hf
      rcases h.selfLoop_of_loop other ho (narrows.node_eq ▸ hu) loop with waits | looped
      · refine .inl ((narrows.kept u waits).resolve_left ?_)
        rintro rfl
        rw [(hc.index_iff u frame.node).2 hu] at fresh
        cases fresh
      · exact .inr (narrows.selfLoop_eq ▸ looped)

/-- Dropping a frame that waits for nothing keeps the record, where no node is opened and no bound
rises. -/
theorem drop (h : Traversal dependencies initial s) {selfLoop : Bool} {frames : List (Frame ν)}
    {low : Array Nat} {isOpen : Array Bool} {openNodes : List Nat} {order : Array ν}
    (path : s.frames = ⟨id, [], selfLoop⟩ :: frames) (opened : ∀ k ∈ openNodes, k ∈ s.openNodes)
    (lower : ∀ i, low[i]?.getD 0 ≤ s.lowOf i) :
    Traversal dependencies initial { s with low, frames, isOpen, openNodes, order } := by
  have sub : ∀ frame ∈ frames, frame ∈ s.frames := fun frame hf =>
    path ▸ List.mem_cons_of_mem _ hf
  refine ⟨h.asked_eq, h.roots_initial, h.initial_roots, h.reached, ?_,
    fun frame hf => h.pending_told frame (sub frame hf),
    fun frame hf => h.loop_of_selfLoop frame (sub frame hf),
    fun frame hf => h.selfLoop_of_loop frame (sub frame hf)⟩
  intro i u hu
  obtain ⟨found, htold, hall⟩ := h.told hu
  refine ⟨found, htold, fun d hd => ?_⟩
  rcases hall d hd with met | ⟨frame, hf, same, waits⟩
  · exact .inl (met.mono rfl opened (lower i))
  · rw [path, List.mem_cons] at hf
    rcases hf with rfl | hf
    · cases waits
    · exact .inr ⟨frame, hf, same, waits⟩

/-- Looking at a dependency that was reached before keeps the record. -/
theorem meet (h : Traversal dependencies initial s) (hc : s.Consistent) {pending : List ν}
    {selfLoop : Bool} {frames : List (Frame ν)} {seen : Nat} {low : Array Nat}
    (path : s.frames = ⟨id, d :: pending, selfLoop⟩ :: frames) (found : s.index[d]? = some seen)
    (lower : ∀ i, low[i]?.getD 0 ≤ s.lowOf i)
    (bound : seen ∈ s.openNodes → low[id]?.getD 0 ≤ seen) :
    Traversal dependencies initial
      { s with low, frames := ⟨id, pending, selfLoop || seen == id⟩ :: frames } := by
  have head : ⟨id, d :: pending, selfLoop⟩ ∈ s.frames := path ▸ List.mem_cons_self
  have tail : ∀ frame ∈ frames, frame ∈ s.frames := fun frame hf =>
    path ▸ List.mem_cons_of_mem _ hf
  refine ⟨h.asked_eq, h.roots_initial, h.initial_roots, h.reached, ?_, ?_, ?_, ?_⟩
  · intro i u hu
    obtain ⟨all, htold, hall⟩ := h.told hu
    refine ⟨all, htold, fun d' hd' => ?_⟩
    rcases hall d' hd' with met | ⟨frame, hf, rfl, waits⟩
    · exact .inl (met.mono rfl (fun _ hk => hk) (lower i))
    · rw [path, List.mem_cons] at hf
      rcases hf with rfl | hf
      · rcases List.mem_cons.1 waits with rfl | waits
        · exact .inl ⟨seen, found, bound⟩
        · exact .inr ⟨_, List.mem_cons_self, rfl, waits⟩
      · exact .inr ⟨frame, List.mem_cons_of_mem _ hf, rfl, waits⟩
  · intro frame hf u hu d' hd'
    rcases List.mem_cons.1 hf with rfl | hf
    · exact h.pending_told _ head hu d' (List.mem_cons_of_mem _ hd')
    · exact h.pending_told frame (tail frame hf) hu d' hd'
  · intro frame hf u hu looped
    rcases List.mem_cons.1 hf with rfl | hf
    · rcases Bool.or_eq_true_iff.1 looped with looped | same
      · exact h.loop_of_selfLoop _ head hu looped
      · obtain rfl := beq_iff_eq.1 same
        obtain rfl : d = u := Option.some.inj (((hc.index_iff d seen).1 found).symm.trans hu)
        exact h.pending_told _ head hu d List.mem_cons_self
    · exact h.loop_of_selfLoop frame (tail frame hf) hu looped
  · intro frame hf u hu loop
    rcases List.mem_cons.1 hf with rfl | hf
    · rcases h.selfLoop_of_loop _ head hu loop with waits | looped
      · rcases List.mem_cons.1 waits with rfl | waits
        · rw [(hc.index_iff u id).2 hu] at found
          cases found
          exact .inr (by simp)
        · exact .inl waits
      · exact .inr (by simp [show selfLoop = true from looped])
    · exact h.selfLoop_of_loop frame (tail frame hf) hu loop

/-- The node at the end of the path depends on what it looks at next. -/
theorem edge_of_path (h : Traversal dependencies initial s) (hc : s.Consistent)
    {pending : List ν} {selfLoop : Bool} {frames : List (Frame ν)}
    (path : s.frames = ⟨id, d :: pending, selfLoop⟩ :: frames) :
    ∃ u, s.nodes[id]? = some u ∧ DependsOn dependencies u d := by
  have head : ⟨id, d :: pending, selfLoop⟩ ∈ s.frames := path ▸ List.mem_cons_self
  obtain ⟨u, hu⟩ := hc.exists_node (hc.path_open id (List.mem_map_of_mem head))
  exact ⟨u, hu, h.pending_told _ head hu d List.mem_cons_self⟩

theorem of_move (h : Traversal dependencies initial s) (hc : s.Consistent)
    (m : Move dependencies s s') : Traversal dependencies initial s' := by
  cases m with
  | @skip root roots k path next seen =>
    refine { h with roots_initial := ?_, initial_roots := ?_ }
    · exact fun r hr => h.roots_initial r (next ▸ List.mem_cons_of_mem _ hr)
    · intro r hr
      rcases h.initial_roots r hr with hr | hr
      · rw [next, List.mem_cons] at hr
        rcases hr with rfl | hr
        · exact .inr ⟨k, seen⟩
        · exact .inl hr
      · exact .inr hr
  | @start root roots found path next fresh told =>
    have hmem : root ∈ s.roots := next ▸ List.mem_cons_self
    have narrows : ∀ frame ∈ s.frames, ∃ other ∈ s.frames, frame.Narrows root other := by
      rw [path]
      simp
    refine h.enter hc fresh told (.of_mem (h.roots_initial root hmem)) ?_ ?_ narrows ?_
    · exact fun r hr => next ▸ List.mem_cons_of_mem _ hr
    · exact fun r hr => List.mem_cons.1 (next ▸ hr)
    · rw [path]
      simp
  | @meet id d pending selfLoop frames seen low path found size bound =>
    refine h.meet hc path found (fun i => ?_) fun hopen => ?_
    · rw [bound]
      split <;> omega
    · rw [bound, if_pos ⟨rfl, hopen⟩]
      exact Nat.min_le_left _ _
  | @descend id d pending found selfLoop frames path fresh told =>
    obtain ⟨u, hu, edge⟩ := h.edge_of_path hc path
    have narrows : Frame.Narrows d ⟨id, pending, selfLoop⟩ ⟨id, d :: pending, selfLoop⟩ :=
      ⟨rfl, rfl, fun _ => List.mem_cons_of_mem _, fun _ => List.mem_cons.1⟩
    refine h.enter hc fresh told ((h.reached hu).dependency edge) (fun _ hr => hr)
      (fun _ hr => .inr hr) ?_ ?_
    · intro frame hf
      rw [path]
      rcases List.mem_cons.1 hf with rfl | hf
      · exact ⟨_, List.mem_cons_self, narrows⟩
      · exact ⟨frame, List.mem_cons_of_mem _ hf, .refl d frame⟩
    · intro other ho
      rw [path] at ho
      rcases List.mem_cons.1 ho with rfl | ho
      · exact ⟨_, List.mem_cons_self, narrows⟩
      · exact ⟨other, List.mem_cons_of_mem _ ho, .refl d other⟩
  | @leave id selfLoop frames low path leads size bound =>
    refine h.drop path (fun _ hk => hk) fun i => ?_
    rw [bound]
    split <;> omega
  | @close id frames low rest node path root alone named size bound =>
    exact h.drop path (fun k hk => alone ▸ List.mem_cons_of_mem _ hk) fun i =>
      Nat.le_of_eq (bound i)

end Traversal

end Search

end EquationSystem.Dependency
