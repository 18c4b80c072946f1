import EquationSystem.Proofs.Dependency.DepthFirst
import EquationSystem.Proofs.Dependency.Sorting

/-!
# The search as a recursive depth-first search

In every state of a search the recursive one has met the nodes that were asked for their
dependencies, and has still to look at what waits in the frames of the path, leaving one node after
each, and then at the roots (`Search.Rest`). Every move is a step of the recursion, so that what is
left leads to the same end as the whole. A node is left by both where it is a component by itself.
Where it is not, it stays open off the path, and the search finds no order.
-/

namespace EquationSystem.Dependency

variable {ν ε : Type} [DecidableEq ν] [Hashable ν]
variable {dependencies : ν → Except ε (List ν)} {initial roots : List ν}

namespace Search

variable {s s' : Search ν} {node : ν} {whole : Walk ν}

/-- What is left of the recursive search leads to `whole`: the rest of every frame, each followed
by leaving its node, and then the roots. -/
def Rest (dependencies : ν → Except ε (List ν)) (nodes : Array ν) (roots : List ν)
    (whole : Walk ν) : List (Frame ν) → Walk ν → Prop
  | [], w => DepthFirst dependencies w roots whole
  | frame :: frames, w => ∃ below, DepthFirst dependencies w frame.pending below ∧
      Rest dependencies nodes roots whole frames
        ⟨below.met, below.left ++ nodes[frame.node]?.toList⟩

section
variable {nodes : Array ν} {frames : List (Frame ν)}

omit [DecidableEq ν] [Hashable ν] in
/-- Nodes that are numbered later have no part in what is left of the search. -/
theorem Rest.push {w : Walk ν} (numbered : ∀ frame ∈ frames, frame.node < nodes.size)
    (rest : Rest dependencies nodes roots whole frames w) :
    Rest dependencies (nodes.push node) roots whole frames w := by
  induction frames generalizing w with
  | nil => exact rest
  | cons frame frames ih =>
    rw [List.forall_mem_cons] at numbered
    obtain ⟨below, down, rest⟩ := rest
    refine ⟨below, down, ?_⟩
    rw [Array.getElem?_push_lt numbered.1, ← Array.getElem?_eq_getElem numbered.1]
    exact ih numbered.2 rest

omit [DecidableEq ν] [Hashable ν] in
/-- Entering a node is what the recursion does with it: what waits below the node comes first, then
the node is left, and then comes what was left before. -/
theorem Rest.enter {found met left : List ν} {below : Walk ν}
    (numbered : ∀ frame ∈ frames, frame.node < nodes.size) (told : dependencies node = .ok found)
    (down : DepthFirst dependencies ⟨met ++ [node], left⟩ (dependenciesOf dependencies node) below)
    (rest : Rest dependencies nodes roots whole frames ⟨below.met, below.left ++ [node]⟩) :
    Rest dependencies (nodes.push node) roots whole (⟨nodes.size, found, false⟩ :: frames)
      ⟨met ++ [node], left⟩ := by
  refine ⟨below, dependenciesOf_ok told ▸ down, ?_⟩
  rw [Array.getElem?_push_size]
  exact rest.push numbered

end

/-- The recursive search that ends with `whole` leads through the state. The nodes that it has left
are those of the order, unless one of them is still open. -/
def Resumes (dependencies : ν → Except ε (List ν)) (whole : Walk ν) (s : Search ν) : Prop :=
  ∃ left, Rest dependencies s.nodes s.roots whole s.frames ⟨s.asked.toList, left⟩ ∧
    (left = s.order.toList ∨ ∃ id ∈ s.openNodes, id ∉ s.path)

theorem Resumes.start (h : DepthFirst dependencies ⟨[], []⟩ roots whole) :
    Resumes dependencies whole (.start roots) :=
  ⟨[], h, .inl rfl⟩

theorem Consistent.frame_lt (h : s.Consistent) : ∀ frame ∈ s.frames, frame.node < s.nodes.size :=
  fun _ hf => h.open_lt (h.path_open _ (List.mem_map_of_mem hf))

/-- A node that is open off the path stays so when another is entered. -/
theorem Consistent.open_off_enter (h : s.Consistent) (node : ν) (found : List ν)
    (off : ∃ id ∈ s.openNodes, id ∉ s.path) :
    ∃ id ∈ (s.enter node found).openNodes, id ∉ (s.enter node found).path := by
  obtain ⟨id, hopen, off⟩ := off
  refine ⟨id, List.mem_cons_of_mem _ hopen, ?_⟩
  rw [path_enter, List.mem_cons, not_or]
  exact ⟨Nat.ne_of_lt (h.open_lt hopen), off⟩

section
variable (h : Exploring dependencies initial s)
include h

theorem Exploring.mem_asked_iff : node ∈ s.asked.toList ↔ ∃ id, s.index[node]? = some id := by
  simp only [h.traversal.asked_eq, h.consistent.index_iff, Array.mem_toList_iff,
    Array.mem_iff_getElem?]

theorem Exploring.not_mem_asked (fresh : s.index[node]? = none) : node ∉ s.asked.toList := by
  rw [h.mem_asked_iff, fresh]
  nofun

/-- Every move is a step of the recursive search. -/
theorem Resumes.of_move (hr : Resumes dependencies whole s) (m : Move dependencies s s') :
    Resumes dependencies whole s' := by
  obtain ⟨left, rest, same⟩ := hr
  cases m with
  | @skip root roots id path next seen =>
    rw [path, next] at rest
    refine ⟨left, ?_, same⟩
    rw [path]
    exact DepthFirst.of_seen rest (h.mem_asked_iff.2 ⟨id, seen⟩)
  | @start root roots found path next fresh told =>
    rw [path, next] at rest
    obtain ⟨below, down, rest⟩ := DepthFirst.exists_below rest (h.not_mem_asked fresh)
    have entered : Rest dependencies (s.nodes.push root) roots whole
        [⟨s.nodes.size, found, false⟩] ⟨s.asked.toList ++ [root], left⟩ :=
      Rest.enter (List.forall_mem_nil _) told down rest
    refine ⟨left, ?_, same.imp_right fun off => h.consistent.open_off_enter root found off⟩
    simpa [Search.enter, path] using entered
  | @meet id d pending selfLoop frames seen low path found size bound =>
    rw [path] at rest
    rw [Search.path, path] at same
    obtain ⟨below, down, rest⟩ := rest
    exact ⟨left, ⟨below, down.of_seen (h.mem_asked_iff.2 ⟨seen, found⟩), rest⟩, same⟩
  | @descend id d pending found selfLoop frames path fresh told =>
    have turned := h.consistent.look path (s.asked.push d)
    rw [path] at rest
    rw [Search.path, path] at same
    obtain ⟨after, walk, rest⟩ := rest
    obtain ⟨below, down, walk⟩ := walk.exists_below (h.not_mem_asked fresh)
    have entered := Rest.enter turned.frame_lt told down ⟨after, walk, rest⟩
    refine ⟨left, ?_, same.imp_right fun off => turned.open_off_enter d found off⟩
    simpa [Search.enter] using entered
  | @leave id selfLoop frames low path leads size bound =>
    rw [path] at rest
    obtain ⟨below, walk, rest⟩ := rest
    obtain rfl := DepthFirst.nil_iff.1 walk
    refine ⟨_, rest, .inr ⟨id, ?_, h.consistent.end_not_mem path⟩⟩
    exact h.consistent.path_open id (path_cons path ▸ List.mem_cons_self)
  | @close id frames low others node path root alone named size bound =>
    rw [path] at rest
    obtain ⟨below, walk, rest⟩ := rest
    obtain rfl := DepthFirst.nil_iff.1 walk
    refine ⟨_, rest, ?_⟩
    rcases same with rfl | ⟨other, hopen, off⟩
    · exact .inl (by simp [named])
    · rw [path_cons path, List.mem_cons, not_or] at off
      rw [alone] at hopen
      exact .inr ⟨other, (List.mem_cons.1 hopen).resolve_left off.1, off.2⟩

end

omit [DecidableEq ν] [Hashable ν] in
theorem Rest.met_mono {nodes : Array ν} {frames : List (Frame ν)} {w : Walk ν}
    (rest : Rest dependencies nodes roots whole frames w) : w.met <+: whole.met := by
  induction frames generalizing w with
  | nil => exact DepthFirst.met_mono rest
  | cons frame frames ih =>
    obtain ⟨below, walk, rest⟩ := rest
    have on := ih rest
    exact walk.met_mono.trans on

end Search

/-- What an outcome says about the recursive search that ends with `whole`. -/
structure Outcome.Refines (dependencies : ν → Except ε (List ν)) (outcome : Outcome ν ε)
    (whole : Walk ν) : Prop where
  asked_nodup : outcome.asked.Nodup
  asked_prefix : outcome.asked <+: whole.met
  of_ok : ∀ order, outcome.result = .ok order →
    outcome.asked = whole.met ∧ order = whole.left
  of_edge : ∀ e, outcome.result = .error (.edge e) → ∃ before node,
    outcome.asked = before ++ [node] ∧ dependencies node = .error e ∧
    ∀ other ∈ before, ∃ found, dependencies other = .ok found

namespace Search

variable {s : Search ν} {node : ν} {whole : Walk ν} {outcome : Outcome ν ε}

section
variable (h : Exploring dependencies initial s)
include h

theorem Exploring.asked_nodup : s.asked.toList.Nodup :=
  h.traversal.asked_eq ▸ h.consistent.nodes_nodup

theorem Exploring.told (hn : node ∈ s.asked.toList) : ∃ found, dependencies node = .ok found := by
  obtain ⟨id, hid⟩ := h.mem_asked_iff.1 hn
  obtain ⟨found, told, -⟩ := h.traversal.told ((h.consistent.index_iff node id).1 hid)
  exact ⟨found, told⟩

/-- A search that ends at a node whose dependencies cannot be told was told all others. -/
theorem Exploring.refines_of_untold {e : ε} (fresh : s.index[node]? = none)
    (untold : dependencies node = .error e) (met : s.asked.toList ++ [node] <+: whole.met) :
    Outcome.Refines dependencies ⟨(s.asked.push node).toList, .error (.edge e)⟩ whole := by
  have asked : (s.asked.push node).toList = s.asked.toList ++ [node] := Array.toList_push
  refine ⟨?_, asked ▸ met, nofun, fun e' same => ?_⟩
  · rw [asked, List.nodup_append]
    refine ⟨h.asked_nodup, List.nodup_singleton node, ?_⟩
    rintro other ho last hl rfl
    exact h.not_mem_asked fresh (List.mem_singleton.1 hl ▸ ho)
  · cases same
    exact ⟨s.asked.toList, node, asked, untold, fun other ho => h.told ho⟩

theorem Halt.refines (halt : Halt dependencies s outcome) (hr : Resumes dependencies whole s) :
    outcome.Refines dependencies whole := by
  obtain ⟨left, rest, same⟩ := hr
  cases halt with
  | ordered path next =>
    rw [path, next] at rest
    obtain rfl := DepthFirst.nil_iff.1 rest
    refine ⟨h.asked_nodup, List.prefix_rfl, fun order found => ?_, nofun⟩
    cases found
    refine ⟨rfl, (same.resolve_right ?_).symm⟩
    rw [h.openNodes_eq_nil path]
    nofun
  | untoldRoot path next fresh untold =>
    rw [path, next] at rest
    exact h.refines_of_untold fresh untold (rest.concat_prefix_met (h.not_mem_asked fresh))
  | untold path fresh untold =>
    rw [path] at rest
    obtain ⟨below, walk, rest⟩ := rest
    have met := walk.concat_prefix_met (h.not_mem_asked fresh)
    have on := rest.met_mono
    exact h.refines_of_untold fresh untold (met.trans on)
  | cycle path root split cyclic =>
    exact ⟨h.asked_nodup, rest.met_mono, nofun, nofun⟩

end

end Search

theorem sort_refines (finite : FiniteReach dependencies roots) :
    ∃ whole, DepthFirst dependencies ⟨[], []⟩ roots whole ∧
      (sort dependencies roots finite).Refines dependencies whole := by
  have ⟨support, inside, closed⟩ := finite
  obtain ⟨whole, hwhole⟩ := exists_depthFirst (w := ⟨[], []⟩) closed inside
  obtain ⟨t, ht, hr, halt⟩ := Search.exists_halt_of (Search.acc_of_within closed (.start roots)
    ⟨inside, nofun⟩) .start (Search.Resumes.start hwhole) fun h hr m => hr.of_move h m
  exact ⟨whole, hwhole, halt.refines ht hr⟩

/-- Nodes that are listed after their dependencies are ordered as they are listed. -/
theorem DependenciesFirst.sort_eq (first : DependenciesFirst dependencies roots)
    (finite : FiniteReach dependencies roots) :
    (sort dependencies roots finite).result = .ok roots.eraseDups := by
  obtain ⟨whole, hwhole, refines⟩ := sort_refines finite
  obtain rfl := hwhole.unique first.depthFirst
  have reached : ∀ {node}, ReachedFrom dependencies roots node → node ∈ roots.eraseDups := by
    rintro node ⟨root, hr, reaches⟩
    exact first.eraseDups.mem_of_reaches (List.mem_eraseDups.2 hr) reaches
  rcases h : (sort dependencies roots finite).result with (names | e) | order
  · have report := cycleReport_of_run _ h
    obtain ⟨member, hf, hm, -⟩ := report.component
    exact absurd (report.onCycle (List.mem_of_head? hf))
      (first.eraseDups.not_onCycle (nodup_eraseDups roots) (reached hm))
  · obtain ⟨node, hn, untold⟩ := untold_of_run _ h
    obtain ⟨before, after, split⟩ := List.append_of_mem (reached hn)
    obtain ⟨found, told, -⟩ := first.eraseDups before node after split
    rw [untold] at told
    cases told
  · rw [(refines.of_ok order h).2]

/-- The search asks no node twice, and asks in the order in which the recursive depth-first search
meets the nodes. Where it finds an order, that one has met just the nodes that were asked, and has
left them in that order. Where the dependencies of a node cannot be told, it is the first such
node that the recursive search meets, and nothing is asked after it. Nodes that are listed after
their dependencies keep their order, so that an order is the order of itself. -/
theorem sort_refines_depthFirst (finite : FiniteReach dependencies roots) :
    let outcome := sort dependencies roots finite
    ∃ whole, (∀ w, DepthFirst dependencies ⟨[], []⟩ roots w ↔ w = whole) ∧
      outcome.asked.Nodup ∧ outcome.asked <+: whole.met ∧
      (∀ order, outcome.result = .ok order → outcome.asked = whole.met ∧ order = whole.left) ∧
      (∀ e, outcome.result = .error (.edge e) → ∃ before node after,
        whole.met = before ++ node :: after ∧ outcome.asked = before ++ [node] ∧
        dependencies node = .error e ∧
        ∀ other ∈ before, ∃ found, dependencies other = .ok found) ∧
      (DependenciesFirst dependencies roots → outcome.result = .ok roots.eraseDups) ∧
      ∀ order, outcome.result = .ok order → ∃ finite' : FiniteReach dependencies order,
        (sort dependencies order finite').result = .ok order := by
  intro outcome
  obtain ⟨whole, hwhole, refines⟩ := sort_refines finite
  have only : ∀ w, DepthFirst dependencies ⟨[], []⟩ roots w ↔ w = whole := fun w =>
    ⟨fun h => h.unique hwhole, fun same => same ▸ hwhole⟩
  refine ⟨whole, only, refines.asked_nodup, refines.asked_prefix, refines.of_ok,
    fun e failed => ?_, fun first => first.sort_eq finite, fun order found => ?_⟩
  · obtain ⟨before, node, asked, untold, told⟩ := refines.of_edge e failed
    obtain ⟨after, met⟩ := refines.asked_prefix
    refine ⟨before, node, after, ?_, asked, untold, told⟩
    rw [← met, asked, List.append_assoc, List.singleton_append]
  · obtain ⟨nodup, first, -⟩ := order_of_run _ found
    refine ⟨first.finiteReach, ?_⟩
    rw [first.sort_eq, eraseDups_of_nodup nodup]

/-- Two nodes that depend on each other, and a third one below them that tells nothing: the nodes
listed after it are met by the recursive search only. -/
theorem sort_refines_interrupted : ∃ (deps : Nat → Except Unit (List Nat)) (finite : _),
    (sort deps [0, 3] finite).result = .error (.edge ()) ∧ ∃ whole,
      DepthFirst deps ⟨[], []⟩ [0, 3] whole ∧
      ∃ after, whole.met = [0, 1] ++ 2 :: after ∧ deps 2 = .error () := by
  let deps : Nat → Except Unit (List Nat)
    | 0 => .ok [1, 2]
    | 1 => .ok [0]
    | 2 => .error ()
    | _ => .ok []
  have finite : FiniteReach deps [0, 3] := by
    refine ⟨[0, 1, 2, 3], by decide, ?_⟩
    simp [Closed, deps]
  have search : (Search.start [0, 3]).within deps 20 =
      some ⟨[0, 1, 2], .error (.edge ())⟩ := by cbv
  have found := sort_of_within finite search
  obtain ⟨whole, hwhole, -, -, -, failed, -⟩ := sort_refines_depthFirst finite
  obtain ⟨before, node, after, met, asked, untold, -⟩ := failed () (by rw [found])
  rw [found] at asked
  obtain ⟨rfl, last⟩ := List.append_inj' (show [0, 1] ++ [2] = before ++ [node] from asked) rfl
  cases last
  exact ⟨deps, finite, by rw [found], whole, (hwhole whole).2 rfl, after, met, untold⟩

end EquationSystem.Dependency
