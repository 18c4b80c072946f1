import EquationSystem.Proofs.Dependency.Graph
import Mathlib.Data.Finset.Card
import Mathlib.Data.List.Infix

/-!
# The recursive depth-first search

The search for an order keeps a path of its own. `DepthFirst` is the plain recursion behind it:
nodes are looked at as they are listed; a node that was not met before is met, then its
dependencies are looked at, and then it is left. The recursion knows no components, no bounds and
no errors; a node whose dependencies cannot be told counts as having none. It is given by its
evaluation, which has one result at most (`DepthFirst.unique`), and has one where finitely many
nodes are reached (`exists_depthFirst`).
-/

namespace EquationSystem.Dependency

variable {ν ε : Type}

/-- The nodes that were met and those that were left, each in this order. -/
structure Walk (ν : Type) where
  met : List ν
  left : List ν

/-- The dependencies of a node, or none where they cannot be told. -/
def dependenciesOf (dependencies : ν → Except ε (List ν)) (node : ν) : List ν :=
  match dependencies node with
  | .ok found => found
  | .error _ => []

variable {dependencies : ν → Except ε (List ν)} {node : ν} {nodes order : List ν}
  {w w' w'' : Walk ν}

theorem dependenciesOf_ok {found : List ν} (told : dependencies node = .ok found) :
    dependenciesOf dependencies node = found := by
  rw [dependenciesOf, told]

/-- Looking at nodes one after the other, and below every new one at its dependencies, leads from
a walk to another. -/
inductive DepthFirst (dependencies : ν → Except ε (List ν)) : Walk ν → List ν → Walk ν → Prop
  | done {w : Walk ν} : DepthFirst dependencies w [] w
  | seen {w w' : Walk ν} {node : ν} {nodes : List ν} (known : node ∈ w.met)
      (rest : DepthFirst dependencies w nodes w') : DepthFirst dependencies w (node :: nodes) w'
  | new {w below w' : Walk ν} {node : ν} {nodes : List ν} (fresh : node ∉ w.met)
      (down : DepthFirst dependencies ⟨w.met ++ [node], w.left⟩ (dependenciesOf dependencies node)
        below)
      (rest : DepthFirst dependencies ⟨below.met, below.left ++ [node]⟩ nodes w') :
      DepthFirst dependencies w (node :: nodes) w'

namespace DepthFirst

theorem nil_iff : DepthFirst dependencies w [] w' ↔ w' = w := by
  refine ⟨fun h => ?_, fun same => same ▸ .done⟩
  cases h
  rfl

theorem of_seen (h : DepthFirst dependencies w (node :: nodes) w') (known : node ∈ w.met) :
    DepthFirst dependencies w nodes w' := by
  cases h with
  | seen _ rest => exact rest
  | new fresh => exact (fresh known).elim

theorem exists_below (h : DepthFirst dependencies w (node :: nodes) w') (fresh : node ∉ w.met) :
    ∃ below, DepthFirst dependencies ⟨w.met ++ [node], w.left⟩ (dependenciesOf dependencies node)
        below ∧
      DepthFirst dependencies ⟨below.met, below.left ++ [node]⟩ nodes w' := by
  cases h with
  | seen known => exact (fresh known).elim
  | new _ down rest => exact ⟨_, down, rest⟩

theorem unique (h : DepthFirst dependencies w nodes w') (h' : DepthFirst dependencies w nodes w'') :
    w' = w'' := by
  induction h generalizing w'' with
  | done => exact (nil_iff.1 h').symm
  | seen known _ ih => exact ih (h'.of_seen known)
  | new fresh _ _ ihDown ihRest =>
    obtain ⟨below, down, rest⟩ := h'.exists_below fresh
    obtain rfl := ihDown down
    exact ihRest rest

theorem of_forall_mem (h : ∀ node ∈ nodes, node ∈ w.met) : DepthFirst dependencies w nodes w := by
  induction nodes with
  | nil => exact .done
  | cons node nodes ih =>
    rw [List.forall_mem_cons] at h
    exact .seen h.1 (ih h.2)

/-- What was met stays met, in its order. -/
theorem met_mono (h : DepthFirst dependencies w nodes w') : w.met <+: w'.met := by
  induction h with
  | done => exact List.prefix_rfl
  | seen _ _ ih => exact ih
  | new _ _ _ down on => exact ((List.prefix_append _ _).trans down).trans on

/-- A new node that is looked at first is met next. -/
theorem concat_prefix_met (fresh : node ∉ w.met)
    (h : DepthFirst dependencies w (node :: nodes) w') : w.met ++ [node] <+: w'.met := by
  obtain ⟨below, down, rest⟩ := h.exists_below fresh
  exact down.met_mono.trans rest.met_mono

end DepthFirst

variable [DecidableEq ν]

/-- The number of nodes of `support` that are not met. -/
def Walk.unmet (support : List ν) (w : Walk ν) : Nat := (support.toFinset \ w.met.toFinset).card

theorem Walk.unmet_lt {support : List ν} (inside : node ∈ support) (new : node ∉ w.met)
    (grows : w.met ++ [node] <+: w'.met) : w'.unmet support < w.unmet support := by
  apply Finset.card_lt_card
  have met : ∀ {other}, other ∈ w.met ++ [node] → other ∈ w'.met := fun h => grows.subset h
  refine (Finset.ssubset_iff_of_subset fun other h => ?_).2 ⟨node, ?_, ?_⟩
  · simp only [Finset.mem_sdiff, List.mem_toFinset] at h ⊢
    exact ⟨h.1, fun hw => h.2 (met (List.mem_append_left _ hw))⟩
  · simp [inside, new]
  · simp [met (List.mem_append_right _ (List.mem_singleton_self node))]

/-- The search ends where a finite set holds the nodes and with every node its dependencies: every
node that is met is one less of that set to be met. -/
theorem exists_depthFirst {support : List ν} (closed : Closed dependencies support)
    (inside : ∀ node ∈ nodes, node ∈ support) : ∃ w', DepthFirst dependencies w nodes w' := by
  induction hn : w.unmet support using Nat.strongRecOn generalizing w nodes with
  | ind n ih =>
    induction nodes with
    | nil => exact ⟨w, .done⟩
    | cons node nodes ihn =>
      rw [List.forall_mem_cons] at inside
      by_cases known : node ∈ w.met
      · obtain ⟨w', rest⟩ := ihn inside.2
        exact ⟨w', .seen known rest⟩
      · have hdeps : ∀ d ∈ dependenciesOf dependencies node, d ∈ support := by
          intro d hd
          unfold dependenciesOf at hd
          split at hd
          · next found hf => exact closed node inside.1 found hf d hd
          · cases hd
        have entered : (⟨w.met ++ [node], w.left⟩ : Walk ν).unmet support < n :=
          hn ▸ Walk.unmet_lt inside.1 known List.prefix_rfl
        obtain ⟨below, down⟩ := ih _ entered hdeps rfl
        have left : (⟨below.met, below.left ++ [node]⟩ : Walk ν).unmet support < n :=
          hn ▸ Walk.unmet_lt inside.1 known down.met_mono
        obtain ⟨w', rest⟩ := ih _ left inside.2 rfl
        exact ⟨w', .new known down rest⟩

/-! ## Nodes that are in order -/

namespace DependenciesFirst

omit [DecidableEq ν] in
theorem of_append {after : List ν} (h : DependenciesFirst dependencies (order ++ after)) :
    DependenciesFirst dependencies order := by
  rintro before node rest rfl
  exact h before node (rest ++ after) (by simp)

theorem eraseDups (h : DependenciesFirst dependencies order) :
    DependenciesFirst dependencies order.eraseDups := by
  induction order using List.reverseRecOn with
  | nil => exact .nil
  | append_singleton order node ih =>
    obtain ⟨found, hf, below⟩ := h order node [] rfl
    rw [eraseDups_concat]
    split
    · exact ih h.of_append
    · exact (ih h.of_append).concat hf fun d hd => List.mem_eraseDups.2 (below d hd)

/-- Nodes that are listed after their dependencies are met and left as they are listed, where they
are listed for the first time. -/
theorem depthFirst (h : DependenciesFirst dependencies order) :
    DepthFirst dependencies ⟨[], []⟩ order ⟨order.eraseDups, order.eraseDups⟩ := by
  have key : ∀ after before, order = before ++ after →
      DepthFirst dependencies ⟨before.eraseDups, before.eraseDups⟩ after
        ⟨order.eraseDups, order.eraseDups⟩ := by
    intro after
    induction after with
    | nil =>
      intro before split
      rw [split, List.append_nil]
      exact .done
    | cons node after ih =>
      intro before split
      have next := ih (before ++ [node]) (by simpa using split)
      rw [eraseDups_concat] at next
      by_cases known : node ∈ before
      · rw [if_pos known] at next
        exact .seen (List.mem_eraseDups.2 known) next
      · obtain ⟨found, told, below⟩ := h before node after split
        rw [if_neg known] at next
        have met : ∀ d ∈ dependenciesOf dependencies node, d ∈ before.eraseDups ++ [node] := by
          intro d hd
          rw [dependenciesOf_ok told] at hd
          exact List.mem_append_left _ (List.mem_eraseDups.2 (below d hd))
        exact .new (mt List.mem_eraseDups.1 known) (.of_forall_mem met) next
  exact key order [] rfl

end DependenciesFirst

end EquationSystem.Dependency
