import EquationSystem.Dependency.Order
import Mathlib.Data.Set.Finite.List
import Mathlib.Logic.Relation

/-!
# The graph of dependencies

`DependsOn` is the relation between a node and its dependencies, where they can be told. A node on
a cycle depends on itself over one or more steps (`OnCycle`). A list in which every node stands
after its dependencies (`DependenciesFirst`) holds all that its members lead to, and none of its
members lies on a cycle.
-/

namespace EquationSystem.Dependency

open Relation

variable {ν ε : Type}

section
variable (dependencies : ν → Except ε (List ν))

/-- The dependencies of `node` can be told, and `d` is one of them. -/
def DependsOn (node d : ν) : Prop := ∃ found, dependencies node = .ok found ∧ d ∈ found

/-- `node` leads to `d` over any number of dependencies, or is `d`. -/
def Reaches : ν → ν → Prop := ReflTransGen (DependsOn dependencies)

/-- One of `roots` leads to `node`. -/
def ReachedFrom (roots : List ν) (node : ν) : Prop := ∃ root ∈ roots, Reaches dependencies root node

/-- `node` leads back to itself over at least one dependency. -/
def OnCycle (node : ν) : Prop := TransGen (DependsOn dependencies) node node

/-- The dependencies of every node can be told and stand in the list before the node. -/
def DependenciesFirst (order : List ν) : Prop :=
  ∀ before node after, order = before ++ node :: after →
    ∃ found, dependencies node = .ok found ∧ ∀ d ∈ found, d ∈ before

end

/-! ## Lists without repeats -/

section
variable {α : Type} [BEq α] [LawfulBEq α]

theorem eraseDups_concat (xs : List α) (x : α) :
    (xs ++ [x]).eraseDups = if x ∈ xs then xs.eraseDups else xs.eraseDups ++ [x] := by
  rw [List.eraseDups_append]
  by_cases known : x ∈ xs <;> simp [List.removeAll, List.eraseDups_cons, known]

theorem nodup_eraseDups (xs : List α) : xs.eraseDups.Nodup := by
  induction xs using List.reverseRecOn with
  | nil => exact .nil
  | append_singleton xs x ih =>
    rw [eraseDups_concat]
    split
    · exact ih
    · next new => exact List.nodup_append_comm.1 (ih.cons (mt List.mem_eraseDups.1 new))

theorem eraseDups_of_nodup {xs : List α} (h : xs.Nodup) : xs.eraseDups = xs := by
  induction xs using List.reverseRecOn with
  | nil => exact List.eraseDups_nil
  | append_singleton xs x ih =>
    obtain ⟨new, nodup⟩ := List.nodup_cons.1 (List.nodup_append_comm.1 h)
    rw [eraseDups_concat, if_neg (by simpa using new), ih (by simpa using nodup)]

end

/-! ## Nodes and what they lead to -/

variable {dependencies : ν → Except ε (List ν)} {roots order : List ν} {node d : ν}

theorem DependsOn.mem {found : List ν} (h : DependsOn dependencies node d)
    (hf : dependencies node = .ok found) : d ∈ found := by
  obtain ⟨found', hf', hd⟩ := h
  rw [hf] at hf'
  cases hf'
  exact hd

theorem ReachedFrom.trans (h : ReachedFrom dependencies roots node)
    (hd : Reaches dependencies node d) : ReachedFrom dependencies roots d :=
  let ⟨root, hr, h⟩ := h
  ⟨root, hr, ReflTransGen.trans h hd⟩

theorem ReachedFrom.dependency (h : ReachedFrom dependencies roots node)
    (hd : DependsOn dependencies node d) : ReachedFrom dependencies roots d :=
  h.trans (.single hd)

theorem ReachedFrom.of_mem (h : node ∈ roots) : ReachedFrom dependencies roots node :=
  ⟨node, h, .refl⟩

/-- A list that holds the roots, and with every node its dependencies, holds all they lead to. -/
theorem Closed.mem_of_reachedFrom {support : List ν} (h : Closed dependencies support)
    (hroots : ∀ root ∈ roots, root ∈ support) (hn : ReachedFrom dependencies roots node) :
    node ∈ support := by
  obtain ⟨root, hr, hn⟩ := hn
  induction hn with
  | refl => exact hroots root hr
  | tail _ hd ih =>
    obtain ⟨found, hf, hd⟩ := hd
    exact h _ ih found hf _ hd

/-- A finite set that holds the roots and is closed under dependencies exists exactly where the
set of all that is reached is finite. -/
theorem finiteReach_iff :
    FiniteReach dependencies roots ↔ {node | ReachedFrom dependencies roots node}.Finite := by
  constructor
  · rintro ⟨support, hroots, hclosed⟩
    exact support.finite_toSet.subset fun _ hn => hclosed.mem_of_reachedFrom hroots hn
  · intro h
    obtain ⟨support, hs⟩ := h.exists_finset_coe
    have mem_iff : ∀ {node}, node ∈ support.toList ↔ ReachedFrom dependencies roots node := by
      intro node
      rw [Finset.mem_toList, ← Finset.mem_coe, hs]
      rfl
    exact ⟨support.toList, fun root hr => mem_iff.2 (.of_mem hr), fun node hn found hf d hd =>
      mem_iff.2 ((mem_iff.1 hn).dependency ⟨found, hf, hd⟩)⟩

namespace DependenciesFirst

theorem nil : DependenciesFirst dependencies [] := by
  intro before node after h
  simp at h

/-- A node can be appended when all its dependencies are there. -/
theorem concat {found : List ν} (h : DependenciesFirst dependencies order)
    (hf : dependencies node = .ok found) (hd : ∀ d ∈ found, d ∈ order) :
    DependenciesFirst dependencies (order ++ [node]) := by
  intro before other after split
  rcases List.eq_nil_or_concat after with rfl | ⟨after, last, rfl⟩
  · obtain ⟨rfl, same⟩ := List.append_inj' split rfl
    cases same
    exact ⟨found, hf, hd⟩
  · rw [List.concat_eq_append, ← List.cons_append, ← List.append_assoc] at split
    exact h before other after (List.append_inj' split rfl).1

/-- What a node of the list leads to over at least one dependency stands before the node. -/
theorem mem_before (h : DependenciesFirst dependencies order)
    (hd : TransGen (DependsOn dependencies) node d) :
    ∀ {before after}, order = before ++ node :: after → d ∈ before := by
  induction hd using TransGen.head_induction_on with
  | single hd =>
    intro before after split
    obtain ⟨found, hf, hmem⟩ := h before _ after split
    exact hmem _ (hd.mem hf)
  | head hc _ ih =>
    intro before after split
    obtain ⟨found, hf, hmem⟩ := h before _ after split
    obtain ⟨first, rest, rfl⟩ := List.append_of_mem (hmem _ (hc.mem hf))
    rw [List.append_assoc, List.cons_append] at split
    exact List.mem_append_left _ (ih split)

theorem mem_of_reaches (h : DependenciesFirst dependencies order) (hn : node ∈ order)
    (hd : Reaches dependencies node d) : d ∈ order := by
  rcases reflTransGen_iff_eq_or_transGen.1 hd with rfl | hd
  · exact hn
  · obtain ⟨before, after, rfl⟩ := List.append_of_mem hn
    exact List.mem_append_left _ (h.mem_before hd rfl)

/-- The list holds all that its members lead to. -/
theorem finiteReach (h : DependenciesFirst dependencies order) :
    FiniteReach dependencies order := by
  refine ⟨order, fun _ hn => hn, fun node hn found hf d hd => ?_⟩
  obtain ⟨before, after, rfl⟩ := List.append_of_mem hn
  obtain ⟨found', hf', below⟩ := h before node after rfl
  rw [hf] at hf'
  cases hf'
  exact List.mem_append_left _ (below d hd)

/-- A node that stands after all its dependencies, once, is on no cycle. -/
theorem not_onCycle (h : DependenciesFirst dependencies order) (hnodup : order.Nodup)
    (hn : node ∈ order) : ¬OnCycle dependencies node := by
  intro cycle
  obtain ⟨before, after, rfl⟩ := List.append_of_mem hn
  have twice := h.mem_before cycle rfl
  rw [List.nodup_append] at hnodup
  exact hnodup.2.2 _ twice _ List.mem_cons_self rfl

end DependenciesFirst

/-- What the report of a cycle says: `names` is a strongly connected component with a cycle in it,
listed as its nodes were asked for their dependencies, and all that it leads to was explored and
holds no other cycle. -/
structure CycleReport (dependencies : ν → Except ε (List ν)) (roots asked names : List ν) :
    Prop where
  asked_nodup : asked.Nodup
  sublist : names.Sublist asked
  component : ∃ first, names.head? = some first ∧ ReachedFrom dependencies roots first ∧
    ∀ node, node ∈ names ↔ Reaches dependencies first node ∧ Reaches dependencies node first
  cyclic : 1 < names.length ∨ ∃ only, names = [only] ∧ DependsOn dependencies only only
  told : ∀ member ∈ names, ∀ node, Reaches dependencies member node →
    node ∈ asked ∧ ∃ found, dependencies node = .ok found
  outside : ∀ member ∈ names, ∀ node, Reaches dependencies member node → node ∉ names →
    ¬OnCycle dependencies node

namespace CycleReport

theorem nodup {asked names : List ν}
    (h : CycleReport dependencies roots asked names) : names.Nodup :=
  h.asked_nodup.sublist h.sublist

/-- Every reported node lies on a cycle. -/
theorem onCycle {asked names : List ν} {member : ν}
    (h : CycleReport dependencies roots asked names) (hm : member ∈ names) :
    OnCycle dependencies member := by
  obtain ⟨first, -, -, mem_iff⟩ := h.component
  rcases h.cyclic with several | ⟨only, rfl, loop⟩
  · obtain ⟨other, ho, different⟩ : ∃ other ∈ names, other ≠ member := by
      by_contra alone
      push Not at alone
      have := List.nodup_replicate.1 (List.eq_replicate_of_mem alone ▸ h.nodup)
      omega
    have hm := (mem_iff member).1 hm
    have ho := (mem_iff other).1 ho
    have away := Relation.ReflTransGen.trans hm.2 ho.1
    have back := Relation.ReflTransGen.trans ho.2 hm.1
    exact ((Relation.reflTransGen_iff_eq_or_transGen.1 away).resolve_left different).trans_left back
  · obtain rfl := List.mem_singleton.1 hm
    exact .single loop

end CycleReport

end EquationSystem.Dependency
