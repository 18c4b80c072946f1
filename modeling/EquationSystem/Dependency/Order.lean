import EquationSystem.Dependency.Search

/-!
# Order of dependencies

Where a finite set of nodes holds the roots and with every node its dependencies, the search ends:
every step reaches another node of that set, or looks at one more dependency or root, or shortens
the path. `sort` runs the search to its end.
-/

namespace EquationSystem.Dependency

variable {ν ε : Type} [DecidableEq ν] [Hashable ν]

/-- The set `support` holds with every node the dependencies that can be told. -/
def Closed (dependencies : ν → Except ε (List ν)) (support : List ν) : Prop :=
  ∀ node ∈ support, ∀ found, dependencies node = .ok found → ∀ d ∈ found, d ∈ support

/-- Finitely many nodes are reached from `roots`. -/
def FiniteReach (dependencies : ν → Except ε (List ν)) (roots : List ν) : Prop :=
  ∃ support : List ν, (∀ root ∈ roots, root ∈ support) ∧ Closed dependencies support

namespace Search

/-- All that the search has yet to look at is in `support`. -/
def Within (support : List ν) (s : Search ν) : Prop :=
  (∀ root ∈ s.roots, root ∈ support) ∧
    ∀ frame ∈ s.frames, ∀ node ∈ frame.pending, node ∈ support

def unreached (support : List ν) (s : Search ν) : Nat :=
  (support.filter fun node => !s.index.contains node).length

/-- The number of steps that can be taken before another node is reached. -/
def backlog (s : Search ν) : Nat :=
  s.roots.length + s.frames.foldr (fun frame steps => frame.pending.length + 1 + steps) 0

def Follows (dependencies : ν → Except ε (List ν)) (s' s : Search ν) : Prop :=
  s.step dependencies = .next s'

/-- A step that keeps the reached nodes and shortens the backlog, or reaches a node of `support`. -/
def Progress (support : List ν) (s s' : Search ν) : Prop :=
  s'.Within support ∧
    (s'.unreached support < s.unreached support ∨
      s'.unreached support = s.unreached support ∧ s'.backlog < s.backlog)

theorem unreached_enter_lt {support : List ν} {s : Search ν} {node : ν} (pending : List ν)
    (mem : node ∈ support) (new : s.index.contains node = false) :
    (s.enter node pending).unreached support < s.unreached support := by
  unfold unreached enter
  simp only [Std.HashMap.contains_insert]
  rw [← List.countP_eq_length_filter, ← List.countP_eq_length_filter]
  induction support with
  | nil => cases mem
  | cons other support ih =>
    have le : List.countP (fun m => !(node == m || s.index.contains m)) support ≤
        List.countP (fun m => !s.index.contains m) support :=
      List.countP_mono_left fun m _ h => by simp_all
    simp only [List.countP_cons]
    rcases List.mem_cons.1 mem with rfl | mem
    · simp only [beq_self_eq_true, Bool.true_or, Bool.not_true, Bool.false_eq_true, ↓reduceIte, new,
        Bool.not_false]
      omega
    · have less := ih mem
      have each : (if (!(node == other || s.index.contains other)) = true then 1 else 0) ≤
          (if (!s.index.contains other) = true then 1 else 0) := by
        cases s.index.contains other <;> simp
        split <;> omega
      omega

/-- Entering a node is progress, whatever was put off for it. -/
theorem progress_visit {dependencies : ν → Except ε (List ν)} {support : List ν}
    (closed : Closed dependencies support) {s t s' : Search ν} {node : ν}
    (within : t.Within support) (same : t.index = s.index) (mem : node ∈ support)
    (new : s.index.contains node = false) (h : t.visit dependencies node = .next s') :
    Progress support s s' := by
  unfold visit at h
  cases found : dependencies node with
  | error e => simp [found, finish] at h
  | ok pending =>
    simp only [found, Step.next.injEq] at h
    subst h
    refine ⟨⟨within.1, ?_⟩, .inl ?_⟩
    · intro frame hframe d hd
      rcases List.mem_cons.1 hframe with rfl | hframe
      · exact closed node mem pending found d hd
      · exact within.2 frame hframe d hd
    · have := unreached_enter_lt (s := { t with asked := t.asked.push node }) pending mem
        (by simpa [same] using new)
      simpa [unreached, same] using this

theorem progress_leave {support : List ν} {s t s' : Search ν} {frame : Frame ν}
    (within : t.Within support) (same : t.index = s.index) (shorter : t.backlog < s.backlog)
    (h : (t.leave frame : Step ν ε) = .next s') : Progress support s s' := by
  have passOn : ∀ id, (t.passOn id).roots = t.roots ∧ (t.passOn id).frames = t.frames ∧
      (t.passOn id).index = t.index := by
    intro id
    unfold passOn lower
    split <;> exact ⟨rfl, rfl, rfl⟩
  have keeps : s'.roots = t.roots ∧ s'.frames = t.frames ∧ s'.index = t.index := by
    unfold leave at h
    simp only at h
    split at h
    · unfold close finish at h
      simp only at h
      split at h
      · simp at h
      · simp only [Step.next.injEq] at h
        subst h
        exact passOn _
    · simp only [Step.next.injEq] at h
      subst h
      exact passOn _
  refine ⟨?_, .inr ⟨?_, ?_⟩⟩
  · unfold Within
    rw [keeps.1, keeps.2.1]
    exact within
  · simp only [unreached, keeps.2.2, same]
  · simpa only [backlog, keeps.1, keeps.2.1] using shorter

theorem progress_meet {support : List ν} {s t : Search ν} {frame : Frame ν}
    {frames : List (Frame ν)} {seen : Nat} (within : t.Within support) (same : t.index = s.index)
    (shorter : t.backlog < s.backlog) (path : t.frames = frame :: frames) :
    Progress support s (t.meet frame frames seen) := by
  have keeps : (t.meet frame frames seen).Within support ∧
      (t.meet frame frames seen).index = t.index ∧
      (t.meet frame frames seen).backlog = t.backlog := by
    unfold meet lower
    split
    · refine ⟨⟨within.1, ?_⟩, rfl, by simp [backlog, path]⟩
      have := within.2
      rw [path] at this
      simpa using this
    · split <;> exact ⟨within, rfl, rfl⟩
  exact ⟨keeps.1, .inr ⟨by simp only [unreached, keeps.2.1, same], keeps.2.2 ▸ shorter⟩⟩

/-- Every step within a closed set is progress. -/
theorem progress_of_follows {dependencies : ν → Except ε (List ν)} {support : List ν}
    (closed : Closed dependencies support) {s s' : Search ν} (within : s.Within support)
    (h : Follows dependencies s' s) : Progress support s s' := by
  unfold Follows step at h
  split at h
  · next path =>
    split at h
    · simp [finish] at h
    · next root roots remaining =>
      have within' : ({ s with roots } : Search ν).Within support :=
        ⟨fun r hr => within.1 r (remaining ▸ List.mem_cons_of_mem root hr), within.2⟩
      simp only at h
      split at h
      · simp only [Step.next.injEq] at h
        subst h
        exact ⟨within', .inr ⟨rfl, by simp only [backlog, remaining, List.length_cons]; omega⟩⟩
      · next new =>
        exact progress_visit closed within' rfl
          (within.1 root (remaining ▸ List.mem_cons_self)) (by simpa using new) h
  · next frame frames path =>
    have inFrames := within.2
    rw [path] at inFrames
    split at h
    · next done =>
      refine progress_leave (t := { s with frames }) ?_ rfl (by simp [backlog, path]) h
      exact ⟨within.1, fun f hf => inFrames f (List.mem_cons_of_mem _ hf)⟩
    · next node pending waiting =>
      have within' : ({ s with frames := { frame with pending } :: frames } : Search ν).Within
          support := by
        refine ⟨within.1, fun f hf d hd => ?_⟩
        rcases List.mem_cons.1 hf with rfl | hf
        · exact inFrames frame List.mem_cons_self d (waiting ▸ List.mem_cons_of_mem _ hd)
        · exact inFrames f (List.mem_cons_of_mem _ hf) d hd
      simp only at h
      split at h
      · simp only [Step.next.injEq] at h
        subst h
        exact progress_meet within' rfl
          (by simp only [backlog, path, waiting, List.foldr_cons, List.length_cons]; omega) rfl
      · next new =>
        refine progress_visit closed within' rfl
          (inFrames frame List.mem_cons_self node (waiting ▸ List.mem_cons_self)) ?_ h
        rw [Std.HashMap.contains_eq_isSome_getElem?, new, Option.isSome_none]

/-- Within a closed set the search cannot go on forever. -/
theorem acc_of_within {dependencies : ν → Except ε (List ν)} {support : List ν}
    (closed : Closed dependencies support) (s : Search ν) (within : s.Within support) :
    Acc (Follows dependencies) s := by
  have key : ∀ u b, ∀ s : Search ν, s.unreached support = u → s.backlog = b → s.Within support →
      Acc (Follows dependencies) s := by
    intro u
    induction u using Nat.strongRecOn with
    | ind u ihu =>
      intro b
      induction b using Nat.strongRecOn with
      | ind b ihb =>
        intro s hu hb within
        refine .intro s fun s' h => ?_
        obtain ⟨within', less | ⟨same, less⟩⟩ := progress_of_follows closed within h
        · exact ihu _ (hu ▸ less) _ s' rfl rfl within'
        · exact ihb _ (hb ▸ less) s' (same.trans hu) rfl within'
  exact key _ _ s rfl rfl within

def Ending (dependencies : ν → Except ε (List ν)) : Type :=
  { s : Search ν // Acc (Follows dependencies) s }

instance (dependencies : ν → Except ε (List ν)) :
    WellFoundedRelation (Ending dependencies) where
  rel s' s := Follows dependencies s'.1 s.1
  wf := ⟨fun s => InvImage.accessible Subtype.val s.2⟩

def run (dependencies : ν → Except ε (List ν)) (s : Search ν)
    (ends : Acc (Follows dependencies) s) : Outcome ν ε :=
  match h : s.step dependencies with
  | .done outcome => outcome
  | .next s' => run dependencies s' (ends.inv h)
termination_by (⟨s, ends⟩ : Ending dependencies)
decreasing_by exact h

end Search

/-- Orders `roots` and all they depend on so that every node comes after its dependencies. Roots
are taken as they are listed and dependencies as they are told, so the order is determined. -/
def sort (dependencies : ν → Except ε (List ν)) (roots : List ν)
    (finite : FiniteReach dependencies roots) : Outcome ν ε :=
  Search.run dependencies (.start roots) (by
    obtain ⟨support, inside, closed⟩ := finite
    exact Search.acc_of_within closed _ ⟨inside, fun _ h => by cases h⟩)

end EquationSystem.Dependency
