import Routing.Proofs.Compile.Descent
import Routing.Proofs.Compile.Outcomes
/-!
# Junctions that mix branches

A junction accepts a branch with a head as long as no branch without one has come, and the other way
round. So, whatever their order, branches of both sorts are what a junction is refused for. A branch
has no head if it starts with a source, and also if nothing is compiled for it.
-/

namespace Routing

variable {σ ω : Type}

namespace Draft

variable {k k' : Draft} {node : Descriptor} {o : Outline} {e : CompileError}

/-- Branches of both sorts have come to the junction. -/
def Mixes (k : Draft) : Prop :=
  k.head = true ∧ k.past = true

theorem branch_ok (h : k.branch node o = .ok k') :
    k'.head = (k.head || o.head) ∧ k'.past = (k.past || !o.head) ∧ (¬ k.Mixes → ¬ k'.Mixes) := by
  unfold branch at h
  split_ifs at h with hhead hpast hfork
  · cases h
    simp_all [Mixes]
  · cases h
    simp_all [Mixes]

theorem branch_error (h : k.branch node o = .error e) :
    e = .mixedBranches node ∧ (k.head || o.head) = true ∧ (k.past || !o.head) = true := by
  unfold branch at h
  split_ifs at h with hhead hpast hfork
  · cases h
    simp [hhead, hpast]
  · cases h
    simp [hhead, hfork]

end Draft

namespace Compile

open Build

namespace Branching

/-- What the junction tells of its branches. -/
def draft (j : Branching) : Draft :=
  ⟨j.fork.isSome, j.join.isSome, j.headless⟩

theorem drafts (j : Branching) : j.Drafts j.draft :=
  ⟨rfl, rfl, rfl⟩

theorem Drafts.eq {j : Branching} {k : Draft} (h : j.Drafts k) : k = j.draft := by
  obtain ⟨head, tail, past⟩ := k
  obtain ⟨rfl, rfl, rfl⟩ := h
  rfl

/-- The branch is among those of the junction. -/
structure Knows (j : Branching) (f : Fragment) : Prop where
  head : f.head.isSome = true → j.draft.head = true
  past : f.head.isSome = false → j.draft.past = true

/-- What becomes of the junction with more branches. -/
structure Widened (j j' : Branching) : Prop where
  head : j.draft.head = true → j'.draft.head = true
  past : j.draft.past = true → j'.draft.past = true
  pure : ¬ j.draft.Mixes → ¬ j'.draft.Mixes

theorem Widened.refl (j : Branching) : j.Widened j := ⟨id, id, id⟩

theorem Widened.trans {j j₁ j' : Branching} (h : j.Widened j₁) (h' : j₁.Widened j') : j.Widened j' :=
  ⟨h'.head ∘ h.head, h'.past ∘ h.past, h'.pure ∘ h.pure⟩

theorem Widened.knows {j j' : Branching} {f : Fragment} (h : j.Widened j') (hf : j.Knows f) :
    j'.Knows f :=
  ⟨h.head ∘ hf.head, h.past ∘ hf.past⟩

variable [Stage σ ω]

/-- The junction with one more branch: it is refused if branches of both sorts are there then. -/
theorem wp_branch (j : Branching) (node : Descriptor) (f : Fragment) (b : Build σ ω) :
    wp (j.add node f)
      (fun j' _ => j'.draft.head = (j.draft.head || f.head.isSome) ∧
        j'.draft.past = (j.draft.past || !f.head.isSome) ∧ (¬ j.draft.Mixes → ¬ j'.draft.Mixes))
      (fun e _ => e.Consistent → e = .mixedBranches node ∧
        (j.draft.head || f.head.isSome) = true ∧ (j.draft.past || !f.head.isSome) = true) b := by
  refine wp_mono (wp_drafts j.drafts) ?_ fun e _ h he => Draft.branch_error (h he)
  rintro j' _ ⟨k', hk', hdrafts⟩
  rw [← hdrafts.eq]
  exact Draft.branch_ok hk'

theorem wp_widened (j : Branching) (node : Descriptor) (f : Fragment) (b : Build σ ω) :
    wp (j.add node f) (fun j' _ => j.Widened j' ∧ j'.Knows f) (fun _ _ => True) b := by
  refine wp_mono (wp_branch j node f b) ?_ fun _ _ _ => trivial
  rintro j' _ ⟨hhead, hpast, hpure⟩
  refine ⟨⟨fun h => ?_, fun h => ?_, hpure⟩, fun h => ?_, fun h => ?_⟩
  · rw [hhead, h, Bool.true_or]
  · rw [hpast, h, Bool.true_or]
  · rw [hhead, h, Bool.or_true]
  · rw [hpast, h, Bool.not_false, Bool.or_true]

end Branching

variable [Stage σ ω] {objects : Objects}

theorem wp_branching_widened {jump : Option (Run σ ω)} {here : Option Location} {fc : Bool}
    (ss : List Statement) (j : Branching) (b : Build σ ω) :
    wp (branching objects jump here fc j ss) (fun j' _ => j.Widened j') (fun _ _ => True) b := by
  induction ss generalizing j b with
  | nil =>
    rw [branching]
    exact .refl j
  | cons s ss ih =>
    rw [branching, wp_bind]
    refine wp_of_forall (fun f b₁ => ?_) fun _ _ => trivial
    rw [wp_bind]
    refine wp_mono (j.wp_widened _ f b₁) (fun j₁ b₂ h => ?_) fun _ _ _ => trivial
    exact wp_mono (ih j₁ b₂) (fun _ _ h' => h.1.trans h') fun _ _ _ => trivial

namespace Task

variable {k k' : Task σ ω}

/-- A child is compiled to this part. -/
def Branch (objects : Objects) (k : Task σ ω) (f : Fragment) : Prop :=
  ∃ k', k.Child objects k' ∧ (k'.result objects).1 = .ok f

/-- A child has a head, and another one starts with a source or is empty. -/
def Mixed (objects : Objects) (k : Task σ ω) : Prop :=
  (∃ f, k.Branch objects f ∧ f.head.isSome = true) ∧
    ∃ f, k.Branch objects f ∧ (f.isSourceRooted = true ∨ f.isEmpty = true)

omit [Stage σ ω] in
theorem headless_iff {f : Fragment} :
    f.isSourceRooted = true ∨ f.isEmpty = true ↔ f.head.isSome = false := by
  obtain ⟨head, tail⟩ := f
  cases head <;> cases tail <;> simp [Fragment.isSourceRooted, Fragment.isEmpty]

/-- The child with a number, in the state that the branches before it lead to. -/
def branchAt (objects : Objects) (k : Task σ ω) (i : Nat) (s : Statement) : Task σ ω :=
  ⟨k.depth, k.located, k.flowControl || s.flags.flowControl, s,
    ((branching objects (below objects k.depth) k.located k.flowControl {}
      (k.statement.children.take i)).run k.state).2⟩

theorem Child.eq_branchAt (hshape : k.statement.shape = .junction) (h : k.Child objects k') :
    ∃ i s, k.statement.children[i]? = some s ∧ k' = k.branchAt objects i s := by
  cases h with
  | sequence hsequence _ _ _ => cases hshape.symm.trans hsequence
  | @junction pre post s b₁ j₁ _ hcs hpre =>
    refine ⟨pre.length, s, by simp [hcs], ?_⟩
    rw [branchAt, hcs, List.take_left, hpre]

/-- What comes of each of the children one after another comes of every child. -/
theorem Child.of_each {P : Except CompileError Fragment → Prop} (hshape : k.statement.shape = .junction)
    (h : ∀ i, (hi : i < k.statement.children.length) →
      P ((k.branchAt objects i k.statement.children[i]).result objects).1)
    (hcall : k.Child objects k') : P (k'.result objects).1 := by
  obtain ⟨i, s, hs, rfl⟩ := hcall.eq_branchAt hshape
  obtain ⟨hi, rfl⟩ := List.getElem?_eq_some_iff.1 hs
  exact h i hi

omit [Stage σ ω] in
theorem exists_ok {α : Type} {r : Except CompileError α} (h : r.toOption.isSome = true) :
    ∃ a, r = .ok a := by
  cases r with
  | error e => cases h
  | ok a => exact ⟨a, rfl⟩

/-- A junction that is compiled knows all its branches. -/
theorem Child.knows {f : Fragment} {j : Branching} {b : Build σ ω}
    (hshape : k.statement.shape = .junction)
    (hrun : (branching objects (below objects k.depth) k.located k.flowControl {}
      k.statement.children).run k.state = (.ok j, b))
    (h : k.Child objects k') (hf : (k'.result objects).1 = .ok f) : j.Knows f := by
  cases h with
  | sequence hsequence _ _ _ => cases hshape.symm.trans hsequence
  | @junction pre post s b₁ j₁ _ hcs hpre =>
    rw [hcs, branching_append, run_bind_ok hpre] at hrun
    refine wp_ok (Q := fun j _ => j.Knows f) (E := fun _ _ => True) ?_ hrun
    rw [branching, ← upTo_eq]
    refine wp_bind_of_run (run_eq_ok hf) ?_
    rw [wp_bind]
    refine wp_mono (j₁.wp_widened _ f _) (fun j₂ b₂ h₂ => ?_) fun _ _ _ => trivial
    exact wp_mono (wp_branching_widened post j₂ b₂) (fun _ _ h' => h'.knows h₂.2) fun _ _ _ => trivial

/-- What the junction tells of its branches is so. -/
structure Noted (objects : Objects) (k : Task σ ω) (j : Branching) : Prop where
  head : j.draft.head = true → ∃ f, k.Branch objects f ∧ f.head.isSome = true
  past : j.draft.past = true → ∃ f, k.Branch objects f ∧ f.head.isSome = false

theorem wp_noted {j : Branching} {f : Fragment} {node : Descriptor} (hj : k.Noted objects j)
    (hf : k.Branch objects f) (b : Build σ ω) :
    wp (j.add node f) (fun j' _ => k.Noted objects j')
      (fun e _ => e.Consistent → e = .mixedBranches node ∧ k.Mixed objects) b := by
  -- each of the two sorts is that of the new branch, or of one before it
  have hhead (h : (j.draft.head || f.head.isSome) = true) :
      ∃ f, k.Branch objects f ∧ f.head.isSome = true :=
    (Bool.or_eq_true_iff.1 h).elim hj.head fun h => ⟨f, hf, h⟩
  have hpast (h : (j.draft.past || !f.head.isSome) = true) :
      ∃ f, k.Branch objects f ∧ f.head.isSome = false :=
    (Bool.or_eq_true_iff.1 h).elim hj.past fun h => ⟨f, hf, by simpa using h⟩
  refine wp_mono (j.wp_branch node f b) ?_ fun e _ h he => ?_
  · rintro j' _ ⟨hhead', hpast', -⟩
    exact ⟨fun h => hhead (hhead'.symm.trans h), fun h => hpast (hpast'.symm.trans h)⟩
  · obtain ⟨rfl, hh, hp⟩ := h he
    obtain ⟨f', hf', hnone⟩ := hpast hp
    exact ⟨rfl, hhead hh, f', hf', headless_iff.2 hnone⟩

/-- A junction that compiles is not mixed. -/
theorem pure_of_ok (hshape : k.statement.shape = .junction) {f : Fragment}
    (hok : (k.result objects).1 = .ok f) : ¬ k.Mixed objects := by
  rintro ⟨⟨f₁, ⟨k₁, hcall₁, hf₁⟩, hhead⟩, f₂, ⟨k₂, hcall₂, hf₂⟩, hnone⟩
  rw [result, upTo_junction hshape] at hok
  rcases hrun : (branching objects (below objects k.depth) k.located k.flowControl {}
    k.statement.children).run k.state with ⟨e | j, b⟩
  · have herror := congrArg Prod.fst (run_bind_error hrun
      fun j => j.finish k.statement.flags k.flowControl)
    cases herror.symm.trans hok
  · have hpure := (wp_ok (wp_branching_widened _ _ _) hrun).pure (by simp [Draft.Mixes, Branching.draft])
    exact hpure ⟨(hcall₁.knows hshape hrun hf₁).head hhead,
      (hcall₂.knows hshape hrun hf₂).past (headless_iff.1 hnone)⟩

/-- A junction whose children compile is refused as mixed if it is mixed, by naming a child, and
compiles otherwise. -/
structure Sorts (objects : Objects) (k : Task σ ω) : Prop where
  mixed : (∃ node, (k.result objects).1 = .error (.mixedBranches node)) ↔ k.Mixed objects
  child : ∀ node, (k.result objects).1 = .error (.mixedBranches node) →
    ∃ k', k.Child objects k' ∧ node = k'.descriptor
  pure : ¬ k.Mixed objects → ∃ f, (k.result objects).1 = .ok f

theorem Sound.sorts (hobjects : objects.Fresh) (hk : k.Sound)
    (hshape : k.statement.shape = .junction)
    (hall : ∀ k', k.Child objects k' → ∃ f, (k'.result objects).1 = .ok f) : k.Sorts objects := by
  have hrefused : wp (k.work objects) (fun _ _ => True)
      (fun e _ => e.Consistent →
        (∃ k', k.Child objects k' ∧ e = .mixedBranches k'.descriptor) ∧ k.Mixed objects) k.state := by
    refine wp_junction hobjects hk hshape (fun j _ => k.Noted objects j) ⟨nofun, nofun⟩
      (fun {k' j} hcall hj => ?_) fun _ => wp_mono (Branching.wp_finish _ _ _) (fun _ _ _ => trivial)
        fun _ _ h => h.elim
    obtain ⟨f, hf⟩ := hall k' hcall
    refine wp_of_run (run_eq_ok hf) fun _ _ => ?_
    refine wp_mono (wp_noted hj.holds ⟨k', hcall, hf⟩ _) (fun _ _ h => h) fun e _ h he => ?_
    exact ⟨⟨k', hcall, (h he).1⟩, (h he).2⟩
  have hcompiles := wp_and hrefused (hk.compiles hobjects)
  rcases hrun : k.result objects with ⟨e | f, b⟩
  · obtain ⟨h, -, hconsistent⟩ := wp_error hcompiles hrun
    obtain ⟨⟨k', hcall, rfl⟩, hmixed⟩ := h hconsistent
    refine ⟨by simp [hrun, hmixed], fun node h => ⟨k', hcall, ?_⟩, fun h => absurd hmixed h⟩
    rw [hrun] at h
    cases h
    rfl
  · have hpure := pure_of_ok hshape (congrArg Prod.fst hrun)
    exact ⟨by simp [hrun, hpure], by simp [hrun], fun _ => ⟨f, congrArg Prod.fst hrun⟩⟩

end Task

end Compile

end Routing
