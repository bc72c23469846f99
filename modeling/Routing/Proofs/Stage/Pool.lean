import Routing.Stage.Builtin
/-!
# Pools of stages

What the operations on a pool do to the stages of its handles, and what clones have in common with
their originals.
-/

namespace Routing

namespace Pool

variable {σ ω : Type} {p : Pool σ ω} {h h' : Handle} {stage : σ} {shared : ω}

theorem stage?_eq_none : p.stage? h = none ↔ p.instances.size ≤ h := by
  simp [stage?]

theorem lt_of_stage (hs : p.stage? h = some stage) : h < p.instances.size := by
  refine Nat.not_le.1 fun hle => ?_
  rw [stage?_eq_none.2 hle] at hs
  cases hs

theorem exists_stage (hlt : h < p.instances.size) : ∃ stage, p.stage? h = some stage := by
  cases hs : p.stage? h with
  | some stage => exact ⟨stage, rfl⟩
  | none => exact absurd hlt (Nat.not_lt.2 (stage?_eq_none.1 hs))

/-! ### One more stage -/

theorem size_add : (p.add stage).2.instances.size = p.instances.size + 1 := by
  simp [add, addInstance]

theorem stage?_add :
    (p.add stage).2.stage? h = if h = p.instances.size then some stage else p.stage? h := by
  simp only [add, addInstance, stage?, Array.getElem?_push]
  split <;> simp

theorem stage?_add_lt (hlt : h < p.instances.size) : (p.add stage).2.stage? h = p.stage? h := by
  rw [stage?_add, if_neg (Nat.ne_of_lt hlt)]

theorem isInlined_add : (p.add stage).2.isInlined h = p.isInlined h := by
  simp only [add, addInstance, isInlined, Array.getElem?_push]
  split
  · next heq => subst h; simp
  · rfl

/-! ### Marks -/

@[simp] theorem size_markInlined : (p.markInlined h).instances.size = p.instances.size := by
  simp [markInlined]

@[simp] theorem stage?_markInlined : (p.markInlined h).stage? h' = p.stage? h' := by
  simp only [markInlined, stage?, Array.getElem?_modify]
  split <;> cases p.instances[h']? <;> rfl

theorem isInlined_markInlined (hlt : h < p.instances.size) :
    (p.markInlined h).isInlined h' = if h' = h then true else p.isInlined h' := by
  simp only [markInlined, isInlined, Array.getElem?_modify, eq_comm]
  split
  · next heq => subst heq; simp [Array.getElem?_eq_getElem hlt]
  · rfl

/-! ### Calls -/

@[simp] theorem size_update : (p.update h stage shared).instances.size = p.instances.size := by
  simp [update]

theorem stage?_update (hlt : h < p.instances.size) :
    (p.update h stage shared).stage? h' = if h' = h then some stage else p.stage? h' := by
  simp only [update, stage?, Array.getElem?_modify, eq_comm]
  split
  · next heq => subst heq; simp [Array.getElem?_eq_getElem hlt]
  · rfl

/-! ### Pools that grow -/

/-- A pool in which stages were added and marked. -/
structure Grown (p p' : Pool σ ω) : Prop where
  size_le : p.instances.size ≤ p'.instances.size
  stage : ∀ {h}, h < p.instances.size → p'.stage? h = p.stage? h
  inlined : ∀ {h}, p.isInlined h = true → p'.isInlined h = true

namespace Grown

variable {p' p'' : Pool σ ω}

theorem trans (hp : Grown p p') (hp' : Grown p' p'') : Grown p p'' where
  size_le := Nat.le_trans hp.size_le hp'.size_le
  stage hlt := (hp'.stage (Nat.lt_of_lt_of_le hlt hp.size_le)).trans (hp.stage hlt)
  inlined hi := hp'.inlined (hp.inlined hi)

theorem add : Grown p (p.add stage).2 where
  size_le := by rw [Pool.size_add]; exact Nat.le_succ _
  stage hlt := Pool.stage?_add_lt hlt
  inlined hi := Pool.isInlined_add.trans hi

theorem mark (hlt : h < p.instances.size) : Grown p (p.markInlined h) where
  size_le := Nat.le_of_eq Pool.size_markInlined.symm
  stage _ := Pool.stage?_markInlined
  inlined hi := by
    rw [Pool.isInlined_markInlined hlt]
    split
    · rfl
    · exact hi

theorem share (shared : ω) : Grown p { p with shared } := ⟨Nat.le_refl _, fun _ => rfl, id⟩

end Grown

variable [Stage σ ω]

theorem capabilities_eq (hs : p.stage? h = some stage) :
    p.capabilities h = Stage.capabilities stage := by
  simp [capabilities, hs]

theorem capabilities_add_size :
    (p.add stage).2.capabilities p.instances.size = Stage.capabilities stage := by
  simp [capabilities, stage?_add]

theorem Grown.capabilities {p' : Pool σ ω} (hp : Grown p p') (hlt : h < p.instances.size) :
    p'.capabilities h = p.capabilities h := by
  simp only [Pool.capabilities, hp.stage hlt]

end Pool

/-! ### Clones -/

/-- A clone declares what its original does. -/
def Stage.ClonesAlike (σ : Type) {ω : Type} [Stage σ ω] : Prop :=
  ∀ (stage copy : σ) (shared shared' : ω), Stage.clone stage shared = (some copy, shared') →
    Stage.capabilities copy = Stage.capabilities stage

theorem Builtin.clone_eq {s copy : Builtin} {shared shared' : Shared}
    (h : Stage.clone s shared = (some copy, shared')) :
    copy = s ∨ ∃ c, s = .collect c ∧ copy = .collect c.clone := by
  change s.clone shared = (some copy, shared') at h
  cases s with
  | internal | plain => cases h
  | collect c =>
    cases h
    exact .inr ⟨c, rfl, rfl⟩
  | scripted p =>
    simp only [Builtin.clone, Scripted.clone] at h
    split at h
    · cases h
      exact .inl rfl
    · cases h
  | filter | keyValue | assign | multiplexer | passThrough =>
    cases h
    exact .inl rfl

/-- Clones of the stages of the library declare what their originals do. -/
theorem clonesAlike_builtin : Stage.ClonesAlike Builtin := by
  intro s copy shared shared' h
  rcases Builtin.clone_eq h with rfl | ⟨c, rfl, rfl⟩
  · rfl
  · rfl

end Routing
