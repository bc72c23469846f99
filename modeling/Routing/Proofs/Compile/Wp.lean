import Routing.Compile.Statement
/-!
# Weakest preconditions of compiling

`wp x Q E b` says what a step `x` leads to from the state `b`: `Q` of its result and the state after
it if it succeeds, and `E` of its error and the state after it if it fails. Both matter, as a failed
step keeps what it added.
-/

namespace Routing.Compile

variable {σ ω α β : Type}

/-- What a step leads to: `Q` if it succeeds and `E` if it fails. -/
def wp (x : Compile σ ω α) (Q : α → Build σ ω → Prop) (E : CompileError → Build σ ω → Prop)
    (b : Build σ ω) : Prop :=
  match x.run b with
  | (.ok a, b') => Q a b'
  | (.error e, b') => E e b'

section Steps

variable {Q Q' : α → Build σ ω → Prop} {E E' : CompileError → Build σ ω → Prop} {b b' : Build σ ω}

theorem wp_mono {x : Compile σ ω α} (h : wp x Q E b) (hQ : ∀ a b', Q a b' → Q' a b')
    (hE : ∀ e b', E e b' → E' e b') : wp x Q' E' b := by
  unfold wp at h ⊢
  split at h
  · exact hQ _ _ h
  · exact hE _ _ h

theorem wp_and {x : Compile σ ω α} (h : wp x Q E b) (h' : wp x Q' E' b) :
    wp x (fun a b' => Q a b' ∧ Q' a b') (fun e b' => E e b' ∧ E' e b') b := by
  unfold wp at h h' ⊢
  generalize x.run b = r at h h' ⊢
  rcases r with ⟨_ | _, _⟩
  · exact ⟨h, h'⟩
  · exact ⟨h, h'⟩

/-- What holds for each index holds for all of them. -/
theorem wp_forall {ι : Sort _} {Q : ι → α → Build σ ω → Prop}
    {E : ι → CompileError → Build σ ω → Prop} {x : Compile σ ω α} (h : ∀ i, wp x (Q i) (E i) b) :
    wp x (fun a b' => ∀ i, Q i a b') (fun e b' => ∀ i, E i e b') b := by
  unfold wp at h ⊢
  generalize x.run b = r at h ⊢
  rcases r with ⟨_ | _, _⟩
  · exact h
  · exact h

/-- What holds of all results and states holds after a step. -/
theorem wp_of_forall {x : Compile σ ω α} (hQ : ∀ a b', Q a b') (hE : ∀ e b', E e b') :
    wp x Q E b := by
  unfold wp
  split
  · exact hQ _ _
  · exact hE _ _

theorem wp_ok {x : Compile σ ω α} (h : wp x Q E b) {a : α} (hx : x.run b = (.ok a, b')) : Q a b' := by
  unfold wp at h; rw [hx] at h; exact h

theorem wp_error {x : Compile σ ω α} (h : wp x Q E b) {e : CompileError}
    (hx : x.run b = (.error e, b')) : E e b' := by
  unfold wp at h; rw [hx] at h; exact h

/-- What a step comes to may be used of what it leads to. -/
theorem wp_with_run {x : Compile σ ω α} (h : wp x Q E b) :
    wp x (fun a b' => x.run b = (.ok a, b') ∧ Q a b') E b := by
  unfold wp at h ⊢
  split at h
  · next hx =>
    rw [hx]
    exact ⟨rfl, h⟩
  · exact h

theorem wp_of_run {x : Compile σ ω α} {a : α} (hx : x.run b = (.ok a, b')) (h : Q a b') :
    wp x Q E b := by
  unfold wp; rw [hx]; exact h

/-- What a step comes to. -/
theorem wp_run (x : Compile σ ω α) (b : Build σ ω) :
    wp x (fun a b' => x.run b = (.ok a, b')) (fun e b' => x.run b = (.error e, b')) b := by
  unfold wp
  split
  · next hx => exact hx
  · next hx => exact hx

theorem run_bind_ok {x : Compile σ ω α} {a : α} (h : x.run b = (.ok a, b')) (f : α → Compile σ ω β) :
    (x >>= f).run b = (f a).run b' := by
  simp only [ExceptT.run, bind, ExceptT.bind, ExceptT.mk, StateT.bind] at h ⊢
  rw [h]
  rfl

theorem run_bind_error {x : Compile σ ω α} {e : CompileError} (h : x.run b = (.error e, b'))
    (f : α → Compile σ ω β) : (x >>= f).run b = (.error e, b') := by
  simp only [ExceptT.run, bind, ExceptT.bind, ExceptT.mk, StateT.bind] at h ⊢
  rw [h]
  rfl

/-- A step fails with this error and leaves this state. -/
theorem run_eq_error {x : Compile σ ω α} {e : CompileError}
    (h : wp x (fun _ _ => False) (fun e' b'' => e' = e ∧ b'' = b') b) :
    x.run b = (.error e, b') := by
  unfold wp at h
  generalize x.run b = r at h ⊢
  rcases r with ⟨e' | a, b''⟩
  · obtain ⟨rfl, rfl⟩ := h
    rfl
  · exact h.elim

/-- A step succeeds with this result and leaves this state. -/
theorem run_eq_of_wp {x : Compile σ ω α} {a : α}
    (h : wp x (fun a' b'' => a' = a ∧ b'' = b') (fun _ _ => False) b) : x.run b = (.ok a, b') := by
  unfold wp at h
  generalize x.run b = r at h ⊢
  rcases r with ⟨e' | a', b''⟩
  · exact h.elim
  · obtain ⟨rfl, rfl⟩ := h
    rfl

/-- What holds of a step whether it succeeds or fails holds of the state after it. -/
theorem wp_state {P : Build σ ω → Prop} {x : Compile σ ω α}
    (h : wp x (fun _ b => P b) (fun _ b => P b) b) : P (x.run b).2 := by
  unfold wp at h
  split at h <;> simp_all

/-- What holds of the state after a step holds after it whether it succeeds or fails. -/
theorem wp_of_state {P : Build σ ω → Prop} {x : Compile σ ω α} (h : P (x.run b).2) :
    wp x (fun _ b => P b) (fun _ b => P b) b := by
  unfold wp
  split <;> simp_all

@[simp] theorem wp_pure (a : α) : wp (pure a) Q E b ↔ Q a b := Iff.rfl

@[simp] theorem wp_throw (e : CompileError) : wp (throw e) Q E b ↔ E e b := Iff.rfl

@[simp] theorem wp_bind {Q : β → Build σ ω → Prop} (x : Compile σ ω α) (f : α → Compile σ ω β) :
    wp (x >>= f) Q E b ↔ wp x (fun a b' => wp (f a) Q E b') E b := by
  unfold wp
  simp only [ExceptT.run, bind, ExceptT.bind, ExceptT.mk, StateT.bind, ExceptT.bindCont]
  rcases x b with ⟨_ | _, _⟩ <;> rfl

@[simp] theorem wp_ite {c : Prop} [Decidable c] (x y : Compile σ ω α) :
    wp (if c then x else y) Q E b ↔ if c then wp x Q E b else wp y Q E b := by
  split <;> rfl

end Steps

section State

variable {E : CompileError → Build σ ω → Prop} {b : Build σ ω}

@[simp] theorem wp_get {Q : Build σ ω → Build σ ω → Prop} :
    wp (get : Compile σ ω (Build σ ω)) Q E b ↔ Q b b := Iff.rfl

@[simp] theorem wp_set {Q : PUnit → Build σ ω → Prop} (b' : Build σ ω) :
    wp (set b' : Compile σ ω PUnit) Q E b ↔ Q ⟨⟩ b' := Iff.rfl

@[simp] theorem wp_modify {Q : PUnit → Build σ ω → Prop} (f : Build σ ω → Build σ ω) :
    wp (modify f : Compile σ ω PUnit) Q E b ↔ Q ⟨⟩ (f b) := Iff.rfl

@[simp] theorem wp_modifyGraph {Q : Unit → Build σ ω → Prop} (f : Graph → Graph) :
    wp (modifyGraph f) Q E b ↔ Q () { b with graph := f b.graph } := Iff.rfl

@[simp] theorem wp_graph {Q : Graph → Build σ ω → Prop} : wp graph Q E b ↔ Q b.graph b := Iff.rfl

@[simp] theorem wp_remembered {Q : Option SlotId → Build σ ω → Prop} (key : TargetKey)
    (settled : Option SlotId) :
    wp (remembered key settled) Q E b ↔ Q ((b.memos.lookup key).or settled) b := Iff.rfl

end State

end Routing.Compile
