import Routing.Proofs.Compile.WellFormed
/-!
# Calls that follow

A call of the compiler leaves what earlier calls made as it was, whether it succeeds or fails: slots
only get new attach points, at the forks that follow sources, and what is remembered stays. The graph
never contradicts itself, so that a call fails only for what is written in its statement or in the
objects.
-/

namespace Routing

variable {σ ω : Type}

namespace Build

/-- What is remembered in a state is remembered in another. -/
def Kept (b b' : Build σ ω) : Prop :=
  ∀ key id, b.memos.lookup key = some id → b'.memos.lookup key = some id

/-- What later states leave of an earlier one. -/
structure Undisturbed (b b' : Build σ ω) : Prop where
  slot : ∀ {x s}, b.graph.slot? x = some s →
    ∃ more, b'.graph.slot? x = some { s with hops := s.hops ++ more } ∧
      (∀ y ∈ more, b.graph.size ≤ y ∧ b'.graph.role? y = some .attach) ∧
        (more ≠ [] → s.role = .multiplexer ∧ b.SourceFork x)
  kept : Kept b b'

/-- What is remembered when one more target is. -/
theorem lookup_of_cons {b b' : Build σ ω} {key : TargetKey} {id : SlotId}
    (hm : b'.memos = (key, id) :: b.memos) (key' : TargetKey) :
    b'.memos.lookup key' = if key' = key then some id else b.memos.lookup key' := by
  rw [hm, List.lookup_cons]
  by_cases hk : key' = key
  · simp [hk]
  · simp [hk, beq_false_of_ne hk]

namespace Kept

variable {b b' b'' : Build σ ω} {key : TargetKey} {id : SlotId}

theorem refl (b : Build σ ω) : Kept b b := fun _ _ h => h

theorem of_eq (h : b'.memos = b.memos) : Kept b b' := fun _ _ hm => by rw [h]; exact hm

theorem trans (h : Kept b b') (h' : Kept b' b'') : Kept b b'' :=
  fun key id hm => h' key id (h key id hm)

/-- One more target is remembered for which nothing was. -/
theorem cons (h : Kept b b') (hk : b.memos.lookup key = none)
    (hm : b''.memos = (key, id) :: b'.memos) : Kept b b'' := by
  intro key' id' h'
  have hne : key' ≠ key := by
    rintro rfl
    rw [hk] at h'
    cases h'
  rw [lookup_of_cons hm, if_neg hne]
  exact h key' id' h'

end Kept

theorem Progress.undisturbed {b b' : Build σ ω} (hb : b.Sound) (hp : Progress b b')
    (hk : Kept b b') : Undisturbed b b' where
  slot {x s} hs := by
    obtain ⟨more, hm, hnew⟩ := hp.extends_.slot hs
    refine ⟨more, hm, fun y hy => ⟨(hnew y hy).1, (hnew y hy).2.1⟩, fun hne => ?_⟩
    obtain ⟨y, hy⟩ := List.exists_mem_of_ne_nil _ hne
    have hfork : b.SourceFork x := (hnew y hy).2.2
    have hr := hb.sourceFork_role hfork
    rw [Graph.role?, hs] at hr
    exact ⟨Option.some.inj hr, hfork⟩
  kept := hk

end Build

namespace Compile

open Build

variable [Stage σ ω] {objects : Objects} {calls : List Call} {call : Call} {b : Build σ ω}

theorem tally_kept : Tally objects (fun _ => True)
    (fun b _ b' => Kept b b' : Build σ ω → Trace σ ω → Build σ ω → Prop) (fun b _ b' => Kept b b') where
  refl _ := .refl _
  weaken h := h
  trans h h' := h.trans h'
  trans_failed h h' := h.trans h'
  glue _ h := .of_eq h.memos
  place _ _ _ := .refl _
  refuse _ := .refl _
  again _ h := .of_eq h.memos
  first := by
    intro s key t b l b₁ f f' b' _ _ _ hnew _ _ h hj
    by_cases hk : key.Shared
    · obtain ⟨id, hm⟩ := hj.memos_shared hk
      exact h.cons (hnew hk) hm
    · rw [hj.eq_of_not_shared hk]
      exact h
  abandon _ _ _ _ h := h

theorem kept_call (hobjects : objects.Fresh) (hcall : call.statement.Fresh) (hb : b.Sound) :
    Kept b ((call.run objects).run b).2 := by
  have hnode : ∀ s : Statement, s.Fresh → ∀ fc, Kept b ((node objects fc s).run b).2 := by
    intro s hs fc
    have hmeets := tally_kept.lawful.meets_node (fun entry he => each_fresh.2 (hobjects entry he))
      (each_fresh.2 hs) fc b ⟨hb, trivial⟩
    exact wp_state (wp_mono hmeets (fun _ _ h => h.2) fun _ _ h => h.2)
  cases call with
  | rule s => exact hnode _ (hcall.expandCatchAll objects) false
  | node fc s => exact hnode s hcall fc

/-- A call leaves what earlier calls made as it was. -/
theorem undisturbed_after (objects : Objects) (calls : List Call) (call : Call) (pool : Pool σ ω)
    (hobjects : objects.Fresh) (hcalls : ∀ call ∈ calls, call.statement.Fresh)
    (hcall : call.statement.Fresh) :
    Undisturbed (after objects calls { pool })
      ((call.run objects).run (after objects calls { pool })).2 := by
  have hb := sound_after hobjects hcalls (sound_empty pool)
  have hcompiles := compiles_call hobjects hcall hb
  have hp := wp_state (wp_mono hcompiles (fun _ _ h => h.1) fun _ _ h => h.1)
  exact hp.undisturbed hb (kept_call hobjects hcall hb)

/-- A rule that takes the messages of the source and then fails. -/
def sampleFailure : Call :=
  .rule (.sequence [.reference .source "in" none, .reference .filter "none" none] .none none)

theorem undisturbed_sample :
    Undisturbed (after sampleObjects (sampleRules.map .rule) { pool := samplePool })
        ((sampleFailure.run sampleObjects).run
          (after sampleObjects (sampleRules.map .rule) { pool := samplePool })).2 ∧
      (after sampleObjects (sampleRules.map .rule) { pool := samplePool }).graph.hops 2 = [3, 8] ∧
      ((sampleFailure.run sampleObjects).run
        (after sampleObjects (sampleRules.map .rule) { pool := samplePool })).2.graph.hops 2 =
          [3, 8, 14] :=
  ⟨undisturbed_after sampleObjects (sampleRules.map .rule) sampleFailure samplePool (by decide +kernel)
    (by decide +kernel) (by decide +kernel), by decide +kernel, by decide +kernel⟩

/-- No call finds that the graph contradicts itself. -/
theorem consistent_after (objects : Objects) (calls : List Call) (call : Call) (pool : Pool σ ω)
    (hobjects : objects.Fresh) (hcalls : ∀ call ∈ calls, call.statement.Fresh)
    (hcall : call.statement.Fresh) (node : Descriptor) (fault : Inconsistency) :
    ((call.run objects).run (after objects calls { pool })).1 ≠ .error (.inconsistent node fault) := by
  have hcompiles := compiles_call hobjects hcall (sound_after hobjects hcalls (sound_empty pool))
  intro h
  unfold Compiles wp at hcompiles
  split at hcompiles
  · next heq =>
    rw [heq] at h
    cases h
  · next heq =>
    rw [heq] at h
    cases h
    exact hcompiles.2

theorem consistent_sample :
    (∀ node fault, ((sampleFailure.run sampleObjects).run
        (after sampleObjects (sampleRules.map .rule) { pool := samplePool })).1 ≠
          .error (.inconsistent node fault)) ∧
      ((sampleFailure.run sampleObjects).run
        (after sampleObjects (sampleRules.map .rule) { pool := samplePool })).1.toBool = false :=
  ⟨consistent_after sampleObjects (sampleRules.map .rule) sampleFailure samplePool (by decide +kernel)
    (by decide +kernel) (by decide +kernel), by decide +kernel⟩

end Compile

end Routing
