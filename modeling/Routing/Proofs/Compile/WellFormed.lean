import Routing.Proofs.Compile.Placed
import Routing.Proofs.Compile.Run
import Routing.Stage.Builtin
/-!
# Well-formed graphs

The compiler may be called for one rule after another and for single statements, and a call that
fails keeps what it added. After every call the graph is well formed and without a cycle.
-/

namespace Routing

variable {σ ω : Type} [Stage σ ω]

namespace Compile

/-- A call of the compiler. -/
inductive Call where
  | rule (s : Statement)
  | node (flowControl : Bool) (s : Statement)

/-- The statement that a call compiles. -/
def Call.statement : Call → Statement
  | rule s => s
  | node _ s => s

/-- What a call does. -/
def Call.run (objects : Objects) : Call → Compile σ ω Fragment
  | rule s => Compile.rule objects s
  | node flowControl s => Compile.node objects flowControl s

/-- The state after several calls. A call that fails leaves what it added. -/
def after (objects : Objects) (calls : List Call) (b : Build σ ω) : Build σ ω :=
  calls.foldl (fun b call => ((call.run objects).run b).2) b

end Compile

namespace Build

open Compile

/-- The graph of a state is well formed. -/
structure WellFormed (b : Build σ ω) : Prop where
  target_lt : ∀ {x k y}, b.graph.HasEdge x k y → y < b.graph.size
  /-- The multiplexers are the stages with hops. -/
  hops_fork : ∀ x, b.graph.hops x ≠ [] ↔ b.graph.role? x = some .multiplexer
  hops_nodup : ∀ x, (b.graph.hops x).Nodup
  /-- Nothing enters a stage that declares to be a source. -/
  plain : ∀ {x k y s}, b.graph.HasEdge x k y → b.graph.slot? y = some s →
    (b.pool.capabilities s.handle).isSource = false
  join : ∀ {y}, b.graph.role? y = some .join →
    b.graph.entering y ≠ [] ∧ ∀ e ∈ b.graph.entering y, e.kind = .next
  attach : ∀ {y}, b.graph.role? y = some .attach →
    ∃ x, b.graph.entering y = [⟨x, y, .hop⟩] ∧ b.graph.role? x = some .multiplexer
  marked : ∀ {y}, b.Marked .destination y → ∀ e ∈ b.graph.entering y, e.kind = .hop
  unique : ∀ {y}, b.graph.role? y ≠ some .join → ¬ b.Marked .destination y →
    (b.graph.entering y).length ≤ 1

variable {b : Build σ ω} {n : Nat} {y : SlotId}

/-- A sound state whose stages are in their places has a well-formed graph. -/
theorem Sound.wellFormed (hb : b.Sound) (hp : Placed n b) : b.WellFormed where
  target_lt := hb.core.target_lt
  hops_fork x := by
    constructor
    · intro h
      obtain ⟨y, hy⟩ := List.exists_mem_of_ne_nil _ h
      exact hb.core.hop_fork (x := x) hy
    · intro hr h
      obtain ⟨y, hy⟩ := (hb.settled x).fork hr
      rw [Graph.hasEdge_hop, h] at hy
      cases hy
  hops_nodup := hb.core.hops_nodup
  plain {x k y s} hxy hs := by
    rw [← hp.source hs, ← hb.core.target_plain hxy]
    simp [Graph.capabilities, hs]
  join {y} hr := by
    obtain ⟨x, hx⟩ := (hb.settled y).join hr
    refine ⟨fun h => ?_, fun e he => ?_⟩
    · have : (⟨x, y, .next⟩ : Edge) ∈ b.graph.entering y := Graph.mem_entering.2 ⟨rfl, hx⟩
      rw [h] at this; cases this
    · obtain ⟨ht, he⟩ := Graph.mem_entering.1 he
      exact hb.core.join_next hr (ht ▸ he)
  attach {y} hr := by
    obtain ⟨x, hx⟩ := (hb.settled y).attach hr
    have hmem : (⟨x, y, .hop⟩ : Edge) ∈ b.graph.entering y := Graph.mem_entering.2 ⟨rfl, hx⟩
    have hlen := hb.core.length_entering (y := y) (by rw [hr]; simp)
      fun hm => (hb.core.marked_role hm).2 hr
    refine ⟨x, ?_, hb.core.hop_fork hx⟩
    obtain ⟨e, he⟩ := List.length_eq_one_iff.1
      (Nat.le_antisymm hlen (List.length_pos_of_mem hmem))
    rw [he] at hmem ⊢
    rw [List.mem_singleton.1 hmem]
  marked hm e he := by
    obtain ⟨ht, he⟩ := Graph.mem_entering.1 he
    exact hb.core.marked_hop hm (ht ▸ he)
  unique := hb.core.length_entering

end Build

namespace Compile

open Build

variable {objects : Objects} {calls : List Call} {b : Build σ ω} {P : Build σ ω → Prop}

theorem after_induction (h : P b)
    (hstep : ∀ call ∈ calls, ∀ b, P b → P ((call.run objects).run b).2) : P (after objects calls b) := by
  induction calls generalizing b with
  | nil => exact h
  | cons call calls ih =>
    exact ih (hstep call (by simp) b h) fun call hc => hstep call (by simp [hc])

theorem compiles_call (hobjects : objects.Fresh) {call : Call} (hcall : call.statement.Fresh)
    (hb : b.Sound) : Compiles b (call.run objects) := by
  cases call with
  | rule s => exact compiles_rule hobjects hb hcall
  | node fc s => exact compiles_node hobjects hb hcall fc

theorem sound_after (hobjects : objects.Fresh) (hcalls : ∀ call ∈ calls, call.statement.Fresh)
    (hb : b.Sound) : (after objects calls b).Sound := by
  refine after_induction hb fun call hc b hb => wp_state ?_
  have hcompiles := compiles_call hobjects (hcalls call hc) hb
  exact wp_mono hcompiles (fun _ _ h => h.1.sound) fun _ _ h => h.1.sound

theorem placed_after {n : Nat} (hobjects : objects.Holds n)
    (hcalls : ∀ call ∈ calls, call.statement.Holds n) (hb : Placed n b) :
    Placed n (after objects calls b) := by
  refine after_induction hb fun call hc b hb => wp_state ?_
  have hholds := hcalls call hc
  cases call with
  | rule s => exact (stable_placed n).rule hobjects hholds b hb
  | node fc s => exact (stable_placed n).node hobjects hholds fc b hb

/-- A source and a destination. -/
def sampleObjects : Objects :=
  [(⟨.source, "in"⟩, .definition .source "in" [.pipe 0 none] none),
    (⟨.destination, "out"⟩, .definition .destination "out" [.pipe 1 none] none)]

/-- A rule, and one with branches that uses the source, the destination and a filter again. -/
def sampleRules : List Statement :=
  [.sequence [.reference .source "in" none, .pipe 2 none, .reference .destination "out" none] .none
      none,
    .sequence [.reference .source "in" none,
      .junction [.sequence [.pipe 2 none] .none none,
        .sequence [.reference .destination "out" none] .none none] none] .none none]

/-- The stages of the source, the destination and the filter. -/
def samplePool : Pool Builtin Shared where
  instances := #[⟨.scripted { label := "in", capabilities := { isSource := true } }, false⟩,
    ⟨.scripted { label := "out" }, false⟩, ⟨.scripted { label := "mark" }, false⟩]
  shared := {}

/-- Whatever is compiled, the graph is well formed. -/
theorem wellFormed_after (objects : Objects) (calls : List Call) (pool : Pool σ ω)
    (hobjects : objects.Fresh ∧ objects.Holds pool.instances.size)
    (hcalls : ∀ call ∈ calls, call.statement.Fresh ∧ call.statement.Holds pool.instances.size) :
    (after objects calls { pool }).WellFormed :=
  (sound_after hobjects.1 (fun call hc => (hcalls call hc).1) (sound_empty pool)).wellFormed
    (placed_after hobjects.2 (fun call hc => (hcalls call hc).2) (placed_of_empty rfl (Nat.le_refl _)))

theorem wellFormed_sample :
    (after sampleObjects (sampleRules.map .rule) { pool := samplePool }).WellFormed ∧
      (after sampleObjects (sampleRules.map .rule) { pool := samplePool }).graph.size = 14 :=
  ⟨wellFormed_after _ _ _ ⟨by decide +kernel, by decide +kernel⟩ (by decide +kernel),
    by decide +kernel⟩

/-- Whatever is compiled, messages do not go in circles. -/
theorem acyclic_after (objects : Objects) (calls : List Call) (pool : Pool σ ω)
    (hobjects : objects.Fresh) (hcalls : ∀ call ∈ calls, call.statement.Fresh) :
    (after objects calls { pool }).graph.Acyclic ∧
      ∀ x, (after objects calls { pool }).graph.next?
        ((after objects calls { pool }).graph.terminal x) = none := by
  have hb := sound_after hobjects hcalls (sound_empty pool)
  exact ⟨hb.core.acyclic, hb.core.acyclic.next?_terminal⟩

theorem acyclic_sample :
    (after sampleObjects (sampleRules.map .rule) { pool := samplePool }).graph.Acyclic ∧
      (after sampleObjects (sampleRules.map .rule) { pool := samplePool }).graph.terminal 8 = 11 :=
  ⟨(acyclic_after sampleObjects (sampleRules.map .rule) samplePool (by decide +kernel)
    (by decide +kernel)).1, by decide +kernel⟩

end Compile

end Routing
