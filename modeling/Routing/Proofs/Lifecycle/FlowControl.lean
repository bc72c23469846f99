import Routing.Proofs.Compile.Holding
import Routing.Proofs.Compile.Tasks
import Routing.Proofs.Lifecycle.Capabilities
/-!
# Flow control in compiled deployments

A stage that holds its senders back shows at the head of the rule that brings it, unless a reference
to a destination stands between. The flag of a child reaches every head below the child; the flag of
a rule reaches the head of the rule only.
-/

namespace Routing

variable {σ ω : Type} [Stage σ ω]

namespace Deployment

open Compile Build

/-- A stage that holds its senders back shows at the heads of compiled rules and destinations. -/
structure Holding (d c : Deployment σ ω) : Prop where
  /-- A rule that brings one and compiles after those before it did holds its senders back. -/
  rule : ∀ {i rule f b h}, d.catalog.rules[i]? = some rule →
    (compileRules d.catalog.objects 0 (d.catalog.rules.take i) d.build).1.1 = none →
    (Compile.rule d.catalog.objects rule).run (d.stateAt i) = (.ok f, b) → f.head = some h →
    Brings d.catalog.objects d.pool.capabilities Kind.Anew rule →
    (c.graph.capabilities h).hardFlowControl = true
  /-- A destination that brings one holds its senders back, whichever rules refer to it. -/
  destination : ∀ {key x}, c.build.memos.lookup key = some x → key.kind = .destination →
    ∃ t, (key, t) ∈ d.catalog.targets ∧
      (Brings d.catalog.objects d.pool.capabilities Kind.Anew t →
        (c.graph.capabilities x).hardFlowControl = true)

theorem Registered.held {d : Deployment σ ω} (hd : d.Registered) (hclones : Stage.ClonesAlike σ)
    (i : Nat) : (d.stateAt i).Sound ∧ Held d.catalog d.pool (d.stateAt i) := by
  refine hd.ready_at (grounded_holding d.catalog d.pool hclones)
    (fun _ hbelow hlists => ⟨hbelow, hlists⟩) ?_ (fun h => h.1) id i
  rw [hd.build]
  exact ⟨⟨Nat.le_refl _, fun _ => rfl, id⟩, fun hm => absurd hm List.not_mem_nil⟩

theorem holding_compile (hclones : Stage.ClonesAlike σ) (d : Deployment σ ω) (hd : d.Registered) :
    d.Holding d.compile.2 where
  rule := by
    intro i rule f b h hi hok hrun hh hbrings
    have hmem : rule ∈ d.catalog.rules := List.mem_of_getElem? hi
    have hmeets := hd.meets_rule (grounded_holding d.catalog d.pool hclones)
      (fun _ hbelow hlists => ⟨hbelow, hlists⟩) hmem (hd.held hclones i)
    obtain ⟨⟨-, hfits⟩, -, hshows⟩ := wp_ok hmeets hrun
    have hhead : (b.graph.capabilities h).hardFlowControl = true := by
      obtain ⟨head, tail⟩ := f
      cases hh
      exact holds_headed (hshows hbrings.expandCatchAll)
    have hbare : (d.stateAt i).Bare := (enriches_compileRules (bare_start hd.build) 0).bare
    have he := (wp_ok (heads_node d.catalog.objects (rule.expandCatchAll d.catalog.objects) false
      hbare) hrun).1
    have hlater := enriches_later hd.status hi hok (by rw [hrun]; exact he.bare)
    rw [hrun] at hlater
    obtain ⟨more, hmore⟩ := hlater.capabilities (hfits.head hh).lt
    rw [graph, hmore]
    simp [Capabilities.union, hhead]
  destination := by
    intro key x hx hk
    have hheld := (hd.held hclones d.catalog.rules.length).2
    rw [stateAt, List.take_length, ← build_compileNow] at hheld
    rw [compile, hd.status] at hx ⊢
    exact hheld.head (mem_of_lookup hx) hk

/-- A rule with a stage that holds its senders back three levels down. -/
def sampleDeep : Statement :=
  .sequence [.pipe 2 none, .junction [.sequence [.reference .filter "slow" none] .none none] none]
    .none none

def sampleHolding : Deployment Builtin Shared where
  catalog :=
    { objects := [(⟨.destination, "out"⟩, .definition .destination "out" [.pipe 0 none] none),
        (⟨.filter, "slow"⟩, .definition .filter "slow" [.pipe 1 none] none)]
      rules := [sampleDeep] }
  build :=
    { pool :=
        { instances := #[⟨.scripted { label := "out", capabilities := { hardFlowControl := true } },
              false⟩,
            ⟨.scripted { label := "slow", capabilities := { hardFlowControl := true } }, false⟩,
            ⟨.scripted { label := "first" }, false⟩]
          shared := {} } }

theorem holding_sample :
    (sampleHolding.compile.2.graph.capabilities 0).hardFlowControl = true := by
  have hregistered : sampleHolding.Registered :=
    ⟨rfl, rfl, ⟨by decide +kernel, by decide +kernel⟩, by decide +kernel⟩
  have hslow : Brings sampleHolding.catalog.objects sampleHolding.pool.capabilities Kind.Anew
      (.reference .filter "slow" none) :=
    .target rfl rfl (by decide) (.child (.inl rfl) (.head _) (.stage rfl rfl))
  have hdeep : Brings sampleHolding.catalog.objects sampleHolding.pool.capabilities Kind.Anew
      sampleDeep :=
    .child (.inl rfl) (.tail _ (.head _)) (.child (.inr rfl) (.head _)
      (.child (.inl rfl) (.head _) hslow))
  have hrun : ((Compile.rule sampleHolding.catalog.objects sampleDeep).run
      (sampleHolding.stateAt 0)).1.toOption = some ⟨some 0, some 3⟩ := by decide +kernel
  rcases hb : (Compile.rule sampleHolding.catalog.objects sampleDeep).run
      (sampleHolding.stateAt 0) with ⟨e | f, b⟩
  · rw [hb] at hrun
    cases hrun
  · rw [hb] at hrun
    cases hrun
    exact (holding_compile clonesAlike_builtin sampleHolding hregistered).rule rfl
      (by decide +kernel) hb rfl hdeep

/-- A rule with a destination that holds its senders back. -/
def sampleBehind : Statement :=
  .sequence [.pipe 2 none, .reference .destination "out" none] .none none

/-- The destination of the rule holds its senders back, and the head of the rule does not show it: the
fork to the destination shows nothing. -/
theorem hold_unseen :
    Brings sampleHolding.catalog.objects sampleHolding.pool.capabilities (· ≠ .source)
        sampleBehind ∧
      (sampleHolding.withRules [sampleBehind]).compile.1 = .ok () ∧
      ((Compile.rule sampleHolding.catalog.objects sampleBehind).run
        sampleHolding.build).1.toOption = some ⟨some 0, some 2⟩ ∧
      (sampleHolding.withRules [sampleBehind]).compile.2.graph.edges = [(0, 2), (2, 1)] ∧
      ((sampleHolding.withRules [sampleBehind]).compile.2.graph.capabilities 1).hardFlowControl =
        true ∧
      (sampleHolding.withRules [sampleBehind]).compile.2.graph.capabilities 2 = .none ∧
      (sampleHolding.withRules [sampleBehind]).compile.2.graph.capabilities 0 = .none := by
  refine ⟨?_, by decide +kernel, by decide +kernel, by decide +kernel, by decide +kernel,
    by decide +kernel, by decide +kernel⟩
  have hout : Brings sampleHolding.catalog.objects sampleHolding.pool.capabilities (· ≠ .source)
      (.reference .destination "out" none) :=
    .target rfl rfl (by decide) (.child (.inl rfl) (.head _) (.stage rfl rfl))
  exact .child (.inl rfl) (.tail _ (.head _)) hout

/-! ### Flags and what is nested -/

/-- The compiling of a rule after so many others. -/
def task (d : Deployment σ ω) (i : Nat) (rule : Statement) : Task σ ω where
  depth := d.catalog.objects.length
  around := none
  flowControl := false
  statement := rule.expandCatchAll d.catalog.objects
  state := d.stateAt i

/-- The flag of a child reaches every sequence and junction that is compiled below the child: its
head holds its senders back in the end. -/
theorem reaching_compile (d : Deployment σ ω) (hstatus : d.status = .uncompiled)
    (hbuild : d.build = { pool := d.pool }) {i : Nat} {rule : Statement}
    (hi : d.catalog.rules[i]? = some rule)
    (hok : (compileRules d.catalog.objects 0 (d.catalog.rules.take i) d.build).1.1 = none)
    {x y z : Task σ ω} (hx : (d.task i rule).Reaches d.catalog.objects x)
    (hy : x.Child d.catalog.objects y) (hflag : y.statement.flags.flowControl = true)
    (hz : y.Reaches d.catalog.objects z)
    (hshape : z.statement.shape = .sequence ∨ z.statement.shape = .junction) {f : Fragment}
    {b : Build σ ω} {h : SlotId} (hrun : z.result d.catalog.objects = (.ok f, b))
    (hh : f.head = some h) : (d.compile.2.graph.capabilities h).hardFlowControl = true := by
  have hroot : (d.task i rule).state.Bare := (enriches_compileRules (bare_start hbuild) 0).bare
  have hyz : (d.task i rule).Reaches d.catalog.objects z := (hx.tail (.inl hy)).trans hz
  obtain ⟨hlt, hhead⟩ := Task.holds_result (hyz.bare hroot)
    (hz.flowControl (hy.flowControl hflag)) hshape hrun hh
  have hrest : Enriches b ((d.task i rule).result d.catalog.objects).2 := by
    have he := hyz.enriches hroot
    rw [hrun] at he
    exact he
  have hlater : Enriches ((d.task i rule).result d.catalog.objects).2 d.compile.2.build :=
    enriches_later hstatus hi hok hrest.bare
  obtain ⟨more, hmore⟩ := (hrest.trans hlater).capabilities hlt
  rw [graph, hmore]
  simp [Capabilities.union, hhead]

/-- A rule with a child that has the flag, and a sequence in the child. -/
def sampleInner : Statement :=
  .sequence [.pipe 2 none,
    .sequence [.pipe 1 none, .sequence [.pipe 0 none] .none none] { flowControl := true } none]
    .none none

/-- A rule that has the flag itself, and a sequence in it. -/
def sampleOuter : Statement :=
  .sequence [.pipe 2 none, .sequence [.pipe 0 none] .none none] { flowControl := true } none

/-- A deployment with one rule. -/
def sampleReaching (rule : Statement) : Deployment Builtin Shared where
  catalog := { objects := [], rules := [rule] }
  build :=
    { pool :=
        { instances := #[⟨.scripted { label := "last" }, false⟩,
            ⟨.scripted { label := "next" }, false⟩, ⟨.scripted { label := "first" }, false⟩]
          shared := {} } }

theorem reaching_sample :
    ((sampleReaching sampleInner).compile.2.graph.capabilities 2).hardFlowControl = true := by
  have hy : ((sampleReaching sampleInner).task 0 sampleInner).Child [] _ :=
    .sequence (c := { first := some 0, last := some 0, pastSources := true }) rfl rfl
      (show Statement.children _ = [.pipe 2 none] ++ _ :: [] from rfl)
      (run_eq_ok (by decide +kernel))
  refine reaching_compile (sampleReaching sampleInner) rfl rfl rfl (by decide +kernel) .refl hy rfl
    (.single (.inl (.sequence (c := { first := some 1, last := some 1, pastSources := true }) rfl rfl
      (show Statement.children _ = [.pipe 1 none] ++ _ :: [] from rfl)
      (run_eq_ok (by decide +kernel))))) (.inl rfl) (f := ⟨some 2, some 2⟩)
      (run_eq_ok (by decide +kernel)) rfl

/-- The flag of a rule reaches the head of the rule, and not the head of a sequence in it. -/
theorem flag_unseen :
    ∃ z, ((sampleReaching sampleOuter).task 0 sampleOuter).Child [] z ∧
      ((sampleReaching sampleOuter).task 0 sampleOuter).statement.flags.flowControl = true ∧
      z.statement.shape = .sequence ∧ (z.result []).1.toOption = some ⟨some 1, some 1⟩ ∧
      (sampleReaching sampleOuter).compile.1 = .ok () ∧
      ((sampleReaching sampleOuter).compile.2.graph.capabilities 0).hardFlowControl = true ∧
      (sampleReaching sampleOuter).compile.2.graph.capabilities 1 = .none := by
  refine ⟨_, .sequence (c := { first := some 0, last := some 0, pastSources := true }) rfl rfl
    (show Statement.children _ = [.pipe 2 none] ++ _ :: [] from rfl) (run_eq_ok (by decide +kernel)),
    rfl, rfl, by decide +kernel, by decide +kernel, by decide +kernel, by decide +kernel⟩

end Deployment

end Routing
