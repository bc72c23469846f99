import Routing.Proofs.Compile.Inference
import Routing.Proofs.Compile.WellFormed
/-!
# Heads after any calls

Whatever was compiled before, a statement that is compiled to something with a head gets the head
that is inferred for the statement, and nothing else can be inferred. What later children of a
sequence add to a head that they share, and what other calls left in the graph, does not show.
-/

namespace Routing

namespace Compile

open Build

variable {σ ω : Type} [Stage σ ω] {c : Catalog} {pool : Pool σ ω} {calls : List Call}

/-- A statement of the catalog gets the front that is inferred for it. -/
theorem inferred_node (hclones : Stage.ClonesAlike σ)
    (hobjects : c.objects.Fresh ∧ c.objects.Holds pool.instances.size) {s : Statement}
    (hs : s.Fresh ∧ s.Holds pool.instances.size) (hlists : s.Each c.Lists) (fc : Bool) :
    (inferred c pool).grounded.Meets s fc (node c.objects fc s) (nodeTrace c.objects fc s) := by
  refine (grounded_inferred c pool hclones).lawful.meets_node (fun entry he p hp => ?_)
    (fun p hp => ⟨hs.1 p hp, hs.2 p hp, hlists p hp⟩) fc
  exact ⟨hobjects.1 entry he p hp, hobjects.2 entry he p hp, Catalog.lists_object he p hp⟩

/-- The calls keep what is known of the remembered destinations. -/
theorem known_after (hclones : Stage.ClonesAlike σ)
    (hobjects : c.objects.Fresh ∧ c.objects.Holds pool.instances.size)
    (hrules : ∀ s ∈ c.rules, s.Fresh ∧ s.Holds pool.instances.size)
    (hcalls : ∀ call ∈ calls, call.statement ∈ c.rules) :
    (after c.objects calls { pool }).Sound ∧ Known c pool (after c.objects calls { pool }) := by
  refine after_induction (P := fun b => b.Sound ∧ Known c pool b)
    ⟨sound_empty pool, known_start c pool⟩ fun call hcall b hb => ?_
  have hmem := hcalls call hcall
  have hs := hrules _ hmem
  have hlists := Catalog.lists_rule hmem
  refine wp_state (P := fun b => b.Sound ∧ Known c pool b) ?_
  cases call with
  | rule s =>
    have hs' := And.intro (hs.1.expandCatchAll c.objects) (hs.2.expandCatchAll c.objects)
    exact wp_mono (inferred_node hclones hobjects hs' (Catalog.lists_expandCatchAll hlists) false b hb)
      (fun _ _ h => ⟨h.1.1.sound, h.2.1⟩) fun _ _ h => ⟨h.1.1.sound, h.2⟩
  | node fc s =>
    exact wp_mono (inferred_node hclones hobjects hs hlists fc b hb)
      (fun _ _ h => ⟨h.1.1.sound, h.2.1⟩) fun _ _ h => ⟨h.1.1.sound, h.2⟩

/-- The capabilities of the head that a statement gets after any calls are the ones that can be
inferred for the statement, and the only ones. -/
theorem inferred_after (hclones : Stage.ClonesAlike σ) (objects : Objects) (pool : Pool σ ω)
    (calls : List Call) (s : Statement)
    (hobjects : objects.Fresh ∧ objects.Holds pool.instances.size)
    (hcalls : ∀ call ∈ calls, call.statement.Fresh ∧ call.statement.Holds pool.instances.size)
    (hs : s.Fresh ∧ s.Holds pool.instances.size) (fc : Bool) {f : Fragment} {b : Build σ ω}
    {h : SlotId} (hrun : (node objects fc s).run (after objects calls { pool }) = (.ok f, b))
    (hh : f.head = some h) (e : Front) :
    Infers objects pool.capabilities s fc e ↔ e = .headed (b.graph.capabilities h) := by
  -- what is known of destinations speaks of a catalog: its rules are all that is compiled here
  let c : Catalog := ⟨objects, s :: calls.map Call.statement⟩
  have hrules : ∀ t ∈ c.rules, t.Fresh ∧ t.Holds pool.instances.size := by
    intro t ht
    rcases List.mem_cons.1 ht with rfl | ht
    · exact hs
    · obtain ⟨call, hcall, rfl⟩ := List.mem_map.1 ht
      exact hcalls call hcall
  have hmem : ∀ call ∈ calls, call.statement ∈ c.rules := fun call hcall =>
    List.mem_cons_of_mem _ (List.mem_map_of_mem hcall)
  have hnode := inferred_node (c := c) hclones hobjects hs (Catalog.lists_rule List.mem_cons_self) fc
  have hinfers := (wp_ok (hnode _ (known_after hclones hobjects hrules hmem)) hrun).2.2
  rw [front_some hh] at hinfers
  exact ⟨fun he => he.unique hinfers, fun he => he ▸ hinfers⟩

/-- The stages of the sample, some of which change messages or hold their senders back. -/
def sampleHeads : Pool Builtin Shared where
  instances := #[⟨.scripted { label := "in", capabilities := { isSource := true } }, false⟩,
    ⟨.scripted { label := "out", capabilities := { hardFlowControl := true } }, false⟩,
    ⟨.scripted { label := "mark", capabilities := { changesMessage := true } }, false⟩,
    ⟨.scripted { label := "slow", capabilities := { hardFlowControl := true } }, false⟩]
  shared := {}

/-- Two sequences and a junction share a head, and the stage that changes messages comes last. -/
def sampleNested : Statement :=
  .sequence [.sequence [.junction [.sequence [.pipe 3 none] { final := true } none,
      .sequence [.reference .destination "out" none] .none none] none] { fallback := true } none,
    .sequence [.pipe 2 none] .none none] .none none

theorem inferred_sample :
    Infers sampleObjects sampleHeads.capabilities sampleNested false
      (.headed { changesMessage := true, hardFlowControl := true, branchFallback := true }) := by
  have hrun : ((node sampleObjects false sampleNested).run
      (after sampleObjects (sampleRules.map .rule) { pool := sampleHeads })).1.toOption =
        some ⟨some 15, some 18⟩ := by decide +kernel
  have hcaps : ((node sampleObjects false sampleNested).run
      (after sampleObjects (sampleRules.map .rule) { pool := sampleHeads })).2.graph.capabilities 15 =
        { changesMessage := true, hardFlowControl := true, branchFallback := true } := by
    decide +kernel
  rcases hb : (node sampleObjects false sampleNested).run
      (after sampleObjects (sampleRules.map .rule) { pool := sampleHeads }) with ⟨e | f, b⟩
  · rw [hb] at hrun
    cases hrun
  · rw [hb] at hrun hcaps
    cases hrun
    rw [← hcaps]
    exact (inferred_after clonesAlike_builtin sampleObjects sampleHeads (sampleRules.map .rule)
      sampleNested ⟨by decide +kernel, by decide +kernel⟩ (by decide +kernel)
      ⟨by decide +kernel, by decide +kernel⟩ false hb rfl _).2 rfl

end Compile

end Routing
