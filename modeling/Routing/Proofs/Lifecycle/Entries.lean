import Routing.Proofs.Compile.Covers
import Routing.Proofs.Graph.Walks
import Routing.Proofs.Lifecycle.FlowControl
/-!
# Where messages enter a compiled deployment

Messages enter a graph at its sources, at the heads of its rules, and at the heads of the bodies of
sources. If all rules compile, these are the only slots that nothing enters, and every slot is on a
way from one of them. So no stage is lost.
-/

namespace Routing

variable {σ ω : Type} [Stage σ ω]

namespace Deployment

open Compile Build

/-- Messages may enter the compiled deployment at the slot. -/
inductive Entry (d : Deployment σ ω) : SlotId → Prop
  /-- The stage of the slot is a source. -/
  | source {x : SlotId} {s : Slot} (hs : d.compile.2.graph.slot? x = some s)
    (hsource : (d.compile.2.pool.capabilities s.handle).isSource = true) : Entry d x
  /-- A rule is compiled to a part with this head. -/
  | rule {i : Nat} {rule : Statement} {f : Fragment} {b : Build σ ω} {x : SlotId}
    (hi : d.catalog.rules[i]? = some rule)
    (hrun : (Compile.rule d.catalog.objects rule).run (d.stateAt i) = (.ok f, b))
    (hx : f.head = some x) : Entry d x
  /-- The body of a source to which a rule leads is compiled to a part with this head. -/
  | body {i : Nat} {rule : Statement} {x : SlotId} (hi : d.catalog.rules[i]? = some rule)
    (hx : (d.task i rule).Opens d.catalog.objects x) : Entry d x

variable {d : Deployment σ ω}

theorem Registered.sound_task (hd : d.Registered) {i : Nat} {rule : Statement}
    (hi : d.catalog.rules[i]? = some rule) (hb : (d.stateAt i).Sound) : (d.task i rule).Sound :=
  ⟨hb, (hd.rules rule (List.mem_of_getElem? hi)).1.expandCatchAll _⟩

/-- As many rules as are compiled, no slot is lost. -/
theorem Registered.covers_at (hd : d.Registered) (hok : d.compile.1 = .ok ()) {i : Nat}
    (hi : i ≤ d.catalog.rules.length) :
    (d.stateAt i).Sound ∧ Covers d.build (d.stateAt i) d.Entry := by
  induction i with
  | zero =>
    have hstart : d.stateAt 0 = d.build := rfl
    rw [hstart]
    refine ⟨?_, .refl _ _⟩
    rw [hd.build]
    exact sound_empty _
  | succ i ih =>
    obtain ⟨hb, hcovers⟩ := ih (Nat.le_of_succ_le hi)
    have hrule : d.catalog.rules[i]? = some d.catalog.rules[i] := List.getElem?_eq_getElem hi
    have hk : (d.task i d.catalog.rules[i]).Sound := hd.sound_task hrule hb
    obtain ⟨f, hrun⟩ := compileRules_run 0 (compileRules_ok hd.status hok) hrule
    have hwork : ((d.task i d.catalog.rules[i]).work d.catalog.objects).run (d.stateAt i) =
        (.ok f, d.stateAt (i + 1)) := hrun
    have hp : Progress (d.stateAt i) (d.stateAt (i + 1)) :=
      (wp_ok (hk.compiles hd.objects.1) hwork).1
    have hadded := wp_ok (Task.covers hd.objects.1 _ hk) hwork
    refine ⟨hp.sound, hcovers.trans (hadded.mono fun x hx => ?_) hp.extends_⟩
    exact hx.elim (.rule hrule hrun) (.body hrule)

theorem Registered.placed (hd : d.Registered) :
    Placed d.pool.instances.size d.compile.2.build := by
  have hstart : Placed d.pool.instances.size d.build := by
    rw [hd.build]
    exact placed_of_empty rfl (Nat.le_refl _)
  rw [compile, hd.status, build_compileNow]
  exact compileRules_induction (P := fun b => Placed d.pool.instances.size b) hstart
    (fun rule hr b hb => wp_state ((stable_placed _).rule hd.objects.2 (hd.rules rule hr).2 b hb)) 0

/-- If all rules compile, every slot that nothing enters is an entry, and every slot is on a way from
an entry. -/
theorem entries_compile (d : Deployment σ ω) (hd : d.Registered) (hok : d.compile.1 = .ok ()) :
    (∀ x, x < d.compile.2.graph.size → (∀ y, ¬ d.compile.2.graph.Feeds y x) → d.Entry x) ∧
      ∀ x, x < d.compile.2.graph.size → ∃ e, d.Entry e ∧ d.compile.2.graph.Reaches e x := by
  have hend : d.stateAt d.catalog.rules.length = d.compile.2.build := by
    rw [stateAt, List.take_length, compile, hd.status, build_compileNow]
  obtain ⟨hb, hcovers⟩ := hd.covers_at hok (Nat.le_refl _)
  rw [hend] at hb hcovers
  have hentry : ∀ x, x < d.compile.2.graph.size → (∀ y, ¬ d.compile.2.graph.Feeds y x) →
      d.Entry x := by
    intro x hlt hfree
    have hnew : d.build.graph.size ≤ x := by
      rw [hd.build]
      exact Nat.zero_le x
    rcases hcovers x hnew hlt with ⟨y, hy⟩ | hs | hx
    · exact absurd hy (hfree y)
    · obtain ⟨s, hslot⟩ := Graph.exists_slot hlt
      refine .source hslot ?_
      change d.compile.2.build.graph.slot? x = some s at hslot
      rw [Graph.capabilities, hslot] at hs
      rw [← hs]
      exact (hd.placed.source hslot).symm
    · exact hx
  refine ⟨hentry, fun x hlt => ?_⟩
  -- by induction on the graph, which has no cycle: some slot before it has an entry before it
  induction x using hb.core.acyclic.induction with
  | h x ih =>
    by_cases hfed : ∃ y, d.compile.2.graph.Feeds y x
    · obtain ⟨y, hy⟩ := hfed
      obtain ⟨e, he, hreaches⟩ := ih y hy hy.source_lt
      exact ⟨e, he, hreaches.tail hy⟩
    · exact ⟨x, hentry x hlt (by simpa using hfed), .refl⟩

/-- The body of one source is a source stage, that of the other is not and has a head; the second rule
has a head and no source. -/
def sampleEntries : Deployment Builtin Shared where
  catalog :=
    { objects :=
        [(⟨.source, "in"⟩, .definition .source "in" [.pipe 0 none] none),
          (⟨.source, "tick"⟩, .definition .source "tick" [.pipe 1 none] none)]
      rules :=
        [.sequence [.reference .source "in" none, .reference .source "tick" none, .pipe 2 none]
            .none none,
          .sequence [.pipe 2 none] .none none] }
  build := { pool := samplePool }

theorem entries_sample :
    sampleEntries.compile.2.graph.size = 10 ∧ sampleEntries.Entry 5 ∧
      ∃ e, sampleEntries.Entry e ∧ sampleEntries.compile.2.graph.Reaches e 8 := by
  have hsize : sampleEntries.compile.2.graph.size = 10 := by decide +kernel
  have hd : sampleEntries.Registered :=
    ⟨rfl, rfl, ⟨by decide +kernel, by decide +kernel⟩, by decide +kernel⟩
  have hok : sampleEntries.compile.1 = .ok () := by decide +kernel
  have hfree : sampleEntries.compile.2.graph.entering 5 = [] := by decide +kernel
  obtain ⟨hentry, hreaches⟩ := entries_compile sampleEntries hd hok
  refine ⟨hsize, hentry 5 (by omega) ?_, hreaches 8 (by omega)⟩
  rintro y ⟨k, hk⟩
  have hmem : (⟨y, 5, k⟩ : Edge) ∈ sampleEntries.compile.2.graph.entering 5 :=
    Graph.mem_entering.2 ⟨rfl, hk⟩
  rw [hfree] at hmem
  cases hmem

end Deployment

end Routing
