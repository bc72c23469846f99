import Routing.Proofs.Compile.Destinations
import Routing.Proofs.Lifecycle.Sources
/-!
# Destinations of a deployment

When a deployment is compiled, each destination is compiled at most once, for whichever reference
comes to it first, and every completed reference has a fork of its own that leads into it. Nothing
leads out of a destination to what hangs together with such a fork, so that a rule goes on only with
what follows the fork.
-/

namespace Routing

variable {σ ω : Type}

namespace Build

/-- Messages go straight from one stage to the other and do not enter a remembered destination. -/
def Continues (b : Build σ ω) (x y : SlotId) : Prop :=
  b.graph.Feeds x y ∧ ¬ b.Marked .destination y

/-- Destinations are shared by their references: what happened on the way from nothing to the
state. -/
structure Supplies (l : Trace σ ω) (b : Build σ ω) : Prop where
  /-- Nothing is compiled twice. -/
  once : l.opened.Nodup
  kept : (l.map Moment.state ++ [b]).Pairwise Kept
  /-- A destination that is remembered was compiled, and what hops to it are the forks of its
  references. -/
  forks : ∀ {key d}, key.kind = .destination → b.memos.lookup key = some d → key ∈ l.opened ∧
    List.Forall₂ (fun m x => ∃ c c', m = Moment.joined key ⟨some x, none⟩ c c' ∧
      c.graph.size ≤ x ∧ c'.graph.size = x + 1) (l.joints key) (b.graph.forksTo d)
  alone : ∀ {key d}, key.kind = .destination → b.memos.lookup key = some d →
    ∀ x ∈ b.graph.forksTo d, b.graph.role? x = some .multiplexer ∧ b.graph.hops x = [d]
  unused : ∀ {key : TargetKey}, key.kind = .destination → b.memos.lookup key = none →
    l.joints key = []
  next : ∀ {key d}, key.kind = .destination → b.memos.lookup key = some d →
    ∀ x, b.graph.next? x ≠ some d
  distinct : ∀ {key key' d d'}, key.kind = .destination → key'.kind = .destination → key ≠ key' →
    b.memos.lookup key = some d → b.memos.lookup key' = some d' → d ≠ d'
  /-- A rule goes on with what follows the fork. -/
  onward : ∀ {key d x y}, key.kind = .destination → b.memos.lookup key = some d →
    x ∈ b.graph.forksTo d → b.Continues x y → b.graph.next? x = some y
  /-- What a rule goes on with is not reached from the destination. -/
  apart : ∀ {key d x y}, key.kind = .destination → b.memos.lookup key = some d →
    x ∈ b.graph.forksTo d → Relation.EqvGen b.Continues x y → ¬ b.graph.Reaches d y

variable {b b' : Build σ ω} {l : Trace σ ω} {d x y : SlotId}

/-- A destination reaches both of two stages that hang together, or none. -/
theorem Core.reaches_iff (hb : b.Core) (hd : b.Marked .destination d)
    (h : Relation.EqvGen b.Continues x y) : b.graph.Reaches d x ↔ b.graph.Reaches d y := by
  induction h with
  | rel x y h =>
    constructor
    · exact fun hr => hr.tail h.1
    · exact fun hr => (hb.shut hd h.1 hr).resolve_right h.2
  | refl x => exact Iff.rfl
  | symm x y _ ih => exact ih.symm
  | trans x y z _ _ ih ih' => exact ih.trans ih'

/-- No destination reaches a fork that hops to it. -/
theorem Core.not_reaches_fork (hb : b.Core) (hx : d ∈ b.graph.hops x) : ¬ b.graph.Reaches d x := by
  intro hr
  have hfeeds : b.graph.Feeds x d := Graph.HasEdge.feeds (k := .hop) hx
  exact hb.acyclic x (.head' hfeeds hr)

theorem Supplied.supplies (hf : Supplied b l b') (hr : Remembers b l b') (hb : b.memos = [])
    (hs : b'.Sound) : Supplies l b' := by
  have hmarked : ∀ {key : TargetKey} {d}, key.kind = .destination → b'.memos.lookup key = some d →
      b'.Marked .destination d := fun {key _} hk hd => ⟨key, hk, Compile.mem_of_lookup hd⟩
  refine ⟨hr.nodup, (List.pairwise_cons.1 hr.kept).2, ?_, ?_, ?_, ?_, ?_, ?_, ?_⟩
  · intro key d hk hd
    have hforks : b'.graph.forksTo d = l.points Fragment.head key := by
      have hinlets := hf.inlets hk
      have hnone : b.memos.lookup key = none := by rw [hb]; rfl
      rwa [inlets_of_some hd, inlets_of_none hnone, List.nil_append] at hinlets
    refine ⟨hr.opened_of_lookup hb hd, ?_⟩
    rw [hforks]
    refine forall₂_points fun hm => ?_
    obtain ⟨x, rfl, hle, hsize⟩ := hf.head hm hk
    exact ⟨x, rfl, _, _, rfl, hle, hsize⟩
  · intro key d hk hd x hx
    have hx := Graph.mem_forksTo.1 hx
    exact ⟨hs.core.hop_fork hx, (hf.exclusive.alone (hmarked hk hd) hx).1⟩
  · exact fun hk => hr.joints_eq_nil (.inr hk)
  · intro key d hk hd x hx
    cases hs.core.marked_hop (hmarked hk hd) (k := .next) hx
  · intro key key' d d' hk hk' hne hd hd' heq
    subst heq
    exact hne (hf.exclusive.distinct hk hk' hd hd')
  · rintro key d x y hk hd hx ⟨⟨_ | _, hxy⟩, hy⟩
    · exact hxy
    · -- the only hop is the one to the destination
      have hhops := (hf.exclusive.alone (hmarked hk hd) (Graph.mem_forksTo.1 hx)).1
      rw [Graph.hasEdge_hop, hhops, List.mem_singleton] at hxy
      exact absurd (hxy ▸ hmarked hk hd) hy
  · intro key d x y hk hd hx hxy hr
    have hdx := (hs.core.reaches_iff (hmarked hk hd) hxy).2 hr
    exact hs.core.not_reaches_fork (Graph.mem_forksTo.1 hx) hdx

end Build

namespace Deployment

open Compile Build

variable [Stage σ ω]

/-- Compiling makes references share their destinations. -/
theorem supplies_compile (d : Deployment σ ω) (hstatus : d.status = .uncompiled)
    (hbuild : d.build = { pool := d.pool }) (hobjects : d.catalog.objects.Fresh)
    (hrules : ∀ rule ∈ d.catalog.rules, rule.Fresh) (hc : d.catalog.Acyclic) :
    Supplies d.moments d.compile.2.build := by
  have heach : ∀ entry ∈ d.catalog.objects,
      entry.2.Each fun p => p.heading.memo = none ∧ d.catalog.Lists p := fun entry he p hp =>
    ⟨hobjects entry he p hp, Catalog.lists_object he p hp⟩
  have hexpand : ∀ rule ∈ d.catalog.rules, (rule.expandCatchAll d.catalog.objects).Each
      fun p => p.heading.memo = none ∧ d.catalog.Lists p := fun rule hr p hp =>
    ⟨(hrules rule hr).expandCatchAll _ p hp, Catalog.lists_expandCatchAll (Catalog.lists_rule hr) p hp⟩
  have hb : d.build.Sound := by
    rw [hbuild]
    exact sound_empty _
  have hmemos : d.build.memos = [] := by rw [hbuild]
  have hexclusive : d.build.Exclusive := by
    refine ⟨fun key key' t _ _ ht => ?_, fun ⟨key, _, hm⟩ => ?_⟩
    · rw [hmemos] at ht
      cases ht
    · rw [hmemos] at hm
      cases hm
  rw [compile, hstatus, build_compileNow]
  obtain ⟨hsound, hremembers⟩ := (tally_recalls hc).rules heach hexpand hb 0
  obtain ⟨-, hsupplied⟩ := (tally_supplied hc).rules heach hexpand hb 0
  exact (hsupplied hexclusive).supplies hremembers hmemos hsound

/-- Rules that share destinations: one for each of two, where the second hands its messages to the
first, one with a destination in place of a name, and one that fails. -/
def sampleSupply : Deployment Builtin Shared where
  catalog :=
    { objects :=
        [(⟨.destination, "out"⟩, .definition .destination "out" [.pipe 1 none] none),
          (⟨.destination, "relay"⟩, .definition .destination "relay"
            [.pipe 2 none, .reference .destination "out" none] none)]
      rules :=
        [.sequence [.pipe 2 none, .reference .destination "out" none, .pipe 2 none] .none none,
          .sequence [.inline 0 .destination [.pipe 1 none] none,
            .reference .destination "relay" none, .pipe 2 none] .none none,
          .sequence [.junction [.reference .destination "relay" none,
            .reference .destination "out" none] none, .reference .filter "none" none] .none none] }
  build := { pool := samplePool }

theorem supplies_sample :
    Supplies sampleSupply.moments sampleSupply.compile.2.build ∧
      sampleSupply.compile.1.toBool = false ∧
      (sampleSupply.moments.joints ⟨.destination, .named "out"⟩).length = 3 ∧
      sampleSupply.compile.2.build.memos.lookup ⟨.destination, .named "out"⟩ = some 1 ∧
      sampleSupply.compile.2.graph.forksTo 1 = [2, 7, 12] :=
  -- the second destination refers to the first, and nothing refers to the second but rules
  have hc : sampleSupply.catalog.Acyclic :=
    Catalog.acyclic_of_rank (fun key => if key.id = .named "relay" then 1 else 0) (by decide +kernel)
  ⟨supplies_compile sampleSupply rfl rfl (by decide +kernel) (by decide +kernel) hc,
    by decide +kernel, by decide +kernel, by decide +kernel, by decide +kernel⟩

end Deployment

end Routing
