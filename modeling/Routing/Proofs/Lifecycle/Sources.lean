import Routing.Proofs.Compile.Sources
import Routing.Proofs.Lifecycle.Runs
/-!
# Sources of a deployment

When a deployment is compiled, each source is compiled at most once, for whichever reference comes
to it first, and every completed reference has its own attach point at the fork of the source. This
is so whether all rules compile or one of them fails.
-/

namespace Routing

variable {σ ω : Type} [Stage σ ω]

namespace Compile

/-- What is kept of each rule is kept of the rules up to the first that fails. -/
theorem Tally.rules {objects : Objects} {P : Statement → Prop}
    {R R' : Build σ ω → Trace σ ω → Build σ ω → Prop} (hR : Tally objects P R R')
    (hobjects : ∀ entry ∈ objects, entry.2.Each fun p => p.heading.memo = none ∧ P p)
    {rules : List Statement}
    (hrules : ∀ s ∈ rules, (s.expandCatchAll objects).Each fun p => p.heading.memo = none ∧ P p)
    {b : Build σ ω} (hb : b.Sound) (i : Nat) :
    (Deployment.compileRules objects i rules b).2.Sound ∧
      R' b (rulesTrace objects rules b) (Deployment.compileRules objects i rules b).2 := by
  induction rules generalizing b i with
  | nil => exact ⟨hb, hR.weaken (hR.refl hb)⟩
  | cons s ss ih =>
    have hfirst := hR.lawful.meets_node hobjects (hrules s (by simp)) false b ⟨hb, trivial⟩
    have hrest := fun {b} => @ih (fun s hs => hrules s (by simp [hs])) b
    change wp (rule objects s) _ _ b at hfirst
    unfold wp at hfirst
    rw [rulesTrace, onward, Deployment.compileRules_cons]
    rcases hrun : (rule objects s).run b with ⟨e | f, b₁⟩
    · rw [hrun] at hfirst
      obtain ⟨⟨hp, -⟩, h⟩ := hfirst
      simp only [List.append_nil]
      exact ⟨hp.sound, h⟩
    · rw [hrun] at hfirst
      obtain ⟨⟨hp, -⟩, h⟩ := hfirst
      obtain ⟨hsound, h'⟩ := hrest hp.sound (i + 1)
      exact ⟨hsound, hR.trans_failed h h'⟩

end Compile

namespace Build

/-- Sources are shared by their references: what happened on the way from nothing to the state. -/
structure Shares (l : Trace σ ω) (b : Build σ ω) : Prop where
  /-- Nothing is compiled twice. -/
  once : l.opened.Nodup
  kept : (l.map Moment.state ++ [b]).Pairwise Kept
  /-- A source that is remembered was compiled, and its fork has the points of its references. -/
  fork : ∀ {key t}, key.kind = .source → b.memos.lookup key = some t → key ∈ l.opened ∧
    ∃ m, b.graph.next? t = some m ∧ b.graph.role? m = some .multiplexer ∧
      (b.graph.hops m).Nodup ∧ (∀ a ∈ b.graph.hops m, b.graph.role? a = some .attach) ∧
        List.Forall₂ (fun m a => ∃ c c', m = Moment.joined key ⟨none, some a⟩ c c') (l.joints key)
          (b.graph.hops m)
  unused : ∀ {key : TargetKey}, key.kind = .source → b.memos.lookup key = none → l.joints key = []
  /-- Each reference after the first adds an attach point and nothing else. -/
  later : ∀ {key}, key.kind = .source → ∀ m ∈ (l.joints key).tail, ∃ c t fork c',
    m = .joined key ⟨none, some c.graph.size⟩ c c' ∧ c.memos.lookup key = some t ∧
      c.graph.next? t = some fork ∧ c.Tapped fork c'
  apart : ∀ {key key' t t'}, key.kind = .source → key'.kind = .source → key ≠ key' →
    b.memos.lookup key = some t → b.memos.lookup key' = some t' →
      t ≠ t' ∧ b.graph.next? t ≠ b.graph.next? t'

theorem Fans.shares {l : Trace σ ω} {b b' : Build σ ω} (hf : Fans b l b') (hr : Remembers b l b')
    (hb : b.memos = []) (hs : b'.Sound) : Shares l b' := by
  have hempty : ∀ key, b.memos.lookup key = none := fun key => by rw [hb]; rfl
  refine ⟨hr.nodup, (List.pairwise_cons.1 hr.kept).2, ?_, ?_, ?_, ?_⟩
  · intro key t hk ht
    obtain ⟨m, hnext, hrole⟩ := hs.fork hk ht
    have hhops : b'.graph.hops m = l.points Fragment.tail key := by
      have hfan := hf.fan hk
      rwa [fan_of_fork ht hnext, fan_of_none (hempty key), List.nil_append] at hfan
    refine ⟨hr.opened_of_lookup hb ht, m, hnext, hrole, hs.core.hops_nodup m, ?_, ?_⟩
    · rw [hhops]
      exact hf.attach hk
    · rw [hhops]
      refine forall₂_points fun h => ?_
      obtain ⟨a, rfl⟩ := hf.tail h hk
      exact ⟨a, rfl, _, _, rfl⟩
  · exact fun hk => hr.joints_eq_nil (.inl hk)
  · intro key hk m hm
    have hrepeat := hr.later (.inl hk) m hm
    obtain ⟨hmem, hjoin⟩ := List.mem_filter.1 (List.mem_of_mem_tail hm)
    cases m with
    | placed | opened => cases hrepeat
    | joined key' f c c' =>
      obtain rfl : key' = key := Option.some.inj (of_decide_eq_true hjoin)
      cases hf.again hmem (.inl hk) hrepeat with
      | @tap t m _ ht hnext hrole =>
        exact ⟨c, t, m, _, rfl, ht, hnext, tapped_tap (Nat.le_of_lt (Graph.role?_lt hrole))⟩
      | fork hd => rw [hk] at hd; cases hd
  · intro key key' t t' hk hk' hne ht ht'
    have htail : t ≠ t' := by
      rintro rfl
      exact hne (hf.distinct hk hk' ht ht')
    obtain ⟨m, hnext, hrole⟩ := hs.fork hk ht
    refine ⟨htail, fun heq => htail ?_⟩
    exact hs.core.fork_injective hrole hnext (heq ▸ hnext)

end Build

namespace Deployment

open Compile Build

/-- What happens while the deployment is compiled. -/
def moments (d : Deployment σ ω) : Trace σ ω :=
  rulesTrace d.catalog.objects d.catalog.rules d.build

/-- Compiling makes references share their sources. -/
theorem shares_compile (d : Deployment σ ω) (hstatus : d.status = .uncompiled)
    (hbuild : d.build = { pool := d.pool }) (hobjects : d.catalog.objects.Fresh)
    (hrules : ∀ rule ∈ d.catalog.rules, rule.Fresh) (hc : d.catalog.Acyclic) :
    Shares d.moments d.compile.2.build := by
  have heach : ∀ entry ∈ d.catalog.objects,
      entry.2.Each fun p => p.heading.memo = none ∧ d.catalog.Lists p := fun entry he p hp =>
    ⟨hobjects entry he p hp, Catalog.lists_object he p hp⟩
  have hexpand : ∀ rule ∈ d.catalog.rules, (rule.expandCatchAll d.catalog.objects).Each
      fun p => p.heading.memo = none ∧ d.catalog.Lists p := fun rule hr p hp =>
    ⟨(hrules rule hr).expandCatchAll _ p hp, Catalog.lists_expandCatchAll (Catalog.lists_rule hr) p hp⟩
  have hb : d.build.Sound := by
    rw [hbuild]
    exact sound_empty _
  have hmemos : d.build.memos = [] := by rw [hbuild]
  rw [compile, hstatus, build_compileNow]
  obtain ⟨hsound, hremembers⟩ := (tally_recalls hc).rules heach hexpand hb 0
  obtain ⟨-, hfans⟩ := (tally_fans hc).rules heach hexpand hb 0
  refine (hfans ?_).shares hremembers hmemos hsound
  intro key key' t _ _ ht
  rw [hmemos] at ht
  cases ht

/-- Rules that share sources: one for all sources, one with a source in place of a name, and one that
fails. The second source takes its messages from the first. -/
def sampleSharing : Deployment Builtin Shared where
  catalog :=
    { objects :=
        [(⟨.source, "in"⟩, .definition .source "in" [.pipe 0 none] none),
          (⟨.source, "again"⟩, .definition .source "again" [.reference .source "in" none] none),
          (⟨.destination, "out"⟩, .definition .destination "out" [.pipe 1 none] none)]
      rules :=
        [.sequence [.pipe 2 none, .reference .destination "out" none] { catchAll := true } none,
          .sequence [.inline 0 .source [.pipe 0 none] none, .reference .source "in" none] .none none,
          .sequence [.reference .source "in" none, .reference .filter "none" none] .none none] }
  build := { pool := samplePool }

theorem shares_sample :
    Shares sampleSharing.moments sampleSharing.compile.2.build ∧
      sampleSharing.compile.1.toBool = false ∧
      (sampleSharing.moments.joints ⟨.source, .named "in"⟩).length = 4 ∧
      sampleSharing.compile.2.graph.hops 2 = [3, 5, 17, 18] :=
  -- the second source refers to the first, and nothing refers to the second but rules
  have hc : sampleSharing.catalog.Acyclic :=
    Catalog.acyclic_of_rank (fun key => if key.id = .named "again" then 1 else 0) (by decide +kernel)
  ⟨shares_compile sampleSharing rfl rfl (by decide +kernel) (by decide +kernel) hc,
    by decide +kernel, by decide +kernel, by decide +kernel⟩

end Deployment

end Routing
