import Routing.Proofs.Compile.Changes
import Routing.Proofs.Compile.Heads
import Routing.Proofs.Compile.Inference
import Routing.Proofs.Meaning.Rules
/-!
# Capabilities of compiled deployments

What the flags of a rule ask for is found at the head of the rule once it is compiled, and later
rules leave it there. A rule that starts with sources has no head: nothing in the graph shows its
flags. The head of a destination depends on the order of rules only in flow control. What forks hand
messages to shows the changes ahead, but not those behind a join.
-/

namespace Routing

variable {σ ω : Type} [Stage σ ω]

theorem Statement.bears_expandCatchAll {objects : Objects} {s : Statement} {fc : Bool}
    {caps : Capabilities} (h : caps.Bears (s.expandCatchAll objects) fc) : caps.Bears s fc := by
  obtain ⟨heading, o, cs⟩ := s
  unfold expandCatchAll at h
  split at h
  · -- only the flag for all sources goes
    have hflags : ∀ b : Bool, (b && !false) = b := by simp
    refine ⟨fun hs hf => h.fallback hs ?_, fun hs hf => h.final hs ?_, fun hs hf => h.flowControl hs ?_⟩
    · exact (hflags _).trans hf
    · exact (hflags _).trans hf
    · exact hf.imp_left (hflags _).trans
  · exact h

namespace Deployment

open Compile Build

variable {objects : Objects} {rules before : List Statement} {rule : Statement} {b : Build σ ω}

/-- Rules that follow others start from the state that those leave, if they compile. -/
theorem compileRules_append (rest : List Statement) (i : Nat)
    (hok : (compileRules objects i before b).1.1 = none) :
    (compileRules objects i (before ++ rest) b).2 =
      (compileRules objects (i + before.length) rest (compileRules objects i before b).2).2 := by
  induction before generalizing i b with
  | nil => rfl
  | cons first before ih =>
    rcases hrun : (Compile.rule objects first).run b with ⟨e | f, b₁⟩
    · simp only [compileRules_cons, hrun] at hok
      cases hok
    · simp only [compileRules_cons, hrun] at hok
      simp only [List.cons_append, compileRules_cons, hrun, List.length_cons]
      rw [ih (i + 1) hok, Nat.add_assoc, Nat.add_comm 1]

theorem enriches_compileRules (hb : b.Bare) (i : Nat) :
    Enriches b (compileRules objects i rules b).2 := by
  refine compileRules_induction (P := Enriches b) (.refl hb) (fun rule _ b₁ he => ?_) i
  have hrule := heads_node objects (rule.expandCatchAll objects) false he.bare
  exact he.trans (wp_state (wp_mono hrule (fun _ _ h => h.1) fun _ _ h => h))

/-- What flags ask for is found at the heads of rules. -/
structure Flagged (d c : Deployment σ ω) : Prop where
  /-- A rule that compiles after those before it did has what it asks for at its head. -/
  head : ∀ {i rule f b h}, d.catalog.rules[i]? = some rule →
    (compileRules d.catalog.objects 0 (d.catalog.rules.take i) d.build).1.1 = none →
    (Compile.rule d.catalog.objects rule).run (d.stateAt i) = (.ok f, b) → f.head = some h →
    c.build.Enterable h ∧ (c.graph.capabilities h).Bears rule false
  /-- The points where the messages of sources meet, and where rules take them, have nothing. -/
  bare : c.build.Bare

/-- Once a rule is compiled, or fails, no capabilities are taken away. -/
theorem enriches_later {d : Deployment σ ω} (hstatus : d.status = .uncompiled) {i : Nat}
    (hi : d.catalog.rules[i]? = some rule)
    (hok : (compileRules d.catalog.objects 0 (d.catalog.rules.take i) d.build).1.1 = none)
    (hb : ((Compile.rule d.catalog.objects rule).run (d.stateAt i)).2.Bare) :
    Enriches ((Compile.rule d.catalog.objects rule).run (d.stateAt i)).2 d.compile.2.build := by
  obtain ⟨hlt, hget⟩ := List.getElem?_eq_some_iff.1 hi
  have hsplit : d.catalog.rules = d.catalog.rules.take i ++ rule :: d.catalog.rules.drop (i + 1) := by
    rw [← hget, List.getElem_cons_drop, List.take_append_drop]
  rw [compile, hstatus, build_compileNow, hsplit, compileRules_append _ _ hok, compileRules_cons]
  unfold stateAt at hb ⊢
  rcases hrun : (Compile.rule d.catalog.objects rule).run
      (compileRules d.catalog.objects 0 (d.catalog.rules.take i) d.build).2 with ⟨e | f, b⟩
  · rw [hrun] at hb
    exact .refl hb
  · rw [hrun] at hb
    exact enriches_compileRules hb _

omit [Stage σ ω] in
theorem bare_start {d : Deployment σ ω} (hbuild : d.build = { pool := d.pool }) : d.build.Bare := by
  intro x hr
  rw [hbuild] at hr
  rcases hr with hr | hr <;> exact absurd (Graph.role?_lt hr) (Nat.not_lt_zero x)

theorem flagged_compile (d : Deployment σ ω) (hstatus : d.status = .uncompiled)
    (hbuild : d.build = { pool := d.pool }) : d.Flagged d.compile.2 := by
  have hb : d.build.Bare := bare_start hbuild
  have hstate : ∀ i, (d.stateAt i).Bare := fun i => (enriches_compileRules hb 0).bare
  refine ⟨fun {i rule f b₁ h} hi hok hrun hh => ?_, ?_⟩
  · obtain ⟨he, hf⟩ := wp_ok (heads_node d.catalog.objects
      (rule.expandCatchAll d.catalog.objects) false (hstate i)) hrun
    obtain ⟨henter, hbears⟩ := hf h hh
    have hlater := enriches_later hstatus hi hok (by rw [hrun]; exact he.bare)
    rw [hrun] at hlater
    exact ⟨hlater.enterable henter, Statement.bears_expandCatchAll (hlater.bears henter.lt hbears)⟩
  · rw [compile, hstatus, build_compileNow]
    exact (enriches_compileRules hb 0).bare

/-- A rule with flags that starts with a stage, and one that starts with a source. -/
def sampleFlags : Deployment Builtin Shared where
  catalog :=
    { objects := sampleObjects
      rules := [.sequence [.pipe 2 none, .reference .destination "out" none]
          { fallback := true, flowControl := true } none,
        .sequence [.reference .source "in" none, .pipe 2 none]
          { fallback := true, final := true, flowControl := true } none] }
  build := { pool := samplePool }

theorem flagged_sample :
    sampleFlags.Flagged sampleFlags.compile.2 ∧ sampleFlags.compile.1 = .ok () ∧
      sampleFlags.compile.2.graph.capabilities 0 =
        { branchFallback := true, hardFlowControl := true } :=
  ⟨flagged_compile sampleFlags rfl rfl, by decide +kernel, by decide +kernel⟩

/-- A rule with flags that starts with a source. -/
def sampleLost : Deployment Builtin Shared where
  catalog :=
    { objects := sampleObjects
      rules := [.sequence [.reference .source "in" none, .pipe 2 none]
        { fallback := true, final := true, flowControl := true } none] }
  build := { pool := samplePool }

/-- All messages of the rule go through the join that its source feeds, and no slot of the rule shows
its flags. -/
theorem flags_lost :
    sampleLost.compile.1 = .ok () ∧
      sampleLost.compile.2.graph.edges = [(0, 1), (1, 2), (3, 4), (4, 5), (2, 3)] ∧
      sampleLost.compile.2.graph.role? 4 = some .join ∧
      ∀ x ∈ [1, 2, 3, 4, 5], sampleLost.compile.2.graph.capabilities x = .none := by
  decide +kernel

/-! ### Deployments without a history -/

/-- The deployment was put together, and nothing was done with it yet. -/
structure Registered (d : Deployment σ ω) : Prop where
  status : d.status = .uncompiled
  build : d.build = { pool := d.pool }
  objects : d.catalog.objects.Fresh ∧ d.catalog.objects.Holds d.pool.instances.size
  rules : ∀ rule ∈ d.catalog.rules, rule.Fresh ∧ rule.Holds d.pool.instances.size

section Ready

variable {d : Deployment σ ω} {S : Scheme σ ω} {P : Statement → Prop}

/-- A rule of the deployment does what a scheme says, from a sound state that is ready. -/
theorem Registered.meets_rule (hd : d.Registered) (hS : Grounded S d.catalog.objects P)
    (hP : ∀ s : Statement, s.object.Below d.pool.instances.size → d.catalog.Lists s → P s)
    (hr : rule ∈ d.catalog.rules) (hb : b.Sound ∧ S.ready b) :
    wp (Compile.rule d.catalog.objects rule)
      (S.grounded.done (rule.expandCatchAll d.catalog.objects) false b
        (nodeTrace d.catalog.objects false (rule.expandCatchAll d.catalog.objects) b))
      (S.grounded.failed b
        (nodeTrace d.catalog.objects false (rule.expandCatchAll d.catalog.objects) b)) b := by
  have hobjects : ∀ entry ∈ d.catalog.objects, entry.2.Each fun s => s.heading.memo = none ∧ P s :=
    fun entry he s hs => ⟨hd.objects.1 entry he s hs,
      hP s (hd.objects.2 entry he s hs) (Catalog.lists_object he s hs)⟩
  have hlists : (rule.expandCatchAll d.catalog.objects).Each d.catalog.Lists :=
    Catalog.lists_expandCatchAll (Catalog.lists_rule hr)
  have hrule : (rule.expandCatchAll d.catalog.objects).Each fun s => s.heading.memo = none ∧ P s :=
    fun s hs => ⟨(hd.rules rule hr).1.expandCatchAll _ s hs,
      hP s ((hd.rules rule hr).2.expandCatchAll _ s hs) (hlists s hs)⟩
  exact hS.lawful.meets_node hobjects hrule false b hb

/-- What a scheme requires before a statement holds after any number of rules, if it holds after each
statement. -/
theorem Registered.ready_at (hd : d.Registered) (hS : Grounded S d.catalog.objects P)
    (hP : ∀ s : Statement, s.object.Below d.pool.instances.size → d.catalog.Lists s → P s)
    (hstart : S.ready d.build) (hdone : ∀ {s fc b l f b'}, S.done s fc b l f b' → S.ready b')
    (hfailed : ∀ {b l e b'}, S.failed b l e b' → S.ready b') (i : Nat) :
    (d.stateAt i).Sound ∧ S.ready (d.stateAt i) := by
  have hsound : d.build.Sound := by
    rw [hd.build]
    exact sound_empty _
  refine compileRules_induction (P := fun b => b.Sound ∧ S.ready b) ⟨hsound, hstart⟩
    (fun rule hr b hb => ?_) 0
  have hmeets := hd.meets_rule hS hP (List.mem_of_mem_take hr) hb
  exact wp_state (P := fun b => b.Sound ∧ S.ready b) (wp_mono hmeets
    (fun _ _ h => ⟨h.1.1.sound, hdone h.2⟩) fun _ _ h => ⟨h.1.1.sound, hfailed h.2⟩)

theorem Registered.ready (hd : d.Registered) (hS : Grounded S d.catalog.objects P)
    (hP : ∀ s : Statement, s.object.Below d.pool.instances.size → d.catalog.Lists s → P s)
    (hstart : S.ready d.build) (hdone : ∀ {s fc b l f b'}, S.done s fc b l f b' → S.ready b')
    (hfailed : ∀ {b l e b'}, S.failed b l e b' → S.ready b') : S.ready d.compile.2.build := by
  have hready := (hd.ready_at hS hP hstart hdone hfailed d.catalog.rules.length).2
  rw [stateAt, List.take_length] at hready
  rw [compile, hd.status, build_compileNow]
  exact hready

end Ready

/-! ### The order of rules -/

/-- The deployment with other rules. -/
def withRules (d : Deployment σ ω) (rules : List Statement) : Deployment σ ω :=
  { d with catalog := { d.catalog with rules } }

omit [Stage σ ω] in
theorem Registered.withRules {d : Deployment σ ω} (hd : d.Registered) {rules : List Statement}
    (hrules : rules.Perm d.catalog.rules) : (d.withRules rules).Registered :=
  ⟨hd.status, hd.build, hd.objects, fun rule hr => hd.rules rule (hrules.mem_iff.1 hr)⟩

theorem Registered.known {d : Deployment σ ω} (hd : d.Registered) (hclones : Stage.ClonesAlike σ) :
    Known d.catalog d.pool d.compile.2.build := by
  refine hd.ready (grounded_inferred d.catalog d.pool hclones) (fun _ hbelow hlists => ⟨hbelow, hlists⟩)
    ?_ (fun h => h.1) id
  rw [hd.build]
  exact known_start d.catalog d.pool

/-- In whatever order rules are compiled, the head of a destination has the capabilities that are
inferred for the destination in some context. So the order changes nothing but flow control. -/
theorem agrees_compile (hclones : Stage.ClonesAlike σ) (d : Deployment σ ω) (hd : d.Registered)
    (hkeys : d.catalog.Unambiguous) (rules : List Statement) (hrules : rules.Perm d.catalog.rules)
    (key : TargetKey) (hk : key.kind = .destination) (x y : SlotId)
    (hx : d.compile.2.build.memos.lookup key = some x)
    (hy : (d.withRules rules).compile.2.build.memos.lookup key = some y) :
    ∃ t fc fc', (key, t) ∈ d.catalog.targets ∧
      Infers d.catalog.objects d.pool.capabilities t fc
        (.headed (d.compile.2.graph.capabilities x)) ∧
      Infers d.catalog.objects d.pool.capabilities t fc'
        (.headed ((d.withRules rules).compile.2.graph.capabilities y)) ∧
      (d.compile.2.graph.capabilities x).Agrees
        ((d.withRules rules).compile.2.graph.capabilities y) := by
  obtain ⟨t, fc, ht, hi⟩ := (hd.known hclones).head (mem_of_lookup hx) hk
  obtain ⟨t', fc', ht', hi'⟩ := ((hd.withRules hrules).known hclones).head (mem_of_lookup hy) hk
  have hmem : (key, t') ∈ d.catalog.targets := by
    rcases List.mem_append.1 ht' with ht' | ht'
    · exact List.mem_append_left _ ht'
    · refine List.mem_append_right _ ?_
      rw [List.mem_flatMap] at ht' ⊢
      obtain ⟨s, hs, ht'⟩ := ht'
      exact ⟨s, (hrules.append_left _).mem_iff.1 hs, ht'⟩
  obtain rfl := hkeys key t t' ht hmem
  have hagrees := hi.agrees hi'
  cases hagrees with
  | headed h => exact ⟨t, fc, fc', ht, hi, hi', h⟩

/-- A rule that holds its sender back before a destination, and one that does not. -/
def sampleOrder : Deployment Builtin Shared where
  catalog :=
    { objects := [(⟨.destination, "out"⟩, .definition .destination "out" [.pipe 1 none] none)]
      rules := [.sequence [.sequence [.reference .destination "out" none] { flowControl := true } none]
          .none none,
        .sequence [.reference .destination "out" none] .none none] }
  build := { pool := samplePool }

theorem agrees_sample :
    (sampleOrder.compile.2.graph.capabilities 0).Agrees
      ((sampleOrder.withRules sampleOrder.catalog.rules.reverse).compile.2.graph.capabilities 0) := by
  have hregistered : sampleOrder.Registered :=
    ⟨rfl, rfl, ⟨by decide +kernel, by decide +kernel⟩, by decide +kernel⟩
  have hkeys : sampleOrder.catalog.Unambiguous := by
    intro key t t' ht ht'
    cases List.mem_singleton.1 ht
    cases List.mem_singleton.1 ht'
    rfl
  obtain ⟨_, _, _, _, _, _, h⟩ := agrees_compile clonesAlike_builtin sampleOrder hregistered hkeys
    sampleOrder.catalog.rules.reverse (List.reverse_perm _) ⟨.destination, .named "out"⟩ rfl 0 0
    (by decide +kernel) (by decide +kernel)
  exact h

/-- Flow control at the head of the destination depends on which of the rules comes first. -/
theorem order_matters :
    sampleOrder.compile.1 = .ok () ∧
      (sampleOrder.withRules sampleOrder.catalog.rules.reverse).compile.1 = .ok () ∧
      sampleOrder.compile.2.build.memos.lookup ⟨.destination, .named "out"⟩ = some 0 ∧
      (sampleOrder.withRules sampleOrder.catalog.rules.reverse).compile.2.build.memos.lookup
        ⟨.destination, .named "out"⟩ = some 0 ∧
      sampleOrder.compile.2.graph.capabilities 0 = { hardFlowControl := true } ∧
      (sampleOrder.withRules sampleOrder.catalog.rules.reverse).compile.2.graph.capabilities 0 =
        .none := by
  decide +kernel

/-! ### Changes ahead -/

theorem Registered.alert {d : Deployment σ ω} (hd : d.Registered) : d.compile.2.build.Alert := by
  refine hd.ready (grounded_warned _) (fun _ _ _ => trivial) (fun x hx => ?_) (fun h => h.alert) id
  rw [hd.build] at hx
  rcases hx with ⟨u, hu⟩ | ⟨_, _, hm⟩
  · exact absurd (Graph.HasEdge.source_lt (k := .hop) hu) (Nat.not_lt_zero u)
  · cases hm

/-- A hop of a multiplexer shows that a stage ahead of it changes messages, if no join comes
between. -/
theorem warned_compile (d : Deployment σ ω) (hd : d.Registered) {m x y : SlotId}
    (hx : x ∈ d.compile.2.graph.hops m) (hy : d.compile.2.graph.Ahead x y)
    (hc : (d.compile.2.graph.capabilities y).changesMessage = true) :
    (d.compile.2.graph.capabilities x).changesMessage = true :=
  hd.alert x (.inl ⟨m, hx⟩) ⟨y, hy, hc⟩

/-- A source, a stage that changes messages, and a destination in which such a stage comes second. -/
def sampleChanges : Deployment Builtin Shared where
  catalog :=
    { objects := [(⟨.source, "in"⟩, .definition .source "in" [.pipe 0 none] none),
        (⟨.destination, "out"⟩, .definition .destination "out" [.pipe 1 none, .pipe 2 none] none)]
      rules := [.sequence [.reference .source "in" none, .pipe 2 none,
        .reference .destination "out" none] .none none] }
  build :=
    { pool :=
        { instances := #[⟨.scripted { label := "in", capabilities := { isSource := true } }, false⟩,
            ⟨.scripted { label := "out" }, false⟩,
            ⟨.scripted { label := "set", capabilities := { changesMessage := true } }, false⟩]
          shared := {} } }

theorem warned_sample : (sampleChanges.compile.2.graph.capabilities 6).changesMessage = true := by
  have hregistered : sampleChanges.Registered :=
    ⟨rfl, rfl, ⟨by decide +kernel, by decide +kernel⟩, by decide +kernel⟩
  have hahead : sampleChanges.compile.2.graph.Ahead 6 7 :=
    .single ⟨by decide +kernel, by decide +kernel⟩
  exact warned_compile sampleChanges hregistered (m := 8) (by decide +kernel) hahead
    (by decide +kernel)

/-- The attach point of the rule does not show that the stage behind the join of the rule changes
messages. -/
theorem changes_unseen :
    sampleChanges.compile.1 = .ok () ∧
      sampleChanges.compile.2.graph.role? 2 = some .multiplexer ∧
      sampleChanges.compile.2.graph.hops 2 = [3] ∧
      sampleChanges.compile.2.graph.next? 3 = some 4 ∧
      sampleChanges.compile.2.graph.next? 4 = some 5 ∧
      (sampleChanges.compile.2.graph.capabilities 5).changesMessage = true ∧
      sampleChanges.compile.2.graph.capabilities 3 = .none := by
  decide +kernel

end Deployment

end Routing
