import Routing.Proofs.Document.Provided
import Routing.Proofs.Lifecycle.Builtins
/-!
# What is wrong with documents

A rule of a document fails to compile only for what is written in it: its errors are about places in
the rule, and never about a stage that is missing or cannot be cloned.
-/

namespace Routing

/-- The error is about one of these places, and about no stage. -/
structure CompileError.About (place : Option Location → Prop) (e : CompileError) : Prop where
  missing : ∀ node, e ≠ .missingStage node
  refused : ∀ node, e ≠ .cloneRefused node
  located : ∃ l, place l ∧ e.location = Location.textOf l

variable {σ ω : Type}

/-- Where a rule is written: at each of its names, or nowhere if it has none. -/
def RuleEntry.Place (p : Building.Plan σ ω) (r : RuleEntry) (l : Option Location) : Prop :=
  r.spans = [] ∧ l = none ∨ ∃ span ∈ r.spans, l = some (p.lines.locate span.start)

namespace Compile

open Build

variable [Stage σ ω] {P : Build σ ω → Prop} {E : CompileError → Prop}

/-! ### Sequences and junctions in the making -/

namespace Blames

theorem chain_add (hP : Linking P) (ch : Chain) (node : Descriptor) (f : Fragment)
    (hE : E (.sourceMustBeFirst node)) : Blames P E (ch.add node f) := by
  have hkeeps := hP.chain_add ch node f
  obtain ⟨_ | head, _ | tail⟩ := f
  · exact .pure ch
  · cases hpast : ch.pastSources with
    | false => exact .of_unfailing hkeeps (Chain.unfailing_addSource hpast tail)
    | true =>
      have hthrow : (ch.add node ⟨none, some tail⟩ : Compile σ ω Chain) =
          MonadExcept.throw (.sourceMustBeFirst node) := Chain.addSource_late hpast tail
      rw [hthrow]
      exact .throw hE
  · exact .of_unfailing hkeeps (Chain.unfailing_addStage head none)
  · exact .of_unfailing hkeeps (Chain.unfailing_addStage head (some tail))

theorem branching_add (hP : Wired P) (j : Branching) (node : Descriptor) (f : Fragment)
    (hE : E (.mixedBranches node)) : Blames P E (j.add node f) := by
  by_cases h : j.Fitting f
  · exact .of_unfailing (hP.branching_add j node f)
      ((Branching.unfailing_addHead h).bind fun _ => Branching.unfailing_addTail f.tail)
  · unfold Branching.add
    rw [Branching.addHead_unfitting h]
    exact .bind (.throw hE) fun j => .of_unfailing (hP.linking.branching_addTail j node f.tail)
      (Branching.unfailing_addTail f.tail)

theorem chain_finish (hP : Linear P) (ch : Chain) (flags : Flags) (fc : Bool) :
    Blames P E (ch.finish flags fc) :=
  .of_unfailing (hP.chain_finish ch flags fc) fun _ =>
    wp_mono (ch.wp_finish flags fc) (fun _ _ _ => trivial) fun _ _ h => h.elim

theorem branching_finish (hP : Linear P) (j : Branching) (flags : Flags) (fc : Bool) :
    Blames P E (j.finish flags fc) :=
  .of_unfailing (hP.branching_finish j flags fc) fun _ =>
    wp_mono (j.wp_finish flags fc) (fun _ _ _ => trivial) fun _ _ h => h.elim

end Blames

/-! ### Statements of rules -/

variable {c : Catalog} {q : Pool σ ω} {place : Option Location → Prop} {depth : Nat}

/-- The location is one of the places, if there is one. -/
def WrittenAt (place : Option Location → Prop) (location : Option Location) : Prop :=
  ∀ l, location = some l → place (some l)

theorem WrittenAt.here {location around : Option Location} (h : WrittenAt place location)
    (haround : place around) : place ((location.filter Location.isKnown).or around) := by
  cases location with
  | none => exact haround
  | some l =>
    rw [Option.filter_some]
    split
    · exact h l rfl
    · exact haround

theorem about_here {here : Option Location} {e : CompileError} (hhere : place here)
    (hlocation : e.location = Location.textOf here) (hmissing : ∀ node, e ≠ .missingStage node)
    (hrefused : ∀ node, e ≠ .cloneRefused node) : e.About place :=
  ⟨hmissing, hrefused, here, hhere, hlocation⟩

variable (c q place depth) in
/-- Wherever the statement around it counts as written, the statement compiles, or an error about one
of the places is to blame. -/
def Sited (s : Statement) : Prop :=
  ∀ around, place around → place (s.located.or around) ∧ ∀ fc,
    Blames (Spared c q none []) (·.About place)
      (statement c.objects (below c.objects depth) around fc s)

section Sited

variable {kind : Kind} {name : String} {location here : Option Location} {ss : List Statement}
  {fc : Bool}

theorem sited_reference (hc : c.Provided q) (hl : WrittenAt place location) :
    Sited c q place depth (.reference kind name location) := by
  intro around haround
  have hhere := hl.here haround
  refine ⟨hhere, fun fc => ?_⟩
  rw [Statement.reference, statement]
  simp only [reference, byName]
  cases hfind : c.objects.find? ⟨kind, (some name).getD ""⟩ with
  | none => exact .throw (about_here hhere rfl (by simp) (by simp))
  | some t =>
    have ht : (⟨t.kind, .named name⟩, t) ∈ c.targets :=
      List.mem_append_left _ (List.mem_map.2 ⟨_, Objects.mem_of_find hfind, rfl⟩)
    cases depth with
    | zero => exact .throw (about_here hhere rfl (by simp) (by simp))
    | succ depth =>
      simp only [below]
      rw [upTo_eq]
      exact blames_referTo hc ht (about_here hhere rfl (by simp [emptyObject]) (by simp [emptyObject]))

theorem sited_inline (hc : c.Provided q) {serial : Nat} {children : List Statement}
    (hl : WrittenAt place location)
    (ht : ∀ e ∈ (Statement.inline serial kind children location).inlined, e ∈ c.targets) :
    Sited c q place depth (.inline serial kind children location) := by
  intro around haround
  have hhere := hl.here haround
  refine ⟨hhere, fun fc => ?_⟩
  rw [Statement.inline, statement]
  simp only [reference]
  refine blames_referTo hc (ht _ ?_) (about_here hhere rfl (by simp [emptyObject]) (by simp [emptyObject]))
  exact List.mem_filterMap.2 ⟨_, Statement.mem_parts _, rfl⟩

theorem blames_chain (hss : ∀ s ∈ ss, Sited c q place depth s) (hhere : place here) (fc : Bool)
    (ch : Chain) : Blames (Spared c q none []) (·.About place)
      (chain c.objects (below c.objects depth) here fc ch ss) := by
  induction ss generalizing ch with
  | nil =>
    rw [chain]
    exact .pure ch
  | cons s ss ih =>
    obtain ⟨hplace, hs⟩ := hss s List.mem_cons_self here hhere
    rw [chain]
    refine (hs _).bind fun f => (Blames.chain_add joining_spared.linking ch _ f ?_).bind fun ch' => ?_
    · exact about_here hplace rfl (by simp) (by simp)
    · exact ih (fun s h => hss s (List.mem_cons_of_mem _ h)) ch'

theorem blames_branching (hss : ∀ s ∈ ss, Sited c q place depth s) (hhere : place here) (fc : Bool)
    (j : Branching) : Blames (Spared c q none []) (·.About place)
      (branching c.objects (below c.objects depth) here fc j ss) := by
  induction ss generalizing j with
  | nil =>
    rw [branching]
    exact .pure j
  | cons s ss ih =>
    obtain ⟨hplace, hs⟩ := hss s List.mem_cons_self here hhere
    rw [branching]
    refine (hs _).bind fun f => (Blames.branching_add joining_spared.toWired j _ f ?_).bind fun j' => ?_
    · exact about_here hplace rfl (by simp) (by simp)
    · exact ih (fun s h => hss s (List.mem_cons_of_mem _ h)) j'

theorem blames_sequence {h : Heading} {around : Option Location} (hss : ∀ s ∈ ss, Sited c q place depth s)
    (hshape : h.shape = .sequence) (hhere : place (h.located.or around)) (fc : Bool) :
    Blames (Spared c q none []) (·.About place)
      (statement c.objects (below c.objects depth) around fc (.mk h .empty ss)) := by
  rw [statement]
  simp only [hshape]
  split
  · exact .throw (about_here hhere rfl (by simp) (by simp))
  · exact (blames_chain hss hhere fc {}).bind fun ch =>
      .chain_finish joining_spared.linear ch h.flags fc

theorem sited_sequence {flags : Flags} (hss : ∀ s ∈ ss, Sited c q place depth s)
    (hl : WrittenAt place location) : Sited c q place depth (.sequence ss flags location) :=
  fun _ haround => ⟨hl.here haround, blames_sequence hss rfl (hl.here haround)⟩

theorem sited_junction (hss : ∀ s ∈ ss, Sited c q place depth s) (hl : WrittenAt place location) :
    Sited c q place depth (.junction ss location) := by
  intro around haround
  have hhere := hl.here haround
  refine ⟨hhere, fun fc => ?_⟩
  rw [Statement.junction, statement]
  exact (blames_branching hss hhere fc {}).bind fun j =>
    .branching_finish joining_spared.linear j _ fc

end Sited

end Compile

/-! ### Elements and rules -/

theorem LineTable.isKnown_locate (t : LineTable) (offset : Nat) :
    (t.locate offset).isKnown = true := by
  simp [locate, Location.isKnown]

section Rules

open Compile

variable {c : Catalog} {q : Pool σ ω} {p : Building.Plan σ ω} {place : Option Location → Prop}
  {depth : Nat}

/-- Where the bytes start is one of the places. -/
def Covers (p : Building.Plan σ ω) (place : Option Location → Prop) (spans : List Toml.Span) : Prop :=
  ∀ span ∈ spans, place (some (p.lines.locate span.start))

theorem Covers.writtenAt {spans : List Toml.Span} (h : Covers p place spans) :
    WrittenAt place (spans.head?.map fun span => p.lines.locate span.start) := by
  intro l hl
  obtain ⟨span, hspan, rfl⟩ := Option.map_eq_some_iff.1 hl
  exact h span (List.mem_of_mem_head? hspan)

theorem Covers.append {spans spans' : List Toml.Span} (h : Covers p place (spans ++ spans')) :
    Covers p place spans ∧ Covers p place spans' :=
  ⟨fun span hs => h span (List.mem_append_left _ hs),
    fun span hs => h span (List.mem_append_right _ hs)⟩

variable [Stage σ ω]

-- by the constructors of elements and rules

mutual

theorem Element.sited_made (hc : c.Provided q) : ∀ (e : Element) (n k : Nat),
    Covers p place e.spans → (∀ t ∈ (e.made p n k).inlined, t ∈ c.targets) →
      Sited c q place depth (e.made p n k)
  | .named kind name, n, k, hspans, _ => sited_reference hc (Covers.writtenAt hspans)
  | .inline kind drivers, n, k, hspans, ht => sited_inline hc (Covers.writtenAt hspans) ht
  | .junction branches, n, k, hspans, ht => by
    rw [Element.made] at ht ⊢
    rw [Statement.junction, Statement.inlined_mk] at ht
    rw [firstInBranches_eq]
    refine sited_junction (RuleEntry.sited_allMade hc branches n k hspans fun s hs t hmem => ?_)
      (Covers.writtenAt hspans)
    exact ht t (List.mem_flatMap.2 ⟨s, hs, hmem⟩)

theorem RuleEntry.sited_made (hc : c.Provided q) : ∀ (r : RuleEntry) (n k : Nat),
    Covers p place r.spans → (∀ t ∈ (r.made p n k).inlined, t ∈ c.targets) →
      Sited c q place depth (r.made p n k)
  | .mk names es, n, k, hspans, ht => by
    rw [RuleEntry.made] at ht ⊢
    rw [Statement.sequence, Statement.inlined_mk] at ht
    rw [firstInElements_eq]
    refine sited_sequence (Element.sited_allMade hc es n k hspans fun s hs t hmem => ?_)
      (Covers.writtenAt hspans)
    exact ht t (List.mem_flatMap.2 ⟨s, hs, hmem⟩)

theorem Element.sited_allMade (hc : c.Provided q) : ∀ (es : List Element) (n k : Nat),
    Covers p place (Element.allSpans es) →
    (∀ s ∈ Element.allMade p n k es, ∀ t ∈ s.inlined, t ∈ c.targets) →
      ∀ s ∈ Element.allMade p n k es, Sited c q place depth s
  | [], _, _, _, _ => by simp [Element.allMade]
  | e :: es, n, k, hspans, ht => by
    rw [Element.allMade] at ht ⊢
    obtain ⟨hspan, hspans⟩ := Covers.append hspans
    intro s hs
    rcases List.mem_cons.1 hs with rfl | hs
    · exact Element.sited_made hc e n k hspan (ht _ List.mem_cons_self)
    · exact Element.sited_allMade hc es _ _ hspans (fun s h => ht s (List.mem_cons_of_mem _ h)) s hs

theorem RuleEntry.sited_allMade (hc : c.Provided q) : ∀ (rs : List RuleEntry) (n k : Nat),
    Covers p place (RuleEntry.allSpans rs) →
    (∀ s ∈ RuleEntry.allMade p n k rs, ∀ t ∈ s.inlined, t ∈ c.targets) →
      ∀ s ∈ RuleEntry.allMade p n k rs, Sited c q place depth s
  | [], _, _, _, _ => by simp [RuleEntry.allMade]
  | r :: rs, n, k, hspans, ht => by
    rw [RuleEntry.allMade] at ht ⊢
    obtain ⟨hspan, hspans⟩ := Covers.append hspans
    intro s hs
    rcases List.mem_cons.1 hs with rfl | hs
    · exact RuleEntry.sited_made hc r n k hspan (ht _ List.mem_cons_self)
    · exact RuleEntry.sited_allMade hc rs _ _ hspans (fun s h => ht s (List.mem_cons_of_mem _ h)) s hs

end

/-- What is wrong with a rule is located in it. -/
theorem RuleEntry.blames_rule (hc : c.Provided q) (r : RuleEntry) (n k : Nat)
    (ht : ∀ t ∈ (r.made p n k).inlined, t ∈ c.targets) :
    Blames (Spared c q none []) (·.About (r.Place p)) (rule c.objects (r.made p n k)) := by
  obtain ⟨names, es⟩ := r
  have hcovers : Covers p ((RuleEntry.mk names es).Place p) (Element.allSpans es) :=
    fun span hspan => .inr ⟨span, hspan, rfl⟩
  have hhere : (RuleEntry.mk names es).Place p
      (((Building.firstInElements p es).filter Location.isKnown).or none) := by
    rw [firstInElements_eq]
    cases hspans : Element.allSpans es with
    | nil => exact .inl ⟨hspans, rfl⟩
    | cons span spans =>
      refine .inr ⟨span, ?_, ?_⟩
      · rw [RuleEntry.spans, hspans]
        exact List.mem_cons_self
      · simp [LineTable.isKnown_locate]
  rw [RuleEntry.made] at ht ⊢
  rw [Statement.sequence, Statement.inlined_mk] at ht
  have hes : ∀ s ∈ Element.allMade p n k es, Sited c q _ c.objects.length s :=
    Element.sited_allMade hc es n k hcovers fun s hs t hmem => ht t (List.mem_flatMap.2 ⟨s, hs, hmem⟩)
  unfold rule node
  rw [upTo_eq, Statement.sequence, Statement.expandCatchAll]
  split
  · refine blames_sequence (fun s hs => ?_) rfl hhere false
    rcases List.mem_append.1 hs with hs | hs
    · obtain ⟨name, -, rfl⟩ := List.mem_map.1 hs
      exact sited_reference hc fun l hl => by cases hl
    · exact hes s hs
  · refine blames_sequence hes rfl ?_ false
    exact hhere

/-! ### All rules -/

/-- The first rule that fails is to blame, and it is not the graph that contradicts itself. -/
theorem compileRules_blames {objects : Objects} {P : Build σ ω → Prop}
    {E : Nat → CompileError → Prop} (hobjects : objects.Fresh) {rules : List Statement}
    (hrules : ∀ s ∈ rules, s.Fresh) (i : Nat)
    (hblames : ∀ k s, rules[k]? = some s → Blames P (E (i + k)) (rule objects s))
    {b : Build σ ω} (hb : b.Sound) (hP : P b) {j : Nat} {e : CompileError}
    (hj : (Deployment.compileRules objects i rules b).1.1 = some (j, e)) :
    ∃ k s, j = i + k ∧ rules[k]? = some s ∧ E j e := by
  induction rules generalizing i b with
  | nil => cases hj
  | cons s rules ih =>
    have hwp := wp_and (compiles_rule hobjects hb (hrules s List.mem_cons_self))
      (hblames 0 s rfl b hP)
    rw [Deployment.compileRules_cons] at hj
    unfold wp at hwp
    rcases hr : (rule objects s).run b with ⟨e' | f, b'⟩ <;> rw [hr] at hj hwp
    · cases hj
      exact ⟨0, s, rfl, rfl, hwp.2 hwp.1.2⟩
    · obtain ⟨⟨⟨hsound, -⟩, -⟩, hP'⟩ := hwp
      obtain ⟨k, t, rfl, hk, he⟩ := ih (fun s h => hrules s (List.mem_cons_of_mem _ h)) (i + 1)
        (fun k t hk => by
          have h := hblames (k + 1) t hk
          rwa [Nat.add_comm k 1, ← Nat.add_assoc] at h) hsound hP' hj
      exact ⟨k + 1, t, by omega, hk, he⟩

end Rules

theorem RuleEntry.getElem?_allMade {p : Building.Plan σ ω} {rs : List RuleEntry} {n k i : Nat}
    {s : Statement} (h : (RuleEntry.allMade p n k rs)[i]? = some s) :
    ∃ r n' k', rs[i]? = some r ∧ s = r.made p n' k' := by
  induction rs generalizing n k i with
  | nil => cases h
  | cons r rs ih =>
    rw [RuleEntry.allMade] at h
    cases i with
    | zero => exact ⟨r, n, k, rfl, (Option.some.inj h).symm⟩
    | succ i => exact ih h

/-- The error is about what is written in the rule with this number. -/
def Document.FaultIn (d : Document) (p : Building.Plan σ ω) (i : Nat) (e : CompileError) : Prop :=
  ∃ r, d.rules[i]? = some r ∧ e.About (r.Place p)

namespace Document.Yields

variable {d : Document} {p : Building.Plan Builtin Shared} {pool : Pool Builtin Shared}
  {a : Deployment Builtin Shared}

theorem sound (hy : d.Yields p pool a) : a.build.Sound := by
  obtain ⟨catalog, templates, settings, ⟨graph, pool', memos⟩, status, events⟩ := a
  obtain rfl : graph = {} := hy.graph
  obtain rfl : memos = [] := hy.memos
  exact Build.sound_empty pool'

/-- The rules that are compiled are those of the document. -/
theorem blames_rule (hy : d.Yields p pool a) (hp : p.factory = Builtin.create) (i : Nat)
    {s : Statement} (hs : a.catalog.rules[i]? = some s) :
    Compile.Blames (Compile.Spared a.catalog a.pool none []) (d.FaultIn p i)
      (Compile.rule a.catalog.objects s) := by
  have hlisted : ∀ t ∈ s.inlined, t ∈ a.catalog.targets := fun t ht =>
    List.mem_append_right _
      (List.mem_flatMap.2 ⟨s, List.mem_append_right _ (List.mem_of_getElem? hs), ht⟩)
  rw [hy.rules] at hs
  obtain ⟨r, n', k', hr, rfl⟩ := RuleEntry.getElem?_allMade hs
  intro b hb
  exact Compile.wp_mono (RuleEntry.blames_rule (hy.provided hp) r n' k' hlisted b hb)
    (fun _ _ h => h) fun _ _ h he => ⟨r, hr, h he⟩

/-- A document that does not compile is rejected for one of its rules. -/
theorem compile_error (hy : d.Yields p pool a) (hp : p.factory = Builtin.create) {e : CompileError}
    (he : a.compile.1 = .error e) :
    ∃ i, d.FaultIn p i e ∧ a.compile.2.events = a.events ++ [.ruleRejected e i] := by
  have hfresh : ∀ s ∈ a.catalog.objects.map (·.2) ++ a.catalog.rules, s.Fresh :=
    fun s hs q hq => (hy.raw hs q hq).1
  have hobjects : a.catalog.objects.Fresh := fun e he =>
    hfresh _ (List.mem_append_left _ (List.mem_map_of_mem he))
  have hrules : ∀ s ∈ a.catalog.rules, s.Fresh := fun s hs => hfresh s (List.mem_append_right _ hs)
  have hblames : ∀ k s, a.catalog.rules[k]? = some s →
      Compile.Blames (Compile.Spared a.catalog a.pool none []) (d.FaultIn p (0 + k))
        (Compile.rule a.catalog.objects s) := fun k s hs => by
    rw [Nat.zero_add]
    exact hy.blames_rule hp k hs
  have hfault := fun i => compileRules_blames (E := d.FaultIn p) (j := i) (e := e) hobjects hrules 0
    hblames hy.sound (hy.spared hp)
  unfold Deployment.compile at he ⊢
  rw [hy.status] at he ⊢
  unfold Deployment.compileNow at he ⊢
  rcases hc : Deployment.compileRules a.catalog.objects 0 a.catalog.rules a.build with
    ⟨⟨_ | ⟨i, e'⟩, rules⟩, build⟩ <;> rw [hc] at he hfault
  · cases he
  · cases he
    obtain ⟨k, s, -, -, hin⟩ := hfault i rfl
    exact ⟨i, hin, rfl⟩

end Document.Yields

/-! ### Whatever is done -/

namespace Document

variable {d : Document} {p : Building.Plan Builtin Shared} {pool : Pool Builtin Shared}
  {a : Deployment Builtin Shared} {e : CompileError}

/-- What was built from the document is as it was built, or it was compiled, and then it is rejected
only for one of its rules. -/
def Accounts (d : Document) (p : Building.Plan Builtin Shared) (pool : Pool Builtin Shared)
    (a : Deployment Builtin Shared) : Prop :=
  d.Yields p pool a ∨
    a.status ≠ .uncompiled ∧ ∀ e, a.status = .failed e → ∃ i, d.FaultIn p i e

namespace Accounts

theorem compile (ha : d.Accounts p pool a) (hp : p.factory = Builtin.create) :
    d.Accounts p pool a.compile.2 := by
  rcases ha with hy | ha
  · refine .inr ⟨Deployment.status_compile a, fun e he => ?_⟩
    obtain ⟨i, hin, -⟩ := hy.compile_error hp ((Deployment.compile_error a).2 he)
    exact ⟨i, hin⟩
  · rw [Deployment.compile_of_compiled ha.1]
    exact .inr ha

theorem fault (ha : d.Accounts p pool a) (hp : p.factory = Builtin.create)
    (he : a.compile.1 = .error e) : ∃ i, d.FaultIn p i e := by
  have he := (Deployment.compile_error a).1 he
  rcases ha.compile hp with hy | ⟨-, hfailed⟩
  · cases hy.status.symm.trans he
  · exact hfailed e he

theorem run (ha : d.Accounts p pool a) (hp : p.factory = Builtin.create) (operation : Operation) :
    d.Accounts p pool (operation.run a) := by
  cases operation with
  | compile => exact ha.compile hp
  | start =>
    change d.Accounts p pool a.start.2
    rcases Deployment.start_cases a with heq | ⟨hfailed, -, hstatus⟩
    · rw [heq]
      exact ha.compile hp
    · rcases hstatus with hs | hs
      · exact .inr ⟨by simp [hs], fun e he => by cases hs.symm.trans he⟩
      · exact .inr ⟨hs ▸ Deployment.status_compile a,
          fun e he => absurd (hs.symm.trans he) (hfailed e)⟩
  | stop =>
    change d.Accounts p pool a.stop.2
    have hstatus := (Deployment.stop_frame a).2.2.1
    rcases ha with hy | ha
    · rw [Deployment.stop_of_empty a (by rw [hy.graph]; rfl) (by simp [hy.status])]
      exact .inl hy
    · refine .inr ?_
      rw [hstatus]
      split
      · exact ⟨by simp, fun e he => by cases he⟩
      · exact ha
  | queue x message =>
    change d.Accounts p pool (a.queue x message).2
    unfold Deployment.queue
    cases hs : a.graph.slot? x with
    | none => exact ha
    | some s =>
      rcases ha with hy | ha
      · rw [hy.graph] at hs
        cases hs
      · exact .inr ha
  | take buffer =>
    rcases ha with hy | ha
    · exact .inl ⟨hy.catalog, hy.fills, hy.graph, hy.memos, hy.status⟩
    · exact .inr ha

theorem operate (ha : d.Accounts p pool a) (hp : p.factory = Builtin.create)
    (operations : List Operation) : d.Accounts p pool (a.operate operations) := by
  induction operations generalizing a with
  | nil => exact ha
  | cons operation operations ih => exact ih (ha.run hp operation)

end Accounts

/-- Whatever is done to what was built, compiling it fails for no stage: none is missing, and no
source is asked for a clone, which it would refuse. -/
theorem compile_never_refused (doc : Document) (lines : LineTable) (shared : Shared)
    (d : Deployment Builtin Shared)
    (h : (doc.build lines Builtin.create { shared }).1 = .ok d) (operations : List Operation)
    (node : Descriptor) :
    (d.operate operations).compile.1 ≠ .error (.missingStage node) ∧
      (d.operate operations).compile.1 ≠ .error (.cloneRefused node) := by
  have haccounts : doc.Accounts _ _ d := .inl (Document.yields_of_ok h)
  have hfault := fun {e} => (haccounts.operate rfl operations).fault (e := e) rfl
  constructor
  · intro he
    obtain ⟨_, _, -, habout⟩ := hfault he
    exact habout.missing node rfl
  · intro he
    obtain ⟨_, _, -, habout⟩ := hfault he
    exact habout.refused node rfl

/-- Both rules of the sample take the messages of its source. -/
theorem compile_never_refused_sample : ∃ d : Deployment Builtin Shared,
    (sample.build ⟨none, [0], 300⟩ Builtin.create { shared := {} }).1 = .ok d ∧
      d.compile.2.status = .compiled ∧
      ∀ node, (d.operate [.compile]).compile.1 ≠ .error (.missingStage node) ∧
        (d.operate [.compile]).compile.1 ≠ .error (.cloneRefused node) := by
  have hmap : (sample.build ⟨none, [0], 300⟩ Builtin.create { shared := {} }).1.map
      (fun d => d.compile.2.status) = .ok .compiled := by
    decide +kernel
  obtain ⟨d, hd, hstatus⟩ := map_eq_ok hmap
  exact ⟨d, hd, hstatus, fun node =>
    compile_never_refused sample ⟨none, [0], 300⟩ {} d hd [.compile] node⟩

end Document

end Routing
