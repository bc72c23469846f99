import Routing.Proofs.Compile.WellFormed
import Routing.Proofs.Lifecycle.Runs
import Routing.Proofs.Meaning.Arrivals
import Routing.Proofs.Meaning.Run
/-!
# What compiled rules mean

A compiled deployment routes messages as its rules say. The words of the walks to the end of a rule
are the paths through the tree of the rule, and its slots deliver to each destination what the tree
delivers, whatever the rules share and whatever is compiled after them.
-/

namespace Routing

variable {σ ω : Type} [Stage σ ω] {α : Type}

namespace Build.Later

variable {S : Spelling σ α} {n : Nat} {b₀ b₁ b : Build σ ω}

theorem refl (hb : b.Core) (hs : Steady S n b.pool b) : Later S n b b :=
  ⟨hb, hb, hs, hs, .refl b⟩

theorem trans (h : Later S n b₀ b₁) (h' : Later S n b₁ b) : Later S n b₀ b where
  core₀ := h.core₀
  core := h'.core
  steady₀ := h.steady₀
  steady := ⟨h'.steady.toPlaced, h.steady.grown.trans h'.steady.grown, h'.steady.silent⟩
  extends_ := h.extends_.trans h'.extends_ h.core

end Build.Later

namespace Deployment

open Compile Build

variable (S : Spelling σ α) (targets : Nat → Statement)

/-- The state when so many rules are compiled. -/
def stateAt (d : Deployment σ ω) (i : Nat) : Build σ ω :=
  (compileRules d.catalog.objects 0 (d.catalog.rules.take i) d.build).2

/-- The meaning of a rule. -/
def meaning (d : Deployment σ ω) (rule : Statement) : Meaning α :=
  (rule.expandCatchAll d.catalog.objects).meaning (d.pool.alphabet S)
    (d.catalog.objects.meaning (d.pool.alphabet S))

/-- The deployment is one that a document makes, and nothing was done with it yet. -/
structure Written (d : Deployment σ ω) : Prop where
  status : d.status = .uncompiled
  build : d.build = { pool := d.pool }
  flat : d.catalog.objects.Flat
  objects : ∀ entry ∈ d.catalog.objects,
    entry.2.Each (Statement.WellMade d.catalog.objects targets d.pool.instances.size)
  rules : ∀ rule ∈ d.catalog.rules, rule.shape = .sequence ∧
    rule.Each (Statement.WellMade d.catalog.objects targets d.pool.instances.size)

end Deployment

theorem Statement.Each.wellMade_expandCatchAll {objects : Objects} {targets : Nat → Statement}
    {n : Nat} {s : Statement} (hs : s.Each (WellMade objects targets n))
    (hshape : s.shape = .sequence) :
    (s.expandCatchAll objects).Each (WellMade objects targets n) := by
  have hself := hs.self
  refine hs.expandCatchAll (fun flags refs => ⟨hself.fresh, hself.below, ⟨?_, ?_⟩, hself.bound⟩)
    (fun name => ⟨rfl, trivial, ⟨fun _ => trivial, fun h => by cases h⟩, fun _ _ h => by cases h⟩)
    objects
  · exact fun h => absurd (hshape.symm.trans h) (by simp)
  · exact fun h => absurd (hshape.symm.trans h) (by simp)

namespace Deployment

open Compile Build

variable {S : Spelling σ α} {targets : Nat → Statement} {d : Deployment σ ω} {i j : Nat}
  {rule : Statement}

/-- If all rules compile, each does from the state that the rules before it leave. -/
theorem compileRules_run {objects : Objects} {rules : List Statement} {b : Build σ ω} (i : Nat)
    (hok : (compileRules objects i rules b).1.1 = none) (hj : rules[j]? = some rule) :
    ∃ f, (Compile.rule objects rule).run (compileRules objects i (rules.take j) b).2 =
      (.ok f, (compileRules objects i (rules.take (j + 1)) b).2) := by
  induction rules generalizing i j b with
  | nil => cases hj
  | cons first rules ih =>
    rcases hrun : (Compile.rule objects first).run b with ⟨e | f, b₁⟩
    · simp only [compileRules_cons, hrun] at hok
      cases hok
    · simp only [compileRules_cons, hrun] at hok
      cases j with
      | zero =>
        obtain rfl : first = rule := Option.some.inj hj
        refine ⟨f, ?_⟩
        simp only [List.take_zero, List.take_succ_cons, compileRules_nil, compileRules_cons, hrun]
      | succ j =>
        obtain ⟨f', hf'⟩ := ih (i + 1) hok hj
        refine ⟨f', ?_⟩
        simp only [List.take_succ_cons, compileRules_cons, hrun]
        exact hf'

theorem compileRules_ok (hd : d.status = .uncompiled) (hok : d.compile.1 = .ok ()) :
    (compileRules d.catalog.objects 0 d.catalog.rules d.build).1.1 = none := by
  rw [compile, hd] at hok
  rcases hrun : compileRules d.catalog.objects 0 d.catalog.rules d.build with
    ⟨⟨_ | ⟨i, e⟩, rules⟩, b⟩
  · rfl
  · simp only [compileNow, hrun] at hok
    cases hok

namespace Written

omit [Stage σ ω] in
theorem given (hd : d.Written targets) :
    Given d.pool.instances.size d.pool d.catalog.objects targets where
  bound := Nat.le_refl _
  flat := hd.flat
  made := hd.objects

theorem resumable_start (hd : d.Written targets) :
    Resumable S d.pool.instances.size d.pool d.catalog.objects targets d.build := by
  rw [hd.build]
  refine ⟨sound_empty _, ⟨placed_of_empty rfl (Nat.le_refl _), ?_, fun hr => ?_⟩,
    ⟨?_, ?_, ?_, fun hx => ?_⟩⟩
  · exact ⟨Nat.le_refl _, fun _ => rfl, id⟩
  · exact absurd (Graph.role?_lt hr) (Nat.not_lt_zero _)
  · exact fun hm => absurd hm List.not_mem_nil
  · exact List.nodup_nil
  · exact List.nodup_nil
  · exact absurd (recipients_of_le (Nat.zero_le _)) hx

omit [Stage σ ω] in
theorem made (hd : d.Written targets) (hi : d.catalog.rules[i]? = some rule) :
    (rule.expandCatchAll d.catalog.objects).Each
      (Statement.WellMade d.catalog.objects targets d.pool.instances.size) := by
  obtain ⟨hshape, hrule⟩ := hd.rules rule (List.mem_of_getElem? hi)
  exact hrule.wellMade_expandCatchAll hshape

theorem build_compile (hd : d.Written targets) :
    d.compile.2.build = d.stateAt d.catalog.rules.length := by
  rw [compile, hd.status, stateAt, List.take_length]
  exact build_compileNow d

section Compiled

variable (hd : d.Written targets) (hok : d.compile.1 = .ok ())

include hd hok

theorem part (hi : d.catalog.rules[i]? = some rule)
    (hr : Resumable S d.pool.instances.size d.pool d.catalog.objects targets (d.stateAt i)) :
    ∃ f, (Compile.rule d.catalog.objects rule).run (d.stateAt i) = (.ok f, d.stateAt (i + 1)) ∧
      Part S (d.catalog.objects.known (d.pool.alphabet S) targets) d.pool.instances.size d.pool
        (d.stateAt i) (d.stateAt (i + 1)) f (d.meaning S rule) ∧
      f.isEmpty = (rule.expandCatchAll d.catalog.objects).vacant d.catalog.objects.vacant := by
  obtain ⟨f, hrun⟩ := compileRules_run 0 (compileRules_ok hd.status hok) hi
  obtain ⟨hpart, hvacant, -⟩ := wp_ok (means_rule hd.given (hd.made hi) hr) hrun
  exact ⟨f, hrun, hpart, hvacant⟩

theorem resumable (hi : i ≤ d.catalog.rules.length) :
    Resumable S d.pool.instances.size d.pool d.catalog.objects targets (d.stateAt i) := by
  induction i with
  | zero =>
    rw [stateAt, List.take_zero]
    exact hd.resumable_start
  | succ i ih =>
    have hlt : i < d.catalog.rules.length := hi
    obtain ⟨f, -, hpart, -⟩ := hd.part hok (List.getElem?_eq_getElem hlt) (ih (Nat.le_of_lt hlt))
    exact ⟨hpart.progress.sound, hpart.steady, hpart.told⟩

theorem later (hij : i ≤ j) (hj : j ≤ d.catalog.rules.length) :
    Later S d.pool.instances.size (d.stateAt i) (d.stateAt j) := by
  induction hij with
  | refl =>
    have hr := hd.resumable (S := S) hok hj
    exact .refl hr.sound.core hr.steady.refl
  | @step j hij ih =>
    have hlt : j < d.catalog.rules.length := hj
    have hr := hd.resumable (S := S) hok (Nat.le_of_lt hlt)
    obtain ⟨f, -, hpart, -⟩ := hd.part hok (List.getElem?_eq_getElem hlt) hr
    exact (ih (Nat.le_of_lt hlt)).trans (hpart.later hr.sound hr.steady)

/-- A rule keeps its meaning while further rules are compiled. -/
theorem denotes (hi : d.catalog.rules[i]? = some rule) :
    ∃ f, (Compile.rule d.catalog.objects rule).run (d.stateAt i) = (.ok f, d.stateAt (i + 1)) ∧
      f.isEmpty = (rule.expandCatchAll d.catalog.objects).vacant d.catalog.objects.vacant ∧
      Denotes S d.compile.2.build (d.stateAt i).graph.size (d.stateAt (i + 1)).graph.size f
        (d.meaning S rule) := by
  have hlt : i < d.catalog.rules.length := (List.getElem?_eq_some_iff.1 hi).1
  obtain ⟨f, hrun, hpart, hvacant⟩ := hd.part hok hi (hd.resumable (S := S) hok (Nat.le_of_lt hlt))
  refine ⟨f, hrun, hvacant, ?_⟩
  rw [hd.build_compile]
  have hlater := hd.later (S := S) hok (i := i + 1) hlt (Nat.le_refl _)
  refine hpart.denotes.later hlater (Nat.le_refl _) hpart.told fun {x} hx => ?_
  have htail := hpart.fits.last hx
  exact ⟨htail.lt, fun _ hm => htail.apart hm⟩

/-- What the slots of several rules deliver is what the rules deliver. -/
theorem delivered_stateAt (hi : i ≤ d.catalog.rules.length) :
    d.compile.2.build.delivered S 0 (d.stateAt i).graph.size =
      ((d.catalog.rules.take i).map fun rule => (d.meaning S rule).deliver).sum := by
  induction i with
  | zero =>
    have hempty : (d.stateAt 0).graph.size = 0 := by
      rw [stateAt, List.take_zero, hd.build]
      rfl
    rw [hempty, delivered_self, List.take_zero, List.map_nil, List.sum_nil]
  | succ i ih =>
    have hlt : i < d.catalog.rules.length := hi
    obtain ⟨f, -, -, hdenotes⟩ := hd.denotes (S := S) hok (List.getElem?_eq_getElem hlt)
    have hle : (d.stateAt i).graph.size ≤ (d.stateAt (i + 1)).graph.size :=
      (hd.later (S := S) hok (Nat.le_succ i) hi).extends_.size_le
    rw [delivered_add (Nat.zero_le _) hle, ih (Nat.le_of_lt hlt), hdenotes.delivers.words,
      List.take_succ_eq_append_getElem hlt, List.map_append, List.sum_append, List.map_singleton,
      List.sum_singleton]

end Compiled

end Written

/-- What a compiled deployment does is what its rules say. -/
structure Faithful (S : Spelling σ α) (d c : Deployment σ ω) : Prop where
  /-- Each rule leaves a part of the graph with its meaning. -/
  rule : ∀ {i rule}, d.catalog.rules[i]? = some rule → ∃ f,
    (Compile.rule d.catalog.objects rule).run (d.stateAt i) = (.ok f, d.stateAt (i + 1)) ∧
      f.isEmpty = (rule.expandCatchAll d.catalog.objects).vacant d.catalog.objects.vacant ∧
      Denotes S c.build (d.stateAt i).graph.size (d.stateAt (i + 1)).graph.size f (d.meaning S rule)
  /-- The parts are the whole graph. -/
  whole : c.build = d.stateAt d.catalog.rules.length
  delivered : c.build.delivered S 0 c.graph.size =
    (d.catalog.rules.map fun rule => (d.meaning S rule).deliver).sum
  /-- Messages arrive at a destination as the rules say, and by no other way. -/
  arriving : ∀ key : TargetKey, key.kind = .destination → c.build.arriving S key =
    Words.marked key (d.catalog.rules.map fun rule => (d.meaning S rule).deliver).sum

/-- Compiling preserves what rules mean. -/
theorem faithful_compile (S : Spelling σ α) (targets : Nat → Statement) (d : Deployment σ ω)
    (hd : d.Written targets) (hok : d.compile.1 = .ok ()) : d.Faithful S d.compile.2 := by
  have hresumable := hd.resumable (S := S) hok (Nat.le_refl _)
  have hdelivered := hd.delivered_stateAt (S := S) hok (Nat.le_refl _)
  rw [← hd.build_compile] at hresumable hdelivered
  rw [List.take_length] at hdelivered
  refine ⟨hd.denotes hok, hd.build_compile, hdelivered, fun key hk => ?_⟩
  rw [hresumable.told.arriving_eq hresumable.sound.core hk, hdelivered]

/-- The filter of `sampleRouting`, which is written in place. -/
def sampleTarget : Statement :=
  .mk { shape := .sequence, kind := .filter } .empty [.pipe 2 none]

/-- Two rules that share a source, a filter and a destination; one of them has branches. -/
def sampleRouting : Deployment Builtin Shared where
  catalog :=
    { objects := sampleObjects
      rules := [.sequence [.reference .source "in" none, .inline 0 .filter [.pipe 2 none] none,
          .reference .destination "out" none] .none none,
        .sequence [.reference .source "in" none,
          .junction [.sequence [.inline 0 .filter [.pipe 2 none] none] .none none,
            .sequence [.reference .destination "out" none] .none none] none,
          .reference .destination "out" none] .none none] }
  build := { pool := samplePool }

theorem written_sampleRouting : sampleRouting.Written fun _ => sampleTarget where
  status := rfl
  build := rfl
  flat := by decide +kernel
  objects := by
    have hfresh : ∀ entry ∈ sampleRouting.catalog.objects, entry.2.Fresh ∧ entry.2.Holds 3 := by
      decide +kernel
    have hregular : ∀ entry ∈ sampleRouting.catalog.objects, ∀ s ∈ entry.2.parts,
        s.Regular sampleRouting.catalog.objects := by decide +kernel
    have hbound : ∀ entry ∈ sampleRouting.catalog.objects,
        entry.2.Each (Statement.Bound fun _ => sampleTarget) := by
      simp [sampleRouting, sampleObjects, Statement.Each, Statement.definition, Statement.pipe,
        Statement.parts, Statement.allParts, Object.parts, Statement.Bound, Statement.object]
    exact fun entry he s hs => ⟨(hfresh entry he).1 s hs, (hfresh entry he).2 s hs,
      hregular entry he s hs, hbound entry he s hs⟩
  rules := by
    have hfresh : ∀ rule ∈ sampleRouting.catalog.rules, rule.shape = .sequence ∧ rule.Fresh ∧
        rule.Holds 3 := by decide +kernel
    have hregular : ∀ rule ∈ sampleRouting.catalog.rules, ∀ s ∈ rule.parts,
        s.Regular sampleRouting.catalog.objects := by decide +kernel
    have hbound : ∀ rule ∈ sampleRouting.catalog.rules,
        rule.Each (Statement.Bound fun _ => sampleTarget) := by
      simp [sampleRouting, Statement.Each, Statement.sequence, Statement.junction, Statement.inline,
        Statement.reference, Statement.pipe, Statement.parts, Statement.allParts, Object.parts,
        Statement.Bound, Statement.object]
      rfl
    refine fun rule hr => ⟨(hfresh rule hr).1, fun s hs => ⟨(hfresh rule hr).2.1 s hs,
      (hfresh rule hr).2.2 s hs, hregular rule hr s hs, hbound rule hr s hs⟩⟩

theorem faithful_sample :
    sampleRouting.compile.1 = .ok () ∧
      sampleRouting.Faithful Builtin.spelling sampleRouting.compile.2 ∧
      sampleRouting.compile.2.build.arriving Builtin.spelling ⟨.destination, .named "out"⟩ =
        {["in", "mark"], ["in", "mark"], ["in"], ["in"]} := by
  have hok : sampleRouting.compile.1 = .ok () := by decide +kernel
  have hfaithful := faithful_compile Builtin.spelling (fun _ => sampleTarget) sampleRouting
    written_sampleRouting hok
  refine ⟨hok, hfaithful, (hfaithful.arriving _ rfl).trans ?_⟩
  decide +kernel

end Deployment

end Routing
