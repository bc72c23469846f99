import Routing.Proofs.Lifecycle.Registration
import Routing.Proofs.Lifecycle.States
import Routing.Proofs.Meaning.Rules
/-!
# Rules for all sources

A rule with the flag for all sources stands for the rule that lists them: compiling the one comes to the
same as compiling the other. Compiling puts the rule that lists them in its place, once and for all.
-/

namespace Routing

variable {σ ω : Type}

namespace Statement

/-- The rule with references to these sources in front instead of the flag for all sources. -/
def listing (names : List String) (rule : Statement) : Statement :=
  if rule.flags.catchAll then
    .mk { rule.heading with flags := { rule.flags with catchAll := false } } rule.object
      (names.map (fun name => .reference .source name none) ++ rule.children)
  else rule

/-- The statements with these sources listed in the rules. -/
def listAll (names : List String) (ss : List Statement) : List Statement :=
  ss.map fun s => if s.name.isNone then s.listing names else s

theorem expandCatchAll_eq (objects : Objects) (rule : Statement) :
    rule.expandCatchAll objects = rule.listing objects.sourceNames := by
  obtain ⟨h, o, cs⟩ := rule
  unfold expandCatchAll listing
  split
  · simp [prepend, removeFlags, mapHeading, Flags.without, heading, flags, object, children]
  · rfl

theorem name_listing (names : List String) (s : Statement) : (s.listing names).name = s.name := by
  unfold listing
  split <;> rfl

theorem catchAll_listing (names : List String) (s : Statement) :
    (s.listing names).flags.catchAll = false := by
  unfold listing
  split
  · rfl
  · next hall => simpa using hall

theorem listing_listing (names names' : List String) (s : Statement) :
    (s.listing names).listing names' = s.listing names :=
  if_neg (by rw [catchAll_listing]; exact Bool.false_ne_true)

end Statement

namespace Deployment

variable [Stage σ ω]

/-! ### Registering -/

/-- A deployment in which these statements were registered, one after another. -/
def registered (templates : Templates) (settings : Settings) (pool : Pool σ ω)
    (ss : List Statement) : Deployment σ ω :=
  ({ catalog := {}, templates, settings, build := { pool } } : Deployment σ ω).perform
    (ss.map Action.register)

/-- The deployment with its rules changed. -/
def mapRules (f : Statement → Statement) (d : Deployment σ ω) : Deployment σ ω :=
  { d with catalog := { d.catalog with rules := d.catalog.rules.map f } }

variable {templates : Templates} {settings : Settings} {pool : Pool σ ω} {ss : List Statement}

theorem registered_concat (s : Statement) :
    registered templates settings pool (ss ++ [s]) =
      ((registered templates settings pool ss).register s).2 := by
  simp [registered, perform, Action.run]

theorem registered_frame (ss : List Statement) :
    (registered templates settings pool ss).catalog = Catalog.registerAll {} ss ∧
      (registered templates settings pool ss).build = { pool } ∧
      (registered templates settings pool ss).status = .uncompiled := by
  induction ss using List.reverseRecOn with
  | nil => exact ⟨rfl, rfl, rfl⟩
  | append_singleton ss s ih =>
    obtain ⟨hcatalog, hbuild, hstatus⟩ := ih
    obtain ⟨-, hc, hs, memos, hmemos, hb⟩ := register_spec (registered templates settings pool ss) s
    rw [hbuild] at hmemos hb
    rw [registered_concat, Catalog.registerAll_concat]
    exact ⟨by rw [hc, hcatalog], by rw [hb, List.subset_nil.1 hmemos], hs.trans hstatus⟩

omit [Stage σ ω] in
theorem register_rule {d : Deployment σ ω} (hd : d.status = .uncompiled) {s : Statement}
    (hs : s.name = none) :
    (d.register s).2 = { d with catalog := { d.catalog with rules := d.catalog.rules ++ [s] } } := by
  simp [register, hd, Catalog.register_unnamed hs]

omit [Stage σ ω] in
theorem register_object {d : Deployment σ ω} (hd : d.status = .uncompiled) {s : Statement}
    {name : String} (hs : s.name = some name) (f : Statement → Statement) :
    ((d.mapRules f).register s).2 = (d.register s).2.mapRules f := by
  simp only [register, mapRules, hd, if_true, Catalog.register_named hs]
  cases d.catalog.objects.find? ⟨s.kind, name⟩ <;> rfl

/-- Registering rules that list the sources changes nothing but the rules. -/
theorem registered_listAll (names : List String) (ss : List Statement) :
    registered templates settings pool (Statement.listAll names ss) =
      (registered templates settings pool ss).mapRules (Statement.listing names) := by
  induction ss using List.reverseRecOn with
  | nil => rfl
  | append_singleton ss s ih =>
    have hstatus : (registered templates settings pool ss).status = .uncompiled :=
      (registered_frame ss).2.2
    have hconcat : Statement.listAll names (ss ++ [s]) = Statement.listAll names ss ++
        [if s.name.isNone then s.listing names else s] := List.map_append
    rw [hconcat, registered_concat, registered_concat, ih]
    cases hs : s.name with
    | none =>
      have hlisting : (s.listing names).name = none := (Statement.name_listing names s).trans hs
      rw [Option.isNone_none, if_pos rfl, register_rule hstatus hs]
      refine (register_rule (d := (registered templates settings pool ss).mapRules _) hstatus
        hlisting).trans ?_
      simp [mapRules]
    | some name =>
      rw [Option.isNone_some, if_neg Bool.false_ne_true, register_object hstatus hs]

/-! ### Compiling -/

theorem rule_listing (objects : Objects) (rule : Statement) :
    (Compile.rule objects (rule.listing objects.sourceNames) : Compile σ ω Fragment) =
      Compile.rule objects rule := by
  simp only [Compile.rule, Statement.expandCatchAll_eq, Statement.listing_listing]

theorem compileRules_listing (objects : Objects) (rules : List Statement) (i : Nat)
    (b : Build σ ω) :
    (compileRules objects i (rules.map (Statement.listing objects.sourceNames)) b).1.1 =
        (compileRules objects i rules b).1.1 ∧
      (compileRules objects i (rules.map (Statement.listing objects.sourceNames)) b).2 =
        (compileRules objects i rules b).2 := by
  induction rules generalizing i b with
  | nil => exact ⟨rfl, rfl⟩
  | cons rule rules ih =>
    simp only [List.map_cons, compileRules_cons, rule_listing]
    rcases (Compile.rule objects rule).run b with ⟨e | f, b₁⟩
    · exact ⟨rfl, rfl⟩
    · exact ih (i + 1) b₁

/-- If all rules compile, all of them list the sources afterwards. -/
theorem rules_of_compiled {objects : Objects} {rules : List Statement} {i : Nat} {b : Build σ ω}
    (h : (compileRules objects i rules b).1.1 = none) :
    (compileRules objects i rules b).1.2 = rules.map (Statement.listing objects.sourceNames) := by
  induction rules generalizing i b with
  | nil => rfl
  | cons rule rules ih =>
    rcases hrun : (Compile.rule objects rule).run b with ⟨e | f, b₁⟩
    · simp only [compileRules_cons, hrun] at h
      cases h
    · simp only [compileRules_cons, hrun] at h
      simp only [compileRules_cons, hrun, Statement.expandCatchAll_eq, List.map_cons, ih h]

/-- If a rule fails, those before it compile, and the rules up to it list the sources afterwards. -/
theorem rules_of_failed {objects : Objects} {rules : List Statement} {i j : Nat} {b : Build σ ω}
    {e : CompileError} (h : (compileRules objects i rules b).1.1 = some (j, e)) :
    ∃ k rule, rules[k]? = some rule ∧ (compileRules objects i (rules.take k) b).1.1 = none ∧
      ((Compile.rule objects rule).run (compileRules objects i (rules.take k) b).2).1 = .error e ∧
      (compileRules objects i rules b).1.2 =
        (rules.take (k + 1)).map (Statement.listing objects.sourceNames) ++ rules.drop (k + 1) := by
  -- every rule that compiles is one more before the one that fails
  induction rules generalizing i b with
  | nil => cases h
  | cons rule rules ih =>
    rcases hrun : (Compile.rule objects rule).run b with ⟨e' | f, b₁⟩
    · simp only [compileRules_cons, hrun] at h
      cases h
      refine ⟨0, rule, rfl, rfl, congrArg Prod.fst hrun, ?_⟩
      simp [compileRules_cons, hrun, Statement.expandCatchAll_eq]
    · simp only [compileRules_cons, hrun] at h
      obtain ⟨k, failing, hk, hbefore, hfails, hrules⟩ := ih h
      refine ⟨k + 1, failing, hk, ?_, ?_, ?_⟩
      · simpa only [List.take_succ_cons, compileRules_cons, hrun] using hbefore
      · simpa only [List.take_succ_cons, compileRules_cons, hrun] using hfails
      · simp only [compileRules_cons, hrun, Statement.expandCatchAll_eq, hrules, List.take_succ_cons,
          List.map_cons, List.drop_succ_cons, List.cons_append]

section

variable {d : Deployment σ ω}

/-- With the sources listed in all rules, compiling comes to the same. -/
theorem compile_mapRules (hd : d.status = .uncompiled) :
    let d' := d.mapRules (Statement.listing d.catalog.objects.sourceNames)
    d'.compile.1 = d.compile.1 ∧ d'.compile.2.build = d.compile.2.build := by
  intro d'
  have hd' : d'.status = .uncompiled := hd
  obtain ⟨hresult, hbuild⟩ := compileRules_listing d.catalog.objects d.catalog.rules 0 d.build
  rw [compile_eq hd, compile_eq hd', result_compileNow, result_compileNow, build_compileNow,
    build_compileNow]
  refine ⟨?_, hbuild⟩
  rw [← hresult]
  rfl

/-- The rules before the one with this number compile, and that one fails with this error. -/
structure FailsAt (d : Deployment σ ω) (i : Nat) (e : CompileError) : Prop where
  before : ∀ j rule, j < i → d.catalog.rules[j]? = some rule →
    ∃ f, ((Compile.rule d.catalog.objects rule).run (d.stateAt j)).1 = .ok f
  fails : ∃ rule, d.catalog.rules[i]? = some rule ∧
    ((Compile.rule d.catalog.objects rule).run (d.stateAt i)).1 = .error e

/-- Compiling puts rules that list these sources in the place of those that it reaches, and nothing
changes them afterwards. -/
structure ListsSources (names : List String) (d : Deployment σ ω) : Prop where
  compiled : d.compile.1 = .ok () →
    d.compile.2.catalog.rules = d.catalog.rules.map (Statement.listing names)
  failed : ∀ e, d.compile.1 = .error e → ∃ i, d.FailsAt i e ∧
    d.compile.2.catalog.rules =
      (d.catalog.rules.take (i + 1)).map (Statement.listing names) ++ d.catalog.rules.drop (i + 1)
  lasting : ∀ actions, let c := d.compile.2.perform actions
    c.compile.2.catalog = c.catalog ∧ c.start.2.catalog = c.catalog

theorem listsSources_compile (hd : d.status = .uncompiled) :
    d.ListsSources d.catalog.objects.sourceNames where
  compiled hok := by
    rw [compile_eq hd, rules_compileNow]
    exact rules_of_compiled (compileRules_ok hd hok)
  failed e he := by
    rw [compile_eq hd, result_compileNow] at he
    rw [compile_eq hd, rules_compileNow]
    split at he
    · cases he
    · next i e' hresult =>
      cases he
      obtain ⟨k, rule, hk, hbefore, hfails, hrules⟩ := rules_of_failed hresult
      refine ⟨k, ⟨fun j earlier hj hearlier => ?_, rule, hk, hfails⟩, hrules⟩
      obtain ⟨f, hf⟩ := compileRules_run 0 hbefore ((List.getElem?_take_of_lt hj).trans hearlier)
      rw [List.take_take, Nat.min_eq_left (Nat.le_of_lt hj)] at hf
      exact ⟨f, congrArg Prod.fst hf⟩
  lasting actions := by
    have hc := (Lasts.perform (status_compile d) actions).compiled
    exact ⟨congrArg catalog (compile_of_compiled hc), catalog_start hc⟩

end

/-- Whatever is registered, the catalog holds the last object with each kind and name in the place of
the first, and a statement is reported exactly if an earlier one has its kind and name. Compiling comes
to the same as with the sources listed in all rules that have the flag for all sources, and leaves those
rules in the place of the ones that it reaches. -/
theorem listed_compile (templates : Templates) (settings : Settings) (pool : Pool σ ω)
    (ss : List Statement) :
    let d := registered templates settings pool ss
    let names := Statement.sourceNames ss
    let listed := registered templates settings pool (Statement.listAll names ss)
    d.catalog.Registers ss ∧
      (∀ before s dup, ((registered templates settings pool before).register s).1 = some dup ↔
        s.key? = some ⟨dup.kind, dup.name⟩ ∧ ∃ t ∈ before, t.key? = s.key?) ∧
      listed.catalog = { d.catalog with rules := d.catalog.rules.map (Statement.listing names) } ∧
      (listed.compile.1 = d.compile.1 ∧ listed.compile.2.snapshot = d.compile.2.snapshot) ∧
      d.ListsSources names := by
  intro d names listed
  obtain ⟨hcatalog, -, hstatus⟩ : d.catalog = _ ∧ d.build = _ ∧ d.status = _ := registered_frame ss
  have hnames : d.catalog.objects.sourceNames = names := by
    rw [hcatalog]
    exact Catalog.sourceNames_registerAll ss
  have hlisted : listed = d.mapRules (Statement.listing d.catalog.objects.sourceNames) := by
    rw [hnames]
    exact registered_listAll names ss
  obtain ⟨hresult, hbuild⟩ := compile_mapRules hstatus
  refine ⟨?_, fun before s dup => ?_, ?_, ⟨?_, ?_⟩, ?_⟩
  · rw [hcatalog]
    exact Catalog.registers_registerAll ss
  · rw [(register_spec _ s).1, (registered_frame before).1]
    exact (Catalog.registers_registerAll before).duplicate s dup
  · rw [hlisted, hnames]
    rfl
  · rw [hlisted]
    exact hresult
  · rw [hlisted, snapshot, snapshot, Deployment.pool, Deployment.graph, Deployment.pool,
      Deployment.graph, hbuild]
  · rw [← hnames]
    exact listsSources_compile hstatus

end Deployment

end Routing
