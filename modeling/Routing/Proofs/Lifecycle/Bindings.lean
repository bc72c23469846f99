import Routing.Proofs.Compile.Bound
import Routing.Proofs.Lifecycle.CatchAll
/-!
# Deployments with an object in place of its name

If all references to an object hold it and it leaves the catalog, then compiling comes to the same: the
same slots with the same stages and edges, and the same error if a rule fails. A rule for all sources
lists the sources of the catalog, so that a source must not leave it while there is such a rule.
-/

namespace Routing

variable {σ ω : Type} {B : Binding} {objects : Objects} {s : Statement}

/-! ### Rules for all sources -/

/-- Listing sources does not come in the way of binding an object that is none of them. -/
theorem Statement.bound_listing (names : List String)
    (h : s.flags.catchAll = true → B.key.kind ≠ .source) :
    (s.listing names).bound B = (s.bound B).listing names := by
  obtain ⟨heading, o, cs⟩ := s
  have hflags : ((mk heading o cs).bound B).flags = (mk heading o cs).flags := rfl
  unfold listing
  rw [hflags]
  by_cases hall : (mk heading o cs).flags.catchAll = true
  · have hsources : (names.map fun name => reference .source name none).map (bound B) =
        names.map fun name => reference .source name none := by
      rw [List.map_map]
      refine List.map_congr_left fun name _ => ?_
      exact congrArg (mk _ · []) (if_neg fun hn => h hall (congrArg ObjectKey.kind hn.2).symm)
    have hobject : ∀ flags, o.bound B { heading with flags } = o.bound B heading := fun _ => by
      cases o <;> rfl
    rw [if_pos hall, if_pos hall, bound, allBound_eq, List.map_append, hsources, bound, allBound_eq]
    exact congrArg (mk _ · _) (hobject _)
  · rw [if_neg hall, if_neg hall]

theorem Objects.sourceNames_bound (hkeyed : ∀ e ∈ objects, e.2.key? = some e.1)
    (h : B.key.kind ≠ .source) : (objects.bound B).sourceNames = objects.sourceNames := by
  unfold bound sourceNames sources
  induction objects with
  | nil => rfl
  | cons entry objects ih =>
    have ih := ih fun e he => hkeyed e (List.mem_cons_of_mem _ he)
    obtain ⟨-, hkind⟩ := Statement.key?_eq_some.1 (hkeyed entry List.mem_cons_self)
    by_cases hentry : entry.1 = B.key
    · rw [List.filter_cons_of_neg (by simpa using hentry), ih, List.map_cons,
        List.filter_cons_of_neg (by simpa [hkind, hentry] using h)]
    · rw [List.filter_cons_of_pos (by simpa using hentry)]
      simp only [List.map_cons, List.filter_cons, Statement.kind_bound]
      split
      · rw [List.filterMap_cons, List.filterMap_cons, Statement.name_bound, ih]
      · exact ih

theorem Objects.Binds.expandCatchAll (hb : objects.Binds B)
    (h : s.flags.catchAll = true → B.key.kind ≠ .source) :
    (s.bound B).expandCatchAll (objects.bound B) = (s.expandCatchAll objects).bound B := by
  rw [Statement.expandCatchAll_eq, Statement.expandCatchAll_eq, Statement.bound_listing _ h]
  by_cases hkind : B.key.kind = .source
  · have hall : s.flags.catchAll = false := by simpa using fun hall => h hall hkind
    have hall' : (s.bound B).flags.catchAll = false := by
      rw [Statement.flags, Statement.heading_bound]
      exact hall
    rw [Statement.listing, Statement.listing, hall', if_neg Bool.false_ne_true,
      if_neg Bool.false_ne_true]
  · rw [sourceNames_bound hb.keyed hkind]

/-! ### Compiling -/

namespace Compile

variable [Stage σ ω]

/-- Rules correspond to the rules with the object in them. -/
theorem along_boundRule (hb : objects.Binds B) (hs : s.Each (Statement.Without B.serial))
    (h : s.flags.catchAll = true → B.key.kind ≠ .source) :
    (binding B : Likeness σ ω).Along (rule objects s) (rule (objects.bound B) (s.bound B))
      (binding B : Likeness σ ω).Part := by
  have hexpand : (s.expandCatchAll objects).Each (Statement.Without B.serial) :=
    hs.expandCatchAll (fun _ _ => hs.self) (fun _ => nofun) objects
  rw [rule, rule, hb.expandCatchAll h]
  exact along_bound hb hexpand false

omit [Stage σ ω] in
/-- States that match differ in what they remember at most. -/
theorem graph_of_match {b b' : Build σ ω} (h : (binding B).Match b b') : b'.graph = b.graph :=
  congrArg Graph.mk (Array.ext_getElem? fun _ => (h.slot_eq rfl rfl id).symm)

end Compile

namespace Deployment

open Compile

variable [Stage σ ω]

/-- The rules are compiled alike, up to the same one if one fails. -/
theorem compileRules_bound (hb : objects.Binds B) {rules : List Statement} {b b' : Build σ ω}
    (i : Nat) (hrules : ∀ rule ∈ rules, rule.Each (Statement.Without B.serial))
    (hsource : ∀ rule ∈ rules, rule.flags.catchAll = true → B.key.kind ≠ .source)
    (hmatch : (binding B).Match b b') :
    (compileRules (objects.bound B) i (rules.map (Statement.bound B)) b').1.1 =
        (compileRules objects i rules b).1.1 ∧
      (binding B).Match (compileRules objects i rules b).2
        (compileRules (objects.bound B) i (rules.map (Statement.bound B)) b').2 := by
  induction rules generalizing i b b' with
  | nil => exact ⟨rfl, hmatch⟩
  | cons rule rules ih =>
    have halong := along_boundRule (σ := σ) (ω := ω) hb (hrules rule (by simp)) (hsource rule (by simp))
    obtain ⟨hmatch, hresult⟩ := halong.outcome id hmatch
    rw [List.map_cons, compileRules_cons, compileRules_cons]
    rcases hrun : (Compile.rule objects rule).run b with ⟨e | f, b₁⟩ <;>
      rcases hrun' : (Compile.rule (objects.bound B) (rule.bound B)).run b' with ⟨e' | f', b₁'⟩ <;>
      rw [hrun, hrun'] at hmatch hresult <;>
      rcases hresult with ⟨_, _, h, h', -⟩ | ⟨_, _, h, h', heq⟩ <;> cases h <;> cases h'
    · rw [heq trivial]
      exact ⟨rfl, hmatch⟩
    · exact ih (i + 1) (fun rule h => hrules rule (by simp [h])) (fun rule h => hsource rule (by simp [h]))
        hmatch

end Deployment

/-! ### Deployments -/

/-- The catalog without the object, and with it in all references that name it. -/
def Catalog.bound (B : Binding) (c : Catalog) : Catalog where
  objects := c.objects.bound B
  rules := c.rules.map (Statement.bound B)

/-- The object can take the place of its name: it is in the catalog, no object refers to itself, no
target in the catalog has the serial number, and if it is a source then no rule is for all sources. -/
structure Catalog.Binds (c : Catalog) (B : Binding) : Prop where
  find : c.objects.find? B.key = some B.target
  acyclic : c.objects.Acyclic
  unused : ∀ s ∈ c.objects.map (·.2) ++ c.rules, s.Each (Statement.Without B.serial)
  listed : B.key.kind = .source → ∀ rule ∈ c.rules, rule.flags.catchAll = false

namespace Deployment

open Compile

variable [Stage σ ω]

/-- The deployment with the object in place of its name. -/
def bound (B : Binding) (d : Deployment σ ω) : Deployment σ ω :=
  { d with catalog := d.catalog.bound B }

/-- What the rule with this number is compiled to, after those before it. -/
def outcome? (d : Deployment σ ω) (i : Nat) : Option (Except CompileError Fragment) :=
  d.catalog.rules[i]?.map fun rule => ((Compile.rule d.catalog.objects rule).run (d.stateAt i)).1

section Bound

variable {d : Deployment σ ω}

omit [Stage σ ω] in
/-- What can be bound in a catalog of objects under their own names can be bound in its objects. -/
theorem objects_bind (hkeyed : ∀ e ∈ d.catalog.objects, e.2.key? = some e.1) (hb : d.catalog.Binds B) :
    d.catalog.objects.Binds B where
  find := hb.find
  keyed := hkeyed
  acyclic := hb.acyclic
  unused _ he := hb.unused _ (List.mem_append_left _ (List.mem_map_of_mem he))

variable (hkeyed : ∀ e ∈ d.catalog.objects, e.2.key? = some e.1) (hb : d.catalog.Binds B)

include hkeyed hb

theorem along_rule {rule : Statement} (hrule : rule ∈ d.catalog.rules) :
    (binding B : Likeness σ ω).Along (Compile.rule d.catalog.objects rule)
      (Compile.rule (d.bound B).catalog.objects (rule.bound B)) (binding B : Likeness σ ω).Part :=
  along_boundRule (objects_bind hkeyed hb) (hb.unused _ (List.mem_append_right _ hrule))
    fun hall hkind => by simp [hb.listed hkind rule hrule] at hall

/-- So many rules are compiled alike. -/
theorem take_bound (hbuild : d.build = { pool := d.pool }) (i : Nat) :
    (compileRules (d.bound B).catalog.objects 0 ((d.bound B).catalog.rules.take i)
        (d.bound B).build).1.1 =
        (compileRules d.catalog.objects 0 (d.catalog.rules.take i) d.build).1.1 ∧
      (binding B).Match (d.stateAt i) ((d.bound B).stateAt i) := by
  have hstart : (binding B).Match d.build (d.bound B).build := by
    rw [bound, hbuild]
    exact Likeness.match_start rfl rfl rfl
  have htake : (d.bound B).catalog.rules.take i =
      (d.catalog.rules.take i).map (Statement.bound B) := List.map_take.symm
  rw [stateAt, stateAt, htake]
  refine compileRules_bound (objects_bind hkeyed hb) 0 (fun rule hr => ?_) (fun rule hr => ?_) hstart
  · exact hb.unused _ (List.mem_append_right _ (List.mem_of_mem_take hr))
  · exact fun hall hkind => by simp [hb.listed hkind rule (List.mem_of_mem_take hr)] at hall

theorem outcome_bound (hbuild : d.build = { pool := d.pool }) (i : Nat) :
    (d.bound B).outcome? i = d.outcome? i := by
  have hrule : (d.bound B).catalog.rules[i]? = d.catalog.rules[i]?.map (Statement.bound B) :=
    List.getElem?_map ..
  rw [outcome?, outcome?, hrule, Option.map_map]
  refine Option.map_congr fun rule hr => ?_
  obtain ⟨-, hresult⟩ := (along_rule hkeyed hb (List.mem_of_getElem? hr)).outcome id
    (take_bound hkeyed hb hbuild i).2
  rcases hresult with ⟨f, f', hf, hf', hpart⟩ | ⟨e, e', he, he', heq⟩
  · exact (hf'.trans (hpart.eq rfl ▸ hf.symm) :)
  · exact (he'.trans (heq trivial ▸ he.symm) :)

end Bound

/-- Whatever was registered, compiling comes to the same whether references name an object or hold it
and it is not in the catalog. It may have one reference or several, and they may be anywhere: in a rule,
say, or in an object that is compiled again and again. -/
theorem bound_compile (templates : Templates) (settings : Settings) (pool : Pool σ ω)
    (ss : List Statement) (B : Binding) :
    let d := registered templates settings pool ss
    d.catalog.Binds B →
      (d.bound B).compile.1 = d.compile.1 ∧
      (d.bound B).compile.2.snapshot = d.compile.2.snapshot ∧
      ((d.bound B).compile.2.graph = d.compile.2.graph ∧
        (d.bound B).compile.2.pool = d.compile.2.pool) ∧
      ∀ i, (d.bound B).outcome? i = d.outcome? i := by
  intro d hb
  obtain ⟨hcatalog, hbuild, hstatus⟩ : d.catalog = _ ∧ d.build = _ ∧ d.status = _ := registered_frame ss
  have hkeyed : ∀ e ∈ d.catalog.objects, e.2.key? = some e.1 :=
    hcatalog ▸ Catalog.named_registerAll ss
  have hbuild' : d.build = { pool := d.pool } := by rw [Deployment.pool, hbuild]
  have hstatus' : (d.bound B).status = .uncompiled := hstatus
  obtain ⟨hresult, hmatch⟩ := take_bound hkeyed hb hbuild' d.catalog.rules.length
  have hlength : d.catalog.rules.length = (d.bound B).catalog.rules.length :=
    (List.length_map _).symm
  rw [stateAt, stateAt] at hmatch
  rw [hlength, List.take_length, ← hlength, List.take_length] at hresult hmatch
  have hend : (binding B).Match d.compile.2.build (d.bound B).compile.2.build := by
    rw [compile_eq hstatus, compile_eq hstatus', build_compileNow, build_compileNow]
    exact hmatch
  have hgraph : (d.bound B).compile.2.graph = d.compile.2.graph := graph_of_match hend
  have hpool : (d.bound B).compile.2.pool = d.compile.2.pool := hend.pool.symm
  refine ⟨?_, ?_, ⟨hgraph, hpool⟩, outcome_bound hkeyed hb hbuild'⟩
  · rw [compile_eq hstatus, compile_eq hstatus', result_compileNow, result_compileNow, hresult]
  · rw [snapshot, snapshot, hgraph, hpool]

/-- Two rules with a filter, one branch of which leads to a destination. -/
def sampleTees : List Statement :=
  [.definition .filter "tee" [.junction [.sequence [.reference .destination "out" none] .none none,
      .sequence [.pipe 2 none] .none none] none] none,
    .definition .destination "out" [.pipe 1 none] none,
    .definition .source "in" [.pipe 0 none] none,
    .sequence [.reference .filter "tee" none, .pipe 2 none] { catchAll := true } none,
    .sequence [.reference .source "in" none, .reference .filter "tee" none] .none none]

/-- The destination, which is named once, in the filter. -/
def sampleBinding : Binding :=
  ⟨⟨.destination, "out"⟩, 0, .definition .destination "out" [.pipe 1 none] none⟩

/-- The catalog of `sampleTees`. -/
def sampleTeeing : Catalog where
  objects := [(⟨.filter, "tee"⟩, sampleTees[0]), (⟨.destination, "out"⟩, sampleTees[1]),
    (⟨.source, "in"⟩, sampleTees[2])]
  rules := [sampleTees[3], sampleTees[4]]

theorem catalog_sample :
    (registered {} {} samplePool sampleTees : Deployment Builtin Shared).catalog = sampleTeeing := by
  rw [(registered_frame sampleTees).1]
  rfl

theorem binds_sample : sampleTeeing.Binds sampleBinding where
  find := rfl
  acyclic :=
    -- the filter refers to the destination
    (Catalog.acyclic_of_rank (fun key => if key.id = .named "tee" then 1 else 0)
      (by decide +kernel)).objects
  unused := by decide +kernel
  listed := nofun

/-- The destination is compiled once for both uses of the filter, whether they name it or hold it. -/
theorem bound_sample :
    let d : Deployment Builtin Shared := registered {} {} samplePool sampleTees
    d.catalog.objects.length = 3 ∧ (d.bound sampleBinding).catalog.objects.length = 2 ∧
      ((d.bound sampleBinding).compile.1 = d.compile.1 ∧
        (d.bound sampleBinding).compile.2.graph = d.compile.2.graph ∧
        ∀ i, (d.bound sampleBinding).outcome? i = d.outcome? i) ∧
      d.compile.1.toBool = true ∧ (d.bound sampleBinding).compile.2.graph.size = 17 := by
  intro d
  have hbinds : d.catalog.Binds sampleBinding := catalog_sample ▸ binds_sample
  obtain ⟨hresult, -, ⟨hgraph, -⟩, houtcome⟩ :=
    bound_compile {} {} samplePool sampleTees sampleBinding hbinds
  exact ⟨by decide +kernel, by decide +kernel, ⟨hresult, hgraph, houtcome⟩, by decide +kernel,
    by decide +kernel⟩

end Deployment

end Routing
