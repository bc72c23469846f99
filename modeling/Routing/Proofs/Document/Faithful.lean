import Routing.Proofs.Document.Drivers
import Routing.Proofs.Document.Mirrors
import Routing.Proofs.Document.Refusals
/-!
# Building is faithful to documents

A document is built to a catalog that mirrors it, or its first demand that is not met is refused. No
two lists of elements that name something else or are nested otherwise are built to the same statements.
-/

namespace Routing

open Building

variable {σ ω : Type} {α β : Type}

/-! ### Objects -/

/-- The kind and name of an object of a document. -/
def ObjectEntry.key (entry : Kind × ObjectEntry) : ObjectKey :=
  ⟨entry.1, entry.2.name.value⟩

theorem rel_find {R : α → β → Prop} {q : α → Bool} {q' : β → Bool} {xs : List α} {ys : List β}
    (h : List.Forall₂ R xs ys) (hq : ∀ x y, R x y → q x = q' y) :
    Option.Rel R (xs.find? q) (ys.find? q') := by
  induction h with
  | nil => exact .none
  | @cons x y _ _ hxy _ ih =>
    rw [List.find?_cons, List.find?_cons, ← hq x y hxy]
    cases q x with
    | true => exact .some hxy
    | false => exact ih

namespace ObjectEntry.Mirrored

variable {p : Plan σ ω} {pool : Pool σ ω} {entry : Kind × ObjectEntry} {s : Statement}

theorem key? (h : Mirrored p pool entry s) : s.key? = some (ObjectEntry.key entry) := by
  obtain ⟨pipes, rfl, -⟩ := h
  rfl

theorem filterMap_key? {entries : List (Kind × ObjectEntry)} {ss : List Statement}
    (h : List.Forall₂ (Mirrored p pool) entries ss) :
    ss.filterMap Statement.key? = entries.map ObjectEntry.key := by
  induction h with
  | nil => rfl
  | cons hs _ ih => rw [List.filterMap_cons, hs.key?, List.map_cons, ih]

end ObjectEntry.Mirrored

/-! ### Documents -/

namespace Document

/-- The deployment mirrors the document: it lists the objects by groups and in order, each kind and name
in the place of its first entry and with its last, and the rules in order. It has the stages of the
drivers and no others that are new. -/
structure Mirrored (d : Document) (p : Plan σ ω) (pool : Pool σ ω) (a : Deployment σ ω) : Prop where
  keys : a.catalog.objects.map Prod.fst = (d.objects.map ObjectEntry.key).eraseDups
  last : ∀ key, Option.Rel (ObjectEntry.Mirrored p a.pool)
    (d.objects.reverse.find? fun entry => ObjectEntry.key entry = key) (a.catalog.objects.find? key)
  rules : List.Forall₂ (RuleEntry.Mirrored p a.pool) d.rules a.catalog.rules
  stages : Fills p d.specs pool a.pool

variable {d : Document} {p : Plan σ ω} {pool : Pool σ ω} {a : Deployment σ ω}

/-- What is built from a document mirrors it. -/
theorem Yields.mirrored (hy : d.Yields p pool a) : d.Mirrored p pool a := by
  obtain ⟨hobjects, hrules⟩ := hy.fills.supplies.append
  have hmade := ObjectEntry.mirrored_allMade d.objects _ hobjects
  have hkey : ∀ s ∈ d.madeRules p pool.instances.size, s.key? = none := fun s hs =>
    Statement.key?_unnamed (RuleEntry.name_allMade d.rules s hs)
  have hregisters : a.catalog.Registers (d.made p pool.instances.size) :=
    hy.catalog ▸ Catalog.registers_registerAll _
  refine ⟨?_, fun key => ?_, ?_, hy.fills⟩
  · rw [hregisters.keys, Document.made, List.filterMap_append,
      ObjectEntry.Mirrored.filterMap_key? hmade, List.filterMap_eq_nil_iff.2 hkey, List.append_nil]
  -- rules have no key, so that the last statement with a key is the last object with it
  · have hnone : (d.madeRules p pool.instances.size).reverse.find?
        (fun s => s.key? = some key) = none := by
      rw [List.find?_eq_none]
      intro s hs
      simp [hkey s (List.mem_reverse.1 hs)]
    rw [hregisters.last, Document.made, List.reverse_append, List.find?_append, hnone, Option.none_or]
    refine rel_find (List.forall₂_reverse_iff.2 hmade) fun entry s hs => ?_
    rw [hs.key?]
    simp
  · rw [hy.rules]
    exact RuleEntry.allMirrored_iff.1 (RuleEntry.mirrored_allMade d.rules _ _ hrules)

end Document

/-! ### Elements -/

/-- The statements that elements are built to say what the elements name and how they are nested. -/
theorem Element.outlines_of_run {p p' : Plan σ ω} {es es' : List Element} {s s' t t' : Site σ ω}
    {ss : List Statement} (h : (elements p es).run s = (.ok ss, t))
    (h' : (elements p' es').run s' = (.ok ss, t')) :
    Element.allOutlines es = Element.allOutlines es' := by
  have hss := (wp_ok (wp_elements es s) h).1
  have hss' := (wp_ok (wp_elements es' s') h').1
  rw [← Element.elements_allMade es _ _, ← hss, hss', Element.elements_allMade]

namespace Document

/-- If whether a driver is accepted depends on nothing that happened before, then a document is built to
what mirrors it, or it fails, and that exactly if a driver is refused or an object in place has the kind
of stages. It fails for the first of these. -/
theorem build_mirrors (d : Document) (lines : LineTable) (factory : Factory σ ω) (pool : Pool σ ω)
    (hfactory : Factory.Steady factory) :
    let p := d.plan lines factory
    (∀ a, (d.build lines factory pool).1 = .ok a → d.Mirrored p pool a) ∧
    (∀ (p' : Plan σ ω) es es' s s' t t' ss, (elements p es).run s = (.ok ss, t) →
      (elements p' es').run s' = (.ok ss, t') → Element.allOutlines es = Element.allOutlines es') ∧
    ((∃ e, (d.build lines factory pool).1 = .error e) ↔
      (∃ spec ∈ d.specs, ∃ e, Refuses p spec e) ∨
        ∃ entry ∈ RuleEntry.allInlines d.rules, entry.1.value = .pipe) ∧
    ∀ e, (d.build lines factory pool).1 = .error e →
      ∃ before demand after inner, d.demands = before ++ demand :: after ∧
        (∀ earlier ∈ before, earlier.Met p) ∧ demand.RefusedWith p inner ∧
          e = demand.report p inner ∧ e.root = inner.root := by
  intro p
  obtain ⟨hmet, hfirst⟩ := asked d lines factory pool hfactory
  refine ⟨fun a ha => (yields_of_ok ha).mirrored, fun _ _ _ _ _ _ _ _ => Element.outlines_of_run, ?_,
    fun e he => ?_⟩
  · rw [← refused_iff]
    constructor
    · rintro ⟨e, he⟩
      exact (hfirst e he).not_met
    · rintro ⟨demand, hdemand, e, he⟩
      rcases hbuild : (d.build lines factory pool).1 with e' | a
      · exact ⟨e', rfl⟩
      · exact absurd he (hmet a hbuild demand hdemand e)
  · obtain ⟨before, demand, after, inner, hdemands, hbefore, hrefused, rfl⟩ := hfirst e he
    exact ⟨before, demand, after, inner, hdemands, hbefore, hrefused, rfl, demand.root_report p inner⟩

/-- The drivers of the library are accepted or refused for what they say. -/
theorem steady_create : Factory.Steady Builtin.create := by
  intro kind spec templates shared shared'
  unfold Builtin.create
  rcases Builtin.ofSpec kind spec templates with e | (s | ⟨name, capacity⟩) <;> rfl

/-- A document with an object in place that has the kind of stages, in a branch behind a source. -/
def sampleMisplaced : Document where
  sources := sample.sources
  rules := [.mk [] [.named .source ⟨"in", ⟨130, 134⟩⟩,
    .junction [.mk [] [.inline ⟨.pipe, ⟨160, 166⟩⟩ [{ driver := "none" }]]]]]

/-- The sample is built to what mirrors it. With the misplaced object building fails, and for its kind,
not for its driver. -/
theorem mirrored_sample :
    Factory.Steady Builtin.create ∧
    (∃ a, (sample.build ⟨none, [0], 300⟩ Builtin.create { shared := {} }).1 = .ok a ∧
      sample.Mirrored (sample.plan ⟨none, [0], 300⟩ Builtin.create) { shared := {} } a) ∧
    ∃ e, (sampleMisplaced.build ⟨none, [0], 300⟩ Builtin.create { shared := {} }).1 = .error e ∧
      e.message = "Configuration error: Inline object at #buffer:1:161 needs a kind other than pipe" ∧
      FirstRefused (sampleMisplaced.plan ⟨none, [0], 300⟩ Builtin.create) sampleMisplaced.demands e := by
  refine ⟨steady_create, ?_, ?_⟩
  · have hok : (sample.build ⟨none, [0], 300⟩ Builtin.create { shared := {} }).1.map
        (fun _ => ()) = .ok () := by decide +kernel
    obtain ⟨a, ha, -⟩ := map_eq_ok hok
    exact ⟨a, ha, (build_mirrors sample ⟨none, [0], 300⟩ Builtin.create { shared := {} }
      steady_create).1 a ha⟩
  · have herror : (sampleMisplaced.build ⟨none, [0], 300⟩ Builtin.create { shared := {} }).1.map
        (fun _ => ()) =
          .error (.config "Inline object at #buffer:1:161 needs a kind other than pipe") := by
      decide +kernel
    have he := map_eq_error herror
    obtain ⟨-, -, -, hfirst⟩ := build_mirrors sampleMisplaced ⟨none, [0], 300⟩ Builtin.create
      { shared := {} } steady_create
    obtain ⟨before, demand, after, inner, hdemands, hbefore, hrefused, heq, -⟩ := hfirst _ he
    exact ⟨_, he, rfl, before, demand, after, inner, hdemands, hbefore, hrefused, heq⟩

end Document

end Routing
