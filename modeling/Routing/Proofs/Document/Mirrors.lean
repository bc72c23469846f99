import Routing.Proofs.Document.Contents
/-!
# Statements that mirror a document

What a document is built to mirrors it: one statement for each element, branch and rule, nested as they
are, with the location of the first name below it. The stages of an object or of an object in place are
those that its drivers were made to. Read backwards, the statements say what the elements name and how
they are nested.
-/

namespace Routing

open Building

variable {σ ω : Type} {p p' : Plan σ ω} {pool pool' : Pool σ ω} {n k n' k' : Nat}

/-- The location of the first of these bytes. -/
def Building.Plan.first (p : Plan σ ω) (spans : List Toml.Span) : Option Location :=
  spans.head?.map fun span => p.lines.locate span.start

/-- The statements are stages that these drivers were made to, one for each, at one location. -/
def Building.Plan.Stages (p : Plan σ ω) (pool : Pool σ ω) (kind : Kind) (location : Location)
    (drivers : List DriverSpec) (pipes : List Statement) : Prop :=
  List.Forall₂ (fun spec s => ∃ h i, s = .pipe h (some location) ∧ pool.instances[h]? = some i ∧
    Makes p (kind, spec) i) drivers pipes

mutual

/-- The statement mirrors the element: a reference by name for a name, a reference that holds the stages
of its drivers for an object in place, a junction for branches. -/
def Element.Mirrored (p : Plan σ ω) (pool : Pool σ ω) : Element → Statement → Prop
  | .named kind name, s => s = .reference kind name.value (some (p.locate name))
  | .inline kind drivers, s => ∃ serial pipes,
    s = .inline serial kind.value pipes (some (p.locate kind)) ∧
      p.Stages pool kind.value (p.locate kind) drivers pipes
  | .junction branches, s => ∃ ss, s = .junction ss (p.first (RuleEntry.allSpans branches)) ∧
    RuleEntry.AllMirrored p pool branches ss

/-- The statement mirrors the rule or branch: a sequence with its flags. -/
def RuleEntry.Mirrored (p : Plan σ ω) (pool : Pool σ ω) : RuleEntry → Statement → Prop
  | .mk names es, s => ∃ ss,
    s = .sequence ss (Flags.ofNames names) (p.first (Element.allSpans es)) ∧
      Element.AllMirrored p pool es ss

def Element.AllMirrored (p : Plan σ ω) (pool : Pool σ ω) : List Element → List Statement → Prop
  | [], ss => ss = []
  | e :: es, ss => ∃ t ts, ss = t :: ts ∧ e.Mirrored p pool t ∧ Element.AllMirrored p pool es ts

def RuleEntry.AllMirrored (p : Plan σ ω) (pool : Pool σ ω) : List RuleEntry → List Statement → Prop
  | [], ss => ss = []
  | r :: rs, ss => ∃ t ts, ss = t :: ts ∧ r.Mirrored p pool t ∧ RuleEntry.AllMirrored p pool rs ts

end

/-- The statement mirrors the object: a definition with the stages of its drivers. -/
def ObjectEntry.Mirrored (p : Plan σ ω) (pool : Pool σ ω) (entry : Kind × ObjectEntry)
    (s : Statement) : Prop :=
  ∃ pipes, s = .definition entry.1 entry.2.name.value pipes (some (p.locate entry.2.name)) ∧
    p.Stages pool entry.1 (p.locate entry.2.name) entry.2.drivers pipes

theorem RuleEntry.allMirrored_iff {rs : List RuleEntry} {ss : List Statement} :
    RuleEntry.AllMirrored p pool rs ss ↔ List.Forall₂ (RuleEntry.Mirrored p pool) rs ss := by
  induction rs generalizing ss with
  | nil => rw [AllMirrored, List.forall₂_nil_left_iff]
  | cons r rs ih =>
    rw [AllMirrored, List.forall₂_cons_left_iff]
    simp only [ih]
    constructor
    · rintro ⟨t, ts, rfl, ht, hts⟩
      exact ⟨t, ts, ht, hts, rfl⟩
    · rintro ⟨t, ts, ht, hts, rfl⟩
      exact ⟨t, ts, rfl, ht, hts⟩

/-! ### What is made mirrors what is written -/

/-- The stages of these drivers stand in a row in the pool. -/
def Building.Plan.Supplies (p : Plan σ ω) (pool : Pool σ ω) (n : Nat)
    (specs : List (Kind × DriverSpec)) : Prop :=
  ∀ i spec, specs[i]? = some spec → ∃ inst, pool.instances[n + i]? = some inst ∧ Makes p spec inst

theorem Building.Fills.supplies {specs : List (Kind × DriverSpec)} (h : Fills p specs pool pool') :
    p.Supplies pool' pool.instances.size specs := by
  intro i spec hi
  obtain ⟨new, hnew, hmakes⟩ := h
  obtain ⟨hlt, rfl⟩ := List.getElem?_eq_some_iff.1 hi
  have hlt' : i < new.length := hmakes.length_eq ▸ hlt
  refine ⟨new[i], ?_, hmakes.get hlt hlt'⟩
  rw [← Array.getElem?_toList, hnew, List.getElem?_append_right (by simp)]
  simp [hlt']

namespace Building.Plan.Supplies

variable {specs specs' : List (Kind × DriverSpec)}

theorem append (h : p.Supplies pool n (specs ++ specs')) :
    p.Supplies pool n specs ∧ p.Supplies pool (n + specs.length) specs' := by
  refine ⟨fun i spec hi => h i spec (List.getElem?_append_left (List.getElem?_eq_some_iff.1 hi).1 ▸ hi),
    fun i spec hi => ?_⟩
  rw [Nat.add_assoc]
  refine h _ spec ?_
  rw [List.getElem?_append_right (Nat.le_add_right ..), Nat.add_sub_cancel_left]
  exact hi

theorem stages {kind : Kind} {drivers : List DriverSpec} (location : Location)
    (h : p.Supplies pool n (drivers.map (kind, ·))) :
    p.Stages pool kind location drivers (Statement.pipes n drivers.length location) := by
  induction drivers generalizing n with
  | nil => exact .nil
  | cons spec drivers ih =>
    obtain ⟨hfirst, hrest⟩ :=
      (show p.Supplies pool n ([(kind, spec)] ++ drivers.map (kind, ·)) from h).append
    rw [List.length_cons, pipes_cons]
    obtain ⟨i, hi, hmakes⟩ := hfirst 0 _ rfl
    exact .cons ⟨n, i, rfl, hi, hmakes⟩ (ih hrest)

end Building.Plan.Supplies

-- by the constructors of elements and rules

mutual

theorem Element.mirrored_made : ∀ (e : Element) (n k : Nat),
    p.Supplies pool n (InlineEntry.specs e.inlines) → e.Mirrored p pool (e.made p n k)
  | .named kind name, n, k, _ => rfl
  | .inline kind drivers, n, k, h => by
    rw [Element.inlines, InlineEntry.specs, List.flatMap_singleton] at h
    exact ⟨k, _, rfl, h.stages _⟩
  | .junction branches, n, k, h => by
    rw [Element.made, firstInBranches_eq]
    exact ⟨_, rfl, RuleEntry.mirrored_allMade branches n k h⟩

theorem RuleEntry.mirrored_made : ∀ (r : RuleEntry) (n k : Nat),
    p.Supplies pool n (InlineEntry.specs r.inlines) → r.Mirrored p pool (r.made p n k)
  | .mk names es, n, k, h => by
    rw [RuleEntry.made, firstInElements_eq]
    exact ⟨_, rfl, Element.mirrored_allMade es n k h⟩

theorem Element.mirrored_allMade : ∀ (es : List Element) (n k : Nat),
    p.Supplies pool n (InlineEntry.specs (Element.allInlines es)) →
      Element.AllMirrored p pool es (Element.allMade p n k es)
  | [], _, _, _ => rfl
  | e :: es, n, k, h => by
    rw [Element.allInlines, specs_append] at h
    exact ⟨_, _, rfl, Element.mirrored_made e n k h.append.1,
      Element.mirrored_allMade es _ _ h.append.2⟩

theorem RuleEntry.mirrored_allMade : ∀ (rs : List RuleEntry) (n k : Nat),
    p.Supplies pool n (InlineEntry.specs (RuleEntry.allInlines rs)) →
      RuleEntry.AllMirrored p pool rs (RuleEntry.allMade p n k rs)
  | [], _, _, _ => rfl
  | r :: rs, n, k, h => by
    rw [RuleEntry.allInlines, specs_append] at h
    exact ⟨_, _, rfl, RuleEntry.mirrored_made r n k h.append.1,
      RuleEntry.mirrored_allMade rs _ _ h.append.2⟩

end

theorem ObjectEntry.mirrored_allMade (entries : List (Kind × ObjectEntry)) (n : Nat)
    (h : p.Supplies pool n (ObjectEntry.specs entries)) :
    List.Forall₂ (ObjectEntry.Mirrored p pool) entries (ObjectEntry.allMade p n entries) := by
  induction entries generalizing n with
  | nil => exact .nil
  | cons entry rest ih =>
    have hsplit : ObjectEntry.specs (entry :: rest) =
        entry.2.drivers.map (entry.1, ·) ++ ObjectEntry.specs rest := List.flatMap_cons
    rw [hsplit] at h
    obtain ⟨hfirst, hrest⟩ := h.append
    rw [List.length_map] at hrest
    exact .cons ⟨_, rfl, hfirst.stages _⟩ (ih _ hrest)

/-! ### Reading statements backwards -/

/-- A value without its place in the text. -/
def Spanned.bare {α : Type} (value : α) : Spanned α :=
  ⟨value, ⟨0, 0⟩⟩

mutual

/-- What an element names and how it is nested: without places, flags and drivers. -/
def Element.outline : Element → Element
  | .named kind name => .named kind (.bare name.value)
  | .inline kind _ => .inline (.bare kind.value) []
  | .junction branches => .junction (RuleEntry.allOutlines branches)

def RuleEntry.outline : RuleEntry → RuleEntry
  | .mk _ es => .mk [] (Element.allOutlines es)

def Element.allOutlines : List Element → List Element
  | [] => []
  | e :: es => e.outline :: Element.allOutlines es

def RuleEntry.allOutlines : List RuleEntry → List RuleEntry
  | [] => []
  | r :: rs => r.outline :: RuleEntry.allOutlines rs

end

mutual

/-- The outline of the element that a statement mirrors. -/
def Statement.element : Statement → Element
  | .mk h o cs =>
    match h.shape, o with
    | .reference, .target _ _ => .inline (.bare h.kind) []
    | .reference, _ => .named h.kind (.bare (h.name.getD ""))
    | _, _ => .junction (Statement.allBranches cs)

/-- The outline of the branch that a statement mirrors. -/
def Statement.branch : Statement → RuleEntry
  | .mk _ _ cs => .mk [] (Statement.allElements cs)

def Statement.allElements : List Statement → List Element
  | [] => []
  | s :: ss => s.element :: Statement.allElements ss

def Statement.allBranches : List Statement → List RuleEntry
  | [] => []
  | s :: ss => s.branch :: Statement.allBranches ss

end

mutual

theorem Element.element_made : ∀ (e : Element) (n k : Nat), (e.made p n k).element = e.outline
  | .named kind name, n, k => rfl
  | .inline kind drivers, n, k => rfl
  | .junction branches, n, k => by
    rw [Element.made, Element.outline, ← RuleEntry.branches_allMade branches n k]
    rfl

theorem RuleEntry.branch_made : ∀ (r : RuleEntry) (n k : Nat), (r.made p n k).branch = r.outline
  | .mk names es, n, k => by
    rw [RuleEntry.made, RuleEntry.outline, ← Element.elements_allMade es n k]
    rfl

theorem Element.elements_allMade : ∀ (es : List Element) (n k : Nat),
    Statement.allElements (Element.allMade p n k es) = Element.allOutlines es
  | [], _, _ => rfl
  | e :: es, n, k => by
    rw [Element.allMade, Statement.allElements, Element.element_made e, Element.elements_allMade es,
      Element.allOutlines]

theorem RuleEntry.branches_allMade : ∀ (rs : List RuleEntry) (n k : Nat),
    Statement.allBranches (RuleEntry.allMade p n k rs) = RuleEntry.allOutlines rs
  | [], _, _ => rfl
  | r :: rs, n, k => by
    rw [RuleEntry.allMade, Statement.allBranches, RuleEntry.branch_made r,
      RuleEntry.branches_allMade rs, RuleEntry.allOutlines]

end

end Routing
