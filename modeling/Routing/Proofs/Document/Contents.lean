import Mathlib.Data.List.Nodup
import Mathlib.Data.List.Range
import Routing.Proofs.Compile.Targets
import Routing.Proofs.Document.Built
import Routing.Proofs.Lifecycle.Registration
/-!
# What the statements of a document contain

Nothing in them is settled before, each of their stages stands in one object or object in place
only, and the catalog lists nothing but them.
-/

namespace Routing

variable {σ ω : Type} {p : Building.Plan σ ω} {n k m : Nat}

/-! ### Where rules are located -/

section Locations

open Building

mutual

theorem firstIn_eq : ∀ e : Element,
    firstIn p e = e.spans.head?.map fun span => p.lines.locate span.start
  | .named kind name => rfl
  | .inline kind drivers => rfl
  | .junction branches => by
    rw [firstIn, Element.spans]
    exact firstInBranches_eq branches

theorem firstInRule_eq : ∀ r : RuleEntry,
    firstInRule p r = r.spans.head?.map fun span => p.lines.locate span.start
  | .mk names es => by
    rw [firstInRule, RuleEntry.spans]
    exact firstInElements_eq es

theorem firstInElements_eq : ∀ es : List Element,
    firstInElements p es = (Element.allSpans es).head?.map fun span => p.lines.locate span.start
  | [] => rfl
  | e :: es => by
    rw [firstInElements, Element.allSpans, List.head?_append, firstIn_eq e, firstInElements_eq es,
      Option.map_or]

theorem firstInBranches_eq : ∀ rs : List RuleEntry,
    firstInBranches p rs = (RuleEntry.allSpans rs).head?.map fun span => p.lines.locate span.start
  | [] => rfl
  | r :: rs => by
    rw [firstInBranches, RuleEntry.allSpans, List.head?_append, firstInRule_eq r,
      firstInBranches_eq rs, Option.map_or]

end

end Locations

/-! ### Nothing is settled -/

/-- Nothing in the statement is settled, and its stages are among the first `m`. -/
abbrev Statement.Raw (m : Nat) (s : Statement) : Prop :=
  s.Each fun q => q.heading.memo = none ∧ q.object.Below m

theorem Statement.raw_mk {h : Heading} {cs : List Statement} (hmemo : h.memo = none)
    (hcs : ∀ s ∈ cs, s.Raw m) : (Statement.mk h .empty cs).Raw m :=
  .mk ⟨hmemo, trivial⟩ (fun _ hp => by cases hp) hcs

theorem Statement.raw_pipes {count : Nat} {location : Location} (hm : n + count ≤ m) :
    ∀ s ∈ pipes n count location, s.Raw m := by
  intro s hs
  obtain ⟨h, hh, rfl⟩ := List.mem_map.1 hs
  have hlt := (List.mem_range'_1.1 hh).2
  exact .mk ⟨rfl, Nat.lt_of_lt_of_le hlt hm⟩ (fun _ hp => by cases hp) (fun _ hp => by cases hp)

theorem InlineEntry.length_specs_append (entries entries' : List InlineEntry) :
    (InlineEntry.specs (entries ++ entries')).length =
      (InlineEntry.specs entries).length + (InlineEntry.specs entries').length := by
  rw [Building.specs_append, List.length_append]

mutual

theorem Element.raw_made : ∀ (e : Element) (n k : Nat),
    n + (InlineEntry.specs e.inlines).length ≤ m → (e.made p n k).Raw m
  | .named kind name, n, k, _ => Statement.raw_mk rfl (by simp)
  | .inline kind drivers, n, k, hm => by
    have hpipes : ∀ s ∈ Statement.pipes n drivers.length (p.locate kind), s.Raw m :=
      Statement.raw_pipes (by simpa [Element.inlines, InlineEntry.specs] using hm)
    refine .mk ⟨rfl, trivial⟩ ?_ (by simp)
    exact Statement.raw_mk rfl hpipes
  | .junction branches, n, k, hm => by
    rw [Element.made]
    exact Statement.raw_mk rfl (RuleEntry.raw_allMade branches n k hm)

theorem RuleEntry.raw_made : ∀ (r : RuleEntry) (n k : Nat),
    n + (InlineEntry.specs r.inlines).length ≤ m → (r.made p n k).Raw m
  | .mk names es, n, k, hm => by
    rw [RuleEntry.made]
    exact Statement.raw_mk rfl (Element.raw_allMade es n k hm)

theorem Element.raw_allMade : ∀ (es : List Element) (n k : Nat),
    n + (InlineEntry.specs (Element.allInlines es)).length ≤ m →
      ∀ s ∈ Element.allMade p n k es, s.Raw m
  | [], _, _, _ => by simp [Element.allMade]
  | e :: es, n, k, hm => by
    rw [Element.allInlines, InlineEntry.length_specs_append, ← Nat.add_assoc] at hm
    rw [Element.allMade]
    intro s hs
    rcases List.mem_cons.1 hs with rfl | hs
    · exact Element.raw_made e n k (by omega)
    · exact Element.raw_allMade es _ _ hm s hs

theorem RuleEntry.raw_allMade : ∀ (rs : List RuleEntry) (n k : Nat),
    n + (InlineEntry.specs (RuleEntry.allInlines rs)).length ≤ m →
      ∀ s ∈ RuleEntry.allMade p n k rs, s.Raw m
  | [], _, _, _ => by simp [RuleEntry.allMade]
  | r :: rs, n, k, hm => by
    rw [RuleEntry.allInlines, InlineEntry.length_specs_append, ← Nat.add_assoc] at hm
    rw [RuleEntry.allMade]
    intro s hs
    rcases List.mem_cons.1 hs with rfl | hs
    · exact RuleEntry.raw_made r n k (by omega)
    · exact RuleEntry.raw_allMade rs _ _ hm s hs

end

theorem ObjectEntry.raw_allMade (entries : List (Kind × ObjectEntry)) (n : Nat)
    (hm : n + (ObjectEntry.specs entries).length ≤ m) :
    ∀ s ∈ ObjectEntry.allMade p n entries, s.Raw m := by
  induction entries generalizing n with
  | nil => simp [ObjectEntry.allMade]
  | cons entry rest ih =>
    have hlength : (ObjectEntry.specs (entry :: rest)).length =
        entry.2.drivers.length + (ObjectEntry.specs rest).length := by
      simp [ObjectEntry.specs]
    rw [hlength, ← Nat.add_assoc] at hm
    intro s hs
    rcases List.mem_cons.1 hs with rfl | hs
    · exact Statement.raw_mk rfl (Statement.raw_pipes (by omega))
    · exact ih _ hm s hs

/-- Nothing in a document is settled, and it has no stages but its own. -/
theorem Document.raw_made (d : Document) (p : Building.Plan σ ω) (n : Nat) :
    ∀ s ∈ d.made p n, s.Raw (n + d.specs.length) := by
  intro s hs
  rw [Document.specs, List.length_append]
  rcases List.mem_append.1 hs with hs | hs
  · exact ObjectEntry.raw_allMade d.objects n (by omega) s hs
  · exact RuleEntry.raw_allMade d.rules _ 0 (by omega) s hs

/-! ### Stages stand in one place -/

namespace Statement

def handle? : Statement → Option Handle
  | .mk _ (.stage h) _ => some h
  | _ => none

/-- The stages of the children. -/
def handles (t : Statement) : List Handle :=
  t.children.filterMap handle?

/-- A sequence of stages: what an object or an object in place is made to. -/
structure IsBody (t : Statement) : Prop where
  shape : t.shape = .sequence
  object : t.object = .empty
  flags : t.flags = .none
  children : ∃ location, t.children = t.handles.map fun h => .pipe h location

/-- The targets that a statement at the top brings: itself if it is an object, and else what is
written in it in place of names. -/
def bodies (s : Statement) : List (TargetKey × Statement) :=
  match s.name with
  | some name => [(⟨s.kind, .named name⟩, s)]
  | none => s.inlined

/-- The stages of targets, with the kinds in which they stand. -/
def stock (targets : List (TargetKey × Statement)) : List (Kind × Handle) :=
  targets.flatMap fun e => e.2.handles.map (e.2.kind, ·)

theorem stock_append (targets targets' : List (TargetKey × Statement)) :
    stock (targets ++ targets') = stock targets ++ stock targets' :=
  List.flatMap_append

theorem handles_pipes {count : Nat} {location : Location} :
    (pipes n count location).filterMap handle? = List.range' n count := by
  rw [pipes, List.filterMap_map]
  exact List.filterMap_some

theorem isBody_mk {h : Heading} {count : Nat} {location : Location} (hshape : h.shape = .sequence)
    (hflags : h.flags = .none) : (Statement.mk h .empty (pipes n count location)).IsBody where
  shape := hshape
  object := rfl
  flags := hflags
  children := by
    refine ⟨some location, ?_⟩
    rw [handles, children, handles_pipes, pipes]

theorem inlined_mk (h : Heading) (cs : List Statement) :
    (Statement.mk h .empty cs).inlined = cs.flatMap inlined := by
  unfold inlined
  simp only [parts, Object.parts, List.nil_append, List.filterMap_cons, object]
  induction cs with
  | nil => rfl
  | cons s cs ih => rw [allParts, List.filterMap_append, ih, List.flatMap_cons]

theorem inlined_pipes (n count : Nat) (location : Location) :
    (pipes n count location).flatMap inlined = [] := by
  rw [List.flatMap_eq_nil_iff]
  intro s hs
  obtain ⟨h, -, rfl⟩ := List.mem_map.1 hs
  rfl

theorem inlined_inline (serial n count : Nat) (kind : Kind) (location : Location) :
    (Statement.inline serial kind (pipes n count location) (some location)).inlined =
      [(⟨kind, .inline serial⟩, .mk { shape := .sequence, kind, location := some location } .empty
        (pipes n count location))] := by
  have htarget := inlined_mk { shape := .sequence, kind, location := some location }
    (pipes n count location)
  rw [inlined_pipes] at htarget
  unfold inlined at htarget ⊢
  simp only [inline, parts, Object.parts, List.nil_append, List.append_nil, allParts,
    List.filterMap_cons, object] at htarget ⊢
  rw [htarget]
  rfl

end Statement

/-- Targets that are the bodies for these drivers, with stages in a row. -/
structure Stocks (targets : List (TargetKey × Statement)) (specs : List (Kind × DriverSpec))
    (n : Nat) : Prop where
  stock : Statement.stock targets = (specs.map Prod.fst).zipIdx n
  body : ∀ e ∈ targets, e.2.IsBody

namespace Stocks

variable {targets targets' : List (TargetKey × Statement)} {specs specs' : List (Kind × DriverSpec)}

theorem nil (n : Nat) : Stocks [] [] n := ⟨rfl, by simp⟩

theorem append (h : Stocks targets specs n) (h' : Stocks targets' specs' (n + specs.length)) :
    Stocks (targets ++ targets') (specs ++ specs') n where
  stock := by
    rw [Statement.stock_append, h.stock, h'.stock, List.map_append, List.zipIdx_append,
      List.length_map]
  body e he := (List.mem_append.1 he).elim (h.body e) (h'.body e)

theorem single {h : Heading} {drivers : List DriverSpec} {location : Location} (key : TargetKey)
    (hshape : h.shape = .sequence) (hflags : h.flags = .none) :
    Stocks [(key, .mk h .empty (Statement.pipes n drivers.length location))]
      (drivers.map (h.kind, ·)) n where
  stock := by
    have hhandles : (Statement.mk h .empty (Statement.pipes n drivers.length location)).handles =
        List.range' n drivers.length := Statement.handles_pipes
    rw [Statement.stock, List.flatMap_singleton, hhandles]
    clear hhandles
    induction drivers generalizing n with
    | nil => rfl
    | cons spec drivers ih =>
      simp only [List.length_cons, List.range'_succ, List.map_cons, List.zipIdx_cons]
      rw [← ih]
      rfl
  body e he := by
    rw [List.mem_singleton.1 he]
    exact Statement.isBody_mk hshape hflags

end Stocks

-- by the constructors of elements and rules

mutual

theorem Element.stocks_made : ∀ (e : Element) (n k : Nat),
    Stocks (e.made p n k).inlined (InlineEntry.specs e.inlines) n
  | .named kind name, n, k => .nil n
  | .inline kind drivers, n, k => by
    rw [Element.made, Statement.inlined_inline, Element.inlines, InlineEntry.specs,
      List.flatMap_singleton]
    exact .single _ rfl rfl
  | .junction branches, n, k => by
    rw [Element.made, Element.inlines, Statement.junction, Statement.inlined_mk]
    exact RuleEntry.stocks_allMade branches n k

theorem RuleEntry.stocks_made : ∀ (r : RuleEntry) (n k : Nat),
    Stocks (r.made p n k).inlined (InlineEntry.specs r.inlines) n
  | .mk names es, n, k => by
    rw [RuleEntry.made, RuleEntry.inlines, Statement.sequence, Statement.inlined_mk]
    exact Element.stocks_allMade es n k

theorem Element.stocks_allMade : ∀ (es : List Element) (n k : Nat),
    Stocks ((Element.allMade p n k es).flatMap Statement.inlined)
      (InlineEntry.specs (Element.allInlines es)) n
  | [], n, k => by
    rw [Element.allMade]
    exact .nil n
  | e :: es, n, k => by
    rw [Element.allMade, Element.allInlines, Building.specs_append, List.flatMap_cons]
    exact (Element.stocks_made e n k).append (Element.stocks_allMade es _ _)

theorem RuleEntry.stocks_allMade : ∀ (rs : List RuleEntry) (n k : Nat),
    Stocks ((RuleEntry.allMade p n k rs).flatMap Statement.inlined)
      (InlineEntry.specs (RuleEntry.allInlines rs)) n
  | [], n, k => by
    rw [RuleEntry.allMade]
    exact .nil n
  | r :: rs, n, k => by
    rw [RuleEntry.allMade, RuleEntry.allInlines, Building.specs_append, List.flatMap_cons]
    exact (RuleEntry.stocks_made r n k).append (RuleEntry.stocks_allMade rs _ _)

end

theorem ObjectEntry.stocks_allMade (entries : List (Kind × ObjectEntry)) (n : Nat) :
    Stocks ((ObjectEntry.allMade p n entries).flatMap Statement.bodies)
      (ObjectEntry.specs entries) n := by
  induction entries generalizing n with
  | nil => exact .nil n
  | cons entry rest ih =>
    rw [ObjectEntry.allMade, ObjectEntry.specs, List.flatMap_cons, List.flatMap_cons]
    have hrest := ih (n + (entry.2.drivers.map (entry.1, ·)).length)
    rw [List.length_map] at hrest
    exact Stocks.append (.single _ rfl rfl) (by rw [List.length_map]; exact hrest)

theorem RuleEntry.name_made (r : RuleEntry) : (r.made p n k).name = none := by
  cases r
  rfl

theorem RuleEntry.name_allMade (rs : List RuleEntry) :
    ∀ s ∈ RuleEntry.allMade p n k rs, s.name = none := by
  induction rs generalizing n k with
  | nil => simp [RuleEntry.allMade]
  | cons r rs ih =>
    intro s hs
    rcases List.mem_cons.1 hs with rfl | hs
    · exact r.name_made
    · exact ih s hs

/-- The bodies in a document have its stages, each at one place. -/
theorem Document.stocks_made (d : Document) (p : Building.Plan σ ω) (n : Nat) :
    Stocks ((d.made p n).flatMap Statement.bodies) d.specs n := by
  rw [Document.made, Document.specs, List.flatMap_append]
  refine (ObjectEntry.stocks_allMade d.objects n).append ?_
  have hbodies : (d.madeRules p n).flatMap Statement.bodies =
      (d.madeRules p n).flatMap Statement.inlined := by
    refine List.flatMap_congr fun s hs => ?_
    rw [Statement.bodies, RuleEntry.name_allMade d.rules s hs]
  rw [hbodies]
  exact RuleEntry.stocks_allMade d.rules _ 0

/-! ### Catalogs of documents -/

namespace Catalog

/-- Objects come from the statements with names, and stand at their kinds and names. -/
theorem mem_objects {c : Catalog} {ss : List Statement} {e : ObjectKey × Statement}
    (he : e ∈ (c.registerAll ss).objects) :
    e ∈ c.objects ∨ e.2 ∈ ss ∧ e.2.name = some e.1.name ∧ e.2.kind = e.1.kind := by
  induction ss generalizing c with
  | nil => exact .inl he
  | cons s ss ih =>
    rcases ih (c := (c.register s).2) he with he | ⟨hmem, h⟩
    · rw [register] at he
      split at he
      · exact .inl he
      · next name hname =>
        rcases Objects.mem_put he with he | rfl
        · exact .inl he
        · exact .inr ⟨List.mem_cons_self, hname, rfl⟩
    · exact .inr ⟨List.mem_cons_of_mem _ hmem, h⟩

end Catalog

theorem Statement.IsBody.inlined {t : Statement} (h : t.IsBody) : t.inlined = [] := by
  obtain ⟨head, o, cs⟩ := t
  obtain rfl : o = .empty := h.object
  obtain ⟨location, hcs⟩ := h.children
  rw [Statement.inlined_mk, List.flatMap_eq_nil_iff]
  intro s hs
  have hs : s ∈ (Statement.mk head .empty cs).children := hs
  rw [hcs] at hs
  obtain ⟨x, -, rfl⟩ := List.mem_map.1 hs
  rfl

theorem ObjectEntry.name_allMade (entries : List (Kind × ObjectEntry)) :
    ∀ s ∈ ObjectEntry.allMade p n entries, s.name.isNone = false := by
  induction entries generalizing n with
  | nil => simp [ObjectEntry.allMade]
  | cons entry rest ih =>
    intro s hs
    rcases List.mem_cons.1 hs with rfl | hs
    · rfl
    · exact ih s hs

namespace Document.Yields

variable {d : Document} {pool : Pool σ ω} {a : Deployment σ ω}

theorem size (h : d.Yields p pool a) :
    a.pool.instances.size = pool.instances.size + d.specs.length :=
  h.fills.size

theorem rules (h : d.Yields p pool a) : a.catalog.rules = d.madeRules p pool.instances.size := by
  have hobjects := List.filter_eq_nil_iff.2 fun s hs => Bool.eq_false_iff.1
    (ObjectEntry.name_allMade (p := p) (n := pool.instances.size) d.objects s hs)
  have hrules := List.filter_eq_self.2 fun s hs => Option.isNone_iff_eq_none.2
    (RuleEntry.name_allMade (p := p) (k := 0)
      (n := pool.instances.size + (ObjectEntry.specs d.objects).length) d.rules s hs)
  rw [h.catalog, (Catalog.registers_registerAll _).rules, Document.made, List.filter_append, hobjects,
    madeRules, hrules]
  rfl

theorem mem_made (h : d.Yields p pool a) {s : Statement}
    (hs : s ∈ a.catalog.objects.map (·.2) ++ a.catalog.rules) :
    s ∈ d.made p pool.instances.size := by
  rcases List.mem_append.1 hs with hs | hs
  · obtain ⟨e, he, rfl⟩ := List.mem_map.1 hs
    rw [h.catalog] at he
    exact ((Catalog.mem_objects he).resolve_left fun he => by cases he).1
  · rw [h.rules] at hs
    exact List.mem_append_right _ hs

theorem raw (h : d.Yields p pool a) {s : Statement}
    (hs : s ∈ a.catalog.objects.map (·.2) ++ a.catalog.rules) : s.Raw a.pool.instances.size := by
  rw [h.size]
  exact d.raw_made p _ s (h.mem_made hs)

/-- The catalog lists no target but the bodies in the document. -/
theorem mem_bodies (h : d.Yields p pool a) {e : TargetKey × Statement} (he : e ∈ a.catalog.targets) :
    e ∈ (d.made p pool.instances.size).flatMap Statement.bodies := by
  have hobject : ∀ e ∈ a.catalog.objects,
      (⟨e.2.kind, .named e.1.name⟩, e.2) ∈
        (d.made p pool.instances.size).flatMap Statement.bodies := by
    intro e he
    have hmade := h.mem_made (List.mem_append_left _ (List.mem_map_of_mem he))
    rw [h.catalog] at he
    obtain ⟨-, hname, -⟩ := (Catalog.mem_objects he).resolve_left fun he => by cases he
    refine List.mem_flatMap.2 ⟨e.2, hmade, ?_⟩
    rw [Statement.bodies, hname]
    exact List.mem_singleton_self _
  rcases List.mem_append.1 he with he | he
  · obtain ⟨e', he', rfl⟩ := List.mem_map.1 he
    exact hobject e' he'
  · obtain ⟨s, hs, he⟩ := List.mem_flatMap.1 he
    rcases List.mem_append.1 hs with hs | hs
    · obtain ⟨e', he', rfl⟩ := List.mem_map.1 hs
      rw [((d.stocks_made p _).body _ (hobject e' he')).inlined] at he
      cases he
    · refine List.mem_flatMap.2 ⟨s, h.mem_made (List.mem_append_right _ hs), ?_⟩
      rw [h.rules] at hs
      rw [Statement.bodies, RuleEntry.name_allMade d.rules s hs]
      exact he

end Document.Yields

end Routing
