import Routing.Proofs.Document.Made
/-!
# Building makes what documents say

Each step of the builder makes the statements that `Made` describes, with the next handles and serial
numbers, or one of its drivers or objects in place is refused.
-/

namespace Routing

variable {σ ω : Type}

namespace Building

variable {p : Plan σ ω} {specs specs' : List (Kind × DriverSpec)} {pool pool' pool'' : Pool σ ω}
  {s s' s'' : Site σ ω} {k k' : Nat}

theorem Fills.refl (p : Plan σ ω) (pool : Pool σ ω) : Fills p [] pool pool :=
  ⟨[], (List.append_nil _).symm, .nil⟩

theorem Fills.trans (h : Fills p specs pool pool') (h' : Fills p specs' pool' pool'') :
    Fills p (specs ++ specs') pool pool'' := by
  obtain ⟨new, hnew, hmade⟩ := h
  obtain ⟨new', hnew', hmade'⟩ := h'
  exact ⟨new ++ new', by rw [hnew', hnew, List.append_assoc], List.rel_append hmade hmade'⟩

theorem Fills.size (h : Fills p specs pool pool') :
    pool'.instances.size = pool.instances.size + specs.length := by
  obtain ⟨new, hnew, hmade⟩ := h
  have hlength := congrArg List.length hnew
  rw [List.length_append, ← hmade.length_eq] at hlength
  simpa using hlength

theorem Adds.refl (s : Site σ ω) : Adds p [] 0 s s := ⟨.refl p s.pool, rfl, rfl⟩

theorem Adds.trans (h : Adds p specs k s s') (h' : Adds p specs' k' s' s'') :
    Adds p (specs ++ specs') (k + k') s s'' where
  fills := h.fills.trans h'.fills
  serial := by rw [h'.serial, h.serial, Nat.add_assoc]
  catalog := h'.catalog.trans h.catalog

theorem Adds.size (h : Adds p specs k s s') :
    s'.pool.instances.size = s.pool.instances.size + specs.length :=
  h.fills.size

/-! ### Stages -/

theorem wp_stage (kind : Kind) (location : Location) (spec : DriverSpec) :
    wp (stage p kind location spec)
      (fun r s' => r = .pipe s.pool.instances.size (some location) ∧ Adds p [(kind, spec)] 0 s s')
      (Refuses p (kind, spec)) s := by
  unfold stage
  simp only [wp_bind, wp_get]
  rcases hf : p.factory kind spec p.templates s.pool.shared with ⟨e | made, shared⟩
  · exact ⟨s.pool.shared, by rw [hf]⟩
  · refine ⟨rfl, ⟨⟨[{ stage := made }], by simp [Pool.add, Pool.addInstance], ?_⟩, rfl, rfl⟩⟩
    exact .cons ⟨rfl, _, _, hf⟩ .nil

theorem pipes_cons (n count : Nat) (location : Location) :
    Statement.pipes n (count + 1) location =
      .pipe n (some location) :: Statement.pipes (n + 1) count location := by
  rw [Statement.pipes, List.range'_succ, List.map_cons, Statement.pipes]

theorem wp_stages (kind : Kind) (location : Location) (drivers : List DriverSpec) :
    wp (drivers.mapM (stage p kind location))
      (fun r s' => r = Statement.pipes s.pool.instances.size drivers.length location ∧
        Adds p (drivers.map (kind, ·)) 0 s s')
      (fun e => ∃ spec ∈ drivers, Refuses p (kind, spec) e) s := by
  induction drivers generalizing s with
  | nil => exact ⟨rfl, .refl s⟩
  | cons spec drivers ih =>
    simp only [List.mapM_cons, wp_bind, wp_pure]
    refine wp_mono (wp_stage kind location spec) (fun r s₁ h => ?_) fun e h => ⟨spec, by simp, h⟩
    obtain ⟨rfl, hadds⟩ := h
    refine wp_mono ih (fun rs s₂ h => ?_) fun e h => ?_
    · obtain ⟨rfl, hadds'⟩ := h
      refine ⟨?_, hadds.trans hadds'⟩
      rw [List.length_cons, pipes_cons, hadds.size]
      rfl
    · obtain ⟨spec', hmem, he⟩ := h
      exact ⟨spec', List.mem_cons_of_mem _ hmem, he⟩

/-! ### Elements and rules -/

theorem wp_inline (kind : Spanned Kind) (drivers : List DriverSpec) :
    wp (inline p kind drivers)
      (fun r s' => r = (Element.inline kind drivers).made p s.pool.instances.size s.serial ∧
        Adds p (InlineEntry.specs [(kind, drivers)]) 1 s s')
      (RefusesInline p [(kind, drivers)]) s := by
  unfold inline
  dsimp only
  split
  · next h => exact ⟨_, List.mem_singleton_self _, .inl ⟨h, rfl⟩⟩
  · next h =>
    simp only [wp_bind, wp_newSerial, wp_pure]
    refine wp_mono (wp_stages kind.value (p.locate kind) drivers) (fun r s' hr => ?_)
      fun e he => ⟨_, List.mem_singleton_self _, .inr ⟨h, he⟩⟩
    obtain ⟨rfl, hadds⟩ := hr
    rw [Element.made, hadds.serial]
    refine ⟨rfl, ⟨?_, ?_, hadds.catalog⟩⟩
    · simpa [InlineEntry.specs] using hadds.fills
    · simp

theorem RefusesInline.append {entries entries' : List InlineEntry} {e : Failure}
    (h : RefusesInline p entries e ∨ RefusesInline p entries' e) :
    RefusesInline p (entries ++ entries') e := by
  rcases h with ⟨entry, hmem, h⟩ | ⟨entry, hmem, h⟩
  · exact ⟨entry, List.mem_append_left _ hmem, h⟩
  · exact ⟨entry, List.mem_append_right _ hmem, h⟩

theorem specs_append (entries entries' : List InlineEntry) :
    InlineEntry.specs (entries ++ entries') =
      InlineEntry.specs entries ++ InlineEntry.specs entries' :=
  List.flatMap_append

/-- One step makes the first of several statements, and the others follow. -/
theorem wp_cons {entries entries' : List InlineEntry} {x : Building σ ω Statement}
    {xs : Building σ ω (List Statement)} {r : Statement} {rs : List Statement}
    (hx : wp x (fun r' s' => r' = r ∧ Adds p (InlineEntry.specs entries) entries.length s s')
      (RefusesInline p entries) s)
    (hxs : ∀ s', Adds p (InlineEntry.specs entries) entries.length s s' →
      wp xs (fun rs' s'' => rs' = rs ∧ Adds p (InlineEntry.specs entries') entries'.length s' s'')
        (RefusesInline p entries') s') :
    wp (do return (← x) :: (← xs))
      (fun r' s' => r' = r :: rs ∧
        Adds p (InlineEntry.specs (entries ++ entries')) (entries ++ entries').length s s')
      (RefusesInline p (entries ++ entries')) s := by
  simp only [wp_bind, wp_pure]
  refine wp_mono hx (fun r' s₁ h => ?_) fun e h => .append (.inl h)
  obtain ⟨rfl, hadds⟩ := h
  refine wp_mono (hxs s₁ hadds) (fun rs' s₂ h => ?_) fun e h => .append (.inr h)
  obtain ⟨rfl, hadds'⟩ := h
  rw [specs_append, List.length_append]
  exact ⟨rfl, hadds.trans hadds'⟩

-- by the constructors of elements and rules

mutual

theorem wp_element : ∀ (e : Element) (s : Site σ ω), wp (element p e)
    (fun r s' => r = e.made p s.pool.instances.size s.serial ∧
      Adds p (InlineEntry.specs e.inlines) e.inlines.length s s') (RefusesInline p e.inlines) s
  | .named kind name, s => ⟨rfl, .refl s⟩
  | .inline kind drivers, s => by
    rw [element, Element.inlines]
    exact wp_inline kind drivers
  | .junction branches, s => by
    rw [element, Element.inlines, Element.made]
    simp only [wp_bind, wp_pure]
    refine wp_mono (wp_rules branches s) (fun r s' h => ?_) fun _ h => h
    obtain ⟨rfl, hadds⟩ := h
    exact ⟨rfl, hadds⟩

theorem wp_rule : ∀ (r : RuleEntry) (s : Site σ ω), wp (rule p r)
    (fun t s' => t = r.made p s.pool.instances.size s.serial ∧
      Adds p (InlineEntry.specs r.inlines) r.inlines.length s s') (RefusesInline p r.inlines) s
  | .mk names es, s => by
    rw [rule, RuleEntry.inlines, RuleEntry.made]
    simp only [flags, wp_bind, wp_pure, wp_log]
    refine wp_mono (wp_elements es s) (fun r s' h => ?_) fun _ h => h
    obtain ⟨rfl, hadds⟩ := h
    exact ⟨rfl, ⟨hadds.fills, hadds.serial, hadds.catalog⟩⟩

theorem wp_elements : ∀ (es : List Element) (s : Site σ ω), wp (elements p es)
    (fun rs s' => rs = Element.allMade p s.pool.instances.size s.serial es ∧
      Adds p (InlineEntry.specs (Element.allInlines es)) (Element.allInlines es).length s s')
    (RefusesInline p (Element.allInlines es)) s
  | [], s => by
    rw [elements]
    exact ⟨rfl, .refl s⟩
  | e :: es, s => by
    rw [elements, Element.allInlines, Element.allMade]
    refine wp_cons (wp_element e s) fun s' hadds => ?_
    rw [← hadds.size, ← hadds.serial]
    exact wp_elements es s'

theorem wp_rules : ∀ (rs : List RuleEntry) (s : Site σ ω), wp (rules p rs)
    (fun ts s' => ts = RuleEntry.allMade p s.pool.instances.size s.serial rs ∧
      Adds p (InlineEntry.specs (RuleEntry.allInlines rs)) (RuleEntry.allInlines rs).length s s')
    (RefusesInline p (RuleEntry.allInlines rs)) s
  | [], s => by
    rw [rules]
    exact ⟨rfl, .refl s⟩
  | r :: rs, s => by
    rw [rules, RuleEntry.allInlines, RuleEntry.allMade]
    refine wp_cons (wp_rule r s) fun s' hadds => ?_
    rw [← hadds.size, ← hadds.serial]
    exact wp_rules rs s'

end

/-! ### Objects and documents -/

/-- The site with a statement registered. -/
structure Registers (p : Plan σ ω) (specs : List (Kind × DriverSpec)) (targets : Nat)
    (ss : List Statement) (s s' : Site σ ω) : Prop where
  fills : Fills p specs s.pool s'.pool
  serial : s'.serial = s.serial + targets
  catalog : s'.catalog = s.catalog.registerAll ss

theorem Registers.refl (s : Site σ ω) : Registers p [] 0 [] s s := ⟨.refl p s.pool, rfl, rfl⟩

theorem Registers.trans {ss ss' : List Statement} (h : Registers p specs k ss s s')
    (h' : Registers p specs' k' ss' s' s'') :
    Registers p (specs ++ specs') (k + k') (ss ++ ss') s s'' where
  fills := h.fills.trans h'.fills
  serial := by rw [h'.serial, h.serial, Nat.add_assoc]
  catalog := by rw [h'.catalog, h.catalog, Catalog.registerAll, Catalog.registerAll,
    Catalog.registerAll, List.foldl_append]

theorem wp_object (kind : Kind) (entry : ObjectEntry) :
    wp (object p kind entry)
      (fun _ s' => Registers p (entry.drivers.map (kind, ·)) 0
        [entry.made p s.pool.instances.size kind] s s')
      (RefusesObject p [(kind, entry)]) s := by
  unfold object
  simp only [wp_bind, wp_inContext, wp_get, wp_set, wp_log]
  refine wp_mono (wp_stages kind _ entry.drivers) (fun r s₁ h => ?_) fun e h => ?_
  · obtain ⟨rfl, hadds⟩ := h
    refine ⟨hadds.fills, hadds.serial, ?_⟩
    rw [← hadds.catalog]
    rfl
  · obtain ⟨spec, hspec, h⟩ := h
    exact ⟨_, List.mem_singleton_self _, spec, hspec, e, h, rfl⟩

theorem wp_topRule (entry : RuleEntry) :
    wp (topRule p entry)
      (fun _ s' => Registers p (InlineEntry.specs entry.inlines) entry.inlines.length
        [entry.made p s.pool.instances.size s.serial] s s')
      (RefusesInline p entry.inlines) s := by
  unfold topRule
  simp only [wp_bind, wp_modify]
  refine wp_mono (wp_rule entry s) (fun r s₁ h => ?_) fun e h => h
  obtain ⟨rfl, hadds⟩ := h
  refine ⟨hadds.fills, hadds.serial, ?_⟩
  rw [← hadds.catalog]
  rfl

/-- A step builds these objects and then these rules. -/
def Builds (p : Plan σ ω) (entries : List (Kind × ObjectEntry)) (rules : List RuleEntry)
    (x : Building σ ω Unit) : Prop :=
  ∀ s, wp x
    (fun _ s' => Registers p
      (ObjectEntry.specs entries ++ InlineEntry.specs (RuleEntry.allInlines rules))
      (RuleEntry.allInlines rules).length
      (ObjectEntry.allMade p s.pool.instances.size entries ++ RuleEntry.allMade p
        (s.pool.instances.size + (ObjectEntry.specs entries).length) s.serial rules) s s')
    (fun e => RefusesObject p entries e ∨ RefusesInline p (RuleEntry.allInlines rules) e) s

theorem builds_rules (rules : List RuleEntry) : Builds p [] rules (rules.forM (topRule p)) := by
  induction rules with
  | nil => exact fun s => .refl s
  | cons r rules ih =>
    intro s
    change wp (topRule p r >>= fun _ => rules.forM (topRule p)) _ _ s
    rw [wp_bind]
    refine wp_mono (wp_topRule r) (fun _ s₁ h => ?_) fun e h => .inr (.append (.inl h))
    refine wp_mono (ih s₁) (fun _ s₂ h' => ?_) fun e h => ?_
    · have htrans := h.trans h'
      rw [h.fills.size, h.serial] at htrans
      simpa [RuleEntry.allMade, RuleEntry.allInlines, ObjectEntry.allMade, ObjectEntry.specs,
        specs_append] using htrans
    · exact .inr (.append (.inr (h.resolve_left fun ⟨_, hmem, _⟩ => by cases hmem)))

variable {entries : List (Kind × ObjectEntry)} {rules : List RuleEntry} {x : Building σ ω Unit}

theorem Builds.object (h : Builds p entries rules x) (kind : Kind) (entry : ObjectEntry) :
    Builds p ((kind, entry) :: entries) rules (Building.object p kind entry >>= fun _ => x) := by
  intro s
  rw [wp_bind]
  refine wp_mono (wp_object kind entry) (fun _ s₁ h₁ => ?_) fun e ⟨entry', hmem, he⟩ => ?_
  · refine wp_mono (h s₁) (fun _ s₂ h₂ => ?_) fun e he => ?_
    · have htrans := h₁.trans h₂
      rw [h₁.fills.size, h₁.serial] at htrans
      simpa [ObjectEntry.allMade, ObjectEntry.specs, Nat.add_assoc] using htrans
    · exact he.imp_left fun ⟨entry', hmem, he⟩ => ⟨entry', List.mem_cons_of_mem _ hmem, he⟩
  · rw [List.mem_singleton.1 hmem] at he
    exact .inl ⟨_, List.mem_cons_self, he⟩

theorem Builds.objects (h : Builds p entries rules x) (kind : Kind) (more : List ObjectEntry) :
    Builds p (more.map (kind, ·) ++ entries) rules
      (more.forM (Building.object p kind) >>= fun _ => x) := by
  induction more with
  | nil => exact h
  | cons entry more ih =>
    have hmore := ih.object kind entry
    rw [← bind_assoc] at hmore
    exact hmore

theorem builds_document (d : Document) : Builds p d.objects d.rules (document p d) :=
  .objects (.objects (.objects (.objects (.objects (builds_rules d.rules) .rewrite d.rewrites) .parser
    d.parsers) .filter d.filters) .destination d.destinations) .source d.sources

end Building

namespace Document

open Building

/-- What the builder of a document goes by. -/
def plan (d : Document) (lines : LineTable) (factory : Factory σ ω) : Plan σ ω :=
  { lines, templates := (templatesOf d.templates).1, factory }

/-- A deployment is what a document says, and nothing was done to it. -/
structure Yields (d : Document) (p : Plan σ ω) (pool : Pool σ ω) (a : Deployment σ ω) : Prop where
  catalog : a.catalog = ({} : Catalog).registerAll (d.made p pool.instances.size)
  fills : Fills p d.specs pool a.pool
  graph : a.graph = {}
  memos : a.build.memos = []
  status : a.status = .uncompiled

variable {d : Document} {lines : LineTable} {factory : Factory σ ω} {pool : Pool σ ω}

/-- What is built from a document is what it says. -/
theorem yields_of_ok {a : Deployment σ ω} (h : (d.build lines factory pool).1 = .ok a) :
    d.Yields (d.plan lines factory) pool a := by
  have hbuilds := builds_document (p := d.plan lines factory) d
    { pool, events := (templatesOf d.templates).2 }
  unfold build at h
  dsimp only at h
  split at h
  · cases h
  · next u site hrun =>
    cases h
    have hr := wp_ok hbuilds hrun
    exact ⟨hr.catalog, hr.fills, rfl, rfl, rfl⟩

/-- Building a document fails only where a driver or an object in place is refused. -/
theorem refuses_of_error {e : Failure} (h : (d.build lines factory pool).1 = .error e) :
    RefusesObject (d.plan lines factory) d.objects e ∨
      RefusesInline (d.plan lines factory) (RuleEntry.allInlines d.rules) e := by
  have hbuilds := builds_document (p := d.plan lines factory) d
    { pool, events := (templatesOf d.templates).2 }
  unfold build at h
  dsimp only at h
  split at h
  · next e' site hrun =>
    cases h
    exact wp_error hbuilds hrun
  · cases h

end Document

end Routing
