import Routing.Proofs.Document.Built
/-!
# What is refused first

Building a document asks for its drivers one after the other, and for objects in place that are no
stages. It fails exactly if one of these demands is not met, and then for the first of them.
-/

namespace Routing

variable {σ ω α β : Type}

/-- Whether a driver is accepted does not depend on what happened before. -/
def Factory.Steady (factory : Factory σ ω) : Prop :=
  ∀ kind spec templates shared shared',
    (factory kind spec templates shared).1.isOk = (factory kind spec templates shared').1.isOk

/-- What building a document asks for. -/
inductive Demand where
  /-- The stage of a driver, for an object with this name. -/
  | object (kind : Kind) (name : Spanned String) (spec : DriverSpec)
  /-- The stage of a driver, for an object in place. -/
  | inline (kind : Spanned Kind) (spec : DriverSpec)
  /-- An object in place that has the kind of stages. -/
  | misplaced (kind : Spanned Kind)

/-- What an object asks for. -/
def ObjectEntry.demands (entry : Kind × ObjectEntry) : List Demand :=
  entry.2.drivers.map (.object entry.1 entry.2.name)

/-- What an object in place asks for. -/
def InlineEntry.demands (entry : InlineEntry) : List Demand :=
  (if entry.1.value = .pipe then [.misplaced entry.1] else []) ++ entry.2.map (.inline entry.1)

/-- What a document asks for, in order. -/
def Document.demands (d : Document) : List Demand :=
  d.objects.flatMap ObjectEntry.demands ++
    (RuleEntry.allInlines d.rules).flatMap InlineEntry.demands

namespace Demand

open Building

/-- The demand is refused with this failure. -/
def RefusedWith (p : Plan σ ω) : Demand → Failure → Prop
  | object kind _ spec, e => Refuses p (kind, spec) e
  | inline kind spec, e => Refuses p (kind.value, spec) e
  | misplaced kind, e => e = notInline (p.locate kind)

/-- The demand is refused with no failure. -/
def Met (p : Plan σ ω) (demand : Demand) : Prop :=
  ∀ e, ¬ demand.RefusedWith p e

/-- What building fails with if the demand is refused with a failure: for an object it is said which
one. -/
def report (p : Plan σ ω) : Demand → Failure → Failure
  | object kind name _, e =>
    .within ("In " ++ kind.name ++ " '" ++ name.value ++ "' at " ++ (p.locate name).text) e
  | inline _ _, e => e
  | misplaced _, e => e

theorem root_report (p : Plan σ ω) (demand : Demand) (e : Failure) :
    (demand.report p e).root = e.root := by
  cases demand <;> rfl

end Demand

namespace Building

variable {p : Plan σ ω} {demands demands' : List Demand} {e : Failure} {x : Building σ ω α}

/-- The first of the demands that is not met is refused, and that is reported. -/
def FirstRefused (p : Plan σ ω) (demands : List Demand) (e : Failure) : Prop :=
  ∃ before demand after inner, demands = before ++ demand :: after ∧ (∀ d ∈ before, d.Met p) ∧
    demand.RefusedWith p inner ∧ e = demand.report p inner

namespace FirstRefused

theorem here {demand : Demand} (h : demand.RefusedWith p e) :
    FirstRefused p (demand :: demands) (demand.report p e) :=
  ⟨[], demand, demands, e, rfl, by simp, h, rfl⟩

theorem append_left (h : FirstRefused p demands e) : FirstRefused p (demands ++ demands') e := by
  obtain ⟨before, demand, after, inner, rfl, hmet, h⟩ := h
  exact ⟨before, demand, after ++ demands', inner, by simp, hmet, h⟩

theorem append_right (hmet : ∀ d ∈ demands, d.Met p) (h : FirstRefused p demands' e) :
    FirstRefused p (demands ++ demands') e := by
  obtain ⟨before, demand, after, inner, rfl, hmet', h⟩ := h
  refine ⟨demands ++ before, demand, after, inner, by simp, fun d hd => ?_, h⟩
  exact (List.mem_append.1 hd).elim (hmet d) (hmet' d)

/-- One of the demands is not met. -/
theorem not_met (h : FirstRefused p demands e) : ∃ d ∈ demands, ∃ inner, d.RefusedWith p inner := by
  obtain ⟨before, demand, after, inner, rfl, -, h, -⟩ := h
  exact ⟨demand, by simp, inner, h⟩

end FirstRefused

/-- The step succeeds only if the demands are met, and else fails for the first that is not. -/
def Asks (p : Plan σ ω) (demands : List Demand) (x : Building σ ω α) : Prop :=
  ∀ s, wp x (fun _ _ => ∀ d ∈ demands, d.Met p) (FirstRefused p demands) s

namespace Asks

theorem pure (a : α) : Asks p [] (pure a : Building σ ω α) := fun _ => by simp

theorem bind {f : α → Building σ ω β} (hx : Asks p demands x) (hf : ∀ a, Asks p demands' (f a)) :
    Asks p (demands ++ demands') (x >>= f) := by
  intro s
  rw [wp_bind]
  refine wp_mono (hx s) (fun a s' hmet => ?_) fun _ h => h.append_left
  refine wp_mono (hf a s') (fun _ _ hmet' d hd => ?_) fun _ h => h.append_right hmet
  exact (List.mem_append.1 hd).elim (hmet d) (hmet' d)

/-- What comes after asks for nothing. -/
theorem andThen {f : α → Building σ ω β} (hx : Asks p demands x) (hf : ∀ a, Asks p [] (f a)) :
    Asks p demands (x >>= f) := by
  simpa using hx.bind hf

theorem forM {l : List α} {ask : α → List Demand} {step : α → Building σ ω Unit}
    (h : ∀ a, Asks p (ask a) (step a)) : Asks p (l.flatMap ask) (l.forM step) := by
  induction l with
  | nil => exact .pure ()
  | cons a l ih =>
    rw [List.flatMap_cons]
    exact (h a).bind fun _ => ih

end Asks

/-- A driver that was accepted once is never refused. -/
theorem wp_accepted (hp : Factory.Steady p.factory) (kind : Kind) (location : Location)
    (spec : DriverSpec) (s : Site σ ω) :
    wp (stage p kind location spec) (fun _ _ => ∀ e, ¬ Refuses p (kind, spec) e)
      (Refuses p (kind, spec)) s := by
  unfold stage
  simp only [wp_bind, wp_get]
  rcases hf : p.factory kind spec p.templates s.pool.shared with ⟨e | made, shared⟩
  · exact ⟨s.pool.shared, by rw [hf]⟩
  -- what was accepted here is accepted from any state
  · rintro e ⟨shared', he⟩
    have hok := hp kind spec p.templates s.pool.shared shared'
    simp [hf, he, Except.isOk, Except.toBool] at hok

/-- Drivers ask for their stages, in order, whatever is said about the one that is refused. -/
theorem wp_drivers (hp : Factory.Steady p.factory) {kind : Kind} (location : Location)
    (demand : DriverSpec → Demand) (context : Failure → Failure)
    (hdemand : ∀ spec e, (demand spec).RefusedWith p e ↔ Refuses p (kind, spec) e)
    (hcontext : ∀ spec e, (demand spec).report p e = context e) (drivers : List DriverSpec)
    (s : Site σ ω) :
    wp (drivers.mapM (stage p kind location)) (fun _ _ => ∀ d ∈ drivers.map demand, d.Met p)
      (fun e => FirstRefused p (drivers.map demand) (context e)) s := by
  induction drivers generalizing s with
  | nil => exact fun d hd => absurd hd List.not_mem_nil
  | cons spec drivers ih =>
    simp only [List.mapM_cons, wp_bind, wp_pure, List.map_cons]
    refine wp_mono (wp_accepted hp kind location spec s) (fun _ s₁ hmet => ?_) fun e h => ?_
    · have hmet : ∀ d ∈ [demand spec], d.Met p := fun d hd e he =>
        hmet e ((hdemand spec e).1 (List.mem_singleton.1 hd ▸ he))
      refine wp_mono (ih s₁) (fun _ _ hmet' d hd => ?_) fun _ h => h.append_right hmet
      exact (List.mem_append (s := [demand spec]).1 hd).elim (hmet d) (hmet' d)
    · rw [← hcontext spec]
      exact .here ((hdemand spec e).2 h)

theorem asks_object (hp : Factory.Steady p.factory) (kind : Kind)
    (entry : ObjectEntry) :
    Asks p (ObjectEntry.demands (kind, entry)) (object p kind entry) := by
  refine Asks.andThen (fun s => ?_) fun pipes s => ?_
  · rw [wp_inContext]
    exact wp_drivers hp _ (.object kind entry.name) _ (fun _ _ => Iff.rfl) (fun _ _ => rfl)
      entry.drivers s
  · simp only [wp_bind, wp_get, wp_set, wp_log]
    exact fun d hd => absurd hd List.not_mem_nil

theorem asks_inline (hp : Factory.Steady p.factory) (kind : Spanned Kind)
    (drivers : List DriverSpec) :
    Asks p (InlineEntry.demands (kind, drivers)) (inline p kind drivers) := by
  unfold inline InlineEntry.demands
  dsimp only
  split
  · exact fun s => .here rfl
  · rw [List.nil_append]
    refine Asks.andThen (fun s => ?_) fun pipes s => ?_
    · exact wp_drivers hp _ (.inline kind) id (fun _ _ => Iff.rfl) (fun _ _ => rfl) drivers s
    · simp only [wp_bind, wp_newSerial, wp_pure]
      exact fun d hd => absurd hd List.not_mem_nil

-- by the constructors of elements and rules

mutual

theorem asks_element (hp : Factory.Steady p.factory) : ∀ e : Element,
    Asks p (e.inlines.flatMap InlineEntry.demands) (element p e)
  | .named kind name => by
    rw [element]
    exact .pure _
  | .inline kind drivers => by
    rw [element, Element.inlines, List.flatMap_singleton]
    exact asks_inline hp kind drivers
  | .junction branches => by
    rw [element]
    exact (asks_rules hp branches).andThen fun _ => .pure _

theorem asks_rule (hp : Factory.Steady p.factory) : ∀ r : RuleEntry,
    Asks p (r.inlines.flatMap InlineEntry.demands) (rule p r)
  | .mk names es => by
    rw [rule]
    refine (asks_elements hp es).andThen fun _ s => ?_
    simp only [flags, wp_bind, wp_pure, wp_log]
    exact fun d hd => absurd hd List.not_mem_nil

theorem asks_elements (hp : Factory.Steady p.factory) : ∀ es : List Element,
    Asks p ((Element.allInlines es).flatMap InlineEntry.demands) (elements p es)
  | [] => by
    rw [elements]
    exact .pure _
  | e :: es => by
    rw [elements, Element.allInlines, List.flatMap_append]
    exact (asks_element hp e).bind fun _ => (asks_elements hp es).andThen fun _ => .pure _

theorem asks_rules (hp : Factory.Steady p.factory) : ∀ rs : List RuleEntry,
    Asks p ((RuleEntry.allInlines rs).flatMap InlineEntry.demands) (rules p rs)
  | [] => by
    rw [rules]
    exact .pure _
  | r :: rs => by
    rw [rules, RuleEntry.allInlines, List.flatMap_append]
    exact (asks_rule hp r).bind fun _ => (asks_rules hp rs).andThen fun _ => .pure _

end

theorem asks_topRule (hp : Factory.Steady p.factory) (r : RuleEntry) :
    Asks p (r.inlines.flatMap InlineEntry.demands) (topRule p r) :=
  (asks_rule hp r).andThen fun _ s => by simp

theorem allInlines_eq (rs : List RuleEntry) :
    RuleEntry.allInlines rs = rs.flatMap RuleEntry.inlines := by
  induction rs with
  | nil => rfl
  | cons r rs ih => rw [RuleEntry.allInlines, ih, List.flatMap_cons]

theorem asks_document (hp : Factory.Steady p.factory) (d : Document) : Asks p d.demands (document p d) := by
  have hobjects : ∀ kind (entries : List ObjectEntry), Asks p
      ((entries.map (kind, ·)).flatMap ObjectEntry.demands) (entries.forM (object p kind)) := by
    intro kind entries
    rw [List.flatMap_map]
    exact .forM (asks_object hp kind)
  have hrules : Asks p ((RuleEntry.allInlines d.rules).flatMap InlineEntry.demands)
      (d.rules.forM (topRule p)) := by
    rw [allInlines_eq, List.flatMap_assoc]
    exact .forM (asks_topRule hp)
  have hall := (hobjects .source d.sources).bind fun _ => (hobjects .destination d.destinations).bind
    fun _ => (hobjects .filter d.filters).bind fun _ => (hobjects .parser d.parsers).bind fun _ =>
      (hobjects .rewrite d.rewrites).bind fun _ => hrules
  rw [document]
  simpa only [Document.demands, Document.objects, List.flatten_cons, List.flatten_nil, List.append_nil,
    List.flatMap_append, List.append_assoc] using hall

end Building

namespace Document

open Building

variable {d : Document} {lines : LineTable} {factory : Factory σ ω} {pool : Pool σ ω}

/-- A demand of the document is refused exactly if one of its drivers is, or if an object in place has
the kind of stages. -/
theorem refused_iff {p : Plan σ ω} :
    (∃ demand ∈ d.demands, ∃ e, demand.RefusedWith p e) ↔
      (∃ spec ∈ d.specs, ∃ e, Refuses p spec e) ∨
        ∃ entry ∈ RuleEntry.allInlines d.rules, entry.1.value = .pipe := by
  constructor
  · rintro ⟨demand, hmem, e, he⟩
    rcases List.mem_append.1 hmem with hmem | hmem
    · obtain ⟨entry, hentry, hmem⟩ := List.mem_flatMap.1 hmem
      obtain ⟨spec, hspec, rfl⟩ := List.mem_map.1 hmem
      refine .inl ⟨_, List.mem_append_left _ (List.mem_flatMap.2 ⟨entry, hentry, ?_⟩), e, he⟩
      exact List.mem_map_of_mem hspec
    · obtain ⟨entry, hentry, hmem⟩ := List.mem_flatMap.1 hmem
      rcases List.mem_append.1 hmem with hmem | hmem
      · split at hmem
        · next hpipe => exact .inr ⟨entry, hentry, hpipe⟩
        · cases hmem
      · obtain ⟨spec, hspec, rfl⟩ := List.mem_map.1 hmem
        refine .inl ⟨_, List.mem_append_right _ (List.mem_flatMap.2 ⟨entry, hentry, ?_⟩), e, he⟩
        exact List.mem_map_of_mem hspec
  · rintro (⟨spec, hspec, e, he⟩ | ⟨entry, hentry, hpipe⟩)
    · rcases List.mem_append.1 hspec with hspec | hspec
      · obtain ⟨entry, hentry, hmem⟩ := List.mem_flatMap.1 hspec
        obtain ⟨spec, hdriver, rfl⟩ := List.mem_map.1 hmem
        exact ⟨.object entry.1 entry.2.name spec, List.mem_append_left _ (List.mem_flatMap.2
          ⟨entry, hentry, List.mem_map_of_mem hdriver⟩), e, he⟩
      · obtain ⟨entry, hentry, hmem⟩ := List.mem_flatMap.1 hspec
        obtain ⟨spec, hdriver, rfl⟩ := List.mem_map.1 hmem
        exact ⟨.inline entry.1 spec, List.mem_append_right _ (List.mem_flatMap.2
          ⟨entry, hentry, List.mem_append_right _ (List.mem_map_of_mem hdriver)⟩), e, he⟩
    · refine ⟨.misplaced entry.1, List.mem_append_right _ (List.mem_flatMap.2 ⟨entry, hentry, ?_⟩),
        _, rfl⟩
      rw [InlineEntry.demands, if_pos hpipe]
      exact List.mem_append_left _ (List.mem_singleton_self _)

/-- What the builder of a document comes to: its demands are met, or the first that is not is refused. -/
theorem asked (d : Document) (lines : LineTable) (factory : Factory σ ω) (pool : Pool σ ω)
    (hfactory : factory.Steady) :
    (∀ a, (d.build lines factory pool).1 = .ok a →
        ∀ demand ∈ d.demands, demand.Met (d.plan lines factory)) ∧
      ∀ e, (d.build lines factory pool).1 = .error e →
        FirstRefused (d.plan lines factory) d.demands e := by
  have hasks := asks_document (p := d.plan lines factory) hfactory d
    { pool, events := (templatesOf d.templates).2 }
  unfold build
  dsimp only
  constructor
  · intro a h
    split at h
    · cases h
    · next hrun => exact wp_ok hasks hrun
  · intro e h
    split at h
    · next hrun =>
      cases h
      exact wp_error hasks hrun
    · cases h

end Document

end Routing
