import Routing.Proofs.Document.Faults
/-!
# Where documents are wrong

What is wrong with a document is reported with the place where it is written: the name of an object
whose driver is refused, the kind of an object in place that must not be one, or a name in the rule
that is rejected. A rule in which nothing is named is nowhere.
-/

namespace Routing

/-! ### Locations in messages -/

theorem Location.colon_mem_text (l : Location) : ':' ∈ l.text.toList := by
  simp [text]

theorem Location.text_ne_unknown (l : Location) : l.text ≠ unknown := by
  intro h
  have hmem := l.colon_mem_text
  rw [h] at hmem
  exact absurd hmem (by decide)

theorem infix_append (before text after : String) :
    text.toList <:+: (before ++ text ++ after).toList := by
  rw [String.toList_append, String.toList_append]
  exact List.infix_append _ _ _

theorem Failure.message_config (reason : String) :
    (config reason).message = "Configuration error: " ++ reason := rfl

theorem Failure.message_within (context : String) (inner : Failure) :
    (within context inner).message = context ++ ": " ++ inner.message := rfl

theorem Failure.infix_within (before text : String) (inner : Failure) :
    text.toList <:+: (within (before ++ text) inner).message.toList := by
  rw [message_within, String.append_assoc]
  exact infix_append before text _

theorem Building.infix_notInline (location : Location) :
    location.text.toList <:+: (notInline location).message.toList := by
  rw [notInline, Failure.message_config, ← String.append_assoc, ← String.append_assoc]
  exact infix_append _ _ _

namespace Document

variable {σ ω : Type} {d : Document} {p : Building.Plan σ ω} {e : Failure}

/-- What is written at these bytes is refused with this failure: an object for one of its drivers, or
an object in place for its kind. -/
inductive RefusedAt (d : Document) (p : Building.Plan σ ω) : Toml.Span → Failure → Prop
  | object {kind : Kind} {entry : ObjectEntry} {spec : DriverSpec} {context : String} {inner : Failure}
    (hentry : (kind, entry) ∈ d.objects) (hspec : spec ∈ entry.drivers)
    (h : Building.Refuses p (kind, spec) inner) :
    RefusedAt d p entry.name.span (.within context inner)
  | inline {entry : InlineEntry} {reason : String} (hentry : entry ∈ RuleEntry.allInlines d.rules)
    (h : entry.1.value = .pipe) : RefusedAt d p entry.1.span (.config reason)

/-- The failure is that of a driver of an object in place. -/
def RefusedInline (d : Document) (p : Building.Plan σ ω) (e : Failure) : Prop :=
  ∃ entry ∈ RuleEntry.allInlines d.rules, ∃ spec ∈ entry.2, Building.Refuses p (entry.1.value, spec) e

/-- The message tells where something is refused. -/
def Tells (d : Document) (p : Building.Plan σ ω) (e : Failure) : Prop :=
  ∃ span, d.RefusedAt p span e ∧
    (p.lines.locate span.start).text.toList <:+: e.message.toList

theorem tells_of_object (h : Building.RefusesObject p d.objects e) : d.Tells p e := by
  obtain ⟨⟨kind, entry⟩, hentry, spec, hspec, inner, hrefuses, rfl⟩ := h
  exact ⟨entry.name.span, .object hentry hspec hrefuses, Failure.infix_within _ _ _⟩

theorem tells_of_inline (h : Building.RefusesInline p (RuleEntry.allInlines d.rules) e) :
    d.RefusedInline p e ∨ d.Tells p e := by
  obtain ⟨entry, hentry, ⟨hpipe, rfl⟩ | ⟨-, spec, hspec, hrefuses⟩⟩ := h
  · exact .inr ⟨entry.1.span, .inline hentry hpipe, Building.infix_notInline _⟩
  · exact .inl ⟨entry, hentry, spec, hspec, hrefuses⟩

/-- A rule that is rejected is located at one of its names, or nowhere if it has none. -/
theorem location_of_about {r : RuleEntry} {e : CompileError} (h : e.About (r.Place p)) :
    if r.spans = [] then e.location = Location.unknown
    else e.location ≠ Location.unknown ∧
      ∃ span ∈ r.spans, e.location = (p.lines.locate span.start).text := by
  obtain ⟨l, hplace, hl⟩ := h.located
  rw [hl]
  rcases hplace with ⟨hspans, rfl⟩ | ⟨span, hspan, rfl⟩
  · rw [if_pos hspans]
    rfl
  · rw [if_neg (List.ne_nil_of_mem hspan)]
    exact ⟨Location.text_ne_unknown _, span, hspan, rfl⟩

/-- A filter with a driver that there is not. -/
def filtering : Document where
  filters := [{ name := ⟨"f", ⟨18, 21⟩⟩, drivers := [{ driver := "nope" }] }]

/-- A rule with a name that no object has. -/
def dangling : Document where
  rules := [.mk [] [.named .source ⟨"in", ⟨30, 34⟩⟩]]

/-- What is wrong with a document is located in it. -/
theorem errors_located (doc : Document) (lines : LineTable) (shared : Shared) :
    (∀ e, (doc.build lines Builtin.create { shared }).1 = .error e →
      doc.RefusedInline (doc.plan lines Builtin.create) e ∨
        doc.Tells (doc.plan lines Builtin.create) e) ∧
      ∀ d e, (doc.build lines Builtin.create { shared }).1 = .ok d → d.compile.1 = .error e →
        ∃ i r, doc.rules[i]? = some r ∧ d.compile.2.events = d.events ++ [.ruleRejected e i] ∧
          if r.spans = [] then e.location = Location.unknown
          else e.location ≠ Location.unknown ∧
            ∃ span ∈ r.spans, e.location = (lines.locate span.start).text := by
  refine ⟨fun e he => ?_, fun d e hbuilt he => ?_⟩
  · exact (refuses_of_error he).elim (fun h => .inr (tells_of_object h)) tells_of_inline
  · obtain ⟨i, ⟨r, hr, habout⟩, hevents⟩ := (yields_of_ok hbuilt).compile_error rfl he
    have hlocation := location_of_about habout
    exact ⟨i, r, hr, hevents, hlocation⟩

/-- An unknown driver is found at the object that has it, and a name that no object has at the name. -/
theorem errors_located_sample :
    (∃ e, (filtering.build ⟨none, [0], 300⟩ Builtin.create { shared := {} }).1 = .error e ∧
      filtering.Tells (filtering.plan ⟨none, [0], 300⟩ Builtin.create) e) ∧
    ∃ d e, (dangling.build ⟨none, [0], 300⟩ Builtin.create { shared := {} }).1 = .ok d ∧
      d.compile.1 = .error e ∧ e.location = "#buffer:1:31" := by
  have hfiltering : (filtering.build ⟨none, [0], 300⟩ Builtin.create { shared := {} }).1.map
      (fun _ => ()) = .error (.within "In filter 'f' at #buffer:1:19" (.unknownDriver .filter "nope")) := by
    decide +kernel
  have hdangling : (dangling.build ⟨none, [0], 300⟩ Builtin.create { shared := {} }).1.map
      (fun d => d.compile.1) = .ok (.error (.unresolvedReference .source "in" "#buffer:1:31")) := by
    decide +kernel
  constructor
  · have he := map_eq_error hfiltering
    rcases (errors_located filtering ⟨none, [0], 300⟩ {}).1 _ he with ⟨entry, hentry, -⟩ | htells
    · cases hentry
    · exact ⟨_, he, htells⟩
  · obtain ⟨d, hd, he⟩ := map_eq_ok hdangling
    obtain ⟨i, r, hr, -, hlocation⟩ := (errors_located dangling ⟨none, [0], 300⟩ {}).2 d _ hd he
    obtain rfl : r = .mk [] [.named .source ⟨"in", ⟨30, 34⟩⟩] :=
      List.mem_singleton.1 (List.mem_of_getElem? hr)
    rw [if_neg (by simp [RuleEntry.spans, Element.allSpans, Element.spans])] at hlocation
    obtain ⟨-, span, hspan, hlocation⟩ := hlocation
    obtain rfl : span = ⟨30, 34⟩ := List.mem_singleton.1 hspan
    exact ⟨d, _, hd, he, hlocation.trans (by decide)⟩

/-- A rule in which nothing is named is nowhere, and neither is a driver of an object in place. -/
theorem not_always_located :
    (∃ d e, (load
        "[[log]]\n[[log.elements]]\n[[log.elements.junction]]\nflags = [\"catch-all\"]\n"
        Builtin.create { shared := {} }).1 = .ok d ∧
      d.compile.1 = .error e ∧ e.location = Location.unknown) ∧
    ∃ e, (load
        ("[[log]]\n[[log.elements]]\n[log.elements.inline]\nkind = \"filter\"\n" ++
          "[[log.elements.inline.drivers]]\ndriver = \"nope\"\n")
        Builtin.create { shared := {} }).1 = .error e ∧ e ≠ .parse ∧
      ∀ l : Location, ¬ l.text.toList <:+: e.message.toList := by
  have hrule : (load
      "[[log]]\n[[log.elements]]\n[[log.elements.junction]]\nflags = [\"catch-all\"]\n"
      Builtin.create { shared := {} }).1.map (fun d => d.compile.1) =
        .ok (.error (.nestedCatchAll ⟨.pipe, "unnamed", Location.unknown⟩)) := by
    decide +kernel
  have hdriver : (load
      ("[[log]]\n[[log.elements]]\n[log.elements.inline]\nkind = \"filter\"\n" ++
        "[[log.elements.inline.drivers]]\ndriver = \"nope\"\n")
      Builtin.create { shared := {} }).1.map (fun _ => ()) =
        .error (.unknownDriver .filter "nope") := by
    decide +kernel
  obtain ⟨d, hd, he⟩ := map_eq_ok hrule
  refine ⟨⟨d, _, hd, he, rfl⟩, _, map_eq_error hdriver, by simp, fun l h => ?_⟩
  exact absurd (h.subset l.colon_mem_text) (by decide +kernel)

end Document

end Routing
