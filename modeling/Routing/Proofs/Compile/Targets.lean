import Mathlib.Data.List.Nodup
import Routing.Compile.Basic
import Routing.Proofs.Compile.Parts
/-!
# Where references lead

A reference leads to the target that it holds, or else to the object of its name. A statement leads
to a target over any number of references: those in it, those in the objects that they name, and so
on. A catalog is acyclic if no target leads back to itself.
-/

namespace Routing

/-- The target of a reference, and how it is told apart. -/
def Statement.target? (objects : Objects) : Statement → Option (TargetKey × Statement)
  | .mk _ (.target serial t) _ => some (⟨t.kind, .inline serial⟩, t)
  | .mk h _ _ =>
    (objects.find? ⟨h.kind, h.name.getD ""⟩).map fun t => (⟨t.kind, .named (h.name.getD "")⟩, t)

/-- A reference in the statement has this target. -/
def Objects.Refers (objects : Objects) (s : Statement) (key : TargetKey) (t : Statement) : Prop :=
  ∃ p ∈ s.parts, p.shape = .reference ∧ p.target? objects = some (key, t)

/-- Compiling the statement may come to this target. -/
inductive Objects.Leads (objects : Objects) : Statement → TargetKey → Prop
  | here {s t : Statement} {key : TargetKey} (h : objects.Refers s key t) : Leads objects s key
  | beyond {s t : Statement} {key key' : TargetKey} (h : objects.Refers s key t)
    (h' : Leads objects t key') : Leads objects s key'

/-- The targets that are written in the statement. -/
def Statement.inlined (s : Statement) : List (TargetKey × Statement) :=
  s.parts.filterMap fun p =>
    match p.object with
    | .target serial t => some (⟨t.kind, .inline serial⟩, t)
    | _ => none

namespace Catalog

/-- All targets: the objects, and what is written in place of a name. -/
def targets (c : Catalog) : List (TargetKey × Statement) :=
  c.objects.map (fun (key, t) => (⟨t.kind, .named key.name⟩, t)) ++
    (c.objects.map (·.2) ++ c.rules).flatMap Statement.inlined

/-- No target refers to itself, directly or through others. -/
def Acyclic (c : Catalog) : Prop :=
  ∀ key t, (key, t) ∈ c.targets → ¬ c.objects.Leads t key

/-- The keys tell the targets apart. -/
def Unambiguous (c : Catalog) : Prop :=
  ∀ key t t', (key, t) ∈ c.targets → (key, t') ∈ c.targets → t = t'

end Catalog

variable {objects : Objects} {s t p : Statement} {key key' : TargetKey} {h : Heading} {o : Object}
  {ss cs : List Statement} {serial : Nat}

/-! ### Parts of parts -/

mutual

theorem Statement.parts_trans : ∀ s : Statement, ∀ p ∈ s.parts, ∀ q ∈ p.parts, q ∈ s.parts
  | .mk h o cs, p, hp, q, hq => by
    rcases List.mem_cons.1 hp with rfl | hp
    · exact hq
    · refine List.mem_cons_of_mem _ (List.mem_append.2 ?_)
      rcases List.mem_append.1 hp with hp | hp
      · exact .inl (Object.parts_trans o p hp q hq)
      · exact .inr (Statement.allParts_trans cs p hp q hq)

theorem Object.parts_trans : ∀ o : Object, ∀ p ∈ o.parts, ∀ q ∈ p.parts, q ∈ o.parts
  | .empty, _, hp, _, _ => by cases hp
  | .stage _, _, hp, _, _ => by cases hp
  | .target _ s, p, hp, q, hq => Statement.parts_trans s p hp q hq

theorem Statement.allParts_trans :
    ∀ ss : List Statement, ∀ p ∈ Statement.allParts ss, ∀ q ∈ p.parts, q ∈ Statement.allParts ss
  | [], _, hp, _, _ => by cases hp
  | s :: ss, p, hp, q, hq => by
    rcases List.mem_append.1 hp with hp | hp
    · exact List.mem_append_left _ (Statement.parts_trans s p hp q hq)
    · exact List.mem_append_right _ (Statement.allParts_trans ss p hp q hq)

end

theorem Statement.Each.part {P : Statement → Prop} (hs : s.Each P) (hp : p ∈ s.parts) : p.Each P :=
  fun q hq => hs q (s.parts_trans p hp q hq)

theorem Statement.parts_child (hs : s ∈ cs) (hp : p ∈ s.parts) : p ∈ (Statement.mk h o cs).parts :=
  List.mem_cons_of_mem _ (List.mem_append_right _ (mem_allParts.2 ⟨s, hs, hp⟩))

namespace Objects

theorem Refers.child (hs : s ∈ cs) (hr : objects.Refers s key t) :
    objects.Refers (.mk h o cs) key t := by
  obtain ⟨p, hp, hshape, ht⟩ := hr
  exact ⟨p, Statement.parts_child hs hp, hshape, ht⟩

theorem Leads.child (hs : s ∈ cs) (hl : objects.Leads s key) : objects.Leads (.mk h o cs) key := by
  cases hl with
  | here hr => exact .here (hr.child hs)
  | beyond hr hl => exact .beyond (hr.child hs) hl

theorem Refers.self (hshape : s.shape = .reference) (ht : s.target? objects = some (key, t)) :
    objects.Refers s key t :=
  ⟨s, s.mem_parts, hshape, ht⟩

end Objects

/-! ### Targets of references -/

namespace Statement

theorem target_of_byName (ho : ∀ serial t, s.object ≠ .target serial t) :
    s.target? objects = (objects.find? ⟨s.kind, s.name.getD ""⟩).map
      fun t => (⟨t.kind, .named (s.name.getD "")⟩, t) := by
  obtain ⟨h, o, cs⟩ := s
  cases o with
  | target serial t => exact absurd rfl (ho serial t)
  | empty => rfl
  | stage handle => rfl

theorem target_of_find (ho : ∀ serial t, s.object ≠ .target serial t)
    (hfind : objects.find? ⟨s.kind, s.name.getD ""⟩ = some t) :
    s.target? objects = some (⟨t.kind, .named (s.name.getD "")⟩, t) := by
  rw [target_of_byName ho, hfind]
  rfl

theorem target_of_inline (ho : s.object = .target serial t) :
    s.target? objects = some (⟨t.kind, .inline serial⟩, t) := by
  obtain ⟨h, o, cs⟩ := s
  cases ho
  rfl

theorem target_cases (ht : s.target? objects = some (key, t)) :
    (∃ serial, s.object = .target serial t ∧ key = ⟨t.kind, .inline serial⟩) ∨
      (∀ serial t, s.object ≠ .target serial t) ∧
        objects.find? ⟨s.kind, s.name.getD ""⟩ = some t ∧ key = ⟨t.kind, .named (s.name.getD "")⟩ := by
  by_cases ho : ∃ serial t, s.object = .target serial t
  · obtain ⟨serial, t', ho⟩ := ho
    cases (target_of_inline ho).symm.trans ht
    exact .inl ⟨serial, ho, rfl⟩
  · have ho : ∀ serial t, s.object ≠ .target serial t := by simpa using ho
    obtain ⟨t', hfind, hkey⟩ := Option.map_eq_some_iff.1 ((target_of_byName ho).symm.trans ht)
    cases hkey
    exact .inr ⟨ho, hfind, rfl⟩

theorem target_kind (ht : s.target? objects = some (key, t)) : key.kind = t.kind := by
  rcases target_cases ht with ⟨_, _, rfl⟩ | ⟨_, _, rfl⟩ <;> rfl

/-- What all parts of a statement and of the objects have, the parts of its targets have. -/
theorem Each.target_of {P : Statement → Prop} (hs : s.Each P)
    (hobjects : ∀ entry ∈ objects, entry.2.Each P) (ht : s.target? objects = some (key, t)) :
    t.Each P := by
  rcases target_cases ht with ⟨serial, ho, -⟩ | ⟨-, hfind, -⟩
  · obtain ⟨h, o, cs⟩ := s
    cases ho
    exact hs.target
  · exact hobjects _ (Objects.mem_of_find hfind)

end Statement

/-- What an object is found as does not depend on the other objects. -/
theorem Objects.find_map (f : Statement → Statement) (objects : Objects) (key : ObjectKey) :
    find? (objects.map fun e => (e.1, f e.2)) key = (objects.find? key).map f := by
  unfold find?
  induction objects with
  | nil => rfl
  | cons entry objects ih =>
    rw [List.map_cons, List.lookup_cons, List.lookup_cons]
    cases key == entry.1 with
    | true => rfl
    | false => exact ih

/-! ### Catalogs -/

/-- A target in place of a name is among the targets of the catalog. -/
def Catalog.Lists (c : Catalog) (p : Statement) : Prop :=
  ∀ serial t, p.object = .target serial t → (⟨t.kind, .inline serial⟩, t) ∈ c.targets

namespace Catalog

variable {c : Catalog}

theorem lists_of_mem (hs : s ∈ c.objects.map (·.2) ++ c.rules) : s.Each c.Lists := by
  intro p hp serial t ho
  refine List.mem_append_right _ (List.mem_flatMap.2 ⟨s, hs, List.mem_filterMap.2 ⟨p, hp, ?_⟩⟩)
  simp only [ho]

theorem lists_object {entry : ObjectKey × Statement} (he : entry ∈ c.objects) :
    entry.2.Each c.Lists :=
  lists_of_mem (List.mem_append_left _ (List.mem_map.2 ⟨entry, he, rfl⟩))

theorem lists_rule (hs : s ∈ c.rules) : s.Each c.Lists :=
  lists_of_mem (List.mem_append_right _ hs)

theorem lists_expandCatchAll (hs : s.Each c.Lists) :
    (s.expandCatchAll objects).Each c.Lists := by
  refine hs.expandCatchAll (fun _ _ => hs.self) (fun name => ?_) objects
  intro serial t ho
  cases ho

/-- What the statements of a catalog and all their parts have, its targets have. -/
theorem each_target {P : Statement → Prop} (hall : ∀ s ∈ c.objects.map (·.2) ++ c.rules, s.Each P)
    (ht : (key, t) ∈ c.targets) : t.Each P := by
  rcases List.mem_append.1 ht with ht | ht
  · obtain ⟨⟨k, t'⟩, he, heq⟩ := List.mem_map.1 ht
    cases heq
    exact hall _ (List.mem_append_left _ (List.mem_map.2 ⟨_, he, rfl⟩))
  · obtain ⟨s, hs, ht⟩ := List.mem_flatMap.1 ht
    obtain ⟨⟨h, o, cs⟩, hp, heq⟩ := List.mem_filterMap.1 ht
    cases o with
    | target serial t' =>
      cases heq
      exact ((hall s hs).part hp).target
    | empty => cases heq
    | stage handle => cases heq

theorem lists_target (ht : (key, t) ∈ c.targets) : t.Each c.Lists :=
  each_target (fun _ => lists_of_mem) ht

theorem mem_targets (hp : c.Lists p) (ht : p.target? c.objects = some (key, t)) :
    (key, t) ∈ c.targets := by
  obtain ⟨h, o, cs⟩ := p
  have named : ∀ {k}, (c.objects.find? k).map
      (fun t => ((⟨t.kind, .named k.name⟩ : TargetKey), t)) = some (key, t) →
      (key, t) ∈ c.targets := by
    intro k hmap
    obtain ⟨_, hfind, heq⟩ := Option.map_eq_some_iff.1 hmap
    cases heq
    exact List.mem_append_left _ (List.mem_map.2 ⟨_, Objects.mem_of_find hfind, rfl⟩)
  cases o with
  | target serial t' =>
    cases ht
    exact hp serial t rfl
  | empty => exact named (k := ⟨h.kind, h.name.getD ""⟩) ht
  | stage handle => exact named (k := ⟨h.kind, h.name.getD ""⟩) ht

theorem unambiguous_of_nodup (h : (c.targets.map Prod.fst).Nodup) : c.Unambiguous :=
  fun _ _ _ ht ht' => congrArg Prod.snd (List.inj_on_of_nodup_map h ht ht' rfl)

/-- A catalog is acyclic if its references go down. -/
theorem acyclic_of_rank (rank : TargetKey → Nat)
    (h : ∀ e ∈ c.targets, ∀ p ∈ e.2.parts, p.shape = .reference → ∀ e' ∈ p.target? c.objects,
      rank e'.1 < rank e.1) : c.Acyclic := by
  have down : ∀ {t key'}, c.objects.Leads t key' → ∀ {key}, (key, t) ∈ c.targets →
      rank key' < rank key := by
    intro t key' hl
    induction hl with
    | here hr =>
      intro key hkey
      obtain ⟨p, hp, hshape, ht⟩ := hr
      exact h _ hkey p hp hshape _ ht
    | beyond hr _ ih =>
      intro key hkey
      obtain ⟨p, hp, hshape, ht⟩ := hr
      have hmid := mem_targets (lists_target hkey p hp) ht
      exact Nat.lt_trans (ih hmid) (h _ hkey p hp hshape _ ht)
  intro key t hkey hl
  exact Nat.lt_irrefl _ (down hl hkey)

end Catalog

end Routing
