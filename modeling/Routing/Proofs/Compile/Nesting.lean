import Mathlib.Data.List.Perm.Subperm
import Routing.Proofs.Compile.Targets
/-!
# How deep references by name are nested

If no object refers to itself, directly or through others, then references by name are nested no
deeper than there are objects: on the way from one to the next, no object comes twice.
-/

namespace Routing

/-- The object to which a reference leads by its name. -/
def Statement.named? (objects : Objects) (s : Statement) : Option Statement :=
  match s.shape, s.object with
  | .reference, .target _ _ => none
  | .reference, _ => objects.find? ⟨s.kind, s.name.getD ""⟩
  | _, _ => none

theorem Statement.named_of_reference {h : Heading} {object : Object} {cs : List Statement}
    (objects : Objects) (hshape : h.shape = .reference)
    (hobject : ∀ serial t, object ≠ .target serial t) :
    (Statement.mk h object cs).named? objects = objects.find? ⟨h.kind, h.name.getD ""⟩ := by
  obtain ⟨shape, kind, name, flags, location, memo⟩ := h
  cases hshape
  cases object with
  | target serial t => exact absurd rfl (hobject serial t)
  | empty => rfl
  | stage handle => rfl

/-- A reference by name leads to an object in which references by name are nested less deep. -/
def Objects.Nested (objects : Objects) : Nat → Statement → Prop
  | 0, p => p.named? objects = none
  | depth + 1, p => ∀ t ∈ p.named? objects, t.Each (Nested objects depth)

/-- No object refers to itself, directly or through others. -/
def Objects.Acyclic (objects : Objects) : Prop :=
  ∀ key t, objects.find? key = some t → ¬ objects.Leads t ⟨t.kind, .named key.name⟩

namespace Objects

variable {objects : Objects} {s t p : Statement} {key : ObjectKey}

theorem named_eq_some (h : p.named? objects = some t) : ∃ key, objects.find? key = some t ∧
    p.shape = .reference ∧ p.target? objects = some (⟨t.kind, .named key.name⟩, t) := by
  obtain ⟨⟨shape, kind, name, flags, location, memo⟩, o, cs⟩ := p
  cases shape with
  | single | sequence | junction => cases h
  | reference =>
    cases o with
    | target serial t' => cases h
    | empty =>
      have hfind : objects.find? ⟨kind, name.getD ""⟩ = some t := h
      exact ⟨_, hfind, rfl, by simp [Statement.target?, hfind]⟩
    | stage handle =>
      have hfind : objects.find? ⟨kind, name.getD ""⟩ = some t := h
      exact ⟨_, hfind, rfl, by simp [Statement.target?, hfind]⟩

theorem mem_keys_of_find (h : objects.find? key = some s) : key ∈ objects.map Prod.fst :=
  List.mem_map.2 ⟨_, mem_of_find h, rfl⟩

/-- The objects on the way to a statement: each leads to all that the statement leads to. -/
structure Way (objects : Objects) (way : List ObjectKey) (s : Statement) : Prop where
  nodup : way.Nodup
  object : ∀ key ∈ way, ∃ t, objects.find? key = some t ∧
    ∀ target, objects.Leads s target → objects.Leads t target

theorem Way.length_le {way : List ObjectKey} (h : Way objects way s) :
    way.length ≤ objects.length := by
  have hsub : way ⊆ objects.map Prod.fst := fun key hkey =>
    let ⟨_, hfind, _⟩ := h.object key hkey
    mem_keys_of_find hfind
  simpa using (List.subperm_of_subset h.nodup hsub).length_le

/-- An object to which a statement leads by name is not on the way, and comes next. -/
theorem Way.next {way : List ObjectKey} (hacyclic : objects.Acyclic) (h : Way objects way s)
    (hp : p ∈ s.parts) (hnamed : p.named? objects = some t) : ∃ key, Way objects (key :: way) t := by
  obtain ⟨key, hfind, hshape, htarget⟩ := named_eq_some hnamed
  have hrefers : objects.Refers s ⟨t.kind, .named key.name⟩ t := ⟨p, hp, hshape, htarget⟩
  refine ⟨key, List.nodup_cons.2 ⟨fun hkey => ?_, h.nodup⟩, fun k hk => ?_⟩
  · obtain ⟨t', hfind', hleads⟩ := h.object key hkey
    cases hfind.symm.trans hfind'
    exact hacyclic key t hfind (hleads _ (.here hrefers))
  · rcases List.mem_cons.1 hk with rfl | hk
    · exact ⟨t, hfind, fun _ hl => hl⟩
    · obtain ⟨t', hfind', hleads⟩ := h.object k hk
      exact ⟨t', hfind', fun target hl => hleads target (.beyond hrefers hl)⟩

theorem Way.nested (hacyclic : objects.Acyclic) (depth : Nat) :
    ∀ {way : List ObjectKey} {s : Statement}, Way objects way s →
      objects.length ≤ depth + way.length → s.Each (objects.Nested depth) := by
  induction depth with
  | zero =>
    intro way s h hlen p hp
    cases hnamed : p.named? objects with
    | none => exact hnamed
    | some t =>
      obtain ⟨key, hway⟩ := h.next hacyclic hp hnamed
      have hle := hway.length_le
      rw [List.length_cons] at hle
      omega
  | succ depth ih =>
    intro way s h hlen p hp t hnamed
    obtain ⟨key, hway⟩ := h.next hacyclic hp hnamed
    refine ih hway ?_
    rw [List.length_cons]
    omega

/-- References by name are nested at most as deep as there are objects. -/
theorem Acyclic.nested (hacyclic : objects.Acyclic) (s : Statement) :
    s.Each (objects.Nested objects.length) :=
  Way.nested hacyclic objects.length ⟨List.nodup_nil, fun _ h => by cases h⟩ (Nat.le_refl _)

end Objects

/-- The objects of an acyclic catalog are acyclic. -/
theorem Catalog.Acyclic.objects {c : Catalog} (hc : c.Acyclic) : c.objects.Acyclic := by
  intro key t hfind
  exact hc _ t (List.mem_append_left _ (List.mem_map.2 ⟨_, Objects.mem_of_find hfind, rfl⟩))

end Routing
