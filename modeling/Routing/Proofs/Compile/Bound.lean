import Routing.Proofs.Compile.Alike
import Routing.Proofs.Lifecycle.Registration
/-!
# Objects in place of their names

A reference may hold its target instead of naming it. If the references to an object hold it under a
serial number of its own, and the object leaves the table, then compiling comes to the same: what is
remembered of the object is remembered under the serial number instead of the name.
-/

namespace Routing

variable {σ ω : Type}

/-! ### Binding references -/

/-- An object that references hold in place of its name. -/
structure Binding where
  key : ObjectKey
  /-- The number under which references hold the object. -/
  serial : Nat
  target : Statement

/-- The statement is a reference with this kind and name. -/
def Heading.Names (h : Heading) (key : ObjectKey) : Prop :=
  h.shape = .reference ∧ (⟨h.kind, h.name.getD ""⟩ : ObjectKey) = key

instance (h : Heading) (key : ObjectKey) : Decidable (h.Names key) :=
  inferInstanceAs (Decidable (_ ∧ _))

mutual

/-- The statement with the target in all references that name it. -/
def Statement.bound (B : Binding) : Statement → Statement
  | .mk h o cs => .mk h (o.bound B h) (Statement.allBound B cs)

/-- What a statement with this heading holds, with the target in all references that name it. -/
def Object.bound (B : Binding) (h : Heading) : Object → Object
  | .target n s => .target n (s.bound B)
  | .empty => if h.Names B.key then .target B.serial B.target else .empty
  | .stage handle => if h.Names B.key then .target B.serial B.target else .stage handle

/-- The statements with the target in all references that name it. -/
def Statement.allBound (B : Binding) : List Statement → List Statement
  | [] => []
  | s :: ss => s.bound B :: Statement.allBound B ss

end

/-- The objects but the one that is bound, with it in all references that name it. -/
def Objects.bound (B : Binding) (objects : Objects) : Objects :=
  (objects.filter fun e => e.1 ≠ B.key).map fun e => (e.1, e.2.bound B)

/-- The statement is a reference that names the object. -/
def Statement.RefersTo (key : ObjectKey) (s : Statement) : Prop :=
  s.heading.Names key ∧ ∀ n u, s.object ≠ .target n u

/-- The statement does not hold a target with this serial number. -/
def Statement.Without (serial : Nat) (s : Statement) : Prop :=
  ∀ u, s.object ≠ .target serial u

instance (serial : Nat) : DecidablePred (Statement.Without serial) := fun s =>
  match hs : s.object with
  | .empty => isTrue fun _ hu => nomatch hs.symm.trans hu
  | .stage _ => isTrue fun _ hu => nomatch hs.symm.trans hu
  | .target n u =>
    if hn : n = serial then isFalse fun h => h u (hn ▸ hs)
    else isTrue fun _ hu => hn (Object.target.inj (hs.symm.trans hu)).1

variable {B : Binding} {k : ObjectKey} {s u : Statement} {objects : Objects}

section Bound

theorem Statement.allBound_eq (ss : List Statement) :
    allBound B ss = ss.map (Statement.bound B) := by
  induction ss with
  | nil => rfl
  | cons s ss ih => rw [allBound, ih, List.map_cons]

theorem Statement.heading_bound (s : Statement) : (s.bound B).heading = s.heading := by
  cases s
  rfl

theorem Statement.object_bound (s : Statement) :
    (s.bound B).object = s.object.bound B s.heading := by
  cases s
  rfl

theorem Statement.children_bound (s : Statement) :
    (s.bound B).children = s.children.map (Statement.bound B) := by
  cases s
  exact allBound_eq _

theorem Statement.shape_bound (s : Statement) : (s.bound B).shape = s.shape :=
  congrArg Heading.shape s.heading_bound

theorem Statement.kind_bound (s : Statement) : (s.bound B).kind = s.kind :=
  congrArg Heading.kind s.heading_bound

theorem Statement.name_bound (s : Statement) : (s.bound B).name = s.name :=
  congrArg Heading.name s.heading_bound

/-- The references that name the object hold it. -/
theorem Statement.object_bound_of (h : s.RefersTo B.key) :
    (s.bound B).object = .target B.serial B.target := by
  rw [object_bound]
  cases ho : s.object with
  | target n u => exact absurd ho (h.2 n u)
  | empty => exact if_pos h.1
  | stage handle => exact if_pos h.1

theorem Statement.object_bound_byName (h : ¬ s.RefersTo B.key) (ho : ∀ n u, s.object ≠ .target n u) :
    (s.bound B).object = s.object := by
  have hnames : ¬ s.heading.Names B.key := fun hnames => h ⟨hnames, ho⟩
  rw [object_bound]
  cases hobject : s.object with
  | target n u => exact absurd hobject (ho n u)
  | empty => exact if_neg hnames
  | stage handle => exact if_neg hnames

theorem Objects.find_filter_ne (hk : k ≠ B.key) (objects : Objects) :
    find? (objects.filter fun e => e.1 ≠ B.key) k = objects.find? k := by
  induction objects with
  | nil => rfl
  | cons entry objects ih =>
    by_cases hentry : entry.1 = B.key
    · rw [List.filter_cons_of_neg (by simpa using hentry), ih, find?_cons,
        if_neg fun h => hk (h.trans hentry)]
    · rw [List.filter_cons_of_pos (by simpa using hentry), find?_cons, find?_cons, ih]

theorem Objects.find_bound (hk : k ≠ B.key) :
    find? (objects.bound B) k = (objects.find? k).map (Statement.bound B) := by
  rw [bound, find_map, find_filter_ne hk]

theorem Objects.find_bound_self : find? (objects.bound B) B.key = none := by
  rw [bound, find_map, find?, List.lookup_eq_none_iff.2]
  · rfl
  · intro e he
    have hne : e.1 ≠ B.key := by simpa using (List.mem_filter.1 he).2
    simpa using hne.symm

-- by the constructors of statements

mutual

/-- A statement without references that name the object stays as it is. -/
theorem Statement.bound_of_free : ∀ s : Statement, (s.Each fun p => ¬ p.RefersTo B.key) →
    s.bound B = s
  | .mk h o cs, hs => by
    rw [Statement.bound, Statement.allBound_of_free cs hs.children,
      Object.bound_of_free o h (fun hnames ho => hs.self ⟨hnames, ho⟩) fun n u ho => by
        subst ho
        exact hs.target]

theorem Object.bound_of_free : ∀ (o : Object) (h : Heading),
    (h.Names B.key → ¬ ∀ n u, o ≠ .target n u) →
    (∀ n u, o = .target n u → u.Each fun p => ¬ p.RefersTo B.key) → o.bound B h = o
  | .empty, h, hnames, _ => if_neg fun hn => hnames hn nofun
  | .stage handle, h, hnames, _ => if_neg fun hn => hnames hn nofun
  | .target n s, h, _, hs => by rw [Object.bound, Statement.bound_of_free s (hs n s rfl)]

theorem Statement.allBound_of_free : ∀ ss : List Statement,
    (∀ s ∈ ss, s.Each fun p => ¬ p.RefersTo B.key) → Statement.allBound B ss = ss
  | [], _ => rfl
  | s :: ss, hs => by
    rw [Statement.allBound, Statement.bound_of_free s (hs s (by simp)),
      Statement.allBound_of_free ss fun s h => hs s (by simp [h])]

end

mutual

/-- What is in a bound statement is bound, or it is part of the target of a reference that names it. -/
theorem Statement.parts_bound : ∀ (s p : Statement), p ∈ (s.bound B).parts →
    (∃ q ∈ s.parts, p = q.bound B) ∨ (p ∈ B.target.parts ∧ ∃ q ∈ s.parts, q.RefersTo B.key)
  | .mk h o cs, p, hp => by
    rw [Statement.bound, Statement.parts] at hp
    rcases List.mem_cons.1 hp with rfl | hp
    · exact .inl ⟨.mk h o cs, Statement.mem_parts _, by rw [Statement.bound]⟩
    · rcases List.mem_append.1 hp with hp | hp
      · rcases Object.parts_bound o h p hp with ⟨q, hq, rfl⟩ | ⟨hpt, ⟨hnames, ho⟩ | ⟨q, hq, hrefers⟩⟩
        · exact .inl ⟨q, List.mem_cons_of_mem _ (List.mem_append_left _ hq), rfl⟩
        · exact .inr ⟨hpt, .mk h o cs, Statement.mem_parts _, hnames, ho⟩
        · exact .inr ⟨hpt, q, List.mem_cons_of_mem _ (List.mem_append_left _ hq), hrefers⟩
      · rcases Statement.allParts_bound cs p hp with ⟨q, hq, rfl⟩ | ⟨hpt, q, hq, hrefers⟩
        · exact .inl ⟨q, List.mem_cons_of_mem _ (List.mem_append_right _ hq), rfl⟩
        · exact .inr ⟨hpt, q, List.mem_cons_of_mem _ (List.mem_append_right _ hq), hrefers⟩

theorem Object.parts_bound : ∀ (o : Object) (h : Heading) (p : Statement),
    p ∈ (o.bound B h).parts →
      (∃ q ∈ o.parts, p = q.bound B) ∨
        (p ∈ B.target.parts ∧ ((h.Names B.key ∧ ∀ n u, o ≠ .target n u) ∨ ∃ q ∈ o.parts, q.RefersTo B.key))
  | .empty, h, p, hp => by
    rw [Object.bound] at hp
    split at hp
    · next hnames => exact .inr ⟨hp, .inl ⟨hnames, nofun⟩⟩
    · cases hp
  | .stage handle, h, p, hp => by
    rw [Object.bound] at hp
    split at hp
    · next hnames => exact .inr ⟨hp, .inl ⟨hnames, nofun⟩⟩
    · cases hp
  | .target n s, h, p, hp => by
    rw [Object.bound] at hp
    exact (Statement.parts_bound s p hp).imp_right fun h => ⟨h.1, .inr h.2⟩

theorem Statement.allParts_bound : ∀ (ss : List Statement) (p : Statement),
    p ∈ Statement.allParts (Statement.allBound B ss) →
      (∃ q ∈ Statement.allParts ss, p = q.bound B) ∨
        (p ∈ B.target.parts ∧ ∃ q ∈ Statement.allParts ss, q.RefersTo B.key)
  | [], p, hp => by cases hp
  | s :: ss, p, hp => by
    rw [Statement.allBound, Statement.allParts] at hp
    rcases List.mem_append.1 hp with hp | hp
    · rcases Statement.parts_bound s p hp with ⟨q, hq, rfl⟩ | ⟨hpt, q, hq, hrefers⟩
      · exact .inl ⟨q, List.mem_append_left _ hq, rfl⟩
      · exact .inr ⟨hpt, q, List.mem_append_left _ hq, hrefers⟩
    · rcases Statement.allParts_bound ss p hp with ⟨q, hq, rfl⟩ | ⟨hpt, q, hq, hrefers⟩
      · exact .inl ⟨q, List.mem_append_right _ hq, rfl⟩
      · exact .inr ⟨hpt, q, List.mem_append_right _ hq, hrefers⟩

end

end Bound

/-! ### Targets of bound references -/

/-- The object can be bound: it is in a table of objects under their own names, no object refers to
itself, and no target in the objects has the serial number. -/
structure Objects.Binds (objects : Objects) (B : Binding) : Prop where
  find : objects.find? B.key = some B.target
  keyed : ∀ e ∈ objects, e.2.key? = some e.1
  acyclic : objects.Acyclic
  unused : ∀ e ∈ objects, e.2.Each (Statement.Without B.serial)

/-- What is remembered of the object is remembered under the serial number. -/
def Binding.Rekeyed (B : Binding) (k k' : TargetKey) : Prop :=
  (k = ⟨B.key.kind, .named B.key.name⟩ ∧ k' = ⟨B.key.kind, .inline B.serial⟩) ∨
    (k ≠ ⟨B.key.kind, .named B.key.name⟩ ∧ k ≠ ⟨B.key.kind, .inline B.serial⟩ ∧ k' = k)

namespace Objects.Binds

variable (hb : objects.Binds B)

include hb

theorem kind : B.target.kind = B.key.kind :=
  (Statement.key?_eq_some.1 (hb.keyed _ (mem_of_find hb.find))).2

theorem kind_of_find {k : ObjectKey} {u : Statement} (hfind : objects.find? k = some u) :
    u.kind = k.kind :=
  (Statement.key?_eq_some.1 (hb.keyed _ (mem_of_find hfind))).2

theorem target_of_refers (h : s.RefersTo B.key) :
    s.target? objects = some (⟨B.key.kind, .named B.key.name⟩, B.target) := by
  have hkey : (⟨s.kind, s.name.getD ""⟩ : ObjectKey) = B.key := h.1.2
  have hfind : objects.find? ⟨s.kind, s.name.getD ""⟩ = some B.target := hkey ▸ hb.find
  rw [Statement.target_of_find h.2 hfind, hb.kind, ← hkey]

/-- The object does not refer to itself. -/
theorem free : B.target.Each fun p => ¬ p.RefersTo B.key := by
  intro p hp h
  have hrefers : objects.Refers B.target ⟨B.target.kind, .named B.key.name⟩ B.target :=
    ⟨p, hp, h.1.1, by rw [hb.target_of_refers h, hb.kind]⟩
  exact hb.acyclic B.key B.target hb.find (.here hrefers)

theorem bound_self : B.target.bound B = B.target :=
  Statement.bound_of_free B.target hb.free

/-- The target of a bound reference is bound. -/
theorem target (hs : s.Without B.serial) (hshape : s.shape = .reference) :
    Option.Rel (fun r r' => B.Rekeyed r.1 r'.1 ∧ r'.2 = r.2.bound B)
      (s.target? objects) ((s.bound B).target? (objects.bound B)) := by
  by_cases hrefers : s.RefersTo B.key
  · rw [hb.target_of_refers hrefers, Statement.target_of_inline (Statement.object_bound_of hrefers),
      hb.kind]
    exact .some ⟨.inl ⟨rfl, rfl⟩, hb.bound_self.symm⟩
  · by_cases ho : ∃ n u, s.object = .target n u
    · obtain ⟨n, u, ho⟩ := ho
      have ho' : (s.bound B).object = .target n (u.bound B) := by
        rw [Statement.object_bound, ho]
        rfl
      rw [Statement.target_of_inline ho, Statement.target_of_inline ho', Statement.kind_bound]
      -- it has another serial number, so that it is remembered under the same key as before
      have hn : n ≠ B.serial := fun h => hs u (h ▸ ho)
      exact .some ⟨.inr ⟨fun h => (nomatch congrArg TargetKey.id h),
        fun h => hn (TargetId.inline.inj (congrArg TargetKey.id h :)), rfl⟩, rfl⟩
    · have ho : ∀ n u, s.object ≠ .target n u := by simpa using ho
      have hkey : (⟨s.kind, s.name.getD ""⟩ : ObjectKey) ≠ B.key := fun h => hrefers ⟨⟨hshape, h⟩, ho⟩
      have ho' : ∀ n u, (s.bound B).object ≠ .target n u := by
        rw [Statement.object_bound_byName hrefers ho]
        exact ho
      rw [Statement.target_of_byName ho, Statement.target_of_byName ho', Statement.kind_bound,
        Statement.name_bound, Objects.find_bound hkey]
      cases hfind : objects.find? ⟨s.kind, s.name.getD ""⟩ with
      | none => exact .none
      | some u =>
        rw [Option.map_some, Option.map_some, Option.map_some, Statement.kind_bound]
        -- it is another object, since objects are found under their own kinds and names
        have hne : (⟨u.kind, .named (s.name.getD "")⟩ : TargetKey) ≠
            ⟨B.key.kind, .named B.key.name⟩ := fun h => by
          have hkind : s.kind = B.key.kind :=
            (hb.kind_of_find hfind).symm.trans (congrArg TargetKey.kind h)
          have hname := TargetId.named.inj (congrArg TargetKey.id h)
          exact hkey (by rw [hkind, hname])
        exact .some ⟨.inr ⟨hne, fun h => (nomatch congrArg TargetKey.id h), rfl⟩, rfl⟩

/-- A reference in a bound statement stands for one in the statement, or for one in the object to which
a reference in the statement leads. -/
theorem refers_bound (hs : s.Each (Statement.Without B.serial)) {k' : TargetKey} {u' : Statement}
    (h : (objects.bound B).Refers (s.bound B) k' u') :
    ∃ k u, B.Rekeyed k k' ∧ u' = u.bound B ∧ u.Each (Statement.Without B.serial) ∧
      (objects.Refers s k u ∨ ∃ key, objects.Refers s key B.target ∧ objects.Refers B.target k u) := by
  have hpart : ∀ t : Statement, t.Each (Statement.Without B.serial) → ∀ q ∈ t.parts,
      (q.bound B).shape = .reference → (q.bound B).target? (objects.bound B) = some (k', u') →
        ∃ k u, B.Rekeyed k k' ∧ u' = u.bound B ∧ u.Each (Statement.Without B.serial) ∧
          objects.Refers t k u := by
    intro t ht q hq hshape htarget
    have hshape : q.shape = .reference := q.shape_bound.symm.trans hshape
    have hrel := hb.target (ht q hq) hshape
    rw [htarget] at hrel
    generalize hr : q.target? objects = r at hrel
    cases hrel with
    | @some r _ hrel =>
      exact ⟨r.1, r.2, hrel.1, hrel.2, (ht.part hq).target_of hb.unused hr, q, hq, hshape, hr⟩
  obtain ⟨p, hp, hshape, htarget⟩ := h
  rcases s.parts_bound p hp with ⟨q, hq, rfl⟩ | ⟨hpt, q, hq, hrefers⟩
  · obtain ⟨k, u, hk, hu, hw, hr⟩ := hpart s hs q hq hshape htarget
    exact ⟨k, u, hk, hu, hw, .inl hr⟩
  -- the parts of the object itself stay as they are
  · have hself : p.bound B = p := Statement.bound_of_free p (hb.free.part hpt)
    obtain ⟨k, u, hk, hu, hw, hr⟩ := hpart B.target (hb.unused _ (mem_of_find hb.find)) p hpt
      (hself.symm ▸ hshape) (hself.symm ▸ htarget)
    exact ⟨k, u, hk, hu, hw, .inr ⟨_, ⟨q, hq, hrefers.1.1, hb.target_of_refers hrefers⟩, hr⟩⟩

/-- A bound statement leads to nothing new. -/
theorem leads_bound {s' : Statement} {k' : TargetKey} (h : (objects.bound B).Leads s' k') :
    ∀ s : Statement, s.Each (Statement.Without B.serial) → s' = s.bound B →
      ∃ k, B.Rekeyed k k' ∧ objects.Leads s k := by
  induction h with
  | here h =>
    rintro s hs rfl
    obtain ⟨k, u, hk, -, -, hr | ⟨key, hkey, hr⟩⟩ := hb.refers_bound hs h
    · exact ⟨k, hk, .here hr⟩
    · exact ⟨k, hk, .beyond hkey (.here hr)⟩
  | beyond h _ ih =>
    rintro s hs rfl
    obtain ⟨_, u, -, hu, hw, hr⟩ := hb.refers_bound hs h
    obtain ⟨k, hk, hl⟩ := ih u hw hu
    rcases hr with hr | ⟨key, hkey, hr⟩
    · exact ⟨k, hk, .beyond hr hl⟩
    · exact ⟨k, hk, .beyond hkey (.beyond hr hl)⟩

/-- Without the object the others still do not refer to themselves. -/
theorem acyclic_bound : (objects.bound B).Acyclic := by
  intro key t' hfind hleads
  have hkey : key ≠ B.key := by
    rintro rfl
    rw [find_bound_self] at hfind
    cases hfind
  rw [find_bound hkey] at hfind
  obtain ⟨t, ht, rfl⟩ := Option.map_eq_some_iff.1 hfind
  obtain ⟨k, ⟨-, hk⟩ | ⟨-, -, rfl⟩, hl⟩ :=
    hb.leads_bound hleads t (hb.unused _ (mem_of_find ht)) rfl
  · exact nomatch congrArg TargetKey.id hk
  · rw [Statement.kind_bound] at hl
    exact hb.acyclic key t ht hl

end Objects.Binds

/-! ### Runs -/

namespace Compile

variable [Stage σ ω]

/-- Runs with an object under its name and with references that hold it. -/
def binding (B : Binding) : Likeness σ ω where
  base := 0
  gap := 0
  pool := Eq
  slot _ _ _ := SameStage
  key := B.Rekeyed
  exact := True
  lax := False

/-- The statement without the serial number of the object, and with the object in it. -/
def Bound (B : Binding) (s s' : Statement) : Prop :=
  s' = s.bound B ∧ s.Each (Statement.Without B.serial)

theorem regular_binding (B : Binding) : (binding B : Likeness σ ω).Regular where
  gap _ := rfl
  congr hs hs' h := ⟨by rw [hs'.handle, h.handle, hs.handle], by rw [hs'.role, h.role, hs.role],
    by rw [hs'.origin, h.origin, hs.origin], by rw [hs'.initialized, h.initialized, hs.initialized]⟩
  fork h := by rw [h.role]
  add h := by cases h; rfl
  old _ h := h
  own _ _ h := by
    cases h
    exact ⟨rfl, rfl, rfl, rfl⟩
  kind h := by
    rcases h with ⟨rfl, rfl⟩ | ⟨-, -, rfl⟩ <;> rfl
  key h h' := by
    rcases h with ⟨rfl, rfl⟩ | ⟨hk, hk', rfl⟩ <;> rcases h' with ⟨rfl, rfl⟩ | ⟨hl, hl', rfl⟩
    · simp
    · exact ⟨fun h => absurd h.symm hl, fun h => absurd h.symm hl'⟩
    · exact ⟨fun h => absurd h hk, fun h => absurd h hk'⟩
    · exact Iff.rfl

theorem lawful_binding (hb : objects.Binds B) :
    (binding B : Likeness σ ω).Lawful objects (objects.bound B) (Bound B) where
  toRegular := regular_binding B
  shape h := by rw [h.1, Statement.shape_bound]
  flags h := by rw [h.1, Statement.flags, Statement.flags, Statement.heading_bound]
  heading _ h := by rw [h.1, Statement.heading_bound]
  children {s s'} h _ := by
    obtain ⟨rfl, hs⟩ := h
    rw [Statement.children_bound, List.forall₂_map_right_iff]
    exact List.forall₂_same.2 fun p hp => ⟨rfl, Task.each_child hs hp⟩
  single {s s' here here'} h hshape hhere := by
    obtain ⟨rfl, -⟩ := h
    obtain rfl : here = here' := hhere trivial
    have hsingle : ∀ o, (binding B : Likeness σ ω).Along (single s.heading here o)
        (single s.heading here o) (binding B : Likeness σ ω).Part :=
      Likeness.along_single Iff.rfl (fun h => h) (fun _ _ _ _ _ => ⟨rfl, rfl, rfl, rfl⟩)
        fun _ => ⟨rfl, rfl⟩
    have hbyName : ¬ s.RefersTo B.key := fun h => by cases hshape.symm.trans h.1.1
    rw [Statement.heading_bound]
    cases ho : s.object with
    | empty | stage =>
      rw [Statement.object_bound_byName hbyName (by rw [ho]; exact nofun), ho]
      exact hsingle _
    | target n u =>
      rw [Statement.object_bound, ho]
      exact hsingle (.target n u)
  target {s s'} h hshape := by
    obtain ⟨rfl, hs⟩ := h
    have hrel := hb.target hs.self hshape
    generalize hr : s.target? objects = r, (s.bound B).target? (objects.bound B) = r' at hrel
    cases hrel with
    | none => exact .none
    | @some r r' hrel =>
      refine .some ⟨hrel.1, fun _ => rfl, fun _ => ?_, hrel.2, hs.target_of hb.unused hr⟩
      rw [hrel.2, Statement.heading_bound]
      exact Likeness.rel_same_refl rfl rfl _

/-- Compiling bound statements corresponds to compiling the statements. -/
theorem along_bound (hb : objects.Binds B) (hs : s.Each (Statement.Without B.serial)) (fc : Bool) :
    (binding B : Likeness σ ω).Along (node objects fc s) (node (objects.bound B) fc (s.bound B))
      (binding B : Likeness σ ω).Part :=
  (lawful_binding hb).follows _ _ _ _ ⟨rfl, hs⟩
    (.inr (.inl ⟨hb.acyclic.nested s, hb.acyclic_bound.nested (s.bound B)⟩)) none none fc fun _ => rfl

end Compile

end Routing
