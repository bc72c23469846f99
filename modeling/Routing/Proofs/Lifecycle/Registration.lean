import Mathlib.Data.List.Induction
import Mathlib.Data.List.Nodup
import Routing.Catalog
/-!
# Histories of registrations

What a catalog holds after any statements were registered in it. A name that comes up again takes the
place of the earlier object with it, so that objects stand in the order in which their names came up
first, and the last one with a name counts.
-/

namespace Routing

section

variable {α : Type} [DecidableEq α]

theorem eraseDups_concat (l : List α) (a : α) :
    (l ++ [a]).eraseDups = if a ∈ l then l.eraseDups else l.eraseDups ++ [a] := by
  rw [List.eraseDups_append, List.cons_removeAll]
  by_cases ha : a ∈ l
  · simp [ha]
  · simp [ha, List.eraseDups_cons]

theorem nodup_eraseDups (l : List α) : l.eraseDups.Nodup := by
  induction l using List.reverseRecOn with
  | nil => exact .nil
  | append_singleton l a ih =>
    rw [eraseDups_concat]
    split
    · exact ih
    · next ha =>
      refine List.nodup_append.2 ⟨ih, List.nodup_singleton a, fun b hb b' hb' heq => ha ?_⟩
      rw [← List.mem_singleton.1 hb', ← heq]
      exact List.mem_eraseDups.1 hb

end

/-- The kind and name of a statement that has a name. -/
def Statement.key? (s : Statement) : Option ObjectKey :=
  s.name.map fun name => ⟨s.kind, name⟩

theorem Statement.key?_eq_some {s : Statement} {key : ObjectKey} :
    s.key? = some key ↔ s.name = some key.name ∧ s.kind = key.kind := by
  obtain ⟨kind, name⟩ := key
  unfold key?
  cases s.name <;> simp [and_comm]

theorem Statement.key?_unnamed {s : Statement} (hs : s.name = none) : s.key? = none := by
  rw [key?, hs]
  rfl

theorem Statement.key?_named {s : Statement} {name : String} (hs : s.name = some name) :
    s.key? = some ⟨s.kind, name⟩ := by
  rw [key?, hs]
  rfl

/-! ### One more object -/

namespace Objects

variable {objects : Objects} {key : ObjectKey} {s : Statement} {e : ObjectKey × Statement}

theorem mem_put (he : e ∈ objects.put key s) : e ∈ objects ∨ e = (key, s) := by
  induction objects with
  | nil => exact .inr (List.mem_singleton.1 he)
  | cons entry objects ih =>
    rw [put] at he
    split at he
    · exact (List.mem_cons.1 he).elim .inr fun he => .inl (List.mem_cons_of_mem _ he)
    · rcases List.mem_cons.1 he with rfl | he
      · exact .inl List.mem_cons_self
      · exact (ih he).imp_left (List.mem_cons_of_mem _)

/-- The object takes the place of the one with its key, or the last place. -/
theorem keys_put (objects : Objects) (key : ObjectKey) (s : Statement) :
    (objects.put key s).map Prod.fst =
      if key ∈ objects.map Prod.fst then objects.map Prod.fst
      else objects.map Prod.fst ++ [key] := by
  induction objects with
  | nil => rfl
  | cons entry objects ih =>
    rw [put]
    by_cases hk : entry.1 = key
    · simp [hk]
    · simp only [if_neg hk, List.map_cons, ih, List.mem_cons, Ne.symm hk, false_or]
      split <;> rfl

theorem find?_cons (entry : ObjectKey × Statement) (objects : Objects) (key : ObjectKey) :
    find? (entry :: objects) key = if key = entry.1 then some entry.2 else objects.find? key := by
  obtain ⟨k, t⟩ := entry
  unfold find?
  by_cases hk : key = k
  · rw [if_pos hk, List.lookup_cons, beq_iff_eq.2 hk]
  · rw [if_neg hk, List.lookup_cons, beq_eq_false_iff_ne.2 hk]

theorem find?_put (objects : Objects) (key key' : ObjectKey) (s : Statement) :
    (objects.put key s).find? key' = if key' = key then some s else objects.find? key' := by
  induction objects with
  | nil => exact find?_cons (key, s) [] key'
  | cons entry objects ih =>
    rw [put, find?_cons]
    by_cases hk : entry.1 = key
    · rw [if_pos hk, find?_cons, hk]
      split <;> rfl
    · rw [if_neg hk, find?_cons, ih]
      split
      · next hk' => rw [if_neg (hk' ▸ hk)]
      · rfl

theorem sourceNames_eq (h : ∀ e ∈ objects, e.2.key? = some e.1) :
    objects.sourceNames =
      ((objects.map Prod.fst).filter fun key => key.kind = .source).map ObjectKey.name := by
  unfold sourceNames sources
  induction objects with
  | nil => rfl
  | cons entry objects ih =>
    obtain ⟨hname, hkind⟩ := Statement.key?_eq_some.1 (h entry List.mem_cons_self)
    have ih := ih fun e he => h e (List.mem_cons_of_mem _ he)
    by_cases hsource : entry.1.kind = .source
    · simp [hkind, hsource, hname, ih]
    · simp [hkind, hsource, ih]

end Objects

/-! ### All statements -/

/-- The names of the sources among statements, in the order in which they come up first. -/
def Statement.sourceNames (ss : List Statement) : List String :=
  ((ss.filter fun s => s.kind = .source).filterMap Statement.name).eraseDups

/-- The catalog lists each kind and name among the statements once, in the order in which they come up
first, with the last statement that has them, and all statements without a name in their order. -/
structure Catalog.Registers (c : Catalog) (ss : List Statement) : Prop where
  keys : c.objects.map Prod.fst = (ss.filterMap Statement.key?).eraseDups
  once : (c.objects.map Prod.fst).Nodup
  last : ∀ key, c.objects.find? key = ss.reverse.find? fun s => s.key? = some key
  rules : c.rules = ss.filter fun s => s.name.isNone

namespace Catalog

variable {c : Catalog} {ss : List Statement} {s : Statement}

theorem registerAll_concat (c : Catalog) (ss : List Statement) (s : Statement) :
    c.registerAll (ss ++ [s]) = ((c.registerAll ss).register s).2 := by
  simp [registerAll, List.foldl_append]

theorem register_unnamed (hs : s.name = none) :
    c.register s = (none, { c with rules := c.rules ++ [s] }) := by
  rw [register, hs]

theorem register_named {name : String} (hs : s.name = some name) :
    c.register s = ((c.objects.find? ⟨s.kind, name⟩).map fun _ => ⟨s.kind, name⟩,
      { c with objects := c.objects.put ⟨s.kind, name⟩ s }) := by
  rw [register, hs]

theorem Registers.register (h : c.Registers ss) (s : Statement) :
    (c.register s).2.Registers (ss ++ [s]) := by
  cases hs : s.name with
  | none =>
    have hkey := Statement.key?_unnamed hs
    rw [register_unnamed hs]
    refine ⟨?_, h.once, fun key => ?_, ?_⟩
    · simpa [hkey] using h.keys
    · simpa [hkey] using h.last key
    · simp [h.rules, hs]
  | some name =>
    have hkey := Statement.key?_named hs
    have hkeys : (c.objects.put ⟨s.kind, name⟩ s).map Prod.fst =
        ((ss ++ [s]).filterMap Statement.key?).eraseDups := by
      rw [Objects.keys_put, h.keys, List.filterMap_append, List.filterMap_cons, hkey,
        List.filterMap_nil, eraseDups_concat]
      simp only [List.mem_eraseDups]
    rw [register_named hs]
    refine ⟨hkeys, ?_, fun key => ?_, ?_⟩
    · rw [hkeys]
      exact nodup_eraseDups _
    · rw [Objects.find?_put, h.last, List.reverse_append, List.reverse_singleton,
        List.singleton_append, List.find?_cons, hkey]
      by_cases hk : key = ⟨s.kind, name⟩
      · simp [hk]
      · simp [hk, Ne.symm hk]
    · simp [h.rules, hs]

theorem registers_registerAll (ss : List Statement) : (registerAll {} ss).Registers ss := by
  induction ss using List.reverseRecOn with
  | nil => exact ⟨rfl, .nil, fun _ => rfl, rfl⟩
  | append_singleton ss s ih =>
    rw [registerAll_concat]
    exact ih.register s

/-- An object loses its place to a statement exactly if it has its kind and name. -/
theorem Registers.duplicate (h : c.Registers ss) (s : Statement) (dup : Duplicate) :
    (c.register s).1 = some dup ↔
      s.key? = some ⟨dup.kind, dup.name⟩ ∧ ∃ t ∈ ss, t.key? = s.key? := by
  cases hs : s.name with
  | none =>
    have hkey := Statement.key?_unnamed hs
    simp [register_unnamed hs, hkey]
  | some name =>
    have hkey := Statement.key?_named hs
    have hfind : (c.objects.find? ⟨s.kind, name⟩).isSome ↔ ∃ t ∈ ss, t.key? = s.key? := by
      rw [h.last, hkey, List.find?_isSome]
      simp
    rw [register_named hs, ← hfind, hkey]
    obtain ⟨kind, dupName⟩ := dup
    cases hf : c.objects.find? ⟨s.kind, name⟩ <;> simp

theorem named_registerAll (ss : List Statement) :
    ∀ e ∈ (registerAll {} ss).objects, e.2.key? = some e.1 := by
  induction ss using List.reverseRecOn with
  | nil => exact fun e he => absurd he List.not_mem_nil
  | append_singleton ss s ih =>
    rw [registerAll_concat]
    intro e he
    cases hs : s.name with
    | none =>
      rw [register_unnamed hs] at he
      exact ih e he
    | some name =>
      rw [register_named hs] at he
      rcases Objects.mem_put he with he | rfl
      · exact ih e he
      · exact Statement.key?_named hs

/-- The sources stand in the order in which their names come up first. -/
theorem sourceNames_registerAll (ss : List Statement) :
    (registerAll {} ss).objects.sourceNames = Statement.sourceNames ss := by
  rw [Objects.sourceNames_eq (named_registerAll ss), (registers_registerAll ss).keys,
    Statement.sourceNames]
  induction ss using List.reverseRecOn with
  | nil => rfl
  | append_singleton ss s ih =>
    cases hs : s.name with
    | none =>
      have hkey := Statement.key?_unnamed hs
      by_cases hsource : s.kind = .source <;> simpa [hkey, hsource, hs] using ih
    | some name =>
      have hkey := Statement.key?_named hs
      simp only [List.filterMap_append, List.filterMap_cons, hkey, List.filterMap_nil,
        eraseDups_concat, List.filter_append, List.filter_cons, List.filter_nil]
      by_cases hsource : s.kind = .source
      -- the name is a repeat among the sources exactly if the key is one among all statements
      · have hmem : (⟨s.kind, name⟩ : ObjectKey) ∈ ss.filterMap Statement.key? ↔
            name ∈ (ss.filter fun s => s.kind = .source).filterMap Statement.name := by
          simp only [List.mem_filterMap, List.mem_filter, Statement.key?_eq_some, hsource,
            decide_eq_true_eq]
          exact exists_congr fun t => by tauto
        simp only [hsource, decide_true, if_true, List.filterMap_cons, hs, List.filterMap_nil,
          eraseDups_concat, ← hmem]
        split
        · exact ih
        · simp [ih]
      · have hnot : decide (s.kind = .source) = false := decide_eq_false hsource
        simp only [hnot, Bool.false_eq_true, if_false, List.filterMap_nil, List.append_nil, ← ih]
        split
        · rfl
        · simp [hsource]

example :
    Statement.sourceNames [.definition .source "b" [] none, .definition .filter "c" [] none,
      .definition .source "a" [] none, .definition .source "b" [.pipe 0 none] none] = ["b", "a"] := by
  decide

end Catalog

end Routing
