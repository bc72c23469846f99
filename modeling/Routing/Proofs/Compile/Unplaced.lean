import Routing.Proofs.Compile.Whereabouts
/-!
# Locations do not outlast a call

Locations only get into errors and origins. If the statements of earlier calls are written elsewhere,
then the states after them differ in nothing but origins, and the calls that follow come to the same.
-/

namespace Routing

variable {σ ω : Type}

/-! ### Statements without locations -/

mutual

/-- The statement without locations. -/
def Statement.unplaced : Statement → Statement
  | .mk h o cs => .mk { h with location := none } o.unplaced (Statement.allUnplaced cs)

/-- What a statement holds, without locations. -/
def Object.unplaced : Object → Object
  | .empty => .empty
  | .stage handle => .stage handle
  | .target serial s => .target serial s.unplaced

/-- The statements without locations. -/
def Statement.allUnplaced : List Statement → List Statement
  | [] => []
  | s :: ss => s.unplaced :: Statement.allUnplaced ss

end

/-- The objects without locations. -/
def Objects.unplaced (objects : Objects) : Objects :=
  objects.map fun e => (e.1, e.2.unplaced)

/-- The call with a statement without locations. -/
def Compile.Call.unplaced : Compile.Call → Compile.Call
  | rule s => rule s.unplaced
  | node flowControl s => node flowControl s.unplaced

variable {s s' : Statement} {objects objects' : Objects}

theorem Statement.allUnplaced_eq (ss : List Statement) : allUnplaced ss = ss.map unplaced := by
  induction ss with
  | nil => rfl
  | cons s ss ih => rw [allUnplaced, ih, List.map_cons]

theorem Statement.heading_unplaced (s : Statement) :
    s.unplaced.heading = { s.heading with location := none } := by
  cases s
  rfl

theorem Statement.object_unplaced (s : Statement) : s.unplaced.object = s.object.unplaced := by
  cases s
  rfl

theorem Statement.children_unplaced (s : Statement) :
    s.unplaced.children = s.children.map unplaced := by
  cases s
  exact allUnplaced_eq _

theorem Statement.kind_unplaced (s : Statement) : s.unplaced.kind = s.kind := by
  cases s
  rfl

theorem Statement.name_unplaced (s : Statement) : s.unplaced.name = s.name := by
  cases s
  rfl

theorem Objects.sourceNames_unplaced (objects : Objects) :
    objects.unplaced.sourceNames = objects.sourceNames := by
  unfold sourceNames sources unplaced
  induction objects with
  | nil => rfl
  | cons entry objects ih =>
    simp only [List.map_cons, List.filter_cons, Statement.kind_unplaced]
    split
    · rw [List.filterMap_cons, List.filterMap_cons, Statement.name_unplaced, ih]
    · exact ih

theorem Statement.unplaced_expandCatchAll (objects : Objects) (s : Statement) :
    (s.expandCatchAll objects).unplaced = s.unplaced.expandCatchAll objects.unplaced := by
  obtain ⟨h, o, cs⟩ := s
  have hflags : (mk h o cs).unplaced.flags = (mk h o cs).flags := rfl
  unfold expandCatchAll
  rw [Objects.sourceNames_unplaced, hflags]
  by_cases hall : (mk h o cs).flags.catchAll = true
  · have hnames : (objects.sourceNames.map fun name => reference .source name none).map unplaced =
        objects.sourceNames.map fun name => reference .source name none := by
      rw [List.map_map]
      rfl
    rw [if_pos hall, if_pos hall]
    simp only [unplaced, prepend, removeFlags, mapHeading, allUnplaced_eq, List.map_append, hnames]
  · rw [if_neg hall, if_neg hall]

/-- The targets of statements that differ in locations differ in locations. -/
theorem Statement.target_unplaced (objects : Objects) (s : Statement) :
    s.unplaced.target? objects.unplaced =
      (s.target? objects).map fun (key, t) => (key, t.unplaced) := by
  by_cases ho : ∃ serial t, s.object = .target serial t
  · obtain ⟨serial, t, ho⟩ := ho
    have ho' : s.unplaced.object = .target serial t.unplaced := by rw [object_unplaced, ho]; rfl
    rw [target_of_inline ho, target_of_inline ho', kind_unplaced]
    rfl
  · have ho : ∀ serial t, s.object ≠ .target serial t := by simpa using ho
    have ho' : ∀ serial t, s.unplaced.object ≠ .target serial t := by
      intro serial t h
      rw [object_unplaced] at h
      cases hobject : s.object with
      | empty | stage => rw [hobject] at h; cases h
      | target serial t => exact ho serial t hobject
    rw [target_of_byName ho, target_of_byName ho', Objects.unplaced, Objects.find_map, name_unplaced,
      kind_unplaced]
    simp only [Option.map_map, Function.comp_def, kind_unplaced]

theorem Statement.named_unplaced (objects : Objects) (s : Statement) :
    s.unplaced.named? objects.unplaced = (s.named? objects).map unplaced := by
  obtain ⟨⟨shape, kind, name, flags, location, memo⟩, o, cs⟩ := s
  cases shape with
  | single | sequence | junction => rfl
  | reference =>
    cases o with
    | target serial t => rfl
    | empty | stage => exact Objects.find_map unplaced objects _

namespace Compile

variable [Stage σ ω]

/-- Runs that differ in nothing but locations. If `same` holds, the statements do not differ at all, and
from the slot `n` on the origins do not either. -/
def elsewhere (same : Prop) (n : SlotId) : Likeness σ ω where
  base := 0
  gap := 0
  pool := Eq
  slot _ _ x s s' := s.handle = s'.handle ∧ s.role = s'.role ∧ s.initialized = s'.initialized ∧
    (same → n ≤ x → s.origin = s'.origin)
  key := Eq
  exact := same
  lax := False

section Elsewhere

variable {same : Prop} {n : SlotId}

/-- The statements differ in locations at most. -/
def Relocated (same : Prop) (s s' : Statement) : Prop :=
  s.unplaced = s'.unplaced ∧ (same → s = s')

theorem regular_elsewhere : (elsewhere same n : Likeness σ ω).Regular where
  gap _ := rfl
  congr hs hs' h := by
    refine ⟨?_, ?_, ?_, fun he hn => ?_⟩
    · rw [hs.handle, hs'.handle, h.1]
    · rw [hs.role, hs'.role, h.2.1]
    · rw [hs.initialized, hs'.initialized, h.2.2.1]
    · rw [hs.origin, hs'.origin, h.2.2.2 he hn]
  fork h := by rw [h.2.1]
  add h := by cases h; rfl
  old _ h := h
  own _ _ h := by
    cases h
    exact ⟨rfl, rfl, rfl, fun _ _ => rfl⟩
  kind h := congrArg TargetKey.kind h
  key h h' := by
    cases h
    cases h'
    exact Iff.rfl

omit [Stage σ ω] in
theorem Relocated.heading (h : Relocated same s s') :
    { s.heading with location := none } = ({ s'.heading with location := none } : Heading) := by
  rw [← s.heading_unplaced, ← s'.heading_unplaced, h.1]

omit [Stage σ ω] in
theorem Relocated.children (h : Relocated same s s') :
    List.Forall₂ (Relocated same) s.children s'.children := by
  have hmap : s.children.map Statement.unplaced = s'.children.map Statement.unplaced := by
    rw [← s.children_unplaced, ← s'.children_unplaced, h.1]
  have heq : same → s.children = s'.children := fun he => by rw [h.2 he]
  generalize s.children = ss, s'.children = ss' at hmap heq
  induction ss generalizing ss' with
  | nil =>
    obtain rfl : ss' = [] := by simpa using hmap.symm
    exact .nil
  | cons s ss ih =>
    cases ss' with
    | nil => cases hmap
    | cons s' ss' =>
      obtain ⟨hs, hss⟩ := List.cons.inj hmap
      exact .cons ⟨hs, fun he => (List.cons.inj (heq he)).1⟩
        (ih ss' hss fun he => (List.cons.inj (heq he)).2)

/-- Stages in statements that differ in locations are put in place alike. -/
theorem Relocated.along_single (h : Relocated same s s') {here here' : Option Location}
    (hhere : same → here = here') :
    (elsewhere same n : Likeness σ ω).Along (single s.heading here s.object)
      (single s'.heading here' s'.object) (elsewhere same n : Likeness σ ω).Part := by
  have hobject : s.object.unplaced = s'.object.unplaced := by
    rw [← s.object_unplaced, ← s'.object_unplaced, h.1]
  have hsingle : ∀ o, (elsewhere same n : Likeness σ ω).Along (single s.heading here o)
      (single s'.heading here' o) (elsewhere same n : Likeness σ ω).Part := by
    refine Likeness.along_single Iff.rfl (fun h => h) (fun q x handle role caps => ?_)
      fun he => ⟨by rw [h.2 he], hhere he⟩
    exact ⟨rfl, rfl, rfl, fun he _ => by rw [h.2 he, hhere he]⟩
  generalize s.object = o, s'.object = o' at hobject
  cases o with
  | empty =>
    cases o' with
    | empty => exact hsingle _
    | stage | target => cases hobject
  | stage handle =>
    cases o' with
    | stage handle' =>
      cases hobject
      exact hsingle _
    | empty | target => cases hobject
  | target serial t =>
    cases o' with
    | target serial' t' => exact hsingle (.target serial t)
    | empty | stage => cases hobject

omit [Stage σ ω] in
/-- The targets of statements that differ in locations are the same but for locations. -/
theorem Relocated.target (hobjects : objects.unplaced = objects'.unplaced)
    (hsame : same → objects = objects') (h : Relocated same s s') :
    Option.Rel (fun r r' => r.1 = r'.1 ∧ Relocated same r.2 r'.2)
      (s.target? objects) (s'.target? objects') := by
  have htarget := (s.target_unplaced objects).symm.trans
    ((by rw [h.1, hobjects] : _ = _).trans (s'.target_unplaced objects'))
  have heq : same → s.target? objects = s'.target? objects' := fun he => by rw [h.2 he, hsame he]
  generalize s.target? objects = r, s'.target? objects' = r' at htarget heq
  cases r with
  | none =>
    cases r' with
    | none => exact .none
    | some r' => cases htarget
  | some r =>
    cases r' with
    | none => cases htarget
    | some r' =>
      obtain ⟨hkey, ht⟩ := Prod.mk.inj (Option.some.inj htarget)
      exact .some ⟨hkey, ht, fun he => by rw [Option.some.inj (heq he)]⟩

theorem lawful_elsewhere (hobjects : objects.unplaced = objects'.unplaced)
    (hsame : same → objects = objects') :
    (elsewhere same n : Likeness σ ω).Lawful objects objects' (Relocated same) where
  toRegular := regular_elsewhere
  shape h := (congrArg Heading.shape h.heading :)
  flags h := (congrArg Heading.flags h.heading :)
  heading he h := by rw [h.2 he]
  children h _ := h.children
  single h _ hhere := h.along_single hhere
  target {s s'} h _ := by
    have htargets := h.target hobjects hsame
    generalize s.target? objects = r, s'.target? objects' = r' at htargets
    cases htargets with
    | none => exact .none
    | @some r r' ht =>
      refine .some ⟨ht.1, fun _ => rfl, fun _ => ?_, ht.2⟩
      rw [show r.2.heading.memo = r'.2.heading.memo from (congrArg Heading.memo ht.2.heading :)]
      exact Likeness.rel_same_refl rfl rfl _

omit [Stage σ ω] in
/-- References by name are found by name in both tables. -/
theorem Relocated.steady (hobjects : objects.unplaced = objects'.unplaced) (h : Relocated same s s') :
    (s.named? objects).isSome = (s'.named? objects').isSome := by
  have hnamed := (s.named_unplaced objects).symm.trans
    ((by rw [h.1, hobjects] : _ = _).trans (s'.named_unplaced objects'))
  simpa using congrArg Option.isSome hnamed

/-! ### Calls -/

variable {earlier earlier' : List Call} {call call' : Call}

theorem along_call (hobjects : objects.unplaced = objects'.unplaced) (hsame : same → objects = objects')
    (hcall : call.unplaced = call'.unplaced) (hcalls : same → call = call') :
    (elsewhere same n : Likeness σ ω).Along (call.run objects) (call'.run objects')
      (elsewhere same n : Likeness σ ω).Part := by
  have hlawful := lawful_elsewhere (σ := σ) (n := n) hobjects hsame
  have hlength : objects.length = objects'.length := by
    simpa [Objects.unplaced] using congrArg List.length hobjects
  have hnode : ∀ {s s' : Statement} (fc : Bool), Relocated same s s' →
      (elsewhere same n : Likeness σ ω).Along (node objects fc s) (node objects' fc s')
        (elsewhere same n : Likeness σ ω).Part := fun fc hs =>
    hlawful.follows _ _ _ _ hs (.inr (.inr ⟨hlength, fun _ _ h => h.steady hobjects⟩)) none none fc
      fun _ => rfl
  cases call with
  | rule s =>
    cases call' with
    | node => cases hcall
    | rule s' =>
      refine hnode false ⟨?_, fun he => ?_⟩
      · rw [s.unplaced_expandCatchAll, s'.unplaced_expandCatchAll, hobjects, Call.rule.inj hcall]
      · rw [hsame he, Call.rule.inj (hcalls he)]
  | node fc s =>
    cases call' with
    | rule => cases hcall
    | node fc' s' =>
      obtain ⟨rfl, hs⟩ := Call.node.inj hcall
      exact hnode fc ⟨hs, fun he => (Call.node.inj (hcalls he)).2⟩

/-- Earlier calls whose statements are written elsewhere lead to states that differ in origins at most. -/
theorem match_after (hobjects : objects.unplaced = objects'.unplaced)
    (hearlier : earlier.map Call.unplaced = earlier'.map Call.unplaced) {b b' : Build σ ω}
    (hb : (elsewhere False n : Likeness σ ω).Match b b') :
    (elsewhere False n : Likeness σ ω).Match (after objects earlier b) (after objects' earlier' b') := by
  induction earlier generalizing earlier' b b' with
  | nil =>
    obtain rfl : earlier' = [] := by simpa using hearlier.symm
    exact hb
  | cons call earlier ih =>
    cases earlier' with
    | nil => cases hearlier
    | cons call' earlier' =>
      obtain ⟨hcall, hearlier⟩ := List.cons.inj hearlier
      exact ih hearlier ((along_call hobjects False.elim hcall False.elim).outcome id hb).1

end Elsewhere

omit [Stage σ ω] in
/-- From now on the origins are the same as well. -/
theorem match_from {b b' : Build σ ω} (hb : (elsewhere False 0 : Likeness σ ω).Match b b') :
    (elsewhere True b.graph.size : Likeness σ ω).Match b b' where
  pool := hb.pool
  size := hb.size
  slot {x x'} hx := by
    have hslot := hb.slot hx
    generalize hs : b.graph.slot? x = s, b'.graph.slot? x' = s' at hslot
    cases hslot with
    | none => exact .none
    | some h =>
      refine .some ⟨h.capabilities, h.next, h.hops, h.rest.1, h.rest.2.1, h.rest.2.2.1, fun _ hn => ?_⟩
      exact absurd (Graph.lt_of_slot hs) (Nat.not_lt.2 hn)
  memo := hb.memo
  front := hb.front
  front' := hb.front'

/-- An error of a call describes the statement at fault, at the innermost location on the way to it. -/
theorem Call.blames (call : Call) (objects : Objects) {b : Build σ ω} {e : CompileError}
    (he : ((call.run objects).run b).1 = .error e) :
    ∃ path k, (call.task objects b).Route objects path k ∧
      (call.task objects b).Blamed objects path k e ∧
      e.Describes k.statement (Statement.nearest path) ∧
      e.location = Location.textOf (Statement.nearest path) := by
  rw [← call.result_task] at he
  obtain ⟨path, k, hpath, hblamed, hdescribes⟩ := Task.Route.blames _ _ .start he
  have hlocated : k.located = Statement.nearest path := by
    rw [hpath.located]
    cases call <;> exact Option.or_none
  rw [hlocated] at hdescribes
  exact ⟨path, k, hpath, hblamed, hdescribes, hdescribes.location⟩

/-- From states that differ in origins at most, a call comes to the same and adds the same slots. -/
theorem Call.unplaced_run (call : Call) (objects : Objects) {b b' : Build σ ω}
    (hb : (elsewhere False 0 : Likeness σ ω).Match b b') :
    ((call.run objects).run b).1 = ((call.run objects).run b').1 ∧
      ∀ x, b.graph.size ≤ x → ((call.run objects).run b).2.graph.slot? x =
        ((call.run objects).run b').2.graph.slot? x := by
  have halong : (elsewhere True b.graph.size : Likeness σ ω).Along
      (call.run objects) (call.run objects) _ := along_call rfl (fun _ => rfl) rfl fun _ => rfl
  obtain ⟨hmatch, hresult⟩ := halong.outcome id (match_from hb)
  refine ⟨?_, fun x hx => hmatch.slot_eq rfl rfl fun hs => ?_⟩
  · rcases hresult with ⟨f, f', hf, hf', hpart⟩ | ⟨e, e', he, he', heq⟩
    · rw [hf, hf', hpart.eq rfl]
    · rw [he, he', heq trivial]
  · exact ⟨hs.1.symm, hs.2.1.symm, (hs.2.2.2 trivial hx).symm, hs.2.2.1.symm⟩

end Compile

end Routing
