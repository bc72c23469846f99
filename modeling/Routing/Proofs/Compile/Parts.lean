import Routing.Catalog
/-!
# Parts of statements

Compiling a statement looks at the statement itself, at its children and at the targets that it
holds, all the way down. `Fresh` says that none of them is settled before.
-/

namespace Routing

mutual

/-- The statement and all statements in it. -/
def Statement.parts : Statement → List Statement
  | .mk h o cs => .mk h o cs :: (o.parts ++ Statement.allParts cs)

/-- All statements in what a statement holds. -/
def Object.parts : Object → List Statement
  | .empty => []
  | .stage _ => []
  | .target _ s => s.parts

/-- All statements in a list. -/
def Statement.allParts : List Statement → List Statement
  | [] => []
  | s :: ss => s.parts ++ Statement.allParts ss

end

theorem Statement.mem_parts (s : Statement) : s ∈ s.parts := by
  cases s
  simp [parts]

theorem Statement.mem_allParts {p : Statement} {ss : List Statement} :
    p ∈ allParts ss ↔ ∃ s ∈ ss, p ∈ s.parts := by
  induction ss with
  | nil => simp [allParts]
  | cons s ss ih => simp [allParts, ih]

/-- All parts of a statement have a property. -/
def Statement.Each (P : Statement → Prop) (s : Statement) : Prop :=
  ∀ p ∈ s.parts, P p

instance {P : Statement → Prop} [DecidablePred P] : DecidablePred (Statement.Each P) := fun s =>
  inferInstanceAs (Decidable (∀ p ∈ s.parts, P p))

namespace Statement.Each

variable {P : Statement → Prop} {h : Heading} {o : Object} {s : Statement} {ss cs : List Statement}
  {serial : Nat}

theorem self (hs : s.Each P) : P s :=
  hs _ (mem_parts _)

theorem children (hs : (Statement.mk h o cs).Each P) : ∀ s ∈ cs, s.Each P := by
  intro s hsc p hp
  refine hs p (List.mem_cons_of_mem _ (List.mem_append_right _ ?_))
  exact mem_allParts.2 ⟨s, hsc, hp⟩

theorem target (hs : (Statement.mk h (.target serial s) cs).Each P) : s.Each P := by
  intro p hp
  exact hs p (List.mem_cons_of_mem _ (List.mem_append_left _ hp))

theorem mk (hh : P (.mk h o cs)) (ho : ∀ p ∈ o.parts, P p) (hcs : ∀ s ∈ cs, s.Each P) :
    (Statement.mk h o cs).Each P := by
  intro p hp
  rcases List.mem_cons.1 hp with rfl | hp
  · exact hh
  · rcases List.mem_append.1 hp with hp | hp
    · exact ho p hp
    · obtain ⟨s, hs, hp⟩ := mem_allParts.1 hp
      exact hcs s hs p hp

/-- The rule as it is compiled has the parts of the rule and references by name. -/
theorem expandCatchAll (hs : s.Each P)
    (hself : ∀ flags refs, P (.mk { s.heading with flags } s.object (refs ++ s.children)))
    (href : ∀ name, P (.reference .source name none)) (objects : Objects) :
    (s.expandCatchAll objects).Each P := by
  unfold Statement.expandCatchAll
  split
  · obtain ⟨h, o, cs⟩ := s
    refine .mk (hself _ _) (fun p hp => ?_) fun s hs' => ?_
    · exact hs p (List.mem_cons_of_mem _ (List.mem_append_left _ hp))
    · rcases List.mem_append.1 hs' with hs' | hs'
      · obtain ⟨name, -, rfl⟩ := List.mem_map.1 hs'
        exact .mk (href name) (by simp [Object.parts]) (by simp)
      · exact hs.children s hs'
  · exact hs

end Statement.Each

/-- What the statement holds is no stage but one of the first `n`. -/
def Object.Below (n : Nat) : Object → Prop
  | .stage handle => handle < n
  | _ => True

instance (n : Nat) : DecidablePred (Object.Below n)
  | .stage handle => inferInstanceAs (Decidable (handle < n))
  | .empty => .isTrue trivial
  | .target _ _ => .isTrue trivial

/-- Nothing in the statement is settled before it is compiled. -/
def Statement.Fresh : Statement → Prop :=
  Statement.Each fun p => p.heading.memo = none

/-- The stages in the statement are among the first `n`. -/
def Statement.Holds (n : Nat) : Statement → Prop :=
  Statement.Each fun p => p.object.Below n

instance : DecidablePred Statement.Fresh := fun s =>
  inferInstanceAs (Decidable (∀ p ∈ s.parts, p.heading.memo = none))

instance (n : Nat) : DecidablePred (Statement.Holds n) := fun s =>
  inferInstanceAs (Decidable (∀ p ∈ s.parts, p.object.Below n))

theorem Statement.Fresh.expandCatchAll {s : Statement} (hs : s.Fresh) (objects : Objects) :
    (s.expandCatchAll objects).Fresh :=
  Each.expandCatchAll hs (fun _ _ => hs.self) (fun _ => rfl) objects

theorem Statement.Holds.expandCatchAll {n : Nat} {s : Statement} (hs : s.Holds n)
    (objects : Objects) : (s.expandCatchAll objects).Holds n :=
  Each.expandCatchAll hs (fun _ _ => hs.self) (fun _ => trivial) objects

/-- All objects are fresh. -/
def Objects.Fresh (objects : Objects) : Prop :=
  ∀ entry ∈ objects, entry.2.Fresh

/-- The stages in all objects are among the first `n`. -/
def Objects.Holds (objects : Objects) (n : Nat) : Prop :=
  ∀ entry ∈ objects, entry.2.Holds n

instance : DecidablePred Objects.Fresh := fun objects =>
  inferInstanceAs (Decidable (∀ entry ∈ objects, entry.2.Fresh))

instance (n : Nat) : DecidablePred (Objects.Holds · n) := fun objects =>
  inferInstanceAs (Decidable (∀ entry ∈ objects, entry.2.Holds n))

theorem Objects.mem_of_find {objects : Objects} {key : ObjectKey} {s : Statement}
    (h : objects.find? key = some s) : (key, s) ∈ objects := by
  obtain ⟨l₁, l₂, rfl, -⟩ := List.lookup_eq_some_iff.1 h
  simp

end Routing
