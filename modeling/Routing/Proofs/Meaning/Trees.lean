import Routing.Compile.Statement
import Routing.Proofs.Compile.Parts
import Routing.Proofs.Meaning.Words
/-!
# What statements mean

A statement means the words of stages that messages pass on their way through it, and the words that
they have passed when they are delivered to a destination. Nothing is said here about graphs.
-/

namespace Routing

/-- What a statement does with messages. -/
structure Meaning (α : Type) where
  /-- The statement starts with sources. -/
  rooted : Bool := false
  /-- The words from the start to the end. -/
  paths : Words α := {[]}
  /-- The words from the start to destinations. -/
  deliver : Multiset (List α × TargetKey) := 0

/-- What is known of the stages of statements. -/
structure Alphabet (α : Type) where
  word : Handle → List α
  source : Handle → Bool

namespace Meaning

variable {α : Type}

/-- The meaning of a reference to a target. -/
def refer (key : TargetKey) (m : Meaning α) : Meaning α :=
  match key.kind with
  | .source => { m with rooted := true }
  | .destination => { deliver := {([], key)} }
  | _ => m

/-- Branches are passed side by side. -/
def junction (ms : List (Meaning α)) : Meaning α where
  rooted := ms.any rooted
  paths := (ms.map paths).sum
  deliver := (ms.map deliver).sum

/-- The words from sources to the stages after them. -/
def front (ms : List (Meaning α)) : Words α :=
  if ms.any rooted then ((ms.filter rooted).map paths).sum else {[]}

/-- What is delivered by statements that are passed one after another, behind some words. -/
def delivered (A : Words α) : List (Meaning α) → Multiset (List α × TargetKey)
  | [] => 0
  | m :: ms => Words.before A m.deliver + delivered (Words.cat A m.paths) ms

/-- Sources are passed side by side, then the other children one after another. -/
def sequence (ms : List (Meaning α)) : Meaning α where
  rooted := ms.any rooted
  paths := Words.cat (front ms) (Words.catAll ((ms.filter (!·.rooted)).map paths))
  deliver := ((ms.filter rooted).map deliver).sum + delivered (front ms) (ms.filter (!·.rooted))

/-! ### One more child -/

variable {A : Words α} {m : Meaning α} {ms ms' : List (Meaning α)}

theorem delivered_append :
    delivered A (ms ++ ms') =
      delivered A ms + delivered (Words.cat A (Words.catAll (ms.map paths))) ms' := by
  induction ms generalizing A with
  | nil => simp [delivered, Words.catAll]
  | cons m ms ih => simp [delivered, Words.catAll, ih, Words.cat_assoc, add_assoc]

theorem front_append_plain (hm : m.rooted = false) : front (ms ++ [m]) = front ms := by
  simp [front, hm]

@[simp] theorem sequence_nil : sequence ([] : List (Meaning α)) = {} := by
  simp [sequence, front, delivered, Words.catAll]

/-- A further child comes after what was there. -/
theorem sequence_append_plain (hm : m.rooted = false) :
    sequence (ms ++ [m]) =
      { rooted := (sequence ms).rooted
        paths := Words.cat (sequence ms).paths m.paths
        deliver := (sequence ms).deliver + Words.before (sequence ms).paths m.deliver } := by
  have hfilter : (ms ++ [m]).filter (!·.rooted) = ms.filter (!·.rooted) ++ [m] := by simp [hm]
  have hrooted : (ms ++ [m]).filter rooted = ms.filter rooted := by simp [hm]
  simp only [sequence, front_append_plain hm, hfilter, hrooted, delivered_append, List.map_append,
    List.map_cons, List.map_nil, Words.catAll_append, Words.catAll, Words.cat_nil, delivered,
    Words.cat_assoc, add_assoc, add_zero]
  simp [hm]

theorem sequence_append_empty : sequence (ms ++ [({} : Meaning α)]) = sequence ms := by
  rw [sequence_append_plain rfl]
  simp

theorem sequence_of_empty (hms : ∀ m ∈ ms, m = {}) : sequence ms = {} := by
  induction ms using List.reverseRecOn with
  | nil => exact sequence_nil
  | append_singleton ms m ih =>
    obtain rfl := hms m (by simp)
    rw [sequence_append_empty]
    exact ih fun m hm => hms m (by simp [hm])

/-- As long as sources come they are passed side by side. -/
theorem sequence_of_early (hms : ∀ m ∈ ms, m.rooted = false → m = {}) :
    sequence ms =
      { rooted := ms.any rooted
        paths := front ms
        deliver := ((ms.filter rooted).map deliver).sum } := by
  have hplain : ∀ m ∈ ms.filter (!·.rooted), m = {} := by
    intro m hm
    obtain ⟨hm, hr⟩ := List.mem_filter.1 hm
    exact hms m hm (by simpa using hr)
  have hcat : ∀ ms' : List (Meaning α), (∀ m ∈ ms', m = {}) →
      Words.catAll (ms'.map paths) = {[]} ∧ ∀ A, delivered A ms' = 0 := by
    intro ms' h
    induction ms' with
    | nil => exact ⟨rfl, fun _ => rfl⟩
    | cons m ms' ih =>
      obtain rfl := h m (by simp)
      obtain ⟨h₁, h₂⟩ := ih fun m hm => h m (by simp [hm])
      exact ⟨by simp [Words.catAll, h₁], fun A => by simp [delivered, h₂]⟩
  obtain ⟨h₁, h₂⟩ := hcat _ hplain
  simp only [sequence, h₁, h₂, Words.cat_nil, add_zero]

theorem sequence_append_source (hm : m.rooted = true)
    (hms : ∀ m ∈ ms, m.rooted = false → m = {}) :
    sequence (ms ++ [m]) =
      { rooted := true
        paths := if (sequence ms).rooted then (sequence ms).paths + m.paths else m.paths
        deliver := (sequence ms).deliver + m.deliver } := by
  have hms' : ∀ m' ∈ ms ++ [m], m'.rooted = false → m' = {} := by
    intro m' hm' hr
    rcases List.mem_append.1 hm' with hm' | hm'
    · exact hms m' hm' hr
    · rw [List.mem_singleton.1 hm', hm] at hr
      cases hr
  rw [sequence_of_early hms, sequence_of_early hms']
  simp only [front, List.any_append, List.any_cons, List.any_nil, hm, Bool.or_false, Bool.or_true,
    if_true, List.filter_append, List.filter_cons, List.filter_nil, List.map_append, List.map_cons,
    List.map_nil, List.sum_append, List.sum_cons, List.sum_nil, add_zero]
  congr 1
  split
  · rfl
  · next hany =>
    have hnone : ms.filter rooted = [] := by simpa using hany
    rw [hnone]
    simp

theorem delivered_of_none (hms : ∀ m ∈ ms, m.deliver = 0) (A : Words α) : delivered A ms = 0 := by
  induction ms generalizing A with
  | nil => rfl
  | cons m ms ih =>
    rw [delivered, hms m (by simp), Words.before_zero, zero_add]
    exact ih (fun m hm => hms m (by simp [hm])) _

theorem sequence_deliver (hms : ∀ m ∈ ms, m.deliver = 0) : (sequence ms).deliver = 0 := by
  have hsum : ((ms.filter rooted).map deliver).sum = 0 := by
    refine List.sum_eq_zero fun D hD => ?_
    obtain ⟨m, hm, rfl⟩ := List.mem_map.1 hD
    exact hms m (List.mem_filter.1 hm).1
  have hrest : delivered (front ms) (ms.filter (!·.rooted)) = 0 :=
    delivered_of_none (fun m hm => hms m (List.mem_filter.1 hm).1) (front ms)
  simp only [sequence, hsum, hrest, add_zero]

theorem junction_append :
    junction (ms ++ [m]) =
      { rooted := (junction ms).rooted || m.rooted
        paths := (junction ms).paths + m.paths
        deliver := (junction ms).deliver + m.deliver } := by
  simp [junction]

end Meaning

/-! ### Meanings of statements -/

/-- The meaning of a single statement that holds this. -/
def Object.singleMeaning {α : Type} (A : Alphabet α) : Object → Meaning α
  | .stage handle => { rooted := A.source handle, paths := {A.word handle} }
  | _ => {}

section

variable {α : Type} (A : Alphabet α) (named : ObjectKey → Meaning α)

mutual

/-- The meaning of a statement, given those of the objects that it refers to by name. -/
def Statement.meaning : Statement → Meaning α
  | .mk h o cs =>
    match h.shape with
    | .single => o.singleMeaning A
    | .reference => o.referenceMeaning h
    | .sequence => .sequence (Statement.meanings cs)
    | .junction => .junction (Statement.meanings cs)

/-- The meaning of a reference that holds this. -/
def Object.referenceMeaning (h : Heading) : Object → Meaning α
  | .target serial s => s.meaning.refer ⟨s.kind, .inline serial⟩
  | .empty => (named ⟨h.kind, h.name.getD ""⟩).refer ⟨h.kind, .named (h.name.getD "")⟩
  | .stage _ => (named ⟨h.kind, h.name.getD ""⟩).refer ⟨h.kind, .named (h.name.getD "")⟩

/-- The meanings of several statements. -/
def Statement.meanings : List Statement → List (Meaning α)
  | [] => []
  | s :: ss => s.meaning :: Statement.meanings ss

end

/-- The meaning of the object with a key; objects refer to no others. -/
def Objects.meaning (objects : Objects) (key : ObjectKey) : Meaning α :=
  ((objects.find? key).map (Statement.meaning A fun _ => {})).getD {}

end

/-! ### Statements without stages -/

section

variable (named : ObjectKey → Bool)

mutual

/-- Nothing is compiled for the statement. -/
def Statement.vacant : Statement → Bool
  | .mk h o cs =>
    match h.shape with
    | .single => false
    | .reference => o.referenceVacant h
    | .sequence => Statement.allVacant cs
    | .junction => Statement.allVacant cs

/-- Nothing is compiled for a reference that holds this. -/
def Object.referenceVacant (h : Heading) : Object → Bool
  | .target _ s => s.kind ≠ .source && s.kind ≠ .destination && s.vacant
  | .empty => h.kind ≠ .source && h.kind ≠ .destination && named ⟨h.kind, h.name.getD ""⟩
  | .stage _ => h.kind ≠ .source && h.kind ≠ .destination && named ⟨h.kind, h.name.getD ""⟩

/-- Nothing is compiled for the statements. -/
def Statement.allVacant : List Statement → Bool
  | [] => true
  | s :: ss => s.vacant && Statement.allVacant ss

end

/-- The object with a key is without stages. -/
def Objects.vacant (objects : Objects) (key : ObjectKey) : Bool :=
  ((objects.find? key).map (Statement.vacant fun _ => true)).getD true

end

/-! ### Configurations as they are written -/

/-- The statement is a sequence of single statements. -/
def Statement.Flat (s : Statement) : Prop :=
  s.shape = .sequence ∧ ∀ c ∈ s.children, c.shape = .single

/-- What the statement holds is no target but a flat one. -/
def Object.Flat : Object → Prop
  | .target _ s => s.Flat
  | _ => True

/-- The statement is one that a document makes, and branches have stages. -/
structure Statement.Regular (objects : Objects) (s : Statement) : Prop where
  target : s.shape = .reference → s.object.Flat
  branches : s.shape = .junction → s.children ≠ [] ∧ ∀ c ∈ s.children,
    c.shape = .sequence ∧ c.vacant objects.vacant = false

/-- The statement is what its target number stands for. -/
def Statement.Bound (targets : Nat → Statement) (s : Statement) : Prop :=
  ∀ serial t, s.object = .target serial t → t = targets serial

/-- Objects are flat and sorted by their kinds. -/
def Objects.Flat (objects : Objects) : Prop :=
  ∀ entry ∈ objects, entry.2.Flat ∧ entry.2.kind = entry.1.kind

/-- Nothing is settled or unknown about the statement before it is compiled. -/
structure Statement.WellMade (objects : Objects) (targets : Nat → Statement) (n : Nat)
    (s : Statement) : Prop where
  fresh : s.heading.memo = none
  below : s.object.Below n
  regular : s.Regular objects
  bound : s.Bound targets

/-- What references to a target mean. -/
def Objects.known {α : Type} (A : Alphabet α) (objects : Objects) (targets : Nat → Statement)
    (key : TargetKey) : Meaning α :=
  match key.id with
  | .named name => objects.meaning A ⟨key.kind, name⟩
  | .inline serial => (targets serial).meaning A (objects.meaning A)

namespace Statement

variable {α : Type} {A : Alphabet α} {s : Statement} {cs : List Statement}

theorem meanings_single (hcs : ∀ c ∈ cs, c.shape = .single) (named : ObjectKey → Meaning α) :
    meanings A named cs = cs.map fun c => c.object.singleMeaning A := by
  induction cs with
  | nil => rfl
  | cons c cs ih =>
    obtain ⟨h, o, children⟩ := c
    have hsingle : h.shape = .single := hcs (.mk h o children) (by simp)
    rw [meanings, List.map_cons, ih fun c hc => hcs c (by simp [hc])]
    simp only [meaning, hsingle]
    rfl

theorem allVacant_single (hcs : ∀ c ∈ cs, c.shape = .single) (named : ObjectKey → Bool) :
    allVacant named cs = cs.isEmpty := by
  cases cs with
  | nil => rfl
  | cons c cs =>
    obtain ⟨h, o, children⟩ := c
    have hsingle : h.shape = .single := hcs (.mk h o children) (by simp)
    rw [allVacant]
    simp only [vacant, hsingle]
    rfl

namespace Flat

theorem meaning_eq (hs : s.Flat) (named : ObjectKey → Meaning α) :
    s.meaning A named = .sequence (s.children.map fun c => c.object.singleMeaning A) := by
  obtain ⟨h, o, cs⟩ := s
  have hshape : h.shape = .sequence := hs.1
  simp only [meaning, hshape]
  exact congrArg Meaning.sequence (meanings_single hs.2 named)

theorem vacant_eq (hs : s.Flat) (named : ObjectKey → Bool) :
    s.vacant named = s.children.isEmpty := by
  obtain ⟨h, o, cs⟩ := s
  have hshape : h.shape = .sequence := hs.1
  simp only [vacant, hshape]
  exact allVacant_single hs.2 named

theorem deliver (hs : s.Flat) (named : ObjectKey → Meaning α) :
    (s.meaning A named).deliver = 0 := by
  rw [hs.meaning_eq]
  refine Meaning.sequence_deliver fun m hm => ?_
  obtain ⟨c, -, rfl⟩ := List.mem_map.1 hm
  cases c.object <;> rfl

end Flat

end Statement

instance : DecidablePred Statement.Flat := fun s =>
  inferInstanceAs (Decidable (s.shape = .sequence ∧ ∀ c ∈ s.children, c.shape = .single))

instance : DecidablePred Object.Flat
  | .target _ s => inferInstanceAs (Decidable s.Flat)
  | .empty => .isTrue trivial
  | .stage _ => .isTrue trivial

instance (objects : Objects) : DecidablePred (Statement.Regular objects) := fun s =>
  decidable_of_iff ((s.shape = .reference → s.object.Flat) ∧
    (s.shape = .junction → s.children ≠ [] ∧ ∀ c ∈ s.children,
      c.shape = .sequence ∧ c.vacant objects.vacant = false))
    ⟨fun h => ⟨h.1, h.2⟩, fun h => ⟨h.1, h.2⟩⟩

instance : DecidablePred Objects.Flat := fun objects =>
  inferInstanceAs (Decidable (∀ entry ∈ objects, entry.2.Flat ∧ entry.2.kind = entry.1.kind))

end Routing
