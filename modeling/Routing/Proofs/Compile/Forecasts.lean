import Routing.Compile.Statement
import Routing.Proofs.Compile.Nesting
/-!
# What compiling a statement comes to

Whether a statement compiles, with which error it fails, and whether it gets a head and a tail is
settled by what is written in the statement and in the objects. A `Forecast` is read off them with no
graph and nothing remembered. A statement that is accepted is accepted wherever it counts as written
and however deep references by name may be nested, as long as that is deep enough.
-/

namespace Routing

/-- Which ends a part has. -/
structure Outline where
  head : Bool := false
  tail : Bool := false
  deriving DecidableEq, Repr

def Fragment.outline (f : Fragment) : Outline :=
  ⟨f.head.isSome, f.tail.isSome⟩

/-- The ends that a statement gets, or the error with which it fails. -/
abbrev Forecast := Except CompileError Outline

/-- The ends of a sequence or a junction in the making. -/
structure Draft where
  head : Bool := false
  tail : Bool := false
  /-- A child with a head has come to the sequence, or a branch without one to the junction. -/
  past : Bool := false
  deriving DecidableEq, Repr

namespace Draft

def outline (k : Draft) : Outline :=
  ⟨k.head, k.tail⟩

/-- A sequence with one more child. -/
def child (k : Draft) (node : Descriptor) (o : Outline) : Except CompileError Draft :=
  if o.head then .ok ⟨k.head || !k.tail, true, true⟩
  else if o.tail then
    if k.past then .error (.sourceMustBeFirst node) else .ok { k with tail := true }
  else .ok k

/-- A junction with one more branch. -/
def branch (k : Draft) (node : Descriptor) (o : Outline) : Except CompileError Draft :=
  if o.head then
    if k.past then .error (.mixedBranches node)
    else .ok { k with head := true, tail := k.tail || o.tail }
  else if k.head then .error (.mixedBranches node)
  else .ok { k with tail := k.tail || o.tail, past := true }

/-- Where a part is written matters for errors only. -/
def Uniform (step : Draft → Descriptor → Outline → Except CompileError Draft) : Prop :=
  ∀ k node o k', step k node o = .ok k' → ∀ node', step k node' o = .ok k'

theorem uniform_child : Uniform child := by
  intro k node o k' h node'
  unfold child at h ⊢
  split_ifs at h ⊢ <;> exact h

theorem uniform_branch : Uniform branch := by
  intro k node o k' h node'
  unfold branch at h ⊢
  split_ifs at h ⊢ <;> exact h

end Draft

namespace Forecast

/-- How statements are forecast, given where the statement around them counts as written. -/
abbrev Reader := Option Location → Statement → Forecast

/-- The forecast on a reference, given that on its target. -/
def join (kind : Kind) (failure : CompileError) (v : Forecast) : Forecast :=
  match kind with
  | .source => v.bind fun o => if o.tail then .ok ⟨false, true⟩ else .error failure
  | .destination => v.bind fun o => if o.head then .ok ⟨true, false⟩ else .error failure
  | _ => v

section

variable (objects : Objects) (declared : Handle → Capabilities)

/-- The forecast on a single statement. A source has no head. -/
def single (h : Heading) (here : Option Location) : Object → Forecast
  | .stage handle => .ok ⟨!(declared handle).isSource, true⟩
  | _ => .error (.missingStage (h.describe here))

def byName (jump : Option Reader) (h : Heading) (here : Option Location) : Forecast :=
  let name := h.name.getD ""
  match objects.find? ⟨h.kind, name⟩ with
  | none => .error (.unresolvedReference h.kind name (Location.textOf here))
  | some t =>
    match jump with
    | none => .error (.circularReference h.kind name (Location.textOf here))
    | some reader => join t.kind (Compile.emptyObject h here) (reader here t)

mutual

/-- The forecast on a statement, given what stages declare. -/
def statement (jump : Option Reader) (around : Option Location) : Statement → Forecast
  | .mk h object children =>
    let here := h.located.or around
    match h.shape with
    | .single => single declared h here object
    | .reference => reference jump h here object
    | .sequence =>
      if h.flags.catchAll then .error (.nestedCatchAll (h.describe here))
      else (parts jump Draft.child here {} children).map Draft.outline
    | .junction => (parts jump Draft.branch here {} children).map Draft.outline

def reference (jump : Option Reader) (h : Heading) (here : Option Location) : Object → Forecast
  | .empty => byName objects jump h here
  | .stage _ => byName objects jump h here
  | .target _ t => join t.kind (Compile.emptyObject h here) (statement jump here t)

/-- What comes of adding children to a sequence, or branches to a junction. -/
def parts (jump : Option Reader) (step : Draft → Descriptor → Outline → Except CompileError Draft)
    (here : Option Location) (k : Draft) : List Statement → Except CompileError Draft
  | [] => .ok k
  | s :: ss => do
    let o ← statement jump here s
    let k ← step k (s.heading.describe (s.located.or here)) o
    parts jump step here k ss

end

/-- The forecast on a statement with references by name nested at most so deep. -/
def upTo : Nat → Reader
  | 0 => statement objects declared none
  | depth + 1 => statement objects declared (some (upTo depth))

/-- How references by name are forecast that may be nested so deep. -/
def below : Nat → Option Reader
  | 0 => none
  | depth + 1 => some (upTo objects declared depth)

end

variable {objects : Objects} {declared : Handle → Capabilities} {jump jump' : Option Reader}
  {depth depth' : Nat} {kind : Kind} {failure : CompileError} {v : Forecast} {o : Outline}

theorem upTo_eq (depth : Nat) :
    upTo objects declared depth = statement objects declared (below objects declared depth) := by
  cases depth <;> rfl

/-- A reference is accepted for its target alone. -/
theorem join_eq_ok (h : join kind failure v = .ok o) :
    ∃ o₁, v = .ok o₁ ∧ ∀ failure', join kind failure' (.ok o₁) = .ok o := by
  cases kind with
  | source | destination =>
    obtain ⟨o₁, hv, ho⟩ := bind_eq_ok h
    refine ⟨o₁, hv, fun _ => ?_⟩
    split at ho
    · next hend => exact (if_pos hend).trans ho
    · cases ho
  | pipe | filter | parser | rewrite => exact ⟨o, h, fun _ => rfl⟩

/-! ### Accepted statements -/

/-- What is accepted of objects is accepted by another reader. -/
def Steady (objects : Objects) (depth : Nat) (jump jump' : Option Reader) : Prop :=
  ∀ p t, p.named? objects = some t → objects.Nested depth p → ∀ reader ∈ jump, ∀ around o,
    reader around t = .ok o → ∃ reader' ∈ jump', ∀ around', reader' around' t = .ok o

theorem steady_byName (hjump : Steady objects depth jump jump') {h : Heading} {object : Object}
    {cs : List Statement} (hshape : h.shape = .reference)
    (hobject : ∀ serial t, object ≠ .target serial t)
    (hs : objects.Nested depth (.mk h object cs)) {here : Option Location}
    (hok : byName objects jump h here = .ok o) (here' : Option Location) :
    byName objects jump' h here' = .ok o := by
  have hnamed : (Statement.mk h object cs).named? objects = _ :=
    Statement.named_of_reference objects hshape hobject
  unfold byName at hok ⊢
  cases hfind : objects.find? ⟨h.kind, h.name.getD ""⟩ with
  | none => simp [hfind] at hok
  | some t =>
    cases jump with
    | none => simp [hfind] at hok
    | some reader =>
      simp only [hfind] at hok
      obtain ⟨o₁, hreader, hjoin⟩ := join_eq_ok hok
      obtain ⟨reader', hreader', hok'⟩ := hjump _ t (hnamed.trans hfind) hs reader rfl here o₁ hreader
      cases hreader'
      simp only [hfind, hok']
      exact hjoin _

-- by the constructors of statements; `hjump` stands for the induction over the depth of references

mutual

theorem steady_statement (hjump : Steady objects depth jump jump') :
    ∀ s : Statement, s.Each (objects.Nested depth) → ∀ {around o},
      statement objects declared jump around s = .ok o →
      ∀ around', statement objects declared jump' around' s = .ok o
  | .mk h object cs, hs, around, o, hok, around' => by
    rw [statement] at hok ⊢
    cases hshape : h.shape with
    | single =>
      simp only [hshape] at hok ⊢
      cases object with
      | stage handle => exact hok
      | empty | target => cases hok
    | reference =>
      simp only [hshape] at hok ⊢
      exact steady_reference hjump object h cs hshape hs hok _
    | sequence =>
      simp only [hshape] at hok ⊢
      cases hall : h.flags.catchAll with
      | true =>
        rw [hall] at hok
        cases hok
      | false =>
        simp only [hall, Bool.false_eq_true, if_false] at hok ⊢
        obtain ⟨k, hk, rfl⟩ := map_eq_ok hok
        rw [steady_parts hjump Draft.uniform_child cs hs.children hk]
        rfl
    | junction =>
      simp only [hshape] at hok ⊢
      obtain ⟨k, hk, rfl⟩ := map_eq_ok hok
      rw [steady_parts hjump Draft.uniform_branch cs hs.children hk]
      rfl

theorem steady_reference (hjump : Steady objects depth jump jump') :
    ∀ object : Object, ∀ h cs, h.shape = .reference →
      (Statement.mk h object cs).Each (objects.Nested depth) → ∀ {here o},
      reference objects declared jump h here object = .ok o →
      ∀ here', reference objects declared jump' h here' object = .ok o
  | .empty, h, cs, hshape, hs, here, o, hok, here' => by
    rw [reference] at hok ⊢
    exact steady_byName hjump hshape (fun _ _ => by simp) hs.self hok here'
  | .stage handle, h, cs, hshape, hs, here, o, hok, here' => by
    rw [reference] at hok ⊢
    exact steady_byName hjump hshape (fun _ _ => by simp) hs.self hok here'
  | .target serial t, h, cs, hshape, hs, here, o, hok, here' => by
    rw [reference] at hok ⊢
    obtain ⟨o₁, ht, hjoin⟩ := join_eq_ok hok
    rw [steady_statement hjump t hs.target ht]
    exact hjoin _

theorem steady_parts (hjump : Steady objects depth jump jump')
    {step : Draft → Descriptor → Outline → Except CompileError Draft}
    (hstep : Draft.Uniform step) :
    ∀ ss : List Statement, (∀ s ∈ ss, s.Each (objects.Nested depth)) → ∀ {here k k'},
      parts objects declared jump step here k ss = .ok k' →
      ∀ here', parts objects declared jump' step here' k ss = .ok k'
  | [], _, here, k, k', hok, here' => by
    rw [parts] at hok ⊢
    exact hok
  | s :: ss, hs, here, k, k', hok, here' => by
    rw [parts] at hok ⊢
    obtain ⟨o, ho, hok⟩ := bind_eq_ok hok
    obtain ⟨k₁, hk₁, hok⟩ := bind_eq_ok hok
    rw [steady_statement hjump s (hs s (by simp)) ho]
    show (step _ _ o).bind _ = _
    rw [hstep _ _ _ _ hk₁]
    exact steady_parts hjump hstep ss (fun s h => hs s (by simp [h])) hok here'

end

/-- What is accepted at some depth is accepted at every depth that its references need. -/
theorem upTo_steady (depth' : Nat) : ∀ {depth : Nat} {s : Statement} {around : Option Location}
    {o : Outline}, upTo objects declared depth around s = .ok o → s.Each (objects.Nested depth') →
      ∀ around', upTo objects declared depth' around' s = .ok o := by
  induction depth' with
  | zero =>
    intro depth s around o hok hs around'
    rw [upTo_eq] at hok
    refine steady_statement (fun p t hnamed hp => ?_) s hs hok around'
    cases hnamed.symm.trans hp
  | succ depth' ih =>
    intro depth s around o hok hs around'
    rw [upTo_eq] at hok
    refine steady_statement (fun p t hnamed hp reader hreader around o hok => ?_) s hs hok around'
    refine ⟨upTo objects declared depth', rfl, fun around' => ?_⟩
    cases depth with
    | zero => cases hreader
    | succ depth =>
      cases hreader
      exact ih hok (hp t hnamed) around'

end Forecast

end Routing
