import Routing.Compile.Statement
import Routing.Proofs.Compile.Targets
import Routing.Proofs.Compile.Wp
/-!
# What happens while compiling

While a statement is compiled, stages get their places, targets are compiled for the first of their
references, and references are joined to their targets. A trace lists these moments in order. It
runs the compiler to know the state at each of them, so a trace ends where compiling fails.
-/

namespace Routing

variable {σ ω α β : Type}

/-- A moment of compiling. -/
inductive Moment (σ ω : Type) where
  /-- The stage of a statement has got a place, or a clone of it has. -/
  | placed (handle : Handle) (id : SlotId) (state : Build σ ω)
  /-- A target is about to be compiled. -/
  | opened (key : TargetKey) (state : Build σ ω)
  /-- A reference has been joined to its target. -/
  | joined (key : TargetKey) (part : Fragment) (before state : Build σ ω)

namespace Moment

/-- The state at the moment. -/
def state : Moment σ ω → Build σ ω
  | placed _ _ b => b
  | opened _ b => b
  | joined _ _ _ b => b

/-- The target that the moment is about. -/
def key? : Moment σ ω → Option TargetKey
  | placed _ _ _ => none
  | opened key _ => some key
  | joined key _ _ _ => some key

end Moment

abbrev Trace (σ ω : Type) := List (Moment σ ω)

/-- The target is compiled for its first reference only. -/
def TargetKey.Shared (key : TargetKey) : Prop :=
  key.kind = .source ∨ key.kind = .destination

instance : DecidablePred TargetKey.Shared := fun key =>
  inferInstanceAs (Decidable (key.kind = .source ∨ key.kind = .destination))

namespace Compile

/-- What happens after a step that succeeds. -/
def onward (x : Compile σ ω α) (next : α → Build σ ω → Trace σ ω) (b : Build σ ω) : Trace σ ω :=
  match x.run b with
  | (.ok a, b') => next a b'
  | (.error _, _) => []

/-- How statements are compiled, and what happens meanwhile. -/
structure Routine (σ ω : Type) where
  run : Run σ ω
  trace : Option Location → Bool → Statement → Build σ ω → Trace σ ω

variable [Stage σ ω]

def singleTrace (h : Heading) (here : Option Location) : Object → Build σ ω → Trace σ ω
  | .stage handle => onward (single h here (.stage handle)) fun f b =>
      f.tail.toList.map fun id => .placed handle id b
  | _ => fun _ => []

/-- What happens at a reference; `trace` is what happens when its target is compiled. -/
def referTrace (h : Heading) (here : Option Location) (key : TargetKey) (settled : Option SlotId)
    (run : Compile σ ω Fragment) (trace : Build σ ω → Trace σ ω) (b : Build σ ω) : Trace σ ω :=
  (if key.Shared ∧ ((b.memos.lookup key).or settled).isSome then [] else .opened key b :: trace b) ++
    onward (referTo h here key settled run) (fun f b' => [.joined key f b b']) b

def byNameTrace (objects : Objects) (jump : Option (Routine σ ω)) (h : Heading)
    (here : Option Location) (flowControl : Bool) : Build σ ω → Trace σ ω :=
  match objects.find? ⟨h.kind, h.name.getD ""⟩, jump with
  | some target, some routine =>
    referTrace h here ⟨target.kind, .named (h.name.getD "")⟩ target.heading.memo
      (routine.run here flowControl target) (routine.trace here flowControl target)
  | _, _ => fun _ => []

mutual

/-- What happens while a statement is compiled. -/
def statementTrace (objects : Objects) (jump : Option (Routine σ ω)) (around : Option Location)
    (flowControl : Bool) : Statement → Build σ ω → Trace σ ω
  | .mk h object children =>
    let here := h.located.or around
    match h.shape with
    | .single => singleTrace h here object
    | .reference => referenceTrace objects jump h here flowControl object
    | .sequence =>
      if h.flags.catchAll then fun _ => []
      else chainTrace objects jump here flowControl {} children
    | .junction => branchingTrace objects jump here flowControl {} children

def referenceTrace (objects : Objects) (jump : Option (Routine σ ω)) (h : Heading)
    (here : Option Location) (flowControl : Bool) : Object → Build σ ω → Trace σ ω
  | .empty => byNameTrace objects jump h here flowControl
  | .stage _ => byNameTrace objects jump h here flowControl
  | .target serial target =>
    referTrace h here ⟨target.kind, .inline serial⟩ target.heading.memo
      (statement objects (jump.map Routine.run) here flowControl target)
      (statementTrace objects jump here flowControl target)

def chainTrace (objects : Objects) (jump : Option (Routine σ ω)) (here : Option Location)
    (flowControl : Bool) (c : Chain) : List Statement → Build σ ω → Trace σ ω
  | [] => fun _ => []
  | s :: ss => fun b =>
    statementTrace objects jump here (flowControl || s.flags.flowControl) s b ++
      -- what comes next starts in the state that the child leaves
      onward (do
        let f ← statement objects (jump.map Routine.run) here (flowControl || s.flags.flowControl) s
        c.add (s.heading.describe (s.located.or here)) f)
      (fun c => chainTrace objects jump here flowControl c ss) b

def branchingTrace (objects : Objects) (jump : Option (Routine σ ω)) (here : Option Location)
    (flowControl : Bool) (j : Branching) : List Statement → Build σ ω → Trace σ ω
  | [] => fun _ => []
  | s :: ss => fun b =>
    statementTrace objects jump here (flowControl || s.flags.flowControl) s b ++
      onward (do
        let f ← statement objects (jump.map Routine.run) here (flowControl || s.flags.flowControl) s
        j.add (s.heading.describe (s.located.or here)) f)
      (fun j => branchingTrace objects jump here flowControl j ss) b

end

def upToTrace (objects : Objects) :
    Nat → Option Location → Bool → Statement → Build σ ω → Trace σ ω
  | 0 => statementTrace objects none
  | depth + 1 => statementTrace objects (some ⟨upTo objects depth, upToTrace objects depth⟩)

def nodeTrace (objects : Objects) (flowControl : Bool) (s : Statement) : Build σ ω → Trace σ ω :=
  upToTrace objects objects.length none flowControl s

def ruleTrace (objects : Objects) (s : Statement) : Build σ ω → Trace σ ω :=
  nodeTrace objects false (s.expandCatchAll objects)

/-- What happens while rules are compiled, up to the first that fails. -/
def rulesTrace (objects : Objects) : List Statement → Build σ ω → Trace σ ω
  | [], _ => []
  | s :: ss, b =>
    ruleTrace objects s b ++ onward (rule objects s) (fun _ => rulesTrace objects ss) b

/-! ### Traces and preconditions -/

section Wp

variable {E : Trace σ ω → CompileError → Build σ ω → Prop} {b : Build σ ω}

omit [Stage σ ω] in
/-- What comes after a step may speak of the whole trace. -/
theorem wp_onward {Q : Trace σ ω → β → Build σ ω → Prop} {x : Compile σ ω α}
    {f : α → Compile σ ω β} {k : α → Build σ ω → Trace σ ω}
    (h : wp x (fun a b' => wp (f a) (Q (k a b')) (E (k a b')) b') (E []) b) :
    wp (x >>= f) (Q (onward x k b)) (E (onward x k b)) b := by
  rw [wp_bind]
  unfold onward wp at *
  generalize x.run b = r at h ⊢
  rcases r with ⟨_ | a, b'⟩
  · exact h
  · exact h

omit [Stage σ ω] in
theorem wp_onward_end {Q : Trace σ ω → α → Build σ ω → Prop} {x : Compile σ ω α}
    {k : α → Build σ ω → Trace σ ω} (h : wp x (fun a b' => Q (k a b') a b') (E []) b) :
    wp x (Q (onward x k b)) (E (onward x k b)) b := by
  unfold onward wp at *
  generalize x.run b = r at h ⊢
  rcases r with ⟨_ | a, b'⟩
  · exact h
  · exact h

end Wp

/-! ### Traces and targets -/

/-- The trace is about targets to which the statement leads. -/
def Within (objects : Objects) (s : Statement) (trace : Build σ ω → Trace σ ω) : Prop :=
  ∀ b, ∀ m ∈ trace b, ∀ key ∈ m.key?, objects.Leads s key

section Within

variable {objects : Objects} {jump : Option (Routine σ ω)} {s t : Statement} {key : TargetKey}

omit [Stage σ ω] in
theorem within_nil : Within objects s (fun _ : Build σ ω => []) := by
  intro b m hm
  cases hm

theorem within_single (h : Heading) (here : Option Location) (o : Object) :
    Within objects s (singleTrace h here o : Build σ ω → Trace σ ω) := by
  cases o with
  | empty => exact within_nil
  | target serial t => exact within_nil
  | stage handle =>
    intro b m hm key hkey
    simp only [singleTrace, onward] at hm
    split at hm
    · obtain ⟨id, -, rfl⟩ := List.mem_map.1 hm
      cases hkey
    · cases hm

theorem within_refer {h : Heading} {o : Object} {cs : List Statement} (hshape : h.shape = .reference)
    (ht : (Statement.mk h o cs).target? objects = some (key, t)) {here : Option Location}
    {settled : Option SlotId} {run : Compile σ ω Fragment} {trace : Build σ ω → Trace σ ω}
    (htrace : Within objects t trace) :
    Within objects (.mk h o cs) (referTrace h here key settled run trace) := by
  intro b m hm key' hkey'
  have hself : objects.Leads (.mk h o cs) key := .here (.self hshape ht)
  rcases List.mem_append.1 hm with hm | hm
  · split at hm
    · cases hm
    · rcases List.mem_cons.1 hm with rfl | hm
      · cases hkey'; exact hself
      · exact .beyond (.self hshape ht) (htrace b m hm key' hkey')
  · unfold onward at hm
    split at hm
    · obtain rfl := List.mem_singleton.1 hm
      cases hkey'; exact hself
    · cases hm

/-- What happens at references by name is within the objects. -/
def JumpsWithin (objects : Objects) (jump : Option (Routine σ ω)) : Prop :=
  ∀ r ∈ jump, ∀ s around fc, Within objects s (r.trace around fc s)

theorem within_byName {h : Heading} {o : Object} {cs : List Statement}
    (hjump : JumpsWithin objects jump) (hshape : h.shape = .reference)
    (ho : ∀ serial t, o ≠ .target serial t) (here : Option Location) (fc : Bool) :
    Within objects (.mk h o cs) (byNameTrace objects jump h here fc) := by
  unfold byNameTrace
  split
  · next t routine hfind =>
    have ht : (Statement.mk h o cs).target? objects =
        some (⟨t.kind, .named (h.name.getD "")⟩, t) := by
      cases o with
      | target serial t' => exact absurd rfl (ho serial t')
      | empty => simp [Statement.target?, hfind]
      | stage handle => simp [Statement.target?, hfind]
    exact within_refer hshape ht (hjump routine rfl t here fc)
  · exact within_nil

mutual

theorem within_statement (hjump : JumpsWithin objects jump) :
    ∀ (s : Statement) around fc, Within objects s (statementTrace objects jump around fc s)
  | .mk h o cs, around, fc => by
    rw [statementTrace]
    cases hshape : h.shape with
    | single => exact within_single h _ o
    | reference => exact within_reference hjump o h cs hshape _ fc
    | sequence =>
      show Within objects _ (if h.flags.catchAll then _ else _)
      split
      · exact within_nil
      · intro b m hm key hkey
        obtain ⟨s, hs, hl⟩ := leads_chain hjump cs _ fc {} b m hm key hkey
        exact hl.child hs
    | junction =>
      intro b m hm key hkey
      obtain ⟨s, hs, hl⟩ := leads_branching hjump cs _ fc {} b m hm key hkey
      exact hl.child hs

theorem within_reference (hjump : JumpsWithin objects jump) :
    ∀ (o : Object) h cs, h.shape = .reference → ∀ here fc,
      Within objects (.mk h o cs) (referenceTrace objects jump h here fc o)
  | .empty, h, cs, hshape, here, fc => by
    rw [referenceTrace]
    exact within_byName hjump hshape (fun _ _ => by simp) here fc
  | .stage _, h, cs, hshape, here, fc => by
    rw [referenceTrace]
    exact within_byName hjump hshape (fun _ _ => by simp) here fc
  | .target serial t, h, cs, hshape, here, fc => by
    rw [referenceTrace]
    exact within_refer hshape rfl (within_statement hjump t here fc)

theorem leads_chain (hjump : JumpsWithin objects jump) :
    ∀ (ss : List Statement) here fc c b, ∀ m ∈ chainTrace objects jump here fc c ss b,
      ∀ key ∈ m.key?, ∃ s ∈ ss, objects.Leads s key
  | [], here, fc, c, b, m, hm, key, hkey => by
    rw [chainTrace] at hm
    cases hm
  | s :: ss, here, fc, c, b, m, hm, key, hkey => by
    rw [chainTrace] at hm
    rcases List.mem_append.1 hm with hm | hm
    · exact ⟨s, by simp, within_statement hjump s here _ b m hm key hkey⟩
    · unfold onward at hm
      split at hm
      · obtain ⟨s', hs', hl⟩ := leads_chain hjump ss here fc _ _ m hm key hkey
        exact ⟨s', by simp [hs'], hl⟩
      · cases hm

theorem leads_branching (hjump : JumpsWithin objects jump) :
    ∀ (ss : List Statement) here fc j b, ∀ m ∈ branchingTrace objects jump here fc j ss b,
      ∀ key ∈ m.key?, ∃ s ∈ ss, objects.Leads s key
  | [], here, fc, j, b, m, hm, key, hkey => by
    rw [branchingTrace] at hm
    cases hm
  | s :: ss, here, fc, j, b, m, hm, key, hkey => by
    rw [branchingTrace] at hm
    rcases List.mem_append.1 hm with hm | hm
    · exact ⟨s, by simp, within_statement hjump s here _ b m hm key hkey⟩
    · unfold onward at hm
      split at hm
      · obtain ⟨s', hs', hl⟩ := leads_branching hjump ss here fc _ _ m hm key hkey
        exact ⟨s', by simp [hs'], hl⟩
      · cases hm

end

theorem within_upTo (depth : Nat) : ∀ (s : Statement) around fc,
    Within objects s (upToTrace objects depth around fc s : Build σ ω → Trace σ ω) := by
  induction depth with
  | zero => exact within_statement fun _ h => by cases h
  | succ depth ih =>
    refine within_statement fun r h => ?_
    cases h
    exact ih

end Within

end Compile

end Routing
