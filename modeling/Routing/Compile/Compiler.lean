import Routing.Compile.Statement
/-!
# The compiler

Errors and stages say where a statement is written, and a statement without a known location counts as
written where the closest statement around it is that has one. A compiler therefore keeps the locations
of the statements that it is in. It enters a statement to compile it and leaves it afterwards, also when
that failed, and it goes on with what it keeps from call to call. What it does to the graph, the pool and
the memory are the steps of `Compile`.
-/

namespace Routing

/-- A compiler, in a call or between calls. -/
structure Compiler (σ ω : Type) where
  build : Build σ ω
  /-- The own locations of the statements that the compiler is in, the innermost first. -/
  scope : List (Option Location) := []

namespace Compiler

variable {σ ω : Type}

/-- The location of the innermost statement that has one. -/
def around (c : Compiler σ ω) : Option Location :=
  c.scope.findSome? id

def enter (own : Option Location) (c : Compiler σ ω) : Compiler σ ω :=
  { c with scope := own :: c.scope }

def leave (c : Compiler σ ω) : Compiler σ ω :=
  { c with scope := c.scope.tail }

end Compiler

/-- A step of a compiler. -/
abbrev Compiling (σ ω : Type) := ExceptT CompileError (StateM (Compiler σ ω))

namespace Compiling

variable {σ ω α : Type}

/-! ### Locations -/

/-- A step that does not depend on where the compiler is. -/
def lift (x : Compile σ ω α) : Compiling σ ω α := ExceptT.mk fun c =>
  let (result, build) := x.run c.build
  (result, { c with build })

/-- Goes on inside a statement with this location, and leaves it also when that fails. -/
def inside (own : Option Location) (x : Compiling σ ω α) : Compiling σ ω α := ExceptT.mk do
  modify (Compiler.enter own)
  let result ← x.run
  modify Compiler.leave
  return result

/-- The own location of a statement, or else that of the innermost statement around it that has one. -/
def locate (h : Heading) : Compiling σ ω (Option Location) := do
  return h.located.or (← get).around

def describe (h : Heading) : Compiling σ ω Descriptor := do
  return h.describe (← locate h)

variable [Stage σ ω]

/-! ### Single statements -/

def single (h : Heading) (object : Object) : Compiling σ ω Fragment := do
  lift (Compile.single h (← locate h) object)

/-! ### References -/

/-- What a target is compiled to; it is compiled at the first reference. -/
def once (h : Heading) (key : TargetKey) (settled : Option SlotId)
    (run : Compiling σ ω (Option SlotId)) : Compiling σ ω SlotId := do
  match ← lift (Compile.remembered key settled) with
  | some id => return id
  | none =>
    match ← run with
    | some id => do lift (Compile.remember key id); return id
    | none => throw (Compile.emptyObject h (← locate h))

/-- Joins a reference to its target; `run` compiles the target. -/
def referTo (h : Heading) (key : TargetKey) (settled : Option SlotId)
    (run : Compiling σ ω Fragment) : Compiling σ ω Fragment := do
  match key.kind with
  | .source =>
    let tail ← once h key settled (return (← run).tail)
    let fork ← lift (Compile.sourceFork tail (← describe h))
    let attach ← lift Compile.addAttach
    lift (Compile.addHop fork attach)
    return ⟨none, some attach⟩
  | .destination =>
    let head ← once h key settled (return (← run).head)
    let fork ← lift Compile.addMultiplexer
    lift (Compile.addHop fork head)
    return ⟨some fork, none⟩
  | _ => run

/-! ### All statements -/

/-- Compiles a statement, given whether flow control holds around it. -/
abbrev Run (σ ω : Type) := Bool → Statement → Compiling σ ω Fragment

/-- Compiles a reference by name; without `jump` the references are nested too deep, which only
happens when an object refers to itself. -/
def byName (objects : Objects) (jump : Option (Run σ ω)) (h : Heading) (flowControl : Bool) :
    Compiling σ ω Fragment := do
  let name := h.name.getD ""
  match objects.find? ⟨h.kind, name⟩ with
  | none => throw (.unresolvedReference h.kind name (Location.textOf (← locate h)))
  | some target =>
    match jump with
    | none => throw (.circularReference h.kind name (Location.textOf (← locate h)))
    | some run =>
      referTo h ⟨target.kind, .named name⟩ target.heading.memo (run flowControl target)

mutual

/-- Compiles a statement. -/
def statement (objects : Objects) (jump : Option (Run σ ω)) (flowControl : Bool) :
    Statement → Compiling σ ω Fragment
  | .mk h object children => inside h.located <|
    match h.shape with
    | .single => single h object
    | .reference => reference objects jump h flowControl object
    | .sequence => do
      if h.flags.catchAll then throw (.nestedCatchAll (← describe h))
      else do
        let c ← chain objects jump flowControl {} children
        lift (c.finish h.flags flowControl)
    | .junction => do
      let j ← branching objects jump flowControl {} children
      lift (j.finish h.flags flowControl)

/-- Compiles a reference to what it holds, or else by name. -/
def reference (objects : Objects) (jump : Option (Run σ ω)) (h : Heading) (flowControl : Bool) :
    Object → Compiling σ ω Fragment
  | .empty => byName objects jump h flowControl
  | .stage _ => byName objects jump h flowControl
  | .target serial target =>
    referTo h ⟨target.kind, .inline serial⟩ target.heading.memo
      (statement objects jump flowControl target)

-- a child is described after it was left, inside the statement that it is a child of

def chain (objects : Objects) (jump : Option (Run σ ω)) (flowControl : Bool)
    (c : Compile.Chain) : List Statement → Compiling σ ω Compile.Chain
  | [] => return c
  | s :: ss => do
    let f ← statement objects jump (flowControl || s.flags.flowControl) s
    let c ← lift (c.add (← describe s.heading) f)
    chain objects jump flowControl c ss

def branching (objects : Objects) (jump : Option (Run σ ω)) (flowControl : Bool)
    (j : Compile.Branching) : List Statement → Compiling σ ω Compile.Branching
  | [] => return j
  | s :: ss => do
    let f ← statement objects jump (flowControl || s.flags.flowControl) s
    let j ← lift (j.add (← describe s.heading) f)
    branching objects jump flowControl j ss

end

/-- How the targets of references by name are compiled that may be nested so deep. -/
def below (objects : Objects) : Nat → Option (Run σ ω)
  | 0 => none
  | depth + 1 => some (statement objects (below objects depth))

/-- Compiles a statement. References by name cannot be nested deeper than there are objects, unless
an object refers to itself. -/
def node (objects : Objects) (flowControl : Bool) (s : Statement) : Compiling σ ω Fragment :=
  statement objects (below objects objects.length) flowControl s

def rule (objects : Objects) (s : Statement) : Compiling σ ω Fragment :=
  node objects false (s.expandCatchAll objects)

end Compiling

end Routing
