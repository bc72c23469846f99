import Routing.Compile.Basic
/-!
# Compiling statements

A single statement becomes one stage, a sequence a chain of stages, and a junction a fork and a
join. References share sources and destinations: a source is compiled once and feeds a multiplexer
with one attach point for each reference, and a destination is compiled once and fed by one
multiplexer for each reference. Filters, parsers and rewrites are compiled again for each reference.

A statement is told here where the statement around it counts as written. A `Compiler` takes the same
steps and finds out by itself.
-/

namespace Routing

namespace Compile

variable {σ ω : Type} [Stage σ ω]

/-! ### Single statements -/

/-- The origin of a stage that a statement declares. -/
def originOf (h : Heading) (here : Option Location) : StageOrigin :=
  ⟨h.kind, h.name, Location.textOf here⟩

/-- Finds a stage to put in place: the declared one at its first use, a clone of it later. -/
def claim (handle : Handle) (node : Descriptor) : Compile σ ω (Handle × Role) := do
  if (← get).pool.isInlined handle then
    match ← cloneStage handle with
    | some copy => do markInlined copy; return (copy, .cloned)
    | none => throw (.cloneRefused node)
  else do markInlined handle; return (handle, .declared)

/-- Compiles a single statement. A source has no head. -/
def single (h : Heading) (here : Option Location) : Object → Compile σ ω Fragment
  | .stage handle => do
    let (handle, role) ← claim handle (h.describe here)
    let id ← place handle role (some (originOf h here))
    let head := if ((← graph).capabilities id).isSource then none else some id
    return ⟨head, some id⟩
  | _ => throw (.missingStage (h.describe here))

/-! ### References -/

/-- The error of a reference to an object without a usable end. -/
def emptyObject (h : Heading) (here : Option Location) : CompileError :=
  .emptyObject h.kind h.displayName (Location.textOf here)

/-- What a target is compiled to; it is compiled at the first reference. -/
def once (key : TargetKey) (settled : Option SlotId) (failure : CompileError)
    (run : Compile σ ω (Option SlotId)) : Compile σ ω SlotId := do
  match ← remembered key settled with
  | some id => return id
  | none =>
    match ← run with
    | some id => do remember key id; return id
    | none => throw failure

def sourceFork (tail : SlotId) (node : Descriptor) : Compile σ ω SlotId := do
  let g ← graph
  match g.next? tail with
  | none => do
    let fork ← addMultiplexer
    link tail fork node
    return fork
  | some next =>
    if g.role? next = some .multiplexer then return next
    else throw (.inconsistent node (.sourceWithoutFork tail next))

/-- Joins a reference to its target; `run` compiles the target. -/
def referTo (h : Heading) (here : Option Location) (key : TargetKey) (settled : Option SlotId)
    (run : Compile σ ω Fragment) : Compile σ ω Fragment := do
  match key.kind with
  | .source =>
    let tail ← once key settled (emptyObject h here) (return (← run).tail)
    let fork ← sourceFork tail (h.describe here)
    let attach ← addAttach
    addHop fork attach
    return ⟨none, some attach⟩
  | .destination =>
    let head ← once key settled (emptyObject h here) (return (← run).head)
    let fork ← addMultiplexer
    addHop fork head
    return ⟨some fork, none⟩
  | _ => run

/-! ### Sequences -/

/-- A sequence while its children are compiled. -/
structure Chain where
  /-- The head of the first child that has one. -/
  first : Option SlotId := none
  /-- The stage that the next child is linked to. -/
  last : Option SlotId := none
  /-- The point where the sources in front meet. -/
  join : Option SlotId := none
  /-- A child that is not a source has come. -/
  pastSources : Bool := false
  changesMessage : Bool := false
  flowControl : Bool := false
  deriving DecidableEq, Repr

/-- The point where the sources of a chain meet. -/
def Chain.joinPoint (c : Chain) : Compile σ ω (SlotId × Chain) := do
  match c.join with
  | some join => return (join, c)
  | none => do
    let join ← addJoin
    return (join, { c with join := some join, last := some join })

/-- Adds a child with a head to a chain. -/
def Chain.addStage (c : Chain) (node : Descriptor) (head : SlotId) (tail : Option SlotId) :
    Compile σ ω Chain := do
  let caps := (← graph).capabilities head
  match c.last with
  | some last => link last head node
  | none => pure ()
  let g ← graph
  return { c with
    first := if c.last.isNone then some head else c.first
    last := some (tail.getD (g.terminal head))
    pastSources := true
    changesMessage := c.changesMessage || caps.changesMessage
    flowControl := c.flowControl || caps.hardFlowControl }

/-- Adds a child that starts with a source to a chain. -/
def Chain.addSource (c : Chain) (node : Descriptor) (tail : SlotId) : Compile σ ω Chain := do
  if c.pastSources then throw (.sourceMustBeFirst node)
  else do
    let (join, c) ← c.joinPoint
    link tail join node
    return c

def Chain.add (c : Chain) (node : Descriptor) : Fragment → Compile σ ω Chain
  | ⟨some head, tail⟩ => c.addStage node head tail
  | ⟨none, some tail⟩ => c.addSource node tail
  | ⟨none, none⟩ => return c

/-- The capabilities that a sequence adds to its head. -/
def Chain.headCapabilities (c : Chain) (flags : Flags) (flowControl : Bool) : Capabilities where
  branchFallback := flags.fallback
  branchFinal := flags.final
  changesMessage := c.changesMessage
  hardFlowControl := flags.flowControl || c.flowControl || flowControl

def Chain.finish (c : Chain) (flags : Flags) (flowControl : Bool) : Compile σ ω Fragment := do
  match c.first with
  | some head =>
    modifyGraph fun g => g.insertCapabilities head (c.headCapabilities flags flowControl)
  | none => pure ()
  return ⟨c.first, c.last⟩

/-! ### Junctions -/

/-- A junction while its branches are compiled. -/
structure Branching where
  /-- The point where messages fork. -/
  fork : Option SlotId := none
  /-- The point where the branches meet. -/
  join : Option SlotId := none
  /-- A branch without a head has come. -/
  headless : Bool := false
  flowControl : Bool := false
  deriving DecidableEq, Repr

/-- The point where the messages of a junction fork. -/
def Branching.forkPoint (j : Branching) : Compile σ ω (SlotId × Branching) := do
  match j.fork with
  | some fork => return (fork, j)
  | none => do
    let fork ← addMultiplexer
    return (fork, { j with fork := some fork })

/-- The point where the branches of a junction meet. -/
def Branching.joinPoint (j : Branching) : Compile σ ω (SlotId × Branching) := do
  match j.join with
  | some join => return (join, j)
  | none => do
    let join ← addJoin
    return (join, { j with join := some join })

/-- Adds the head of a branch, or notes that it has none. -/
def Branching.addHead (j : Branching) (node : Descriptor) :
    Option SlotId → Compile σ ω Branching
  | some head => do
    if j.headless then throw (.mixedBranches node)
    else do
      let (fork, j) ← j.forkPoint
      addHop fork head
      let caps := (← graph).capabilities head
      return { j with flowControl := j.flowControl || caps.hardFlowControl }
  | none => do
    if j.fork.isSome then throw (.mixedBranches node)
    else return { j with headless := true }

/-- Adds the tail of a branch, if it has one. -/
def Branching.addTail (j : Branching) (node : Descriptor) :
    Option SlotId → Compile σ ω Branching
  | some tail => do
    let (join, j) ← j.joinPoint
    link tail join node
    return j
  | none => return j

def Branching.add (j : Branching) (node : Descriptor) (f : Fragment) :
    Compile σ ω Branching := do
  let j ← j.addHead node f.head
  j.addTail node f.tail

def Branching.finish (j : Branching) (flags : Flags) (flowControl : Bool) :
    Compile σ ω Fragment := do
  match j.fork with
  | some fork =>
    if flags.flowControl || j.flowControl || flowControl then
      modifyGraph fun g => g.insertCapabilities fork { hardFlowControl := true }
    else pure ()
  | none => pure ()
  return ⟨j.fork, j.join⟩

/-! ### All statements -/

/-- Compiles a statement, given where the statement around it counts as written and whether flow
control holds around it. -/
abbrev Run (σ ω : Type) := Option Location → Bool → Statement → Compile σ ω Fragment

/-- Compiles a reference by name; without `jump` the references are nested too deep, which only
happens when an object refers to itself. -/
def byName (objects : Objects) (jump : Option (Run σ ω)) (h : Heading) (here : Option Location)
    (flowControl : Bool) : Compile σ ω Fragment := do
  let name := h.name.getD ""
  match objects.find? ⟨h.kind, name⟩ with
  | none => throw (.unresolvedReference h.kind name (Location.textOf here))
  | some target =>
    match jump with
    | none => throw (.circularReference h.kind name (Location.textOf here))
    | some run =>
      referTo h here ⟨target.kind, .named name⟩ target.heading.memo (run here flowControl target)

mutual

/-- Compiles a statement. A statement without a known location counts as written where the statement
around it is. -/
def statement (objects : Objects) (jump : Option (Run σ ω)) (around : Option Location)
    (flowControl : Bool) : Statement → Compile σ ω Fragment
  | .mk h object children =>
    let here := h.located.or around
    match h.shape with
    | .single => single h here object
    | .reference => reference objects jump h here flowControl object
    | .sequence => do
      if h.flags.catchAll then throw (.nestedCatchAll (h.describe here))
      else do
        let c ← chain objects jump here flowControl {} children
        c.finish h.flags flowControl
    | .junction => do
      let j ← branching objects jump here flowControl {} children
      j.finish h.flags flowControl

/-- Compiles a reference to what it holds, or else by name. -/
def reference (objects : Objects) (jump : Option (Run σ ω)) (h : Heading) (here : Option Location)
    (flowControl : Bool) : Object → Compile σ ω Fragment
  | .empty => byName objects jump h here flowControl
  | .stage _ => byName objects jump h here flowControl
  | .target serial target =>
    referTo h here ⟨target.kind, .inline serial⟩ target.heading.memo
      (statement objects jump here flowControl target)

def chain (objects : Objects) (jump : Option (Run σ ω)) (here : Option Location)
    (flowControl : Bool) (c : Chain) : List Statement → Compile σ ω Chain
  | [] => return c
  | s :: ss => do
    let f ← statement objects jump here (flowControl || s.flags.flowControl) s
    let c ← c.add (s.heading.describe (s.located.or here)) f
    chain objects jump here flowControl c ss

def branching (objects : Objects) (jump : Option (Run σ ω)) (here : Option Location)
    (flowControl : Bool) (j : Branching) : List Statement → Compile σ ω Branching
  | [] => return j
  | s :: ss => do
    let f ← statement objects jump here (flowControl || s.flags.flowControl) s
    let j ← j.add (s.heading.describe (s.located.or here)) f
    branching objects jump here flowControl j ss

end

/-- Compiles a statement with references by name nested at most so deep. -/
def upTo (objects : Objects) : Nat → Run σ ω
  | 0 => statement objects none
  | depth + 1 => statement objects (some (upTo objects depth))

/-- Compiles a statement. References by name cannot be nested deeper than there are objects, unless
an object refers to itself. -/
def node (objects : Objects) (flowControl : Bool) (s : Statement) : Compile σ ω Fragment :=
  upTo objects objects.length none flowControl s

def rule (objects : Objects) (s : Statement) : Compile σ ω Fragment :=
  node objects false (s.expandCatchAll objects)

end Compile

/-! ### What is remembered -/

mutual

/-- The statement with what its targets were compiled to. -/
def Statement.withMemos (memos : List (TargetKey × SlotId)) : Statement → Statement
  | .mk h object children => .mk h (object.withMemos memos) (Statement.allWithMemos memos children)

/-- What a statement holds, with what it was compiled to. -/
def Object.withMemos (memos : List (TargetKey × SlotId)) : Object → Object
  | .empty => .empty
  | .stage handle => .stage handle
  | .target serial s =>
    let memo := (memos.lookup ⟨s.kind, .inline serial⟩).or s.heading.memo
    .target serial ((s.withMemos memos).setMemo memo)

/-- The statements with what their targets were compiled to. -/
def Statement.allWithMemos (memos : List (TargetKey × SlotId)) : List Statement → List Statement
  | [] => []
  | s :: ss => s.withMemos memos :: Statement.allWithMemos memos ss

end

/-- The object with what it and its targets were compiled to. -/
def Statement.objectWithMemos (memos : List (TargetKey × SlotId)) (key : ObjectKey)
    (s : Statement) : Statement :=
  let memo := (memos.lookup ⟨key.kind, .named key.name⟩).or s.heading.memo
  (s.withMemos memos).setMemo memo

end Routing
