import Routing.Compile.Compiler
import Routing.Graph.Snapshot
import Routing.Template
/-!
# Deployments

A deployment is a configuration in operation: it is compiled once, then started and stopped, and
released in the end. A stage is started only when it is not running and stopped only when it is;
what fails on the way does not change that.
-/

namespace Routing

/-- A configuration in operation. -/
structure Deployment (σ ω : Type) where
  catalog : Catalog
  templates : Templates := {}
  settings : Settings := {}
  build : Build σ ω
  status : Status := .uncompiled
  /-- What happened, the oldest first. -/
  events : List Event := []

namespace Deployment

variable {σ ω : Type}

def graph (d : Deployment σ ω) : Graph :=
  d.build.graph

def pool (d : Deployment σ ω) : Pool σ ω :=
  d.build.pool

def log (d : Deployment σ ω) (events : List Event) : Deployment σ ω :=
  { d with events := d.events ++ events }

def modifySlot (d : Deployment σ ω) (id : SlotId) (f : Slot → Slot) : Deployment σ ω :=
  { d with build := { d.build with graph := d.build.graph.modify id f } }

/-- The deployment with its pool as it is after a call on a stage. -/
def setPool (d : Deployment σ ω) (pool : Pool σ ω) : Deployment σ ω :=
  { d with build := { d.build with pool } }

/-- The deployment with one more statement, and whether an object lost its place to it. -/
def register (d : Deployment σ ω) (s : Statement) : Option Duplicate × Deployment σ ω :=
  let d := if d.status = .uncompiled then d else d.log [.lateStatement d.status]
  let (duplicate, catalog) := d.catalog.register s
  let d := { d with catalog }
  match duplicate with
  | none => (none, d)
  | some dup =>
    let key : TargetKey := ⟨dup.kind, .named dup.name⟩
    let memos := d.build.memos.filter fun (k, _) => k ≠ key
    (some dup, { d with build := { d.build with memos } }.log [.duplicateObject dup none])

variable [Stage σ ω]

/-! ### Compiling -/

/-- Has a compiler compile rules up to the first that fails: the rules afterwards, and the number of the
rule that failed with its error. -/
def compileEach (objects : Objects) :
    Nat → List Statement → Compiler σ ω →
      (Option (Nat × CompileError) × List Statement) × Compiler σ ω
  | _, [], c => ((none, []), c)
  | i, rule :: rest, c =>
    match (Compiling.rule objects rule).run c with
    | (.error e, c) => ((some (i, e), rule.expandCatchAll objects :: rest), c)
    | (.ok _, c) =>
      let ((result, rest), c) := compileEach objects (i + 1) rest c
      ((result, rule.expandCatchAll objects :: rest), c)

/-- Compiles rules with one compiler, up to the first that fails. -/
def compileRules (objects : Objects) (i : Nat) (rules : List Statement) (b : Build σ ω) :
    (Option (Nat × CompileError) × List Statement) × Build σ ω :=
  let (result, c) := compileEach objects i rules { build := b }
  (result, c.build)

/-- Compiles the rules, unless that was done before. -/
def compileNow (d : Deployment σ ω) : Except CompileError Unit × Deployment σ ω :=
  let ((result, rules), build) := compileRules d.catalog.objects 0 d.catalog.rules d.build
  let d := { d with build, catalog := { d.catalog with rules } }
  match result with
  | none => (.ok (), { d with status := .compiled })
  | some (i, e) => (.error e, { d with status := .failed e }.log [.ruleRejected e i])

/-- Compiles the rules once; an error is final. -/
def compile (d : Deployment σ ω) : Except CompileError Unit × Deployment σ ω :=
  match d.status with
  | .uncompiled => d.compileNow
  | .failed e => (.error e, d)
  | _ => (.ok (), d)

/-! ### Starting -/

/-- What a failed stage is called in messages. -/
def failure (d : Deployment σ ω) (id : SlotId) (handle : Handle) (error : StageError) :
    StageFailure :=
  ⟨id, d.pool.label handle, error⟩

def startSlot (d : Deployment σ ω) (id : SlotId) (s : Slot) :
    Option StageFailure × Deployment σ ω :=
  let (result, events, pool) := d.pool.init d.settings s.handle
  let d := (d.setPool pool).log events
  match result with
  | .ok _ => (none, d.modifySlot id fun s => { s with initialized := true })
  | .error e =>
    let f := d.failure id s.handle e
    (some f, d.log [.stageNotStarted f])

/-- Starts the stages that are not running, in order, up to the first that fails. -/
def startSlots (d : Deployment σ ω) : List SlotId → Option StageFailure × Deployment σ ω
  | [] => (none, d)
  | id :: ids =>
    match d.graph.slot? id with
    | none => d.startSlots ids
    | some s =>
      if s.initialized then d.startSlots ids
      else
        match d.startSlot id s with
        | (some f, d) => (some f, d)
        | (none, d) => d.startSlots ids

/-- Compiles the rules if need be and starts all stages. -/
def start (d : Deployment σ ω) : Except StartError Unit × Deployment σ ω :=
  match d.compile with
  | (.error e, d) => (.error (.compile e), d)
  | (.ok _, d) =>
    if d.status = .started then (.ok (), d)
    else
      match d.startSlots (List.range d.graph.size) with
      | (some f, d) => (.error (.stage f), d)
      | (none, d) => (.ok (), { d with status := .started })

/-! ### Stopping -/

/-- Stops one stage; it does not count as running any more even if it fails. -/
def stopSlot (d : Deployment σ ω) (id : SlotId) (s : Slot) :
    Option StageFailure × Deployment σ ω :=
  let (result, events, pool) := d.pool.deinit s.handle
  let d := (d.modifySlot id fun s => { s with initialized := false }).setPool pool |>.log events
  match result with
  | .ok _ => (none, d)
  | .error e =>
    let f := d.failure id s.handle e
    (some f, d.log [.stageNotStopped f])

/-- Stops the stages that are running, in order, and lists those that fail. -/
def stopSlots (d : Deployment σ ω) : List SlotId → List StageFailure × Deployment σ ω
  | [] => ([], d)
  | id :: ids =>
    match d.graph.slot? id with
    | none => d.stopSlots ids
    | some s =>
      if s.initialized then
        let (failed, d) := d.stopSlot id s
        let (failures, d) := d.stopSlots ids
        (failed.toList ++ failures, d)
      else d.stopSlots ids

def stop (d : Deployment σ ω) : Except StopError Unit × Deployment σ ω :=
  let (failures, d) := d.stopSlots (List.range d.graph.size)
  let d := if d.status = .started then { d with status := .stopped } else d
  if failures.isEmpty then (.ok (), d) else (.error ⟨failures⟩, d)

/-! ### Releasing -/

def isRunning (d : Deployment σ ω) : Bool :=
  d.graph.slots.any (·.initialized)

/-- The deployment at its end: what is still running has been stopped. -/
def release (d : Deployment σ ω) : Deployment σ ω :=
  if d.isRunning then
    match (d.log [.releasedWhileRunning]).stop with
    | (.ok _, d) => d
    | (.error e, d) => d.log [.releaseFailed e]
  else d

/-! ### Views -/

def snapshot (d : Deployment σ ω) : Snapshot :=
  Snapshot.capture d.pool.label d.graph

/-- Hands a message to the stage of a slot; nothing if there is no such slot. -/
def queue (d : Deployment σ ω) (id : SlotId) (message : Message) :
    Option (Verdict × Message) × Deployment σ ω :=
  match d.graph.slot? id with
  | none => (none, d)
  | some s =>
    let (result, events, pool) := d.pool.queue message s.handle
    (some result, (d.setPool pool).log events)

/-- The rules with what their targets were compiled to. -/
def rules (d : Deployment σ ω) : List Statement :=
  Statement.allWithMemos d.build.memos d.catalog.rules

/-- The object with this key, with what it was compiled to. -/
def resolve (d : Deployment σ ω) (key : ObjectKey) : Option Statement :=
  (d.catalog.objects.find? key).map (Statement.objectWithMemos d.build.memos key)

end Deployment

end Routing
