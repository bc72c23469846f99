import Routing.Proofs.Compile.Scope
import Routing.Proofs.Compile.Unplaced
/-!
# What a compiler is in

A `Visit` is a compiler that is about to compile a statement, and a route leads from a call to the
visits that the compiler makes in the course of it. On the way to a statement the compiler enters the
statements of the route and no others, so that the innermost location is that of the closest located
statement. After a call it is in no statement, whether the call failed or not.
-/

namespace Routing

variable {σ ω : Type}

/-- A compiler that is about to compile a statement. -/
structure Visit (σ ω : Type) where
  /-- How deep references by name may be nested. -/
  depth : Nat
  flowControl : Bool
  statement : Statement
  compiler : Compiler σ ω

namespace Visit

/-- The compiler in the statement. -/
def inner (v : Visit σ ω) : Compiler σ ω :=
  v.compiler.enter v.statement.located

/-- The visit of a child, to which the compiler has come. -/
def child (v : Visit σ ω) (s : Statement) (c : Compiler σ ω) : Visit σ ω :=
  ⟨v.depth, v.flowControl || s.flags.flowControl, s, c⟩

/-- The visit without the statements around. -/
def task (v : Visit σ ω) : Compile.Task σ ω :=
  ⟨v.depth, v.compiler.around, v.flowControl, v.statement, v.compiler.build⟩

theorem around_inner (v : Visit σ ω) : v.inner.around = v.task.located :=
  Compiling.around_enter ..

variable [Stage σ ω] {objects : Objects} {v v' : Visit σ ω} {k : Compile.Task σ ω}
  {path : List Statement} {e : CompileError}

/-- What compiling the statement gives, and the compiler afterwards. -/
def result (objects : Objects) (v : Visit σ ω) : Except CompileError Fragment × Compiler σ ω :=
  (Compiling.statement objects (Compiling.below objects v.depth) v.flowControl v.statement).run
    v.compiler

/-- In the one visit the compiler makes the other. -/
inductive Calls (objects : Objects) (v : Visit σ ω) : Visit σ ω → Prop
  | sequence {pre post : List Statement} {s : Statement} {ch : Compile.Chain} {c : Compiler σ ω}
    (hshape : v.statement.shape = .sequence) (hall : v.statement.flags.catchAll = false)
    (hcs : v.statement.children = pre ++ s :: post)
    (hrun : (Compiling.chain objects (Compiling.below objects v.depth) v.flowControl {} pre).run
      v.inner = (.ok ch, c)) :
    Calls objects v (v.child s c)
  | junction {pre post : List Statement} {s : Statement} {j : Compile.Branching} {c : Compiler σ ω}
    (hshape : v.statement.shape = .junction) (hcs : v.statement.children = pre ++ s :: post)
    (hrun : (Compiling.branching objects (Compiling.below objects v.depth) v.flowControl {} pre).run
      v.inner = (.ok j, c)) :
    Calls objects v (v.child s c)
  | inline {serial : Nat} {t : Statement} (hshape : v.statement.shape = .reference)
    (ho : v.statement.object = .target serial t)
    (hnew : (⟨t.kind, .inline serial⟩ : TargetKey).Shared →
      (v.compiler.build.memos.lookup ⟨t.kind, .inline serial⟩).or t.heading.memo = none) :
    Calls objects v ⟨v.depth, v.flowControl, t, v.inner⟩
  | named {t : Statement} {depth : Nat} (hdepth : v.depth = depth + 1)
    (hshape : v.statement.shape = .reference) (ho : ∀ serial t, v.statement.object ≠ .target serial t)
    (hfind : objects.find? ⟨v.statement.kind, v.statement.name.getD ""⟩ = some t)
    (hnew : (⟨t.kind, .named (v.statement.name.getD "")⟩ : TargetKey).Shared →
      (v.compiler.build.memos.lookup ⟨t.kind, .named (v.statement.name.getD "")⟩).or
        t.heading.memo = none) :
    Calls objects v ⟨depth, v.flowControl, t, v.inner⟩

/-- The statements on the way from a visit to one that the compiler makes in the course of it, from the
outside in. -/
inductive Route (objects : Objects) (v : Visit σ ω) : List Statement → Visit σ ω → Prop
  | start : Route objects v [v.statement] v
  | call {path : List Statement} {v' v'' : Visit σ ω} (h : Route objects v path v')
    (hcall : v'.Calls objects v'') : Route objects v (path ++ [v''.statement]) v''

/-- In the visit a child is compiled, but adding it to those before it fails. -/
inductive Rejects (objects : Objects) (v : Visit σ ω) : Visit σ ω → CompileError → Prop
  | sequence {pre post : List Statement} {s : Statement} {ch : Compile.Chain} {f : Fragment}
    {e : CompileError} {c c₁ c₂ : Compiler σ ω} (hshape : v.statement.shape = .sequence)
    (hall : v.statement.flags.catchAll = false) (hcs : v.statement.children = pre ++ s :: post)
    (hrun : (Compiling.chain objects (Compiling.below objects v.depth) v.flowControl {} pre).run
      v.inner = (.ok ch, c)) (hchild : (v.child s c).result objects = (.ok f, c₁))
    (hadd : (Compiling.describe s.heading >>= fun node => Compiling.lift (ch.add node f)).run c₁ =
      (.error e, c₂)) :
    Rejects objects v (v.child s c) e
  | junction {pre post : List Statement} {s : Statement} {j : Compile.Branching} {f : Fragment}
    {e : CompileError} {c c₁ c₂ : Compiler σ ω} (hshape : v.statement.shape = .junction)
    (hcs : v.statement.children = pre ++ s :: post)
    (hrun : (Compiling.branching objects (Compiling.below objects v.depth) v.flowControl {} pre).run
      v.inner = (.ok j, c)) (hchild : (v.child s c).result objects = (.ok f, c₁))
    (hadd : (Compiling.describe s.heading >>= fun node => Compiling.lift (j.add node f)).run c₁ =
      (.error e, c₂)) :
    Rejects objects v (v.child s c) e

/-- The visit fails by itself: all visits that are made in it succeed, and children can be added. -/
structure Faulty (objects : Objects) (v : Visit σ ω) (e : CompileError) : Prop where
  fails : (v.result objects).1 = .error e
  calls : ∀ v' e', v.Calls objects v' → (v'.result objects).1 ≠ .error e'
  adds : ∀ v' e', ¬ v.Rejects objects v' e'

/-- The statement at the end of the path is at fault: it fails by itself, or it is compiled but cannot be
added to the children before it. -/
def Blamed (objects : Objects) (v₀ : Visit σ ω) (path : List Statement) (v : Visit σ ω)
    (e : CompileError) : Prop :=
  v.Faulty objects e ∨ ∃ way parent, path = way ++ [v.statement] ∧ v₀.Route objects way parent ∧
    parent.Rejects objects v e

/-! ### Balance -/

theorem result_eq (objects : Objects) (v : Visit σ ω) : v.result objects =
    ((v.task.result objects).1, { v.compiler with build := (v.task.result objects).2 }) := by
  rw [result, Compiling.run_statement, Compiling.run_lift]
  rfl

/-- Where the compiler makes another visit it is in the statement that calls for it and in no other. -/
theorem Calls.scope_eq (h : v.Calls objects v') : v'.compiler.scope = v.inner.scope := by
  have hjump := Compiling.jumpsAlike_below (σ := σ) (ω := ω) objects v.depth
  cases h with
  | sequence hshape hall hcs hrun =>
    exact ((Compiling.amountsTo_chain hjump _ _ _ _).of_run rfl hrun).2
  | junction hshape hcs hrun =>
    exact ((Compiling.amountsTo_branching hjump _ _ _ _).of_run rfl hrun).2
  | inline hshape ho hnew => rfl
  | named hdepth hshape ho hfind hnew => rfl

/-- In the statement at the end of a route the compiler is in the statements of the route, and in those
that it was in before. -/
theorem Route.scope_eq (h : v.Route objects path v') :
    v'.inner.scope = (path.map Statement.located).reverse ++ v.compiler.scope := by
  induction h with
  | start => rfl
  | @call path v' v'' _ hcall ih =>
    have hinner : v''.inner.scope = v''.statement.located :: v'.inner.scope :=
      congrArg (v''.statement.located :: ·) hcall.scope_eq
    rw [hinner, ih, List.map_append, List.reverse_append]
    rfl

/-! ### Visits and tasks -/

omit [Stage σ ω] in
/-- What is visited in a statement is told the location of that statement. -/
theorem task_of_scope (h : v'.compiler.scope = v.inner.scope) : v'.task =
    ⟨v'.depth, v.task.located, v'.flowControl, v'.statement, v'.compiler.build⟩ := by
  have haround : v'.compiler.around = v.task.located :=
    (congrArg (List.findSome? id) h).trans v.around_inner
  rw [task, haround]

theorem Calls.task (h : v.Calls objects v') : v.task.Calls objects v'.task := by
  have hjump := Compiling.jumpsAlike_below (σ := σ) (ω := ω) objects v.depth
  rw [task_of_scope h.scope_eq]
  cases h with
  | sequence hshape hall hcs hrun =>
    have hrun' := ((Compiling.amountsTo_chain hjump _ _ _ _).of_run v.around_inner hrun).1
    exact .inl (.sequence hshape hall hcs hrun')
  | junction hshape hcs hrun =>
    have hrun' := ((Compiling.amountsTo_branching hjump _ _ _ _).of_run v.around_inner hrun).1
    exact .inl (.junction hshape hcs hrun')
  | inline hshape ho hnew => exact .inr (.inline hshape ho hnew)
  | named hdepth hshape ho hfind hnew => exact .inr (.named hdepth hshape ho hfind hnew)

theorem exists_calls (h : v.task.Calls objects k) : ∃ v', v.Calls objects v' ∧ v'.task = k := by
  have hjump := Compiling.jumpsAlike_below (σ := σ) (ω := ω) objects v.depth
  rcases h with h | h
  · cases h with
    | sequence hshape hall hcs hrun =>
      have hrun' := (Compiling.amountsTo_chain hjump _ _ _ _).run v.around_inner hrun
      exact ⟨_, .sequence hshape hall hcs hrun', task_of_scope rfl⟩
    | junction hshape hcs hrun =>
      have hrun' := (Compiling.amountsTo_branching hjump _ _ _ _).run v.around_inner hrun
      exact ⟨_, .junction hshape hcs hrun', task_of_scope rfl⟩
  · cases h with
    | inline hshape ho hnew => exact ⟨_, .inline hshape ho hnew, task_of_scope rfl⟩
    | named hdepth hshape ho hfind hnew =>
      exact ⟨_, .named hdepth hshape ho hfind hnew, task_of_scope rfl⟩

theorem Route.task (h : v.Route objects path v') : v.task.Route objects path v'.task := by
  induction h with
  | start => exact .start
  | call _ hcall ih => exact .call ih hcall.task

theorem exists_route (h : v.task.Route objects path k) : ∃ v', v.Route objects path v' ∧ v'.task = k := by
  induction h with
  | start => exact ⟨v, .start, rfl⟩
  | @call path k' k'' _ hcall ih =>
    obtain ⟨v', hroute, rfl⟩ := ih
    obtain ⟨v'', hcall', rfl⟩ := exists_calls hcall
    exact ⟨v'', hroute.call hcall', rfl⟩

theorem Rejects.calls (h : v.Rejects objects v' e) : v.Calls objects v' := by
  cases h with
  | sequence hshape hall hcs hrun _ _ => exact .sequence hshape hall hcs hrun
  | junction hshape hcs hrun _ _ => exact .junction hshape hcs hrun

/-- What comes of a child comes of its task, and then the compiler is in the statement around it. -/
theorem of_child {s : Statement} {c c₁ : Compiler σ ω} {f : Fragment}
    (hc : c.scope = v.inner.scope) (hchild : (v.child s c).result objects = (.ok f, c₁)) :
    (v.task.child s c.build).result objects = (.ok f, c₁.build) ∧ c₁.around = v.task.located := by
  have htask : (v.child s c).task = v.task.child s c.build := task_of_scope hc
  rw [result_eq, htask] at hchild
  obtain ⟨hok, rfl⟩ := Prod.mk.inj hchild
  exact ⟨Prod.ext hok rfl, (congrArg (List.findSome? id) hc).trans v.around_inner⟩

theorem exists_child {s : Statement} {c : Compiler σ ω} {f : Fragment} {b : Build σ ω}
    (hc : c.scope = v.inner.scope)
    (hchild : (v.task.child s c.build).result objects = (.ok f, b)) :
    ∃ c₁, (v.child s c).result objects = (.ok f, c₁) ∧ c₁.build = b ∧
      c₁.around = v.task.located := by
  have htask : (v.child s c).task = v.task.child s c.build := task_of_scope hc
  refine ⟨{ c with build := b }, ?_, rfl, (congrArg (List.findSome? id) hc).trans v.around_inner⟩
  rw [result_eq, htask, hchild]
  rfl

theorem Rejects.task (h : v.Rejects objects v' e) : v.task.Rejects objects v'.task e := by
  have hjump := Compiling.jumpsAlike_below (σ := σ) (ω := ω) objects v.depth
  rw [task_of_scope h.calls.scope_eq]
  cases h with
  | @sequence pre post s ch f e c c₁ c₂ hshape hall hcs hrun hchild hadd =>
    obtain ⟨hrun', hc⟩ := (Compiling.amountsTo_chain hjump _ _ _ _).of_run v.around_inner hrun
    obtain ⟨hchild', hc₁⟩ := of_child hc hchild
    have hadd' := (Compiling.AmountsTo.describe_lift s.heading (ch.add · f)).of_run hc₁ hadd
    exact .sequence hshape hall hcs hrun' hchild' hadd'.1
  | @junction pre post s j f e c c₁ c₂ hshape hcs hrun hchild hadd =>
    obtain ⟨hrun', hc⟩ := (Compiling.amountsTo_branching hjump _ _ _ _).of_run v.around_inner hrun
    obtain ⟨hchild', hc₁⟩ := of_child hc hchild
    have hadd' := (Compiling.AmountsTo.describe_lift s.heading (j.add · f)).of_run hc₁ hadd
    exact .junction hshape hcs hrun' hchild' hadd'.1

theorem exists_rejects (h : v.task.Rejects objects k e) :
    ∃ v', v.Rejects objects v' e ∧ v'.task = k := by
  have hjump := Compiling.jumpsAlike_below (σ := σ) (ω := ω) objects v.depth
  cases h with
  | @sequence pre post s b b₁ b₂ ch f e hshape hall hcs hrun hchild hadd =>
    have hrun' := (Compiling.amountsTo_chain hjump _ _ _ _).run v.around_inner hrun
    obtain ⟨c₁, hchild', rfl, hc₁⟩ := exists_child (c := { v.inner with build := b }) rfl hchild
    have hadd' := (Compiling.AmountsTo.describe_lift s.heading (ch.add · f)).run hc₁ hadd
    exact ⟨_, .sequence hshape hall hcs hrun' hchild' hadd', task_of_scope rfl⟩
  | @junction pre post s b b₁ b₂ j f e hshape hcs hrun hchild hadd =>
    have hrun' := (Compiling.amountsTo_branching hjump _ _ _ _).run v.around_inner hrun
    obtain ⟨c₁, hchild', rfl, hc₁⟩ := exists_child (c := { v.inner with build := b }) rfl hchild
    have hadd' := (Compiling.AmountsTo.describe_lift s.heading (j.add · f)).run hc₁ hadd
    exact ⟨_, .junction hshape hcs hrun' hchild' hadd', task_of_scope rfl⟩

theorem faulty_of_task (h : v.task.Faulty objects e) : v.Faulty objects e where
  fails := by
    rw [result_eq]
    exact h.fails
  calls v' e' hcall := by
    rw [result_eq]
    exact h.calls v'.task e' hcall.task
  adds v' e' hreject := h.adds v'.task e' hreject.task

/-- What is at fault for an error in `Compile` is at fault for it in the compiler. -/
theorem exists_blamed {v₀ : Visit σ ω} (hroute : v₀.task.Route objects path k)
    (h : v₀.task.Blamed objects path k e) :
    ∃ v, v₀.Route objects path v ∧ v.task = k ∧ v₀.Blamed objects path v e := by
  rcases h with h | ⟨way, parent, rfl, hway, hreject⟩
  · obtain ⟨v, hvisits, rfl⟩ := exists_route hroute
    exact ⟨v, hvisits, rfl, .inl (faulty_of_task h)⟩
  · obtain ⟨p, hvisits, rfl⟩ := exists_route hway
    obtain ⟨v, hrejects, rfl⟩ := exists_rejects hreject
    exact ⟨v, hvisits.call hrejects.calls, rfl, .inr ⟨way, p, rfl, hvisits, hrejects⟩⟩

/-- The compiler locates the statement at the end of a route alike while it is in the statement and when
it has left it: at the innermost location on the route. -/
theorem Route.locates (h : v.Route objects path v') (hv : v.compiler.around = none) :
    (Compiling.locate v'.statement.heading).run v'.inner =
        (.ok (Statement.nearest path), v'.inner) ∧
      (Compiling.locate v'.statement.heading).run (v'.result objects).2 =
        (.ok (Statement.nearest path), (v'.result objects).2) := by
  have hlocated : v'.statement.located.or v'.compiler.around = Statement.nearest path := by
    have hnearest := h.task.located
    rwa [show v.task.around = none from hv, Option.or_none] at hnearest
  constructor
  · have haround : v'.inner.around = v'.statement.located.or v'.compiler.around :=
      Compiling.around_enter ..
    have hinner : v'.statement.located.or v'.inner.around = Statement.nearest path := by
      rw [haround, ← Option.or_assoc, Option.or_self, hlocated]
    exact congrArg (fun l => (Except.ok l, v'.inner)) hinner
  · have hleft : (v'.result objects).2.around = v'.compiler.around :=
      congrArg (List.findSome? id) (Compiling.scope_statement ..)
    rw [← hleft] at hlocated
    exact congrArg (fun l => (Except.ok l, (v'.result objects).2)) hlocated

end Visit

/-! ### Calls -/

open Compile

variable [Stage σ ω]

/-- The statement that a compiler compiles in a call. -/
def Compile.Call.visit (objects : Objects) (c : Compiler σ ω) : Compile.Call → Visit σ ω
  | rule s => ⟨objects.length, false, s.expandCatchAll objects, c⟩
  | node flowControl s => ⟨objects.length, flowControl, s, c⟩

namespace Compiler

variable {objects : Objects} {calls : List Call} {pool : Pool σ ω} {c : Compiler σ ω}

theorem result_visit (call : Call) (c : Compiler σ ω) :
    (call.visit objects c).result objects = (call.compile objects).run c := by
  cases call <;> rfl

omit [Stage σ ω] in
theorem compiler_visit (call : Call) (c : Compiler σ ω) : (call.visit objects c).compiler = c := by
  cases call <;> rfl

omit [Stage σ ω] in
theorem task_visit (hc : c.around = none) (call : Call) :
    (call.visit objects c).task = call.task objects c.build := by
  cases call with
  | rule s => exact congrArg (Task.mk _ · _ _ _) hc
  | node fc s => exact congrArg (Task.mk _ · _ _ _) hc

/-- One of the calls declares the stage in the slot, and the origin says so. -/
def Declared (objects : Objects) (calls : List Call) (pool : Pool σ ω) (x : SlotId)
    (o : StageOrigin) : Prop :=
  ∃ earlier call later path v f, calls = earlier ++ call :: later ∧
    (call.visit objects (after objects earlier { build := { pool } })).Route objects path v ∧
    v.statement.shape = .single ∧ (v.result objects).1 = .ok f ∧ f.tail = some x ∧
    o = ⟨v.statement.kind, v.statement.name, Location.textOf (Statement.nearest path)⟩

theorem scope_after (objects : Objects) (calls : List Call) (pool : Pool σ ω) :
    (after objects calls { build := { pool } }).scope = [] := by
  rw [after_eq rfl]

theorem build_after (objects : Objects) (calls : List Call) (pool : Pool σ ω) :
    (after objects calls { build := { pool } }).build = Compile.after objects calls { pool } := by
  rw [after_eq rfl]

theorem around_after (objects : Objects) (calls : List Call) (pool : Pool σ ω) :
    (after objects calls { build := { pool } }).around = none := by
  rw [around, scope_after]
  rfl

/-- Every stage with an origin was declared by one of the calls. -/
theorem origins_after (later earlier : List Call)
    (h : Origins (Declared objects (earlier ++ later) pool)
      (after objects earlier { build := { pool } }).build) :
    Origins (Declared objects (earlier ++ later) pool)
      (after objects (earlier ++ later) { build := { pool } }).build := by
  induction later generalizing earlier with
  | nil => simpa using h
  | cons call later ih =>
    have hafter := ih (earlier ++ [call])
    simp only [List.append_assoc, List.singleton_append] at hafter
    refine hafter ?_
    rw [after, List.foldl_concat, ← after, run_call (around_after ..), Compiling.run_lift,
      ← call.result_task]
    have hstate : ∀ b : Build σ ω, (call.task objects b).state = b := fun b => by cases call <;> rfl
    rw [← hstate (after objects earlier { build := { pool } }).build] at h
    refine (Task.origins objects _ h).mono ?_
    rintro x o (h | ⟨path, s, ⟨k, f, hroute, rfl, hshape, hok, htail⟩, rfl⟩)
    · exact h
    · rw [← task_visit (around_after objects earlier pool)] at hroute
      obtain ⟨v, hvisits, rfl⟩ := Visit.exists_route hroute
      refine ⟨earlier, call, later, path, v, f, rfl, hvisits, hshape, ?_, htail, ?_⟩
      · rw [v.result_eq]
        exact hok
      · cases call <;> exact congrArg (originOf v.statement.heading) Option.or_none

/-- After any calls, also after calls that failed, a compiler is in no statement. In the course of a
call it is in the statements on the route to what it compiles and in no others, so that it locates each
statement at the innermost location on the route. An error of the call describes the statement at fault,
and the stage that a statement declares describes that statement, both located like this. Where the
statements of earlier calls are written has no effect on what a call comes to, nor on the stages that it
adds. -/
theorem located_after (objects : Objects) (calls : List Call) (pool : Pool σ ω) :
    let c : Compiler σ ω := after objects calls { build := { pool } }
    c.scope = [] ∧
      (∀ call : Call,
        ((call.compile objects).run c).2.scope = [] ∧
        (∀ path v, (call.visit objects c).Route objects path v →
          v.inner.scope = (path.map Statement.located).reverse ∧
          (v.result objects).2.scope = v.compiler.scope ∧
          (Compiling.locate v.statement.heading).run v.inner =
            (.ok (Statement.nearest path), v.inner) ∧
          (Compiling.locate v.statement.heading).run (v.result objects).2 =
            (.ok (Statement.nearest path), (v.result objects).2)) ∧
        ∀ e, ((call.compile objects).run c).1 = .error e →
          ∃ path v, (call.visit objects c).Route objects path v ∧
            (call.visit objects c).Blamed objects path v e ∧
            e.Describes v.statement (Statement.nearest path) ∧
            e.location = Location.textOf (Statement.nearest path)) ∧
      (∀ x s o, c.build.graph.slot? x = some s → s.origin = some o →
        Declared objects calls pool x o) ∧
      ∀ (objects' : Objects) (calls' : List Call), objects'.unplaced = objects.unplaced →
        calls'.map Call.unplaced = calls.map Call.unplaced →
        let c' : Compiler σ ω := after objects' calls' { build := { pool } }
        ∀ call : Call, ((call.compile objects).run c).1 = ((call.compile objects).run c').1 ∧
          ∀ x, c.build.graph.size ≤ x →
            ((call.compile objects).run c).2.build.graph.slot? x =
              ((call.compile objects).run c').2.build.graph.slot? x := by
  intro c
  have hscope : c.scope = [] := scope_after ..
  have hc : c.around = none := around_after ..
  refine ⟨hscope, fun call => ⟨?_, fun path v hroute => ⟨?_, ?_, ?_⟩, fun e he => ?_⟩,
    fun x s o hs ho => ?_, ?_⟩
  · calc ((call.compile objects).run c).2.scope
      _ = ((call.visit objects c).result objects).2.scope := by rw [result_visit]
      _ = (call.visit objects c).compiler.scope := Compiling.scope_statement ..
      _ = [] := by rw [compiler_visit, hscope]
  · rw [hroute.scope_eq, compiler_visit, hscope, List.append_nil]
  · exact Compiling.scope_statement ..
  · exact hroute.locates (by rw [compiler_visit, hc])
  · rw [run_call hc] at he
    obtain ⟨path, k, hroute, hblamed, hdescribes, hlocation⟩ := call.blames objects he
    rw [← task_visit hc] at hroute hblamed
    obtain ⟨v, hvisits, rfl, hfault⟩ := Visit.exists_blamed hroute hblamed
    exact ⟨path, v, hvisits, hfault, hdescribes, hlocation⟩
  · have hnone : Origins (Declared objects calls pool) (⟨{}, pool, []⟩ : Build σ ω) :=
      fun x s o hs => by cases hs
    exact origins_after calls [] hnone x s o hs ho
  · intro objects' calls' hobjects hcalls c' call
    have hstart : (elsewhere False 0 : Likeness σ ω).Match { pool } { pool } :=
      Likeness.match_start rfl rfl rfl
    have hmatch : (elsewhere False 0 : Likeness σ ω).Match c.build c'.build := by
      rw [build_after, build_after]
      exact match_after hobjects.symm hcalls.symm hstart
    rw [run_call hc, run_call (around_after ..)]
    exact call.unplaced_run objects hmatch

/-- A rule that says where it is written fails, and so does one that does not. -/
example :
    let fails (location : Option Location) : Call :=
      .rule (.sequence [.reference .filter "none" none] .none location)
    let c : Compiler Builtin Shared := { build := { pool := samplePool } }
    let c' := after sampleObjects [fails (some ⟨none, 3, 1⟩)] c
    (((fails (some ⟨none, 3, 1⟩)).compile sampleObjects).run c).1 =
        .error (.unresolvedReference .filter "none" "#buffer:3:1") ∧
      (((fails none).compile sampleObjects).run c').1 =
        .error (.unresolvedReference .filter "none" "#unknown") :=
  ⟨rfl, rfl⟩

end Compiler

end Routing
