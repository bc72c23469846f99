import Routing.Proofs.Compile.Alike
import Routing.Proofs.Compile.WellFormed
/-!
# Where errors and stages are located

A statement without a known location counts as written where the closest statement around it is that
has one, and the target of a reference counts as written inside the reference. A `Route` is the way
from a call of the compiler to a statement. An error describes a statement on such a route, the one
that fails by itself or cannot be added to those before it, and a stage that a statement declares
describes that statement; both are located at the innermost located statement of the route.
-/

namespace Routing

variable {σ ω α β : Type}

/-- The known location of the innermost located statement on a path from the outside in. -/
def Statement.nearest (path : List Statement) : Option Location :=
  path.reverse.findSome? located

/-- The error is about the statement, and says that it is written at this place. -/
def CompileError.Describes (s : Statement) (place : Option Location) : CompileError → Prop
  | unresolvedReference kind name location | circularReference kind name location =>
    kind = s.kind ∧ name = s.name.getD "" ∧ location = Location.textOf place
  | emptyObject kind name location =>
    kind = s.kind ∧ name = s.heading.displayName ∧ location = Location.textOf place
  | missingStage node | cloneRefused node | sourceMustBeFirst node | mixedBranches node
  | nestedCatchAll node | inconsistent node _ => node = s.heading.describe place

theorem CompileError.Describes.location {s : Statement} {place : Option Location} {e : CompileError}
    (h : e.Describes s place) : e.location = Location.textOf place := by
  cases e with
  | unresolvedReference | circularReference | emptyObject => exact h.2.2
  | missingStage | cloneRefused | sourceMustBeFirst | mixedBranches | nestedCatchAll | inconsistent =>
    exact congrArg Descriptor.location h

namespace Compile

open Build

variable [Stage σ ω]

/-- What a call compiles, and in which state. -/
def Call.task (objects : Objects) (b : Build σ ω) : Call → Task σ ω
  | rule s => ⟨objects.length, none, false, s.expandCatchAll objects, b⟩
  | node flowControl s => ⟨objects.length, none, flowControl, s, b⟩

theorem Call.result_task (objects : Objects) (b : Build σ ω) (call : Call) :
    (call.task objects b).result objects = (call.run objects).run b := by
  cases call <;> rfl

variable {objects : Objects}

namespace Task

variable {k k' k'' : Task σ ω} {e : CompileError}

/-! ### Routes -/

/-- The statements on the way from a task to one that it reaches, from the outside in. -/
inductive Route (objects : Objects) (k : Task σ ω) : List Statement → Task σ ω → Prop
  | start : Route objects k [k.statement] k
  | call {path : List Statement} {k' k'' : Task σ ω} (h : Route objects k path k')
    (hcall : k'.Calls objects k'') : Route objects k (path ++ [k''.statement]) k''

theorem Calls.around_eq (h : k.Calls objects k') : k'.around = k.located := by
  rcases h with h | h <;> cases h <;> rfl

/-- A statement counts as written at the innermost location on the way to it. -/
theorem Route.located {path : List Statement} (h : k.Route objects path k') :
    k'.located = (Statement.nearest path).or k.around := by
  induction h with
  | start => cases hs : k.statement.located <;> simp [Statement.nearest, Task.located, hs]
  | @call path k' k'' _ hcall ih =>
    rw [Task.located, hcall.around_eq, ih]
    cases hs : k''.statement.located <;> simp [Statement.nearest, hs]

/-! ### Failures -/

/-- A child of the task is compiled, but adding it to those before it fails. -/
inductive Rejects (objects : Objects) (k : Task σ ω) : Task σ ω → CompileError → Prop
  | sequence {pre post : List Statement} {s : Statement} {b b₁ b₂ : Build σ ω} {c : Chain}
    {f : Fragment} {e : CompileError} (hshape : k.statement.shape = .sequence)
    (hall : k.statement.flags.catchAll = false) (hcs : k.statement.children = pre ++ s :: post)
    (hrun : (chain objects (below objects k.depth) k.located k.flowControl {} pre).run k.state =
      (.ok c, b)) (hchild : (k.child s b).result objects = (.ok f, b₁))
    (hadd : (c.add (k.child s b).descriptor f).run b₁ = (.error e, b₂)) :
    Rejects objects k (k.child s b) e
  | junction {pre post : List Statement} {s : Statement} {b b₁ b₂ : Build σ ω} {j : Branching}
    {f : Fragment} {e : CompileError} (hshape : k.statement.shape = .junction)
    (hcs : k.statement.children = pre ++ s :: post)
    (hrun : (branching objects (below objects k.depth) k.located k.flowControl {} pre).run k.state =
      (.ok j, b)) (hchild : (k.child s b).result objects = (.ok f, b₁))
    (hadd : (j.add (k.child s b).descriptor f).run b₁ = (.error e, b₂)) :
    Rejects objects k (k.child s b) e

/-- The task fails by itself: all that it calls for succeeds, and its children can be added. -/
structure Faulty (objects : Objects) (k : Task σ ω) (e : CompileError) : Prop where
  fails : (k.result objects).1 = .error e
  calls : ∀ k' e', k.Calls objects k' → (k'.result objects).1 ≠ .error e'
  adds : ∀ k' e', ¬ k.Rejects objects k' e'

theorem Rejects.calls (h : k.Rejects objects k' e) : k.Calls objects k' := by
  cases h with
  | sequence hshape hall hcs hrun _ _ => exact .inl (.sequence hshape hall hcs hrun)
  | junction hshape hcs hrun _ _ => exact .inl (.junction hshape hcs hrun)

section Steps

variable {pre post : List Statement} {s : Statement} {b : Build σ ω}

/-- A sequence goes on with the next child in the state that those before it leave. -/
theorem result_of_chain {c : Chain} (hshape : k.statement.shape = .sequence)
    (hall : k.statement.flags.catchAll = false) (hcs : k.statement.children = pre ++ s :: post)
    (hrun : (chain objects (below objects k.depth) k.located k.flowControl {} pre).run k.state =
      (.ok c, b)) :
    k.result objects = ((k.child s b).work objects >>= fun f =>
      c.add (k.child s b).descriptor f >>= fun c =>
        chain objects (below objects k.depth) k.located k.flowControl c post >>= fun c =>
          c.finish k.statement.flags k.flowControl).run b := by
  rw [result, upTo_sequence hshape hall, hcs, chain_append, bind_assoc]
  change (chain objects (below objects k.depth) k.located k.flowControl {} pre >>= _).run k.state = _
  rw [run_bind_ok hrun, chain, ← upTo_eq]
  simp only [bind_assoc]
  rfl

/-- A junction goes on with the next branch in the state that those before it leave. -/
theorem result_of_branching {j : Branching} (hshape : k.statement.shape = .junction)
    (hcs : k.statement.children = pre ++ s :: post)
    (hrun : (branching objects (below objects k.depth) k.located k.flowControl {} pre).run k.state =
      (.ok j, b)) :
    k.result objects = ((k.child s b).work objects >>= fun f =>
      j.add (k.child s b).descriptor f >>= fun j =>
        branching objects (below objects k.depth) k.located k.flowControl j post >>= fun j =>
          j.finish k.statement.flags k.flowControl).run b := by
  rw [result, upTo_junction hshape, hcs, branching_append, bind_assoc]
  change (branching objects (below objects k.depth) k.located k.flowControl {} pre >>= _).run k.state = _
  rw [run_bind_ok hrun, branching, ← upTo_eq]
  simp only [bind_assoc]
  rfl

end Steps

/-- A task with a child that cannot be added fails. -/
theorem Rejects.fails (h : k.Rejects objects k' e) : (k.result objects).1 = .error e := by
  cases h with
  | sequence hshape hall hcs hrun hchild hadd =>
    rw [result_of_chain hshape hall hcs hrun]
    refine (congrArg Prod.fst (run_bind_ok hchild _)).trans ?_
    exact congrArg Prod.fst (run_bind_error hadd _)
  | junction hshape hcs hrun hchild hadd =>
    rw [result_of_branching hshape hcs hrun]
    refine (congrArg Prod.fst (run_bind_ok hchild _)).trans ?_
    exact congrArg Prod.fst (run_bind_error hadd _)

theorem run_referTo_error {h : Heading} {here : Option Location} {key : TargetKey}
    {settled : Option SlotId} {run : Compile σ ω Fragment} {b b' : Build σ ω}
    (hnew : key.Shared → (b.memos.lookup key).or settled = none) (hrun : run.run b = (.error e, b')) :
    (referTo h here key settled run).run b = (.error e, b') := by
  have honce : key.Shared → ∀ (end_ : Fragment → Option SlotId) failure,
      (once key settled failure (return end_ (← run))).run b = (.error e, b') := by
    intro hshared end_ failure
    have hremembered : (remembered key settled).run b = (.ok none, b) := by
      rw [← hnew hshared]
      rfl
    unfold once
    rw [run_bind_ok hremembered]
    exact run_bind_error (run_bind_error hrun _) _
  unfold referTo
  split
  · next hk => exact run_bind_error (honce (.inl hk) _ _) _
  · next hk => exact run_bind_error (honce (.inr hk) _ _) _
  · exact hrun

/-- A task fails if one that it calls for does, and with the same error. -/
theorem Calls.fails (h : k.Calls objects k') (he : (k'.result objects).1 = .error e) :
    (k.result objects).1 = .error e := by
  have hk' : k'.result objects = (.error e, (k'.result objects).2) := Prod.ext he rfl
  rcases h with h | h
  · cases h with
    | sequence hshape hall hcs hrun =>
      rw [result_of_chain hshape hall hcs hrun]
      exact congrArg Prod.fst (run_bind_error hk' _)
    | junction hshape hcs hrun =>
      rw [result_of_branching hshape hcs hrun]
      exact congrArg Prod.fst (run_bind_error hk' _)
  · cases h with
    | inline hshape ho hnew =>
      rw [result, upTo_inline hshape ho]
      exact congrArg Prod.fst (run_referTo_error hnew hk')
    | named hdepth hshape ho hfind hnew =>
      rw [result, hdepth, upTo_named hshape ho hfind]
      exact congrArg Prod.fst (run_referTo_error hnew hk')

end Task

/-! ### What errors describe -/

/-- The step fails only with such errors. -/
def FailsWith (E : CompileError → Prop) (x : Compile σ ω α) : Prop :=
  ∀ b, wp x (fun _ _ => True) (fun e _ => E e) b

namespace FailsWith

omit [Stage σ ω]

variable {E : CompileError → Prop}

theorem pure (a : α) : FailsWith E (Pure.pure a : Compile σ ω α) := fun _ => trivial

theorem throw {e : CompileError} (h : E e) : FailsWith E (throw e : Compile σ ω α) := fun _ => h

theorem bind {x : Compile σ ω α} {f : α → Compile σ ω β} (hx : FailsWith E x)
    (hf : ∀ a, FailsWith E (f a)) : FailsWith E (x >>= f) := fun b =>
  (wp_bind ..).2 (wp_mono (hx b) (fun a b' _ => hf a b') fun _ _ h => h)

theorem ite {c : Prop} [Decidable c] {x y : Compile σ ω α} (hx : FailsWith E x)
    (hy : FailsWith E y) : FailsWith E (if c then x else y) := by
  split
  · exact hx
  · exact hy

theorem graph : FailsWith E (graph : Compile σ ω Graph) := fun _ => trivial

theorem addHop (u v : SlotId) : FailsWith E (addHop u v : Compile σ ω Unit) := fun _ => trivial

theorem link {u v : SlotId} {node : Descriptor} (h : ∀ fault, E (.inconsistent node fault)) :
    FailsWith E (link u v node : Compile σ ω Unit) := by
  intro b
  unfold Compile.link Graph.link
  cases hn : b.graph.next? u with
  | none => simp [hn]
  | some x => simpa [hn] using h _

variable [Stage σ ω] {c : Chain} {j : Branching} {node : Descriptor} {f : Fragment}

theorem addJoin : FailsWith E (addJoin : Compile σ ω SlotId) := fun _ => trivial

theorem addMultiplexer : FailsWith E (addMultiplexer : Compile σ ω SlotId) := fun _ => trivial

theorem addAttach : FailsWith E (addAttach : Compile σ ω SlotId) := fun _ => trivial

theorem chain_add (hlate : E (.sourceMustBeFirst node)) (h : ∀ fault, E (.inconsistent node fault)) :
    FailsWith E (c.add node f : Compile σ ω Chain) := by
  obtain ⟨_ | head, tail⟩ := f
  · cases tail with
    | none => exact .pure c
    | some tail =>
      refine .ite (.throw hlate) (.bind ?_ fun r => (link h).bind fun _ => .pure r.2)
      unfold Chain.joinPoint
      split
      · exact .pure _
      · exact addJoin.bind fun _ => .pure _
  · refine graph.bind fun _ => ?_
    cases c.last with
    | none => exact graph.bind fun _ => .pure _
    | some last => exact (link h).bind fun _ => graph.bind fun _ => .pure _

theorem branching_add (hmixed : E (.mixedBranches node)) (h : ∀ fault, E (.inconsistent node fault)) :
    FailsWith E (j.add node f : Compile σ ω Branching) := by
  refine .bind ?_ fun j => ?_
  · cases f.head with
    | none => exact .ite (.throw hmixed) (.pure _)
    | some head =>
      refine .ite (.throw hmixed) (.bind ?_ fun r => (addHop r.1 head).bind fun _ =>
        graph.bind fun _ => .pure _)
      unfold Branching.forkPoint
      split
      · exact .pure _
      · exact addMultiplexer.bind fun _ => .pure _
  · cases f.tail with
    | none => exact .pure j
    | some tail =>
      refine .bind ?_ fun r => (link h).bind fun _ => .pure r.2
      unfold Branching.joinPoint
      split
      · exact .pure _
      · exact addJoin.bind fun _ => .pure _

theorem sourceFork {tail : SlotId} (h : ∀ fault, E (.inconsistent node fault)) :
    FailsWith E (sourceFork tail node : Compile σ ω SlotId) := by
  refine graph.bind fun g => ?_
  cases g.next? tail with
  | none => exact addMultiplexer.bind fun fork => (link h).bind fun _ => .pure fork
  | some next => exact .ite (.pure next) (.throw (h _))

omit [Stage σ ω] in
theorem chain_finish (flags : Flags) (fc : Bool) :
    FailsWith E (c.finish flags fc : Compile σ ω Fragment) := by
  unfold Chain.finish
  cases c.first with
  | none => exact .pure _
  | some head => exact .bind (fun _ => trivial) fun _ => .pure _

omit [Stage σ ω] in
theorem branching_finish (flags : Flags) (fc : Bool) :
    FailsWith E (j.finish flags fc : Compile σ ω Fragment) := by
  unfold Branching.finish
  cases j.fork with
  | none => exact .pure _
  | some fork => exact .ite (.bind (fun _ => trivial) fun _ => .pure _) (.pure _)

end FailsWith

namespace Task

variable {k k' : Task σ ω} {e : CompileError}

/-- A child that cannot be added is what the error describes. -/
theorem Rejects.describes (h : k.Rejects objects k' e) : e.Describes k'.statement k'.located := by
  cases h with
  | @sequence pre post s b b₁ b₂ c f e _ _ _ _ _ hadd =>
    have hfails : FailsWith (fun e => e.Describes s (k.child s b).located)
        (c.add (k.child s b).descriptor f : Compile σ ω Chain) := .chain_add rfl fun _ => rfl
    exact wp_error (hfails b₁) hadd
  | @junction pre post s b b₁ b₂ j f e _ _ _ _ hadd =>
    have hfails : FailsWith (fun e => e.Describes s (k.child s b).located)
        (j.add (k.child s b).descriptor f : Compile σ ω Branching) := .branching_add rfl fun _ => rfl
    exact wp_error (hfails b₁) hadd

/-- A reference keeps what is kept when its target is compiled, and it fails as its target does or with
an error that describes the reference. -/
theorem wp_referTo_wired {R : Build σ ω → Prop} (hR : Wired R)
    (hmark : ∀ {b key id}, R b → R (b.mark key id)) {E : CompileError → Prop} {h : Heading}
    {here : Option Location} {key : TargetKey} {settled : Option SlotId}
    {run : Compile σ ω Fragment} {b : Build σ ω} (hb : R b)
    (hrun : (key.Shared → (b.memos.lookup key).or settled = none) →
      wp run (fun _ => R) (fun e b' => R b' ∧ E e) b)
    (hempty : E (emptyObject h here)) (hfork : ∀ fault, E (.inconsistent (h.describe here) fault)) :
    wp (referTo h here key settled run) (fun _ => R) (fun e b' => R b' ∧ E e) b := by
  have honce : key.Shared → ∀ end_ : Fragment → Option SlotId,
      wp (once key settled (emptyObject h here) (return end_ (← run))) (fun _ => R)
        (fun e b' => R b' ∧ E e) b := by
    intro hshared end_
    unfold once
    simp only [wp_bind, wp_remembered]
    cases hm : (b.memos.lookup key).or settled with
    | some id => exact hb
    | none =>
      simp only [wp_bind]
      refine wp_mono (hrun fun _ => hm) (fun f b' hb' => ?_) fun _ _ h => h
      cases end_ f with
      | none => exact ⟨hb', hempty⟩
      | some id => exact hmark hb'
  have hends : ∀ {x : Compile σ ω Fragment}, Keeps R x → FailsWith E x → ∀ b', R b' →
      wp x (fun _ => R) (fun e b' => R b' ∧ E e) b' := fun hkeeps hfails b' hb' =>
    wp_mono (wp_and (hkeeps b' hb') (hfails b')) (fun _ _ h => h.1) fun _ _ h => h
  unfold referTo
  split
  · next hk =>
    rw [wp_bind]
    refine wp_mono (honce (.inl hk) _) (fun tail => hends (hR.sourceEnd tail _) ?_) fun _ _ h => h
    exact (FailsWith.sourceFork hfork).bind fun fork => FailsWith.addAttach.bind fun attach =>
      (FailsWith.addHop fork attach).bind fun _ => .pure _
  · next hk =>
    rw [wp_bind]
    refine wp_mono (honce (.inr hk) _) (fun head => hends (hR.destinationEnd head) ?_) fun _ _ h => h
    exact FailsWith.addMultiplexer.bind fun fork => (FailsWith.addHop fork head).bind fun _ => .pure _
  · next hs hd => exact hrun fun hshared => (hshared.elim hs hd).elim

/-- A task that fails calls for one that fails, has a child that cannot be added, or is what the error
describes. -/
theorem wp_fails (objects : Objects) (k : Task σ ω) :
    wp (k.work objects) (fun _ _ => True) (fun e _ =>
      (∃ k', k.Calls objects k' ∧ (k'.result objects).1 = .error e) ∨ (∃ k', k.Rejects objects k' e) ∨
        e.Describes k.statement k.located) k.state := by
  have hcalls : ∀ {k' : Task σ ω}, k.Calls objects k' → wp (k'.work objects)
      (fun f b => k'.result objects = (.ok f, b))
      (fun e _ => ∃ k', k.Calls objects k' ∧ (k'.result objects).1 = .error e) k'.state := fun hk' =>
    wp_mono (wp_run _ _) (fun _ _ h => h) fun e b h => ⟨_, hk', congrArg Prod.fst h⟩
  cases hshape : k.statement.shape with
  | single =>
    rw [work, upTo_single hshape]
    cases ho : k.statement.object with
    | stage handle => exact wp_single (fun _ _ _ _ => trivial) fun _ _ => .inr (.inr rfl)
    | empty => exact .inr (.inr rfl)
    | target serial t => exact .inr (.inr rfl)
  | reference =>
    refine wp_reference_of hshape (.inr (.inr ⟨rfl, rfl, rfl⟩)) (.inr (.inr ⟨rfl, rfl, rfl⟩))
      fun k' key hstate _ htarget => ?_
    have hwired : Wired fun _ : Build σ ω => True := ⟨fun _ _ _ => trivial, fun _ => trivial⟩
    refine wp_mono (wp_referTo_wired hwired (fun _ => trivial) trivial (fun hnew => ?_)
      (.inr (.inr ⟨rfl, rfl, rfl⟩)) fun _ => .inr (.inr rfl)) (fun _ _ h => h) fun _ _ h => h.2
    rw [← hstate]
    exact wp_mono (hcalls (.inr (htarget hnew))) (fun _ _ _ => trivial) fun _ _ h => ⟨trivial, .inl h⟩
  | sequence =>
    cases hall : k.statement.flags.catchAll with
    | true =>
      rw [work, upTo_nested hshape hall]
      exact .inr (.inr rfl)
    | false =>
      rw [work, upTo_sequence hshape hall, wp_bind]
      refine wp_mono (wp_chain_each objects k (I := fun _ _ => True) (fun hcs hrun _ => ?_) _ [] {}
        k.state rfl rfl trivial) (fun _ _ _ => FailsWith.chain_finish _ _ _) fun _ _ h => h
      refine wp_mono (hcalls (.inl (.sequence hshape hall hcs hrun))) (fun f b _ hchild => ?_)
        fun _ _ h => .inl h
      exact wp_mono (wp_run _ _) (fun _ _ _ => trivial) fun e b' hadd =>
        .inr (.inl ⟨_, .sequence hshape hall hcs hrun hchild hadd⟩)
  | junction =>
    rw [work, upTo_junction hshape, wp_bind]
    refine wp_mono (wp_branching_each objects k (I := fun _ _ => True) (fun hcs hrun _ => ?_) _ [] {}
      k.state rfl rfl trivial) (fun _ _ _ => FailsWith.branching_finish _ _ _) fun _ _ h => h
    refine wp_mono (hcalls (.inl (.junction hshape hcs hrun))) (fun f b _ hchild => ?_)
      fun _ _ h => .inl h
    exact wp_mono (wp_run _ _) (fun _ _ _ => trivial) fun e b' hadd =>
      .inr (.inl ⟨_, .junction hshape hcs hrun hchild hadd⟩)

/-- The statement at the end of the path is at fault: it fails by itself, or it is compiled but cannot be
added to the children before it. -/
def Blamed (objects : Objects) (k₀ : Task σ ω) (path : List Statement) (k : Task σ ω)
    (e : CompileError) : Prop :=
  k.Faulty objects e ∨ ∃ way parent, path = way ++ [k.statement] ∧ k₀.Route objects way parent ∧
    parent.Rejects objects k e

/-- The error of a task describes a statement on a route from the task that is at fault. -/
theorem Route.blames {k₀ : Task σ ω} : ∀ (k : Task σ ω) (path : List Statement),
    k₀.Route objects path k → (k.result objects).1 = .error e →
      ∃ path k', k₀.Route objects path k' ∧ k₀.Blamed objects path k' e ∧
        e.Describes k'.statement k'.located := by
  refine induction objects fun k ih path hpath he => ?_
  by_cases hcalls : ∃ k' e', k.Calls objects k' ∧ (k'.result objects).1 = .error e'
  · obtain ⟨k', e', hcall, he'⟩ := hcalls
    obtain rfl : e' = e := Except.error.inj ((hcall.fails he').symm.trans he)
    exact ih k' hcall _ (hpath.call hcall) he'
  · by_cases hadds : ∃ k' e', k.Rejects objects k' e'
    · obtain ⟨k', e', hreject⟩ := hadds
      obtain rfl : e' = e := Except.error.inj (hreject.fails.symm.trans he)
      exact ⟨_, k', hpath.call hreject.calls, .inr ⟨path, k, rfl, hpath, hreject⟩, hreject.describes⟩
    · have hrun : (k.work objects).run k.state = (.error e, (k.result objects).2) := Prod.ext he rfl
      refine ⟨path, k, hpath, .inl ⟨he, fun k' e' hcall h => hcalls ⟨k', e', hcall, h⟩,
        fun k' e' h => hadds ⟨k', e', h⟩⟩, ?_⟩
      rcases wp_error (wp_fails objects k) hrun with ⟨k', hcall, h⟩ | ⟨k', h⟩ | h
      · exact (hcalls ⟨k', e, hcall, h⟩).elim
      · exact (hadds ⟨k', e, h⟩).elim
      · exact h

/-! ### What tasks keep -/

/-- What the steps that join parts together keep, and the single statements on the routes from a task, is
kept by all tasks on these routes. -/
theorem Route.keeps {k₀ : Task σ ω} {P : Build σ ω → Prop} (hP : Joining P)
    (hmark : ∀ {b key id}, P b → P (b.mark key id))
    (hsingle : ∀ {path k}, k₀.Route objects path k → k.statement.shape = .single → P k.state →
      P (k.result objects).2) :
    ∀ (k : Task σ ω) (path : List Statement), k₀.Route objects path k → P k.state →
      P (k.result objects).2 := by
  refine induction objects fun k ih path hpath hk => ?_
  have hcalls : ∀ {k' : Task σ ω}, k.Calls objects k' → P k'.state →
      wp (k'.work objects) (fun _ => P) (fun _ => P) k'.state := fun hcall hk' =>
    wp_of_state (ih _ hcall _ (hpath.call hcall) hk')
  have hwp : k.statement.shape ≠ .single → wp (k.work objects) (fun _ => P) (fun _ => P) k.state := by
    intro hne
    cases hshape : k.statement.shape with
    | single => exact (hne hshape).elim
    | reference =>
      refine wp_reference_of hshape hk hk fun k' key hstate _ htarget => ?_
      refine wp_mono (wp_referTo_wired (E := fun _ => True) hP.toWired hmark hk (fun hnew => ?_)
        trivial fun _ => trivial) (fun _ _ h => h) fun _ _ h => h.1
      have hk' := hcalls (.inr (htarget hnew)) (hstate ▸ hk)
      rw [hstate] at hk'
      exact wp_mono hk' (fun _ _ h => h) fun _ _ h => ⟨h, trivial⟩
    | sequence =>
      cases hall : k.statement.flags.catchAll with
      | true =>
        rw [work, upTo_nested hshape hall]
        exact hk
      | false =>
        rw [work, upTo_sequence hshape hall, wp_bind]
        refine wp_mono (wp_chain_each objects k (I := fun _ => P) (fun hcs hrun hb => ?_) _ [] {} k.state
          rfl rfl hk) (fun c b hb => hP.linear.chain_finish c _ _ b hb) fun _ _ h => h
        exact wp_mono (hcalls (.inl (.sequence hshape hall hcs hrun)) hb) (fun f b hb _ =>
          hP.linking.chain_add _ _ f b hb) fun _ _ h => h
    | junction =>
      rw [work, upTo_junction hshape, wp_bind]
      refine wp_mono (wp_branching_each objects k (I := fun _ => P) (fun hcs hrun hb => ?_) _ [] {}
        k.state rfl rfl hk) (fun j b hb => hP.linear.branching_finish j _ _ b hb) fun _ _ h => h
      exact wp_mono (hcalls (.inl (.junction hshape hcs hrun)) hb) (fun f b hb _ =>
        hP.branching_add _ _ f b hb) fun _ _ h => h
  by_cases hshape : k.statement.shape = .single
  · exact hsingle hpath hshape hk
  · exact wp_state (hwp hshape)

/-! ### Where stages are located -/

/-- The single statement at the end of a route from the task puts its stage in the slot. -/
def Declares (objects : Objects) (k : Task σ ω) (path : List Statement) (s : Statement) (x : SlotId) :
    Prop :=
  ∃ k' f, k.Route objects path k' ∧ s = k'.statement ∧ s.shape = .single ∧
    (k'.result objects).1 = .ok f ∧ f.tail = some x

end Task

/-- Every origin in the state is as this says of its slot. -/
def Origins (J : SlotId → StageOrigin → Prop) (b : Build σ ω) : Prop :=
  ∀ x s o, b.graph.slot? x = some s → s.origin = some o → J x o

section Origins

omit [Stage σ ω] in
theorem Origins.mono {J J' : SlotId → StageOrigin → Prop} {b : Build σ ω} (h : Origins J b)
    (hJ : ∀ x o, J x o → J' x o) : Origins J' b := fun x s o hs ho => hJ x o (h x s o hs ho)

variable {J : SlotId → StageOrigin → Prop}

omit [Stage σ ω] in
theorem origins_modify {b : Build σ ω} {u : SlotId} {f : Slot → Slot} (hf : ∀ s, (f s).origin = s.origin)
    (h : Origins J b) : Origins J { b with graph := b.graph.modify u f } := by
  intro x s o hs ho
  simp only [Graph.slot?_modify] at hs
  split at hs
  · obtain ⟨s', hs', rfl⟩ := Option.map_eq_some_iff.1 hs
    exact h x s' o hs' (hf s' ▸ ho)
  · exact h x s o hs ho

theorem joining_origins (J : SlotId → StageOrigin → Prop) :
    Joining (Origins J : Build σ ω → Prop) where
  own {b stage role} _ _ h := by
    intro x s o hs ho
    simp only [Build.own, Build.grow, Graph.slot?_add] at hs
    split at hs
    · cases hs
      cases ho
    · exact h x s o hs ho
  wire {b u k v} h := by
    cases k with
    | next => exact origins_modify (fun _ => rfl) h
    | hop => exact origins_modify (fun _ => rfl) h
  enable _ h := origins_modify (fun _ => rfl) h

/-- A task declares the stages that it puts in place, where they are written. -/
theorem Task.origins (objects : Objects) (k : Task σ ω) (hk : Origins J k.state) :
    Origins (fun x o => J x o ∨ ∃ path s, k.Declares objects path s x ∧
      o = originOf s.heading ((Statement.nearest path).or k.around)) (k.result objects).2 := by
  refine Route.keeps (joining_origins _) (fun h => h) ?_ k _ .start (hk.mono fun _ _ => .inl)
  intro path k' hpath hshape hk'
  obtain ⟨depth, around, fc, s, b⟩ := k'
  have hrun : (Task.mk depth around fc s b).result objects =
      (single s.heading (s.located.or around) s.object).run b := by rw [Task.result, upTo_single hshape]
  cases ho : s.object with
  | empty | target =>
    rw [hrun, ho]
    exact hk'
  | stage handle =>
    rw [ho] at hrun
    rw [hrun]
    refine wp_state (wp_mono (wp_with_run (wp_single (Q := fun f b' => ∃ p h r c, b' = b.grow p
      { handle := h, role := r, capabilities := c, origin := some (originOf s.heading (s.located.or around)) } ∧
        f.tail = some b.graph.size) (E := fun _ b' => b'.graph = b.graph) (fun h r p _ => ?_)
      fun _ _ => rfl)) ?_ ?_)
    · exact ⟨p, h, r, _, rfl, rfl⟩
    · rintro f b' ⟨hf, p, h, r, c, rfl, htail⟩ x t o ht ho
      simp only [Build.grow, Graph.slot?_add] at ht
      split at ht
      · next hx =>
        subst hx
        cases ht
        cases ho
        refine .inr ⟨path, s, ⟨_, f, hpath, rfl, hshape, by rw [hrun, hf], htail⟩, ?_⟩
        exact congrArg (originOf s.heading) hpath.located
      · exact hk' x t o ht ho
    · intro e b' hb' x t o ht ho
      rw [hb'] at ht
      exact hk' x t o ht ho

end Origins

end Compile

end Routing
