import Routing.Compile.Compiler
import Routing.Proofs.Compile.Tasks
import Routing.Proofs.Compile.WellFormed
/-!
# Where a compiler is

A compiler leaves every statement that it enters, so a step that succeeds or fails finds it where it was
before. What comes of a step depends on the statements that the compiler is in only by the innermost
location among them. It is the same as what comes of the step in `Compile` that is given this location.
-/

namespace Routing

variable {σ ω α β : Type}

namespace Compiling

/-! ### Steps -/

theorem run_lift (x : Compile σ ω α) (c : Compiler σ ω) :
    (lift x).run c = ((x.run c.build).1, { c with build := (x.run c.build).2 }) := rfl

theorem run_inside (own : Option Location) (y : Compiling σ ω α) (c : Compiler σ ω) :
    (inside own y).run c = ((y.run (c.enter own)).1, (y.run (c.enter own)).2.leave) := rfl

theorem around_enter (own : Option Location) (c : Compiler σ ω) :
    (c.enter own).around = own.or c.around := by
  cases own <;> rfl

/-- Where `here` is the innermost location, `y` does what `x` does and leaves the compiler where it was. -/
def AmountsTo (here : Option Location) (y : Compiling σ ω α) (x : Compile σ ω α) : Prop :=
  ∀ c : Compiler σ ω, c.around = here → y.run c = (lift x).run c

namespace AmountsTo

variable {here : Option Location} {y : Compiling σ ω α} {x : Compile σ ω α} {h : Heading}

theorem lift (x : Compile σ ω α) : AmountsTo here (lift x) x := fun _ _ => rfl

theorem pure (a : α) : AmountsTo here (Pure.pure a : Compiling σ ω α) (Pure.pure a) := fun _ _ => rfl

theorem throw (e : CompileError) :
    AmountsTo here (throw e : Compiling σ ω α) (throw e) := fun _ _ => rfl

theorem bind {f : α → Compiling σ ω β} {g : α → Compile σ ω β} (hx : AmountsTo here y x)
    (hf : ∀ a, AmountsTo here (f a) (g a)) : AmountsTo here (y >>= f) (x >>= g) := by
  intro c hc
  have hy := hx c hc
  rw [run_lift] at hy ⊢
  simp only [ExceptT.run, Bind.bind, ExceptT.bind, ExceptT.mk, StateT.bind] at hy ⊢
  rw [hy]
  rcases x c.build with ⟨e | a, b⟩
  · rfl
  · exact hf a { c with build := b } hc

/-- Steps that locate a statement may be given the location. -/
theorem locate {f : Option Location → Compiling σ ω α} (hf : AmountsTo here (f (h.located.or here)) x) :
    AmountsTo here (Compiling.locate h >>= f) x := by
  rintro c rfl
  exact hf c rfl

theorem describe {f : Descriptor → Compiling σ ω α}
    (hf : AmountsTo here (f (h.describe (h.located.or here))) x) :
    AmountsTo here (Compiling.describe h >>= f) x := by
  rintro c rfl
  exact hf c rfl

theorem describe_lift (h : Heading) (x : Descriptor → Compile σ ω α) :
    AmountsTo here (Compiling.describe h >>= fun node => Compiling.lift (x node))
      (x (h.describe (h.located.or here))) :=
  .describe (.lift _)

theorem inside {own : Option Location} (hy : AmountsTo (own.or here) y x) :
    AmountsTo here (inside own y) x := by
  rintro c rfl
  rw [run_inside, hy _ (around_enter own c)]
  rfl

/-- What comes of `y` tells what comes of `x`, and the compiler is where it was. -/
theorem of_run {c c' : Compiler σ ω} {r : Except CompileError α} (h : AmountsTo here y x)
    (hc : c.around = here) (hrun : y.run c = (r, c')) :
    x.run c.build = (r, c'.build) ∧ c'.scope = c.scope := by
  rw [h c hc, run_lift] at hrun
  obtain ⟨rfl, rfl⟩ := Prod.mk.inj hrun
  exact ⟨rfl, rfl⟩

theorem run {c : Compiler σ ω} {b : Build σ ω} {r : Except CompileError α} (h : AmountsTo here y x)
    (hc : c.around = here) (hrun : x.run c.build = (r, b)) : y.run c = (r, { c with build := b }) := by
  rw [h c hc, run_lift, hrun]

end AmountsTo

/-! ### Statements -/

variable [Stage σ ω] {objects : Objects} {jump : Option (Run σ ω)} {jump' : Option (Compile.Run σ ω)}
  {h : Heading} {here : Option Location} {key : TargetKey} {settled : Option SlotId}

omit [Stage σ ω] in
theorem amountsTo_once {y : Compiling σ ω (Option SlotId)} {x : Compile σ ω (Option SlotId)}
    (hh : h.located.or here = here) (hy : AmountsTo here y x) :
    AmountsTo here (once h key settled y)
      (Compile.once key settled (Compile.emptyObject h here) x) := by
  refine .bind (.lift _) fun known => ?_
  cases known with
  | some id => exact .pure id
  | none =>
    refine .bind hy fun found => ?_
    cases found with
    | some id => exact .bind (.lift _) fun _ => .pure id
    | none =>
      refine .locate ?_
      rw [hh]
      exact .throw _

theorem amountsTo_referTo {y : Compiling σ ω Fragment} {x : Compile σ ω Fragment}
    (hh : h.located.or here = here) (hy : AmountsTo here y x) :
    AmountsTo here (referTo h key settled y) (Compile.referTo h here key settled x) := by
  unfold referTo Compile.referTo
  cases key.kind with
  | source =>
    refine .bind (amountsTo_once hh (hy.bind fun f => .pure f.tail)) fun tail => .describe ?_
    rw [hh]
    exact .bind (.lift _) fun fork => .bind (.lift _) fun attach => .bind (.lift _) fun _ => .pure _
  | destination =>
    refine .bind (amountsTo_once hh (hy.bind fun f => .pure f.head)) fun head => ?_
    exact .bind (.lift _) fun fork => .bind (.lift _) fun _ => .pure _
  | _ => exact hy

/-- What references by name lead to is compiled alike. -/
def JumpsAlike (jump : Option (Run σ ω)) (jump' : Option (Compile.Run σ ω)) : Prop :=
  Option.Rel (fun run run' => ∀ fc s here, AmountsTo here (run fc s) (run' here fc s)) jump jump'

theorem amountsTo_byName (hjump : JumpsAlike jump jump') (hh : h.located.or here = here) (fc : Bool) :
    AmountsTo here (byName objects jump h fc) (Compile.byName objects jump' h here fc) := by
  unfold byName Compile.byName
  dsimp only
  cases objects.find? ⟨h.kind, h.name.getD ""⟩ with
  | none =>
    refine .locate ?_
    rw [hh]
    exact .throw _
  | some target =>
    cases hjump with
    | none =>
      refine .locate ?_
      rw [hh]
      exact .throw _
    | some hrun => exact amountsTo_referTo hh (hrun fc target here)

mutual

theorem amountsTo_statement (hjump : JumpsAlike jump jump') :
    ∀ (s : Statement) fc around,
      AmountsTo around (statement objects jump fc s) (Compile.statement objects jump' around fc s)
  | .mk h o cs, fc, around => by
    rw [statement, Compile.statement]
    have hh : h.located.or (h.located.or around) = h.located.or around := by
      rw [← Option.or_assoc, Option.or_self]
    refine .inside ?_
    cases h.shape with
    | single =>
      refine .locate ?_
      rw [hh]
      exact .lift _
    | reference => exact amountsTo_reference hjump o h hh fc
    | sequence =>
      show AmountsTo _ (if _ then _ else _) (if _ then _ else _)
      split
      · refine .describe ?_
        rw [hh]
        exact .throw _
      · exact (amountsTo_chain hjump cs fc _ {}).bind fun c => .lift _
    | junction => exact (amountsTo_branching hjump cs fc _ {}).bind fun j => .lift _

theorem amountsTo_reference (hjump : JumpsAlike jump jump') :
    ∀ (o : Object) (h : Heading) {here : Option Location}, h.located.or here = here → ∀ fc,
      AmountsTo here (reference objects jump h fc o) (Compile.reference objects jump' h here fc o)
  | .empty, h, here, hh, fc => by
    rw [reference, Compile.reference]
    exact amountsTo_byName hjump hh fc
  | .stage _, h, here, hh, fc => by
    rw [reference, Compile.reference]
    exact amountsTo_byName hjump hh fc
  | .target serial t, h, here, hh, fc => by
    rw [reference, Compile.reference]
    exact amountsTo_referTo hh (amountsTo_statement hjump t fc here)

theorem amountsTo_chain (hjump : JumpsAlike jump jump') :
    ∀ (ss : List Statement) fc here (ch : Compile.Chain),
      AmountsTo here (chain objects jump fc ch ss) (Compile.chain objects jump' here fc ch ss)
  | [], fc, here, ch => by
    rw [chain, Compile.chain]
    exact .pure ch
  | s :: ss, fc, here, ch => by
    rw [chain, Compile.chain]
    refine (amountsTo_statement hjump s _ here).bind fun f => .describe ?_
    exact .bind (.lift _) fun ch => amountsTo_chain hjump ss fc here ch

theorem amountsTo_branching (hjump : JumpsAlike jump jump') :
    ∀ (ss : List Statement) fc here (j : Compile.Branching),
      AmountsTo here (branching objects jump fc j ss) (Compile.branching objects jump' here fc j ss)
  | [], fc, here, j => by
    rw [branching, Compile.branching]
    exact .pure j
  | s :: ss, fc, here, j => by
    rw [branching, Compile.branching]
    refine (amountsTo_statement hjump s _ here).bind fun f => .describe ?_
    exact .bind (.lift _) fun j => amountsTo_branching hjump ss fc here j

end

theorem jumpsAlike_below (objects : Objects) (depth : Nat) :
    JumpsAlike (below objects depth) (Compile.below (σ := σ) objects depth) := by
  induction depth with
  | zero => exact .none
  | succ depth ih =>
    refine .some fun fc s here => ?_
    rw [Compile.upTo_eq]
    exact amountsTo_statement ih s fc here

/-- To compile a statement is what it is in `Compile`, given the innermost location around it. -/
theorem run_statement (objects : Objects) (depth : Nat) (fc : Bool) (s : Statement)
    (c : Compiler σ ω) : (statement objects (below objects depth) fc s).run c =
      (lift (Compile.upTo objects depth c.around fc s)).run c := by
  rw [Compile.upTo_eq]
  exact amountsTo_statement (jumpsAlike_below objects depth) s fc _ c rfl

/-- A compiler is where it was when it has compiled a statement, also if it failed. -/
theorem scope_statement (objects : Objects) (depth : Nat) (fc : Bool) (s : Statement)
    (c : Compiler σ ω) :
    ((statement objects (below objects depth) fc s).run c).2.scope = c.scope := by
  rw [run_statement, run_lift]

end Compiling

/-! ### Calls -/

variable [Stage σ ω] {objects : Objects}

/-- What a compiler does in a call. -/
def Compile.Call.compile (objects : Objects) : Compile.Call → Compiling σ ω Fragment
  | rule s => Compiling.rule objects s
  | node flowControl s => Compiling.node objects flowControl s

namespace Compiler

/-- The compiler after several calls. It goes on after a call that fails. -/
def after (objects : Objects) (calls : List Compile.Call) (c : Compiler σ ω) : Compiler σ ω :=
  calls.foldl (fun c call => ((call.compile objects).run c).2) c

/-- Outside of all located statements, a call is what it is in `Compile`. -/
theorem run_call {c : Compiler σ ω} (hc : c.around = none) (call : Compile.Call) :
    (call.compile objects).run c = (Compiling.lift (call.run objects)).run c := by
  cases call with
  | rule s => exact (Compiling.run_statement ..).trans (by rw [hc]; rfl)
  | node fc s => exact (Compiling.run_statement ..).trans (by rw [hc]; rfl)

theorem after_eq {c : Compiler σ ω} (hc : c.around = none) (calls : List Compile.Call) :
    after objects calls c = { c with build := Compile.after objects calls c.build } := by
  induction calls generalizing c with
  | nil => rfl
  | cons call calls ih =>
    rw [after, List.foldl_cons, run_call hc]
    exact ih hc

end Compiler

end Routing
