import Routing.Proofs.Compile.Steps
import Routing.Proofs.Compile.Trace
/-!
# Schemes

A property of compiling holds of every statement if it holds of single statements, of references
whose targets have it, and of sequences and junctions as their children are added one by one. A
`Scheme` says what the property is for each of these, and the induction over statements and over the
depth of references is done here, once for all schemes. A property may speak of the trace, of the
statement and of whether its context holds senders back.
-/

namespace Routing

variable {σ ω : Type}

namespace Compile

/-- What is required before compiling a statement, and what holds afterwards. What holds afterwards
relates the statement, its context, the state before, the trace, the result and the state after. -/
structure Scheme (σ ω : Type) where
  ready : Build σ ω → Prop
  done : Statement → Bool → Build σ ω → Trace σ ω → Fragment → Build σ ω → Prop
  failed : Build σ ω → Trace σ ω → CompileError → Build σ ω → Prop
  /-- A sequence is in the making, and these children were added. -/
  chained : List Statement → Bool → Build σ ω → Trace σ ω → Chain → Build σ ω → Prop
  /-- A junction is in the making, and these branches were added. -/
  branched : List Statement → Bool → Build σ ω → Trace σ ω → Branching → Build σ ω → Prop

namespace Scheme

/-- A computation with this trace does what the scheme says of the statement. -/
def Meets (S : Scheme σ ω) (s : Statement) (fc : Bool) (x : Compile σ ω Fragment)
    (trace : Build σ ω → Trace σ ω) : Prop :=
  ∀ b, S.ready b → wp x (S.done s fc b (trace b)) (S.failed b (trace b)) b

variable [Stage σ ω]

/-- The scheme goes through the statements whose parts have the property `P`. -/
structure Lawful (S : Scheme σ ω) (objects : Objects) (P : Statement → Prop) : Prop where
  throw : ∀ {b e}, e.Consistent → S.ready b → S.failed b [] e b
  single : ∀ {h handle cs fc here}, h.shape = .single → P (.mk h (.stage handle) cs) →
    S.Meets (.mk h (.stage handle) cs) fc (single h here (.stage handle))
      (singleTrace h here (.stage handle))
  refer : ∀ {h o cs fc here key t run trace}, h.shape = .reference → P (.mk h o cs) →
    (Statement.mk h o cs).target? objects = some (key, t) → t.Each P → Within objects t trace →
    S.Meets t fc run trace → S.Meets (.mk h o cs) fc (referTo h here key t.heading.memo run)
      (referTrace h here key t.heading.memo run trace)
  chain_start : ∀ {fc b}, S.ready b → S.chained [] fc b [] {} b
  chain_ready : ∀ {ss fc b₀ l c b}, S.chained ss fc b₀ l c b → S.ready b
  chain_failed : ∀ {ss fc b₀ l c b l' e b'}, S.chained ss fc b₀ l c b → S.failed b l' e b' →
    S.failed b₀ (l ++ l') e b'
  chain_add : ∀ {ss fc b₀ l c b s l' f b'} node, S.chained ss fc b₀ l c b →
    S.done s (fc || s.flags.flowControl) b l' f b' →
    wp (c.add node f) (S.chained (ss ++ [s]) fc b₀ (l ++ l')) (S.failed b₀ (l ++ l')) b'
  chain_finish : ∀ {h o cs fc b₀ l c b}, h.shape = .sequence → S.chained cs fc b₀ l c b →
    wp (c.finish h.flags fc) (S.done (.mk h o cs) fc b₀ l) (S.failed b₀ l) b
  branch_start : ∀ {fc b}, S.ready b → S.branched [] fc b [] {} b
  branch_ready : ∀ {ss fc b₀ l j b}, S.branched ss fc b₀ l j b → S.ready b
  branch_failed : ∀ {ss fc b₀ l j b l' e b'}, S.branched ss fc b₀ l j b → S.failed b l' e b' →
    S.failed b₀ (l ++ l') e b'
  branch_add : ∀ {ss fc b₀ l j b s l' f b'} node, S.branched ss fc b₀ l j b →
    S.done s (fc || s.flags.flowControl) b l' f b' →
    wp (j.add node f) (S.branched (ss ++ [s]) fc b₀ (l ++ l')) (S.failed b₀ (l ++ l')) b'
  branch_finish : ∀ {h o cs fc b₀ l j b}, h.shape = .junction → S.branched cs fc b₀ l j b →
    wp (j.finish h.flags fc) (S.done (.mk h o cs) fc b₀ l) (S.failed b₀ l) b

/-- References by name do what the scheme says. -/
structure Jumps (S : Scheme σ ω) (objects : Objects) (P : Statement → Prop)
    (jump : Option (Routine σ ω)) : Prop where
  within : JumpsWithin objects jump
  meets : ∀ r ∈ jump, ∀ s : Statement, s.Each P → ∀ around fc,
    S.Meets s fc (r.run around fc s) (r.trace around fc s)

namespace Lawful

variable {S : Scheme σ ω} {objects : Objects} {P : Statement → Prop} {jump : Option (Routine σ ω)}
  {h : Heading} {o : Object} {cs : List Statement}

theorem meets_throw (hS : S.Lawful objects P) {e : CompileError} (he : e.Consistent)
    {s : Statement} {fc : Bool} : S.Meets s fc (MonadExcept.throw e) (fun _ => []) :=
  fun _ hb => hS.throw he hb

theorem meets_byName (hS : S.Lawful objects P) (hobjects : ∀ entry ∈ objects, entry.2.Each P)
    (hjump : S.Jumps objects P jump) (hshape : h.shape = .reference) (hs : P (.mk h o cs))
    (ho : ∀ serial t, o ≠ .target serial t) (here : Option Location) (fc : Bool) :
    S.Meets (.mk h o cs) fc (byName objects (jump.map Routine.run) h here fc)
      (byNameTrace objects jump h here fc) := by
  simp only [byName, byNameTrace]
  cases hfind : objects.find? ⟨h.kind, h.name.getD ""⟩ with
  | none => exact hS.meets_throw (e := .unresolvedReference ..) trivial
  | some t =>
    cases jump with
    | none => exact hS.meets_throw (e := .circularReference ..) trivial
    | some routine =>
      have ht : (Statement.mk h o cs).target? objects =
          some (⟨t.kind, .named (h.name.getD "")⟩, t) := by
        cases o with
        | target serial t' => exact absurd rfl (ho serial t')
        | empty => simp [Statement.target?, hfind]
        | stage handle => simp [Statement.target?, hfind]
      have hP : t.Each P := hobjects _ (Objects.mem_of_find hfind)
      exact hS.refer hshape hs ht hP (hjump.within routine rfl t here fc)
        (hjump.meets routine rfl t hP here fc)

-- by the constructors of statements; `hjump` stands for the induction over the depth of references

mutual

theorem meets_statement (hS : S.Lawful objects P) (hobjects : ∀ entry ∈ objects, entry.2.Each P)
    (hjump : S.Jumps objects P jump) :
    ∀ s : Statement, s.Each P → ∀ around fc,
      S.Meets s fc (statement objects (jump.map Routine.run) around fc s)
        (statementTrace objects jump around fc s)
  | .mk h o cs, hs, around, fc => by
    rw [statement, statementTrace]
    cases hshape : h.shape with
    | single =>
      cases o with
      | stage handle => exact hS.single hshape hs.self
      | empty => exact hS.meets_throw (e := .missingStage _) trivial
      | target serial t => exact hS.meets_throw (e := .missingStage _) trivial
    | reference => exact meets_reference hS hobjects hjump o h cs hshape hs _ fc
    | sequence =>
      cases hall : h.flags.catchAll with
      | true => exact hS.meets_throw (e := .nestedCatchAll _) trivial
      | false =>
        intro b hb
        show wp (_ >>= _) _ _ b
        rw [wp_bind]
        refine wp_mono (wp_chain hS hobjects hjump cs hs.children _ fc (hS.chain_start hb)) ?_
          fun _ _ h => h
        exact fun c b' hc => hS.chain_finish hshape hc
    | junction =>
      intro b hb
      rw [wp_bind]
      refine wp_mono (wp_branching hS hobjects hjump cs hs.children _ fc (hS.branch_start hb)) ?_
        fun _ _ h => h
      exact fun j b' hj => hS.branch_finish hshape hj

theorem meets_reference (hS : S.Lawful objects P) (hobjects : ∀ entry ∈ objects, entry.2.Each P)
    (hjump : S.Jumps objects P jump) :
    ∀ o : Object, ∀ h cs, h.shape = .reference → (Statement.mk h o cs).Each P → ∀ here fc,
      S.Meets (.mk h o cs) fc (reference objects (jump.map Routine.run) h here fc o)
        (referenceTrace objects jump h here fc o)
  | .empty, h, cs, hshape, hs, here, fc => by
    rw [reference, referenceTrace]
    exact meets_byName hS hobjects hjump hshape hs.self (fun _ _ => by simp) here fc
  | .stage _, h, cs, hshape, hs, here, fc => by
    rw [reference, referenceTrace]
    exact meets_byName hS hobjects hjump hshape hs.self (fun _ _ => by simp) here fc
  | .target serial t, h, cs, hshape, hs, here, fc => by
    rw [reference, referenceTrace]
    exact hS.refer hshape hs.self rfl hs.target (within_statement hjump.within t here fc)
      (meets_statement hS hobjects hjump t hs.target here fc)

theorem wp_chain (hS : S.Lawful objects P) (hobjects : ∀ entry ∈ objects, entry.2.Each P)
    (hjump : S.Jumps objects P jump) :
    ∀ ss : List Statement, (∀ s ∈ ss, s.Each P) → ∀ here fc {added b₀ l c b},
      S.chained added fc b₀ l c b → wp (chain objects (jump.map Routine.run) here fc c ss)
        (S.chained (added ++ ss) fc b₀ (l ++ chainTrace objects jump here fc c ss b))
        (S.failed b₀ (l ++ chainTrace objects jump here fc c ss b)) b
  | [], _, here, fc, added, b₀, l, c, b, hc => by
    rw [chain, chainTrace, List.append_nil, List.append_nil]
    exact hc
  | s :: ss, hs, here, fc, added, b₀, l, c, b, hc => by
    rw [chain, chainTrace, ← bind_assoc, List.append_cons]
    refine wp_onward (Q := fun l' => S.chained _ fc b₀ (l ++ (_ ++ l')))
      (E := fun l' => S.failed b₀ (l ++ (_ ++ l'))) ?_
    rw [wp_bind]
    refine wp_mono (meets_statement hS hobjects hjump s (hs s (by simp)) here _ b
      (hS.chain_ready hc)) (fun f b₁ hf => ?_) fun e b₁ he => ?_
    · refine wp_mono (hS.chain_add _ hc hf) (fun c' b₂ hc' => ?_) fun e b₂ he => ?_
      · simp only [← List.append_assoc]
        exact wp_chain hS hobjects hjump ss (fun s h => hs s (by simp [h])) here fc hc'
      · rw [List.append_nil]; exact he
    · rw [List.append_nil]; exact hS.chain_failed hc he

theorem wp_branching (hS : S.Lawful objects P) (hobjects : ∀ entry ∈ objects, entry.2.Each P)
    (hjump : S.Jumps objects P jump) :
    ∀ ss : List Statement, (∀ s ∈ ss, s.Each P) → ∀ here fc {added b₀ l j b},
      S.branched added fc b₀ l j b → wp (branching objects (jump.map Routine.run) here fc j ss)
        (S.branched (added ++ ss) fc b₀ (l ++ branchingTrace objects jump here fc j ss b))
        (S.failed b₀ (l ++ branchingTrace objects jump here fc j ss b)) b
  | [], _, here, fc, added, b₀, l, j, b, hj => by
    rw [branching, branchingTrace, List.append_nil, List.append_nil]
    exact hj
  | s :: ss, hs, here, fc, added, b₀, l, j, b, hj => by
    rw [branching, branchingTrace, ← bind_assoc, List.append_cons]
    refine wp_onward (Q := fun l' => S.branched _ fc b₀ (l ++ (_ ++ l')))
      (E := fun l' => S.failed b₀ (l ++ (_ ++ l'))) ?_
    rw [wp_bind]
    refine wp_mono (meets_statement hS hobjects hjump s (hs s (by simp)) here _ b
      (hS.branch_ready hj)) (fun f b₁ hf => ?_) fun e b₁ he => ?_
    · refine wp_mono (hS.branch_add _ hj hf) (fun j' b₂ hj' => ?_) fun e b₂ he => ?_
      · simp only [← List.append_assoc]
        exact wp_branching hS hobjects hjump ss (fun s h => hs s (by simp [h])) here fc hj'
      · rw [List.append_nil]; exact he
    · rw [List.append_nil]; exact hS.branch_failed hj he

end

/-- References by name may be taken to have empty traces where the trace does not matter. -/
theorem exists_meets_statement (hS : S.Lawful objects P)
    (hobjects : ∀ entry ∈ objects, entry.2.Each P) {jump : Option (Run σ ω)}
    (hjump : ∀ run ∈ jump, ∀ s : Statement, s.Each P → ∀ around fc,
      S.Meets s fc (run around fc s) fun _ => [])
    (s : Statement) (hs : s.Each P) (around : Option Location) (fc : Bool) :
    ∃ trace, S.Meets s fc (statement objects jump around fc s) trace := by
  have hmap : (jump.map fun run => (⟨run, fun _ _ _ _ => []⟩ : Routine σ ω)).map Routine.run =
      jump := by
    cases jump with
    | none => rfl
    | some run => rfl
  rw [← hmap]
  refine ⟨_, hS.meets_statement hobjects ⟨?_, ?_⟩ s hs around fc⟩
  · intro r hr s around fc
    obtain ⟨run, -, rfl⟩ := Option.map_eq_some_iff.1 hr
    exact within_nil
  · intro r hr s hs around fc
    obtain ⟨run, hrun, rfl⟩ := Option.map_eq_some_iff.1 hr
    exact hjump run hrun s hs around fc

omit [Stage σ ω] in
theorem jumps_none : S.Jumps objects P none where
  within _ h := by cases h
  meets _ h := by cases h

theorem meets_upTo (hS : S.Lawful objects P) (hobjects : ∀ entry ∈ objects, entry.2.Each P)
    (depth : Nat) : ∀ s : Statement, s.Each P → ∀ around fc,
      S.Meets s fc (upTo objects depth around fc s) (upToTrace objects depth around fc s) := by
  induction depth with
  | zero => exact hS.meets_statement hobjects jumps_none
  | succ depth ih =>
    have hjumps : S.Jumps objects P (some ⟨upTo objects depth, upToTrace objects depth⟩) := by
      refine ⟨?_, ?_⟩
      · intro r hr
        cases hr
        exact within_upTo depth
      · intro r hr
        cases hr
        exact ih
    exact hS.meets_statement hobjects hjumps

theorem meets_node (hS : S.Lawful objects P) (hobjects : ∀ entry ∈ objects, entry.2.Each P)
    {s : Statement} (hs : s.Each P) (fc : Bool) :
    S.Meets s fc (node objects fc s) (nodeTrace objects fc s) :=
  hS.meets_upTo hobjects _ s hs none fc

end Lawful

end Scheme

end Compile

end Routing
