import Mathlib.Logic.Relation
import Routing.Proofs.Compile.Heads
/-!
# What compiling a statement calls for

To compile a statement means to compile its children, each in the state that those before it leave,
or the target of a reference. A `Task` is a statement together with the context and the state in
which it is compiled. A context that holds senders back is passed on, so that every head below shows
it; and what shows when a task is done shows when the task that called for it is done.
-/

namespace Routing

variable {σ ω α β : Type}

namespace Compile

open Build

/-! ### Runs that are known -/

section Runs

variable {x : Compile σ ω α} {f : α → Compile σ ω β} {b b' : Build σ ω}

theorem run_eq_ok {a : α} (h : (x.run b).1 = .ok a) : x.run b = (.ok a, (x.run b).2) :=
  Prod.ext h rfl

theorem wp_bind_of_run {Q : β → Build σ ω → Prop} {E : CompileError → Build σ ω → Prop} {a : α}
    (hx : x.run b = (.ok a, b')) (h : wp (f a) Q E b') : wp (x >>= f) Q E b := by
  rw [wp_bind]
  unfold wp
  rw [hx]
  exact h

/-- What holds after a step holds after more of them that keep it. -/
theorem wp_bind_of_state {R : Build σ ω → Prop} (h : R (x.run b).2)
    (hf : ∀ a, x.run b = (.ok a, (x.run b).2) →
      wp (f a) (fun _ => R) (fun _ => R) (x.run b).2) :
    wp (x >>= f) (fun _ => R) (fun _ => R) b := by
  rw [wp_bind]
  unfold wp
  rcases hx : x.run b with ⟨e | a, b'⟩
  · rw [hx] at h
    exact h
  · simp only [hx] at hf
    exact hf a rfl

end Runs

variable [Stage σ ω]

/-- How references by name are compiled that may be nested so deep. -/
def below (objects : Objects) : Nat → Option (Run σ ω)
  | 0 => none
  | depth + 1 => some (upTo objects depth)

theorem upTo_eq (objects : Objects) (depth : Nat) :
    upTo (σ := σ) objects depth = statement objects (below objects depth) := by
  cases depth <;> rfl

variable {objects : Objects} {jump : Option (Run σ ω)} {here : Option Location} {fc : Bool}

theorem chain_append (pre post : List Statement) (c : Chain) :
    chain objects jump here fc c (pre ++ post) =
      chain objects jump here fc c pre >>= fun c => chain objects jump here fc c post := by
  induction pre generalizing c with
  | nil => rw [List.nil_append, chain, pure_bind]
  | cons s pre ih => simp only [List.cons_append, chain, bind_assoc, ih]

theorem branching_append (pre post : List Statement) (j : Branching) :
    branching objects jump here fc j (pre ++ post) =
      branching objects jump here fc j pre >>= fun j => branching objects jump here fc j post := by
  induction pre generalizing j with
  | nil => rw [List.nil_append, branching, pure_bind]
  | cons s pre ih => simp only [List.cons_append, branching, bind_assoc, ih]

section Shapes

variable {s t : Statement} {around : Option Location} {depth : Nat}

theorem upTo_single (hshape : s.shape = .single) :
    upTo (σ := σ) objects depth around fc s =
      single s.heading (s.located.or around) s.object := by
  obtain ⟨h, o, cs⟩ := s
  change h.shape = .single at hshape
  rw [upTo_eq, statement]
  simp only [hshape]
  rfl

theorem upTo_nested (hshape : s.shape = .sequence) (hall : s.flags.catchAll = true) :
    upTo (σ := σ) objects depth around fc s =
      throw (.nestedCatchAll (s.heading.describe (s.located.or around))) := by
  obtain ⟨h, o, cs⟩ := s
  change h.shape = .sequence at hshape
  change h.flags.catchAll = true at hall
  rw [upTo_eq, statement]
  simp only [hshape, hall, if_true]
  rfl

theorem upTo_sequence (hshape : s.shape = .sequence) (hall : s.flags.catchAll = false) :
    upTo (σ := σ) objects depth around fc s =
      (chain objects (below objects depth) (s.located.or around) fc {} s.children >>= fun c =>
        c.finish s.flags fc) := by
  obtain ⟨h, o, cs⟩ := s
  change h.shape = .sequence at hshape
  change h.flags.catchAll = false at hall
  rw [upTo_eq, statement]
  simp only [hshape, hall, Bool.false_eq_true, if_false]
  rfl

theorem upTo_junction (hshape : s.shape = .junction) :
    upTo (σ := σ) objects depth around fc s =
      (branching objects (below objects depth) (s.located.or around) fc {} s.children >>= fun j =>
        j.finish s.flags fc) := by
  obtain ⟨h, o, cs⟩ := s
  change h.shape = .junction at hshape
  rw [upTo_eq, statement]
  simp only [hshape]
  rfl

theorem upTo_inline {serial : Nat} (hshape : s.shape = .reference)
    (ho : s.object = .target serial t) :
    upTo (σ := σ) objects depth around fc s =
      referTo s.heading (s.located.or around) ⟨t.kind, .inline serial⟩ t.heading.memo
        (upTo objects depth (s.located.or around) fc t) := by
  obtain ⟨h, o, cs⟩ := s
  change h.shape = .reference at hshape
  change o = _ at ho
  rw [upTo_eq, statement, ho]
  simp only [hshape]
  rw [reference]
  rfl

theorem upTo_byName (hshape : s.shape = .reference)
    (ho : ∀ serial t, s.object ≠ .target serial t) :
    upTo (σ := σ) objects depth around fc s =
      byName objects (below objects depth) s.heading (s.located.or around) fc := by
  obtain ⟨h, o, cs⟩ := s
  change h.shape = .reference at hshape
  rw [upTo_eq, statement]
  simp only [hshape]
  cases o with
  | empty => rw [reference]; rfl
  | stage handle => rw [reference]; rfl
  | target serial t' => exact absurd rfl (ho serial t')

theorem upTo_unresolved (hshape : s.shape = .reference) (ht : s.target? objects = none) :
    upTo (σ := σ) objects depth around fc s =
      throw (.unresolvedReference s.kind (s.name.getD "")
        (Location.textOf (s.located.or around))) := by
  by_cases ho : ∃ serial t, s.object = .target serial t
  · obtain ⟨serial, t, ho⟩ := ho
    obtain ⟨h, o, cs⟩ := s
    cases ho
    cases ht
  · have ho : ∀ serial t, s.object ≠ .target serial t := by simpa using ho
    rw [Statement.target_of_byName ho, Option.map_eq_none_iff] at ht
    rw [upTo_byName hshape ho, byName]
    simp only [Statement.kind, Statement.name] at ht
    simp only [ht]
    rfl

theorem upTo_named (hshape : s.shape = .reference) (ho : ∀ serial t, s.object ≠ .target serial t)
    (hfind : objects.find? ⟨s.kind, s.name.getD ""⟩ = some t) :
    upTo (σ := σ) objects (depth + 1) around fc s =
      referTo s.heading (s.located.or around) ⟨t.kind, .named (s.name.getD "")⟩ t.heading.memo
        (upTo objects depth (s.located.or around) fc t) := by
  change objects.find? ⟨s.heading.kind, s.heading.name.getD ""⟩ = some t at hfind
  rw [upTo_byName hshape ho, byName]
  simp only [hfind, below]
  rfl

end Shapes

theorem Scheme.Lawful.exists_jumps {S : Scheme σ ω} {P : Statement → Prop} (hS : S.Lawful objects P)
    (hobjects : ∀ entry ∈ objects, entry.2.Each P) (depth : Nat) :
    ∃ routines, S.Jumps objects P routines ∧ routines.map Routine.run = below objects depth := by
  cases depth with
  | zero => exact ⟨none, jumps_none, rfl⟩
  | succ depth =>
    refine ⟨some ⟨upTo objects depth, upToTrace objects depth⟩, ⟨?_, ?_⟩, rfl⟩
    · intro r hr
      cases hr
      exact within_upTo depth
    · intro r hr
      cases hr
      exact hS.meets_upTo hobjects depth

/-! ### Heads in the making -/

variable {b₀ b : Build σ ω} {depth : Nat}

/-- A sequence in the making enriches an earlier state, and its head may be entered. -/
def Chain.Enters (b₀ b : Build σ ω) (c : Chain) : Prop :=
  Enriches b₀ b ∧ ∀ h, c.first = some h → b.Enterable h

/-- A junction in the making enriches an earlier state, and its fork may be entered. -/
def Branching.Enters (b₀ b : Build σ ω) (j : Branching) : Prop :=
  Enriches b₀ b ∧ ∀ f, j.fork = some f → b.Enterable f

theorem heads_upTo {s : Statement} {around : Option Location} (hb : b.Bare) :
    wp (upTo objects depth around fc s)
      (fun f b' => Enriches b b' ∧
        ∀ h, f.head = some h → b'.Enterable h ∧ (b'.graph.capabilities h).Bears s fc)
      (fun _ => Enriches b) b :=
  (lawful_heads objects).meets_upTo (fun _ _ _ _ => trivial) depth s (fun _ _ => trivial) around fc b hb

theorem heads_chain {c : Chain} (ss : List Statement) (hc : c.Enters b₀ b) :
    wp (chain objects (below objects depth) here fc c ss) (fun c => c.Enters b₀)
      (fun _ => Enriches b₀) b := by
  obtain ⟨routines, hjumps, hrun⟩ :=
    (lawful_heads (σ := σ) objects).exists_jumps (fun _ _ _ _ => trivial) depth
  have hchained : heads.chained [] fc b₀ [] c b := hc
  rw [← hrun]
  exact (lawful_heads objects).wp_chain (fun _ _ _ _ => trivial) hjumps ss
    (fun _ _ _ _ => trivial) here fc hchained

theorem heads_branching {j : Branching} (ss : List Statement) (hj : j.Enters b₀ b) :
    wp (branching objects (below objects depth) here fc j ss) (fun j => j.Enters b₀)
      (fun _ => Enriches b₀) b := by
  obtain ⟨routines, hjumps, hrun⟩ :=
    (lawful_heads (σ := σ) objects).exists_jumps (fun _ _ _ _ => trivial) depth
  have hbranched : heads.branched [] fc b₀ [] j b := hj
  rw [← hrun]
  exact (lawful_heads objects).wp_branching (fun _ _ _ _ => trivial) hjumps ss
    (fun _ _ _ _ => trivial) here fc hbranched

omit [Stage σ ω] in
theorem Chain.Enters.start (hb : b.Bare) : Chain.Enters b b {} := ⟨.refl hb, fun _ h => by cases h⟩

omit [Stage σ ω] in
theorem Branching.Enters.start (hb : b.Bare) : Branching.Enters b b {} :=
  ⟨.refl hb, fun _ h => by cases h⟩

/-! ### Tasks -/

/-- A statement that is about to be compiled. -/
structure Task (σ ω : Type) where
  /-- How deep references by name may be nested. -/
  depth : Nat
  around : Option Location
  flowControl : Bool
  statement : Statement
  state : Build σ ω

namespace Task

/-- Where the statement counts as written. -/
def located (k : Task σ ω) : Option Location :=
  k.statement.located.or k.around

/-- What compiling the statement gives, and the state afterwards. -/
def result (objects : Objects) (k : Task σ ω) : Except CompileError Fragment × Build σ ω :=
  (upTo objects k.depth k.around k.flowControl k.statement).run k.state

/-- A child is compiled when those before it were added. -/
inductive Child (objects : Objects) (k : Task σ ω) : Task σ ω → Prop
  | sequence {pre post : List Statement} {s : Statement} {b : Build σ ω} {c : Chain}
    (hshape : k.statement.shape = .sequence) (hall : k.statement.flags.catchAll = false)
    (hcs : k.statement.children = pre ++ s :: post)
    (hrun : (chain objects (below objects k.depth) k.located k.flowControl {} pre).run k.state =
      (.ok c, b)) :
    Child objects k ⟨k.depth, k.located, k.flowControl || s.flags.flowControl, s, b⟩
  | junction {pre post : List Statement} {s : Statement} {b : Build σ ω} {j : Branching}
    (hshape : k.statement.shape = .junction) (hcs : k.statement.children = pre ++ s :: post)
    (hrun : (branching objects (below objects k.depth) k.located k.flowControl {} pre).run k.state =
      (.ok j, b)) :
    Child objects k ⟨k.depth, k.located, k.flowControl || s.flags.flowControl, s, b⟩

/-- The target of a reference is compiled, unless it is remembered. -/
inductive Target (objects : Objects) (k : Task σ ω) : Task σ ω → Prop
  | inline {serial : Nat} {t : Statement} (hshape : k.statement.shape = .reference)
    (ho : k.statement.object = .target serial t)
    (hnew : (⟨t.kind, .inline serial⟩ : TargetKey).Shared →
      (k.state.memos.lookup ⟨t.kind, .inline serial⟩).or t.heading.memo = none) :
    Target objects k ⟨k.depth, k.located, k.flowControl, t, k.state⟩
  | named {t : Statement} {depth : Nat} (hdepth : k.depth = depth + 1)
    (hshape : k.statement.shape = .reference) (ho : ∀ serial t, k.statement.object ≠ .target serial t)
    (hfind : objects.find? ⟨k.statement.kind, k.statement.name.getD ""⟩ = some t)
    (hnew : (⟨t.kind, .named (k.statement.name.getD "")⟩ : TargetKey).Shared →
      (k.state.memos.lookup ⟨t.kind, .named (k.statement.name.getD "")⟩).or t.heading.memo = none) :
    Target objects k ⟨depth, k.located, k.flowControl, t, k.state⟩

/-- Compiling the one statement means compiling the other on the way. -/
def Calls (objects : Objects) (k k' : Task σ ω) : Prop :=
  k.Child objects k' ∨ k.Target objects k'

/-- The task calls for the other one, directly or through others, or is the same. -/
def Reaches (objects : Objects) : Task σ ω → Task σ ω → Prop :=
  Relation.ReflTransGen (Calls objects)

variable {k k' : Task σ ω}

theorem enriches_result (hb : k.state.Bare) : Enriches k.state (k.result objects).2 :=
  wp_state (wp_mono (heads_upTo hb) (fun _ _ h => h.1) fun _ _ h => h)

/-- A sequence or a junction in a context that holds senders back has a head that does. -/
theorem holds_result {f : Fragment} {b : Build σ ω} {h : SlotId} (hb : k.state.Bare)
    (hfc : k.flowControl = true)
    (hshape : k.statement.shape = .sequence ∨ k.statement.shape = .junction)
    (hrun : k.result objects = (.ok f, b)) (hh : f.head = some h) :
    h < b.graph.size ∧ (b.graph.capabilities h).hardFlowControl = true := by
  obtain ⟨henter, hbears⟩ := (wp_ok (heads_upTo hb) hrun).2 h hh
  exact ⟨henter.lt, hbears.flowControl hshape (.inr hfc)⟩

end Task

/-! ### What one task leaves of another -/

/-- A reference keeps what holds once its target is compiled. -/
theorem wp_referTo_of_run {R : Build σ ω → Prop} (hR : Wired R)
    (hmark : ∀ {b key id}, R b → R (b.mark key id)) {h : Heading} {key : TargetKey}
    {settled : Option SlotId} {run : Compile σ ω Fragment}
    (hnew : key.Shared → (b.memos.lookup key).or settled = none)
    (hrun : wp run (fun _ => R) (fun _ => R) b) :
    wp (referTo h here key settled run) (fun _ => R) (fun _ => R) b := by
  have honce : key.Shared → ∀ end_ : Fragment → Option SlotId,
      wp (once key settled (emptyObject h here) (return end_ (← run))) (fun _ => R) (fun _ => R) b := by
    intro hk end_
    unfold once
    simp only [wp_bind, wp_remembered, hnew hk, wp_pure]
    refine wp_mono hrun (fun f b' hb' => ?_) fun _ _ h => h
    cases end_ f with
    | none => exact hb'
    | some id => exact hmark hb'
  unfold referTo
  split
  · next hk =>
    rw [wp_bind]
    refine wp_mono (honce (.inl hk) _) (fun tail b' hb' => ?_) fun _ _ h => h
    exact hR.sourceEnd tail _ b' hb'
  · next hk =>
    rw [wp_bind]
    refine wp_mono (honce (.inr hk) _) (fun head b' hb' => ?_) fun _ _ h => h
    exact hR.destinationEnd head b' hb'
  · exact hrun

namespace Task

variable {k k' : Task σ ω}

theorem Child.bare (hcall : k.Child objects k') (hb : k.state.Bare) : k'.state.Bare := by
  cases hcall with
  | sequence _ _ _ hrun => exact (wp_ok (heads_chain _ (.start hb)) hrun).1.bare
  | junction _ _ hrun => exact (wp_ok (heads_branching _ (.start hb)) hrun).1.bare

/-- The rest of a sequence or a junction takes nothing away from what a child leaves. -/
theorem Child.enriches (hcall : k.Child objects k') (hb : k.state.Bare) :
    Enriches (k'.result objects).2 (k.result objects).2 := by
  have hb' : k'.state.Bare := hcall.bare hb
  have hbare : (k'.result objects).2.Bare := (enriches_result hb').bare
  cases hcall with
  | @sequence pre post s b' c hshape hall hcs hrun =>
    have hc := wp_ok (heads_chain _ (.start hb)) hrun
    refine wp_state ?_
    rw [upTo_sequence hshape hall, hcs, chain_append, bind_assoc]
    refine wp_bind_of_run hrun ?_
    rw [chain]
    simp only [bind_assoc]
    rw [← upTo_eq]
    refine wp_bind_of_state (.refl hbare) fun f hf => ?_
    -- the child counts as compiled without any effect, so that the rest starts in the state it leaves
    obtain ⟨he, hhead⟩ := wp_ok (heads_upTo hb') hf
    have hchained : heads.chained [] k.flowControl _ [] c _ :=
      ⟨.refl hbare, fun x hx => he.enterable (hc.2 x hx)⟩
    have hdone : heads.done s (k.flowControl || s.flags.flowControl) _ [] f _ := ⟨.refl hbare, hhead⟩
    rw [wp_bind]
    refine wp_mono ((lawful_heads objects).chain_add _ hchained hdone) (fun c' b₁ hc' => ?_)
      fun _ _ h => h
    rw [wp_bind]
    refine wp_mono (heads_chain post hc') (fun c'' b₂ hc'' => ?_) fun _ _ h => h
    have hchained' : heads.chained [] k.flowControl _ [] c'' b₂ := hc''
    refine wp_mono ((lawful_heads objects).chain_finish (o := .empty) hshape hchained')
      (fun _ _ h => h.1) fun _ _ h => h
  | @junction pre post s b' j hshape hcs hrun =>
    have hj := wp_ok (heads_branching _ (.start hb)) hrun
    refine wp_state ?_
    rw [upTo_junction hshape, hcs, branching_append, bind_assoc]
    refine wp_bind_of_run hrun ?_
    rw [branching]
    simp only [bind_assoc]
    rw [← upTo_eq]
    refine wp_bind_of_state (.refl hbare) fun f hf => ?_
    obtain ⟨he, hhead⟩ := wp_ok (heads_upTo hb') hf
    have hbranched : heads.branched [] k.flowControl _ [] j _ :=
      ⟨.refl hbare, fun x hx => he.enterable (hj.2 x hx)⟩
    have hdone : heads.done s (k.flowControl || s.flags.flowControl) _ [] f _ := ⟨.refl hbare, hhead⟩
    rw [wp_bind]
    refine wp_mono ((lawful_heads objects).branch_add _ hbranched hdone) (fun j' b₁ hj' => ?_)
      fun _ _ h => h
    rw [wp_bind]
    refine wp_mono (heads_branching post hj') (fun j'' b₂ hj'' => ?_) fun _ _ h => h
    have hbranched' : heads.branched [] k.flowControl _ [] j'' b₂ := hj''
    refine wp_mono ((lawful_heads objects).branch_finish (o := .empty) hshape hbranched')
      (fun _ _ h => h.1) fun _ _ h => h

omit [Stage σ ω] in
theorem Target.state_eq (hcall : k.Target objects k') : k'.state = k.state := by
  cases hcall <;> rfl

/-- A reference takes nothing away from what its target leaves. -/
theorem Target.enriches (hcall : k.Target objects k') (hb : k.state.Bare) :
    Enriches (k'.result objects).2 (k.result objects).2 := by
  have hb' : k'.state.Bare := hcall.state_eq ▸ hb
  have hbare : (k'.result objects).2.Bare := (enriches_result hb').bare
  have hmark : ∀ {b : Build σ ω} {key id}, Enriches (k'.result objects).2 b →
      Enriches (k'.result objects).2 (b.mark key id) := fun he => ⟨he.role, he.capabilities, he.bare⟩
  have hkeep : wp (upTo objects k'.depth k'.around k'.flowControl k'.statement)
      (fun _ => Enriches (k'.result objects).2) (fun _ => Enriches (k'.result objects).2)
      k'.state := by
    rw [← bind_pure (upTo objects _ _ _ _)]
    exact wp_bind_of_state (.refl hbare) fun f _ => .refl hbare
  cases hcall with
  | inline hshape ho hnew =>
    refine wp_state ?_
    rw [upTo_inline hshape ho]
    exact wp_referTo_of_run (wired_enriches _) hmark hnew hkeep
  | named hdepth hshape ho hfind hnew =>
    refine wp_state ?_
    rw [hdepth, upTo_named hshape ho hfind]
    exact wp_referTo_of_run (wired_enriches _) hmark hnew hkeep

/-! ### Tasks below a task -/

theorem Calls.flowControl (hcall : k.Calls objects k') (hfc : k.flowControl = true) :
    k'.flowControl = true := by
  rcases hcall with hcall | hcall
  · cases hcall <;> simp_all
  · cases hcall <;> exact hfc

theorem Calls.bare (hcall : k.Calls objects k') (hb : k.state.Bare) : k'.state.Bare :=
  hcall.elim (fun hcall => hcall.bare hb) fun hcall => hcall.state_eq ▸ hb

theorem Calls.enriches (hcall : k.Calls objects k') (hb : k.state.Bare) :
    Enriches (k'.result objects).2 (k.result objects).2 :=
  hcall.elim (fun hcall => hcall.enriches hb) fun hcall => hcall.enriches hb

theorem Reaches.flowControl (hr : k.Reaches objects k') (hfc : k.flowControl = true) :
    k'.flowControl = true := by
  induction hr with
  | refl => exact hfc
  | tail _ hcall ih => exact hcall.flowControl ih

theorem Reaches.bare (hr : k.Reaches objects k') (hb : k.state.Bare) : k'.state.Bare := by
  induction hr with
  | refl => exact hb
  | tail _ hcall ih => exact hcall.bare ih

theorem Reaches.enriches (hr : k.Reaches objects k') (hb : k.state.Bare) :
    Enriches (k'.result objects).2 (k.result objects).2 := by
  induction hr with
  | refl => exact .refl (enriches_result hb).bare
  | tail hr hcall ih => exact (hcall.enriches (Reaches.bare hr hb)).trans ih

/-- A child with the flag is in a context that holds senders back. -/
theorem Child.flowControl (hcall : k.Child objects k')
    (hflag : k'.statement.flags.flowControl = true) : k'.flowControl = true := by
  cases hcall <;> simp_all

end Task

end Compile

end Routing
