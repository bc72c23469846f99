import Routing.Proofs.Compile.Mixed
/-!
# Trees without references

Where stages are no sources and can be cloned, a tree without references fails for two reasons only: a
single statement without a stage, and a junction with a branch for which nothing is compiled next to
one for which something is. Only such a branch has no head.
-/

namespace Routing

variable {σ ω : Type}

namespace Statement

/-! ### Trees -/

mutual

/-- The statement, the children of sequences and junctions in it, and so on. -/
def nodes : Statement → List Statement
  | .mk h o cs =>
    .mk h o cs :: if h.shape = .sequence ∨ h.shape = .junction then allNodes cs else []

/-- All nodes of the statements in a list. -/
def allNodes : List Statement → List Statement
  | [] => []
  | s :: ss => s.nodes ++ allNodes ss

end

/-- All nodes of a statement have a property. -/
def Throughout (P : Statement → Prop) (s : Statement) : Prop :=
  ∀ n ∈ s.nodes, P n

/-- Nothing is compiled for the tree. -/
def blank (s : Statement) : Bool :=
  s.nodes.all (·.shape ≠ .single)

theorem mem_allNodes {n : Statement} {ss : List Statement} :
    n ∈ allNodes ss ↔ ∃ s ∈ ss, n ∈ s.nodes := by
  induction ss with
  | nil => simp [allNodes]
  | cons s ss ih => simp [allNodes, ih]

section

variable {P : Statement → Prop} {h : Heading} {o : Object} {cs : List Statement}

theorem throughout_leaf (hseq : h.shape ≠ .sequence) (hjun : h.shape ≠ .junction) :
    (mk h o cs).Throughout P ↔ P (mk h o cs) := by
  simp [Throughout, nodes, hseq, hjun]

theorem throughout_inner (hinner : h.shape = .sequence ∨ h.shape = .junction) :
    (mk h o cs).Throughout P ↔ P (mk h o cs) ∧ ∀ c ∈ cs, c.Throughout P := by
  simp only [Throughout, nodes, if_pos hinner, List.forall_mem_cons, mem_allNodes,
    forall_exists_index, and_imp]
  exact and_congr_right fun _ => ⟨fun h c hc n hn => h n c hc hn, fun h n c hc hn => h c hc n hn⟩

@[simp] theorem throughout_pipe {handle : Handle} {location : Option Location} :
    (pipe handle location).Throughout P ↔ P (pipe handle location) :=
  throughout_leaf nofun nofun

@[simp] theorem throughout_sequence {flags : Flags} {location : Option Location} :
    (sequence cs flags location).Throughout P ↔
      P (sequence cs flags location) ∧ ∀ c ∈ cs, c.Throughout P :=
  throughout_inner (.inl rfl)

@[simp] theorem throughout_junction {location : Option Location} :
    (junction cs location).Throughout P ↔ P (junction cs location) ∧ ∀ c ∈ cs, c.Throughout P :=
  throughout_inner (.inr rfl)

theorem blank_iff {s : Statement} : s.blank = true ↔ s.Throughout (·.shape ≠ .single) := by
  simp [blank, Throughout]

theorem blank_single (hshape : h.shape = .single) : (mk h o cs).blank = false := by
  simp [blank, nodes, shape, heading, hshape]

theorem blank_inner (hinner : h.shape = .sequence ∨ h.shape = .junction) :
    (mk h o cs).blank = cs.all blank := by
  have hself : h.shape ≠ .single := by rcases hinner with h | h <;> simp [h]
  rw [Bool.eq_iff_iff, blank_iff, throughout_inner hinner]
  simp only [List.all_eq_true, blank_iff]
  exact and_iff_right hself

end

end Statement

/-- The handle has a stage that is no source and can always be cloned, to stages that are no sources
either. -/
def Pool.Common [Stage σ ω] (p : Pool σ ω) (handle : Handle) : Prop :=
  ∃ stage, p.stage? handle = some stage ∧ (Stage.capabilities stage).isSource = false ∧
    ∀ shared, ∃ copy shared', Stage.clone stage shared = (some copy, shared') ∧
      (Stage.capabilities copy).isSource = false

namespace Statement

/-- The node is no reference, no sequence with the flag, and no single statement with a stage that is
a source or cannot be cloned. -/
structure PlainNode [Stage σ ω] (p : Pool σ ω) (n : Statement) : Prop where
  reference : n.shape ≠ .reference
  catchAll : n.shape = .sequence → n.flags.catchAll = false
  stage : ∀ handle, n.shape = .single → n.object = .stage handle → p.Common handle

section

variable [Stage σ ω] {p : Pool σ ω} {cs : List Statement} {location : Option Location}

@[simp] theorem plainNode_pipe {handle : Handle} :
    (pipe handle location).PlainNode p ↔ p.Common handle :=
  ⟨fun h => h.stage handle rfl rfl, fun h => ⟨nofun, nofun, fun _ _ ho => by cases ho; exact h⟩⟩

@[simp] theorem plainNode_sequence {flags : Flags} :
    (sequence cs flags location).PlainNode p ↔ flags.catchAll = false :=
  ⟨fun h => h.catchAll rfl, fun h => ⟨nofun, fun _ => h, nofun⟩⟩

@[simp] theorem plainNode_junction : (junction cs location).PlainNode p :=
  ⟨nofun, nofun, nofun⟩

end

/-- The statement has a stage if it is single. -/
def Staged (n : Statement) : Prop :=
  n.shape = .single → ∃ handle, n.object = .stage handle

section

variable {cs : List Statement} {location : Option Location}

@[simp] theorem staged_pipe {handle : Handle} : (pipe handle location).Staged :=
  fun _ => ⟨handle, rfl⟩

@[simp] theorem staged_sequence {flags : Flags} : (sequence cs flags location).Staged := nofun

@[simp] theorem staged_junction : (junction cs location).Staged := nofun

end

/-- A single statement has a stage, and the branches of a junction are all blank or none is. -/
structure AcceptedNode (n : Statement) : Prop where
  stage : n.Staged
  level : n.shape = .junction → ¬ ((∃ c ∈ n.children, c.blank = true) ∧
    ∃ c ∈ n.children, c.blank = false)

end Statement

namespace Draft

/-- A sequence of plain statements in the making. -/
theorem child_plain (v w : Bool) (node : Descriptor) :
    (⟨v, v, v⟩ : Draft).child node ⟨w, w⟩ = .ok ⟨v || w, v || w, v || w⟩ := by
  cases v <;> cases w <;> rfl

/-- A junction of plain statements in the making. -/
theorem branch_plain (v u w : Bool) (node : Descriptor) :
    (⟨v, v, u⟩ : Draft).branch node ⟨w, w⟩ =
      if ((v || w) && (u || !w)) = true then .error (.mixedBranches node)
      else .ok ⟨v || w, v || w, u || !w⟩ := by
  cases v <;> cases u <;> cases w <;> rfl

end Draft

namespace Compile

open Build

variable [Stage σ ω] {p : Pool σ ω} {objects : Objects} {jump : Option (Run σ ω)} {b : Build σ ω}

theorem joining_grown (p : Pool σ ω) : Joining fun b : Build σ ω => p.Grown b.pool where
  own _ _ hb := hb.trans .add
  wire hb := hb
  enable _ hb := hb

theorem stable_grown (p : Pool σ ω) :
    Stable p.instances.size fun b : Build σ ω => p.Grown b.pool where
  own _ hb := hb.trans .add
  wire hb := hb
  enable _ hb := hb
  mark hb := hb
  single _ _ hlt _ hb := wp_single
    (fun _ _ _ hr => hb.trans (hr.grown (Nat.lt_of_lt_of_le hlt hb.size_le)))
    fun _ hr => hb.trans hr.grown

/-- A statement comes to two ends, or to none if it is blank, and fails if a node is not sound. -/
def ComesTo (p : Pool σ ω) (s : Statement) (x : Compile σ ω Fragment) : Prop :=
  ∀ b, p.Grown b.pool →
    wp x (fun f b' => p.Grown b'.pool ∧ s.Throughout Statement.AcceptedNode ∧
        f.outline = ⟨!s.blank, !s.blank⟩)
      (fun e _ => e.Consistent → ¬ s.Throughout Statement.AcceptedNode) b

theorem wp_common {handle : Handle} (hhandle : p.Common handle) (hp : p.Grown b.pool) (h : Heading)
    (here : Option Location) :
    wp (single h here (.stage handle)) (fun f b' => p.Grown b'.pool ∧ f.outline = ⟨true, true⟩)
      (fun _ _ => False) b := by
  obtain ⟨stage, hstage, hsource, hclone⟩ := hhandle
  have hlt := Pool.lt_of_stage hstage
  have hlt' : handle < b.pool.instances.size := Nat.lt_of_lt_of_le hlt hp.size_le
  have hstage' : b.pool.stage? handle = some stage := (hp.stage hlt).trans hstage
  refine wp_single (fun handle' role q hr => ⟨hp.trans (hr.grown hlt'), ?_⟩) fun q hr => ?_
  · have hcaps : (q.capabilities handle').isSource = false := by
      rcases hr.stage with heq | ⟨s, copy, shared, shared', hs, hcopy, hc⟩
      · rw [Pool.capabilities_eq (heq.trans hstage'), hsource]
      · cases hstage'.symm.trans hs
        obtain ⟨copy', shared'', hc', hsource'⟩ := hclone shared
        cases hc.symm.trans hc'
        rw [Pool.capabilities_eq hcopy, hsource']
    simp [outline_eq, hcaps]
  · cases hr with
    | absent hs => cases hstage'.symm.trans hs
    | refused hs hc =>
      cases hstage'.symm.trans hs
      obtain ⟨copy, shared', hc', -⟩ := hclone b.pool.shared
      cases hc.symm.trans hc'

theorem comesTo_single {h : Heading} {o : Object} {cs : List Statement} (hshape : h.shape = .single)
    (hs : Statement.PlainNode p (.mk h o cs)) (here : Option Location) :
    ComesTo p (.mk h o cs) (single h here o) := by
  intro b hp
  have hleaf : ∀ P, (Statement.mk h o cs).Throughout P ↔ P (.mk h o cs) := fun P =>
    Statement.throughout_leaf (by simp [hshape]) (by simp [hshape])
  have hmissing (ho : ∀ handle, o ≠ .stage handle) :
      ¬ (Statement.mk h o cs).Throughout Statement.AcceptedNode := by
    intro haccepted
    obtain ⟨handle, heq⟩ := ((hleaf _).1 haccepted).stage hshape
    exact ho handle heq
  cases o with
  | empty => exact fun _ => hmissing (by simp)
  | target serial t => exact fun _ => hmissing (by simp)
  | stage handle =>
    refine wp_mono (wp_common (hs.stage handle hshape rfl) hp h here) ?_ fun _ _ h => h.elim
    rintro f b' ⟨hp', hf⟩
    refine ⟨hp', (hleaf _).2 ⟨fun _ => ⟨handle, rfl⟩, fun hjun => ?_⟩, ?_⟩
    · cases hshape.symm.trans hjun
    · rw [hf, Statement.blank_single hshape]
      rfl

theorem wp_chain_finish {c : Chain} {v : Bool} (hc : c.Drafts ⟨v, v, v⟩) (hp : p.Grown b.pool)
    (flags : Flags) (fc : Bool) :
    wp (c.finish flags fc) (fun f b' => p.Grown b'.pool ∧ f.outline = ⟨v, v⟩) (fun _ _ => False) b := by
  refine wp_mono (wp_and (c.wp_finish flags fc)
    ((joining_grown p).linear.chain_finish c flags fc b hp)) ?_ fun _ _ h => h.1
  rintro f b' ⟨rfl, hp'⟩
  exact ⟨hp', by rw [outline_eq, ← hc.head, ← hc.tail]⟩

theorem wp_branching_finish {j : Branching} {v u : Bool} (hj : j.Drafts ⟨v, v, u⟩)
    (hp : p.Grown b.pool) (flags : Flags) (fc : Bool) :
    wp (j.finish flags fc) (fun f b' => p.Grown b'.pool ∧ f.outline = ⟨v, v⟩) (fun _ _ => False) b := by
  refine wp_mono (wp_and (j.wp_finish flags fc)
    ((joining_grown p).linear.branching_finish j flags fc b hp)) ?_ fun _ _ h => h.1
  rintro f b' ⟨rfl, hp'⟩
  exact ⟨hp', by rw [outline_eq, ← hj.head, ← hj.tail]⟩

theorem level_iff {cs : List Statement} :
    ¬ ((∃ c ∈ cs, c.blank = true) ∧ ∃ c ∈ cs, c.blank = false) ↔
      ((!cs.all Statement.blank) && cs.any Statement.blank) = false := by
  simp only [Bool.and_eq_false_iff, Bool.not_eq_false', List.all_eq_true, List.any_eq_false]
  constructor
  · intro h
    by_cases hany : ∃ c ∈ cs, c.blank = true
    · exact .inl fun c hc => by simpa using fun hblank => h ⟨hany, c, hc, hblank⟩
    · exact .inr fun c hc hblank => hany ⟨c, hc, hblank⟩
  · rintro h ⟨⟨c, hc, hblank⟩, c', hc', hfull⟩
    rcases h with h | h
    · cases (h c' hc').symm.trans hfull
    · exact h c hc hblank

-- by the constructors of statements, with the drafts of sequences and junctions as what carries over
-- from child to child

mutual

theorem comesTo_statement : ∀ s : Statement, s.Throughout (Statement.PlainNode p) →
    ∀ around fc, ComesTo p s (statement objects jump around fc s)
  | .mk h o cs, hs, around, fc => by
    rw [statement]
    have hself : Statement.PlainNode p (.mk h o cs) := hs _ (by simp [Statement.nodes])
    cases hshape : h.shape with
    | single => exact comesTo_single hshape hself _
    | reference => exact absurd hshape hself.reference
    | sequence =>
      have hinner : h.shape = .sequence ∨ h.shape = .junction := .inl hshape
      have hall : h.flags.catchAll = false := hself.catchAll hshape
      have hcs := ((Statement.throughout_inner hinner).1 hs).2
      intro b hp
      simp only [hall, Bool.false_eq_true, if_false]
      rw [wp_bind]
      refine wp_mono (comesTo_chain cs hcs _ fc .start hp) ?_ fun e _ h he haccepted =>
        h he ((Statement.throughout_inner hinner).1 haccepted).2
      rintro c b' ⟨hp', haccepted, v, rfl, hc⟩
      refine wp_mono (wp_chain_finish hc hp' h.flags fc) ?_ fun _ _ h => h.elim
      rintro f b'' ⟨hp'', hf⟩
      refine ⟨hp'', (Statement.throughout_inner hinner).2 ⟨⟨fun h => ?_, fun h => ?_⟩, haccepted⟩, ?_⟩
      · cases hshape.symm.trans h
      · cases hshape.symm.trans h
      · rw [hf, Statement.blank_inner hinner, Bool.false_or]
    | junction =>
      have hinner : h.shape = .sequence ∨ h.shape = .junction := .inr hshape
      have hcs := ((Statement.throughout_inner hinner).1 hs).2
      intro b hp
      change wp (_ >>= _) _ _ b
      rw [wp_bind]
      refine wp_mono (comesTo_branching cs hcs _ fc .start hp rfl) ?_ fun e _ h he haccepted => ?_
      · rintro j b' ⟨hp', haccepted, v, u, rfl, rfl, hlevel, hj⟩
        refine wp_mono (wp_branching_finish hj hp' h.flags fc) ?_ fun _ _ h => h.elim
        rintro f b'' ⟨hp'', hf⟩
        refine ⟨hp'', (Statement.throughout_inner hinner).2 ⟨⟨fun h => ?_, fun _ => ?_⟩, haccepted⟩, ?_⟩
        · cases hshape.symm.trans h
        · exact level_iff.2 hlevel
        · rw [hf, Statement.blank_inner hinner, Bool.false_or]
      · obtain ⟨hself, haccepted⟩ := (Statement.throughout_inner hinner).1 haccepted
        exact h he ⟨haccepted, level_iff.1 (hself.level hshape)⟩

theorem comesTo_chain : ∀ ss : List Statement, (∀ s ∈ ss, s.Throughout (Statement.PlainNode p)) →
    ∀ here fc {c : Chain} {v : Bool} {b : Build σ ω}, c.Drafts ⟨v, v, v⟩ → p.Grown b.pool →
      wp (chain objects jump here fc c ss)
        (fun c' b' => p.Grown b'.pool ∧ (∀ s ∈ ss, s.Throughout Statement.AcceptedNode) ∧
          ∃ v', v' = (v || !ss.all Statement.blank) ∧ c'.Drafts ⟨v', v', v'⟩)
        (fun e _ => e.Consistent → ¬ ∀ s ∈ ss, s.Throughout Statement.AcceptedNode) b
  | [], _, here, fc, c, v, b, hc, hp => by
    rw [chain]
    exact ⟨hp, by simp, v, by simp, hc⟩
  | s :: ss, hss, here, fc, c, v, b, hc, hp => by
    obtain ⟨hs, hss⟩ := List.forall_mem_cons.1 hss
    rw [chain, wp_bind]
    refine wp_mono (comesTo_statement s hs here _ b hp) ?_ fun e _ h he haccepted =>
      h he (haccepted s (by simp))
    rintro f b₁ ⟨hp₁, haccepted, hf⟩
    rw [wp_bind]
    refine wp_mono (wp_and (Chain.wp_drafts hc)
      ((joining_grown p).linking.chain_add c _ f b₁ hp₁)) ?_ fun e _ h he => ?_
    · rintro c₁ b₂ ⟨⟨k, hk, hc₁⟩, hp₂⟩
      rw [hf, Draft.child_plain] at hk
      cases hk
      refine wp_mono (comesTo_chain ss hss here fc hc₁ hp₂) ?_ fun e _ h he haccepted =>
        h he fun s hs => haccepted s (by simp [hs])
      rintro c' b' ⟨hp', haccepted', v', rfl, hc'⟩
      refine ⟨hp', List.forall_mem_cons.2 ⟨haccepted, haccepted'⟩, _, ?_, hc'⟩
      rw [List.all_cons, Bool.not_and, Bool.or_assoc]
    · have hk := h.1 he
      rw [hf, Draft.child_plain] at hk
      cases hk

theorem comesTo_branching : ∀ ss : List Statement,
    (∀ s ∈ ss, s.Throughout (Statement.PlainNode p)) →
    ∀ here fc {j : Branching} {v u : Bool} {b : Build σ ω}, j.Drafts ⟨v, v, u⟩ → p.Grown b.pool →
      (v && u) = false →
      wp (branching objects jump here fc j ss)
        (fun j' b' => p.Grown b'.pool ∧ (∀ s ∈ ss, s.Throughout Statement.AcceptedNode) ∧
          ∃ v' u', v' = (v || !ss.all Statement.blank) ∧ u' = (u || ss.any Statement.blank) ∧
            (v' && u') = false ∧ j'.Drafts ⟨v', v', u'⟩)
        (fun e _ => e.Consistent → ¬ ((∀ s ∈ ss, s.Throughout Statement.AcceptedNode) ∧
          ((v || !ss.all Statement.blank) && (u || ss.any Statement.blank)) = false)) b
  | [], _, here, fc, j, v, u, b, hj, hp, hvu => by
    rw [branching]
    exact ⟨hp, by simp, v, u, by simp, by simp, hvu, hj⟩
  | s :: ss, hss, here, fc, j, v, u, b, hj, hp, hvu => by
    obtain ⟨hs, hss⟩ := List.forall_mem_cons.1 hss
    rw [branching, wp_bind]
    refine wp_mono (comesTo_statement s hs here _ b hp) ?_ fun e _ h he haccepted =>
      h he (haccepted.1 s (by simp))
    rintro f b₁ ⟨hp₁, haccepted, hf⟩
    rw [wp_bind]
    have hheads : (v || !(s :: ss).all Statement.blank) =
        ((v || !s.blank) || !ss.all Statement.blank) := by
      rw [List.all_cons, Bool.not_and, Bool.or_assoc]
    have hblanks : (u || (s :: ss).any Statement.blank) =
        ((u || !!s.blank) || ss.any Statement.blank) := by
      rw [List.any_cons, Bool.not_not, Bool.or_assoc]
    rw [hheads, hblanks]
    refine wp_mono (wp_and (Branching.wp_drafts hj)
      ((joining_grown p).branching_add j _ f b₁ hp₁)) ?_ fun e _ h he hlevel => ?_
    · rintro j₁ b₂ ⟨⟨k, hk, hj₁⟩, hp₂⟩
      rw [hf, Draft.branch_plain] at hk
      split_ifs at hk with hmix
      cases hk
      refine wp_mono (comesTo_branching ss hss here fc hj₁ hp₂ (by simpa using hmix)) ?_
        fun e _ h he haccepted => h he ⟨fun s hs => haccepted.1 s (by simp [hs]), haccepted.2⟩
      rintro j' b' ⟨hp', haccepted', v', u', hv', hu', hlevel, hj'⟩
      exact ⟨hp', List.forall_mem_cons.2 ⟨haccepted, haccepted'⟩, v', u', hv', hu', hlevel, hj'⟩
    · have hk := h.1 he
      rw [hf, Draft.branch_plain] at hk
      split_ifs at hk with hmix
      simp_all

end

theorem grown_after {calls : List Call} (hobjects : objects.Holds p.instances.size)
    (hcalls : ∀ call ∈ calls, call.statement.Holds p.instances.size) :
    p.Grown (after objects calls { pool := p }).pool := by
  refine after_induction (P := fun b => p.Grown b.pool) ⟨Nat.le_refl _, fun _ => rfl, id⟩
    fun call hc b hb => wp_state (P := fun b => p.Grown b.pool) ?_
  have hholds := hcalls call hc
  cases call with
  | rule s => exact (stable_grown p).rule hobjects hholds b hb
  | node fc s => exact (stable_grown p).node hobjects hholds fc b hb

/-- A plain tree compiles exactly if its nodes are sound. -/
theorem node_plain (hobjects : objects.Fresh) (hb : b.Sound) (hp : p.Grown b.pool) {s : Statement}
    (hs : s.Fresh) (hplain : s.Throughout (Statement.PlainNode p)) (fc : Bool) :
    (∃ f, ((node objects fc s).run b).1 = .ok f) ↔ s.Throughout Statement.AcceptedNode := by
  have hcomes : ComesTo p s (node objects fc s) := by
    rw [node, upTo_eq]
    exact comesTo_statement s hplain none fc
  have hboth := wp_and (hcomes b hp) (compiles_node hobjects hb hs fc)
  rcases hrun : (node objects fc s).run b with ⟨e | f, b'⟩
  · obtain ⟨h, -, hconsistent⟩ := wp_error hboth hrun
    simp [h hconsistent]
  · simp [(wp_ok hboth hrun).1.2.1]

/-- The task of compiling a statement on its own. -/
def Task.ofNode (objects : Objects) (fc : Bool) (s : Statement) (b : Build σ ω) : Task σ ω :=
  ⟨objects.length, none, fc, s, b⟩

/-- In every state that earlier calls lead to, a junction whose children compile is refused as mixed
exactly if one branch has a head and another has none, as it starts with a source or is empty. So a
tree without references and sources compiles exactly if every single statement in it has a stage and
no junction in it has an empty branch next to one that is not. -/
theorem sorted_after (objects : Objects) (calls : List Call) (pool : Pool σ ω)
    (hobjects : objects.Fresh ∧ objects.Holds pool.instances.size)
    (hcalls : ∀ call ∈ calls, call.statement.Fresh ∧ call.statement.Holds pool.instances.size)
    (s : Statement) (hs : s.Fresh) (fc : Bool) :
    let b := after objects calls { pool }
    (∀ k, (Task.ofNode objects fc s b).Reaches objects k → k.statement.shape = .junction →
      (∀ k', k.Child objects k' → ∃ f, (k'.result objects).1 = .ok f) → k.Sorts objects) ∧
    (s.Throughout (Statement.PlainNode pool) →
      ((∃ f, ((node objects fc s).run b).1 = .ok f) ↔ s.Throughout Statement.AcceptedNode)) := by
  have hb := sound_after hobjects.1 (fun call h => (hcalls call h).1) (sound_empty pool)
  have hp := grown_after hobjects.2 fun call h => (hcalls call h).2
  refine ⟨fun k hk hshape hall => ?_, fun hplain => node_plain hobjects.1 hb hp hs hplain fc⟩
  exact Task.Sound.sorts hobjects.1 (hk.sound hobjects.1 ⟨hb, hs⟩) hshape hall

/-- A junction with two branches, of which the second forks again. -/
def sampleFork : Statement :=
  .junction [.sequence [.pipe 1 none] .none none,
    .sequence [.pipe 2 none, .junction [.sequence [.pipe 2 none] .none none] none] .none none] none

/-- A junction with an empty branch. -/
def sampleBlank : Statement :=
  .junction [.sequence [.pipe 1 none] .none none, .sequence [] .none none] none

theorem common_sample : samplePool.Common 1 ∧ samplePool.Common 2 := by
  have hclone : ∀ {handle stage}, samplePool.stage? handle = some stage →
      (Stage.capabilities stage).isSource = false → samplePool.Common handle := by
    intro handle stage hs hsource
    refine ⟨stage, hs, hsource, fun shared => ?_⟩
    obtain ⟨copy, shared', hc, hcaps⟩ := clonable_sample handle stage hs shared
    exact ⟨copy, shared', hc, hcaps ▸ hsource⟩
  exact ⟨hclone rfl rfl, hclone rfl rfl⟩

theorem plain_fork : sampleFork.Throughout (Statement.PlainNode samplePool) := by
  simp [sampleFork, Flags.none, common_sample]

theorem plain_blank : sampleBlank.Throughout (Statement.PlainNode samplePool) := by
  simp [sampleBlank, Flags.none, common_sample]

theorem sorted_sample :
    let b := after sampleObjects (sampleRules.map .rule) { pool := samplePool }
    (Task.ofNode sampleObjects false sampleFork b).Sorts sampleObjects ∧
      sampleFork.Throughout Statement.AcceptedNode := by
  have h := sorted_after sampleObjects (sampleRules.map .rule) samplePool
    ⟨by decide +kernel, by decide +kernel⟩ (by decide +kernel) sampleFork (by decide +kernel) false
  refine ⟨h.1 _ .refl rfl fun k' hcall => Task.exists_ok ?_, (h.2 plain_fork).1 (Task.exists_ok ?_)⟩
  · exact Task.Child.of_each (P := fun r => r.toOption.isSome = true) rfl (by decide +kernel) hcall
  · decide +kernel

/-- The second branch is empty and no branch starts with a source, but the junction is refused as
mixed, although every single statement in it has a stage. -/
theorem blank_refused :
    let k : Task Builtin Shared := Task.ofNode [] false sampleBlank { pool := samplePool }
    (∀ k', k.Child [] k' → ∃ f, (k'.result []).1 = .ok f) ∧
      (¬ ∃ f, k.Branch [] f ∧ f.isSourceRooted = true) ∧
      (∃ node, (k.result []).1 = .error (.mixedBranches node)) ∧
      sampleBlank.Throughout (Statement.PlainNode samplePool) ∧
      sampleBlank.Throughout Statement.Staged := by
  refine ⟨fun k' hcall => Task.exists_ok ?_, ?_, ⟨⟨.pipe, "unnamed", "#unknown"⟩, ?_⟩, plain_blank, ?_⟩
  · exact Task.Child.of_each (P := fun r => r.toOption.isSome = true) rfl (by decide +kernel) hcall
  · rintro ⟨f, ⟨k', hcall, hf⟩, hrooted⟩
    have hplain := Task.Child.of_each (P := fun r => r.toOption.all (!·.isSourceRooted) = true) rfl
      (by decide +kernel) hcall
    rw [hf] at hplain
    simp [Except.toOption, hrooted] at hplain
  · decide +kernel
  · simp [sampleBlank]

end Compile

end Routing
