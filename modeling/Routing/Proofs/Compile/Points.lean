import Routing.Proofs.Compile.Plain
import Routing.Proofs.Compile.Whereabouts
/-!
# Points of a run

A run is a row of calls of the compiler. A point of the run says where a statement is compiled: in
which call, and then in which of the tasks that each task calls for. In their lexicographic order the
run comes to the points one after the other, and what is compiled at a point is done before a later
one starts, unless that lies below it. In between there are only more stages and more slots.
-/

namespace Routing

variable {σ ω α : Type}

/-- The later state has the stages of the earlier one, and as many slots or more. -/
structure Build.Grown (b b' : Build σ ω) : Prop where
  pool : b.pool.Grown b'.pool
  size : b.graph.size ≤ b'.graph.size

namespace Build.Grown

variable {b b' b'' : Build σ ω}

theorem refl (b : Build σ ω) : b.Grown b := ⟨.share b.pool.shared, Nat.le_refl _⟩

theorem trans (h : b.Grown b') (h' : b'.Grown b'') : b.Grown b'' :=
  ⟨h.pool.trans h'.pool, Nat.le_trans h.size h'.size⟩

end Build.Grown

namespace Compile

open Build

variable [Stage σ ω] {objects : Objects} {n : Nat} {b : Build σ ω}

/-- Compiling statements whose stages are among those of a state only adds to it. -/
theorem stable_grownTo (b : Build σ ω) (hn : n ≤ b.pool.instances.size) :
    Stable n fun b' : Build σ ω => b.Grown b' where
  own _ hb := hb.trans ⟨.add, by simp⟩
  wire hb := ⟨hb.pool, by simpa using hb.size⟩
  enable _ hb := ⟨hb.pool, by simpa using hb.size⟩
  mark hb := ⟨hb.pool, hb.size⟩
  single _ _ hlt b' hb := by
    have hlt' := Nat.lt_of_lt_of_le hlt (Nat.le_trans hn hb.pool.size_le)
    refine wp_single (fun _ _ _ hr => hb.trans ⟨hr.grown hlt', ?_⟩) fun _ hr =>
      hb.trans ⟨hr.grown, Nat.le_refl _⟩
    rw [Build.grow, Graph.size_add]
    exact Nat.le_succ _

/-! ### What parts of a task keep -/

namespace Stable

variable {P : Build σ ω → Prop} {depth : Nat} {here : Option Location} {fc : Bool}
  {ss : List Statement}

theorem upTo (hP : Stable n P) (hobjects : objects.Holds n) {s : Statement} (hs : s.Holds n)
    (around : Option Location) : Keeps P (upTo objects depth around fc s) := fun b hb =>
  Traced.meets_scheme.1 ((hP.traced.lawful objects).meets_upTo hobjects depth s hs around fc) [] b hb

theorem chain (hP : Stable n P) (hobjects : objects.Holds n) (hss : ∀ s ∈ ss, s.Holds n) (c : Chain) :
    Keeps P (chain objects (below objects depth) here fc c ss) := fun b hb => by
  obtain ⟨routines, hjumps, hroutines⟩ := (hP.traced.lawful objects).exists_jumps hobjects depth
  have hchained : (Traced.scheme fun _ => P).chained [] fc b [] c b := fun _ h => h
  rw [← hroutines]
  exact wp_mono ((hP.traced.lawful objects).wp_chain hobjects hjumps ss hss here fc hchained)
    (fun _ _ h => h [] hb) fun _ _ h => h [] hb

theorem branching (hP : Stable n P) (hobjects : objects.Holds n) (hss : ∀ s ∈ ss, s.Holds n)
    (j : Branching) : Keeps P (branching objects (below objects depth) here fc j ss) := fun b hb => by
  obtain ⟨routines, hjumps, hroutines⟩ := (hP.traced.lawful objects).exists_jumps hobjects depth
  have hbranched : (Traced.scheme fun _ => P).branched [] fc b [] j b := fun _ h => h
  rw [← hroutines]
  exact wp_mono ((hP.traced.lawful objects).wp_branching hobjects hjumps ss hss here fc hbranched)
    (fun _ _ h => h [] hb) fun _ _ h => h [] hb

end Stable

namespace Task

variable {k k' k'' : Task σ ω} {P : Build σ ω → Prop}

theorem Calls.holds (hobjects : objects.Holds n) (h : k.Calls objects k') (hk : k.statement.Holds n) :
    k'.statement.Holds n := by
  rcases h with h | h
  · cases h with
    | sequence _ _ hcs _ => exact each_child hk (hcs ▸ by simp)
    | junction _ hcs _ => exact each_child hk (hcs ▸ by simp)
  · cases h with
    | inline _ ho _ => exact each_target hk ho
    | named _ _ _ hfind _ => exact hobjects _ (Objects.mem_of_find hfind)

theorem Reaches.holds (hobjects : objects.Holds n) (h : k.Reaches objects k')
    (hk : k.statement.Holds n) : k'.statement.Holds n := by
  induction h with
  | refl => exact hk
  | tail _ hcall ih => exact hcall.holds hobjects ih

/-- What compiling keeps holds when a task starts if it holds when the one starts that calls for it. -/
theorem Calls.keeps_state (hP : Stable n P) (hobjects : objects.Holds n) (h : k.Calls objects k')
    (hk : k.statement.Holds n) (hb : P k.state) : P k'.state := by
  rcases h with h | h
  · cases h with
    | sequence _ _ hcs hrun =>
      exact wp_ok (hP.chain hobjects (fun s hs => each_child hk (hcs ▸ by simp [hs])) {} _ hb) hrun
    | junction _ hcs hrun =>
      exact wp_ok (hP.branching hobjects (fun s hs => each_child hk (hcs ▸ by simp [hs])) {} _ hb) hrun
  · exact h.state_eq ▸ hb

/-- What compiling keeps holds when a task is done if it holds when one is done that it calls for. -/
theorem Calls.keeps_result (hP : Stable n P) (hobjects : objects.Holds n) (h : k.Calls objects k')
    (hk : k.statement.Holds n) (hb : P (k'.result objects).2) : P (k.result objects).2 := by
  rcases h with h | h
  · cases h with
    | @sequence pre post s b c hshape hall hcs hrun =>
      have hpost : ∀ s ∈ post, s.Holds n := fun s hs => each_child hk (hcs ▸ by simp [hs])
      rw [result_of_chain hshape hall hcs hrun]
      refine wp_state (wp_bind_of_state hb fun f _ => ?_)
      refine (hP.joining.linking.chain_add _ _ f).bind (fun c => ?_) _ hb
      exact (hP.chain hobjects hpost c).bind fun c => hP.joining.linear.chain_finish c _ _
    | @junction pre post s b j hshape hcs hrun =>
      have hpost : ∀ s ∈ post, s.Holds n := fun s hs => each_child hk (hcs ▸ by simp [hs])
      rw [result_of_branching hshape hcs hrun]
      refine wp_state (wp_bind_of_state hb fun f _ => ?_)
      refine (hP.joining.branching_add _ _ f).bind (fun j => ?_) _ hb
      exact (hP.branching hobjects hpost j).bind fun j => hP.joining.linear.branching_finish j _ _
  · have hwp : wp (Compile.upTo objects k'.depth k'.around k'.flowControl k'.statement) (fun _ => P)
        (fun _ => P) k'.state := wp_of_state hb
    cases h with
    | inline hshape ho hnew =>
      refine wp_state ?_
      rw [upTo_inline hshape ho]
      exact wp_referTo_of_run hP.joining.toWired hP.mark hnew hwp
    | named hdepth hshape ho hfind hnew =>
      refine wp_state ?_
      rw [hdepth, upTo_named hshape ho hfind]
      exact wp_referTo_of_run hP.joining.toWired hP.mark hnew hwp

theorem Reaches.keeps_state (hP : Stable n P) (hobjects : objects.Holds n) (h : k.Reaches objects k')
    (hk : k.statement.Holds n) (hb : P k.state) : P k'.state := by
  induction h with
  | refl => exact hb
  | tail hr hcall ih => exact hcall.keeps_state hP hobjects (Reaches.holds hobjects hr hk) ih

theorem Reaches.keeps_result (hP : Stable n P) (hobjects : objects.Holds n) (h : k.Reaches objects k')
    (hk : k.statement.Holds n) (hb : P (k'.result objects).2) : P (k.result objects).2 := by
  induction h with
  | refl => exact hb
  | tail hr hcall ih => exact ih (hcall.keeps_result hP hobjects (Reaches.holds hobjects hr hk) hb)

theorem grown_result (hobjects : objects.Holds n) (hk : k.statement.Holds n)
    (hn : n ≤ k.state.pool.instances.size) : k.state.Grown (k.result objects).2 :=
  wp_state ((stable_grownTo k.state hn).upTo hobjects hk k.around k.state (.refl _))

/-! ### Points below a task -/

/-- The task calls for the other one, after so many others. -/
inductive Nth (objects : Objects) (k : Task σ ω) : Nat → Task σ ω → Prop
  | sequence {pre post : List Statement} {s : Statement} {b : Build σ ω} {c : Chain}
    (hshape : k.statement.shape = .sequence) (hall : k.statement.flags.catchAll = false)
    (hcs : k.statement.children = pre ++ s :: post)
    (hrun : (Compile.chain objects (below objects k.depth) k.located k.flowControl {} pre).run k.state =
      (.ok c, b)) : Nth objects k pre.length (k.child s b)
  | junction {pre post : List Statement} {s : Statement} {b : Build σ ω} {j : Branching}
    (hshape : k.statement.shape = .junction) (hcs : k.statement.children = pre ++ s :: post)
    (hrun : (Compile.branching objects (below objects k.depth) k.located k.flowControl {} pre).run
      k.state = (.ok j, b)) : Nth objects k pre.length (k.child s b)
  | target {k' : Task σ ω} (h : k.Target objects k') : Nth objects k 0 k'

/-- The path leads from the first task to the second: which of the tasks called for comes next. -/
inductive Path (objects : Objects) : Task σ ω → List Nat → Task σ ω → Prop
  | here {k : Task σ ω} : Path objects k [] k
  | there {k k' k'' : Task σ ω} {i : Nat} {path : List Nat} (h : k.Nth objects i k')
    (h' : Path objects k' path k'') : Path objects k (i :: path) k''

theorem Nth.calls {i : Nat} (h : k.Nth objects i k') : k.Calls objects k' := by
  cases h with
  | sequence hshape hall hcs hrun => exact .inl (.sequence hshape hall hcs hrun)
  | junction hshape hcs hrun => exact .inl (.junction hshape hcs hrun)
  | target h => exact .inr h

theorem Path.reaches {path : List Nat} (h : k.Path objects path k') : k.Reaches objects k' := by
  induction h with
  | here => exact .refl
  | there h _ ih => exact .head h.calls ih

omit [Stage σ ω] in
theorem Target.shape (h : k.Target objects k') : k.statement.shape = .reference := by
  cases h with
  | inline hshape _ _ => exact hshape
  | named _ hshape _ _ _ => exact hshape

omit [Stage σ ω] in
theorem Target.unique (h : k.Target objects k') (h' : k.Target objects k'') : k' = k'' := by
  cases h with
  | inline hshape ho hnew =>
    cases h' with
    | inline _ ho' _ =>
      cases ho.symm.trans ho'
      rfl
    | named _ _ ho' _ _ => exact absurd ho (ho' _ _)
  | named hdepth hshape ho hfind hnew =>
    cases h' with
    | inline _ ho' _ => exact absurd ho' (ho _ _)
    | named hdepth' _ _ hfind' _ =>
      cases hfind.symm.trans hfind'
      cases hdepth.symm.trans hdepth'
      rfl

theorem Nth.unique {i : Nat} (h : k.Nth objects i k') (h' : k.Nth objects i k'') : k' = k'' := by
  have hrefer : ∀ {s}, k.Target objects k' ∨ k.Target objects k'' → s ≠ Shape.reference →
      k.statement.shape ≠ s := fun h hs hshape =>
    h.elim (fun h => hs (hshape.symm.trans h.shape)) fun h => hs (hshape.symm.trans h.shape)
  generalize hi : i = i' at h'
  cases h with
  | sequence hshape hall hcs hrun =>
    cases h' with
    | sequence _ _ hcs' hrun' =>
      obtain ⟨rfl, heq⟩ := List.append_inj (hcs.symm.trans hcs') hi
      cases heq
      cases hrun.symm.trans hrun'
      rfl
    | junction hshape' _ _ => cases hshape.symm.trans hshape'
    | target h' => exact absurd hshape (hrefer (.inr h') nofun)
  | junction hshape hcs hrun =>
    cases h' with
    | sequence hshape' _ _ _ => cases hshape.symm.trans hshape'
    | junction _ hcs' hrun' =>
      obtain ⟨rfl, heq⟩ := List.append_inj (hcs.symm.trans hcs') hi
      cases heq
      cases hrun.symm.trans hrun'
      rfl
    | target h' => exact absurd hshape (hrefer (.inr h') nofun)
  | target h =>
    cases h' with
    | sequence hshape' _ _ _ => exact absurd hshape' (hrefer (.inl h) nofun)
    | junction hshape' _ _ => exact absurd hshape' (hrefer (.inl h) nofun)
    | target h' => exact h.unique h'

omit [Stage σ ω] in
/-- Of two ways to split a list, the longer front goes over what comes next in the other. -/
theorem front_of_length {ps qs post post' : List α} {s s' : α}
    (h : ps ++ s :: post = qs ++ s' :: post') (hlt : ps.length < qs.length) :
    ∃ mid, qs = ps ++ s :: mid := by
  rcases List.append_eq_append_iff.1 h with ⟨as, rfl, has⟩ | ⟨as, rfl, -⟩
  · cases as with
    | nil => simp at hlt
    | cons a as =>
      cases has
      exact ⟨as, rfl⟩
  · rw [List.length_append] at hlt
    omega

/-- What compiling keeps holds when a task starts if it holds when one is done that is called for
before. -/
theorem Nth.keeps_next {i i' : Nat} (hP : Stable n P) (hobjects : objects.Holds n)
    (h : k.Nth objects i k') (h' : k.Nth objects i' k'') (hlt : i < i') (hk : k.statement.Holds n)
    (hb : P (k'.result objects).2) : P k''.state := by
  cases h' with
  | target => exact absurd hlt (Nat.not_lt_zero _)
  | @sequence _ _ s' b' c' hshape' hall' hcs' hrun' =>
    cases h with
    | junction hshape _ _ => cases hshape.symm.trans hshape'
    | target h => cases h.shape.symm.trans hshape'
    | sequence hshape hall hcs hrun =>
      obtain ⟨mid, rfl⟩ := front_of_length (hcs.symm.trans hcs') hlt
      have hmid : ∀ s ∈ mid, s.Holds n := fun s hs => each_child hk (hcs' ▸ by simp [hs])
      rw [chain_append, run_bind_ok hrun, Compile.chain, ← upTo_eq] at hrun'
      refine wp_ok (wp_bind_of_state hb fun f _ => ?_) hrun'
      exact (hP.joining.linking.chain_add _ _ f).bind (fun c => hP.chain hobjects hmid c) _ hb
  | @junction _ _ s' b' j' hshape' hcs' hrun' =>
    cases h with
    | sequence hshape _ _ _ => cases hshape.symm.trans hshape'
    | target h => cases h.shape.symm.trans hshape'
    | junction hshape hcs hrun =>
      obtain ⟨mid, rfl⟩ := front_of_length (hcs.symm.trans hcs') hlt
      have hmid : ∀ s ∈ mid, s.Holds n := fun s hs => each_child hk (hcs' ▸ by simp [hs])
      rw [branching_append, run_bind_ok hrun, Compile.branching, ← upTo_eq] at hrun'
      refine wp_ok (wp_bind_of_state hb fun f _ => ?_) hrun'
      exact (hP.joining.branching_add _ _ f).bind (fun j => hP.branching hobjects hmid j) _ hb

/-- A later point lies below an earlier one, or what is compiled at the earlier one is done before. -/
theorem Path.keeps_later {path path' : List Nat} (hP : Stable n P) (hobjects : objects.Holds n)
    {k₀ : Task σ ω} (h : k₀.Path objects path k) (h' : k₀.Path objects path' k') (hlt : path < path')
    (hk : k₀.statement.Holds n) :
    Relation.TransGen (Calls objects) k k' ∨ (P (k.result objects).2 → P k'.state) := by
  induction h generalizing path' with
  | here =>
    cases h' with
    | here => exact absurd hlt (List.not_lt_nil _)
    | there h h' => exact .inl (Relation.TransGen.head' h.calls h'.reaches)
  | @there k₀ k₁ k i path h hpath ih =>
    cases h' with
    | here => exact absurd hlt (List.not_lt_nil _)
    | @there _ k₁' _ i' path' h' hpath' =>
      rcases List.cons_lt_cons_iff.1 hlt with hi | ⟨rfl, hlt'⟩
      -- where the paths part, the earlier task is done before the later one starts
      · have hk₁ := h.calls.holds hobjects hk
        have hk₁' := h'.calls.holds hobjects hk
        refine .inr fun hb => hpath'.reaches.keeps_state hP hobjects hk₁' ?_
        exact h.keeps_next hP hobjects h' hi hk (hpath.reaches.keeps_result hP hobjects hk₁ hb)
      · obtain rfl := h.unique h'
        exact ih hpath' hlt' (h.calls.holds hobjects hk)

end Task

/-! ### Points of a run -/

/-- The task is what a run of these calls compiles at a point: in the call of that number, at the end of
that path. -/
inductive Point (objects : Objects) (calls : List Call) (pool : Pool σ ω) : List Nat → Task σ ω → Prop
  | mk {earlier later : List Call} {call : Call} {path : List Nat} {k : Task σ ω}
    (hcalls : calls = earlier ++ call :: later)
    (hpath : (call.task objects (after objects earlier { pool })).Path objects path k) :
    Point objects calls pool (earlier.length :: path) k

section Point

variable {calls : List Call} {pool : Pool σ ω} {p p' : List Nat} {k k' : Task σ ω}
  {P : Build σ ω → Prop}

omit [Stage σ ω] in
theorem Call.state_task (objects : Objects) (b : Build σ ω) (call : Call) :
    (call.task objects b).state = b := by
  cases call <;> rfl

omit [Stage σ ω] in
theorem Call.holds_task (objects : Objects) {call : Call} (hcall : call.statement.Holds n)
    (b : Build σ ω) :
    (call.task objects b).statement.Holds n := by
  cases call with
  | rule s => exact hcall.expandCatchAll objects
  | node fc s => exact hcall

theorem Stable.call (hP : Stable n P) (hobjects : objects.Holds n) {call : Call}
    (hcall : call.statement.Holds n) : Keeps P (call.run objects) := by
  cases call with
  | rule s => exact hP.rule hobjects hcall
  | node fc s => exact hP.node hobjects hcall fc

theorem Stable.after (hP : Stable n P) (hobjects : objects.Holds n)
    (hcalls : ∀ call ∈ calls, call.statement.Holds n) (hb : P b) : P (after objects calls b) :=
  after_induction hb fun call hc b hb => wp_state (hP.call hobjects (hcalls call hc) b hb)

theorem Point.holds (hobjects : objects.Holds n) (hcalls : ∀ call ∈ calls, call.statement.Holds n)
    (h : Point objects calls pool p k) : k.statement.Holds n := by
  cases h with
  | mk heq hpath =>
    exact hpath.reaches.holds hobjects (Call.holds_task objects (hcalls _ (heq ▸ by simp)) _)

/-- What compiling keeps holds at every point of a run. -/
theorem Point.keeps_state (hP : Stable n P) (hobjects : objects.Holds n)
    (hcalls : ∀ call ∈ calls, call.statement.Holds n) (h : Point objects calls pool p k)
    (hb : P { pool }) : P k.state := by
  cases h with
  | mk heq hpath =>
    refine hpath.reaches.keeps_state hP hobjects (Call.holds_task objects (hcalls _ (heq ▸ by simp)) _) ?_
    rw [Call.state_task]
    exact hP.after hobjects (fun call hc => hcalls call (heq ▸ by simp [hc])) hb

/-- A later point of a run lies below an earlier one, or what is compiled at the earlier one is done
before, and what compiling keeps is kept in between. -/
theorem Point.keeps_later (hP : Stable n P) (hobjects : objects.Holds n)
    (hcalls : ∀ call ∈ calls, call.statement.Holds n) (h : Point objects calls pool p k)
    (h' : Point objects calls pool p' k') (hlt : p < p') :
    Relation.TransGen (Task.Calls objects) k k' ∨ (P (k.result objects).2 → P k'.state) := by
  cases h with
  | @mk earlier later call path _ heq hpath =>
    cases h' with
    | @mk earlier' later' call' path' _ heq' hpath' =>
      have hcall := Call.holds_task objects (hcalls call (heq ▸ by simp))
        (after objects earlier { pool })
      rcases List.cons_lt_cons_iff.1 hlt with hlen | ⟨hlen, hlt'⟩
      -- in different calls: what lies between them keeps what holds
      · obtain ⟨mid, rfl⟩ := Task.front_of_length (heq.symm.trans heq') hlen
        have hcall' := Call.holds_task objects (hcalls call' (heq' ▸ by simp))
          (after objects (earlier ++ call :: mid) { pool })
        refine .inr fun hb => hpath'.reaches.keeps_state hP hobjects hcall' ?_
        have hdone := hpath.reaches.keeps_result hP hobjects hcall hb
        rw [Call.result_task] at hdone
        rw [Call.state_task, Compile.after, List.foldl_append, List.foldl_cons]
        exact hP.after hobjects (fun call hc => hcalls call (heq' ▸ by simp [hc])) hdone
      · obtain ⟨rfl, heq⟩ := List.append_inj (heq.symm.trans heq') hlen
        cases heq
        exact hpath.keeps_later hP hobjects hpath' hlt' hcall

end Point

end Compile

end Routing
