import Routing.Proofs.Compile.Grounded
import Routing.Proofs.Compile.Run
import Routing.Proofs.Compile.Tasks
/-!
# Going down tasks

A task calls for tasks that are smaller, so that what passes from the tasks that a task calls for to
the task itself holds of all tasks. A sequence or a junction goes through its children one by one, and
a reference to what is not remembered goes through its target. Here a task starts in a sound state
with nothing settled before; then the tasks that it calls for do as well.
-/

namespace Routing

variable {σ ω : Type}

namespace Compile

open Build

namespace Task

section

variable [Stage σ ω] {objects : Objects} {k k' : Task σ ω}

/-- The task compiles its statement. -/
def work (objects : Objects) (k : Task σ ω) : Compile σ ω Fragment :=
  upTo objects k.depth k.around k.flowControl k.statement

/-- What messages say about the statement. -/
def descriptor (k : Task σ ω) : Descriptor :=
  k.statement.heading.describe k.located

omit [Stage σ ω] in
theorem sizeOf_child {s t : Statement} (h : t ∈ s.children) : sizeOf t < sizeOf s := by
  obtain ⟨heading, o, cs⟩ := s
  have hlt := List.sizeOf_lt_of_mem h
  simp only [Statement.children] at hlt
  simp only [Statement.mk.sizeOf_spec]
  omega

omit [Stage σ ω] in
theorem sizeOf_target {s t : Statement} {serial : Nat} (h : s.object = .target serial t) :
    sizeOf t < sizeOf s := by
  obtain ⟨heading, o, cs⟩ := s
  cases h
  simp only [Statement.mk.sizeOf_spec, Object.target.sizeOf_spec]
  omega

/-- References by name are nested less deep, or the statement is part of the other. -/
theorem Calls.smaller (h : k.Calls objects k') :
    Prod.Lex (· < ·) (· < ·) (k'.depth, sizeOf k'.statement) (k.depth, sizeOf k.statement) := by
  rcases h with h | h
  · cases h with
    | sequence _ _ hcs _ => exact .right _ (sizeOf_child (hcs ▸ by simp))
    | junction _ hcs _ => exact .right _ (sizeOf_child (hcs ▸ by simp))
  · cases h with
    | inline _ ho _ => exact .right _ (sizeOf_target ho)
    | named hdepth _ _ _ _ =>
      rw [hdepth]
      exact .left _ _ (Nat.lt_succ_self _)

/-- What holds of a task if it holds of the tasks that it calls for holds of all tasks. -/
theorem induction (objects : Objects) {P : Task σ ω → Prop}
    (h : ∀ k, (∀ k', k.Calls objects k' → P k') → P k) (k : Task σ ω) : P k :=
  h k fun k' _ => induction objects h k'
termination_by (k.depth, sizeOf k.statement)
decreasing_by exact Calls.smaller ‹_›

/-! ### Children one by one -/

/-- A child of the statement in a state. -/
def child (k : Task σ ω) (s : Statement) (b : Build σ ω) : Task σ ω :=
  ⟨k.depth, k.located, k.flowControl || s.flags.flowControl, s, b⟩

section Each

variable {E : CompileError → Build σ ω → Prop}

-- by induction on the children that are left; that those before them were compiled makes the next one
-- a task that is called for

theorem wp_chain_each (objects : Objects) (k : Task σ ω) {I : Chain → Build σ ω → Prop}
    (each : ∀ {pre s post c b}, k.statement.children = pre ++ s :: post →
      (chain objects (below objects k.depth) k.located k.flowControl {} pre).run k.state =
        (.ok c, b) → I c b →
      wp ((k.child s b).work objects)
        (fun f b' => (k.child s b).result objects = (.ok f, b') →
          wp (c.add (k.child s b).descriptor f) I E b') E b) :
    ∀ (post pre : List Statement) (c : Chain) (b : Build σ ω),
      k.statement.children = pre ++ post →
      (chain objects (below objects k.depth) k.located k.flowControl {} pre).run k.state =
        (.ok c, b) → I c b →
      wp (chain objects (below objects k.depth) k.located k.flowControl c post) I E b
  | [], _, _, _, _, _, hc => by
    rw [chain]
    exact hc
  | s :: post, pre, c, b, hcs, hrun, hc => by
    rw [chain, ← upTo_eq, wp_bind]
    refine wp_mono (wp_with_run (each hcs hrun hc)) (fun f b₁ ⟨hf, hadd⟩ => ?_) fun _ _ h => h
    rw [wp_bind]
    refine wp_mono (wp_with_run (hadd hf)) (fun c' b₂ ⟨hc', hI⟩ => ?_) fun _ _ h => h
    refine wp_chain_each objects k each post (pre ++ [s]) c' b₂
      (by rw [hcs, List.append_assoc, List.singleton_append]) ?_ hI
    rw [chain_append, run_bind_ok hrun, chain, ← upTo_eq]
    exact (run_bind_ok hf _).trans (run_bind_ok hc' _)

theorem wp_branching_each (objects : Objects) (k : Task σ ω) {I : Branching → Build σ ω → Prop}
    (each : ∀ {pre s post j b}, k.statement.children = pre ++ s :: post →
      (branching objects (below objects k.depth) k.located k.flowControl {} pre).run k.state =
        (.ok j, b) → I j b →
      wp ((k.child s b).work objects)
        (fun f b' => (k.child s b).result objects = (.ok f, b') →
          wp (j.add (k.child s b).descriptor f) I E b') E b) :
    ∀ (post pre : List Statement) (j : Branching) (b : Build σ ω),
      k.statement.children = pre ++ post →
      (branching objects (below objects k.depth) k.located k.flowControl {} pre).run k.state =
        (.ok j, b) → I j b →
      wp (branching objects (below objects k.depth) k.located k.flowControl j post) I E b
  | [], _, _, _, _, _, hj => by
    rw [branching]
    exact hj
  | s :: post, pre, j, b, hcs, hrun, hj => by
    rw [branching, ← upTo_eq, wp_bind]
    refine wp_mono (wp_with_run (each hcs hrun hj)) (fun f b₁ ⟨hf, hadd⟩ => ?_) fun _ _ h => h
    rw [wp_bind]
    refine wp_mono (wp_with_run (hadd hf)) (fun j' b₂ ⟨hj', hI⟩ => ?_) fun _ _ h => h
    refine wp_branching_each objects k each post (pre ++ [s]) j' b₂
      (by rw [hcs, List.append_assoc, List.singleton_append]) ?_ hI
    rw [branching_append, run_bind_ok hrun, branching, ← upTo_eq]
    exact (run_bind_ok hf _).trans (run_bind_ok hj' _)

end Each

/-! ### Sound tasks -/

/-- The task starts in a sound state, and nothing in its statement is settled before. -/
structure Sound (k : Task σ ω) : Prop where
  state : k.state.Sound
  fresh : k.statement.Fresh

omit [Stage σ ω] in
theorem each_child {P : Statement → Prop} {s t : Statement} (hs : s.Each P) (h : t ∈ s.children) :
    t.Each P := by
  obtain ⟨heading, o, cs⟩ := s
  exact hs.children t h

omit [Stage σ ω] in
theorem each_target {P : Statement → Prop} {s t : Statement} {serial : Nat} (hs : s.Each P)
    (h : s.object = .target serial t) : t.Each P := by
  obtain ⟨heading, o, cs⟩ := s
  cases h
  exact hs.target

/-- What a scheme asks of a state it asks of those in which the children are compiled. -/
theorem Child.ready {S : Scheme σ ω} {P : Statement → Prop} (hS : S.Lawful objects P)
    (hobjects : ∀ entry ∈ objects, entry.2.Each P) (h : k.Child objects k')
    (hk : k.statement.Each P) (hready : S.ready k.state) : S.ready k'.state := by
  obtain ⟨routines, hjumps, hroutines⟩ := hS.exists_jumps hobjects k.depth
  cases h with
  | sequence _ _ hcs hrun =>
    rw [← hroutines] at hrun
    refine hS.chain_ready (wp_ok (hS.wp_chain hobjects hjumps _ (fun s hs => ?_) _ _
      (hS.chain_start hready)) hrun)
    exact each_child hk (hcs ▸ List.mem_append_left _ hs)
  | junction _ hcs hrun =>
    rw [← hroutines] at hrun
    refine hS.branch_ready (wp_ok (hS.wp_branching hobjects hjumps _ (fun s hs => ?_) _ _
      (hS.branch_start hready)) hrun)
    exact each_child hk (hcs ▸ List.mem_append_left _ hs)

theorem Child.sound (hobjects : objects.Fresh) (h : k.Child objects k') (hk : k.Sound) :
    k'.Sound where
  state := by
    have hready : (Compile.sound σ ω).ready k.state := ⟨hk.state, trivial⟩
    exact (h.ready tally_true.lawful (fun entry he => each_fresh.2 (hobjects entry he))
      (each_fresh.2 hk.fresh) hready).1
  fresh := by
    cases h with
    | sequence _ _ hcs _ => exact each_child hk.fresh (hcs ▸ by simp)
    | junction _ hcs _ => exact each_child hk.fresh (hcs ▸ by simp)

omit [Stage σ ω] in
theorem Target.sound (hobjects : objects.Fresh) (h : k.Target objects k') (hk : k.Sound) :
    k'.Sound where
  state := h.state_eq ▸ hk.state
  fresh := by
    cases h with
    | inline _ ho _ => exact each_target hk.fresh ho
    | named _ _ _ hfind _ => exact hobjects _ (Objects.mem_of_find hfind)

theorem Calls.sound (hobjects : objects.Fresh) (h : k.Calls objects k') (hk : k.Sound) : k'.Sound :=
  h.elim (fun h => h.sound hobjects hk) fun h => h.sound hobjects hk

theorem Reaches.sound (hobjects : objects.Fresh) (h : k.Reaches objects k') (hk : k.Sound) :
    k'.Sound := by
  induction h with
  | refl => exact hk
  | tail _ hcall ih => exact hcall.sound hobjects ih

theorem Sound.compiles (hobjects : objects.Fresh) (hk : k.Sound) :
    Compiles k.state (k.work objects) :=
  compiles_upTo hobjects k.depth k.statement hk.fresh k.state hk.state k.around k.flowControl

end

section Steps

variable [Stage σ ω] {objects : Objects} {k : Task σ ω} {Q : Fragment → Build σ ω → Prop}
  {E : CompileError → Build σ ω → Prop}

/-! ### Children of sound tasks -/

/-- The sequence is in the making, and what was compiled of it fits together. -/
structure Chained (k : Task σ ω) (I : Chain → Build σ ω → Prop) (c : Chain) (b : Build σ ω) :
    Prop where
  progress : Progress k.state b
  fits : c.Fits k.state b
  empty : c.last = none → b.graph.size = k.state.graph.size
  holds : I c b

/-- The junction is in the making, and what was compiled of it fits together. -/
structure Branched (k : Task σ ω) (I : Branching → Build σ ω → Prop) (j : Branching)
    (b : Build σ ω) : Prop where
  progress : Progress k.state b
  fits : j.Fits k.state b
  empty : j.fork = none → j.join = none → b.graph.size = k.state.graph.size
  holds : I j b

/-- A sequence adds one child after another. -/
theorem wp_sequence (hobjects : objects.Fresh) (hk : k.Sound)
    (hshape : k.statement.shape = .sequence) (hall : k.statement.flags.catchAll = false)
    (I : Chain → Build σ ω → Prop) (start : I {} k.state)
    (child : ∀ {k' c}, k.Child objects k' → k.Chained I c k'.state →
      wp (k'.work objects) (fun f b' => Progress k'.state b' → Fits k'.state b' f →
        wp (c.add k'.descriptor f) I E b') E k'.state)
    (finish : ∀ {c b}, k.Chained I c b →
      wp (c.finish k.statement.flags k.flowControl) Q E b) :
    wp (k.work objects) Q E k.state := by
  rw [work, upTo_sequence hshape hall, wp_bind]
  refine wp_mono (wp_chain_each objects k (I := k.Chained I) (fun hcs hrun hc => ?_) _ [] {} k.state
    rfl rfl ⟨.refl hk.state, .start _, fun _ => rfl, start⟩) (fun _ _ hc => finish hc) fun _ _ h => h
  have hcall : k.Child objects (k.child _ _) := .sequence hshape hall hcs hrun
  refine wp_mono (wp_and (child hcall hc) ((hcall.sound hobjects hk).compiles hobjects))
    (fun f b₁ ⟨hadd, hp, hfits⟩ _ => ?_) fun _ _ h => h.1
  refine wp_mono (wp_and (hadd hp hfits) (Chain.wp_add hc.progress hc.fits hc.empty hp hfits _))
    (fun c' b₂ ⟨hI, hp', hfits', hempty'⟩ => ?_) fun _ _ h => h.1
  exact ⟨hp', hfits', hempty', hI⟩

/-- A junction adds one branch after another. -/
theorem wp_junction (hobjects : objects.Fresh) (hk : k.Sound)
    (hshape : k.statement.shape = .junction) (I : Branching → Build σ ω → Prop)
    (start : I {} k.state)
    (child : ∀ {k' j}, k.Child objects k' → k.Branched I j k'.state →
      wp (k'.work objects) (fun f b' => Progress k'.state b' → Fits k'.state b' f →
        wp (j.add k'.descriptor f) I E b') E k'.state)
    (finish : ∀ {j b}, k.Branched I j b →
      wp (j.finish k.statement.flags k.flowControl) Q E b) :
    wp (k.work objects) Q E k.state := by
  rw [work, upTo_junction hshape, wp_bind]
  refine wp_mono (wp_branching_each objects k (I := k.Branched I) (fun hcs hrun hj => ?_) _ [] {}
    k.state rfl rfl ⟨.refl hk.state, .start _, fun _ _ => rfl, start⟩) (fun _ _ hj => finish hj)
    fun _ _ h => h
  have hcall : k.Child objects (k.child _ _) := .junction hshape hcs hrun
  refine wp_mono (wp_and (child hcall hj) ((hcall.sound hobjects hk).compiles hobjects))
    (fun f b₁ ⟨hadd, hp, hfits⟩ _ => ?_) fun _ _ h => h.1
  refine wp_mono (wp_and (hadd hp hfits) (Branching.wp_add hj.progress hj.fits hj.empty hp hfits _))
    (fun j' b₂ ⟨hI, hp', hfits', hempty'⟩ => ?_) fun _ _ h => h.1
  exact ⟨hp', hfits', hempty', hI⟩

/-! ### Targets -/

/-- What a reference to a target goes through: the target is compiled unless it is remembered. -/
theorem wp_reference_of {Q : Fragment → Build σ ω → Prop} {E : CompileError → Build σ ω → Prop}
    (hshape : k.statement.shape = .reference)
    (unresolved : E (.unresolvedReference k.statement.kind (k.statement.name.getD "")
      (Location.textOf k.located)) k.state)
    (circular : E (.circularReference k.statement.kind (k.statement.name.getD "")
      (Location.textOf k.located)) k.state)
    (refer : ∀ (k' : Task σ ω) {key : TargetKey}, k'.state = k.state →
      k.statement.target? objects = some (key, k'.statement) →
      ((key.Shared → (k.state.memos.lookup key).or k'.statement.heading.memo = none) →
        k.Target objects k') →
      wp (referTo k.statement.heading k.located key k'.statement.heading.memo (k'.work objects)) Q E
        k.state) : wp (k.work objects) Q E k.state := by
  by_cases ho : ∃ serial t, k.statement.object = .target serial t
  · obtain ⟨serial, t, ho⟩ := ho
    rw [work, upTo_inline hshape ho]
    exact refer ⟨k.depth, k.located, k.flowControl, t, k.state⟩ rfl
      (Statement.target_of_inline ho) fun hnew => .inline hshape ho hnew
  · have ho : ∀ serial t, k.statement.object ≠ .target serial t := by simpa using ho
    cases hfind : objects.find? ⟨k.statement.kind, k.statement.name.getD ""⟩ with
    | none =>
      rw [work, upTo_unresolved hshape (by rw [Statement.target_of_byName ho, hfind]; rfl)]
      exact unresolved
    | some t =>
      have htarget : k.statement.target? objects = _ := Statement.target_of_byName ho
      rw [hfind] at htarget
      cases hdepth : k.depth with
      | zero =>
        have hfind' : objects.find? ⟨k.statement.heading.kind, k.statement.heading.name.getD ""⟩ =
          some t := hfind
        rw [work, upTo_byName hshape ho, byName, hdepth]
        simp only [hfind', below]
        exact circular
      | succ depth =>
        rw [work, hdepth, upTo_named hshape ho hfind]
        exact refer ⟨depth, k.located, k.flowControl, t, k.state⟩ rfl
          htarget fun hnew => .named hdepth hshape ho hfind hnew

/-- A reference is joined to what is remembered, or to what its target is compiled to. -/
theorem wp_reference (hobjects : objects.Fresh) (hk : k.Sound)
    (hshape : k.statement.shape = .reference)
    (again : ∀ {key f b}, JoinedAgain key k.state f b → Q f b)
    (first : ∀ {k' key f b f' b'}, k.Target objects k' → key.kind = k'.statement.kind →
      k'.result objects = (.ok f, b) → Progress k.state b → Fits k.state b f →
      JoinedFirst key b f f' b' → Q f' b') :
    wp (k.work objects) Q (fun _ _ => True) k.state := by
  refine wp_reference_of hshape trivial trivial fun k' key hstate ht htarget => ?_
  have hkind := Statement.target_kind ht
  have hfresh : k'.statement.Fresh := hk.fresh.target_of hobjects ht
  have hmemo : k'.statement.heading.memo = none := hfresh.self
  rw [hmemo] at htarget ⊢
  refine @wp_referTo σ ω _ key k.state (fun _ => Q) (fun _ _ _ => True) hk.state _ _ _
    (fun _ => []) (fun f b h => again h) fun hnew => ?_
  have hcompiles : Compiles k.state (k'.work objects) :=
    compiles_upTo hobjects k'.depth k'.statement hfresh k.state hk.state k'.around k'.flowControl
  refine wp_mono (wp_with_run hcompiles) (fun f b ⟨hrun, hp, hf⟩ => ?_) fun _ _ _ => trivial
  have hresult : k'.result objects = (.ok f, b) := by
    rw [result, hstate]
    exact hrun
  refine ⟨fun t ht => (hf.tail ht).last, fun f' b' hj => ?_, trivial⟩
  exact first (htarget fun hshared => (Option.or_none ..).trans (hnew hshared)) hkind hresult hp hf hj

end Steps

end Task

end Compile

end Routing
