import Mathlib.Order.WellFounded
import Routing.Proofs.Compile.Nesting
import Routing.Proofs.Compile.Outcomes
import Routing.Proofs.Compile.Tasks
/-!
# Compiling comes to an end

`Compile.node` lets references by name be nested only so deep, and `Graph.terminal` follows only so
many stages. `Returns` and `Walks` have no such bounds: they hold of what comes of compiling, and of
walks, that come to an end by themselves. If every chain of references ends, each call of the
compiler comes to an end, and to what the bounded call comes to.
-/

namespace Routing

/-! ### Walks -/

namespace Graph

/-- Going from stage to stage from `x` ends at `y`. -/
inductive Walks (g : Graph) : SlotId → SlotId → Prop
  | done {x : SlotId} (h : g.next? x = none) : Walks g x x
  | step {x y z : SlotId} (h : g.next? x = some y) (hw : Walks g y z) : Walks g x z

variable {g : Graph}

theorem walks_follow (n : Nat) {x : SlotId} (h : g.next? (g.follow n x) = none) :
    g.Walks x (g.follow n x) := by
  induction n generalizing x with
  | zero => exact .done h
  | succ n ih =>
    rw [follow] at h ⊢
    cases hx : g.next? x with
    | none => exact .done hx
    | some y =>
      rw [hx] at h
      exact .step hx (ih h)

/-- Without a cycle each walk ends, and at the stage that is found in the bounded way. -/
theorem Acyclic.walks_terminal (hg : g.Acyclic) (x : SlotId) : g.Walks x (g.terminal x) :=
  walks_follow g.size (hg.next?_terminal x)

end Graph

/-! ### Chains of references -/

namespace Objects

variable {objects : Objects} {s t p : Statement}

/-- A reference in `s` leads to `t`. -/
def Below (objects : Objects) (t s : Statement) : Prop :=
  ∃ key, objects.Refers s key t

/-- Every chain of references from an object ends. -/
def Founded (objects : Objects) : Prop :=
  ∀ key t, objects.find? key = some t → Acc objects.Below t

/-- The objects on the way to a statement: from each of them references lead to the statement. -/
structure Trail (objects : Objects) (trail : List ObjectKey) (s : Statement) : Prop where
  nodup : trail.Nodup
  object : ∀ key ∈ trail, ∃ t, objects.find? key = some t ∧
    Relation.ReflTransGen objects.Below s t

theorem Trail.length_le {trail : List ObjectKey} (h : Trail objects trail s) :
    trail.length ≤ objects.length := by
  have hsub : trail ⊆ objects.map Prod.fst := fun key hkey =>
    let ⟨_, hfind, _⟩ := h.object key hkey
    mem_keys_of_find hfind
  simpa using (List.subperm_of_subset h.nodup hsub).length_le

/-- An object to which a statement leads by name is not on the trail, and comes next. -/
theorem Trail.next {trail : List ObjectKey} (hfounded : objects.Founded)
    (h : Trail objects trail s) (hp : p ∈ s.parts) (hnamed : p.named? objects = some t) :
    ∃ key, Trail objects (key :: trail) t := by
  obtain ⟨key, hfind, hshape, htarget⟩ := named_eq_some hnamed
  have hbelow : objects.Below t s := ⟨_, p, hp, hshape, htarget⟩
  refine ⟨key, List.nodup_cons.2 ⟨fun hkey => ?_, h.nodup⟩, fun k hk => ?_⟩
  · obtain ⟨t', hfind', hreach⟩ := h.object key hkey
    obtain rfl := Option.some.inj (hfind.symm.trans hfind')
    have hcycle : Relation.TransGen objects.Below t t := .head' hbelow hreach
    exact not_acc_iff_exists_descending_chain.2 ⟨fun _ => t, rfl, fun _ => hcycle⟩
      (hfounded key t hfind).transGen
  · rcases List.mem_cons.1 hk with rfl | hk
    · exact ⟨t, hfind, .refl⟩
    · obtain ⟨t', hfind', hreach⟩ := h.object k hk
      exact ⟨t', hfind', .head hbelow hreach⟩

theorem Trail.nested (hfounded : objects.Founded) (depth : Nat) :
    ∀ {trail : List ObjectKey} {s : Statement}, Trail objects trail s →
      objects.length ≤ depth + trail.length → s.Each (objects.Nested depth) := by
  induction depth with
  | zero =>
    intro trail s h hlen p hp
    cases hnamed : p.named? objects with
    | none => exact hnamed
    | some t =>
      obtain ⟨key, htrail⟩ := h.next hfounded hp hnamed
      have hle := htrail.length_le
      rw [List.length_cons] at hle
      omega
  | succ depth ih =>
    intro trail s h hlen p hp t hnamed
    obtain ⟨key, htrail⟩ := h.next hfounded hp hnamed
    refine ih htrail ?_
    rw [List.length_cons]
    omega

/-- If chains of references end, then references by name are nested at most as deep as there are
objects. -/
theorem Founded.nested (hfounded : objects.Founded) (s : Statement) :
    s.Each (objects.Nested objects.length) :=
  Trail.nested hfounded objects.length ⟨List.nodup_nil, fun _ h => by cases h⟩ (Nat.le_refl _)

end Objects

/-- Chains of references end if references go down. -/
theorem Catalog.founded_of_rank {c : Catalog} (rank : TargetKey → Nat)
    (h : ∀ e ∈ c.targets, ∀ p ∈ e.2.parts, p.shape = .reference → ∀ e' ∈ p.target? c.objects,
      rank e'.1 < rank e.1) : c.objects.Founded := by
  have hacc : ∀ n key t, rank key < n → (key, t) ∈ c.targets → Acc c.objects.Below t := by
    intro n
    induction n with
    | zero => exact fun _ _ hlt => absurd hlt (Nat.not_lt_zero _)
    | succ n ih =>
      intro key t hlt hkey
      refine ⟨t, fun u ⟨key', p, hp, hshape, ht⟩ => ?_⟩
      have hdown := h _ hkey p hp hshape _ ht
      exact ih key' u (Nat.lt_of_lt_of_le hdown (Nat.le_of_lt_succ hlt))
        (mem_targets (lists_target hkey p hp) ht)
  intro key t hfind
  exact hacc _ _ t (Nat.lt_succ_self _)
    (List.mem_append_left _ (List.mem_map.2 ⟨_, Objects.mem_of_find hfind, rfl⟩))

namespace Compile

open Build

variable {σ ω α β : Type}

/-! ### What comes of compiling -/

/-- The result of a step, or its error, and the state after it. -/
abbrev Outcome (σ ω α : Type) := Except CompileError α × Build σ ω

/-- A step of which this comes from every state. -/
def gives (r : Outcome σ ω α) : Compile σ ω α :=
  ExceptT.mk fun _ => r

theorem run_bind_congr {x y : Compile σ ω α} {b : Build σ ω} (h : x.run b = y.run b)
    (f : α → Compile σ ω β) : (x >>= f).run b = (y >>= f).run b := by
  simp only [ExceptT.run, bind, ExceptT.bind, ExceptT.mk, StateT.bind] at h ⊢
  rw [h]

variable [Stage σ ω]

mutual

/-- Compiling the statement from a state ends, and this comes of it. References are followed without
a bound: an object is compiled as soon as a reference comes to it. -/
inductive Returns (objects : Objects) : Option Location → Bool → Statement → Build σ ω →
    Outcome σ ω Fragment → Prop
  | single {around fc h o cs b} (hshape : h.shape = .single) :
    Returns objects around fc (.mk h o cs) b ((single h (h.located.or around) o).run b)
  | unresolved {around fc h o cs b} (hshape : h.shape = .reference)
    (ht : (Statement.mk h o cs).target? objects = none) :
    Returns objects around fc (.mk h o cs) b (.error (.unresolvedReference h.kind (h.name.getD "")
      (Location.textOf (h.located.or around))), b)
  /-- The target was compiled before, so `run` is not run. -/
  | again {around fc h o cs b key t run} (hshape : h.shape = .reference)
    (ht : (Statement.mk h o cs).target? objects = some (key, t))
    (hm : key.Shared ∧ ((b.memos.lookup key).or t.heading.memo).isSome) :
    Returns objects around fc (.mk h o cs) b
      ((referTo h (h.located.or around) key t.heading.memo run).run b)
  | first {around fc h o cs b key t r} (hshape : h.shape = .reference)
    (ht : (Statement.mk h o cs).target? objects = some (key, t))
    (hm : ¬ (key.Shared ∧ ((b.memos.lookup key).or t.heading.memo).isSome))
    (hr : Returns objects (h.located.or around) fc t b r) :
    Returns objects around fc (.mk h o cs) b
      ((referTo h (h.located.or around) key t.heading.memo (gives r)).run b)
  | catchAll {around fc h o cs b} (hshape : h.shape = .sequence) (hall : h.flags.catchAll = true) :
    Returns objects around fc (.mk h o cs) b
      (.error (.nestedCatchAll (h.describe (h.located.or around))), b)
  | sequence {around fc h o cs b r} (hshape : h.shape = .sequence) (hall : h.flags.catchAll = false)
    (hr : ReturnsChain objects (h.located.or around) fc {} cs b r) :
    Returns objects around fc (.mk h o cs) b ((gives r >>= fun c => c.finish h.flags fc).run b)
  | junction {around fc h o cs b r} (hshape : h.shape = .junction)
    (hr : ReturnsBranching objects (h.located.or around) fc {} cs b r) :
    Returns objects around fc (.mk h o cs) b ((gives r >>= fun j => j.finish h.flags fc).run b)

/-- Adding the statements to a sequence ends, and this comes of it. Where a child has no tail of its
own, the walk to the last stage below its head ends. -/
inductive ReturnsChain (objects : Objects) : Option Location → Bool → Chain → List Statement →
    Build σ ω → Outcome σ ω Chain → Prop
  | nil {here fc c b} : ReturnsChain objects here fc c [] b (.ok c, b)
  | failed {here fc c s ss b r e b'}
    (hs : Returns objects here (fc || s.flags.flowControl) s b r)
    (ha : (gives r >>= c.add (s.heading.describe (s.located.or here))).run b = (.error e, b')) :
    ReturnsChain objects here fc c (s :: ss) b (.error e, b')
  | cons {here fc c s ss b r c' b' r'} (hs : Returns objects here (fc || s.flags.flowControl) s b r)
    (ha : (gives r >>= c.add (s.heading.describe (s.located.or here))).run b = (.ok c', b'))
    (hw : ∀ head, r.1 = .ok ⟨some head, none⟩ → b'.graph.Walks head (b'.graph.terminal head))
    (hss : ReturnsChain objects here fc c' ss b' r') :
    ReturnsChain objects here fc c (s :: ss) b r'

/-- Adding the statements to a junction ends, and this comes of it. -/
inductive ReturnsBranching (objects : Objects) : Option Location → Bool → Branching →
    List Statement → Build σ ω → Outcome σ ω Branching → Prop
  | nil {here fc j b} : ReturnsBranching objects here fc j [] b (.ok j, b)
  | failed {here fc j s ss b r e b'}
    (hs : Returns objects here (fc || s.flags.flowControl) s b r)
    (ha : (gives r >>= j.add (s.heading.describe (s.located.or here))).run b = (.error e, b')) :
    ReturnsBranching objects here fc j (s :: ss) b (.error e, b')
  | cons {here fc j s ss b r j' b' r'} (hs : Returns objects here (fc || s.flags.flowControl) s b r)
    (ha : (gives r >>= j.add (s.heading.describe (s.located.or here))).run b = (.ok j', b'))
    (hss : ReturnsBranching objects here fc j' ss b' r') :
    ReturnsBranching objects here fc j (s :: ss) b r'

end

/-! ### Bounded calls -/

variable {objects : Objects} {depth : Nat} {b : Build σ ω}

omit [Stage σ ω] in
/-- What compiles a target once is run in the state of the reference, if at all. -/
theorem run_once {x y : Compile σ ω (Option SlotId)} (h : x.run b = y.run b) (key : TargetKey)
    (settled : Option SlotId) (failure : CompileError) :
    (once key settled failure x).run b = (once key settled failure y).run b := by
  have remembered_bind : ∀ f : Option SlotId → Compile σ ω SlotId,
      (remembered key settled >>= f).run b = (f ((b.memos.lookup key).or settled)).run b :=
    fun _ => rfl
  unfold once
  rw [remembered_bind, remembered_bind]
  cases (b.memos.lookup key).or settled with
  | some id => rfl
  | none => exact run_bind_congr h _

theorem run_referTo {x y : Compile σ ω Fragment} (h : x.run b = y.run b) (head : Heading)
    (here : Option Location) (key : TargetKey) (settled : Option SlotId) :
    (referTo head here key settled x).run b = (referTo head here key settled y).run b := by
  unfold referTo
  split
  · exact run_bind_congr (run_once (run_bind_congr h _) ..) _
  · exact run_bind_congr (run_once (run_bind_congr h _) ..) _
  · exact h

variable {h : Heading} {o : Object} {cs : List Statement} {around : Option Location} {fc : Bool}
  {key : TargetKey} {t : Statement}

/-- A reference returns if its target does. -/
theorem Returns.reference (hshape : h.shape = .reference)
    (ht : (Statement.mk h o cs).target? objects = some (key, t)) {x : Compile σ ω Fragment}
    (hx : Returns objects (h.located.or around) fc t b (x.run b)) :
    Returns objects around fc (.mk h o cs) b
      ((referTo h (h.located.or around) key t.heading.memo x).run b) := by
  by_cases hm : key.Shared ∧ ((b.memos.lookup key).or t.heading.memo).isSome
  · exact .again hshape ht hm
  · have hfirst := Returns.first hshape ht hm hx
    rwa [run_referTo (x := gives (x.run b)) (y := x) rfl] at hfirst

/-- Objects return in which references by name are nested less deep. -/
def Jumping (σ : Type) {ω : Type} [Stage σ ω] (objects : Objects) (depth : Nat) : Prop :=
  ∀ d, depth = d + 1 → ∀ t : Statement, t.Fresh → t.Each (objects.Nested d) →
    ∀ b : Build σ ω, b.Sound → ∀ around fc,
      Returns objects around fc t b ((upTo objects d around fc t).run b)

theorem returns_byName (hobjects : objects.Fresh) (hjump : Jumping σ objects depth)
    (hshape : h.shape = .reference) (hnested : objects.Nested depth (.mk h o cs))
    (ho : ∀ serial t, o ≠ .target serial t) (hb : b.Sound) :
    Returns objects around fc (.mk h o cs) b
      ((byName objects (below objects depth) h (h.located.or around) fc).run b) := by
  have hnamed : (Statement.mk h o cs).named? objects = _ :=
    Statement.named_of_reference objects hshape ho
  have htarget : (Statement.mk h o cs).target? objects =
      (objects.find? ⟨h.kind, h.name.getD ""⟩).map
        fun t => (⟨t.kind, .named (h.name.getD "")⟩, t) := by
    cases o with
    | target serial t => exact absurd rfl (ho serial t)
    | empty => rfl
    | stage handle => rfl
  simp only [byName]
  cases hfind : objects.find? ⟨h.kind, h.name.getD ""⟩ with
  | none =>
    rw [hfind] at htarget
    exact .unresolved hshape htarget
  | some t =>
    rw [hfind] at htarget hnamed
    cases depth with
    | zero =>
      have hnone : (Statement.mk h o cs).named? objects = none := hnested
      rw [hnamed] at hnone
      cases hnone
    | succ d =>
      have hfresh : t.Fresh := hobjects _ (Objects.mem_of_find hfind)
      exact .reference hshape htarget (hjump d rfl t hfresh (hnested t hnamed) b hb _ fc)

-- by the constructors of statements; `hjump` stands for the induction over the depth of references

mutual

theorem returns_statement (hobjects : objects.Fresh) (hjump : Jumping σ objects depth) :
    ∀ s : Statement, s.Fresh → s.Each (objects.Nested depth) → ∀ b : Build σ ω, b.Sound →
      ∀ around fc, Returns objects around fc s b
        ((statement objects (below objects depth) around fc s).run b)
  | .mk h o cs, hfresh, hnested, b, hb, around, fc => by
    rw [statement]
    cases hshape : h.shape with
    | single => exact .single hshape
    | reference =>
      exact returns_reference hobjects hjump o h cs hshape hfresh hnested b hb around fc
    | sequence =>
      cases hall : h.flags.catchAll with
      | true => exact .catchAll hshape hall
      | false =>
        exact .sequence hshape hall (returns_chain hobjects hjump cs hfresh.children hnested.children
          (.refl hb) (.start b) (fun _ => rfl) _ fc)
    | junction =>
      exact .junction hshape (returns_branching hobjects hjump cs hfresh.children hnested.children
        (.refl hb) (.start b) (fun _ _ => rfl) _ fc)

theorem returns_reference (hobjects : objects.Fresh) (hjump : Jumping σ objects depth) :
    ∀ o : Object, ∀ h cs, h.shape = .reference → (Statement.mk h o cs).Fresh →
      (Statement.mk h o cs).Each (objects.Nested depth) → ∀ b : Build σ ω, b.Sound →
        ∀ around fc, Returns objects around fc (.mk h o cs) b
          ((reference objects (below objects depth) h (h.located.or around) fc o).run b)
  | .empty, h, cs, hshape, _, hnested, b, hb, around, fc => by
    rw [reference]
    exact returns_byName hobjects hjump hshape hnested.self (fun _ _ => by simp) hb
  | .stage _, h, cs, hshape, _, hnested, b, hb, around, fc => by
    rw [reference]
    exact returns_byName hobjects hjump hshape hnested.self (fun _ _ => by simp) hb
  | .target serial t, h, cs, hshape, hfresh, hnested, b, hb, around, fc => by
    rw [reference]
    exact .reference hshape rfl
      (returns_statement hobjects hjump t hfresh.target hnested.target b hb _ fc)

theorem returns_chain (hobjects : objects.Fresh) (hjump : Jumping σ objects depth) :
    ∀ ss : List Statement, (∀ s ∈ ss, s.Fresh) → (∀ s ∈ ss, s.Each (objects.Nested depth)) →
      ∀ {b₀ b : Build σ ω} {c : Chain}, Progress b₀ b → c.Fits b₀ b →
        (c.last = none → b.graph.size = b₀.graph.size) → ∀ here fc,
          ReturnsChain objects here fc c ss b
            ((chain objects (below objects depth) here fc c ss).run b)
  | [], _, _, b₀, b, c, _, _, _, here, fc => by
    rw [chain]
    exact .nil
  | s :: ss, hfresh, hnested, b₀, b, c, hp, hc, hempty, here, fc => by
    have hs := returns_statement hobjects hjump s (hfresh s (by simp)) (hnested s (by simp)) b
      hp.sound here (fc || s.flags.flowControl)
    have hcompiles := compiles_upTo hobjects depth s (hfresh s (by simp)) b hp.sound here
      (fc || s.flags.flowControl)
    rw [upTo_eq] at hcompiles
    have hadd := (wp_bind _ (c.add (s.heading.describe (s.located.or here)))).2 <|
      wp_mono hcompiles (fun f b' h => Chain.wp_add hp hc hempty h.1 h.2 _)
        fun e b' h => ⟨hp.trans h.1, h.2⟩
    rw [chain, ← bind_assoc]
    rcases ha : (_ >>= c.add (s.heading.describe (s.located.or here))).run b with ⟨e | c', b'⟩
    · rw [run_bind_error ha]
      exact .failed hs ha
    · obtain ⟨hp', hc', hempty'⟩ := wp_ok hadd ha
      rw [run_bind_ok ha]
      exact .cons hs ha (fun head _ => hp'.sound.core.acyclic.walks_terminal head)
        (returns_chain hobjects hjump ss (fun s h => hfresh s (by simp [h]))
          (fun s h => hnested s (by simp [h])) hp' hc' hempty' here fc)

theorem returns_branching (hobjects : objects.Fresh) (hjump : Jumping σ objects depth) :
    ∀ ss : List Statement, (∀ s ∈ ss, s.Fresh) → (∀ s ∈ ss, s.Each (objects.Nested depth)) →
      ∀ {b₀ b : Build σ ω} {j : Branching}, Progress b₀ b → j.Fits b₀ b →
        (j.fork = none → j.join = none → b.graph.size = b₀.graph.size) → ∀ here fc,
          ReturnsBranching objects here fc j ss b
            ((branching objects (below objects depth) here fc j ss).run b)
  | [], _, _, b₀, b, j, _, _, _, here, fc => by
    rw [branching]
    exact .nil
  | s :: ss, hfresh, hnested, b₀, b, j, hp, hj, hempty, here, fc => by
    have hs := returns_statement hobjects hjump s (hfresh s (by simp)) (hnested s (by simp)) b
      hp.sound here (fc || s.flags.flowControl)
    have hcompiles := compiles_upTo hobjects depth s (hfresh s (by simp)) b hp.sound here
      (fc || s.flags.flowControl)
    rw [upTo_eq] at hcompiles
    have hadd := (wp_bind _ (j.add (s.heading.describe (s.located.or here)))).2 <|
      wp_mono hcompiles (fun f b' h => Branching.wp_add hp hj hempty h.1 h.2 _)
        fun e b' h => ⟨hp.trans h.1, h.2⟩
    rw [branching, ← bind_assoc]
    rcases ha : (_ >>= j.add (s.heading.describe (s.located.or here))).run b with ⟨e | j', b'⟩
    · rw [run_bind_error ha]
      exact .failed hs ha
    · obtain ⟨hp', hj', hempty'⟩ := wp_ok hadd ha
      rw [run_bind_ok ha]
      exact .cons hs ha (returns_branching hobjects hjump ss (fun s h => hfresh s (by simp [h]))
        (fun s h => hnested s (by simp [h])) hp' hj' hempty' here fc)

end

omit [Stage σ ω] in
theorem run_once_known {id : SlotId} (hm : (b.memos.lookup key).or t.heading.memo = some id)
    (failure : CompileError) (x : Compile σ ω (Option SlotId)) :
    (once key t.heading.memo failure x).run b = (.ok id, b) := by
  have hrun : (remembered key t.heading.memo : Compile σ ω _).run b = (.ok (some id), b) := by
    rw [← hm]
    rfl
  exact run_bind_ok hrun _

theorem run_referTo_known (hm : key.Shared ∧ ((b.memos.lookup key).or t.heading.memo).isSome)
    (here : Option Location) (x y : Compile σ ω Fragment) :
    (referTo h here key t.heading.memo x).run b = (referTo h here key t.heading.memo y).run b := by
  obtain ⟨hkey, hm⟩ := hm
  obtain ⟨id, hm⟩ := Option.isSome_iff_exists.1 hm
  unfold referTo
  split
  · rw [run_bind_ok (run_once_known hm _ _), run_bind_ok (run_once_known hm _ _)]
  · rw [run_bind_ok (run_once_known hm _ _), run_bind_ok (run_once_known hm _ _)]
  · next hs hd => exact (hkey.elim hs hd).elim

mutual

theorem Returns.unique : ∀ {around fc s} {b : Build σ ω} {r r'}, Returns objects around fc s b r →
    Returns objects around fc s b r' → r = r'
  | _, _, _, _, _, _, .single hshape, h' => by
    cases h' with
    | single => rfl
    | _ => simp_all
  | _, _, _, _, _, _, .unresolved hshape ht, h' => by
    cases h' with
    | unresolved => rfl
    | _ => simp_all
  | _, _, _, _, _, _, .again hshape ht hm, h' => by
    cases h' with
    | again hshape' ht' hm' =>
      cases ht.symm.trans ht'
      exact run_referTo_known hm _ _ _
    | first hshape' ht' hm' =>
      cases ht.symm.trans ht'
      exact absurd hm hm'
    | _ => simp_all
  | _, _, _, _, _, _, .first hshape ht hm hr, h' => by
    cases h' with
    | again hshape' ht' hm' =>
      cases ht.symm.trans ht'
      exact absurd hm' hm
    | first hshape' ht' hm' hr' =>
      cases ht.symm.trans ht'
      rw [hr.unique hr']
    | _ => simp_all
  | _, _, _, _, _, _, .catchAll hshape hall, h' => by
    cases h' with
    | catchAll => rfl
    | _ => simp_all
  | _, _, _, _, _, _, .sequence hshape hall hr, h' => by
    cases h' with
    | sequence _ _ hr' => rw [hr.unique hr']
    | _ => simp_all
  | _, _, _, _, _, _, .junction hshape hr, h' => by
    cases h' with
    | junction _ hr' => rw [hr.unique hr']
    | _ => simp_all

theorem ReturnsChain.unique : ∀ {here fc c ss} {b : Build σ ω} {r r'},
    ReturnsChain objects here fc c ss b r → ReturnsChain objects here fc c ss b r' → r = r'
  | _, _, _, _, _, _, _, .nil, h' => by
    cases h'
    rfl
  | _, _, _, _, _, _, _, .failed hs ha, h' => by
    cases h' with
    | failed hs' ha' =>
      obtain rfl := hs.unique hs'
      exact ha.symm.trans ha'
    | cons hs' ha' =>
      obtain rfl := hs.unique hs'
      cases ha.symm.trans ha'
  | _, _, _, _, _, _, _, .cons hs ha _ hss, h' => by
    cases h' with
    | failed hs' ha' =>
      obtain rfl := hs.unique hs'
      cases ha.symm.trans ha'
    | cons hs' ha' _ hss' =>
      obtain rfl := hs.unique hs'
      cases ha.symm.trans ha'
      exact hss.unique hss'

theorem ReturnsBranching.unique : ∀ {here fc j ss} {b : Build σ ω} {r r'},
    ReturnsBranching objects here fc j ss b r → ReturnsBranching objects here fc j ss b r' → r = r'
  | _, _, _, _, _, _, _, .nil, h' => by
    cases h'
    rfl
  | _, _, _, _, _, _, _, .failed hs ha, h' => by
    cases h' with
    | failed hs' ha' =>
      obtain rfl := hs.unique hs'
      exact ha.symm.trans ha'
    | cons hs' ha' =>
      obtain rfl := hs.unique hs'
      cases ha.symm.trans ha'
  | _, _, _, _, _, _, _, .cons hs ha hss, h' => by
    cases h' with
    | failed hs' ha' =>
      obtain rfl := hs.unique hs'
      cases ha.symm.trans ha'
    | cons hs' ha' hss' =>
      obtain rfl := hs.unique hs'
      cases ha.symm.trans ha'
      exact hss.unique hss'

end

/-! ### Calls after others -/

theorem returns_upTo (hobjects : objects.Fresh) (depth : Nat) : ∀ s : Statement, s.Fresh →
    s.Each (objects.Nested depth) → ∀ b : Build σ ω, b.Sound → ∀ around fc,
      Returns objects around fc s b ((upTo objects depth around fc s).run b) := by
  induction depth with
  | zero =>
    intro s hs hnested b hb around fc
    rw [upTo_eq]
    exact returns_statement hobjects (fun d h => by cases h) s hs hnested b hb around fc
  | succ depth ih =>
    intro s hs hnested b hb around fc
    rw [upTo_eq]
    refine returns_statement hobjects (fun d h => ?_) s hs hnested b hb around fc
    cases h
    exact ih

/-- Compiling a statement ends, and what comes of it is what the bounded call gives. -/
theorem returns_node (hobjects : objects.Fresh) (hfounded : objects.Founded) (hb : b.Sound)
    {s : Statement} (hs : s.Fresh) (fc : Bool) (r : Outcome σ ω Fragment) :
    Returns objects none fc s b r ↔ r = (node objects fc s).run b := by
  have hreturns := returns_upTo hobjects objects.length s hs (hfounded.nested s) b hb none fc
  exact ⟨fun hr => hr.unique hreturns, fun hr => hr ▸ hreturns⟩

/-- If every chain of references ends, then compiling a statement or a rule ends in every state that
earlier calls lead to, and the bounds on references and walks change nothing. -/
theorem returns_after (objects : Objects) (calls : List Call) (pool : Pool σ ω)
    (hobjects : objects.Fresh ∧ objects.Founded) (hcalls : ∀ call ∈ calls, call.statement.Fresh)
    (s : Statement) (hs : s.Fresh) (fc : Bool) (r : Outcome σ ω Fragment) :
    let b := after objects calls { pool }
    (Returns objects none fc s b r ↔ r = (node objects fc s).run b) ∧
      (Returns objects none false (s.expandCatchAll objects) b r ↔ r = (rule objects s).run b) := by
  have hb := sound_after hobjects.1 hcalls (sound_empty pool)
  exact ⟨returns_node hobjects.1 hobjects.2 hb hs fc r,
    returns_node hobjects.1 hobjects.2 hb (hs.expandCatchAll objects) false r⟩

/-- The filter refers to a destination, and the rule to the filter. -/
theorem returns_sample :
    let b := after sampleRelays (sampleRules.map .rule) { pool := samplePool }
    Returns sampleRelays none false (sampleUse.expandCatchAll sampleRelays) b
        ((rule sampleRelays sampleUse).run b) ∧
      ((rule sampleRelays sampleUse).run b).1.toOption = some ⟨none, some 17⟩ := by
  have hfounded : sampleRelays.Founded := Catalog.founded_of_rank (c := ⟨sampleRelays, []⟩)
    (fun key => if key.id = .named "relay" then 1 else 0) (by decide +kernel)
  exact ⟨(returns_after sampleRelays (sampleRules.map .rule) samplePool ⟨by decide +kernel, hfounded⟩
    (by decide +kernel) sampleUse (by decide +kernel) false _).2.2 rfl, by decide +kernel⟩

end Compile

end Routing
