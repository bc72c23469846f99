import Routing.Proofs.Compile.Descent
import Routing.Proofs.Compile.Nesting
import Routing.Proofs.Compile.Paired
/-!
# Statements that are alike

If two statements are alike, so are their children one by one and the targets of references in them,
then compiling the one corresponds to compiling the other. What it means to be alike is left open: it
has to come down to single statements whose stages correspond. The two tables of objects may differ,
and so may the depth of references by name if that is no bound, or if failures are excused.
-/

namespace Routing

variable {σ ω α : Type} [Stage σ ω]

namespace Compile

open Build

namespace Likeness

variable {L : Likeness σ ω} {c c' : Chain} {j j' : Branching} {f f' : Fragment}
  {node node' : Descriptor} {u u' : SlotId} {k k' : TargetKey} {h h' : Heading}
  {here here' : Option Location}

/-! ### Sequences -/

omit [Stage σ ω] in
theorem chains_start : L.Chains {} {} :=
  ⟨.none, .none, .none, rfl, rfl, rfl, .inr fun h => by cases h⟩

theorem along_addStage (hL : L.Regular) (hc : L.Chains c c') {head head' : SlotId}
    {tail tail' : Option SlotId} (hhead : L.Same head head') (htail : Option.Rel L.Same tail tail')
    (hclosed : L.gap = 0 ∨ tail.isSome) (hnode : L.exact → node = node') :
    L.Along (c.addStage node head tail) (c'.addStage node' head' tail') L.Chains := by
  have hlast_tail : ∀ {g g' : Graph}, L.Graphs g g' →
      Option.Rel L.Same (some (tail.getD (g.terminal head))) (some (tail'.getD (g'.terminal head'))) := by
    intro g g' hg
    cases htail with
    | some htail => exact .some htail
    | none => exact .some (hg.terminal (hclosed.resolve_right (by simp)) hhead)
  obtain ⟨first, last, join, past, changes, flow⟩ := c
  obtain ⟨first', last', join', past', changes', flow'⟩ := c'
  obtain ⟨hfirst, hlast, hjoin, -, hchanges, hflow, -⟩ := hc
  simp only at hfirst hlast hjoin hchanges hflow
  unfold Chain.addStage
  refine (along_graph hL).bind fun g g' hg => ?_
  have hcaps := hg.capabilities hhead
  cases hlast with
  | none =>
    refine (along_graph hL).bind fun g₁ g₁' hg₁ => .pure ?_
    exact ⟨.some hhead, hlast_tail hg₁, hjoin, rfl, by rw [hcaps, hchanges], by rw [hcaps, hflow],
      .inr fun _ => rfl⟩
  | some hlast =>
    refine (along_link hL hlast hhead hnode).bind fun _ _ _ =>
      (along_graph hL).bind fun g₁ g₁' hg₁ => .pure ?_
    exact ⟨hfirst, hlast_tail hg₁, hjoin, rfl, by rw [hcaps, hchanges], by rw [hcaps, hflow],
      .inr fun _ => rfl⟩

theorem along_chainJoin (hL : L.Regular) (hc : L.Chains c c') :
    L.Along c.joinPoint c'.joinPoint fun r r' => L.Same r.1 r'.1 ∧ L.Chains r.2 r'.2 := by
  have hjoin := hc.join
  unfold Chain.joinPoint
  generalize c.join = join, c'.join = join' at hjoin
  cases hjoin with
  | some hjoin => exact .pure ⟨hjoin, hc⟩
  | none =>
    refine (along_own hL run_addJoin nofun).bind fun x x' hx => .pure ⟨hx, ?_⟩
    exact { hc with join := .some hx, last := .some hx, closed := .inr fun _ => rfl }

theorem along_addSource (hL : L.Regular) (hc : L.Chains c c') (hu : L.Same u u')
    (hnode : L.exact → node = node') :
    L.Along (c.addSource node u) (c'.addSource node' u') L.Chains := by
  unfold Chain.addSource
  refine .ite (by rw [hc.pastSources]) (fun _ => .throw fun he => by rw [hnode he]) fun _ => ?_
  refine (along_chainJoin hL hc).bind fun r r' hr => ?_
  exact (along_link hL hu hr.1 hnode).bind fun _ _ _ => .pure hr.2

theorem along_chain_add (hL : L.Regular) (hc : L.Chains c c') (hf : L.Part f f')
    (hnode : L.exact → node = node') : L.Along (c.add node f) (c'.add node' f') L.Chains := by
  obtain ⟨head, tail⟩ := f
  obtain ⟨head', tail'⟩ := f'
  obtain ⟨hhead, htail, hclosed⟩ := hf
  cases hhead with
  | some hhead => exact along_addStage hL hc hhead htail (hclosed.imp_right fun h => h rfl) hnode
  | none =>
    cases htail with
    | some htail => exact along_addSource hL hc htail hnode
    | none => exact .pure hc

theorem along_chain_finish (hL : L.Regular) (hc : L.Chains c c') (flags : Flags) (fc : Bool) :
    L.Along (c.finish flags fc) (c'.finish flags fc) L.Part := by
  have hcaps : c.headCapabilities flags fc = c'.headCapabilities flags fc := by
    simp only [Chain.headCapabilities, hc.changesMessage, hc.flowControl]
  have hpart : L.Part ⟨c.first, c.last⟩ ⟨c'.first, c'.last⟩ := ⟨hc.first, hc.last, hc.closed⟩
  have hfirst := hc.first
  unfold Chain.finish
  rw [hcaps]
  generalize c.first = x, c'.first = x' at hfirst hpart
  cases hfirst with
  | none => exact .pure hpart
  | some hx => exact (along_insertCapabilities hL hx _).bind fun _ _ _ => .pure hpart

/-! ### Junctions -/

omit [Stage σ ω] in
theorem junctions_start : L.Junctions False {} {} :=
  ⟨.none, .none, rfl, rfl, .inr fun h => by cases h⟩

theorem along_forkPoint (hL : L.Regular) (hj : L.Junctions False j j') :
    L.Along j.forkPoint j'.forkPoint fun r r' => L.Same r.1 r'.1 ∧ L.Junctions True r.2 r'.2 := by
  obtain ⟨fork, join, headless, flow⟩ := j
  obtain ⟨fork', join', headless', flow'⟩ := j'
  obtain ⟨hfork, hjoin, hheadless, hflow, -⟩ := hj
  cases hfork with
  | some hf => exact .pure ⟨hf, .some hf, hjoin, hheadless, hflow, .inr fun _ => .inr trivial⟩
  | none =>
    exact (along_own hL run_addMultiplexer nofun).bind fun f f' hf =>
      .pure ⟨hf, .some hf, hjoin, hheadless, hflow, .inr fun _ => .inr trivial⟩

theorem along_joinPoint (hL : L.Regular) {awaited : Prop} (hj : L.Junctions awaited j j') :
    L.Along j.joinPoint j'.joinPoint fun r r' => L.Same r.1 r'.1 ∧ L.Junctions False r.2 r'.2 := by
  obtain ⟨fork, join, headless, flow⟩ := j
  obtain ⟨fork', join', headless', flow'⟩ := j'
  obtain ⟨hfork, hjoin, hheadless, hflow, -⟩ := hj
  cases hjoin with
  | some hx => exact .pure ⟨hx, hfork, .some hx, hheadless, hflow, .inr fun _ => .inl rfl⟩
  | none =>
    exact (along_own hL run_addJoin nofun).bind fun x x' hx =>
      .pure ⟨hx, hfork, .some hx, hheadless, hflow, .inr fun _ => .inl rfl⟩

omit [Stage σ ω] in
theorem isSome_eq {R : α → α → Prop} {x x' : Option α} (h : Option.Rel R x x') :
    x.isSome = x'.isSome := by
  cases h <;> rfl

theorem along_addHead (hL : L.Regular) (hj : L.Junctions False j j') {head head' : Option SlotId}
    (hhead : Option.Rel L.Same head head') (hnode : L.exact → node = node') :
    L.Along (j.addHead node head) (j'.addHead node' head') (L.Junctions head.isSome) := by
  cases hhead with
  | none =>
    refine .ite (by rw [isSome_eq hj.fork]) (fun _ => .throw fun he => by rw [hnode he]) fun _ => ?_
    exact .pure ⟨hj.fork, hj.join, rfl, hj.flowControl,
      hj.closed.imp_right fun h hf => (h hf).imp_right False.elim⟩
  | @some x x' hx =>
    refine .ite (by rw [hj.headless]) (fun _ => .throw fun he => by rw [hnode he]) fun _ => ?_
    refine (along_forkPoint hL hj).bind fun r r' hr => (along_addHop hL hr.1 hx).bind fun _ _ _ => ?_
    refine (along_graph hL).bind fun g g' hg => .pure ?_
    obtain ⟨hfork, hjoin, hheadless, hflow, -⟩ := hr.2
    exact ⟨hfork, hjoin, hheadless, by rw [hg.capabilities hx, hflow], .inr fun _ => .inr rfl⟩

theorem along_addTail (hL : L.Regular) {tail tail' : Option SlotId} {awaited : Prop}
    (hj : L.Junctions awaited j j') (htail : Option.Rel L.Same tail tail')
    (hawaited : L.gap = 0 ∨ (awaited → tail.isSome)) (hnode : L.exact → node = node') :
    L.Along (j.addTail node tail) (j'.addTail node' tail') (L.Junctions False) := by
  cases htail with
  | none =>
    have hclosed : L.gap = 0 ∨ (j.fork.isSome → j.join.isSome ∨ False) := by
      rcases hj.closed, hawaited with ⟨hgap | hclosed, hgap | hawaited⟩
      · exact .inl hgap
      · exact .inl hgap
      · exact .inl hgap
      · exact .inr fun hf => .inl ((hclosed hf).resolve_right fun h => by cases hawaited h)
    exact .pure { hj with closed := hclosed }
  | some ht =>
    exact (along_joinPoint hL hj).bind fun r r' hr =>
      (along_link hL ht hr.1 hnode).bind fun _ _ _ => .pure hr.2

theorem along_branching_add (hL : L.Regular) (hj : L.Junctions False j j') (hf : L.Part f f')
    (hnode : L.exact → node = node') :
    L.Along (j.add node f) (j'.add node' f') (L.Junctions False) :=
  (along_addHead hL hj hf.head hnode).bind fun _ _ hj =>
    along_addTail hL hj hf.tail hf.closed hnode

theorem along_branching_finish (hL : L.Regular) (hj : L.Junctions False j j') (flags : Flags)
    (fc : Bool) : L.Along (j.finish flags fc) (j'.finish flags fc) L.Part := by
  have hpart : L.Part ⟨j.fork, j.join⟩ ⟨j'.fork, j'.join⟩ :=
    ⟨hj.fork, hj.join, hj.closed.imp_right fun h hf => (h hf).resolve_right id⟩
  have hfork := hj.fork
  unfold Branching.finish
  generalize j.fork = x, j'.fork = x' at hfork hpart
  cases hfork with
  | none => exact .pure hpart
  | some hx =>
    refine .ite (by rw [hj.flowControl]) (fun _ => ?_) fun _ => .pure hpart
    exact (along_insertCapabilities hL hx _).bind fun _ _ _ => .pure hpart

/-! ### Single statements -/

omit L c c' j j' f f' node node' u u' k k' h h' here here' in
/-- What a stage is put in place as depends on the pool alone. -/
theorem run_claim (p : Pool σ ω) (handle : Handle) :
    (∃ r q, Claimed p handle r q ∧ ∀ g m node,
      (claim handle node).run ⟨g, p, m⟩ = (.ok r, ⟨g, q, m⟩)) ∨
    ∃ q, Refused p handle q ∧ ∀ g m node,
      (claim handle node).run ⟨g, p, m⟩ = (.error (.cloneRefused node), ⟨g, q, m⟩) := by
  have hget : ∀ b : Build σ ω, (get : Compile σ ω (Build σ ω)).run b = (.ok b, b) := fun _ => rfl
  cases hin : p.isInlined handle with
  | false =>
    refine .inl ⟨_, _, .declared hin, fun g m node => ?_⟩
    unfold claim
    rw [run_bind_ok (hget _)]
    simp only [hin]
    rfl
  | true =>
    have hclone : ∀ copy q, p.clone handle = (copy, q) → ∀ g m,
        (cloneStage handle).run ⟨g, p, m⟩ = (.ok copy, ⟨g, q, m⟩) := by
      intro copy q hq g m
      unfold cloneStage
      rw [run_bind_ok (hget _)]
      simp only [hq]
      rfl
    cases hs : p.stage? handle with
    | none =>
      refine .inr ⟨p, .absent hs, fun g m node => ?_⟩
      unfold claim
      rw [run_bind_ok (hget _)]
      simp only [hin, if_true]
      rw [run_bind_ok (hclone none p (by simp [Pool.clone, hs]) g m)]
      rfl
    | some stage =>
      rcases hc : Stage.clone stage p.shared with ⟨_ | copy, shared⟩
      · refine .inr ⟨_, .refused hs hc, fun g m node => ?_⟩
        unfold claim
        rw [run_bind_ok (hget _)]
        simp only [hin, if_true]
        rw [run_bind_ok (hclone none _ (by simp only [Pool.clone, hs, hc]; rfl) g m)]
        rfl
      · refine .inl ⟨_, _, .cloned hin hs hc, fun g m node => ?_⟩
        unfold claim
        rw [run_bind_ok (hget _)]
        simp only [hin, if_true]
        rw [run_bind_ok (hclone _ _ (by simp only [Pool.clone, hs, hc]; rfl) g m)]
        rfl

omit c c' j j' f f' node node' u u' k k' in
/-- From equal pools a stage is put in place alike. -/
theorem along_single (hpool : ∀ {p p'}, L.pool p p' ↔ p = p')
    (hold : ∀ {p q x s s'}, L.slot p p x s s' → L.slot q q x s s')
    (hnew : ∀ q x handle role capabilities, L.slot q q x
      { handle, role, capabilities, origin := some (originOf h here) }
      { handle, role, capabilities, origin := some (originOf h' here') })
    (hnode : L.exact → h = h' ∧ here = here') (o : Object) :
    L.Along (single h here o) (single h' here' o) L.Part := by
  have hdescribe : L.exact → h.describe here = h'.describe here' := fun he => by
    rw [(hnode he).1, (hnode he).2]
  cases o with
  | empty | target => exact .throw fun he => by rw [hdescribe he]
  | stage handle =>
    rintro ⟨g, p, m⟩ ⟨g', p', m'⟩ hb
    obtain rfl : p = p' := hpool.1 hb.pool
    rcases run_claim p handle with ⟨⟨handle', role⟩, q, -, hrun⟩ | ⟨q, -, hrun⟩
    · have hplace : ∀ g m h here, (single h here (.stage handle)).run ⟨g, p, m⟩ =
          (.ok ⟨if (q.capabilities handle').isSource then none else some g.size, some g.size⟩,
            Build.grow ⟨g, p, m⟩ q
              { handle := handle', role, capabilities := q.capabilities handle'
                origin := some (originOf h here) }) := by
        intro g m h here
        refine run_eq_of_wp ?_
        simp only [single, wp_bind, wp_place, wp_graph, wp_pure]
        refine wp_of_run (hrun g m _) ?_
        simp [Build.grow, Graph.capabilities_add_size]
      unfold paired
      rw [hplace, hplace]
      refine ⟨⟨?_, .some hb.size, .inr fun _ => rfl⟩, hb.grow (hpool.2 rfl) hold ?_⟩
      · split
        · exact .none
        · exact .some hb.size
      · exact ⟨rfl, .none, .nil, hnew ..⟩
    · have hfail : ∀ g m h here, (single h here (.stage handle)).run ⟨g, p, m⟩ =
          (.error (.cloneRefused (h.describe here)), ⟨g, q, m⟩) := fun g m h here =>
        run_bind_error (hrun g m _) _
      unfold paired
      rw [hfail, hfail]
      exact .inr ⟨fun he => by rw [hdescribe he], hb.withPool (hpool.2 rfl) hold⟩

/-! ### References -/

theorem along_once (hL : L.Regular) (hk : L.key k k') (hshared : k.Shared)
    {settled settled' : Option SlotId} (hsettled : Option.Rel L.Same settled settled')
    {failure failure' : CompileError} (hfailure : L.exact → failure = failure')
    {x y : Compile σ ω (Option SlotId)} (hx : L.Along x y (Option.Rel L.Same)) :
    L.Along (once k settled failure x) (once k' settled' failure' y) L.Same := by
  have hremembered : L.Along (remembered k settled : Compile σ ω _) (remembered k' settled')
      (Option.Rel L.Same) := by
    intro b b' hb
    refine ⟨?_, hb⟩
    have hmemo := hb.memo hk hshared
    generalize b.memos.lookup k = x, b'.memos.lookup k' = x' at hmemo
    cases hmemo with
    | some h => exact .some h
    | none => exact hsettled
  refine hremembered.bind fun r r' hr => ?_
  cases hr with
  | some hr => exact .pure hr
  | none =>
    refine hx.bind fun r r' hr => ?_
    cases hr with
    | none => exact .throw hfailure
    | some hr => exact (along_remember hL hk hr).bind fun _ _ _ => .pure hr

theorem along_sourceFork (hL : L.Regular) (hu : L.Same u u') (hnode : L.exact → node = node') :
    L.Along (sourceFork u node : Compile σ ω SlotId) (sourceFork u' node') L.Same := by
  refine (along_graph hL).bind fun g g' hg => ?_
  have hnext := hg.next hu
  generalize g.next? u = x, g'.next? u' = x' at hnext
  cases hnext with
  | none =>
    exact (along_own hL run_addMultiplexer nofun).bind fun f f' hf =>
      (along_link hL hu hf hnode).bind fun _ _ _ => .pure hf
  | some hx =>
    refine .ite (hg.fork hx) (fun _ => .pure hx) fun _ => .throw fun he => ?_
    rw [hnode he, hu.eq (hL.gap he), hx.eq (hL.gap he)]

/-- References to targets that correspond are joined to them alike. If the runs are shifted, then no
reference may share its target. -/
theorem along_referTo (hL : L.Regular) (hk : L.key k k') (hgap : k.Shared → L.gap = 0)
    {settled settled' : Option SlotId} (hsettled : k.Shared → Option.Rel L.Same settled settled')
    (hhead : L.exact → h = h' ∧ here = here') {x y : Compile σ ω Fragment}
    (hx : L.Along x y L.Part) :
    L.Along (referTo h here k settled x) (referTo h' here' k' settled' y) L.Part := by
  have hkind := hL.kind hk
  have hnode : L.exact → h.describe here = h'.describe here' := fun he => by
    rw [(hhead he).1, (hhead he).2]
  have hfailure : L.exact → emptyObject h here = emptyObject h' here' := fun he => by
    rw [(hhead he).1, (hhead he).2]
  unfold referTo
  rw [← hkind]
  split
  · next hs =>
    refine (along_once hL hk (.inl hs) (hsettled (.inl hs)) hfailure
      (hx.bind fun f f' hf => .pure hf.tail)).bind fun u u' hu => ?_
    refine (along_sourceFork hL hu hnode).bind fun f f' hf => ?_
    refine (along_own hL run_addAttach nofun).bind fun a a' ha => ?_
    exact (along_addHop hL hf ha).bind fun _ _ _ => .pure ⟨.none, .some ha, .inr fun h => by cases h⟩
  · next hd =>
    refine (along_once hL hk (.inr hd) (hsettled (.inr hd)) hfailure
      (hx.bind fun f f' hf => .pure hf.head)).bind fun u u' hu => ?_
    refine (along_own hL run_addMultiplexer nofun).bind fun f f' hf => ?_
    exact (along_addHop hL hf hu).bind fun _ _ _ => .pure ⟨.some hf, .none, .inl (hgap (.inr hd))⟩
  · exact hx

end Likeness

/-! ### References in a context -/

section References

variable {objects : Objects} {s t : Statement} {key : TargetKey} {depth : Nat}
  {around : Option Location} {fc : Bool}

/-- How deep references by name may be nested in the target of a reference. -/
structure Inner (objects : Objects) (depth : Nat) (s t : Statement) (inner : Nat) : Prop where
  level : inner + (if (s.named? objects).isSome then 1 else 0) = depth
  nested : s.Each (objects.Nested depth) → t.Each (objects.Nested inner)
  smaller : Prod.Lex (· < ·) (· < ·) (inner, sizeOf t) (depth, sizeOf s)

/-- A reference to a target is too deep, or it is joined to what its target is compiled to. -/
theorem upTo_refer (depth : Nat) (hshape : s.shape = .reference) (ht : s.target? objects = some (key, t)) :
    depth = 0 ∧ (s.named? objects).isSome ∧ (∀ around fc, upTo (σ := σ) objects depth around fc s =
        throw (.circularReference s.kind (s.name.getD "")
          (Location.textOf (s.located.or around)))) ∨
      ∃ inner, Inner objects depth s t inner ∧ ∀ around fc, upTo (σ := σ) objects depth around fc s =
        referTo s.heading (s.located.or around) key t.heading.memo
          (upTo objects inner (s.located.or around) fc t) := by
  rcases Statement.target_cases ht with ⟨serial, ho, rfl⟩ | ⟨ho, hfind, rfl⟩
  · have hnamed : s.named? objects = none := by
      obtain ⟨⟨shape, kind, name, flags, location, memo⟩, o, cs⟩ := s
      cases ho
      cases hshape
      rfl
    exact .inr ⟨depth, ⟨by simp [hnamed], fun h => Task.each_target h ho,
      .right _ (Task.sizeOf_target ho)⟩, fun around fc => upTo_inline hshape ho⟩
  · have hnamed : s.named? objects = some t := by
      obtain ⟨h, o, cs⟩ := s
      exact (Statement.named_of_reference objects hshape ho).trans hfind
    cases depth with
    | zero =>
      refine .inl ⟨rfl, by rw [hnamed]; rfl, fun around fc => ?_⟩
      rw [upTo_byName hshape ho, byName]
      simp only [Statement.kind, Statement.name] at hfind
      simp only [hfind, below]
      rfl
    | succ depth =>
      exact .inr ⟨depth, ⟨by simp [hnamed], fun h => h.self t hnamed, .left _ _ (Nat.lt_succ_self _)⟩,
        fun around fc => upTo_named hshape ho hfind⟩

end References

/-! ### All statements -/

namespace Likeness

variable {L : Likeness σ ω} {objects objects' : Objects} {A : Statement → Statement → Prop}

/-- The targets of two references are alike. -/
structure Targets (L : Likeness σ ω) (A : Statement → Statement → Prop) (r r' : TargetKey × Statement) :
    Prop where
  key : L.key r.1 r'.1
  gap : r.1.Shared → L.gap = 0
  memo : r.1.Shared → Option.Rel L.Same r.2.heading.memo r'.2.heading.memo
  alike : A r.2 r'.2

/-- Compiling statements that are alike corresponds. -/
structure Lawful (L : Likeness σ ω) (objects objects' : Objects) (A : Statement → Statement → Prop) :
    Prop extends L.Regular where
  shape : ∀ {s s'}, A s s' → s.shape = s'.shape
  flags : ∀ {s s'}, A s s' → s.flags = s'.flags
  heading : ∀ {s s'}, L.exact → A s s' → s.heading = s'.heading
  children : ∀ {s s'}, A s s' → s.shape = .sequence ∨ s.shape = .junction →
    List.Forall₂ A s.children s'.children
  single : ∀ {s s' here here'}, A s s' → s.shape = .single → (L.exact → here = here') →
    L.Along (single s.heading here s.object) (single s'.heading here' s'.object) L.Part
  target : ∀ {s s'}, A s s' → s.shape = .reference →
    Option.Rel (L.Targets A) (s.target? objects) (s'.target? objects')

/-- The depth of references is no reason for a difference: failures are excused, or no reference is too
deep, or references are as deep in both runs. -/
def Deep (L : Likeness σ ω) (objects objects' : Objects) (A : Statement → Statement → Prop)
    (depth depth' : Nat) (s s' : Statement) : Prop :=
  L.lax ∨ (s.Each (objects.Nested depth) ∧ s'.Each (objects'.Nested depth')) ∨
    (depth = depth' ∧ ∀ s s', A s s' → (s.named? objects).isSome = (s'.named? objects').isSome)

variable {depth depth' : Nat} {s s' : Statement} {here here' around around' : Option Location}
  {fc : Bool}

section Deep

variable {t t' : Statement} {inner inner' : Nat}

omit [Stage σ ω]

/-- Where references are as deep in both runs as can be, so they are in the targets. -/
theorem Deep.target (hdeep : L.Deep objects objects' A depth depth' s s') (hs : A s s')
    (hinner : Inner objects depth s t inner) (hinner' : Inner objects' depth' s' t' inner') :
    L.Deep objects objects' A inner inner' t t' := by
  rcases hdeep with hlax | ⟨hnested, hnested'⟩ | ⟨rfl, hsteady⟩
  · exact .inl hlax
  · exact .inr (.inl ⟨hinner.nested hnested, hinner'.nested hnested'⟩)
  · refine .inr (.inr ⟨?_, hsteady⟩)
    have hdepth := hinner.level.trans hinner'.level.symm
    rw [hsteady s s' hs] at hdepth
    exact Nat.add_right_cancel hdepth

/-- If only the first run comes to a reference that is too deep, then failures are excused. -/
theorem Deep.lax_of_first (hdeep : L.Deep objects objects' A 0 depth' s s') (hs : A s s')
    (hnamed : (s.named? objects).isSome) (hinner' : Inner objects' depth' s' t' inner') : L.lax := by
  rcases hdeep with hlax | ⟨hnested, -⟩ | ⟨rfl, hsteady⟩
  · exact hlax
  · rw [show s.named? objects = none from hnested.self] at hnamed
    cases hnamed
  · have hdepth := hinner'.level
    rw [← hsteady s s' hs, if_pos hnamed] at hdepth
    cases hdepth

/-- If only the second run comes to a reference that is too deep, then failures are excused. -/
theorem Deep.lax_of_second (hdeep : L.Deep objects objects' A depth 0 s s') (hs : A s s')
    (hnamed : (s'.named? objects').isSome) (hinner : Inner objects depth s t inner) : L.lax := by
  rcases hdeep with hlax | ⟨-, hnested⟩ | ⟨rfl, hsteady⟩
  · exact hlax
  · rw [show s'.named? objects' = none from hnested.self] at hnamed
    cases hnamed
  · have hdepth := hinner.level
    rw [hsteady s s' hs, if_pos hnamed] at hdepth
    cases hdepth

end Deep

/-- Runs on statements that are alike correspond. -/
def Follows (L : Likeness σ ω) (objects objects' : Objects) (depth depth' : Nat) (s s' : Statement) :
    Prop :=
  ∀ around around' fc, (L.exact → around = around') →
    L.Along (upTo objects depth around fc s) (upTo objects' depth' around' fc s') L.Part

namespace Lawful

theorem here_eq (hL : L.Lawful objects objects' A) (hs : A s s') (haround : L.exact → around = around')
    (he : L.exact) : s.located.or around = s'.located.or around' := by
  rw [haround he, show s.located = s'.located from congrArg Heading.located (hL.heading he hs)]

theorem describe_eq (hL : L.Lawful objects objects' A) (hs : A s s')
    (haround : L.exact → around = around') (he : L.exact) :
    s.heading.describe (s.located.or around) = s'.heading.describe (s'.located.or around') := by
  rw [hL.heading he hs, hL.here_eq hs haround he]

/-- Children that are alike are added one by one, each after what corresponds. -/
theorem along_chain (hL : L.Lawful objects objects' A) (hhere : L.exact → here = here')
    {ss ss' : List Statement} (hss : List.Forall₂ A ss ss')
    (hfollows : ∀ s ∈ ss, ∀ s' ∈ ss', A s s' → L.Follows objects objects' depth depth' s s')
    {c c' : Chain} (hc : L.Chains c c') :
    L.Along (chain objects (below objects depth) here fc c ss)
      (chain objects' (below objects' depth') here' fc c' ss') L.Chains := by
  induction hss generalizing c c' with
  | nil =>
    rw [chain, chain]
    exact .pure hc
  | cons hs _ ih =>
    rw [chain, chain, ← upTo_eq, ← upTo_eq, hL.flags hs]
    refine (hfollows _ (by simp) _ (by simp) hs _ _ _ hhere).bind fun f f' hf => ?_
    refine (along_chain_add hL.toRegular hc hf (hL.describe_eq hs hhere)).bind fun c c' hc => ?_
    exact ih (fun s h s' h' => hfollows s (by simp [h]) s' (by simp [h'])) hc

theorem along_branching (hL : L.Lawful objects objects' A) (hhere : L.exact → here = here')
    {ss ss' : List Statement} (hss : List.Forall₂ A ss ss')
    (hfollows : ∀ s ∈ ss, ∀ s' ∈ ss', A s s' → L.Follows objects objects' depth depth' s s')
    {j j' : Branching} (hj : L.Junctions False j j') :
    L.Along (branching objects (below objects depth) here fc j ss)
      (branching objects' (below objects' depth') here' fc j' ss') (L.Junctions False) := by
  induction hss generalizing j j' with
  | nil =>
    rw [branching, branching]
    exact .pure hj
  | cons hs _ ih =>
    rw [branching, branching, ← upTo_eq, ← upTo_eq, hL.flags hs]
    refine (hfollows _ (by simp) _ (by simp) hs _ _ _ hhere).bind fun f f' hf => ?_
    refine (along_branching_add hL.toRegular hj hf (hL.describe_eq hs hhere)).bind fun j j' hj => ?_
    exact ih (fun s h s' h' => hfollows s (by simp [h]) s' (by simp [h'])) hj

omit [Stage σ ω] in
theorem deep_child (hdeep : L.Deep objects objects' A depth depth' s s') {p p' : Statement}
    (hp : p ∈ s.children) (hp' : p' ∈ s'.children) : L.Deep objects objects' A depth depth' p p' :=
  hdeep.imp_right (.imp_left fun h => ⟨Task.each_child h.1 hp, Task.each_child h.2 hp'⟩)

omit [Stage σ ω] in
/-- A failure is excused. -/
theorem along_of_lax (hlax : L.lax) {x : Compile σ ω α} {R : α → α → Prop} {y : Compile σ ω α}
    (h : (∃ e, x = throw e) ∨ ∃ e, y = throw e) : L.Along x y R := by
  intro b b' _
  unfold paired
  rcases h with ⟨e, rfl⟩ | ⟨e, rfl⟩
  · split
    · next hx _ => cases hx
    · exact .inl hlax
    · exact hlax
  · split
    · next _ hy => cases hy
    · exact .inl hlax
    · exact hlax

theorem follows_reference (hL : L.Lawful objects objects' A) (hs : A s s')
    (hshape : s.shape = .reference) (hdeep : L.Deep objects objects' A depth depth' s s')
    (ih : ∀ {inner inner' t t'}, Prod.Lex (· < ·) (· < ·) (inner, sizeOf t) (depth, sizeOf s) →
      A t t' → L.Deep objects objects' A inner inner' t t' → L.Follows objects objects' inner inner' t t') :
    L.Follows objects objects' depth depth' s s' := by
  intro around around' fc haround
  have hshape' := (hL.shape hs).symm.trans hshape
  have htargets := hL.target hs hshape
  have herror : ∀ he : L.exact, s.kind = s'.kind ∧ s.name = s'.name ∧
      s.located.or around = s'.located.or around' := fun he =>
    ⟨congrArg Heading.kind (hL.heading he hs), congrArg Heading.name (hL.heading he hs),
      hL.here_eq hs haround he⟩
  generalize hr : s.target? objects = r, hr' : s'.target? objects' = r' at htargets
  cases htargets with
  | none =>
    rw [upTo_unresolved hshape hr, upTo_unresolved hshape' hr']
    exact .throw fun he => by rw [(herror he).1, (herror he).2.1, (herror he).2.2]
  | @some r r' ht =>
    obtain ⟨key, t⟩ := r
    obtain ⟨key', t'⟩ := r'
    obtain ⟨hkey, hgap, hmemo, halike⟩ := ht
    rcases upTo_refer (σ := σ) depth hshape hr with ⟨rfl, hnamed, hrun⟩ |
        ⟨inner, hinner, hrun⟩ <;>
      rcases upTo_refer (σ := σ) depth' hshape' hr' with ⟨rfl, hnamed', hrun'⟩ |
        ⟨inner', hinner', hrun'⟩ <;> rw [hrun, hrun']
    · exact .throw fun he => by rw [(herror he).1, (herror he).2.1, (herror he).2.2]
    · exact along_of_lax (hdeep.lax_of_first hs hnamed hinner') (.inl ⟨_, rfl⟩)
    · exact along_of_lax (hdeep.lax_of_second hs hnamed' hinner) (.inr ⟨_, rfl⟩)
    · refine along_referTo hL.toRegular hkey hgap hmemo
        (fun he => ⟨hL.heading he hs, hL.here_eq hs haround he⟩) ?_
      exact ih hinner.smaller halike (hdeep.target hs hinner hinner') _ _ fc (hL.here_eq hs haround)

/-- Runs on statements that are alike correspond, by induction on how deep references may be nested
in the first and on its size. -/
theorem follows (hL : L.Lawful objects objects' A) (depth depth' : Nat) (s s' : Statement)
    (hs : A s s') (hdeep : L.Deep objects objects' A depth depth' s s') :
    L.Follows objects objects' depth depth' s s' := by
  have hshape' := hL.shape hs
  have hchildren : ∀ p ∈ s.children, ∀ p' ∈ s'.children, A p p' →
      L.Follows objects objects' depth depth' p p' := fun p hp p' hp' h =>
    follows hL depth depth' p p' h (deep_child hdeep hp hp')
  cases hshape : s.shape with
  | single =>
    intro around around' fc haround
    rw [upTo_single hshape, upTo_single (hshape' ▸ hshape)]
    exact hL.single hs hshape (hL.here_eq hs haround)
  | reference =>
    exact follows_reference hL hs hshape hdeep fun hlt ht hdeep => follows hL _ _ _ _ ht hdeep
  | sequence =>
    intro around around' fc haround
    cases hall : s.flags.catchAll with
    | true =>
      rw [upTo_nested hshape hall, upTo_nested (hshape' ▸ hshape) (hL.flags hs ▸ hall)]
      exact .throw fun he => by rw [hL.describe_eq hs haround he]
    | false =>
      rw [upTo_sequence hshape hall, upTo_sequence (hshape' ▸ hshape) (hL.flags hs ▸ hall),
        ← hL.flags hs]
      exact (hL.along_chain (hL.here_eq hs haround) (hL.children hs (.inl hshape)) hchildren
        chains_start).bind
        fun c c' hc => along_chain_finish hL.toRegular hc _ fc
  | junction =>
    intro around around' fc haround
    rw [upTo_junction hshape, upTo_junction (hshape' ▸ hshape), ← hL.flags hs]
    exact (hL.along_branching (hL.here_eq hs haround) (hL.children hs (.inr hshape)) hchildren
      junctions_start).bind fun j j' hj => along_branching_finish hL.toRegular hj _ fc
termination_by (depth, sizeOf s)
decreasing_by
  · exact .right _ (Task.sizeOf_child hp)
  · exact hlt

end Lawful

end Likeness

end Compile

end Routing
