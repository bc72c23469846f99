import Routing.Proofs.Compile.Alike
import Routing.Proofs.Compile.Points
/-!
# Copies

Filters, parsers and rewrites are compiled again for each reference to them. If nothing below such an
object is shared, and clones are labelled as their originals and declare the same, then what is
compiled for a later reference is what was compiled for an earlier one, with other slots, and with
clones in place of the stages that were declared there.
-/

namespace Routing

variable {σ ω : Type}

/-! ### What lies below a statement -/

/-- Compiling the first statement calls for compiling the second: a child of a sequence or a junction, or
the target of a reference. -/
def Objects.Over (objects : Objects) (s t : Statement) : Prop :=
  (s.shape = .sequence ∨ s.shape = .junction) ∧ t ∈ s.children ∨
    s.shape = .reference ∧ ∃ key, s.target? objects = some (key, t)

/-- The second statement is the first, or lies below it at any depth, also beyond references. -/
def Objects.Under (objects : Objects) : Statement → Statement → Prop :=
  Relation.ReflTransGen objects.Over

variable {objects : Objects} {s t u : Statement} {key : TargetKey}

theorem Objects.Over.child (hshape : s.shape = .sequence ∨ s.shape = .junction)
    (h : t ∈ s.children) : objects.Over s t := .inl ⟨hshape, h⟩

theorem Objects.Over.target (hshape : s.shape = .reference)
    (ht : s.target? objects = some (key, t)) : objects.Over s t := .inr ⟨hshape, key, ht⟩

/-- What all parts of a statement and of the objects have, all statements below it have. -/
theorem Objects.Under.each {P : Statement → Prop} (h : objects.Under s t) (hs : s.Each P)
    (hobjects : ∀ entry ∈ objects, entry.2.Each P) : t.Each P := by
  induction h with
  | refl => exact hs
  | tail _ hover ih =>
    rcases hover with ⟨-, hmem⟩ | ⟨-, key, ht⟩
    · exact Compile.Task.each_child ih hmem
    · exact ih.target_of hobjects ht

/-- No reference below the statement shares its target. -/
def Objects.Unshared (objects : Objects) (t : Statement) : Prop :=
  ∀ s, objects.Under t s → s.shape = .reference → ∀ key u, s.target? objects = some (key, u) →
    ¬ key.Shared

theorem Objects.Unshared.over (h : objects.Unshared s) (ht : objects.Over s t) : objects.Unshared t :=
  fun u hu => h u (.head ht hu)

/-- The role of the stage in a later copy. -/
def Role.copied : Role → Role
  | declared => cloned
  | role => role

/-- The part with other slots. -/
def Fragment.shift (gap : Nat) (f : Fragment) : Fragment :=
  ⟨f.head.map (· + gap), f.tail.map (· + gap)⟩

variable [Stage σ ω]

/-- Clones of the stage are labelled as it is and declare what it does. -/
def Pool.CopiesAlike (p : Pool σ ω) (handle : Handle) : Prop :=
  ∀ stage copy shared shared', p.stage? handle = some stage →
    Stage.clone stage shared = (some copy, shared') →
    Stage.label copy = Stage.label stage ∧ Stage.capabilities copy = Stage.capabilities stage

/-- The object is compiled again for each reference to it, and so is all that lies below it; clones of
the stages in it are like their originals. -/
structure Objects.Copyable (objects : Objects) (p : Pool σ ω) (key : TargetKey) (t : Statement) :
    Prop where
  again : ¬ key.Shared
  below : objects.Unshared t
  clones : ∀ s handle, objects.Under t s → s.shape = .single → s.object = .stage handle →
    p.CopiesAlike handle

/-- If no reference in the objects shares its target, and all clones are like their originals, then the
objects can be copied. -/
theorem Objects.copyable_of_each {p : Pool σ ω} {k : ObjectKey} (hfind : objects.find? k = some t)
    (hkey : ¬ key.Shared)
    (hobjects : ∀ entry ∈ objects, entry.2.Each fun s => ∀ r ∈ s.target? objects, ¬ r.1.Shared)
    (hclones : ∀ handle, p.CopiesAlike handle) : objects.Copyable p key t where
  again := hkey
  below _ hs _ _ _ hr := (hs.each (hobjects _ (mem_of_find hfind)) hobjects).self _ hr
  clones _ handle _ _ _ := hclones handle

omit [Stage σ ω] in
/-- Clones of the stages of the library are like their originals. -/
theorem Pool.copiesAlike_builtin (p : Pool Builtin Shared) (handle : Handle) :
    p.CopiesAlike handle := by
  intro stage copy shared shared' _ hclone
  rcases Builtin.clone_eq hclone with rfl | ⟨c, rfl, rfl⟩
  · exact ⟨rfl, rfl⟩
  · exact ⟨rfl, rfl⟩

/-- The second slot is a copy of the first, with the stages that it leads to further on. -/
structure Slot.Copies (p p' : Pool σ ω) (gap : Nat) (s s' : Slot) : Prop where
  label : p'.label s'.handle = p.label s.handle
  capabilities : s'.capabilities = s.capabilities
  next : s'.next = s.next.map (· + gap)
  hops : s'.hops = s.hops.map (· + gap)
  role : s'.role = s.role.copied

namespace Compile

open Build

/-! ### Tasks that succeed -/

theorem referTo_unshared {h : Heading} {here : Option Location} {settled : Option SlotId}
    {run : Compile σ ω Fragment} (hkey : ¬ key.Shared) : referTo h here key settled run = run := by
  unfold referTo
  split
  · next hk => exact absurd (.inl hk) hkey
  · next hk => exact absurd (.inr hk) hkey
  · rfl

namespace Task

variable {k k' : Task σ ω} {f : Fragment} {b : Build σ ω}

theorem Calls.over (h : k.Calls objects k') : objects.Over k.statement k'.statement := by
  rcases h with h | h
  · cases h with
    | sequence hshape _ hcs _ => exact .child (.inl hshape) (hcs ▸ by simp)
    | junction hshape hcs _ => exact .child (.inr hshape) (hcs ▸ by simp)
  · cases h with
    | inline hshape ho _ => exact .target hshape (Statement.target_of_inline ho)
    | named _ hshape ho hfind _ => exact .target hshape (Statement.target_of_find ho hfind)

theorem Reaches.under (h : k.Reaches objects k') : objects.Under k.statement k'.statement := by
  induction h with
  | refl => exact .refl
  | tail _ hcall ih => exact ih.tail hcall.over

theorem result_eq_ok (hok : (k.result objects).1 = .ok f) :
    k.result objects = (.ok f, (k.result objects).2) :=
  Prod.ext hok rfl

/-- A reference whose target is not shared comes to what its target comes to. -/
theorem exists_target (hshape : k.statement.shape = .reference)
    (ht : k.statement.target? objects = some (key, t)) (hkey : ¬ key.Shared)
    (hok : k.result objects = (.ok f, b)) :
    ∃ k', k.Target objects k' ∧ k'.statement = t ∧ k'.flowControl = k.flowControl ∧
      k'.result objects = (.ok f, b) := by
  rcases Statement.target_cases ht with ⟨serial, ho, rfl⟩ | ⟨ho, hfind, rfl⟩
  · refine ⟨_, .inline hshape ho fun h => absurd h hkey, rfl, rfl, ?_⟩
    rw [result, upTo_inline hshape ho, referTo_unshared hkey] at hok
    exact hok
  · cases hdepth : k.depth with
    | zero =>
      rw [result, hdepth, upTo_byName hshape ho, byName] at hok
      simp only [Statement.kind, Statement.name] at hfind
      simp only [hfind, below] at hok
      cases hok
    | succ depth =>
      refine ⟨_, .named hdepth hshape ho hfind fun h => absurd h hkey, rfl, rfl, ?_⟩
      rw [result, hdepth, upTo_named hshape ho hfind, referTo_unshared hkey] at hok
      exact hok

omit [Stage σ ω] in
theorem run_front {α β : Type} {x : Compile σ ω α} {g : α → Compile σ ω β} {b : Build σ ω} {r : β}
    (h : ((x >>= g).run b).1 = .ok r) : ∃ a b', x.run b = (.ok a, b') := by
  rcases hx : x.run b with ⟨e | a, b'⟩
  · rw [run_bind_error hx] at h
    cases h
  · exact ⟨a, b', rfl⟩

/-- A task that succeeds calls for all that is right below its statement, unless that is shared. -/
theorem exists_call (hs : objects.Over k.statement s) (hunshared : objects.Unshared k.statement)
    (hok : (k.result objects).1 = .ok f) :
    ∃ k', k.Calls objects k' ∧ k'.statement = s ∧ ∃ f', (k'.result objects).1 = .ok f' := by
  have hsuccess : ∀ {k'}, k.Calls objects k' → ∃ f', (k'.result objects).1 = .ok f' := by
    intro k' hcall
    cases hr : (k'.result objects).1 with
    | ok f' => exact ⟨f', rfl⟩
    | error e => cases (hcall.fails hr).symm.trans hok
  rcases hs with ⟨hshape | hshape, hmem⟩ | ⟨hshape, key, ht⟩
  · obtain ⟨pre, post, hcs⟩ := List.append_of_mem hmem
    have hall : k.statement.flags.catchAll = false := by
      by_contra hall
      rw [result, upTo_nested hshape (by simpa using hall)] at hok
      cases hok
    have hrun := hok
    rw [result, upTo_sequence hshape hall, hcs, chain_append, bind_assoc] at hrun
    obtain ⟨c, b', hrun⟩ := run_front hrun
    have hcall : k.Calls objects (k.child s b') := .inl (.sequence hshape hall hcs hrun)
    exact ⟨_, hcall, rfl, hsuccess hcall⟩
  · obtain ⟨pre, post, hcs⟩ := List.append_of_mem hmem
    have hrun := hok
    rw [result, upTo_junction hshape, hcs, branching_append, bind_assoc] at hrun
    obtain ⟨j, b', hrun⟩ := run_front hrun
    have hcall : k.Calls objects (k.child s b') := .inl (.junction hshape hcs hrun)
    exact ⟨_, hcall, rfl, hsuccess hcall⟩
  · obtain ⟨k', htarget, hk', -, -⟩ := exists_target hshape ht (hunshared _ .refl hshape _ _ ht)
      (result_eq_ok hok)
    exact ⟨k', .inr htarget, hk', hsuccess (.inr htarget)⟩

/-- A task that succeeds comes to all that lies below its statement, unless some of it is shared. -/
theorem exists_task (hs : objects.Under t s) : ∀ {k : Task σ ω} {f : Fragment}, k.statement = t →
    objects.Unshared t → (k.result objects).1 = .ok f →
    ∃ k', k.Reaches objects k' ∧ k'.statement = s ∧ ∃ f', (k'.result objects).1 = .ok f' := by
  induction hs using Relation.ReflTransGen.head_induction_on with
  | refl => exact fun hk _ hok => ⟨_, .refl, hk, _, hok⟩
  | head hover _ ih =>
    intro k f hk hunshared hok
    subst hk
    obtain ⟨k', hcall, hk', f', hok'⟩ := exists_call hover hunshared hok
    obtain ⟨k'', hreaches, hk'', hok''⟩ := ih hk' (hunshared.over hover) hok'
    exact ⟨k'', .head hcall hreaches, hk'', hok''⟩

/-- A reference to what lies above it does not succeed, unless some of it is shared. -/
theorem fails_of_circle (hshape : u.shape = .reference) (ht : u.target? objects = some (key, t))
    (hunder : objects.Under t u) (hunshared : objects.Unshared t) :
    ∀ k : Task σ ω, ∀ k', k.Reaches objects k' → k'.statement = u → ∀ f,
      (k'.result objects).1 ≠ .ok f := by
  -- if it did, its target would come to the reference again, and to no end
  refine induction objects fun k ih k' hreaches hk' f hok => ?_
  rcases Relation.ReflTransGen.cases_head hreaches with rfl | ⟨k₁, hcall, hreaches⟩
  · subst hk'
    obtain ⟨k₁, htarget, hk₁, -, hok₁⟩ := exists_target hshape ht
      (hunshared _ hunder hshape _ _ ht) (result_eq_ok hok)
    obtain ⟨k₂, hreaches₂, hk₂, f', hok₂⟩ := exists_task hunder hk₁ hunshared (congrArg Prod.fst hok₁)
    exact ih k₁ (.inr htarget) k₂ hreaches₂ hk₂ f' hok₂
  · exact ih k₁ hcall k' hreaches hk' f hok

/-- A reference that succeeds is not compiled below another one to the same target. -/
theorem not_below {f : Fragment} (hshape : k.statement.shape = .reference)
    (ht : k.statement.target? objects = some (key, t)) (hkey : ¬ key.Shared)
    (hunshared : objects.Unshared t) (hok : (k.result objects).1 = .ok f)
    (hshape' : k'.statement.shape = .reference) (ht' : k'.statement.target? objects = some (key, t)) :
    ¬ Relation.TransGen (Calls objects) k k' := by
  intro hbelow
  obtain ⟨k₁, htarget, hk₁, -, hok₁⟩ := exists_target hshape ht hkey (result_eq_ok hok)
  obtain ⟨k₂, hcall, hreaches⟩ := Relation.TransGen.head'_iff.1 hbelow
  obtain rfl : k₂ = k₁ := by
    rcases hcall with hchild | htarget'
    · cases hchild with
      | sequence h _ _ _ => cases hshape.symm.trans h
      | junction h _ _ => cases hshape.symm.trans h
    · exact htarget'.unique htarget
  have hunder : objects.Under t k'.statement := hk₁ ▸ Reaches.under hreaches
  obtain ⟨k₃, hreaches₃, hk₃, f', hok₃⟩ := exists_task hunder hk₁ hunshared (congrArg Prod.fst hok₁)
  exact fails_of_circle hshape' ht' hunder hunshared k₂ k₃ hreaches₃ hk₃ f' hok₃

end Task

/-! ### Stages that sit in the graph -/

theorem Claimed.inlined {p p' : Pool σ ω} {handle : Handle} {r : Handle × Role}
    (hlt : handle < p.instances.size) (h : Claimed p handle r p') : p'.isInlined handle = true := by
  cases h with
  | declared _ => rw [Pool.isInlined_markInlined hlt, if_pos rfl]
  | cloned hin hs hc => exact ((Claimed.cloned hin hs hc).grown hlt).inlined hin

/-- What a task puts in place sits in the graph when it is done. -/
theorem Task.inlined {n : Nat} {k : Task σ ω} {handle : Handle} {f : Fragment}
    (hobjects : objects.Holds n) (hk : k.statement.Holds n) (hn : n ≤ k.state.pool.instances.size)
    (hunshared : objects.Unshared k.statement) (hok : (k.result objects).1 = .ok f)
    (hs : objects.Under k.statement s) (hshape : s.shape = .single) (ho : s.object = .stage handle) :
    (k.result objects).2.pool.isInlined handle = true := by
  obtain ⟨k', hreaches, rfl, f', hok'⟩ := exists_task hs rfl hunshared hok
  have hk' := hreaches.holds hobjects hk
  have hstate : k.state.Grown k'.state :=
    hreaches.keeps_state (stable_grownTo k.state hn) hobjects hk (.refl _)
  have hn' : n ≤ k'.state.pool.instances.size := Nat.le_trans hn hstate.pool.size_le
  have hresult : k'.state.Grown (k'.result objects).2 := grown_result hobjects hk' hn'
  have hlt : handle < k'.state.pool.instances.size := by
    refine Nat.lt_of_lt_of_le ?_ hn'
    have hbelow : k'.statement.object.Below n := hk'.self
    rw [ho] at hbelow
    exact hbelow
  have hinlined : (k'.result objects).2.pool.isInlined handle = true := by
    have hwp : wp (k'.work objects) (fun _ b => b.pool.isInlined handle = true) (fun _ _ => True)
        k'.state := by
      rw [work, upTo_single hshape, ho]
      exact wp_single (fun _ _ _ hr => hr.inlined hlt) fun _ _ => trivial
    exact wp_ok hwp (result_eq_ok hok')
  have hgrown : (k'.result objects).2.Grown (k.result objects).2 :=
    hreaches.keeps_result (stable_grownTo _ (Nat.le_trans hn' hresult.pool.size_le)) hobjects hk
      (.refl _)
  exact hgrown.pool.inlined hinlined

theorem Claimed.alike {p p' : Pool σ ω} {handle : Handle} {r : Handle × Role}
    (hlt : handle < p.instances.size) (hclones : p.CopiesAlike handle) (h : Claimed p handle r p') :
    p'.label r.1 = p.label handle ∧ p'.capabilities r.1 = p.capabilities handle ∧
      r.1 < p'.instances.size := by
  obtain ⟨stage, hstage⟩ := Pool.exists_stage hlt
  have hcopy : ∃ copy, p'.stage? r.1 = some copy ∧ Stage.label copy = Stage.label stage ∧
      Stage.capabilities copy = Stage.capabilities stage := by
    rcases h.stage with hsame | ⟨stage', copy, shared, shared', hstage', hcopy, hclone⟩
    · exact ⟨stage, hsame.trans hstage, rfl, rfl⟩
    · cases hstage.symm.trans hstage'
      exact ⟨copy, hcopy, hclones stage copy shared shared' hstage hclone⟩
  obtain ⟨copy, hcopy, hlabel, hcaps⟩ := hcopy
  refine ⟨?_, ?_, Pool.lt_of_stage hcopy⟩
  · simp only [Pool.label, hcopy, hstage, Option.map_some, Option.getD_some, hlabel]
  · simp only [Pool.capabilities, hcopy, hstage, Option.map_some, Option.getD_some, hcaps]

/-- Both pools have the stage, which sits in the graph in the second, and its clones are like it. -/
structure Stocked (p p' : Pool σ ω) (handle : Handle) : Prop where
  lt : handle < p.instances.size
  stage : p'.stage? handle = p.stage? handle
  inlined : p'.isInlined handle = true
  clones : p.CopiesAlike handle

/-- The slots hold stages with one label, in roles that correspond. -/
structure Twins (p p' : Pool σ ω) (s s' : Slot) : Prop where
  lt : s.handle < p.instances.size
  lt' : s'.handle < p'.instances.size
  label : p'.label s'.handle = p.label s.handle
  role : s'.role = s.role.copied

section Pools

variable {p p' q q' : Pool σ ω} {handle : Handle} {s s' : Slot}

theorem Stocked.lt' (h : Stocked p p' handle) : handle < p'.instances.size := by
  obtain ⟨stage, hstage⟩ := Pool.exists_stage h.lt
  exact Pool.lt_of_stage (h.stage.trans hstage)

theorem Stocked.grown (h : Stocked p p' handle) (hp : p.Grown q) (hp' : p'.Grown q') :
    Stocked q q' handle where
  lt := Nat.lt_of_lt_of_le h.lt hp.size_le
  stage := (hp'.stage h.lt').trans (h.stage.trans (hp.stage h.lt).symm)
  inlined := hp'.inlined h.inlined
  clones _ copy shared shared' hs := h.clones _ copy shared shared' ((hp.stage h.lt).symm.trans hs)

theorem Twins.grown (h : Twins p p' s s') (hp : p.Grown q) (hp' : p'.Grown q') : Twins q q' s s' where
  lt := Nat.lt_of_lt_of_le h.lt hp.size_le
  lt' := Nat.lt_of_lt_of_le h.lt' hp'.size_le
  label := by
    rw [Pool.label, hp'.stage h.lt', Pool.label, hp.stage h.lt]
    exact h.label
  role := h.role

end Pools

/-! ### Runs that correspond -/

section Copies

variable {b₁ b₂ : Build σ ω}

/-- From these two states on, the second run copies what the first compiles below the target. -/
def copies (objects : Objects) (t : Statement) (b₁ b₂ : Build σ ω) : Likeness σ ω where
  base := b₁.graph.size
  gap := b₂.graph.size - b₁.graph.size
  front := b₁.graph.slot?
  front' := b₂.graph.slot?
  pool p p' := ∀ s handle, objects.Under t s → s.shape = .single → s.object = .stage handle →
    Stocked p p' handle
  slot p p' _ := Twins p p'
  key k k' := k = k' ∧ ¬ k.Shared
  exact := False
  lax := True

theorem regular_copies : (copies objects t b₁ b₂).Regular where
  gap := False.elim
  congr hs hs' h := by
    refine ⟨hs.handle ▸ h.lt, hs'.handle ▸ h.lt', ?_, ?_⟩
    · rw [hs.handle, hs'.handle, h.label]
    · rw [hs.role, hs'.role, h.role]
  fork {_ _ _ s s'} h := by
    rw [h.role]
    cases s.role <;> simp [Role.copied]
  add h s handle hs hshape ho := (h s handle hs hshape ho).grown .add .add
  old _ h := h.grown .add .add
  own {p p' stage role} _ hrole _ := by
    refine ⟨by simp [Pool.size_add], by simp [Pool.size_add], ?_, ?_⟩
    · simp only [Pool.label, Pool.stage?_add, if_true]
    · cases role <;> first | rfl | exact absurd rfl hrole
  kind h := congrArg TargetKey.kind h.1
  key h h' := by rw [h.1, h'.1]

omit [Stage σ ω] in
/-- Failures are excused, so that only what the steps come to when they succeed has to be related. -/
theorem paired_of_wp {α β : Type} {lax : Prop} {x : Compile σ ω α} {y : Compile σ ω β}
    {Q : α → β → Build σ ω → Build σ ω → Prop} {E : CompileError → CompileError → Build σ ω →
      Build σ ω → Prop} {R : α → Build σ ω → Prop} {R' : β → Build σ ω → Prop} {b b' : Build σ ω}
    (hlax : lax) (hx : wp x R (fun _ _ => True) b) (hy : wp y R' (fun _ _ => True) b')
    (h : ∀ a a' c c', R a c → R' a' c' → Q a a' c c') : paired lax x y Q E b b' := by
  unfold paired
  split
  · next hxr hyr => exact h _ _ _ _ (wp_ok hx hxr) (wp_ok hy hyr)
  · exact .inl hlax
  · exact hlax

/-- What a single statement with a stage leads to if it succeeds. -/
theorem wp_placed (b : Build σ ω) (h : Heading) (here : Option Location) (handle : Handle) :
    wp (single h here (.stage handle)) (fun f c => ∃ r p, Claimed b.pool handle r p ∧
      f = ⟨if (p.capabilities r.1).isSource then none else some b.graph.size, some b.graph.size⟩ ∧
      c = b.grow p ⟨r.1, r.2, p.capabilities r.1, none, [], some (originOf h here), false⟩)
      (fun _ _ => True) b :=
  wp_single (fun _ _ p hr => ⟨_, p, hr, rfl, rfl⟩) fun _ _ => trivial

/-- A stage is put in place, and where it sits in the graph already, a clone of it. -/
theorem along_copy (hs : objects.Under t s) (hshape : s.shape = .single) {here here' : Option Location} :
    (copies objects t b₁ b₂).Along (single s.heading here s.object) (single s.heading here' s.object)
      (copies objects t b₁ b₂).Part := by
  cases ho : s.object with
  | empty | target => exact Likeness.Lawful.along_of_lax trivial (.inl ⟨_, rfl⟩)
  | stage handle =>
    intro b b' hb
    refine paired_of_wp trivial (wp_placed b _ _ handle) (wp_placed b' _ _ handle) ?_
    rintro _ _ _ _ ⟨r, p, hr, rfl, rfl⟩ ⟨r', p', hr', rfl, rfl⟩
    have hstocked : Stocked b.pool b'.pool handle := hb.pool s handle hs hshape ho
    have hgrown := hr.grown hstocked.lt
    have hgrown' := hr'.grown hstocked.lt'
    have hclones' : b'.pool.CopiesAlike handle := fun stage copy shared shared' hstage =>
      hstocked.clones stage copy shared shared' (hstocked.stage.symm.trans hstage)
    obtain ⟨hlabel, hcaps, hlt⟩ := hr.alike hstocked.lt hstocked.clones
    obtain ⟨hlabel', hcaps', hlt'⟩ := hr'.alike hstocked.lt' hclones'
    have hcapabilities : p'.capabilities r'.1 = p.capabilities r.1 := by
      rw [hcaps, hcaps', Pool.capabilities, hstocked.stage]
      rfl
    -- the second run finds the stage in the graph, so that it can only clone it
    have hrole : r'.2 = r.2.copied := by
      cases hr' with
      | declared hin => cases hin.symm.trans hstocked.inlined
      | cloned _ _ _ => rcases hr.role with h | h <;> rw [h] <;> rfl
    refine ⟨⟨?_, .some hb.size, .inr fun _ => rfl⟩, hb.grow ?_ ?_ ⟨?_, .none, .nil, hlt, hlt', ?_, hrole⟩⟩
    · rw [hcapabilities]
      split
      · exact .none
      · exact .some hb.size
    · exact fun s handle hs hshape ho => (hb.pool s handle hs hshape ho).grown hgrown hgrown'
    · exact fun h => h.grown hgrown hgrown'
    · exact hcapabilities.symm
    · rw [hlabel, hlabel', Pool.label, hstocked.stage]
      rfl

theorem lawful_copies (hunshared : objects.Unshared t) :
    (copies objects t b₁ b₂).Lawful objects objects fun s s' => s = s' ∧ objects.Under t s where
  toRegular := regular_copies
  shape h := congrArg Statement.shape h.1
  flags h := congrArg Statement.flags h.1
  heading := False.elim
  children {s s'} h hshape := by
    obtain ⟨rfl, hs⟩ := h
    refine List.forall₂_same.2 fun c hc => ⟨rfl, hs.tail (.child hshape hc)⟩
  single {s s' here here'} h hshape _ := by
    obtain ⟨rfl, hs⟩ := h
    exact along_copy hs hshape
  target {s s'} h hshape := by
    obtain ⟨rfl, hs⟩ := h
    cases hr : s.target? objects with
    | none => exact .none
    | some r =>
      have hkey := hunshared s hs hshape r.1 r.2 hr
      exact .some ⟨⟨rfl, hkey⟩, fun h => absurd h hkey, fun h => absurd h hkey, rfl,
        hs.tail (.target hshape hr)⟩

end Copies

/-! ### Copies in a run -/

/-- What leads from `b₂` to `c₂` adds a copy of what leads from `b₁` to `c₁`, in slots behind those, and
neither changes the slots that were there before. -/
structure Copied (b₁ c₁ b₂ c₂ : Build σ ω) (f₁ f₂ : Fragment) (gap : Nat) : Prop where
  start : b₂.graph.size = b₁.graph.size + gap
  disjoint : b₁.graph.size ≤ c₁.graph.size ∧ c₁.graph.size ≤ b₂.graph.size
  size : c₂.graph.size = c₁.graph.size + gap
  part : f₂ = f₁.shift gap
  slots : ∀ x, b₁.graph.size ≤ x →
    Option.Rel (Slot.Copies c₁.pool c₂.pool gap) (c₁.graph.slot? x) (c₂.graph.slot? (x + gap))
  front : ∀ x, x < b₁.graph.size → c₁.graph.slot? x = b₁.graph.slot? x
  front' : ∀ x, x < b₂.graph.size → c₂.graph.slot? x = b₂.graph.slot? x

section Points

variable {calls : List Call} {pool : Pool σ ω} {p₁ p₂ : List Nat} {k₁ k₂ : Task σ ω}
  {f₁ f₂ : Fragment} {c₁ c₂ : Build σ ω} {L : Likeness σ ω}

omit [Stage σ ω] in
theorem rel_same_shift {x x' : Option SlotId} (h : Option.Rel L.Same x x') :
    x' = x.map (· + L.gap) := by
  cases h with
  | none => rfl
  | some h =>
    rw [h.2]
    rfl

omit [Stage σ ω] in
theorem forall₂_same_shift {xs xs' : List SlotId} (h : List.Forall₂ L.Same xs xs') :
    xs' = xs.map (· + L.gap) := by
  induction h with
  | nil => rfl
  | cons h _ ih => rw [List.map_cons, ← ih, h.2]

/-- Of two tasks that compile a target one after the other, the later copies the earlier. -/
theorem copied_of_stocked (hunshared : objects.Unshared t) (h₁ : k₁.statement = t)
    (h₂ : k₂.statement = t) (hfc : k₁.flowControl = k₂.flowControl)
    (hstocked : ∀ s handle, objects.Under t s → s.shape = .single → s.object = .stage handle →
      Stocked k₁.state.pool k₂.state.pool handle)
    (hr₁ : k₁.result objects = (.ok f₁, c₁)) (hr₂ : k₂.result objects = (.ok f₂, c₂))
    (hsize : k₁.state.graph.size ≤ c₁.graph.size) (hlater : c₁.graph.size ≤ k₂.state.graph.size) :
    Copied k₁.state c₁ k₂.state c₂ f₁ f₂ (k₂.state.graph.size - k₁.state.graph.size) := by
  have hgap := (Nat.add_sub_of_le (Nat.le_trans hsize hlater)).symm
  have hnone : ∀ {g : Graph} {x}, g.size ≤ x → g.slot? x = none := Array.getElem?_eq_none
  have hstart : (copies objects t k₁.state k₂.state).Match k₁.state k₂.state := by
    refine ⟨hstocked, ⟨Nat.le_refl _, hgap⟩, fun {x x'} hx => ?_,
      fun hk hshared => absurd hshared hk.2, fun _ => rfl, fun _ => rfl⟩
    rw [hnone hx.1, hnone (hgap ▸ hx.behind)]
    exact .none
  have hfollows := (lawful_copies (σ := σ) hunshared).follows k₁.depth k₂.depth t t ⟨rfl, .refl⟩
    (.inl trivial) k₁.around k₂.around k₁.flowControl False.elim _ _ hstart
  rw [Task.result, h₁] at hr₁
  rw [Task.result, h₂, ← hfc] at hr₂
  obtain ⟨hpart, hmatch⟩ := paired_ok hfollows hr₁ hr₂
  refine ⟨hgap, ⟨hsize, hlater⟩, hmatch.size.2, ?_, fun x hx => ?_, fun x hx => hmatch.front hx,
    fun x hx => hmatch.front' (hgap ▸ hx)⟩
  · obtain ⟨head, tail⟩ := f₂
    rw [show head = _ from rel_same_shift hpart.head, show tail = _ from rel_same_shift hpart.tail]
    rfl
  · have hslot := hmatch.slot (x := x) ⟨hx, rfl⟩
    change Option.Rel _ _ (c₂.graph.slot? (x + (k₂.state.graph.size - k₁.state.graph.size))) at hslot
    generalize c₁.graph.slot? x = s, c₂.graph.slot? _ = s' at hslot ⊢
    cases hslot with
    | none => exact .none
    | some h =>
      exact .some ⟨h.rest.label, h.capabilities.symm, rel_same_shift h.next, forall₂_same_shift h.hops,
        h.rest.role⟩

/-- Wherever in a run two references to one object are compiled, if it can be copied and the same flow
control holds around them, then what is compiled for the later one is a copy of what was compiled for
the earlier one. -/
theorem copied_at_points (hobjects : objects.Holds pool.instances.size)
    (hcalls : ∀ call ∈ calls, call.statement.Holds pool.instances.size)
    (hcopyable : objects.Copyable pool key t)
    (hp₁ : Point objects calls pool p₁ k₁) (hp₂ : Point objects calls pool p₂ k₂) (hlt : p₁ < p₂)
    (hk₁ : k₁.statement.shape = .reference ∧ k₁.statement.target? objects = some (key, t))
    (hk₂ : k₂.statement.shape = .reference ∧ k₂.statement.target? objects = some (key, t))
    (hfc : k₁.flowControl = k₂.flowControl)
    (hr₁ : k₁.result objects = (.ok f₁, c₁)) (hr₂ : k₂.result objects = (.ok f₂, c₂)) :
    Copied k₁.state c₁ k₂.state c₂ f₁ f₂ (k₂.state.graph.size - k₁.state.graph.size) := by
  have hstart : (⟨{}, pool, []⟩ : Build σ ω).Grown k₁.state :=
    hp₁.keeps_state (stable_grownTo _ (Nat.le_refl _)) hobjects hcalls (.refl _)
  have hgrown : k₁.state.Grown c₁ := by
    have hresult := Task.grown_result hobjects (hp₁.holds hobjects hcalls) hstart.pool.size_le
    rw [hr₁] at hresult
    exact hresult
  -- the later task does not lie below the earlier one, or an object would contain itself
  have hlater : c₁.Grown k₂.state := by
    have hstable := stable_grownTo c₁ (hstart.trans hgrown).pool.size_le
    rcases hp₁.keeps_later hstable hobjects hcalls hp₂ hlt with hbelow | hkept
    · exact absurd hbelow (Task.not_below hk₁.1 hk₁.2 hcopyable.again hcopyable.below
        (congrArg Prod.fst hr₁) hk₂.1 hk₂.2)
    · rw [hr₁] at hkept
      exact hkept (.refl _)
  obtain ⟨k₁', ht₁, hs₁, hfc₁, hr₁'⟩ := Task.exists_target hk₁.1 hk₁.2 hcopyable.again hr₁
  obtain ⟨k₂', ht₂, hs₂, hfc₂, hr₂'⟩ := Task.exists_target hk₂.1 hk₂.2 hcopyable.again hr₂
  have hholds : k₁'.statement.Holds pool.instances.size :=
    Task.Calls.holds hobjects (.inr ht₁) (hp₁.holds hobjects hcalls)
  rw [← ht₁.state_eq] at hstart hgrown ⊢
  rw [← ht₂.state_eq] at hlater ⊢
  refine copied_of_stocked hcopyable.below hs₁ hs₂ ((hfc₁.trans hfc).trans hfc₂.symm)
    (fun s handle hs hshape ho => ?_) hr₁' hr₂' hgrown.size hlater.size
  have hhandle : handle < pool.instances.size := by
    have hbelow : s.object.Below pool.instances.size := (hs.each (hs₁ ▸ hholds) hobjects).self
    rw [ho] at hbelow
    exact hbelow
  have hinlined := Task.inlined hobjects hholds hstart.pool.size_le (hs₁ ▸ hcopyable.below)
    (congrArg Prod.fst hr₁') (hs₁ ▸ hs) hshape ho
  rw [hr₁'] at hinlined
  have hlt' := Nat.lt_of_lt_of_le hhandle hstart.pool.size_le
  refine ⟨hlt', (hgrown.trans hlater).pool.stage hlt', hlater.pool.inlined hinlined, ?_⟩
  intro stage copy shared shared' hstage
  exact hcopyable.clones s handle hs hshape ho stage copy shared shared'
    ((hstart.pool.stage hhandle).symm.trans hstage)

/-- A filter with branches, in one of which another filter is used. -/
def branchingFilter : Objects :=
  [(⟨.filter, "sort"⟩, .definition .filter "sort" [.pipe 2 none,
      .junction [.sequence [.pipe 1 none] .none none,
        .sequence [.reference .filter "mark" none] .none none] none] none),
    (⟨.filter, "mark"⟩, .definition .filter "mark" [.pipe 2 none] none)]

/-- A filter that uses another filter, which delivers to a destination. -/
def borrowingFilter : Objects :=
  [(⟨.filter, "sort"⟩, .definition .filter "sort" [.pipe 2 none, .reference .filter "mark" none] none),
    (⟨.filter, "mark"⟩, .definition .filter "mark" [.pipe 2 none, .reference .destination "out" none]
      none),
    (⟨.destination, "out"⟩, .definition .destination "out" [.pipe 1 none] none)]

/-- A call that compiles a reference to the filter. -/
def useFilter : Call :=
  .node false (.reference .filter "sort" none)

/-- The reference is compiled after so many calls that compile it as well. -/
def nthUse (objects : Objects) (n : Nat) : Task Builtin Shared :=
  useFilter.task objects (after objects (List.replicate n useFilter) { pool := samplePool })

theorem point_nthUse (objects : Objects) (n m : Nat) :
    Point objects (List.replicate n useFilter ++ useFilter :: List.replicate m useFilter) samplePool [n]
      (nthUse objects n) := by
  have h : Point objects (List.replicate n useFilter ++ useFilter :: List.replicate m useFilter)
      samplePool [(List.replicate n useFilter).length] (nthUse objects n) := .mk rfl .here
  rwa [List.length_replicate] at h

/-- Both uses of the filter add five slots, those of the second use behind those of the first. -/
theorem copied_sample :
    Copied (nthUse branchingFilter 0).state ((nthUse branchingFilter 0).result branchingFilter).2
      (nthUse branchingFilter 1).state ((nthUse branchingFilter 1).result branchingFilter).2
      ⟨some 0, some 3⟩ ⟨some 5, some 8⟩ 5 := by
  have hr₁ : ((nthUse branchingFilter 0).result branchingFilter).1 = .ok ⟨some 0, some 3⟩ := by
    decide +kernel
  have hr₂ : ((nthUse branchingFilter 1).result branchingFilter).1 = .ok ⟨some 5, some 8⟩ := by
    decide +kernel
  have hgap : (nthUse branchingFilter 1).state.graph.size -
      (nthUse branchingFilter 0).state.graph.size = 5 := by decide +kernel
  have hcopyable : branchingFilter.Copyable samplePool ⟨.filter, .named "sort"⟩ _ :=
    Objects.copyable_of_each (k := ⟨.filter, "sort"⟩) rfl (by decide) (by decide +kernel)
      (Pool.copiesAlike_builtin samplePool)
  have hfc : ∀ n, (nthUse branchingFilter n).flowControl = false := fun _ => rfl
  have hcopied := copied_at_points (by decide +kernel) (by decide +kernel) hcopyable
    (point_nthUse branchingFilter 0 1) (point_nthUse branchingFilter 1 0) (by decide)
    ⟨rfl, rfl⟩ ⟨rfl, rfl⟩ ((hfc 0).trans (hfc 1).symm) (Task.result_eq_ok hr₁)
    (Task.result_eq_ok hr₂)
  rw [hgap] at hcopied
  exact hcopied

/-- No reference that is written in the filter shares its target, and clones are like their originals,
but what the second use adds is no copy of what the first adds: the destination, to which the filter
leads over another one, is not compiled again. -/
theorem not_copied_beyond_references :
    (∃ t, borrowingFilter.find? ⟨.filter, "sort"⟩ = some t ∧
      t.Each fun s => s.shape = .reference → ∀ r ∈ s.target? borrowingFilter, ¬ r.1.Shared) ∧
    (∀ handle, samplePool.CopiesAlike handle) ∧
    Point borrowingFilter [useFilter, useFilter] samplePool [0] (nthUse borrowingFilter 0) ∧
    Point borrowingFilter [useFilter, useFilter] samplePool [1] (nthUse borrowingFilter 1) ∧
    ((nthUse borrowingFilter 0).result borrowingFilter).1 = .ok ⟨some 0, some 3⟩ ∧
    ((nthUse borrowingFilter 1).result borrowingFilter).1 = .ok ⟨some 4, some 6⟩ ∧
    ∀ f₁ f₂ gap, ¬ Copied (nthUse borrowingFilter 0).state
      ((nthUse borrowingFilter 0).result borrowingFilter).2 (nthUse borrowingFilter 1).state
      ((nthUse borrowingFilter 1).result borrowingFilter).2 f₁ f₂ gap := by
  refine ⟨⟨_, rfl, by decide +kernel⟩, Pool.copiesAlike_builtin samplePool,
    point_nthUse borrowingFilter 0 1, point_nthUse borrowingFilter 1 0, by decide +kernel,
    by decide +kernel, fun f₁ f₂ gap h => ?_⟩
  -- four slots before the second use and seven after it
  have hsize : ((nthUse borrowingFilter 0).result borrowingFilter).2.graph.size = 4 := by
    decide +kernel
  have hsize' : ((nthUse borrowingFilter 1).result borrowingFilter).2.graph.size = 7 := by
    decide +kernel
  have hstart : (nthUse borrowingFilter 0).state.graph.size = 0 := by decide +kernel
  have hstart' : (nthUse borrowingFilter 1).state.graph.size = 4 := by decide +kernel
  have h₁ := h.start
  have h₂ := h.size
  omega

end Points

end Compile

end Routing
