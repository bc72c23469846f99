import Routing.Proofs.Compile.Outcomes
import Routing.Proofs.Document.Contents
/-!
# Sources are not cloned

In a catalog whose targets have stages of their own, the stages of a source get their places when the
source is compiled, and that is once: it is remembered afterwards, or else compiling ends. Until then
they are spared, as no other target has them.
-/

namespace Routing

variable {σ ω : Type}

/-- Each target is a body with stages of its own. In sources they are sources, and elsewhere they can
be cloned. -/
structure Catalog.Provided [Stage σ ω] (c : Catalog) (p : Pool σ ω) : Prop where
  body : ∀ {key t}, (key, t) ∈ c.targets → t.IsBody
  fresh : ∀ {key t}, (key, t) ∈ c.targets → t.heading.memo = none
  nodup : ∀ {key t}, (key, t) ∈ c.targets → t.handles.Nodup
  apart : ∀ {key key' t t' h}, (key, t) ∈ c.targets → (key', t') ∈ c.targets → h ∈ t.handles →
    h ∈ t'.handles → key = key'
  stage : ∀ {key t h}, (key, t) ∈ c.targets → h ∈ t.handles → ∃ stage, p.stage? h = some stage ∧
    ((Stage.capabilities stage).isSource = true ↔ key.kind = .source) ∧
      (key.kind ≠ .source → ∀ shared, ∃ copy shared', Stage.clone stage shared = (some copy, shared') ∧
        (Stage.capabilities copy).isSource = false)

namespace Compile

open Build

/-! ### Errors that are to blame -/

/-- A step keeps `P`, unless it fails with an error of `E` or finds the graph to contradict itself. -/
def Blames {α : Type} (P : Build σ ω → Prop) (E : CompileError → Prop) (x : Compile σ ω α) : Prop :=
  ∀ b, P b → wp x (fun _ b' => P b') (fun e _ => e.Consistent → E e) b

namespace Blames

variable {α β : Type} {P : Build σ ω → Prop} {E : CompileError → Prop} {x : Compile σ ω α}

theorem pure (a : α) : Blames P E (Pure.pure a : Compile σ ω α) := fun _ h => h

theorem throw {e : CompileError} (h : E e) : Blames P E (throw e : Compile σ ω α) :=
  fun _ _ _ => h

theorem bind {f : α → Compile σ ω β} (hx : Blames P E x) (hf : ∀ a, Blames P E (f a)) :
    Blames P E (x >>= f) := fun b h =>
  (wp_bind ..).2 (wp_mono (hx b h) (fun a b' h => hf a b' h) fun _ _ h => h)

theorem of_unfailing (hx : Keeps P x) (hu : Unfailing x) : Blames P E x := fun b h =>
  wp_mono (wp_and (hx b h) (hu b)) (fun _ _ h => h.1) fun _ _ h he => absurd he h.2

end Blames

/-! ### Stages that have no place yet -/

/-- The stages of a source have no place before it is remembered. Those of the `opened` source have
got places but for the `rest`. -/
structure Spared (c : Catalog) (p : Pool σ ω) (opened : Option TargetKey) (rest : List Handle)
    (b : Build σ ω) : Prop where
  pool : p.Grown b.pool
  spared : ∀ {key t h}, (key, t) ∈ c.targets → key.kind = .source → opened ≠ some key →
    b.memos.lookup key = none → h ∈ t.handles → b.pool.isInlined h = false
  rest : ∀ {h}, h ∈ rest → b.pool.isInlined h = false

variable {c : Catalog} {p q : Pool σ ω} {opened : Option TargetKey} {rest : List Handle}
  {b : Build σ ω} {key : TargetKey} {t : Statement} {handle : Handle}

/-- A target that is remembered is not open any more. -/
theorem Spared.mark (hb : Spared c p opened rest b) (ho : ∀ key', opened = some key' → key' = key)
    (id : SlotId) : Spared c p none [] (b.mark key id) where
  pool := hb.pool
  spared {key' t h} ht hk _ hm hh := by
    rw [Build.mark, List.lookup_cons] at hm
    split at hm
    · cases hm
    · next hne =>
      refine hb.spared ht hk (fun heq => ?_) hm hh
      simp [ho key' heq] at hne
  rest hh := by cases hh

theorem Spared.opens (hb : Spared c p none [] b) (ht : (key, t) ∈ c.targets)
    (hk : key.kind = .source) (hm : b.memos.lookup key = none) :
    Spared c p (some key) t.handles b where
  pool := hb.pool
  spared ht hk _ hm hh := hb.spared ht hk (fun h => by cases h) hm hh
  rest hh := hb.spared ht hk (fun h => by cases h) hm hh

variable [Stage σ ω]

theorem joining_spared : Joining (Spared c p opened rest) where
  own _ _ hb := by
    refine ⟨hb.pool.trans .add, fun ht hk ho hm hh => ?_, fun hh => ?_⟩
    · exact Pool.isInlined_add.trans (hb.spared ht hk ho hm hh)
    · exact Pool.isInlined_add.trans (hb.rest hh)
  wire hb := ⟨hb.pool, hb.spared, hb.rest⟩
  enable _ hb := ⟨hb.pool, hb.spared, hb.rest⟩

/-- No stage but the one for which a place is claimed is marked. -/
theorem Claimed.isInlined {r : Handle × Role} {handle' : Handle} (hr : Claimed p handle r q)
    (hlt : handle < p.instances.size) (hlt' : handle' < p.instances.size) (hne : handle' ≠ handle) :
    q.isInlined handle' = p.isInlined handle' := by
  cases hr with
  | declared _ => rw [Pool.isInlined_markInlined hlt, if_neg hne]
  | cloned _ _ _ =>
    rw [Pool.isInlined_markInlined (by rw [Pool.size_add]; exact Nat.lt_succ_self _),
      if_neg (Nat.ne_of_lt hlt'), Pool.isInlined_add]
    rfl

/-- A stage that sits nowhere gets its place itself. -/
theorem wp_single_first {Q : Fragment → Build σ ω → Prop} {E : CompileError → Build σ ω → Prop}
    {h : Heading} {here : Option Location} (hfree : b.pool.isInlined handle = false)
    (hQ : Q ⟨if (b.pool.capabilities handle).isSource then none else some b.graph.size,
        some b.graph.size⟩
      (b.grow (b.pool.markInlined handle)
        { handle, role := .declared, capabilities := (b.pool.markInlined handle).capabilities handle,
          origin := some (originOf h here) })) :
    wp (single h here (.stage handle)) Q E b := by
  have hcaps : (b.pool.markInlined handle).capabilities handle = b.pool.capabilities handle := by
    simp only [Pool.capabilities, Pool.stage?_markInlined]
  unfold single claim
  simp only [wp_bind, wp_get, wp_ite, hfree, Bool.false_eq_true, if_false, markInlined, wp_modify,
    wp_pure, wp_place, wp_graph, Build.grow, Graph.capabilities_add_size]
  rw [hcaps] at hQ ⊢
  exact hQ

section Provided

variable (hc : c.Provided p) (ht : (key, t) ∈ c.targets)
include hc ht

/-- A stage of a target gets a place, whether it is cloned or not. -/
theorem Spared.claimed {r : Handle × Role} (hb : Spared c p opened rest b)
    (hr : Claimed b.pool handle r q) (hh : handle ∈ t.handles)
    (hkey : key.kind = .source → opened = some key) (rest' : List Handle)
    (hrest : ∀ h ∈ rest', h ∈ rest ∧ h ≠ handle ∧ h ∈ t.handles) (s : Slot) :
    Spared c p opened rest' (b.grow q s) := by
  have hlt : ∀ {key t h}, (key, t) ∈ c.targets → h ∈ t.handles → h < b.pool.instances.size := by
    intro key t h ht hh
    obtain ⟨stage, hstage, -⟩ := hc.stage ht hh
    exact Nat.lt_of_lt_of_le (Pool.lt_of_stage hstage) hb.pool.size_le
  have hinlined : ∀ {key' t' h}, (key', t') ∈ c.targets → h ∈ t'.handles → h ≠ handle →
      q.isInlined h = b.pool.isInlined h :=
    fun ht' hh' hne => hr.isInlined (hlt ht hh) (hlt ht' hh') hne
  refine ⟨hb.pool.trans (hr.grown (hlt ht hh)), fun {key' t' h} ht' hk ho hm hh' => ?_, fun {h} hh' => ?_⟩
  · refine (hinlined ht' hh' fun heq => ?_).trans (hb.spared ht' hk ho hm hh')
    -- only the target that is open has this stage
    obtain rfl := hc.apart ht ht' hh (heq ▸ hh')
    exact ho (hkey hk)
  · obtain ⟨hmem, hne, hown⟩ := hrest h hh'
    exact (hinlined ht hown hne).trans (hb.rest hmem)

/-! ### Bodies -/

theorem wp_single_other (hk : key.kind ≠ .source) (hh : handle ∈ t.handles)
    (hb : Spared c p none [] b) (h : Heading) (here : Option Location) :
    wp (single h here (.stage handle)) (fun f b' => Spared c p none [] b' ∧ f.head.isSome = true)
      (fun _ _ => False) b := by
  obtain ⟨stage, hstage, hsource, hclone⟩ := hc.stage ht hh
  have hstage' : b.pool.stage? handle = some stage :=
    (hb.pool.stage (Pool.lt_of_stage hstage)).trans hstage
  refine wp_single (fun handle' role q hr => ⟨?_, ?_⟩) fun q hr => ?_
  · exact hb.claimed hc ht hr hh (fun h => absurd h hk) [] (by simp) _
  · have hcaps : (q.capabilities handle').isSource = false := by
      rcases hr.stage with heq | ⟨s, copy, shared, shared', hs, hcopy, hcloned⟩
      · rw [Pool.capabilities_eq (heq.trans hstage')]
        exact Bool.eq_false_iff.2 fun h => hk (hsource.1 h)
      · cases hstage'.symm.trans hs
        obtain ⟨copy', _, hcloned', hcaps⟩ := hclone hk shared
        cases hcloned.symm.trans hcloned'
        rw [Pool.capabilities_eq hcopy, hcaps]
    simp [hcaps]
  · cases hr with
    | absent hs => cases hstage'.symm.trans hs
    | refused hs hcloned =>
      cases hstage'.symm.trans hs
      obtain ⟨_, _, hcloned', -⟩ := hclone hk b.pool.shared
      cases hcloned.symm.trans hcloned'

theorem wp_single_source (hk : key.kind = .source) (hown : ∀ h ∈ handle :: rest, h ∈ t.handles)
    (hnodup : (handle :: rest).Nodup) (hb : Spared c p (some key) (handle :: rest) b) (h : Heading)
    (here : Option Location) :
    wp (single h here (.stage handle))
      (fun f b' => Spared c p (some key) rest b' ∧ f.head = none) (fun _ _ => False) b := by
  have hh := hown handle List.mem_cons_self
  obtain ⟨stage, hstage, hsource, -⟩ := hc.stage ht hh
  have hfree := hb.rest (h := handle) List.mem_cons_self
  refine wp_single_first hfree ⟨?_, ?_⟩
  · refine hb.claimed hc ht (.declared hfree) hh (fun _ => rfl) rest (fun h hmem => ?_) _
    exact ⟨List.mem_cons_of_mem _ hmem, fun heq => (List.nodup_cons.1 hnodup).1 (heq ▸ hmem),
      hown h (List.mem_cons_of_mem _ hmem)⟩
  · rw [hb.pool.capabilities (Pool.lt_of_stage hstage), Pool.capabilities_eq hstage]
    simp [hsource.2 hk]

variable {objects : Objects} {jump : Option (Run σ ω)} {here location : Option Location} {fc : Bool}

theorem wp_chain_other (hk : key.kind ≠ .source) {hs : List Handle} (hown : ∀ h ∈ hs, h ∈ t.handles)
    (hb : Spared c p none [] b) (ch : Chain) :
    wp (chain objects jump here fc ch (hs.map (Statement.pipe · location)))
      (fun _ b' => Spared c p none [] b') (fun e _ => ¬ e.Consistent) b := by
  induction hs generalizing b ch with
  | nil =>
    rw [List.map_nil, chain]
    exact hb
  | cons h hs ih =>
    rw [List.map_cons, chain, wp_bind, Statement.pipe, statement]
    refine wp_mono (wp_single_other hc ht hk (hown h List.mem_cons_self) hb _ _) ?_ fun _ _ h => h.elim
    rintro ⟨_ | head, tail⟩ b₁ ⟨hb₁, hhead⟩
    · cases hhead
    rw [wp_bind]
    refine wp_mono (wp_and (joining_spared.linking.chain_add ch _ ⟨some head, tail⟩ b₁ hb₁)
      (Chain.unfailing_addStage head tail b₁)) (fun ch' b₂ h => ?_) fun _ _ h => h.2
    exact ih (fun h hmem => hown h (List.mem_cons_of_mem _ hmem)) h.1 ch'

theorem wp_chain_source (hk : key.kind = .source) {hs : List Handle} (hown : ∀ h ∈ hs, h ∈ t.handles)
    (hnodup : hs.Nodup) (hb : Spared c p (some key) hs b) {ch : Chain} (hch : ch.pastSources = false) :
    wp (chain objects jump here fc ch (hs.map (Statement.pipe · location)))
      (fun _ b' => Spared c p (some key) [] b') (fun e _ => ¬ e.Consistent) b := by
  induction hs generalizing b ch with
  | nil =>
    rw [List.map_nil, chain]
    exact hb
  | cons h hs ih =>
    rw [List.map_cons, chain, wp_bind, Statement.pipe, statement]
    refine wp_mono (wp_single_source hc ht hk hown hnodup hb _ _) ?_ fun _ _ h => h.elim
    rintro ⟨_, tail⟩ b₁ ⟨hb₁, rfl⟩
    have hadd : ∀ node, Unfailing (ch.add node ⟨none, tail⟩ : Compile σ ω Chain) := by
      intro node
      cases tail with
      | none => exact .pure ch
      | some tail => exact Chain.unfailing_addSource hch tail
    rw [wp_bind]
    refine wp_mono (wp_and (wp_and (joining_spared.linking.chain_add ch _ ⟨none, tail⟩ b₁ hb₁)
      (Chain.wp_step _ ⟨none, tail⟩)) (hadd _ b₁)) (fun ch' b₂ h => ?_) fun _ _ h => h.2
    refine ih (fun h hmem => hown h (List.mem_cons_of_mem _ hmem)) (List.nodup_cons.1 hnodup).2 h.1.1 ?_
    rw [← hch]
    cases h.1.2 <;> rfl

end Provided

/-- A body compiles as its stages do. -/
theorem wp_body {P : Build σ ω → Prop} (hP : Joining P) (hbody : t.IsBody) {objects : Objects}
    {jump : Option (Run σ ω)} {around : Option Location} {fc : Bool}
    (hchain : ∀ here location, wp (chain objects jump here fc {} (t.handles.map (Statement.pipe · location)))
      (fun _ b' => P b') (fun e _ => ¬ e.Consistent) b) :
    wp (statement objects jump around fc t) (fun _ b' => P b') (fun e _ => ¬ e.Consistent) b := by
  obtain ⟨h, object, cs⟩ := t
  have hshape : h.shape = .sequence := hbody.shape
  have hflags : h.flags = .none := hbody.flags
  obtain ⟨location, hcs⟩ := hbody.children
  have hcs : cs = (Statement.mk h object cs).handles.map (Statement.pipe · location) := hcs
  have hchain := hchain (h.located.or around) location
  rw [← hcs] at hchain
  rw [statement]
  simp only [hshape, hflags, Flags.none, Bool.false_eq_true, if_false, wp_bind]
  refine wp_mono hchain (fun ch b' hb' => ?_) fun _ _ h => h
  refine wp_mono (wp_and (hP.linear.chain_finish ch _ fc b' hb') (ch.wp_finish _ fc))
    (fun _ _ h => h.1) fun _ _ h => h.2.elim

/-! ### References -/

section References

variable {E : CompileError → Prop} {h : Heading} {here : Option Location} {objects : Objects}
  {jump : Option (Run σ ω)} {around : Option Location} {fc : Bool}

omit [Stage σ ω] in
/-- A target that is compiled is remembered, and then its stages need not be spared any more. -/
theorem blames_once {failure : CompileError} {run : Compile σ ω Fragment} (hE : E failure)
    (end_ : Fragment → Option SlotId) (ho : ∀ key', opened = some key' → key' = key)
    (hrun : ∀ b, Spared c p none [] b → b.memos.lookup key = none →
      wp run (fun _ b' => Spared c p opened [] b') (fun e _ => ¬ e.Consistent) b) :
    Blames (Spared c p none []) E (once key none failure (return end_ (← run))) := by
  intro b hb
  refine wp_once (fun _ _ => hb) fun hnone => ?_
  rw [wp_bind]
  refine wp_mono (hrun b hb hnone) (fun f b' hb' => ?_) fun e _ h he => absurd he h
  rw [wp_pure]
  cases end_ f with
  | none => exact fun _ => hE
  | some id => exact hb'.mark ho id

/-- A reference to a target spares the sources that are not remembered. -/
theorem blames_referTo (hc : c.Provided p) (ht : (key, t) ∈ c.targets)
    (hempty : E (emptyObject h here)) :
    Blames (Spared c p none []) E
      (referTo h here key t.heading.memo (statement objects jump around fc t)) := by
  have hwired : Wired (Spared c p none [] : Build σ ω → Prop) := joining_spared.toWired
  have hbody := hc.body ht
  have hother : key.kind ≠ .source → ∀ b, Spared c p none [] b →
      wp (statement objects jump around fc t) (fun _ b' => Spared c p none [] b')
        (fun e _ => ¬ e.Consistent) b := fun hk b hb =>
    wp_body joining_spared hbody fun _ _ => wp_chain_other hc ht hk (fun _ h => h) hb {}
  rw [hc.fresh ht]
  obtain ⟨kind, id⟩ := key
  cases kind with
  | source =>
    have ho : ∀ key', some (⟨.source, id⟩ : TargetKey) = some key' → key' = ⟨.source, id⟩ :=
      fun _ h => (Option.some.inj h).symm
    refine (blames_once hempty _ ho fun b hb hnone => ?_).bind fun tail =>
      .of_unfailing (hwired.sourceEnd tail _) (Unfailing.sourceEnd tail _)
    exact wp_body joining_spared hbody fun _ _ =>
      wp_chain_source hc ht rfl (fun _ h => h) (hc.nodup ht) (hb.opens ht rfl hnone) rfl
  | destination =>
    exact (blames_once hempty _ (fun _ h => by cases h) fun b hb _ => hother (by simp) b hb).bind
      fun head => .of_unfailing (hwired.destinationEnd head) (Unfailing.destinationEnd head)
  | pipe | filter | parser | rewrite =>
    exact fun b hb => wp_mono (hother (by simp) b hb) (fun _ _ h => h) fun e _ h he => absurd he h

end References

end Compile

end Routing
