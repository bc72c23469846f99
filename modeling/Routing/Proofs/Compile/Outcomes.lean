import Routing.Proofs.Compile.Forecasts
import Routing.Proofs.Compile.Inference
import Routing.Proofs.Compile.Tasks
import Routing.Proofs.Compile.Undisturbed
/-!
# What compiling comes to

Compiling a statement comes to what is forecast, whatever was compiled before and whether that
succeeded. What is remembered of a target stands for compiling the target again: the target was
accepted then, and would be accepted now. So the outcome does not depend on the history.
-/

namespace Routing

variable {σ ω : Type}

/-- Every stage can be cloned, and its clones declare what it does. -/
def Pool.Clonable [Stage σ ω] (p : Pool σ ω) : Prop :=
  ∀ handle stage, p.stage? handle = some stage → ∀ shared, ∃ copy shared',
    Stage.clone stage shared = (some copy, shared') ∧
      Stage.capabilities copy = Stage.capabilities stage

namespace Compile

open Build

/-! ### Steps that do not fail -/

/-- A step fails only if the graph contradicts itself. -/
def Unfailing {α : Type} (x : Compile σ ω α) : Prop :=
  ∀ b, wp x (fun _ _ => True) (fun e _ => ¬ e.Consistent) b

namespace Unfailing

variable {α β : Type}

theorem pure (a : α) : Unfailing (Pure.pure a : Compile σ ω α) := fun _ => trivial

theorem bind {x : Compile σ ω α} {f : α → Compile σ ω β} (hx : Unfailing x)
    (hf : ∀ a, Unfailing (f a)) : Unfailing (x >>= f) := fun b =>
  (wp_bind ..).2 (wp_mono (hx b) (fun a b' _ => hf a b') fun _ _ h => h)

theorem graph : Unfailing (graph : Compile σ ω Graph) := fun _ => trivial

theorem link (u v : SlotId) (node : Descriptor) :
    Unfailing (link u v node : Compile σ ω Unit) := by
  intro b
  unfold Compile.link Graph.link
  cases hn : b.graph.next? u with
  | none => simp [hn]
  | some x => simp [hn, CompileError.Consistent]

variable [Stage σ ω]

theorem addJoin : Unfailing (addJoin : Compile σ ω SlotId) := fun _ => trivial

theorem addMultiplexer : Unfailing (addMultiplexer : Compile σ ω SlotId) := fun _ => trivial

theorem addAttach : Unfailing (addAttach : Compile σ ω SlotId) := fun _ => trivial

omit [Stage σ ω] in
theorem addHop (u v : SlotId) : Unfailing (addHop u v : Compile σ ω Unit) := fun _ => trivial

theorem sourceFork (tail : SlotId) (node : Descriptor) :
    Unfailing (sourceFork tail node : Compile σ ω SlotId) := by
  refine graph.bind fun g => ?_
  cases g.next? tail with
  | none => exact addMultiplexer.bind fun fork => (link tail fork node).bind fun _ => .pure fork
  | some next =>
    intro b
    rw [wp_ite]
    split
    · trivial
    · exact fun h => h

theorem sourceEnd (tail : SlotId) (node : Descriptor) :
    Unfailing (do
      let fork ← Compile.sourceFork tail node
      let attach ← Compile.addAttach
      Compile.addHop fork attach
      return (⟨none, some attach⟩ : Fragment) : Compile σ ω Fragment) := by
  refine (sourceFork tail node).bind fun fork => ?_
  exact addAttach.bind fun attach => (addHop fork attach).bind fun _ => .pure _

theorem destinationEnd (head : SlotId) :
    Unfailing (do
      let fork ← Compile.addMultiplexer
      Compile.addHop fork head
      return (⟨some fork, none⟩ : Fragment) : Compile σ ω Fragment) :=
  addMultiplexer.bind fun fork => (addHop fork head).bind fun _ => .pure _

end Unfailing

/-! ### Sequences and junctions in the making -/

/-- A draft of a sequence in the making. -/
structure Chain.Drafts (c : Chain) (k : Draft) : Prop where
  head : k.head = c.first.isSome
  tail : k.tail = c.last.isSome
  past : k.past = c.pastSources
  early : c.pastSources = false → c.last = c.join

/-- A draft of a junction in the making. -/
structure Branching.Drafts (j : Branching) (k : Draft) : Prop where
  head : k.head = j.fork.isSome
  tail : k.tail = j.join.isSome
  past : k.past = j.headless

theorem Chain.Drafts.start : Chain.Drafts {} {} := ⟨rfl, rfl, rfl, fun _ => rfl⟩

theorem Branching.Drafts.start : Branching.Drafts {} {} := ⟨rfl, rfl, rfl⟩

section Drafts

variable [Stage σ ω] {b b' : Build σ ω} {c c' : Chain} {j j₁ j' : Branching} {f : Fragment}
  {k : Draft} {node : Descriptor}

omit [Stage σ ω] in
theorem outline_eq (f : Fragment) : f.outline = ⟨f.head.isSome, f.tail.isSome⟩ := rfl

theorem Chain.Step.drafts (hstep : c.Step b f c' b') (hc : c.Drafts k) :
    ∃ k', k.child node f.outline = .ok k' ∧ c'.Drafts k' := by
  cases hstep with
  | empty => exact ⟨k, rfl, hc⟩
  | firstSource hpast hjoin =>
    refine ⟨{ k with tail := true }, ?_, hc.head, rfl, hc.past, fun _ => rfl⟩
    simp [Draft.child, outline_eq, hc.past, hpast]
  | source hpast hjoin =>
    refine ⟨{ k with tail := true }, ?_, hc.head, ?_, hc.past, hc.early⟩
    · simp [Draft.child, outline_eq, hc.past, hpast]
    · simp [hc.early hpast, hjoin]
  | first hlast =>
    refine ⟨⟨k.head || !k.tail, true, true⟩, rfl, ?_, rfl, rfl, fun h => by cases h⟩
    simp [advance, hc.tail, hlast]
  | next hlast =>
    refine ⟨⟨k.head || !k.tail, true, true⟩, rfl, ?_, rfl, rfl, fun h => by cases h⟩
    simp [advance, hc.head, hc.tail, hlast]

omit [Stage σ ω] in
theorem Chain.unfailing_addStage (head : SlotId) (tail : Option SlotId) :
    Unfailing (c.addStage node head tail : Compile σ ω Chain) := by
  refine Unfailing.graph.bind fun _ => ?_
  cases c.last with
  | none => exact Unfailing.graph.bind fun _ => .pure _
  | some last =>
    exact (Unfailing.link last head node).bind fun _ => Unfailing.graph.bind fun _ => .pure _

theorem Chain.unfailing_addSource (hpast : c.pastSources = false) (tail : SlotId) :
    Unfailing (c.addSource node tail : Compile σ ω Chain) := by
  unfold addSource joinPoint
  rw [hpast, if_neg (by simp)]
  refine .bind ?_ fun r => (Unfailing.link tail r.1 node).bind fun _ => .pure r.2
  split
  · exact .pure _
  · exact Unfailing.addJoin.bind fun _ => .pure _

theorem Chain.addSource_late (hpast : c.pastSources = true) (tail : SlotId) :
    (c.addSource node tail : Compile σ ω Chain) = throw (.sourceMustBeFirst node) := by
  unfold addSource
  rw [if_pos hpast]

/-- A child that starts with a source is refused after one with a head, and nothing else is. -/
theorem Chain.wp_drafts (hc : c.Drafts k) :
    wp (c.add node f) (fun c' _ => ∃ k', k.child node f.outline = .ok k' ∧ c'.Drafts k')
      (fun e _ => e.Consistent → k.child node f.outline = .error e) b := by
  have hsteps : Unfailing (c.add node f : Compile σ ω Chain) →
      wp (c.add node f) (fun c' _ => ∃ k', k.child node f.outline = .ok k' ∧ c'.Drafts k')
        (fun e _ => e.Consistent → k.child node f.outline = .error e) b := fun h =>
    wp_mono (wp_and (wp_step node f) (h b)) (fun _ _ h => h.1.drafts hc)
      fun _ _ h he => absurd he h.2
  obtain ⟨_ | head, _ | tail⟩ := f
  · exact hsteps (.pure c)
  · cases hpast : c.pastSources with
    | false => exact hsteps (unfailing_addSource hpast tail)
    | true =>
      have hthrow : (c.add node ⟨none, some tail⟩ : Compile σ ω Chain) =
          throw (.sourceMustBeFirst node) := addSource_late hpast tail
      rw [hthrow]
      intro _
      simp [Draft.child, outline_eq, hc.past, hpast]
  · exact hsteps (unfailing_addStage head none)
  · exact hsteps (unfailing_addStage head (some tail))

theorem Branching.HeadStep.drafts {head : Option SlotId} (hstep : j.HeadStep b head j₁ b') :
    j₁.fork.isSome = (j.fork.isSome || head.isSome) ∧
      j₁.headless = (j.headless || head.isNone) ∧ j₁.join = j.join := by
  cases hstep with
  | headless hfork => simp [hfork]
  | first hfork => simp
  | hop hfork => simp [hfork]

theorem Branching.TailStep.drafts {tail : Option SlotId} (hstep : j₁.TailStep b tail j' b') :
    j'.fork = j₁.fork ∧ j'.headless = j₁.headless ∧
      j'.join.isSome = (j₁.join.isSome || tail.isSome) := by
  cases hstep with
  | absent => simp
  | first _ => simp
  | join hx => simp [hx]

/-- The branch may be added to the junction: branches with heads do not mix with others. -/
def Branching.Fitting (j : Branching) (f : Fragment) : Prop :=
  if f.head.isSome then j.headless = false else j.fork = none

theorem Branching.unfailing_addHead (h : j.Fitting f) :
    Unfailing (j.addHead node f.head : Compile σ ω Branching) := by
  obtain ⟨_ | head, tail⟩ := f
  · have hfork : j.fork = none := h
    show Unfailing (j.addHead node none)
    unfold addHead
    rw [hfork, if_neg (by simp)]
    exact .pure _
  · have hheadless : j.headless = false := h
    show Unfailing (j.addHead node (some head))
    simp only [addHead, forkPoint, hheadless, Bool.false_eq_true, if_false]
    refine .bind ?_ fun r =>
      (Unfailing.addHop r.1 head).bind fun _ => Unfailing.graph.bind fun _ => .pure _
    split
    · exact .pure _
    · exact Unfailing.addMultiplexer.bind fun _ => .pure _

theorem Branching.unfailing_addTail (tail : Option SlotId) :
    Unfailing (j.addTail node tail : Compile σ ω Branching) := by
  cases tail with
  | none => exact .pure j
  | some tail =>
    refine .bind ?_ fun r => (Unfailing.link tail r.1 node).bind fun _ => .pure r.2
    unfold joinPoint
    split
    · exact .pure _
    · exact Unfailing.addJoin.bind fun _ => .pure _

/-- A branch that does not fit is refused. -/
theorem Branching.addHead_unfitting (h : ¬ j.Fitting f) :
    (j.addHead node f.head : Compile σ ω Branching) = throw (.mixedBranches node) := by
  obtain ⟨_ | head, tail⟩ := f
  · have hfork : j.fork.isSome = true := Option.isSome_iff_ne_none.2 h
    exact if_pos hfork
  · have hheadless : j.headless = true := by simpa [Fitting] using h
    exact if_pos hheadless

theorem Branching.wp_drafts (hj : j.Drafts k) :
    wp (j.add node f) (fun j' _ => ∃ k', k.branch node f.outline = .ok k' ∧ j'.Drafts k')
      (fun e _ => e.Consistent → k.branch node f.outline = .error e) b := by
  by_cases h : j.Fitting f
  · have hsteps : wp (j.add node f) (fun j' _ => ∃ k', k.branch node f.outline = .ok k' ∧
        j'.Drafts k') (fun _ _ => True) b := by
      unfold add
      rw [wp_bind]
      refine wp_mono (wp_headStep node f.head) (fun j₁ b₁ h₁ => ?_) fun _ _ _ => trivial
      refine wp_mono (wp_tailStep node f.tail) (fun j' b' h' => ?_) fun _ _ _ => trivial
      obtain ⟨hfork, hheadless, hjoin⟩ := h₁.drafts
      obtain ⟨hfork', hheadless', hjoin'⟩ := h'.drafts
      refine ⟨⟨j'.fork.isSome, j'.join.isSome, j'.headless⟩, ?_, rfl, rfl, rfl⟩
      rw [hfork', hheadless', hjoin', hfork, hheadless, hjoin]
      unfold Fitting at h
      cases hhead : f.head <;> simp_all [Draft.branch, outline_eq, hj.head, hj.tail, hj.past]
    have hadd : Unfailing (j.add node f : Compile σ ω Branching) :=
      (unfailing_addHead h).bind fun _ => unfailing_addTail f.tail
    exact wp_mono (wp_and hsteps (hadd b)) (fun _ _ h => h.1) fun _ _ h he => absurd he h.2
  · unfold add
    rw [addHead_unfitting h]
    intro _
    unfold Fitting at h
    cases hhead : f.head <;> simp_all [Draft.branch, outline_eq, hj.head, hj.past]

omit [Stage σ ω] in
theorem Chain.wp_finish (c : Chain) (flags : Flags) (fc : Bool) :
    wp (c.finish flags fc) (fun f _ => f = ⟨c.first, c.last⟩) (fun _ _ => False) b := by
  unfold finish
  cases c.first with
  | none => rfl
  | some head => simp only [wp_bind, wp_insertCapabilities, wp_pure]

omit [Stage σ ω] in
theorem Branching.wp_finish (j : Branching) (flags : Flags) (fc : Bool) :
    wp (j.finish flags fc) (fun f _ => f = ⟨j.fork, j.join⟩) (fun _ _ => False) b := by
  unfold finish
  cases j.fork with
  | none => rfl
  | some fork => simp only [wp_bind, wp_ite, wp_insertCapabilities, wp_pure, ite_self]

end Drafts

/-! ### What is remembered -/

variable [Stage σ ω]

/-- What is remembered is remembered of targets that are accepted. -/
structure Recalled (c : Catalog) (p : Pool σ ω) (b : Build σ ω) : Prop where
  pool : p.Grown b.pool
  memo : ∀ {key id}, (key, id) ∈ b.memos → ∃ t depth around o, (key, t) ∈ c.targets ∧
    Forecast.upTo c.objects p.capabilities depth around t = .ok o ∧
      (key.kind = .source → o.tail = true) ∧ (key.kind = .destination → o.head = true)

section Recalled

variable {c : Catalog} {p q : Pool σ ω} {b : Build σ ω} {key : TargetKey} {id : SlotId}

theorem joining_recalled (c : Catalog) (p : Pool σ ω) : Joining (Recalled c p) where
  own _ _ hb := ⟨hb.pool.trans .add, hb.memo⟩
  wire hb := ⟨hb.pool, hb.memo⟩
  enable _ hb := ⟨hb.pool, hb.memo⟩

theorem Recalled.mark {t : Statement} {depth : Nat} {around : Option Location} {o : Outline}
    (hb : Recalled c p b) (ht : (key, t) ∈ c.targets)
    (hok : Forecast.upTo c.objects p.capabilities depth around t = .ok o)
    (hsource : key.kind = .source → o.tail = true)
    (hdestination : key.kind = .destination → o.head = true) : Recalled c p (b.mark key id) where
  pool := hb.pool
  memo hm := by
    rcases List.mem_cons.1 hm with heq | hm
    · cases heq
      exact ⟨t, depth, around, o, ht, hok, hsource, hdestination⟩
    · exact hb.memo hm

theorem Recalled.grow (hb : Recalled c p b) (hq : b.pool.Grown q) (s : Slot) :
    Recalled c p (b.grow q s) :=
  ⟨hb.pool.trans hq, hb.memo⟩

end Recalled

/-- A computation comes to what is forecast, from every state with a memory that is as forecast. -/
def Agrees (c : Catalog) (p : Pool σ ω) {α β : Type} (R : α → β → Prop) (x : Compile σ ω α)
    (v : Except CompileError β) : Prop :=
  ∀ b, Recalled c p b → wp x (fun a b' => Recalled c p b' ∧ ∃ y, v = .ok y ∧ R a y)
    (fun e b' => Recalled c p b' ∧ (e.Consistent → v = .error e)) b

/-- The ends of a part are as forecast. -/
def Outlines (f : Fragment) (o : Outline) : Prop :=
  f.outline = o

namespace Agrees

variable {α β γ δ : Type} {c : Catalog} {p : Pool σ ω} {R : α → β → Prop} {S : γ → δ → Prop}
  {x : Compile σ ω α} {v : Except CompileError β}

theorem throw (e : CompileError) : Agrees c p R (throw e) (.error e) :=
  fun _ hb => ⟨hb, fun _ => rfl⟩

theorem pure {a : α} {y : β} (h : R a y) : Agrees c p R (Pure.pure a) (.ok y) :=
  fun _ hb => ⟨hb, y, rfl, h⟩

theorem bind {f : α → Compile σ ω γ} {g : β → Except CompileError δ} (hx : Agrees c p R x v)
    (hf : ∀ a y, R a y → Agrees c p S (f a) (g y)) : Agrees c p S (x >>= f) (v >>= g) := by
  intro b hb
  rw [wp_bind]
  refine wp_mono (hx b hb) ?_ fun e b' h => ⟨h.1, fun he => by rw [h.2 he]; rfl⟩
  rintro a b' ⟨hb', y, rfl, hr⟩
  exact hf a y hr b' hb'

/-- What follows leaves the forecast as it is. -/
theorem bind_ok {S : γ → β → Prop} {f : α → Compile σ ω γ} (hx : Agrees c p R x v)
    (hf : ∀ a y, R a y → Agrees c p S (f a) (.ok y)) : Agrees c p S (x >>= f) v := by
  rw [← bind_pure v]
  exact hx.bind hf

/-- A step that remembers nothing comes to what it comes to from every state. -/
theorem of_keeps (hx : Keeps (Recalled c p) x)
    (h : ∀ b, wp x (fun a _ => ∃ y, v = .ok y ∧ R a y) (fun e _ => e.Consistent → v = .error e) b) :
    Agrees c p R x v := fun b hb =>
  wp_and (hx b hb) (h b)

/-- A step that does not fail comes to what it gives. -/
theorem of_unfailing {y : β} (hx : Keeps (Recalled c p) x) (hu : Unfailing x)
    (h : ∀ b, wp x (fun a _ => R a y) (fun _ _ => True) b) : Agrees c p R x (.ok y) :=
  of_keeps hx fun b => wp_mono (wp_and (h b) (hu b)) (fun _ _ h => ⟨y, rfl, h.1⟩)
    fun _ _ h he => absurd he h.2

end Agrees

section Agrees

variable {c : Catalog} {p : Pool σ ω} {key : TargetKey} {t : Statement} {depth : Nat}
  {here : Option Location} {run : Compile σ ω Fragment} {h : Heading}

/-- A stage is placed or cloned: it does not matter which. -/
theorem agrees_single (hp : p.Clonable) {object : Object} (hobject : object.Below p.instances.size) :
    Agrees c p Outlines (single h here object) (Forecast.single p.capabilities h here object) := by
  cases object with
  | empty | target => exact .throw _
  | stage handle =>
  intro b hb
  have hlt : handle < p.instances.size := hobject
  have hlt' : handle < b.pool.instances.size := Nat.lt_of_lt_of_le hlt hb.pool.size_le
  obtain ⟨stage, hstage⟩ := Pool.exists_stage hlt
  have hstage' : b.pool.stage? handle = some stage := (hb.pool.stage hlt).trans hstage
  refine wp_single (fun handle' role q hr => ⟨hb.grow (hr.grown hlt') _, _, rfl, ?_⟩) fun q hr => ?_
  · have hcaps : q.capabilities handle' = p.capabilities handle := by
      rw [Pool.capabilities_eq hstage]
      rcases hr.stage with heq | ⟨s, copy, shared, shared', hs, hcopy, hclone⟩
      · exact Pool.capabilities_eq (heq.trans hstage')
      · cases hstage'.symm.trans hs
        obtain ⟨copy', shared'', hclone', hcaps⟩ := hp handle stage hstage shared
        cases hclone.symm.trans hclone'
        rw [Pool.capabilities_eq hcopy, hcaps]
    rw [hcaps]
    cases hsource : (p.capabilities handle).isSource <;> simp [Outlines, outline_eq]
  · cases hr with
    | absent hs => cases hstage'.symm.trans hs
    | refused hs hclone =>
      cases hstage'.symm.trans hs
      obtain ⟨copy, shared', hclone', -⟩ := hp handle stage hstage b.pool.shared
      cases hclone.symm.trans hclone'

/-! ### References -/

/-- A target gets an end, or is remembered with one, if it is accepted with that end. -/
theorem agrees_once (hkeys : c.Unambiguous) (ht : (key, t) ∈ c.targets)
    (hnested : t.Each (c.objects.Nested depth)) (failure : CompileError)
    {end_ : Fragment → Option SlotId} {has : Outline → Bool}
    (hhas : ∀ f : Fragment, has f.outline = (end_ f).isSome)
    (hkind : key.kind = .source ∧ has = Outline.tail ∨
      key.kind = .destination ∧ has = Outline.head)
    (hrun : Agrees c p Outlines run (Forecast.upTo c.objects p.capabilities depth here t))
    (ends : Outline) :
    Agrees c p (fun _ o => o = ends) (once key none failure (return end_ (← run)))
      ((Forecast.upTo c.objects p.capabilities depth here t).bind
        fun o => if has o then .ok ends else .error failure) := by
  intro b hb
  refine wp_once (fun id hid => ⟨hb, ends, ?_, rfl⟩) fun _ => ?_
  · obtain ⟨t', depth', around, o, ht', hok, hsource, hdestination⟩ := hb.memo (mem_of_lookup hid)
    cases hkeys key t t' ht ht'
    rw [Forecast.upTo_steady depth hok hnested here]
    refine if_pos ?_
    rcases hkind with ⟨hk, rfl⟩ | ⟨hk, rfl⟩
    · exact hsource hk
    · exact hdestination hk
  · rw [wp_bind]
    refine wp_mono (hrun b hb) ?_ fun e b' h => ⟨h.1, fun he => by rw [h.2 he]; rfl⟩
    rintro f b' ⟨hb', o, hok, rfl⟩
    rw [wp_pure]
    cases hend : end_ f with
    | none =>
      refine ⟨hb', fun _ => ?_⟩
      rw [hok]
      exact if_neg (by simp [hhas, hend])
    | some id =>
      have hhas' : has f.outline = true := by rw [hhas, hend]; rfl
      refine ⟨hb'.mark ht hok (fun hs => ?_) fun hd => ?_, ends, ?_, rfl⟩
      · rcases hkind with ⟨-, rfl⟩ | ⟨hk, -⟩
        · exact hhas'
        · cases hk.symm.trans hs
      · rcases hkind with ⟨hk, -⟩ | ⟨-, rfl⟩
        · cases hk.symm.trans hd
        · exact hhas'
      · rw [hok]
        exact if_pos hhas'

theorem agrees_referTo (hkeys : c.Unambiguous) (ht : (key, t) ∈ c.targets)
    (hnested : t.Each (c.objects.Nested depth))
    (hrun : Agrees c p Outlines run (Forecast.upTo c.objects p.capabilities depth here t)) :
    Agrees c p Outlines (referTo h here key none run) (Forecast.join key.kind (emptyObject h here)
      (Forecast.upTo c.objects p.capabilities depth here t)) := by
  have hwired : Wired (Recalled c p) := (joining_recalled c p).toWired
  obtain ⟨kind, id⟩ := key
  cases kind with
  | source =>
    refine (agrees_once hkeys ht hnested (emptyObject h here) (fun _ => rfl) (.inl ⟨rfl, rfl⟩) hrun
      ⟨false, true⟩).bind_ok ?_
    rintro tail _ rfl
    refine .of_unfailing (hwired.sourceEnd tail _) (Unfailing.sourceEnd tail _) fun b => ?_
    rw [wp_bind]
    exact wp_of_forall (fun _ _ => rfl) fun _ _ => trivial
  | destination =>
    refine (agrees_once hkeys ht hnested (emptyObject h here) (fun _ => rfl) (.inr ⟨rfl, rfl⟩) hrun
      ⟨true, false⟩).bind_ok ?_
    rintro head _ rfl
    exact .of_unfailing (hwired.destinationEnd head) (Unfailing.destinationEnd head) fun b => rfl
  | pipe | filter | parser | rewrite => exact hrun

/-! ### All statements -/

/-- The statement can be told from others, and how deep it refers is known. -/
structure Apt (c : Catalog) (p : Pool σ ω) (depth : Nat) (s : Statement) : Prop where
  fresh : s.heading.memo = none
  below : s.object.Below p.instances.size
  lists : c.Lists s
  nested : c.objects.Nested depth s

/-- What is written in the catalog is fresh, its stages are in the pool and can be cloned, and its
targets can be told apart. -/
structure Foreseeable (c : Catalog) (p : Pool σ ω) : Prop where
  clonable : p.Clonable
  objects : c.objects.Fresh ∧ c.objects.Holds p.instances.size
  rules : ∀ s ∈ c.rules, s.Fresh ∧ s.Holds p.instances.size
  unambiguous : c.Unambiguous

/-- References by name agree with their forecasts. -/
def Foreseen (c : Catalog) (p : Pool σ ω) : Nat → Prop
  | 0 => True
  | depth + 1 => ∀ t : Statement, t.Each (Apt c p depth) → ∀ around fc,
      Agrees c p Outlines (upTo c.objects depth around fc t)
        (Forecast.upTo c.objects p.capabilities depth around t)

omit [Stage σ ω] in
theorem Apt.object {key : ObjectKey}
    (hobjects : c.objects.Fresh ∧ c.objects.Holds p.instances.size)
    (hfind : c.objects.find? key = some t) (hnested : t.Each (c.objects.Nested depth)) :
    t.Each (Apt c p depth) := fun q hq =>
  have he := Objects.mem_of_find hfind
  ⟨hobjects.1 _ he q hq, hobjects.2 _ he q hq, Catalog.lists_object he q hq, hnested q hq⟩

theorem agrees_byName (hc : Foreseeable c p) (hjump : Foreseen c p depth) {object : Object}
    {cs : List Statement} (hshape : h.shape = .reference)
    (hobject : ∀ serial t, object ≠ .target serial t) (hs : Apt c p depth (.mk h object cs))
    (fc : Bool) :
    Agrees c p Outlines (byName c.objects (below c.objects depth) h here fc)
      (Forecast.byName c.objects (Forecast.below c.objects p.capabilities depth) h here) := by
  have hnamed : (Statement.mk h object cs).named? c.objects = _ :=
    Statement.named_of_reference c.objects hshape hobject
  unfold byName Forecast.byName
  cases hfind : c.objects.find? ⟨h.kind, h.name.getD ""⟩ with
  | none =>
    simp only [hfind]
    exact .throw _
  | some t =>
    have hnested := hs.nested
    rw [hfind] at hnamed
    cases depth with
    | zero => cases hnamed.symm.trans hnested
    | succ depth =>
      have ht : t.Each (Apt c p depth) := .object hc.objects hfind (hnested t hnamed)
      have hmem : (⟨t.kind, .named (h.name.getD "")⟩, t) ∈ c.targets :=
        List.mem_append_left _ (List.mem_map.2 ⟨_, Objects.mem_of_find hfind, rfl⟩)
      simp only [hfind, below, Forecast.below]
      rw [ht.self.fresh]
      exact agrees_referTo hc.unambiguous hmem (fun q hq => (ht q hq).nested) (hjump t ht here fc)

/-! ### Finished sequences and junctions -/

theorem agrees_chain_finish {ch : Chain} {k : Draft} (hk : ch.Drafts k) (flags : Flags) (fc : Bool) :
    Agrees c p Outlines (ch.finish flags fc) (.ok k.outline) := by
  refine .of_keeps ((joining_recalled c p).linear.chain_finish ch flags fc) fun b => ?_
  refine wp_mono (ch.wp_finish flags fc) ?_ fun _ _ h => h.elim
  rintro _ _ rfl
  exact ⟨_, rfl, by rw [Outlines, outline_eq, Draft.outline, hk.head, hk.tail]⟩

theorem agrees_branching_finish {j : Branching} {k : Draft} (hk : j.Drafts k) (flags : Flags)
    (fc : Bool) : Agrees c p Outlines (j.finish flags fc) (.ok k.outline) := by
  refine .of_keeps ((joining_recalled c p).linear.branching_finish j flags fc) fun b => ?_
  refine wp_mono (j.wp_finish flags fc) ?_ fun _ _ h => h.elim
  rintro _ _ rfl
  exact ⟨_, rfl, by rw [Outlines, outline_eq, Draft.outline, hk.head, hk.tail]⟩

end Agrees

section Statements

variable {c : Catalog} {p : Pool σ ω} {depth : Nat}

-- by the constructors of statements; `hjump` stands for the induction over the depth of references

mutual

theorem agrees_statement (hc : Foreseeable c p) (hjump : Foreseen c p depth) :
    ∀ s : Statement, s.Each (Apt c p depth) → ∀ around fc,
      Agrees c p Outlines (statement c.objects (below c.objects depth) around fc s)
        (Forecast.statement c.objects p.capabilities (Forecast.below c.objects p.capabilities depth)
          around s)
  | .mk h object cs, hs, around, fc => by
    rw [statement, Forecast.statement]
    cases hshape : h.shape with
    | single => exact agrees_single hc.clonable hs.self.below
    | reference => exact agrees_reference hc hjump object h cs hshape hs _ fc
    | sequence =>
      cases hall : h.flags.catchAll with
      | true => exact .throw _
      | false =>
        have hcs := agrees_chain hc hjump cs hs.children
          (h.located.or around) fc .start
        exact hcs.bind fun ch k hk => agrees_chain_finish hk h.flags fc
    | junction =>
      have hcs := agrees_branching hc hjump cs hs.children
        (h.located.or around) fc .start
      exact hcs.bind fun j k hk => agrees_branching_finish hk h.flags fc

theorem agrees_reference (hc : Foreseeable c p) (hjump : Foreseen c p depth) :
    ∀ object : Object, ∀ h cs, h.shape = .reference →
      (Statement.mk h object cs).Each (Apt c p depth) → ∀ here fc,
      Agrees c p Outlines (reference c.objects (below c.objects depth) h here fc object)
        (Forecast.reference c.objects p.capabilities (Forecast.below c.objects p.capabilities depth)
          h here object)
  | .empty, h, cs, hshape, hs, here, fc => by
    rw [reference, Forecast.reference]
    exact agrees_byName hc hjump hshape (fun _ _ => by simp) hs.self fc
  | .stage handle, h, cs, hshape, hs, here, fc => by
    rw [reference, Forecast.reference]
    exact agrees_byName hc hjump hshape (fun _ _ => by simp) hs.self fc
  | .target serial t, h, cs, hshape, hs, here, fc => by
    have ht : t.Each (Apt c p depth) := hs.target
    have hrun := agrees_statement hc hjump t ht here fc
    rw [reference, Forecast.reference, ht.self.fresh]
    rw [← Forecast.upTo_eq] at hrun ⊢
    exact agrees_referTo hc.unambiguous (hs.self.lists serial t rfl) (fun q hq => (ht q hq).nested) hrun

theorem agrees_chain (hc : Foreseeable c p) (hjump : Foreseen c p depth) :
    ∀ ss : List Statement, (∀ s ∈ ss, s.Each (Apt c p depth)) → ∀ here fc {ch : Chain} {k : Draft},
      ch.Drafts k →
      Agrees c p Chain.Drafts (chain c.objects (below c.objects depth) here fc ch ss)
        (Forecast.parts c.objects p.capabilities (Forecast.below c.objects p.capabilities depth)
          Draft.child here k ss)
  | [], _, here, fc, ch, k, hk => by
    rw [chain, Forecast.parts]
    exact .pure hk
  | s :: ss, hs, here, fc, ch, k, hk => by
    rw [chain, Forecast.parts]
    refine (agrees_statement hc hjump s (hs s (by simp)) here _).bind ?_
    rintro f _ rfl
    have hadd := (joining_recalled c p).linking.chain_add ch
      (s.heading.describe (s.located.or here)) f
    refine (Agrees.of_keeps hadd fun b => Chain.wp_drafts hk).bind fun ch' k' hk' => ?_
    exact agrees_chain hc hjump ss (fun s h => hs s (by simp [h])) here fc hk'

theorem agrees_branching (hc : Foreseeable c p) (hjump : Foreseen c p depth) :
    ∀ ss : List Statement, (∀ s ∈ ss, s.Each (Apt c p depth)) →
      ∀ here fc {j : Branching} {k : Draft}, j.Drafts k →
      Agrees c p Branching.Drafts (branching c.objects (below c.objects depth) here fc j ss)
        (Forecast.parts c.objects p.capabilities (Forecast.below c.objects p.capabilities depth)
          Draft.branch here k ss)
  | [], _, here, fc, j, k, hk => by
    rw [branching, Forecast.parts]
    exact .pure hk
  | s :: ss, hs, here, fc, j, k, hk => by
    rw [branching, Forecast.parts]
    refine (agrees_statement hc hjump s (hs s (by simp)) here _).bind ?_
    rintro f _ rfl
    have hadd := (joining_recalled c p).branching_add j (s.heading.describe (s.located.or here)) f
    refine (Agrees.of_keeps hadd fun b => Branching.wp_drafts hk).bind fun j' k' hk' => ?_
    exact agrees_branching hc hjump ss (fun s h => hs s (by simp [h])) here fc hk'

end

theorem foreseen (hc : Foreseeable c p) (depth : Nat) : Foreseen c p depth := by
  induction depth with
  | zero => trivial
  | succ depth ih =>
    intro t ht around fc
    rw [upTo_eq, Forecast.upTo_eq]
    exact agrees_statement hc ih t ht around fc

theorem agrees_node (hc : Foreseeable c p) (hacyclic : c.objects.Acyclic) {s : Statement}
    (hs : s.Fresh ∧ s.Holds p.instances.size) (hlists : s.Each c.Lists) (fc : Bool) :
    Agrees c p Outlines (node c.objects fc s)
      (Forecast.upTo c.objects p.capabilities c.objects.length none s) :=
  foreseen hc (c.objects.length + 1) s
    (fun q hq => ⟨hs.1 q hq, hs.2 q hq, hlists q hq, hacyclic.nested s q hq⟩) none fc

end Statements

/-! ### After any calls -/

section After

variable {c : Catalog} {p : Pool σ ω} {calls : List Call}

theorem recalled_start (c : Catalog) (p : Pool σ ω) : Recalled c p { pool := p } :=
  ⟨⟨Nat.le_refl _, fun _ => rfl, id⟩, fun hm => absurd hm List.not_mem_nil⟩

theorem recalled_call (hc : Foreseeable c p) (hacyclic : c.objects.Acyclic) {call : Call}
    (hcall : call.statement ∈ c.rules) {b : Build σ ω} (hb : Recalled c p b) :
    Recalled c p ((call.run c.objects).run b).2 := by
  have hs := hc.rules _ hcall
  have hlists := Catalog.lists_rule hcall
  have hkeeps : Keeps (Recalled c p) (call.run c.objects) := by
    cases call with
    | node fc s =>
      exact fun b hb => wp_mono (agrees_node hc hacyclic hs hlists fc b hb) (fun _ _ h => h.1)
        fun _ _ h => h.1
    | rule s =>
      have hs' := And.intro (hs.1.expandCatchAll c.objects) (hs.2.expandCatchAll c.objects)
      exact fun b hb => wp_mono (agrees_node hc hacyclic hs' (Catalog.lists_expandCatchAll hlists)
        false b hb) (fun _ _ h => h.1) fun _ _ h => h.1
  exact wp_state (hkeeps b hb)

theorem recalled_after (hc : Foreseeable c p) (hacyclic : c.objects.Acyclic)
    (hcalls : ∀ call ∈ calls, call.statement ∈ c.rules) :
    Recalled c p (after c.objects calls { pool := p }) :=
  after_induction (recalled_start c p) fun call h _ hb => recalled_call hc hacyclic (hcalls call h) hb

/-- After any calls a statement comes to what is forecast. -/
theorem forecast_after (hc : Foreseeable c p) (hacyclic : c.objects.Acyclic) {s : Statement}
    (hs : s ∈ c.rules) (hcalls : ∀ call ∈ calls, call.statement ∈ c.rules) (fc : Bool) :
    ((node c.objects fc s).run (after c.objects calls { pool := p })).1.map Fragment.outline =
      Forecast.upTo c.objects p.capabilities c.objects.length none s := by
  have hsound := sound_after hc.objects.1 (fun call h => (hc.rules _ (hcalls call h)).1) (sound_empty p)
  have hcompiles := compiles_node hc.objects.1 hsound (hc.rules s hs).1 fc
  have hagrees := agrees_node hc hacyclic (hc.rules s hs) (Catalog.lists_rule hs) fc _
    (recalled_after hc hacyclic hcalls)
  have hboth := wp_and hcompiles hagrees
  unfold wp at hboth
  split at hboth
  · next f b' hrun =>
    obtain ⟨-, -, _, hok, rfl⟩ := hboth
    rw [hrun, hok]
    rfl
  · next e b' hrun =>
    obtain ⟨⟨-, hconsistent⟩, -, herr⟩ := hboth
    rw [hrun, herr hconsistent]
    rfl

/-- Whether a statement compiles, with which error it fails, and whether it gets a head and a tail
does not depend on the calls before it or on flow control around it. -/
theorem outcome_after (objects : Objects) (pool : Pool σ ω) (hacyclic : objects.Acyclic)
    (s : Statement) (calls calls' : List Call)
    (hcalls : Foreseeable ⟨objects, s :: calls.map Call.statement⟩ pool)
    (hcalls' : Foreseeable ⟨objects, s :: calls'.map Call.statement⟩ pool) (fc fc' : Bool) :
    ((node objects fc s).run (after objects calls { pool })).1.map Fragment.outline =
      ((node objects fc' s).run (after objects calls' { pool })).1.map Fragment.outline := by
  have hmem : ∀ {calls : List Call}, ∀ call ∈ calls, call.statement ∈ s :: calls.map Call.statement :=
    fun call h => List.mem_cons_of_mem _ (List.mem_map_of_mem h)
  exact (forecast_after hcalls hacyclic List.mem_cons_self hmem fc).trans
    (forecast_after hcalls' hacyclic List.mem_cons_self hmem fc').symm

/-- The stages of the sample can be cloned. -/
theorem clonable_sample : samplePool.Clonable
  | 0, _, h, _ | 1, _, h, _ | 2, _, h, _ => by
    cases h
    exact ⟨_, _, rfl, rfl⟩
  | _ + 3, _, h, _ => by cases h

/-- A filter that hands on to the destination as well. -/
def sampleRelays : Objects :=
  sampleObjects ++ [(⟨.filter, "relay"⟩,
    .definition .filter "relay" [.pipe 2 none, .reference .destination "out" none] none)]

/-- A rule that uses the source and the filter. -/
def sampleUse : Statement :=
  .sequence [.reference .source "in" none, .reference .filter "relay" none] .none none

theorem outcome_sample :
    ((node sampleRelays false sampleUse).run
        (after sampleRelays (sampleFailure :: sampleRules.map .rule) { pool := samplePool })).1.map
          Fragment.outline =
      ((node sampleRelays true sampleUse).run (after sampleRelays [] { pool := samplePool })).1.map
        Fragment.outline ∧
      ((node sampleRelays true sampleUse).run { pool := samplePool }).1.toOption.map
        Fragment.outline = some ⟨false, true⟩ := by
  have hacyclic : Catalog.Acyclic ⟨sampleRelays, []⟩ :=
    Catalog.acyclic_of_rank (fun key => if key.id = .named "relay" then 1 else 0) (by decide +kernel)
  refine ⟨outcome_after sampleRelays samplePool hacyclic.objects sampleUse
    (sampleFailure :: sampleRules.map .rule) [] ?_ ?_ false true, by decide +kernel⟩
  · exact ⟨clonable_sample, by decide +kernel, by decide +kernel,
      Catalog.unambiguous_of_nodup (by decide +kernel)⟩
  · exact ⟨clonable_sample, by decide +kernel, by decide +kernel,
      Catalog.unambiguous_of_nodup (by decide +kernel)⟩

end After

end Compile

end Routing
