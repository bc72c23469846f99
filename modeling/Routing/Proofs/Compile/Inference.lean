import Routing.Proofs.Compile.Fronts
import Routing.Proofs.Compile.Grounded
import Routing.Proofs.Compile.Making
/-!
# Inferred capabilities

What a statement is compiled to has the front that is inferred for the statement. The head of a
remembered destination has the capabilities that are inferred in the context of the first reference,
and it keeps them: only heads that nothing enters get more.
-/

namespace Routing

variable {σ ω : Type}

theorem Compile.Claimed.capabilities [Stage σ ω] (hclones : Stage.ClonesAlike σ)
    {p p' : Pool σ ω} {handle : Handle} {r : Handle × Role} (h : Claimed p handle r p') :
    p'.capabilities r.1 = p.capabilities handle := by
  rcases h.stage with heq | ⟨s, copy, _, _, hs, hcopy, hc⟩
  · simp only [Pool.capabilities, heq]
  · rw [Pool.capabilities_eq hs, Pool.capabilities_eq hcopy]
    exact hclones _ _ _ _ hc

namespace Build

/-- The front of a part. -/
def front (b : Build σ ω) (f : Fragment) : Front :=
  match f.head with
  | some h => .headed (b.graph.capabilities h)
  | none => if f.tail.isSome then .rooted else .empty

/-- Capabilities and what is remembered stay, and no stage is lost. -/
structure Calm (b b' : Build σ ω) : Prop where
  capabilities : ∀ x, b'.graph.capabilities x = b.graph.capabilities x
  memos : b'.memos = b.memos
  pool : b.pool.Grown b'.pool

variable {b b' : Build σ ω} {f : Fragment} {h : SlotId}

theorem front_some (hh : f.head = some h) : b.front f = .headed (b.graph.capabilities h) := by
  simp only [front, hh]

/-- The front of a part with the same head and an end as well. -/
theorem front_congr {f' : Fragment} (hhead : f'.head = f.head)
    (htail : f'.tail.isSome = f.tail.isSome) : b.front f' = b.front f := by
  simp only [front, hhead, htail]

theorem capabilities_front : (b.front f).capabilities = b.atHead f := by
  obtain ⟨_ | h, _ | t⟩ := f <;> rfl

theorem isHeaded_front : (b.front f).isHeaded = f.head.isSome := by
  obtain ⟨_ | h, _ | t⟩ := f <;> rfl

theorem front_eq_empty : b.front f = .empty ↔ f.isEmpty = true := by
  obtain ⟨_ | h, _ | t⟩ := f <;> simp [front, Fragment.isEmpty]

namespace Calm

theorem refl (b : Build σ ω) : Calm b b := ⟨fun _ => rfl, rfl, Nat.le_refl _, fun _ => rfl, id⟩

theorem front (hc : Calm b b') : b'.front f = b.front f := by
  simp only [Build.front, hc.capabilities]

end Calm

end Build

namespace Compile

open Build

theorem wired_calm [Stage σ ω] (b : Build σ ω) : Wired (Calm b) where
  own _ _ hc := ⟨fun x => by rw [capabilities_own]; exact hc.capabilities x, hc.memos,
    hc.pool.trans .add⟩
  wire hc := ⟨fun x => by rw [capabilities_wire]; exact hc.capabilities x, hc.memos, hc.pool⟩

/-- The remembered destinations have the capabilities that are inferred for them. -/
structure Known [Stage σ ω] (c : Catalog) (p : Pool σ ω) (b : Build σ ω) : Prop where
  pool : p.Grown b.pool
  head : ∀ {key d}, (key, d) ∈ b.memos → key.kind = .destination →
    ∃ t fc, (key, t) ∈ c.targets ∧
      Infers c.objects p.capabilities t fc (.headed (b.graph.capabilities d))

theorem known_start [Stage σ ω] (c : Catalog) (p : Pool σ ω) : Known c p { pool := p } :=
  ⟨⟨Nat.le_refl _, fun _ => rfl, id⟩, fun hm => absurd hm List.not_mem_nil⟩

/-- A sequence in the making shows the fronts of its children. -/
structure Chain.Shows (b : Build σ ω) (es : List Front) (c : Chain) : Prop where
  front : b.front ⟨c.first, c.last⟩ = .leading es
  changesMessage : c.changesMessage = es.any (·.capabilities.changesMessage)
  flowControl : c.flowControl = Front.hold es

/-- A junction in the making shows the fronts of its branches. -/
structure Branching.Shows (b : Build σ ω) (es : List Front) (j : Branching) : Prop where
  fork : ∀ {x}, j.fork = some x → b.graph.capabilities x = .none
  headed : j.fork.isSome = es.any Front.isHeaded
  front : j.fork = none → b.front ⟨none, j.join⟩ = .leading es
  flowControl : j.flowControl = Front.hold es

section Shows

variable {b b' : Build σ ω} {es : List Front} {c c' : Chain} {j j' : Branching} {f : Fragment}

theorem hold_concat (es : List Front) (e : Front) :
    Front.hold (es ++ [e]) = (Front.hold es || e.capabilities.hardFlowControl) := by
  simp [Front.hold]

/-- A child shows its front. -/
theorem Chain.Shows.added (hs : c.Shows b es) (hfirst : c.last = none → c.first = none)
    (hearly : c.pastSources = false → c.last = c.join) (ha : c.Added b f c') (hc : Calm b b') :
    c'.Shows b' (es ++ [b.front f]) where
  front := by
    rw [Front.leading_concat, hc.front, ← hs.front]
    have hlast' := ha.last hearly
    have hfirst' := ha.first
    split
    · next hempty =>
      have hlast : c.last = none := by
        have hisEmpty := front_eq_empty.1 hempty
        simp_all [Fragment.isEmpty]
      rw [hfirst hlast, hlast] at hfirst'
      rw [hlast] at hlast'
      obtain ⟨_ | h, tail⟩ := f
      · exact front_congr hfirst' (by simpa [Fragment.isEmpty] using hlast')
      · exact front_some hfirst'
    · next hempty =>
      have hlast : c.last.isSome = true := by
        refine Option.isSome_iff_ne_none.2 fun hlast => hempty ?_
        rw [hfirst hlast, hlast]
        rfl
      refine front_congr ?_ ?_
      · rw [hfirst', ← Option.not_isSome, hlast]
        rfl
      · rw [hlast', hlast]
        rfl
  changesMessage := by simp [ha.changesMessage, hs.changesMessage, capabilities_front]
  flowControl := by rw [ha.flowControl, hs.flowControl, hold_concat, capabilities_front]

theorem Branching.Shows.added (hs : j.Shows b es) (ha : j.Added b f j' b') (hc : Calm b b') :
    j'.Shows b' (es ++ [b.front f]) where
  fork hx := by
    rcases ha.fork hx with hx | hx
    · rw [hc.capabilities]
      exact hs.fork hx
    · exact hx.2
  headed := by
    rw [List.any_append, ← hs.headed, List.any_cons, List.any_nil, isHeaded_front]
    cases hhead : f.head with
    | none => simp [ha.headless hhead]
    | some h => simp [ha.headed (by simp [hhead])]
  front hfork := by
    have hhead : f.head = none := by
      by_contra h
      have hsome := ha.headed (Option.isSome_iff_ne_none.2 h)
      rw [hfork] at hsome
      cases hsome
    have hold := hs.front (ha.headless hhead).1
    rw [Front.leading_concat, ← hold, hc.front]
    have hfront : ∀ tail : Option SlotId, b.front ⟨none, tail⟩ =
        if tail.isSome then .rooted else .empty := fun _ => rfl
    have hf : b.front f = b.front ⟨none, f.tail⟩ := front_congr hhead rfl
    rw [hf, hfront, hfront, hfront, ha.join]
    cases j.join <;> rfl
  flowControl := by rw [ha.flowControl, hs.flowControl, hold_concat, capabilities_front]

theorem Chain.Shows.extend {b₀ : Build σ ω} (hs : c.Shows b es) (hc : c.Fits b₀ b)
    (he : b.Extends b') : c.Shows b' es where
  front := by
    rw [← hs.front]
    cases hfirst : c.first with
    | none => rfl
    | some h => rw [front_some rfl, front_some rfl, he.capabilities_old (hc.first hfirst).lt]
  changesMessage := hs.changesMessage
  flowControl := hs.flowControl

theorem Branching.Shows.extend {b₀ : Build σ ω} (hs : j.Shows b es) (hj : j.Fits b₀ b)
    (he : b.Extends b') : j.Shows b' es where
  fork hx := by
    rw [he.capabilities_old (hj.fork hx).1.lt]
    exact hs.fork hx
  headed := hs.headed
  front := hs.front
  flowControl := hs.flowControl

end Shows

/-! ### All statements -/

variable [Stage σ ω]

section Known

variable {c : Catalog} {p q : Pool σ ω} {b b' : Build σ ω} {key : TargetKey} {f f' : Fragment}
  {x : SlotId} {caps : Capabilities}

theorem Known.calm (hk : Known c p b) (hc : Calm b b') : Known c p b' where
  pool := hk.pool.trans hc.pool
  head hm hd := by
    rw [hc.memos] at hm
    rw [hc.capabilities]
    exact hk.head hm hd

theorem Known.mark (hk : Known c p b) (hd : key.kind = .destination → ∃ t fc, (key, t) ∈ c.targets ∧
    Infers c.objects p.capabilities t fc (.headed (b.graph.capabilities x))) :
    Known c p (b.mark key x) where
  pool := hk.pool
  head hm hkind := by
    rcases List.mem_cons.1 hm with heq | hm
    · cases heq
      exact hd hkind
    · exact hk.head hm hkind

theorem Known.grow (hk : Known c p b) (hb : b.Core) (hq : b.pool.Grown q) (s : Slot) :
    Known c p (b.grow q s) where
  pool := hk.pool.trans hq
  head hm hd := by
    rw [capabilities_grow (hb.memo_lt hm)]
    exact hk.head hm hd

theorem Known.enable (hk : Known c p b) (hlt : x < b.graph.size)
    (hx : ¬ b.Marked .destination x) : Known c p (b.enable x caps) where
  pool := hk.pool
  head {key d} hm hd := by
    have hne : d ≠ x := by
      rintro rfl
      exact hx ⟨key, hd, hm⟩
    rw [Build.enable, Graph.capabilities_insertCapabilities caps hlt, if_neg hne]
    exact hk.head hm hd

theorem calm_tap : Calm b (b.tap x) :=
  (wired_calm b).wire ((wired_calm b).own (.inr rfl) (by simp) (.refl b))

theorem calm_forkAfter : Calm (b.mark key x) (b.forkAfter key x) :=
  (wired_calm _).wire ((wired_calm _).own (.inl rfl) (by simp) (.refl _))

theorem calm_forkTo : Calm b (b.forkTo x) :=
  (wired_calm b).wire ((wired_calm b).own (.inl rfl) (by simp) (.refl b))

/-- A new fork to a destination has no capabilities. -/
theorem front_forkTo : (b.forkTo x).front ⟨some b.graph.size, none⟩ = .headed .none := by
  rw [front_some rfl, calm_forkTo.capabilities, capabilities_size]

end Known

/-- A stage in its place has the front of what it declares, a clone that of its original. -/
theorem front_placed (hclones : Stage.ClonesAlike σ) {p q : Pool σ ω} {b : Build σ ω}
    {handle : Handle} {s : Slot} (hp : p.Grown b.pool) (hlt : handle < p.instances.size)
    (hr : Claimed b.pool handle (s.handle, s.role) q)
    (hcaps : s.capabilities = q.capabilities s.handle) :
    (b.grow q s).front ⟨if s.capabilities.isSource then none else some b.graph.size,
      some b.graph.size⟩ = .ofStage (p.capabilities handle) := by
  have hdeclared : s.capabilities = p.capabilities handle := by
    rw [hcaps, ← hp.capabilities hlt]
    exact hr.capabilities hclones
  have hnew : (b.grow q s).graph.capabilities b.graph.size = s.capabilities :=
    Graph.capabilities_add_size s
  rw [← hdeclared]
  unfold Front.ofStage
  split
  · rfl
  · exact congrArg Front.headed hnew

/-- Statements have the fronts that are inferred for them. -/
def inferred (c : Catalog) (p : Pool σ ω) : Scheme σ ω where
  ready := Known c p
  done s fc _ _ f b' := Known c p b' ∧ Infers c.objects p.capabilities s fc (b'.front f)
  failed _ _ _ b' := Known c p b'
  chained ss fc _ _ ch b' :=
    Known c p b' ∧ ∃ es, InfersAll c.objects p.capabilities ss fc es ∧ ch.Shows b' es
  branched ss fc _ _ j b' :=
    Known c p b' ∧ ∃ es, InfersAll c.objects p.capabilities ss fc es ∧ j.Shows b' es

theorem grounded_inferred (c : Catalog) (p : Pool σ ω) (hclones : Stage.ClonesAlike σ) :
    Grounded (inferred c p) c.objects fun s => s.object.Below p.instances.size ∧ c.Lists s where
  throw _ hk := hk
  place := by
    intro h handle cs fc b q s hshape hs hb hk hr hcaps _ _
    have hlt : handle < b.pool.instances.size := Nat.lt_of_lt_of_le hs.1 hk.pool.size_le
    refine ⟨hk.grow hb.core (hr.grown hlt) s, ?_⟩
    rw [front_placed hclones hk.pool hs.1 hr hcaps]
    exact .single hshape
  refuse _ hk hr := ⟨hk.pool.trans hr.grown, hk.head⟩
  again := by
    intro s fc key t b f b' hshape _ ht _ _ hk hj
    cases hj with
    | tap hkind => exact ⟨hk.calm calm_tap, .source hshape ht hkind⟩
    | fork hkind =>
      refine ⟨hk.calm calm_forkTo, ?_⟩
      rw [front_forkTo]
      exact .destination hshape ht hkind
  first := by
    intro s fc key t b l b₁ f f' b' hshape hs ht _ _ _ hp hf ⟨hk, hi⟩ hj
    cases hj with
    | @tap tail hkind _ =>
      have hmark : Known c p (b₁.mark key tail) := hk.mark fun h => by cases hkind.symm.trans h
      exact ⟨(hmark.calm calm_forkAfter).calm calm_tap, .source hshape ht hkind⟩
    | @fork d hkind hd =>
      have hmark : Known c p (b₁.mark key d) := by
        refine hk.mark fun _ => ⟨t, fc, Catalog.mem_targets hs.2 ht, ?_⟩
        rwa [front_some hd] at hi
      refine ⟨hmark.calm calm_forkTo, ?_⟩
      have hfront := front_forkTo (b := b₁.mark key d) (x := d)
      rw [show b₁.graph.size = (b₁.mark key d).graph.size from rfl, hfront]
      exact .destination hshape ht hkind
    | plain hkind => exact ⟨hk, .other hshape ht hkind hi⟩
  abandon _ _ _ _ h := h
  blank _ _ _ _ h := h.1
  chain_start _ hk := ⟨hk, [], .nil, rfl, rfl, rfl⟩
  chain_ready h := h.1
  chain_failed _ h := h
  chain_add := by
    rintro ss fc b₀ l ch b s l' f b' node hp hc hp' hf ⟨-, es, hes, hs⟩ ⟨hk, hi⟩
    have hcalm := (wired_calm b').linking.chain_add ch node f b' (.refl b')
    refine wp_mono (wp_and hcalm (Chain.wp_added node f)) ?_ fun _ _ h => hk.calm h.1
    rintro ch' b'' ⟨hcalm, ha⟩
    refine ⟨hk.calm hcalm, _, hes.concat hi, (hs.extend hc hp'.extends_).added ?_ ?_ ha hcalm⟩
    · intro hlast
      by_contra hfirst
      obtain ⟨h, hh⟩ := Option.ne_none_iff_exists'.1 hfirst
      obtain ⟨t, ht⟩ := hc.last_of_first hh
      cases hlast.symm.trans ht
    · exact fun hpast => (hc.early hpast).2.1
  chain_finish := by
    rintro h o cs fc b₀ l ch b hshape hp hc ⟨hk, es, hes, hs⟩
    have hsequence : Front.sequence h.flags fc es =
        (b.front ⟨ch.first, ch.last⟩).adding (ch.headCapabilities h.flags fc) := by
      rw [hs.front, Chain.headCapabilities, hs.changesMessage, hs.flowControl]
      rfl
    have hinfers := Infers.sequence (o := o) hshape hes
    rw [hsequence] at hinfers
    unfold Chain.finish
    cases hfirst : ch.first with
    | none =>
      rw [hfirst] at hinfers
      refine ⟨hk, ?_⟩
      cases hlast : ch.last <;> rw [hlast] at hinfers <;> exact hinfers
    | some head =>
      have hh := hc.first hfirst
      rw [hfirst] at hinfers
      simp only [wp_bind, wp_insertCapabilities, wp_pure]
      refine ⟨hk.enable hh.lt hh.unmarked, ?_⟩
      rw [front_some rfl, Build.enable, Graph.capabilities_insertCapabilities _ hh.lt, if_pos rfl]
      exact hinfers
  branch_start _ hk := ⟨hk, [], .nil, fun h => (by cases h), rfl, fun _ => rfl, rfl⟩
  branch_ready h := h.1
  branch_failed _ h := h
  branch_add := by
    rintro ss fc b₀ l j b s l' f b' node hp hj hp' hf ⟨-, es, hes, hs⟩ ⟨hk, hi⟩
    have hcalm := (wired_calm b').branching_add j node f b' (.refl b')
    refine wp_mono (wp_and hcalm (Branching.wp_added node f)) ?_ fun _ _ h => hk.calm h.1
    rintro j' b'' ⟨hcalm, ha⟩
    exact ⟨hk.calm hcalm, _, hes.concat hi, (hs.extend hj hp'.extends_).added ha hcalm⟩
  branch_finish := by
    rintro h o cs fc b₀ l j b hshape hp hj ⟨hk, es, hes, hs⟩
    have hinfers := Infers.junction (o := o) hshape hes
    unfold Front.junction at hinfers
    unfold Branching.finish
    rw [← hs.headed, ← hs.flowControl] at hinfers
    cases hfork : j.fork with
    | none =>
      rw [hfork] at hinfers
      refine ⟨hk, ?_⟩
      rw [hs.front hfork]
      exact hinfers
    | some fork =>
      have hh := (hj.fork hfork).1
      have hnone := hs.fork hfork
      rw [hfork] at hinfers
      simp only [wp_bind, wp_ite, wp_insertCapabilities, wp_pure]
      split
      · next hflow =>
        refine ⟨hk.enable hh.lt hh.unmarked, ?_⟩
        rw [front_some rfl, Build.enable, Graph.capabilities_insertCapabilities _ hh.lt, if_pos rfl,
          hnone]
        rw [hflow] at hinfers
        exact hinfers
      · next hflow =>
        refine ⟨hk, ?_⟩
        rw [front_some rfl, hnone]
        rw [Bool.not_eq_true] at hflow
        rw [hflow] at hinfers
        exact hinfers

end Compile

end Routing
