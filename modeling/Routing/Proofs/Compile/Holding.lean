import Routing.Proofs.Compile.Inference
/-!
# Stages that hold their senders back

A stage that holds its senders back shows at the head of every statement that brings it: through
sequences, junctions and the targets that are compiled anew for each reference. It does not show
through a reference to a destination, as the fork to the destination has no capabilities; there it
shows at the head of the destination, which all references share.
-/

namespace Routing

variable {σ ω : Type}

/-- A stage that holds its senders back is in the statement or in a target of its references,
through targets of certain kinds. -/
inductive Brings (objects : Objects) (declared : Handle → Capabilities) (through : Kind → Prop) :
    Statement → Prop
  | stage {h : Heading} {handle : Handle} {cs : List Statement} (hshape : h.shape = .single)
    (hd : (declared handle).hardFlowControl = true) :
    Brings objects declared through (.mk h (.stage handle) cs)
  | child {h : Heading} {o : Object} {cs : List Statement} {s : Statement}
    (hshape : h.shape = .sequence ∨ h.shape = .junction) (hs : s ∈ cs)
    (hb : Brings objects declared through s) : Brings objects declared through (.mk h o cs)
  | target {s t : Statement} {key : TargetKey} (hshape : s.shape = .reference)
    (ht : s.target? objects = some (key, t)) (hk : through key.kind)
    (hb : Brings objects declared through t) : Brings objects declared through s

/-- Targets of this kind are compiled anew for each reference. -/
def Kind.Anew (k : Kind) : Prop :=
  k ≠ .source ∧ k ≠ .destination

instance : DecidablePred Kind.Anew := fun k =>
  inferInstanceAs (Decidable (k ≠ .source ∧ k ≠ .destination))

namespace Brings

variable {objects : Objects} {declared : Handle → Capabilities} {through : Kind → Prop}
  {h : Heading} {o : Object} {cs : List Statement} {s t : Statement} {key : TargetKey}
  {handle : Handle}

theorem of_stage (hb : Brings objects declared through (.mk h (.stage handle) cs))
    (hshape : h.shape = .single) : (declared handle).hardFlowControl = true := by
  cases hb with
  | stage _ hd => exact hd
  | child hs => rcases hs with hs | hs <;> cases hshape.symm.trans hs
  | target hs => cases hshape.symm.trans hs

theorem of_children (hb : Brings objects declared through (.mk h o cs))
    (hshape : h.shape = .sequence ∨ h.shape = .junction) :
    ∃ s ∈ cs, Brings objects declared through s := by
  cases hb with
  | child _ hs hb => exact ⟨_, hs, hb⟩
  | stage hs | target hs => rcases hshape with hshape | hshape <;> cases hshape.symm.trans hs

theorem of_reference (hb : Brings objects declared through s) (hshape : s.shape = .reference)
    (ht : s.target? objects = some (key, t)) : through key.kind ∧ Brings objects declared through t := by
  cases hb with
  | target _ ht' hk hb =>
    cases ht.symm.trans ht'
    exact ⟨hk, hb⟩
  | stage hs => cases hs.symm.trans hshape
  | child hs => rcases hs with hs | hs <;> cases hs.symm.trans hshape

theorem expandCatchAll (hb : Brings objects declared through s) :
    Brings objects declared through (s.expandCatchAll objects) := by
  obtain ⟨h, o, cs⟩ := s
  unfold Statement.expandCatchAll
  split
  · cases hb with
    | stage hshape hd => exact .stage hshape hd
    | child hshape hs hb => exact .child hshape (List.mem_append_right _ hs) hb
    | target hshape ht hk hb =>
      refine .target hshape ?_ hk hb
      cases o <;> exact ht
  · exact hb

end Brings

/-- Messages come from sources, or their senders are held back at the head. -/
def Front.Holds (e : Front) : Prop :=
  e = .rooted ∨ e.capabilities.hardFlowControl = true

namespace Compile

open Build

/-! ### Sequences and junctions in the making -/

/-- A child of the sequence brings a stage that holds its senders back, and the sequence shows it. -/
structure Chain.Holds (c : Chain) : Prop where
  last : c.last ≠ none
  first : c.first ≠ none → c.flowControl = true

/-- A branch of the junction brings a stage that holds its senders back, and the junction shows it. -/
structure Branching.Holds (j : Branching) : Prop where
  fork : j.fork ≠ none → j.flowControl = true
  join : j.fork = none → j.headless = true ∧ j.join ≠ none

section Steps

variable [Stage σ ω] {b b' : Build σ ω} {c c' : Chain} {j j₁ j' : Branching} {f : Fragment}

omit [Stage σ ω] in
theorem holds_front : (b.front f).Holds ↔ f.head = none ∧ f.tail ≠ none ∨
    (b.atHead f).hardFlowControl = true := by
  obtain ⟨_ | h, _ | t⟩ := f <;> simp [Front.Holds, front, atHead, Front.capabilities, Capabilities.none]

omit [Stage σ ω] in
theorem holds_headed {h : SlotId} {tail : Option SlotId} (hf : (b.front ⟨some h, tail⟩).Holds) :
    (b.graph.capabilities h).hardFlowControl = true := by
  rcases holds_front.1 hf with ⟨hh, -⟩ | hh
  · cases hh
  · exact hh

theorem Chain.Step.holds (hstep : c.Step b f c' b')
    (hearly : c.pastSources = false → c.first = none ∧ c.last = c.join)
    (h : c.Holds ∨ (b.front f).Holds) : c'.Holds := by
  cases hstep with
  | empty =>
    refine h.resolve_right fun hf => ?_
    simp [holds_front, atHead, Capabilities.none] at hf
  | firstSource hpast => exact ⟨by simp, fun hfirst => absurd (hearly hpast).1 hfirst⟩
  | source hpast hjoin =>
    obtain ⟨hfirst, hlast⟩ := hearly hpast
    exact ⟨by simp [hlast, hjoin], fun h => absurd hfirst h⟩
  | first hlast =>
    have hhead := h.resolve_left fun hc => hc.last hlast
    refine ⟨by simp [advance], fun _ => ?_⟩
    simp [advance, holds_headed hhead]
  | next hlast =>
    refine ⟨by simp [advance], fun hfirst => ?_⟩
    have hfirst : c.first ≠ none := by simpa [advance, hlast] using hfirst
    rcases h with hc | hf
    · simp [advance, hc.first hfirst]
    · simp [advance, holds_headed hf]

/-- A branch with a head comes only if none without one came. -/
theorem Branching.wp_unmixed (node : Descriptor) (f : Fragment) :
    wp (j.add node f) (fun _ _ => f.head ≠ none → j.headless = false) (fun _ _ => True) b := by
  have hany : ∀ {α : Type} (x : Compile σ ω α), (f.head ≠ none → j.headless = false) →
      wp x (fun _ _ => f.head ≠ none → j.headless = false) (fun _ _ => True) b := by
    intro α x hx
    exact wp_of_forall (fun _ _ => hx) fun _ _ => trivial
  cases hhead : f.head with
  | none => exact wp_of_forall (fun _ _ h => absurd rfl h) fun _ _ => trivial
  | some h =>
    cases hheadless : j.headless with
    | false => exact wp_of_forall (fun _ _ _ => rfl) fun _ _ => trivial
    | true =>
      unfold add addHead
      rw [hhead, hheadless]
      trivial

/-- The head of a branch shows, and a branch without one has an end. -/
theorem Branching.HeadStep.holds (hstep : j.HeadStep b f.head j₁ b')
    (hunmixed : f.head ≠ none → j.headless = false) (h : j.Holds ∨ (b.front f).Holds) :
    (j₁.fork ≠ none → j₁.flowControl = true) ∧
      (j₁.fork = none → j₁.headless = true ∧ (j₁.join ≠ none ∨ f.tail ≠ none)) := by
  obtain ⟨head, tail⟩ := f
  cases hstep with
  | headless hfork =>
    refine ⟨fun h => absurd hfork h, fun _ => ⟨rfl, ?_⟩⟩
    rcases h with hj | hf
    · exact .inl (hj.join hfork).2
    · rcases holds_front.1 hf with ⟨-, ht⟩ | hh
      · exact .inr ht
      · simp [atHead, Capabilities.none] at hh
  | first hfork =>
    refine ⟨fun _ => ?_, fun h => by cases h⟩
    rcases h with hj | hf
    · have hheadless := hunmixed (by simp)
      rw [(hj.join hfork).1] at hheadless
      cases hheadless
    · simp [holds_headed hf]
  | hop hfork =>
    refine ⟨fun _ => ?_, fun h => by cases hfork.symm.trans h⟩
    rcases h with hj | hf
    · simp [hj.fork (by simp [hfork])]
    · simp [holds_headed hf]

theorem Branching.TailStep.holds {tail : Option SlotId} (hstep : j₁.TailStep b tail j' b')
    (hfork : j₁.fork ≠ none → j₁.flowControl = true)
    (hjoin : j₁.fork = none → j₁.headless = true ∧ (j₁.join ≠ none ∨ tail ≠ none)) : j'.Holds := by
  cases hstep with
  | absent => exact ⟨hfork, fun h => ⟨(hjoin h).1, (hjoin h).2.resolve_right fun h => h rfl⟩⟩
  | first _ => exact ⟨hfork, fun h => ⟨(hjoin h).1, by simp⟩⟩
  | join hx => exact ⟨hfork, fun h => ⟨(hjoin h).1, by simp [hx]⟩⟩

theorem Branching.wp_holds (node : Descriptor) (f : Fragment) (h : j.Holds ∨ (b.front f).Holds) :
    wp (j.add node f) (fun j' _ => j'.Holds) (fun _ _ => True) b := by
  have hunmixed := wp_unmixed (b := b) (j := j) node f
  unfold add at hunmixed ⊢
  rw [wp_bind] at hunmixed ⊢
  refine wp_mono (wp_and (wp_headStep node f.head) hunmixed) ?_ fun _ _ _ => trivial
  rintro j₁ b₁ ⟨hhead, hunmixed⟩
  refine wp_mono (wp_and (wp_tailStep node f.tail) hunmixed) ?_ fun _ _ _ => trivial
  rintro j' b' ⟨htail, hunmixed⟩
  obtain ⟨hfork, hjoin⟩ := hhead.holds hunmixed h
  exact htail.holds hfork hjoin

end Steps

/-! ### All statements -/

/-- A stage that holds its senders back shows at the heads of remembered destinations. -/
structure Held [Stage σ ω] (c : Catalog) (p : Pool σ ω) (b : Build σ ω) : Prop where
  pool : p.Grown b.pool
  head : ∀ {key d}, (key, d) ∈ b.memos → key.kind = .destination →
    ∃ t, (key, t) ∈ c.targets ∧ (Brings c.objects p.capabilities Kind.Anew t →
      (b.graph.capabilities d).hardFlowControl = true)

variable [Stage σ ω]

section Held

variable {c : Catalog} {p q : Pool σ ω} {b b' : Build σ ω} {key : TargetKey} {x : SlotId}
  {caps : Capabilities}

theorem Held.calm (hb : Held c p b) (hc : Calm b b') : Held c p b' where
  pool := hb.pool.trans hc.pool
  head hm hd := by
    rw [hc.memos] at hm
    rw [hc.capabilities]
    exact hb.head hm hd

theorem Held.mark (hb : Held c p b) (hd : key.kind = .destination →
    ∃ t, (key, t) ∈ c.targets ∧ (Brings c.objects p.capabilities Kind.Anew t →
      (b.graph.capabilities x).hardFlowControl = true)) : Held c p (b.mark key x) where
  pool := hb.pool
  head hm hkind := by
    rcases List.mem_cons.1 hm with heq | hm
    · cases heq
      exact hd hkind
    · exact hb.head hm hkind

theorem Held.grow (hb : Held c p b) (hcore : b.Core) (hq : b.pool.Grown q) (s : Slot) :
    Held c p (b.grow q s) where
  pool := hb.pool.trans hq
  head hm hd := by
    rw [capabilities_grow (hcore.memo_lt hm)]
    exact hb.head hm hd

theorem Held.enable (hb : Held c p b) (hlt : x < b.graph.size) : Held c p (b.enable x caps) where
  pool := hb.pool
  head hm hd := by
    obtain ⟨t, ht, hshows⟩ := hb.head hm hd
    refine ⟨t, ht, fun hbrings => ?_⟩
    rw [Build.enable, Graph.capabilities_insertCapabilities caps hlt]
    split
    · simp [Capabilities.union, hshows hbrings]
    · exact hshows hbrings

end Held

omit [Stage σ ω] in
theorem not_shared_iff {key : TargetKey} : ¬ key.Shared ↔ key.kind.Anew := by
  simp [TargetKey.Shared, Kind.Anew]

/-- Statements show the stages in them that hold their senders back. -/
def holding (c : Catalog) (p : Pool σ ω) : Scheme σ ω where
  ready := Held c p
  done s _ _ _ f b' := Held c p b' ∧
    (Brings c.objects p.capabilities Kind.Anew s → (b'.front f).Holds)
  failed _ _ _ b' := Held c p b'
  chained ss _ _ _ ch b' := Held c p b' ∧
    ((∃ s ∈ ss, Brings c.objects p.capabilities Kind.Anew s) → ch.Holds)
  branched ss _ _ _ j b' := Held c p b' ∧
    ((∃ s ∈ ss, Brings c.objects p.capabilities Kind.Anew s) → j.Holds)

theorem grounded_holding (c : Catalog) (p : Pool σ ω) (hclones : Stage.ClonesAlike σ) :
    Grounded (holding c p) c.objects fun s => s.object.Below p.instances.size ∧ c.Lists s where
  throw _ hb := hb
  place := by
    intro h handle cs fc b q s hshape hs hb hheld hr hcaps _ _
    have hlt : handle < b.pool.instances.size := Nat.lt_of_lt_of_le hs.1 hheld.pool.size_le
    refine ⟨hheld.grow hb.core (hr.grown hlt) s, fun hbrings => ?_⟩
    have hhard : (p.capabilities handle).hardFlowControl = true := hbrings.of_stage hshape
    rw [front_placed hclones hheld.pool hs.1 hr hcaps]
    unfold Front.ofStage
    split
    · exact .inl rfl
    · exact .inr hhard
  refuse _ hb hr := ⟨hb.pool.trans hr.grown, hb.head⟩
  again := by
    intro s fc key t b f b' hshape _ ht _ _ hb hj
    refine ⟨?_, fun hbrings => ?_⟩
    · cases hj with
      | tap => exact hb.calm calm_tap
      | fork => exact hb.calm calm_forkTo
    · -- only targets that are compiled anew bring anything
      have hanew := not_shared_iff.2 (hbrings.of_reference hshape ht).1
      cases hj with
      | tap hk => exact absurd (.inl hk) hanew
      | fork hk => exact absurd (.inr hk) hanew
  first := by
    intro s fc key t b l b₁ f f' b' hshape hs ht _ _ _ hp hf ⟨hb, hshows⟩ hj
    cases hj with
    | @tap tail hk _ =>
      have hmark : Held c p (b₁.mark key tail) := hb.mark fun h => by cases hk.symm.trans h
      refine ⟨(hmark.calm calm_forkAfter).calm calm_tap, fun hbrings => ?_⟩
      exact absurd (.inl hk) (not_shared_iff.2 (hbrings.of_reference hshape ht).1)
    | @fork d hk hd =>
      have hmark : Held c p (b₁.mark key d) := by
        refine hb.mark fun _ => ⟨t, Catalog.mem_targets hs.2 ht, fun hbrings => ?_⟩
        obtain ⟨head, tail⟩ := f
        cases hd
        exact holds_headed (hshows hbrings)
      refine ⟨hmark.calm calm_forkTo, fun hbrings => ?_⟩
      exact absurd (.inr hk) (not_shared_iff.2 (hbrings.of_reference hshape ht).1)
    | plain hk => exact ⟨hb, fun hbrings => hshows (hbrings.of_reference hshape ht).2⟩
  abandon _ _ _ _ h := h
  blank _ _ _ _ h := h.1
  chain_start _ hb := ⟨hb, fun ⟨_, hs, _⟩ => by cases hs⟩
  chain_ready h := h.1
  chain_failed _ h := h
  chain_add := by
    rintro ss fc b₀ l ch b s l' f b' node hp hc hp' hf ⟨-, hch⟩ ⟨hb, hshows⟩
    have hcalm := (wired_calm b').linking.chain_add ch node f b' (.refl b')
    refine wp_mono (wp_and hcalm (Chain.wp_step node f)) ?_ fun _ _ h => hb.calm h.1
    rintro ch' b'' ⟨hcalm, hstep⟩
    refine ⟨hb.calm hcalm, fun ⟨s', hs', hbrings⟩ => ?_⟩
    refine hstep.holds (fun hpast => ⟨(hc.early hpast).1, (hc.early hpast).2.1⟩) ?_
    rcases List.mem_append.1 hs' with hs' | hs'
    · exact .inl (hch ⟨s', hs', hbrings⟩)
    · cases List.mem_singleton.1 hs'
      exact .inr (hshows hbrings)
  chain_finish := by
    rintro h o cs fc b₀ l ch b hshape hp hc ⟨hb, hch⟩
    have hholds : Brings c.objects p.capabilities Kind.Anew (.mk h o cs) → ch.Holds :=
      fun hbrings => hch (hbrings.of_children (.inl hshape))
    unfold Chain.finish
    cases hfirst : ch.first with
    | none =>
      refine ⟨hb, fun hbrings => holds_front.2 (.inl ⟨rfl, (hholds hbrings).last⟩)⟩
    | some head =>
      have hlt := (hc.first hfirst).lt
      simp only [wp_bind, wp_insertCapabilities, wp_pure]
      refine ⟨hb.enable hlt, fun hbrings => .inr ?_⟩
      rw [front_some rfl, Build.enable, Graph.capabilities_insertCapabilities _ hlt, if_pos rfl]
      simp [Front.capabilities, Capabilities.union, Chain.headCapabilities,
        (hholds hbrings).first (by simp [hfirst])]
  branch_start _ hb := ⟨hb, fun ⟨_, hs, _⟩ => by cases hs⟩
  branch_ready h := h.1
  branch_failed _ h := h
  branch_add := by
    rintro ss fc b₀ l j b s l' f b' node hp hj hp' hf ⟨-, hbr⟩ ⟨hb, hshows⟩
    have hcalm := (wired_calm b').branching_add j node f b' (.refl b')
    by_cases hsome : ∃ s' ∈ ss ++ [s], Brings c.objects p.capabilities Kind.Anew s'
    · refine wp_mono (wp_and hcalm (Branching.wp_holds node f ?_))
        (fun _ _ h => ⟨hb.calm h.1, fun _ => h.2⟩) fun _ _ h => hb.calm h.1
      obtain ⟨s', hs', hbrings⟩ := hsome
      rcases List.mem_append.1 hs' with hs' | hs'
      · exact .inl (hbr ⟨s', hs', hbrings⟩)
      · cases List.mem_singleton.1 hs'
        exact .inr (hshows hbrings)
    · exact wp_mono hcalm (fun _ _ h => ⟨hb.calm h, fun h => absurd h hsome⟩) fun _ _ h => hb.calm h
  branch_finish := by
    rintro h o cs fc b₀ l j b hshape hp hj ⟨hb, hbr⟩
    have hholds : Brings c.objects p.capabilities Kind.Anew (.mk h o cs) → j.Holds :=
      fun hbrings => hbr (hbrings.of_children (.inr hshape))
    unfold Branching.finish
    cases hfork : j.fork with
    | none =>
      refine ⟨hb, fun hbrings => holds_front.2 (.inl ⟨rfl, ?_⟩)⟩
      exact ((hholds hbrings).join hfork).2
    | some fork =>
      have hlt := (hj.fork hfork).1.lt
      simp only [wp_bind, wp_ite, wp_insertCapabilities, wp_pure]
      split
      · refine ⟨hb.enable hlt, fun _ => .inr ?_⟩
        rw [front_some rfl, Build.enable, Graph.capabilities_insertCapabilities _ hlt, if_pos rfl]
        simp [Front.capabilities, Capabilities.union]
      · next hflow =>
        refine ⟨hb, fun hbrings => ?_⟩
        rw [(hholds hbrings).fork (by simp [hfork])] at hflow
        simp at hflow

end Compile

end Routing
