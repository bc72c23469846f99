import Routing.Proofs.Compile.Making
/-!
# Capabilities of heads

Sequences and junctions add to the capabilities of their heads what their flags and their context
ask for. A head is a stage or a multiplexer, never a point where messages meet, so that joins and
attach points stay without capabilities. Nothing takes capabilities away again.
-/

namespace Routing

variable {σ ω : Type}

/-- The capabilities of a head are those that the statement asks for in a context that holds senders
back or not. -/
structure Capabilities.Bears (caps : Capabilities) (s : Statement) (fc : Bool) : Prop where
  fallback : s.shape = .sequence → s.flags.fallback = true → caps.branchFallback = true
  final : s.shape = .sequence → s.flags.final = true → caps.branchFinal = true
  flowControl : s.shape = .sequence ∨ s.shape = .junction → s.flags.flowControl = true ∨ fc = true →
    caps.hardFlowControl = true

theorem Capabilities.Bears.union {caps : Capabilities} {s : Statement} {fc : Bool}
    (h : caps.Bears s fc) (more : Capabilities) : (caps.union more).Bears s fc where
  fallback hs hf := by simp [Capabilities.union, h.fallback hs hf]
  final hs hf := by simp [Capabilities.union, h.final hs hf]
  flowControl hs hf := by simp [Capabilities.union, h.flowControl hs hf]

namespace Build

/-- The slot is no point where messages meet. -/
def Enterable (b : Build σ ω) (x : SlotId) : Prop :=
  ∃ role, b.graph.role? x = some role ∧ role ≠ .join ∧ role ≠ .attach

/-- Points where messages meet have no capabilities. -/
def Bare (b : Build σ ω) : Prop :=
  ∀ x, b.graph.role? x = some .join ∨ b.graph.role? x = some .attach →
    b.graph.capabilities x = .none

/-- Slots keep their roles and their capabilities, and points where messages meet get none. -/
structure Enriches (b₀ b : Build σ ω) : Prop where
  role : ∀ {x role}, b₀.graph.role? x = some role → b.graph.role? x = some role
  capabilities : ∀ {x}, x < b₀.graph.size →
    ∃ more, b.graph.capabilities x = (b₀.graph.capabilities x).union more
  bare : b.Bare

variable {b₀ b₁ b : Build σ ω} {x h u v : SlotId} {k : EdgeKind} {p : Pool σ ω} {s : Slot}
  {caps : Capabilities}

theorem Enterable.lt (hx : b.Enterable x) : x < b.graph.size :=
  let ⟨_, hr, _⟩ := hx; Graph.role?_lt hr

namespace Enriches

theorem refl (hb : b.Bare) : Enriches b b := ⟨id, fun _ => ⟨.none, (Capabilities.union_none _).symm⟩, hb⟩

theorem enterable (he : Enriches b₀ b) (hx : b₀.Enterable x) : b.Enterable x :=
  let ⟨role, hr, hne⟩ := hx; ⟨role, he.role hr, hne⟩

theorem size_le (he : Enriches b₀ b) : b₀.graph.size ≤ b.graph.size := by
  refine Nat.le_of_not_lt fun hlt => ?_
  obtain ⟨s, hs⟩ := Graph.exists_slot hlt
  have hr : b₀.graph.role? b.graph.size = some s.role := by simp [Graph.role?, hs]
  exact Nat.lt_irrefl _ (Graph.role?_lt (he.role hr))

theorem trans (he : Enriches b₀ b₁) (he' : Enriches b₁ b) : Enriches b₀ b where
  role hr := he'.role (he.role hr)
  capabilities hx := by
    obtain ⟨more, hm⟩ := he.capabilities hx
    obtain ⟨more', hm'⟩ := he'.capabilities (Nat.lt_of_lt_of_le hx he.size_le)
    exact ⟨more.union more', by rw [hm', hm, Capabilities.union_assoc]⟩
  bare := he'.bare

theorem bears {st : Statement} {fc : Bool} (he : Enriches b₀ b) (hx : x < b₀.graph.size)
    (hs : (b₀.graph.capabilities x).Bears st fc) : (b.graph.capabilities x).Bears st fc := by
  obtain ⟨more, hm⟩ := he.capabilities hx
  rw [hm]
  exact hs.union more

theorem pool (he : Enriches b₀ b) : Enriches b₀ { b with pool := p } :=
  ⟨he.role, he.capabilities, he.bare⟩

theorem grow (he : Enriches b₀ b) (hs : s.role = .join ∨ s.role = .attach → s.capabilities = .none) :
    Enriches b₀ (b.grow p s) where
  role hr := by
    have hr := he.role hr
    rw [role?_grow (Graph.role?_lt hr)]
    exact hr
  capabilities hx := by
    rw [capabilities_grow (Nat.lt_of_lt_of_le hx he.size_le)]
    exact he.capabilities hx
  bare x hr := by
    have hlt : x < (b.grow p s).graph.size := hr.elim Graph.role?_lt Graph.role?_lt
    rcases lt_size_grow.1 hlt with hx | rfl
    · rw [role?_grow hx] at hr
      rw [capabilities_grow hx]
      exact he.bare x hr
    · simp only [Build.grow, Graph.role?_add_size, Option.some.injEq] at hr
      rw [Build.grow, Graph.capabilities_add_size]
      exact hs hr

theorem enable (he : Enriches b₀ b) (hu : b.Enterable u) : Enriches b₀ (b.enable u caps) where
  role hr := by rw [role?_enable]; exact he.role hr
  capabilities {x} hx := by
    obtain ⟨more, hm⟩ := he.capabilities hx
    rw [Build.enable, Graph.capabilities_insertCapabilities caps hu.lt]
    split
    · exact ⟨more.union caps, by rw [hm, Capabilities.union_assoc]⟩
    · exact ⟨more, hm⟩
  bare x hr := by
    rw [role?_enable] at hr
    obtain ⟨role, hu', hj, ha⟩ := hu
    have hne : x ≠ u := by
      rintro rfl
      rw [hu'] at hr
      rcases hr with hr | hr
      · exact hj (Option.some.inj hr)
      · exact ha (Option.some.inj hr)
    rw [Build.enable, Graph.capabilities_insertCapabilities caps (Graph.role?_lt hu'), if_neg hne]
    exact he.bare x hr

end Enriches

end Build

namespace Compile

open Build

variable [Stage σ ω] {b : Build σ ω}

theorem wired_enriches (b₀ : Build σ ω) : Wired (Enriches b₀) where
  own _ _ he := he.grow fun _ => rfl
  wire he := ⟨fun hr => by rw [role?_wire]; exact he.role hr,
    fun hx => by rw [capabilities_wire]; exact he.capabilities hx,
    fun x hr => by rw [role?_wire] at hr; rw [capabilities_wire]; exact he.bare x hr⟩

/-! ### All statements -/

/-- Heads have the capabilities that their statements ask for. -/
def heads : Scheme σ ω where
  ready := Bare
  done s fc b _ f b' := Enriches b b' ∧
    ∀ h, f.head = some h → b'.Enterable h ∧ (b'.graph.capabilities h).Bears s fc
  failed b _ _ b' := Enriches b b'
  chained _ _ b _ c b' := Enriches b b' ∧ ∀ h, c.first = some h → b'.Enterable h
  branched _ _ b _ j b' := Enriches b b' ∧ ∀ f, j.fork = some f → b'.Enterable f

omit [Stage σ ω] in
theorem bears_of_shape {s : Statement} {fc : Bool} {caps : Capabilities} (hseq : s.shape ≠ .sequence)
    (hjunction : s.shape ≠ .junction) : caps.Bears s fc :=
  ⟨fun h => absurd h hseq, fun h => absurd h hseq,
    fun h => absurd h (not_or.2 ⟨hseq, hjunction⟩)⟩

omit [Stage σ ω] in
theorem wp_once_enriches {key : TargetKey} {settled : Option SlotId} {failure : CompileError}
    {run : Compile σ ω (Option SlotId)} (hb : b.Bare)
    (hrun : wp run (fun _ => Enriches b) (fun _ => Enriches b) b) :
    wp (once key settled failure run) (fun _ => Enriches b) (fun _ => Enriches b) b := by
  unfold once
  rw [wp_bind, wp_remembered]
  split
  · exact .refl hb
  · rw [wp_bind]
    refine wp_mono hrun (fun id b' he => ?_) fun _ _ h => h
    cases id with
    | none => exact he
    | some id => exact ⟨he.role, he.capabilities, he.bare⟩

theorem heads_single (h : Heading) (here : Option Location) (handle : Handle) (hb : b.Bare) :
    wp (single h here (.stage handle))
      (fun f b' => Enriches b b' ∧ ∀ h, f.head = some h → b'.Enterable h)
      (fun _ => Enriches b) b := by
  refine wp_single (fun handle' role p hr => ?_) fun _ _ => (Enriches.refl hb).pool
  · have hrole : role ≠ .join ∧ role ≠ .attach := by
      have hr : role = .declared ∨ role = .cloned := hr.role
      rcases hr with rfl | rfl <;> simp
    refine ⟨(Enriches.refl hb).grow fun h => absurd h (not_or.2 hrole), fun h hh => ?_⟩
    split at hh
    · cases hh
    · cases hh
      exact ⟨role, Graph.role?_add_size _, hrole⟩

theorem heads_referTo {h : Heading} {here : Option Location} {key : TargetKey}
    {settled : Option SlotId} {run : Compile σ ω Fragment} (hb : b.Bare)
    (hrun : wp run (fun f b' => Enriches b b' ∧ ∀ h, f.head = some h → b'.Enterable h)
      (fun _ => Enriches b) b) :
    wp (referTo h here key settled run)
      (fun f b' => Enriches b b' ∧ ∀ h, f.head = some h → b'.Enterable h)
      (fun _ => Enriches b) b := by
  have honce : ∀ failure (end_ : Fragment → Option SlotId),
      wp (once key settled failure (return end_ (← run))) (fun _ => Enriches b)
        (fun _ => Enriches b) b := fun failure end_ => by
    refine wp_once_enriches hb ?_
    rw [wp_bind]
    exact wp_mono hrun (fun _ _ h => h.1) fun _ _ h => h
  have hwired : Wired (Enriches b) := wired_enriches b
  unfold referTo
  split
  · rw [wp_bind]
    refine wp_mono (honce _ _) (fun tail b₁ he => ?_) fun _ _ h => h
    rw [wp_bind]
    refine wp_mono (hwired.sourceFork tail _ b₁ he) (fun fork b₂ he => ?_) fun _ _ h => h
    simp only [wp_bind, wp_addAttach, wp_addHop, wp_pure]
    refine ⟨hwired.wire (hwired.own (.inr rfl) (by simp) he), fun h hh => ?_⟩
    cases hh
  · rw [wp_bind]
    refine wp_mono (honce _ _) (fun head b₁ he => ?_) fun _ _ h => h
    simp only [wp_bind, wp_addMultiplexer, wp_addHop, wp_pure]
    refine ⟨hwired.wire (hwired.own (.inl rfl) (by simp) he), fun h hh => ?_⟩
    cases hh
    exact ⟨.multiplexer, by rw [role?_wire]; exact role?_own, by simp⟩
  · exact hrun

theorem lawful_heads (objects : Objects) : heads.Lawful (σ := σ) objects fun _ => True where
  throw _ hb := .refl hb
  single {h} _ cs _ _ hshape _ b hb := by
    refine wp_mono (heads_single h _ _ hb) (fun f b' hf => ⟨hf.1, fun x hx => ⟨hf.2 x hx, ?_⟩⟩)
      fun _ _ h => h
    exact bears_of_shape (by simp [Statement.shape, Statement.heading, hshape])
      (by simp [Statement.shape, Statement.heading, hshape])
  refer := by
    intro h o cs fc here key t run trace hshape _ _ _ _ hrun b hb
    have hrun := wp_mono (hrun b hb) (fun _ _ hf => And.intro hf.1 fun x hx => (hf.2 x hx).1)
      fun _ _ h => h
    refine wp_mono (heads_referTo hb hrun) (fun f b' hf => ⟨hf.1, fun x hx => ⟨hf.2 x hx, ?_⟩⟩)
      fun _ _ h => h
    exact bears_of_shape (by simp [Statement.shape, Statement.heading, hshape])
      (by simp [Statement.shape, Statement.heading, hshape])
  chain_start hb := ⟨.refl hb, fun _ h => by cases h⟩
  chain_ready h := h.1.bare
  chain_failed h h' := h.1.trans h'
  chain_add := by
    rintro _ fc b₀ _ c b _ _ f b' node ⟨he, hc⟩ ⟨he', hf⟩
    have hkeep := (wired_enriches b').linking.chain_add c node f b' (.refl he'.bare)
    refine wp_mono (wp_and hkeep (Chain.wp_added node f)) ?_ ?_
    · rintro c' b'' ⟨he'', hadded⟩
      refine ⟨(he.trans he').trans he'', fun h hh => he''.enterable ?_⟩
      rw [hadded.first] at hh
      split at hh
      · exact (hf h hh).1
      · exact he'.enterable (hc h hh)
    · exact fun _ _ he'' => (he.trans he').trans he''.1
  chain_finish := by
    rintro h o cs fc b₀ _ c b hshape ⟨he, hc⟩
    unfold Chain.finish
    cases hfirst : c.first with
    | none => exact ⟨he, fun x hx => by cases hx⟩
    | some head =>
      simp only [wp_bind, wp_insertCapabilities, wp_pure]
      have hhead := hc head hfirst
      refine ⟨he.enable hhead, fun x hx => ?_⟩
      cases hx
      refine ⟨((Enriches.refl he.bare).enable hhead).enterable hhead, ?_⟩
      rw [Build.enable, Graph.capabilities_insertCapabilities _ hhead.lt, if_pos rfl]
      refine ⟨fun _ hf => ?_, fun _ hf => ?_, fun _ hf => ?_⟩
      · simp_all [Capabilities.union, Chain.headCapabilities, Statement.flags, Statement.heading]
      · simp_all [Capabilities.union, Chain.headCapabilities, Statement.flags, Statement.heading]
      · rcases hf with hf | hf <;>
          simp_all [Capabilities.union, Chain.headCapabilities, Statement.flags, Statement.heading]
  branch_start hb := ⟨.refl hb, fun _ h => by cases h⟩
  branch_ready h := h.1.bare
  branch_failed h h' := h.1.trans h'
  branch_add := by
    rintro _ fc b₀ _ j b _ _ f b' node ⟨he, hj⟩ ⟨he', -⟩
    have hkeep := (wired_enriches b').branching_add j node f b' (.refl he'.bare)
    refine wp_mono (wp_and hkeep (Branching.wp_added node f)) ?_ ?_
    · rintro j' b'' ⟨he'', hadded⟩
      refine ⟨(he.trans he').trans he'', fun x hx => ?_⟩
      rcases hadded.fork hx with hx | hx
      · exact he''.enterable (he'.enterable (hj x hx))
      · exact ⟨_, hx.1, by simp⟩
    · exact fun _ _ he'' => (he.trans he').trans he''.1
  branch_finish := by
    rintro h o cs fc b₀ _ j b hshape ⟨he, hj⟩
    have hseq : (Statement.mk h o cs).shape ≠ .sequence := by
      simp [Statement.shape, Statement.heading, hshape]
    unfold Branching.finish
    cases hfork : j.fork with
    | none => exact ⟨he, fun x hx => by cases hx⟩
    | some fork =>
      have hhead := hj fork hfork
      simp only [wp_bind, wp_ite, wp_insertCapabilities, wp_pure]
      split
      · refine ⟨he.enable hhead, fun x hx => ?_⟩
        cases hx
        refine ⟨((Enriches.refl he.bare).enable hhead).enterable hhead, ?_⟩
        rw [Build.enable, Graph.capabilities_insertCapabilities _ hhead.lt, if_pos rfl]
        refine ⟨fun hs => absurd hs hseq, fun hs => absurd hs hseq, fun _ _ => ?_⟩
        simp [Capabilities.union]
      · next hfc =>
        refine ⟨he, fun x hx => ?_⟩
        cases hx
        refine ⟨hhead, fun hs => absurd hs hseq, fun hs => absurd hs hseq, fun _ hf => ?_⟩
        rcases hf with hf | hf <;> simp_all [Statement.flags, Statement.heading]

/-- Compiling a statement gives its head what it asks for. -/
theorem heads_node (objects : Objects) (s : Statement) (fc : Bool) (hb : b.Bare) :
    wp (node objects fc s)
      (fun f b' => Enriches b b' ∧
        ∀ h, f.head = some h → b'.Enterable h ∧ (b'.graph.capabilities h).Bears s fc)
      (fun _ => Enriches b) b :=
  (lawful_heads objects).meets_node (fun _ _ _ _ => trivial) (fun _ _ => trivial) fc b hb

end Compile

end Routing
