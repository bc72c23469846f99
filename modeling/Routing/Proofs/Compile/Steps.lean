import Routing.Proofs.Compile.Ends
import Routing.Proofs.Compile.Wp
import Routing.Proofs.Stage.Pool
/-!
# Steps of compiling

A computation `Compiles` if it leaves a sound state and gives a part with the ends that `Fits`
describes; if it fails, the state is sound as well, and the graph does not contradict itself. Single
statements compile.
-/

namespace Routing

variable {σ ω : Type}

/-- The error does not say that the graph contradicts itself. -/
def CompileError.Consistent : CompileError → Prop
  | inconsistent _ _ => False
  | _ => True

namespace Build

/-- A sound state that extends an earlier one. -/
structure Progress (b₀ b : Build σ ω) : Prop where
  sound : b.Sound
  extends_ : b₀.Extends b

/-- What was compiled since an earlier state has these ends. -/
structure Fits (b₀ b : Build σ ω) (f : Fragment) : Prop where
  head : ∀ {h}, f.head = some h → Headed b₀ b h
  tail : ∀ {t}, f.tail = some t → Tailed b₀ b t
  through : ∀ {h t}, f.head = some h → f.tail = some t → b.graph.Reaches h t
  /-- Without a tail there is a fork that no stage follows. -/
  fork : ∀ {h}, f.head = some h → f.tail = none →
    b.graph.role? h = some .multiplexer ∧ b.graph.next? h = none
  empty : f.head = none → f.tail = none → b.graph.size = b₀.graph.size

/-- The state with a stage that no statement declares. -/
def own (b : Build σ ω) (stage : σ) (role : Role) : Build σ ω :=
  b.grow (b.pool.add stage).2
    { handle := b.pool.instances.size, role, capabilities := .none }

theorem Fits.enable {b₀ b : Build σ ω} {f : Fragment} (hf : Fits b₀ b f) {u : SlotId}
    {caps : Capabilities} (hu : u < b.graph.size) (hc : caps.isSource = false) :
    Fits b₀ (b.enable u caps) f where
  head h := (hf.head h).enable hu hc
  tail h := (hf.tail h).enable caps
  through h h' := by
    rw [Graph.Reaches, feeds_enable]
    exact hf.through h h'
  fork h h' := by
    rw [role?_enable, next?_enable]
    exact hf.fork h h'
  empty h h' := by
    rw [size_enable]
    exact hf.empty h h'

namespace Progress

variable {b₀ b b' : Build σ ω}

theorem refl (h : b.Sound) : Progress b b := ⟨h, .refl b⟩

theorem trans (h : Progress b₀ b) (h' : Progress b b') : Progress b₀ b' :=
  ⟨h'.sound, h.extends_.trans h'.extends_ h.sound.core⟩

theorem pool (h : Progress b₀ b) {p : Pool σ ω} : Progress b₀ { b with pool := p } :=
  ⟨h.sound.pool, h.extends_.pool⟩

end Progress

section Own

variable {b₀ b : Build σ ω} {stage : σ} {role : Role} {x : SlotId}

theorem Core.own (hb : b.Core) : (b.own stage role).Core := hb.grow rfl rfl

theorem Settled.own (hx : b.Settled x) (hb : b.Core) (hlt : x < b.graph.size) :
    (b.own stage role).Settled x := hx.grow hb hlt rfl rfl

theorem extends_own : b.Extends (b.own stage role) := (Extends.refl b).grow rfl rfl

@[simp] theorem size_own : (b.own stage role).graph.size = b.graph.size + 1 := Graph.size_add _

@[simp] theorem role?_own : (b.own stage role).graph.role? b.graph.size = some role :=
  Graph.role?_add_size _

theorem role?_own_lt (hx : x < b.graph.size) :
    (b.own stage role).graph.role? x = b.graph.role? x :=
  Graph.role?_add_lt hx

@[simp] theorem next?_own : (b.own stage role).graph.next? x = b.graph.next? x :=
  Graph.next?_add rfl x

theorem next?_own_size : (b.own stage role).graph.next? b.graph.size = none :=
  next?_own.trans Graph.next?_size

@[simp] theorem hops_own : (b.own stage role).graph.hops x = b.graph.hops x :=
  Graph.hops_add rfl x

@[simp] theorem feeds_own : (b.own stage role).graph.Feeds = b.graph.Feeds :=
  Graph.feeds_add rfl rfl

theorem free_own (hb : b.Core) (y : SlotId) : ¬ (b.own stage role).graph.Feeds y b.graph.size :=
  hb.free_grow rfl rfl y

theorem sink_own (y : SlotId) : ¬ (b.own stage role).graph.Feeds b.graph.size y :=
  sink_grow rfl rfl y

theorem plain_own : ((b.own stage role).graph.capabilities b.graph.size).isSource = false :=
  congrArg Capabilities.isSource (Graph.capabilities_add_size _)

end Own

theorem Core.sound {b : Build σ ω} (hb : b.Core) (h : ∀ x, x < b.graph.size → b.Settled x) :
    b.Sound where
  core := hb
  settled x := by
    by_cases hx : x < b.graph.size
    · exact h x hx
    · have role : ∀ {r}, ¬ b.graph.role? x = some r := fun hr => hx (Graph.role?_lt hr)
      exact ⟨⟨fun hr => absurd hr role, fun hr => absurd hr role, fun hr => absurd hr role⟩,
        fun hm => absurd (hb.marked_lt hm) hx⟩

theorem lt_size_grow {b : Build σ ω} {p : Pool σ ω} {s : Slot} {x : SlotId} :
    x < (b.grow p s).graph.size ↔ x < b.graph.size ∨ x = b.graph.size := by
  rw [Build.grow, Graph.size_add, Nat.lt_succ_iff_lt_or_eq]

theorem Sound.grow {b : Build σ ω} (hb : b.Sound) {p : Pool σ ω} {s : Slot}
    (hr : s.role = .declared ∨ s.role = .cloned) (hn : s.next = none) (hh : s.hops = []) :
    (b.grow p s).Sound := by
  refine (hb.core.grow hn hh).sound fun x hx => ?_
  rcases lt_size_grow.1 hx with hx | rfl
  · exact (hb.settled x).grow hb.core hx hn hh
  · have role : (b.grow p s).graph.role? b.graph.size = some s.role := Graph.role?_add_size s
    refine ⟨⟨?_, ?_, ?_⟩, fun hm => absurd hm hb.core.unmarked_size⟩ <;>
      rw [role] <;> rcases hr with hr | hr <;> simp [hr]

theorem fits_grow {b : Build σ ω} (hb : b.Core) {p : Pool σ ω} {s : Slot}
    (hr : s.role = .declared ∨ s.role = .cloned) (hn : s.next = none) (hh : s.hops = []) :
    Fits b (b.grow p s)
      ⟨if s.capabilities.isSource then none else some b.graph.size, some b.graph.size⟩ where
  head := by
    intro h hf
    split at hf
    · cases hf
    · next hs =>
      obtain rfl := Option.some.inj hf
      refine headed_grow hb hn hh (Nat.le_refl _) ?_ (Bool.not_eq_true _ ▸ hs)
      rcases hr with hr | hr <;> simp [hr]
  tail := by
    intro t ht
    obtain rfl := Option.some.inj ht
    exact tailed_grow hb hn hh (Nat.le_refl _)
  through := by
    intro h t hf ht
    split at hf
    · cases hf
    · obtain rfl := Option.some.inj hf
      obtain rfl := Option.some.inj ht
      exact .refl
  fork _ ht := by cases ht
  empty _ ht := by cases ht

end Build

namespace Compile

open Build

variable {b₀ b₁ b : Build σ ω}

/-- A computation compiles something to a part with ends that fit. -/
def Compiles (b : Build σ ω) (x : Compile σ ω Fragment) : Prop :=
  wp x (fun f b' => Progress b b' ∧ Fits b b' f) (fun e b' => Progress b b' ∧ e.Consistent) b

section Primitive

variable {E : CompileError → Build σ ω → Prop}

@[simp] theorem wp_addHop {Q : Unit → Build σ ω → Prop} (fork hop : SlotId) :
    wp (addHop fork hop) Q E b ↔ Q () (b.wire fork .hop hop) := Iff.rfl

@[simp] theorem wp_remember {Q : Unit → Build σ ω → Prop} (key : TargetKey) (id : SlotId) :
    wp (remember key id) Q E b ↔ Q () (b.mark key id) := Iff.rfl

@[simp] theorem wp_insertCapabilities {Q : Unit → Build σ ω → Prop} (id : SlotId)
    (caps : Capabilities) :
    wp (modifyGraph fun g => g.insertCapabilities id caps) Q E b ↔ Q () (b.enable id caps) := Iff.rfl

theorem wp_link {Q : Unit → Build σ ω → Prop} {source : SlotId} (target : SlotId)
    (node : Descriptor) (h : b.graph.next? source = none) :
    wp (link source target node) Q E b ↔ Q () (b.wire source .next target) := by
  simp [link, Graph.link, h]; rfl

/-- A stage is linked unless another one follows it already. -/
theorem wp_link_of {Q : Unit → Build σ ω → Prop} {u v : SlotId} {node : Descriptor}
    (hQ : b.graph.next? u = none → Q () (b.wire u .next v)) (hE : ∀ e, E e b) :
    wp (link u v node) Q E b := by
  cases hn : b.graph.next? u with
  | none => exact (wp_link v node hn).2 (hQ hn)
  | some _ =>
    unfold link Graph.link
    simpa [hn] using hE _

variable [Stage σ ω]

@[simp] theorem wp_place {Q : SlotId → Build σ ω → Prop} (handle : Handle) (role : Role)
    (origin : Option StageOrigin) :
    wp (place handle role origin) Q E b ↔ Q b.graph.size (b.grow b.pool
      { handle, role, capabilities := b.pool.capabilities handle, origin }) := Iff.rfl

theorem capabilities_add (p : Pool σ ω) (stage : σ) :
    (p.add stage).2.capabilities (p.add stage).1 = Stage.capabilities stage := by
  simp [Pool.capabilities, Pool.stage?, Pool.add, Pool.addInstance]

@[simp] theorem wp_addMultiplexer {Q : SlotId → Build σ ω → Prop} :
    wp addMultiplexer Q E b ↔ Q b.graph.size (b.own Stage.multiplexer .multiplexer) := by
  have h := capabilities_add b.pool (Stage.multiplexer : σ)
  rw [Stage.capabilities_multiplexer] at h
  rw [own, ← h]; rfl

@[simp] theorem wp_addJoin {Q : SlotId → Build σ ω → Prop} :
    wp addJoin Q E b ↔ Q b.graph.size (b.own Stage.passThrough .join) := by
  have h := capabilities_add b.pool (Stage.passThrough : σ)
  rw [Stage.capabilities_passThrough] at h
  rw [own, ← h]; rfl

@[simp] theorem wp_addAttach {Q : SlotId → Build σ ω → Prop} :
    wp addAttach Q E b ↔ Q b.graph.size (b.own Stage.passThrough .attach) := by
  have h := capabilities_add b.pool (Stage.passThrough : σ)
  rw [Stage.capabilities_passThrough] at h
  rw [own, ← h]; rfl

end Primitive

variable [Stage σ ω]

/-! ### Single statements -/

/-- What a stage is put in place as: itself at its first use, a clone later. -/
inductive Claimed (p : Pool σ ω) (handle : Handle) : Handle × Role → Pool σ ω → Prop
  | declared (h : p.isInlined handle = false) :
    Claimed p handle (handle, .declared) (p.markInlined handle)
  | cloned {stage copy : σ} {shared : ω} (h : p.isInlined handle = true)
    (hs : p.stage? handle = some stage) (hc : Stage.clone stage p.shared = (some copy, shared)) :
    Claimed p handle (p.instances.size, .cloned)
      ((Pool.add { p with shared } copy).2.markInlined p.instances.size)

/-- What is left if a stage that sits in the graph has no clone. -/
inductive Refused (p : Pool σ ω) (handle : Handle) : Pool σ ω → Prop
  | absent (hs : p.stage? handle = none) : Refused p handle p
  | refused {stage : σ} {shared : ω} (hs : p.stage? handle = some stage)
    (hc : Stage.clone stage p.shared = (none, shared)) : Refused p handle { p with shared }

namespace Claimed

variable {p p' : Pool σ ω} {handle : Handle} {r : Handle × Role}

theorem role (h : Claimed p handle r p') : r.2 = .declared ∨ r.2 = .cloned := by
  cases h
  · exact .inl rfl
  · exact .inr rfl

theorem stage (h : Claimed p handle r p') :
    p'.stage? r.1 = p.stage? handle ∨ ∃ s copy shared shared', p.stage? handle = some s ∧
      p'.stage? r.1 = some copy ∧ Stage.clone s shared = (some copy, shared') := by
  cases h with
  | declared _ => exact .inl Pool.stage?_markInlined
  | @cloned s copy shared _ hs hc =>
    refine .inr ⟨s, copy, p.shared, shared, hs, ?_, hc⟩
    rw [Pool.stage?_markInlined, Pool.stage?_add]
    exact if_pos rfl

theorem grown (hlt : handle < p.instances.size) (h : Claimed p handle r p') : p.Grown p' := by
  cases h with
  | declared _ => exact .mark hlt
  | cloned _ hs hc =>
    refine (Pool.Grown.share _).trans (.trans .add (.mark ?_))
    rw [Pool.size_add]
    exact Nat.lt_succ_self _

end Claimed

theorem Refused.grown {p p' : Pool σ ω} {handle : Handle} (h : Refused p handle p') :
    p.Grown p' := by
  cases h with
  | absent => exact .share p.shared
  | refused => exact .share _

theorem wp_claim (handle : Handle) (node : Descriptor) :
    wp (claim handle node)
      (fun r b' => ∃ p, Claimed b.pool handle r p ∧ b' = { b with pool := p })
      (fun e b' => e = .cloneRefused node ∧ ∃ p, Refused b.pool handle p ∧ b' = { b with pool := p })
      b := by
  unfold claim
  simp only [wp_bind, wp_get, wp_ite]
  split
  · next hinlined =>
    simp only [cloneStage, Pool.clone, wp_bind, wp_get]
    cases hs : b.pool.stage? handle with
    | none => exact ⟨rfl, _, .absent hs, rfl⟩
    | some stage =>
      rcases hc : Stage.clone stage b.pool.shared with ⟨_ | copy, shared⟩
      · simp only [hc]
        exact ⟨rfl, _, .refused hs hc, rfl⟩
      · simp only [hc]
        exact ⟨_, .cloned hinlined hs hc, rfl⟩
  · next hinlined => exact ⟨_, .declared (by simpa using hinlined), rfl⟩

/-- A stage or a clone of it gets a place. A source has no head. -/
theorem wp_single {Q : Fragment → Build σ ω → Prop} {E : CompileError → Build σ ω → Prop}
    {h : Heading} {here : Option Location} {handle : Handle}
    (hplace : ∀ handle' role p, Claimed b.pool handle (handle', role) p →
      Q ⟨if (p.capabilities handle').isSource then none else some b.graph.size, some b.graph.size⟩
        (b.grow p
          { handle := handle', role, capabilities := p.capabilities handle',
            origin := some (originOf h here) }))
    (hrefuse : ∀ p, Refused b.pool handle p →
      E (.cloneRefused (h.describe here)) { b with pool := p }) :
    wp (single h here (.stage handle)) Q E b := by
  unfold single
  simp only [wp_bind, wp_place, wp_graph, wp_pure]
  refine wp_mono (wp_claim handle _) ?_ ?_
  · rintro ⟨handle', role⟩ _ ⟨p, hr, rfl⟩
    simp only [Build.grow, Graph.capabilities_add_size]
    exact hplace handle' role p hr
  · rintro e _ ⟨rfl, p, hr, rfl⟩
    exact hrefuse p hr

theorem compiles_single (hb : b.Sound) (h : Heading) (here : Option Location) (o : Object) :
    Compiles b (single h here o) := by
  cases o with
  | empty => exact ⟨.refl hb, trivial⟩
  | target serial s => exact ⟨.refl hb, trivial⟩
  | stage handle =>
    refine wp_single (fun handle' role p hr => ?_) fun p _ => ⟨(Progress.refl hb).pool, trivial⟩
    have hr := hr.role
    exact ⟨⟨hb.grow hr rfl rfl, (Extends.refl b).grow rfl rfl⟩, fits_grow hb.core hr rfl rfl⟩

end Compile

end Routing
