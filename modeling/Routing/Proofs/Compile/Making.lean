import Routing.Proofs.Compile.Stable
/-!
# Sequences and junctions in the making

How a part is added to a sequence or a junction in the making, case by case, and what this changes:
the head and the fork, the ends, and what is noted of the capabilities of the heads of children. Edges
and the stages of the compiler leave the capabilities of slots as they are.
-/

namespace Routing

variable {σ ω : Type}

namespace Build

/-- The capabilities of the head of a part. -/
def atHead (b : Build σ ω) (f : Fragment) : Capabilities :=
  (f.head.map b.graph.capabilities).getD .none

variable {b : Build σ ω} {stage : σ} {role : Role} {x : SlotId}

@[simp] theorem capabilities_size : b.graph.capabilities b.graph.size = .none := by
  simp [Graph.capabilities, Graph.slot?_eq_none.2 (Nat.le_refl b.graph.size)]

@[simp] theorem capabilities_own :
    (b.own stage role).graph.capabilities x = b.graph.capabilities x := by
  by_cases hx : x = b.graph.size
  · subst hx
    rw [own, Build.grow, Graph.capabilities_add_size, capabilities_size]
  · simp [own, Build.grow, Graph.capabilities, Graph.slot?_add, hx]

/-- The slot is a multiplexer without capabilities. -/
def BareFork (b : Build σ ω) (x : SlotId) : Prop :=
  b.graph.role? x = some .multiplexer ∧ b.graph.capabilities x = .none

end Build

namespace Compile

open Build

theorem wired_bareFork [Stage σ ω] (x : SlotId) : Wired fun b : Build σ ω => b.BareFork x where
  own _ _ hb := ⟨by rw [role?_own_lt (Graph.role?_lt hb.1)]; exact hb.1, by
    rw [capabilities_own]; exact hb.2⟩
  wire hb := ⟨by rw [role?_wire]; exact hb.1, by rw [capabilities_wire]; exact hb.2⟩

/-! ### How parts are added -/

/-- The sequence after a part with a head was added at its end. -/
def Chain.advance (c : Chain) (b : Build σ ω) (head : SlotId) (tail : Option SlotId) : Chain :=
  { c with
    first := if c.last.isNone then some head else c.first
    last := some (tail.getD (b.graph.terminal head))
    pastSources := true
    changesMessage := c.changesMessage || (b.graph.capabilities head).changesMessage
    flowControl := c.flowControl || (b.graph.capabilities head).hardFlowControl }

/-- The ways to add a part to a sequence. -/
inductive Chain.Step [Stage σ ω] (b : Build σ ω) (c : Chain) :
    Fragment → Chain → Build σ ω → Prop
  | empty : Step b c ⟨none, none⟩ c b
  | firstSource {t : SlotId} (hpast : c.pastSources = false) (hjoin : c.join = none) :
    Step b c ⟨none, some t⟩ { c with join := some b.graph.size, last := some b.graph.size }
      ((b.own Stage.passThrough .join).wire t .next b.graph.size)
  | source {t x : SlotId} (hpast : c.pastSources = false) (hjoin : c.join = some x) :
    Step b c ⟨none, some t⟩ c (b.wire t .next x)
  | first {h : SlotId} {tail : Option SlotId} (hlast : c.last = none) :
    Step b c ⟨some h, tail⟩ (c.advance b h tail) b
  | next {h l : SlotId} {tail : Option SlotId} (hlast : c.last = some l) :
    Step b c ⟨some h, tail⟩ (c.advance (b.wire l .next h) h tail) (b.wire l .next h)

/-- The ways to add the head of a branch to a junction. -/
inductive Branching.HeadStep [Stage σ ω] (b : Build σ ω) (j : Branching) :
    Option SlotId → Branching → Build σ ω → Prop
  | headless (hfork : j.fork = none) : HeadStep b j none { j with headless := true } b
  | first {h : SlotId} (hfork : j.fork = none) :
    HeadStep b j (some h)
      { j with
        fork := some b.graph.size
        flowControl := j.flowControl || (b.graph.capabilities h).hardFlowControl }
      ((b.own Stage.multiplexer .multiplexer).wire b.graph.size .hop h)
  | hop {h x : SlotId} (hfork : j.fork = some x) :
    HeadStep b j (some h)
      { j with flowControl := j.flowControl || (b.graph.capabilities h).hardFlowControl }
      (b.wire x .hop h)

/-- The ways to add the tail of a branch to a junction. -/
inductive Branching.TailStep [Stage σ ω] (b : Build σ ω) (j : Branching) :
    Option SlotId → Branching → Build σ ω → Prop
  | absent : TailStep b j none j b
  | first {t : SlotId} (hjoin : j.join = none) :
    TailStep b j (some t) { j with join := some b.graph.size }
      ((b.own Stage.passThrough .join).wire t .next b.graph.size)
  | join {t x : SlotId} (hjoin : j.join = some x) : TailStep b j (some t) j (b.wire t .next x)

variable [Stage σ ω] {b b' : Build σ ω} {c c' : Chain} {j j' : Branching} {f : Fragment}
  {head tail : Option SlotId}

/-- What is left if a part cannot be added: at most a join that nothing leads to. -/
def Stuck (b b' : Build σ ω) : Prop :=
  b' = b ∨ b' = b.own Stage.passThrough .join

theorem Chain.wp_step (node : Descriptor) (f : Fragment) :
    wp (c.add node f) (fun c' b' => c.Step b f c' b') (fun _ b' => Stuck b b') b := by
  obtain ⟨_ | h, tail⟩ := f
  · cases tail with
    | none => exact .empty
    | some t =>
      unfold add addSource joinPoint
      rw [wp_ite]
      split
      · exact .inl rfl
      · next hpast =>
        have hpast : c.pastSources = false := by simpa using hpast
        rw [wp_bind]
        cases hjoin : c.join with
        | some x =>
          simp only [wp_pure, wp_bind]
          exact wp_link_of (fun _ => .source hpast hjoin) fun _ => .inl rfl
        | none =>
          simp only [wp_bind, wp_addJoin, wp_pure]
          exact wp_link_of (fun _ => .firstSource hpast hjoin) fun _ => .inr rfl
  · unfold add addStage
    cases hlast : c.last with
    | none =>
      have hstep : c.Step b ⟨some h, tail⟩ (c.advance b h tail) b := .first hlast
      unfold advance at hstep
      rw [hlast] at hstep
      exact hstep
    | some l =>
      simp only [wp_bind, wp_graph, wp_pure]
      refine wp_link_of (fun _ => ?_) fun _ => .inl rfl
      have hstep : c.Step b ⟨some h, tail⟩ (c.advance (b.wire l .next h) h tail)
          (b.wire l .next h) := .next hlast
      unfold advance at hstep
      rw [hlast, capabilities_wire] at hstep
      exact hstep

theorem Branching.wp_headStep (node : Descriptor) (head : Option SlotId) :
    wp (j.addHead node head) (fun j' b' => j.HeadStep b head j' b') (fun _ b' => b' = b) b := by
  unfold addHead
  cases head with
  | none =>
    rw [wp_ite]
    split
    · rfl
    · next hfork => exact .headless (by simpa using hfork)
  | some h =>
    rw [wp_ite]
    split
    · rfl
    · unfold forkPoint
      rw [wp_bind]
      cases hfork : j.fork with
      | some x =>
        simp only [wp_pure, wp_bind, wp_addHop, wp_graph, capabilities_wire]
        exact .hop hfork
      | none =>
        simp only [wp_bind, wp_addMultiplexer, wp_pure, wp_addHop, wp_graph, capabilities_wire,
          capabilities_own]
        exact .first hfork

theorem Branching.wp_tailStep (node : Descriptor) (tail : Option SlotId) :
    wp (j.addTail node tail) (fun j' b' => j.TailStep b tail j' b') (fun _ b' => Stuck b b') b := by
  cases tail with
  | none => exact .absent
  | some t =>
    unfold addTail joinPoint
    rw [wp_bind]
    cases hjoin : j.join with
    | some x =>
      simp only [wp_pure, wp_bind]
      exact wp_link_of (fun _ => .join hjoin) fun _ => .inl rfl
    | none =>
      simp only [wp_bind, wp_addJoin, wp_pure]
      exact wp_link_of (fun _ => .first hjoin) fun _ => .inr rfl

/-! ### What is noted of parts -/

/-- What a child changes of a sequence. -/
structure Chain.Added (b : Build σ ω) (c : Chain) (f : Fragment) (c' : Chain) : Prop where
  first : c'.first = if c.last.isNone && f.head.isSome then f.head else c.first
  last : (c.pastSources = false → c.last = c.join) →
    c'.last.isSome = (c.last.isSome || !f.isEmpty)
  changesMessage : c'.changesMessage = (c.changesMessage || (b.atHead f).changesMessage)
  flowControl : c'.flowControl = (c.flowControl || (b.atHead f).hardFlowControl)

/-- What a branch changes of a junction. -/
structure Branching.Added (b : Build σ ω) (j : Branching) (f : Fragment) (j' : Branching)
    (b' : Build σ ω) : Prop where
  fork : ∀ {x}, j'.fork = some x → j.fork = some x ∨ b'.BareFork x
  headed : f.head.isSome = true → j'.fork.isSome = true
  headless : f.head = none → j.fork = none ∧ j'.fork = none
  join : j'.join.isSome = (j.join.isSome || f.tail.isSome)
  flowControl : j'.flowControl = (j.flowControl || (b.atHead f).hardFlowControl)

theorem Chain.Step.added (h : c.Step b f c' b') : c.Added b f c' := by
  cases h with
  | empty => exact ⟨by simp, fun _ => by simp [Fragment.isEmpty], by simp [atHead, Capabilities.none],
      by simp [atHead, Capabilities.none]⟩
  | firstSource => exact ⟨by simp, fun _ => by simp [Fragment.isEmpty],
      by simp [atHead, Capabilities.none], by simp [atHead, Capabilities.none]⟩
  | source hpast hjoin =>
    refine ⟨by simp, fun hearly => ?_, by simp [atHead, Capabilities.none],
      by simp [atHead, Capabilities.none]⟩
    simp [hearly hpast, hjoin]
  | first hlast => exact ⟨by simp [advance], fun _ => by simp [advance, Fragment.isEmpty], rfl, rfl⟩
  | next hlast =>
    refine ⟨by simp [advance], fun _ => by simp [advance, Fragment.isEmpty], ?_, ?_⟩
    · simp [advance, atHead]
    · simp [advance, atHead]

theorem Branching.HeadStep.added (h : j.HeadStep b head j' b') : j.Added b ⟨head, none⟩ j' b' := by
  cases h with
  | headless hfork =>
    exact ⟨fun h => .inl h, fun h => (by cases h), fun _ => ⟨hfork, hfork⟩, by simp,
      by simp [atHead, Capabilities.none]⟩
  | first hfork =>
    refine ⟨fun h => ?_, fun _ => rfl, fun h => (by cases h), by simp, rfl⟩
    cases h
    exact .inr ((wired_bareFork _).wire ⟨role?_own, Graph.capabilities_add_size _⟩)
  | hop hfork => exact ⟨fun h => .inl h, fun _ => by simp [hfork], fun h => (by cases h), by simp, rfl⟩

/-- The tail of a branch leaves all but the join. -/
theorem Branching.TailStep.added {j₁ : Branching} {b₁ : Build σ ω}
    (h₁ : j.Added b ⟨head, none⟩ j₁ b₁) (h : j₁.TailStep b₁ tail j' b') :
    j.Added b ⟨head, tail⟩ j' b' := by
  cases h with
  | absent => exact ⟨h₁.fork, h₁.headed, h₁.headless, h₁.join, h₁.flowControl⟩
  | first _ =>
    refine ⟨fun hx => (h₁.fork hx).imp_right fun hx => ?_, h₁.headed, h₁.headless, by simp,
      h₁.flowControl⟩
    exact (wired_bareFork _).wire ((wired_bareFork _).own (.inr rfl) (by simp) hx)
  | join hx => exact ⟨fun hx => (h₁.fork hx).imp_right (wired_bareFork _).wire, h₁.headed, h₁.headless,
      by simp [hx], h₁.flowControl⟩

theorem Chain.wp_added (node : Descriptor) (f : Fragment) :
    wp (c.add node f) (fun c' _ => c.Added b f c') (fun _ _ => True) b :=
  wp_mono (wp_step node f) (fun _ _ h => h.added) fun _ _ _ => trivial

theorem Branching.wp_added (node : Descriptor) (f : Fragment) :
    wp (j.add node f) (fun j' b' => j.Added b f j' b') (fun _ _ => True) b := by
  unfold add
  rw [wp_bind]
  refine wp_mono (wp_headStep node f.head) (fun j₁ b₁ h₁ => ?_) fun _ _ _ => trivial
  exact wp_mono (wp_tailStep node f.tail) (fun _ _ h => h.added h₁.added) fun _ _ _ => trivial

end Compile

end Routing
