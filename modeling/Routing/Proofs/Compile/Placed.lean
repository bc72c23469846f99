import Routing.Proofs.Compile.Stable
import Routing.Proofs.Stage.Pool
/-!
# Stages in their places

Each slot holds a stage of its own. A stage of a statement that sits in a slot is marked, so that a
second place gets a clone, and clones and stages of the compiler are new.
-/

namespace Routing

variable {σ ω : Type} [Stage σ ω]

namespace Build

/-- What holds of slots and their stages; the first `n` stages are the ones of statements. -/
structure Placed (n : Nat) (b : Build σ ω) : Prop where
  bound : n ≤ b.pool.instances.size
  handle_lt : ∀ {x s}, b.graph.slot? x = some s → s.handle < b.pool.instances.size
  inlined : ∀ {x s}, b.graph.slot? x = some s → s.handle < n → b.pool.isInlined s.handle = true
  distinct : ∀ {x y s t}, b.graph.slot? x = some s → b.graph.slot? y = some t →
    s.handle = t.handle → x = y
  /-- A slot says whether its stage is a source as the stage does. -/
  source : ∀ {x s}, b.graph.slot? x = some s →
    s.capabilities.isSource = (b.pool.capabilities s.handle).isSource
  idle : ∀ {x s}, b.graph.slot? x = some s → s.initialized = false

namespace Placed

variable {n : Nat} {b : Build σ ω} {p : Pool σ ω}

theorem pool (hb : Placed n b) (hp : b.pool.Grown p) : Placed n { b with pool := p } where
  bound := Nat.le_trans hb.bound hp.size_le
  handle_lt hs := Nat.lt_of_lt_of_le (hb.handle_lt hs) hp.size_le
  inlined hs hlt := hp.inlined (hb.inlined hs hlt)
  distinct := hb.distinct
  source hs := by rw [hp.capabilities (hb.handle_lt hs)]; exact hb.source hs
  idle := hb.idle

theorem grow (hb : Placed n b) {s : Slot} (hlt : s.handle < b.pool.instances.size)
    (hi : s.handle < n → b.pool.isInlined s.handle = true)
    (hd : ∀ x t, b.graph.slot? x = some t → t.handle ≠ s.handle)
    (hs : s.capabilities = b.pool.capabilities s.handle) (hn : s.initialized = false) :
    Placed n (b.grow b.pool s) := by
  have slot : ∀ {x t}, (b.grow b.pool s).graph.slot? x = some t →
      x = b.graph.size ∧ s = t ∨ b.graph.slot? x = some t := by
    intro x t ht
    rw [Build.grow, Graph.slot?_add] at ht
    split at ht
    · exact .inl ⟨by assumption, Option.some.inj ht⟩
    · exact .inr ht
  refine ⟨hb.bound, fun ht => ?_, fun ht hlt' => ?_, fun {x y t t'} hx hy heq => ?_, fun ht => ?_,
    fun ht => ?_⟩
  · rcases slot ht with ⟨-, rfl⟩ | ht
    · exact hlt
    · exact hb.handle_lt ht
  · rcases slot ht with ⟨-, rfl⟩ | ht
    · exact hi hlt'
    · exact hb.inlined ht hlt'
  · rcases slot hx with ⟨hx, ht⟩ | hx <;> rcases slot hy with ⟨hy, ht'⟩ | hy
    · exact hx.trans hy.symm
    · exact absurd (heq.symm.trans (congrArg Slot.handle ht.symm)) (hd _ _ hy)
    · exact absurd (heq.trans (congrArg Slot.handle ht'.symm)) (hd _ _ hx)
    · exact hb.distinct hx hy heq
  · rcases slot ht with ⟨-, rfl⟩ | ht
    · rw [hs]; rfl
    · exact hb.source ht
  · rcases slot ht with ⟨-, rfl⟩ | ht
    · exact hn
    · exact hb.idle ht

theorem add (hb : Placed n b) {stage : σ} {role : Role} {caps : Capabilities}
    (hc : caps = Stage.capabilities stage) :
    Placed n (b.grow (b.pool.add stage).2
      { handle := b.pool.instances.size, role, capabilities := caps }) := by
  refine (hb.pool Pool.Grown.add).grow ?_ (fun hlt => ?_) (fun x t ht => ?_) ?_ rfl
  · rw [Pool.size_add]; exact Nat.lt_succ_self _
  · exact absurd hb.bound (Nat.not_le.2 hlt)
  · exact Nat.ne_of_lt (hb.handle_lt ht)
  · rw [hc]; exact Pool.capabilities_add_size.symm

theorem modify (hb : Placed n b) {u : SlotId} {f : Slot → Slot}
    (hf : ∀ s, (f s).handle = s.handle ∧ (f s).initialized = s.initialized ∧
      (f s).capabilities.isSource = s.capabilities.isSource) :
    Placed n { b with graph := b.graph.modify u f } := by
  have slot : ∀ {x t}, (b.graph.modify u f).slot? x = some t → ∃ s, b.graph.slot? x = some s ∧
      t.handle = s.handle ∧ t.initialized = s.initialized ∧
        t.capabilities.isSource = s.capabilities.isSource := by
    intro x t ht
    rw [Graph.slot?_modify] at ht
    split at ht
    · obtain ⟨s, hs, rfl⟩ := Option.map_eq_some_iff.1 ht
      exact ⟨s, hs, hf s⟩
    · exact ⟨t, ht, rfl, rfl, rfl⟩
  refine ⟨hb.bound, fun ht => ?_, fun ht hlt => ?_, fun hx hy heq => ?_, fun ht => ?_, fun ht => ?_⟩
  · obtain ⟨s, hs, hh, -, -⟩ := slot ht
    rw [hh]; exact hb.handle_lt hs
  · obtain ⟨s, hs, hh, -, -⟩ := slot ht
    rw [hh] at hlt ⊢; exact hb.inlined hs hlt
  · obtain ⟨s, hs, hh, -, -⟩ := slot hx
    obtain ⟨s', hs', hh', -, -⟩ := slot hy
    exact hb.distinct hs hs' (hh.symm.trans (heq.trans hh'))
  · obtain ⟨s, hs, hh, -, hc⟩ := slot ht
    rw [hh, hc]; exact hb.source hs
  · obtain ⟨s, hs, -, hi, -⟩ := slot ht
    rw [hi]; exact hb.idle hs

/-- A stage gets the place that it, or a clone of it, is claimed for. -/
theorem claimed (hb : Placed n b) {handle : Handle} {r : Handle × Role} (hlt : handle < n)
    (hr : Compile.Claimed b.pool handle r p) (origin : Option StageOrigin) :
    Placed n (b.grow p
      { handle := r.1, role := r.2, capabilities := p.capabilities r.1, origin }) := by
  cases hr with
  | declared hi =>
    have hlt' := Nat.lt_of_lt_of_le hlt hb.bound
    refine (hb.pool (Pool.Grown.mark hlt')).grow ?_ (fun _ => ?_) (fun x t ht heq => ?_) rfl rfl
    · rw [Pool.size_markInlined]; exact hlt'
    · rw [Pool.isInlined_markInlined hlt', if_pos rfl]
    · have hh : t.handle = handle := heq
      have := hb.inlined ht (hh ▸ hlt)
      rw [hh, hi] at this; cases this
  | @cloned stage copy shared hi hs hc =>
    have hb' : Placed n { b with pool := { b.pool with shared } } := hb.pool (.share shared)
    have hsize : b.pool.instances.size < (Pool.add { b.pool with shared } copy).2.instances.size := by
      rw [Pool.size_add]; exact Nat.lt_succ_self _
    have hadd : b.pool.Grown (Pool.add { b.pool with shared } copy).2 :=
      (Pool.Grown.share shared).trans .add
    refine (hb.pool (hadd.trans (.mark hsize))).grow ?_ (fun _ => ?_) (fun x t ht => ?_) rfl rfl
    · rw [Pool.size_markInlined]; exact hsize
    · rw [Pool.isInlined_markInlined hsize, if_pos rfl]
    · exact Nat.ne_of_lt (hb.handle_lt ht)

end Placed

/-- Compiling puts each stage in a place of its own. -/
theorem stable_placed (n : Nat) : Compile.Stable n (fun b : Build σ ω => Placed n b) where
  own hs hb := by
    refine hb.add ?_
    rcases hs with rfl | rfl
    · exact Stage.capabilities_multiplexer.symm
    · exact Stage.capabilities_passThrough.symm
  wire {b u k v} hb := by
    cases k with
    | next => exact hb.modify fun _ => ⟨rfl, rfl, rfl⟩
    | hop => exact hb.modify fun _ => ⟨rfl, rfl, rfl⟩
  enable hc hb := hb.modify fun s => ⟨rfl, rfl, by simp [Capabilities.union, hc]⟩
  mark hb := ⟨hb.bound, hb.handle_lt, hb.inlined, hb.distinct, hb.source, hb.idle⟩
  single {handle} h here hlt := by
    intro b hb
    refine Compile.wp_single (fun handle' role p hr => ?_) fun p hr => ?_
    · exact hb.claimed hlt hr _
    · cases hr with
      | absent _ => exact hb
      | refused _ _ => exact hb.pool (.share _)

theorem placed_of_empty {n : Nat} {b : Build σ ω} (hb : b.graph.size = 0)
    (hn : n ≤ b.pool.instances.size) : Placed n b := by
  have slot : ∀ {x s}, ¬ b.graph.slot? x = some s := fun h =>
    absurd (hb ▸ Graph.lt_of_slot h) (Nat.not_lt_zero _)
  exact ⟨hn, fun h => (slot h).elim, fun h => (slot h).elim, fun h => (slot h).elim,
    fun h => (slot h).elim, fun h => (slot h).elim⟩

end Build

end Routing
