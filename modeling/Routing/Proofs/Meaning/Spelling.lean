import Routing.Proofs.Compile.Placed
import Routing.Proofs.Graph.Walks
import Routing.Proofs.Meaning.Trees
import Routing.Stage.Builtin
/-!
# Spelling out a graph

A `Spelling` gives each stage a word: a clone has the word of its original, and the stages of the
compiler are silent. So each slot has a word, and each slot has the words of the walks to it.
-/

namespace Routing

variable {σ ω : Type} [Stage σ ω] {α : Type}

/-- Words of stages. -/
structure Spelling (σ : Type) {ω : Type} [Stage σ ω] (α : Type) where
  spell : σ → List α
  spell_clone : ∀ {s copy : σ} {shared shared' : ω},
    Stage.clone s shared = (some copy, shared') → spell copy = spell s
  /-- A clone is a source if its original is one. -/
  source_clone : ∀ {s copy : σ} {shared shared' : ω},
    Stage.clone s shared = (some copy, shared') →
      (Stage.capabilities copy).isSource = (Stage.capabilities s).isSource
  multiplexer : spell Stage.multiplexer = []
  passThrough : spell Stage.passThrough = []

/-- The stages of the library by their labels. -/
def Builtin.spelling : Spelling Builtin String where
  spell
    | .multiplexer => []
    | .passThrough => []
    | s => [s.label]
  spell_clone h := by
    rcases Builtin.clone_eq h with rfl | ⟨c, rfl, rfl⟩ <;> rfl
  source_clone h := by
    rcases Builtin.clone_eq h with rfl | ⟨c, rfl, rfl⟩ <;> rfl
  multiplexer := rfl
  passThrough := rfl

variable (S : Spelling σ α)

namespace Pool

/-- The word of the stage of a handle. -/
def spell (p : Pool σ ω) (h : Handle) : List α :=
  ((p.stage? h).map S.spell).getD []

/-- What is known of the stages in a pool. -/
def alphabet (p : Pool σ ω) : Alphabet α where
  word := p.spell S
  source h := (p.capabilities h).isSource

variable {S} {p p' : Pool σ ω} {h : Handle}

theorem Grown.spell (hp : Grown p p') (hlt : h < p.instances.size) : p'.spell S h = p.spell S h := by
  simp only [Pool.spell, hp.stage hlt]

theorem Grown.word (hp : Grown p p') (hlt : h < p.instances.size) :
    (p'.alphabet S).word h = (p.alphabet S).word h :=
  hp.spell hlt

theorem Grown.source (hp : Grown p p') (hlt : h < p.instances.size) :
    (p'.alphabet S).source h = (p.alphabet S).source h :=
  congrArg Capabilities.isSource (hp.capabilities hlt)

end Pool

namespace Compile.Claimed

variable {S} {p p' : Pool σ ω} {handle : Handle} {r : Handle × Role}

theorem spell (h : Claimed p handle r p') : p'.spell S r.1 = p.spell S handle := by
  rcases h.stage with heq | ⟨s, copy, _, _, hs, hcopy, hc⟩
  · simp only [Pool.spell, heq]
  · simp only [Pool.spell, hs, hcopy]
    exact S.spell_clone hc

theorem source (S : Spelling σ α) (h : Claimed p handle r p') :
    (p'.capabilities r.1).isSource = (p.capabilities handle).isSource := by
  rcases h.stage with heq | ⟨s, copy, _, _, hs, hcopy, hc⟩
  · simp only [Pool.capabilities, heq]
  · rw [Pool.capabilities_eq hs, Pool.capabilities_eq hcopy]
    exact S.source_clone hc

end Compile.Claimed

namespace Build

/-- The word of the stage in a slot. -/
def spelled (b : Build σ ω) (x : SlotId) : List α :=
  ((b.graph.slot? x).map fun s => b.pool.spell S s.handle).getD []

/-- The words of the walks to a slot. -/
def words (b : Build σ ω) (x : SlotId) : Words α :=
  b.graph.words (b.spelled S) x

/-- What holds of pools and slots: the pool has grown from an earlier one, and the stages of the
compiler are silent. -/
structure Steady (n : Nat) (p : Pool σ ω) (b : Build σ ω) : Prop extends Placed n b where
  grown : p.Grown b.pool
  silent : ∀ {x r}, b.graph.role? x = some r → r ≠ .declared → r ≠ .cloned → b.spelled S x = []

variable {S} {n : Nat} {p : Pool σ ω} {b b' : Build σ ω} {x : SlotId}

theorem Steady.spelled_old (hb : Steady S n p b) (hp : b.pool.Grown b'.pool)
    (hx : (b'.graph.slot? x).map Slot.handle = (b.graph.slot? x).map Slot.handle) :
    b'.spelled S x = b.spelled S x := by
  have heq : ∀ b : Build σ ω, b.spelled S x =
      (((b.graph.slot? x).map Slot.handle).map (b.pool.spell S)).getD [] := by
    intro b
    simp only [spelled, Option.map_map]
    rfl
  rw [heq, heq, hx]
  cases hs : b.graph.slot? x with
  | none => rfl
  | some s => exact hp.spell (hb.handle_lt hs)

theorem spelled_modify (b : Build σ ω) (u : SlotId) {f : Slot → Slot}
    (hf : ∀ s, (f s).handle = s.handle) (x : SlotId) :
    spelled S { b with graph := b.graph.modify u f } x = b.spelled S x := by
  unfold spelled
  rw [Graph.slot?_modify]
  split
  · cases b.graph.slot? x with
    | none => rfl
    | some s => simp only [Option.map_some, hf]
  · rfl

@[simp] theorem spelled_wire {u v : SlotId} {k : EdgeKind} (x : SlotId) :
    (b.wire u k v).spelled S x = b.spelled S x := by
  cases k with
  | next => exact spelled_modify b u (f := fun s => { s with next := some v }) (fun _ => rfl) x
  | hop => exact spelled_modify b u (f := fun s => { s with hops := s.hops ++ [v] }) (fun _ => rfl) x

@[simp] theorem spelled_enable {u : SlotId} {caps : Capabilities} (x : SlotId) :
    (b.enable u caps).spelled S x = b.spelled S x :=
  spelled_modify b u (f := fun s => { s with capabilities := s.capabilities.union caps })
    (fun _ => rfl) x

theorem spelled_grow_size {s : Slot} :
    (b.grow p s).spelled S b.graph.size = p.spell S s.handle := by
  simp [spelled, grow, Graph.slot?_add]

theorem Steady.spelled_grow (hb : Steady S n p b) {p' : Pool σ ω} {s : Slot}
    (hp : b.pool.Grown p') (hx : x ≠ b.graph.size) : (b.grow p' s).spelled S x = b.spelled S x := by
  refine hb.spelled_old hp ?_
  rw [grow, Graph.slot?_add, if_neg hx]

theorem spelled_own_size {stage : σ} {role : Role} :
    (b.own stage role).spelled S b.graph.size = S.spell stage := by
  rw [own, spelled_grow_size, Pool.spell, Pool.stage?_add, if_pos rfl]
  rfl

namespace Steady

theorem refl (hb : Steady S n p b) : Steady S n b.pool b where
  toPlaced := hb.toPlaced
  grown := ⟨Nat.le_refl _, fun _ => rfl, id⟩
  silent := hb.silent

theorem grow (hb : Steady S n p b) {p' : Pool σ ω} {s : Slot} (hp : b.pool.Grown p')
    (hpl : Placed n (b.grow p' s))
    (hs : s.role = .declared ∨ s.role = .cloned ∨ p'.spell S s.handle = []) :
    Steady S n p (b.grow p' s) where
  toPlaced := hpl
  grown := hb.grown.trans hp
  silent {x r} hr hd hc := by
    by_cases hx : x = b.graph.size
    · subst hx
      rw [Build.grow, Graph.role?_add_size] at hr
      obtain rfl := Option.some.inj hr
      rw [spelled_grow_size]
      exact (hs.resolve_left hd).resolve_left hc
    · rw [hb.spelled_grow hp hx]
      refine hb.silent ?_ hd hc
      rw [Build.grow, Graph.role?, Graph.slot?_add, if_neg hx] at hr
      exact hr

end Steady

/-- Compiling keeps the words of slots. -/
theorem stable_steady (S : Spelling σ α) (n : Nat) (p : Pool σ ω) :
    Compile.Stable n fun b : Build σ ω => Steady S n p b where
  own {b stage role} hs hb := by
    refine hb.grow .add ((stable_placed n).own hs hb.toPlaced) (.inr (.inr ?_))
    rw [Pool.spell, Pool.stage?_add, if_pos rfl]
    rcases hs with rfl | rfl
    · exact S.multiplexer
    · exact S.passThrough
  wire {b u k v} hb :=
    { toPlaced := (stable_placed n).wire hb.toPlaced
      grown := by cases k <;> exact hb.grown
      silent := fun hr hd hc => by
        rw [spelled_wire]
        exact hb.silent (role?_wire.symm.trans hr) hd hc }
  enable {b u caps} hc hb :=
    { toPlaced := (stable_placed n).enable hc hb.toPlaced
      grown := hb.grown
      silent := fun hr hd hc => by
        rw [spelled_enable]
        exact hb.silent (role?_enable.symm.trans hr) hd hc }
  mark {b key id} hb := ⟨(stable_placed n).mark hb.toPlaced, hb.grown, hb.silent⟩
  single {handle} h here hlt := by
    intro b hb
    have hplaced := (stable_placed n).single h here hlt b hb.toPlaced
    have hlt' := Nat.lt_of_lt_of_le hlt hb.bound
    unfold Compile.single at hplaced ⊢
    simp only [Compile.wp_bind, Compile.wp_place, Compile.wp_graph, Compile.wp_pure] at hplaced ⊢
    refine Compile.wp_mono (Compile.wp_and (Compile.wp_claim handle _) hplaced) ?_ ?_
    · rintro ⟨handle, role⟩ _ ⟨⟨p, hr, rfl⟩, hpl⟩
      refine hb.grow (hr.grown hlt') hpl ?_
      rcases hr.role with hr | hr
      · exact .inl hr
      · exact .inr (.inl hr)
    · rintro e _ ⟨⟨-, p, hr, rfl⟩, hpl⟩
      cases hr with
      | absent _ => exact hb
      | refused _ _ =>
        refine ⟨hpl, hb.grown.trans (.share _), fun hr hd hc => ?_⟩
        exact (hb.spelled_old (.share _) rfl).trans (hb.silent hr hd hc)

end Build

end Routing
