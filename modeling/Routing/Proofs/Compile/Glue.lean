import Routing.Proofs.Compile.Junctions
import Routing.Proofs.Compile.Stable
/-!
# Joining parts

Children are added to a sequence or a junction by new edges between the ends of parts. What follows a
stage stays, and so do the hops of what follows a stage: only the fork of the junction gets hops, and
nothing leads to it yet.
-/

namespace Routing

variable {σ ω : Type}

namespace Build

/-- What stays of a state when parts are joined. -/
structure Glued (b b' : Build σ ω) : Prop where
  memos : b'.memos = b.memos
  role : ∀ {x r}, b.graph.role? x = some r → b'.graph.role? x = some r
  next : ∀ {x y}, b.graph.next? x = some y → b'.graph.next? x = some y
  hops : ∀ {x y}, b.graph.next? x = some y → b'.graph.hops y = b.graph.hops y
  /-- The forks to remembered destinations stay. -/
  forks : ∀ {x d}, b.Marked .destination d → d ∈ b.graph.hops x → b'.graph.hops x = b.graph.hops x
  into : ∀ {x d}, b.Marked .destination d → d ∈ b'.graph.hops x → d ∈ b.graph.hops x

theorem hops_size {b : Build σ ω} : b.graph.hops b.graph.size = [] := by
  simp [Graph.hops, Graph.slot?_eq_none.2 (Nat.le_refl b.graph.size)]

namespace Glued

variable {b b' : Build σ ω} {u v : SlotId} {stage : σ} {role : Role} {p : Pool σ ω}

theorem refl (b : Build σ ω) : Glued b b := ⟨rfl, id, id, fun _ => rfl, fun _ _ => rfl, fun _ => id⟩

theorem grow (h : Glued b b') {s : Slot} (hn : s.next = none) (hh : s.hops = []) :
    Glued b (b'.grow p s) where
  memos := h.memos
  role hr := by
    have hr := h.role hr
    rw [Build.grow, Graph.role?_add_lt (Graph.role?_lt hr), hr]
  next hx := by rw [Build.grow, Graph.next?_add hn, h.next hx]
  hops hx := by rw [Build.grow, Graph.hops_add hh, h.hops hx]
  forks hd hx := by rw [Build.grow, Graph.hops_add hh, h.forks hd hx]
  into hd hx := by
    rw [Build.grow, Graph.hops_add hh] at hx
    exact h.into hd hx

/-- A fork gets one more hop to which nothing leads, and which hops to no remembered destination. -/
theorem hop (h : Glued b b') (hu : ∀ x, b.graph.next? x ≠ some u)
    (hown : ∀ d ∈ b.graph.hops u, ¬ b.Marked .destination d) (hv : ¬ b.Marked .destination v) :
    Glued b (b'.wire u .hop v) where
  memos := h.memos
  role hr := by rw [role?_wire, h.role hr]
  next hx := by rw [next?_wire_hop, h.next hx]
  hops {x y} hx := by
    have hne : y ≠ u := by
      rintro rfl
      exact hu x hx
    rw [Build.wire, Graph.hops_wire_ne hne, h.hops hx]
  forks {x d} hd hx := by
    have hne : x ≠ u := by
      rintro rfl
      exact hown d hx hd
    rw [Build.wire, Graph.hops_wire_ne hne, h.forks hd hx]
  into hd hx := by
    rcases Graph.mem_hops_of_wire hx with hx | rfl
    · exact h.into hd hx
    · exact absurd hd hv

theorem follow (h : Glued b b') (hu : b'.graph.next? u = none) : Glued b (b'.wire u .next v) where
  memos := h.memos
  role hr := by rw [role?_wire, h.role hr]
  next {x y} hx := by
    have hne : x ≠ u := by
      rintro rfl
      rw [h.next hx] at hu
      cases hu
    rw [Build.wire, Graph.next?_wire_ne hne, h.next hx]
  hops hx := by rw [Build.wire, Graph.hops_wire_next, h.hops hx]
  forks hd hx := by rw [Build.wire, Graph.hops_wire_next, h.forks hd hx]
  into hd hx := by
    rw [Build.wire, Graph.hops_wire_next] at hx
    exact h.into hd hx

theorem enable (h : Glued b b') {caps : Capabilities} : Glued b (b'.enable u caps) where
  memos := h.memos
  role hr := by rw [role?_enable, h.role hr]
  next hx := by rw [next?_enable, h.next hx]
  hops hx := by rw [Build.enable, Graph.hops_insertCapabilities, h.hops hx]
  forks hd hx := by rw [Build.enable, Graph.hops_insertCapabilities, h.forks hd hx]
  into hd hx := by
    rw [Build.enable, Graph.hops_insertCapabilities] at hx
    exact h.into hd hx

end Glued

end Build

namespace Compile

open Build

variable [Stage σ ω]

theorem linear_glued (b : Build σ ω) : Linear (Glued b) where
  join h := h.grow rfl rfl
  next hu h := h.follow hu
  enable _ h := h.enable

/-- The fork of a junction is new or nothing leads to it. -/
theorem Branching.glued_add {b : Build σ ω} (hb : b.Core) {j : Branching}
    (hj : ∀ f, j.fork = some f → (∀ x, ¬ b.graph.Feeds x f) ∧
      ∀ d ∈ b.graph.hops f, ¬ b.Marked .destination d) (node : Descriptor) {f : Fragment}
    (hf : ∀ h, f.head = some h → ¬ b.Marked .destination h) :
    wp (j.add node f) (fun _ b' => Glued b b') (fun _ b' => Glued b b') b := by
  have htail := fun (j : Branching) => (linear_glued b).branching_addTail j node f.tail
  unfold add
  rw [wp_bind]
  cases hhead : f.head with
  | none =>
    unfold addHead
    simp only [wp_ite, wp_throw, wp_pure]
    split
    · exact .refl b
    · exact htail _ b (.refl b)
  | some head =>
    have hhead := hf head hhead
    unfold addHead forkPoint
    rw [wp_ite]
    split
    · exact .refl b
    · cases hfork : j.fork with
      | none =>
        simp only [wp_bind, wp_addMultiplexer, wp_pure, wp_addHop, wp_graph]
        refine htail _ _ (((Glued.refl b).grow rfl rfl).hop (fun x hx => ?_) (fun d hd => ?_) hhead)
        · exact Nat.lt_irrefl _ (hb.target_lt (x := x) (k := .next) hx)
        · rw [hops_size] at hd
          cases hd
      | some f =>
        simp only [wp_bind, wp_pure, wp_addHop, wp_graph]
        obtain ⟨hfree, hown⟩ := hj f hfork
        refine htail _ _ ((Glued.refl b).hop (fun x hx => ?_) hown hhead)
        exact hfree x (Graph.HasEdge.feeds (k := .next) hx)

end Compile

end Routing
