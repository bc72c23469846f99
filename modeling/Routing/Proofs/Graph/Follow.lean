import Mathlib.Data.Fintype.Card
import Routing.Proofs.Graph.Edges
/-!
# Following stages

Without a cycle, following from stage to stage comes to an end before the stages run out.
-/

namespace Routing

namespace Graph

variable {g : Graph} {x y : SlotId}

theorem follow_of_last (h : g.next? x = none) (n : Nat) : g.follow n x = x := by
  cases n with
  | zero => rfl
  | succ n => rw [follow, h]

theorem terminal_of_last (h : g.next? x = none) : g.terminal x = x :=
  follow_of_last h g.size

theorem getD_terminal (tail : Option SlotId) (h : tail = none → g.next? x = none) :
    tail.getD (g.terminal x) = tail.getD x := by
  cases tail with
  | some t => rfl
  | none => exact terminal_of_last (h rfl)

theorem follow_succ (n : Nat) (x : SlotId) :
    g.follow (n + 1) x = (g.next? (g.follow n x)).getD (g.follow n x) := by
  induction n generalizing x with
  | zero => simp only [follow]; cases g.next? x <;> rfl
  | succ n ih =>
    cases h : g.next? x with
    | none => simp only [follow_of_last h, h]; rfl
    | some z =>
      have hz : ∀ m, g.follow (m + 1) x = g.follow m z := fun m => by rw [follow, h]
      rw [hz (n + 1), hz n]
      exact ih z

theorem next?_follow_of_le {m n : Nat} (hmn : m ≤ n) (h : g.next? (g.follow n x) ≠ none) :
    g.next? (g.follow m x) = some (g.follow (m + 1) x) := by
  cases hm : g.next? (g.follow m x) with
  | some z => rw [follow_succ, hm]; rfl
  | none =>
    refine absurd ?_ h
    induction hmn with
    | refl => exact hm
    | step _ ih =>
      rw [follow_succ]
      have hn := ih fun hn => h (by rw [follow_succ, hn]; exact hn)
      rw [hn]; exact hn

theorem transGen_follow {i j n : Nat} (hij : i < j) (hj : j ≤ n)
    (h : g.next? (g.follow n x) ≠ none) :
    Relation.TransGen g.Feeds (g.follow i x) (g.follow j x) := by
  induction j, hij using Nat.le_induction with
  | base => exact .single ⟨.next, next?_follow_of_le (Nat.le_of_succ_le hj) h⟩
  | succ j _ ih =>
    exact (ih (Nat.le_of_succ_le hj)).tail ⟨.next, next?_follow_of_le (Nat.le_of_succ_le hj) h⟩

/-- Following ends in a stage that no other follows. -/
theorem Acyclic.next?_terminal (hg : g.Acyclic) (x : SlotId) : g.next? (g.terminal x) = none := by
  by_contra h
  -- Otherwise there are more stages on the walk than in the graph.
  have hlt : ∀ i, i ≤ g.size → g.follow i x < g.size := fun i hi =>
    HasEdge.source_lt (k := .next) (next?_follow_of_le hi h)
  let walk : Fin (g.size + 1) → Fin g.size := fun i =>
    ⟨g.follow i x, hlt i (Nat.le_of_lt_succ i.isLt)⟩
  have hwalk : Function.Injective walk := by
    intro i j hij
    have hij : g.follow i x = g.follow j x := congrArg Fin.val hij
    rcases Nat.lt_trichotomy i j with hlt | heq | hlt
    · have := transGen_follow hlt (Nat.le_of_lt_succ j.isLt) h
      exact absurd (hij ▸ this) (hg _)
    · exact Fin.ext heq
    · have := transGen_follow hlt (Nat.le_of_lt_succ i.isLt) h
      exact absurd (hij ▸ this) (hg _)
  have hcard := Fintype.card_le_of_injective walk hwalk
  rw [Fintype.card_fin, Fintype.card_fin] at hcard
  exact Nat.not_succ_le_self _ hcard

end Graph

end Routing
