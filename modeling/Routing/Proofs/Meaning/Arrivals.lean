import Mathlib.Algebra.BigOperators.Group.Finset.Basic
import Routing.Proofs.Meaning.Denotes
/-!
# What destinations receive

What slots deliver to a destination is what arrives at its remembered head, and nothing else does.
-/

namespace Routing

variable {σ ω α : Type}

namespace Words

variable {β : Type} [DecidableEq β] {A : Words α} {D D' : Multiset (List α × β)} {M : Multiset β}
  {key : β}

/-- The words with a mark. -/
def marked (key : β) (D : Multiset (List α × β)) : Words α :=
  (D.filter (·.2 = key)).map Prod.fst

theorem marked_add : marked key (D + D') = marked key D + marked key D' := by
  simp [marked, Multiset.filter_add]

theorem marked_sum {ι : Type} (s : Finset ι) (f : ι → Multiset (List α × β)) :
    marked key (∑ i ∈ s, f i) = ∑ i ∈ s, marked key (f i) := by
  classical
  induction s using Finset.induction_on with
  | empty => simp [marked]
  | insert i s hi ih => rw [Finset.sum_insert hi, Finset.sum_insert hi, marked_add, ih]

theorem marked_product : marked key (A ×ˢ M) = M.count key • A := by
  induction M using Multiset.induction_on with
  | empty => simp [marked]
  | cons k M ih =>
    rw [Multiset.product_cons, marked_add, ih, Multiset.count_cons, add_nsmul, add_comm]
    congr 1
    by_cases hk : key = k
    · rw [if_pos hk, one_nsmul]
      simp [marked, hk, Multiset.filter_map]
    · have hne : k ≠ key := fun h => hk h.symm
      simp [marked, hk, hne, Multiset.filter_map]

end Words

namespace Build

open Words

section

variable {b : Build σ ω} {key : TargetKey} {h x : SlotId}

theorem count_targetsAt (hkeys : (b.memos.map Prod.fst).Nodup)
    (hslots : (b.memos.map Prod.snd).Nodup) (hk : key.kind = .destination)
    (hm : (key, h) ∈ b.memos) : (b.targetsAt x).count key = if x = h then 1 else 0 := by
  split
  · next hx =>
    subst hx
    rw [targetsAt_of_mem hslots hk hm, Multiset.count_singleton_self]
  · next hx =>
    refine Multiset.count_eq_zero.2 fun hmem => hx ?_
    obtain ⟨⟨key', x'⟩, hm', rfl⟩ := List.mem_map.1 (Multiset.mem_coe.1 hmem)
    obtain ⟨hm', hx'⟩ := List.mem_filter.1 hm'
    have heq := List.inj_on_of_nodup_map hkeys hm' hm rfl
    cases heq
    exact (of_decide_eq_true hx').2.symm

theorem count_recipients (hkeys : (b.memos.map Prod.fst).Nodup)
    (hslots : (b.memos.map Prod.snd).Nodup) (hk : key.kind = .destination)
    (hm : (key, h) ∈ b.memos) : (b.recipients x).count key = (b.graph.hops x).count h := by
  rw [recipients, Multiset.count_bind]
  simp only [count_targetsAt hkeys hslots hk hm]
  induction b.graph.hops x with
  | nil => rfl
  | cons y ys ih =>
    rw [← Multiset.cons_coe, Multiset.map_cons, Multiset.sum_cons, ih, List.count_cons, add_comm]
    simp

/-- A remembered destination is entered by hops, so each stage counts as often as it hops there. -/
theorem count_feeders (hb : b.Core) (hm : b.Marked .destination h) :
    (b.graph.feeders h).count x = (b.graph.hops x).count h := by
  have hnodup : (b.graph.feeders h).Nodup := by
    refine Multiset.coe_nodup.2 ((Graph.nodup_entering hb.hops_nodup).map_on ?_)
    rintro ⟨x, y, k⟩ hin ⟨x', y', k'⟩ hin' hx
    obtain ⟨hy, he⟩ := Graph.mem_entering.1 hin
    obtain ⟨hy', he'⟩ := Graph.mem_entering.1 hin'
    dsimp only at hx hy hy' he he'
    subst hx hy hy'
    rw [hb.marked_hop hm he, hb.marked_hop hm he']
  by_cases hx : h ∈ b.graph.hops x
  · have hfeeds : x ∈ b.graph.feeders h := Graph.mem_feeders.2 ⟨.hop, hx⟩
    rw [Multiset.count_eq_one_of_mem hnodup hfeeds,
      List.count_eq_one_of_mem (hb.hops_nodup x) hx]
  · rw [List.count_eq_zero.2 hx, Multiset.count_eq_zero]
    intro hfeeds
    obtain ⟨k, he⟩ := Graph.mem_feeders.1 hfeeds
    obtain rfl := hb.marked_hop hm he
    exact hx he

end

variable [Stage σ ω] (S : Spelling σ α)

/-- The words with which messages arrive at a destination. -/
def arriving (b : Build σ ω) (key : TargetKey) : Words α :=
  match b.memos.lookup key with
  | none => 0
  | some h => (b.graph.feeders h).bind (b.words S)

variable {S} {b : Build σ ω} {key : TargetKey} {known : TargetKey → Meaning α}

/-- What arrives at a destination is what is delivered to it. -/
theorem Told.arriving_eq (hb : b.Told S known) (hc : b.Core) (hk : key.kind = .destination) :
    b.arriving S key = marked key (b.delivered S 0 b.graph.size) := by
  simp only [arriving, delivered, marked_sum, marked_product]
  split
  · next hnone =>
    refine (Finset.sum_eq_zero fun x _ => ?_).symm
    rw [Multiset.count_eq_zero.2, zero_nsmul]
    intro hmem
    obtain ⟨d, -, hmem⟩ := Multiset.mem_bind.1 hmem
    obtain ⟨⟨key', d'⟩, hm, rfl⟩ := List.mem_map.1 (Multiset.mem_coe.1 hmem)
    have hne := List.lookup_eq_none_iff.1 hnone _ (List.mem_filter.1 hm).1
    simp at hne
  · next h hsome =>
    have hm : (key, h) ∈ b.memos := Compile.mem_of_lookup hsome
    calc (b.graph.feeders h).bind (b.words S)
        = ∑ x ∈ (b.graph.feeders h).toFinset, (b.graph.feeders h).count x • b.words S x :=
          (congrArg _ rfl).trans (Finset.sum_multiset_map_count (b.graph.feeders h) (b.words S))
      _ = ∑ x ∈ Finset.Ico 0 b.graph.size, (b.graph.feeders h).count x • b.words S x := by
          refine Finset.sum_subset (fun x hx => ?_) fun x _ hx => ?_
          · have hfeeds := Graph.mem_feeders.1 (Multiset.mem_toFinset.1 hx)
            exact Finset.mem_Ico.2 ⟨Nat.zero_le _, hfeeds.source_lt⟩
          · rw [Multiset.count_eq_zero.2 fun h => hx (Multiset.mem_toFinset.2 h), zero_nsmul]
      _ = ∑ x ∈ Finset.Ico 0 b.graph.size, (b.recipients x).count key • b.words S x := by
          refine Finset.sum_congr rfl fun x _ => ?_
          rw [count_feeders hc ⟨key, hk, hm⟩, count_recipients hb.keys hb.slots hk hm]

end Build

end Routing
