import Mathlib.Data.Finset.Card
import Routing.Proofs.Graph.Edges
import Routing.Proofs.Meaning.Words
/-!
# Walks and their words

A walk to a slot starts at a slot that nothing enters. In a graph without a cycle the walks to a slot
are those to the slots before it, each with one more step; so are the words that they spell, if each
slot has a word of its own. An edge from a slot to the head of a part puts the words of the one
before the words of the other, and leaves all words that are not below it.
-/

namespace Routing

namespace Graph

open Words

variable {g g' : Graph} {x y u v h r : SlotId} {k : EdgeKind} {α : Type} {ℓ ℓ' : SlotId → List α}

/-- The walks to a slot that have at most so many slots. -/
def walksUpTo (g : Graph) : Nat → SlotId → Multiset (List SlotId)
  | 0, _ => 0
  | n + 1, x =>
    if g.entering x = [] then {[x]}
    else ((g.entering x : Multiset Edge).bind fun e => g.walksUpTo n e.source).map (· ++ [x])

/-- The walks to a slot. -/
def walks (g : Graph) (x : SlotId) : Multiset (List SlotId) :=
  g.walksUpTo (g.size + 1) x

/-- The words that the walks to a slot spell. -/
def words (g : Graph) (ℓ : SlotId → List α) (x : SlotId) : Words α :=
  (g.walks x).map (·.flatMap ℓ)

/-- The slots whose edges enter a slot. -/
def feeders (g : Graph) (x : SlotId) : Multiset SlotId :=
  ((g.entering x).map (·.source) : List SlotId)

/-! ### Slots before a slot -/

theorem mem_feeders : y ∈ g.feeders x ↔ g.Feeds y x := by
  simp only [feeders, Multiset.mem_coe, List.mem_map, mem_entering]
  constructor
  · rintro ⟨e, ⟨rfl, he⟩, rfl⟩
    exact he.feeds
  · rintro ⟨k, hk⟩
    exact ⟨⟨y, x, k⟩, ⟨rfl, hk⟩, rfl⟩

theorem feeders_of_free (hx : ∀ y, ¬ g.Feeds y x) : g.feeders x = 0 :=
  Multiset.eq_zero_of_forall_notMem fun y hy => hx y (mem_feeders.1 hy)

theorem feeders_congr (hg : ∀ x, (g.hops x).Nodup) (hg' : ∀ x, (g'.hops x).Nodup)
    (h : ∀ y k, g'.HasEdge y k x ↔ g.HasEdge y k x) : g'.feeders x = g.feeders x := by
  have hperm : (g'.entering x).Perm (g.entering x) := by
    refine (List.perm_ext_iff_of_nodup (nodup_entering hg') (nodup_entering hg)).2 fun e => ?_
    rw [mem_entering, mem_entering]
    constructor
    · rintro ⟨rfl, he⟩
      exact ⟨rfl, (h _ _).1 he⟩
    · rintro ⟨rfl, he⟩
      exact ⟨rfl, (h _ _).2 he⟩
  exact Multiset.coe_eq_coe.2 (hperm.map _)

theorem feeders_wire (hg : ∀ x, (g.hops x).Nodup) (hu : u < g.size)
    (hn : k = .next → g.next? u = none) (hh : k = .hop → v ∉ g.hops u) (x : SlotId) :
    (g.wire u k v).feeders x = if x = v then u ::ₘ g.feeders x else g.feeders x := by
  have hg' : ∀ x, ((g.wire u k v).hops x).Nodup := by
    intro x
    cases k with
    | next => rw [hops_wire_next]; exact hg x
    | hop =>
      rw [hops_wire_hop hu]
      split
      · subst x
        simpa using List.Nodup.concat (hh rfl) (hg u)
      · exact hg x
  split
  · next heq =>
    subst heq
    have hnew : (⟨u, x, k⟩ : Edge) ∉ g.entering x := by
      rw [mem_entering]
      rintro ⟨-, he⟩
      cases k with
      | next => rw [hasEdge_next, hn rfl] at he; cases he
      | hop => exact hh rfl he
    have hperm : ((g.wire u k x).entering x).Perm (⟨u, x, k⟩ :: g.entering x) := by
      refine (List.perm_ext_iff_of_nodup (nodup_entering hg')
        (List.nodup_cons.2 ⟨hnew, nodup_entering hg⟩)).2 fun e => ?_
      rw [List.mem_cons, mem_entering, mem_entering, hasEdge_wire hu hn]
      obtain ⟨y, z, k'⟩ := e
      simp only [Edge.mk.injEq]
      constructor
      · rintro ⟨rfl, he | ⟨rfl, rfl, -⟩⟩
        · exact .inr ⟨rfl, he⟩
        · exact .inl ⟨rfl, rfl, rfl⟩
      · rintro (⟨rfl, rfl, rfl⟩ | ⟨rfl, he⟩)
        · exact ⟨rfl, .inr ⟨rfl, rfl, rfl⟩⟩
        · exact ⟨rfl, .inl he⟩
    exact Multiset.coe_eq_coe.2 (hperm.map _)
  · next hne =>
    refine feeders_congr hg hg' fun y k' => ?_
    rw [hasEdge_wire hu hn]
    exact ⟨fun he => he.resolve_right fun h => hne h.2.2, .inl⟩

/-! ### Induction along walks -/

section Rank

open Classical

/-- The number of slots before a slot. -/
noncomputable def rank (g : Graph) (x : SlotId) : Nat :=
  ((Finset.range g.size).filter fun y => Relation.TransGen g.Feeds y x).card

theorem rank_le : g.rank x ≤ g.size := by
  have hle := Finset.card_filter_le (Finset.range g.size) fun y => Relation.TransGen g.Feeds y x
  rwa [Finset.card_range] at hle

theorem Acyclic.rank_lt (hg : g.Acyclic) (h : g.Feeds y x) : g.rank y < g.rank x := by
  refine Finset.card_lt_card ((Finset.ssubset_iff_of_subset fun z hz => ?_).2 ⟨y, ?_, ?_⟩)
  · rw [Finset.mem_filter] at hz ⊢
    exact ⟨hz.1, hz.2.tail h⟩
  · rw [Finset.mem_filter, Finset.mem_range]
    exact ⟨h.source_lt, .single h⟩
  · rw [Finset.mem_filter]
    exact fun hy => hg y hy.2

end Rank

theorem Acyclic.induction (hg : g.Acyclic) {P : SlotId → Prop}
    (h : ∀ x, (∀ y, g.Feeds y x → P y) → P x) (x : SlotId) : P x := by
  induction hn : g.rank x using Nat.strong_induction_on generalizing x with
  | _ n ih =>
    subst hn
    exact h x fun y hy => ih _ (hg.rank_lt hy) y rfl

theorem walksUpTo_eq (hg : g.Acyclic) {n m : Nat} (hn : g.rank x < n) (hm : g.rank x < m) :
    g.walksUpTo n x = g.walksUpTo m x := by
  induction n generalizing m x with
  | zero => exact absurd hn (Nat.not_lt_zero _)
  | succ n ih =>
    obtain ⟨m, rfl⟩ := Nat.exists_eq_succ_of_ne_zero (Nat.ne_zero_of_lt hm)
    rw [walksUpTo, walksUpTo]
    split
    · rfl
    · congr 1
      refine Multiset.bind_congr fun e he => ?_
      obtain ⟨rfl, hfeeds⟩ := mem_entering.1 he
      have hlt := hg.rank_lt hfeeds.feeds
      exact ih (by omega) (by omega)

/-- The walks to a slot are those to the slots before it with one more step. -/
theorem walks_eq (hg : g.Acyclic) (x : SlotId) :
    g.walks x = if g.feeders x = 0 then {[x]} else ((g.feeders x).bind g.walks).map (· ++ [x]) := by
  have hfeeders : g.feeders x = 0 ↔ g.entering x = [] := by simp [feeders]
  rw [walks, walksUpTo]
  simp only [hfeeders]
  split
  · rfl
  · congr 1
    rw [feeders, ← Multiset.map_coe, Multiset.bind_map]
    refine Multiset.bind_congr fun e he => ?_
    obtain ⟨rfl, hfeeds⟩ := mem_entering.1 he
    have hlt := hg.rank_lt hfeeds.feeds
    have hle : g.rank e.target ≤ g.size := rank_le
    exact walksUpTo_eq hg (by omega) (by omega)

/-! ### Words -/

theorem words_of_free (hg : g.Acyclic) (hx : ∀ y, ¬ g.Feeds y x) : g.words ℓ x = {ℓ x} := by
  rw [words, walks_eq hg, feeders_of_free hx, if_pos rfl]
  simp

theorem words_of_feeds (hg : g.Acyclic) (hx : g.Feeds y x) :
    g.words ℓ x = cat ((g.feeders x).bind (g.words ℓ)) {ℓ x} := by
  have hne : g.feeders x ≠ 0 := fun h => by
    have := mem_feeders.2 hx
    rw [h] at this
    exact Multiset.notMem_zero _ this
  rw [words, walks_eq hg, if_neg hne, cat_singleton, Multiset.map_map, Multiset.map_bind,
    Multiset.map_bind]
  refine Multiset.bind_congr fun z _ => ?_
  simp [words]

/-- Words depend only on what is before. -/
theorem words_congr (hg : g.Acyclic) (hg' : g'.Acyclic) {S : SlotId → Prop}
    (hS : ∀ {x y}, S x → g.Feeds y x → S y) (hf : ∀ {x}, S x → g'.feeders x = g.feeders x)
    (hℓ : ∀ {x}, S x → ℓ' x = ℓ x) (x : SlotId) (hx : S x) : g'.words ℓ' x = g.words ℓ x := by
  induction x using hg.induction with
  | h x ih =>
    by_cases h : ∃ y, g.Feeds y x
    · obtain ⟨y, hy⟩ := h
      have hy' : g'.Feeds y x := by
        rw [← mem_feeders, hf hx, mem_feeders]
        exact hy
      rw [words_of_feeds hg hy, words_of_feeds hg' hy', hf hx, hℓ hx]
      congr 1
      refine Multiset.bind_congr fun z hz => ?_
      have hz := mem_feeders.1 hz
      exact ih z hz (hS hx hz)
    · have hfree : ∀ y, ¬ g.Feeds y x := fun y hy => h ⟨y, hy⟩
      have hfree' : ∀ y, ¬ g'.Feeds y x := by
        intro y hy
        rw [← mem_feeders, hf hx, mem_feeders] at hy
        exact hfree y hy
      rw [words_of_free hg hfree, words_of_free hg' hfree', hℓ hx]

/-! ### Words after a new edge -/

/-- What leads to a slot comes from another. -/
def OnlyFrom (g : Graph) (r x : SlotId) : Prop :=
  ∀ y, g.Reaches y x → g.Reaches r y

/-- A new edge that closes no cycle. -/
structure Wires (g : Graph) (u : SlotId) (k : EdgeKind) (v : SlotId) : Prop where
  acyclic : g.Acyclic
  nodup : ∀ x, (g.hops x).Nodup
  source_lt : u < g.size
  next : k = .next → g.next? u = none
  hop : k = .hop → v ∉ g.hops u
  back : ¬ g.Reaches v u

namespace Wires

variable (hw : g.Wires u k v)

include hw

theorem feeds : (g.wire u k v).Feeds x y ↔ g.Feeds x y ∨ x = u ∧ y = v :=
  feeds_wire hw.source_lt hw.next

theorem feeds_new : (g.wire u k v).Feeds u v := hw.feeds.2 (.inr ⟨rfl, rfl⟩)

theorem reaches (h : (g.wire u k v).Reaches x y) : g.Reaches x y ∨ g.Reaches x u ∧ g.Reaches v y :=
  reaches_wire hw.source_lt hw.next h

theorem reaches_old (h : g.Reaches x y) : (g.wire u k v).Reaches x y :=
  h.wire hw.source_lt hw.next

theorem acyclic_wire : (g.wire u k v).Acyclic := hw.acyclic.wire hw.source_lt hw.next hw.back

theorem feeders_of_ne (hx : x ≠ v) : (g.wire u k v).feeders x = g.feeders x := by
  rw [feeders_wire hw.nodup hw.source_lt hw.next hw.hop, if_neg hx]

theorem feeders_end : (g.wire u k v).feeders v = u ::ₘ g.feeders v := by
  rw [feeders_wire hw.nodup hw.source_lt hw.next hw.hop, if_pos rfl]

theorem words_of_not_reaches (hx : ¬ g.Reaches v x) : (g.wire u k v).words ℓ x = g.words ℓ x := by
  refine words_congr hw.acyclic hw.acyclic_wire (S := fun x => ¬ g.Reaches v x)
    (fun hx hy hv => hx (hv.tail hy)) (fun {x} hx => ?_) (fun _ => rfl) x hx
  have hne : x ≠ v := by
    rintro rfl
    exact hx .refl
  exact hw.feeders_of_ne hne

theorem words_start : (g.wire u k v).words ℓ u = g.words ℓ u := hw.words_of_not_reaches hw.back

/-- The words to the start of a new edge come before the words below it. -/
theorem words_head (hfree : ∀ y, ¬ g.Feeds y v) (x : SlotId) (hx : g.OnlyFrom v x) :
    (g.wire u k v).words ℓ x = cat (g.words ℓ u) (g.words ℓ x) := by
  have hg := hw.acyclic
  have hg' := hw.acyclic_wire
  induction x using hg.induction with
  | h x ih =>
    by_cases hxv : x = v
    · subst hxv
      rw [words_of_feeds hg' hw.feeds_new, hw.feeders_end, feeders_of_free hfree,
        words_of_free hg hfree, Multiset.cons_bind, Multiset.zero_bind, add_zero, hw.words_start]
    · have hvx := hx x .refl
      obtain ⟨y, -, hy⟩ := (Relation.ReflTransGen.cases_tail hvx).resolve_left hxv
      have hy' : (g.wire u k v).Feeds y x := hw.feeds.2 (.inl hy)
      have hbind : ((g.feeders x).bind fun z => (g.wire u k v).words ℓ z) =
          (g.feeders x).bind fun z => cat (g.words ℓ u) (g.words ℓ z) := by
        refine Multiset.bind_congr fun z hz => ?_
        have hz := mem_feeders.1 hz
        exact ih z hz fun y hy => hx y (hy.tail hz)
      rw [words_of_feeds hg' hy', words_of_feeds hg hy, hw.feeders_of_ne hxv, hbind, ← cat_assoc,
        cat_bind]

/-- The words of a new edge are added where it ends. -/
theorem words_end (hfeeds : g.Feeds y v) :
    (g.wire u k v).words ℓ v = g.words ℓ v + cat (g.words ℓ u) {ℓ v} := by
  have hg := hw.acyclic
  have hbind : ((g.feeders v).bind fun z => (g.wire u k v).words ℓ z) =
      (g.feeders v).bind fun z => g.words ℓ z := by
    refine Multiset.bind_congr fun z hz => ?_
    refine hw.words_of_not_reaches fun hvz => ?_
    exact hg v (.tail' hvz (mem_feeders.1 hz))
  rw [words_of_feeds hw.acyclic_wire hw.feeds_new, words_of_feeds hg hfeeds, hw.feeders_end,
    Multiset.cons_bind, add_cat, add_comm, hw.words_start, hbind]

theorem words_first (hfree : ∀ y, ¬ g.Feeds y v) :
    (g.wire u k v).words ℓ v = cat (g.words ℓ u) {ℓ v} := by
  have hfrom : g.OnlyFrom v v := by
    intro y hy
    obtain rfl := hy.eq_of_free hfree
    exact .refl
  rw [hw.words_head hfree v hfrom, words_of_free hw.acyclic hfree]

end Wires

namespace OnlyFrom

theorem self (hfree : ∀ y, ¬ g.Feeds y r) : g.OnlyFrom r r := by
  intro y hy
  obtain rfl := hy.eq_of_free hfree
  exact .refl

theorem wire (hw : g.Wires u k v) (hx : g.OnlyFrom r x) (hu : g.OnlyFrom r u) :
    (g.wire u k v).OnlyFrom r x := by
  intro y hy
  rcases hw.reaches hy with hy | ⟨hy, -⟩
  · exact hw.reaches_old (hx y hy)
  · exact hw.reaches_old (hu y hy)

theorem wire_head (hw : g.Wires u k v) (hx : g.OnlyFrom v x) (hu : g.OnlyFrom r u) :
    (g.wire u k v).OnlyFrom r x := by
  have hrv : (g.wire u k v).Reaches r v := (hw.reaches_old (hu u .refl)).tail hw.feeds_new
  intro y hy
  rcases hw.reaches hy with hy | ⟨hy, -⟩
  · exact hrv.trans (hw.reaches_old (hx y hy))
  · exact hw.reaches_old (hu y hy)

theorem wire_of_not_reaches (hw : g.Wires u k v) (hx : g.OnlyFrom r x) (hvx : ¬ g.Reaches v x) :
    (g.wire u k v).OnlyFrom r x := by
  intro y hy
  rcases hw.reaches hy with hy | ⟨-, hv⟩
  · exact hw.reaches_old (hx y hy)
  · exact absurd hv hvx

end OnlyFrom

end Graph

end Routing
