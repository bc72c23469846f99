import Routing.Proofs.Compile.Joints
/-!
# Shared destinations

Each reference to a destination that is completed has a new fork, which hops to the destination and
to nothing else. No other step adds a hop to a destination: the branches of a junction start with
stages of their own, and the forks after sources hop to attach points.
-/

namespace Routing

variable {σ ω : Type}

namespace Graph

variable {g g' : Graph} {d x : SlotId} {n : Nat}

/-- The slots that hop to a slot, in the order of their creation. -/
def forksTo (g : Graph) (d : SlotId) : List SlotId :=
  (List.range g.size).filter (d ∈ g.hops ·)

theorem mem_forksTo : x ∈ g.forksTo d ↔ d ∈ g.hops x := by
  rw [forksTo, List.mem_filter, List.mem_range, decide_eq_true_eq]
  exact ⟨And.right, fun h => ⟨HasEdge.source_lt (k := .hop) h, h⟩⟩

theorem filter_range_hops (hle : g.size ≤ n) (h : ∀ x < n, d ∈ g'.hops x ↔ d ∈ g.hops x) :
    (List.range n).filter (d ∈ g'.hops ·) = g.forksTo d := by
  induction n, hle using Nat.le_induction with
  | base =>
    refine List.filter_congr fun x hx => ?_
    rw [decide_eq_decide]
    exact h x (List.mem_range.1 hx)
  | succ n hle ih =>
    have hn : d ∉ g'.hops n := by
      rw [h n (Nat.lt_succ_self n)]
      exact fun hd => absurd (HasEdge.source_lt (k := .hop) hd) (Nat.not_lt.2 hle)
    rw [List.range_succ, List.filter_append, ih fun x hx => h x (Nat.lt_succ_of_lt hx)]
    simp [hn]

theorem forksTo_eq (hle : g.size ≤ g'.size) (h : ∀ x, d ∈ g'.hops x ↔ d ∈ g.hops x) :
    g'.forksTo d = g.forksTo d :=
  filter_range_hops hle fun x _ => h x

theorem forksTo_concat (hsize : g'.size = g.size + 1) (hn : d ∈ g'.hops g.size)
    (h : ∀ x, x ≠ g.size → (d ∈ g'.hops x ↔ d ∈ g.hops x)) :
    g'.forksTo d = g.forksTo d ++ [g.size] := by
  rw [forksTo, hsize, List.range_succ, List.filter_append,
    filter_range_hops (Nat.le_refl _) fun x hx => h x (Nat.ne_of_lt hx)]
  simp [hn]

end Graph

namespace Build

/-- The forks to a destination. -/
def inlets (b : Build σ ω) (key : TargetKey) : List SlotId :=
  ((b.memos.lookup key).map b.graph.forksTo).getD []

/-- Different destinations start with different stages, and what hops to a destination hops nowhere
else. -/
structure Exclusive (b : Build σ ω) : Prop where
  distinct : b.Distinct .destination
  alone : ∀ {x d}, b.Marked .destination d → d ∈ b.graph.hops x →
    b.graph.hops x = [d] ∧ ¬ b.SourceFork x

/-- The destinations that are remembered stay, and so do the forks to them. -/
structure Spares (b b' : Build σ ω) : Prop where
  lookup : ∀ {key}, key.kind = .destination → b'.memos.lookup key = b.memos.lookup key
  marked : ∀ {d}, b'.Marked .destination d ↔ b.Marked .destination d
  size_le : b.graph.size ≤ b'.graph.size
  hops : ∀ {x d}, b.Marked .destination d → d ∈ b.graph.hops x → b'.graph.hops x = b.graph.hops x
  into : ∀ {x d}, b.Marked .destination d → d ∈ b'.graph.hops x → d ∈ b.graph.hops x
  fork : ∀ {x d}, b.Marked .destination d → d ∈ b.graph.hops x → b'.SourceFork x → b.SourceFork x

/-- How the forks to destinations grow along a trace. -/
structure Supplied (b : Build σ ω) (l : Trace σ ω) (b' : Build σ ω) : Prop where
  exclusive : b'.Exclusive
  inlets : ∀ {key}, key.kind = .destination →
    b'.inlets key = b.inlets key ++ l.points Fragment.head key
  head : ∀ {key f c c'}, .joined key f c c' ∈ l → key.kind = .destination →
    ∃ x, f = ⟨some x, none⟩ ∧ c.graph.size ≤ x ∧ c'.graph.size = x + 1

variable {b b₁ b' : Build σ ω} {l l' : Trace σ ω} {key : TargetKey} {d m t x : SlotId}

theorem inlets_of_some (hd : b.memos.lookup key = some d) : b.inlets key = b.graph.forksTo d := by
  simp [inlets, hd]

theorem inlets_of_none (h : b.memos.lookup key = none) : b.inlets key = [] := by
  simp [inlets, h]

/-- The forks to a destination stay if the hops to it do. -/
theorem inlets_eq (hm : b'.memos.lookup key = b.memos.lookup key)
    (hle : b.graph.size ≤ b'.graph.size)
    (h : ∀ d, b.memos.lookup key = some d → ∀ x, d ∈ b'.graph.hops x ↔ d ∈ b.graph.hops x) :
    b'.inlets key = b.inlets key := by
  cases hd : b.memos.lookup key with
  | none => rw [inlets_of_none hd, inlets_of_none (hm.trans hd)]
  | some d =>
    rw [inlets_of_some hd, inlets_of_some (hm.trans hd)]
    exact Graph.forksTo_eq hle (h d hd)

namespace Spares

theorem pool {p : Pool σ ω} : b.Spares { b with pool := p } :=
  ⟨fun _ => rfl, Iff.rfl, Nat.le_refl _, fun _ _ => rfl, fun _ => id, fun _ _ => id⟩

theorem refl (b : Build σ ω) : b.Spares b := pool (p := b.pool)

theorem trans (h : b.Spares b₁) (h' : b₁.Spares b') : b.Spares b' where
  lookup hk := (h'.lookup hk).trans (h.lookup hk)
  marked := h'.marked.trans h.marked
  size_le := Nat.le_trans h.size_le h'.size_le
  hops {x d} hd hx := by
    have hx₁ : d ∈ b₁.graph.hops x := by rw [h.hops hd hx]; exact hx
    rw [h'.hops (h.marked.2 hd) hx₁, h.hops hd hx]
  into hd hx := h.into hd (h'.into (h.marked.2 hd) hx)
  fork {x d} hd hx hf := by
    have hx₁ : d ∈ b₁.graph.hops x := by rw [h.hops hd hx]; exact hx
    exact h.fork hd hx (h'.fork (h.marked.2 hd) hx₁ hf)

theorem exclusive (h : b.Spares b') (hx : b.Exclusive) : b'.Exclusive where
  distinct := hx.distinct.congr h.lookup
  alone hd hx' := by
    have hd := h.marked.1 hd
    have hold := h.into hd hx'
    obtain ⟨hhops, hfork⟩ := hx.alone hd hold
    exact ⟨(h.hops hd hold).trans hhops, fun hf => hfork (h.fork hd hold hf)⟩

theorem supplied (h : b.Spares b') (hx : b.Exclusive)
    (hl : ∀ {key f c c'}, .joined key f c c' ∈ l → key.kind ≠ .destination) : Supplied b l b' where
  exclusive := h.exclusive hx
  inlets {key} hk := by
    have hpoints : l.points Fragment.head key = [] := points_eq_nil fun hm => hl hm hk
    rw [hpoints, List.append_nil]
    refine inlets_eq (h.lookup hk) h.size_le fun d hd x => ?_
    have hd : b.Marked .destination d := ⟨key, hk, Compile.mem_of_lookup hd⟩
    exact ⟨h.into hd, fun hx => by rw [h.hops hd hx]; exact hx⟩
  head hm hk := absurd hk (hl hm)

end Spares

theorem Supplied.trans (h : Supplied b l b₁) (h' : Supplied b₁ l' b') :
    Supplied b (l ++ l') b' where
  exclusive := h'.exclusive
  inlets hk := by rw [h'.inlets hk, h.inlets hk, points_append, List.append_assoc]
  head hm := (List.mem_append.1 hm).elim h.head h'.head

theorem Exclusive.supplied_opened (hx : b.Exclusive) : Supplied b [.opened key b] b :=
  (Spares.refl b).supplied hx fun h => by cases List.mem_singleton.1 h

/-! ### Steps that leave the forks alone -/

theorem Glued.size_le (h : Glued b b') : b.graph.size ≤ b'.graph.size := by
  by_contra hlt
  obtain ⟨s, hs⟩ := Graph.exists_slot (Nat.not_le.1 hlt)
  have hr : b.graph.role? b'.graph.size = some s.role := by rw [Graph.role?, hs]; rfl
  exact Nat.lt_irrefl _ (Graph.role?_lt (h.role hr))

theorem Glued.spares (hb : b.Sound) (h : Glued b b') : b.Spares b' where
  lookup _ := by rw [h.memos]
  marked {_} := by simp only [Marked, h.memos]
  size_le := h.size_le
  hops := h.forks
  into := h.into
  fork {x _} _ _ hf := by
    -- the end of a source had its fork before, and keeps it
    obtain ⟨t, ht, hx⟩ := hf
    have ht : b.Marked .source t := by rwa [Marked, h.memos] at ht
    obtain ⟨m, hm, -⟩ := (hb.settled t).tail ht
    obtain rfl : x = m := Option.some.inj (Eq.trans (Eq.symm hx) (h.next hm))
    exact ⟨t, ht, hm⟩

variable [Stage σ ω]

theorem Exclusive.spares_tap (hx : b.Exclusive) (hlt : ∀ {d}, b.Marked .destination d → d < b.graph.size)
    (hm : b.SourceFork m) (hle : m ≤ b.graph.size) : b.Spares (b.tap m) where
  lookup _ := rfl
  marked := Iff.rfl
  size_le := by rw [tap, size_wire, size_own]; exact Nat.le_succ _
  hops {x d} hd hxd := by
    have hne : x ≠ m := by
      rintro rfl
      exact (hx.alone hd hxd).2 hm
    exact hops_tap_ne hne
  into {x d} hd hxd := by
    by_cases hxm : x = m
    · subst hxm
      rw [hops_tap_self hle, List.mem_append, List.mem_singleton] at hxd
      rcases hxd with hxd | rfl
      · exact hxd
      · exact absurd (hlt hd) (Nat.lt_irrefl _)
    · rwa [hops_tap_ne hxm] at hxd
  fork _ _ hf := by
    obtain ⟨t, ht, hx⟩ := hf
    rw [Graph.hasEdge_next, next?_tap] at hx
    exact ⟨t, ht, hx⟩

theorem spares_forkAfter (hk : key.kind = .source) (ht : t < b.graph.size) :
    b.Spares (b.forkAfter key t) where
  lookup {key'} hk' := by
    have hne : key' ≠ key := by
      rintro rfl
      rw [hk] at hk'
      cases hk'
    have hm : (b.forkAfter key t).memos = (key, t) :: b.memos := rfl
    rw [lookup_of_cons hm, if_neg hne]
  marked := by
    refine marked_mark.trans ⟨fun h => h.resolve_left fun h => ?_, .inr⟩
    rw [hk] at h
    cases h.1
  size_le := by rw [size_forkAfter]; exact Nat.le_succ _
  hops _ _ := hops_forkAfter
  into _ hx := by rwa [hops_forkAfter] at hx
  fork {x d} _ hxd hf := by
    obtain ⟨t', ht', hx⟩ := hf
    rw [Graph.hasEdge_next] at hx
    by_cases htt : t' = t
    · subst htt
      -- the new fork hops nowhere yet
      rw [next?_forkAfter_self ht, Option.some.injEq] at hx
      rw [← hx, hops_size] at hxd
      cases hxd
    · rw [next?_forkAfter_ne htt] at hx
      rcases marked_mark.1 ht' with ⟨-, heq⟩ | ht'
      · exact absurd heq htt
      · exact ⟨t', ht', hx⟩

/-! ### References to destinations -/

theorem Exclusive.supplied_forkTo (hx : b.Exclusive) (hb : b.Core) (hk : key.kind = .destination)
    (hd : b.memos.lookup key = some d) {c c' : Build σ ω} (hc : c.graph.size ≤ b.graph.size)
    (hc' : c'.graph.size = b.graph.size + 1) :
    Supplied b [.joined key ⟨some b.graph.size, none⟩ c c'] (b.forkTo d) where
  exclusive := by
    refine ⟨hx.distinct, fun {x d'} hd' hxd => ?_⟩
    have hfork : (b.forkTo d).SourceFork x → b.SourceFork x := by
      rintro ⟨t, ht, hx⟩
      rw [Graph.hasEdge_next, next?_forkTo] at hx
      exact ⟨t, ht, hx⟩
    by_cases hsize : x = b.graph.size
    · subst hsize
      rw [hops_forkTo_self] at hxd ⊢
      obtain rfl := List.mem_singleton.1 hxd
      refine ⟨rfl, fun hf => ?_⟩
      obtain ⟨t, -, ht⟩ := hfork hf
      exact Nat.lt_irrefl _ (hb.target_lt ht)
    · rw [hops_forkTo hsize] at hxd ⊢
      obtain ⟨hhops, hf⟩ := hx.alone hd' hxd
      exact ⟨hhops, fun h => hf (hfork h)⟩
  inlets {key'} hk' := by
    by_cases hne : key = key'
    · subst hne
      rw [points_joined_self, inlets_of_some (b := b.forkTo d) hd, inlets_of_some hd]
      refine Graph.forksTo_concat size_forkTo ?_ fun x hx => by rw [hops_forkTo hx]
      rw [hops_forkTo_self]
      exact List.mem_singleton_self d
    · rw [points_joined_ne hne, List.append_nil]
      refine inlets_eq rfl (by rw [size_forkTo]; exact Nat.le_succ _) fun d' hd' x => ?_
      by_cases hsize : x = b.graph.size
      · -- the new fork hops to the other destination
        have hdd : d' ≠ d := by
          rintro rfl
          exact hne (hx.distinct hk hk' hd hd')
        subst hsize
        rw [hops_forkTo_self, hops_size]
        simp [hdd]
      · rw [hops_forkTo hsize]
  head h _ := by
    cases List.mem_singleton.1 h
    exact ⟨_, rfl, hc, hc'⟩

omit [Stage σ ω] in
/-- A destination is remembered to which nothing hops yet. -/
theorem Exclusive.supplied_mark (hx : b.Exclusive) (hk : key.kind = .destination)
    (hnone : b.inlets key = []) (hm : ¬ b.Marked .destination d) (hd : ∀ x, ¬ b.graph.Feeds x d) :
    Supplied b [] (b.mark key d) where
  exclusive := by
    have hmemos : (b.mark key d).memos = (key, d) :: b.memos := rfl
    refine ⟨hx.distinct.cons hmemos fun {key' d'} hk' hd' heq => ?_, fun {x d'} hd' hxd => ?_⟩
    · exact hm ⟨key', hk', heq ▸ Compile.mem_of_lookup hd'⟩
    · have hxd : d' ∈ b.graph.hops x := hxd
      rcases marked_mark.1 hd' with ⟨-, rfl⟩ | hd'
      · exact absurd (Graph.HasEdge.feeds (k := .hop) hxd) (hd x)
      · obtain ⟨hhops, hfork⟩ := hx.alone hd' hxd
        refine ⟨hhops, fun ⟨t, ht, he⟩ => hfork ⟨t, ?_, he⟩⟩
        exact (marked_mark.1 ht).resolve_left fun h => by rw [hk] at h; cases h.1
  inlets {key'} hk' := by
    have hmemos : (b.mark key d).memos = (key, d) :: b.memos := rfl
    by_cases hne : key' = key
    · subst hne
      have hlookup := (lookup_of_cons hmemos key').trans (if_pos rfl)
      rw [hnone, inlets_of_some hlookup]
      refine List.filter_eq_nil_iff.2 fun x _ hxd => ?_
      have hxd : d ∈ b.graph.hops x := of_decide_eq_true hxd
      exact hd x (Graph.HasEdge.feeds (k := .hop) hxd)
    · have hlookup := (lookup_of_cons hmemos key').trans (if_neg hne)
      exact (inlets_eq hlookup (Nat.le_refl _) fun _ _ _ => Iff.rfl).trans
        (List.append_nil _).symm
  head h := by cases h

end Build

namespace Compile

open Build

variable [Stage σ ω] {c : Catalog}

/-- In an acyclic catalog the forks to destinations grow along the trace. -/
theorem tally_supplied (hc : c.Acyclic) : Tally c.objects c.Lists
    (fun b l b' => b.Exclusive → Supplied b l b' : Build σ ω → Trace σ ω → Build σ ω → Prop)
    (fun b l b' => b.Exclusive → Supplied b l b') where
  refl _ hx := (Spares.refl _).supplied hx fun h => by cases h
  weaken h := h
  trans h h' hx := (h hx).trans (h' (h hx).exclusive)
  trans_failed h h' hx := (h hx).trans (h' (h hx).exclusive)
  glue hb h hx := (h.spares hb).supplied hx fun h => by cases h
  place {b p _ s} hb hn hh hx := by
    have hg : Glued b (b.grow p s) := (Glued.refl b).grow hn hh
    exact (hg.spares hb).supplied hx fun h => by cases List.mem_singleton.1 h
  refuse _ hx := Spares.pool.supplied hx fun h => by cases h
  again {b key f b'} hb h hx := by
    cases h with
    | @tap t m hk ht hm hr =>
      have hfork : b.SourceFork m := ⟨t, ⟨key, hk, mem_of_lookup ht⟩, hm⟩
      refine (hx.spares_tap hb.core.marked_lt hfork (Nat.le_of_lt (Graph.role?_lt hr))).supplied hx ?_
      intro key' f c c' hmem
      cases List.mem_singleton.1 hmem
      simp [hk]
    | fork hk hd => exact hx.supplied_forkTo hb.core hk hd (Nat.le_refl _) size_forkTo
  first := by
    intro s key t b l b₁ f f' b' hs ht hwithin hnew hp hf h hj hx
    have hl := avoids hc hs ht hwithin
    have hb := hp.sound
    have hopened : Supplied b [.opened key b] b := hx.supplied_opened
    have h₁ := hopened.trans (h hx)
    refine h₁.trans ?_
    have hx₁ := h₁.exclusive
    cases hj with
    | @tap t hk htail =>
      have ht := hf.tail htail
      have hafter : b₁.Spares (b₁.forkAfter key t) := spares_forkAfter hk ht.lt
      obtain ⟨hc, -, hfork, hr, -⟩ := fork_source hb hp.extends_ hk ht rfl
      have htap := (hafter.exclusive hx₁).spares_tap hc.marked_lt hfork
        (Nat.le_of_lt (Graph.role?_lt hr))
      refine (hafter.trans htap).supplied hx₁ ?_
      intro key' f c c' hmem
      cases List.mem_singleton.1 hmem
      simp [hk]
    | @fork d hk hhead =>
      have hh := hf.head hhead
      have hnone : b₁.inlets key = [] := by
        rw [(h hx).inlets hk, inlets_of_none (hnew (.inr hk)), hl.points]
        rfl
      have hmark := hx₁.supplied_mark hk hnone hh.unmarked hh.free
      have hlookup : (b₁.mark key d).memos.lookup key = some d :=
        (lookup_of_cons (b := b₁) rfl key).trans (if_pos rfl)
      exact hmark.trans (hmark.exclusive.supplied_forkTo (hb.mark_destination hk hh).core hk hlookup
        hp.extends_.size_le size_forkTo)
    | plain hk =>
      refine (Spares.refl _).supplied hx₁ ?_
      intro key' f c c' hmem
      cases List.mem_singleton.1 hmem
      exact fun h => hk (.inr h)
  abandon := by
    intro s key t b l b' _ _ _ _ h hx
    exact hx.supplied_opened.trans (h hx)

end Compile

end Routing
