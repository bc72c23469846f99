import Routing.Proofs.Compile.Sound
/-!
# What compiling leaves alone

`Extends b₀ b` says how a later state may differ from an earlier one: slots that were there keep all
but their hops, and new edges lead to what is new or to remembered destinations. So a stage that
reaches no stage after a source reaches later what it reached before.
-/

namespace Routing

variable {σ ω : Type}

namespace Build

/-- What may have happened since an earlier state. -/
structure Extends (b₀ b : Build σ ω) : Prop where
  size_le : b₀.graph.size ≤ b.graph.size
  /-- An old slot keeps all but its hops; a fork after a source gets new attach points. -/
  slot : ∀ {x s}, b₀.graph.slot? x = some s → ∃ more,
    b.graph.slot? x = some { s with hops := s.hops ++ more } ∧
      ∀ y ∈ more, b₀.graph.size ≤ y ∧ b.graph.role? y = some .attach ∧ b₀.SourceFork x
  memos : ∃ new, b.memos = new ++ b₀.memos ∧ ∀ m ∈ new, b₀.graph.size ≤ m.2
  entered : ∀ {x k y}, b₀.graph.size ≤ x → y < b₀.graph.size → b.graph.HasEdge x k y →
    b₀.Marked .destination y

namespace Extends

variable {b₀ b b' : Build σ ω} {x y u v : SlotId} {k : EdgeKind} {kind : Kind}

theorem refl (b : Build σ ω) : b.Extends b where
  size_le := Nat.le_refl _
  slot h := ⟨[], by simpa using h, by simp⟩
  memos := ⟨[], rfl, by simp⟩
  entered hx _ h := absurd h.source_lt (Nat.not_lt.2 hx)

/-! ### Old slots -/

theorem next?_old (h : b₀.Extends b) (hx : x < b₀.graph.size) :
    b.graph.next? x = b₀.graph.next? x := by
  obtain ⟨s, hs⟩ := Graph.exists_slot hx
  obtain ⟨more, hm, -⟩ := h.slot hs
  simp [Graph.next?, hs, hm]

theorem role?_old (h : b₀.Extends b) (hx : x < b₀.graph.size) :
    b.graph.role? x = b₀.graph.role? x := by
  obtain ⟨s, hs⟩ := Graph.exists_slot hx
  obtain ⟨more, hm, -⟩ := h.slot hs
  simp [Graph.role?, hs, hm]

theorem capabilities_old (h : b₀.Extends b) (hx : x < b₀.graph.size) :
    b.graph.capabilities x = b₀.graph.capabilities x := by
  obtain ⟨s, hs⟩ := Graph.exists_slot hx
  obtain ⟨more, hm, -⟩ := h.slot hs
  simp [Graph.capabilities, hs, hm]

theorem edge (h : b₀.Extends b) (hxy : b₀.graph.HasEdge x k y) : b.graph.HasEdge x k y := by
  obtain ⟨s, hs, hy⟩ := Graph.hasEdge_iff_slot.1 hxy
  obtain ⟨more, hm, -⟩ := h.slot hs
  refine Graph.hasEdge_iff_slot.2 ⟨_, hm, ?_⟩
  cases k with
  | next => exact hy
  | hop => exact List.mem_append_left _ hy

theorem reaches (h : b₀.Extends b) (hxy : b₀.graph.Reaches x y) : b.graph.Reaches x y :=
  Relation.ReflTransGen.mono (fun _ _ ⟨k, hk⟩ => ⟨k, h.edge hk⟩) _ _ hxy

/-- An old stage gets new edges only as a fork after a source, to new attach points. -/
theorem edge_old (h : b₀.Extends b) (hx : x < b₀.graph.size) (hxy : b.graph.HasEdge x k y) :
    b₀.graph.HasEdge x k y ∨ k = .hop ∧ b₀.graph.size ≤ y ∧ b₀.SourceFork x := by
  obtain ⟨s, hs⟩ := Graph.exists_slot hx
  obtain ⟨more, hm, hnew⟩ := h.slot hs
  obtain ⟨t, ht, hy⟩ := Graph.hasEdge_iff_slot.1 hxy
  obtain rfl : t = _ := Option.some.inj (ht.symm.trans hm)
  cases k with
  | next => exact .inl (Graph.hasEdge_iff_slot.2 ⟨s, hs, hy⟩)
  | hop =>
    rcases List.mem_append.1 hy with hy | hy
    · exact .inl (Graph.hasEdge_iff_slot.2 ⟨s, hs, hy⟩)
    · obtain ⟨hlt, -, hf⟩ := hnew y hy
      exact .inr ⟨rfl, hlt, hf⟩

theorem edge_into_old (h : b₀.Extends b) (hy : y < b₀.graph.size)
    (hm : ¬ b₀.Marked .destination y) : b.graph.HasEdge x k y ↔ b₀.graph.HasEdge x k y := by
  refine ⟨fun hxy => ?_, h.edge⟩
  by_cases hx : x < b₀.graph.size
  · rcases h.edge_old hx hxy with hxy | ⟨-, hle, -⟩
    · exact hxy
    · exact absurd hy (Nat.not_lt.2 hle)
  · exact absurd (h.entered (Nat.not_lt.1 hx) hy hxy) hm

theorem marked (h : b₀.Extends b) (hy : b₀.Marked kind y) : b.Marked kind y := by
  obtain ⟨key, hk, hy⟩ := hy
  obtain ⟨new, hm, -⟩ := h.memos
  exact ⟨key, hk, by rw [hm]; exact List.mem_append_right _ hy⟩

theorem marked_old (h : b₀.Extends b) (hlt : y < b₀.graph.size) (hy : b.Marked kind y) :
    b₀.Marked kind y := by
  obtain ⟨key, hk, hy⟩ := hy
  obtain ⟨new, hm, hnew⟩ := h.memos
  rw [hm] at hy
  rcases List.mem_append.1 hy with hy | hy
  · exact absurd hlt (Nat.not_lt.2 (hnew _ hy))
  · exact ⟨key, hk, hy⟩

theorem sourceFork_old (h : b₀.Extends b) (hc : b.Core) (hx : x < b₀.graph.size)
    (hm : b.SourceFork x) : b₀.SourceFork x := by
  obtain ⟨t, ht, he⟩ := hm
  by_cases hlt : t < b₀.graph.size
  · refine ⟨t, h.marked_old hlt ht, ?_⟩
    rcases h.edge_old hlt he with he | ⟨hk, -⟩
    · exact he
    · cases hk
  · have hd := h.marked (h.entered (Nat.not_lt.1 hlt) hx he)
    exact absurd (hc.marked_hop hd he) (by simp)

/-! ### Walks -/

/-- From an old stage that reaches no stage after a source nothing new is reached. -/
theorem reaches_old (h : b₀.Extends b) (h₀ : b₀.Core) (hx : x < b₀.graph.size)
    (hf : ∀ {m}, b₀.SourceFork m → ¬ b₀.graph.Reaches x m) (hxy : b.graph.Reaches x y) :
    b₀.graph.Reaches x y := by
  induction hxy with
  | refl => exact .refl
  | tail _ hyz ih =>
    obtain ⟨k, hyz⟩ := hyz
    rcases h.edge_old (h₀.reaches_lt hx ih) hyz with hyz | ⟨-, -, hm⟩
    · exact ih.tail hyz.feeds
    · exact absurd ih (hf hm)

theorem reaches_new (h : b₀.Extends b) (h₀ : b₀.Core) (hx : b₀.graph.size ≤ x)
    (hy : y < b₀.graph.size) (hxy : b.graph.Reaches x y) :
    ∃ d, b₀.Marked .destination d ∧ b₀.graph.Reaches d y := by
  induction hxy using Relation.ReflTransGen.head_induction_on with
  | refl => exact absurd hy (Nat.not_lt.2 hx)
  | @head x z hxz hzy ih =>
    by_cases hz : z < b₀.graph.size
    · obtain ⟨k, hxz⟩ := hxz
      have hd := h.entered hx hz hxz
      exact ⟨z, hd, h.reaches_old h₀ hz (fun hm => h₀.apart hd hm) hzy⟩
    · exact ih (Nat.not_lt.1 hz)

/-- What destinations reach among old stages they reached before. -/
theorem reaches_marked (h : b₀.Extends b) (h₀ : b₀.Core) (hx : b.Marked .destination x)
    (hy : y < b₀.graph.size) (hxy : b.graph.Reaches x y) :
    ∃ d, b₀.Marked .destination d ∧ b₀.graph.Reaches d y := by
  by_cases hlt : x < b₀.graph.size
  · have hd := h.marked_old hlt hx
    exact ⟨x, hd, h.reaches_old h₀ hlt (fun hm => h₀.apart hd hm) hxy⟩
  · exact h.reaches_new h₀ (Nat.not_lt.1 hlt) hy hxy

/-- A slot that reaches no stage after a source stays shut. -/
theorem shut_old (h : b₀.Extends b) (h₀ : b₀.Core) (hx : x < b₀.graph.size)
    (hf : ∀ {m}, b₀.SourceFork m → ¬ b₀.graph.Reaches x m) (hs : b₀.Shut x) : b.Shut x := by
  rintro y z ⟨k, hyz⟩ hr
  have hr := h.reaches_old h₀ hx hf hr
  have hz := h₀.reaches_lt hx hr
  by_cases hm : b₀.Marked .destination z
  · exact .inr (h.marked hm)
  · have hyz := (h.edge_into_old hz hm).1 hyz
    exact .inl (h.reaches ((hs hyz.feeds hr).resolve_right hm))

/-! ### Steps -/

theorem trans (h : b₀.Extends b) (h' : b.Extends b') (hc : b.Core) : b₀.Extends b' where
  size_le := Nat.le_trans h.size_le h'.size_le
  slot := by
    intro x s hs
    obtain ⟨more, hm, hnew⟩ := h.slot hs
    obtain ⟨more', hm', hnew'⟩ := h'.slot hm
    refine ⟨more ++ more', by simpa using hm', fun y hy => ?_⟩
    rcases List.mem_append.1 hy with hy | hy
    · obtain ⟨hle, hr, hf⟩ := hnew y hy
      exact ⟨hle, by rw [h'.role?_old (Graph.role?_lt hr), hr], hf⟩
    · obtain ⟨hle, hr, hf⟩ := hnew' y hy
      exact ⟨Nat.le_trans h.size_le hle, hr, h.sourceFork_old hc (Graph.lt_of_slot hs) hf⟩
  memos := by
    obtain ⟨new, hm, hnew⟩ := h.memos
    obtain ⟨new', hm', hnew'⟩ := h'.memos
    refine ⟨new' ++ new, by rw [hm', hm, List.append_assoc], fun m hmem => ?_⟩
    rcases List.mem_append.1 hmem with hmem | hmem
    · exact Nat.le_trans h.size_le (hnew' m hmem)
    · exact hnew m hmem
  entered := by
    intro x k y hx hy hxy
    by_cases hlt : x < b.graph.size
    · rcases h'.edge_old hlt hxy with hxy | ⟨-, hle, -⟩
      · exact h.entered hx hy hxy
      · exact absurd (Nat.lt_of_lt_of_le hy h.size_le) (Nat.not_lt.2 hle)
    · exact h.marked_old hy
        (h'.entered (Nat.not_lt.1 hlt) (Nat.lt_of_lt_of_le hy h.size_le) hxy)

theorem grow (h : b₀.Extends b) {p : Pool σ ω} {s : Slot} (hn : s.next = none) (hh : s.hops = []) :
    b₀.Extends (b.grow p s) where
  size_le := Nat.le_trans h.size_le (by simp [Build.grow])
  slot := by
    intro x t ht
    obtain ⟨more, hm, hnew⟩ := h.slot ht
    refine ⟨more, ?_, fun y hy => ?_⟩
    · rw [Build.grow, Graph.slot?_add, if_neg (Nat.ne_of_lt (Graph.lt_of_slot hm))]
      exact hm
    · obtain ⟨hle, hr, hf⟩ := hnew y hy
      exact ⟨hle, by rw [Build.grow, Graph.role?_add_lt (Graph.role?_lt hr), hr], hf⟩
  memos := h.memos
  entered hx hy hxy := h.entered hx hy ((Graph.hasEdge_add hn hh).1 hxy)

theorem wire (h : b₀.Extends b) (hw : b.Wiring u k v)
    (hu : b₀.graph.size ≤ u ∧ (b₀.graph.size ≤ v ∨ b₀.Marked .destination v) ∨
      k = .hop ∧ b₀.SourceFork u ∧ b₀.graph.size ≤ v ∧ b.graph.role? v = some .attach) :
    b₀.Extends (b.wire u k v) where
  size_le := by rw [size_wire]; exact h.size_le
  slot := by
    intro x s hs
    obtain ⟨more, hm, hnew⟩ := h.slot hs
    have hrole : ∀ y, (b.wire u k v).graph.role? y = b.graph.role? y := Graph.role?_wire
    by_cases hxu : x = u
    · subst x
      rcases hu with ⟨hu, -⟩ | ⟨rfl, hf, hv, hr⟩
      · exact absurd (Graph.lt_of_slot hs) (Nat.not_lt.2 hu)
      · refine ⟨more ++ [v], ?_, fun y hy => ?_⟩
        · simp [Build.wire, Graph.wire, Graph.addHop, Graph.slot?_modify, hm]
        · rw [hrole]
          rcases List.mem_append.1 hy with hy | hy
          · exact hnew y hy
          · obtain rfl := List.mem_singleton.1 hy
            exact ⟨hv, hr, hf⟩
    · refine ⟨more, ?_, fun y hy => by rw [hrole]; exact hnew y hy⟩
      cases k <;> simp only [Build.wire, Graph.wire, Graph.addHop, Graph.slot?_modify, hxu, if_false,
        hm]
  memos := h.memos
  entered := by
    intro x k' y hx hy hxy
    rcases (hasEdge_wire hw).1 hxy with hxy | ⟨rfl, -, rfl⟩
    · exact h.entered hx hy hxy
    · rcases hu with ⟨-, hv | hv⟩ | ⟨-, -, hv, -⟩
      · exact absurd hy (Nat.not_lt.2 hv)
      · exact hv
      · exact absurd hy (Nat.not_lt.2 hv)

theorem mark (h : b₀.Extends b) {key : TargetKey} (hu : b₀.graph.size ≤ u) :
    b₀.Extends (b.mark key u) where
  size_le := h.size_le
  slot := h.slot
  memos := by
    obtain ⟨new, hm, hnew⟩ := h.memos
    refine ⟨(key, u) :: new, by rw [Build.mark, hm]; rfl, fun m hmem => ?_⟩
    rcases List.mem_cons.1 hmem with rfl | hmem
    · exact hu
    · exact hnew m hmem
  entered := h.entered

theorem pool (h : b₀.Extends b) {p : Pool σ ω} : b₀.Extends { b with pool := p } :=
  ⟨h.size_le, h.slot, h.memos, h.entered⟩

theorem enable (h : b₀.Extends b) {caps : Capabilities} (hu : b₀.graph.size ≤ u) :
    b₀.Extends (b.enable u caps) where
  size_le := by rw [size_enable]; exact h.size_le
  slot := by
    intro x s hs
    obtain ⟨more, hm, hnew⟩ := h.slot hs
    have hxu : x ≠ u := fun hxu => absurd (hxu ▸ Graph.lt_of_slot hs) (Nat.not_lt.2 hu)
    refine ⟨more, ?_, fun y hy => ?_⟩
    · simp only [Build.enable, Graph.insertCapabilities, Graph.slot?_modify, hxu, if_false, hm]
    · rw [role?_enable]; exact hnew y hy
  memos := h.memos
  entered hx hy hxy := h.entered hx hy ((Graph.hasEdge_insertCapabilities caps).1 hxy)

end Extends

end Build

end Routing
