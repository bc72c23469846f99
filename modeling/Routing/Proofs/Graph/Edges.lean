import Routing.Graph.Basic
import Mathlib.Data.List.Nodup
import Mathlib.Logic.Relation
/-!
# Edges of a graph

What the operations on a graph do to its edges. `HasEdge` is the relation, `entering` the list of
the edges into a slot, `Reaches` a walk along edges. A new slot brings no edge and `wire` brings one,
so that a walk afterwards is a walk before or passes the new edge.
-/

namespace Routing

namespace Graph

variable {g : Graph} {x y u v : SlotId} {k k' : EdgeKind}

/-- An edge of some kind. -/
def HasEdge (g : Graph) (x : SlotId) : EdgeKind → SlotId → Prop
  | .next, y => g.next? x = some y
  | .hop, y => y ∈ g.hops x

/-- Messages go from one stage straight to the other. -/
def Feeds (g : Graph) (x y : SlotId) : Prop :=
  ∃ k, g.HasEdge x k y

/-- Messages go from one stage to the other, or the two are the same. -/
def Reaches (g : Graph) : SlotId → SlotId → Prop :=
  Relation.ReflTransGen g.Feeds

/-- No stage gets messages back that it sent. -/
def Acyclic (g : Graph) : Prop :=
  ∀ x, ¬ Relation.TransGen g.Feeds x x

/-- The graph with one more edge. -/
def wire (g : Graph) (u : SlotId) : EdgeKind → SlotId → Graph
  | .next, v => g.modify u fun s => { s with next := some v }
  | .hop, v => g.addHop u v

/-- The edges that enter a slot. -/
def entering (g : Graph) (y : SlotId) : List Edge :=
  (g.indexed.flatMap fun (id, s) => edgesOf id s).filter (·.target = y)

/-! ### Slots -/

theorem slot?_eq_none : g.slot? x = none ↔ g.size ≤ x := by
  simp [slot?, size]

theorem exists_slot (h : x < g.size) : ∃ s, g.slot? x = some s :=
  ⟨g.slots[x], Array.getElem?_eq_getElem h⟩

theorem lt_of_slot {s : Slot} (h : g.slot? x = some s) : x < g.size :=
  (Array.getElem?_eq_some_iff.1 h).1

@[simp] theorem size_add (s : Slot) : (g.add s).2.size = g.size + 1 := by
  simp [add, size]

theorem slot?_add (s : Slot) (x : SlotId) :
    (g.add s).2.slot? x = if x = g.size then some s else g.slot? x := by
  by_cases h : x = g.slots.size <;> simp [add, slot?, size, Array.getElem?_push, h]

@[simp] theorem size_modify (f : Slot → Slot) : (g.modify u f).size = g.size := by
  simp [modify, size]

theorem slot?_modify (f : Slot → Slot) (x : SlotId) :
    (g.modify u f).slot? x = if x = u then (g.slot? x).map f else g.slot? x := by
  simp only [modify, slot?, Array.getElem?_modify, eq_comm]

@[simp] theorem size_wire : (g.wire u k v).size = g.size := by
  cases k <;> simp [wire, addHop]

@[simp] theorem size_insertCapabilities (caps : Capabilities) :
    (g.insertCapabilities u caps).size = g.size := by
  simp [insertCapabilities]

/-! ### What a slot says -/

theorem role?_add_lt {s : Slot} (h : x < g.size) : (g.add s).2.role? x = g.role? x := by
  simp [role?, slot?_add, Nat.ne_of_lt h]

theorem role?_add_size (s : Slot) : (g.add s).2.role? g.size = some s.role := by
  simp [role?, slot?_add]

theorem role?_lt {r : Role} (h : g.role? x = some r) : x < g.size := by
  simp only [role?, Option.map_eq_some_iff] at h
  obtain ⟨s, hs, -⟩ := h
  exact lt_of_slot hs

theorem capabilities_add_lt {s : Slot} (h : x < g.size) :
    (g.add s).2.capabilities x = g.capabilities x := by
  simp [capabilities, slot?_add, Nat.ne_of_lt h]

theorem capabilities_add_size (s : Slot) : (g.add s).2.capabilities g.size = s.capabilities := by
  simp [capabilities, slot?_add]

@[simp] theorem role?_wire (x : SlotId) : (g.wire u k v).role? x = g.role? x := by
  cases k <;> simp only [wire, addHop, role?, slot?_modify] <;> split <;> cases g.slot? x <;> rfl

@[simp] theorem capabilities_wire (x : SlotId) :
    (g.wire u k v).capabilities x = g.capabilities x := by
  cases k <;> simp only [wire, addHop, capabilities, slot?_modify] <;> split <;>
    cases g.slot? x <;> rfl

@[simp] theorem role?_insertCapabilities (caps : Capabilities) (x : SlotId) :
    (g.insertCapabilities u caps).role? x = g.role? x := by
  simp only [insertCapabilities, role?, slot?_modify]; split <;> cases g.slot? x <;> rfl

theorem capabilities_insertCapabilities (caps : Capabilities) (h : u < g.size) (x : SlotId) :
    (g.insertCapabilities u caps).capabilities x =
      if x = u then (g.capabilities x).union caps else g.capabilities x := by
  simp only [insertCapabilities, capabilities, slot?_modify]
  split
  · obtain ⟨s, hs⟩ := exists_slot h
    subst x; simp [hs]
  · rfl

/-! ### Edges -/

@[simp] theorem hasEdge_next : g.HasEdge x .next y ↔ g.next? x = some y := Iff.rfl

@[simp] theorem hasEdge_hop : g.HasEdge x .hop y ↔ y ∈ g.hops x := Iff.rfl

theorem HasEdge.feeds (h : g.HasEdge x k y) : g.Feeds x y := ⟨k, h⟩

theorem hasEdge_iff_slot :
    g.HasEdge x k y ↔ ∃ s, g.slot? x = some s ∧
      match k with
      | .next => s.next = some y
      | .hop => y ∈ s.hops := by
  cases k <;> simp only [hasEdge_next, hasEdge_hop, next?, hops] <;> cases g.slot? x <;> simp

theorem HasEdge.source_lt (h : g.HasEdge x k y) : x < g.size := by
  obtain ⟨s, hs, -⟩ := hasEdge_iff_slot.1 h
  exact lt_of_slot hs

theorem Feeds.source_lt (h : g.Feeds x y) : x < g.size :=
  let ⟨_, h⟩ := h; h.source_lt

theorem next?_size : g.next? g.size = none := by
  simp [next?, slot?_eq_none.2 (Nat.le_refl g.size)]

theorem next?_add {s : Slot} (hs : s.next = none) (x : SlotId) :
    (g.add s).2.next? x = g.next? x := by
  simp only [next?, slot?_add]; split
  · subst x; simp [hs, slot?_eq_none.2 (Nat.le_refl g.size)]
  · rfl

theorem hops_add {s : Slot} (hs : s.hops = []) (x : SlotId) : (g.add s).2.hops x = g.hops x := by
  simp only [hops, slot?_add]; split
  · subst x; simp [hs, slot?_eq_none.2 (Nat.le_refl g.size)]
  · rfl

theorem hasEdge_add {s : Slot} (hn : s.next = none) (hh : s.hops = []) :
    (g.add s).2.HasEdge x k y ↔ g.HasEdge x k y := by
  cases k <;> simp only [hasEdge_next, hasEdge_hop, next?_add hn, hops_add hh]

@[simp] theorem next?_insertCapabilities (caps : Capabilities) (x : SlotId) :
    (g.insertCapabilities u caps).next? x = g.next? x := by
  simp only [insertCapabilities, next?, slot?_modify]; split <;> cases g.slot? x <;> rfl

@[simp] theorem hops_insertCapabilities (caps : Capabilities) (x : SlotId) :
    (g.insertCapabilities u caps).hops x = g.hops x := by
  simp only [insertCapabilities, hops, slot?_modify]; split <;> cases g.slot? x <;> rfl

@[simp] theorem hasEdge_insertCapabilities (caps : Capabilities) :
    (g.insertCapabilities u caps).HasEdge x k y ↔ g.HasEdge x k y := by
  cases k <;> simp

theorem next?_wire_next (hu : u < g.size) (x : SlotId) :
    (g.wire u .next v).next? x = if x = u then some v else g.next? x := by
  simp only [wire, next?, slot?_modify]; split
  · obtain ⟨s, hs⟩ := exists_slot hu
    subst x; simp [hs]
  · rfl

@[simp] theorem next?_wire_hop (x : SlotId) : (g.wire u .hop v).next? x = g.next? x := by
  simp only [wire, addHop, next?, slot?_modify]; split <;> cases g.slot? x <;> rfl

theorem next?_wire_ne (h : x ≠ u) : (g.wire u k v).next? x = g.next? x := by
  cases k <;> simp only [wire, addHop, next?, slot?_modify, if_neg h]

theorem hops_wire_ne (h : x ≠ u) : (g.wire u k v).hops x = g.hops x := by
  cases k <;> simp only [wire, addHop, hops, slot?_modify, if_neg h]

@[simp] theorem hops_wire_next (x : SlotId) : (g.wire u .next v).hops x = g.hops x := by
  simp only [wire, hops, slot?_modify]; split <;> cases g.slot? x <;> rfl

theorem hops_wire_hop (hu : u < g.size) (x : SlotId) :
    (g.wire u .hop v).hops x = if x = u then g.hops x ++ [v] else g.hops x := by
  simp only [wire, addHop, hops, slot?_modify]; split
  · obtain ⟨s, hs⟩ := exists_slot hu
    subst x; simp [hs]
  · rfl

theorem mem_hops_of_wire (h : y ∈ (g.wire u .hop v).hops x) : y ∈ g.hops x ∨ y = v := by
  simp only [wire, addHop, hops, slot?_modify] at h ⊢
  split at h <;> cases hs : g.slot? x <;> simp_all

/-- A stage gets a second edge to a following stage only in place of the first. -/
theorem hasEdge_wire (hu : u < g.size) (hn : k = .next → g.next? u = none) :
    (g.wire u k v).HasEdge x k' y ↔ g.HasEdge x k' y ∨ x = u ∧ k' = k ∧ y = v := by
  cases k <;> cases k' <;> simp only [hasEdge_next, hasEdge_hop, next?_wire_next hu, next?_wire_hop,
    hops_wire_next, hops_wire_hop hu]
  · split
    · subst x; simp [hn rfl, eq_comm]
    · simp [*]
  · simp
  · simp
  · split <;> simp [*]

/-! ### Walks -/

theorem feeds_add {s : Slot} (hn : s.next = none) (hh : s.hops = []) :
    (g.add s).2.Feeds = g.Feeds := by
  funext x y
  simp [Feeds, hasEdge_add hn hh]

theorem feeds_insertCapabilities (caps : Capabilities) :
    (g.insertCapabilities u caps).Feeds = g.Feeds := by
  funext x y
  simp [Feeds]

theorem feeds_wire (hu : u < g.size) (hn : k = .next → g.next? u = none) :
    (g.wire u k v).Feeds x y ↔ g.Feeds x y ∨ x = u ∧ y = v := by
  simp only [Feeds, hasEdge_wire hu hn]
  constructor
  · rintro ⟨k', h | ⟨rfl, -, rfl⟩⟩
    · exact .inl ⟨k', h⟩
    · exact .inr ⟨rfl, rfl⟩
  · rintro (⟨k', h⟩ | ⟨rfl, rfl⟩)
    · exact ⟨k', .inl h⟩
    · exact ⟨k, .inr ⟨rfl, rfl, rfl⟩⟩

theorem Reaches.wire (hu : u < g.size) (hn : k = .next → g.next? u = none) (h : g.Reaches x y) :
    (g.wire u k v).Reaches x y :=
  Relation.ReflTransGen.mono (fun _ _ hxy => (feeds_wire (v := v) hu hn).2 (.inl hxy)) _ _ h

/-- A walk after one more edge is one before, or it passes the new edge. -/
theorem reaches_wire (hu : u < g.size) (hn : k = .next → g.next? u = none)
    (h : (g.wire u k v).Reaches x y) : g.Reaches x y ∨ g.Reaches x u ∧ g.Reaches v y := by
  induction h with
  | refl => exact .inl .refl
  | tail _ hyz ih =>
    rcases (feeds_wire hu hn).1 hyz with hyz | ⟨rfl, rfl⟩
    · exact ih.imp (·.tail hyz) fun ⟨h₁, h₂⟩ => ⟨h₁, h₂.tail hyz⟩
    · rcases ih with ih | ⟨ih, -⟩
      · exact .inr ⟨ih, .refl⟩
      · exact .inr ⟨ih, .refl⟩

/-- A new edge closes no cycle if its end does not reach its start. -/
theorem Acyclic.wire (hg : g.Acyclic) (hu : u < g.size) (hn : k = .next → g.next? u = none)
    (h : ¬ g.Reaches v u) : (g.wire u k v).Acyclic := by
  intro x hx
  obtain ⟨z, hxz, hzx⟩ := Relation.TransGen.tail'_iff.1 hx
  rcases (feeds_wire hu hn).1 hzx with hzx | ⟨rfl, rfl⟩
  · rcases reaches_wire hu hn hxz with hxz | ⟨hxu, hvz⟩
    · exact hg x (Relation.TransGen.tail' hxz hzx)
    · exact h ((hvz.tail hzx).trans hxu)
  · rcases reaches_wire hu hn hxz with hxz | ⟨-, hvz⟩
    · exact h hxz
    · exact h hvz

theorem Reaches.eq_of_sink (hx : ∀ y, ¬ g.Feeds x y) (h : g.Reaches x y) : x = y := by
  rcases Relation.ReflTransGen.cases_head h with h | ⟨z, hz, -⟩
  · exact h
  · exact absurd hz (hx z)

theorem Reaches.eq_of_free (hy : ∀ x, ¬ g.Feeds x y) (h : g.Reaches x y) : x = y := by
  rcases Relation.ReflTransGen.cases_tail h with h | ⟨z, -, hz⟩
  · exact h.symm
  · exact absurd hz (hy z)

/-! ### The edges into a slot -/

theorem mem_edgesOf {id : SlotId} {s : Slot} {e : Edge} :
    e ∈ edgesOf id s ↔ e.source = id ∧
      match e.kind with
      | .next => s.next = some e.target
      | .hop => e.target ∈ s.hops := by
  obtain ⟨a, b, k⟩ := e
  cases k <;> simp only [edgesOf, List.mem_append, List.mem_map, Option.mem_toList, Edge.mk.injEq,
    and_true, reduceCtorEq, and_false, exists_false, or_false, false_or]
  · exact ⟨fun ⟨_, h, hid, hb⟩ => ⟨hid.symm, hb ▸ h⟩, fun ⟨hid, h⟩ => ⟨_, h, hid.symm, rfl⟩⟩
  · exact ⟨fun ⟨_, h, hid, hb⟩ => ⟨hid.symm, hb ▸ h⟩, fun ⟨hid, h⟩ => ⟨_, h, hid.symm, rfl⟩⟩

theorem mem_indexed {p : SlotId × Slot} : p ∈ g.indexed ↔ g.slot? p.1 = some p.2 := by
  obtain ⟨x, s⟩ := p
  simp only [indexed, List.mem_map, Prod.mk.injEq, Prod.exists, slot?]
  constructor
  · rintro ⟨t, i, h, rfl, rfl⟩
    simpa [List.mem_zipIdx_iff_getElem?] using h
  · intro h
    exact ⟨s, x, by simpa [List.mem_zipIdx_iff_getElem?] using h, rfl, rfl⟩

theorem map_fst_indexed (g : Graph) : g.indexed.map (·.1) = List.range g.size := by
  simp only [indexed, List.map_map, Function.comp_def]
  rw [List.zipIdx_map_snd, List.range_eq_range', size, Array.length_toList]

theorem mem_entering {e : Edge} :
    e ∈ g.entering y ↔ e.target = y ∧ g.HasEdge e.source e.kind e.target := by
  simp only [entering, List.mem_filter, List.mem_flatMap, Prod.exists, mem_indexed, mem_edgesOf,
    decide_eq_true_eq, hasEdge_iff_slot]
  constructor
  · rintro ⟨⟨x, s, hs, rfl, h⟩, rfl⟩
    exact ⟨rfl, s, hs, h⟩
  · rintro ⟨rfl, s, hs, h⟩
    exact ⟨⟨_, s, hs, rfl, h⟩, rfl⟩

theorem nodup_edgesOf (id : SlotId) {s : Slot} (hs : s.hops.Nodup) : (edgesOf id s).Nodup := by
  refine List.nodup_append'.2 ⟨?_, hs.map fun _ _ h => by simpa using h, ?_⟩
  · cases s.next <;> simp
  · intro e h h'
    simp only [List.mem_map] at h h'
    obtain ⟨_, -, rfl⟩ := h
    obtain ⟨_, -, h⟩ := h'
    simp at h

theorem nodup_entering (h : ∀ x, (g.hops x).Nodup) : (g.entering y).Nodup := by
  refine List.Nodup.filter _ (List.nodup_flatMap.2 ⟨fun p hp => ?_, ?_⟩)
  · refine nodup_edgesOf _ ?_
    have := h p.1
    rwa [hops, mem_indexed.1 hp] at this
  · have hnd : (g.indexed.map (·.1)).Nodup := by
      rw [map_fst_indexed]
      exact List.nodup_range
    refine (List.pairwise_map.1 hnd).imp fun hne e he he' => hne ?_
    rw [← (mem_edgesOf.1 he).1, (mem_edgesOf.1 he').1]

end Graph

end Routing
