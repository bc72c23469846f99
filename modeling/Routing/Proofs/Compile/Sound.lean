import Routing.Compile.Basic
import Routing.Proofs.Graph.Edges
/-!
# Sound states of compiling

What holds of the graph and of what is remembered whenever no stage is half built. `Core` holds even
then: a new slot and an edge that `Wiring` allows keep it. `Settled` says that a slot has the edges
that its role asks for.

The graph has no cycle because an edge to a stage with edges of its own goes to the head of a part
that was just compiled. Such a head reaches what is new and, through remembered destinations, what is
old, and no destination ever reaches a stage after a source (`Core.apart`).
-/

namespace Routing

variable {σ ω : Type}

/-- The slot has the edges that its role asks for. -/
structure Graph.Served (g : Graph) (x : SlotId) : Prop where
  fork : g.role? x = some .multiplexer → ∃ y, g.HasEdge x .hop y
  join : g.role? x = some .join → ∃ y, g.HasEdge y .next x
  attach : g.role? x = some .attach → ∃ y, g.HasEdge y .hop x

namespace Graph.Served

variable {g : Graph} {x y u v : SlotId} {k : EdgeKind}

theorem of_fork (hr : g.role? x = some .multiplexer) (h : g.HasEdge x .hop y) : g.Served x :=
  ⟨fun _ => ⟨y, h⟩, fun hr' => by rw [hr] at hr'; simp at hr', fun hr' => by rw [hr] at hr'; simp at hr'⟩

theorem of_join (hr : g.role? x = some .join) (h : g.HasEdge y .next x) : g.Served x :=
  ⟨fun hr' => by rw [hr] at hr'; simp at hr', fun _ => ⟨y, h⟩, fun hr' => by rw [hr] at hr'; simp at hr'⟩

theorem of_attach (hr : g.role? x = some .attach) (h : g.HasEdge y .hop x) : g.Served x :=
  ⟨fun hr' => by rw [hr] at hr'; simp at hr', fun hr' => by rw [hr] at hr'; simp at hr', fun _ => ⟨y, h⟩⟩

theorem add (h : g.Served x) (hx : x < g.size) {s : Slot} (hn : s.next = none) (hh : s.hops = []) :
    (g.add s).2.Served x := by
  refine ⟨fun hr => ?_, fun hr => ?_, fun hr => ?_⟩ <;> rw [role?_add_lt hx] at hr
  · obtain ⟨y, hy⟩ := h.fork hr
    exact ⟨y, (hasEdge_add hn hh).2 hy⟩
  · obtain ⟨y, hy⟩ := h.join hr
    exact ⟨y, (hasEdge_add hn hh).2 hy⟩
  · obtain ⟨y, hy⟩ := h.attach hr
    exact ⟨y, (hasEdge_add hn hh).2 hy⟩

theorem wire (h : g.Served x) (hu : u < g.size) (hn : k = .next → g.next? u = none) :
    (g.wire u k v).Served x := by
  refine ⟨fun hr => ?_, fun hr => ?_, fun hr => ?_⟩ <;> rw [role?_wire] at hr
  · obtain ⟨y, hy⟩ := h.fork hr
    exact ⟨y, (hasEdge_wire hu hn).2 (.inl hy)⟩
  · obtain ⟨y, hy⟩ := h.join hr
    exact ⟨y, (hasEdge_wire hu hn).2 (.inl hy)⟩
  · obtain ⟨y, hy⟩ := h.attach hr
    exact ⟨y, (hasEdge_wire hu hn).2 (.inl hy)⟩

theorem insertCapabilities (h : g.Served x) (caps : Capabilities) :
    (g.insertCapabilities u caps).Served x := by
  refine ⟨fun hr => ?_, fun hr => ?_, fun hr => ?_⟩ <;> rw [role?_insertCapabilities] at hr
  · obtain ⟨y, hy⟩ := h.fork hr
    exact ⟨y, (hasEdge_insertCapabilities caps).2 hy⟩
  · obtain ⟨y, hy⟩ := h.join hr
    exact ⟨y, (hasEdge_insertCapabilities caps).2 hy⟩
  · obtain ⟨y, hy⟩ := h.attach hr
    exact ⟨y, (hasEdge_insertCapabilities caps).2 hy⟩

end Graph.Served

namespace Build

/-- The slot is remembered for a target of this kind. -/
def Marked (b : Build σ ω) (kind : Kind) (id : SlotId) : Prop :=
  ∃ key : TargetKey, key.kind = kind ∧ (key, id) ∈ b.memos

/-- The slot follows the remembered end of a source. -/
def SourceFork (b : Build σ ω) (id : SlotId) : Prop :=
  ∃ tail, b.Marked .source tail ∧ b.graph.HasEdge tail .next id

/-- What the slot reaches is entered from what the slot reaches, remembered destinations apart. -/
def Shut (b : Build σ ω) (id : SlotId) : Prop :=
  ∀ ⦃x y⦄, b.graph.Feeds x y → b.graph.Reaches id y →
    b.graph.Reaches id x ∨ b.Marked .destination y

/-- What holds at every moment. -/
structure Core (b : Build σ ω) : Prop where
  target_lt : ∀ {x k y}, b.graph.HasEdge x k y → y < b.graph.size
  hop_fork : ∀ {x y}, b.graph.HasEdge x .hop y → b.graph.role? x = some .multiplexer
  hops_nodup : ∀ x, (b.graph.hops x).Nodup
  target_plain : ∀ {x k y}, b.graph.HasEdge x k y → (b.graph.capabilities y).isSource = false
  join_next : ∀ {x k y}, b.graph.role? y = some .join → b.graph.HasEdge x k y → k = .next
  attach_hop : ∀ {x k y}, b.graph.role? y = some .attach → b.graph.HasEdge x k y → k = .hop
  marked_hop : ∀ {x k y}, b.Marked .destination y → b.graph.HasEdge x k y → k = .hop
  /-- Stages other than joins and remembered destinations have one edge that enters. -/
  unique : ∀ {x x' k k' y}, b.graph.role? y ≠ some .join → ¬ b.Marked .destination y →
    b.graph.HasEdge x k y → b.graph.HasEdge x' k' y → x = x' ∧ k = k'
  memo_lt : ∀ {key id}, (key, id) ∈ b.memos → id < b.graph.size
  marked_role : ∀ {y}, b.Marked .destination y →
    b.graph.role? y ≠ some .join ∧ b.graph.role? y ≠ some .attach
  marked_plain : ∀ {y}, b.Marked .destination y → (b.graph.capabilities y).isSource = false
  /-- Destinations and sources lie apart. -/
  apart : ∀ {d m}, b.Marked .destination d → b.SourceFork m → ¬ b.graph.Reaches d m
  shut : ∀ {d}, b.Marked .destination d → b.Shut d
  acyclic : b.graph.Acyclic

/-- The slot has the edges that its role asks for, and a fork follows if it ends a source. -/
structure Settled (b : Build σ ω) (x : SlotId) : Prop extends Graph.Served b.graph x where
  tail : b.Marked .source x →
    ∃ m, b.graph.HasEdge x .next m ∧ b.graph.role? m = some .multiplexer

/-- What holds whenever no stage is half built. -/
structure Sound (b : Build σ ω) : Prop where
  core : b.Core
  settled : ∀ x, b.Settled x

/-- An edge may be added. -/
structure Wiring (b : Build σ ω) (u : SlotId) (k : EdgeKind) (v : SlotId) : Prop where
  source_lt : u < b.graph.size
  target_lt : v < b.graph.size
  next : k = .next → b.graph.next? u = none
  hop : k = .hop → b.graph.role? u = some .multiplexer ∧ v ∉ b.graph.hops u
  plain : (b.graph.capabilities v).isSource = false
  join : b.graph.role? v = some .join → k = .next
  attach : b.graph.role? v = some .attach → k = .hop
  marked : b.Marked .destination v → k = .hop
  free : b.graph.role? v = some .join ∨ b.Marked .destination v ∨ ∀ x, ¬ b.graph.Feeds x v
  /-- What follows a source is new. -/
  fork : k = .next → b.Marked .source u → ∀ x, ¬ b.graph.Feeds x v
  above : ∀ {d}, b.Marked .destination d → ¬ b.graph.Reaches d u
  shut : ∀ {d}, b.Marked .destination d → b.graph.Reaches d v → b.Marked .destination v
  back : ¬ b.graph.Reaches v u

/-- The state with one more slot, and with its pool of stages changed. -/
def grow (b : Build σ ω) (pool : Pool σ ω) (s : Slot) : Build σ ω :=
  { b with graph := (b.graph.add s).2, pool }

/-- The state with one more edge. -/
def wire (b : Build σ ω) (u : SlotId) (k : EdgeKind) (v : SlotId) : Build σ ω :=
  { b with graph := b.graph.wire u k v }

/-- The state with a target remembered. -/
def mark (b : Build σ ω) (key : TargetKey) (id : SlotId) : Build σ ω :=
  { b with memos := (key, id) :: b.memos }

/-- The state with more capabilities at a slot. -/
def enable (b : Build σ ω) (id : SlotId) (caps : Capabilities) : Build σ ω :=
  { b with graph := b.graph.insertCapabilities id caps }

variable {b : Build σ ω} {x y u v d : SlotId} {k : EdgeKind} {p : Pool σ ω} {s : Slot}
  {key : TargetKey} {kind : Kind}

theorem marked_mark : (b.mark key u).Marked kind y ↔ key.kind = kind ∧ y = u ∨ b.Marked kind y := by
  simp only [Marked, mark, List.mem_cons, Prod.mk.injEq]
  constructor
  · rintro ⟨_, h, ⟨rfl, rfl⟩ | h'⟩
    · exact .inl ⟨h, rfl⟩
    · exact .inr ⟨_, h, h'⟩
  · rintro (⟨h, rfl⟩ | ⟨_, h, h'⟩)
    · exact ⟨_, h, .inl ⟨rfl, rfl⟩⟩
    · exact ⟨_, h, .inr h'⟩

theorem Core.marked_lt (h : b.Core) (hy : b.Marked kind y) : y < b.graph.size :=
  let ⟨_, _, hy⟩ := hy; h.memo_lt hy

theorem Core.unmarked_size (h : b.Core) : ¬ b.Marked kind b.graph.size :=
  fun hm => Nat.lt_irrefl _ (h.marked_lt hm)

theorem Core.reaches_lt (h : b.Core) (hx : x < b.graph.size) (hxy : b.graph.Reaches x y) :
    y < b.graph.size := by
  rcases Relation.ReflTransGen.cases_tail hxy with rfl | ⟨z, -, k, hz⟩
  · exact hx
  · exact h.target_lt hz

theorem Shut.mark (h : b.Shut x) : (b.mark key u).Shut x := by
  intro y z hyz hr
  exact (h hyz hr).imp_right fun hm => marked_mark.2 (.inr hm)

theorem Core.length_entering (hb : b.Core) (hj : b.graph.role? y ≠ some .join)
    (hm : ¬ b.Marked .destination y) : (b.graph.entering y).length ≤ 1 := by
  have hsame : ∀ e ∈ b.graph.entering y, ∀ e' ∈ b.graph.entering y, e = e' := by
    intro e he e' he'
    obtain ⟨ht, he⟩ := Graph.mem_entering.1 he
    obtain ⟨ht', he'⟩ := Graph.mem_entering.1 he'
    obtain ⟨hs, hk⟩ := hb.unique hj hm (ht ▸ he) (ht' ▸ he')
    obtain ⟨x, z, k⟩ := e
    obtain ⟨x', z', k'⟩ := e'
    obtain rfl : x = x' := hs
    obtain rfl : k = k' := hk
    rw [show z = z' from ht.trans ht'.symm]
  have hnd : (b.graph.entering y).Nodup := Graph.nodup_entering hb.hops_nodup
  match hl : b.graph.entering y with
  | [] => exact Nat.zero_le _
  | [_] => exact Nat.le_refl _
  | e :: e' :: _ =>
    rw [hl] at hsame hnd
    have := hsame e (by simp) e' (by simp)
    rw [this] at hnd
    simp at hnd

/-! ### One more slot -/

section Grow

theorem sourceFork_grow (hn : s.next = none) : (b.grow p s).SourceFork y ↔ b.SourceFork y := by
  simp only [SourceFork, grow, Graph.hasEdge_next, Graph.next?_add hn]; rfl

theorem hasEdge_grow (hn : s.next = none) (hh : s.hops = []) :
    (b.grow p s).graph.HasEdge x k y ↔ b.graph.HasEdge x k y :=
  Graph.hasEdge_add hn hh

theorem role?_grow (hx : x < b.graph.size) : (b.grow p s).graph.role? x = b.graph.role? x :=
  Graph.role?_add_lt hx

theorem capabilities_grow (hx : x < b.graph.size) :
    (b.grow p s).graph.capabilities x = b.graph.capabilities x :=
  Graph.capabilities_add_lt hx

theorem shut_grow (hn : s.next = none) (hh : s.hops = []) : (b.grow p s).Shut x ↔ b.Shut x := by
  simp only [Shut, Graph.Reaches, grow, Graph.feeds_add hn hh]; rfl

theorem Core.grow (h : b.Core) (hn : s.next = none) (hh : s.hops = []) : (b.grow p s).Core where
  target_lt hxy := by
    have hlt := Nat.lt_succ_of_lt (h.target_lt ((hasEdge_grow hn hh).1 hxy))
    exact Nat.lt_of_lt_of_eq hlt (Graph.size_add s).symm
  hop_fork hxy := by
    have hxy := (hasEdge_grow hn hh).1 hxy
    rw [role?_grow hxy.source_lt]
    exact h.hop_fork hxy
  hops_nodup x := by
    rw [Build.grow, Graph.hops_add hh]
    exact h.hops_nodup x
  target_plain hxy := by
    have hxy := (hasEdge_grow hn hh).1 hxy
    rw [capabilities_grow (h.target_lt hxy)]
    exact h.target_plain hxy
  join_next hy hxy := by
    have hxy := (hasEdge_grow hn hh).1 hxy
    rw [role?_grow (h.target_lt hxy)] at hy
    exact h.join_next hy hxy
  attach_hop hy hxy := by
    have hxy := (hasEdge_grow hn hh).1 hxy
    rw [role?_grow (h.target_lt hxy)] at hy
    exact h.attach_hop hy hxy
  marked_hop hy hxy := h.marked_hop hy ((hasEdge_grow hn hh).1 hxy)
  unique hj hm hxy hxy' := by
    have hxy := (hasEdge_grow hn hh).1 hxy
    rw [role?_grow (h.target_lt hxy)] at hj
    exact h.unique hj hm hxy ((hasEdge_grow hn hh).1 hxy')
  memo_lt hm := Nat.lt_of_lt_of_eq (Nat.lt_succ_of_lt (h.memo_lt hm)) (Graph.size_add s).symm
  marked_role {y} hy := by
    have hlt : y < b.graph.size := h.marked_lt hy
    rw [role?_grow hlt]
    exact h.marked_role hy
  marked_plain {y} hy := by
    have hlt : y < b.graph.size := h.marked_lt hy
    rw [capabilities_grow hlt]
    exact h.marked_plain hy
  apart hd hm := by
    rw [Graph.Reaches, Build.grow, Graph.feeds_add hn hh]
    exact h.apart hd ((sourceFork_grow hn).1 hm)
  shut hd := (shut_grow hn hh).2 (h.shut hd)
  acyclic x := by
    rw [Build.grow, Graph.feeds_add hn hh]
    exact h.acyclic x

theorem Settled.grow (h : b.Settled x) (hc : b.Core) (hx : x < b.graph.size) (hn : s.next = none)
    (hh : s.hops = []) : (b.grow p s).Settled x where
  toServed := h.toServed.add hx hn hh
  tail hm := by
    obtain ⟨m, hm, hr⟩ := h.tail hm
    exact ⟨m, (Graph.hasEdge_add hn hh).2 hm,
      by rw [Build.grow, Graph.role?_add_lt (hc.target_lt hm)]; exact hr⟩

end Grow

/-! ### One more edge -/

section Wire

@[simp] theorem size_wire : (b.wire u k v).graph.size = b.graph.size := Graph.size_wire

@[simp] theorem role?_wire : (b.wire u k v).graph.role? x = b.graph.role? x := Graph.role?_wire x

@[simp] theorem capabilities_wire :
    (b.wire u k v).graph.capabilities x = b.graph.capabilities x := Graph.capabilities_wire x

@[simp] theorem next?_wire_hop : (b.wire u .hop v).graph.next? x = b.graph.next? x :=
  Graph.next?_wire_hop x

theorem hasEdge_wire (hw : b.Wiring u k v) {k' : EdgeKind} :
    (b.wire u k v).graph.HasEdge x k' y ↔ b.graph.HasEdge x k' y ∨ x = u ∧ k' = k ∧ y = v :=
  Graph.hasEdge_wire hw.source_lt hw.next

theorem Wiring.unfed (hw : b.Wiring u k v) (hj : b.graph.role? v ≠ some .join)
    (hm : ¬ b.Marked .destination v) : ∀ x, ¬ b.graph.Feeds x v :=
  (hw.free.resolve_left hj).resolve_left hm

/-- What destinations reach over a new edge they reached before, unless the edge ends in what is
free. -/
theorem Core.apart_wire (h : b.Core) (hw : b.Wiring u k v) {d m : SlotId}
    (hd : b.Marked .destination d) (hm : (b.wire u k v).SourceFork m) :
    ¬ (b.wire u k v).graph.Reaches d m := by
  obtain ⟨t, ht, htm⟩ := hm
  intro hdm
  rcases Graph.reaches_wire hw.source_lt hw.next hdm with hold | ⟨hdu, -⟩
  · rcases (hasEdge_wire hw).1 htm with htm | ⟨rfl, rfl, rfl⟩
    · exact h.apart hd ⟨t, ht, htm⟩ hold
    · obtain rfl := hold.eq_of_free (hw.fork rfl ht)
      exact absurd (hw.marked hd) (by simp)
  · exact hw.above hd hdu

/-- A slot stays shut if a new edge below it leads to what is shut, and a new edge to what is below
it starts there. -/
theorem Shut.wire (h : b.Shut x) (hw : b.Wiring u k v)
    (hu : b.graph.Reaches x u → b.graph.Reaches x v ∨ b.Shut v)
    (hv : b.graph.Reaches x v → b.graph.Reaches x u ∨ b.Marked .destination v) :
    (b.wire u k v).Shut x := by
  have old : ∀ {y}, b.graph.Reaches x y → (b.wire u k v).graph.Reaches x y := fun hr =>
    hr.wire hw.source_lt hw.next
  have below : ∀ {y}, b.graph.Reaches x u → b.graph.Reaches v y →
      (b.wire u k v).graph.Reaches x y := fun hxu hvy =>
    ((old hxu).tail ((Graph.feeds_wire hw.source_lt hw.next).2 (.inr ⟨rfl, rfl⟩))).trans
      (hvy.wire hw.source_lt hw.next)
  intro y z hyz hr
  rcases (Graph.feeds_wire hw.source_lt hw.next).1 hyz with hyz | ⟨rfl, rfl⟩
  · rcases Graph.reaches_wire hw.source_lt hw.next hr with hr | ⟨hxu, hvz⟩
    · exact (h hyz hr).imp_left old
    · rcases hu hxu with hxv | hs
      · exact (h hyz (hxv.trans hvz)).imp_left old
      · exact (hs hyz hvz).imp_left (below hxu)
  · rcases Graph.reaches_wire hw.source_lt hw.next hr with hr | ⟨hxu, -⟩
    · exact (hv hr).imp_left old
    · exact .inl (old hxu)

theorem Core.wire (h : b.Core) (hw : b.Wiring u k v) : (b.wire u k v).Core where
  target_lt hxy := by
    rw [size_wire]
    rcases (hasEdge_wire hw).1 hxy with hxy | ⟨-, -, rfl⟩
    · exact h.target_lt hxy
    · exact hw.target_lt
  hop_fork hxy := by
    rw [role?_wire]
    rcases (hasEdge_wire hw).1 hxy with hxy | ⟨rfl, hk, rfl⟩
    · exact h.hop_fork hxy
    · exact (hw.hop hk.symm).1
  hops_nodup x := by
    cases k with
    | next => rw [Build.wire, Graph.hops_wire_next]; exact h.hops_nodup x
    | hop =>
      rw [Build.wire, Graph.hops_wire_hop hw.source_lt]
      split
      · subst x
        simpa using List.Nodup.concat (hw.hop rfl).2 (h.hops_nodup u)
      · exact h.hops_nodup x
  target_plain hxy := by
    rw [capabilities_wire]
    rcases (hasEdge_wire hw).1 hxy with hxy | ⟨-, -, rfl⟩
    · exact h.target_plain hxy
    · exact hw.plain
  join_next hy hxy := by
    rw [role?_wire] at hy
    rcases (hasEdge_wire hw).1 hxy with hxy | ⟨-, rfl, rfl⟩
    · exact h.join_next hy hxy
    · exact hw.join hy
  attach_hop hy hxy := by
    rw [role?_wire] at hy
    rcases (hasEdge_wire hw).1 hxy with hxy | ⟨-, rfl, rfl⟩
    · exact h.attach_hop hy hxy
    · exact hw.attach hy
  marked_hop hy hxy := by
    rcases (hasEdge_wire hw).1 hxy with hxy | ⟨-, rfl, rfl⟩
    · exact h.marked_hop hy hxy
    · exact hw.marked hy
  unique {x x' k' k'' y} hj hm hxy hxy' := by
    rw [role?_wire] at hj
    rcases (hasEdge_wire hw).1 hxy with hold | ⟨hx, hk, hy⟩ <;>
      rcases (hasEdge_wire hw).1 hxy' with hold' | ⟨hx', hk', hy'⟩
    · exact h.unique hj hm hold hold'
    · subst hy'
      exact absurd hold.feeds (hw.unfed hj hm x)
    · subst hy
      exact absurd hold'.feeds (hw.unfed hj hm x')
    · exact ⟨hx.trans hx'.symm, hk.trans hk'.symm⟩
  memo_lt hm := by
    rw [size_wire]
    exact h.memo_lt hm
  marked_role hy := by
    rw [role?_wire]
    exact h.marked_role hy
  marked_plain hy := by
    rw [capabilities_wire]
    exact h.marked_plain hy
  apart hd hm := h.apart_wire hw hd hm
  shut hd := (h.shut hd).wire hw (fun hr => absurd hr (hw.above hd)) fun hr => .inr (hw.shut hd hr)
  acyclic := h.acyclic.wire hw.source_lt hw.next hw.back

theorem Settled.wire (h : b.Settled x) (hw : b.Wiring u k v) : (b.wire u k v).Settled x where
  toServed := h.toServed.wire hw.source_lt hw.next
  tail hm := by
    obtain ⟨m, hm, hr⟩ := h.tail hm
    exact ⟨m, (hasEdge_wire hw).2 (.inl hm), by rw [role?_wire]; exact hr⟩

end Wire

/-! ### Other changes -/

theorem Core.pool (h : b.Core) : Core { b with pool := p } :=
  ⟨h.target_lt, h.hop_fork, h.hops_nodup, h.target_plain, h.join_next, h.attach_hop, h.marked_hop,
    h.unique, h.memo_lt, h.marked_role, h.marked_plain, h.apart, h.shut, h.acyclic⟩

theorem Sound.pool (h : b.Sound) : Sound { b with pool := p } :=
  ⟨h.core.pool, fun x => ⟨(h.settled x).toServed, (h.settled x).tail⟩⟩

@[simp] theorem size_enable {caps : Capabilities} : (b.enable u caps).graph.size = b.graph.size :=
  Graph.size_insertCapabilities caps

@[simp] theorem role?_enable {caps : Capabilities} :
    (b.enable u caps).graph.role? x = b.graph.role? x := Graph.role?_insertCapabilities caps x

@[simp] theorem next?_enable {caps : Capabilities} :
    (b.enable u caps).graph.next? x = b.graph.next? x := Graph.next?_insertCapabilities caps x

@[simp] theorem hasEdge_enable {caps : Capabilities} :
    (b.enable u caps).graph.HasEdge x k y ↔ b.graph.HasEdge x k y :=
  Graph.hasEdge_insertCapabilities caps

@[simp] theorem feeds_enable {caps : Capabilities} : (b.enable u caps).graph.Feeds = b.graph.Feeds :=
  Graph.feeds_insertCapabilities caps

theorem shut_enable {caps : Capabilities} : (b.enable u caps).Shut x ↔ b.Shut x := by
  simp only [Shut, Graph.Reaches, feeds_enable]; rfl

theorem isSource_enable {caps : Capabilities} (hu : u < b.graph.size)
    (hc : caps.isSource = false) (x : SlotId) :
    ((b.enable u caps).graph.capabilities x).isSource = (b.graph.capabilities x).isSource := by
  rw [Build.enable, Graph.capabilities_insertCapabilities caps hu]
  split <;> simp [Capabilities.union, hc]

theorem Core.enable (h : b.Core) {caps : Capabilities} (hu : u < b.graph.size)
    (hc : caps.isSource = false) : (b.enable u caps).Core where
  target_lt hxy := by
    rw [size_enable]
    exact h.target_lt (hasEdge_enable.1 hxy)
  hop_fork hxy := by
    rw [role?_enable]
    exact h.hop_fork (hasEdge_enable.1 hxy)
  hops_nodup x := by
    rw [Build.enable, Graph.hops_insertCapabilities]
    exact h.hops_nodup x
  target_plain hxy := by
    rw [isSource_enable hu hc]
    exact h.target_plain (hasEdge_enable.1 hxy)
  join_next hy hxy := by
    rw [role?_enable] at hy
    exact h.join_next hy (hasEdge_enable.1 hxy)
  attach_hop hy hxy := by
    rw [role?_enable] at hy
    exact h.attach_hop hy (hasEdge_enable.1 hxy)
  marked_hop hy hxy := h.marked_hop hy (hasEdge_enable.1 hxy)
  unique hj hm hxy hxy' := by
    rw [role?_enable] at hj
    exact h.unique hj hm (hasEdge_enable.1 hxy) (hasEdge_enable.1 hxy')
  memo_lt hm := by
    rw [size_enable]
    exact h.memo_lt hm
  marked_role hy := by
    rw [role?_enable]
    exact h.marked_role hy
  marked_plain hy := by
    rw [isSource_enable hu hc]
    exact h.marked_plain hy
  apart {d m} hd hm := by
    obtain ⟨t, ht, htm⟩ := hm
    rw [Graph.Reaches, feeds_enable]
    exact h.apart hd ⟨t, ht, hasEdge_enable.1 htm⟩
  shut hd := shut_enable.2 (h.shut hd)
  acyclic x := by
    rw [feeds_enable]
    exact h.acyclic x

theorem Sound.enable (h : b.Sound) {caps : Capabilities} (hu : u < b.graph.size)
    (hc : caps.isSource = false) : (b.enable u caps).Sound where
  core := h.core.enable hu hc
  settled x :=
    { toServed := (h.settled x).toServed.insertCapabilities caps
      tail := fun hm => by
        obtain ⟨m, hm, hr⟩ := (h.settled x).tail hm
        exact ⟨m, hasEdge_enable.2 hm, by rw [role?_enable]; exact hr⟩ }

theorem sound_empty (pool : Pool σ ω) : Sound { pool } := by
  have edge : ∀ {x k y}, ¬ Graph.HasEdge {} x k y := fun h => absurd h.source_lt (Nat.not_lt_zero _)
  have marked : ∀ {kind y}, ¬ Marked { pool } kind y := fun ⟨_, _, h⟩ => List.not_mem_nil h
  have role : ∀ {x r}, ¬ Graph.role? {} x = some r :=
    fun h => absurd (Graph.role?_lt h) (Nat.not_lt_zero _)
  refine ⟨⟨fun h => (edge h).elim, fun h => (edge h).elim, fun x => ?_, fun h => (edge h).elim,
    fun _ h => (edge h).elim, fun _ h => (edge h).elim, fun h => (marked h).elim,
    fun _ _ h => (edge h).elim, fun h => (List.not_mem_nil h).elim, fun h => (marked h).elim,
    fun h => (marked h).elim, fun h => (marked h).elim, fun h => (marked h).elim, fun x h => ?_⟩,
    fun x => ⟨⟨fun h => (role h).elim, fun h => (role h).elim, fun h => (role h).elim⟩,
      fun h => (marked h).elim⟩⟩
  · simp [Graph.hops, Graph.slot?]
  · obtain ⟨z, -, k, hz⟩ := Relation.TransGen.tail'_iff.1 h
    exact edge hz

end Build

end Routing
