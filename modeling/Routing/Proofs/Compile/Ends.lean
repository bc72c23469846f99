import Routing.Proofs.Compile.Extends
/-!
# Ends of what was compiled

A part of the graph that was just compiled has ends at which it can be joined to others. `Headed` and
`Tailed` say what holds of its head and of its tail until they are used, and `Joined` what holds of a
point where tails meet. All three outlive what is compiled next, and they allow the edges that join
parts together.
-/

namespace Routing

variable {σ ω : Type}

namespace Build

/-- Nothing enters the stage yet. -/
structure Headed (b₀ b : Build σ ω) (h : SlotId) : Prop where
  new : b₀.graph.size ≤ h
  lt : h < b.graph.size
  free : ∀ x, ¬ b.graph.Feeds x h
  plain : (b.graph.capabilities h).isSource = false
  role : b.graph.role? h ≠ some .join ∧ b.graph.role? h ≠ some .attach
  unmarked : ¬ b.Marked .destination h
  apart : ∀ {m}, b.SourceFork m → ¬ b.graph.Reaches h m
  shut : b.Shut h

/-- No stage follows the stage yet. -/
structure Tailed (b₀ b : Build σ ω) (t : SlotId) : Prop where
  new : b₀.graph.size ≤ t
  lt : t < b.graph.size
  last : b.graph.next? t = none
  apart : ∀ {d}, b.Marked .destination d → ¬ b.graph.Reaches d t

/-- Tails may meet at the stage. -/
structure Joined (b₀ b : Build σ ω) (j : SlotId) : Prop extends Tailed b₀ b j where
  role : b.graph.role? j = some .join
  plain : (b.graph.capabilities j).isSource = false

variable {b₀ b₁ b b' : Build σ ω} {h t j f u v d x : SlotId} {k : EdgeKind} {p : Pool σ ω} {s : Slot}

theorem Sound.sourceFork_role (hb : b.Sound) (hm : b.SourceFork x) :
    b.graph.role? x = some .multiplexer := by
  obtain ⟨t, ht, he⟩ := hm
  obtain ⟨m, hm, hr⟩ := (hb.settled t).tail ht
  obtain rfl : x = m := Option.some.inj (he.symm.trans hm)
  exact hr

/-- What reaches no fork after a source reaches no remembered source. -/
theorem Sound.not_reaches_source (hb : b.Sound) (ht : b.Marked .source t)
    (hx : ∀ {m}, b.SourceFork m → ¬ b.graph.Reaches x m) : ¬ b.graph.Reaches x t := by
  intro hr
  obtain ⟨m, hm, -⟩ := (hb.settled t).tail ht
  exact hx ⟨t, ht, hm⟩ (hr.tail hm.feeds)

theorem Tailed.unmarked (ht : Tailed b₀ b t) (hb : b.Sound) : ¬ b.Marked .source t := by
  intro hm
  obtain ⟨m, hm, -⟩ := (hb.settled t).tail hm
  rw [Graph.hasEdge_next, ht.last] at hm; cases hm

/-! ### Ends outlive what is compiled next -/

theorem Headed.weaken (hh : Headed b₁ b h) (hle : b₀.graph.size ≤ b₁.graph.size) : Headed b₀ b h :=
  { hh with new := Nat.le_trans hle hh.new }

theorem Tailed.weaken (ht : Tailed b₁ b t) (hle : b₀.graph.size ≤ b₁.graph.size) : Tailed b₀ b t :=
  { ht with new := Nat.le_trans hle ht.new }

theorem Headed.extend (hh : Headed b₀ b h) (hb : b.Core) (he : b.Extends b') (hb' : b'.Core) :
    Headed b₀ b' h where
  new := hh.new
  lt := Nat.lt_of_lt_of_le hh.lt he.size_le
  free := fun x ⟨_, hx⟩ => hh.free x ((he.edge_into_old hh.lt hh.unmarked).1 hx).feeds
  plain := by rw [he.capabilities_old hh.lt]; exact hh.plain
  role := by rw [he.role?_old hh.lt]; exact hh.role
  unmarked := fun hm => hh.unmarked (he.marked_old hh.lt hm)
  apart := fun hm hr => by
    have hr := he.reaches_old hb hh.lt hh.apart hr
    exact hh.apart (he.sourceFork_old hb' (hb.reaches_lt hh.lt hr) hm) hr
  shut := he.shut_old hb hh.lt hh.apart hh.shut

theorem Tailed.extend (ht : Tailed b₀ b t) (hb : b.Core) (he : b.Extends b') : Tailed b₀ b' t where
  new := ht.new
  lt := Nat.lt_of_lt_of_le ht.lt he.size_le
  last := by rw [he.next?_old ht.lt]; exact ht.last
  apart := fun hd hr =>
    let ⟨_, hd', hr'⟩ := he.reaches_marked hb hd ht.lt hr
    ht.apart hd' hr'

theorem Joined.extend (hj : Joined b₀ b j) (hb : b.Core) (he : b.Extends b') : Joined b₀ b' j where
  toTailed := hj.toTailed.extend hb he
  role := by rw [he.role?_old hj.lt]; exact hj.role
  plain := by rw [he.capabilities_old hj.lt]; exact hj.plain

theorem Headed.tailed (hh : Headed b₀ b h) (hn : b.graph.next? h = none) : Tailed b₀ b h where
  new := hh.new
  lt := hh.lt
  last := hn
  apart := fun hd hr => hh.unmarked (hr.eq_of_free hh.free ▸ hd)

theorem Headed.not_reaches (hh : Headed b₁ b h) (he : b₁.Extends b) (h₁ : b₁.Core)
    (ht : Tailed b₀ b₁ t) : ¬ b.graph.Reaches h t := fun hr =>
  let ⟨_, hd, hr'⟩ := he.reaches_new h₁ hh.new ht.lt hr
  ht.apart hd hr'

theorem Joined.sink (hj : Joined b₀ b j) (hb : b.Core) (y : SlotId) : ¬ b.graph.Feeds j y := by
  rintro ⟨_ | _, hy⟩
  · rw [Graph.hasEdge_next, hj.last] at hy; cases hy
  · have := hb.hop_fork hy
    rw [hj.role] at this; cases this

/-! ### Ends of a new slot -/

theorem sink_grow (hn : s.next = none) (hh : s.hops = []) (y : SlotId) :
    ¬ (b.grow p s).graph.Feeds b.graph.size y := by
  rintro ⟨k, hy⟩
  exact absurd ((Graph.hasEdge_add hn hh).1 hy).source_lt (Nat.lt_irrefl _)

theorem shut_of_alone (hx : ∀ y, ¬ b.graph.Feeds y x) (hy : ∀ y, ¬ b.graph.Feeds x y) :
    b.Shut x := by
  intro u v huv hr
  obtain rfl := hr.eq_of_sink hy
  exact absurd huv (hx u)

theorem Core.free_grow (hb : b.Core) (hn : s.next = none) (hh : s.hops = []) (y : SlotId) :
    ¬ (b.grow p s).graph.Feeds y b.graph.size := by
  rintro ⟨k, hy⟩
  exact absurd (hb.target_lt ((Graph.hasEdge_add hn hh).1 hy)) (Nat.lt_irrefl _)

theorem headed_grow (hb : b.Core) (hn : s.next = none) (hh : s.hops = [])
    (hle : b₀.graph.size ≤ b.graph.size) (hr : s.role ≠ .join ∧ s.role ≠ .attach)
    (hp : s.capabilities.isSource = false) : Headed b₀ (b.grow p s) b.graph.size where
  new := hle
  lt := by simp [Build.grow]
  free := hb.free_grow hn hh
  plain := by rw [Build.grow, Graph.capabilities_add_size]; exact hp
  role := by rw [Build.grow, Graph.role?_add_size]; simpa using hr
  unmarked := hb.unmarked_size
  apart := fun {m} hm hr => by
    obtain rfl := hr.eq_of_sink (sink_grow hn hh)
    obtain ⟨t, -, ht⟩ := hm
    exact hb.free_grow hn hh t ht.feeds
  shut := shut_of_alone (hb.free_grow hn hh) (sink_grow hn hh)

theorem tailed_grow (hb : b.Core) (hn : s.next = none) (hh : s.hops = [])
    (hle : b₀.graph.size ≤ b.graph.size) : Tailed b₀ (b.grow p s) b.graph.size where
  new := hle
  lt := by simp [Build.grow]
  last := by
    rw [Build.grow, Graph.next?_add hn]
    exact Graph.next?_size
  apart := fun hd hr => hb.unmarked_size (hr.eq_of_free (hb.free_grow hn hh) ▸ hd)

theorem joined_grow (hb : b.Core) (hn : s.next = none) (hh : s.hops = [])
    (hle : b₀.graph.size ≤ b.graph.size) (hr : s.role = .join) (hp : s.capabilities.isSource = false) :
    Joined b₀ (b.grow p s) b.graph.size where
  toTailed := tailed_grow hb hn hh hle
  role := by rw [Build.grow, Graph.role?_add_size, hr]
  plain := by rw [Build.grow, Graph.capabilities_add_size]; exact hp

/-! ### Edges that join parts -/

/-- A tail may be followed by a head that does not lead back to it. -/
theorem Tailed.wiring_headed (ht : Tailed b₀ b t) (hh : Headed b₁ b h)
    (hr : ¬ b.graph.Reaches h t) : b.Wiring t .next h where
  source_lt := ht.lt
  target_lt := hh.lt
  next _ := ht.last
  hop := by simp
  plain := hh.plain
  join _ := rfl
  attach ha := absurd ha hh.role.2
  marked hm := absurd hm hh.unmarked
  free := .inr (.inr hh.free)
  fork _ _ := hh.free
  above hd := ht.apart hd
  shut hd hr := hr.eq_of_free hh.free ▸ hd
  back := hr

theorem Tailed.wiring_joined (ht : Tailed b₁ b t) (hj : Joined b₀ b j) (hb : b.Core) (hne : t ≠ j)
    (hu : ¬ b.Marked .source t) : b.Wiring t .next j where
  source_lt := ht.lt
  target_lt := hj.lt
  next _ := ht.last
  hop := by simp
  plain := hj.plain
  join _ := rfl
  attach ha := by rw [hj.role] at ha; cases ha
  marked hm := absurd hj.role (hb.marked_role hm).1
  free := .inl hj.role
  fork _ hm := absurd hm hu
  above hd := ht.apart hd
  shut hd hr := absurd hr (hj.apart hd)
  back hr := hne (hr.eq_of_sink (hj.sink hb)).symm

theorem Headed.wiring_headed (hf : Headed b₀ b f) (hr : b.graph.role? f = some .multiplexer)
    (hh : Headed b₁ b h) (hne : h ≠ f) : b.Wiring f .hop h where
  source_lt := hf.lt
  target_lt := hh.lt
  next := by simp
  hop _ := ⟨hr, fun hm => hh.free f (Graph.HasEdge.feeds (k := .hop) hm)⟩
  plain := hh.plain
  join hj := absurd hj hh.role.1
  attach _ := rfl
  marked _ := rfl
  free := .inr (.inr hh.free)
  fork := by simp
  above hd hr := hf.unmarked (hr.eq_of_free hf.free ▸ hd)
  shut hd hr := hr.eq_of_free hh.free ▸ hd
  back hr := hne (hr.eq_of_free hf.free)

theorem Headed.wiring_marked (hf : Headed b₀ b f) (hr : b.graph.role? f = some .multiplexer)
    (hb : b.Core) (hd : b.Marked .destination d) (hn : d ∉ b.graph.hops f) : b.Wiring f .hop d where
  source_lt := hf.lt
  target_lt := hb.marked_lt hd
  next := by simp
  hop _ := ⟨hr, hn⟩
  plain := hb.marked_plain hd
  join hj := absurd hj (hb.marked_role hd).1
  attach _ := rfl
  marked _ := rfl
  free := .inr (.inl hd)
  fork := by simp
  above hd' hr := hf.unmarked (hr.eq_of_free hf.free ▸ hd')
  shut _ _ := hd
  back hr := hf.unmarked (hr.eq_of_free hf.free ▸ hd)

/-! ### Ends after a new edge -/

theorem Tailed.wire (ht : Tailed b₀ b t) (hw : b.Wiring u k v) (hne : k = .next → t ≠ u) :
    Tailed b₀ (b.wire u k v) t where
  new := ht.new
  lt := by rw [size_wire]; exact ht.lt
  last := by
    cases k with
    | next => rw [Build.wire, Graph.next?_wire_next hw.source_lt, if_neg (hne rfl)]; exact ht.last
    | hop => rw [next?_wire_hop]; exact ht.last
  apart := fun hd hr => by
    rcases Graph.reaches_wire hw.source_lt hw.next hr with hr | ⟨hr, -⟩
    · exact ht.apart hd hr
    · exact hw.above hd hr

theorem Joined.wire (hj : Joined b₀ b j) (hw : b.Wiring u k v) (hne : k = .next → j ≠ u) :
    Joined b₀ (b.wire u k v) j where
  toTailed := hj.toTailed.wire hw hne
  role := by rw [role?_wire]; exact hj.role
  plain := by rw [capabilities_wire]; exact hj.plain

theorem sourceFork_wire (hw : b.Wiring u k v) (hu : k = .next → ¬ b.Marked .source u) :
    (b.wire u k v).SourceFork x ↔ b.SourceFork x := by
  constructor
  · rintro ⟨t, ht, he⟩
    rcases (hasEdge_wire hw).1 he with he | ⟨rfl, rfl, -⟩
    · exact ⟨t, ht, he⟩
    · exact absurd ht (hu rfl)
  · rintro ⟨t, ht, he⟩
    exact ⟨t, ht, (hasEdge_wire hw).2 (.inl he)⟩

theorem Headed.wire (hh : Headed b₀ b h) (hw : b.Wiring u k v) (hne : h ≠ v)
    (hu : k = .next → ¬ b.Marked .source u)
    (hv : ∀ {m}, b.SourceFork m → ¬ b.graph.Reaches v m)
    (hs : b.graph.Reaches h u → b.graph.Reaches h v ∨ b.Shut v)
    (hs' : b.graph.Reaches h v → b.graph.Reaches h u ∨ b.Marked .destination v) :
    Headed b₀ (b.wire u k v) h where
  new := hh.new
  lt := by rw [size_wire]; exact hh.lt
  free := fun x ⟨k', hx⟩ => by
    rcases (hasEdge_wire hw).1 hx with hx | ⟨-, -, hx⟩
    · exact hh.free x hx.feeds
    · exact hne hx
  plain := by rw [capabilities_wire]; exact hh.plain
  role := by rw [role?_wire]; exact hh.role
  unmarked := hh.unmarked
  apart := fun hm hr => by
    have hm := (sourceFork_wire hw hu).1 hm
    rcases Graph.reaches_wire hw.source_lt hw.next hr with hr | ⟨-, hr⟩
    · exact hh.apart hm hr
    · exact hv hm hr
  shut := hh.shut.wire hw hs hs'

/-! ### Ends after more capabilities -/

theorem Headed.enable (hh : Headed b₀ b h) {caps : Capabilities} (hu : u < b.graph.size)
    (hc : caps.isSource = false) : Headed b₀ (b.enable u caps) h where
  new := hh.new
  lt := by rw [size_enable]; exact hh.lt
  free := by rw [feeds_enable]; exact hh.free
  plain := by
    rw [Build.enable, Graph.capabilities_insertCapabilities caps hu]
    split
    · simp [Capabilities.union, hc, hh.plain]
    · exact hh.plain
  role := by rw [role?_enable]; exact hh.role
  unmarked := hh.unmarked
  apart := fun ⟨t, ht, he⟩ hr => by
    rw [hasEdge_enable] at he
    rw [Graph.Reaches, feeds_enable] at hr
    exact hh.apart ⟨t, ht, he⟩ hr
  shut := shut_enable.2 hh.shut

theorem Tailed.enable (ht : Tailed b₀ b t) (caps : Capabilities) :
    Tailed b₀ (b.enable u caps) t where
  new := ht.new
  lt := by rw [size_enable]; exact ht.lt
  last := by rw [next?_enable]; exact ht.last
  apart := fun hd hr => by
    rw [Graph.Reaches, feeds_enable] at hr
    exact ht.apart hd hr

end Build

end Routing
