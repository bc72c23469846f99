import Routing.Proofs.Compile.Grounded
import Routing.Proofs.Compile.Making
/-!
# Changes ahead

A fork has to clone if a stage ahead of one of its hops changes messages. A hop shows the changes of
the stages on its chain up to the next join, but not what comes behind the join. This is kept because
a chain is only made longer behind a stage that lies ahead of no hop (`Clear`), and because a sequence
notes at its head what the heads of its children show.
-/

namespace Routing

variable {σ ω : Type}

namespace Graph

variable {g : Graph} {x y u v : SlotId}

/-- The stage lies on the chain from the other, and no join comes between. -/
def Ahead (g : Graph) : SlotId → SlotId → Prop :=
  Relation.ReflTransGen fun x y => g.next? x = some y ∧ g.role? y ≠ some .join

theorem Ahead.eq_of_last (h : g.Ahead x y) (hx : g.next? x = none) : y = x := by
  rcases Relation.ReflTransGen.cases_head h with rfl | ⟨z, hz, -⟩
  · rfl
  · cases hx.symm.trans hz.1

theorem Ahead.eq_of_first (h : g.Ahead x y)
    (hy : ∀ z, g.next? z = some y → g.role? y = some .join) : x = y := by
  rcases Relation.ReflTransGen.cases_tail h with rfl | ⟨z, -, hz, hrole⟩
  · rfl
  · exact absurd (hy z hz) hrole

/-- A chain over a new edge goes to the start of the edge and on from its end. -/
theorem ahead_wire (hu : u < g.size) (h : (g.wire u .next v).Ahead x y) :
    g.Ahead x y ∨ g.Ahead x u ∧ g.Ahead v y := by
  induction h with
  | refl => exact .inl .refl
  | @tail y z _ hyz ih =>
    obtain ⟨hyz, hz⟩ := hyz
    rw [next?_wire_next hu] at hyz
    rw [role?_wire] at hz
    split at hyz
    · next hy =>
      subst hy
      cases hyz
      rcases ih with ih | ih
      · exact .inr ⟨ih, .refl⟩
      · exact .inr ⟨ih.1, .refl⟩
    · rcases ih with ih | ih
      · exact .inl (ih.tail ⟨hyz, hz⟩)
      · exact .inr ⟨ih.1, ih.2.tail ⟨hyz, hz⟩⟩

end Graph

namespace Build

/-- Forks hand messages to the slot, or will do so. -/
def Handed (b : Build σ ω) (x : SlotId) : Prop :=
  (∃ u, x ∈ b.graph.hops u) ∨ b.Marked .destination x

/-- Some stage ahead changes messages. -/
def ChangesAhead (b : Build σ ω) (x : SlotId) : Prop :=
  ∃ y, b.graph.Ahead x y ∧ (b.graph.capabilities y).changesMessage = true

/-- The slot shows the changes ahead. -/
def Warns (b : Build σ ω) (x : SlotId) : Prop :=
  b.ChangesAhead x → (b.graph.capabilities x).changesMessage = true

/-- The slot does not lie ahead of one to which a fork hands messages. -/
def Clear (b : Build σ ω) (x : SlotId) : Prop :=
  ∀ y, b.Handed y → ¬ b.graph.Ahead y x

/-- The slots to which forks hand messages show the changes ahead. -/
def Alert (b : Build σ ω) : Prop :=
  ∀ x, b.Handed x → b.Warns x

/-- Chains, hops and capabilities are as before. -/
structure Quiet (b b' : Build σ ω) : Prop where
  handed : ∀ {x}, b'.Handed x → b.Handed x
  ahead : ∀ {x y}, b'.graph.Ahead x y → b.graph.Ahead x y
  capabilities : ∀ x, b'.graph.capabilities x = b.graph.capabilities x

variable {b₀ b b' b'' : Build σ ω} {x y u v : SlotId} {stage : σ} {role : Role} {key : TargetKey}
  {caps : Capabilities} {p : Pool σ ω} {s : Slot}

/-! ### What stays as it is -/

namespace Quiet

theorem trans (h : Quiet b b') (h' : Quiet b' b'') : Quiet b b'' :=
  ⟨fun hx => h.handed (h'.handed hx), fun hxy => h.ahead (h'.ahead hxy),
    fun x => (h'.capabilities x).trans (h.capabilities x)⟩

theorem changesAhead (h : Quiet b b') (hx : b'.ChangesAhead x) : b.ChangesAhead x := by
  obtain ⟨y, hy, hc⟩ := hx
  exact ⟨y, h.ahead hy, h.capabilities y ▸ hc⟩

theorem warns (h : Quiet b b') (hx : b.Warns x) : b'.Warns x := by
  intro hchanges
  rw [h.capabilities]
  exact hx (h.changesAhead hchanges)

theorem clear (h : Quiet b b') (hx : b.Clear x) : b'.Clear x :=
  fun y hy hyx => hx y (h.handed hy) (h.ahead hyx)

theorem alert (h : Quiet b b') (hb : b.Alert) : b'.Alert :=
  fun _ hx => h.warns (hb _ (h.handed hx))

end Quiet

theorem role?_own_ne {r : Role} (h : (b.own stage role).graph.role? x ≠ some r) :
    b.graph.role? x ≠ some r := by
  intro hr
  rw [role?_own_lt (Graph.role?_lt hr)] at h
  exact h hr

theorem ahead_own (h : (b.own stage role).graph.Ahead x y) : b.graph.Ahead x y :=
  Relation.ReflTransGen.mono (fun _ _ ⟨hn, hr⟩ => ⟨next?_own.symm.trans hn, role?_own_ne hr⟩) _ _ h

theorem quiet_own : Quiet b (b.own stage role) where
  handed := by
    rintro x (⟨u, hu⟩ | hm)
    · exact .inl ⟨u, hops_own (b := b) ▸ hu⟩
    · exact .inr hm
  ahead := ahead_own
  capabilities _ := capabilities_own

theorem ahead_wire_hop (h : (b.wire u .hop v).graph.Ahead x y) : b.graph.Ahead x y :=
  Relation.ReflTransGen.mono (fun _ _ ⟨hn, hr⟩ =>
    ⟨next?_wire_hop.symm.trans hn, role?_wire (b := b) ▸ hr⟩) _ _ h

theorem handed_wire_hop (h : (b.wire u .hop v).Handed x) : b.Handed x ∨ x = v := by
  rcases h with ⟨w, hw⟩ | hm
  · exact (Graph.mem_hops_of_wire hw).imp_left fun hw => .inl ⟨w, hw⟩
  · exact .inl (.inr hm)

theorem quiet_hop (hv : b.Handed v) : Quiet b (b.wire u .hop v) where
  handed h := by
    rcases handed_wire_hop h with h | rfl
    · exact h
    · exact hv
  ahead := ahead_wire_hop
  capabilities _ := capabilities_wire

theorem handed_wire_next : (b.wire u .next v).Handed x ↔ b.Handed x := by
  simp only [Handed, Build.wire, Graph.hops_wire_next]
  rfl

theorem quiet_join (hv : b.graph.role? v = some .join) : Quiet b (b.wire u .next v) where
  handed := handed_wire_next.1
  ahead h := by
    refine Relation.ReflTransGen.mono (fun y z ⟨hn, hr⟩ => ?_) _ _ h
    rw [role?_wire] at hr
    refine ⟨?_, hr⟩
    simp only [Build.wire, Graph.wire, Graph.next?, Graph.slot?_modify] at hn ⊢
    split at hn
    · cases hs : b.graph.slot? y <;> rw [hs] at hn
      · cases hn
      · cases hn
        exact absurd hv hr
    · exact hn
  capabilities _ := capabilities_wire

theorem quiet_mark (hk : key.kind ≠ .destination) : Quiet b (b.mark key x) where
  handed h := h.imp_right fun hm => (marked_mark.1 hm).resolve_left fun h => hk h.1
  ahead := id
  capabilities _ := rfl

/-! ### Slots that are clear -/

theorem Core.clear_join (hb : b.Core) (hx : b.graph.role? x = some .join) : b.Clear x := by
  intro y hy hyx
  obtain rfl := hyx.eq_of_first fun _ _ => hx
  rcases hy with ⟨u, hu⟩ | hm
  · cases hb.join_next (k := .hop) hx hu
  · exact (hb.marked_role hm).1 hx

theorem clear_of_free (hx : ∀ y, ¬ b.graph.Feeds y x) (hm : ¬ b.Marked .destination x) :
    b.Clear x := by
  intro y hy hyx
  obtain rfl := hyx.eq_of_first fun z hz => absurd ⟨.next, hz⟩ (hx z)
  rcases hy with ⟨u, hu⟩ | hm'
  · exact hx u ⟨.hop, hu⟩
  · exact hm hm'

/-- A slot stays clear while more is compiled. -/
theorem Clear.extend (hx : b.Clear x) (he : b.Extends b') (hb' : b'.Core) (hlt : x < b.graph.size) :
    b'.Clear x := by
  -- what is new leads to nothing old but remembered destinations, and to those only over hops
  have hold : ∀ {y}, b'.graph.Ahead y x → y < b.graph.size ∧ b.graph.Ahead y x := by
    intro y hyx
    induction hyx using Relation.ReflTransGen.head_induction_on with
    | refl => exact ⟨hlt, .refl⟩
    | @head y z hyz _ ih =>
      obtain ⟨hz, ih⟩ := ih
      have hm : ¬ b.Marked .destination z := fun hm => by
        cases hb'.marked_hop (k := .next) (he.marked hm) hyz.1
      have hyz' := (he.edge_into_old (k := .next) hz hm).1 hyz.1
      exact ⟨hyz'.source_lt, .head ⟨hyz', he.role?_old hz ▸ hyz.2⟩ ih⟩
  intro y hy hyx
  obtain ⟨hylt, hyx⟩ := hold hyx
  refine hx y ?_ hyx
  by_cases hm : b.Marked .destination y
  · exact .inr hm
  · rcases hy with ⟨u, hu⟩ | hm'
    · exact .inl ⟨u, (he.edge_into_old (k := .hop) hylt hm).1 hu⟩
    · exact absurd (he.marked_old hylt hm') hm

/-- Changes ahead of an old slot were ahead before. -/
theorem changesAhead_old (he : b.Extends b') (hb : b.Core) (hlt : x < b.graph.size)
    (hx : b'.ChangesAhead x) : b.ChangesAhead x := by
  obtain ⟨y, hxy, hc⟩ := hx
  have hold : y < b.graph.size ∧ b.graph.Ahead x y := by
    clear hc
    induction hxy with
    | refl => exact ⟨hlt, .refl⟩
    | @tail y z _ hyz ih =>
      obtain ⟨hy, ih⟩ := ih
      obtain ⟨hyz, hr⟩ := hyz
      rw [he.next?_old hy] at hyz
      have hz : z < b.graph.size := hb.target_lt (k := .next) hyz
      exact ⟨hz, ih.tail ⟨hyz, he.role?_old hz ▸ hr⟩⟩
  exact ⟨y, hold.2, he.capabilities_old hold.1 ▸ hc⟩

/-! ### Steps that change something -/

theorem warns_of_last (hx : b.graph.next? x = none) : b.Warns x := by
  rintro ⟨y, hy, hc⟩
  rw [hy.eq_of_last hx] at hc
  exact hc

theorem Alert.mark (hb : b.Alert) (hx : b.Warns x) : (b.mark key x).Alert := by
  rintro y (hy | hm)
  · exact hb y (.inl hy)
  · rcases marked_mark.1 hm with ⟨-, rfl⟩ | hm
    · exact hx
    · exact hb y (.inr hm)

theorem Alert.hop (hb : b.Alert) (hv : b.Warns v) : (b.wire u .hop v).Alert := by
  have hwarns : ∀ {y}, b.Warns y → (b.wire u .hop v).Warns y := by
    rintro y hy ⟨z, hz, hc⟩
    rw [capabilities_wire] at hc ⊢
    exact hy ⟨z, ahead_wire_hop hz, hc⟩
  intro y hy
  rcases handed_wire_hop hy with hy | rfl
  · exact hwarns (hb y hy)
  · exact hwarns hv

/-- The chains of other slots stay as they are if a clear slot gets a follower. -/
theorem Clear.ahead (hu : b.Clear u) (hlt : u < b.graph.size) (hy : b.Handed y)
    (h : (b.wire u .next v).graph.Ahead y x) : b.graph.Ahead y x :=
  (Graph.ahead_wire hlt h).resolve_right fun h => hu y hy h.1

theorem Alert.link (hb : b.Alert) (hu : b.Clear u) (hlt : u < b.graph.size) :
    (b.wire u .next v).Alert := by
  rintro y hy ⟨z, hz, hc⟩
  have hy := handed_wire_next.1 hy
  rw [capabilities_wire] at hc ⊢
  exact hb y hy ⟨z, hu.ahead hlt hy hz, hc⟩

theorem Clear.link (hx : b.Clear x) (hu : b.Clear u) (hlt : u < b.graph.size) :
    (b.wire u .next v).Clear x := by
  intro y hy hyx
  have hy := handed_wire_next.1 hy
  exact hx y hy (hu.ahead hlt hy hyx)

/-- The start of a chain has changes ahead if it had before, or if there are some behind the new
edge. -/
theorem changesAhead_link (hlt : u < b.graph.size) (h : (b.wire u .next v).ChangesAhead x) :
    b.ChangesAhead x ∨ b.ChangesAhead v := by
  obtain ⟨y, hy, hc⟩ := h
  rw [capabilities_wire] at hc
  rcases Graph.ahead_wire hlt hy with hy | ⟨-, hy⟩
  · exact .inl ⟨y, hy, hc⟩
  · exact .inr ⟨y, hy, hc⟩

theorem Alert.link_plain (hb : b.Alert) (hlt : u < b.graph.size) (hv : ¬ b.ChangesAhead v) :
    (b.wire u .next v).Alert := by
  intro y hy hchanges
  rw [capabilities_wire]
  exact hb y (handed_wire_next.1 hy) ((changesAhead_link hlt hchanges).resolve_right hv)

theorem Alert.grow (hb : b.Alert) (hcore : b.Core) (hn : s.next = none) (hh : s.hops = []) :
    (b.grow p s).Alert := by
  have he : b.Extends (b.grow p s) := (Extends.refl b).grow hn hh
  intro y hy hchanges
  have hlt : y < b.graph.size := by
    rcases hy with ⟨u, hu⟩ | hm
    · exact hcore.target_lt (k := .hop) ((hasEdge_grow hn hh).1 hu)
    · exact hcore.marked_lt hm
  have hold : b.Handed y := hy.imp_left fun ⟨u, hu⟩ => ⟨u, (hasEdge_grow (k := .hop) hn hh).1 hu⟩
  rw [capabilities_grow hlt]
  exact hb y hold (changesAhead_old he hcore hlt hchanges)

theorem ahead_enable : (b.enable u caps).graph.Ahead = b.graph.Ahead := by
  unfold Graph.Ahead
  simp only [next?_enable, role?_enable]

theorem handed_enable : (b.enable u caps).Handed x ↔ b.Handed x := by
  simp only [Handed, Build.enable, Graph.hops_insertCapabilities]
  rfl

theorem clear_enable : (b.enable u caps).Clear x ↔ b.Clear x := by
  simp only [Clear, handed_enable, ahead_enable]

theorem Alert.enable (hb : b.Alert) (hu : b.Clear u) (hlt : u < b.graph.size) :
    (b.enable u caps).Alert := by
  rintro y hy ⟨z, hz, hc⟩
  rw [handed_enable] at hy
  rw [ahead_enable] at hz
  have hne : z ≠ u := fun hzu => hu y hy (hzu ▸ hz)
  rw [Build.enable, Graph.capabilities_insertCapabilities caps hlt] at hc ⊢
  rw [if_neg hne] at hc
  have hwarns := hb y hy ⟨z, hz, hc⟩
  split
  · simp [Capabilities.union, hwarns]
  · exact hwarns

/-- The start of a chain warns once it shows what is noted of the chain. -/
theorem warns_enable (hlt : x < b.graph.size)
    (hx : b.ChangesAhead x → (b.graph.capabilities x).changesMessage = true ∨
      caps.changesMessage = true) : (b.enable x caps).Warns x := by
  rintro ⟨y, hy, hc⟩
  rw [ahead_enable] at hy
  rw [Build.enable, Graph.capabilities_insertCapabilities caps hlt] at hc ⊢
  rw [if_pos rfl]
  have hshown : (b.graph.capabilities x).changesMessage = true ∨ caps.changesMessage = true := by
    split at hc
    · next hyx =>
      subst hyx
      simpa [Capabilities.union] using hc
    · exact hx ⟨y, hy, hc⟩
  simpa [Capabilities.union] using hshown

theorem Headed.clear (hx : Headed b₀ b x) : b.Clear x :=
  clear_of_free hx.free hx.unmarked

theorem Core.clear_own (hb : b.Core) : (b.own stage role).Clear b.graph.size :=
  clear_of_free (free_own hb) hb.unmarked_size

end Build

namespace Compile

open Build

variable {b₀ b₁ b b' : Build σ ω} {c c' : Chain} {j j' : Branching} {f : Fragment} {t d m : SlotId}
  {key : TargetKey}

/-- The ends of a part: its head warns, and behind a head its tail may be followed. -/
structure Warned (b : Build σ ω) (f : Fragment) : Prop where
  alert : b.Alert
  head : ∀ {h}, f.head = some h → b.Warns h
  tail : ∀ {h t}, f.head = some h → f.tail = some t → b.Clear t

/-- A sequence in the making notes the changes ahead of its head. -/
structure Chain.Notes (b : Build σ ω) (c : Chain) : Prop where
  alert : b.Alert
  first : ∀ {h}, c.first = some h → b.ChangesAhead h →
    (b.graph.capabilities h).changesMessage = true ∨ c.changesMessage = true
  last : ∀ {t}, c.last = some t → b.Clear t

/-! ### Sequences and junctions -/

theorem Chain.Notes.extend (hc : c.Notes b₁) (hfits : c.Fits b₀ b₁) (hb₁ : b₁.Core) (hp : Progress b₁ b)
    (hb : b.Alert) : c.Notes b where
  alert := hb
  first hfirst hchanges := by
    have hlt := (hfits.first hfirst).lt
    rw [hp.extends_.capabilities_old hlt]
    exact hc.first hfirst (changesAhead_old hp.extends_ hb₁ hlt hchanges)
  last hlast := (hc.last hlast).extend hp.extends_ hp.sound.core (hfits.last hlast).lt

variable [Stage σ ω]

theorem Stuck.alert (h : Stuck b b') (hb : b.Alert) : b'.Alert := by
  rcases h with rfl | rfl
  · exact hb
  · exact quiet_own.alert hb

theorem notes_firstSource (hc : c.Notes b) (hcore : b.Core) (hfirst : c.first = none) :
    Chain.Notes ((b.own (Stage.passThrough : σ) .join).wire t .next b.graph.size)
      { c with join := some b.graph.size, last := some b.graph.size } := by
  have hquiet : Quiet (b.own (Stage.passThrough : σ) .join)
      ((b.own Stage.passThrough .join).wire t .next b.graph.size) := quiet_join role?_own
  refine ⟨(quiet_own.trans hquiet).alert hc.alert, fun h => ?_, fun h => ?_⟩
  · cases hfirst.symm.trans h
  · cases h
    exact hquiet.clear hcore.clear_own

/-- A part goes to the end of a sequence, which is clear. -/
theorem Chain.Step.notes (h : c.Step b f c' b') (hc : c.Notes b) (hfits : c.Fits b₀ b₁)
    (hcore : b₁.Core) (hp : Progress b₁ b) (hf : Build.Fits b₁ b f) (hs : Warned b f) :
    c'.Notes b' := by
  have hearly := (hfits.extend hcore hp.extends_ hp.sound.core).early
  have hend : ∀ {h tail}, f = ⟨some h, tail⟩ → b.Clear (tail.getD h) ∧
      (tail = none → b.graph.next? h = none) := by
    rintro h tail rfl
    refine ⟨?_, fun htail => (hf.fork rfl htail).2⟩
    cases tail with
    | some t => exact hs.tail rfl rfl
    | none => exact (hf.head rfl).clear
  cases h with
  | empty => exact hc
  | firstSource hpast => exact notes_firstSource hc hp.sound.core (hearly hpast).1
  | @source t x hpast hjoin =>
    have hquiet : Quiet b (b.wire t .next x) := quiet_join ((hearly hpast).2.2 hjoin).role
    refine ⟨hquiet.alert hc.alert, fun h => ?_, fun h => hquiet.clear (hc.last h)⟩
    cases (hearly hpast).1.symm.trans h
  | first hlast =>
    obtain ⟨hclear, hnone⟩ := hend rfl
    refine ⟨hc.alert, fun hfirst hchanges => ?_, fun h => ?_⟩
    · simp only [advance, hlast, Option.isNone_none, if_true, Option.some.injEq] at hfirst
      subst hfirst
      exact .inl (hs.head rfl hchanges)
    · simp only [advance, Graph.getD_terminal _ hnone, Option.some.injEq] at h
      exact h ▸ hclear
  | @next h l tail hlast =>
    obtain ⟨hclear, hnone⟩ := hend rfl
    have hlt := (hfits.last hlast).lt
    have hlt' : l < b.graph.size := Nat.lt_of_lt_of_le hlt hp.extends_.size_le
    have hlclear := hc.last hlast
    refine ⟨hc.alert.link hlclear hlt', fun hfirst hchanges => ?_, fun h => ?_⟩
    · simp only [advance, hlast, Option.isNone_some, Bool.false_eq_true, if_false] at hfirst
      simp only [advance, capabilities_wire]
      rcases changesAhead_link hlt' hchanges with hold | hnew
      · exact (hc.first hfirst hold).imp_right fun h => by simp [h]
      · exact .inr (by simp [hs.head rfl hnew])
    · simp only [advance, (hf.head rfl).getD_terminal_wire hlt hnone, Option.some.injEq] at h
      exact h ▸ hclear.link hlclear hlt'

theorem Branching.HeadStep.alert {head : Option SlotId} (h : j.HeadStep b head j' b')
    (hb : b.Alert) (hhead : ∀ {h}, head = some h → b.Warns h) : b'.Alert := by
  cases h with
  | headless => exact hb
  | first => exact (quiet_own.alert hb).hop (quiet_own.warns (hhead rfl))
  | hop => exact hb.hop (hhead rfl)

theorem Branching.HeadStep.role_join {head : Option SlotId} (h : j.HeadStep b head j' b')
    (hjoin : ∀ {x}, j.join = some x → b.graph.role? x = some .join) :
    ∀ {x}, j'.join = some x → b'.graph.role? x = some .join := by
  intro x hx
  cases h with
  | headless => exact hjoin hx
  | first =>
    rw [role?_wire, role?_own_lt (Graph.role?_lt (hjoin hx))]
    exact hjoin hx
  | hop =>
    rw [role?_wire]
    exact hjoin hx

theorem Branching.TailStep.alert {tail : Option SlotId} (h : j.TailStep b tail j' b')
    (hb : b.Alert) (hjoin : ∀ {x}, j.join = some x → b.graph.role? x = some .join) : b'.Alert := by
  cases h with
  | absent => exact hb
  | first => exact (quiet_own.trans (quiet_join role?_own)).alert hb
  | join hx => exact (quiet_join (hjoin hx)).alert hb

/-! ### References -/

theorem warned_tap (hb : b.Alert) : Warned (b.tap m) ⟨none, some b.graph.size⟩ :=
  ⟨(quiet_own.alert hb).hop (warns_of_last next?_own_size), fun h => (by cases h), fun h => by cases h⟩

theorem warned_forkTo (hb : b.Alert) (hd : b.Marked .destination d) :
    Warned (b.forkTo d) ⟨some b.graph.size, none⟩ := by
  have hquiet : Quiet (b.own Stage.multiplexer .multiplexer) (b.forkTo d) := quiet_hop (.inr hd)
  refine ⟨(quiet_own.trans hquiet).alert hb, fun h => ?_, fun _ h => by cases h⟩
  cases h
  exact warns_of_last (next?_wire_hop.trans next?_own_size)

/-- The fork after a source has nothing ahead and changes nothing. -/
theorem alert_forkAfter (hb : b.Alert) (hk : key.kind = .source) (hlt : t < b.graph.size) :
    (b.forkAfter key t).Alert := by
  have hquiet : Quiet b ((b.mark key t).own Stage.multiplexer .multiplexer) :=
    (quiet_mark (by simp [hk])).trans quiet_own
  refine (hquiet.alert hb).link_plain ?_ fun ⟨y, hy, hc⟩ => ?_
  · rw [size_own]
    exact Nat.lt_succ_of_lt hlt
  · have hnone : ((b.mark key t).own Stage.multiplexer .multiplexer).graph.capabilities
        b.graph.size = .none := Graph.capabilities_add_size _
    rw [hy.eq_of_last next?_own_size, hnone] at hc
    cases hc

/-! ### All statements -/

/-- Forks lead to slots that show the changes ahead. -/
def warned : Scheme σ ω where
  ready := Alert
  done _ _ _ _ f b' := Warned b' f
  failed _ _ _ b' := b'.Alert
  chained _ _ _ _ c b' := c.Notes b'
  branched _ _ _ _ _ b' := b'.Alert

theorem grounded_warned (objects : Objects) : Grounded (σ := σ) warned objects fun _ => True where
  throw _ h := h
  place := by
    intro h handle cs fc b p s _ _ hb halert _ _ hn hh
    have hlast : (b.grow p s).graph.next? b.graph.size = none :=
      (Graph.next?_add hn _).trans Graph.next?_size
    refine ⟨halert.grow hb.core hn hh, fun {x} hx => ?_, fun _ hx => ?_⟩
    · split at hx
      · cases hx
      · cases hx
        exact warns_of_last hlast
    · cases hx
      exact clear_of_free (hb.core.free_grow hn hh) hb.core.unmarked_size
  refuse _ h _ := h
  again := by
    intro s fc key t b f b' _ _ _ _ hb halert hj
    cases hj with
    | tap => exact warned_tap halert
    | fork hk hd => exact warned_forkTo halert ⟨key, hk, mem_of_lookup hd⟩
  first := by
    intro s fc key t b l b₁ f f' b' _ _ _ _ _ _ hp hf hs hj
    cases hj with
    | @tap t hk ht =>
      have halert := alert_forkAfter hs.alert hk (hf.tail ht).lt
      have hwarned := warned_tap (m := b₁.graph.size) halert
      rw [size_forkAfter] at hwarned
      exact hwarned
    | fork hk hd => exact warned_forkTo (hs.alert.mark (hs.head hd)) (marked_mark.2 (.inl ⟨hk, rfl⟩))
    | plain => exact ⟨hs.alert, hs.head, hs.tail⟩
  abandon _ _ _ _ h := h
  blank _ _ _ _ h := h.alert
  chain_start _ h := ⟨h, fun h => (by cases h), fun h => by cases h⟩
  chain_ready h := h.alert
  chain_failed _ h := h
  chain_add := by
    intro ss fc b₀ l c b s l' f b' node hp hc hp' hf hnotes hs
    have hnotes' := hnotes.extend hc hp.sound.core hp' hs.alert
    exact wp_mono (Chain.wp_step node f)
      (fun c' b'' hstep => hstep.notes hnotes' hc hp.sound.core hp' hf hs) fun _ _ h => h.alert hs.alert
  chain_finish := by
    intro h o cs fc b₀ l c b _ hp hc hnotes
    unfold Chain.finish
    cases hfirst : c.first with
    | none => exact ⟨hnotes.alert, fun h => (by cases h), fun h => by cases h⟩
    | some x =>
      have hx := hc.first hfirst
      simp only [wp_bind, wp_insertCapabilities, wp_pure]
      refine ⟨hnotes.alert.enable hx.clear hx.lt, fun h => ?_, fun _ h => ?_⟩
      · cases h
        exact warns_enable hx.lt (hnotes.first hfirst)
      · exact clear_enable.2 (hnotes.last h)
  branch_start _ h := h
  branch_ready h := h
  branch_failed _ h := h
  branch_add := by
    intro ss fc b₀ l j b s l' f b' node hp hj hp' hf _ hs
    have hfits := hj.extend hp.sound.core hp'.extends_ hp'.sound.core
    unfold Branching.add
    rw [wp_bind]
    refine wp_mono (Branching.wp_headStep node f.head) (fun j₁ b₁ hhead => ?_) ?_
    · have halert := hhead.alert hs.alert hs.head
      refine wp_mono (Branching.wp_tailStep node f.tail) (fun j₂ b₂ htail => ?_) fun _ _ h =>
        h.alert halert
      exact htail.alert halert (hhead.role_join fun hx => (hfits.join hx).role)
    · rintro _ _ rfl
      exact hs.alert
  branch_finish := by
    intro h o cs fc b₀ l j b _ hp hj halert
    have htail : ∀ {x}, j.join = some x → b.Clear x := fun hx =>
      hp.sound.core.clear_join (hj.join hx).role
    unfold Branching.finish
    cases hfork : j.fork with
    | none => exact ⟨halert, fun h => (by cases h), fun h => by cases h⟩
    | some fork =>
      obtain ⟨hx, -, hn⟩ := hj.fork hfork
      simp only [wp_bind, wp_ite, wp_insertCapabilities, wp_pure]
      split
      · refine ⟨halert.enable hx.clear hx.lt, fun h => ?_, fun _ h => clear_enable.2 (htail h)⟩
        cases h
        exact warns_of_last (next?_enable.trans hn)
      · refine ⟨halert, fun h => ?_, fun _ => htail⟩
        cases h
        exact warns_of_last hn

end Compile

end Routing
