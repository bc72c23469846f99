import Routing.Proofs.Compile.Steps
import Routing.Proofs.Graph.Follow
/-!
# Sequences

A sequence in the making keeps the head of its first child and the tail of its last one, and until a
child with a head has come the join of its sources. Adding a compiled child keeps this.
-/

namespace Routing

variable {σ ω : Type}

namespace Build

variable {b₀ b₁ b : Build σ ω} {h t j x : SlotId}

theorem link_join (hb : b.Core) (he : b₀.Extends b) (ht : Tailed b₀ b t) (hj : Joined b₀ b j)
    (hne : t ≠ j) (hu : ¬ b.Marked .source t)
    (hs : ∀ x, x < b.graph.size → b.Settled x ∨ x = j ∧ ¬ b.Marked .source j) :
    Progress b₀ (b.wire t .next j) := by
  have hw := ht.wiring_joined hj hb hne hu
  refine ⟨(hb.wire hw).sound fun x hx => ?_, he.wire hw (.inl ⟨ht.new, .inl hj.new⟩)⟩
  rw [size_wire] at hx
  rcases hs x hx with hx | ⟨rfl, hu⟩
  · exact hx.wire hw
  · refine ⟨.of_join ?_ ((hasEdge_wire hw).2 (.inr ⟨rfl, rfl, rfl⟩)), fun h => absurd h hu⟩
    rw [role?_wire]; exact hj.role

theorem link_new_join (stage : σ) (hp : Progress b₀ b) (ht : Tailed b₀ b t) :
    (b.own stage .join).Wiring t .next b.graph.size ∧
      Progress b₀ ((b.own stage .join).wire t .next b.graph.size) ∧
      Joined b₀ ((b.own stage .join).wire t .next b.graph.size) b.graph.size := by
  have hb := hp.sound.core
  have hne : t ≠ b.graph.size := Nat.ne_of_lt ht.lt
  have hj : Joined b₀ (b.own stage .join) b.graph.size :=
    joined_grow hb rfl rfl hp.extends_.size_le rfl rfl
  have ht' : Tailed b₀ (b.own stage .join) t := ht.extend hb extends_own
  have hw := ht'.wiring_joined hj hb.own hne (ht.unmarked hp.sound)
  refine ⟨hw, link_join hb.own (hp.extends_.grow rfl rfl) ht' hj hne (ht.unmarked hp.sound)
    fun x hx => ?_, hj.wire hw fun _ => hne.symm⟩
  rcases lt_size_grow.1 hx with hx | rfl
  · exact .inl ((hp.sound.settled x).own hb hx)
  · exact .inr ⟨rfl, hb.unmarked_size⟩

/-- An edge from an older stage does not change where a part ends. -/
theorem Headed.getD_terminal_wire (hh : Headed b₁ b h) (ht : t < b₁.graph.size)
    {tail : Option SlotId} (hn : tail = none → b.graph.next? h = none) :
    tail.getD ((b.wire t .next h).graph.terminal h) = tail.getD h := by
  have hth : t < h := Nat.lt_of_lt_of_le ht hh.new
  refine Graph.getD_terminal tail fun htail => ?_
  rw [Build.wire, Graph.next?_wire_next (Nat.lt_trans hth hh.lt), if_neg (Nat.ne_of_gt hth)]
  exact hn htail

end Build

namespace Compile

open Build

/-- What holds of a sequence that was begun at an earlier state. -/
structure Chain.Fits (b₀ b : Build σ ω) (c : Chain) : Prop where
  first : ∀ {h}, c.first = some h → Headed b₀ b h
  last : ∀ {t}, c.last = some t → Tailed b₀ b t
  through : ∀ {h t}, c.first = some h → c.last = some t → b.graph.Reaches h t
  last_of_first : ∀ {h}, c.first = some h → ∃ t, c.last = some t
  /-- As long as sources come, the sequence ends in their join. -/
  early : c.pastSources = false →
    c.first = none ∧ c.last = c.join ∧ ∀ {j}, c.join = some j → Joined b₀ b j

variable {b₀ b₁ b : Build σ ω} {c : Chain}

namespace Chain.Fits

theorem start (b : Build σ ω) : Chain.Fits b b {} where
  first h := by cases h
  last h := by cases h
  through h := by cases h
  last_of_first h := by cases h
  early _ := ⟨rfl, rfl, fun h => by cases h⟩

theorem extend (hc : c.Fits b₀ b₁) (hb₁ : b₁.Core) (he : b₁.Extends b) (hb : b.Core) :
    c.Fits b₀ b where
  first h := (hc.first h).extend hb₁ he hb
  last h := (hc.last h).extend hb₁ he
  through h h' := he.reaches (hc.through h h')
  last_of_first := hc.last_of_first
  early h :=
    have ⟨h₁, h₂, h₃⟩ := hc.early h
    ⟨h₁, h₂, fun h => (h₃ h).extend hb₁ he⟩

end Chain.Fits

theorem Chain.wp_addStage (hp₁ : Progress b₀ b₁) (hc : c.Fits b₀ b₁) (hp : Progress b₁ b)
    {h : SlotId} {tail : Option SlotId} (hf : Build.Fits b₁ b ⟨some h, tail⟩) (node : Descriptor) :
    wp (c.addStage node h tail) (fun c' b' => Progress b₀ b' ∧ c'.Fits b₀ b' ∧ ∃ t, c'.last = some t)
      (fun _ _ => False) b := by
  have hle := hp₁.extends_.size_le
  have hh := hf.head rfl
  have hc' := hc.extend hp₁.sound.core hp.extends_ hp.sound.core
  have hlast : Tailed b₁ b (tail.getD h) := by
    cases tail with
    | some t => exact hf.tail rfl
    | none => exact hh.tailed (hf.fork rfl rfl).2
  have hreach : b.graph.Reaches h (tail.getD h) := by
    cases tail with
    | some t => exact hf.through rfl rfl
    | none => exact .refl
  unfold addStage
  simp only [wp_bind, wp_graph]
  cases hl : c.last with
  | none =>
    have hfirst : c.first = none := by
      cases hfirst : c.first with
      | none => rfl
      | some h =>
        obtain ⟨t, ht⟩ := hc.last_of_first hfirst
        rw [hl] at ht; cases ht
    have hterm : tail.getD (b.graph.terminal h) = tail.getD h :=
      Graph.getD_terminal tail fun htail => (hf.fork rfl htail).2
    simp only [wp_pure, wp_bind, wp_graph, Option.isNone_none, if_true, hterm]
    refine ⟨hp₁.trans hp, ⟨?_, ?_, ?_, ?_, ?_⟩, _, rfl⟩
    · intro _ h; cases h; exact hh.weaken hle
    · intro _ h; cases h; exact hlast.weaken hle
    · intro _ _ h h'; cases h; cases h'; exact hreach
    · exact fun _ => ⟨_, rfl⟩
    · intro h; cases h
  | some t =>
    have ht := hc'.last hl
    have hlt : t < b₁.graph.size := (hc.last hl).lt
    have hw := ht.wiring_headed hh (hh.not_reaches hp.extends_ hp₁.sound.core (hc.last hl))
    have hp' : Progress b₀ (b.wire t .next h) := by
      refine ⟨⟨hp.sound.core.wire hw, fun x => (hp.sound.settled x).wire hw⟩, ?_⟩
      exact (hp₁.trans hp).extends_.wire hw (.inl ⟨ht.new, .inl (Nat.le_trans hle hh.new)⟩)
    have hterm := hh.getD_terminal_wire hlt fun htail => (hf.fork rfl htail).2
    simp only [wp_link _ _ ht.last, wp_pure, wp_bind, wp_graph, Option.isNone_some,
      Bool.false_eq_true, if_false, hterm]
    refine ⟨hp', ⟨fun {f} hfirst => ?_, fun h => ?_, fun {f t'} hfirst h' => ?_, fun _ => ⟨_, rfl⟩,
      fun h => ?_⟩, _, rfl⟩
    · refine (hc'.first hfirst).wire hw (Nat.ne_of_lt ?_) (fun _ => ht.unmarked hp.sound) hh.apart
        (fun _ => .inr hh.shut) fun _ => .inl (hc'.through hfirst hl)
      exact Nat.lt_of_lt_of_le (hc.first hfirst).lt hh.new
    · cases h
      exact (hlast.weaken hle).wire hw fun _ => Nat.ne_of_gt (Nat.lt_of_lt_of_le hlt hlast.new)
    · cases h'
      have h₁ := (hc'.through hfirst hl).wire (v := h) hw.source_lt hw.next
      have h₂ := hreach.wire (v := h) hw.source_lt hw.next
      have he : (b.wire t .next h).graph.Feeds t h :=
        ((hasEdge_wire hw).2 (.inr ⟨rfl, rfl, rfl⟩)).feeds
      exact (h₁.tail he).trans h₂
    · cases h

theorem Chain.wp_addSource [Stage σ ω] (hp₁ : Progress b₀ b₁) (hc : c.Fits b₀ b₁) (hp : Progress b₁ b)
    {t : SlotId} (hf : Build.Fits b₁ b ⟨none, some t⟩) (node : Descriptor) :
    wp (c.addSource node t) (fun c' b' => Progress b₀ b' ∧ c'.Fits b₀ b' ∧ ∃ t, c'.last = some t)
      (fun e b' => Progress b₀ b' ∧ e.Consistent) b := by
  have hle := hp₁.extends_.size_le
  have ht₁ := hf.tail rfl
  have ht := ht₁.weaken hle
  have hc' := hc.extend hp₁.sound.core hp.extends_ hp.sound.core
  unfold addSource
  rw [wp_ite]
  split
  · exact ⟨hp₁.trans hp, trivial⟩
  · next hpast =>
    have hpast : c.pastSources = false := by simpa using hpast
    obtain ⟨hfirst, hlast, hjoin⟩ := hc'.early hpast
    unfold joinPoint
    cases hj : c.join with
    | none =>
      have hn : (b.own (Stage.passThrough : σ) .join).graph.next? t = none := by
        rw [next?_own]; exact ht.last
      simp only [wp_bind, wp_addJoin, wp_pure, wp_link _ _ hn]
      obtain ⟨-, hp', hj'⟩ := link_new_join (Stage.passThrough : σ) (hp₁.trans hp) ht
      refine ⟨hp', ⟨fun h => ?_, fun h => ?_, fun h => ?_, fun h => ?_, fun _ => ?_⟩, _, rfl⟩
      · rw [hfirst] at h; cases h
      · cases h; exact hj'.toTailed
      · rw [hfirst] at h; cases h
      · rw [hfirst] at h; cases h
      · exact ⟨hfirst, rfl, fun h => by cases h; exact hj'⟩
    | some j =>
      simp only [wp_bind, wp_pure, wp_link _ _ ht.last]
      have hj' := hjoin hj
      have hne : t ≠ j := by
        have := ((hc.early hpast).2.2 hj).lt
        exact Nat.ne_of_gt (Nat.lt_of_lt_of_le this ht₁.new)
      have hu := ht.unmarked hp.sound
      have hw := ht.wiring_joined hj' hp.sound.core hne hu
      have hp' := link_join hp.sound.core (hp₁.trans hp).extends_ ht hj' hne hu
        fun x _ => .inl (hp.sound.settled x)
      have hj'' := hj'.wire hw fun _ => hne.symm
      refine ⟨hp', ⟨fun h => ?_, fun h => ?_, fun h => ?_, fun h => ?_, fun _ => ?_⟩, _,
        hlast.trans hj⟩
      · rw [hfirst] at h; cases h
      · rw [hlast, hj] at h; cases h; exact hj''.toTailed
      · rw [hfirst] at h; cases h
      · rw [hfirst] at h; cases h
      · exact ⟨hfirst, hlast, fun h => by rw [hj] at h; cases h; exact hj''⟩

/-- A compiled child goes to the end of a sequence. -/
theorem Chain.wp_add [Stage σ ω] (hp₁ : Progress b₀ b₁) (hc : c.Fits b₀ b₁)
    (hempty : c.last = none → b₁.graph.size = b₀.graph.size) (hp : Progress b₁ b) {f : Fragment}
    (hf : Build.Fits b₁ b f) (node : Descriptor) :
    wp (c.add node f) (fun c' b' => Progress b₀ b' ∧ c'.Fits b₀ b' ∧
      (c'.last = none → b'.graph.size = b₀.graph.size))
      (fun e b' => Progress b₀ b' ∧ e.Consistent) b := by
  obtain ⟨_ | h, tail⟩ := f
  · cases tail with
    | none =>
      refine ⟨hp₁.trans hp, hc.extend hp₁.sound.core hp.extends_ hp.sound.core, fun h => ?_⟩
      rw [hf.empty rfl rfl, hempty h]
    | some t =>
      refine wp_mono (wp_addSource hp₁ hc hp hf node) (fun c' b' ⟨hp', hc', t, ht⟩ => ?_) fun _ _ h => h
      exact ⟨hp', hc', fun h => by rw [ht] at h; cases h⟩
  · refine wp_mono (wp_addStage hp₁ hc hp hf node) (fun c' b' ⟨hp', hc', t, ht⟩ => ?_) fun _ _ h => h.elim
    exact ⟨hp', hc', fun h => by rw [ht] at h; cases h⟩

theorem Chain.compiles_finish (hp : Progress b₀ b) (hc : c.Fits b₀ b)
    (hempty : c.last = none → b.graph.size = b₀.graph.size) (flags : Flags) (flowControl : Bool) :
    wp (c.finish flags flowControl) (fun f b' => Progress b₀ b' ∧ Build.Fits b₀ b' f)
      (fun _ _ => False) b := by
  unfold finish
  cases hfirst : c.first with
  | none =>
    refine ⟨hp, fun h => ?_, fun h => hc.last h, fun h => ?_, fun h => ?_, fun _ h => hempty h⟩
    · cases h
    · cases h
    · cases h
  | some h =>
    obtain ⟨t, ht⟩ := hc.last_of_first hfirst
    have hfits : Build.Fits b₀ b ⟨some h, c.last⟩ :=
      ⟨fun h => hc.first (hfirst.trans h), hc.last, fun h => hc.through (hfirst.trans h),
        fun _ h => absurd (ht.symm.trans h) (by simp), fun h => by cases h⟩
    have hh := hfits.head rfl
    simp only [wp_bind, wp_insertCapabilities, wp_pure]
    exact ⟨⟨hp.sound.enable hh.lt rfl, hp.extends_.enable hh.new⟩, hfits.enable hh.lt rfl⟩

end Compile

end Routing
