import Routing.Proofs.Compile.Sequences
/-!
# Junctions

A junction in the making has a fork that nothing enters and a join that no stage follows, as soon as
a branch asks for them. Adding a compiled branch keeps this.
-/

namespace Routing

variable {σ ω : Type}

namespace Build

variable {b₀ b₁ b : Build σ ω} {h f x : SlotId}

theorem hop_head (hb : b.Core) (he : b₀.Extends b) (hf : Headed b₀ b f)
    (hr : b.graph.role? f = some .multiplexer) (hh : Headed b₀ b h) (hne : h ≠ f)
    (hs : ∀ x, x < b.graph.size → b.Settled x ∨ x = f ∧ ¬ b.Marked .source f) :
    b.Wiring f .hop h ∧ Progress b₀ (b.wire f .hop h) ∧ Headed b₀ (b.wire f .hop h) f := by
  have hw := hf.wiring_headed hr hh hne
  refine ⟨hw, ⟨(hb.wire hw).sound fun x hx => ?_, he.wire hw (.inl ⟨hf.new, .inl hh.new⟩)⟩,
    hf.wire hw hne.symm (by simp) hh.apart (fun _ => .inr hh.shut) fun _ => .inl .refl⟩
  rw [size_wire] at hx
  rcases hs x hx with hx | ⟨rfl, hu⟩
  · exact hx.wire hw
  · refine ⟨.of_fork ?_ ((hasEdge_wire hw).2 (.inr ⟨rfl, rfl, rfl⟩)), fun h => absurd h hu⟩
    rw [role?_wire]; exact hr

theorem hop_new_fork (stage : σ) (hp : Progress b₀ b) (hh : Headed b₀ b h) :
    (b.own stage .multiplexer).Wiring b.graph.size .hop h ∧
      Progress b₀ ((b.own stage .multiplexer).wire b.graph.size .hop h) ∧
      Headed b₀ ((b.own stage .multiplexer).wire b.graph.size .hop h) b.graph.size := by
  have hb := hp.sound.core
  have hf : Headed b₀ (b.own stage .multiplexer) b.graph.size :=
    headed_grow hb rfl rfl hp.extends_.size_le (by simp) rfl
  have hh' : Headed b₀ (b.own stage .multiplexer) h := hh.extend hb extends_own hb.own
  refine hop_head hb.own (hp.extends_.grow rfl rfl) hf role?_own hh' (Nat.ne_of_lt hh.lt)
    fun x hx => ?_
  rcases lt_size_grow.1 hx with hx | rfl
  · exact .inl ((hp.sound.settled x).own hb hx)
  · exact .inr ⟨rfl, hb.unmarked_size⟩

end Build

namespace Compile

open Build

/-- What holds of a junction that was begun at an earlier state. -/
structure Branching.Fits (b₀ b : Build σ ω) (j : Branching) : Prop where
  fork : ∀ {f}, j.fork = some f → Headed b₀ b f ∧ b.graph.role? f = some .multiplexer ∧
    b.graph.next? f = none
  /-- Branches start with stages of their own. -/
  own : ∀ {f y}, j.fork = some f → y ∈ b.graph.hops f → ¬ b.Marked .destination y
  join : ∀ {x}, j.join = some x → Joined b₀ b x
  through : ∀ {f x}, j.fork = some f → j.join = some x → b.graph.Reaches f x
  /-- Branches join without a fork only if they start with sources. -/
  headless : j.headless = false → j.fork = none → j.join = none

variable {b₀ b₁ b : Build σ ω} {j : Branching}

namespace Branching.Fits

theorem start (b : Build σ ω) : Branching.Fits b b {} where
  fork h := by cases h
  own h := by cases h
  join h := by cases h
  through h := by cases h
  headless _ _ := rfl

theorem extend (hj : j.Fits b₀ b₁) (hb₁ : b₁.Core) (he : b₁.Extends b) (hb : b.Core) :
    j.Fits b₀ b where
  fork h :=
    have ⟨hf, hr, hn⟩ := hj.fork h
    ⟨hf.extend hb₁ he hb, by rw [he.role?_old hf.lt]; exact hr, by rw [he.next?_old hf.lt]; exact hn⟩
  own {f y} h hy hm := by
    have hf := (hj.fork h).1
    -- only the fork after a source gets new hops, and that one is entered
    rcases he.edge_old (k := .hop) hf.lt hy with hy | ⟨-, -, t, -, ht⟩
    · exact hj.own h hy (he.marked_old (hb₁.target_lt hy) hm)
    · exact hf.free t ht.feeds
  join h := (hj.join h).extend hb₁ he
  through h h' := he.reaches (hj.through h h')
  headless := hj.headless

end Branching.Fits

/-- What adding the head of a branch leads to. -/
structure Branching.Entered (b₀ b₁ b : Build σ ω) (h : SlotId) (j j' : Branching) (b' : Build σ ω) :
    Prop where
  progress : Progress b₀ b'
  fits : j'.Fits b₀ b'
  join : j'.join = j.join
  fork : ∃ f, j'.fork = some f ∧ (f < b₁.graph.size ∨ b.graph.size ≤ f) ∧ b'.graph.Reaches f h
  reaches : ∀ {x y}, b.graph.Reaches x y → b'.graph.Reaches x y
  tailed : ∀ {t}, Tailed b₁ b t → Tailed b₁ b' t

variable [Stage σ ω]

theorem Branching.wp_addHead_some (hp₁ : Progress b₀ b₁) (hj : j.Fits b₀ b₁) (hp : Progress b₁ b)
    {h : SlotId} (hh : Headed b₁ b h) (node : Descriptor) :
    wp (j.addHead node (some h)) (fun j' b' => Entered b₀ b₁ b h j j' b')
      (fun e b' => Progress b₀ b' ∧ e.Consistent) b := by
  have hle := hp₁.extends_.size_le
  have hj' := hj.extend hp₁.sound.core hp.extends_ hp.sound.core
  have hh₀ := hh.weaken hle
  unfold addHead
  rw [wp_ite]
  split
  · exact ⟨hp₁.trans hp, trivial⟩
  · next hheadless =>
    have hheadless : j.headless = false := by simpa using hheadless
    unfold forkPoint
    cases hf : j.fork with
    | none =>
      simp only [wp_bind, wp_addMultiplexer, wp_pure, wp_addHop, wp_graph]
      obtain ⟨hw, hp', hf'⟩ := hop_new_fork (Stage.multiplexer : σ) (hp₁.trans hp) hh₀
      have hjoin := hj.headless hheadless hf
      have he : ((b.own (Stage.multiplexer : σ) .multiplexer).wire b.graph.size .hop h).graph.Feeds
          b.graph.size h := ((hasEdge_wire hw).2 (.inr ⟨rfl, rfl, rfl⟩)).feeds
      refine ⟨hp', ⟨fun h => ?_, fun h hy => ?_, fun h => ?_, fun _ h => ?_, fun _ h => ?_⟩, rfl,
        ⟨_, rfl, .inr (Nat.le_refl _), .single he⟩, fun h => ?_, fun ht => ?_⟩
      · cases h
        exact ⟨hf', role?_wire.trans role?_own, next?_wire_hop.trans next?_own_size⟩
      · cases h
        rcases Graph.mem_hops_of_wire hy with hy | rfl
        · exact absurd (Graph.HasEdge.feeds (k := .hop) hy) (sink_own _)
        · exact hh.unmarked
      · rw [hjoin] at h; cases h
      · rw [hjoin] at h; cases h
      · cases h
      · exact (extends_own.reaches h).wire hw.source_lt hw.next
      · exact (ht.extend hp.sound.core extends_own).wire hw (by simp)
    | some f =>
      simp only [wp_bind, wp_pure, wp_addHop, wp_graph]
      obtain ⟨hf', hr, hn⟩ := hj'.fork hf
      have hne : h ≠ f := Nat.ne_of_gt (Nat.lt_of_lt_of_le (hj.fork hf).1.lt hh.new)
      obtain ⟨hw, hp', hf''⟩ := hop_head hp.sound.core (hp₁.trans hp).extends_ hf' hr hh₀ hne
        fun x _ => .inl (hp.sound.settled x)
      have he : (b.wire f .hop h).graph.Feeds f h :=
        ((hasEdge_wire hw).2 (.inr ⟨rfl, rfl, rfl⟩)).feeds
      refine ⟨hp', ⟨fun h => ?_, fun h hy => ?_, fun h => ?_, fun h h' => ?_, fun _ h => ?_⟩, rfl,
        ⟨_, hf, .inl (hj.fork hf).1.lt, .single he⟩, fun h => h.wire hw.source_lt hw.next,
        fun ht => ht.wire hw (by simp)⟩
      · rw [hf] at h; cases h
        exact ⟨hf'', by rw [role?_wire]; exact hr, by rw [next?_wire_hop]; exact hn⟩
      · rw [hf] at h; cases h
        rcases Graph.mem_hops_of_wire hy with hy | rfl
        · exact hj'.own hf hy
        · exact hh.unmarked
      · exact (hj'.join h).wire hw (by simp)
      · exact (hj'.through h h').wire hw.source_lt hw.next
      · rw [hf] at h; cases h

theorem Branching.wp_addTail (hp : Progress b₀ b) (hj : j.Fits b₀ b) {t : SlotId}
    (ht : Tailed b₀ b t) (hne : ∀ x, j.join = some x → t ≠ x)
    (hthrough : ∀ f, j.fork = some f → f ≠ t ∧ b.graph.Reaches f t)
    (hheadless : j.headless = false → ∃ f, j.fork = some f) (node : Descriptor) :
    wp (j.addTail node (some t)) (fun j' b' => Progress b₀ b' ∧ j'.Fits b₀ b' ∧ ∃ x, j'.join = some x)
      (fun _ _ => False) b := by
  unfold addTail joinPoint
  have hb := hp.sound.core
  have hu := ht.unmarked hp.sound
  cases hx : j.join with
  | none =>
    have hn : (b.own (Stage.passThrough : σ) .join).graph.next? t = none := by
      rw [next?_own]; exact ht.last
    simp only [wp_bind, wp_addJoin, wp_pure, wp_link _ _ hn]
    obtain ⟨hw, hp', hx'⟩ := link_new_join (Stage.passThrough : σ) hp ht
    have he : ((b.own (Stage.passThrough : σ) .join).wire t .next b.graph.size).graph.Feeds t
        b.graph.size := ((hasEdge_wire hw).2 (.inr ⟨rfl, rfl, rfl⟩)).feeds
    refine ⟨hp', ⟨fun {f} h => ?_, fun {f y} h hy => ?_, fun h => ?_, fun h h' => ?_,
      fun h h' => ?_⟩, _, rfl⟩
    · obtain ⟨hf, hr, hlast⟩ := hj.fork h
      have hc : (b.own (Stage.passThrough : σ) .join).Core := hb.own
      refine ⟨(hf.extend hb extends_own hc).wire hw (Nat.ne_of_lt hf.lt) (fun _ => hu)
        (fun hm hr => ?_) (fun _ => .inr (shut_of_alone (free_own hb) sink_own))
        (fun _ => .inl (extends_own.reaches (hthrough f h).2)), ?_, ?_⟩
      · obtain ⟨t', -, he⟩ := hm
        obtain rfl := hr.eq_of_sink sink_own
        exact free_own hb t' he.feeds
      · rw [role?_wire, role?_own_lt hf.lt]; exact hr
      · rw [Build.wire, Graph.next?_wire_next hw.source_lt, if_neg (hthrough f h).1, next?_own]
        exact hlast
    · rw [Build.wire, Graph.hops_wire_next, hops_own] at hy
      exact hj.own h hy
    · cases h; exact hx'
    · cases h'
      exact ((extends_own.reaches (hthrough _ h).2).wire hw.source_lt hw.next).tail he
    · obtain ⟨f, hf⟩ := hheadless h
      rw [hf] at h'; cases h'
  | some x =>
    have hx' := hj.join hx
    have hw := ht.wiring_joined hx' hb (hne x hx) hu
    have hp' := link_join hb hp.extends_ ht hx' (hne x hx) hu fun x _ => .inl (hp.sound.settled x)
    have he : (b.wire t .next x).graph.Feeds t x :=
      ((hasEdge_wire hw).2 (.inr ⟨rfl, rfl, rfl⟩)).feeds
    simp only [wp_bind, wp_pure, wp_link _ _ ht.last]
    refine ⟨hp', ⟨fun {f} h => ?_, fun {f y} h hy => ?_, fun h => ?_, fun h h' => ?_,
      fun h h' => ?_⟩, _, hx⟩
    · obtain ⟨hf, hr, hlast⟩ := hj.fork h
      refine ⟨hf.wire hw (fun hfx => ?_) (fun _ => hu) (fun hm hr => ?_)
        (fun _ => .inl (hj.through h hx)) fun _ => .inl (hthrough f h).2, ?_, ?_⟩
      · rw [hfx, hx'.role] at hr; cases hr
      · obtain rfl := hr.eq_of_sink (hx'.sink hb)
        have hr' := hp.sound.sourceFork_role hm
        rw [hx'.role] at hr'; cases hr'
      · rw [role?_wire]; exact hr
      · rw [Build.wire, Graph.next?_wire_next hw.source_lt, if_neg (hthrough f h).1]
        exact hlast
    · rw [Build.wire, Graph.hops_wire_next] at hy
      exact hj.own h hy
    · rw [hx] at h; cases h
      exact hx'.wire hw fun _ => (hne x hx).symm
    · rw [hx] at h'; cases h'
      exact ((hthrough _ h).2.wire hw.source_lt hw.next).tail he
    · obtain ⟨f, hf⟩ := hheadless h
      rw [hf] at h'; cases h'

/-- A compiled branch goes into a junction. -/
theorem Branching.wp_add (hp₁ : Progress b₀ b₁) (hj : j.Fits b₀ b₁)
    (hempty : j.fork = none → j.join = none → b₁.graph.size = b₀.graph.size)
    (hp : Progress b₁ b) {f : Fragment} (hf : Build.Fits b₁ b f) (node : Descriptor) :
    wp (j.add node f) (fun j' b' => Progress b₀ b' ∧ j'.Fits b₀ b' ∧
      (j'.fork = none → j'.join = none → b'.graph.size = b₀.graph.size))
      (fun e b' => Progress b₀ b' ∧ e.Consistent) b := by
  have hle := hp₁.extends_.size_le
  unfold add
  rw [wp_bind]
  obtain ⟨head, tail⟩ := f
  cases head with
  | none =>
    have hj' := hj.extend hp₁.sound.core hp.extends_ hp.sound.core
    unfold addHead
    simp only [wp_ite, wp_throw, wp_pure]
    split
    · exact ⟨hp₁.trans hp, trivial⟩
    · next hfork =>
      have hfork : j.fork = none := by simpa using hfork
      have hj'' : Branching.Fits b₀ b { j with headless := true } :=
        ⟨hj'.fork, hj'.own, hj'.join, hj'.through, fun h => by cases h⟩
      cases tail with
      | none =>
        refine ⟨hp₁.trans hp, hj'', fun h h' => ?_⟩
        rw [hf.empty rfl rfl, hempty h h']
      | some t =>
        have ht := hf.tail rfl
        refine wp_mono (wp_addTail (hp₁.trans hp) hj'' (ht.weaken hle) (fun x hx => ?_)
          (fun f h => ?_) (fun h => ?_) node) (fun j' b' hadded => ?_) fun _ _ h => h.elim
        · exact Nat.ne_of_gt (Nat.lt_of_lt_of_le (hj.join hx).lt ht.new)
        · rw [hfork] at h; cases h
        · cases h
        · obtain ⟨hp', hj', x, hx⟩ := hadded
          exact ⟨hp', hj', fun _ h => by rw [hx] at h; cases h⟩
  | some h =>
    refine wp_mono (wp_addHead_some hp₁ hj hp (hf.head rfl) node) (fun j' b' he => ?_) fun _ _ h => h
    obtain ⟨f, hfork, hage, hreach⟩ := he.fork
    cases tail with
    | none =>
      exact ⟨he.progress, he.fits, fun h => by rw [hfork] at h; cases h⟩
    | some t =>
      have ht := hf.tail rfl
      refine wp_mono (wp_addTail he.progress he.fits ((he.tailed ht).weaken hle) (fun x hx => ?_)
        (fun f' h => ?_) (fun _ => ⟨f, hfork⟩) node) (fun j' b' hadded => ?_)
        fun _ _ h => h.elim
      · rw [he.join] at hx
        exact Nat.ne_of_gt (Nat.lt_of_lt_of_le (hj.join hx).lt ht.new)
      · rw [hfork] at h; cases h
        refine ⟨?_, hreach.trans (he.reaches (hf.through rfl rfl))⟩
        rcases hage with hlt | hle'
        · exact Nat.ne_of_lt (Nat.lt_of_lt_of_le hlt ht.new)
        · exact Nat.ne_of_gt (Nat.lt_of_lt_of_le ht.lt hle')
      · obtain ⟨hp', hj', x, hx⟩ := hadded
        exact ⟨hp', hj', fun _ h => by rw [hx] at h; cases h⟩

omit [Stage σ ω] in
theorem Branching.compiles_finish (hp : Progress b₀ b) (hj : j.Fits b₀ b)
    (hempty : j.fork = none → j.join = none → b.graph.size = b₀.graph.size) (flags : Flags)
    (flowControl : Bool) :
    wp (j.finish flags flowControl) (fun f b' => Progress b₀ b' ∧ Build.Fits b₀ b' f)
      (fun _ _ => False) b := by
  have hfits : Build.Fits b₀ b ⟨j.fork, j.join⟩ :=
    ⟨fun h => (hj.fork h).1, fun h => (hj.join h).toTailed, hj.through,
      fun h _ => (hj.fork h).2, hempty⟩
  unfold finish
  cases hfork : j.fork with
  | none =>
    rw [hfork] at hfits
    exact ⟨hp, hfits⟩
  | some f =>
    rw [hfork] at hfits
    have hh := hfits.head rfl
    simp only [wp_bind, wp_ite, wp_insertCapabilities, wp_pure]
    split
    · exact ⟨⟨hp.sound.enable hh.lt rfl, hp.extends_.enable hh.new⟩, hfits.enable hh.lt rfl⟩
    · exact ⟨hp, hfits⟩

end Compile

end Routing
