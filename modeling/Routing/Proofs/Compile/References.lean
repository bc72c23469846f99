import Routing.Proofs.Compile.Steps
/-!
# References

A reference to a source gives a new attach point of the fork after the source, and a reference to a
destination a new fork that hops to it. Both compile if their target does.
-/

namespace Routing

variable {σ ω : Type}

namespace Build

/-! ### Remembered targets -/

section Mark

variable {b₀ b : Build σ ω} {key : TargetKey} {h t m : SlotId}

theorem Core.mark_source (hb : b.Core) (hk : key.kind = .source) (ht : t < b.graph.size)
    (hn : b.graph.next? t = none) : (b.mark key t).Core := by
  have dest : ∀ {y}, (b.mark key t).Marked .destination y → b.Marked .destination y := fun hy =>
    (marked_mark.1 hy).resolve_left fun h => by rw [hk] at h; cases h.1
  refine ⟨hb.target_lt, hb.hop_fork, hb.hops_nodup, hb.target_plain, hb.join_next, hb.attach_hop,
    fun hy => hb.marked_hop (dest hy), fun hj hm => hb.unique hj fun hy => hm (marked_mark.2 (.inr hy)),
    fun hm => ?_, fun hy => hb.marked_role (dest hy), fun hy => hb.marked_plain (dest hy),
    fun hd hm => ?_, fun hd => (hb.shut (dest hd)).mark, hb.acyclic⟩
  · rcases List.mem_cons.1 hm with hm | hm
    · cases hm; exact ht
    · exact hb.memo_lt hm
  · obtain ⟨t', ht', he⟩ := hm
    rcases marked_mark.1 ht' with ⟨-, rfl⟩ | ht'
    · rw [Graph.hasEdge_next] at he
      exact absurd (he.symm.trans hn) (by simp)
    · exact hb.apart (dest hd) ⟨t', ht', he⟩

theorem Sound.mark_destination (hb : b.Sound) (hk : key.kind = .destination)
    (hh : Headed b₀ b h) : (b.mark key h).Sound := by
  have source : ∀ {y}, (b.mark key h).Marked .source y → b.Marked .source y := fun hy =>
    (marked_mark.1 hy).resolve_left fun h => by rw [hk] at h; cases h.1
  have hc := hb.core
  refine ⟨⟨hc.target_lt, hc.hop_fork, hc.hops_nodup, hc.target_plain, hc.join_next, hc.attach_hop,
    fun hy hx => ?_, fun hj hm => hc.unique hj fun hy => hm (marked_mark.2 (.inr hy)),
    fun hm => ?_, fun hy => ?_, fun hy => ?_, fun hd hm => ?_, fun hd => ?_, hc.acyclic⟩,
    fun x => ?_⟩
  · rcases marked_mark.1 hy with ⟨-, rfl⟩ | hy
    · exact absurd hx.feeds (hh.free _)
    · exact hc.marked_hop hy hx
  · rcases List.mem_cons.1 hm with hm | hm
    · cases hm; exact hh.lt
    · exact hc.memo_lt hm
  · rcases marked_mark.1 hy with ⟨-, rfl⟩ | hy
    · exact hh.role
    · exact hc.marked_role hy
  · rcases marked_mark.1 hy with ⟨-, rfl⟩ | hy
    · exact hh.plain
    · exact hc.marked_plain hy
  · obtain ⟨t, ht, he⟩ := hm
    rcases marked_mark.1 hd with ⟨-, rfl⟩ | hd
    · exact hh.apart ⟨t, source ht, he⟩
    · exact hc.apart hd ⟨t, source ht, he⟩
  · rcases marked_mark.1 hd with ⟨-, rfl⟩ | hd
    · exact hh.shut.mark
    · exact (hc.shut hd).mark
  · have hx := hb.settled x
    exact ⟨hx.toServed, fun hm => hx.tail (source hm)⟩

end Mark

/-! ### Attach points and forks to destinations -/

section Refer

variable {b₀ b : Build σ ω} {key : TargetKey} {d t m : SlotId} (stage : σ)

theorem wiring_attach (hb : b.Core) (hm : b.SourceFork m)
    (hr : b.graph.role? m = some .multiplexer) :
    (b.own stage .attach).Wiring m .hop b.graph.size := by
  have hmlt : m < b.graph.size := Graph.role?_lt hr
  have hc : (b.own stage .attach).Core := hb.own
  refine ⟨?_, ?_, by simp, fun _ => ⟨?_, ?_⟩, plain_own, by simp, fun _ => rfl, fun _ => rfl,
    .inr (.inr (free_own hb)), by simp, fun hd => ?_, fun hd hr => ?_, fun hr => ?_⟩
  · rw [size_own]; exact Nat.lt_succ_of_lt hmlt
  · rw [size_own]; exact Nat.lt_succ_self _
  · rw [role?_own_lt hmlt]; exact hr
  · exact fun hx => free_own hb m (Graph.HasEdge.feeds (k := .hop) hx)
  · exact hc.apart hd ((sourceFork_grow rfl).2 hm)
  · exact hr.eq_of_free (free_own hb) ▸ hd
  · exact absurd (hr.eq_of_sink sink_own) (Nat.ne_of_gt hmlt)

/-- The state with one more attach point after a fork. -/
def tap [Stage σ ω] (b : Build σ ω) (fork : SlotId) : Build σ ω :=
  (b.own Stage.passThrough .attach).wire fork .hop b.graph.size

/-- The state with a source remembered and a fork after it. -/
def forkAfter [Stage σ ω] (b : Build σ ω) (key : TargetKey) (tail : SlotId) : Build σ ω :=
  ((b.mark key tail).own Stage.multiplexer .multiplexer).wire tail .next b.graph.size

/-- The state with one more fork to a destination. -/
def forkTo [Stage σ ω] (b : Build σ ω) (head : SlotId) : Build σ ω :=
  (b.own Stage.multiplexer .multiplexer).wire b.graph.size .hop head

theorem size_forkAfter [Stage σ ω] : (b.forkAfter key t).graph.size = b.graph.size + 1 := by
  rw [forkAfter, size_wire, size_own]; rfl

theorem progress_tap [Stage σ ω] (hb : b.Core) (he : b₀.Extends b) (hm : b.SourceFork m)
    (hr : b.graph.role? m = some .multiplexer)
    (hs : ∀ x, x < b.graph.size → b.Settled x ∨ x = m ∧ ¬ b.Marked .source m)
    (hnew : b₀.graph.size ≤ m ∨ b₀.SourceFork m) :
    Progress b₀ (b.tap m) ∧ Tailed b₀ (b.tap m) b.graph.size := by
  unfold tap
  have hmlt : m < b.graph.size := Graph.role?_lt hr
  have hw := wiring_attach (Stage.passThrough : σ) hb hm hr
  have hedge := (hasEdge_wire hw).2 (.inr ⟨rfl, rfl, rfl⟩)
  have hle := he.size_le
  refine ⟨⟨(hb.own.wire hw).sound fun x hx => ?_, (he.grow rfl rfl).wire hw ?_⟩,
    (tailed_grow hb rfl rfl hle).wire hw (by simp)⟩
  · rw [size_wire, size_own, Nat.lt_succ_iff_lt_or_eq] at hx
    rcases hx with hx | rfl
    · rcases hs x hx with hx' | ⟨rfl, hu⟩
      · exact (hx'.own hb hx).wire hw
      · refine ⟨.of_fork ?_ hedge, fun h => absurd h hu⟩
        rw [role?_wire, role?_own_lt hmlt]; exact hr
    · refine ⟨.of_attach ?_ hedge, fun h => absurd h hb.unmarked_size⟩
      rw [role?_wire, role?_own]
  · rcases hnew with hnew | hnew
    · exact .inl ⟨hnew, .inl hle⟩
    · exact .inr ⟨rfl, hnew, hle, role?_own⟩

theorem wiring_fork (hb : b.Core) (hk : key.kind = .source) (ht : Tailed b₀ b t) :
    ((b.mark key t).own stage .multiplexer).Wiring t .next b.graph.size := by
  have hc : (b.mark key t).Core := hb.mark_source hk ht.lt ht.last
  have hfree : ∀ x, ¬ ((b.mark key t).own stage .multiplexer).graph.Feeds x b.graph.size :=
    free_own hc
  refine ⟨?_, ?_, fun _ => ?_, by simp, plain_own, fun _ => rfl, fun h => ?_,
    fun hm => absurd hm hc.unmarked_size, .inr (.inr hfree), fun _ _ => hfree, fun hd hr => ?_,
    fun hd hr => ?_, fun hr => ?_⟩
  · rw [size_own]; exact Nat.lt_succ_of_lt ht.lt
  · rw [size_own]; exact Nat.lt_succ_self _
  · rw [next?_own]; exact ht.last
  · exact absurd (h.symm.trans (role?_own (b := b.mark key t))) (by simp)
  · rw [Graph.Reaches, feeds_own] at hr
    have hd := (marked_mark.1 hd).resolve_left fun h => by rw [hk] at h; cases h.1
    exact ht.apart hd hr
  · exact hr.eq_of_free hfree ▸ hd
  · exact absurd (hr.eq_of_sink sink_own) (Nat.ne_of_gt ht.lt)

theorem fork_source [Stage σ ω] (hb : b.Sound) (he : b₀.Extends b) (hk : key.kind = .source)
    (ht : Tailed b₀ b t) {b' : Build σ ω} (hb' : b' = b.forkAfter key t) :
    b'.Core ∧ b₀.Extends b' ∧ b'.SourceFork b.graph.size ∧
      b'.graph.role? b.graph.size = some .multiplexer ∧
      ∀ x, x < b'.graph.size →
        b'.Settled x ∨ x = b.graph.size ∧ ¬ b'.Marked .source b.graph.size := by
  unfold forkAfter at hb'
  have hc : (b.mark key t).Core := hb.core.mark_source hk ht.lt ht.last
  have hw := wiring_fork (Stage.multiplexer : σ) hb.core hk ht
  have hrole : b'.graph.role? b.graph.size = some .multiplexer := by
    rw [hb', role?_wire]; exact role?_own
  have htm : b'.graph.HasEdge t .next b.graph.size := by
    rw [hb']; exact (hasEdge_wire hw).2 (.inr ⟨rfl, rfl, rfl⟩)
  refine ⟨hb' ▸ hc.own.wire hw, ?_, ⟨t, ?_, htm⟩, hrole, fun x hx => ?_⟩
  · rw [hb']
    exact ((he.mark ht.new).grow rfl rfl).wire hw (.inl ⟨ht.new, .inl he.size_le⟩)
  · rw [hb']; exact marked_mark.2 (.inl ⟨hk, rfl⟩)
  · rw [hb', size_wire, size_own, Nat.lt_succ_iff_lt_or_eq] at hx
    rcases hx with hx | rfl
    · have hserved : b'.graph.Served x := by
        rw [hb']
        exact ((hb.settled x).toServed.add hx rfl rfl).wire hw.source_lt hw.next
      refine .inl ⟨hserved, fun hm => ?_⟩
      rw [hb'] at hm
      rcases marked_mark.1 hm with ⟨-, rfl⟩ | hm
      · exact ⟨_, htm, hrole⟩
      · obtain ⟨m, hm, hr⟩ := (hb.settled x).tail hm
        refine ⟨m, ?_, ?_⟩
        · rw [hb']; exact (hasEdge_wire hw).2 (.inl ((Graph.hasEdge_add rfl rfl).2 hm))
        · rw [hb', role?_wire]
          exact (role?_own_lt (b := b.mark key t) (hb.core.target_lt hm)).trans hr
    · refine .inr ⟨rfl, ?_⟩
      rw [hb']; exact hc.unmarked_size

end Refer

end Build

/-! ### References to targets -/

namespace Build

variable {b₀ b : Build σ ω} {key : TargetKey} {d : SlotId}

theorem wiring_destination (stage : σ) (hb : b.Core) (hd : b.Marked .destination d) :
    (b.own stage .multiplexer).Wiring b.graph.size .hop d := by
  have hh : Headed b (b.own stage .multiplexer) b.graph.size :=
    headed_grow hb rfl rfl (Nat.le_refl _) (by simp) rfl
  exact hh.wiring_marked role?_own hb.own hd fun h =>
    sink_own d (Graph.HasEdge.feeds (k := .hop) h)

theorem fork_destination [Stage σ ω] (hb : b.Sound) (he : b₀.Extends b)
    (hd : b.Marked .destination d) :
    Progress b₀ (b.forkTo d) ∧ Fits b₀ (b.forkTo d) ⟨some b.graph.size, none⟩ := by
  unfold forkTo
  have hc : (b.own (Stage.multiplexer : σ) .multiplexer).Core := hb.core.own
  have hle := he.size_le
  have hh : Headed b₀ (b.own (Stage.multiplexer : σ) .multiplexer) b.graph.size :=
    headed_grow hb.core rfl rfl hle (by simp) rfl
  have hw := wiring_destination (Stage.multiplexer : σ) hb.core hd
  have hne : b.graph.size ≠ d := Nat.ne_of_gt (hb.core.marked_lt hd)
  have hh' := hh.wire hw hne (by simp) (fun hm => hc.apart hd hm) (fun _ => .inr (hc.shut hd))
    fun _ => .inr hd
  refine ⟨⟨(hc.wire hw).sound fun x hx => ?_, (he.grow rfl rfl).wire hw ?_⟩, ?_⟩
  · rw [size_wire, size_own, Nat.lt_succ_iff_lt_or_eq] at hx
    rcases hx with hx | rfl
    · exact ((hb.settled x).own hb.core hx).wire hw
    · refine ⟨.of_fork ?_ ((hasEdge_wire hw).2 (.inr ⟨rfl, rfl, rfl⟩)),
        fun h => absurd h hb.core.unmarked_size⟩
      rw [role?_wire, role?_own]
  · by_cases hlt : d < b₀.graph.size
    · exact .inl ⟨hle, .inr (he.marked_old hlt hd)⟩
    · exact .inl ⟨hle, .inl (Nat.not_lt.1 hlt)⟩
  · refine ⟨fun h => ?_, fun h => ?_, fun _ h => ?_, fun h _ => ?_, fun h => ?_⟩
    · cases h; exact hh'
    · cases h
    · cases h
    · cases h
      exact ⟨role?_wire.trans role?_own, next?_wire_hop.trans next?_own_size⟩
    · cases h

end Build

namespace Compile

open Build

variable {b : Build σ ω}

theorem mem_of_lookup {α β : Type} [BEq α] [LawfulBEq α] {a : α} {y : β} {l : List (α × β)}
    (h : l.lookup a = some y) : (a, y) ∈ l := by
  obtain ⟨l₁, l₂, rfl, -⟩ := List.lookup_eq_some_iff.1 h
  simp

theorem wp_once {Q : SlotId → Build σ ω → Prop} {E : CompileError → Build σ ω → Prop}
    {key : TargetKey} {failure : CompileError} {run : Compile σ ω (Option SlotId)}
    (hold : ∀ id, b.memos.lookup key = some id → Q id b)
    (hrun : b.memos.lookup key = none → wp run (fun id b' => match id with
      | some id => Q id (b'.mark key id)
      | none => E failure b') E b) : wp (once key none failure run) Q E b := by
  unfold once
  simp only [wp_bind, wp_remembered, Option.or_none]
  split
  · next id hid => exact hold id hid
  · next hnone =>
    rw [wp_bind]
    refine wp_mono (hrun hnone) (fun id b' h => ?_) fun _ _ h => h
    cases id with
    | none => exact h
    | some id => exact h

variable [Stage σ ω]

theorem wp_sourceFork_old {Q : Fragment → Build σ ω → Prop} {E : CompileError → Build σ ω → Prop}
    {t : SlotId} {node : Descriptor} (hb : b.Sound) (ht : b.Marked .source t)
    (hQ : ∀ m, b.graph.HasEdge t .next m → b.graph.role? m = some .multiplexer →
      Q ⟨none, some b.graph.size⟩ ((b.own Stage.passThrough .attach).wire m .hop b.graph.size)) :
    wp (do
      let fork ← sourceFork t node
      let attach ← addAttach
      addHop fork attach
      return ⟨none, some attach⟩) Q E b := by
  obtain ⟨m, hm, hr⟩ := (hb.settled t).tail ht
  rw [Graph.hasEdge_next] at hm
  unfold sourceFork
  simp only [wp_bind, wp_graph, hm, hr, if_true, wp_pure, wp_addAttach, wp_addHop]
  exact hQ m hm hr

theorem wp_sourceFork_new {Q : Fragment → Build σ ω → Prop} {E : CompileError → Build σ ω → Prop}
    {t : SlotId} {node : Descriptor} (hn : b.graph.next? t = none)
    (hQ : Q ⟨none, some (b.graph.size + 1)⟩
      ((((b.own Stage.multiplexer .multiplexer).wire t .next b.graph.size).own
        Stage.passThrough .attach).wire b.graph.size .hop (b.graph.size + 1))) :
    wp (do
      let fork ← sourceFork t node
      let attach ← addAttach
      addHop fork attach
      return ⟨none, some attach⟩) Q E b := by
  have hn' : (b.own Stage.multiplexer .multiplexer).graph.next? t = none := by
    rw [next?_own]; exact hn
  unfold sourceFork
  simp only [wp_bind, wp_graph, hn, wp_addMultiplexer, wp_link _ _ hn', wp_pure, wp_addAttach,
    wp_addHop]
  have hsize : ((b.own Stage.multiplexer .multiplexer).wire t .next b.graph.size).graph.size =
      b.graph.size + 1 := by rw [size_wire, size_own]
  rw [hsize]
  exact hQ

/-- A reference to a source gives one more attach point, and the first one a fork before. -/
theorem wp_source {Q : Fragment → Build σ ω → Prop} {E : CompileError → Build σ ω → Prop}
    (hb : b.Sound) {h : Heading} {here : Option Location} {key : TargetKey}
    {run : Compile σ ω Fragment} (hk : key.kind = .source)
    (hold : ∀ t m, b.memos.lookup key = some t → b.graph.HasEdge t .next m →
      b.graph.role? m = some .multiplexer → Q ⟨none, some b.graph.size⟩ (b.tap m))
    (hnew : b.memos.lookup key = none → wp run (fun f b' => match f.tail with
      | some t => b'.graph.next? t = none ∧
        Q ⟨none, some (b'.graph.size + 1)⟩ ((b'.forkAfter key t).tap b'.graph.size)
      | none => E (emptyObject h here) b') E b) : wp (referTo h here key none run) Q E b := by
  unfold referTo
  rw [hk, wp_bind]
  refine wp_once (fun t ht => ?_) fun hnone => ?_
  · exact wp_sourceFork_old hb ⟨key, hk, mem_of_lookup ht⟩ (hold t · ht)
  · rw [wp_bind]
    refine wp_mono (hnew hnone) (fun f b' h => ?_) fun _ _ h => h
    rw [wp_pure]
    cases hft : f.tail with
    | none =>
      rw [hft] at h
      exact h
    | some t =>
      rw [hft] at h
      refine wp_sourceFork_new (b := b'.mark key t) h.1 ?_
      obtain ⟨-, h⟩ := h
      rw [tap, size_forkAfter] at h
      exact h

/-- A reference to a destination gives one more fork to it. -/
theorem wp_destination {Q : Fragment → Build σ ω → Prop} {E : CompileError → Build σ ω → Prop}
    {h : Heading} {here : Option Location} {key : TargetKey} {run : Compile σ ω Fragment}
    (hk : key.kind = .destination)
    (hold : ∀ d, b.memos.lookup key = some d → Q ⟨some b.graph.size, none⟩ (b.forkTo d))
    (hnew : b.memos.lookup key = none → wp run (fun f b' => match f.head with
      | some d => Q ⟨some b'.graph.size, none⟩ ((b'.mark key d).forkTo d)
      | none => E (emptyObject h here) b') E b) : wp (referTo h here key none run) Q E b := by
  unfold referTo
  rw [hk, wp_bind]
  refine wp_once (fun d hd => ?_) fun hnone => ?_
  · simp only [wp_bind, wp_addMultiplexer, wp_addHop, wp_pure]
    exact hold d hd
  · rw [wp_bind]
    refine wp_mono (hnew hnone) (fun f b' h => ?_) fun _ _ h => h
    rw [wp_pure]
    cases hfh : f.head with
    | none =>
      rw [hfh] at h
      exact h
    | some d =>
      rw [hfh] at h
      simp only [wp_bind, wp_addMultiplexer, wp_addHop, wp_pure]
      exact h

theorem compiles_source (hb : b.Sound) {h : Heading} {here : Option Location} {key : TargetKey}
    {run : Compile σ ω Fragment} (hk : key.kind = .source) (hrun : Compiles b run) :
    Compiles b (referTo h here key none run) := by
  have fits : ∀ {b' : Build σ ω} {a}, Tailed b b' a → Fits b b' ⟨none, some a⟩ := by
    intro b' a ha
    refine ⟨fun h => ?_, fun h => ?_, fun h => ?_, fun h => ?_, fun _ h => ?_⟩
    · cases h
    · cases h; exact ha
    · cases h
    · cases h
    · cases h
  refine wp_source hb hk (fun t m ht hm hr => ?_) fun _ => ?_
  · have hm : b.SourceFork m := ⟨t, ⟨key, hk, mem_of_lookup ht⟩, hm⟩
    have ⟨hp, ha⟩ := progress_tap hb.core (.refl b) hm hr (fun x _ => .inl (hb.settled x)) (.inr hm)
    exact ⟨hp, fits ha⟩
  · refine wp_mono hrun (fun f b' ⟨hp, hf⟩ => ?_) fun _ _ h => h
    cases hft : f.tail with
    | none => exact ⟨hp, trivial⟩
    | some t =>
      have ht := hf.tail hft
      have ⟨hc, he, hm, hr, hs⟩ := fork_source hp.sound hp.extends_ hk ht rfl
      have ⟨hp', ha⟩ := progress_tap hc he hm hr hs (.inl hp.extends_.size_le)
      rw [size_forkAfter] at ha
      exact ⟨ht.last, hp', fits ha⟩

theorem compiles_destination (hb : b.Sound) {h : Heading} {here : Option Location} {key : TargetKey}
    {run : Compile σ ω Fragment} (hk : key.kind = .destination) (hrun : Compiles b run) :
    Compiles b (referTo h here key none run) := by
  refine wp_destination hk (fun d hd => ?_) fun _ => ?_
  · exact fork_destination hb (.refl b) ⟨key, hk, mem_of_lookup hd⟩
  · refine wp_mono hrun (fun f b' ⟨hp, hf⟩ => ?_) fun _ _ h => h
    cases hfh : f.head with
    | none => exact ⟨hp, trivial⟩
    | some d =>
      have hd := hf.head hfh
      exact fork_destination (hp.sound.mark_destination hk hd) (hp.extends_.mark hd.new)
        (marked_mark.2 (.inl ⟨hk, rfl⟩))

/-- A reference compiles if its target does. -/
theorem compiles_referTo (hb : b.Sound) {h : Heading} {here : Option Location} {key : TargetKey}
    {run : Compile σ ω Fragment} (hrun : Compiles b run) :
    Compiles b (referTo h here key none run) := by
  by_cases hs : key.kind = .source
  · exact compiles_source hb hs hrun
  · by_cases hd : key.kind = .destination
    · exact compiles_destination hb hd hrun
    · unfold referTo
      split
      · exact absurd ‹_› hs
      · exact absurd ‹_› hd
      · exact hrun

end Compile

end Routing
