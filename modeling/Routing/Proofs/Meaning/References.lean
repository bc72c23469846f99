import Routing.Proofs.Meaning.Denotes
/-!
# What references mean

A reference to a source has the words of the remembered end of the source, as its fork and its attach
point are silent. A reference to a destination has the empty word, and its fork delivers it.
-/

namespace Routing

variable {σ ω : Type} [Stage σ ω] {α : Type} {S : Spelling σ α} {known : TargetKey → Meaning α}

namespace Build

variable {n : Nat} {p : Pool σ ω} {b₀ b₁ b : Build σ ω} {d h t u x y f : SlotId} {k : EdgeKind}
  {stage : σ} {role : Role} {key : TargetKey} {m : Meaning α}

/-- Nothing was remembered since an earlier state, and what is new hops to nothing. -/
structure Idle (b₀ b : Build σ ω) : Prop where
  memos : b.memos = b₀.memos
  hops : ∀ {x}, b₀.graph.size ≤ x → b.graph.hops x = []

omit [Stage σ ω] in
theorem Idle.refl (b : Build σ ω) : Idle b b where
  memos := rfl
  hops hx := by
    rw [Graph.hops, Graph.slot?_eq_none.2 hx]
    rfl

omit [Stage σ ω] in
theorem Idle.recipients (hi : Idle b₀ b) (hx : b₀.graph.size ≤ x) : b.recipients x = 0 := by
  refine recipients_eq_zero fun d hd => ?_
  rw [Graph.hasEdge_hop, hi.hops hx] at hd
  cases hd

omit [Stage σ ω] in
theorem Idle.unremembered (hi : Idle b₀ b) (hb : b₀.Core) (hx : b₀.graph.size ≤ x) :
    x ∉ b.memos.map Prod.snd := by
  intro hmem
  rw [hi.memos] at hmem
  obtain ⟨⟨key, id⟩, hm, rfl⟩ := List.mem_map.1 hmem
  exact absurd (hb.memo_lt hm) (Nat.not_lt.2 hx)

omit [Stage σ ω] in
theorem Idle.unknown (hi : Idle b₀ b) (hkey : b₀.memos.lookup key = none) :
    key ∉ b.memos.map Prod.fst := by
  intro hmem
  rw [hi.memos] at hmem
  obtain ⟨⟨key', id⟩, hm, rfl⟩ := List.mem_map.1 hmem
  have hne := List.lookup_eq_none_iff.1 hkey _ hm
  simp at hne

/-! ### An edge to a new slot -/

omit [Stage σ ω] in
theorem Wiring.start_lt (hw : (b.own stage role).Wiring u k b.graph.size) : u < b.graph.size := by
  have hlt := hw.source_lt
  rw [size_own] at hlt
  refine (Nat.lt_succ_iff_lt_or_eq.1 hlt).resolve_right ?_
  rintro rfl
  exact hw.back .refl

section New

variable (hb : b.Core) (hw : (b.own stage role).Wiring u k b.graph.size)

include hb hw

omit [Stage σ ω] in
theorem recipients_wire_new (x : SlotId) :
    ((b.own stage role).wire u k b.graph.size).recipients x = b.recipients x := by
  rw [recipients_wire_of_unmarked hw.source_lt fun _ => hb.unmarked_size, recipients_own]

theorem words_wire_new (hs : Steady S n b.pool b) (hstage : S.spell stage = []) :
    ((b.own stage role).wire u k b.graph.size).words S b.graph.size = b.words S u := by
  have hu : u < b.graph.size := hw.start_lt
  have hfirst : ((b.own stage role).graph.wire u k b.graph.size).words ((b.own stage role).spelled S)
      b.graph.size = Words.cat ((b.own stage role).words S u) {(b.own stage role).spelled S _} :=
    (hw.wires hb.own).words_first (free_own hb)
  rw [spelled_own_size, hstage, Words.cat_nil] at hfirst
  rw [words_wire, hfirst]
  exact words_own hb hs hu

theorem Told.wire_new (ht : b.Told S known) (hs : Steady S n b.pool b) :
    ((b.own stage role).wire u k b.graph.size).Told S known := by
  refine (ht.own hb hs).wire hb.own hw fun {t} hm hr => ?_
  obtain rfl := hr.eq_of_sink sink_own
  exact hb.unmarked_size hm

end New

/-! ### References to sources -/

theorem words_fork (hb : b.Sound) (hs : Steady S n p b) (ht : b.Marked .source t)
    (hf : b.graph.HasEdge t .next f) : b.words S f = b.words S t := by
  have hfork : b.SourceFork f := ⟨t, ht, hf⟩
  have hrole := hb.sourceFork_role hfork
  have hunmarked : ¬ b.Marked .destination f := fun hm => hb.core.apart hm hfork .refl
  have hfeeders : b.graph.feeders f = {t} := by
    have hmem := Graph.mem_feeders.2 hf.feeds
    have hlen := hb.core.length_entering (by rw [hrole]; simp) hunmarked
    have hcard : (b.graph.feeders f).card ≤ 1 := by simpa [Graph.feeders] using hlen
    obtain ⟨rest, hrest⟩ := Multiset.exists_cons_of_mem hmem
    rw [hrest, Multiset.card_cons] at hcard
    have hzero : rest = 0 := Multiset.card_eq_zero.1 (by omega)
    rw [hrest, hzero]
    rfl
  have hsilent : b.spelled S f = [] := hs.silent hrole (by simp) (by simp)
  rw [words, Graph.words_of_feeds hb.core.acyclic hf.feeds, hfeeders, hsilent,
    Multiset.singleton_bind, Words.cat_nil]
  rfl

/-- An attach point with the words of a source. -/
theorem denotes_attach (hb : b.Core) (hs : Steady S n b.pool b) (hk : key.kind = .source)
    (hw : (b.own Stage.passThrough .attach).Wiring f .hop b.graph.size)
    (hf : b.words S f = m.paths) (hm : m.deliver = 0) {lo hi : SlotId}
    (hidle : ∀ {x}, lo ≤ x → b.recipients x = 0) :
    Denotes S ((b.own Stage.passThrough .attach).wire f .hop b.graph.size) lo hi
      ⟨none, some b.graph.size⟩ (m.refer key) := by
  have hrefer : m.refer key = { m with rooted := true } := by simp [Meaning.refer, hk]
  rw [hrefer]
  refine ⟨rfl, fun h => ?_, fun hx => ?_, ?_⟩
  · cases h
  · cases hx
    exact ⟨(words_wire_new hb hw hs S.passThrough).trans hf, fun hh => by cases hh⟩
  · rw [hm]
    exact .idle fun hx _ => (recipients_wire_new hb hw _).trans (hidle hx)

theorem denotes_source (hb : b.Core) (hs : Steady S n b.pool b) (ht : b.Told S known)
    (hk : key.kind = .source)
    (hw : (b.own (Stage.multiplexer : σ) .multiplexer).Wiring t .next b.graph.size)
    (hmark : b.Marked .source t) (hwt : b.words S t = m.paths) (hm : m.deliver = 0)
    {lo hi : SlotId} (hidle : ∀ {x}, lo ≤ x → b.recipients x = 0) {b' : Build σ ω}
    (hb' : b' = (b.own Stage.multiplexer .multiplexer).wire t .next b.graph.size) :
    ((b'.own Stage.passThrough .attach).wire b.graph.size .hop b'.graph.size).Told S known ∧
      Denotes S ((b'.own Stage.passThrough .attach).wire b.graph.size .hop b'.graph.size) lo hi
        ⟨none, some b'.graph.size⟩ (m.refer key) := by
  have hc : b'.Core := hb' ▸ hb.own.wire hw
  have hs' : Steady S n b'.pool b' := by
    rw [hb']
    exact ((stable_steady S n b.pool).wire ((stable_steady S n b.pool).own (.inl rfl) hs)).refl
  have hf : b'.words S b.graph.size = m.paths := by
    rw [hb', words_wire_new hb hw hs S.multiplexer]
    exact hwt
  have hfork : b'.SourceFork b.graph.size := by
    refine ⟨t, ?_, ?_⟩
    · rw [hb']; exact hmark
    · rw [hb']; exact (hasEdge_wire hw).2 (.inr ⟨rfl, rfl, rfl⟩)
  have hrole : b'.graph.role? b.graph.size = some .multiplexer := by
    rw [hb', role?_wire]; exact role?_own
  have hwa := wiring_attach (Stage.passThrough : σ) hc hfork hrole
  have htold : b'.Told S known := hb' ▸ ht.wire_new hb hw hs
  refine ⟨htold.wire_new hc hwa hs', denotes_attach hc hs' hk hwa hf hm fun {x} hx => ?_⟩
  rw [hb', recipients_wire_new hb hw]
  exact hidle hx

/-! ### References to destinations -/

theorem Told.wire_destination (stage : σ) (ht : b.Told S known) (hb : b.Sound)
    (hs : Steady S n b.pool b) (hd : b.Marked .destination d) :
    ((b.own stage .multiplexer).wire b.graph.size .hop d).Told S known := by
  have hw := wiring_destination stage hb.core hd
  refine (ht.own hb.core hs).wire hb.core.own hw fun {t} hm hr => ?_
  rw [Graph.Reaches, feeds_own] at hr
  exact hb.not_reaches_source hm (fun hf => hb.core.apart hd hf) hr

omit [Stage σ ω] in
theorem recipients_destination (hb : b.Core) (hk : key.kind = .destination)
    (hslots : (b.memos.map Prod.snd).Nodup) (hm : (key, d) ∈ b.memos) (x : SlotId) :
    ((b.own stage .multiplexer).wire b.graph.size .hop d).recipients x =
      if x = b.graph.size then {key} else b.recipients x := by
  have hw := wiring_destination stage hb ⟨key, hk, hm⟩
  have hown : (b.own stage .multiplexer).recipients x = b.recipients x := recipients_own x
  unfold recipients at hown ⊢
  rw [Build.wire, Graph.hops_wire_hop hw.source_lt]
  split
  · next heq =>
    have hnil : (b.own stage .multiplexer).graph.hops x = [] := by
      refine List.eq_nil_iff_forall_not_mem.2 fun y hy => ?_
      rw [heq] at hy
      exact sink_own y (Graph.HasEdge.feeds (k := .hop) hy)
    rw [hnil, List.nil_append, Multiset.coe_singleton, Multiset.singleton_bind]
    exact targetsAt_of_mem hslots hk hm
  · exact hown

/-- A fork that delivers the empty word to a destination. -/
theorem denotes_destination (hb : b.Core) (hk : key.kind = .destination) {lo : SlotId}
    (hle : lo ≤ b.graph.size) (hslots : (b.memos.map Prod.snd).Nodup) (hm : (key, d) ∈ b.memos)
    (hidle : ∀ {x}, lo ≤ x → b.recipients x = 0) {b' : Build σ ω}
    (hb' : b' = (b.own Stage.multiplexer .multiplexer).wire b.graph.size .hop d) :
    Denotes S b' lo b'.graph.size ⟨some b.graph.size, none⟩ (m.refer key) := by
  have hrefer : m.refer key = { deliver := {([], key)} } := by simp [Meaning.refer, hk]
  have hd : b.Marked .destination d := ⟨key, hk, hm⟩
  have hw := wiring_destination (Stage.multiplexer : σ) hb hd
  have hrec : ∀ x, b'.recipients x = if x = b.graph.size then {key} else b.recipients x := by
    rw [hb']
    exact recipients_destination hb hk hslots hm
  have hwords : b'.words S b.graph.size = {[]} := by
    rw [hb', words_wire, (hw.wires hb.own).words_start]
    exact words_own_size hb S.multiplexer
  have hfree : ∀ y, ¬ b'.graph.Feeds y b.graph.size := by
    rintro y ⟨k', hy⟩
    rw [hb'] at hy
    rcases (hasEdge_wire hw).1 hy with hy | ⟨-, -, heq⟩
    · exact free_own hb y hy.feeds
    · exact Nat.ne_of_gt (hb.marked_lt hd) heq
  have hsize : b'.graph.size = b.graph.size + 1 := by rw [hb', size_wire, size_own]
  rw [hrefer, hsize]
  refine ⟨rfl, fun h => ?_, fun hx => ?_, ?_⟩
  · cases h
  · cases hx
    refine ⟨hwords, fun hh => ?_⟩
    cases hh
    exact .self hfree
  · have hbefore : Delivers S b' lo b.graph.size (some b.graph.size) 0 := .idle fun {x} hx hlt => by
      rw [hrec, if_neg (Nat.ne_of_lt hlt)]
      exact hidle hx
    have hfork : Delivers S b' b.graph.size (b.graph.size + 1) (some b.graph.size) {([], key)} := by
      refine ⟨?_, fun {h x} hh hlo hhi _ => ?_⟩
      · rw [delivered_succ, hwords, hrec, if_pos rfl]
        rfl
      · cases hh
        obtain rfl := Nat.le_antisymm hlo (Nat.le_of_lt_succ hhi)
        exact .self hfree
    have hboth := hbefore.append hfork hle (Nat.le_succ _)
    rwa [zero_add] at hboth

end Build

namespace Compile

open Build

variable {n : Nat} {p : Pool σ ω} {b : Build σ ω} {key : TargetKey} {m : Meaning α} {v : Bool}
  {run : Compile σ ω Fragment}

section Target

variable (hb : b.Sound) (hs : Steady S n p b) (ht : b.Told S known)
  (hrun : wp run (fun f b' => Part S known n p b b' f m ∧ Idle b b' ∧ f.isEmpty = v)
    (fun _ _ => True) b)

include hb hs ht hrun

theorem means_source (hk : key.kind = .source) (hknown : known key = m) (hm : m.deliver = 0)
    (h : Heading) (here : Option Location) :
    wp (referTo h here key none run) (fun f b' => b'.Told S known ∧ f.isEmpty = false ∧
      Denotes S b' b.graph.size b'.graph.size f (m.refer key)) (fun _ _ => True) b := by
  unfold referTo
  rw [hk, wp_bind]
  refine wp_once (fun t hlook => ?_) fun hnone => ?_
  · have hmem := mem_of_lookup hlook
    have hmark : b.Marked .source t := ⟨key, hk, hmem⟩
    refine wp_sourceFork_old hb hmark fun f hf hr => ?_
    have hw := wiring_attach (Stage.passThrough : σ) hb.core ⟨t, hmark, hf⟩ hr
    have hwords : b.words S f = m.paths := by
      rw [words_fork hb hs hmark hf, ht.sources hmem hk, hknown]
    exact ⟨ht.wire_new hb.core hw hs.refl, rfl,
      denotes_attach hb.core hs.refl hk hw hwords hm recipients_of_le⟩
  · rw [wp_bind]
    refine wp_mono hrun (fun f b₁ ⟨hpart, hidle, _⟩ => ?_) fun _ _ _ => trivial
    rw [wp_pure]
    cases hft : f.tail with
    | none => trivial
    | some t =>
      have htail := hpart.fits.tail hft
      refine wp_sourceFork_new (b := b₁.mark key t) htail.last ?_
      have hc := hpart.progress.sound.core
      have hwt := (hpart.denotes.reads (x := t) (by rw [Fragment.last, hft]; rfl)).words
      have hmark : (b₁.mark key t).Told S known := hpart.told.mark_source hk (by rw [hwt, hknown])
        (hidle.unremembered hb.core htail.new) (hidle.unknown hnone)
      have hcm : (b₁.mark key t).Core := hc.mark_source hk htail.lt htail.last
      have hsm : Steady S n b₁.pool (b₁.mark key t) :=
        (stable_steady S n b₁.pool).mark hpart.steady.refl
      have hw := wiring_fork (Stage.multiplexer : σ) hc hk htail
      have hmem : (b₁.mark key t).Marked .source t := marked_mark.2 (.inl ⟨hk, rfl⟩)
      have hsize : (((b₁.mark key t).own (Stage.multiplexer : σ) .multiplexer).wire t .next
          (b₁.mark key t).graph.size).graph.size = (b₁.mark key t).graph.size + 1 := by
        rw [size_wire, size_own]
      obtain ⟨htold, hd⟩ := denotes_source hcm hsm hmark hk hw hmem hwt hm
        (fun {x} hx => by
          rw [recipients_mark fun hd => by rw [hk] at hd; cases hd]
          exact hidle.recipients hx) rfl
      rw [← hsize]
      exact ⟨htold, rfl, hd⟩

theorem means_destination (hk : key.kind = .destination) (h : Heading) (here : Option Location) :
    wp (referTo h here key none run) (fun f b' => b'.Told S known ∧ f.isEmpty = false ∧
      Denotes S b' b.graph.size b'.graph.size f (m.refer key)) (fun _ _ => True) b := by
  unfold referTo
  rw [hk, wp_bind]
  refine wp_once (fun d hlook => ?_) fun hkey => ?_
  · have hmem := mem_of_lookup hlook
    simp only [wp_bind, wp_addMultiplexer, wp_addHop, wp_pure]
    have htold := ht.wire_destination (Stage.multiplexer : σ) hb hs.refl ⟨key, hk, hmem⟩
    exact ⟨htold, rfl,
      denotes_destination hb.core hk (Nat.le_refl _) ht.slots hmem recipients_of_le rfl⟩
  · rw [wp_bind]
    refine wp_mono hrun (fun f b₁ hf => ?_) fun _ _ _ => trivial
    obtain ⟨hpart, hidle, -⟩ := hf
    rw [wp_pure]
    cases hfh : f.head with
    | none => trivial
    | some d =>
      simp only [wp_bind, wp_addMultiplexer, wp_addHop, wp_pure]
      have hhead := hpart.fits.head hfh
      have hext := hpart.progress.extends_
      have hmark : (b₁.mark key d).Sound := hpart.progress.sound.mark_destination hk hhead
      have hsm : Steady S n b₁.pool (b₁.mark key d) :=
        (stable_steady S n b₁.pool).mark hpart.steady.refl
      -- What delivers is older than the target, and the head of the target leads to nothing older.
      have hclear : ∀ {x}, b₁.recipients x ≠ 0 → ¬ b₁.graph.Reaches d x := by
        intro x hx hr
        have hlt : x < b.graph.size := Nat.not_le.1 fun hle => hx (hidle.recipients hle)
        obtain ⟨d', hd', hr'⟩ := hext.reaches_new hb.core hhead.new hlt hr
        exact hpart.told.clear hx d' (hext.marked hd') (hext.reaches hr')
      have htold := hpart.told.mark_destination hk hhead.free
        (hidle.unremembered hb.core hhead.new) (hidle.unknown hkey) hclear
      have hmem : (key, d) ∈ (b₁.mark key d).memos := List.mem_cons_self ..
      have htold' := htold.wire_destination (Stage.multiplexer : σ) hmark hsm.refl
        ⟨key, hk, hmem⟩
      refine ⟨htold', rfl, denotes_destination hmark.core hk hext.size_le htold.slots hmem
        (fun {x} hx => ?_) rfl⟩
      rw [recipients_mark fun _ he => hhead.free _ (Graph.HasEdge.feeds (k := .hop) he)]
      exact hidle.recipients hx

omit hb hs ht in
theorem means_referTo_other (hs : key.kind ≠ .source) (hd : key.kind ≠ .destination) (h : Heading)
    (here : Option Location) :
    wp (referTo h here key none run) (fun f b' => b'.Told S known ∧ f.isEmpty = v ∧
      Denotes S b' b.graph.size b'.graph.size f (m.refer key)) (fun _ _ => True) b := by
  have hrefer : m.refer key = m := by
    unfold Meaning.refer
    split
    · exact absurd ‹_› hs
    · exact absurd ‹_› hd
    · rfl
  rw [hrefer]
  unfold referTo
  split
  · exact absurd ‹_› hs
  · exact absurd ‹_› hd
  · exact wp_mono hrun (fun f b' hf => ⟨hf.1.told, hf.2.2, hf.1.denotes⟩) fun _ _ h => h

/-- A reference means what it refers to. -/
theorem means_referTo (hknown : known key = m) (hm : m.deliver = 0) (h : Heading)
    (here : Option Location) :
    wp (referTo h here key none run) (fun f b' => b'.Told S known ∧
      f.isEmpty = (key.kind ≠ .source && key.kind ≠ .destination && v) ∧
        Denotes S b' b.graph.size b'.graph.size f (m.refer key)) (fun _ _ => True) b := by
  by_cases hsource : key.kind = .source
  · have := means_source hb hs ht hrun hsource hknown hm h here
    simpa [hsource] using this
  · by_cases hdest : key.kind = .destination
    · have := means_destination hb hs ht hrun hdest h here
      simpa [hdest] using this
    · have := means_referTo_other hrun hsource hdest h here
      simpa [hsource, hdest] using this

end Target

end Compile

end Routing
