import Routing.Proofs.Meaning.Denotes
/-!
# What sequences mean

A further child of a sequence is linked behind what was there, so that its words come after those
words, or, if it is a source, it is joined with the other sources, so that its words are added.
-/

namespace Routing

variable {σ ω : Type} [Stage σ ω] {α : Type} {S : Spelling σ α} {known : TargetKey → Meaning α}

namespace Build

variable {n : Nat} {p : Pool σ ω} {b₀ b₁ b : Build σ ω} {f : Fragment} {m : Meaning α}
  {h t j x : SlotId} {W : Words α}

theorem Part.later (h : Part S known n p b₁ b f m) (h₁ : b₁.Sound) (hs : Steady S n p b₁) :
    Later S n b₁ b where
  core₀ := h₁.core
  core := h.progress.sound.core
  steady₀ := hs.refl
  steady := ⟨h.steady.toPlaced, h.grown, h.steady.silent⟩
  extends_ := h.progress.extends_

/-- The head of what was just compiled leads to nothing older that delivers. -/
theorem Headed.not_reaches_clear (hh : Headed b₁ b h) (hl : Later S n b₁ b) (ht : b₁.Told S known)
    (hlt : x < b₁.graph.size) (hx : b.recipients x ≠ 0) : ¬ b.graph.Reaches h x := by
  intro hr
  obtain ⟨d, hd, hr'⟩ := hl.extends_.reaches_new hl.core₀ hh.new hlt hr
  rw [hl.recipients hlt] at hx
  exact ht.clear hx d hd hr'

section Join

variable {b' : Build σ ω} {head : Option SlotId} {lo hi : SlotId} {D : Multiset (List α × TargetKey)}
  (hp : Progress b₀ b) (hs : Steady S n p b) (hk : b.Told S known) (ht : Tailed b₀ b t)

include hp hs hk ht

theorem join_first (hb' : b' = (b.own Stage.passThrough .join).wire t .next b.graph.size)
    (hr : Reads S b head t W) (hd : Delivers S b lo b.graph.size head D) (hlo : lo ≤ b.graph.size) :
    b'.Told S known ∧ Reads S b' head b.graph.size W ∧ Delivers S b' lo b'.graph.size head D := by
  have hc := hp.sound.core
  obtain ⟨hw, -, -⟩ := link_new_join (Stage.passThrough : σ) hp ht
  have hown : Later S n b (b.own Stage.passThrough .join) := later_own hc hs.refl (.inr rfl)
  have hsilent : (b.own Stage.passThrough .join).spelled S b.graph.size = [] := by
    rw [spelled_own_size, S.passThrough]
  have hr' := hr.later hown ht.lt fun _ hd => ht.apart hd
  have hd' := (hd.later hown (Nat.le_refl _) hk.clear).wire_sink hc.own hw (by simp) sink_own
  have hnew : Delivers S b' b.graph.size b'.graph.size head 0 := .idle fun {x} hx _ => by
    rw [hb', recipients_wire_of_unmarked hw.source_lt (by simp), recipients_own]
    exact recipients_eq_zero fun d hd => absurd hd.source_lt (Nat.not_lt.2 hx)
  have hle : b.graph.size ≤ b'.graph.size := by
    rw [hb', size_wire, size_own]
    exact Nat.le_succ _
  have hboth := Delivers.append (hb' ▸ hd') hnew hlo hle
  rw [add_zero] at hboth
  rw [hb'] at hboth ⊢
  have hunmarked : ∀ {t}, (b.own (Stage.passThrough : σ) .join).Marked .source t →
      ¬ (b.own (Stage.passThrough : σ) .join).graph.Reaches b.graph.size t := by
    intro t hm hr
    obtain rfl := hr.eq_of_sink sink_own
    exact hc.unmarked_size hm
  exact ⟨(hk.own hc hs.refl).wire hc.own hw hunmarked,
    hr'.wire_first hc.own hw hsilent (free_own hc), hboth⟩

/-- A join reads what a further tail reads as well. -/
theorem join_next (hb' : b' = b.wire t .next j) (hj : Joined b₀ b j) (hne : t ≠ j) {W' : Words α}
    (hrj : Reads S b head j W) (hrt : Reads S b head t W') (hd : Delivers S b lo hi head D) :
    b'.Told S known ∧ Reads S b' head j (W + W') ∧ Delivers S b' lo hi head D := by
  have hc := hp.sound.core
  have hw := ht.wiring_joined hj hc hne (ht.unmarked hp.sound)
  have hsilent : b.spelled S j = [] := hs.silent hj.role (by simp) (by simp)
  obtain ⟨y, hy⟩ := (hp.sound.settled j).join hj.role
  have hunmarked : ∀ {t}, b.Marked .source t → ¬ b.graph.Reaches j t := by
    intro t hm hr
    obtain rfl := hr.eq_of_sink (hj.sink hc)
    exact hj.toTailed.unmarked hp.sound hm
  rw [hb']
  exact ⟨hk.wire hc hw hunmarked, hrj.wire_end hc hw hsilent hrt hy.feeds,
    hd.wire_sink hc hw (by simp) (hj.sink hc)⟩

end Join

end Build

namespace Compile

open Build

variable {n : Nat} {p : Pool σ ω} {b₀ b₁ b : Build σ ω} {c : Chain} {f : Fragment} {m : Meaning α}
  {ms : List (Meaning α)} {lo hi : SlotId}

/-- What the children of a sequence mean so far. -/
structure Chain.Means (S : Spelling σ α) (b : Build σ ω) (lo hi : SlotId) (c : Chain)
    (ms : List (Meaning α)) : Prop where
  denotes : Denotes S b lo hi ⟨c.first, c.last⟩ (.sequence ms)
  idle : c.last = none → ∀ m ∈ ms, m = {}
  /-- As long as sources come, all else is empty. -/
  early : c.pastSources = false → ∀ m ∈ ms, m.rooted = false → m = {}

/-- What holds of a sequence while its children are compiled. -/
structure Chain.Part (S : Spelling σ α) (known : TargetKey → Meaning α) (n : Nat) (p : Pool σ ω)
    (b₀ b : Build σ ω) (c : Chain) (ms : List (Meaning α)) : Prop where
  progress : Progress b₀ b
  fits : c.Fits b₀ b
  fresh : c.last = none → b.graph.size = b₀.graph.size
  steady : Steady S n p b
  grown : b₀.pool.Grown b.pool
  told : b.Told S known
  means : c.Means S b b₀.graph.size b.graph.size ms

namespace Chain

theorem Part.later (h₁ : c.Part S known n p b₀ b₁ ms) (hl : Later S n b₁ b) :
    Denotes S b b₀.graph.size b₁.graph.size ⟨c.first, c.last⟩ (.sequence ms) := by
  refine h₁.means.denotes.later hl (Nat.le_refl _) h₁.told fun {x} hx => ?_
  cases hlast : c.last with
  | some t =>
    rw [hlast] at hx
    obtain rfl := Option.some.inj hx
    have ht := h₁.fits.last hlast
    exact ⟨ht.lt, fun _ hd => ht.apart hd⟩
  | none =>
    rw [hlast] at hx
    obtain ⟨t, ht⟩ := h₁.fits.last_of_first hx
    rw [hlast] at ht
    cases ht

theorem means_addStage (h₁ : c.Part S known n p b₀ b₁ ms) {head : SlotId} {tail : Option SlotId}
    (h : Build.Part S known n p b₁ b ⟨some head, tail⟩ m) (node : Descriptor) :
    wp (c.addStage node head tail) (fun c' b' => b'.Told S known ∧ c'.last.isNone = false ∧
      c'.Means S b' b₀.graph.size b'.graph.size (ms ++ [m])) (fun _ _ => True) b := by
  have hl := h.later h₁.progress.sound h₁.steady
  have hc := h.progress.sound.core
  have hh := h.fits.head rfl
  have hplain : m.rooted = false := h.denotes.rooted
  have hx := h.denotes.reads Fragment.last_head
  have hle := h₁.progress.extends_.size_le
  have hle' := hl.extends_.size_le
  unfold addStage
  simp only [wp_bind, wp_graph]
  cases hlast : c.last with
  | none =>
    have hempty := Meaning.sequence_of_empty (h₁.means.idle hlast)
    have hsize := h₁.fresh hlast
    have hterm : tail.getD (b.graph.terminal head) = tail.getD head :=
      Graph.getD_terminal tail fun htail => (h.fits.fork rfl htail).2
    simp only [wp_pure, wp_bind, wp_graph, Option.isNone_none, if_true, hterm]
    refine ⟨h.told, rfl, ⟨?_, fun hn => ?_, fun hn => ?_⟩⟩
    · rw [Meaning.sequence_append_plain hplain, hempty]
      refine .of_tail rfl ?_ ?_
      · rw [Words.nil_cat]
        exact hx
      · rw [Words.nil_before, zero_add, ← hsize]
        exact h.denotes.delivers
    · cases hn
    · cases hn
  | some t =>
    have ht₁ := h₁.fits.last hlast
    have ht := ht₁.extend hl.core₀ hl.extends_
    have hw := ht.wiring_headed hh (hh.not_reaches hl.extends_ hl.core₀ ht₁)
    have hold := h₁.later hl
    rw [hlast] at hold
    have hrt := hold.reads rfl
    have hterm := hh.getD_terminal_wire ht₁.lt fun htail => (h.fits.fork rfl htail).2
    simp only [wp_link _ _ ht.last, wp_pure, wp_bind, wp_graph, Option.isNone_some,
      Bool.false_eq_true, if_false, hterm]
    refine ⟨?_, trivial, ⟨?_, fun hn => ?_, fun hn => ?_⟩⟩
    · exact h.told.wire hc hw fun hm => h.progress.sound.not_reaches_source hm hh.apart
    · rw [Meaning.sequence_append_plain hplain, size_wire]
      refine .of_tail ?_ (hx.wire_head hc hw hrt hh.free) ?_
      · rw [hold.rooted, Fragment.isSourceRooted_tail]
      · have hpast := hold.delivers.wire hc hw (by simp) fun {x} _ hlt hr =>
          hh.not_reaches_clear hl h₁.told hlt hr
        have hchild := h.denotes.delivers.wire_head hc hw (by simp) hrt hh.free
        exact hpast.append hchild hle hle'
    · cases hn
    · cases hn

theorem means_addSource (h₁ : c.Part S known n p b₀ b₁ ms) {t : SlotId}
    (h : Build.Part S known n p b₁ b ⟨none, some t⟩ m) (node : Descriptor) :
    wp (c.addSource node t) (fun c' b' => b'.Told S known ∧ c'.last.isNone = false ∧
      c'.Means S b' b₀.graph.size b'.graph.size (ms ++ [m])) (fun _ _ => True) b := by
  have hl := h.later h₁.progress.sound h₁.steady
  have hp := h₁.progress.trans h.progress
  have hsource : m.rooted = true := h.denotes.rooted
  have hrt := h.denotes.reads rfl
  have hle := h₁.progress.extends_.size_le
  have hle' := hl.extends_.size_le
  have ht₁ := h.fits.tail rfl
  have ht := ht₁.weaken hle
  unfold addSource
  rw [wp_ite]
  split
  · trivial
  · next hpast =>
    have hpast : c.pastSources = false := by simpa using hpast
    obtain ⟨hfirst, hlast, hjoin⟩ := h₁.fits.early hpast
    have hold := h₁.later hl
    have hearly := h₁.means.early hpast
    have hearly' : ∀ m' ∈ ms ++ [m], m'.rooted = false → m' = {} := by
      intro m' hm' hr
      rcases List.mem_append.1 hm' with hm' | hm'
      · exact hearly m' hm' hr
      · rw [List.mem_singleton.1 hm', hsource] at hr
        cases hr
    unfold joinPoint
    cases hj : c.join with
    | none =>
      have hempty := Meaning.sequence_of_empty (h₁.means.idle (hlast.trans hj))
      have hsize := h₁.fresh (hlast.trans hj)
      have hn : (b.own (Stage.passThrough : σ) .join).graph.next? t = none := by
        rw [next?_own]; exact ht.last
      simp only [wp_bind, wp_addJoin, wp_pure, wp_link _ _ hn]
      obtain ⟨htold, hr, hd⟩ := join_first hp h.steady h.told ht rfl hrt h.denotes.delivers hle'
      refine ⟨htold, rfl, ⟨?_, fun hn => ?_, fun _ => hearly'⟩⟩
      · rw [Meaning.sequence_append_source hsource hearly, hempty, hfirst]
        refine .of_tail rfl hr ?_
        rw [zero_add, ← hsize]
        exact hd
      · cases hn
    | some j =>
      have hjoined := (hjoin hj).extend hl.core₀ hl.extends_
      have hne : t ≠ j := Nat.ne_of_gt (Nat.lt_of_lt_of_le (hjoin hj).lt ht₁.new)
      rw [hfirst, hlast, hj] at hold
      have hrj := hold.reads rfl
      have hd := hold.delivers.append h.denotes.delivers hle hle'
      simp only [wp_bind, wp_pure, wp_link _ _ ht.last]
      obtain ⟨htold, hr, hd'⟩ := join_next hp h.steady h.told ht rfl hjoined hne hrj hrt hd
      refine ⟨htold, by rw [hlast, hj]; rfl, ⟨?_, fun hn => ?_, fun _ => hearly'⟩⟩
      · have hrooted : (Meaning.sequence ms).rooted = true := hold.rooted
        rw [Meaning.sequence_append_source hsource hearly, hrooted, if_pos rfl, hfirst, hlast, hj,
          size_wire]
        exact .of_tail rfl hr hd'
      · rw [hlast, hj] at hn
        cases hn

theorem means_add (h₁ : c.Part S known n p b₀ b₁ ms) (h : Build.Part S known n p b₁ b f m)
    (node : Descriptor) :
    wp (c.add node f) (fun c' b' => b'.Told S known ∧ c'.last.isNone = (c.last.isNone && f.isEmpty) ∧
      c'.Means S b' b₀.graph.size b'.graph.size (ms ++ [m])) (fun _ _ => True) b := by
  obtain ⟨_ | head, _ | tail⟩ := f
  · have hl := h.later h₁.progress.sound h₁.steady
    have hempty : m = {} := h.denotes.nothing rfl
    have hsize := h.fits.empty rfl rfl
    refine ⟨h.told, by simp [Fragment.isEmpty], ⟨?_, fun hn => ?_, fun hn => ?_⟩⟩
    · rw [hempty, Meaning.sequence_append_empty, hsize]
      exact h₁.later hl
    · intro m' hm'
      rcases List.mem_append.1 hm' with hm' | hm'
      · exact h₁.means.idle hn m' hm'
      · rw [List.mem_singleton.1 hm', hempty]
    · intro m' hm' hr
      rcases List.mem_append.1 hm' with hm' | hm'
      · exact h₁.means.early hn m' hm' hr
      · rw [List.mem_singleton.1 hm', hempty]
  · refine wp_mono (means_addSource h₁ h node) (fun c' b' hc => ⟨hc.1, ?_, hc.2.2⟩) fun _ _ h => h
    rw [hc.2.1, Fragment.isEmpty_tail, Bool.and_false]
  · refine wp_mono (means_addStage h₁ h node) (fun c' b' hc => ⟨hc.1, ?_, hc.2.2⟩) fun _ _ h => h
    rw [hc.2.1]
    simp [Fragment.isEmpty]
  · refine wp_mono (means_addStage h₁ h node) (fun c' b' hc => ⟨hc.1, ?_, hc.2.2⟩) fun _ _ h => h
    rw [hc.2.1, Fragment.isEmpty_tail, Bool.and_false]

theorem part_add (h₁ : c.Part S known n p b₀ b₁ ms) (h : Build.Part S known n p b₁ b f m)
    (node : Descriptor) :
    wp (c.add node f) (fun c' b' => c'.Part S known n p b₀ b' (ms ++ [m]) ∧
      c'.last.isNone = (c.last.isNone && f.isEmpty)) (fun _ _ => True) b := by
  have hfits := wp_add h₁.progress h₁.fits h₁.fresh h.progress h.fits node
  have hsteady := (stable_steady S n p).joining.linear.chain_add c node f b h.steady
  have hgrown := (stable_steady S n b₀.pool).joining.linear.chain_add c node f b
    ⟨h.steady.toPlaced, h₁.grown.trans h.grown, h.steady.silent⟩
  have hmeans := means_add h₁ h node
  refine wp_mono (wp_and (wp_and hfits hsteady) (wp_and hgrown hmeans)) ?_ fun _ _ _ => trivial
  rintro c' b' ⟨⟨⟨hp, hf, he⟩, hs⟩, hg, ht, hn, hm⟩
  exact ⟨⟨hp, hf, he, hs, hg.grown, ht, hm⟩, hn⟩

theorem part_start (hb : b.Sound) (hs : Steady S n p b) (ht : b.Told S known) :
    Part S known n p b b {} [] where
  progress := .refl hb
  fits := .start b
  fresh _ := rfl
  steady := hs
  grown := hs.refl.grown
  told := ht
  means := by
    refine ⟨?_, fun _ m hm => ?_, fun _ m hm => ?_⟩
    · rw [Meaning.sequence_nil]
      refine ⟨rfl, fun _ => rfl, fun hx => ?_, .idle fun hlo hhi => ?_⟩
      · cases hx
      · exact absurd hhi (Nat.not_lt.2 hlo)
    · cases hm
    · cases hm

/-- A finished sequence means what its children mean one after another. -/
theorem means_finish (h : c.Part S known n p b₀ b ms) (flags : Flags) (fc : Bool) :
    wp (c.finish flags fc) (fun f b' => b'.Told S known ∧ f.isEmpty = c.last.isNone ∧
      f.tail = c.last ∧ Denotes S b' b₀.graph.size b'.graph.size f (.sequence ms))
      (fun _ _ => True) b := by
  unfold finish
  cases hfirst : c.first with
  | none =>
    have hd := h.means.denotes
    rw [hfirst] at hd
    refine ⟨h.told, ?_, rfl, hd⟩
    simp [Fragment.isEmpty]
  | some head =>
    obtain ⟨t, ht⟩ := h.fits.last_of_first hfirst
    have hh := h.fits.first hfirst
    have hc := h.progress.sound.core
    have hc' : (b.enable head (c.headCapabilities flags fc)).Core := hc.enable hh.lt rfl
    have hd := h.means.denotes.enable hc hc'
    rw [hfirst] at hd
    simp only [wp_bind, wp_insertCapabilities, wp_pure]
    refine ⟨h.told.enable hc hc', ?_, trivial, ?_⟩
    · rw [ht]
      rfl
    · rw [size_enable]
      exact hd

end Chain

end Compile

end Routing
