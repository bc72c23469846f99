import Routing.Proofs.Compile.Junctions
import Routing.Proofs.Meaning.Sequences
/-!
# What junctions mean

A further branch of a junction hangs below the silent fork, so that its words stay as they are, and
its tail is joined with the tails of the other branches, so that its words are added.
-/

namespace Routing

variable {σ ω : Type} [Stage σ ω] {α : Type} {S : Spelling σ α} {known : TargetKey → Meaning α}

namespace Build

variable {n : Nat} {p : Pool σ ω} {b₀ b₁ b b' : Build σ ω} {m : Meaning α} {h f t x : SlotId}
  {W : Words α} {lo mid hi : SlotId} {D D' : Multiset (List α × TargetKey)}

theorem Reads.below_fork (hb : b.Core) (hw : b.Wiring f .hop h) (hf : ∀ y, ¬ b.graph.Feeds y f)
    (hs : b.spelled S f = []) (hh : ∀ y, ¬ b.graph.Feeds y h) (hx : Reads S b (some h) x W) :
    Reads S (b.wire f .hop h) (some f) x W := by
  have hfork : Reads S b (some f) f {[]} := by
    refine ⟨by rw [words_of_free hb hf, hs], fun hr => ?_⟩
    cases hr
    exact .self hf
  have hhead := hx.wire_head hb hw hfork hh
  rwa [Words.nil_cat] at hhead

theorem Delivers.below_fork (hb : b.Core) (hw : b.Wiring f .hop h) (hf : ∀ y, ¬ b.graph.Feeds y f)
    (hs : b.spelled S f = []) (hh : ∀ y, ¬ b.graph.Feeds y h) (hm : ¬ b.Marked .destination h)
    (hd : Delivers S b lo hi (some h) D) : Delivers S (b.wire f .hop h) lo hi (some f) D := by
  have hfork : Reads S b (some f) f {[]} := by
    refine ⟨by rw [words_of_free hb hf, hs], fun hr => ?_⟩
    cases hr
    exact .self hf
  have hhead := hd.wire_head hb hw (fun _ => hm) hfork hh
  rwa [Words.nil_before] at hhead

end Build

namespace Compile

open Build

variable {n : Nat} {p : Pool σ ω} {b₀ b₁ b : Build σ ω} {j : Branching} {f : Fragment} {m : Meaning α}
  {ms : List (Meaning α)} {lo hi : SlotId}

/-- What the branches of a junction mean so far. -/
structure Branching.Means (S : Spelling σ α) (b : Build σ ω) (lo hi : SlotId) (j : Branching)
    (ms : List (Meaning α)) : Prop where
  rooted : (Meaning.junction ms).rooted = j.headless
  headed : ∀ {f}, j.fork = some f → j.headless = false
  reads : ∀ {x}, j.join = some x → Reads S b j.fork x (Meaning.junction ms).paths
  absent : j.join = none → ms = []
  delivers : Delivers S b lo hi j.fork (Meaning.junction ms).deliver

/-- What holds of a junction while its branches are compiled. -/
structure Branching.Part (S : Spelling σ α) (known : TargetKey → Meaning α) (n : Nat) (p : Pool σ ω)
    (b₀ b : Build σ ω) (j : Branching) (ms : List (Meaning α)) : Prop where
  progress : Progress b₀ b
  fits : j.Fits b₀ b
  fresh : j.fork = none → j.join = none → b.graph.size = b₀.graph.size
  steady : Steady S n p b
  grown : b₀.pool.Grown b.pool
  told : b.Told S known
  means : j.Means S b b₀.graph.size b.graph.size ms

namespace Branching

/-- What a junction reads and delivers when the head of a branch was added to it. -/
structure Entered.Means (S : Spelling σ α) (known : TargetKey → Meaning α) (n : Nat) (p : Pool σ ω)
    (b₀ b' : Build σ ω) (j j' : Branching) (t : SlotId) (ms : List (Meaning α)) (m : Meaning α) :
    Prop where
  told : b'.Told S known
  steady : Steady S n p b'
  join : j'.join = j.join
  headless : j'.headless = ((Meaning.junction ms).rooted || m.rooted)
  headed : ∀ {f}, j'.fork = some f → j'.headless = false
  old : ∀ {x}, j.join = some x → Reads S b' j'.fork x (Meaning.junction ms).paths
  new : Reads S b' j'.fork t m.paths
  delivers : Delivers S b' b₀.graph.size b'.graph.size j'.fork
    ((Meaning.junction ms).deliver + m.deliver)

section Head

variable (h₁ : j.Part S known n p b₀ b₁ ms) {head t : SlotId}
  (h : Build.Part S known n p b₁ b ⟨some head, some t⟩ m) (hheadless : j.headless = false)

include h₁ h hheadless

/-- The head of the first branch goes below a new fork. -/
theorem entered_new_fork (hf : j.fork = none) (fc : Bool) {b' : Build σ ω}
    (hb' : b' = (b.own Stage.multiplexer .multiplexer).wire b.graph.size .hop head) :
    Entered.Means S known n p b₀ b' j { j with fork := some b.graph.size, flowControl := fc } t ms
      m := by
  have hl := h.later h₁.progress.sound h₁.steady
  have hc := h.progress.sound.core
  have hh := h.fits.head rfl
  have ht := h.fits.tail rfl
  have hplain : m.rooted = false := h.denotes.rooted
  have hjoin := h₁.fits.headless hheadless hf
  have hms := h₁.means.absent hjoin
  have hsize := h₁.fresh hf hjoin
  obtain ⟨hw, -, -⟩ := hop_new_fork (Stage.multiplexer : σ) (h₁.progress.trans h.progress)
    (hh.weaken h₁.progress.extends_.size_le)
  have hown : Later S n b (b.own Stage.multiplexer .multiplexer) :=
    later_own hc h.steady.refl (.inl rfl)
  have hsilent : (b.own Stage.multiplexer .multiplexer).spelled S b.graph.size = [] := by
    rw [spelled_own_size, S.multiplexer]
  have hfree : ∀ y, ¬ (b.own (Stage.multiplexer : σ) .multiplexer).graph.Feeds y head := by
    rw [feeds_own]
    exact hh.free
  have hsize' : b'.graph.size = b.graph.size + 1 := by rw [hb', size_wire, size_own]
  refine ⟨?_, ?_, rfl, ?_, fun _ => hheadless, fun hn => ?_, ?_, ?_⟩
  · rw [hb']
    refine (h.told.own hc h.steady.refl).wire hc.own hw fun hm hr => ?_
    rw [Graph.Reaches, feeds_own] at hr
    exact h.progress.sound.not_reaches_source hm hh.apart hr
  · rw [hb']
    exact (stable_steady S n p).wire ((stable_steady S n p).own (.inl rfl) h.steady)
  · rw [h₁.means.rooted, hplain, Bool.or_false]
  · rw [hjoin] at hn
    cases hn
  · rw [hb']
    have hx := (h.denotes.reads rfl).later hown ht.lt fun _ hd => ht.apart hd
    exact hx.below_fork hc.own hw (free_own hc) hsilent hfree
  · have hd := h.denotes.delivers.later hown (Nat.le_refl _) h.told.clear
    have hbranch := hd.below_fork hc.own hw (free_own hc) hsilent hfree hh.unmarked
    rw [← hb'] at hbranch
    have hfork : Delivers S b' b.graph.size b'.graph.size (some b.graph.size) 0 :=
      .idle fun {x} hx _ => by
        rw [hb', recipients_wire_of_unmarked hw.source_lt fun _ => hh.unmarked, recipients_own]
        exact recipients_of_le hx
    have hboth := hbranch.append hfork hl.extends_.size_le (by rw [hsize']; exact Nat.le_succ _)
    rw [add_zero] at hboth
    rw [hms, ← hsize]
    simpa [Meaning.junction] using hboth

/-- The head of a further branch goes below the fork. -/
theorem entered_fork {f : SlotId} (hf : j.fork = some f) (fc : Bool) :
    Entered.Means S known n p b₀ (b.wire f .hop head) j { j with flowControl := fc } t ms m := by
  have hl := h.later h₁.progress.sound h₁.steady
  have hc := h.progress.sound.core
  have hh := h.fits.head rfl
  have hplain : m.rooted = false := h.denotes.rooted
  have hle := h₁.progress.extends_.size_le
  obtain ⟨hf₁, hr, -⟩ := (h₁.fits.extend hl.core₀ hl.extends_ hc).fork hf
  have hne : head ≠ f := Nat.ne_of_gt (Nat.lt_of_lt_of_le (h₁.fits.fork hf).1.lt hh.new)
  have hw := hf₁.wiring_headed hr (hh.weaken hle) hne
  have hsilent : b.spelled S f = [] := h.steady.silent hr (by simp) (by simp)
  refine ⟨?_, (stable_steady S n p).wire h.steady, rfl, ?_, fun _ => hheadless, fun {x} hn => ?_,
    ?_, ?_⟩
  · exact h.told.wire hc hw fun hm => h.progress.sound.not_reaches_source hm hh.apart
  · rw [h₁.means.rooted, hplain, Bool.or_false]
  · have hj := h₁.fits.join hn
    have hold := (h₁.means.reads hn).later hl hj.lt fun _ hd => hj.apart hd
    have hkeep := hold.wire hc hw (hh.not_reaches hl.extends_ hl.core₀ hj.toTailed)
    rw [hf] at hkeep ⊢
    exact hkeep
  · rw [hf]
    exact (h.denotes.reads rfl).below_fork hc hw hf₁.free hsilent hh.free
  · have hold := h₁.means.delivers.later hl (Nat.le_refl _) h₁.told.clear
    have hpast := hold.wire hc hw (fun _ => hh.unmarked) fun {x} _ hlt hr =>
      hh.not_reaches_clear hl h₁.told hlt hr
    have hbranch := h.denotes.delivers.below_fork hc hw hf₁.free hsilent hh.free hh.unmarked
    rw [hf] at hpast ⊢
    rw [size_wire]
    exact hpast.append hbranch hle hl.extends_.size_le

end Head

theorem means_addHead_some (h₁ : j.Part S known n p b₀ b₁ ms) {head t : SlotId}
    (h : Build.Part S known n p b₁ b ⟨some head, some t⟩ m) (node : Descriptor) :
    wp (j.addHead node (some head)) (fun j' b' => Entered.Means S known n p b₀ b' j j' t ms m)
      (fun _ _ => True) b := by
  unfold addHead
  rw [wp_ite]
  split
  · trivial
  · next hheadless =>
    have hheadless : j.headless = false := by simpa using hheadless
    unfold forkPoint
    cases hf : j.fork with
    | none =>
      simp only [wp_bind, wp_addMultiplexer, wp_pure, wp_addHop, wp_graph]
      exact entered_new_fork h₁ h hheadless hf _ rfl
    | some f =>
      simp only [wp_bind, wp_pure, wp_addHop, wp_graph]
      exact entered_fork h₁ h hheadless hf _

theorem means_addTail {j' : Branching} {b' : Build σ ω} {t : SlotId} (hp : Progress b₀ b')
    (ht : Tailed b₀ b' t) (hj : ∀ {x}, j.join = some x → Joined b₀ b' x ∧ t ≠ x)
    (habsent : j.join = none → ms = []) (h : Entered.Means S known n p b₀ b' j j' t ms m)
    (node : Descriptor) :
    wp (j'.addTail node (some t)) (fun j'' b'' => b''.Told S known ∧
      (∃ x, j''.join = some x) ∧ j''.Means S b'' b₀.graph.size b''.graph.size (ms ++ [m]))
      (fun _ _ => True) b' := by
  have hle := hp.extends_.size_le
  unfold addTail joinPoint
  cases hx : j'.join with
  | none =>
    have hms := habsent (h.join.symm.trans hx)
    have hn : (b'.own (Stage.passThrough : σ) .join).graph.next? t = none := by
      rw [next?_own]; exact ht.last
    simp only [wp_bind, wp_addJoin, wp_pure, wp_link _ _ hn]
    obtain ⟨htold, hr, hd⟩ := join_first hp h.steady h.told ht rfl h.new h.delivers hle
    refine ⟨htold, ⟨_, rfl⟩, ⟨?_, h.headed, fun hx => ?_, fun hx => ?_, ?_⟩⟩
    · rw [Meaning.junction_append]
      exact h.headless.symm
    · cases hx
      rw [Meaning.junction_append, hms]
      simpa [Meaning.junction] using hr
    · cases hx
    · rw [Meaning.junction_append]
      exact hd
  | some x =>
    have hx' := h.join.symm.trans hx
    obtain ⟨hjoined, hne⟩ := hj hx'
    simp only [wp_bind, wp_pure, wp_link _ _ ht.last]
    obtain ⟨htold, hr, hd⟩ := join_next hp h.steady h.told ht rfl hjoined hne (h.old hx') h.new
      h.delivers
    refine ⟨htold, ⟨_, hx⟩, ⟨?_, h.headed, fun hx₂ => ?_, fun hx₂ => ?_, ?_⟩⟩
    · rw [Meaning.junction_append]
      exact h.headless.symm
    · rw [hx] at hx₂
      cases hx₂
      rw [Meaning.junction_append]
      exact hr
    · rw [hx] at hx₂
      cases hx₂
    · rw [Meaning.junction_append, size_wire]
      exact hd

theorem means_add (h₁ : j.Part S known n p b₀ b₁ ms) {head : Option SlotId} {t : SlotId}
    (h : Build.Part S known n p b₁ b ⟨head, some t⟩ m) (node : Descriptor) :
    wp (j.add node ⟨head, some t⟩) (fun j' b' => b'.Told S known ∧ (∃ x, j'.join = some x) ∧
      j'.Means S b' b₀.graph.size b'.graph.size (ms ++ [m])) (fun _ _ => True) b := by
  have hl := h.later h₁.progress.sound h₁.steady
  have hle := h₁.progress.extends_.size_le
  have ht := h.fits.tail rfl
  have hold : ∀ {x}, j.join = some x → t ≠ x := fun hx =>
    Nat.ne_of_gt (Nat.lt_of_lt_of_le (h₁.fits.join hx).lt ht.new)
  unfold add
  rw [wp_bind]
  cases head with
  | none =>
    unfold addHead
    simp only [wp_ite, wp_throw, wp_pure]
    split
    · trivial
    · next hfork =>
      have hfork : j.fork = none := by simpa using hfork
      have hsource : m.rooted = true := h.denotes.rooted
      have hpast := h₁.means.delivers.later hl (Nat.le_refl _) h₁.told.clear
      have he : Entered.Means S known n p b₀ b j { j with headless := true } t ms m := by
        refine ⟨h.told, h.steady, rfl, ?_, fun hf => ?_, fun {x} hx => ?_, ?_, ?_⟩
        · rw [hsource, Bool.or_true]
        · rw [hfork] at hf
          cases hf
        · have hj := h₁.fits.join hx
          exact (h₁.means.reads hx).later hl hj.lt fun _ hd => hj.apart hd
        · rw [hfork]
          exact h.denotes.reads rfl
        · rw [hfork] at hpast ⊢
          exact hpast.append h.denotes.delivers hle hl.extends_.size_le
      exact means_addTail (h₁.progress.trans h.progress) (ht.weaken hle)
        (fun hx => ⟨(h₁.fits.join hx).extend hl.core₀ hl.extends_, hold hx⟩) h₁.means.absent he node
  | some head =>
    have hentered := wp_addHead_some h₁.progress h₁.fits h.progress (h.fits.head rfl) node
    refine wp_mono (wp_and hentered (means_addHead_some h₁ h node)) ?_ fun _ _ _ => trivial
    rintro j' b' ⟨he, hm⟩
    refine means_addTail he.progress ((he.tailed ht).weaken hle) (fun {x} hx => ⟨?_, hold hx⟩)
      h₁.means.absent hm node
    exact he.fits.join (he.join.trans hx)

theorem part_add (h₁ : j.Part S known n p b₀ b₁ ms) {head : Option SlotId} {t : SlotId}
    (h : Build.Part S known n p b₁ b ⟨head, some t⟩ m) (node : Descriptor) :
    wp (j.add node ⟨head, some t⟩) (fun j' b' => j'.Part S known n p b₀ b' (ms ++ [m]) ∧
      ∃ x, j'.join = some x) (fun _ _ => True) b := by
  have hfits := wp_add h₁.progress h₁.fits h₁.fresh h.progress h.fits node
  have hsteady := (stable_steady S n p).joining.branching_add j node ⟨head, some t⟩ b h.steady
  have hgrown := (stable_steady S n b₀.pool).joining.branching_add j node ⟨head, some t⟩ b
    ⟨h.steady.toPlaced, h₁.grown.trans h.grown, h.steady.silent⟩
  have hmeans := means_add h₁ h node
  refine wp_mono (wp_and (wp_and hfits hsteady) (wp_and hgrown hmeans)) ?_ fun _ _ _ => trivial
  rintro j' b' ⟨⟨⟨hp, hf, he⟩, hs⟩, hg, ht, hx, hm⟩
  exact ⟨⟨hp, hf, he, hs, hg.grown, ht, hm⟩, hx⟩

theorem part_start (hb : b.Sound) (hs : Steady S n p b) (ht : b.Told S known) :
    Part S known n p b b {} [] where
  progress := .refl hb
  fits := .start b
  fresh _ _ := rfl
  steady := hs
  grown := hs.refl.grown
  told := ht
  means := by
    refine ⟨rfl, fun hf => ?_, fun hx => ?_, fun _ => rfl, .idle fun hlo hhi => ?_⟩
    · cases hf
    · cases hx
    · exact absurd hhi (Nat.not_lt.2 hlo)

/-- A finished junction means what its branches mean side by side. -/
theorem means_finish (h : j.Part S known n p b₀ b ms) {x : SlotId} (hx : j.join = some x)
    (flags : Flags) (fc : Bool) :
    wp (j.finish flags fc) (fun f b' => b'.Told S known ∧ f.isEmpty = false ∧
      Denotes S b' b₀.graph.size b'.graph.size f (.junction ms)) (fun _ _ => True) b := by
  have hc := h.progress.sound.core
  have hrooted : (Meaning.junction ms).rooted = j.fork.isNone := by
    rw [h.means.rooted]
    cases hf : j.fork with
    | none =>
      by_contra hheadless
      have hheadless : j.headless = false := by simpa using hheadless
      have := h.fits.headless hheadless hf
      rw [hx] at this
      cases this
    | some f => exact h.means.headed hf
  have hd : Denotes S b b₀.graph.size b.graph.size ⟨j.fork, some x⟩ (.junction ms) :=
    .of_tail hrooted (h.means.reads hx) h.means.delivers
  unfold finish
  cases hf : j.fork with
  | none =>
    rw [hf] at hd
    simp only [hx]
    exact ⟨h.told, rfl, hd⟩
  | some f =>
    rw [hf] at hd
    simp only [wp_bind, wp_ite, wp_insertCapabilities, wp_pure, hx]
    have hlt := (h.fits.fork hf).1.lt
    have hc' : (b.enable f { hardFlowControl := true }).Core := hc.enable hlt rfl
    split
    · refine ⟨h.told.enable hc hc', rfl, ?_⟩
      rw [size_enable]
      exact hd.enable hc hc'
    · exact ⟨h.told, rfl, hd⟩

end Branching

end Compile

end Routing
