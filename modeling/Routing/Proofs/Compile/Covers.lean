import Routing.Proofs.Compile.Descent
import Routing.Proofs.Compile.Making
/-!
# Slots that nothing enters

Parts that are compiled are joined to others by their heads and tails, and some of these are dropped:
the head of the body of a source, and the tail of the body of a destination. No other slot is lost. A
slot that a task adds is entered by another one, holds a source, or is the head that the task gives or
the head of the body of a source that is compiled on the way.
-/

namespace Routing

variable {σ ω : Type}

namespace Build

/-- Every slot since an earlier state is entered, is a source or has the property. -/
def Covers (b₀ b : Build σ ω) (P : SlotId → Prop) : Prop :=
  ∀ x, b₀.graph.size ≤ x → x < b.graph.size →
    (∃ y, b.graph.Feeds y x) ∨ (b.graph.capabilities x).isSource = true ∨ P x

namespace Covers

variable {b₀ b b' : Build σ ω} {P Q : SlotId → Prop} {u v : SlotId} {k : EdgeKind}

theorem refl (b : Build σ ω) (P : SlotId → Prop) : Covers b b P :=
  fun _ hx hlt => absurd hlt (Nat.not_lt.2 hx)

theorem mono (h : Covers b₀ b P) (hPQ : ∀ x, P x → Q x) : Covers b₀ b Q :=
  fun x hx hlt => (h x hx hlt).imp_right (.imp_right (hPQ x))

/-- A state that only adds slots and edges keeps what is entered and what is a source. -/
theorem trans (h : Covers b₀ b P) (h' : Covers b b' P) (he : b.Extends b') : Covers b₀ b' P := by
  intro x hx hlt
  by_cases hold : x < b.graph.size
  · rcases h x hx hold with ⟨y, k, hy⟩ | hs | hP
    · exact .inl ⟨y, k, he.edge hy⟩
    · refine .inr (.inl ?_)
      rw [he.capabilities_old hold]
      exact hs
    · exact .inr (.inr hP)
  · exact h' x (Nat.not_lt.1 hold) hlt

/-- What the new edge enters need not have the property. -/
theorem wire (h : Covers b₀ b P) (hu : u < b.graph.size) (hn : k = .next → b.graph.next? u = none)
    (hPQ : ∀ x, P x → x ≠ v → Q x) : Covers b₀ (b.wire u k v) Q := by
  intro x hx hlt
  rw [Build.wire, Graph.size_wire] at hlt
  by_cases hxv : x = v
  · exact .inl ⟨u, (Graph.feeds_wire hu hn).2 (.inr ⟨rfl, hxv⟩)⟩
  · rcases h x hx hlt with ⟨y, hy⟩ | hs | hP
    · exact .inl ⟨y, (Graph.feeds_wire hu hn).2 (.inl hy)⟩
    · exact .inr (.inl (by rw [capabilities_wire]; exact hs))
    · exact .inr (.inr (hPQ x hP hxv))

theorem grow (h : Covers b₀ b P) {p : Pool σ ω} {s : Slot} (hn : s.next = none) (hh : s.hops = [])
    (hPQ : ∀ x, P x → Q x) (hs : s.capabilities.isSource = true ∨ Q b.graph.size) :
    Covers b₀ (b.grow p s) Q := by
  intro x hx hlt
  rcases lt_size_grow.1 hlt with hlt | rfl
  · rcases h x hx hlt with ⟨y, k, hy⟩ | hs | hP
    · exact .inl ⟨y, k, (hasEdge_grow hn hh).2 hy⟩
    · exact .inr (.inl (by rw [capabilities_grow hlt]; exact hs))
    · exact .inr (.inr (hPQ x hP))
  · refine .inr (hs.imp_left fun hs => ?_)
    rw [Build.grow, Graph.capabilities_add_size]
    exact hs

theorem own (h : Covers b₀ b P) {stage : σ} {role : Role} :
    Covers b₀ (b.own stage role) fun x => P x ∨ x = b.graph.size :=
  h.grow rfl rfl (fun _ => .inl) (.inr (.inr rfl))

theorem enable (h : Covers b₀ b P) {caps : Capabilities} (hu : u < b.graph.size)
    (hc : caps.isSource = false) : Covers b₀ (b.enable u caps) P := by
  intro x hx hlt
  rw [size_enable] at hlt
  rw [feeds_enable, isSource_enable hu hc]
  exact h x hx hlt

theorem mark (h : Covers b₀ b P) (key : TargetKey) (id : SlotId) : Covers b₀ (b.mark key id) P := h

end Covers

section

variable {b : Build σ ω} {stage : σ} {role : Role} {x : SlotId}

theorem size_lt_own : b.graph.size < (b.own stage role).graph.size := by
  rw [size_own]
  exact Nat.lt_succ_self _

theorem lt_own (hx : x < b.graph.size) : x < (b.own stage role).graph.size :=
  Nat.lt_trans hx size_lt_own

end

end Build

namespace Compile

open Build

variable [Stage σ ω] {objects : Objects} {b₀ b b' : Build σ ω} {c c' : Chain} {j j' : Branching}
  {f : Fragment} {P : SlotId → Prop}

/-! ### Sequences and junctions -/

/-- The head of a child is entered, or it becomes the head of the sequence. -/
theorem Chain.Step.covers (hstep : c.Step b f c' b') (hfits : c.Fits b₀ b)
    (htail : ∀ t, f.tail = some t → Tailed b₀ b t)
    (h : Covers b₀ b fun x => f.head = some x ∨ c.first = some x ∨ P x) :
    Covers b₀ b' fun x => c'.first = some x ∨ P x := by
  cases hstep with
  | empty => exact h.mono fun x hx => hx.resolve_left (by simp)
  | @firstSource t _ _ =>
    have ht := htail t rfl
    refine h.own.wire (lt_own ht.lt) (fun _ => next?_own.trans ht.last) fun x hx hne => ?_
    exact (hx.resolve_right hne).resolve_left (by simp)
  | @source t y _ _ =>
    have ht := htail t rfl
    exact h.wire ht.lt (fun _ => ht.last) fun x hx _ => hx.resolve_left (by simp)
  | @first head tail hlast =>
    refine h.mono fun x hx => ?_
    rcases hx with hx | hx | hx
    · exact .inl (by simpa [advance, hlast] using hx)
    · obtain ⟨t, ht⟩ := hfits.last_of_first hx
      cases hlast.symm.trans ht
    · exact .inr hx
  | @next head l tail hlast =>
    have hl := hfits.last hlast
    refine h.wire hl.lt (fun _ => hl.last) fun x hx hne => ?_
    rcases hx with hx | hx | hx
    · exact absurd (Option.some.inj hx).symm hne
    · exact .inl (by simpa [advance, hlast] using hx)
    · exact .inr hx

/-- The head of a branch is entered by the fork of the junction. -/
theorem Branching.HeadStep.covers {head : Option SlotId} (hstep : j.HeadStep b head j' b')
    (hfits : j.Fits b₀ b) (h : Covers b₀ b fun x => head = some x ∨ j.fork = some x ∨ P x) :
    Covers b₀ b' fun x => j'.fork = some x ∨ P x := by
  cases hstep with
  | headless _ => exact h.mono fun x hx => hx.resolve_left (by simp)
  | @first head hfork =>
    refine h.own.wire size_lt_own (fun h => by cases h) fun x hx hne => ?_
    rcases hx with (hx | hx | hx) | hx
    · exact absurd (Option.some.inj hx).symm hne
    · cases hfork.symm.trans hx
    · exact .inr hx
    · exact .inl (by rw [hx])
  | @hop head y hfork =>
    refine h.wire (hfits.fork hfork).1.lt (fun h => by cases h) fun x hx hne => ?_
    rcases hx with hx | hx | hx
    · exact absurd (Option.some.inj hx).symm hne
    · exact .inl hx
    · exact .inr hx

/-- Adding the head of a branch leaves what follows other stages. -/
theorem Branching.HeadStep.last {head : Option SlotId} (hstep : j.HeadStep b head j' b') {t : SlotId}
    (ht : Tailed b₀ b t) : t < b'.graph.size ∧ b'.graph.next? t = none := by
  cases hstep with
  | headless _ => exact ⟨ht.lt, ht.last⟩
  | first _ =>
    refine ⟨?_, ?_⟩
    · rw [Build.wire, Graph.size_wire]
      exact lt_own ht.lt
    · rw [Build.next?_wire_hop, next?_own]
      exact ht.last
  | hop _ =>
    rw [Build.next?_wire_hop, Build.wire, Graph.size_wire]
    exact ⟨ht.lt, ht.last⟩

/-- The join of a junction is entered by the tails of its branches. -/
theorem Branching.TailStep.covers {tail : Option SlotId} (hstep : j.TailStep b tail j' b')
    (htail : ∀ t, tail = some t → t < b.graph.size ∧ b.graph.next? t = none)
    (h : Covers b₀ b fun x => j.fork = some x ∨ P x) :
    Covers b₀ b' fun x => j'.fork = some x ∨ P x := by
  cases hstep with
  | absent => exact h
  | @first t _ =>
    obtain ⟨hlt, hlast⟩ := htail t rfl
    exact h.own.wire (lt_own hlt) (fun _ => next?_own.trans hlast) fun x hx hne =>
      hx.resolve_right hne
  | @join t y _ =>
    obtain ⟨hlt, hlast⟩ := htail t rfl
    exact h.wire hlt (fun _ => hlast) fun x hx _ => hx

omit [Stage σ ω] in
/-- A finished sequence gives the head that it has in the making. -/
theorem Chain.wp_finish_covers (hfits : c.Fits b₀ b)
    (h : Covers b₀ b fun x => c.first = some x ∨ P x) {flags : Flags} {fc : Bool} :
    wp (c.finish flags fc) (fun f b' => Covers b₀ b' fun x => f.head = some x ∨ P x)
      (fun _ _ => True) b := by
  unfold finish
  cases hfirst : c.first with
  | none =>
    rw [hfirst] at h
    exact h
  | some head =>
    rw [hfirst] at h
    exact h.enable (hfits.first hfirst).lt rfl

omit [Stage σ ω] in
theorem Branching.wp_finish_covers (hfits : j.Fits b₀ b)
    (h : Covers b₀ b fun x => j.fork = some x ∨ P x) {flags : Flags} {fc : Bool} :
    wp (j.finish flags fc) (fun f b' => Covers b₀ b' fun x => f.head = some x ∨ P x)
      (fun _ _ => True) b := by
  unfold finish
  cases hfork : j.fork with
  | none =>
    rw [hfork] at h
    exact h
  | some fork =>
    rw [hfork] at h
    simp only [wp_bind, wp_ite, wp_insertCapabilities, wp_pure]
    split
    · exact h.enable (hfits.fork hfork).1.lt rfl
    · exact h

/-! ### References -/

/-- A reference to what is remembered adds an attach point, which is entered, or a fork, which is its
head. -/
theorem JoinedAgain.covers {key : TargetKey} (h : JoinedAgain key b f b') :
    Covers b b' fun x => f.head = some x := by
  cases h with
  | tap _ _ _ hr =>
    refine (Covers.refl b fun _ => False).own.wire (lt_own (Graph.role?_lt hr))
      (fun h => by cases h) fun x hx hne => ?_
    exact absurd (hx.resolve_left id) hne
  | fork _ _ =>
    refine (Covers.refl b fun _ => False).own.wire size_lt_own (fun h => by cases h) fun x hx _ => ?_
    exact congrArg some (hx.resolve_left id).symm

/-- A reference to a source drops the head of its body; a reference to a destination enters it. -/
theorem JoinedFirst.covers {key : TargetKey} {f' : Fragment} (h : JoinedFirst key b f f' b')
    (hf : Fits b₀ b f) (hc : Covers b₀ b fun x => f.head = some x ∨ P x) :
    Covers b₀ b' fun x => f'.head = some x ∨ (key.kind = .source ∧ f.head = some x) ∨ P x := by
  cases h with
  -- the body enters its fork, and the fork the attach point: the head of the body is all that is left
  | @tap t hk ht =>
    have htail := hf.tail ht
    have hfork : Covers b₀ (b.forkAfter key t) fun x => f.head = some x ∨ P x :=
      (hc.mark key t).own.wire (lt_own htail.lt) (fun _ => next?_own.trans htail.last)
        fun x hx hne => hx.resolve_right hne
    have hlt : b.graph.size < (b.forkAfter key t).graph.size := by
      rw [size_forkAfter]
      exact Nat.lt_succ_self _
    refine hfork.own.wire (lt_own hlt) (fun h => by cases h) fun x hx hne => ?_
    exact .inr ((hx.resolve_right hne).imp_left fun hx => ⟨hk, hx⟩)
  | @fork d _ hd =>
    refine (hc.mark key d).own.wire size_lt_own (fun h => by cases h) fun x hx hne => ?_
    rcases hx with (hx | hx) | hx
    · exact absurd (Option.some.inj (hx.symm.trans hd)) hne
    · exact .inr (.inr hx)
    · exact .inl (congrArg some hx.symm)
  | plain _ => exact hc.mono fun x hx => hx.imp_right .inr

/-! ### All tasks -/

namespace Task

variable {k k' : Task σ ω}

/-- Compiling the task comes to a source with a body that has the slot as its head. -/
def Opens (objects : Objects) (k : Task σ ω) (x : SlotId) : Prop :=
  ∃ k₁ k₂ f b, k.Reaches objects k₁ ∧ k₁.Target objects k₂ ∧ k₂.statement.kind = .source ∧
    k₂.result objects = (.ok f, b) ∧ f.head = some x

theorem Opens.of_calls {x : SlotId} (hcall : k.Calls objects k') (h : k'.Opens objects x) :
    k.Opens objects x := by
  obtain ⟨k₁, k₂, f, b, hreaches, h⟩ := h
  exact ⟨k₁, k₂, f, b, hreaches.head hcall, h⟩

/-- A stage in its place is the head of its task, unless it is a source. -/
theorem covers_single (hshape : k.statement.shape = .single) :
    wp (k.work objects) (fun f b => Covers k.state b fun x => f.head = some x) (fun _ _ => True)
      k.state := by
  rw [work, upTo_single hshape]
  cases k.statement.object with
  | empty | target => trivial
  | stage handle =>
    refine wp_single (fun handle' role p _ => ?_) fun _ _ => trivial
    refine (Covers.refl k.state fun _ => False).grow rfl rfl (fun _ h => h.elim) ?_
    by_cases hs : (p.capabilities handle').isSource = true
    · exact .inl hs
    · exact .inr (by rw [if_neg hs])

/-- The slots that a task adds are entered, are sources, or are the head of the task or of the body
of a source. -/
theorem covers (hobjects : objects.Fresh) : ∀ k : Task σ ω, k.Sound →
    wp (k.work objects)
      (fun f b => Covers k.state b fun x => f.head = some x ∨ k.Opens objects x)
      (fun _ _ => True) k.state := by
  refine induction objects fun k ih hk => ?_
  have hchild : ∀ {k'}, k.Child objects k' → wp (k'.work objects)
      (fun f b => Covers k'.state b fun x => f.head = some x ∨ k.Opens objects x)
      (fun _ _ => True) k'.state := fun hcall =>
    wp_mono (ih _ (.inl hcall) (hcall.sound hobjects hk))
      (fun _ _ h => h.mono fun _ => .imp_right (.of_calls (.inl hcall))) fun _ _ h => h
  cases hshape : k.statement.shape with
  | single => exact wp_mono (covers_single hshape) (fun _ _ h => h.mono fun _ => .inl) fun _ _ h => h
  | reference =>
    refine wp_reference hobjects hk hshape (fun hj => hj.covers.mono fun _ => .inl) ?_
    intro k' key f b f' b' htarget hkind hrun hp hf hj
    have hcovers := wp_ok (ih _ (.inr htarget) (htarget.sound hobjects hk)) hrun
    rw [htarget.state_eq] at hcovers
    refine (hj.covers hf hcovers).mono fun x hx => hx.imp_right fun hx => ?_
    rcases hx with ⟨hs, hx⟩ | hx
    · exact ⟨k, k', f, b, .refl, htarget, hkind.symm.trans hs, hrun, hx⟩
    · exact hx.of_calls (.inr htarget)
  | sequence =>
    by_cases hall : k.statement.flags.catchAll = true
    · rw [work, upTo_nested hshape hall]
      trivial
    · refine wp_sequence hobjects hk hshape (by simpa using hall)
        (fun c b => Covers k.state b fun x => c.first = some x ∨ k.Opens objects x) (.refl _ _)
        (fun hcall hc => ?_) fun hc => ?_
      · refine wp_mono (hchild hcall) (fun f b h hp hf => ?_) fun _ _ h => h
        have hfits := hc.fits.extend hc.progress.sound.core hp.extends_ hp.sound.core
        refine wp_mono (Chain.wp_step _ f) (fun c' b' hstep => ?_) fun _ _ _ => trivial
        refine hstep.covers hfits (fun t ht => (hf.tail ht).weaken hc.progress.extends_.size_le) ?_
        exact (hc.holds.mono fun _ => .inr).trans (h.mono fun _ => .imp_right .inr) hp.extends_
      · exact Chain.wp_finish_covers hc.fits hc.holds
  | junction =>
    refine wp_junction hobjects hk hshape
      (fun j b => Covers k.state b fun x => j.fork = some x ∨ k.Opens objects x) (.refl _ _)
      (fun hcall hj => ?_) fun hj => ?_
    · refine wp_mono (hchild hcall) (fun f b h hp hf => ?_) fun _ _ h => h
      have hfits := hj.fits.extend hj.progress.sound.core hp.extends_ hp.sound.core
      unfold Branching.add
      rw [wp_bind]
      refine wp_mono (Branching.wp_headStep _ f.head) (fun j₁ b₁ h₁ => ?_) fun _ _ _ => trivial
      refine wp_mono (Branching.wp_tailStep _ f.tail) (fun j' b' h' => ?_) fun _ _ _ => trivial
      refine h'.covers (fun t ht => h₁.last (hf.tail ht)) (h₁.covers hfits ?_)
      exact (hj.holds.mono fun _ => .inr).trans (h.mono fun _ => .imp_right .inr) hp.extends_
    · exact Branching.wp_finish_covers hj.fits hj.holds

end Task

end Compile

end Routing
