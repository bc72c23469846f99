import Mathlib.Algebra.BigOperators.Intervals
import Routing.Proofs.Compile.Ends
import Routing.Proofs.Meaning.Spelling
/-!
# What graphs deliver

A stage delivers to a destination if it hops to the remembered head of the destination. What is above
all destinations keeps its words and what it delivers while more is compiled, as nothing new enters
it.
-/

namespace Routing

variable {σ ω : Type}

namespace Build

open Words

/-- No destination leads to the slot. -/
def Upstream (b : Build σ ω) (x : SlotId) : Prop :=
  ∀ d, b.Marked .destination d → ¬ b.graph.Reaches d x

/-- The destinations that start at a slot. -/
def targetsAt (b : Build σ ω) (d : SlotId) : Multiset TargetKey :=
  ((b.memos.filter fun m => m.1.kind = .destination ∧ m.2 = d).map Prod.fst : List TargetKey)

/-- The destinations that a slot hops to. -/
def recipients (b : Build σ ω) (x : SlotId) : Multiset TargetKey :=
  (b.graph.hops x : Multiset SlotId).bind b.targetsAt

section

variable {b b₀ : Build σ ω} {x y d u v : SlotId} {k : EdgeKind}

theorem Upstream.unmarked (hx : b.Upstream x) : ¬ b.Marked .destination x :=
  fun hm => hx x hm .refl

theorem Upstream.above (hx : b.Upstream x) (hy : b.graph.Feeds y x) : b.Upstream y :=
  fun d hd hr => hx d hd (hr.tail hy)

theorem Upstream.wire (hx : b.Upstream x) (hw : b.Wiring u k v) : (b.wire u k v).Upstream x := by
  intro d hd hr
  rcases Graph.reaches_wire hw.source_lt hw.next hr with hr | ⟨hr, -⟩
  · exact hx d hd hr
  · exact hw.above hd hr

theorem targetsAt_eq_zero (hd : ¬ b.Marked .destination d) : b.targetsAt d = 0 := by
  refine Multiset.eq_zero_of_forall_notMem fun key hkey => hd ?_
  simp only [targetsAt, Multiset.mem_coe, List.mem_map, List.mem_filter, decide_eq_true_eq] at hkey
  obtain ⟨⟨key, id⟩, ⟨hm, hk, rfl⟩, rfl⟩ := hkey
  exact ⟨key, hk, hm⟩

theorem targetsAt_of_mem (hb : (b.memos.map Prod.snd).Nodup) {key : TargetKey}
    (hk : key.kind = .destination) (hm : (key, d) ∈ b.memos) : b.targetsAt d = {key} := by
  have hfilter : b.memos.filter (fun m => m.1.kind = .destination ∧ m.2 = d) = [(key, d)] := by
    have hnd := List.Nodup.of_map _ hb
    refine List.perm_singleton.1 ((List.perm_ext_iff_of_nodup (hnd.filter _) (by simp)).2 ?_)
    rintro ⟨key', d'⟩
    simp only [List.mem_filter, decide_eq_true_eq, List.mem_singleton, Prod.mk.injEq]
    constructor
    · rintro ⟨hm', -, rfl⟩
      have heq := List.inj_on_of_nodup_map hb hm' hm rfl
      cases heq
      exact ⟨rfl, rfl⟩
    · rintro ⟨rfl, rfl⟩
      exact ⟨hm, hk, rfl⟩
  rw [targetsAt, hfilter]
  rfl

theorem recipients_eq_zero (h : ∀ d, b.graph.HasEdge x .hop d → ¬ b.Marked .destination d) :
    b.recipients x = 0 := by
  refine Multiset.eq_zero_of_forall_notMem fun key hkey => ?_
  obtain ⟨d, hd, hkey⟩ := Multiset.mem_bind.1 hkey
  rw [targetsAt_eq_zero (h d hd)] at hkey
  exact Multiset.notMem_zero _ hkey

theorem recipients_ne_zero (he : b.graph.HasEdge x .hop d) (hd : b.Marked .destination d) :
    b.recipients x ≠ 0 := by
  obtain ⟨key, hk, hm⟩ := hd
  have hkey : key ∈ b.targetsAt d := by
    simp only [targetsAt, Multiset.mem_coe, List.mem_map, List.mem_filter, decide_eq_true_eq]
    exact ⟨(key, d), ⟨hm, hk, rfl⟩, rfl⟩
  have hmem : key ∈ b.recipients x := Multiset.mem_bind.2 ⟨d, he, hkey⟩
  intro h0
  rw [h0] at hmem
  exact Multiset.notMem_zero _ hmem

theorem recipients_of_le (hx : b.graph.size ≤ x) : b.recipients x = 0 :=
  recipients_eq_zero fun _ hd => absurd hd.source_lt (Nat.not_lt.2 hx)

theorem recipients_wire_of_unmarked (hu : u < b.graph.size)
    (hv : k = .hop → ¬ b.Marked .destination v) (x : SlotId) :
    (b.wire u k v).recipients x = b.recipients x := by
  unfold recipients
  cases k with
  | next => rw [Build.wire, Graph.hops_wire_next]; rfl
  | hop =>
    rw [Build.wire, Graph.hops_wire_hop hu]
    split
    · rw [← Multiset.coe_add, Multiset.add_bind, Multiset.coe_singleton, Multiset.singleton_bind]
      have hzero : b.targetsAt v = 0 := targetsAt_eq_zero (hv rfl)
      exact (congrArg _ hzero).trans (add_zero _)
    · rfl

theorem recipients_own {stage : σ} {role : Role} (x : SlotId) :
    (b.own stage role).recipients x = b.recipients x := by
  unfold recipients
  rw [own, grow, Graph.hops_add rfl]
  rfl

theorem recipients_enable {caps : Capabilities} (x : SlotId) :
    (b.enable u caps).recipients x = b.recipients x := by
  unfold recipients
  rw [enable, Graph.hops_insertCapabilities]
  rfl

/-- What is remembered does not change what is delivered if nothing hops to it. -/
theorem recipients_mark {key : TargetKey} {h : SlotId}
    (hh : key.kind = .destination → h ∉ b.graph.hops x) :
    (b.mark key h).recipients x = b.recipients x := by
  refine Multiset.bind_congr fun d hd => ?_
  have hne : ¬ (key.kind = .destination ∧ h = d) := by
    rintro ⟨hk, rfl⟩
    exact hh hk hd
  unfold targetsAt mark
  rw [List.filter_cons_of_neg (by simpa using hne)]

theorem hasEdge_of_recipients (hx : b.recipients x ≠ 0) :
    ∃ d, b.graph.HasEdge x .hop d ∧ b.Marked .destination d := by
  by_contra h
  refine hx (recipients_eq_zero fun d hd hm => h ⟨d, hd, hm⟩)

end

variable [Stage σ ω] {α : Type} (S : Spelling σ α)

/-- The words that slots of a range deliver. -/
def delivered (b : Build σ ω) (lo hi : SlotId) : Multiset (List α × TargetKey) :=
  ∑ x ∈ Finset.Ico lo hi, b.words S x ×ˢ b.recipients x

variable {S} {n : Nat} {b b' b₀ : Build σ ω} {x y d u v r : SlotId} {k : EdgeKind} {lo mid hi : SlotId}

/-! ### Words of a changed state -/

/-- Words depend only on what is before. -/
theorem words_congr (hb : b.Core) (hb' : b'.Core) {P : SlotId → Prop}
    (hP : ∀ {x y}, P x → b.graph.Feeds y x → P y)
    (hedge : ∀ {x y k}, P x → (b'.graph.HasEdge y k x ↔ b.graph.HasEdge y k x))
    (hs : ∀ {x}, P x → b'.spelled S x = b.spelled S x) (hx : P x) : b'.words S x = b.words S x :=
  Graph.words_congr hb.acyclic hb'.acyclic hP
    (fun hx => Graph.feeders_congr hb.hops_nodup hb'.hops_nodup fun _ _ => hedge hx) hs x hx

theorem words_of_free (hb : b.Core) (hx : ∀ y, ¬ b.graph.Feeds y x) :
    b.words S x = {b.spelled S x} :=
  Graph.words_of_free hb.acyclic hx

theorem words_grow {p : Pool σ ω} {s : Slot} (hb : b.Core) (hs : Steady S n b.pool b)
    (hn : s.next = none) (hh : s.hops = []) (hp : b.pool.Grown p) (hx : x < b.graph.size) :
    (b.grow p s).words S x = b.words S x :=
  words_congr hb (hb.grow hn hh) (P := fun x => x < b.graph.size) (fun _ hy => hy.source_lt)
    (fun _ => Graph.hasEdge_add hn hh) (fun hx => hs.spelled_grow hp (Nat.ne_of_lt hx)) hx

theorem words_own {stage : σ} {role : Role} (hb : b.Core) (hs : Steady S n b.pool b)
    (hx : x < b.graph.size) : (b.own stage role).words S x = b.words S x :=
  words_grow hb hs rfl rfl .add hx

theorem words_own_size {stage : σ} {role : Role} (hb : b.Core) (hs : S.spell stage = []) :
    (b.own stage role).words S b.graph.size = {[]} := by
  rw [words_of_free hb.own (free_own hb), spelled_own_size, hs]

theorem words_enable {caps : Capabilities} (hb : b.Core) (hb' : (b.enable u caps).Core)
    (x : SlotId) : (b.enable u caps).words S x = b.words S x :=
  words_congr hb hb' (P := fun _ => True) (fun _ _ => trivial) (fun _ => hasEdge_enable)
    (fun _ => spelled_enable _) trivial

theorem words_wire : (b.wire u k v).words S x = (b.graph.wire u k v).words (b.spelled S) x := by
  have hs : (b.wire u k v).spelled S = b.spelled S := funext spelled_wire
  rw [words, hs]
  rfl

omit [Stage σ ω] in
theorem Wiring.wires (hw : b.Wiring u k v) (hb : b.Core) : b.graph.Wires u k v where
  acyclic := hb.acyclic
  nodup := hb.hops_nodup
  source_lt := hw.source_lt
  next := hw.next
  hop hk := (hw.hop hk).2
  back := hw.back

theorem words_wire_of_not_reaches (hb : b.Core) (hw : b.Wiring u k v)
    (hx : ¬ b.graph.Reaches v x) : (b.wire u k v).words S x = b.words S x := by
  rw [words_wire, (hw.wires hb).words_of_not_reaches hx]
  rfl

/-! ### What slots deliver -/

theorem delivered_add (h₁ : lo ≤ mid) (h₂ : mid ≤ hi) :
    b.delivered S lo hi = b.delivered S lo mid + b.delivered S mid hi :=
  (Finset.sum_Ico_consecutive _ h₁ h₂).symm

theorem delivered_self : b.delivered S lo lo = 0 := by
  simp [delivered]

theorem delivered_congr (hr : ∀ {x}, lo ≤ x → x < hi → b'.recipients x = b.recipients x)
    (hw : ∀ {x}, lo ≤ x → x < hi → b.recipients x ≠ 0 → b'.words S x = b.words S x) :
    b'.delivered S lo hi = b.delivered S lo hi := by
  refine Finset.sum_congr rfl fun x hx => ?_
  obtain ⟨hlo, hhi⟩ := Finset.mem_Ico.1 hx
  by_cases h0 : b.recipients x = 0
  · rw [hr hlo hhi, h0, Multiset.product_zero, Multiset.product_zero]
  · rw [hr hlo hhi, hw hlo hhi h0]

theorem delivered_before {A : Words α}
    (hr : ∀ {x}, lo ≤ x → x < hi → b'.recipients x = b.recipients x)
    (hw : ∀ {x}, lo ≤ x → x < hi → b.recipients x ≠ 0 → b'.words S x = cat A (b.words S x)) :
    b'.delivered S lo hi = before A (b.delivered S lo hi) := by
  unfold delivered
  rw [before_sum]
  refine Finset.sum_congr rfl fun x hx => ?_
  obtain ⟨hlo, hhi⟩ := Finset.mem_Ico.1 hx
  by_cases h0 : b.recipients x = 0
  · rw [hr hlo hhi, h0, Multiset.product_zero, Multiset.product_zero, before_zero]
  · rw [hr hlo hhi, hw hlo hhi h0, before_product]

theorem delivered_eq_zero (h : ∀ {x}, lo ≤ x → x < hi → b.recipients x = 0) :
    b.delivered S lo hi = 0 := by
  refine Finset.sum_eq_zero fun x hx => ?_
  obtain ⟨hlo, hhi⟩ := Finset.mem_Ico.1 hx
  rw [h hlo hhi, Multiset.product_zero]

theorem delivered_succ : b.delivered S x (x + 1) = b.words S x ×ˢ b.recipients x := by
  simp [delivered]

/-! ### Compiling more -/

/-- A state that is compiled on from an earlier one. -/
structure Later (S : Spelling σ α) (n : Nat) (b₀ b : Build σ ω) : Prop where
  core₀ : b₀.Core
  core : b.Core
  steady₀ : Steady S n b₀.pool b₀
  steady : Steady S n b₀.pool b
  extends_ : b₀.Extends b

namespace Later

variable (h : Later S n b₀ b)

include h

theorem edge (hlt : x < b₀.graph.size) (hx : b₀.Upstream x) :
    b.graph.HasEdge y k x ↔ b₀.graph.HasEdge y k x :=
  h.extends_.edge_into_old hlt hx.unmarked

theorem spelled (hlt : x < b₀.graph.size) : b.spelled S x = b₀.spelled S x := by
  refine h.steady₀.spelled_old h.steady.grown ?_
  obtain ⟨s, hs⟩ := Graph.exists_slot hlt
  obtain ⟨more, hm, -⟩ := h.extends_.slot hs
  rw [hs, hm]
  rfl

theorem words (hlt : x < b₀.graph.size) (hx : b₀.Upstream x) : b.words S x = b₀.words S x :=
  words_congr h.core₀ h.core (P := fun x => x < b₀.graph.size ∧ b₀.Upstream x)
    (fun ⟨_, hx⟩ hy => ⟨hy.source_lt, hx.above hy⟩) (fun ⟨hlt, hx⟩ => h.edge hlt hx)
    (fun hx => h.spelled hx.1) ⟨hlt, hx⟩

theorem reaches (hlt : x < b₀.graph.size) (hx : b₀.Upstream x) (hr : b.graph.Reaches y x) :
    b₀.graph.Reaches y x := by
  induction hr using Relation.ReflTransGen.head_induction_on with
  | refl => exact .refl
  | @head y z hyz _ ih =>
    obtain ⟨k, hyz⟩ := hyz
    have hz : z < b₀.graph.size := by
      rcases Relation.ReflTransGen.cases_head ih with rfl | ⟨w, hw, -⟩
      · exact hlt
      · exact hw.source_lt
    have hup : b₀.Upstream z := fun d hd hr => hx d hd (hr.trans ih)
    exact .head ((h.edge hz hup).1 hyz).feeds ih

theorem onlyFrom (hlt : x < b₀.graph.size) (hx : b₀.Upstream x) (hr : b₀.graph.OnlyFrom r x) :
    b.graph.OnlyFrom r x := fun y hy =>
  h.extends_.reaches (hr y (h.reaches hlt hx hy))

theorem targetsAt (hlt : d < b₀.graph.size) : b.targetsAt d = b₀.targetsAt d := by
  obtain ⟨new, hm, hnew⟩ := h.extends_.memos
  have hnil : new.filter (fun m => m.1.kind = .destination ∧ m.2 = d) = [] := by
    refine List.filter_eq_nil_iff.2 fun m hmem => ?_
    have hne : m.2 ≠ d := Nat.ne_of_gt (Nat.lt_of_lt_of_le hlt (hnew m hmem))
    simp [hne]
  rw [Build.targetsAt, hm, List.filter_append, hnil]
  rfl

theorem recipients (hlt : x < b₀.graph.size) : b.recipients x = b₀.recipients x := by
  obtain ⟨s, hs⟩ := Graph.exists_slot hlt
  obtain ⟨more, hm, hnew⟩ := h.extends_.slot hs
  have hhops : b.graph.hops x = b₀.graph.hops x ++ more := by simp [Graph.hops, hs, hm]
  have hmore : (more : Multiset SlotId).bind b.targetsAt = 0 := by
    refine Multiset.eq_zero_of_forall_notMem fun key hkey => ?_
    obtain ⟨d, hd, hkey⟩ := Multiset.mem_bind.1 hkey
    have hrole := (hnew d hd).2.1
    rw [targetsAt_eq_zero fun hmark => (h.core.marked_role hmark).2 hrole] at hkey
    exact Multiset.notMem_zero _ hkey
  rw [Build.recipients, hhops, ← Multiset.coe_add, Multiset.add_bind, hmore, add_zero]
  refine Multiset.bind_congr fun d hd => h.targetsAt ?_
  exact h.core₀.target_lt (x := x) (k := .hop) hd

theorem delivered (hhi : hi ≤ b₀.graph.size)
    (hclear : ∀ {x}, lo ≤ x → x < hi → b₀.recipients x ≠ 0 → b₀.Upstream x) :
    b.delivered S lo hi = b₀.delivered S lo hi :=
  delivered_congr (fun _ hx => h.recipients (Nat.lt_of_lt_of_le hx hhi)) fun hlo hx hr =>
    h.words (Nat.lt_of_lt_of_le hx hhi) (hclear hlo hx hr)

end Later

/-! ### Ends and deliveries of parts -/

/-- The slot has these words; if a head is given, they all come from it. -/
structure Reads (S : Spelling σ α) (b : Build σ ω) (head : Option SlotId) (x : SlotId)
    (W : Words α) : Prop where
  words : b.words S x = W
  comes : ∀ {h}, head = some h → b.graph.OnlyFrom h x

/-- Slots of a range deliver these words; if a head is given, they all come from it. -/
structure Delivers (S : Spelling σ α) (b : Build σ ω) (lo hi : SlotId) (head : Option SlotId)
    (D : Multiset (List α × TargetKey)) : Prop where
  words : b.delivered S lo hi = D
  comes : ∀ {h x}, head = some h → lo ≤ x → x < hi → b.recipients x ≠ 0 → b.graph.OnlyFrom h x

variable {head : Option SlotId} {W : Words α} {D D' : Multiset (List α × TargetKey)}

theorem later_own (hb : b.Core) (hs : Steady S n b.pool b) {stage : σ} {role : Role}
    (hstage : stage = Stage.multiplexer ∨ stage = Stage.passThrough) :
    Later S n b (b.own stage role) where
  core₀ := hb
  core := hb.own
  steady₀ := hs
  steady := (stable_steady S n b.pool).own hstage hs
  extends_ := extends_own

theorem Reads.later (hx : Reads S b₀ head x W) (h : Later S n b₀ b) (hlt : x < b₀.graph.size)
    (hup : b₀.Upstream x) : Reads S b head x W where
  words := (h.words hlt hup).trans hx.words
  comes hh := h.onlyFrom hlt hup (hx.comes hh)

theorem Delivers.later (hd : Delivers S b₀ lo hi head D) (h : Later S n b₀ b)
    (hhi : hi ≤ b₀.graph.size) (hclear : ∀ {x}, b₀.recipients x ≠ 0 → b₀.Upstream x) :
    Delivers S b lo hi head D where
  words := (h.delivered hhi fun _ _ => hclear).trans hd.words
  comes {_ x} hh hlo hx hr := by
    have hlt : x < b₀.graph.size := Nat.lt_of_lt_of_le hx hhi
    rw [h.recipients hlt] at hr
    exact h.onlyFrom hlt (hclear hr) (hd.comes hh hlo hx hr)

theorem Reads.enable (hx : Reads S b head x W) (hc : b.Core) {caps : Capabilities}
    (hc' : (b.enable u caps).Core) : Reads S (b.enable u caps) head x W where
  words := (words_enable hc hc' x).trans hx.words
  comes hh := by
    unfold Graph.OnlyFrom Graph.Reaches
    rw [feeds_enable]
    exact hx.comes hh

theorem Delivers.enable (hd : Delivers S b lo hi head D) (hc : b.Core) {caps : Capabilities}
    (hc' : (b.enable u caps).Core) : Delivers S (b.enable u caps) lo hi head D where
  words := by
    rw [← hd.words]
    exact delivered_congr (fun _ _ => recipients_enable _) fun _ _ _ => words_enable hc hc' _
  comes hh hlo hhi hr := by
    rw [recipients_enable] at hr
    unfold Graph.OnlyFrom Graph.Reaches
    rw [feeds_enable]
    exact hd.comes hh hlo hhi hr

theorem Delivers.append (hd : Delivers S b lo mid head D) (hd' : Delivers S b mid hi head D')
    (h₁ : lo ≤ mid) (h₂ : mid ≤ hi) : Delivers S b lo hi head (D + D') where
  words := by rw [delivered_add h₁ h₂, hd.words, hd'.words]
  comes {_ x} hh hlo hhi hr := by
    by_cases hx : x < mid
    · exact hd.comes hh hlo hx hr
    · exact hd'.comes hh (Nat.not_lt.1 hx) hhi hr

theorem Delivers.idle (h : ∀ {x}, lo ≤ x → x < hi → b.recipients x = 0) :
    Delivers S b lo hi head 0 where
  words := delivered_eq_zero h
  comes _ hlo hhi hr := absurd (h hlo hhi) hr

section Wire

variable (hb : b.Core) (hw : b.Wiring u k v)

include hb hw

theorem Reads.wire (hx : Reads S b head x W) (hv : ¬ b.graph.Reaches v x) :
    Reads S (b.wire u k v) head x W where
  words := (words_wire_of_not_reaches hb hw hv).trans hx.words
  comes hh := (hx.comes hh).wire_of_not_reaches (hw.wires hb) hv

/-- What comes only from the end of a new edge reads behind the words to its start. -/
theorem Reads.wire_head {W' : Words α} (hx : Reads S b (some v) x W) (hu : Reads S b head u W')
    (hfree : ∀ y, ¬ b.graph.Feeds y v) : Reads S (b.wire u k v) head x (cat W' W) where
  words := by
    rw [words_wire, (hw.wires hb).words_head hfree x (hx.comes rfl), ← hu.words, ← hx.words]
    rfl
  comes hh := (hx.comes rfl).wire_head (hw.wires hb) (hu.comes hh)

variable (hv : k = .hop → ¬ b.Marked .destination v)

include hv

theorem Delivers.wire (hd : Delivers S b lo hi head D)
    (hx : ∀ {x}, lo ≤ x → x < hi → b.recipients x ≠ 0 → ¬ b.graph.Reaches v x) :
    Delivers S (b.wire u k v) lo hi head D where
  words := by
    rw [← hd.words]
    exact delivered_congr (fun _ _ => recipients_wire_of_unmarked hw.source_lt hv _)
      fun hlo hhi hr => words_wire_of_not_reaches hb hw (hx hlo hhi hr)
  comes hh hlo hhi hr := by
    rw [recipients_wire_of_unmarked hw.source_lt hv] at hr
    exact (hd.comes hh hlo hhi hr).wire_of_not_reaches (hw.wires hb) (hx hlo hhi hr)

theorem Delivers.wire_head {W' : Words α} (hd : Delivers S b lo hi (some v) D)
    (hu : Reads S b head u W') (hfree : ∀ y, ¬ b.graph.Feeds y v) :
    Delivers S (b.wire u k v) lo hi head (before W' D) where
  words := by
    rw [← hd.words]
    refine delivered_before (fun _ _ => recipients_wire_of_unmarked hw.source_lt hv _)
      fun {x} hlo hhi hr => ?_
    have hx : Reads S b (some v) x (b.words S x) := ⟨rfl, fun hh => hd.comes hh hlo hhi hr⟩
    exact (hx.wire_head hb hw hu hfree).words
  comes {_ x} hh hlo hhi hr := by
    rw [recipients_wire_of_unmarked hw.source_lt hv] at hr
    have hx : Reads S b (some v) x (b.words S x) := ⟨rfl, fun hh => hd.comes hh hlo hhi hr⟩
    exact (hx.wire_head hb hw hu hfree).comes hh

theorem Delivers.wire_sink (hd : Delivers S b lo hi head D) (hsink : ∀ y, ¬ b.graph.Feeds v y) :
    Delivers S (b.wire u k v) lo hi head D := by
  refine hd.wire hb hw hv fun {x} _ _ hr hreach => ?_
  obtain rfl := hreach.eq_of_sink hsink
  obtain ⟨d, hedge, -⟩ := hasEdge_of_recipients hr
  exact hsink d hedge.feeds

end Wire

section Join

variable (hb : b.Core) (hw : b.Wiring u k v) (hs : b.spelled S v = [])

include hb hw hs

theorem Reads.wire_first (hu : Reads S b head u W) (hfree : ∀ y, ¬ b.graph.Feeds y v) :
    Reads S (b.wire u k v) head v W := by
  have hx : Reads S b (some v) v {[]} := by
    refine ⟨by rw [words_of_free hb hfree, hs], fun hh => ?_⟩
    cases hh
    exact .self hfree
  have hhead := hx.wire_head hb hw hu hfree
  rwa [cat_nil] at hhead

/-- A silent slot reads what a further edge brings as well. -/
theorem Reads.wire_end {W' : Words α} (hx : Reads S b head v W) (hu : Reads S b head u W')
    (hfeeds : b.graph.Feeds y v) : Reads S (b.wire u k v) head v (W + W') where
  words := by
    rw [words_wire, (hw.wires hb).words_end hfeeds, hs, cat_nil, ← hx.words, ← hu.words]
    rfl
  comes hh := (hx.comes hh).wire (hw.wires hb) (hu.comes hh)

end Join

end Build

end Routing
