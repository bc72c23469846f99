import Routing.Proofs.Compile.Undisturbed
/-!
# Uses of stages

A stage of a statement sits in the graph itself where the statement is compiled first, and a clone of
it sits wherever the statement is compiled again. The trace lists these uses, so that each slot of a
statement is accounted for by one of them. The stages of the compiler are never marked.
-/

namespace Routing

variable {σ ω : Type}

/-- The slot has this role and holds this stage. -/
def Graph.Seat (g : Graph) (x : SlotId) (role : Role) (handle : Handle) : Prop :=
  ∃ s, g.slot? x = some s ∧ s.role = role ∧ s.handle = handle

instance (g : Graph) (x : SlotId) (role : Role) (handle : Handle) :
    Decidable (g.Seat x role handle) :=
  match hs : g.slot? x with
  | some s => decidable_of_iff (s.role = role ∧ s.handle = handle) (by simp [Graph.Seat, hs])
  | none => .isFalse (by simp [Graph.Seat, hs])

/-- The slot was made for a single statement. -/
def Graph.stated (g : Graph) (x : SlotId) : Bool :=
  g.role? x = some .declared ∨ g.role? x = some .cloned

/-- The slots that were made for single statements. -/
def Graph.statedSlots (g : Graph) : List SlotId :=
  (List.range g.size).filter g.stated

/-- The place that the moment is about, and the stage for which it was made. -/
def Moment.use? : Moment σ ω → Option (Handle × SlotId)
  | placed handle id _ => some (handle, id)
  | _ => none

/-- Which stages have got places, and where. -/
def Trace.uses (l : Trace σ ω) : List (Handle × SlotId) :=
  l.filterMap Moment.use?

/-- The places of one stage and its clones. -/
def usesOf (handle : Handle) (uses : List (Handle × SlotId)) : List SlotId :=
  (uses.filter fun u => u.1 = handle).map (·.2)

namespace Graph

variable {g : Graph} {x u : SlotId} {r r' : Role} {handle handle' : Handle} {s : Slot}

theorem Seat.role (h : g.Seat x r handle) : g.role? x = some r := by
  obtain ⟨s, hs, rfl, -⟩ := h
  rw [role?, hs]; rfl

theorem Seat.handle_eq (h : g.Seat x r handle) (h' : g.Seat x r' handle') : handle = handle' := by
  obtain ⟨s, hs, -, rfl⟩ := h
  obtain ⟨t, ht, -, rfl⟩ := h'
  rw [hs] at ht
  cases ht
  rfl

theorem seat_add : (g.add s).2.Seat x r handle ↔
    (x = g.size ∧ s.role = r ∧ s.handle = handle) ∨ g.Seat x r handle := by
  unfold Seat
  simp only [slot?_add]
  constructor
  · rintro ⟨t, ht, hr, hh⟩
    split at ht
    · cases ht
      exact .inl ⟨by assumption, hr, hh⟩
    · exact .inr ⟨t, ht, hr, hh⟩
  · rintro (⟨rfl, hr, hh⟩ | ⟨t, ht, hr, hh⟩)
    · exact ⟨s, by simp, hr, hh⟩
    · exact ⟨t, by rw [if_neg (Nat.ne_of_lt (lt_of_slot ht))]; exact ht, hr, hh⟩

theorem seat_modify {f : Slot → Slot} (hf : ∀ s, (f s).role = s.role ∧ (f s).handle = s.handle) :
    (g.modify u f).Seat x r handle ↔ g.Seat x r handle := by
  unfold Seat
  rw [slot?_modify]
  split
  · cases g.slot? x with
    | none => simp
    | some s => simp [hf s]
  · rfl

theorem mem_statedSlots : x ∈ g.statedSlots ↔ g.stated x = true := by
  simp only [statedSlots, List.mem_filter, List.mem_range, and_iff_right_iff_imp]
  intro h
  simp only [stated, decide_eq_true_eq] at h
  rcases h with h | h
  · exact role?_lt h
  · exact role?_lt h

theorem statedSlots_add : (g.add s).2.statedSlots =
    g.statedSlots ++ if s.role = .declared ∨ s.role = .cloned then [g.size] else [] := by
  have hlt : ∀ x ∈ List.range g.size, (g.add s).2.stated x = g.stated x := by
    intro x hx
    rw [stated, stated, role?_add_lt (List.mem_range.1 hx)]
  have hsize : (g.add s).2.stated g.size = decide (s.role = .declared ∨ s.role = .cloned) := by
    simp only [stated, role?_add_size, Option.some.injEq]
  rw [statedSlots, size_add, List.range_succ, List.filter_append, List.filter_congr hlt,
    List.filter_singleton, hsize]
  by_cases h : s.role = .declared ∨ s.role = .cloned <;> simp [h, statedSlots]

theorem statedSlots_modify {f : Slot → Slot} (hf : ∀ s, (f s).role = s.role) :
    (g.modify u f).statedSlots = g.statedSlots := by
  have hrole : ∀ x, (g.modify u f).role? x = g.role? x := by
    intro x
    rw [role?, role?, slot?_modify]
    split
    · cases g.slot? x with
      | none => rfl
      | some s => simp [hf s]
    · rfl
  simp only [statedSlots, size_modify, show (g.modify u f).stated = g.stated from
    funext fun x => by rw [stated, stated, hrole]]

end Graph

section Uses

variable {handle handle' : Handle} {x : SlotId} {uses : List (Handle × SlotId)} {l l' : Trace σ ω}

theorem uses_append : Trace.uses (l ++ l') = l.uses ++ l'.uses := List.filterMap_append

theorem mem_usesOf : x ∈ usesOf handle uses ↔ (handle, x) ∈ uses := by
  simp only [usesOf, List.mem_map, List.mem_filter, decide_eq_true_eq]
  constructor
  · rintro ⟨⟨_, _⟩, ⟨hu, rfl⟩, rfl⟩
    exact hu
  · exact fun h => ⟨_, ⟨h, rfl⟩, rfl⟩

theorem usesOf_concat_self : usesOf handle (uses ++ [(handle, x)]) = usesOf handle uses ++ [x] := by
  simp [usesOf]

theorem usesOf_concat_ne (h : handle' ≠ handle) :
    usesOf handle (uses ++ [(handle', x)]) = usesOf handle uses := by
  simp [usesOf, h]

end Uses

namespace Build

variable [Stage σ ω]

/-- What holds of slots and marks while the uses of stages are listed; the first `n` stages are the
ones of statements. -/
structure Listed (n : Nat) (uses : List (Handle × SlotId)) (b : Build σ ω) : Prop
    extends Placed n b where
  marked : ∀ {h}, b.pool.isInlined h = true ↔
    ∃ x, b.graph.Seat x .declared h ∨ b.graph.Seat x .cloned h
  accounted : uses.map (·.2) = b.graph.statedSlots
  first : ∀ {h x xs}, usesOf h uses = x :: xs →
    b.graph.Seat x .declared h ∧ ∀ y ∈ xs, ∃ c, n ≤ c ∧ b.graph.Seat y .cloned c

namespace Listed

variable {n : Nat} {uses : List (Handle × SlotId)} {b : Build σ ω} {h : Handle} {x : SlotId}
  {p : Pool σ ω}

/-- A stage of a statement is marked from its first use on. -/
theorem inlined_iff (hb : Listed n uses b) (hlt : h < n) :
    b.pool.isInlined h = true ↔ usesOf h uses ≠ [] := by
  constructor
  · intro hi hnil
    obtain ⟨x, hx⟩ := hb.marked.1 hi
    have hmem : x ∈ uses.map (·.2) := by
      rw [hb.accounted, Graph.mem_statedSlots, Graph.stated, decide_eq_true_eq]
      rcases hx with hx | hx
      · exact .inl hx.role
      · exact .inr hx.role
    obtain ⟨⟨h', _⟩, hu, rfl⟩ := List.mem_map.1 hmem
    have hu' := mem_usesOf.2 hu
    obtain ⟨y, ys, hys⟩ := List.exists_cons_of_ne_nil (List.ne_nil_of_mem hu')
    obtain ⟨hfirst, hrest⟩ := hb.first hys
    rw [hys] at hu'
    rcases List.mem_cons.1 hu' with rfl | hy
    · have heq : h = h' := by
        rcases hx with hx | hx
        · exact hx.handle_eq hfirst
        · exact hx.handle_eq hfirst
      subst heq
      rw [hnil] at hys
      cases hys
    · -- a clone is none of the stages of statements
      obtain ⟨c, hc, hseat⟩ := hrest _ hy
      have heq : h = c := by
        rcases hx with hx | hx
        · exact hx.handle_eq hseat
        · exact hx.handle_eq hseat
      exact absurd hlt (Nat.not_lt.2 (heq ▸ hc))
  · intro hne
    obtain ⟨x, xs, hxs⟩ := List.exists_cons_of_ne_nil hne
    exact hb.marked.2 ⟨x, .inl (hb.first hxs).1⟩

/-! ### Steps that use no stage of a statement -/

theorem share (hb : Listed n uses b) (shared : ω) :
    Listed n uses { b with pool := { b.pool with shared } } where
  toPlaced := hb.toPlaced.pool (.share shared)
  marked := hb.marked
  accounted := hb.accounted
  first := hb.first

theorem modify (hb : Listed n uses b) {u : SlotId} {f : Slot → Slot}
    (hf : ∀ s, (f s).role = s.role ∧ (f s).handle = s.handle)
    (hpl : Placed n { b with graph := b.graph.modify u f }) :
    Listed n uses { b with graph := b.graph.modify u f } where
  toPlaced := hpl
  marked := by
    simp only [Graph.seat_modify hf]
    exact hb.marked
  accounted := hb.accounted.trans (Graph.statedSlots_modify fun s => (hf s).1).symm
  first hx := by
    simp only [Graph.seat_modify hf]
    exact hb.first hx

theorem own (hb : Listed n uses b) {stage : σ} {role : Role}
    (hr : role ≠ .declared ∧ role ≠ .cloned) (hpl : Placed n (b.own stage role)) :
    Listed n uses (b.own stage role) := by
  have hseat : ∀ {x r h}, r = .declared ∨ r = .cloned →
      ((b.own stage role).graph.Seat x r h ↔ b.graph.Seat x r h) := by
    intro x r h hr'
    refine Graph.seat_add.trans (or_iff_right ?_)
    rintro ⟨-, rfl, -⟩
    exact hr'.elim hr.1 hr.2
  refine ⟨hpl, ?_, ?_, ?_⟩
  · intro h
    simp only [hseat (.inl rfl), hseat (.inr rfl)]
    exact (Bool.eq_iff_iff.1 Pool.isInlined_add).trans hb.marked
  · refine hb.accounted.trans ?_
    have hstated : ¬ (role = .declared ∨ role = .cloned) := fun h => h.elim hr.1 hr.2
    exact (Graph.statedSlots_add.trans (by simp [hstated])).symm
  · intro h x xs hx
    simp only [hseat (.inl rfl), hseat (.inr rfl)]
    exact hb.first hx

/-! ### A use of a stage -/

/-- The slot of a use is new, and the stage in it is marked now. -/
theorem grow (hb : Listed n uses b) {handle : Handle} {s : Slot}
    (hr : s.role = .declared ∨ s.role = .cloned) (hpl : Placed n (b.grow p s))
    (hp : ∀ h, p.isInlined h = true ↔ h = s.handle ∨ b.pool.isInlined h = true)
    (hfirst : ∀ {x xs}, usesOf handle uses ++ [b.graph.size] = x :: xs →
      (b.grow p s).graph.Seat x .declared handle ∧
        ∀ y ∈ xs, ∃ c, n ≤ c ∧ (b.grow p s).graph.Seat y .cloned c) :
    Listed n (uses ++ [(handle, b.graph.size)]) (b.grow p s) := by
  have hseat : ∀ {x r h}, (b.grow p s).graph.Seat x r h ↔
      (x = b.graph.size ∧ s.role = r ∧ s.handle = h) ∨ b.graph.Seat x r h := Graph.seat_add
  refine ⟨hpl, ?_, ?_, ?_⟩
  · intro h
    refine (hp h).trans ?_
    constructor
    · rintro (rfl | hi)
      · rcases hr with hr | hr
        · exact ⟨_, .inl (hseat.2 (.inl ⟨rfl, hr, rfl⟩))⟩
        · exact ⟨_, .inr (hseat.2 (.inl ⟨rfl, hr, rfl⟩))⟩
      · obtain ⟨x, hx⟩ := hb.marked.1 hi
        exact ⟨x, hx.imp (fun h => hseat.2 (.inr h)) fun h => hseat.2 (.inr h)⟩
    · rintro ⟨x, hx⟩
      rcases hx with hx | hx
      · rcases hseat.1 hx with ⟨-, -, hh⟩ | hx
        · exact .inl hh.symm
        · exact .inr (hb.marked.2 ⟨x, .inl hx⟩)
      · rcases hseat.1 hx with ⟨-, -, hh⟩ | hx
        · exact .inl hh.symm
        · exact .inr (hb.marked.2 ⟨x, .inr hx⟩)
  · rw [List.map_append, hb.accounted]
    exact (Graph.statedSlots_add.trans (by simp [hr])).symm
  · intro h x xs hx
    by_cases hh : handle = h
    · subst hh
      rw [usesOf_concat_self] at hx
      exact hfirst hx
    · rw [usesOf_concat_ne hh] at hx
      obtain ⟨h₁, h₂⟩ := hb.first hx
      refine ⟨hseat.2 (.inr h₁), fun y hy => ?_⟩
      obtain ⟨c, hc, hy⟩ := h₂ y hy
      exact ⟨c, hc, hseat.2 (.inr hy)⟩

theorem claimed (hb : Listed n uses b) {handle : Handle} {r : Handle × Role} (hlt : handle < n)
    (hr : Compile.Claimed b.pool handle r p) (origin : Option StageOrigin) :
    Listed n (uses ++ [(handle, b.graph.size)]) (b.grow p
      { handle := r.1, role := r.2, capabilities := p.capabilities r.1, origin }) := by
  refine hb.grow hr.role (hb.toPlaced.claimed hlt hr origin) (fun h => ?_) fun {x xs} hx => ?_
  · cases hr with
    | declared hi =>
      rw [Pool.isInlined_markInlined (Nat.lt_of_lt_of_le hlt hb.bound)]
      split <;> simp [*]
    | @cloned stage copy shared hi hs hc =>
      rw [Pool.isInlined_markInlined (by rw [Pool.size_add]; exact Nat.lt_succ_self _),
        Pool.isInlined_add]
      split
      · simp [*]
      · simp only [*, false_or]
        rfl
  · cases hr with
    | declared hi =>
      have hnil : usesOf handle uses = [] := by
        by_contra hne
        rw [(hb.inlined_iff hlt).2 hne] at hi
        cases hi
      rw [hnil] at hx
      cases hx
      exact ⟨Graph.seat_add.2 (.inl ⟨rfl, rfl, rfl⟩), fun y hy => by cases hy⟩
    | @cloned stage copy shared hi hs hc =>
      obtain ⟨y, ys, hys⟩ := List.exists_cons_of_ne_nil ((hb.inlined_iff hlt).1 hi)
      obtain ⟨h₁, h₂⟩ := hb.first hys
      rw [hys] at hx
      cases hx
      refine ⟨Graph.seat_add.2 (.inr h₁), fun z hz => ?_⟩
      rcases List.mem_append.1 hz with hz | hz
      · obtain ⟨c, hc, hz⟩ := h₂ z hz
        exact ⟨c, hc, Graph.seat_add.2 (.inr hz)⟩
      · obtain rfl := List.mem_singleton.1 hz
        exact ⟨_, hb.bound, Graph.seat_add.2 (.inl ⟨rfl, rfl, rfl⟩)⟩

end Listed

/-- Compiling lists the uses of stages. -/
theorem traced_listed (n : Nat) :
    Compile.Traced n fun (l : Trace σ ω) (b : Build σ ω) => Listed n l.uses b where
  joining l := by
    refine ⟨⟨fun hs hr hb => ?_, fun {b u k v} hb => ?_⟩, fun hc hb => ?_⟩
    · exact hb.own hr ((stable_placed n).own hs hb.toPlaced)
    · cases k with
      | next => exact hb.modify (fun _ => ⟨rfl, rfl⟩) ((stable_placed n).wire (k := .next) hb.toPlaced)
      | hop => exact hb.modify (fun _ => ⟨rfl, rfl⟩) ((stable_placed n).wire (k := .hop) hb.toPlaced)
    · exact hb.modify (fun _ => ⟨rfl, rfl⟩) ((stable_placed n).enable hc hb.toPlaced)
  mark hb := ⟨(stable_placed n).mark hb.toPlaced, hb.marked, hb.accounted, hb.first⟩
  note {l b m} hm hb := by
    have huse : m.use? = none := by
      cases m with
      | placed handle id b' => exact absurd rfl (hm handle id b')
      | opened | joined => rfl
    rw [uses_append]
    simpa [Trace.uses, huse] using hb
  single {handle} h here hlt l b hb := by
    refine Compile.wp_onward_end (Q := fun l' _ b' => Listed n (Trace.uses (l ++ l')) b')
      (E := fun l' _ b' => Listed n (Trace.uses (l ++ l')) b') ?_
    refine Compile.wp_single (fun handle' role p hr => ?_) fun p hr => ?_
    · rw [uses_append]
      exact hb.claimed hlt hr _
    · rw [List.append_nil]
      cases hr with
      | absent _ => exact hb
      | refused _ _ => exact hb.share _

/-- How the uses of stages account for slots and marks; the first `n` stages are the ones of
statements. -/
structure Housed (n : Nat) (uses : List (Handle × SlotId)) (b : Build σ ω) : Prop where
  distinct : ∀ {x y s t}, b.graph.slot? x = some s → b.graph.slot? y = some t →
    s.handle = t.handle → x = y
  /-- The marked stages are those in slots that were made for statements. -/
  marked : ∀ h, b.pool.isInlined h = true ↔
    ∃ x, b.graph.Seat x .declared h ∨ b.graph.Seat x .cloned h
  /-- A stage of a statement sits in no other slots. -/
  original : ∀ h, h < n → (b.pool.isInlined h = true ↔ ∃ x r, b.graph.Seat x r h)
  unmarked : ∀ {x r h}, b.graph.Seat x r h → r ≠ .declared → r ≠ .cloned →
    b.pool.isInlined h = false
  accounted : uses.map (·.2) = b.graph.statedSlots
  /-- The first use of a stage is the stage itself, and each later use is a new clone. -/
  first : ∀ {h x xs}, usesOf h uses = x :: xs → b.graph.Seat x .declared h ∧ (∀ y ∈ xs, x < y) ∧
    ∃ copies : List Handle, copies.Nodup ∧ (∀ c ∈ copies, n ≤ c) ∧
      List.Forall₂ (b.graph.Seat · .cloned ·) xs copies

variable {n : Nat} {uses : List (Handle × SlotId)} {b : Build σ ω} {h : Handle}

theorem Listed.ascending (hb : Listed n uses b) : (usesOf h uses).Pairwise (· < ·) := by
  have hall : (uses.map (·.2)).Pairwise (· < ·) := by
    rw [hb.accounted]
    exact List.pairwise_lt_range.filter _
  exact hall.sublist (List.filter_sublist.map _)

/-- Different slots hold different clones. -/
theorem Listed.copies (hb : Listed n uses b) {xs : List SlotId} (hnd : xs.Nodup)
    (hxs : ∀ y ∈ xs, ∃ c, n ≤ c ∧ b.graph.Seat y .cloned c) :
    ∃ copies : List Handle, copies.Nodup ∧
      (∀ c ∈ copies, n ≤ c ∧ ∃ y ∈ xs, b.graph.Seat y .cloned c) ∧
        List.Forall₂ (b.graph.Seat · .cloned ·) xs copies := by
  induction xs with
  | nil => exact ⟨[], by simp, by simp, .nil⟩
  | cons x xs ih =>
    obtain ⟨hx, hnd⟩ := List.nodup_cons.1 hnd
    obtain ⟨copies, hcopies, hold, hall⟩ := ih hnd fun y hy => hxs y (by simp [hy])
    obtain ⟨c, hc, hseat⟩ := hxs x (by simp)
    refine ⟨c :: copies, List.nodup_cons.2 ⟨fun hmem => ?_, hcopies⟩, ?_, .cons hseat hall⟩
    · obtain ⟨-, y, hy, s, hs, -, hh⟩ := hold c hmem
      obtain ⟨t, ht, -, hh'⟩ := hseat
      exact hx (hb.distinct ht hs (hh'.trans hh.symm) ▸ hy)
    · intro c' hc'
      rcases List.mem_cons.1 hc' with rfl | hc'
      · exact ⟨hc, x, by simp, hseat⟩
      · obtain ⟨hle, y, hy, hy'⟩ := hold c' hc'
        exact ⟨hle, y, by simp [hy], hy'⟩

theorem Listed.housed (hb : Listed n uses b) : Housed n uses b where
  distinct := hb.distinct
  marked _ := hb.marked
  original h hlt := by
    constructor
    · intro hi
      obtain ⟨x, hx | hx⟩ := hb.marked.1 hi
      · exact ⟨x, _, hx⟩
      · exact ⟨x, _, hx⟩
    · rintro ⟨x, r, s, hs, -, rfl⟩
      exact hb.inlined hs hlt
  unmarked {x r h} hx hd hc := by
    by_contra hi
    obtain ⟨y, hy⟩ := hb.marked.1 (Bool.not_eq_false _ ▸ hi)
    have hsame : ∀ {r'}, b.graph.Seat y r' h → r' = r := by
      rintro r' ⟨s, hs, rfl, hh⟩
      obtain ⟨t, ht, rfl, hh'⟩ := hx
      obtain rfl := hb.distinct hs ht (hh.trans hh'.symm)
      rw [hs] at ht
      cases ht
      rfl
    rcases hy with hy | hy
    · exact hd (hsame hy).symm
    · exact hc (hsame hy).symm
  accounted := hb.accounted
  first {h x xs} hx := by
    obtain ⟨hfirst, hrest⟩ := hb.first hx
    have hasc := hb.ascending (h := h)
    rw [hx, List.pairwise_cons] at hasc
    obtain ⟨copies, hnd, hle, hall⟩ := hb.copies (hasc.2.imp Nat.ne_of_lt) hrest
    exact ⟨hfirst, hasc.1, copies, hnd, fun c hc => (hle c hc).1, hall⟩

theorem listed_of_empty (hb : b.graph.size = 0) (hn : n ≤ b.pool.instances.size)
    (hp : ∀ h, b.pool.isInlined h = false) : Listed n [] b where
  toPlaced := placed_of_empty hb hn
  marked {h} := by
    rw [hp h]
    have slot : ∀ {x r}, ¬ b.graph.Seat x r h := fun ⟨s, hs, _⟩ =>
      absurd (hb ▸ Graph.lt_of_slot hs) (Nat.not_lt_zero _)
    simp [slot]
  accounted := by simp [Graph.statedSlots, hb]
  first hx := by cases hx

end Build

namespace Compile

open Build

variable [Stage σ ω]

/-- What happens during a call. -/
def Call.trace (objects : Objects) : Call → Build σ ω → Trace σ ω
  | rule s => ruleTrace objects s
  | node flowControl s => nodeTrace objects flowControl s

def traceAfter (objects : Objects) : List Call → Build σ ω → Trace σ ω
  | [], _ => []
  | call :: calls, b =>
    call.trace objects b ++ traceAfter objects calls ((call.run objects).run b).2

theorem Traced.after {n : Nat} {P : Trace σ ω → Build σ ω → Prop} (hP : Traced n P)
    {objects : Objects} (hobjects : objects.Holds n) {calls : List Call}
    (hcalls : ∀ call ∈ calls, call.statement.Holds n) {l : Trace σ ω} {b : Build σ ω} (hb : P l b) :
    P (l ++ traceAfter objects calls b) (after objects calls b) := by
  induction calls generalizing l b with
  | nil =>
    rw [traceAfter, List.append_nil]
    exact hb
  | cons call calls ih =>
    have hholds := hcalls call (by simp)
    have hcall : P (l ++ call.trace objects b) ((call.run objects).run b).2 := by
      cases call with
      | rule s => exact hP.rule hobjects hholds hb
      | node fc s => exact hP.node hobjects hholds fc hb
    rw [traceAfter, ← List.append_assoc]
    exact ih (fun call hc => hcalls call (by simp [hc])) hcall

/-- A stage that sits in the graph and refuses to be cloned gets no second slot. -/
theorem single_refused {b : Build σ ω} {handle : Handle} (h : Heading) (here : Option Location)
    (hi : b.pool.isInlined handle = true) (hc : (b.pool.clone handle).1 = none) :
    (single h here (.stage handle)).run b =
      (.error (.cloneRefused (h.describe here)), { b with pool := (b.pool.clone handle).2 }) := by
  refine run_eq_error ?_
  unfold single claim cloneStage
  simp only [wp_bind, wp_get, wp_set, wp_ite, hi, if_true, hc, wp_pure]
  exact ⟨rfl, rfl⟩

/-- A stage is used in place once and cloned for every other use. -/
theorem housed_after (objects : Objects) (calls : List Call) (pool : Pool σ ω)
    (hobjects : objects.Holds pool.instances.size)
    (hcalls : ∀ call ∈ calls, call.statement.Holds pool.instances.size)
    (hpool : ∀ i ∈ pool.instances, i.inlined = false) :
    Housed pool.instances.size (traceAfter objects calls { pool }).uses
        (after objects calls { pool }) ∧
      ∀ (b : Build σ ω) h here handle, b.pool.isInlined handle = true →
        (b.pool.clone handle).1 = none → (single h here (.stage handle)).run b =
          (.error (.cloneRefused (h.describe here)), { b with pool := (b.pool.clone handle).2 }) := by
  have hfree : ∀ h, pool.isInlined h = false := by
    intro h
    unfold Pool.isInlined
    cases hi : pool.instances[h]? with
    | none => rfl
    | some i => exact hpool i (Array.mem_of_getElem? hi)
  have hlisted := (traced_listed pool.instances.size).after hobjects hcalls
    (l := []) (listed_of_empty (b := { pool }) rfl (Nat.le_refl _) hfree)
  exact ⟨hlisted.housed, fun b h here handle => single_refused h here⟩

/-- A stage that sits in a graph and has no clone. -/
def samplePinned : Pool Builtin Shared where
  instances := #[⟨.scripted { label := "once", clones := false }, true⟩]
  shared := {}

theorem housed_sample :
    Housed 3 (traceAfter sampleObjects (sampleRules.map .rule) { pool := samplePool }).uses
        (after sampleObjects (sampleRules.map .rule) { pool := samplePool }) ∧
      usesOf 2 (traceAfter sampleObjects (sampleRules.map .rule) { pool := samplePool }).uses =
        [5, 10] ∧
      (after sampleObjects (sampleRules.map .rule) { pool := samplePool }).graph.Seat 5 .declared 2 ∧
      (after sampleObjects (sampleRules.map .rule) { pool := samplePool }).graph.Seat 10 .cloned 10 ∧
      (single { shape := .single, kind := .pipe } none (.stage 0)).run { pool := samplePinned } =
        (.error (.cloneRefused ⟨.pipe, "unnamed", "#unknown"⟩), { pool := samplePinned }) :=
  have h := housed_after sampleObjects (sampleRules.map .rule) samplePool (by decide +kernel)
    (by decide +kernel) (by decide +kernel)
  ⟨h.1, by decide +kernel, by decide +kernel, by decide +kernel,
    h.2 { pool := samplePinned } _ none 0 rfl rfl⟩

/-- The stages of the compiler sit in slots without being marked, so that the marked stages are not
all stages in slots. -/
theorem unmarked_sample :
    ¬ ∀ h, (after [] [.rule (.sequence [.pipe 0 none, .pipe 2 none] .none none)]
          { pool := samplePool }).pool.isInlined h = true ↔
        ∃ x r, (after [] [.rule (.sequence [.pipe 0 none, .pipe 2 none] .none none)]
          { pool := samplePool }).graph.Seat x r h := by
  intro h
  have hmarked := (h 3).2 ⟨1, .join, by decide +kernel⟩
  revert hmarked
  decide +kernel

end Compile

end Routing
