import Routing.Proofs.Compile.Tasks
/-!
# Two runs side by side

Two runs of the compiler correspond if one does step by step what the other does. A `Likeness` says
what corresponds: the slots from some slot on, shifted by some distance, with what is asked of the
stages in them, and the targets under which ends are remembered. Steps that join parts together keep
states that match, whatever the likeness is.
-/

namespace Routing

variable {σ ω α β γ δ : Type}

namespace Compile

open Build

/-! ### Pairs of steps -/

/-- What two steps lead to, each from its own state: `Q` if both succeed and `E` if both fail. If
failures are excused, nothing is said where a step fails. -/
def paired (lax : Prop) (x : Compile σ ω α) (y : Compile σ ω β)
    (Q : α → β → Build σ ω → Build σ ω → Prop)
    (E : CompileError → CompileError → Build σ ω → Build σ ω → Prop) (b b' : Build σ ω) : Prop :=
  match x.run b, y.run b' with
  | (.ok a, c), (.ok a', c') => Q a a' c c'
  | (.error e, c), (.error e', c') => lax ∨ E e e' c c'
  | _, _ => lax

section Paired

variable {lax : Prop} {x : Compile σ ω α} {y : Compile σ ω β}
  {Q : α → β → Build σ ω → Build σ ω → Prop}
  {E : CompileError → CompileError → Build σ ω → Build σ ω → Prop} {b b' : Build σ ω}

theorem paired_mono {Q' : α → β → Build σ ω → Build σ ω → Prop} (h : paired lax x y Q E b b')
    (hQ : ∀ a a' c c', Q a a' c c' → Q' a a' c c') : paired lax x y Q' E b b' := by
  unfold paired at h ⊢
  split at h
  · exact hQ _ _ _ _ h
  · exact h
  · exact h

theorem paired_bind {f : α → Compile σ ω γ} {g : β → Compile σ ω δ}
    {R : γ → δ → Build σ ω → Build σ ω → Prop}
    (h : paired lax x y (fun a a' c c' => paired lax (f a) (g a') R E c c') E b b') :
    paired lax (x >>= f) (y >>= g) R E b b' := by
  unfold paired at h ⊢
  -- if one of the first steps fails, then failures are excused or both of them fail
  rcases hx : x.run b with ⟨e | a, c⟩ <;> rcases hy : y.run b' with ⟨e' | a', c'⟩ <;>
    simp only [hx, hy] at h
  · rw [run_bind_error hx, run_bind_error hy]
    exact h
  · rw [run_bind_error hx]
    split <;> simp_all
  · rw [run_bind_error hy]
    split <;> simp_all
  · rw [run_bind_ok hx, run_bind_ok hy]
    exact h

/-- Where both steps succeed, what they lead to holds. -/
theorem paired_ok (h : paired lax x y Q E b b') {a : α} {a' : β} {c c' : Build σ ω}
    (hx : x.run b = (.ok a, c)) (hy : y.run b' = (.ok a', c')) : Q a a' c c' := by
  unfold paired at h
  rw [hx, hy] at h
  exact h

end Paired

/-! ### Likenesses -/

/-- How two runs of the compiler correspond. -/
structure Likeness (σ ω : Type) where
  /-- The slots from this one on correspond. -/
  base : SlotId
  /-- So far the slots of the second run are shifted. -/
  gap : Nat
  /-- What the slots before those hold in the first run. -/
  front : SlotId → Option Slot := fun _ => none
  /-- What the slots before those hold in the second run. -/
  front' : SlotId → Option Slot := fun _ => none
  pool : Pool σ ω → Pool σ ω → Prop
  /-- What is asked of two slots besides capabilities and edges. -/
  slot : Pool σ ω → Pool σ ω → SlotId → Slot → Slot → Prop
  /-- The targets under which the two runs remember what corresponds. -/
  key : TargetKey → TargetKey → Prop
  /-- The errors are to be the same, and what they say. -/
  exact : Prop
  /-- Failures are excused. -/
  lax : Prop

/-- The slots hold the same stage for the same reason. -/
structure SameStage (s t : Slot) : Prop where
  handle : t.handle = s.handle
  role : t.role = s.role
  origin : t.origin = s.origin
  initialized : t.initialized = s.initialized

namespace Likeness

variable (L : Likeness σ ω)

/-- The slots correspond. -/
def Same (x x' : SlotId) : Prop :=
  L.base ≤ x ∧ x' = x + L.gap

/-- The contents of two slots match. -/
structure Slots (p p' : Pool σ ω) (x : SlotId) (s s' : Slot) : Prop where
  capabilities : s.capabilities = s'.capabilities
  next : Option.Rel L.Same s.next s'.next
  hops : List.Forall₂ L.Same s.hops s'.hops
  rest : L.slot p p' x s s'

/-- The states match. -/
structure Match (b b' : Build σ ω) : Prop where
  pool : L.pool b.pool b'.pool
  size : L.Same b.graph.size b'.graph.size
  slot : ∀ {x x'}, L.Same x x' →
    Option.Rel (L.Slots b.pool b'.pool x) (b.graph.slot? x) (b'.graph.slot? x')
  memo : ∀ {k k'}, L.key k k' → k.Shared → Option.Rel L.Same (b.memos.lookup k) (b'.memos.lookup k')
  front : ∀ {x}, x < L.base → b.graph.slot? x = L.front x
  front' : ∀ {x}, x < L.base + L.gap → b'.graph.slot? x = L.front' x

/-- What the two runs read off their graphs matches. -/
structure Graphs (g g' : Graph) : Prop where
  size : L.Same g.size g'.size
  next : ∀ {x x'}, L.Same x x' → Option.Rel L.Same (g.next? x) (g'.next? x')
  capabilities : ∀ {x x'}, L.Same x x' → g.capabilities x = g'.capabilities x'
  fork : ∀ {x x'}, L.Same x x' → (g.role? x = some .multiplexer ↔ g'.role? x' = some .multiplexer)

/-- The parts match. If the runs are shifted, what has a head has a tail: only then does no run look
for the end of a walk. -/
structure Part (f f' : Fragment) : Prop where
  head : Option.Rel L.Same f.head f'.head
  tail : Option.Rel L.Same f.tail f'.tail
  closed : L.gap = 0 ∨ (f.head.isSome → f.tail.isSome)

structure Chains (c c' : Chain) : Prop where
  first : Option.Rel L.Same c.first c'.first
  last : Option.Rel L.Same c.last c'.last
  join : Option.Rel L.Same c.join c'.join
  pastSources : c.pastSources = c'.pastSources
  changesMessage : c.changesMessage = c'.changesMessage
  flowControl : c.flowControl = c'.flowControl
  closed : L.gap = 0 ∨ (c.first.isSome → c.last.isSome)

/-- The junctions match while the tail of a branch may be awaited. -/
structure Junctions (awaited : Prop) (j j' : Branching) : Prop where
  fork : Option.Rel L.Same j.fork j'.fork
  join : Option.Rel L.Same j.join j'.join
  headless : j.headless = j'.headless
  flowControl : j.flowControl = j'.flowControl
  closed : L.gap = 0 ∨ (j.fork.isSome → j.join.isSome ∨ awaited)

/-- From states that match, the steps come to results that are related, in states that match. -/
def Along (x : Compile σ ω α) (y : Compile σ ω β) (R : α → β → Prop) : Prop :=
  ∀ b b', L.Match b b' → paired L.lax x y (fun a a' c c' => R a a' ∧ L.Match c c')
    (fun e e' c c' => (L.exact → e = e') ∧ L.Match c c') b b'

/-- Adding stages to the pools and edges to the graphs keeps what the likeness asks. -/
structure Regular [Stage σ ω] : Prop where
  gap : L.exact → L.gap = 0
  congr : ∀ {p p' x s s' t t'}, SameStage s t → SameStage s' t' → L.slot p p' x s s' →
    L.slot p p' x t t'
  fork : ∀ {p p' x s s'}, L.slot p p' x s s' → (s.role = .multiplexer ↔ s'.role = .multiplexer)
  add : ∀ {p p' stage}, L.pool p p' → L.pool (p.add stage).2 (p'.add stage).2
  old : ∀ {p p' stage x s s'}, L.pool p p' → L.slot p p' x s s' →
    L.slot (p.add stage).2 (p'.add stage).2 x s s'
  own : ∀ {p p' stage role} x, role ≠ .declared → L.pool p p' → L.slot (p.add stage).2 (p'.add stage).2 x
    { handle := p.instances.size, role, capabilities := .none }
    { handle := p'.instances.size, role, capabilities := .none }
  kind : ∀ {k k'}, L.key k k' → k.kind = k'.kind
  key : ∀ {k k' l l'}, L.key k k' → L.key l l' → (k = l ↔ k' = l')

variable {L}

theorem Same.unique {x x' y'  : SlotId} (h : L.Same x x') (h' : L.Same x y') : x' = y' :=
  h.2.trans h'.2.symm

theorem Same.inj {x x' y y' : SlotId} (h : L.Same x x') (h' : L.Same y y') :
    x = y ↔ x' = y' := by
  rw [h.2, h'.2, Nat.add_right_cancel_iff]

/-- Slots that correspond come behind those that do not. -/
theorem Same.behind {x x' : SlotId} (h : L.Same x x') : L.base + L.gap ≤ x' :=
  h.2 ▸ Nat.add_le_add_right h.1 _

theorem Same.eq {x x' : SlotId} (h : L.Same x x') (hgap : L.gap = 0) : x = x' := by
  rw [h.2, hgap, Nat.add_zero]

theorem same_refl (hbase : L.base = 0) (hgap : L.gap = 0) (x : SlotId) : L.Same x x :=
  ⟨hbase ▸ Nat.zero_le x, by rw [hgap]; rfl⟩

theorem rel_same_refl (hbase : L.base = 0) (hgap : L.gap = 0) (x : Option SlotId) :
    Option.Rel L.Same x x := by
  cases x with
  | none => exact .none
  | some x => exact .some (same_refl hbase hgap x)

theorem rel_same_eq (hgap : L.gap = 0) {x x' : Option SlotId} (h : Option.Rel L.Same x x') :
    x = x' := by
  cases h with
  | none => rfl
  | some h => rw [h.eq hgap]

/-- Without a shift, parts that match are equal. -/
theorem Part.eq (hgap : L.gap = 0) {f f' : Fragment} (h : L.Part f f') : f = f' := by
  obtain ⟨head, tail⟩ := f
  obtain ⟨head', tail'⟩ := f'
  obtain rfl : head = head' := rel_same_eq hgap h.head
  obtain rfl : tail = tail' := rel_same_eq hgap h.tail
  rfl

theorem forall₂_same_eq (hgap : L.gap = 0) {xs xs' : List SlotId}
    (h : List.Forall₂ L.Same xs xs') : xs = xs' :=
  List.forall₂_eq_eq_eq ▸ h.imp fun _ _ h => h.eq hgap

/-- Without a shift, slots that match and hold the same stage for the same reason are equal. -/
theorem Slots.eq (hgap : L.gap = 0) {p p' : Pool σ ω} {x : SlotId} {s s' : Slot}
    (h : L.Slots p p' x s s') (hstage : SameStage s s') : s = s' := by
  obtain ⟨handle, role, capabilities, next, hops, origin, initialized⟩ := s
  obtain ⟨handle', role', capabilities', next', hops', origin', initialized'⟩ := s'
  obtain rfl : capabilities = capabilities' := h.capabilities
  obtain rfl : next = next' := rel_same_eq hgap h.next
  obtain rfl : hops = hops' := forall₂_same_eq hgap h.hops
  obtain ⟨rfl, rfl, rfl, rfl⟩ := hstage
  rfl

theorem Match.graphs [Stage σ ω] (hL : L.Regular) {b b' : Build σ ω} (h : L.Match b b') :
    L.Graphs b.graph b'.graph where
  size := h.size
  next {x x'} hx := by
    have hslot := h.slot hx
    unfold Graph.next?
    generalize b.graph.slot? x = s, b'.graph.slot? x' = s' at hslot
    cases hslot with
    | none => exact .none
    | some hs => exact hs.next
  capabilities {x x'} hx := by
    have hslot := h.slot hx
    unfold Graph.capabilities
    generalize b.graph.slot? x = s, b'.graph.slot? x' = s' at hslot
    cases hslot with
    | none => rfl
    | some hs => exact hs.capabilities
  fork {x x'} hx := by
    have hslot := h.slot hx
    unfold Graph.role?
    generalize b.graph.slot? x = s, b'.graph.slot? x' = s' at hslot
    cases hslot with
    | none => simp
    | some hs => simpa using hL.fork hs.rest

/-- Without a shift the walks end at the same stage. -/
theorem Graphs.terminal {g g' : Graph} (h : L.Graphs g g') (hgap : L.gap = 0) {x x' : SlotId}
    (hx : L.Same x x') : L.Same (g.terminal x) (g'.terminal x') := by
  have hfollow : ∀ n {x x'}, L.Same x x' → L.Same (g.follow n x) (g'.follow n x') := by
    intro n
    induction n with
    | zero => exact fun hx => hx
    | succ n ih =>
      intro x x' hx
      have hnext := h.next hx
      unfold Graph.follow
      generalize g.next? x = y, g'.next? x' = y' at hnext
      cases hnext with
      | none => exact hx
      | some hy => exact ih hy
  unfold Graph.terminal
  rw [← h.size.eq hgap]
  exact hfollow _ hx

/-! ### Combining steps -/

namespace Along

variable {R : α → β → Prop} {S : γ → δ → Prop} {x : Compile σ ω α} {y : Compile σ ω β}

theorem pure {a : α} {a' : β} (h : R a a') :
    L.Along (Pure.pure a) (Pure.pure a') R := fun _ _ hb => ⟨h, hb⟩

theorem throw {e e' : CompileError} (h : L.exact → e = e') :
    L.Along (throw e : Compile σ ω α) (throw e' : Compile σ ω β) R := fun _ _ hb => .inr ⟨h, hb⟩

theorem bind {f : α → Compile σ ω γ} {g : β → Compile σ ω δ} (hx : L.Along x y R)
    (hf : ∀ a a', R a a' → L.Along (f a) (g a') S) : L.Along (x >>= f) (y >>= g) S :=
  fun b b' hb => paired_bind (paired_mono (hx b b' hb) fun a a' c c' h => hf a a' h.1 c c' h.2)

theorem mono {R' : α → β → Prop} (hx : L.Along x y R) (h : ∀ a a', R a a' → R' a a') :
    L.Along x y R' := fun b b' hb =>
  paired_mono (hx b b' hb) fun a a' _ _ ⟨hr, hm⟩ => ⟨h a a' hr, hm⟩

theorem ite {p q : Prop} [Decidable p] [Decidable q] (hpq : p ↔ q) {x' : Compile σ ω α}
    {y' : Compile σ ω β} (hx : p → L.Along x y R) (hx' : ¬ p → L.Along x' y' R) :
    L.Along (if p then x else x') (if q then y else y') R := by
  by_cases hp : p
  · rw [if_pos hp, if_pos (hpq.1 hp)]
    exact hx hp
  · rw [if_neg hp, if_neg (mt hpq.2 hp)]
    exact hx' hp

end Along

/-- What holds of the results of runs that correspond, whether they succeed or fail. -/
theorem Along.outcome {R : α → β → Prop} {x : Compile σ ω α} {y : Compile σ ω β} {b b' : Build σ ω}
    (hL : ¬ L.lax) (h : L.Along x y R) (hb : L.Match b b') :
    L.Match (x.run b).2 (y.run b').2 ∧
      ((∃ a a', (x.run b).1 = .ok a ∧ (y.run b').1 = .ok a' ∧ R a a') ∨
        ∃ e e', (x.run b).1 = .error e ∧ (y.run b').1 = .error e' ∧ (L.exact → e = e')) := by
  have hpaired := h b b' hb
  unfold paired at hpaired
  split at hpaired
  · next hx hy =>
    rw [hx, hy]
    exact ⟨hpaired.2, .inl ⟨_, _, rfl, rfl, hpaired.1⟩⟩
  · next hx hy =>
    obtain ⟨hexact, hmatch⟩ := hpaired.resolve_left hL
    rw [hx, hy]
    exact ⟨hmatch, .inr ⟨_, _, rfl, rfl, hexact⟩⟩
  · exact (hL hpaired).elim

/-! ### States that match -/

section States

variable {b b' : Build σ ω} {u u' v v' : SlotId}

/-- From nothing on, without a shift, states match if their pools do. -/
theorem match_start (hbase : L.base = 0) (hgap : L.gap = 0) {p p' : Pool σ ω} (hp : L.pool p p') :
    L.Match { pool := p } { pool := p' } where
  pool := hp
  size := same_refl hbase hgap _
  slot _ := .none
  memo _ _ := .none
  front hx := absurd (hbase ▸ hx) (Nat.not_lt_zero _)
  front' hx := absurd (hgap ▸ hbase ▸ hx) (Nat.not_lt_zero _)

/-- Without a shift, a slot holds the same in both states if its stage is the same. -/
theorem Match.slot_eq (hbase : L.base = 0) (hgap : L.gap = 0) (h : L.Match b b') {x : SlotId}
    (hstage : ∀ {s s'}, L.slot b.pool b'.pool x s s' → SameStage s s') :
    b.graph.slot? x = b'.graph.slot? x := by
  have hslot := h.slot (same_refl hbase hgap x)
  generalize b.graph.slot? x = s, b'.graph.slot? x = s' at hslot
  cases hslot with
  | none => rfl
  | some hs => rw [hs.eq hgap (hstage hs.rest)]

/-- What changes edges and capabilities alike at slots that correspond keeps the match. -/
theorem Match.modify {f f' : Slot → Slot} [Stage σ ω] (hL : L.Regular) (h : L.Match b b')
    (hu : L.Same u u') (hf : ∀ s, SameStage s (f s)) (hf' : ∀ s, SameStage s (f' s))
    (hs : ∀ {s s'}, L.Slots b.pool b'.pool u s s' → (f s).capabilities = (f' s').capabilities ∧
      Option.Rel L.Same (f s).next (f' s').next ∧ List.Forall₂ L.Same (f s).hops (f' s').hops) :
    L.Match { b with graph := b.graph.modify u f } { b' with graph := b'.graph.modify u' f' } where
  pool := h.pool
  size := by simpa using h.size
  slot {x x'} hx := by
    have hslot := h.slot hx
    simp only [Graph.slot?_modify]
    by_cases hxu : x = u
    · rw [if_pos hxu, if_pos ((hx.inj hu).1 hxu)]
      subst hxu
      generalize b.graph.slot? x = s, b'.graph.slot? x' = s' at hslot
      cases hslot with
      | none => exact .none
      | some hslot =>
        obtain ⟨hcaps, hnext, hhops⟩ := hs hslot
        exact .some ⟨hcaps, hnext, hhops, hL.congr (hf _) (hf' _) hslot.rest⟩
    · rw [if_neg hxu, if_neg (mt (hx.inj hu).2 hxu)]
      exact hslot
  memo := h.memo
  front hx := by
    simp only [Graph.slot?_modify, if_neg (Nat.ne_of_lt (Nat.lt_of_lt_of_le hx hu.1))]
    exact h.front hx
  front' hx := by
    simp only [Graph.slot?_modify, if_neg (Nat.ne_of_lt (Nat.lt_of_lt_of_le hx hu.behind))]
    exact h.front' hx

/-- Pools in which what is asked of slots still holds keep the match. -/
theorem Match.withPool (h : L.Match b b') {p p' : Pool σ ω} (hp : L.pool p p')
    (hold : ∀ {x s s'}, L.slot b.pool b'.pool x s s' → L.slot p p' x s s') :
    L.Match { b with pool := p } { b' with pool := p' } where
  pool := hp
  size := h.size
  slot {x x'} hx := by
    have hslot := h.slot hx
    generalize b.graph.slot? x = s, b'.graph.slot? x' = s' at hslot
    cases hslot with
    | none => exact .none
    | some hslot => exact .some ⟨hslot.capabilities, hslot.next, hslot.hops, hold hslot.rest⟩
  memo := h.memo
  front := h.front
  front' := h.front'

variable [Stage σ ω]

theorem Match.wire (hL : L.Regular) (h : L.Match b b') (hu : L.Same u u') (hv : L.Same v v')
    (k : EdgeKind) : L.Match (b.wire u k v) (b'.wire u' k v') := by
  cases k with
  | next =>
    exact h.modify hL hu (fun _ => ⟨rfl, rfl, rfl, rfl⟩) (fun _ => ⟨rfl, rfl, rfl, rfl⟩)
      fun hs => ⟨hs.capabilities, .some hv, hs.hops⟩
  | hop =>
    exact h.modify hL hu (fun _ => ⟨rfl, rfl, rfl, rfl⟩) (fun _ => ⟨rfl, rfl, rfl, rfl⟩)
      fun hs => ⟨hs.capabilities, hs.next, List.rel_append hs.hops (.cons hv .nil)⟩

theorem Match.enable (hL : L.Regular) (h : L.Match b b') (hu : L.Same u u') (caps : Capabilities) :
    L.Match (b.enable u caps) (b'.enable u' caps) :=
  h.modify hL hu (fun _ => ⟨rfl, rfl, rfl, rfl⟩) (fun _ => ⟨rfl, rfl, rfl, rfl⟩)
    fun hs => ⟨congrArg (·.union caps) hs.capabilities, hs.next, hs.hops⟩

omit [Stage σ ω] in
/-- New slots that match keep the match. -/
theorem Match.grow (h : L.Match b b') {p p' : Pool σ ω} (hp : L.pool p p')
    (hold : ∀ {x s s'}, L.slot b.pool b'.pool x s s' → L.slot p p' x s s') {s s' : Slot}
    (hs : L.Slots p p' b.graph.size s s') : L.Match (b.grow p s) (b'.grow p' s') where
  pool := hp
  size := by
    have hsize := h.size
    simp only [Build.grow, Graph.size_add]
    exact ⟨Nat.le_succ_of_le hsize.1, by rw [hsize.2, Nat.add_right_comm]⟩
  slot {x x'} hx := by
    simp only [Build.grow, Graph.slot?_add]
    by_cases hxn : x = b.graph.size
    · rw [if_pos hxn, if_pos ((hx.inj h.size).1 hxn)]
      exact .some (hxn ▸ hs)
    · rw [if_neg hxn, if_neg (mt (hx.inj h.size).2 hxn)]
      exact (h.withPool hp hold).slot hx
  memo := h.memo
  front hx := by
    simp only [Build.grow, Graph.slot?_add, if_neg (Nat.ne_of_lt (Nat.lt_of_lt_of_le hx h.size.1))]
    exact h.front hx
  front' hx := by
    simp only [Build.grow, Graph.slot?_add,
      if_neg (Nat.ne_of_lt (Nat.lt_of_lt_of_le hx h.size.behind))]
    exact h.front' hx

theorem Match.own (hL : L.Regular) (h : L.Match b b') (stage : σ) {role : Role}
    (hrole : role ≠ .declared) : L.Match (b.own stage role) (b'.own stage role) :=
  h.grow (hL.add h.pool) (hL.old h.pool) ⟨rfl, .none, .nil, hL.own _ hrole h.pool⟩

theorem Match.mark (hL : L.Regular) (h : L.Match b b') {k k' : TargetKey} (hk : L.key k k')
    (hu : L.Same u u') : L.Match (b.mark k u) (b'.mark k' u') where
  pool := h.pool
  size := h.size
  slot := h.slot
  memo {l l'} hl hshared := by
    simp only [Build.mark, List.lookup_cons]
    by_cases heq : l = k
    · subst heq
      obtain rfl := (hL.key hl hk).1 rfl
      simpa using Option.Rel.some hu
    · have hne : ¬ l' = k' := mt (hL.key hl hk).2 heq
      rw [beq_false_of_ne heq, beq_false_of_ne hne]
      exact h.memo hl hshared
  front := h.front
  front' := h.front'

end States

/-! ### Single steps -/

section Steps

variable [Stage σ ω] {u u' v v' : SlotId} {node node' : Descriptor}

theorem along_graph (hL : L.Regular) :
    L.Along (graph : Compile σ ω Graph) graph L.Graphs := fun _ _ hb => ⟨hb.graphs hL, hb⟩

theorem along_own (hL : L.Regular) {x : Compile σ ω SlotId} {stage : σ} {role : Role}
    (hx : ∀ b, x.run b = (.ok b.graph.size, b.own stage role)) (hrole : role ≠ .declared) :
    L.Along x x L.Same := by
  intro b b' hb
  unfold paired
  rw [hx b, hx b']
  exact ⟨hb.size, hb.own hL stage hrole⟩

theorem run_addMultiplexer (b : Build σ ω) :
    addMultiplexer.run b = (.ok b.graph.size, b.own Stage.multiplexer .multiplexer) := by
  have h := capabilities_add b.pool (Stage.multiplexer : σ)
  rw [Stage.capabilities_multiplexer] at h
  rw [own, ← h]
  rfl

theorem run_addJoin (b : Build σ ω) :
    addJoin.run b = (.ok b.graph.size, b.own Stage.passThrough .join) := by
  have h := capabilities_add b.pool (Stage.passThrough : σ)
  rw [Stage.capabilities_passThrough] at h
  rw [own, ← h]
  rfl

theorem run_addAttach (b : Build σ ω) :
    addAttach.run b = (.ok b.graph.size, b.own Stage.passThrough .attach) := by
  have h := capabilities_add b.pool (Stage.passThrough : σ)
  rw [Stage.capabilities_passThrough] at h
  rw [own, ← h]
  rfl

theorem along_addHop (hL : L.Regular) (hu : L.Same u u') (hv : L.Same v v') :
    L.Along (addHop u v : Compile σ ω Unit) (addHop u' v') fun _ _ => True :=
  fun _ _ hb => ⟨trivial, hb.wire hL hu hv .hop⟩

theorem along_insertCapabilities (hL : L.Regular) (hu : L.Same u u') (caps : Capabilities) :
    L.Along (modifyGraph fun g => g.insertCapabilities u caps : Compile σ ω Unit)
      (modifyGraph fun g => g.insertCapabilities u' caps) fun _ _ => True :=
  fun _ _ hb => ⟨trivial, hb.enable hL hu caps⟩

theorem along_remember (hL : L.Regular) {k k' : TargetKey} (hk : L.key k k') (hu : L.Same u u') :
    L.Along (remember k u : Compile σ ω Unit) (remember k' u') fun _ _ => True :=
  fun _ _ hb => ⟨trivial, hb.mark hL hk hu⟩

theorem along_link (hL : L.Regular) (hu : L.Same u u') (hv : L.Same v v')
    (hnode : L.exact → node = node') :
    L.Along (link u v node : Compile σ ω Unit) (link u' v' node') fun _ _ => True := by
  intro b b' hb
  have hnext := (hb.graphs hL).next hu
  have hfree : ∀ (b : Build σ ω) u v node, b.graph.next? u = none →
      (link u v node).run b = (.ok (), b.wire u .next v) := by
    intro b u v node hn
    unfold link
    rw [run_bind_ok (show (get : Compile σ ω (Build σ ω)).run b = (.ok b, b) from rfl), Graph.link, hn]
    rfl
  have htaken : ∀ (b : Build σ ω) u v node x, b.graph.next? u = some x →
      (link u v node).run b = (.error (.inconsistent node (.secondSuccessor u x v)), b) := by
    intro b u v node x hn
    unfold link
    rw [run_bind_ok (show (get : Compile σ ω (Build σ ω)).run b = (.ok b, b) from rfl), Graph.link, hn]
    rfl
  unfold paired
  generalize hx : b.graph.next? u = x, hx' : b'.graph.next? u' = x' at hnext
  cases hnext with
  | none =>
    rw [hfree _ _ _ _ hx, hfree _ _ _ _ hx']
    exact ⟨trivial, hb.wire hL hu hv .next⟩
  | some hsame =>
    rw [htaken _ _ _ _ _ hx, htaken _ _ _ _ _ hx']
    refine .inr ⟨fun he => ?_, hb⟩
    have hgap := hL.gap he
    rw [hnode he, hu.eq hgap, hv.eq hgap, hsame.eq hgap]

end Steps

end Likeness

end Compile

end Routing
