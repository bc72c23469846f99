import Routing.Proofs.Compile.Memory
/-!
# Where references are joined

A reference to a source ends in an attach point, and a reference to a destination starts with a fork.
Both are new slots. What a new one leaves of the graph is said here, for the first reference to a
target and for later ones.
-/

namespace Routing

variable {σ ω : Type}

/-- The end of a reference to the target, on one side. -/
def Moment.point? (side : Fragment → Option SlotId) (key : TargetKey) : Moment σ ω → Option SlotId
  | joined key' f _ _ => if key' = key then side f else none
  | _ => none

/-- The ends of references to the target, on one side. -/
def Trace.points (l : Trace σ ω) (side : Fragment → Option SlotId) (key : TargetKey) :
    List SlotId :=
  l.filterMap (Moment.point? side key)

namespace Build

/-- Different targets of the kind are remembered at different stages. -/
def Distinct (b : Build σ ω) (kind : Kind) : Prop :=
  ∀ ⦃key key' : TargetKey⦄ ⦃t⦄, key.kind = kind → key'.kind = kind →
    b.memos.lookup key = some t → b.memos.lookup key' = some t → key = key'

variable {b b' : Build σ ω} {l l' : Trace σ ω} {key key' : TargetKey} {kind : Kind}
  {side : Fragment → Option SlotId} {f : Fragment} {t m x d : SlotId}

/-! ### Ends of references -/

theorem points_append : Trace.points (l ++ l') side key = l.points side key ++ l'.points side key :=
  List.filterMap_append

theorem points_eq_nil (h : ∀ {f c c'}, Moment.joined key f c c' ∉ l) : l.points side key = [] := by
  refine List.filterMap_eq_nil_iff.2 fun m hm => ?_
  cases m with
  | joined key' f c c' =>
    refine if_neg ?_
    rintro rfl
    exact h hm
  | placed | opened => rfl

theorem points_joined_self :
    Trace.points [.joined key f b b'] side key = (side f).toList := by
  cases h : side f <;> simp [Trace.points, Moment.point?, h]

theorem points_joined_ne (hne : key ≠ key') :
    Trace.points [.joined key f b b'] side key' = [] := by
  simp [Trace.points, Moment.point?, hne]

/-- Each reference that is joined has an end. -/
theorem forall₂_points {R : Moment σ ω → SlotId → Prop}
    (hl : ∀ {f c c'}, .joined key f c c' ∈ l → ∃ a, side f = some a ∧ R (.joined key f c c') a) :
    List.Forall₂ R (l.joints key) (l.points side key) := by
  induction l with
  | nil => exact .nil
  | cons m l ih =>
    have hrest := ih fun h => hl (List.mem_cons_of_mem _ h)
    cases m with
    | placed | opened => exact hrest
    | joined key' f c c' =>
      by_cases hk : key' = key
      · subst hk
        obtain ⟨a, hf, hR⟩ := hl List.mem_cons_self
        simp only [Trace.joints, Trace.points, Moment.joins?, Moment.point?, List.filter_cons,
          List.filterMap_cons, if_true, decide_true, hf]
        exact .cons hR hrest
      · simpa [Trace.joints, Trace.points, Moment.joins?, Moment.point?, hk] using hrest

/-- A target is remembered at a stage where no other is. -/
theorem Distinct.cons (hd : b.Distinct kind) (hm : b'.memos = (key, t) :: b.memos)
    (hother : ∀ {key' t'}, key'.kind = kind → b.memos.lookup key' = some t' → t' ≠ t) :
    b'.Distinct kind := by
  intro key₁ key₂ t' hk₁ hk₂ h₁ h₂
  rw [lookup_of_cons hm] at h₁ h₂
  split at h₁ <;> split at h₂
  · next e₁ e₂ => exact e₁.trans e₂.symm
  · cases h₁
    exact absurd rfl (hother hk₂ h₂)
  · cases h₂
    exact absurd rfl (hother hk₁ h₁)
  · exact hd hk₁ hk₂ h₁ h₂

theorem Distinct.congr (hd : b.Distinct kind)
    (hm : ∀ {key}, key.kind = kind → b'.memos.lookup key = b.memos.lookup key) :
    b'.Distinct kind := by
  intro key key' t hk hk' ht ht'
  rw [hm hk] at ht
  rw [hm hk'] at ht'
  exact hd hk hk' ht ht'

/-! ### The graph with one more end -/

variable [Stage σ ω]

theorem next?_tap : (b.tap m).graph.next? x = b.graph.next? x := by
  rw [tap, next?_wire_hop, next?_own]

theorem hops_tap_self (hm : m ≤ b.graph.size) :
    (b.tap m).graph.hops m = b.graph.hops m ++ [b.graph.size] := by
  have hlt : m < (b.own (Stage.passThrough : σ) .attach).graph.size := by
    rw [size_own]; exact Nat.lt_succ_of_le hm
  rw [tap, Build.wire, Graph.hops_wire_hop hlt, if_pos rfl, hops_own]

theorem hops_tap_ne (hne : x ≠ m) : (b.tap m).graph.hops x = b.graph.hops x := by
  rw [tap, Build.wire, Graph.hops_wire_ne hne, hops_own]

theorem role?_tap {r : Role} (hr : b.graph.role? x = some r) :
    (b.tap m).graph.role? x = some r := by
  rw [tap, role?_wire, role?_own_lt (Graph.role?_lt hr), hr]

theorem role?_tap_size : (b.tap m).graph.role? b.graph.size = some .attach := by
  rw [tap, role?_wire, role?_own]

/-- There is one more attach point after a fork: one slot and one hop. -/
structure Tapped (b : Build σ ω) (fork : SlotId) (b' : Build σ ω) : Prop where
  size : b'.graph.size = b.graph.size + 1
  role : b'.graph.role? b.graph.size = some .attach
  next : ∀ x, b'.graph.next? x = b.graph.next? x
  hops : ∀ x, b'.graph.hops x =
    if x = fork then b.graph.hops fork ++ [b.graph.size] else b.graph.hops x
  memos : b'.memos = b.memos

theorem tapped_tap (hm : m ≤ b.graph.size) : b.Tapped m (b.tap m) where
  size := by rw [tap, size_wire, size_own]
  role := role?_tap_size
  next _ := next?_tap
  hops x := by
    split
    · next h => rw [h, hops_tap_self hm]
    · next h => exact hops_tap_ne h
  memos := rfl

theorem next?_forkAfter_self (ht : t < b.graph.size) :
    (b.forkAfter key t).graph.next? t = some b.graph.size := by
  have hlt : t < ((b.mark key t).own (Stage.multiplexer : σ) .multiplexer).graph.size := by
    rw [size_own]; exact Nat.lt_succ_of_lt ht
  rw [forkAfter, Build.wire, Graph.next?_wire_next hlt, if_pos rfl]

theorem next?_forkAfter_ne (hne : x ≠ t) :
    (b.forkAfter key t).graph.next? x = b.graph.next? x := by
  rw [forkAfter, Build.wire, Graph.next?_wire_ne hne]
  exact next?_own

theorem hops_forkAfter : (b.forkAfter key t).graph.hops x = b.graph.hops x := by
  rw [forkAfter, Build.wire, Graph.hops_wire_next]
  exact hops_own

theorem role?_forkAfter {r : Role} (hr : b.graph.role? x = some r) :
    (b.forkAfter key t).graph.role? x = some r := by
  rw [forkAfter, role?_wire]
  exact (role?_own_lt (b := b.mark key t) (Graph.role?_lt hr)).trans hr

theorem size_forkTo : (b.forkTo d).graph.size = b.graph.size + 1 := by
  rw [forkTo, size_wire, size_own]

theorem next?_forkTo : (b.forkTo d).graph.next? x = b.graph.next? x := by
  rw [forkTo, next?_wire_hop, next?_own]

theorem hops_forkTo_self : (b.forkTo d).graph.hops b.graph.size = [d] := by
  have hlt : b.graph.size < (b.own (Stage.multiplexer : σ) .multiplexer).graph.size := by
    rw [size_own]; exact Nat.lt_succ_self _
  rw [forkTo, Build.wire, Graph.hops_wire_hop hlt, if_pos rfl, hops_own, hops_size]
  rfl

theorem hops_forkTo (hne : x ≠ b.graph.size) : (b.forkTo d).graph.hops x = b.graph.hops x := by
  rw [forkTo, Build.wire, Graph.hops_wire_ne hne, hops_own]

theorem role?_forkTo {r : Role} (hr : b.graph.role? x = some r) :
    (b.forkTo d).graph.role? x = some r := by
  rw [forkTo, role?_wire, role?_own_lt (Graph.role?_lt hr), hr]

end Build

theorem Trace.Avoids.points {l : Trace σ ω} {key : TargetKey} (h : l.Avoids key)
    (side : Fragment → Option SlotId) : l.points side key = [] :=
  Build.points_eq_nil fun hm => h _ hm rfl

end Routing
