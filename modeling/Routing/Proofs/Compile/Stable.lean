import Routing.Proofs.Compile.Scheme
/-!
# Properties that compiling keeps

A property of the state that is kept by a new slot, a new edge, more capabilities and a remembered
target is kept by compiling a statement, whether it succeeds or fails.
-/

namespace Routing

variable {σ ω α β : Type}

namespace Compile

open Build

/-- A step keeps a property, whether it succeeds or fails. -/
def Keeps (P : Build σ ω → Prop) (x : Compile σ ω α) : Prop :=
  ∀ b, P b → wp x (fun _ b' => P b') (fun _ b' => P b') b

namespace Keeps

variable {P : Build σ ω → Prop}

theorem pure (a : α) : Keeps P (Pure.pure a : Compile σ ω α) := fun _ h => h

theorem throw (e : CompileError) : Keeps P (throw e : Compile σ ω α) := fun _ h => h

theorem bind {x : Compile σ ω α} {f : α → Compile σ ω β} (hx : Keeps P x)
    (hf : ∀ a, Keeps P (f a)) : Keeps P (x >>= f) := fun b h =>
  (wp_bind ..).2 (wp_mono (hx b h) (fun a b' h => hf a b' h) fun _ _ h => h)

theorem ite {c : Prop} [Decidable c] {x y : Compile σ ω α} (hx : Keeps P x) (hy : Keeps P y) :
    Keeps P (if c then x else y) := by
  split
  · exact hx
  · exact hy

theorem graph : Keeps P (graph : Compile σ ω Graph) := fun _ h => h

end Keeps

variable [Stage σ ω]

/-- A property that is kept by the steps that put stages one after another. -/
structure Linking (P : Build σ ω → Prop) : Prop where
  join : ∀ {b}, P b → P (b.own Stage.passThrough .join)
  next : ∀ {b u v}, b.graph.next? u = none → P b → P (b.wire u .next v)

/-- A property that is kept as well when a sequence or a junction is finished. -/
structure Linear (P : Build σ ω → Prop) : Prop extends Linking P where
  enable : ∀ {b u caps}, caps.isSource = false → P b → P (b.enable u caps)

/-- A property that is kept by the stages of the compiler and by edges. -/
structure Wired (P : Build σ ω → Prop) : Prop where
  own : ∀ {b stage role}, stage = Stage.multiplexer ∨ stage = Stage.passThrough →
    role ≠ .declared ∧ role ≠ .cloned → P b → P (b.own stage role)
  wire : ∀ {b u k v}, P b → P (b.wire u k v)

/-- A property that is kept by the steps that join parts together: by the stages of the compiler, by
edges and by capabilities. -/
structure Joining (P : Build σ ω → Prop) : Prop extends Wired P where
  enable : ∀ {b u caps}, caps.isSource = false → P b → P (b.enable u caps)

/-- A property of the trace and the state that the steps of compiling keep if the stages in
statements are among the first `n`. -/
structure Traced (n : Nat) (P : Trace σ ω → Build σ ω → Prop) : Prop where
  joining : ∀ l, Joining (P l)
  mark : ∀ {l b key id}, P l b → P l (b.mark key id)
  note : ∀ {l b m}, (∀ handle id b', m ≠ .placed handle id b') → P l b → P (l ++ [m]) b
  single : ∀ {handle} h here, handle < n → ∀ l b, P l b →
    wp (single h here (.stage handle))
      (fun _ b' => P (l ++ singleTrace h here (.stage handle) b) b')
      (fun _ b' => P (l ++ singleTrace h here (.stage handle) b) b') b

/-- A property that the steps of compiling keep if the stages in statements are among the first
`n`. -/
structure Stable (n : Nat) (P : Build σ ω → Prop) : Prop where
  own : ∀ {b stage role}, stage = Stage.multiplexer ∨ stage = Stage.passThrough → P b →
    P (b.own stage role)
  wire : ∀ {b u k v}, P b → P (b.wire u k v)
  enable : ∀ {b u caps}, caps.isSource = false → P b → P (b.enable u caps)
  mark : ∀ {b key id}, P b → P (b.mark key id)
  single : ∀ {handle} h here, handle < n → Keeps P (single h here (.stage handle))

variable {P : Build σ ω → Prop} {n : Nat} {objects : Objects}

/-! ### Chains and ends of junctions -/

namespace Linking

theorem link (hP : Linking P) (u v : SlotId) (node : Descriptor) : Keeps P (link u v node) :=
  fun _ h => wp_link_of (fun hn => hP.next hn h) fun _ => h

theorem addJoin (hP : Linking P) : Keeps P addJoin := fun _ h => wp_addJoin.2 (hP.join h)

theorem chain_add (hP : Linking P) (c : Chain) (node : Descriptor) (f : Fragment) :
    Keeps P (c.add node f) := by
  obtain ⟨_ | head, tail⟩ := f
  · cases tail with
    | none => exact .pure c
    | some tail =>
      refine .ite (.throw _) (.bind ?_ fun r => (hP.link tail r.1 node).bind fun _ => .pure r.2)
      unfold Chain.joinPoint
      split
      · exact .pure _
      · exact hP.addJoin.bind fun _ => .pure _
  · refine Keeps.graph.bind fun _ => ?_
    cases c.last with
    | some last => exact (hP.link last head node).bind fun _ => Keeps.graph.bind fun _ => .pure _
    | none => exact Keeps.graph.bind fun _ => .pure _

theorem branching_addTail (hP : Linking P) (j : Branching) (node : Descriptor)
    (tail : Option SlotId) : Keeps P (j.addTail node tail) := by
  cases tail with
  | none => exact .pure j
  | some tail =>
    refine .bind ?_ fun r => (hP.link tail r.1 node).bind fun _ => .pure r.2
    unfold Branching.joinPoint
    split
    · exact .pure _
    · exact hP.addJoin.bind fun _ => .pure _

end Linking

namespace Linear

theorem insertCapabilities (hP : Linear P) (id : SlotId) {caps : Capabilities}
    (hc : caps.isSource = false) :
    Keeps P (modifyGraph fun g => g.insertCapabilities id caps) := fun _ h =>
  (wp_insertCapabilities id caps).2 (hP.enable hc h)

theorem chain_finish (hP : Linear P) (c : Chain) (flags : Flags) (fc : Bool) :
    Keeps P (c.finish flags fc) := by
  unfold Chain.finish
  cases c.first with
  | some head => exact (hP.insertCapabilities head rfl).bind fun _ => .pure _
  | none => exact .pure _

theorem branching_finish (hP : Linear P) (j : Branching) (flags : Flags) (fc : Bool) :
    Keeps P (j.finish flags fc) := by
  unfold Branching.finish
  cases j.fork with
  | some fork => exact .ite ((hP.insertCapabilities fork rfl).bind fun _ => .pure _) (.pure _)
  | none => exact .pure _

end Linear

/-! ### Junctions and references -/

namespace Wired

theorem linking (hP : Wired P) : Linking P where
  join h := hP.own (.inr rfl) (by simp) h
  next _ h := hP.wire h

theorem addHop (hP : Wired P) (u v : SlotId) : Keeps P (addHop u v) := fun _ h =>
  (wp_addHop u v).2 (hP.wire h)

theorem addMultiplexer (hP : Wired P) : Keeps P addMultiplexer := fun _ h =>
  wp_addMultiplexer.2 (hP.own (.inl rfl) (by simp) h)

theorem addAttach (hP : Wired P) : Keeps P addAttach := fun _ h =>
  wp_addAttach.2 (hP.own (.inr rfl) (by simp) h)

theorem sourceFork (hP : Wired P) (tail : SlotId) (node : Descriptor) :
    Keeps P (sourceFork tail node) := by
  refine Keeps.graph.bind fun g => ?_
  cases g.next? tail with
  | none =>
    refine hP.addMultiplexer.bind fun fork => ?_
    exact (hP.linking.link tail fork node).bind fun _ => .pure fork
  | some next => exact .ite (.pure next) (.throw _)

/-- What a reference adds to the end of a source. -/
theorem sourceEnd (hP : Wired P) (tail : SlotId) (node : Descriptor) :
    Keeps P (do
      let fork ← Compile.sourceFork tail node
      let attach ← Compile.addAttach
      Compile.addHop fork attach
      return (⟨none, some attach⟩ : Fragment)) := by
  refine (hP.sourceFork tail node).bind fun fork => ?_
  exact hP.addAttach.bind fun attach => (hP.addHop fork attach).bind fun _ => .pure _

/-- What a reference adds to the head of a destination. -/
theorem destinationEnd (hP : Wired P) (head : SlotId) :
    Keeps P (do
      let fork ← Compile.addMultiplexer
      Compile.addHop fork head
      return (⟨some fork, none⟩ : Fragment)) :=
  hP.addMultiplexer.bind fun fork => (hP.addHop fork head).bind fun _ => .pure _

theorem branching_addHead (hP : Wired P) (j : Branching) (node : Descriptor)
    (head : Option SlotId) : Keeps P (j.addHead node head) := by
  cases head with
  | none => exact .ite (.throw _) (.pure _)
  | some head =>
    refine .ite (.throw _) (.bind ?_ fun r => ?_)
    · unfold Branching.forkPoint
      split
      · exact .pure _
      · exact hP.addMultiplexer.bind fun _ => .pure _
    · exact (hP.addHop r.1 head).bind fun _ => Keeps.graph.bind fun _ => .pure _

theorem branching_add (hP : Wired P) (j : Branching) (node : Descriptor) (f : Fragment) :
    Keeps P (j.add node f) :=
  (hP.branching_addHead j node f.head).bind fun j => hP.linking.branching_addTail j node f.tail

end Wired

theorem Joining.linear (hP : Joining P) : Linear P where
  toLinking := hP.linking
  enable := hP.enable

/-! ### All statements -/

namespace Traced

/-- The property of what comes before the trace and the state before carries over. -/
def Carries (P : Trace σ ω → Build σ ω → Prop) (b : Build σ ω) (l : Trace σ ω) (b' : Build σ ω) :
    Prop :=
  ∀ l₀, P l₀ b → P (l₀ ++ l) b'

/-- The property as a scheme. -/
def scheme (P : Trace σ ω → Build σ ω → Prop) : Scheme σ ω where
  ready _ := True
  done _ _ b l _ b' := Carries P b l b'
  failed b l _ b' := Carries P b l b'
  chained _ _ b l _ b' := Carries P b l b'
  branched _ _ b l _ b' := Carries P b l b'

variable {P : Trace σ ω → Build σ ω → Prop} {s t : Statement} {fc : Bool}
  {x : Compile σ ω Fragment} {trace : Build σ ω → Trace σ ω}

omit [Stage σ ω] in
theorem Carries.trans {b b' b'' : Build σ ω} {l l' : Trace σ ω} (h : Carries P b l b')
    (h' : Carries P b' l' b'') : Carries P b (l ++ l') b'' := by
  intro l₀ h₀
  rw [← List.append_assoc]
  exact h' _ (h l₀ h₀)

omit [Stage σ ω] in
/-- A step that adds nothing to the trace lets the property carry over. -/
theorem Carries.wp {y : Compile σ ω α} {b b' : Build σ ω} {l : Trace σ ω} (h : Carries P b l b')
    (hy : ∀ l, Keeps (P l) y) : Compile.wp y (fun _ => Carries P b l) (fun _ => Carries P b l) b' :=
  wp_forall fun l₀ => wp_forall fun h₀ => hy _ b' (h l₀ h₀)

omit [Stage σ ω] in
theorem meets_scheme : (scheme P).Meets s fc x trace ↔ ∀ l b, P l b →
    wp x (fun _ b' => P (l ++ trace b) b') (fun _ b' => P (l ++ trace b) b') b := by
  constructor
  · intro h l b hb
    exact wp_mono (h b trivial) (fun _ _ h => h l hb) fun _ _ h => h l hb
  · intro h b _
    exact wp_forall fun l => wp_forall fun hb => h l b hb

/-- What is compiled once may be remembered afterwards. -/
theorem wp_once (hP : Traced n P) {key : TargetKey} (hkey : key.Shared) (settled : Option SlotId)
    (failure : CompileError) (f : Fragment → Option SlotId)
    (hx : (scheme P).Meets s fc x trace)
    {l : Trace σ ω} {b : Build σ ω} (hb : P l b) :
    let l' := l ++ if key.Shared ∧ ((b.memos.lookup key).or settled).isSome then []
      else .opened key b :: trace b
    wp (once key settled failure (return f (← x))) (fun _ b' => P l' b') (fun _ b' => P l' b') b := by
  unfold once
  simp only [wp_bind, wp_remembered, hkey, true_and]
  cases hlook : (b.memos.lookup key).or settled with
  | some id => simpa using hb
  | none =>
    have hopened : P (l ++ [.opened key b]) b := hP.note (by simp) hb
    simp only [Option.isSome_none, Bool.false_eq_true, if_false, wp_bind, wp_pure]
    rw [List.append_cons]
    refine wp_mono (meets_scheme.1 hx _ b hopened) (fun r b' h => ?_) fun _ _ h => h
    cases f r with
    | some id => exact hP.mark h
    | none => exact h

theorem refer (hP : Traced n P) (h : Heading) (here : Option Location) (key : TargetKey)
    (settled : Option SlotId) (hx : (scheme P).Meets t fc x trace) :
    (scheme P).Meets s fc (referTo h here key settled x)
      (referTrace h here key settled x trace) := by
  refine meets_scheme.2 fun l b hb => ?_
  have hrefer : ∀ l', l' = l ++ (if key.Shared ∧ ((b.memos.lookup key).or settled).isSome then []
      else .opened key b :: trace b) →
      wp (referTo h here key settled x) (fun _ b' => P l' b') (fun _ b' => P l' b') b := by
    rintro l' rfl
    unfold referTo
    split
    · next hk =>
      rw [wp_bind]
      refine wp_mono (hP.wp_once (.inl hk) settled _ _ hx hb) (fun tail b' h' => ?_) fun _ _ h => h
      exact (hP.joining _).sourceEnd tail _ b' h'
    · next hk =>
      rw [wp_bind]
      refine wp_mono (hP.wp_once (.inr hk) settled _ _ hx hb) (fun head b' h' => ?_) fun _ _ h => h
      exact (hP.joining _).destinationEnd head b' h'
    · next hs hd =>
      have hkey : ¬ key.Shared := fun hkey => hkey.elim hs hd
      simp only [hkey, false_and, if_false]
      rw [List.append_cons]
      exact meets_scheme.1 hx _ b (hP.note (by simp) hb)
  unfold referTrace
  refine wp_onward_end (Q := fun l' _ b' => P (l ++ (_ ++ l')) b')
    (E := fun l' _ b' => P (l ++ (_ ++ l')) b') ?_
  simp only [← List.append_assoc, List.append_nil]
  exact wp_mono (hrefer _ rfl) (fun _ _ h => hP.note (by simp) h) fun _ _ h => h

theorem lawful (hP : Traced n P) (objects : Objects) :
    (scheme P).Lawful objects fun p => p.object.Below n where
  throw _ _ l₀ h := by rw [List.append_nil]; exact h
  single _ hs := meets_scheme.2 (hP.single _ _ hs)
  refer _ _ _ _ _ hx := hP.refer _ _ _ _ hx
  chain_start _ l₀ h := by rw [List.append_nil]; exact h
  chain_ready _ := trivial
  chain_failed h h' := h.trans h'
  chain_add node h h' := (h.trans h').wp fun l => (hP.joining l).linear.chain_add _ node _
  chain_finish _ h := h.wp fun l => (hP.joining l).linear.chain_finish _ _ _
  branch_start _ l₀ h := by rw [List.append_nil]; exact h
  branch_ready _ := trivial
  branch_failed h h' := h.trans h'
  branch_add node h h' := (h.trans h').wp fun l => (hP.joining l).branching_add _ node _
  branch_finish _ h := h.wp fun l => (hP.joining l).linear.branching_finish _ _ _

theorem node (hP : Traced n P) (hobjects : objects.Holds n) {s : Statement} (hs : s.Holds n)
    (fc : Bool) {l : Trace σ ω} {b : Build σ ω} (hb : P l b) :
    P (l ++ nodeTrace objects fc s b) ((Compile.node objects fc s).run b).2 :=
  wp_state (meets_scheme.1 ((hP.lawful objects).meets_node hobjects hs fc) l b hb)

theorem rule (hP : Traced n P) (hobjects : objects.Holds n) {s : Statement} (hs : s.Holds n)
    {l : Trace σ ω} {b : Build σ ω} (hb : P l b) :
    P (l ++ ruleTrace objects s b) ((Compile.rule objects s).run b).2 :=
  hP.node hobjects (hs.expandCatchAll objects) false hb

end Traced

namespace Stable

variable {jump : Option (Run σ ω)}

theorem joining (hP : Stable n P) : Joining P where
  own hs _ h := hP.own hs h
  wire h := hP.wire h
  enable hc h := hP.enable hc h

theorem traced (hP : Stable n P) : Traced n fun _ => P where
  joining _ := hP.joining
  mark h := hP.mark h
  note _ h := h
  single h here hlt _ := hP.single h here hlt

theorem statement (hP : Stable n P) (hobjects : objects.Holds n)
    (hjump : ∀ run ∈ jump, ∀ s : Statement, s.Holds n → ∀ around fc, Keeps P (run around fc s))
    (s : Statement) (hs : s.Holds n) (around : Option Location) (fc : Bool) :
    Keeps P (statement objects jump around fc s) := by
  obtain ⟨trace, hmeets⟩ := (hP.traced.lawful objects).exists_meets_statement hobjects
    (fun run hrun s hs around fc =>
      Traced.meets_scheme.2 fun _ => hjump run hrun s hs around fc) s hs around fc
  exact fun b hb => Traced.meets_scheme.1 hmeets [] b hb

theorem node (hP : Stable n P) (hobjects : objects.Holds n) {s : Statement} (hs : s.Holds n)
    (fc : Bool) : Keeps P (node objects fc s) := fun b hb =>
  Traced.meets_scheme.1 ((hP.traced.lawful objects).meets_node hobjects hs fc) [] b hb

theorem rule (hP : Stable n P) (hobjects : objects.Holds n) {s : Statement} (hs : s.Holds n) :
    Keeps P (rule objects s) :=
  hP.node hobjects (hs.expandCatchAll objects) false

end Stable

end Compile

end Routing
