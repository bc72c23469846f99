import Routing.Proofs.Compile.Scope
import Routing.Proofs.Lifecycle.Calls
/-!
# Starting and stopping deployments

Starting a deployment starts the stages that are not running, in the order of their slots, up to the
first that fails. Stopping it stops all stages that are running, in the same order, and collects the
failures. Whatever is done to a deployment, `Tracked` holds afterwards.
-/

namespace Routing

variable {σ ω : Type}

/-- Calls that start stages one after another, up to the first that fails. -/
inductive Starting : List SlotId → Option SlotId → List SlotCall → Prop
  | done : Starting [] none []
  | failed (x : SlotId) (xs : List SlotId) : Starting (x :: xs) (some x) [⟨x, .init, false⟩]
  | started {x : SlotId} {xs : List SlotId} {failed : Option SlotId} {calls : List SlotCall}
    (h : Starting xs failed calls) : Starting (x :: xs) failed (⟨x, .init, true⟩ :: calls)

/-- Calls that stop stages one after another, those that fail as well. -/
inductive Stopping : List SlotId → List SlotId → List SlotCall → Prop
  | done : Stopping [] [] []
  | failed {x : SlotId} {xs failed : List SlotId} {calls : List SlotCall}
    (h : Stopping xs failed calls) : Stopping (x :: xs) (x :: failed) (⟨x, .deinit, false⟩ :: calls)
  | stopped {x : SlotId} {xs failed : List SlotId} {calls : List SlotCall}
    (h : Stopping xs failed calls) : Stopping (x :: xs) failed (⟨x, .deinit, true⟩ :: calls)

namespace Deployment

/-- Those of the slots whose stages are not running. -/
def idle (d : Deployment σ ω) (ids : List SlotId) : List SlotId :=
  ids.filter fun x => (d.graph.slot? x).any fun s => !s.initialized

/-- Those of the slots whose stages are running. -/
def running (d : Deployment σ ω) (ids : List SlotId) : List SlotId :=
  ids.filter fun x => (d.graph.slot? x).any (·.initialized)

theorem idle_cons (d : Deployment σ ω) (x : SlotId) (ids : List SlotId) :
    d.idle (x :: ids) =
      if (d.graph.slot? x).any fun s => !s.initialized then x :: d.idle ids else d.idle ids :=
  List.filter_cons

theorem running_cons (d : Deployment σ ω) (x : SlotId) (ids : List SlotId) :
    d.running (x :: ids) =
      if (d.graph.slot? x).any (·.initialized) then x :: d.running ids else d.running ids :=
  List.filter_cons

variable {d d₁ d' : Deployment (Recorded σ) (Clocked ω)} {x : SlotId} {s : Slot}
  {request : Request} {ok : Bool} {ids : List SlotId}

theorem Called.slot_ne (h : Called d d' x s request ok) {y : SlotId} (hy : y ≠ x) :
    d'.graph.slot? y = d.graph.slot? y := by
  rw [h.slot, if_neg hy]

theorem Called.idle (h : Called d d' x s request ok) (hx : x ∉ ids) : d'.idle ids = d.idle ids := by
  refine List.filter_congr fun y hy => ?_
  rw [h.slot_ne fun heq => hx (heq ▸ hy)]

theorem Called.running (h : Called d d' x s request ok) (hx : x ∉ ids) :
    d'.running ids = d.running ids := by
  refine List.filter_congr fun y hy => ?_
  rw [h.slot_ne fun heq => hx (heq ▸ hy)]

/-- What some of the stages went through between two moments. -/
structure Passed (d d' : Deployment (Recorded σ) (Clocked ω)) (calls : List SlotCall) : Prop where
  traced : Traced d d' calls
  tracked : d'.Tracked
  handles : ∀ y, d'.graph.handle? y = d.graph.handle? y

theorem Passed.refl (hd : d.Tracked) : Passed d d [] := ⟨.refl d, hd, fun _ => rfl⟩

theorem Called.passed (h : Called d d₁ x s request ok) {calls : List SlotCall} (hd : d.Tracked)
    (hs : d.graph.slot? x = some s) (h' : Passed d₁ d' calls) :
    Passed d d' (⟨x, request, ok⟩ :: calls) :=
  ⟨(h.traced hd hs).trans h'.traced h'.handles, h'.tracked,
    fun y => (h'.handles y).trans (h.handle? hs y)⟩

variable [Stage σ ω]

theorem passed_startSlots (ids : List SlotId) (hids : ids.Nodup) (hd : d.Tracked) :
    ∃ calls, Passed d (d.startSlots ids).2 calls ∧
      Starting (d.idle ids) ((d.startSlots ids).1.map (·.slot)) calls := by
  induction ids generalizing d with
  | nil => exact ⟨[], .refl hd, .done⟩
  | cons x ids ih =>
    obtain ⟨hx, hids⟩ := List.nodup_cons.1 hids
    rw [startSlots, idle_cons]
    cases hs : d.graph.slot? x with
    | none => exact ih hids hd
    | some s =>
      cases hi : s.initialized with
      | true => simpa [hi] using ih hids hd
      | false =>
        obtain ⟨hcalled, hslot⟩ := called_startSlot hd hs hi
        have htracked := hcalled.tracked hd hs (by simp [hi])
        have hidle := hcalled.idle hx
        simp only [Option.any_some, hi, Bool.not_false, if_true, Bool.false_eq_true, if_false]
        rcases hr : d.startSlot x s with ⟨_ | f, d₁⟩ <;> rw [hr] at hcalled hslot htracked hidle
        · obtain ⟨calls, hp, hstart⟩ := ih hids htracked
          refine ⟨_, hcalled.passed hd hs hp, .started ?_⟩
          rw [← hidle]
          exact hstart
        · obtain rfl := hslot f rfl
          exact ⟨_, hcalled.passed hd hs (.refl htracked), .failed _ _⟩

theorem passed_stopSlots (ids : List SlotId) (hids : ids.Nodup) (hd : d.Tracked) :
    ∃ calls, Passed d (d.stopSlots ids).2 calls ∧
      Stopping (d.running ids) ((d.stopSlots ids).1.map (·.slot)) calls := by
  induction ids generalizing d with
  | nil => exact ⟨[], .refl hd, .done⟩
  | cons x ids ih =>
    obtain ⟨hx, hids⟩ := List.nodup_cons.1 hids
    rw [stopSlots, running_cons]
    cases hs : d.graph.slot? x with
    | none => exact ih hids hd
    | some s =>
      cases hi : s.initialized with
      | false => simpa [hi] using ih hids hd
      | true =>
        obtain ⟨hcalled, hslot⟩ := called_stopSlot hd hs
        have htracked := hcalled.tracked hd hs (by simp [hi])
        obtain ⟨calls, hp, hstop⟩ := ih hids htracked
        rw [hcalled.running hx] at hstop
        simp only [Option.any_some, hi, if_true]
        refine ⟨_, hcalled.passed hd hs hp, ?_⟩
        rcases hr : d.stopSlot x s with ⟨_ | f, d₁⟩ <;> rw [hr] at hslot hstop
        · exact .stopped hstop
        · obtain rfl := hslot f rfl
          exact .failed hstop

theorem graph_stopSlot (d : Deployment σ ω) (x : SlotId) (s : Slot) :
    (d.stopSlot x s).2.graph = d.graph.modify x fun s => { s with initialized := false } := by
  unfold stopSlot
  rcases d.pool.deinit s.handle with ⟨_ | _, _, _⟩ <;> rfl

theorem graph_startSlot (d : Deployment σ ω) (x : SlotId) (s : Slot)
    (h : (d.startSlot x s).1 = none) :
    (d.startSlot x s).2.graph = d.graph.modify x fun s => { s with initialized := true } := by
  unfold startSlot at h ⊢
  generalize d.pool.init d.settings s.handle = r at h ⊢
  rcases r with ⟨_ | _, _, _⟩
  · cases h
  · rfl

theorem running_stopSlots (d : Deployment σ ω) (ids : List SlotId) (y : SlotId) :
    ((d.stopSlots ids).2.graph.slot? y).any (·.initialized) =
      ((d.graph.slot? y).any (·.initialized) && decide (y ∉ ids)) := by
  induction ids generalizing d with
  | nil => simp [stopSlots]
  | cons x ids ih =>
    rw [stopSlots]
    cases hs : d.graph.slot? x with
    | none =>
      rw [ih]
      by_cases hy : y = x
      · simp [hy, hs]
      · simp [hy]
    | some s =>
      cases hi : s.initialized with
      | false =>
        simp only [hi, Bool.false_eq_true, if_false]
        rw [ih]
        by_cases hy : y = x
        · simp [hy, hs, hi]
        · simp [hy]
      | true =>
        simp only [hi, if_true]
        rw [ih, graph_stopSlot, slot?_modify_eq hs]
        by_cases hy : y = x
        · simp [hy]
        · simp [hy]

theorem idle_startSlots (d : Deployment σ ω) (ids : List SlotId) (y : SlotId)
    (h : (d.startSlots ids).1 = none) :
    ((d.startSlots ids).2.graph.slot? y).any (fun s => !s.initialized) =
      ((d.graph.slot? y).any (fun s => !s.initialized) && decide (y ∉ ids)) := by
  induction ids generalizing d with
  | nil => simp [startSlots]
  | cons x ids ih =>
    rw [startSlots] at h ⊢
    cases hs : d.graph.slot? x with
    | none =>
      rw [hs] at h
      rw [ih d h]
      by_cases hy : y = x
      · simp [hy, hs]
      · simp [hy]
    | some s =>
      rw [hs] at h
      cases hi : s.initialized with
      | true =>
        simp only [hi, if_true] at h ⊢
        rw [ih d h]
        by_cases hy : y = x
        · simp [hy, hs, hi]
        · simp [hy]
      | false =>
        simp only [hi, Bool.false_eq_true, if_false] at h ⊢
        have hgraph := graph_startSlot d x s
        rcases hr : d.startSlot x s with ⟨_ | f, d₁⟩ <;> rw [hr] at h hgraph
        · have hd₁ : d₁.graph = _ := hgraph rfl
          rw [ih d₁ h, hd₁, slot?_modify_eq hs]
          by_cases hy : y = x
          · simp [hy]
          · simp [hy]
        · cases h

theorem status_startSlot (d : Deployment σ ω) (x : SlotId) (s : Slot) :
    (d.startSlot x s).2.status = d.status := by
  unfold startSlot
  rcases d.pool.init d.settings s.handle with ⟨_ | _, _, _⟩ <;> rfl

theorem status_stopSlot (d : Deployment σ ω) (x : SlotId) (s : Slot) :
    (d.stopSlot x s).2.status = d.status := by
  unfold stopSlot
  rcases d.pool.deinit s.handle with ⟨_ | _, _, _⟩ <;> rfl

/-- What starting one stage does not change does not change when many are started. -/
theorem startSlots_keep {α : Type} (view : Deployment σ ω → α)
    (h : ∀ d x s, view (d.startSlot x s).2 = view d) (d : Deployment σ ω) (ids : List SlotId) :
    view (d.startSlots ids).2 = view d := by
  induction ids generalizing d with
  | nil => rfl
  | cons x ids ih =>
    rw [startSlots]
    cases d.graph.slot? x with
    | none => exact ih d
    | some s =>
      simp only
      split
      · exact ih d
      · have hs := h d x s
        rcases hr : d.startSlot x s with ⟨_ | f, d₁⟩ <;> rw [hr] at hs
        · exact (ih d₁).trans hs
        · exact hs

/-- What stopping one stage does not change does not change when many are stopped. -/
theorem stopSlots_keep {α : Type} (view : Deployment σ ω → α)
    (h : ∀ d x s, view (d.stopSlot x s).2 = view d) (d : Deployment σ ω) (ids : List SlotId) :
    view (d.stopSlots ids).2 = view d := by
  induction ids generalizing d with
  | nil => rfl
  | cons x ids ih =>
    rw [stopSlots]
    cases d.graph.slot? x with
    | none => exact ih d
    | some s =>
      simp only
      split
      · exact (ih _).trans (h d x s)
      · exact ih d

theorem status_startSlots (d : Deployment σ ω) (ids : List SlotId) :
    (d.startSlots ids).2.status = d.status :=
  startSlots_keep status status_startSlot d ids

theorem status_stopSlots (d : Deployment σ ω) (ids : List SlotId) :
    (d.stopSlots ids).2.status = d.status :=
  stopSlots_keep status status_stopSlot d ids

theorem catalog_startSlots (d : Deployment σ ω) (ids : List SlotId) :
    (d.startSlots ids).2.catalog = d.catalog := by
  refine startSlots_keep catalog (fun d x s => ?_) d ids
  unfold startSlot
  rcases d.pool.init d.settings s.handle with ⟨_ | _, _, _⟩ <;> rfl

/-! ### Compiling -/

/-- Nothing was compiled or started yet, and all statements hold some of the `n` stages. -/
structure Ready (n : Nat) (d : Deployment (Recorded σ) (Clocked ω)) : Prop where
  empty : d.graph.size = 0
  size : d.pool.instances.size = n
  unused : d.pool.Unused
  objects : d.catalog.objects.Holds n
  rules : ∀ s ∈ d.catalog.rules, s.Holds n

theorem compileRules_nil (objects : Objects) (i : Nat) (b : Build σ ω) :
    compileRules objects i [] b = ((none, []), b) := rfl

/-- Between rules the compiler is in no statement, so that each is compiled as by a new one. -/
theorem compileRules_cons (objects : Objects) (i : Nat) (rule : Statement) (rest : List Statement)
    (b : Build σ ω) : compileRules objects i (rule :: rest) b =
      match (Compile.rule objects rule).run b with
      | (.error e, b) => ((some (i, e), rule.expandCatchAll objects :: rest), b)
      | (.ok _, b) =>
        let ((result, rest), b) := compileRules objects (i + 1) rest b
        ((result, rule.expandCatchAll objects :: rest), b) := by
  have hrun : (Compiling.rule objects rule).run { build := b } =
      (Compiling.lift (Compile.rule objects rule)).run { build := b } :=
    Compiler.run_call rfl (.rule rule)
  rw [compileRules, compileEach, hrun, Compiling.run_lift]
  rcases (Compile.rule objects rule).run b with ⟨e | f, b⟩
  · rfl
  · rfl

/-- What every rule keeps holds after all rules. -/
theorem compileRules_induction {P : Build σ ω → Prop} {objects : Objects} {rules : List Statement}
    {b : Build σ ω} (h : P b)
    (hstep : ∀ rule ∈ rules, ∀ b, P b → P ((Compile.rule objects rule).run b).2) (i : Nat) :
    P (compileRules objects i rules b).2 := by
  induction rules generalizing b i with
  | nil => exact h
  | cons rule rules ih =>
    have hb := hstep rule (by simp) b h
    rw [compileRules_cons]
    rcases hr : (Compile.rule objects rule).run b with ⟨_ | _, b'⟩ <;> rw [hr] at hb
    · exact hb
    · exact ih hb (fun rule hrule => hstep rule (by simp [hrule])) (i + 1)

theorem build_compileNow (d : Deployment σ ω) :
    d.compileNow.2.build = (compileRules d.catalog.objects 0 d.catalog.rules d.build).2 := by
  unfold compileNow
  rcases compileRules d.catalog.objects 0 d.catalog.rules d.build with ⟨⟨_ | ⟨_, _⟩, _⟩, _⟩ <;> rfl

theorem result_compileNow (d : Deployment σ ω) :
    d.compileNow.1 = match (compileRules d.catalog.objects 0 d.catalog.rules d.build).1.1 with
      | none => .ok ()
      | some (_, e) => .error e := by
  unfold compileNow
  rcases compileRules d.catalog.objects 0 d.catalog.rules d.build with ⟨⟨_ | ⟨_, _⟩, _⟩, _⟩ <;> rfl

theorem rules_compileNow (d : Deployment σ ω) :
    d.compileNow.2.catalog.rules =
      (compileRules d.catalog.objects 0 d.catalog.rules d.build).1.2 := by
  unfold compileNow
  rcases compileRules d.catalog.objects 0 d.catalog.rules d.build with ⟨⟨_ | ⟨_, _⟩, _⟩, _⟩ <;> rfl

theorem compile_eq {d : Deployment σ ω} (hd : d.status = .uncompiled) : d.compile = d.compileNow := by
  rw [compile, hd]

theorem status_compileNow (d : Deployment σ ω) :
    d.compileNow.2.status = .compiled ∨ ∃ e, d.compileNow.2.status = .failed e := by
  unfold compileNow
  rcases compileRules d.catalog.objects 0 d.catalog.rules d.build with ⟨⟨_ | ⟨_, e⟩, _⟩, _⟩
  · exact .inl rfl
  · exact .inr ⟨e, rfl⟩

theorem status_compile (d : Deployment σ ω) : d.compile.2.status ≠ .uncompiled := by
  unfold compile
  cases hs : d.status with
  | uncompiled =>
    rcases status_compileNow d with hc | ⟨e, hc⟩ <;> simp [hc]
  | _ => simp [hs]

theorem Ready.compileNow {n : Nat} (hd : d.Ready n) :
    Build.Placed n d.compileNow.2.build ∧ d.compileNow.2.pool.Unused ∧
      d.compileNow.2.clock = d.clock := by
  have hplaced : Compile.Stable n fun b : Build (Recorded σ) (Clocked ω) => Build.Placed n b :=
    Build.stable_placed n
  have hunused : Compile.Stable n fun b : Build (Recorded σ) (Clocked ω) =>
      b.pool.Unused ∧ b.pool.clock = d.clock := Build.stable_unused n d.clock
  change _ ∧ d.compileNow.2.build.pool.Unused ∧ d.compileNow.2.build.pool.clock = _
  rw [build_compileNow]
  refine compileRules_induction (P := fun b : Build (Recorded σ) (Clocked ω) =>
    Build.Placed n b ∧ b.pool.Unused ∧ b.pool.clock = d.clock)
    ⟨Build.placed_of_empty hd.empty (Nat.le_of_eq hd.size.symm), hd.unused, rfl⟩
    (fun rule hrule b hb => ?_) 0
  have hholds := hd.rules rule hrule
  have hwp := Compile.wp_and (hplaced.rule hd.objects hholds b hb.1)
    (hunused.rule hd.objects hholds b hb.2)
  exact Compile.wp_state hwp

/-- Stages in their places that were not used are tracked. -/
theorem tracked_of_placed {n : Nat} (hp : Build.Placed n d.build) (hd : d.pool.Unused) :
    d.Tracked where
  handle_lt hx := by
    obtain ⟨s, hs, rfl⟩ := Option.map_eq_some_iff.1 hx
    exact hp.handle_lt hs
  distinct hx hy := by
    obtain ⟨s, hs, rfl⟩ := Option.map_eq_some_iff.1 hx
    obtain ⟨t, ht, heq⟩ := Option.map_eq_some_iff.1 hy
    exact hp.distinct hs ht heq.symm
  alternates h := by
    rw [history, hd]
    exact alternates_nil
  pending {x s} hs := by
    have hidle : s.initialized = false := hp.idle hs
    rw [hidle, history, hd]
    simp [not_pending_nil]
  elsewhere _ := hd _

end Deployment

end Routing
