import Routing.Proofs.Lifecycle.Discipline
/-!
# States of a deployment

What the status of a deployment says about its slots, after any actions. Nothing is in the graph
before compiling, nothing but marks changes in it afterwards, and the stages that run are always
those of the first slots. A failed deployment stays as it is.
-/

namespace Routing

variable {σ ω : Type}

/-- The slot without its mark. -/
def Slot.design (s : Slot) : Slot :=
  { s with initialized := false }

/-- The graph without the marks of its slots. -/
def Graph.design (g : Graph) : Graph :=
  ⟨g.slots.map Slot.design⟩

theorem Graph.design_modify (g : Graph) (x : SlotId) {f : Slot → Slot}
    (hf : ∀ s, (f s).design = s.design) : (g.modify x f).design = g.design := by
  have hslots : (g.slots.modify x f).map Slot.design = g.slots.map Slot.design := by
    refine Array.ext_getElem? fun y => ?_
    rw [Array.getElem?_map, Array.getElem?_map, Array.getElem?_modify]
    split
    · cases g.slots[y]? with
      | none => rfl
      | some s => exact congrArg some (hf s)
    · rfl
  rw [design, design, modify, hslots]

namespace Deployment

/-- The stages that run are those of the first `k` slots. -/
def RunsUpTo (d : Deployment σ ω) (k : Nat) : Prop :=
  ∀ x s, d.graph.slot? x = some s → (s.initialized = true ↔ x < k)

/-- What the status says about the stages that run. -/
structure Coherent (d : Deployment σ ω) : Prop where
  upTo : ∃ k, d.RunsUpTo k
  failed : ∀ {e}, d.status = .failed e → d.RunsUpTo 0
  started : d.status = .started → d.RunsUpTo d.graph.size

variable {d d' : Deployment σ ω} {k : Nat} {x : SlotId} {s : Slot}

theorem RunsUpTo.congr (h : d.RunsUpTo k) (hg : d'.graph = d.graph) : d'.RunsUpTo k := by
  intro x s hs
  rw [hg] at hs
  exact h x s hs

theorem runsUpTo_of_running (h : d.running d.slots = []) : d.RunsUpTo 0 := by
  intro x s hs
  have hx := List.filter_eq_nil_iff.1 h x (List.mem_range.2 (Graph.lt_of_slot hs))
  simpa [hs] using hx

theorem runsUpTo_of_idle (h : d.idle d.slots = []) : d.RunsUpTo d.graph.size := by
  intro x s hs
  have hlt := Graph.lt_of_slot hs
  have hx := List.filter_eq_nil_iff.1 h x (List.mem_range.2 hlt)
  simpa [hs, hlt] using hx

/-! ### Starting -/

variable [Stage σ ω]

theorem graph_startSlot_failed {f : StageFailure} (h : (d.startSlot x s).1 = some f) :
    (d.startSlot x s).2.graph = d.graph := by
  unfold startSlot at h ⊢
  generalize d.pool.init d.settings s.handle = r at h ⊢
  rcases r with ⟨_ | _, _, _⟩
  · rfl
  · cases h

/-- The stage after those that run starts. -/
theorem RunsUpTo.startSlot (hd : d.RunsUpTo k) (hs : d.graph.slot? k = some s) :
    ∃ k', k ≤ k' ∧ (d.startSlot k s).2.RunsUpTo k' ∧ ((d.startSlot k s).1 = none → k < k') := by
  cases hr : (d.startSlot k s).1 with
  | some f => exact ⟨k, Nat.le_refl k, hd.congr (graph_startSlot_failed hr), fun h => by cases h⟩
  | none =>
    refine ⟨k + 1, Nat.le_succ k, fun x t ht => ?_, fun _ => Nat.lt_succ_self k⟩
    rw [graph_startSlot d k s hr, slot?_modify_eq hs] at ht
    split at ht
    · next hx =>
      cases ht
      simp [hx]
    · next hx =>
      rw [hd x t ht, Nat.lt_succ_iff_lt_or_eq]
      exact ⟨.inl, fun h => h.resolve_right hx⟩

/-- Stages are started in the order of their slots, so that those that run stay the first ones. -/
theorem RunsUpTo.startSlots (n i : Nat) (hd : d.RunsUpTo k) (hi : i ≤ k)
    (hn : d.graph.size = i + n) : ∃ k', (d.startSlots (List.range' i n)).2.RunsUpTo k' := by
  induction n generalizing d i k with
  | zero => exact ⟨k, hd⟩
  | succ n ih =>
    have hlt : i < d.graph.size := by omega
    obtain ⟨s, hs⟩ := Graph.exists_slot hlt
    simp only [List.range'_succ, Deployment.startSlots, hs]
    have hrun := hd i s hs
    cases hinit : s.initialized with
    | true =>
      simp only [if_true]
      exact ih (i + 1) hd (hrun.1 hinit) (by omega)
    | false =>
      obtain rfl : i = k := by
        have hle : ¬ i < k := fun h => by simp [hrun.2 h] at hinit
        omega
      obtain ⟨k', hle, hk', hlt⟩ := hd.startSlot hs
      have hsize : (d.startSlot i s).2.graph.size = d.graph.size := by
        cases hr : (d.startSlot i s).1 with
        | none => rw [graph_startSlot d i s hr, Graph.size_modify]
        | some f => rw [graph_startSlot_failed hr]
      simp only [Bool.false_eq_true, if_false]
      rcases hr : d.startSlot i s with ⟨_ | f, d₁⟩ <;> rw [hr] at hk' hlt hsize
      · exact ih (i + 1) hk' (hlt rfl) (hsize.trans (by omega))
      · exact ⟨k', hk'⟩

theorem design_startSlot (d : Deployment σ ω) (x : SlotId) (s : Slot) :
    (d.startSlot x s).2.graph.design = d.graph.design := by
  cases hr : (d.startSlot x s).1 with
  | none =>
    rw [graph_startSlot d x s hr]
    exact Graph.design_modify _ _ fun _ => rfl
  | some f => rw [graph_startSlot_failed hr]

theorem design_startSlots (d : Deployment σ ω) (ids : List SlotId) :
    (d.startSlots ids).2.graph.design = d.graph.design :=
  startSlots_keep (fun d => d.graph.design) design_startSlot d ids

theorem design_stopSlots (d : Deployment σ ω) (ids : List SlotId) :
    (d.stopSlots ids).2.graph.design = d.graph.design := by
  refine stopSlots_keep (fun d => d.graph.design) (fun d x s => ?_) d ids
  rw [graph_stopSlot]
  exact Graph.design_modify _ _ fun _ => rfl

/-! ### Compiled once -/

/-- What stays of a deployment that was compiled, or that failed to compile. -/
structure Lasts (d d' : Deployment σ ω) : Prop where
  design : d'.graph.design = d.graph.design
  compiled : d'.status ≠ .uncompiled
  failed : ∀ {e}, d.status = .failed e → d'.status = .failed e

omit [Stage σ ω] in
theorem Lasts.refl (h : d.status ≠ .uncompiled) : Lasts d d := ⟨rfl, h, id⟩

omit [Stage σ ω] in
theorem Lasts.trans {d₁ : Deployment σ ω} (h : Lasts d d₁) (h' : Lasts d₁ d') : Lasts d d' :=
  ⟨h'.design.trans h.design, h'.compiled, fun he => h'.failed (h.failed he)⟩

theorem compile_of_compiled (h : d.status ≠ .uncompiled) : d.compile.2 = d := by
  unfold compile
  cases hs : d.status with
  | uncompiled => exact absurd hs h
  | _ => rfl

theorem compile_of_failed {e : CompileError} (h : d.status = .failed e) :
    d.compile = (.error e, d) := by
  unfold compile
  rw [h]

theorem start_of_failed {e : CompileError} (h : d.status = .failed e) :
    d.start = (.error (.compile e), d) := by
  unfold start
  rw [compile_of_failed h]

/-- An attempt to compile fails just if the deployment has failed afterwards. -/
theorem compile_error (d : Deployment σ ω) {e : CompileError} :
    d.compile.1 = .error e ↔ d.compile.2.status = .failed e := by
  unfold compile
  cases hs : d.status with
  | uncompiled =>
    unfold compileNow
    rcases compileRules d.catalog.objects 0 d.catalog.rules d.build with ⟨⟨_ | ⟨_, _⟩, _⟩, _⟩
    · simp
    · simp [log]
  | _ => simp [hs]

/-- A start leaves what compiling made, or it starts the stages of a graph that compiled. -/
theorem start_cases (d : Deployment σ ω) :
    d.start.2 = d.compile.2 ∨
      (∀ e, d.compile.2.status ≠ .failed e) ∧
        d.start.2.graph = (d.compile.2.startSlots d.compile.2.slots).2.graph ∧
          (d.start.2.status = .started ∨ d.start.2.status = d.compile.2.status) := by
  have herror := fun e => compile_error d (e := e)
  unfold start
  rcases hc : d.compile with ⟨e | _, d₁⟩ <;> rw [hc] at herror
  · exact .inl rfl
  · by_cases hs : d₁.status = .started
    · simp [hs]
    · simp only [hs, if_false]
      have hstatus := status_startSlots d₁ d₁.slots
      refine .inr ⟨fun e he => ?_, ?_⟩
      · cases (herror e).2 he
      · rw [slots] at hstatus ⊢
        rcases hr : d₁.startSlots (List.range d₁.graph.size) with ⟨_ | f, d₂⟩ <;> rw [hr] at hstatus
        · exact ⟨rfl, .inl rfl⟩
        · exact ⟨rfl, .inr hstatus⟩

theorem catalog_start {d : Deployment σ ω} (h : d.status ≠ .uncompiled) :
    d.start.2.catalog = d.catalog := by
  have hcompile : d.compile = (d.compile.1, d) := Prod.ext rfl (compile_of_compiled h)
  unfold start
  rw [hcompile]
  cases d.compile.1 with
  | error e => rfl
  | ok _ =>
    have hcatalog := catalog_startSlots d (List.range d.graph.size)
    simp only
    split
    · rfl
    · rcases hr : d.startSlots (List.range d.graph.size) with ⟨_ | f, d₁⟩ <;> rw [hr] at hcatalog
      · exact hcatalog
      · exact hcatalog

theorem Lasts.start (h : d.status ≠ .uncompiled) : Lasts d d.start.2 := by
  have hcompile := compile_of_compiled h
  rcases start_cases d with heq | ⟨hfailed, hgraph, hstatus⟩ <;> rw [hcompile] at *
  · rw [heq]
    exact .refl h
  · refine ⟨?_, ?_, fun he => absurd he (hfailed _)⟩
    · rw [hgraph]
      exact design_startSlots d d.slots
    · rcases hstatus with hs | hs <;> rw [hs]
      · simp
      · exact h

theorem Lasts.stop (h : d.status ≠ .uncompiled) : Lasts d d.stop.2 := by
  obtain ⟨hgraph, -, hstatus, -⟩ := stop_frame d
  refine ⟨?_, ?_, fun he => ?_⟩
  · rw [hgraph]
    exact design_stopSlots d d.slots
  · rw [hstatus]
    split <;> simp [h]
  · rw [hstatus, he]
    rfl

theorem Lasts.run (h : d.status ≠ .uncompiled) (action : Action) : Lasts d (action.run d) := by
  cases action with
  | register s =>
    obtain ⟨hgraph, -, hstatus, -⟩ := register_frame d s
    exact ⟨congrArg Graph.design hgraph, fun hs => h (hstatus.symm.trans hs), hstatus.trans⟩
  | compile =>
    rw [Action.run, compile_of_compiled h]
    exact .refl h
  | start => exact .start h
  | stop => exact .stop h

theorem Lasts.perform (h : d.status ≠ .uncompiled) (actions : List Action) :
    Lasts d (d.perform actions) := by
  induction actions generalizing d with
  | nil => exact .refl h
  | cons action actions ih =>
    have hstep := Lasts.run h action
    exact hstep.trans (ih hstep.compiled)

/-! ### What holds at every moment -/

variable {n : Nat} {a : Deployment (Recorded σ) (Clocked ω)}

omit [Stage σ ω] in
theorem Ready.coherent (hr : a.Ready n) (hs : a.status = .uncompiled) : a.Coherent := by
  have hnone : a.RunsUpTo 0 := by
    intro x s hx
    have hlt := Graph.lt_of_slot hx
    rw [hr.empty] at hlt
    exact absurd hlt (Nat.not_lt_zero x)
  exact ⟨⟨0, hnone⟩, fun _ => hnone, fun h => by rw [hs] at h; cases h⟩

theorem Coherent.compile (hk : a.Kept n) (ha : a.Coherent) : a.compile.2.Coherent := by
  by_cases hs : a.status = .uncompiled
  · have hplaced := (hk.ready hs).compileNow.1
    have hnone : a.compileNow.2.RunsUpTo 0 := by
      intro x s hx
      have hidle : s.initialized = false := hplaced.idle hx
      simp [hidle]
    rw [Deployment.compile, hs]
    refine ⟨⟨0, hnone⟩, fun _ => hnone, fun h => ?_⟩
    rcases status_compileNow a with hc | ⟨e, hc⟩ <;> rw [hc] at h <;> cases h
  · rw [compile_of_compiled hs]
    exact ha

theorem Coherent.start (hk : a.Kept n) (ha : a.Coherent) : a.start.2.Coherent := by
  have hc := ha.compile hk
  have hstarted := hk.start.1.started
  rcases start_cases a with heq | ⟨hfailed, hgraph, hstatus⟩
  · rw [heq]
    exact hc
  · refine ⟨?_, fun {e} he => ?_, fun h => runsUpTo_of_idle (hstarted h)⟩
    · obtain ⟨k, hk'⟩ := hc.upTo
      obtain ⟨k', hk'⟩ := RunsUpTo.startSlots a.compile.2.graph.size 0 hk' (Nat.zero_le k) (by omega)
      rw [← List.range_eq_range'] at hk'
      exact ⟨k', hk'.congr hgraph⟩
    · rcases hstatus with hs | hs <;> rw [hs] at he
      · cases he
      · exact absurd he (hfailed e)

theorem Kept.coherent_stop (hk : a.Kept n) : a.stop.2.Coherent := by
  have hnone : a.stop.2.RunsUpTo 0 := runsUpTo_of_running hk.stop.2.1
  refine ⟨⟨0, hnone⟩, fun _ => hnone, fun h => ?_⟩
  rw [(stop_frame a).2.2.1] at h
  split at h
  · cases h
  · contradiction

theorem Coherent.run (hk : a.Kept n) (ha : a.Coherent) (action : Action) :
    (action.run a).Coherent := by
  cases action with
  | register s =>
    obtain ⟨hgraph, -, hstatus, -⟩ := register_frame a s
    refine ⟨ha.upTo.imp fun k hk => hk.congr hgraph, fun he => ?_, fun hs => ?_⟩
    · exact (ha.failed (hstatus.symm.trans he)).congr hgraph
    · have hall := ha.started (hstatus.symm.trans hs)
      rw [← hgraph] at hall
      exact hall.congr hgraph
  | compile => exact ha.compile hk
  | start => exact ha.start hk
  | stop => exact hk.coherent_stop

theorem Coherent.perform (hk : a.Kept n) (ha : a.Coherent) {actions : List Action}
    (hactions : ∀ s, .register s ∈ actions → s.Holds n) : (a.perform actions).Coherent := by
  induction actions generalizing a with
  | nil => exact ha
  | cons action actions ih =>
    have hstep := hk.run action fun s hs => hactions s (by simp [hs])
    exact ih hstep (ha.run hk action) fun s hs => hactions s (by simp [hs])

/-- What the status of a deployment says, now and from now on. -/
structure Governed (a : Deployment (Recorded σ) (Clocked ω)) : Prop where
  uncompiled : a.status = .uncompiled → a.graph.size = 0
  /-- Nothing runs, and whatever is done, compiling and starting fail with the same error without a
  call on any stage. -/
  failed : ∀ {e}, a.status = .failed e → a.RunsUpTo 0 ∧ ∀ more, (a.perform more).status = .failed e ∧
    (a.perform more).compile.1 = .error e ∧ (a.perform more).start.1 = .error (.compile e) ∧
      Traced (a.perform more) (a.perform more).start.2 []
  started : a.status = .started → ∀ x s, a.graph.slot? x = some s → s.initialized = true
  /-- The stages that run are those of the first slots. -/
  upTo : a.status = .compiled ∨ a.status = .stopped → ∃ k, a.RunsUpTo k
  /-- Rules are not compiled again, and nothing but marks changes in the graph. -/
  lasts : a.status ≠ .uncompiled → ∀ more, (a.perform more).status ≠ .uncompiled ∧
    (a.perform more).compile.2 = a.perform more ∧ (a.perform more).graph.design = a.graph.design

theorem Coherent.governed (hk : a.Kept n) (ha : a.Coherent) : a.Governed where
  uncompiled hs := (hk.ready hs).empty
  failed {e} he := by
    refine ⟨ha.failed he, fun more => ?_⟩
    have hlast : (a.perform more).status = .failed e :=
      (Lasts.perform (by rw [he]; simp) more).failed he
    rw [compile_of_failed hlast, start_of_failed hlast]
    exact ⟨hlast, rfl, rfl, .refl _⟩
  started hs x s hx := (ha.started hs x s hx).2 (Graph.lt_of_slot hx)
  upTo _ := ha.upTo
  lasts hs more := by
    have hlasts := Lasts.perform hs more
    exact ⟨hlasts.compiled, compile_of_compiled hlasts.compiled, hlasts.design⟩

/-- Whatever is done to a deployment, and whatever fails, its status tells what its slots are like. -/
theorem governed_perform (d : Deployment (Recorded σ) (Clocked ω)) (actions : List Action)
    (hd : d.status = .uncompiled ∧ d.Ready d.pool.instances.size)
    (hactions : ∀ s, .register s ∈ actions → s.Holds d.pool.instances.size) :
    (d.perform actions).Governed := by
  have hkept := hd.2.kept (by simp [hd.1])
  have hcoherent := (hd.2.coherent hd.1).perform hkept hactions
  exact hcoherent.governed (hkept.perform hactions)

/-- The destination does not start at first, and then it does not stop. -/
theorem governed_sample :
    (sample.perform [.start, .register (.sequence [] .none none), .compile]).Governed ∧
      (sample.perform [.start]).status = .compiled ∧
      (sample.perform [.start]).graph.slots.toList.map (·.initialized) =
        [true, true, true, true, true, true] ++ List.replicate 8 false := by
  have hunused : sample.pool.Unused := .of_all (by decide +kernel)
  have hready : sample.Ready sample.pool.instances.size :=
    ⟨rfl, rfl, hunused, by decide +kernel, by decide +kernel⟩
  refine ⟨governed_perform sample _ ⟨rfl, hready⟩ fun s hs => ?_, ?_, ?_⟩
  · simp only [List.mem_cons, Action.register.injEq, List.not_mem_nil, reduceCtorEq, false_or,
      or_false] at hs
    subst hs
    decide +kernel
  · decide +kernel
  · decide +kernel

end Deployment

end Routing
