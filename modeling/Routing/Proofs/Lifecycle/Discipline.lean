import Routing.Proofs.Compile.WellFormed
import Routing.Proofs.Lifecycle.Registration
import Routing.Proofs.Lifecycle.Runs
/-!
# The life of a deployment

Statements are registered, rules are compiled, and stages are started and stopped in any order, and
in the end the deployment is released. Whatever fails on the way, each stage is started and stopped
in turn.
-/

namespace Routing

variable {σ ω : Type} [Stage σ ω]

/-- What is done to a deployment. -/
inductive Action where
  | register (s : Statement)
  | compile
  | start
  | stop

/-- The deployment after an action, whether it succeeds or fails. -/
def Action.run (d : Deployment σ ω) : Action → Deployment σ ω
  | register s => (d.register s).2
  | compile => d.compile.2
  | start => d.start.2
  | stop => d.stop.2

namespace Deployment

/-- The deployment after several actions. -/
def perform (d : Deployment σ ω) (actions : List Action) : Deployment σ ω :=
  actions.foldl Action.run d

/-- All slots, in the order of their creation. -/
def slots (d : Deployment σ ω) : List SlotId :=
  List.range d.graph.size

variable {n : Nat} {d : Deployment (Recorded σ) (Clocked ω)}

/-- What holds of a deployment at every moment. -/
structure Kept (n : Nat) (d : Deployment (Recorded σ) (Clocked ω)) : Prop where
  tracked : d.Tracked
  ready : d.status = .uncompiled → d.Ready n
  started : d.status = .started → d.idle d.slots = []

theorem Ready.kept (hd : d.Ready n) (hs : d.status ≠ .started) : d.Kept n where
  tracked := tracked_of_placed (Build.placed_of_empty hd.empty (Nat.le_of_eq hd.size.symm)) hd.unused
  ready _ := hd
  started h := absurd h hs

/-! ### Steps -/

theorem Kept.compile (hd : d.Kept n) : d.compile.2.Kept n ∧ Traced d d.compile.2 [] := by
  unfold Deployment.compile
  cases hs : d.status with
  | uncompiled =>
    have hready := hd.ready hs
    obtain ⟨hp, hu, hc⟩ := hready.compileNow
    refine ⟨⟨tracked_of_placed hp hu, fun h => ?_, fun h => ?_⟩, ?_⟩
    · rcases status_compileNow d with hc | ⟨e, hc⟩ <;> rw [hc] at h <;> cases h
    · rcases status_compileNow d with hc | ⟨e, hc⟩ <;> rw [hc] at h <;> cases h
    · refine ⟨hc, fun _ h => absurd h List.not_mem_nil, fun _ => ?_, fun _ => ?_⟩
      · rw [history, history, hu, hready.unused]; rfl
      · rw [history, history, hu, hready.unused]
  | compiled => exact ⟨hd, .refl d⟩
  | failed e => exact ⟨hd, .refl d⟩
  | started => exact ⟨hd, .refl d⟩
  | stopped => exact ⟨hd, .refl d⟩

omit [Stage σ ω] in
/-- Registering goes to the catalog, and may make the deployment forget what a target came to. -/
theorem register_spec (d : Deployment σ ω) (s : Statement) :
    (d.register s).1 = (d.catalog.register s).1 ∧
      (d.register s).2.catalog = (d.catalog.register s).2 ∧
      (d.register s).2.status = d.status ∧
      ∃ memos, memos ⊆ d.build.memos ∧ (d.register s).2.build = { d.build with memos } := by
  unfold register
  generalize hd : (if d.status = .uncompiled then d else d.log [.lateStatement d.status]) = d₀
  have h₀ : d₀.catalog = d.catalog ∧ d₀.status = d.status ∧ d₀.build = d.build := by
    rw [← hd]
    split <;> exact ⟨rfl, rfl, rfl⟩
  obtain ⟨hcatalog, hstatus, hbuild⟩ := h₀
  rw [← hcatalog, ← hbuild]
  dsimp only
  rcases d₀.catalog.register s with ⟨_ | _, c⟩
  · exact ⟨rfl, rfl, hstatus, _, List.Subset.refl _, rfl⟩
  · exact ⟨rfl, rfl, hstatus, _, List.filter_subset_self _, rfl⟩

omit [Stage σ ω] in
theorem register_frame (d : Deployment σ ω) (s : Statement) :
    (d.register s).2.graph = d.graph ∧ (d.register s).2.pool = d.pool ∧
      (d.register s).2.status = d.status ∧
      (d.register s).2.catalog = (d.catalog.register s).2 := by
  obtain ⟨-, hcatalog, hstatus, memos, -, hbuild⟩ := register_spec d s
  exact ⟨by rw [graph, hbuild, graph], by rw [pool, hbuild, pool], hstatus, hcatalog⟩

omit [Stage σ ω] in
theorem Ready.register (hd : d.Ready n) {s : Statement} (hs : s.Holds n) :
    (d.register s).2.Ready n := by
  obtain ⟨hg, hp, -, hc⟩ := register_frame d s
  refine ⟨by rw [hg]; exact hd.empty, by rw [hp]; exact hd.size, by rw [hp]; exact hd.unused, ?_, ?_⟩
    <;> rw [hc, Catalog.register] <;> split
  · exact hd.objects
  · exact fun e he => (Objects.mem_put he).elim (hd.objects e) fun h => h ▸ hs
  · intro t ht
    rcases List.mem_append.1 ht with ht | ht
    · exact hd.rules t ht
    · rw [List.mem_singleton.1 ht]; exact hs
  · exact hd.rules

omit [Stage σ ω] in
theorem Kept.register (hd : d.Kept n) {s : Statement} (hs : s.Holds n) :
    (d.register s).2.Kept n := by
  obtain ⟨hg, hp, hstatus, -⟩ := register_frame d s
  refine ⟨hd.tracked.congr hg hp, fun h => ?_, fun h => ?_⟩ <;> rw [hstatus] at h
  · exact (hd.ready h).register hs
  · rw [slots, idle, hg]; exact hd.started h

theorem Kept.start (hd : d.Kept n) : d.start.2.Kept n ∧ ∃ calls, Traced d d.start.2 calls ∧
    match d.start.1 with
    | .ok () => Starting (d.compile.2.idle d.compile.2.slots) none calls
    | .error (.stage f) => Starting (d.compile.2.idle d.compile.2.slots) (some f.slot) calls
    | .error (.compile _) => calls = [] := by
  obtain ⟨hk, ht⟩ := hd.compile
  unfold Deployment.start
  rcases hc : d.compile with ⟨_ | _, d₁⟩ <;> rw [hc] at hk ht
  · exact ⟨hk, [], ht, rfl⟩
  · by_cases hs : d₁.status = .started
    · simp only [hs, if_true]
      refine ⟨hk, [], ht, ?_⟩
      rw [hk.started hs]
      exact .done
    · simp only [hs, if_false]
      obtain ⟨calls, hp, hstart⟩ := passed_startSlots d₁.slots List.nodup_range hk.tracked
      have hidle := idle_startSlots d₁ d₁.slots
      have hstatus := status_startSlots d₁ d₁.slots
      have hd₁ : d.compile.2 = d₁ := congrArg Prod.snd hc
      rw [slots] at hp hstart hidle hstatus
      rcases hr : d₁.startSlots (List.range d₁.graph.size) with ⟨_ | f, d₂⟩ <;>
        rw [hr] at hp hstart hidle hstatus
      · refine ⟨⟨hp.tracked.congr rfl rfl, (fun h => nomatch h), fun _ => ?_⟩, calls, ?_, hstart⟩
        · refine List.filter_eq_nil_iff.2 fun y _ => ?_
          have hy : (d₂.graph.slot? y).any (fun s => !s.initialized) = _ := hidle y rfl
          change ¬ (d₂.graph.slot? y).any (fun s => !s.initialized) = true
          rw [hy]
          by_cases hlt : y < d₁.graph.size
          · simp [hlt]
          · simp [Graph.slot?_eq_none.2 (Nat.not_lt.1 hlt)]
        · exact (ht.trans hp.traced hp.handles).congr rfl rfl
      · refine ⟨⟨hp.tracked, fun h => ?_, fun h => ?_⟩, calls, ht.trans hp.traced hp.handles, hstart⟩
        · rw [hstatus] at h
          exact absurd h (by rw [← hd₁]; exact status_compile d)
        · rw [hstatus] at h
          exact absurd h hs

theorem stop_frame (d : Deployment σ ω) :
    d.stop.2.graph = (d.stopSlots d.slots).2.graph ∧ d.stop.2.pool = (d.stopSlots d.slots).2.pool ∧
      d.stop.2.status = (if d.status = .started then .stopped else d.status) ∧
      d.stop.1 = if (d.stopSlots d.slots).1.isEmpty then .ok ()
        else .error ⟨(d.stopSlots d.slots).1⟩ := by
  have hstatus := status_stopSlots d d.slots
  unfold stop
  rw [slots] at hstatus ⊢
  rcases hr : d.stopSlots (List.range d.graph.size) with ⟨failures, d₁⟩
  rw [hr] at hstatus
  have hstatus : d₁.status = d.status := hstatus
  dsimp only
  rw [← hstatus]
  by_cases hs : d₁.status = .started
  · rw [if_pos hs, if_pos hs]
    split <;> exact ⟨rfl, rfl, rfl, rfl⟩
  · rw [if_neg hs, if_neg hs]
    split <;> exact ⟨rfl, rfl, rfl, rfl⟩

theorem stop_of_empty (d : Deployment σ ω) (h : d.graph.size = 0) (hs : d.status ≠ .started) :
    d.stop.2 = d := by
  unfold stop
  rw [h]
  simp [stopSlots, hs]

theorem Kept.stop (hd : d.Kept n) : d.stop.2.Kept n ∧ d.stop.2.running d.stop.2.slots = [] ∧
    ∃ calls failed, Traced d d.stop.2 calls ∧ Stopping (d.running d.slots) failed calls ∧
      match d.stop.1 with
      | .ok () => failed = []
      | .error e => e.failures.map (·.slot) = failed ∧ failed ≠ [] := by
  obtain ⟨calls, hp, hstop⟩ := passed_stopSlots d.slots List.nodup_range hd.tracked
  have hrunning := running_stopSlots d d.slots
  obtain ⟨hg, hpool, hstatus, hr⟩ := stop_frame d
  refine ⟨⟨hp.tracked.congr hg hpool, fun h => ?_, fun h => ?_⟩, ?_, calls, _,
    hp.traced.congr hg hpool, hstop, ?_⟩
  · rw [hstatus] at h
    split at h
    · cases h
    · next hs =>
      have hready := hd.ready h
      rw [stop_of_empty d hready.empty hs]
      exact hready
  · rw [hstatus] at h
    split at h
    · cases h
    · exact absurd h ‹_›
  · refine List.filter_eq_nil_iff.2 fun y _ => ?_
    rw [hg, hrunning y, slots]
    by_cases hlt : y < d.graph.size
    · simp [hlt]
    · simp [Graph.slot?_eq_none.2 (Nat.not_lt.1 hlt)]
  · rw [hr]
    rcases (d.stopSlots d.slots).1 with _ | ⟨f, fs⟩
    · rfl
    · exact ⟨rfl, by simp⟩

omit [Stage σ ω] in
theorem running_of_not_isRunning (d : Deployment σ ω) (h : d.isRunning = false) :
    d.running d.slots = [] := by
  refine List.filter_eq_nil_iff.2 fun y _ => ?_
  cases hs : d.graph.slot? y with
  | none => simp
  | some s =>
    have hmem : s ∈ d.graph.slots := Array.mem_of_getElem? hs
    simpa using Array.any_eq_false'.1 h s hmem

omit [Stage σ ω] in
theorem Kept.congr (hd : d.Kept n) {d' : Deployment (Recorded σ) (Clocked ω)}
    (hb : d'.build = d.build) (hc : d'.catalog = d.catalog) (hs : d'.status = d.status) :
    d'.Kept n := by
  have hg : d'.graph = d.graph := congrArg Build.graph hb
  have hp : d'.pool = d.pool := congrArg Build.pool hb
  refine ⟨hd.tracked.congr hg hp, fun h => ?_, fun h => ?_⟩ <;> rw [hs] at h
  · have hready := hd.ready h
    exact ⟨by rw [hg]; exact hready.empty, by rw [hp]; exact hready.size,
      by rw [hp]; exact hready.unused, by rw [hc]; exact hready.objects,
      by rw [hc]; exact hready.rules⟩
  · rw [slots, idle, hg]; exact hd.started h

theorem Kept.release (hd : d.Kept n) :
    d.release.Tracked ∧ d.release.running d.release.slots = [] := by
  unfold Deployment.release
  split
  · have hlog : (d.log [.releasedWhileRunning]).Kept n := hd.congr rfl rfl rfl
    obtain ⟨hk, hrunning, -⟩ := hlog.stop
    rcases hr : (d.log [.releasedWhileRunning]).stop with ⟨_ | _, d₁⟩ <;> rw [hr] at hk hrunning
    · exact ⟨hk.tracked.congr rfl rfl, hrunning⟩
    · exact ⟨hk.tracked, hrunning⟩
  · next h => exact ⟨hd.tracked, d.running_of_not_isRunning (by simpa using h)⟩

theorem Kept.run (hd : d.Kept n) (action : Action) (ha : ∀ s, action = .register s → s.Holds n) :
    (action.run d).Kept n := by
  cases action with
  | register s => exact hd.register (ha s rfl)
  | compile => exact hd.compile.1
  | start => exact hd.start.1
  | stop => exact hd.stop.1

theorem Kept.perform (hd : d.Kept n) {actions : List Action}
    (ha : ∀ s, .register s ∈ actions → s.Holds n) : (d.perform actions).Kept n := by
  induction actions generalizing d with
  | nil => exact hd
  | cons action actions ih =>
    have hstep := hd.run action fun s hs => ha s (by simp [hs])
    exact ih hstep fun s hs => ha s (by simp [hs])

/-- What is right about starting and stopping at one moment. -/
structure Disciplined (d : Deployment (Recorded σ) (Clocked ω)) : Prop where
  /-- Each stage is stopped only while a start is pending, and started only while none is. -/
  alternates : ∀ h, Alternates (d.history h)
  /-- The mark of a slot says whether a start of its stage is pending. -/
  marked : ∀ {x s}, d.graph.slot? x = some s →
    (s.initialized = true ↔ Pending (d.history s.handle))
  /-- After the release each stage was stopped as often as it was started. -/
  released : ∀ h, Alternates (d.release.history h) ∧
    starts (d.release.history h) = stops (d.release.history h)
  /-- A start goes through the slots in order, up to the first stage that fails. -/
  start : ∃ calls, Traced d d.start.2 calls ∧
    match d.start.1 with
    | .ok () => Starting (d.compile.2.idle d.compile.2.slots) none calls
    | .error (.stage f) => Starting (d.compile.2.idle d.compile.2.slots) (some f.slot) calls
    | .error (.compile _) => calls = []
  /-- A stop goes through all slots in order, and reports the stages that fail. -/
  stop : ∃ calls failed, Traced d d.stop.2 calls ∧ Stopping (d.running d.slots) failed calls ∧
    match d.stop.1 with
    | .ok () => failed = []
    | .error e => e.failures.map (·.slot) = failed ∧ failed ≠ []
  /-- Another stop has nothing to do. -/
  again : d.stop.2.stop.1 = .ok () ∧ Traced d.stop.2 d.stop.2.stop.2 []

omit [Stage σ ω] in
theorem not_pending_of_running (hd : d.Tracked) (hr : d.running d.slots = []) (h : Handle) :
    ¬ Pending (d.history h) := by
  by_cases hx : ∃ x, d.graph.handle? x = some h
  · obtain ⟨x, hx⟩ := hx
    obtain ⟨s, hs, rfl⟩ := Option.map_eq_some_iff.1 hx
    have hmem : x ∈ d.slots := List.mem_range.2 (Graph.lt_of_slot hs)
    have hidle := List.filter_eq_nil_iff.1 hr x hmem
    rw [hs, Option.any_some] at hidle
    exact fun hp => hidle ((hd.pending hs).2 hp)
  · rw [hd.elsewhere fun x h => hx ⟨x, h⟩]
    exact not_pending_nil

theorem Kept.disciplined (hd : d.Kept n) : d.Disciplined where
  alternates := hd.tracked.alternates
  marked := hd.tracked.pending
  released h := by
    obtain ⟨ht, hr⟩ := hd.release
    have hn := not_pending_of_running ht hr h
    exact ⟨ht.alternates h, (ht.alternates h).balanced.2 hn⟩
  start := hd.start.2
  stop := hd.stop.2.2
  again := by
    obtain ⟨hk, hr, -⟩ := hd.stop
    obtain ⟨-, -, calls, failed, htraced, hstop, hresult⟩ := hk.stop
    rw [hr] at hstop
    cases hstop
    refine ⟨?_, htraced⟩
    cases h : d.stop.2.stop.1 with
    | ok _ => rfl
    | error e =>
      rw [h] at hresult
      exact absurd rfl hresult.2

/-- Whatever is done to a deployment, and whatever fails, stages are started and stopped in turn. -/
theorem disciplined_perform (d : Deployment (Recorded σ) (Clocked ω)) (actions : List Action)
    (hd : d.status = .uncompiled ∧ d.Ready d.pool.instances.size)
    (ha : ∀ s, .register s ∈ actions → s.Holds d.pool.instances.size) :
    (d.perform actions).Disciplined :=
  ((hd.2.kept (by simp [hd.1])).perform ha).disciplined

/-- A deployment whose destination fails to start once and to stop once. -/
def sample : Deployment (Recorded Builtin) (Clocked Shared) where
  catalog := { objects := Compile.sampleObjects, rules := Compile.sampleRules }
  build :=
    { pool :=
        { instances := #[
            ⟨{ stage := .scripted { label := "in", capabilities := { isSource := true } } }, false⟩,
            ⟨{ stage := .scripted { label := "out", failInit := 1, failDeinit := 1 } }, false⟩,
            ⟨{ stage := .scripted { label := "mark" } }, false⟩]
          shared := { shared := {} } } }

theorem disciplined_sample :
    (sample.perform [.start, .start, .stop, .start]).Disciplined ∧
      ((sample.perform [.start, .start, .stop, .start]).release.history 1).map
        (fun e => (e.request, e.ok)) =
        [(.init, false), (.init, true), (.deinit, false), (.init, true), (.deinit, true)] := by
  have hunused : sample.pool.Unused := .of_all (by decide +kernel)
  refine ⟨disciplined_perform sample [.start, .start, .stop, .start] ⟨rfl, rfl, rfl, hunused, ?_, ?_⟩
    (by simp), ?_⟩
  · decide +kernel
  · decide +kernel
  · decide +kernel

end Deployment

end Routing
