import Routing.CommandLine.Answer
import Routing.Proofs.Document.Contents
import Routing.Proofs.Document.Drivers
import Routing.Proofs.Lifecycle.States
/-!
# Stages of the library start and stop

A stage that a driver made refuses to start only while it runs, and to stop only while it does not.
The mark of its slot tells which of the two it is, whatever is done to a configuration, so that it
never refuses.
-/

namespace Routing

/-- The event is about a stage that did not start or stop. -/
def Event.isFault : Event → Bool
  | stageNotStarted _ => true
  | stageNotStopped _ => true
  | releaseFailed _ => true
  | _ => false

/-! ### One stage -/

namespace Builtin

/-- The stage is made by a driver or by the compiler, and it runs or not, if that makes a difference
to it. -/
def Switched (on : Bool) : Builtin → Prop
  | internal s => s.running = on
  | collect s => s.isOpen = on
  | scripted _ => False
  | _ => True

variable {s copy : Builtin} {on : Bool} {shared shared' : Shared}

theorem OfDriver.switched {kind : Kind} (h : s.OfDriver kind) : s.Switched false := by
  cases s with
  | internal s => exact h.2
  | collect c => exact h.2
  | scripted s => exact h
  | _ => trivial

namespace Switched

theorem init (h : s.Switched false) (settings : Settings) (shared : Shared) :
    (Builtin.init settings s shared).value = .ok () ∧
      (Builtin.init settings s shared).stage.Switched true ∧
        (Builtin.init settings s shared).events = [] := by
  cases s with
  | internal s =>
    have hrunning : s.running = false := h
    simp [Builtin.init, Internal.start, hrunning, Switched]
  | scripted s => exact h.elim
  | _ => exact ⟨rfl, by trivial, rfl⟩

theorem deinit (h : s.Switched true) (shared : Shared) :
    (s.deinit shared).value = .ok () ∧ (s.deinit shared).stage.Switched false ∧
      (s.deinit shared).events.filter Event.isFault = [] := by
  cases s with
  | collect c =>
    have hopen : c.isOpen = true := h
    simp only [Builtin.deinit, Collect.stop, hopen, if_true, true_and]
    refine ⟨rfl, ?_⟩
    split <;> rfl
  | scripted s => exact h.elim
  | _ => exact ⟨rfl, by trivial, rfl⟩

theorem queue (h : s.Switched on) (message : Message) (shared : Shared) :
    (Builtin.queue message s shared).stage.Switched on ∧
      (Builtin.queue message s shared).events = [] := by
  cases s with
  | collect c =>
    have hopen : c.isOpen = on := h
    simp only [Builtin.queue, Collect.accept, and_true]
    split <;> exact hopen
  | _ => exact ⟨h, rfl⟩

theorem clone (h : s.Switched false) (hc : s.clone shared = (some copy, shared')) :
    copy.Switched false := by
  cases s with
  | internal _ => cases hc
  | plain _ => cases hc
  | scripted _ => exact h.elim
  | collect c => cases hc; rfl
  | _ => cases hc; trivial

end Switched

end Builtin

/-! ### Compiling -/

/-- No stage of the pool runs. -/
def Pool.Off (p : Pool Builtin Shared) : Prop :=
  ∀ h s, p.stage? h = some s → s.Switched false

namespace Pool.Off

variable {p : Pool Builtin Shared}

theorem add (hp : p.Off) {s : Builtin} (hs : s.Switched false) : (p.add s).2.Off := by
  intro h t ht
  rw [Pool.stage?_add] at ht
  split at ht
  · cases ht
    exact hs
  · exact hp h t ht

theorem mark (hp : p.Off) (h : Handle) : (p.markInlined h).Off := by
  intro h' s hs
  rw [Pool.stage?_markInlined] at hs
  exact hp h' s hs

theorem share (hp : p.Off) (shared : Shared) : Pool.Off { p with shared } := hp

end Pool.Off

/-- Clones start switched off. -/
theorem Build.stable_off (n : Nat) :
    Compile.Stable n fun b : Build Builtin Shared => b.pool.Off where
  own hs hb := by
    refine hb.add ?_
    rcases hs with rfl | rfl <;> trivial
  wire hb := hb
  enable _ hb := hb
  mark hb := hb
  single {handle} h here hlt := by
    intro b hb
    refine Compile.wp_single (fun handle' role p hr => ?_) fun p hr => ?_
    · cases hr with
      | declared _ => exact hb.mark _
      | cloned _ hs hc => exact ((hb.share _).add ((hb _ _ hs).clone hc)).mark _
    · cases hr with
      | absent _ => exact hb
      | refused _ _ => exact hb.share _

/-! ### Marks and stages -/

variable {p : Pool Builtin Shared} {g g' : Graph} {x : SlotId} {s : Slot} {stage : Builtin}
  {on : Bool}

/-- The mark of each slot tells whether its stage runs, and no stage sits in two slots. -/
structure Graph.InStep (g : Graph) (p : Pool Builtin Shared) : Prop where
  stage : ∀ {x s}, g.slot? x = some s →
    ∃ stage, p.stage? s.handle = some stage ∧ stage.Switched s.initialized
  distinct : ∀ {x y s t}, g.slot? x = some s → g.slot? y = some t → s.handle = t.handle → x = y

/-- A stage is switched, and its slot is marked accordingly. -/
theorem Graph.InStep.update (h : g.InStep p) (hs : g.slot? x = some s)
    (hg : ∀ y, g'.slot? y = if y = x then some { s with initialized := on } else g.slot? y)
    (hstage : stage.Switched on) (shared : Shared) :
    g'.InStep (p.update s.handle stage shared) := by
  obtain ⟨before, hbefore, -⟩ := h.stage hs
  have hlt := Pool.lt_of_stage hbefore
  -- Slots keep their handles.
  have hslot : ∀ {y t}, g'.slot? y = some t → ∃ t', g.slot? y = some t' ∧ t.handle = t'.handle := by
    intro y t ht
    rw [hg] at ht
    split at ht
    · next hy =>
      cases ht
      exact ⟨s, hy ▸ hs, rfl⟩
    · exact ⟨t, ht, rfl⟩
  refine ⟨fun {y t} ht => ?_, fun {y z t u} ht hu heq => ?_⟩
  · rw [hg] at ht
    rw [Pool.stage?_update hlt]
    split at ht
    · cases ht
      exact ⟨stage, if_pos rfl, hstage⟩
    · next hy =>
      rw [if_neg fun heq => hy (h.distinct ht hs heq)]
      exact h.stage ht
  · obtain ⟨t', ht', hh⟩ := hslot ht
    obtain ⟨u', hu', hh'⟩ := hslot hu
    exact h.distinct ht' hu' (hh.symm.trans (heq.trans hh'))

namespace Deployment

/-- The events about stages that did not start or stop. -/
def faults {σ ω : Type} (d : Deployment σ ω) : List Event :=
  d.events.filter Event.isFault

theorem faults_log {σ ω : Type} (d : Deployment σ ω) {events : List Event}
    (h : events.filter Event.isFault = []) : (d.log events).faults = d.faults := by
  rw [faults, log, List.filter_append, h, List.append_nil, faults]

/-- The marks of a deployment agree with its stages, and no stage has failed since another moment. -/
structure Smooth (d d' : Deployment Builtin Shared) : Prop where
  inStep : d'.graph.InStep d'.pool
  faults : d'.faults = d.faults

variable {d d₁ d' : Deployment Builtin Shared}

theorem Smooth.trans (h : d.Smooth d₁) (h' : d₁.Smooth d') : d.Smooth d' :=
  ⟨h'.inStep, h'.faults.trans h.faults⟩

/-! ### Starting and stopping -/

theorem smooth_startSlot (h : d.graph.InStep d.pool) (hs : d.graph.slot? x = some s)
    (hi : s.initialized = false) :
    (d.startSlot x s).1 = none ∧ d.Smooth (d.startSlot x s).2 := by
  obtain ⟨stage, hstage, hoff⟩ := h.stage hs
  rw [hi] at hoff
  obtain ⟨hvalue, hon, hevents⟩ := hoff.init d.settings d.pool.shared
  have hinit : d.pool.init d.settings s.handle = (.ok (), [], d.pool.update s.handle
      (Builtin.init d.settings stage d.pool.shared).stage
      (Builtin.init d.settings stage d.pool.shared).shared) := by
    rw [Pool.init, Pool.call, hstage]
    exact Prod.ext hvalue (Prod.ext hevents rfl)
  unfold startSlot
  rw [hinit]
  refine ⟨rfl, h.update hs (fun y => slot?_modify_eq hs y) hon _, ?_⟩
  exact faults_log _ rfl

theorem smooth_stopSlot (h : d.graph.InStep d.pool) (hs : d.graph.slot? x = some s)
    (hi : s.initialized = true) : (d.stopSlot x s).1 = none ∧ d.Smooth (d.stopSlot x s).2 := by
  obtain ⟨stage, hstage, hon⟩ := h.stage hs
  rw [hi] at hon
  obtain ⟨hvalue, hoff, hevents⟩ := hon.deinit d.pool.shared
  have hdeinit : d.pool.deinit s.handle = (.ok (), (stage.deinit d.pool.shared).events,
      d.pool.update s.handle (stage.deinit d.pool.shared).stage
        (stage.deinit d.pool.shared).shared) := by
    rw [Pool.deinit, Pool.call, hstage]
    exact Prod.ext hvalue rfl
  unfold stopSlot
  rw [hdeinit]
  refine ⟨rfl, h.update hs (fun y => slot?_modify_eq hs y) hoff _, ?_⟩
  exact faults_log _ hevents

theorem smooth_startSlots (ids : List SlotId) (h : d.graph.InStep d.pool) :
    (d.startSlots ids).1 = none ∧ d.Smooth (d.startSlots ids).2 := by
  induction ids generalizing d with
  | nil => exact ⟨rfl, h, rfl⟩
  | cons x ids ih =>
    rw [startSlots]
    cases hs : d.graph.slot? x with
    | none => exact ih h
    | some s =>
      cases hi : s.initialized with
      | true => simpa [hi] using ih h
      | false =>
        obtain ⟨hnone, hsmooth⟩ := smooth_startSlot h hs hi
        simp only [hi, Bool.false_eq_true, if_false]
        rcases hr : d.startSlot x s with ⟨_ | f, d₁⟩ <;> rw [hr] at hnone hsmooth
        · exact (ih hsmooth.inStep).imp_right hsmooth.trans
        · cases hnone

theorem smooth_stopSlots (ids : List SlotId) (h : d.graph.InStep d.pool) :
    (d.stopSlots ids).1 = [] ∧ d.Smooth (d.stopSlots ids).2 := by
  induction ids generalizing d with
  | nil => exact ⟨rfl, h, rfl⟩
  | cons x ids ih =>
    rw [stopSlots]
    cases hs : d.graph.slot? x with
    | none => exact ih h
    | some s =>
      cases hi : s.initialized with
      | false => simpa [hi] using ih h
      | true =>
        obtain ⟨hnone, hsmooth⟩ := smooth_stopSlot h hs hi
        obtain ⟨hnil, hrest⟩ := ih hsmooth.inStep
        simp only [hi, if_true]
        rw [hnone, hnil]
        exact ⟨rfl, hsmooth.trans hrest⟩

theorem smooth_stop (h : d.graph.InStep d.pool) : d.stop.1 = .ok () ∧ d.Smooth d.stop.2 := by
  obtain ⟨hnil, hsmooth⟩ := smooth_stopSlots (List.range d.graph.size) h
  unfold stop
  rcases hr : d.stopSlots (List.range d.graph.size) with ⟨failures, d₁⟩
  rw [hr] at hnil hsmooth
  obtain rfl : failures = [] := hnil
  simp only [List.isEmpty_nil, if_true, true_and]
  split <;> exact ⟨hsmooth.inStep, hsmooth.faults⟩

/-! ### Whatever is done -/

/-- Nothing was compiled yet, and no stage runs. -/
structure Unstarted (d : Deployment Builtin Shared) : Prop where
  empty : d.graph.size = 0
  off : d.pool.Off
  objects : d.catalog.objects.Holds d.pool.instances.size
  rules : ∀ s ∈ d.catalog.rules, s.Holds d.pool.instances.size

theorem Unstarted.compileNow (h : d.Unstarted) : d.Smooth d.compileNow.2 := by
  have hplaced := Build.stable_placed (σ := Builtin) d.pool.instances.size
  have hoff := Build.stable_off d.pool.instances.size
  have hbuild : Build.Placed d.pool.instances.size d.compileNow.2.build ∧
      d.compileNow.2.build.pool.Off := by
    rw [build_compileNow]
    refine compileRules_induction
      (P := fun b => Build.Placed d.pool.instances.size b ∧ b.pool.Off)
      ⟨Build.placed_of_empty h.empty (Nat.le_refl _), h.off⟩ (fun rule hrule b hb => ?_) 0
    have hholds := h.rules rule hrule
    have hwp := Compile.wp_and (hplaced.rule h.objects hholds b hb.1)
      (hoff.rule h.objects hholds b hb.2)
    exact Compile.wp_state hwp
  refine ⟨⟨fun hs => ?_, hbuild.1.distinct⟩, ?_⟩
  · obtain ⟨stage, hstage⟩ := Pool.exists_stage (hbuild.1.handle_lt hs)
    rw [hbuild.1.idle hs]
    exact ⟨stage, hstage, hbuild.2 _ _ hstage⟩
  · unfold Deployment.compileNow
    rcases compileRules d.catalog.objects 0 d.catalog.rules d.build with ⟨⟨_ | ⟨i, e⟩, _⟩, _⟩
    · rfl
    · exact faults_log _ rfl

/-- What holds of a configuration at every moment. -/
structure Orderly (d : Deployment Builtin Shared) : Prop where
  inStep : d.graph.InStep d.pool
  unstarted : d.status = .uncompiled → d.Unstarted

theorem Unstarted.orderly (h : d.Unstarted) : d.Orderly where
  inStep := by
    have hslot : ∀ {x s}, d.graph.slot? x ≠ some s := fun hs =>
      Nat.not_lt_zero _ (h.empty ▸ Graph.lt_of_slot hs)
    exact ⟨fun hs => (hslot hs).elim, fun hs => (hslot hs).elim⟩
  unstarted _ := h

theorem Orderly.compile (h : d.Orderly) : d.Smooth d.compile.2 := by
  by_cases hs : d.status = .uncompiled
  · rw [Deployment.compile, hs]
    exact (h.unstarted hs).compileNow
  · rw [compile_of_compiled hs]
    exact ⟨h.inStep, rfl⟩

theorem Orderly.start (h : d.Orderly) : (∀ f, d.start.1 ≠ .error (.stage f)) ∧
    d.Smooth d.start.2 ∧ d.start.2.status ≠ .uncompiled := by
  have hsmooth := h.compile
  have hstatus := status_compile d
  unfold Deployment.start
  rcases hc : d.compile with ⟨e | _, d₁⟩ <;> rw [hc] at hsmooth hstatus
  · exact ⟨fun f hf => (nomatch hf), hsmooth, hstatus⟩
  · by_cases hs : d₁.status = .started
    · simp only [if_pos hs]
      exact ⟨fun f hf => (nomatch hf), hsmooth, hstatus⟩
    · simp only [if_neg hs]
      obtain ⟨hnone, hstarted⟩ := smooth_startSlots (List.range d₁.graph.size) hsmooth.inStep
      rcases hr : d₁.startSlots (List.range d₁.graph.size) with ⟨_ | f, d₂⟩ <;>
        rw [hr] at hnone hstarted
      · exact ⟨fun f hf => (nomatch hf), hsmooth.trans ⟨hstarted.inStep, hstarted.faults⟩,
          fun hf => (nomatch hf)⟩
      · cases hnone

theorem Orderly.queue (h : d.Orderly) (x : SlotId) (message : Message) :
    d.Smooth (d.queue x message).2 ∧ (d.queue x message).2.status = d.status ∧
      (d.graph.size = 0 → (d.queue x message).2 = d) := by
  unfold Deployment.queue
  cases hs : d.graph.slot? x with
  | none => exact ⟨⟨h.inStep, rfl⟩, rfl, fun _ => rfl⟩
  | some s =>
    have hlt := Graph.lt_of_slot hs
    refine ⟨?_, rfl, fun hempty => absurd (hempty ▸ hlt) (Nat.not_lt_zero x)⟩
    obtain ⟨stage, hstage, hon⟩ := h.inStep.stage hs
    obtain ⟨hon', hevents⟩ := hon.queue message d.pool.shared
    simp only [Pool.queue, Pool.call, hstage]
    refine ⟨h.inStep.update hs (fun y => ?_) hon' _, faults_log _ ?_⟩
    · -- The mark stays as it is.
      change d.graph.slot? y = _
      split
      · next hy => rw [hy, hs]
      · rfl
    · exact congrArg (List.filter Event.isFault) hevents

end Deployment

/-- What is done to a configuration while it is in use. -/
inductive Operation where
  | compile
  | start
  | stop
  /-- Hands a message to the stage of a slot. -/
  | queue (slot : SlotId) (message : Message)
  /-- Takes all messages out of the buffer with this name. -/
  | take (buffer : String)

/-- The configuration after an operation, whether it succeeds or fails. -/
def Operation.run (d : Deployment Builtin Shared) : Operation → Deployment Builtin Shared
  | compile => d.compile.2
  | start => d.start.2
  | stop => d.stop.2
  | queue slot message => (d.queue slot message).2
  | take buffer => d.setPool { d.pool with shared := (d.pool.shared.takeBuffer buffer).2 }

namespace Deployment

/-- The configuration after several operations. -/
def operate (d : Deployment Builtin Shared) (operations : List Operation) :
    Deployment Builtin Shared :=
  operations.foldl Operation.run d

variable {d : Deployment Builtin Shared}

theorem Orderly.run (h : d.Orderly) (operation : Operation) :
    (operation.run d).Orderly ∧ (operation.run d).faults = d.faults := by
  cases operation with
  | compile =>
    have hsmooth := h.compile
    exact ⟨⟨hsmooth.inStep, fun hs => absurd hs (status_compile d)⟩, hsmooth.faults⟩
  | start =>
    obtain ⟨-, hsmooth, hstatus⟩ := h.start
    exact ⟨⟨hsmooth.inStep, fun hs => absurd hs hstatus⟩, hsmooth.faults⟩
  | stop =>
    obtain ⟨-, hsmooth⟩ := smooth_stop h.inStep
    refine ⟨⟨hsmooth.inStep, fun hs => ?_⟩, hsmooth.faults⟩
    have hstatus := (stop_frame d).2.2.1
    change d.stop.2.Unstarted
    rw [show d.stop.2.status = .uncompiled from hs] at hstatus
    split at hstatus
    · cases hstatus
    · next hnot =>
      have hunstarted := h.unstarted hstatus.symm
      rwa [stop_of_empty d hunstarted.empty hnot]
  | queue x message =>
    obtain ⟨hsmooth, hstatus, hempty⟩ := h.queue x message
    refine ⟨⟨hsmooth.inStep, fun hs => ?_⟩, hsmooth.faults⟩
    have hunstarted := h.unstarted (hstatus.symm.trans hs)
    rw [Operation.run, hempty hunstarted.empty]
    exact hunstarted
  | take buffer =>
    refine ⟨⟨⟨h.inStep.stage, h.inStep.distinct⟩, fun hs => ?_⟩, rfl⟩
    have hunstarted := h.unstarted hs
    exact ⟨hunstarted.empty, hunstarted.off, hunstarted.objects, hunstarted.rules⟩

theorem Orderly.operate (h : d.Orderly) (operations : List Operation) :
    (d.operate operations).Orderly ∧ (d.operate operations).faults = d.faults := by
  induction operations generalizing d with
  | nil => exact ⟨h, rfl⟩
  | cons operation operations ih =>
    obtain ⟨hstep, hfaults⟩ := h.run operation
    exact (ih hstep).imp_right fun hrest => hrest.trans hfaults

theorem Orderly.release (h : d.Orderly) : d.release.faults = d.faults := by
  unfold Deployment.release
  split
  · have hlog : (d.log [.releasedWhileRunning]).graph.InStep (d.log [.releasedWhileRunning]).pool :=
      h.inStep
    obtain ⟨hok, hsmooth⟩ := smooth_stop hlog
    rcases hr : (d.log [.releasedWhileRunning]).stop with ⟨e | _, d₁⟩ <;> rw [hr] at hok hsmooth
    · cases hok
    · exact hsmooth.faults.trans (faults_log d rfl)
  · rfl

/-- What is built with the drivers of the library is not compiled yet, and none of its stages runs. -/
theorem unstarted_of_built {doc : Document} {lines : LineTable} {shared : Shared}
    (h : (doc.build lines Builtin.create { shared }).1 = .ok d) :
    d.Unstarted := by
  have hyields := Document.yields_of_ok h
  have hholds : ∀ {s : Statement}, s ∈ d.catalog.objects.map (·.2) ++ d.catalog.rules →
      s.Holds d.pool.instances.size := fun hs p hp => (hyields.raw hs p hp).2
  refine ⟨by rw [hyields.graph]; rfl, fun h s hs => ?_, fun e he => hholds ?_, fun s hs => hholds ?_⟩
  · obtain ⟨kind, hmade⟩ := hyields.fills.ofDriver rfl rfl hs
    exact hmade.switched
  · exact List.mem_append_left _ (List.mem_map_of_mem he)
  · exact List.mem_append_right _ hs

theorem compile_of_start_error {e : CompileError} (h : d.start.1 = .error (.compile e)) :
    d.compile.1 = .error e := by
  unfold start at h
  rcases hc : d.compile with ⟨e' | _, d₁⟩ <;> rw [hc] at h
  · cases h
    rfl
  · by_cases hs : d₁.status = .started
    · simp only [if_pos hs] at h
      cases h
    · simp only [if_neg hs] at h
      rcases hr : d₁.startSlots (List.range d₁.graph.size) with ⟨_ | f, d₂⟩ <;> rw [hr] at h <;>
        cases h

/-- What compiles also starts. -/
theorem Orderly.start_compiled (h : d.Orderly) (hc : d.compile.1 = .ok ()) :
    d.compile.2.start.1 = .ok () := by
  have hstage := (h.run .compile).1.start.1
  cases hr : d.compile.2.start.1 with
  | ok _ => rfl
  | error e =>
    cases e with
    | stage f => exact absurd hr (hstage f)
    | compile e =>
      have hfailed := (compile_error _).1 (compile_of_start_error hr)
      rw [compile_of_compiled (status_compile d), ← compile_error, hc] at hfailed
      cases hfailed

end Deployment

namespace CommandLine

/-- What is loaded was built from a document, and then it was compiled. -/
theorem compiled_of_load {path : String} {content : Except FileError String} {d : Configuration}
    (h : (load path content).1 = .ok d) : ∃ (doc : Document) (lines : LineTable) (a : Configuration),
      (doc.build lines Builtin.create { shared := {} }).1 = .ok a ∧ a.compile.1 = .ok () ∧
        a.compile.2 = d := by
  unfold load Document.loadFile at h
  rcases hparse : Document.parseFile path content with e | ⟨doc, lines⟩ <;> rw [hparse] at h
  · cases h
  · dsimp only at h
    rcases hbuilt : doc.build lines Builtin.create { shared := {} } with ⟨e | a, pool, events⟩ <;>
      rw [hbuilt] at h
    · cases h
    · dsimp only at h
      rcases hc : a.compile with ⟨e | u, a'⟩ <;> rw [hc] at h
      · cases h
      · cases h
        exact ⟨doc, lines, a, by rw [hbuilt], by rw [hc], by rw [hc]⟩

/-- A configuration that compiles is found to be right. -/
theorem runCheck_compiled {d : Configuration} (path : String) (h : d.Orderly)
    (hc : d.compile.1 = .ok ()) : ∃ text, (runCheck path d.compile.2).1 = .ok text := by
  have hstart := h.start_compiled hc
  have hstarted := ((h.run .compile).1.run .start).1
  have hstop := (Deployment.smooth_stop hstarted.inStep).1
  unfold runCheck
  rcases hr : d.compile.2.start with ⟨_ | _, d₁⟩ <;> rw [hr] at hstart
  · cases hstart
  · have hd₁ : d.compile.2.start.2 = d₁ := congrArg Prod.snd hr
    simp only [Operation.run, hd₁] at hstop
    dsimp only
    rcases hs : d₁.stop with ⟨_ | _, d₂⟩ <;> rw [hs] at hstop
    · cases hstop
    · exact ⟨_, rfl⟩

/-- Configurations of the library never fail to start or to stop, whatever is done to them, and a
check fails only where loading does. -/
theorem starts_and_stops :
    (∀ (doc : Document) (lines : LineTable) (shared : Shared) (d : Configuration),
      (doc.build lines Builtin.create { shared }).1 = .ok d → ∀ operations : List Operation,
        (∀ f, (d.operate operations).start.1 ≠ .error (.stage f)) ∧
          (d.operate operations).stop.1 = .ok () ∧
            (d.operate operations).release.faults = d.faults) ∧
      ∀ (path : String) (content : Except FileError String) (c : Complaint),
        (Action.check.run path content).1 = .error c → (load path content).1 = .error c := by
  constructor
  · intro doc lines shared d hbuilt operations
    obtain ⟨horderly, hfaults⟩ :=
      (Deployment.unstarted_of_built hbuilt).orderly.operate operations
    exact ⟨horderly.start.1, (Deployment.smooth_stop horderly.inStep).1,
      horderly.release.trans hfaults⟩
  · intro path content c h
    unfold Action.run at h
    rcases hload : load path content with ⟨c' | d, events⟩ <;> rw [hload] at h
    · cases h
      rfl
    · obtain ⟨doc, lines, a, hbuilt, hc, rfl⟩ := compiled_of_load (congrArg Prod.fst hload)
      obtain ⟨text, hok⟩ :=
        runCheck_compiled path (Deployment.unstarted_of_built hbuilt).orderly hc
      cases hok.symm.trans h

/-- A deployment that runs again after a stop, and a check that fails while it loads. -/
theorem starts_and_stops_sample :
    (∃ d : Configuration,
      (Document.sample.build ⟨none, [0], 300⟩ Builtin.create { shared := {} }).1 = .ok d ∧
        (d.operate [.start, .queue 0 {}, .take "default", .stop, .start]).status = .started ∧
        (d.operate [.start, .queue 0 {}, .take "default", .stop, .start]).stop.1 = .ok ()) ∧
      (load "routes.toml" (.ok "[[log]]\n[[log.elements]]\nsource = \"off\"\n")).1 =
        .error ⟨"Failed to compile \"routes.toml\"",
          ["Error resolving reference to source 'off' at routes.toml:3:10"]⟩ := by
  refine ⟨?_, starts_and_stops.2 _ _ _ (by decide +kernel)⟩
  have hmap : (Document.sample.build ⟨none, [0], 300⟩ Builtin.create { shared := {} }).1.map
      (fun d => (d.operate [.start, .queue 0 {}, .take "default", .stop, .start]).status) =
        .ok .started := by
    decide +kernel
  obtain ⟨d, hd, hstatus⟩ := map_eq_ok hmap
  exact ⟨d, hd, hstatus, (starts_and_stops.1 Document.sample ⟨none, [0], 300⟩ {} d hd _).2.1⟩

end CommandLine

end Routing
