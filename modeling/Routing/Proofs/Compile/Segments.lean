import Routing.Proofs.Compile.Points
import Routing.Proofs.Graph.Follow
/-!
# Segments

What a statement is compiled to hangs together and is open at its ends: its head and its tail are new,
nothing leads into the head, no stage follows the tail, and messages that enter at the head come to
the tail. This holds of every call of the compiler after any others, and of everything that is
compiled on the way, while parts around it are half built.
-/

namespace Routing

variable {σ ω : Type} [Stage σ ω]

namespace Build

/-- What was compiled from an earlier state is a segment of its own, and these are its ends. -/
structure Segment (b₀ b : Build σ ω) (f : Fragment) : Prop where
  head_new : ∀ {h}, f.head = some h → b₀.graph.size ≤ h ∧ h < b.graph.size
  tail_new : ∀ {t}, f.tail = some t → b₀.graph.size ≤ t ∧ t < b.graph.size
  free : ∀ {h}, f.head = some h → b.graph.entering h = []
  /-- Neither the slot nor the stage in it says to be a source. -/
  plain : ∀ {h}, f.head = some h → (b.graph.capabilities h).isSource = false ∧
    ∀ s, b.graph.slot? h = some s → (b.pool.capabilities s.handle).isSource = false
  role : ∀ {h}, f.head = some h → b.graph.role? h ≠ some .join ∧ b.graph.role? h ≠ some .attach
  last : ∀ {t}, f.tail = some t → b.graph.next? t = none
  through : ∀ {h t}, f.head = some h → f.tail = some t → b.graph.Reaches h t
  /-- Without a tail the head is a fork, at which the chain of stages ends. -/
  fork : ∀ {h}, f.head = some h → f.tail = none → b.graph.role? h = some .multiplexer ∧
    b.graph.next? h = none ∧ b.graph.terminal h = h
  empty : f.head = none → f.tail = none → b.graph.size = b₀.graph.size

variable {b₀ b : Build σ ω} {f : Fragment} {n : Nat}

omit [Stage σ ω] in
theorem Headed.entering_eq_nil {h : SlotId} (hh : Headed b₀ b h) : b.graph.entering h = [] := by
  refine List.eq_nil_iff_forall_not_mem.2 fun e he => ?_
  obtain ⟨ht, hedge⟩ := Graph.mem_entering.1 he
  exact hh.free e.source (ht ▸ hedge.feeds)

/-- Ends that fit are those of a segment, as slots say of their stages what these declare. -/
theorem Fits.segment (hf : Fits b₀ b f) (hb : Placed n b) : Segment b₀ b f where
  head_new hh := ⟨(hf.head hh).new, (hf.head hh).lt⟩
  tail_new ht := ⟨(hf.tail ht).new, (hf.tail ht).lt⟩
  free hh := (hf.head hh).entering_eq_nil
  plain hh := by
    have hplain := (hf.head hh).plain
    refine ⟨hplain, fun s hs => ?_⟩
    rw [← hb.source hs, ← hplain, Graph.capabilities, hs]
    rfl
  role hh := (hf.head hh).role
  last ht := (hf.tail ht).last
  through := hf.through
  fork hh ht := by
    obtain ⟨hrole, hlast⟩ := hf.fork hh ht
    exact ⟨hrole, hlast, Graph.terminal_of_last hlast⟩
  empty := hf.empty

end Build

namespace Compile

open Build

variable {objects : Objects} {calls : List Call} {pool : Pool σ ω} {p : List Nat} {k : Task σ ω}
  {f : Fragment} {b : Build σ ω}

/-- A task that starts in a sound state with its stages in their places leaves a segment. -/
theorem Task.Sound.segment {n : Nat} (hobjects : objects.Fresh ∧ objects.Holds n) (hk : k.Sound)
    (hholds : k.statement.Holds n) (hplaced : Placed n k.state) (hrun : k.result objects = (.ok f, b)) :
    Segment k.state b f := by
  obtain ⟨-, hfits⟩ := wp_ok (hk.compiles hobjects.1) hrun
  exact hfits.segment (wp_ok ((stable_placed n).upTo hobjects.2 hholds k.around k.state hplaced) hrun)

/-- Tasks at all points of a run are sound. -/
theorem Point.sound (hobjects : objects.Fresh) (hcalls : ∀ call ∈ calls, call.statement.Fresh)
    (h : Point objects calls pool p k) : k.Sound := by
  cases h with
  | @mk earlier later call _ _ heq hpath =>
    have hstate : (after objects earlier { pool }).Sound :=
      sound_after hobjects (fun c hc => hcalls c (heq ▸ List.mem_append_left _ hc)) (sound_empty pool)
    have hcall : call.statement.Fresh := hcalls call (heq ▸ by simp)
    refine hpath.reaches.sound hobjects ?_
    cases call with
    | rule s => exact ⟨hstate, hcall.expandCatchAll objects⟩
    | node fc s => exact ⟨hstate, hcall⟩

/-- What is compiled at a point of a run is a segment, whatever is half built around it. -/
theorem Point.segment (hobjects : objects.Fresh ∧ objects.Holds pool.instances.size)
    (hcalls : ∀ call ∈ calls, call.statement.Fresh ∧ call.statement.Holds pool.instances.size)
    (h : Point objects calls pool p k) (hrun : k.result objects = (.ok f, b)) :
    Segment k.state b f := by
  have hholds : ∀ call ∈ calls, call.statement.Holds pool.instances.size := fun call hc =>
    (hcalls call hc).2
  refine (h.sound hobjects.1 fun call hc => (hcalls call hc).1).segment hobjects
    (h.holds hobjects.2 hholds) ?_ hrun
  exact h.keeps_state (stable_placed _) hobjects.2 hholds (placed_of_empty rfl (Nat.le_refl _))

/-- Whatever was compiled before, a statement is compiled to a segment, and so is each statement that
is compiled in the course of a run. -/
theorem segment_after (objects : Objects) (calls : List Call) (pool : Pool σ ω)
    (hobjects : objects.Fresh ∧ objects.Holds pool.instances.size)
    (hcalls : ∀ call ∈ calls, call.statement.Fresh ∧ call.statement.Holds pool.instances.size) :
    (∀ fc s f b, s.Fresh ∧ s.Holds pool.instances.size →
      (node objects fc s).run (after objects calls { pool }) = (.ok f, b) →
      Segment (after objects calls { pool }) b f) ∧
    ∀ p k f b, Point objects calls pool p k → k.result objects = (.ok f, b) →
      Segment k.state b f := by
  refine ⟨fun fc s f b hs hrun => ?_, fun p k f b hk hrun => hk.segment hobjects hcalls hrun⟩
  have hpoint : Point objects (calls ++ [.node fc s]) pool [calls.length]
      ((Call.node fc s).task objects (after objects calls { pool })) := .mk rfl .here
  refine hpoint.segment hobjects (fun call hcall => ?_) hrun
  rcases List.mem_append.1 hcall with hcall | hcall
  · exact hcalls call hcall
  · rw [List.mem_singleton.1 hcall]
    exact hs

/-- A junction in front of which a stage was put. One of its branches delivers to the destination. -/
def branchingRule : Statement :=
  .sequence [.pipe 2 none, .junction [.sequence [.pipe 2 none] .none none,
    .sequence [.reference .destination "out" none] .none none] none] .none none

/-- What two other rules leave. -/
def branchingStart : Build Builtin Shared :=
  after sampleObjects (sampleRules.map .rule) { pool := samplePool }

def branchingTask : Task Builtin Shared :=
  (Call.node true branchingRule).task sampleObjects branchingStart

/-- What stands in front of the junction of the rule. -/
def branchingFront : Compile Builtin Shared Chain :=
  chain sampleObjects (below sampleObjects branchingTask.depth) branchingTask.located
    branchingTask.flowControl {} [.pipe 2 none]

/-- The junction of the rule is compiled when its front is done. -/
def junctionTask : Task Builtin Shared :=
  branchingTask.child (.junction [.sequence [.pipe 2 none] .none none,
    .sequence [.reference .destination "out" none] .none none] none)
    (branchingFront.run branchingTask.state).2

theorem point_junctionTask : Point sampleObjects
    (sampleRules.map .rule ++ [.node true branchingRule]) samplePool [2, 1] junctionTask := by
  have hok : (branchingFront.run branchingTask.state).1 =
      .ok { first := some 14, last := some 14, pastSources := true } := by decide +kernel
  have hnth : branchingTask.Nth sampleObjects [Statement.pipe 2 none].length junctionTask :=
    .sequence rfl rfl rfl (run_eq_ok hok)
  have hpath : branchingTask.Path sampleObjects [1] junctionTask := .there hnth .here
  have hpoint : Point sampleObjects (sampleRules.map .rule ++ [.node true branchingRule]) samplePool
      [(sampleRules.map Call.rule).length, 1] junctionTask := .mk rfl hpath
  exact hpoint

/-- Nothing leads into the junction when it is done, although its front does once the rule is done. -/
theorem segment_sample :
    let run := (node sampleObjects true branchingRule).run branchingStart
    Segment branchingStart run.2 ⟨some 14, some 17⟩ ∧
      Segment junctionTask.state (junctionTask.result sampleObjects).2 ⟨some 16, some 17⟩ ∧
      run.2.graph.entering 16 = [⟨14, 16, .next⟩] := by
  have hobjects : sampleObjects.Fresh ∧ sampleObjects.Holds samplePool.instances.size :=
    ⟨by decide +kernel, by decide +kernel⟩
  have hrule : ((node sampleObjects true branchingRule).run branchingStart).1 =
      .ok ⟨some 14, some 17⟩ := by decide +kernel
  have hjunction : (junctionTask.result sampleObjects).1 = .ok ⟨some 16, some 17⟩ := by
    decide +kernel
  obtain ⟨hafter, -⟩ := segment_after sampleObjects (sampleRules.map .rule) samplePool hobjects
    (by decide +kernel)
  obtain ⟨-, hpoints⟩ := segment_after sampleObjects
    (sampleRules.map .rule ++ [.node true branchingRule]) samplePool hobjects (by decide +kernel)
  refine ⟨?_, ?_, by decide +kernel⟩
  · exact hafter true branchingRule _ _ ⟨by decide +kernel, by decide +kernel⟩ (run_eq_ok hrule)
  · exact hpoints _ _ _ _ point_junctionTask (run_eq_ok hjunction)

end Compile

end Routing
