import Routing.Proofs.Compile.Placed
import Routing.Proofs.Lifecycle.History
/-!
# Recorded stages

`Recorded σ` are the stages of `σ` that keep their histories; the time is counted in what they
share. A clone starts with an empty history. Recorded stages do what the stages do that they record.
-/

namespace Routing

/-- A stage and the calls that started and stopped it. -/
structure Recorded (σ : Type) where
  stage : σ
  history : List Entry := []

/-- What stages share, and the number of calls that started or stopped one of them. -/
structure Clocked (ω : Type) where
  shared : ω
  clock : Nat := 0

variable {σ ω : Type}

/-- The reply to a call with the call recorded. -/
def Recorded.record (request : Request) (s : Recorded σ) (c : Clocked ω)
    (r : Reply σ ω (Except StageError Unit)) :
    Reply (Recorded σ) (Clocked ω) (Except StageError Unit) where
  value := r.value
  stage := ⟨r.stage, s.history ++ [⟨request, c.clock, r.value.isOk⟩]⟩
  shared := ⟨r.shared, c.clock + 1⟩
  events := r.events

instance [Stage σ ω] : Stage (Recorded σ) (Clocked ω) where
  label s := Stage.label s.stage
  capabilities s := Stage.capabilities s.stage
  clone s c :=
    let (copy, shared) := Stage.clone s.stage c.shared
    (copy.map fun stage => { stage }, { c with shared })
  init settings s c := s.record .init c (Stage.init settings s.stage c.shared)
  deinit s c := s.record .deinit c (Stage.deinit s.stage c.shared)
  queue message s c :=
    let r := Stage.queue message s.stage c.shared
    { r with stage := { s with stage := r.stage }, shared := { c with shared := r.shared } }
  multiplexer := { stage := Stage.multiplexer }
  passThrough := { stage := Stage.passThrough }
  capabilities_multiplexer := Stage.capabilities_multiplexer
  capabilities_passThrough := Stage.capabilities_passThrough

namespace Pool

/-- The calls that started and stopped the stage of a handle. -/
def history (p : Pool (Recorded σ) (Clocked ω)) (h : Handle) : List Entry :=
  ((p.stage? h).map (·.history)).getD []

/-- The time. -/
def clock (p : Pool (Recorded σ) (Clocked ω)) : Nat :=
  p.shared.clock

/-- A call on the stage of a handle is recorded. -/
structure Logged (p : Pool (Recorded σ) (Clocked ω)) (h : Handle) (e : Entry)
    (p' : Pool (Recorded σ) (Clocked ω)) : Prop where
  size : p'.instances.size = p.instances.size
  clock : p'.clock = p.clock + 1
  tick : e.tick = p.clock
  self : p'.history h = p.history h ++ [e]
  other : ∀ {h'}, h' ≠ h → p'.history h' = p.history h'

variable {p : Pool (Recorded σ) (Clocked ω)} {h : Handle}

theorem logged_update (request : Request) {s : Recorded σ} (hs : p.stage? h = some s)
    (r : Reply σ ω (Except StageError Unit)) :
    Logged p h ⟨request, p.clock, r.value.isOk⟩
      (p.update h (s.record request p.shared r).stage (s.record request p.shared r).shared) where
  size := size_update
  clock := rfl
  tick := rfl
  self := by
    have hlt := lt_of_stage hs
    rw [history, stage?_update hlt, if_pos rfl, history, hs]
    rfl
  other hne := by
    rw [history, stage?_update (lt_of_stage hs), if_neg hne, history]

variable [Stage σ ω]

theorem logged_init (settings : Settings) (hlt : h < p.instances.size) :
    Logged p h ⟨.init, p.clock, (p.init settings h).1.isOk⟩ (p.init settings h).2.2 := by
  obtain ⟨s, hs⟩ := exists_stage hlt
  have hr := logged_update .init hs (Stage.init settings s.stage p.shared.shared)
  simp only [init, call, hs]
  exact hr

theorem logged_deinit (hlt : h < p.instances.size) :
    Logged p h ⟨.deinit, p.clock, (p.deinit h).1.isOk⟩ (p.deinit h).2.2 := by
  obtain ⟨s, hs⟩ := exists_stage hlt
  have hr := logged_update .deinit hs (Stage.deinit s.stage p.shared.shared)
  simp only [deinit, call, hs]
  exact hr

/-- No stage was started or stopped. -/
def Unused (p : Pool (Recorded σ) (Clocked ω)) : Prop :=
  ∀ h, p.history h = []

namespace Unused

omit [Stage σ ω]

theorem add (hp : p.Unused) {s : Recorded σ} (hs : s.history = []) : (p.add s).2.Unused := by
  intro h
  rw [history, stage?_add]
  split
  · exact hs
  · exact hp h

theorem of_all (h : ∀ i ∈ p.instances, i.stage.history = []) : p.Unused := by
  intro h'
  unfold history stage?
  cases hi : p.instances[h']? with
  | none => rfl
  | some i => exact h i (Array.mem_of_getElem? hi)

theorem mark (hp : p.Unused) (h : Handle) : (p.markInlined h).Unused := by
  intro h'
  rw [history, stage?_markInlined]
  exact hp h'

end Unused

end Pool

namespace Build

theorem stable_unused [Stage σ ω] (n clock : Nat) :
    Compile.Stable n fun b : Build (Recorded σ) (Clocked ω) =>
      b.pool.Unused ∧ b.pool.clock = clock where
  own {b stage role} hs hb := by
    have hempty : stage.history = [] := by rcases hs with rfl | rfl <;> rfl
    exact ⟨hb.1.add hempty, hb.2⟩
  wire hb := hb
  enable _ hb := hb
  mark hb := hb
  single {handle} h here hlt := by
    intro b hb
    -- Cloning changes what is shared, but not the time, and the clone is new.
    have hclock : ∀ {s : Recorded σ} {copy shared},
        Stage.clone s b.pool.shared = (copy, shared) → shared.clock = b.pool.clock := by
      intro s copy shared hc
      obtain rfl : _ = shared := congrArg Prod.snd hc
      rfl
    have hcopy : ∀ {s copy : Recorded σ} {shared},
        Stage.clone s b.pool.shared = (some copy, shared) → copy.history = [] := by
      intro s copy shared hc
      obtain ⟨stage, -, rfl⟩ := Option.map_eq_some_iff.1 (congrArg Prod.fst hc)
      rfl
    refine Compile.wp_single (fun handle' role p hr => ?_) fun p hr => ?_
    · cases hr with
      | declared _ => exact ⟨hb.1.mark _, hb.2⟩
      | cloned _ _ hc =>
        refine ⟨(Pool.Unused.add ?_ (hcopy hc)).mark _, (hclock hc).trans hb.2⟩
        exact hb.1
    · cases hr with
      | absent _ => exact hb
      | refused _ hc => exact ⟨hb.1, (hclock hc).trans hb.2⟩

end Build

end Routing
