import Routing.Deployment
import Routing.Proofs.Lifecycle.Recorded
/-!
# Calls on the stages of a deployment

`Traced d d' calls` says that between two moments exactly these calls were made on the stages of the
slots, in this order. `Tracked` is what holds at every moment: histories alternate, and the mark of a
slot tells whether a start of its stage is pending. Starting and stopping one stage keep it.
-/

namespace Routing

variable {σ ω : Type}

/-- A call on the stage of a slot. -/
structure SlotCall where
  slot : SlotId
  request : Request
  ok : Bool
  deriving DecidableEq, Repr

/-- The entries that calls from some time on leave in the history of the stage of a slot. -/
def entriesFrom (clock : Nat) (x : SlotId) : List SlotCall → List Entry
  | [] => []
  | c :: cs =>
    (if c.slot = x then [⟨c.request, clock, c.ok⟩] else []) ++ entriesFrom (clock + 1) x cs

theorem entriesFrom_append (clock : Nat) (x : SlotId) (cs ds : List SlotCall) :
    entriesFrom clock x (cs ++ ds) =
      entriesFrom clock x cs ++ entriesFrom (clock + cs.length) x ds := by
  induction cs generalizing clock with
  | nil => rfl
  | cons c cs ih =>
    have hlen : clock + (cs.length + 1) = clock + 1 + cs.length := by omega
    simp [entriesFrom, ih, hlen]

/-- The handle of the stage in a slot. -/
def Graph.handle? (g : Graph) (x : SlotId) : Option Handle :=
  (g.slot? x).map (·.handle)

namespace Deployment

/-- The calls that started and stopped the stage of a handle. -/
def history (d : Deployment (Recorded σ) (Clocked ω)) (h : Handle) : List Entry :=
  d.pool.history h

/-- The time. -/
def clock (d : Deployment (Recorded σ) (Clocked ω)) : Nat :=
  d.pool.clock

/-- Between two moments these calls were made, in this order, and no others. -/
structure Traced (d d' : Deployment (Recorded σ) (Clocked ω)) (calls : List SlotCall) : Prop where
  clock : d'.clock = d.clock + calls.length
  placed : ∀ c ∈ calls, ∃ h, d'.graph.handle? c.slot = some h
  history : ∀ {x h}, d'.graph.handle? x = some h →
    d'.history h = d.history h ++ entriesFrom d.clock x calls
  elsewhere : ∀ {h}, (∀ x, d'.graph.handle? x ≠ some h) → d'.history h = d.history h

/-- What holds at every moment. -/
structure Tracked (d : Deployment (Recorded σ) (Clocked ω)) : Prop where
  handle_lt : ∀ {x h}, d.graph.handle? x = some h → h < d.pool.instances.size
  distinct : ∀ {x y h}, d.graph.handle? x = some h → d.graph.handle? y = some h → x = y
  alternates : ∀ h, Alternates (d.history h)
  /-- A slot is marked as long as the start of its stage is pending. -/
  pending : ∀ {x s}, d.graph.slot? x = some s →
    (s.initialized = true ↔ Pending (d.history s.handle))
  elsewhere : ∀ {h}, (∀ x, d.graph.handle? x ≠ some h) → d.history h = []

/-- A call was made on the stage of a slot, and the slot is marked accordingly. -/
structure Called (d d' : Deployment (Recorded σ) (Clocked ω)) (x : SlotId) (s : Slot)
    (request : Request) (ok : Bool) : Prop where
  logged : d.pool.Logged s.handle ⟨request, d.clock, ok⟩ d'.pool
  slot : ∀ y, d'.graph.slot? y =
    if y = x then some { s with initialized := request = .init ∧ ok } else d.graph.slot? y

variable {d d₁ d' : Deployment (Recorded σ) (Clocked ω)} {x y : SlotId} {s t : Slot}
  {request : Request} {ok : Bool} {calls calls' : List SlotCall}

/-! ### Traces -/

theorem Traced.refl (d : Deployment (Recorded σ) (Clocked ω)) : Traced d d [] where
  clock := rfl
  placed _ h := absurd h List.not_mem_nil
  history _ := (List.append_nil _).symm
  elsewhere _ := rfl

theorem Traced.trans (h : Traced d d₁ calls) (h' : Traced d₁ d' calls')
    (hslots : ∀ y, d'.graph.handle? y = d₁.graph.handle? y) : Traced d d' (calls ++ calls') where
  clock := by rw [h'.clock, h.clock, List.length_append, Nat.add_assoc]
  placed c hc := by
    rcases List.mem_append.1 hc with hc | hc
    · rw [hslots]; exact h.placed c hc
    · exact h'.placed c hc
  history {y h₀} hy := by
    have hy₁ := hslots y ▸ hy
    rw [h'.history hy, h.history hy₁, entriesFrom_append, h.clock, List.append_assoc]
  elsewhere {h₀} hh := by
    have hh₁ : ∀ y, d₁.graph.handle? y ≠ some h₀ := fun y => hslots y ▸ hh y
    rw [h'.elsewhere hh, h.elsewhere hh₁]

theorem Traced.congr (h : Traced d d₁ calls) (hg : d'.graph = d₁.graph) (hp : d'.pool = d₁.pool) :
    Traced d d' calls := by
  have hclock : d'.clock = d₁.clock := congrArg Pool.clock hp
  have hhistory : ∀ h, d'.history h = d₁.history h := fun h => congrArg (Pool.history · h) hp
  refine ⟨hclock.trans h.clock, fun c hc => ?_, fun hx => ?_, fun hh => ?_⟩
  · rw [hg]; exact h.placed c hc
  · rw [hg] at hx
    rw [hhistory]; exact h.history hx
  · rw [hg] at hh
    rw [hhistory]; exact h.elsewhere hh

theorem Tracked.congr (h : d.Tracked) (hg : d'.graph = d.graph) (hp : d'.pool = d.pool) :
    d'.Tracked := by
  have hhistory : ∀ h, d'.history h = d.history h := fun h => congrArg (Pool.history · h) hp
  refine ⟨?_, ?_, ?_, ?_, ?_⟩
  · intro x h₀ hx
    rw [hg] at hx
    rw [hp]; exact h.handle_lt hx
  · rw [hg]; exact h.distinct
  · intro h₀
    rw [hhistory]; exact h.alternates h₀
  · intro x s hs
    rw [hg] at hs
    rw [hhistory]; exact h.pending hs
  · intro h₀ hh
    rw [hg] at hh
    rw [hhistory]; exact h.elsewhere hh

/-! ### One call -/

theorem Called.handle? (h : Called d d' x s request ok) (hs : d.graph.slot? x = some s)
    (y : SlotId) : d'.graph.handle? y = d.graph.handle? y := by
  rw [Graph.handle?, h.slot, Graph.handle?]
  split
  · next heq => rw [heq, hs]; rfl
  · rfl

theorem Called.traced (h : Called d d' x s request ok) (hd : d.Tracked)
    (hs : d.graph.slot? x = some s) : Traced d d' [⟨x, request, ok⟩] := by
  have hx : d.graph.handle? x = some s.handle := by rw [Graph.handle?, hs]; rfl
  refine ⟨h.logged.clock, fun c hc => ?_, fun {y h₀} hy => ?_, fun {h₀} hh => ?_⟩
  · rw [List.mem_singleton.1 hc, h.handle? hs]
    exact ⟨_, hx⟩
  · rw [h.handle? hs] at hy
    by_cases hxy : x = y
    · subst hxy
      obtain rfl : s.handle = h₀ := Option.some.inj (hx.symm.trans hy)
      have hself : d'.history s.handle = d.history s.handle ++ _ := h.logged.self
      rw [hself]
      simp [entriesFrom]
    · have hne : h₀ ≠ s.handle := fun heq => hxy (hd.distinct hx (heq ▸ hy))
      have hother : d'.history h₀ = d.history h₀ := h.logged.other hne
      rw [hother]
      simp [entriesFrom, hxy]
  · refine h.logged.other fun heq => hh x ?_
    rw [h.handle? hs, hx, heq]

/-- A call keeps the histories in order if it starts what is stopped or stops what is started. -/
theorem Called.tracked (h : Called d d' x s request ok) (hd : d.Tracked)
    (hs : d.graph.slot? x = some s) (hlegal : s.initialized = true ↔ request = .deinit) :
    d'.Tracked := by
  have hx : d.graph.handle? x = some s.handle := by rw [Graph.handle?, hs]; rfl
  have hself : d'.history s.handle = d.history s.handle ++ [⟨request, d.clock, ok⟩] := h.logged.self
  have hother : ∀ {h₀}, h₀ ≠ s.handle → d'.history h₀ = d.history h₀ := h.logged.other
  have hpending := hd.pending hs
  refine ⟨fun hy => ?_, fun hy hz => ?_, fun h₀ => ?_, fun {y t} ht => ?_, fun {h₀} hh => ?_⟩
  · rw [h.handle? hs] at hy
    exact Nat.lt_of_lt_of_eq (hd.handle_lt hy) h.logged.size.symm
  · rw [h.handle? hs] at hy hz
    exact hd.distinct hy hz
  · by_cases heq : h₀ = s.handle
    · rw [heq, hself]
      refine alternates_concat.2 ⟨hd.alternates _, fun hr => ?_, fun hr hp => ?_⟩
      · exact hpending.1 (hlegal.2 hr)
      · have hinit : request = .init := hr
        have hdeinit := hlegal.1 (hpending.2 hp)
        rw [hinit] at hdeinit; cases hdeinit
    · rw [hother heq]
      exact hd.alternates h₀
  · rw [h.slot] at ht
    split at ht
    · obtain rfl := Option.some.inj ht
      rw [hself, pending_concat]
      cases request with
      | deinit => simp
      | init =>
        have hn : ¬ Pending (d.history s.handle) := fun hp => by
          have := hlegal.1 (hpending.2 hp)
          cases this
        simp [hn]
    · next hne =>
      have hy : d.graph.handle? y = some t.handle := by rw [Graph.handle?, ht]; rfl
      rw [hother fun heq => hne (hd.distinct (heq ▸ hy) hx)]
      exact hd.pending ht
  · have hh : ∀ y, d.graph.handle? y ≠ some h₀ := fun y => h.handle? hs y ▸ hh y
    have hne : h₀ ≠ s.handle := fun heq => hh x (by rw [heq]; exact hx)
    rw [hother hne]
    exact hd.elsewhere hh

/-! ### Starting and stopping one stage -/

theorem slot?_modify_eq {g : Graph} {f : Slot → Slot} (hs : g.slot? x = some s) (y : SlotId) :
    (g.modify x f).slot? y = if y = x then some (f s) else g.slot? y := by
  rw [Graph.slot?_modify]
  split
  · next heq => rw [heq, hs]; rfl
  · rfl

variable [Stage σ ω]

theorem called_startSlot (hd : d.Tracked) (hs : d.graph.slot? x = some s)
    (hi : s.initialized = false) :
    Called d (d.startSlot x s).2 x s .init (d.startSlot x s).1.isNone ∧
      ∀ f, (d.startSlot x s).1 = some f → f.slot = x := by
  have hlt : s.handle < d.pool.instances.size := hd.handle_lt (x := x) (by rw [Graph.handle?, hs]; rfl)
  have hlogged := Pool.logged_init d.settings hlt
  unfold startSlot
  rcases hr : d.pool.init d.settings s.handle with ⟨r, events, pool⟩
  rw [hr] at hlogged
  cases r with
  | ok _ =>
    refine ⟨⟨hlogged, fun y => ?_⟩, fun f hf => by cases hf⟩
    exact slot?_modify_eq hs y
  | error e =>
    refine ⟨⟨hlogged, fun y => ?_⟩, fun f hf => by cases hf; rfl⟩
    -- A stage that does not start keeps its slot as it was.
    have hmark : { s with initialized := false } = s := by rw [← hi]
    change d.graph.slot? y = if y = x then some { s with initialized := false } else d.graph.slot? y
    split
    · next heq => rw [hmark, heq, hs]
    · rfl

theorem called_stopSlot (hd : d.Tracked) (hs : d.graph.slot? x = some s) :
    Called d (d.stopSlot x s).2 x s .deinit (d.stopSlot x s).1.isNone ∧
      ∀ f, (d.stopSlot x s).1 = some f → f.slot = x := by
  have hlt : s.handle < d.pool.instances.size := hd.handle_lt (x := x) (by rw [Graph.handle?, hs]; rfl)
  have hlogged := Pool.logged_deinit hlt
  unfold stopSlot
  rcases hr : d.pool.deinit s.handle with ⟨r, events, pool⟩
  rw [hr] at hlogged
  cases r with
  | ok _ =>
    refine ⟨⟨hlogged, fun y => ?_⟩, fun f hf => by cases hf⟩
    exact slot?_modify_eq hs y
  | error e =>
    refine ⟨⟨hlogged, fun y => ?_⟩, fun f hf => by cases hf; rfl⟩
    exact slot?_modify_eq hs y

end Deployment

end Routing
