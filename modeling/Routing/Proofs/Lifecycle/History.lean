import Mathlib.Data.List.Induction
/-!
# Histories of stages

The history of a stage lists the calls that started and stopped it, the oldest first. `Alternates`
says that every stop takes back a successful start and that no start comes on top of one.
-/

namespace Routing

/-- What a call asks of a stage. -/
inductive Request where
  | init
  | deinit
  deriving DecidableEq, Repr

/-- A call on a stage: what it asked, the time, and whether it went well. -/
structure Entry where
  request : Request
  tick : Nat
  ok : Bool
  deriving DecidableEq, Repr

/-- A successful start that no stop has followed yet. -/
def Pending (l : List Entry) : Prop :=
  ∃ l₁ e l₂, l = l₁ ++ e :: l₂ ∧ e.request = .init ∧ e.ok = true ∧ ∀ e' ∈ l₂, e'.request ≠ .deinit

/-- A stop comes only while a start is pending, and a start only while none is. -/
def Alternates (l : List Entry) : Prop :=
  ∀ l₁ e l₂, l = l₁ ++ e :: l₂ →
    (e.request = .deinit → Pending l₁) ∧ (e.request = .init → ¬ Pending l₁)

/-- The number of successful starts. -/
def starts (l : List Entry) : Nat :=
  l.countP fun e => e.request = .init ∧ e.ok

/-- The number of stops. -/
def stops (l : List Entry) : Nat :=
  l.countP fun e => e.request = .deinit

variable {l : List Entry} {e : Entry}

theorem not_pending_nil : ¬ Pending [] := by
  rintro ⟨l₁, e, l₂, h, -⟩
  simp at h

theorem alternates_nil : Alternates [] := by
  intro l₁ e l₂ h
  simp at h

theorem append_cons_eq_concat {α : Type} {l l₁ l₂ : List α} {a b : α} :
    l ++ [a] = l₁ ++ b :: l₂ ↔
      (∃ l₃, l₂ = l₃ ++ [a] ∧ l = l₁ ++ b :: l₃) ∨ (l₂ = [] ∧ l = l₁ ∧ a = b) := by
  rcases List.eq_nil_or_concat l₂ with rfl | ⟨l₃, c, hc⟩
  · constructor
    · intro h
      obtain ⟨h₁, h₂⟩ := List.append_inj' h rfl
      exact .inr ⟨rfl, h₁, by simpa using h₂⟩
    · rintro (⟨l₃, h, -⟩ | ⟨-, rfl, rfl⟩)
      · simp at h
      · rfl
  · rw [List.concat_eq_append] at hc
    subst hc
    constructor
    · intro h
      rw [← List.cons_append, ← List.append_assoc] at h
      obtain ⟨h₁, h₂⟩ := List.append_inj' h rfl
      obtain rfl : a = c := by simpa using h₂
      exact .inl ⟨l₃, rfl, h₁⟩
    · rintro (⟨l₄, h, rfl⟩ | ⟨h, -⟩)
      · obtain ⟨rfl, h₂⟩ := List.append_inj' h rfl
        obtain rfl : c = a := by simpa using h₂
        simp
      · simp at h

theorem pending_concat : Pending (l ++ [e]) ↔ e.request = .init ∧ (e.ok = true ∨ Pending l) := by
  constructor
  · rintro ⟨l₁, e', l₂, h, hr, hok, hl⟩
    rcases append_cons_eq_concat.1 h with ⟨l₃, rfl, hlast⟩ | ⟨rfl, rfl, rfl⟩
    · have he : e.request = .init := by
        cases hreq : e.request with
        | init => rfl
        | deinit => exact absurd hreq (hl e (by simp))
      exact ⟨he, .inr ⟨l₁, e', l₃, hlast, hr, hok, fun e'' he'' => hl e'' (by simp [he''])⟩⟩
    · exact ⟨hr, .inl hok⟩
  · rintro ⟨hr, hok | ⟨l₁, e', l₂, rfl, hr', hok', hl⟩⟩
    · exact ⟨l, e, [], rfl, hr, hok, by simp⟩
    · refine ⟨l₁, e', l₂ ++ [e], by simp, hr', hok', fun e'' he'' => ?_⟩
      rcases List.mem_append.1 he'' with he'' | he''
      · exact hl e'' he''
      · rw [List.mem_singleton.1 he'', hr]
        simp

theorem alternates_concat :
    Alternates (l ++ [e]) ↔
      Alternates l ∧ (e.request = .deinit → Pending l) ∧ (e.request = .init → ¬ Pending l) := by
  constructor
  · intro h
    refine ⟨fun l₁ e' l₂ hl => h l₁ e' (l₂ ++ [e]) (by simp [hl]), h l e [] rfl⟩
  · rintro ⟨h, he⟩ l₁ e' l₂ hl
    rcases append_cons_eq_concat.1 hl with ⟨l₃, -, hl⟩ | ⟨-, rfl, rfl⟩
    · exact h l₁ e' l₃ hl
    · exact he

/-- There are as many stops as successful starts, but for a pending one. -/
theorem Alternates.balanced (h : Alternates l) :
    (Pending l → starts l = stops l + 1) ∧ (¬ Pending l → starts l = stops l) := by
  induction l using List.reverseRecOn with
  | nil => exact ⟨fun hp => absurd hp not_pending_nil, fun _ => rfl⟩
  | append_singleton l e ih =>
    obtain ⟨hl, hdeinit, hinit⟩ := alternates_concat.1 h
    obtain ⟨ihp, ihn⟩ := ih hl
    have hstarts : starts (l ++ [e]) = starts l + if e.request = .init ∧ e.ok then 1 else 0 := by
      simp [starts, List.countP_append, List.countP_cons]
    have hstops : stops (l ++ [e]) = stops l + if e.request = .deinit then 1 else 0 := by
      simp [stops, List.countP_append, List.countP_cons]
    rw [pending_concat, hstarts, hstops]
    cases hreq : e.request with
    | init =>
      have hn := hinit hreq
      have := ihn hn
      cases hok : e.ok <;> simp [hn, this]
    | deinit =>
      have := ihp (hdeinit hreq)
      simp [this]

end Routing
