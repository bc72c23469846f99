import Routing.Document.Build
/-!
# Weakest preconditions of building

`wp x Q E s` says what a step of building leads to from the site `s`: `Q` of its result and the site
after it if it succeeds, and `E` of its failure if it fails. What a failed step leaves is not used.
-/

namespace Routing.Building

variable {σ ω α β : Type}

/-- What a step leads to: `Q` if it succeeds and `E` if it fails. -/
def wp (x : Building σ ω α) (Q : α → Site σ ω → Prop) (E : Failure → Prop) (s : Site σ ω) : Prop :=
  match x.run s with
  | (.ok a, s') => Q a s'
  | (.error e, _) => E e

variable {Q Q' : α → Site σ ω → Prop} {E E' : Failure → Prop} {s s' : Site σ ω}

theorem wp_mono {x : Building σ ω α} (h : wp x Q E s) (hQ : ∀ a s', Q a s' → Q' a s')
    (hE : ∀ e, E e → E' e) : wp x Q' E' s := by
  unfold wp at h ⊢
  split at h
  · exact hQ _ _ h
  · exact hE _ h

theorem wp_ok {x : Building σ ω α} (h : wp x Q E s) {a : α} (hx : x.run s = (.ok a, s')) :
    Q a s' := by
  unfold wp at h
  rwa [hx] at h

theorem wp_error {x : Building σ ω α} (h : wp x Q E s) {e : Failure}
    (hx : x.run s = (.error e, s')) : E e := by
  unfold wp at h
  rwa [hx] at h

@[simp] theorem wp_pure (a : α) : wp (pure a) Q E s ↔ Q a s := Iff.rfl

@[simp] theorem wp_throw (e : Failure) : wp (throw e : Building σ ω α) Q E s ↔ E e := Iff.rfl

@[simp] theorem wp_bind {Q : β → Site σ ω → Prop} (x : Building σ ω α) (f : α → Building σ ω β) :
    wp (x >>= f) Q E s ↔ wp x (fun a s' => wp (f a) Q E s') E s := by
  unfold wp
  simp only [ExceptT.run, bind, ExceptT.bind, ExceptT.mk, StateT.bind, ExceptT.bindCont]
  rcases x s with ⟨_ | _, _⟩ <;> rfl

/-- The failure of a step gets a context. -/
@[simp] theorem wp_inContext (context : String) (x : Building σ ω α) :
    wp (inContext context x) Q E s ↔ wp x Q (fun e => E (.within context e)) s := by
  unfold wp inContext
  simp only [tryCatch, tryCatchThe, MonadExceptOf.tryCatch, ExceptT.tryCatch, ExceptT.run,
    ExceptT.mk, bind, StateT.bind]
  rcases x s with ⟨_ | _, _⟩ <;> rfl

@[simp] theorem wp_get {Q : Site σ ω → Site σ ω → Prop} :
    wp (get : Building σ ω (Site σ ω)) Q E s ↔ Q s s := Iff.rfl

@[simp] theorem wp_set {Q : PUnit → Site σ ω → Prop} (s' : Site σ ω) :
    wp (set s' : Building σ ω PUnit) Q E s ↔ Q ⟨⟩ s' := Iff.rfl

@[simp] theorem wp_modify {Q : PUnit → Site σ ω → Prop} (f : Site σ ω → Site σ ω) :
    wp (modify f : Building σ ω PUnit) Q E s ↔ Q ⟨⟩ (f s) := Iff.rfl

@[simp] theorem wp_log {Q : Unit → Site σ ω → Prop} (events : List Event) :
    wp (log events) Q E s ↔ Q () { s with events := s.events ++ events } := Iff.rfl

@[simp] theorem wp_newSerial {Q : Nat → Site σ ω → Prop} :
    wp newSerial Q E s ↔ Q s.serial { s with serial := s.serial + 1 } := Iff.rfl

end Routing.Building
