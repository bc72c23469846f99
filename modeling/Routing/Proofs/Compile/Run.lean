import Routing.Proofs.Compile.Tally
/-!
# Compiling all statements

Every statement compiles that is not settled before. What compiling leaves, also where it fails, is
sound.
-/

namespace Routing

variable {σ ω : Type} [Stage σ ω]

namespace Compile

open Build

variable {b : Build σ ω} {objects : Objects} {jump : Option (Run σ ω)}

theorem tally_true : Tally objects (fun _ => True)
    (fun _ _ _ => True : Build σ ω → Trace σ ω → Build σ ω → Prop) (fun _ _ _ => True) where
  refl _ := trivial
  weaken _ := trivial
  trans _ _ := trivial
  trans_failed _ _ := trivial
  glue _ _ := trivial
  place _ _ _ := trivial
  refuse _ := trivial
  again _ _ := trivial
  first _ _ _ _ _ _ _ _ := trivial
  abandon _ _ _ _ _ := trivial

variable (σ ω) in
/-- Statements compile. -/
abbrev sound : Scheme σ ω := Tally.scheme (fun _ _ _ => True) fun _ _ _ => True

omit [Stage σ ω] in
theorem meets_sound {s : Statement} {fc : Bool} {x : Compile σ ω Fragment}
    {trace : Build σ ω → Trace σ ω} :
    (sound σ ω).Meets s fc x trace ↔ ∀ b, b.Sound → Compiles b x := by
  constructor
  · intro h b hb
    exact wp_mono (h b ⟨hb, trivial⟩) (fun _ _ h => h.1) fun _ _ h => h.1
  · intro h b hb
    exact wp_mono (h b hb.1) (fun _ _ h => ⟨h, trivial⟩) fun _ _ h => ⟨h, trivial⟩

omit [Stage σ ω] in
theorem each_fresh {s : Statement} :
    s.Each (fun p => p.heading.memo = none ∧ True) ↔ s.Fresh := by
  simp only [and_true, Statement.Fresh]

/-- What references by name lead to compiles. -/
def Jumps (jump : Option (Run σ ω)) : Prop :=
  ∀ run ∈ jump, ∀ s : Statement, s.Fresh → ∀ (b : Build σ ω), b.Sound → ∀ around fc,
    Compiles b (run around fc s)

theorem compiles_statement (hobjects : objects.Fresh) (hjump : Jumps jump) (s : Statement)
    (hs : s.Fresh) (b : Build σ ω) (hb : b.Sound) (around : Option Location) (fc : Bool) :
    Compiles b (statement objects jump around fc s) := by
  have hmeets : ∀ run ∈ jump, ∀ s : Statement, s.Each (fun p => p.heading.memo = none ∧ True) →
      ∀ around fc, (sound σ ω).Meets s fc (run around fc s) fun _ => [] := by
    intro run hrun s hs around fc
    exact meets_sound.2 fun b hb => hjump run hrun s (each_fresh.1 hs) b hb around fc
  obtain ⟨trace, h⟩ := tally_true.lawful.exists_meets_statement
    (fun entry he => each_fresh.2 (hobjects entry he)) hmeets s (each_fresh.2 hs) around fc
  exact meets_sound.1 h b hb

theorem compiles_upTo (hobjects : objects.Fresh) (depth : Nat) (s : Statement) (hs : s.Fresh)
    (b : Build σ ω) (hb : b.Sound) (around : Option Location) (fc : Bool) :
    Compiles b (upTo objects depth around fc s) :=
  meets_sound.1 (tally_true.lawful.meets_upTo (fun entry he => each_fresh.2 (hobjects entry he))
    depth s (each_fresh.2 hs) around fc) b hb

theorem compiles_node (hobjects : objects.Fresh) (hb : b.Sound) {s : Statement} (hs : s.Fresh)
    (fc : Bool) : Compiles b (node objects fc s) :=
  compiles_upTo hobjects _ s hs b hb none fc

theorem compiles_rule (hobjects : objects.Fresh) (hb : b.Sound) {s : Statement} (hs : s.Fresh) :
    Compiles b (rule objects s) :=
  compiles_node hobjects hb (hs.expandCatchAll objects) false

end Compile

end Routing
