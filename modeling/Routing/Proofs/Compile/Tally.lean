import Routing.Proofs.Compile.Glue
import Routing.Proofs.Compile.Grounded
/-!
# Tallies

A `Tally` is kept of the trace while statements are compiled that are not settled before: a relation
between the state before, the trace and the state after. It has to hold of each step: a stage gets
its place, a reference is joined to its target, or parts are joined together. Then it holds of all
statements, and they compile.
-/

namespace Routing

variable {σ ω : Type} [Stage σ ω]

namespace Compile

open Build

/-- What is true of the state before, the trace and the state after: `R` if compiling succeeds, `R'`
if it fails. The laws speak of sound states and of statements that are not settled before. -/
structure Tally (objects : Objects) (P : Statement → Prop)
    (R R' : Build σ ω → Trace σ ω → Build σ ω → Prop) : Prop where
  refl : ∀ {b}, b.Sound → R b [] b
  weaken : ∀ {b l b'}, R b l b' → R' b l b'
  trans : ∀ {b l b₁ l' b'}, R b l b₁ → R b₁ l' b' → R b (l ++ l') b'
  trans_failed : ∀ {b l b₁ l' b'}, R b l b₁ → R' b₁ l' b' → R' b (l ++ l') b'
  glue : ∀ {b b'}, b.Sound → Glued b b' → R b [] b'
  /-- A stage gets its place. -/
  place : ∀ {b p handle} {s : Slot}, b.Sound → s.next = none → s.hops = [] →
    R b [.placed handle b.graph.size (b.grow p s)] (b.grow p s)
  /-- A stage refuses to be cloned. -/
  refuse : ∀ {b p}, b.Sound → R' b [] { b with pool := p }
  again : ∀ {b key f b'}, b.Sound → JoinedAgain key b f b' → R b [.joined key f b b'] b'
  first : ∀ {s key t b l b₁ f f' b'}, P s → s.target? objects = some (key, t) →
    (∀ m ∈ l, ∀ key' ∈ m.key?, objects.Leads t key') →
    (key.Shared → b.memos.lookup key = none) → Progress b b₁ → Fits b b₁ f → R b l b₁ →
    JoinedFirst key b₁ f f' b' → R b (.opened key b :: l ++ [.joined key f' b b']) b'
  /-- A target fails to compile, or has no end to which a reference could be joined. -/
  abandon : ∀ {s key t b l b'}, P s → s.target? objects = some (key, t) →
    (∀ m ∈ l, ∀ key' ∈ m.key?, objects.Leads t key') →
    (key.Shared → b.memos.lookup key = none) → R' b l b' → R' b (.opened key b :: l) b'

namespace Tally

variable {objects : Objects} {P : Statement → Prop}
  {R R' : Build σ ω → Trace σ ω → Build σ ω → Prop}

omit [Stage σ ω] in
/-- Statements compile, and the tally is kept. -/
def scheme (R R' : Build σ ω → Trace σ ω → Build σ ω → Prop) : Scheme σ ω :=
  Scheme.grounded
    { ready := fun _ => True
      done := fun _ _ b l _ b' => R b l b'
      failed := fun b l _ b' => R' b l b'
      chained := fun _ _ b l _ b' => R b l b'
      branched := fun _ _ b l _ b' => R b l b' }

/-- Joining parts adds no moment to the trace. -/
theorem trans_glue (hR : Tally objects P R R') {b₀ b b' : Build σ ω} {l : Trace σ ω}
    (h : R b₀ l b) (hb : b.Sound) (hg : Glued b b') : R b₀ l b' := by
  have h' := hR.trans h (hR.glue hb hg)
  rwa [List.append_nil] at h'

theorem lawful (hR : Tally objects P R R') :
    (scheme R R').Lawful objects fun p => p.heading.memo = none ∧ P p := by
  refine Grounded.lawful
    { throw := fun hb _ => hR.weaken (hR.refl hb)
      place := fun _ _ hb _ _ _ hn hh => hR.place hb hn hh
      refuse := fun hb _ _ => hR.refuse hb
      again := fun _ _ _ _ hb _ hj => hR.again hb hj
      first := fun _ hs ht _ hwithin hnew hp hf h hj => hR.first hs ht hwithin hnew hp hf h hj
      abandon := fun hs ht hwithin hnew h => hR.abandon hs ht hwithin hnew h
      blank := fun hs ht hwithin hnew h => hR.abandon hs ht hwithin hnew (hR.weaken h)
      chain_start := fun hb _ => hR.refl hb
      chain_ready := fun _ => trivial
      chain_failed := fun h h' => hR.trans_failed h h'
      chain_add := ?_
      chain_finish := ?_
      branch_start := fun hb _ => hR.refl hb
      branch_ready := fun _ => trivial
      branch_failed := fun h h' => hR.trans_failed h h'
      branch_add := ?_
      branch_finish := ?_ }
  · intro _ _ b₀ l c b _ l' f b' node _ _ hp' _ h h'
    have hglue := (linear_glued b').chain_add c node f b' (.refl b')
    have hR' : ∀ {b''}, Glued b' b'' → R b₀ (l ++ l') b'' := hR.trans_glue (hR.trans h h') hp'.sound
    exact wp_mono hglue (fun _ _ => hR') fun _ _ hg => hR.weaken (hR' hg)
  · intro h _ _ fc b₀ l c b _ hp _ hl
    have hglue := (linear_glued b).chain_finish c h.flags fc b (.refl b)
    have hR' : ∀ {b''}, Glued b b'' → R b₀ l b'' := hR.trans_glue hl hp.sound
    exact wp_mono hglue (fun _ _ => hR') fun _ _ hg => hR.weaken (hR' hg)
  · intro _ _ b₀ l j b _ l' f b' node hp hj hp' hf h h'
    have hcore := hp'.sound.core
    have hj' := hj.extend hp.sound.core hp'.extends_ hcore
    have hfork : ∀ f, j.fork = some f → (∀ x, ¬ b'.graph.Feeds x f) ∧
        ∀ d ∈ b'.graph.hops f, ¬ b'.Marked .destination d := fun f h =>
      ⟨(hj'.fork h).1.free, fun _ => hj'.own h⟩
    have hglue := Branching.glued_add hcore hfork node fun h hh => (hf.head hh).unmarked
    have hR' : ∀ {b''}, Glued b' b'' → R b₀ (l ++ l') b'' := hR.trans_glue (hR.trans h h') hp'.sound
    exact wp_mono hglue (fun _ _ => hR') fun _ _ hg => hR.weaken (hR' hg)
  · intro h _ _ fc b₀ l j b _ hp _ hl
    have hglue := (linear_glued b).branching_finish j h.flags fc b (.refl b)
    have hR' : ∀ {b''}, Glued b b'' → R b₀ l b'' := hR.trans_glue hl hp.sound
    exact wp_mono hglue (fun _ _ => hR') fun _ _ hg => hR.weaken (hR' hg)

end Tally

end Compile

end Routing
