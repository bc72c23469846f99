import Routing.Proofs.Meaning.Junctions
import Routing.Proofs.Meaning.References
/-!
# What all statements mean

Every statement of a configuration means what its tree says, by induction on the statement and, for
references by name, on the depth to which they are nested. Targets are flat, so that nothing is
remembered or delivered while they are compiled.
-/

namespace Routing

variable {σ ω : Type} [Stage σ ω] {α : Type}

namespace Compile

open Build

variable {S : Spelling σ α} {n : Nat} {p : Pool σ ω} {objects : Objects}
  {targets : Nat → Statement} {jump : Option (Run σ ω)} {b b₀ : Build σ ω}

/-! ### Flat statements -/

/-- What chains of stages keep is kept by flat statements. -/
theorem Linear.flat {P : Build σ ω → Prop} (hP : Linear P)
    (hsingle : ∀ h here o, Keeps P (single h here o)) {s : Statement} (hs : s.Flat)
    (around : Option Location) (fc : Bool) : Keeps P (statement objects jump around fc s) := by
  have hchain : ∀ cs : List Statement, (∀ c ∈ cs, c.shape = .single) → ∀ here c,
      Keeps P (chain objects jump here fc c cs) := by
    intro cs
    induction cs with
    | nil =>
      intro _ here c
      rw [chain]
      exact .pure c
    | cons s cs ih =>
      intro hcs here c
      obtain ⟨h, o, children⟩ := s
      have hshape : h.shape = .single := hcs (.mk h o children) (by simp)
      rw [chain, statement, hshape]
      refine (hsingle h _ o).bind fun f => (hP.chain_add c _ f).bind fun c => ?_
      exact ih (fun c hc => hcs c (by simp [hc])) here c
  obtain ⟨h, o, cs⟩ := s
  have hshape : h.shape = .sequence := hs.1
  rw [statement, hshape]
  refine .ite (.throw _) ((hchain cs hs.2 _ {}).bind fun c => hP.chain_finish c _ fc)

theorem linear_idle (b₀ : Build σ ω) : Linear (Idle b₀) where
  join hi := ⟨hi.memos, fun hx => by rw [own, grow, Graph.hops_add rfl]; exact hi.hops hx⟩
  next _ hi := ⟨hi.memos, fun hx => by rw [Build.wire, Graph.hops_wire_next]; exact hi.hops hx⟩
  enable _ hi :=
    ⟨hi.memos, fun hx => by rw [Build.enable, Graph.hops_insertCapabilities]; exact hi.hops hx⟩

theorem idle_single (h : Heading) (here : Option Location) (o : Object) :
    Keeps (Idle b₀) (single h here o) := by
  intro b hi
  cases o with
  | stage handle =>
    refine wp_single (fun handle' role p _ => ⟨hi.memos, fun hx => ?_⟩) fun p _ => ⟨hi.memos, hi.hops⟩
    rw [Build.grow, Graph.hops_add rfl]
    exact hi.hops hx
  | empty => exact hi
  | target serial s => exact hi

/-! ### All statements -/

section Means

variable (S n p objects targets)

/-- Compiling a statement leads to what the statement means. -/
def Means (s : Statement) (b : Build σ ω) (x : Compile σ ω Fragment) : Prop :=
  wp x (fun f b' => Part S (objects.known (p.alphabet S) targets) n p b b' f
      (s.meaning (p.alphabet S) (objects.meaning (p.alphabet S))) ∧
    f.isEmpty = s.vacant objects.vacant ∧ (s.shape = .sequence → f.tail.isNone = f.isEmpty))
    (fun _ _ => True) b

/-- A state at which compiling may go on. -/
structure Resumable (b : Build σ ω) : Prop where
  sound : b.Sound
  steady : Steady S n p b
  told : b.Told S (objects.known (p.alphabet S) targets)

/-- What is needed of the objects. -/
structure Given : Prop where
  bound : n ≤ p.instances.size
  flat : objects.Flat
  made : ∀ entry ∈ objects, entry.2.Each (Statement.WellMade objects targets n)

/-- What references by name lead to means what it says. -/
structure JumpsMean (jump : Option (Run σ ω)) : Prop where
  compiles : Jumps jump
  stable : ∀ p', ∀ run ∈ jump, ∀ s : Statement, s.Holds n → ∀ around fc,
    Keeps (Steady S n p') (run around fc s)
  means : ∀ run ∈ jump, ∀ s : Statement, s.Each (Statement.WellMade objects targets n) →
    ∀ b, Resumable S n p objects targets b → ∀ around fc,
      Means S n p objects targets s b (run around fc s)
  idle : ∀ run ∈ jump, ∀ s : Statement, s.Flat → ∀ b₀ around fc, Keeps (Idle b₀) (run around fc s)

end Means

omit [Stage σ ω] in
theorem Given.fresh (hg : Given n p objects targets) : objects.Fresh := fun entry he q hq =>
  (hg.made entry he q hq).fresh

omit [Stage σ ω] in
theorem Given.holds (hg : Given n p objects targets) : objects.Holds n := fun entry he q hq =>
  (hg.made entry he q hq).below

/-- A part is what compiles, keeps the stages and has the meaning. -/
theorem part_of {known : TargetKey → Meaning α} {x : Compile σ ω Fragment} {m : Meaning α}
    {R : Fragment → Prop} (hs : Steady S n p b) (hc : Compiles b x)
    (hk : ∀ p, Keeps (Steady S n p) x)
    (hm : wp x (fun f b' => b'.Told S known ∧ R f ∧ Denotes S b' b.graph.size b'.graph.size f m)
      (fun _ _ => True) b) :
    wp x (fun f b' => Part S known n p b b' f m ∧ R f) (fun _ _ => True) b := by
  have hkeeps := wp_and (hk p b hs) (hk b.pool b hs.refl)
  refine wp_mono (wp_and (wp_and hc hkeeps) hm) ?_ fun _ _ _ => trivial
  rintro f b' ⟨⟨⟨hp, hf⟩, hs', hg⟩, ht, hr, hd⟩
  exact ⟨⟨hp, hf, hs', hg.grown, ht, hd⟩, hr⟩

theorem means_byName (hg : Given n p objects targets) (hjump : JumpsMean S n p objects targets jump)
    (hb : Resumable S n p objects targets b) (h : Heading) (here : Option Location) (fc : Bool)
    {o : Object} (ho : ∀ serial s, o ≠ .target serial s) :
    wp (byName objects jump h here fc)
      (fun f b' => b'.Told S (objects.known (p.alphabet S) targets) ∧
        f.isEmpty = o.referenceVacant objects.vacant h ∧ Denotes S b' b.graph.size b'.graph.size f
          (o.referenceMeaning (p.alphabet S) (objects.meaning (p.alphabet S)) h))
      (fun _ _ => True) b := by
  simp only [byName]
  cases hs : objects.find? ⟨h.kind, h.name.getD ""⟩ with
  | none => trivial
  | some s =>
    cases jump with
    | none => trivial
    | some run =>
      have hmem := Objects.mem_of_find hs
      obtain ⟨hflat, hkind⟩ := hg.flat _ hmem
      have hkind : s.kind = h.kind := hkind
      have hmade := hg.made _ hmem
      have hmemo : s.heading.memo = none := hmade.self.fresh
      have hmeaning : objects.known (p.alphabet S) targets ⟨h.kind, .named (h.name.getD "")⟩ =
          s.meaning (p.alphabet S) (objects.meaning (p.alphabet S)) := by
        change objects.meaning (p.alphabet S) ⟨h.kind, h.name.getD ""⟩ = _
        rw [Objects.meaning, hs, hflat.meaning_eq]
        exact hflat.meaning_eq _
      have hvacant : objects.vacant ⟨h.kind, h.name.getD ""⟩ = s.vacant objects.vacant := by
        rw [Objects.vacant, hs, hflat.vacant_eq]
        exact hflat.vacant_eq _
      have hrun := wp_and (hjump.means run rfl s hmade b hb here fc)
        (hjump.idle run rfl s hflat b here fc b (.refl b))
      have hrefer := means_referTo hb.sound hb.steady hb.told
        (wp_mono hrun (fun f b' hf => ⟨hf.1.1, hf.2, hf.1.2.1⟩) fun _ _ _ => trivial)
        hmeaning (hflat.deliver _) h here
      simp only [hmemo, hkind]
      refine wp_mono hrefer (fun f b' hf => ⟨hf.1, ?_, ?_⟩) fun _ _ _ => trivial
      · rw [hf.2.1, ← hvacant]
        cases o with
        | empty => rw [Object.referenceVacant]
        | stage handle => rw [Object.referenceVacant]
        | target serial t => exact absurd rfl (ho serial t)
      · have hd := hf.2.2
        rw [← hmeaning] at hd
        cases o with
        | empty => rw [Object.referenceMeaning]; exact hd
        | stage handle => rw [Object.referenceMeaning]; exact hd
        | target serial t => exact absurd rfl (ho serial t)

mutual

theorem means_statement (hg : Given n p objects targets)
    (hjump : JumpsMean S n p objects targets jump) :
    ∀ s : Statement, s.Each (Statement.WellMade objects targets n) → ∀ b,
      Resumable S n p objects targets b → ∀ around fc,
        Means S n p objects targets s b (statement objects jump around fc s)
  | .mk h o cs, hs, b, hb, around, fc => by
    have hfresh : (Statement.mk h o cs).Fresh := fun q hq => (hs q hq).fresh
    have hholds : (Statement.mk h o cs).Holds n := fun q hq => (hs q hq).below
    have hcompiles := compiles_statement hg.fresh hjump.compiles _ hfresh b hb.sound around fc
    have hkeeps := fun p' => (stable_steady S n p').statement hg.holds (hjump.stable p') _ hholds
      around fc
    refine wp_mono (part_of hb.steady hcompiles hkeeps (R := fun f =>
      f.isEmpty = (Statement.mk h o cs).vacant objects.vacant ∧
        (h.shape = .sequence → f.tail.isNone = f.isEmpty)) ?_) (fun f b' h => h) fun _ _ h => h
    clear hcompiles hkeeps
    rw [statement, Statement.meaning, Statement.vacant]
    cases hshape : h.shape with
    | single =>
      cases o with
      | stage handle =>
        refine wp_mono (means_single hb.sound.core hb.steady hb.told hg.bound hs.self.below h _)
          (fun f b' ⟨ht, hv, hd⟩ => ⟨ht, ⟨hv, fun h => by cases h⟩, hd⟩) fun _ _ h => h
      | empty => trivial
      | target serial t => trivial
    | reference =>
      refine wp_mono (means_reference hg hjump o (fun _ _ ho => ?_) b hb h _ fc)
        (fun f b' ⟨ht, hv, hd⟩ => ⟨ht, ⟨hv, fun h => by cases h⟩, hd⟩) fun _ _ h => h
      subst ho
      exact ⟨hs.target, hs.self.regular.target hshape, hs.self.bound _ _ rfl⟩
    | sequence =>
      refine (wp_ite ..).2 ?_
      split
      · trivial
      · refine (wp_bind ..).2 ?_
        refine wp_mono (part_chain hg hjump cs hs.children b b {} [] (Chain.part_start hb.sound hb.steady
          hb.told) _ fc) (fun c b' ⟨hpart, hv⟩ => ?_) fun _ _ h => h
        refine wp_mono (Chain.means_finish hpart h.flags fc) (fun f b'' ⟨ht, he, htail, hd⟩ => ?_)
          fun _ _ h => h
        exact ⟨ht, ⟨he.trans hv, fun _ => by rw [htail, he]⟩, hd⟩
    | junction =>
      refine (wp_bind ..).2 ?_
      obtain ⟨hne, hbranches⟩ := hs.self.regular.branches hshape
      have hvacant : Statement.allVacant objects.vacant cs = false := by
        obtain ⟨c, cs, rfl⟩ := List.exists_cons_of_ne_nil hne
        rw [Statement.allVacant, (hbranches c (by simp [Statement.children])).2, Bool.false_and]
      refine wp_mono (part_branching hg hjump cs hs.children hbranches b b {} [] (Branching.part_start
        hb.sound hb.steady hb.told) _ fc) (fun j b' ⟨hpart, hx⟩ => ?_) fun _ _ h => h
      obtain ⟨x, hx⟩ := hx (.inr hne)
      refine wp_mono (Branching.means_finish hpart hx h.flags fc) (fun f b'' ⟨ht, he, hd⟩ => ?_)
        fun _ _ h => h
      exact ⟨ht, ⟨he.trans hvacant.symm, fun h => by cases h⟩, hd⟩

theorem means_reference (hg : Given n p objects targets)
    (hjump : JumpsMean S n p objects targets jump) :
    ∀ o : Object, (∀ serial s, o = .target serial s →
        s.Each (Statement.WellMade objects targets n) ∧ s.Flat ∧ s = targets serial) →
      ∀ b, Resumable S n p objects targets b → ∀ h here fc,
        wp (reference objects jump h here fc o)
          (fun f b' => b'.Told S (objects.known (p.alphabet S) targets) ∧
            f.isEmpty = o.referenceVacant objects.vacant h ∧
              Denotes S b' b.graph.size b'.graph.size f
                (o.referenceMeaning (p.alphabet S) (objects.meaning (p.alphabet S)) h))
          (fun _ _ => True) b
  | .empty, _, b, hb, h, here, fc => by
    rw [reference]
    exact means_byName hg hjump hb h here fc fun _ _ h => by cases h
  | .stage _, _, b, hb, h, here, fc => by
    rw [reference]
    exact means_byName hg hjump hb h here fc fun _ _ h => by cases h
  | .target serial s, hs, b, hb, h, here, fc => by
    obtain ⟨hmade, hflat, htarget⟩ := hs serial s rfl
    have hmemo : s.heading.memo = none := hmade.self.fresh
    have hknown : objects.known (p.alphabet S) targets ⟨s.kind, .inline serial⟩ =
        s.meaning (p.alphabet S) (objects.meaning (p.alphabet S)) := by
      rw [htarget]
      rfl
    have hidle : Keeps (Idle b) (statement objects jump here fc s) :=
      (linear_idle b).flat idle_single hflat here fc
    have hrun := wp_and (means_statement hg hjump s hmade b hb here fc) (hidle b (.refl b))
    rw [reference, hmemo, Object.referenceVacant, Object.referenceMeaning]
    exact means_referTo hb.sound hb.steady hb.told
      (wp_mono hrun (fun f b' hf => ⟨hf.1.1, hf.2, hf.1.2.1⟩) fun _ _ _ => trivial)
      hknown (hflat.deliver _) h here

theorem part_chain (hg : Given n p objects targets) (hjump : JumpsMean S n p objects targets jump) :
    ∀ ss : List Statement, (∀ s ∈ ss, s.Each (Statement.WellMade objects targets n)) →
      ∀ (b₀ b : Build σ ω) (c : Chain) (ms : List (Meaning α)),
        c.Part S (objects.known (p.alphabet S) targets) n p b₀ b ms → ∀ here fc,
          wp (chain objects jump here fc c ss)
            (fun c' b' => c'.Part S (objects.known (p.alphabet S) targets) n p b₀ b'
                (ms ++ Statement.meanings (p.alphabet S) (objects.meaning (p.alphabet S)) ss) ∧
              c'.last.isNone = (c.last.isNone && Statement.allVacant objects.vacant ss))
            (fun _ _ => True) b
  | [], _, b₀, b, c, ms, hc, here, fc => by
    rw [chain, Statement.meanings, Statement.allVacant, List.append_nil, Bool.and_true]
    exact ⟨hc, rfl⟩
  | s :: ss, hs, b₀, b, c, ms, hc, here, fc => by
    have hrun := means_statement hg hjump s (hs s (by simp)) b
      ⟨hc.progress.sound, hc.steady, hc.told⟩ here (fc || s.flags.flowControl)
    rw [chain, wp_bind]
    refine wp_mono hrun (fun f b₁ ⟨hpart, hv, _⟩ => ?_) fun _ _ h => h
    rw [wp_bind]
    refine wp_mono (Chain.part_add hc hpart _) (fun c' b₂ ⟨hc', hn⟩ => ?_) fun _ _ h => h
    refine wp_mono (part_chain hg hjump ss (fun s h => hs s (by simp [h])) b₀ b₂ c' _ hc' here fc)
      (fun c'' b₃ ⟨hc'', hn'⟩ => ⟨?_, ?_⟩) fun _ _ h => h
    · rw [List.append_assoc] at hc''
      exact hc''
    · rw [hn', hn, hv, Bool.and_assoc, Statement.allVacant]

theorem part_branching (hg : Given n p objects targets)
    (hjump : JumpsMean S n p objects targets jump) :
    ∀ ss : List Statement, (∀ s ∈ ss, s.Each (Statement.WellMade objects targets n)) →
      (∀ s ∈ ss, s.shape = .sequence ∧ s.vacant objects.vacant = false) →
      ∀ (b₀ b : Build σ ω) (j : Branching) (ms : List (Meaning α)),
        j.Part S (objects.known (p.alphabet S) targets) n p b₀ b ms → ∀ here fc,
          wp (branching objects jump here fc j ss)
            (fun j' b' => j'.Part S (objects.known (p.alphabet S) targets) n p b₀ b'
                (ms ++ Statement.meanings (p.alphabet S) (objects.meaning (p.alphabet S)) ss) ∧
              ((∃ x, j.join = some x) ∨ ss ≠ [] → ∃ x, j'.join = some x))
            (fun _ _ => True) b
  | [], _, _, b₀, b, j, ms, hj, here, fc => by
    rw [branching, Statement.meanings, List.append_nil]
    exact ⟨hj, fun h => h.resolve_right fun h => h rfl⟩
  | s :: ss, hs, hshapes, b₀, b, j, ms, hj, here, fc => by
    have hrun := means_statement hg hjump s (hs s (by simp)) b
      ⟨hj.progress.sound, hj.steady, hj.told⟩ here (fc || s.flags.flowControl)
    obtain ⟨hshape, hvacant⟩ := hshapes s (by simp)
    rw [branching, wp_bind]
    refine wp_mono hrun (fun f b₁ ⟨hpart, hv, ht⟩ => ?_) fun _ _ h => h
    obtain ⟨head, _ | t⟩ := f
    · have hn := (ht hshape).trans (hv.trans hvacant)
      cases hn
    · rw [wp_bind]
      refine wp_mono (Branching.part_add hj hpart _) (fun j' b₂ ⟨hj', hx⟩ => ?_) fun _ _ h => h
      refine wp_mono (part_branching hg hjump ss (fun s h => hs s (by simp [h]))
        (fun s h => hshapes s (by simp [h])) b₀ b₂ j' _ hj' here fc)
        (fun j'' b₃ ⟨hj'', hx'⟩ => ⟨?_, fun _ => hx' (.inl hx)⟩) fun _ _ h => h
      rw [List.append_assoc] at hj''
      exact hj''

end

theorem jumpsMean_none : JumpsMean S n p objects targets (none : Option (Run σ ω)) where
  compiles _ h := by cases h
  stable _ _ h := by cases h
  means _ h := by cases h
  idle _ h := by cases h

theorem jumpsMean_statement (hg : Given n p objects targets)
    (hjump : JumpsMean S n p objects targets jump) :
    JumpsMean S n p objects targets (some (statement objects jump)) where
  compiles run h := by
    cases h
    exact compiles_statement hg.fresh hjump.compiles
  stable p' run h := by
    cases h
    exact (stable_steady S n p').statement hg.holds (hjump.stable p')
  means run h := by
    cases h
    exact means_statement hg hjump
  idle run h s hs b₀ := by
    cases h
    exact (linear_idle b₀).flat idle_single hs

/-- Statements mean what they say, however deep references by name are nested. -/
theorem jumpsMean_upTo (hg : Given n p objects targets) (depth : Nat) :
    JumpsMean S n p objects targets (some (upTo objects depth : Run σ ω)) := by
  induction depth with
  | zero => exact jumpsMean_statement hg jumpsMean_none
  | succ depth ih => exact jumpsMean_statement hg ih

/-- A rule means what it says. -/
theorem means_rule (hg : Given n p objects targets) {s : Statement}
    (hs : (s.expandCatchAll objects).Each (Statement.WellMade objects targets n))
    (hb : Resumable S n p objects targets b) :
    Means S n p objects targets (s.expandCatchAll objects) b (rule objects s) := by
  unfold rule node
  exact (jumpsMean_upTo hg objects.length).means _ rfl _ hs b hb none false

end Compile

end Routing
