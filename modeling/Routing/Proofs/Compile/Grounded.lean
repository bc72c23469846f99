import Routing.Proofs.Compile.Junctions
import Routing.Proofs.Compile.References
import Routing.Proofs.Compile.Scheme
/-!
# Schemes over sound states

A scheme that speaks of statements that are not settled before may build on what is known of them:
they compile from sound states to sound ones, with ends that fit. `Grounded` are the laws of such a
scheme, which may use this, and `Scheme.grounded` is the scheme together with it.
-/

namespace Routing

variable {σ ω : Type} [Stage σ ω]

namespace Compile

open Build

/-! ### References -/

/-- How a reference is joined to a target that is remembered. -/
inductive JoinedAgain (key : TargetKey) (b : Build σ ω) : Fragment → Build σ ω → Prop
  | tap {t m : SlotId} (hk : key.kind = .source) (ht : b.memos.lookup key = some t)
    (hm : b.graph.next? t = some m) (hr : b.graph.role? m = some .multiplexer) :
    JoinedAgain key b ⟨none, some b.graph.size⟩ (b.tap m)
  | fork {d : SlotId} (hk : key.kind = .destination) (hd : b.memos.lookup key = some d) :
    JoinedAgain key b ⟨some b.graph.size, none⟩ (b.forkTo d)

/-- How a reference is joined to a target that was compiled for it just before. -/
inductive JoinedFirst (key : TargetKey) (b : Build σ ω) (f : Fragment) :
    Fragment → Build σ ω → Prop
  | tap {t : SlotId} (hk : key.kind = .source) (ht : f.tail = some t) :
    JoinedFirst key b f ⟨none, some (b.graph.size + 1)⟩ ((b.forkAfter key t).tap b.graph.size)
  | fork {d : SlotId} (hk : key.kind = .destination) (hd : f.head = some d) :
    JoinedFirst key b f ⟨some b.graph.size, none⟩ ((b.mark key d).forkTo d)
  | plain (hk : ¬ key.Shared) : JoinedFirst key b f f b

variable {key : TargetKey} {b b' : Build σ ω} {f f' : Fragment}

theorem JoinedAgain.memos (h : JoinedAgain key b f b') : b'.memos = b.memos := by
  cases h with
  | tap => rfl
  | fork => rfl

theorem JoinedAgain.lookup_ne (h : JoinedAgain key b f b') : b.memos.lookup key ≠ none := by
  cases h with
  | tap hk ht => rw [ht]; simp
  | fork hk hd => rw [hd]; simp

theorem JoinedFirst.memos_shared (h : JoinedFirst key b f f' b') (hk : key.Shared) :
    ∃ id, b'.memos = (key, id) :: b.memos := by
  cases h with
  | @tap t => exact ⟨t, rfl⟩
  | @fork d => exact ⟨d, rfl⟩
  | plain hk' => exact absurd hk hk'

theorem JoinedFirst.eq_of_not_shared (h : JoinedFirst key b f f' b') (hk : ¬ key.Shared) :
    b' = b := by
  cases h with
  | tap hs => exact absurd (.inl hs) hk
  | fork hd => exact absurd (.inr hd) hk
  | plain => rfl

/-- What happens at a reference, step by step. -/
theorem wp_referTo {Q : Trace σ ω → Fragment → Build σ ω → Prop}
    {E : Trace σ ω → CompileError → Build σ ω → Prop} (hb : b.Sound) {h : Heading}
    {here : Option Location} {run : Compile σ ω Fragment} {trace : Build σ ω → Trace σ ω}
    (again : ∀ f b', JoinedAgain key b f b' → Q [.joined key f b b'] f b')
    (first : (key.Shared → b.memos.lookup key = none) → wp run
      (fun f b₁ => (∀ t, f.tail = some t → b₁.graph.next? t = none) ∧
        (∀ f' b', JoinedFirst key b₁ f f' b' →
          Q (.opened key b :: trace b ++ [.joined key f' b b']) f' b') ∧
        E (.opened key b :: trace b) (emptyObject h here) b₁)
      (E (.opened key b :: trace b)) b) :
    wp (referTo h here key none run) (Q (referTrace h here key none run trace b))
      (E (referTrace h here key none run trace b)) b := by
  unfold referTrace
  refine wp_onward_end (Q := fun l => Q (_ ++ l)) (E := fun l => E (_ ++ l)) ?_
  simp only [Option.or_none, List.append_nil]
  by_cases hs : key.kind = .source
  · have hshared : key.Shared := .inl hs
    refine wp_source hb hs (fun t m ht hm hr => ?_) fun hnone => ?_
    · simpa [hshared, ht] using again _ _ (.tap hs ht hm hr)
    · simp only [hnone, Option.isSome_none, Bool.false_eq_true, and_false, if_false]
      refine wp_mono (first fun _ => hnone) (fun f b₁ ⟨hlast, hQ, hE⟩ => ?_) fun _ _ h => h
      cases hft : f.tail with
      | none => exact hE
      | some t => exact ⟨hlast t hft, hQ _ _ (.tap hs hft)⟩
  · by_cases hd : key.kind = .destination
    · have hshared : key.Shared := .inr hd
      refine wp_destination hd (fun d ht => ?_) fun hnone => ?_
      · simpa [hshared, ht] using again _ _ (.fork hd ht)
      · simp only [hnone, Option.isSome_none, Bool.false_eq_true, and_false, if_false]
        refine wp_mono (first fun _ => hnone) (fun f b₁ ⟨_, hQ, hE⟩ => ?_) fun _ _ h => h
        cases hfh : f.head with
        | none => exact hE
        | some d => exact hQ _ _ (.fork hd hfh)
    · -- other targets are compiled again at each reference
      have hshared : ¬ key.Shared := fun hkey => hkey.elim hs hd
      have hrefer : referTo h here key none run = run := by
        unfold referTo
        split
        · exact absurd ‹_› hs
        · exact absurd ‹_› hd
        · rfl
      rw [hrefer]
      simp only [hshared, false_and, if_false]
      refine wp_mono (first fun hkey => absurd hkey hshared) (fun f b₁ ⟨_, hQ, _⟩ => ?_)
        fun _ _ h => h
      exact hQ _ _ (.plain hshared)

/-! ### Schemes -/

/-- The scheme goes through statements that are not settled before, from sound states. -/
structure Grounded (S : Scheme σ ω) (objects : Objects) (P : Statement → Prop) : Prop where
  throw : ∀ {b e}, b.Sound → S.ready b → S.failed b [] e b
  /-- A stage gets its place. -/
  place : ∀ {h handle cs fc b p} {s : Slot}, h.shape = .single → P (.mk h (.stage handle) cs) →
    b.Sound → S.ready b → Claimed b.pool handle (s.handle, s.role) p →
    s.capabilities = p.capabilities s.handle → s.next = none → s.hops = [] →
    S.done (.mk h (.stage handle) cs) fc b [.placed handle b.graph.size (b.grow p s)]
      ⟨if s.capabilities.isSource then none else some b.graph.size, some b.graph.size⟩ (b.grow p s)
  /-- A stage refuses to be cloned. -/
  refuse : ∀ {handle b p e}, b.Sound → S.ready b → Refused b.pool handle p →
    S.failed b [] e { b with pool := p }
  again : ∀ {s fc key t b f b'}, s.shape = .reference → P s → s.target? objects = some (key, t) →
    t.Each P → b.Sound → S.ready b → JoinedAgain key b f b' →
    S.done s fc b [.joined key f b b'] f b'
  first : ∀ {s fc key t b l b₁ f f' b'}, s.shape = .reference → P s →
    s.target? objects = some (key, t) → t.Each P →
    (∀ m ∈ l, ∀ key' ∈ m.key?, objects.Leads t key') →
    (key.Shared → b.memos.lookup key = none) → Progress b b₁ → Fits b b₁ f → S.done t fc b l f b₁ →
    JoinedFirst key b₁ f f' b' → S.done s fc b (.opened key b :: l ++ [.joined key f' b b']) f' b'
  /-- A target fails to compile. -/
  abandon : ∀ {s key t b l e b'}, P s → s.target? objects = some (key, t) →
    (∀ m ∈ l, ∀ key' ∈ m.key?, objects.Leads t key') →
    (key.Shared → b.memos.lookup key = none) → S.failed b l e b' →
    S.failed b (.opened key b :: l) e b'
  /-- A target has no end to which a reference could be joined. -/
  blank : ∀ {s fc key t b l f e b'}, P s → s.target? objects = some (key, t) →
    (∀ m ∈ l, ∀ key' ∈ m.key?, objects.Leads t key') →
    (key.Shared → b.memos.lookup key = none) → S.done t fc b l f b' →
    S.failed b (.opened key b :: l) e b'
  chain_start : ∀ {fc b}, b.Sound → S.ready b → S.chained [] fc b [] {} b
  chain_ready : ∀ {ss fc b₀ l c b}, S.chained ss fc b₀ l c b → S.ready b
  chain_failed : ∀ {ss fc b₀ l c b l' e b'}, S.chained ss fc b₀ l c b → S.failed b l' e b' →
    S.failed b₀ (l ++ l') e b'
  chain_add : ∀ {ss fc b₀ l c b s l' f b'} node, Progress b₀ b → c.Fits b₀ b → Progress b b' →
    Fits b b' f → S.chained ss fc b₀ l c b → S.done s (fc || s.flags.flowControl) b l' f b' →
    wp (c.add node f) (S.chained (ss ++ [s]) fc b₀ (l ++ l')) (S.failed b₀ (l ++ l')) b'
  chain_finish : ∀ {h o cs fc b₀ l c b}, h.shape = .sequence → Progress b₀ b → c.Fits b₀ b →
    S.chained cs fc b₀ l c b →
    wp (c.finish h.flags fc) (S.done (.mk h o cs) fc b₀ l) (S.failed b₀ l) b
  branch_start : ∀ {fc b}, b.Sound → S.ready b → S.branched [] fc b [] {} b
  branch_ready : ∀ {ss fc b₀ l j b}, S.branched ss fc b₀ l j b → S.ready b
  branch_failed : ∀ {ss fc b₀ l j b l' e b'}, S.branched ss fc b₀ l j b → S.failed b l' e b' →
    S.failed b₀ (l ++ l') e b'
  branch_add : ∀ {ss fc b₀ l j b s l' f b'} node, Progress b₀ b → j.Fits b₀ b → Progress b b' →
    Fits b b' f → S.branched ss fc b₀ l j b → S.done s (fc || s.flags.flowControl) b l' f b' →
    wp (j.add node f) (S.branched (ss ++ [s]) fc b₀ (l ++ l')) (S.failed b₀ (l ++ l')) b'
  branch_finish : ∀ {h o cs fc b₀ l j b}, h.shape = .junction → Progress b₀ b → j.Fits b₀ b →
    S.branched cs fc b₀ l j b →
    wp (j.finish h.flags fc) (S.done (.mk h o cs) fc b₀ l) (S.failed b₀ l) b

omit [Stage σ ω] in
/-- Statements compile, and the scheme holds. -/
def Scheme.grounded (S : Scheme σ ω) : Scheme σ ω where
  ready b := b.Sound ∧ S.ready b
  done s fc b l f b' := (Progress b b' ∧ Fits b b' f) ∧ S.done s fc b l f b'
  failed b l e b' := (Progress b b' ∧ e.Consistent) ∧ S.failed b l e b'
  chained ss fc b l c b' :=
    (Progress b b' ∧ c.Fits b b' ∧ (c.last = none → b'.graph.size = b.graph.size)) ∧
      S.chained ss fc b l c b'
  branched ss fc b l j b' :=
    (Progress b b' ∧ j.Fits b b' ∧
      (j.fork = none → j.join = none → b'.graph.size = b.graph.size)) ∧
      S.branched ss fc b l j b'

theorem Grounded.lawful {S : Scheme σ ω} {objects : Objects} {P : Statement → Prop}
    (hS : Grounded S objects P) :
    S.grounded.Lawful objects fun p => p.heading.memo = none ∧ P p where
  throw he hb := ⟨⟨.refl hb.1, he⟩, hS.throw hb.1 hb.2⟩
  single hshape hs b hb := by
    refine wp_and (compiles_single hb.1 _ _ _) ?_
    refine wp_onward_end (Q := fun l => S.done _ _ b l) (E := S.failed b) ?_
    exact wp_single (fun _ _ _ hr => hS.place hshape hs.2 hb.1 hb.2 hr rfl rfl rfl)
      fun _ hr => hS.refuse hb.1 hb.2 hr
  refer := by
    intro h o cs fc here key t run trace hshape hs ht hP hwithin hrun b hb
    have hmemo : t.heading.memo = none := hP.self.1
    have hP' : t.Each P := fun p hp => (hP p hp).2
    rw [hmemo]
    have hcompiles : Compiles b run := wp_mono (hrun b hb) (fun _ _ h => h.1) fun _ _ h => h.1
    refine wp_and (compiles_referTo hb.1 hcompiles) (wp_referTo hb.1 ?_ fun hnew => ?_)
    · exact fun _ _ => hS.again hshape hs.2 ht hP' hb.1 hb.2
    · refine wp_mono (hrun b hb) ?_ fun _ _ h => hS.abandon hs.2 ht (hwithin b) hnew h.2
      rintro f b₁ ⟨⟨hp, hf⟩, h⟩
      refine ⟨fun t ht => (hf.tail ht).last, fun f' b' hj => ?_, ?_⟩
      · exact hS.first hshape hs.2 ht hP' (hwithin b) hnew hp hf h hj
      · exact hS.blank hs.2 ht (hwithin b) hnew h
  chain_start hb := ⟨⟨.refl hb.1, .start _, fun _ => rfl⟩, hS.chain_start hb.1 hb.2⟩
  chain_ready h := ⟨h.1.1.sound, hS.chain_ready h.2⟩
  chain_failed := fun ⟨⟨hp, _⟩, h⟩ ⟨⟨hp', he⟩, h'⟩ => ⟨⟨hp.trans hp', he⟩, hS.chain_failed h h'⟩
  chain_add := fun node ⟨⟨hp, hc, he⟩, h⟩ ⟨⟨hp', hf⟩, h'⟩ =>
    wp_and (Chain.wp_add hp hc he hp' hf node) (hS.chain_add node hp hc hp' hf h h')
  chain_finish := by
    rintro h _ _ fc b₀ l c b hshape ⟨⟨hp, hc, he⟩, hS'⟩
    exact wp_mono (wp_and (Chain.compiles_finish hp hc he h.flags fc)
      (hS.chain_finish hshape hp hc hS')) (fun _ _ h => h) fun _ _ h => h.1.elim
  branch_start hb := ⟨⟨.refl hb.1, .start _, fun _ _ => rfl⟩, hS.branch_start hb.1 hb.2⟩
  branch_ready h := ⟨h.1.1.sound, hS.branch_ready h.2⟩
  branch_failed := fun ⟨⟨hp, _⟩, h⟩ ⟨⟨hp', he⟩, h'⟩ => ⟨⟨hp.trans hp', he⟩, hS.branch_failed h h'⟩
  branch_add := fun node ⟨⟨hp, hj, he⟩, h⟩ ⟨⟨hp', hf⟩, h'⟩ =>
    wp_and (Branching.wp_add hp hj he hp' hf node) (hS.branch_add node hp hj hp' hf h h')
  branch_finish := by
    rintro h _ _ fc b₀ l j b hshape ⟨⟨hp, hj, he⟩, hS'⟩
    exact wp_mono (wp_and (Branching.compiles_finish hp hj he h.flags fc)
      (hS.branch_finish hshape hp hj hS')) (fun _ _ h => h) fun _ _ h => h.1.elim

end Compile

end Routing
