import Routing.Proofs.Compile.Run
import Routing.Proofs.Meaning.Deliveries
/-!
# Parts of the graph with a meaning

`Denotes` says that a part that was just compiled has the words of a statement at its end and delivers
what the statement delivers. If the part has a head, all this comes only from the head, so that it
can be put behind other words. `Told` says that remembered sources have the words of their objects.
-/

namespace Routing

variable {σ ω : Type}

/-- Where the next statement goes on. -/
def Fragment.last (f : Fragment) : Option SlotId :=
  f.tail.or f.head

namespace Fragment

variable {head : Option SlotId} {h t : SlotId}

@[simp] theorem isEmpty_tail : isEmpty ⟨head, some t⟩ = false := by
  cases head <;> rfl

@[simp] theorem isSourceRooted_tail : isSourceRooted ⟨head, some t⟩ = head.isNone := by
  cases head <;> rfl

theorem last_head {tail : Option SlotId} : last ⟨some h, tail⟩ = some (tail.getD h) := by
  cases tail <;> rfl

end Fragment

namespace Build

theorem Fits.last {b₀ b : Build σ ω} {f : Fragment} {x : SlotId} (hf : Fits b₀ b f)
    (hx : f.last = some x) : Tailed b₀ b x := by
  obtain ⟨head, _ | t⟩ := f
  · have hx : head = some x := hx
    subst hx
    exact (hf.head rfl).tailed (hf.fork rfl rfl).2
  · cases hx
    exact hf.tail rfl

variable [Stage σ ω] {α : Type} (S : Spelling σ α) (known : TargetKey → Meaning α)

/-- What holds of remembered targets and of what is delivered to them. -/
structure Told (b : Build σ ω) : Prop where
  sources : ∀ {key t}, (key, t) ∈ b.memos → key.kind = .source → b.words S t = (known key).paths
  slots : (b.memos.map Prod.snd).Nodup
  keys : (b.memos.map Prod.fst).Nodup
  clear : ∀ {x}, b.recipients x ≠ 0 → b.Upstream x

/-- What was compiled to the slots of a range has a meaning. -/
structure Denotes (b : Build σ ω) (lo hi : SlotId) (f : Fragment) (m : Meaning α) : Prop where
  rooted : m.rooted = f.isSourceRooted
  nothing : f.isEmpty = true → m = {}
  reads : ∀ {x}, f.last = some x → Reads S b f.head x m.paths
  delivers : Delivers S b lo hi f.head m.deliver

/-- What compiling a statement with a meaning leads to. -/
structure Part (n : Nat) (p : Pool σ ω) (b₀ b : Build σ ω) (f : Fragment) (m : Meaning α) : Prop where
  progress : Progress b₀ b
  fits : Fits b₀ b f
  steady : Steady S n p b
  grown : b₀.pool.Grown b.pool
  told : b.Told S known
  denotes : Denotes S b b₀.graph.size b.graph.size f m

variable {S known} {n : Nat} {b₀ b₁ b : Build σ ω} {h t u v x : SlotId} {k : EdgeKind} {f : Fragment}
  {m : Meaning α}

/-! ### Steps -/

omit [Stage σ ω] in
theorem Upstream.of_feeds {b' : Build σ ω} (hx : b.Upstream x) (hf : b'.graph.Feeds = b.graph.Feeds)
    (hm : b'.memos = b.memos) : b'.Upstream x := by
  rintro d ⟨key, hk, hd⟩ hr
  rw [hm] at hd
  rw [Graph.Reaches, hf] at hr
  exact hx d ⟨key, hk, hd⟩ hr

namespace Told

theorem grow (hb : b.Told S known) (hc : b.Core) (hs : Steady S n b.pool b) {p : Pool σ ω} {s : Slot}
    (hn : s.next = none) (hh : s.hops = []) (hp : b.pool.Grown p) : (b.grow p s).Told S known where
  sources hm hk := by
    rw [words_grow hc hs hn hh hp (hc.memo_lt hm)]
    exact hb.sources hm hk
  slots := hb.slots
  keys := hb.keys
  clear {x} hx := by
    have heq : (b.grow p s).recipients x = b.recipients x := by
      unfold recipients
      rw [Build.grow, Graph.hops_add hh]
      rfl
    rw [heq] at hx
    exact (hb.clear hx).of_feeds (Graph.feeds_add hn hh) rfl

theorem own (hb : b.Told S known) (hc : b.Core) (hs : Steady S n b.pool b) {stage : σ} {role : Role} :
    (b.own stage role).Told S known :=
  hb.grow hc hs rfl rfl .add

theorem enable (hb : b.Told S known) (hc : b.Core) {caps : Capabilities}
    (hc' : (b.enable u caps).Core) : (b.enable u caps).Told S known where
  sources hm hk := by
    rw [words_enable hc hc']
    exact hb.sources hm hk
  slots := hb.slots
  keys := hb.keys
  clear hx := by
    rw [recipients_enable] at hx
    exact (hb.clear hx).of_feeds feeds_enable rfl

theorem wire (hb : b.Told S known) (hc : b.Core) (hw : b.Wiring u k v)
    (hv : ∀ {t}, b.Marked .source t → ¬ b.graph.Reaches v t) : (b.wire u k v).Told S known where
  sources hm hk := by
    rw [words_wire_of_not_reaches hc hw (hv ⟨_, hk, hm⟩)]
    exact hb.sources hm hk
  slots := hb.slots
  keys := hb.keys
  clear {x} hx := by
    obtain ⟨d, he, hd⟩ := hasEdge_of_recipients hx
    rcases (hasEdge_wire hw).1 he with he | ⟨rfl, -, -⟩
    · exact (hb.clear (recipients_ne_zero he hd)).wire hw
    · exact Upstream.wire (fun _ hd' => hw.above hd') hw

theorem mark_source (hb : b.Told S known) {key : TargetKey} (hk : key.kind = .source)
    (ht : b.words S t = (known key).paths) (hnew : t ∉ b.memos.map Prod.snd)
    (hkey : key ∉ b.memos.map Prod.fst) :
    (b.mark key t).Told S known where
  sources hm hk' := by
    rcases List.mem_cons.1 hm with hm | hm
    · cases hm
      exact ht
    · exact hb.sources hm hk'
  slots := List.nodup_cons.2 ⟨hnew, hb.slots⟩
  keys := List.nodup_cons.2 ⟨hkey, hb.keys⟩
  clear {x} hx := by
    rw [recipients_mark fun hd => by rw [hk] at hd; cases hd] at hx
    intro d hd
    have hd := (marked_mark.1 hd).resolve_left fun h => by rw [hk] at h; cases h.1
    exact hb.clear hx d hd

theorem mark_destination (hb : b.Told S known) {key : TargetKey} (hk : key.kind = .destination)
    (hfree : ∀ x, ¬ b.graph.Feeds x h) (hnew : h ∉ b.memos.map Prod.snd)
    (hkey : key ∉ b.memos.map Prod.fst)
    (hh : ∀ {x}, b.recipients x ≠ 0 → ¬ b.graph.Reaches h x) : (b.mark key h).Told S known where
  sources hm hk' := by
    rcases List.mem_cons.1 hm with hm | hm
    · cases hm
      rw [hk] at hk'
      cases hk'
    · exact hb.sources hm hk'
  slots := List.nodup_cons.2 ⟨hnew, hb.slots⟩
  keys := List.nodup_cons.2 ⟨hkey, hb.keys⟩
  clear {x} hx := by
    rw [recipients_mark fun _ he => hfree x (Graph.HasEdge.feeds (k := .hop) he)] at hx
    intro d hd
    rcases marked_mark.1 hd with ⟨-, rfl⟩ | hd
    · exact hh hx
    · exact hb.clear hx d hd

end Told

theorem Denotes.of_tail {lo hi : SlotId} {head : Option SlotId} (hm : m.rooted = head.isNone)
    (hr : Reads S b head t m.paths) (hd : Delivers S b lo hi head m.deliver) :
    Denotes S b lo hi ⟨head, some t⟩ m where
  rooted := by rw [hm, Fragment.isSourceRooted_tail]
  nothing h := by
    rw [Fragment.isEmpty_tail] at h
    cases h
  reads hx := by
    cases hx
    exact hr
  delivers := hd

theorem Denotes.enable {lo hi : SlotId} (hd : Denotes S b lo hi f m) (hc : b.Core)
    {caps : Capabilities} (hc' : (b.enable u caps).Core) : Denotes S (b.enable u caps) lo hi f m where
  rooted := hd.rooted
  nothing := hd.nothing
  reads hx := (hd.reads hx).enable hc hc'
  delivers := hd.delivers.enable hc hc'

theorem Denotes.later {lo hi : SlotId} (hd : Denotes S b₀ lo hi f m) (h : Later S n b₀ b)
    (hhi : hi ≤ b₀.graph.size) (ht : b₀.Told S known)
    (hlast : ∀ {x}, f.last = some x → x < b₀.graph.size ∧ b₀.Upstream x) :
    Denotes S b lo hi f m where
  rooted := hd.rooted
  nothing := hd.nothing
  reads hx := (hd.reads hx).later h (hlast hx).1 (hlast hx).2
  delivers := hd.delivers.later h hhi ht.clear

theorem denotes_grow (hb : b.Core) {p : Pool σ ω} {s : Slot} (hn : s.next = none) (hh : s.hops = []) :
    Denotes S (b.grow p s) b.graph.size (b.grow p s).graph.size
      ⟨if s.capabilities.isSource then none else some b.graph.size, some b.graph.size⟩
      { rooted := s.capabilities.isSource, paths := {p.spell S s.handle} } where
  rooted := by
    cases s.capabilities.isSource <;> rfl
  nothing h := by simp [Fragment.isEmpty] at h
  reads {x} hx := by
    obtain rfl := Option.some.inj hx
    refine ⟨?_, fun {h} hh' => ?_⟩
    · rw [words_of_free (hb.grow hn hh) (hb.free_grow hn hh), spelled_grow_size]
    · obtain rfl : h = b.graph.size := by
        split at hh'
        · cases hh'
        · exact (Option.some.inj hh').symm
      exact .self (hb.free_grow hn hh)
  delivers := .idle fun hx _ => recipients_eq_zero fun d hd =>
    absurd ((Graph.hasEdge_add hn hh).1 hd).source_lt (Nat.not_lt.2 hx)

end Build

namespace Compile

open Build

variable [Stage σ ω] {α : Type} {S : Spelling σ α} {known : TargetKey → Meaning α} {n : Nat}
  {p : Pool σ ω} {b : Build σ ω}

/-! ### Single statements -/

theorem means_single (hb : b.Core) (hs : Steady S n p b) (ht : b.Told S known)
    (hn : n ≤ p.instances.size) {handle : Handle} (hlt : handle < n) (h : Heading)
    (here : Option Location) :
    wp (single h here (.stage handle))
      (fun f b' => b'.Told S known ∧ f.isEmpty = false ∧
        Denotes S b' b.graph.size b'.graph.size f ((Object.stage handle).singleMeaning (p.alphabet S)))
      (fun _ _ => True) b := by
  have hlt' : handle < b.pool.instances.size := Nat.lt_of_lt_of_le hlt hs.bound
  have hltp : handle < p.instances.size := Nat.lt_of_lt_of_le hlt hn
  refine wp_single (fun handle' role p' hr => ?_) fun _ _ => trivial
  have hgrown := hr.grown hlt'
  have hword : p'.spell S handle' = (p.alphabet S).word handle :=
    hr.spell.trans (hs.grown.word hltp)
  have hsource : (p'.capabilities handle').isSource = (p.alphabet S).source handle :=
    (hr.source S).trans (hs.grown.source hltp)
  have hd := denotes_grow (S := S) hb (p := p')
    (s := ⟨handle', role, p'.capabilities handle', none, [], some (originOf h here), false⟩) rfl rfl
  rw [hword, hsource] at hd
  rw [hsource]
  exact ⟨ht.grow hb hs.refl rfl rfl hgrown, by simp [Fragment.isEmpty], hd⟩

end Compile

end Routing
