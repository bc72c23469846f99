import Routing.Proofs.Compile.Joints
/-!
# Shared sources

The stage at the end of a source is followed by a fork, and each reference to the source that is
completed gives the fork one more attach point. So the hops of the fork are the attach points of these
references, in their order.
-/

namespace Routing

variable {σ ω : Type}

namespace Build

def forkOf? (b : Build σ ω) (key : TargetKey) : Option SlotId :=
  (b.memos.lookup key).bind b.graph.next?

/-- The attach points of a source. -/
def fan (b : Build σ ω) (key : TargetKey) : List SlotId :=
  ((b.forkOf? key).map b.graph.hops).getD []

variable {b b₁ b' : Build σ ω} {l l' : Trace σ ω} {key key' : TargetKey} {t t' m x : SlotId}

theorem fan_of_fork (ht : b.memos.lookup key = some t) (hm : b.graph.next? t = some m) :
    b.fan key = b.graph.hops m := by
  simp [fan, forkOf?, ht, hm]

theorem fan_of_none (h : b.memos.lookup key = none) : b.fan key = [] := by
  simp [fan, forkOf?, h]

theorem Sound.fork (hb : b.Sound) (hk : key.kind = .source) (ht : b.memos.lookup key = some t) :
    ∃ m, b.graph.next? t = some m ∧ b.graph.role? m = some .multiplexer :=
  (hb.settled t).tail ⟨key, hk, Compile.mem_of_lookup ht⟩

/-- The attach points of a source stay if its fork does. -/
theorem Sound.fan_eq (hb : b.Sound) (hk : key.kind = .source)
    (hm : b'.memos.lookup key = b.memos.lookup key)
    (hfork : ∀ t m, b.memos.lookup key = some t → b.graph.next? t = some m →
      b.graph.role? m = some .multiplexer →
        b'.graph.next? t = some m ∧ b'.graph.hops m = b.graph.hops m) :
    b'.fan key = b.fan key := by
  cases ht : b.memos.lookup key with
  | none => rw [fan_of_none ht, fan_of_none (hm.trans ht)]
  | some t =>
    obtain ⟨m, hnext, hr⟩ := hb.fork hk ht
    obtain ⟨hnext', hhops⟩ := hfork t m ht hnext hr
    rw [fan_of_fork ht hnext, fan_of_fork (hm.trans ht) hnext', hhops]

/-- A fork follows one source. -/
theorem Core.fork_injective (hb : b.Core) (hr : b.graph.role? m = some .multiplexer)
    (ht : b.graph.next? t = some m) (ht' : b.graph.next? t' = some m) : t = t' := by
  have hnext : b.graph.HasEdge t .next m := ht
  have hjoin : b.graph.role? m ≠ some .join := by rw [hr]; simp
  have hmark : ¬ b.Marked .destination m := fun hm => by cases hb.marked_hop hm hnext
  have hnext' : b.graph.HasEdge t' .next m := ht'
  exact (hb.unique hjoin hmark hnext hnext').1

variable [Stage σ ω]

/-- How the attach points of sources grow along a trace. -/
structure Fans (b : Build σ ω) (l : Trace σ ω) (b' : Build σ ω) : Prop where
  role : ∀ {x r}, b.graph.role? x = some r → b'.graph.role? x = some r
  distinct : b'.Distinct .source
  fan : ∀ {key}, key.kind = .source → b'.fan key = b.fan key ++ l.points Fragment.tail key
  attach : ∀ {key}, key.kind = .source →
    ∀ a ∈ l.points Fragment.tail key, b'.graph.role? a = some .attach
  tail : ∀ {key f c c'}, .joined key f c c' ∈ l → key.kind = .source → ∃ a, f = ⟨none, some a⟩
  again : ∀ {key f c c'}, .joined key f c c' ∈ l → key.Shared → c.memos.lookup key ≠ none →
    Compile.JoinedAgain key c f c'

theorem Fans.trans (h : Fans b l b₁) (h' : Fans b₁ l' b') : Fans b (l ++ l') b' where
  role hr := h'.role (h.role hr)
  distinct := h'.distinct
  fan hk := by rw [h'.fan hk, h.fan hk, points_append, List.append_assoc]
  attach hk a ha := by
    rw [points_append] at ha
    rcases List.mem_append.1 ha with ha | ha
    · exact h'.role (h.attach hk a ha)
    · exact h'.attach hk a ha
  tail hm := (List.mem_append.1 hm).elim h.tail h'.tail
  again hm := (List.mem_append.1 hm).elim h.again h'.again

/-- What joins no reference to a source and keeps the forks of sources keeps the attach points. -/
theorem Sound.fans (hb : b.Sound) (hd : b.Distinct .source)
    (hm : ∀ {key}, key.kind = .source → b'.memos.lookup key = b.memos.lookup key)
    (hrole : ∀ {x r}, b.graph.role? x = some r → b'.graph.role? x = some r)
    (hfork : ∀ {t m}, b.graph.next? t = some m → b.graph.role? m = some .multiplexer →
      b'.graph.next? t = some m ∧ b'.graph.hops m = b.graph.hops m)
    (hl : ∀ {key f c c'}, .joined key f c c' ∈ l → key.kind ≠ .source ∧
      (key.Shared → c.memos.lookup key ≠ none → Compile.JoinedAgain key c f c')) : Fans b l b' := by
  have htaps : ∀ {key}, key.kind = .source → l.points Fragment.tail key = [] := fun hk =>
    points_eq_nil fun hm => (hl hm).1 hk
  refine ⟨hrole, hd.congr hm, fun hk => ?_, fun hk a ha => ?_, fun h hk => ?_, fun h => (hl h).2⟩
  · rw [htaps hk, List.append_nil]
    exact hb.fan_eq hk (hm hk) fun t m _ hnext hr => hfork hnext hr
  · rw [htaps hk] at ha
    cases ha
  · exact absurd hk (hl h).1

theorem Distinct.fans_opened (hd : b.Distinct .source) : Fans b [.opened key b] b where
  role h := h
  distinct := hd
  fan _ := (List.append_nil _).symm
  attach _ _ ha := by cases ha
  tail h := by cases List.mem_singleton.1 h
  again h := by cases List.mem_singleton.1 h

/-- A completed reference gives its source one more attach point. -/
theorem fans_joined {c c' : Build σ ω} {a : SlotId} (hd : b'.Distinct .source)
    (hrole : ∀ {x r}, b.graph.role? x = some r → b'.graph.role? x = some r)
    (hself : b'.fan key = b.fan key ++ [a])
    (hother : ∀ {key'}, key'.kind = .source → key ≠ key' → b'.fan key' = b.fan key')
    (ha : b'.graph.role? a = some .attach)
    (hagain : c.memos.lookup key ≠ none → Compile.JoinedAgain key c ⟨none, some a⟩ c') :
    Fans b [.joined key ⟨none, some a⟩ c c'] b' where
  role := hrole
  distinct := hd
  fan {key'} hk' := by
    by_cases hne : key = key'
    · subst hne
      rw [hself, points_joined_self]
      rfl
    · rw [hother hk' hne, points_joined_ne hne, List.append_nil]
  attach {key'} _ x hx := by
    by_cases hne : key = key'
    · subst hne
      rw [points_joined_self] at hx
      obtain rfl : x = a := by simpa using hx
      exact ha
    · rw [points_joined_ne hne] at hx
      cases hx
  tail h _ := by
    cases List.mem_singleton.1 h
    exact ⟨_, rfl⟩
  again h _ hk := by
    cases List.mem_singleton.1 h
    exact hagain hk

/-- One more attach point of a source that is remembered. -/
theorem Sound.fans_tap (hb : b.Sound) (hd : b.Distinct .source) (hk : key.kind = .source)
    (ht : b.memos.lookup key = some t) (hm : b.graph.next? t = some m)
    (hr : b.graph.role? m = some .multiplexer) :
    Fans b [.joined key ⟨none, some b.graph.size⟩ b (b.tap m)] (b.tap m) := by
  have hle := Nat.le_of_lt (Graph.role?_lt hr)
  refine fans_joined hd role?_tap ?_ (fun {key'} hk' hne => ?_) role?_tap_size
    fun _ => .tap hk ht hm hr
  · rw [fan_of_fork (b := b.tap m) ht (next?_tap.trans hm), fan_of_fork ht hm, hops_tap_self hle]
  · -- the other source has a fork of its own, which gets no hop
    refine hb.fan_eq hk' rfl fun t' m' ht' hm' _ => ⟨next?_tap.trans hm', hops_tap_ne ?_⟩
    rintro rfl
    obtain rfl := hb.core.fork_injective hr hm hm'
    exact hne (hd hk hk' ht ht')

/-- The first attach point of a source that was compiled just before. -/
theorem Sound.fans_forkAfter (hb : b₁.Sound) (hd : b₁.Distinct .source) (ht : Tailed b b₁ t)
    (hnone : b₁.fan key = []) (hnew : b.memos.lookup key = none) :
    Fans b₁ [.joined key ⟨none, some (b₁.graph.size + 1)⟩ b
        ((b₁.forkAfter key t).tap b₁.graph.size)] ((b₁.forkAfter key t).tap b₁.graph.size) := by
  have hm : ((b₁.forkAfter key t).tap b₁.graph.size).memos = (key, t) :: b₁.memos := rfl
  -- a stage that a fork follows already is not the end of what was just compiled
  have hother : ∀ {key' t'}, key'.kind = .source → b₁.memos.lookup key' = some t' → t' ≠ t := by
    rintro key' _ hk' ht' rfl
    exact ht.unmarked hb ⟨key', hk', Compile.mem_of_lookup ht'⟩
  have hsize : (b₁.forkAfter key t).graph.size = b₁.graph.size + 1 := size_forkAfter
  refine fans_joined (hd.cons hm hother) (fun hr => role?_tap (role?_forkAfter hr)) ?_
    (fun {key'} hk' hne => ?_) ?_ fun h => absurd hnew h
  · have hlookup := (lookup_of_cons hm key).trans (if_pos rfl)
    have hnext : ((b₁.forkAfter key t).tap b₁.graph.size).graph.next? t = some b₁.graph.size :=
      next?_tap.trans (next?_forkAfter_self ht.lt)
    rw [hnone, fan_of_fork hlookup hnext, hops_tap_self (by rw [hsize]; exact Nat.le_succ _),
      hops_forkAfter, hops_size, hsize]
  · have hlookup := (lookup_of_cons hm key').trans (if_neg (Ne.symm hne))
    refine hb.fan_eq hk' hlookup fun t' m ht' hm hr => ?_
    refine ⟨next?_tap.trans ((next?_forkAfter_ne (hother hk' ht')).trans hm), ?_⟩
    rw [hops_tap_ne (Nat.ne_of_lt (Graph.role?_lt hr)), hops_forkAfter]
  · rw [← hsize]
    exact role?_tap_size

/-- A reference to a destination gives no attach point. -/
theorem Sound.fans_forkTo (hb : b₁.Sound) (hd : b₁.Distinct .source) (hk : key.kind = .destination)
    {d : SlotId} (hm : b'.memos = b₁.memos ∨ b'.memos = (key, d) :: b₁.memos)
    (hg : b'.graph = (b₁.forkTo d).graph) {f : Fragment}
    (hl : b.memos.lookup key ≠ none → Compile.JoinedAgain key b f b') :
    Fans b₁ [.joined key f b b'] b' := by
  refine hb.fans hd (fun {key'} hk' => ?_) (fun hr => ?_) (fun hnext hr => ?_) fun h => ?_
  · rcases hm with hm | hm
    · rw [hm]
    · have hne : key' ≠ key := by
        rintro rfl
        rw [hk] at hk'
        cases hk'
      rw [lookup_of_cons hm, if_neg hne]
  · rw [hg, role?_forkTo hr]
  · rw [hg, next?_forkTo, hops_forkTo (Nat.ne_of_lt (Graph.role?_lt hr))]
    exact ⟨hnext, rfl⟩
  · cases List.mem_singleton.1 h
    exact ⟨by rw [hk]; simp, fun _ => hl⟩

end Build

namespace Compile

open Build

variable [Stage σ ω] {c : Catalog}

/-- In an acyclic catalog the attach points of sources grow along the trace. -/
theorem tally_fans (hc : c.Acyclic) : Tally c.objects c.Lists
    (fun b l b' => b.Distinct .source → Fans b l b' : Build σ ω → Trace σ ω → Build σ ω → Prop)
    (fun b l b' => b.Distinct .source → Fans b l b') where
  refl hb hd := hb.fans hd (fun _ => rfl) (fun h => h) (fun h _ => ⟨h, rfl⟩) fun h => by cases h
  weaken h := h
  trans h h' hd := (h hd).trans (h' (h hd).distinct)
  trans_failed h h' hd := (h hd).trans (h' (h hd).distinct)
  glue hb h hd := hb.fans hd (fun _ => by rw [h.memos]) h.role (fun hm _ => ⟨h.next hm, h.hops hm⟩)
    fun h => by cases h
  place {b p _ s} hb hn hh hd := by
    have hg : Glued b (b.grow p s) := (Glued.refl b).grow hn hh
    exact hb.fans hd (fun _ => rfl) hg.role (fun hm _ => ⟨hg.next hm, hg.hops hm⟩) fun h => by
      cases List.mem_singleton.1 h
  refuse hb hd := hb.fans hd (fun _ => rfl) (fun h => h) (fun h _ => ⟨h, rfl⟩) fun h => by cases h
  again {b key f b'} hb h hd := by
    cases h with
    | tap hk ht hm hr => exact hb.fans_tap hd hk ht hm hr
    | @fork d hk ht =>
      have hm : (b.forkTo d).memos = b.memos := rfl
      exact hb.fans_forkTo hd hk (.inl hm) rfl fun _ => .fork hk ht
  first := by
    intro s key t b l b₁ f f' b' hs ht hwithin hnew hp hf h hj hd
    have hl := avoids hc hs ht hwithin
    have hopened : Fans b [.opened key b] b := hd.fans_opened
    have h₁ := hopened.trans (h hd)
    refine h₁.trans ?_
    have hb := hp.sound
    cases hj with
    | tap hk htail =>
      have hnone := hnew (.inl hk)
      have hfan : b₁.fan key = [] := by
        rw [(h hd).fan hk, fan_of_none hnone, hl.points]
        rfl
      exact hb.fans_forkAfter h₁.distinct (hf.tail htail) hfan hnone
    | @fork d hk hhead =>
      have hm : ((b₁.mark key d).forkTo d).memos = (key, d) :: b₁.memos := rfl
      exact hb.fans_forkTo h₁.distinct hk (.inr hm) rfl fun hne => absurd (hnew (.inr hk)) hne
    | plain hk =>
      refine hb.fans h₁.distinct (fun _ => rfl) (fun h => h) (fun h _ => ⟨h, rfl⟩) fun hm => ?_
      cases List.mem_singleton.1 hm
      exact ⟨fun hs => hk (.inl hs), fun hk' => absurd hk' hk⟩
  abandon := by
    intro s key t b l b' _ _ _ _ h hd
    exact hd.fans_opened.trans (h hd)

end Compile

end Routing
