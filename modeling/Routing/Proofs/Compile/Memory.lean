import Routing.Proofs.Compile.Undisturbed
/-!
# What is remembered

A source or a destination is compiled for the first of its references only, if no target refers to
itself: what leads to a target is compiled before it is remembered, and from then on it is found. So
what is remembered stays, at every moment of the trace.
-/

namespace Routing

variable {σ ω : Type}

namespace Moment

/-- The source or destination that is about to be compiled. -/
def opens? : Moment σ ω → Option TargetKey
  | opened key _ => if key.Shared then some key else none
  | _ => none

/-- The target to which a reference has been joined. -/
def joins? : Moment σ ω → Option TargetKey
  | joined key _ _ _ => some key
  | _ => none

/-- A reference has been joined to a target that was remembered. -/
def Repeats : Moment σ ω → Prop
  | joined key _ before _ => before.memos.lookup key ≠ none
  | _ => False

end Moment

/-- The sources and destinations that were compiled. -/
def Trace.opened (l : Trace σ ω) : List TargetKey :=
  l.filterMap Moment.opens?

/-- The references that were joined to a target. -/
def Trace.joints (l : Trace σ ω) (key : TargetKey) : Trace σ ω :=
  l.filter fun m => m.joins? = some key

section Lists

variable {l l' : Trace σ ω} {m : Moment σ ω} {key : TargetKey}

theorem opened_append : Trace.opened (l ++ l') = l.opened ++ l'.opened := List.filterMap_append

theorem joints_append : Trace.joints (l ++ l') key = l.joints key ++ l'.joints key :=
  List.filter_append ..

theorem Moment.key_of_opens (h : m.opens? = some key) : m.key? = some key := by
  cases m with
  | opened key' b =>
    simp only [opens?] at h
    split at h
    · exact h
    · cases h
  | placed | joined => cases h

theorem Moment.key_of_joins (h : m.joins? = some key) : m.key? = some key := by
  cases m with
  | joined key' f b b' => exact h
  | placed | opened => cases h

/-- The trace is not about the target. -/
def Trace.Avoids (l : Trace σ ω) (key : TargetKey) : Prop :=
  ∀ m ∈ l, m.key? ≠ some key

theorem Trace.Avoids.opened (h : l.Avoids key) : key ∉ l.opened := by
  intro hmem
  obtain ⟨m, hm, hk⟩ := List.mem_filterMap.1 hmem
  exact h m hm (Moment.key_of_opens hk)

theorem Trace.Avoids.joints (h : l.Avoids key) : l.joints key = [] := by
  refine List.filter_eq_nil_iff.2 fun m hm hk => ?_
  exact h m hm (Moment.key_of_joins (of_decide_eq_true hk))

end Lists

namespace Build

/-- The states at the moments of a trace, between the first state and the last. -/
def states (b : Build σ ω) (l : Trace σ ω) (b' : Build σ ω) : List (Build σ ω) :=
  b :: (l.map Moment.state ++ [b'])

/-- What is remembered on the way from one state to another. -/
structure Remembers (b : Build σ ω) (l : Trace σ ω) (b' : Build σ ω) : Prop where
  nodup : l.opened.Nodup
  new : ∀ {key}, key ∈ l.opened → b.memos.lookup key = none
  known : ∀ {key}, b'.memos.lookup key ≠ none → b.memos.lookup key ≠ none ∨ key ∈ l.opened
  kept : (b.states l b').Pairwise Kept
  joined : ∀ {key}, key.Shared → l.joints key ≠ [] → b'.memos.lookup key ≠ none
  repeats : ∀ {key}, key.Shared → b.memos.lookup key ≠ none → ∀ m ∈ l.joints key, m.Repeats
  later : ∀ {key}, key.Shared → ∀ m ∈ (l.joints key).tail, m.Repeats

/-- Everything that was compiled is remembered. -/
structure Recalls (b : Build σ ω) (l : Trace σ ω) (b' : Build σ ω) : Prop
    extends Remembers b l b' where
  opened : ∀ {key}, key ∈ l.opened → b'.memos.lookup key ≠ none

variable {b b₁ b' : Build σ ω} {l l' : Trace σ ω} {m : Moment σ ω} {key : TargetKey}

theorem Kept.lookup_ne (h : Kept b b') (hk : b.memos.lookup key ≠ none) :
    b'.memos.lookup key ≠ none := by
  obtain ⟨id, hid⟩ := Option.ne_none_iff_exists'.1 hk
  rw [h key id hid]
  simp

theorem Remembers.kept_all (h : Remembers b l b') : Kept b b' :=
  List.rel_of_pairwise_cons h.kept (by simp)

theorem Remembers.opened_of_lookup (h : Remembers b l b') (hb : b.memos = []) {id : SlotId}
    (hid : b'.memos.lookup key = some id) : key ∈ l.opened := by
  refine (h.known ?_).resolve_left fun hne => hne ?_
  · rw [hid]
    simp
  · rw [hb]
    rfl

theorem Remembers.joints_eq_nil (h : Remembers b l b') (hk : key.Shared)
    (hnone : b'.memos.lookup key = none) : l.joints key = [] := by
  by_contra hne
  exact h.joined hk hne hnone

theorem kept_last (h : (b.states l b').Pairwise Kept) :
    ∀ c ∈ b :: l.map Moment.state, Kept c b' := by
  rw [states, ← List.cons_append, List.pairwise_append] at h
  exact fun c hc => h.2.2 c hc b' (by simp)

theorem pairwise_states (h : (b.states l b₁).Pairwise Kept) (h' : (b₁.states l' b').Pairwise Kept) :
    (b.states (l ++ l') b').Pairwise Kept := by
  have hlast := kept_last h
  unfold states at h h' ⊢
  rw [List.pairwise_cons] at h'
  rw [List.map_append, List.append_assoc, ← List.cons_append, List.pairwise_append]
  refine ⟨?_, h'.2, fun c hc d hd => (hlast c hc).trans (h'.1 d hd)⟩
  rw [← List.cons_append, List.pairwise_append] at h
  exact h.1

theorem Recalls.trans (h : Recalls b l b₁) (h' : Remembers b₁ l' b') : Remembers b (l ++ l') b' where
  nodup := by
    rw [opened_append, List.nodup_append]
    refine ⟨h.nodup, h'.nodup, ?_⟩
    rintro key hk _ hk' rfl
    -- what the first part compiled is remembered when the second part starts
    exact h.opened hk (h'.new hk')
  new := by
    intro key hk
    rw [opened_append] at hk
    rcases List.mem_append.1 hk with hk | hk
    · exact h.new hk
    · by_contra hne
      exact h.kept_all.lookup_ne hne (h'.new hk)
  known := by
    intro key hk
    rw [opened_append, List.mem_append]
    rcases h'.known hk with hk | hk
    · exact (h.known hk).imp_right .inl
    · exact .inr (.inr hk)
  kept := pairwise_states h.kept h'.kept
  joined := by
    intro key hkey hne
    rw [joints_append] at hne
    by_cases hl : l.joints key = []
    · exact h'.joined hkey (by simpa [hl] using hne)
    · exact h'.kept_all.lookup_ne (h.joined hkey hl)
  repeats := by
    intro key hkey hk m hm
    rw [joints_append] at hm
    rcases List.mem_append.1 hm with hm | hm
    · exact h.repeats hkey hk m hm
    · exact h'.repeats hkey (h.kept_all.lookup_ne hk) m hm
  later := by
    intro key hkey m hm
    rw [joints_append] at hm
    by_cases hl : l.joints key = []
    · rw [hl] at hm
      exact h'.later hkey m hm
    · rw [List.tail_append_of_ne_nil hl] at hm
      rcases List.mem_append.1 hm with hm | hm
      · exact h.later hkey m hm
      · exact h'.repeats hkey (h.joined hkey hl) m hm

theorem Recalls.append (h : Recalls b l b₁) (h' : Recalls b₁ l' b') : Recalls b (l ++ l') b' where
  toRemembers := h.trans h'.toRemembers
  opened := by
    intro key hk
    rw [opened_append] at hk
    rcases List.mem_append.1 hk with hk | hk
    · exact h'.kept_all.lookup_ne (h.opened hk)
    · exact h'.opened hk

/-- Nothing is remembered at a moment that is about no source and no destination. -/
theorem recalls_of_eq (hm : b'.memos = b.memos) (hl : ∀ m ∈ l, m.state.memos = b.memos)
    (ho : l.opened = []) (hj : ∀ key, key.Shared → ∀ m ∈ l.joints key,
      m.Repeats ∧ b.memos.lookup key ≠ none) : Recalls b l b' where
  nodup := by rw [ho]; exact List.nodup_nil
  new h := by rw [ho] at h; cases h
  known h := .inl (hm ▸ h)
  kept := by
    have hall : ∀ c ∈ b.states l b', c.memos = b.memos := by
      intro c hc
      rcases List.mem_cons.1 hc with rfl | hc
      · rfl
      · rcases List.mem_append.1 hc with hc | hc
        · obtain ⟨m, hm', rfl⟩ := List.mem_map.1 hc
          exact hl m hm'
        · rw [List.mem_singleton.1 hc, hm]
    exact List.pairwise_of_forall_mem_list fun c hc d hd =>
      Kept.of_eq ((hall d hd).trans (hall c hc).symm)
  joined hkey hne := by
    obtain ⟨m, hm'⟩ := List.exists_mem_of_ne_nil _ hne
    rw [hm]
    exact (hj _ hkey m hm').2
  repeats hkey _ m hm' := (hj _ hkey m hm').1
  later hkey m hm' := (hj _ hkey m (List.mem_of_mem_tail hm')).1
  opened h := by rw [ho] at h; cases h

theorem recalls_nil (hm : b'.memos = b.memos) : Recalls b [] b' :=
  recalls_of_eq hm (fun _ h => by cases h) rfl fun _ _ _ h => by cases h

theorem recalls_note (hb : m.state = b) (ho : m.opens? = none)
    (hj : ∀ key, key.Shared → m.joins? ≠ some key) : Recalls b [m] b := by
  refine recalls_of_eq rfl (by simp [hb]) (by simp [Trace.opened, ho]) fun key hkey m' hm' => ?_
  obtain ⟨hm', hk⟩ := List.mem_filter.1 hm'
  rw [List.mem_singleton.1 hm'] at hk
  exact absurd (of_decide_eq_true hk) (hj key hkey)

theorem opened_cons (hkey : key.Shared) :
    Trace.opened (.opened key b :: l) = key :: l.opened := by
  simp [Trace.opened, Moment.opens?, hkey]

theorem joints_concat_self {f : Fragment} :
    Trace.joints (.opened key b :: l ++ [.joined key f b b']) key =
      l.joints key ++ [.joined key f b b'] := by
  simp [Trace.joints, Moment.joins?]

theorem joints_concat_ne {f : Fragment} {key' : TargetKey} (hne : key ≠ key') :
    Trace.joints (.opened key b :: l ++ [.joined key f b b']) key' = l.joints key' := by
  simp [Trace.joints, Moment.joins?, hne]

/-- A target fails to compile. -/
theorem Remembers.opening (h : Remembers b l b₁) (hkey : key.Shared)
    (hnew : b.memos.lookup key = none) (hl : l.Avoids key) :
    Remembers b (.opened key b :: l) b₁ where
  nodup := by
    rw [opened_cons hkey]
    exact List.nodup_cons.2 ⟨hl.opened, h.nodup⟩
  new := by
    intro key' hk
    rw [opened_cons hkey] at hk
    rcases List.mem_cons.1 hk with rfl | hk
    · exact hnew
    · exact h.new hk
  known := by
    intro key' hk
    rw [opened_cons hkey]
    exact (h.known hk).imp_right (List.mem_cons_of_mem _)
  kept := by
    refine List.pairwise_cons.2 ⟨?_, h.kept⟩
    intro c hc
    rcases List.mem_cons.1 hc with rfl | hc
    · exact .refl _
    · exact List.rel_of_pairwise_cons h.kept hc
  joined := h.joined
  repeats := h.repeats
  later := h.later

theorem lookup_ne_of_cons {id : SlotId} (hm : b'.memos = (key, id) :: b₁.memos) {key' : TargetKey} :
    b'.memos.lookup key' ≠ none ↔ key' = key ∨ b₁.memos.lookup key' ≠ none := by
  rw [lookup_of_cons hm]
  split <;> simp [*]

theorem Recalls.kept_closing (h : Recalls b l b₁) (hnew : b.memos.lookup key = none)
    (hl : l.Avoids key) {id : SlotId} (hm : b'.memos = (key, id) :: b₁.memos) :
    ∀ c ∈ b :: l.map Moment.state, Kept c b' := by
  intro c hc
  have hc₁ := kept_last h.kept c hc
  refine hc₁.cons (by_contra fun hne => ?_) hm
  rcases h.known (hc₁.lookup_ne hne) with hk | hk
  · exact hk hnew
  · exact hl.opened hk

theorem pairwise_closing (h : (b.states l b₁).Pairwise Kept)
    (hlast : ∀ c ∈ b :: l.map Moment.state, Kept c b') (f : Fragment) :
    (b.states (.opened key b :: l ++ [.joined key f b b']) b').Pairwise Kept := by
  have hall : b.states (.opened key b :: l ++ [.joined key f b b']) b' =
      b :: ((b :: l.map Moment.state) ++ [b', b']) := by
    simp [states, Moment.state]
  rw [states, ← List.cons_append, List.pairwise_append] at h
  rw [hall, List.pairwise_cons, List.pairwise_append]
  refine ⟨fun c hc => ?_, h.1, by simp [Kept.refl], fun c hc d hd => ?_⟩
  · rcases List.mem_append.1 hc with hc | hc
    · rcases List.mem_cons.1 hc with rfl | hc
      · exact .refl _
      · exact List.rel_of_pairwise_cons h.1 hc
    · have hc : c = b' := by simpa using hc
      exact hc ▸ hlast b (by simp)
  · have hd : d = b' := by simpa using hd
    exact hd ▸ hlast c hc

/-- A target has been compiled and is remembered now. -/
theorem Recalls.closing (h : Recalls b l b₁) (hkey : key.Shared) (hnew : b.memos.lookup key = none)
    (hl : l.Avoids key) {id : SlotId} (hm : b'.memos = (key, id) :: b₁.memos) (f : Fragment) :
    Recalls b (.opened key b :: l ++ [.joined key f b b']) b' := by
  have hopened : Trace.opened (.opened key b :: l ++ [.joined key f b b']) = key :: l.opened := by
    rw [opened_append, opened_cons hkey]
    simp [Trace.opened, Moment.opens?]
  have hopening := h.toRemembers.opening hkey hnew hl
  have hremembered : ∀ {key'}, b'.memos.lookup key' ≠ none ↔
      key' = key ∨ b₁.memos.lookup key' ≠ none := lookup_ne_of_cons hm
  refine ⟨⟨?nodup, ?new, ?known, ?kept, ?joined, ?repeats, ?later⟩, ?opened⟩
  case nodup =>
    rw [hopened, ← opened_cons (b := b) hkey]
    exact hopening.nodup
  case new =>
    intro key' hk
    rw [hopened, ← opened_cons (b := b) hkey] at hk
    exact hopening.new hk
  case known =>
    intro key' hk
    rw [hopened]
    rcases hremembered.1 hk with rfl | hk
    · exact .inr (by simp)
    · exact (h.known hk).imp_right (List.mem_cons_of_mem _)
  case kept => exact pairwise_closing h.kept (h.kept_closing hnew hl hm) f
  case joined =>
    intro key' hkey' hne
    by_cases hk : key = key'
    · exact hremembered.2 (.inl hk.symm)
    · rw [joints_concat_ne hk] at hne
      exact hremembered.2 (.inr (h.joined hkey' hne))
  case repeats =>
    intro key' hkey' hk m hm'
    have hne : key ≠ key' := by
      rintro rfl
      exact hk hnew
    rw [joints_concat_ne hne] at hm'
    exact h.repeats hkey' hk m hm'
  case later =>
    intro key' hkey' m hm'
    by_cases hk : key = key'
    · subst hk
      -- nothing in the target refers to it, so this reference is the first
      rw [joints_concat_self, hl.joints] at hm'
      cases hm'
    · rw [joints_concat_ne hk] at hm'
      exact h.later hkey' m hm'
  case opened =>
    intro key' hk
    rw [hopened] at hk
    rcases List.mem_cons.1 hk with rfl | hk
    · exact hremembered.2 (.inl rfl)
    · exact hremembered.2 (.inr (h.opened hk))

end Build

namespace Compile

open Build

variable [Stage σ ω] {c : Catalog}

omit [Stage σ ω] in
/-- In an acyclic catalog the trace of a target is not about the target itself. -/
theorem avoids (hc : c.Acyclic) {s t : Statement} {key : TargetKey} {l : Trace σ ω}
    (hs : c.Lists s) (ht : s.target? c.objects = some (key, t))
    (hl : ∀ m ∈ l, ∀ key' ∈ m.key?, c.objects.Leads t key') : l.Avoids key :=
  fun m hm hk => hc key t (Catalog.mem_targets hs ht) (hl m hm key hk)

/-- In an acyclic catalog a target is compiled once. -/
theorem tally_recalls (hc : c.Acyclic) : Tally c.objects c.Lists
    (Recalls : Build σ ω → Trace σ ω → Build σ ω → Prop) Remembers where
  refl _ := recalls_nil rfl
  weaken h := h.toRemembers
  trans h h' := h.append h'
  trans_failed h h' := h.trans h'
  glue _ h := recalls_nil h.memos
  place _ _ _ := recalls_of_eq rfl (by simp [Moment.state, grow]) rfl fun _ _ _ h => by
    simp [Trace.joints, Moment.joins?] at h
  refuse {b p} _ :=
    have h : Recalls b [] { b with pool := p } := recalls_nil rfl
    h.toRemembers
  again := by
    intro b key f b' _ h
    refine recalls_of_eq h.memos (by simp [Moment.state, h.memos]) rfl fun key' _ m hm => ?_
    obtain ⟨hm, hk⟩ := List.mem_filter.1 hm
    obtain rfl := List.mem_singleton.1 hm
    obtain rfl : key = key' := by simpa [Moment.joins?] using hk
    exact ⟨h.lookup_ne, h.lookup_ne⟩
  first := by
    intro s key t b l b₁ f f' b' hs ht hwithin hnew _ _ h hj
    by_cases hkey : key.Shared
    · obtain ⟨id, hm⟩ := hj.memos_shared hkey
      exact h.closing hkey (hnew hkey) (avoids hc hs ht hwithin) hm f'
    · obtain rfl := hj.eq_of_not_shared hkey
      have hopened : Recalls b [.opened key b] b := recalls_note rfl (by simp [Moment.opens?, hkey])
        (by simp [Moment.joins?])
      have hjoined : Recalls b' [.joined key f' b b'] b' := recalls_note rfl rfl (by
        rintro key' hkey' hk
        cases hk
        exact hkey hkey')
      exact (hopened.append h).append hjoined
  abandon := by
    intro s key t b l b' hs ht hwithin hnew h
    by_cases hkey : key.Shared
    · exact h.opening hkey (hnew hkey) (avoids hc hs ht hwithin)
    · have hopened : Recalls b [.opened key b] b := recalls_note rfl (by simp [Moment.opens?, hkey])
        (by simp [Moment.joins?])
      exact hopened.trans h

end Compile

end Routing
