import Routing.Driver
import Routing.Proofs.Stage.Pool
/-!
# What goes into a buffer

Stages are made by drivers, cloned, started, stopped and given messages in any order, and their buffers are
emptied now and then. For the stages of one buffer a ledger is kept of the messages that they let
through, of those that they refuse, and of what is taken: what was let through was taken or is still there.
-/

namespace Routing

/-! ### Buffers -/

namespace Buffers

variable {b : Buffers} {name name' : String} {i j : Nat} {message : Message}

/-- The messages in the buffer with a name. -/
def content (b : Buffers) (name : String) : List Message :=
  ((b.find? name).map b.messages).getD []

/-- Names have buffers of their own. -/
structure Distinct (b : Buffers) : Prop where
  lt : ∀ {name i}, b.find? name = some i → i < b.stores.size
  inj : ∀ {name name' i}, b.find? name = some i → b.find? name' = some i → name = name'

theorem content_of_find (h : b.find? name = some i) : b.content name = b.messages i := by
  rw [content, h]
  rfl

theorem content_of_none (h : b.find? name = none) : b.content name = [] := by
  rw [content, h]
  rfl

theorem messages_modify (f : List Message → List Message) (hi : i < b.stores.size) :
    messages { b with stores := b.stores.modify i f } j =
      if j = i then f (b.messages j) else b.messages j := by
  simp only [messages, Array.getD_eq_getD_getElem?, Array.getElem?_modify, eq_comm (a := j)]
  split
  · next h => subst h; simp [Array.getElem?_eq_getElem hi]
  · rfl

/-- A change in one buffer changes what is kept under the name of that buffer. -/
theorem content_modify (f : List Message → List Message) (hi : i < b.stores.size) :
    content { b with stores := b.stores.modify i f } name =
      if b.find? name = some i then f (b.content name) else b.content name := by
  cases h : b.find? name with
  | none =>
    rw [if_neg nofun, content_of_none h]
    exact content_of_none h
  | some j =>
    have hcontent := content_of_find (b := { b with stores := b.stores.modify i f }) h
    rw [hcontent, content_of_find h, messages_modify f hi]
    simp only [Option.some.injEq]

theorem find?_named : (b.named name).2.find? name' =
    if name' = name then some (b.named name).1 else b.find? name' := by
  unfold named
  cases h : b.find? name with
  | some i =>
    simp only
    split
    · next heq => rw [heq, h]
    · rfl
  | none =>
    have hlookup : b.names.lookup name = none := h
    simp only [find?, fresh, List.lookup_append, List.lookup_cons, List.lookup_nil]
    by_cases heq : name' = name
    · subst heq
      simp [hlookup]
    · simp [heq, beq_eq_false_iff_ne.2 heq]

/-- Asking for a buffer makes at most an empty one. -/
theorem named_cases (b : Buffers) (name : String) : b.find? name = some (b.named name).1 ∧ (b.named name).2 = b ∨
    b.find? name = none ∧ (b.named name).1 = b.stores.size ∧
      (b.named name).2.stores = b.stores.push [] := by
  unfold named
  cases h : b.find? name with
  | some i => exact .inl ⟨rfl, rfl⟩
  | none => exact .inr ⟨rfl, rfl, rfl⟩

theorem size_named : b.stores.size ≤ (b.named name).2.stores.size := by
  rcases b.named_cases name with ⟨-, h⟩ | ⟨-, -, h⟩
  · exact Nat.le_of_eq (by rw [h])
  · rw [h, Array.size_push]
    exact Nat.le_succ _

theorem Distinct.named_lt (hb : b.Distinct) : (b.named name).1 < (b.named name).2.stores.size := by
  rcases b.named_cases name with ⟨hfind, h⟩ | ⟨-, hi, h⟩
  · rw [h]
    exact hb.lt hfind
  · rw [hi, h, Array.size_push]
    exact Nat.lt_succ_self _

/-- A name that has a buffer already keeps it. -/
theorem Distinct.named (hb : b.Distinct) : (b.named name).2.Distinct := by
  rcases b.named_cases name with ⟨hfind, h⟩ | ⟨hfind, hi, h⟩
  · rw [h]
    exact hb
  · have hne : ∀ {name'}, b.find? name' ≠ some b.stores.size := fun h =>
      Nat.lt_irrefl _ (hb.lt h)
    refine ⟨fun {name' i} hname' => ?_, fun {name' name'' i} hname' hname'' => ?_⟩
    · rw [find?_named] at hname'
      split at hname'
      · cases hname'
        exact hb.named_lt
      · rw [h, Array.size_push]
        exact Nat.lt_succ_of_lt (hb.lt hname')
    · rw [find?_named, hi] at hname' hname''
      split at hname' <;> split at hname''
      · next h' h'' => rw [h', h'']
      · next h' h'' => exact absurd (hname''.trans hname'.symm) hne
      · next h' h'' => exact absurd (hname'.trans hname''.symm) hne
      · exact hb.inj hname' hname''

theorem Distinct.content_named (hb : b.Distinct) (name name' : String) :
    (b.named name).2.content name' = b.content name' := by
  rcases b.named_cases name with ⟨hfind, h⟩ | ⟨hfind, hi, h⟩
  · rw [h]
  · rw [content, find?_named]
    split
    · next heq =>
      subst heq
      rw [content_of_none hfind, hi]
      simp [messages, h]
    · cases hname' : b.find? name' with
      | none => rw [content_of_none hname']; rfl
      | some j =>
        have hlt := hb.lt hname'
        rw [content_of_find hname']
        simp [messages, h, Array.getElem?_push, Nat.ne_of_lt hlt]

end Buffers

/-! ### Stages and their buffers -/

theorem Collect.refuses_iff {c : Collect} {b : Buffers} {name : String}
    (hname : b.find? name = some c.buffer) : c.refuses b = true ↔
      c.isOpen = false ∨ 0 < c.capacity ∧ c.capacity ≤ (b.content name).length := by
  rw [Collect.refuses, Buffers.content_of_find hname]
  simp

/-- What counts of a stage that fills a buffer: which one it is, how many messages it may hold for the
stage to go on, how many the stage has refused, and whether it is open. -/
structure Account where
  buffer : Nat
  capacity : Nat
  dropped : Nat := 0
  isOpen : Bool := false

namespace Builtin

variable {s copy : Builtin} {shared shared' : Shared} {settings : Settings} {message : Message}

def account? : Builtin → Option Account
  | collect c => some ⟨c.buffer, c.capacity, c.dropped, c.isOpen⟩
  | _ => none

/-- The driver entry makes a stage that fills the buffer with this name. -/
def fills (kind : Kind) (spec : DriverSpec) (templates : Templates) (name : String) : Bool :=
  match ofSpec kind spec templates with
  | .ok (.inr named) => named.1 == name
  | _ => false

theorem account?_init :
    (init settings s shared).stage.account? = s.account?.map (fun a => { a with isOpen := true }) ∧
      (init settings s shared).shared.buffers = shared.buffers := by
  cases s <;> exact ⟨rfl, rfl⟩

theorem account?_deinit :
    (deinit s shared).stage.account? = s.account?.map (fun a => { a with isOpen := false }) ∧
      (deinit s shared).shared.buffers = shared.buffers := by
  cases s with
  | collect c =>
    cases hopen : c.isOpen <;> simp [deinit, Collect.stop, hopen, account?]
  | _ => exact ⟨rfl, rfl⟩

/-- Only stages that fill a buffer change any when they get a message. -/
theorem account?_queue (h : s.account? = none) : (queue message s shared).stage.account? = none ∧
    (queue message s shared).shared.buffers = shared.buffers := by
  cases s with
  | collect c => cases h
  | _ => exact ⟨rfl, rfl⟩

/-- A clone fills the same buffer up to the same limit. -/
theorem account?_clone (h : s.clone shared = (some copy, shared')) :
    copy.account? = s.account?.map (fun a => { buffer := a.buffer, capacity := a.capacity }) ∧
      shared'.buffers = shared.buffers := by
  cases s with
  | internal | plain => cases h
  | scripted p =>
    simp only [clone, Scripted.clone] at h
    split at h
    · cases h
      exact ⟨rfl, rfl⟩
    · cases h
  | _ =>
    cases h
    exact ⟨rfl, rfl⟩

theorem buffers_clone (h : s.clone shared = (none, shared')) : shared'.buffers = shared.buffers := by
  cases s with
  | scripted p =>
    simp only [clone, Scripted.clone] at h
    split at h
    · cases h
    · cases h
      rfl
  | internal | plain =>
    cases h
    rfl
  | _ => cases h

theorem account?_ofSpec {kind : Kind} {spec : DriverSpec} {templates : Templates}
    (h : ofSpec kind spec templates = .ok (.inl s)) : s.account? = none := by
  unfold ofSpec at h
  split at h
  · cases h
  · cases h
    rfl
  · obtain ⟨field, -, h⟩ := bind_eq_ok h
    obtain ⟨value, -, h⟩ := bind_eq_ok h
    obtain ⟨invert, -, h⟩ := bind_eq_ok h
    cases h
    rfl
  · obtain ⟨field, -, h⟩ := bind_eq_ok h
    obtain ⟨separator, -, h⟩ := bind_eq_ok h
    obtain ⟨lead, -, h⟩ := bind_eq_ok h
    cases h
    rfl
  · obtain ⟨field, -, h⟩ := bind_eq_ok h
    obtain ⟨value, -, h⟩ := bind_eq_ok h
    cases h
    rfl
  · obtain ⟨name, -, h⟩ := bind_eq_ok h
    obtain ⟨capacity, -, h⟩ := bind_eq_ok h
    cases h

end Builtin

namespace Pool

variable {p : Pool Builtin Shared} {h h' : Handle} {s : Builtin} {shared : Shared}

def account? (p : Pool Builtin Shared) (h : Handle) : Option Account :=
  (p.stage? h).bind Builtin.account?

theorem account?_of_stage (hs : p.stage? h = some s) : p.account? h = s.account? := by
  rw [account?, hs]
  rfl

theorem lt_of_account {a : Account} (ha : p.account? h = some a) : h < p.instances.size := by
  obtain ⟨s, hs, -⟩ := Option.bind_eq_some_iff.1 ha
  exact lt_of_stage hs

theorem account?_add :
    (p.add s).2.account? h = if h = p.instances.size then s.account? else p.account? h := by
  simp only [account?, stage?_add]
  split <;> rfl

theorem account?_update (hlt : h < p.instances.size) :
    (p.update h s shared).account? h' = if h' = h then s.account? else p.account? h' := by
  simp only [account?, stage?_update hlt]
  split <;> rfl

/-- A stage whose account does not change leaves all accounts as they are. -/
theorem account?_update_of_eq {t : Builtin} (hs : p.stage? h = some t)
    (heq : s.account? = t.account?) : (p.update h s shared).account? h' = p.account? h' := by
  rw [account?_update (lt_of_stage hs)]
  split
  · next hh => rw [hh, heq, account?_of_stage hs]
  · rfl

/-- A call that treats all accounts alike. -/
theorem account?_call {α : Type} (absent : α) {g : Account → Account}
    {f : Builtin → Shared → Reply Builtin Shared α}
    (hf : ∀ s shared, (f s shared).stage.account? = s.account?.map g ∧
      (f s shared).shared.buffers = shared.buffers) (h : Handle) :
    (call absent f p h).2.2.shared.buffers = p.shared.buffers ∧
      ∀ h', (call absent f p h).2.2.account? h' =
        if h' = h then (p.account? h).map g else p.account? h' := by
  cases hs : p.stage? h with
  | none =>
    simp only [call, hs, account?, Option.bind_none, Option.map_none, true_and]
    intro h'
    split
    · next heq => rw [heq, hs]; rfl
    · rfl
  | some s =>
    simp only [call, hs]
    refine ⟨(hf s p.shared).2, fun h' => ?_⟩
    rw [account?_update (lt_of_stage hs), (hf s p.shared).1, account?_of_stage hs]

/-- A stage that fills a buffer puts a message in, or counts it. -/
theorem queue_of_collect {c : Collect} (hs : p.stage? h = some (.collect c)) (message : Message) :
    p.queue message h =
      if c.refuses p.shared.buffers then
        ((.drop, message), [], p.update h (.collect { c with dropped := c.dropped + 1 }) p.shared)
      else ((.forward, message), [], p.update h (.collect c)
        { p.shared with buffers := p.shared.buffers.push c.buffer message }) := by
  rw [queue, call, hs]
  simp only [Stage.queue, Builtin.queue, Collect.accept]
  split <;> rfl

end Pool

/-! ### The ledger of a buffer -/

/-- What is done with stages that are used one by one. -/
inductive StageCall where
  | create (kind : Kind) (spec : DriverSpec) (templates : Templates)
  | clone (h : Handle)
  | init (h : Handle) (settings : Settings)
  | deinit (h : Handle)
  | queue (h : Handle) (message : Message)
  /-- Takes all messages out of the buffer with this name. -/
  | take (name : String)

/-- The stages that were made, and what became of the messages for one buffer. -/
structure Ledger where
  pool : Pool Builtin Shared := { shared := {} }
  /-- The stages that were made to fill the buffer, and their clones. -/
  crew : List Handle := []
  /-- Those of them that were started and not stopped since. -/
  opened : List Handle := []
  /-- The messages that they let through, as they were then. -/
  forwarded : List Message := []
  /-- For each message that one of them refused, which one it was. -/
  refused : List Handle := []
  taken : List Message := []

namespace Ledger

def buffers (l : Ledger) : Buffers :=
  l.pool.shared.buffers

/-- A new stage, which may be one of those that fill the buffer. -/
def enlist (l : Ledger) (joins : Prop) [Decidable joins] (made : Handle × Pool Builtin Shared) :
    Ledger :=
  { l with pool := made.2, crew := if joins then l.crew ++ [made.1] else l.crew }

/-- The ledger of the buffer with this name after a call. -/
def step (name : String) (l : Ledger) : StageCall → Ledger
  | .create kind spec templates =>
    match Builtin.create kind spec templates l.pool.shared with
    | (.error _, shared) => { l with pool := { l.pool with shared } }
    | (.ok stage, shared) =>
      l.enlist (Builtin.fills kind spec templates name) (Pool.add { l.pool with shared } stage)
  | .clone h =>
    match l.pool.clone h with
    | (none, pool) => { l with pool }
    | (some copy, pool) => l.enlist (h ∈ l.crew) (copy, pool)
  | .init h settings =>
    { l with
      pool := (l.pool.init settings h).2.2
      opened := if h ∈ l.crew then l.opened ++ [h] else l.opened }
  | .deinit h =>
    { l with
      pool := (l.pool.deinit h).2.2
      opened := l.opened.filter (· ≠ h) }
  | .queue h message =>
    let r := l.pool.queue message h
    { l with
      pool := r.2.2
      forwarded := if h ∈ l.crew ∧ r.1.1 = .forward then l.forwarded ++ [message] else l.forwarded
      refused := if h ∈ l.crew ∧ r.1.1 = .drop then l.refused ++ [h] else l.refused }
  | .take other =>
    let r := l.pool.shared.takeBuffer other
    { l with
      pool := { l.pool with shared := r.2 }
      taken := if other = name then l.taken ++ r.1.getD [] else l.taken }

def run (name : String) (calls : List StageCall) : Ledger :=
  calls.foldl (step name) {}

/-- The ledger is in order: names have buffers of their own, the stages that fill the buffer with this
name are those that were listed, and what went into it was taken or is still there. -/
structure Sound (name : String) (l : Ledger) : Prop where
  distinct : l.buffers.Distinct
  held : ∀ {h a}, l.pool.account? h = some a → a.buffer < l.buffers.stores.size
  crew : ∀ {h}, h ∈ l.crew ↔
    ∃ a, l.pool.account? h = some a ∧ l.buffers.find? name = some a.buffer
  balance : l.taken ++ l.buffers.content name = l.forwarded
  standing : ∀ {h a}, h ∈ l.crew → l.pool.account? h = some a →
    a.dropped = l.refused.count h ∧ (a.isOpen = true ↔ h ∈ l.opened)
  listed : ∀ {h}, h ∈ l.refused ∨ h ∈ l.opened → h ∈ l.crew
  bounded : ∀ bound, (∀ h ∈ l.crew, ∀ a, l.pool.account? h = some a →
    0 < a.capacity ∧ a.capacity ≤ bound) → (l.buffers.content name).length ≤ bound

variable {name : String} {l : Ledger} {pool : Pool Builtin Shared} {h : Handle} {s : Builtin}
  {message : Message}

theorem sound_empty : Sound name {} := by
  refine ⟨⟨nofun, nofun⟩, nofun, ⟨nofun, ?_⟩, rfl, nofun, ?_, fun _ _ => Nat.zero_le _⟩
  · rintro ⟨a, -, hname⟩
    cases hname
  · rintro h (hh | hh) <;> cases hh

namespace Sound

theorem not_mem_crew (hl : l.Sound name) (hnone : l.pool.account? h = none) : h ∉ l.crew := by
  intro hmem
  obtain ⟨a, ha, -⟩ := hl.crew.1 hmem
  rw [hnone] at ha
  cases ha

/-- Messages go into buffers and out of them, and nothing else changes. -/
theorem restock (hl : l.Sound name) {forwarded taken : List Message}
    (hfind : ∀ other, pool.shared.buffers.find? other = l.buffers.find? other)
    (hsize : pool.shared.buffers.stores.size = l.buffers.stores.size)
    (haccount : ∀ h, pool.account? h = l.pool.account? h)
    (hbalance : taken ++ pool.shared.buffers.content name = forwarded)
    (hbounded : ∀ bound, (∀ h ∈ l.crew, ∀ a, l.pool.account? h = some a →
      0 < a.capacity ∧ a.capacity ≤ bound) → (pool.shared.buffers.content name).length ≤ bound) :
    Sound name { l with pool, forwarded, taken } := by
  have hlt : ∀ {other i}, l.buffers.find? other = some i → i < pool.shared.buffers.stores.size :=
    fun h => hsize ▸ hl.distinct.lt h
  refine ⟨⟨?_, ?_⟩, ?_, ?_, hbalance, ?_, hl.listed, ?_⟩ <;> simp only [buffers, hfind, haccount]
  · exact hlt
  · exact hl.distinct.inj
  · exact fun ha => hsize ▸ hl.held ha
  · exact hl.crew
  · exact hl.standing
  · exact hbounded

/-- Calls that touch neither buffers nor accounts. -/
theorem quiet (hl : l.Sound name) (hbuffers : pool.shared.buffers = l.buffers)
    (haccount : ∀ h, pool.account? h = l.pool.account? h) : Sound name { l with pool } :=
  hl.restock (fun _ => by rw [hbuffers]) (by rw [hbuffers]) haccount
    (by rw [hbuffers]; exact hl.balance) (by rw [hbuffers]; exact hl.bounded)

/-- A buffer is asked for by its name. -/
theorem named (hl : l.Sound name) (other : String) {shared : Shared}
    (hbuffers : shared.buffers = (l.buffers.named other).2) :
    Sound name { l with pool := { l.pool with shared } } := by
  have heq : buffers { l with pool := { l.pool with shared } } = (l.buffers.named other).2 := hbuffers
  have hcontent := hl.distinct.content_named other name
  have hcrew : ∀ a h, l.pool.account? h = some a →
      ((l.buffers.named other).2.find? name = some a.buffer ↔
        l.buffers.find? name = some a.buffer) := by
    intro a h ha
    rw [Buffers.find?_named]
    split
    · next hname =>
      subst hname
      rcases l.buffers.named_cases name with ⟨hfind, -⟩ | ⟨hfind, hi, -⟩
      · rw [hfind]
      · -- No stage can fill a buffer that there was not.
        rw [hfind, hi]
        have := hl.held ha
        simp only [Option.some.injEq, reduceCtorEq, iff_false]
        omega
    · rfl
  refine ⟨?_, fun ha => ?_, ?_, ?_, hl.standing, hl.listed, ?_⟩ <;> simp only [heq, hcontent]
  · exact hl.distinct.named
  · exact Nat.lt_of_lt_of_le (hl.held ha) Buffers.size_named
  · intro h
    rw [hl.crew]
    exact exists_congr fun a => and_congr_right fun ha => (hcrew a h ha).symm
  · exact hl.balance
  · exact hl.bounded

/-- A stage is added, which is listed if it fills the buffer. -/
theorem enlist (hl : l.Sound name) {joins : Prop} [Decidable joins]
    (hs : ∀ a, s.account? = some a →
      a.buffer < l.buffers.stores.size ∧ a.dropped = 0 ∧ a.isOpen = false)
    (hjoins : joins ↔ ∃ a, s.account? = some a ∧ l.buffers.find? name = some a.buffer) :
    (l.enlist joins (l.pool.add s)).Sound name := by
  have hnew : l.pool.instances.size ∉ l.crew := hl.not_mem_crew <| by
    rw [Pool.account?, Pool.stage?_eq_none.2 (Nat.le_refl _)]
    rfl
  have hmem : ∀ {h}, h ∈ (l.enlist joins (l.pool.add s)).crew ↔
      h ∈ l.crew ∨ h = l.pool.instances.size ∧ joins := by
    intro h
    by_cases hj : joins <;> simp [Ledger.enlist, hj, Pool.add, Pool.addInstance]
  have haccount : ∀ h, (l.enlist joins (l.pool.add s)).pool.account? h =
      if h = l.pool.instances.size then s.account? else l.pool.account? h :=
    fun _ => Pool.account?_add
  refine
    { distinct := hl.distinct
      held := ?held
      crew := ?crew
      balance := hl.balance
      standing := ?standing
      listed := fun hh => hmem.2 (.inl (hl.listed hh))
      bounded := ?bounded }
  case held =>
    intro h a ha
    rw [haccount] at ha
    split at ha
    · exact (hs a ha).1
    · exact hl.held ha
  case crew =>
    intro h
    rw [hmem, haccount]
    split
    · next hh => simp [hh, hnew, hjoins]; rfl
    · next hh => simp [hh, hl.crew]; rfl
  case standing =>
    intro h a hh ha
    rw [haccount] at ha
    split at ha
    · next heq =>
      obtain ⟨-, hdropped, hclosed⟩ := hs a ha
      rw [hdropped, hclosed, heq]
      exact ⟨(List.count_eq_zero.2 fun hr => hnew (hl.listed (.inl hr))).symm,
        iff_of_false Bool.false_ne_true fun ho => hnew (hl.listed (.inr ho))⟩
    · next hne => exact hl.standing ((hmem.1 hh).resolve_right fun hj => hne hj.1) ha
  case bounded =>
    -- A limit for all stages is one for those that were there.
    refine fun bound hbound => hl.bounded bound fun h hh a ha => hbound h (hmem.2 (.inl hh)) a ?_
    rw [haccount, if_neg (Nat.ne_of_lt (Pool.lt_of_account ha))]
    exact ha

/-- A stage counts what it refuses, or is started or stopped; it still fills the same buffer. -/
theorem revise (hl : l.Sound name) {f : Account → Account} {refused opened : List Handle}
    (hbuffers : pool.shared.buffers = l.buffers)
    (haccount : ∀ h', pool.account? h' =
      if h' = h then (l.pool.account? h).map f else l.pool.account? h')
    (hf : ∀ a, (f a).buffer = a.buffer ∧ (f a).capacity = a.capacity)
    (hstanding : ∀ a, h ∈ l.crew → l.pool.account? h = some a →
      (f a).dropped = refused.count h ∧ ((f a).isOpen = true ↔ h ∈ opened))
    (hothers : ∀ h', h' ≠ h ∨ h ∉ l.crew →
      refused.count h' = l.refused.count h' ∧ (h' ∈ opened ↔ h' ∈ l.opened)) :
    Sound name { l with pool, refused, opened } := by
  -- Each account comes from one with the same buffer, and each goes on as one.
  have hfrom : ∀ {h' a'}, pool.account? h' = some a' → ∃ a, l.pool.account? h' = some a ∧
      a'.buffer = a.buffer ∧ (h' = h ∧ a' = f a ∨ h' ≠ h ∧ a' = a) := by
    intro h' a' ha'
    rw [haccount] at ha'
    split at ha'
    · next heq =>
      obtain ⟨a, ha, rfl⟩ := Option.map_eq_some_iff.1 ha'
      exact ⟨a, heq ▸ ha, (hf a).1, .inl ⟨heq, rfl⟩⟩
    · next hne => exact ⟨a', ha', rfl, .inr ⟨hne, rfl⟩⟩
  have hto : ∀ {h' a}, l.pool.account? h' = some a → ∃ a', pool.account? h' = some a' ∧
      a'.buffer = a.buffer ∧ a'.capacity = a.capacity := by
    intro h' a ha
    rw [haccount]
    split
    · next heq => exact ⟨f a, by rw [← heq, ha]; rfl, hf a⟩
    · exact ⟨a, ha, rfl, rfl⟩
  have hsame : buffers { l with pool, refused, opened } = l.buffers := hbuffers
  refine
    { distinct := by rw [hsame]; exact hl.distinct
      held := ?held
      crew := ?crew
      balance := by rw [hsame]; exact hl.balance
      standing := ?standing
      listed := ?listed
      bounded := ?bounded }
  case held =>
    intro h' a' ha'
    obtain ⟨a, ha, hbuffer, -⟩ := hfrom ha'
    rw [hsame, hbuffer]
    exact hl.held ha
  case crew =>
    intro h'
    rw [hsame, hl.crew]
    constructor
    · rintro ⟨a, ha, hname⟩
      obtain ⟨a', ha', hbuffer, -⟩ := hto ha
      exact ⟨a', ha', hbuffer ▸ hname⟩
    · rintro ⟨a', ha', hname⟩
      obtain ⟨a, ha, hbuffer, -⟩ := hfrom ha'
      exact ⟨a, ha, hbuffer ▸ hname⟩
  case standing =>
    intro h' a' hh ha'
    obtain ⟨a, ha, -, ⟨rfl, rfl⟩ | ⟨hne, rfl⟩⟩ := hfrom ha'
    · exact hstanding a hh ha
    · rw [(hothers h' (.inl hne)).1, (hothers h' (.inl hne)).2]
      exact hl.standing hh ha
  case listed =>
    intro h' hh
    by_cases hcrew : h' = h ∧ h ∈ l.crew
    · exact hcrew.1 ▸ hcrew.2
    · have hother := hothers h' (Decidable.not_and_iff_not_or_not.1 hcrew)
      rw [← List.count_pos_iff, hother.1, List.count_pos_iff, hother.2] at hh
      exact hl.listed hh
  case bounded =>
    intro bound hbound
    rw [hsame]
    refine hl.bounded bound fun h' hh a ha => ?_
    obtain ⟨a', ha', -, hcapacity⟩ := hto ha
    exact hcapacity ▸ hbound h' hh a' ha'

/-! ### One call -/

theorem create (hl : l.Sound name) (kind : Kind) (spec : DriverSpec) (templates : Templates) :
    (l.step name (.create kind spec templates)).Sound name := by
  cases hspec : Builtin.ofSpec kind spec templates with
  | error e => simpa only [step, Builtin.create, hspec] using hl
  | ok made =>
    cases made with
    | inl s =>
      have hnone := Builtin.account?_ofSpec hspec
      simp only [step, Builtin.create, hspec]
      refine hl.enlist (by rw [hnone]; nofun) ?_
      rw [hnone, Builtin.fills, hspec]
      simp
    | inr named =>
      obtain ⟨other, capacity⟩ := named
      have hnamed : Sound name { l with pool := { l.pool with shared :=
          { l.pool.shared with buffers := (l.buffers.named other).2 } } } := hl.named other rfl
      have hfind : (l.buffers.named other).2.find? other = some (l.buffers.named other).1 := by
        rw [Buffers.find?_named, if_pos rfl]
      simp only [step, Builtin.create, hspec]
      refine hnamed.enlist (fun a ha => ?_) ?_
      · cases ha
        exact ⟨hnamed.distinct.lt hfind, rfl, rfl⟩
      · rw [Builtin.fills, hspec]
        simp only [Builtin.account?, beq_iff_eq, Option.some.injEq, exists_eq_left']
        exact ⟨fun heq => heq ▸ hfind, fun hname => hnamed.distinct.inj hfind hname⟩

theorem clone (hl : l.Sound name) (h : Handle) : (l.step name (.clone h)).Sound name := by
  cases hs : l.pool.stage? h with
  | none => simpa only [step, Pool.clone, hs] using hl
  | some s =>
    rcases hc : Stage.clone s l.pool.shared with ⟨_ | copy, shared⟩
    · simp only [step, Pool.clone, hs, hc]
      exact hl.quiet (Builtin.buffers_clone hc) fun _ => rfl
    · obtain ⟨haccount, hbuffers⟩ := Builtin.account?_clone hc
      have hshared : Sound name { l with pool := { l.pool with shared } } :=
        hl.quiet hbuffers fun _ => rfl
      have hh := Pool.account?_of_stage hs
      simp only [step, Pool.clone, hs, hc]
      refine hshared.enlist (fun a ha => ?_) ?_
      · rw [haccount, Option.map_eq_some_iff] at ha
        obtain ⟨a', ha', rfl⟩ := ha
        exact ⟨hshared.held (a := a') (hh.trans ha'), rfl, rfl⟩
      · change _ ↔ ∃ a : Account, _ ∧ shared.buffers.find? name = some a.buffer
        rw [hl.crew, hh, haccount, hbuffers]
        cases s.account? <;> simp [buffers]

theorem init (hl : l.Sound name) (h : Handle) (settings : Settings) :
    (l.step name (.init h settings)).Sound name := by
  obtain ⟨hbuffers, haccount⟩ :=
    l.pool.account?_call (.ok ()) (fun s shared => Builtin.account?_init) h
  refine hl.revise hbuffers haccount (fun _ => ⟨rfl, rfl⟩) (fun a hh ha => ?_) fun h' hh => ?_
  · simpa [hh] using (hl.standing hh ha).1
  · refine ⟨rfl, ?_⟩
    split
    · next hcrew => simp [hh.resolve_right (not_not_intro hcrew)]
    · rfl

theorem deinit (hl : l.Sound name) (h : Handle) : (l.step name (.deinit h)).Sound name := by
  obtain ⟨hbuffers, haccount⟩ :=
    l.pool.account?_call (.ok ()) (fun s shared => Builtin.account?_deinit) h
  refine hl.revise hbuffers haccount (fun _ => ⟨rfl, rfl⟩) (fun a hh ha => ?_) fun h' hh => ?_
  · simpa using (hl.standing hh ha).1
  · refine ⟨rfl, ?_⟩
    simp only [List.mem_filter, decide_eq_true_eq, and_iff_left_iff_imp]
    rintro ho rfl
    exact hh.elim (· rfl) fun hcrew => hcrew (hl.listed (.inr ho))

/-- A listed stage counts what it refuses. -/
theorem refuse (hl : l.Sound name) {c : Collect} (hs : l.pool.stage? h = some (.collect c)) :
    Sound name { l with
      pool := l.pool.update h (.collect { c with dropped := c.dropped + 1 }) l.pool.shared
      refused := if h ∈ l.crew then l.refused ++ [h] else l.refused } := by
  have hbefore := Pool.account?_of_stage hs
  refine hl.revise (h := h) (f := fun a => { a with dropped := a.dropped + 1 }) rfl
    (fun h' => ?_) (fun _ => ⟨rfl, rfl⟩) (fun a hh ha => ?_) fun h' hh => ⟨?_, .rfl⟩
  · rw [Pool.account?_update (Pool.lt_of_stage hs), hbefore]
    rfl
  · obtain ⟨hdropped, hopen⟩ := hl.standing hh ha
    rw [if_pos hh, List.count_append, List.count_singleton_self, hdropped]
    exact ⟨rfl, hopen⟩
  · split
    · next hcrew =>
      have hne := hh.resolve_right (not_not_intro hcrew)
      simp [hne.symm]
    · rfl

/-- What a listed stage lets through goes into the buffer. -/
theorem accept (hl : l.Sound name) {c : Collect} (hs : l.pool.stage? h = some (.collect c))
    (hroom : c.refuses l.buffers = false) :
    Sound name { l with
      pool := l.pool.update h (.collect c)
        { l.pool.shared with buffers := l.buffers.push c.buffer message }
      forwarded := if h ∈ l.crew then l.forwarded ++ [message] else l.forwarded } := by
  have hbefore : l.pool.account? h = some ⟨c.buffer, c.capacity, c.dropped, c.isOpen⟩ :=
    Pool.account?_of_stage hs
  have hmem : h ∈ l.crew ↔ l.buffers.find? name = some c.buffer := by
    rw [hl.crew, hbefore]
    simp
  have hcontent : (l.buffers.push c.buffer message).content name =
      if h ∈ l.crew then l.buffers.content name ++ [message] else l.buffers.content name := by
    simp only [hmem]
    exact Buffers.content_modify _ (hl.held hbefore)
  refine hl.restock (fun _ => rfl) Array.size_modify
    (fun _ => Pool.account?_update_of_eq hs rfl) ?_ fun bound hbound => ?_
  · show _ ++ (l.buffers.push c.buffer message).content name = _
    rw [hcontent]
    split
    · rw [← List.append_assoc, hl.balance]
    · exact hl.balance
  · show ((l.buffers.push c.buffer message).content name).length ≤ bound
    rw [hcontent]
    split
    · next hcrew =>
      -- There was room for one more message.
      obtain ⟨hpos, hle⟩ := hbound h hcrew _ hbefore
      have hnot := mt (Collect.refuses_iff (hmem.1 hcrew)).2 (Bool.eq_false_iff.1 hroom)
      simp only at hpos hle
      rw [List.length_append, List.length_singleton]
      omega
    · exact hl.bounded bound hbound

theorem queue (hl : l.Sound name) (h : Handle) (message : Message) :
    (l.step name (.queue h message)).Sound name := by
  cases hs : l.pool.stage? h with
  | none =>
    have hcrew := hl.not_mem_crew (h := h) (by rw [Pool.account?, hs]; rfl)
    simpa only [step, Pool.queue, Pool.call, hs, hcrew, false_and, if_false] using hl
  | some s =>
    cases haccount : s.account? with
    | none =>
      have hcrew := hl.not_mem_crew ((Pool.account?_of_stage hs).trans haccount)
      obtain ⟨hstage, hbuffers⟩ := Builtin.account?_queue haccount
      simp only [step, Pool.queue, Pool.call, hs, hcrew, false_and, if_false]
      exact hl.quiet hbuffers fun _ => Pool.account?_update_of_eq hs (hstage.trans haccount.symm)
    | some a =>
      obtain ⟨c, rfl⟩ : ∃ c, s = .collect c := by
        cases s with
        | collect c => exact ⟨c, rfl⟩
        | _ => cases haccount
      rw [step, Pool.queue_of_collect hs]
      cases hrefuses : c.refuses l.pool.shared.buffers with
      | true => simpa using hl.refuse hs
      | false => simpa [buffers] using hl.accept hs hrefuses

theorem take (hl : l.Sound name) (other : String) : (l.step name (.take other)).Sound name := by
  rw [step, Shared.takeBuffer]
  cases hother : l.pool.shared.buffers.find? other with
  | none => simpa using hl
  | some i =>
    have hi := hl.distinct.lt hother
    have hcontent : (l.buffers.take i).2.content name =
        if other = name then [] else l.buffers.content name := by
      rw [Buffers.take, Buffers.content_modify _ hi]
      by_cases heq : other = name
      · rw [if_pos heq, if_pos (heq ▸ hother)]
      · rw [if_neg heq, if_neg fun hname => heq (hl.distinct.inj hother hname)]
    refine hl.restock (fun _ => rfl) Array.size_modify (fun _ => rfl) ?_ fun bound hbound => ?_
    · show _ ++ (l.buffers.take i).2.content name = _
      rw [hcontent]
      split
      · next heq =>
        rw [← hl.balance, Buffers.content_of_find (heq ▸ hother), List.append_nil]
        rfl
      · exact hl.balance
    · show ((l.buffers.take i).2.content name).length ≤ bound
      rw [hcontent]
      split
      · exact Nat.zero_le _
      · exact hl.bounded bound hbound

theorem step (hl : l.Sound name) (call : StageCall) : (l.step name call).Sound name := by
  cases call with
  | create kind spec templates => exact hl.create kind spec templates
  | clone h => exact hl.clone h
  | init h settings => exact hl.init h settings
  | deinit h => exact hl.deinit h
  | queue h message => exact hl.queue h message
  | take other => exact hl.take other

theorem run (name : String) (calls : List StageCall) : (Ledger.run name calls).Sound name := by
  have hrun : ∀ l : Ledger, l.Sound name → (calls.foldl (Ledger.step name) l).Sound name := by
    induction calls with
    | nil => exact fun l hl => hl
    | cons call calls ih => exact fun l hl => ih _ (hl.step call)
  exact hrun {} sound_empty

/-- What a listed stage has of the ledger. -/
theorem collect (hl : l.Sound name) (hh : h ∈ l.crew) : ∃ c : Collect,
    l.pool.stage? h = some (.collect c) ∧ l.buffers.find? name = some c.buffer ∧
      c.dropped = l.refused.count h ∧ (c.isOpen = true ↔ h ∈ l.opened) := by
  obtain ⟨a, ha, hname⟩ := hl.crew.1 hh
  obtain ⟨s, hs, hsome⟩ := Option.bind_eq_some_iff.1 ha
  cases s with
  | collect c =>
    cases hsome
    exact ⟨c, hs, hname, hl.standing hh ha⟩
  | _ => cases hsome

end Sound

/-- Whatever is done with stages: what was taken out of the buffer with this name and what is in it are,
one after the other, what its stages have let through. Each of them has counted what it refused; it
refuses a message exactly if it is not open or its limit is reached, which changes nothing but that
count, and puts it into the buffer as it is otherwise. Limits of all stages limit the buffer. -/
theorem accounts_balance (name : String) (calls : List StageCall) :
    let l := run name calls
    l.taken ++ l.buffers.content name = l.forwarded ∧
      (∀ h ∈ l.crew, ∃ c : Collect,
        l.pool.stage? h = some (.collect c) ∧ c.dropped = l.refused.count h ∧
          ∀ message,
            let reply := l.pool.queue message h
            reply.1.2 = message ∧
              if h ∉ l.opened ∨ 0 < c.capacity ∧ c.capacity ≤ (l.buffers.content name).length then
                reply.1.1 = .drop ∧
                  reply.2.2 =
                    l.pool.update h (.collect { c with dropped := c.dropped + 1 }) l.pool.shared
              else
                reply.1.1 = .forward ∧
                  reply.2.2.shared.buffers.content name = l.buffers.content name ++ [message] ∧
                  ∀ h', reply.2.2.stage? h' = l.pool.stage? h') ∧
      ∀ bound,
        (∀ h ∈ l.crew, ∀ c, l.pool.stage? h = some (.collect c) →
          0 < c.capacity ∧ c.capacity ≤ bound) →
        (l.buffers.content name).length ≤ bound := by
  intro l
  have hl : l.Sound name := Sound.run name calls
  refine ⟨hl.balance, fun h hh => ?_, fun bound hbound => hl.bounded bound fun h hh a ha => ?_⟩
  · obtain ⟨c, hs, hname, hdropped, hopen⟩ := hl.collect hh
    refine ⟨c, hs, hdropped, fun message => ?_⟩
    have hrefuses : h ∉ l.opened ∨ 0 < c.capacity ∧ c.capacity ≤ (l.buffers.content name).length ↔
        c.refuses l.pool.shared.buffers = true := by
      rw [← hopen, Bool.not_eq_true]
      exact (Collect.refuses_iff hname).symm
    simp only [Pool.queue_of_collect hs, hrefuses]
    split
    · exact ⟨rfl, rfl, rfl⟩
    · refine ⟨rfl, rfl, ?_, fun h' => ?_⟩
      · exact (Buffers.content_modify _ (hl.distinct.lt hname)).trans (if_pos hname)
      · rw [Pool.stage?_update (Pool.lt_of_stage hs)]
        split
        · next heq => rw [heq, hs]
        · rfl
  · obtain ⟨c, hs, -⟩ := hl.collect hh
    rw [Pool.account?_of_stage hs] at ha
    cases ha
    exact hbound h hh c hs

/-- Two destinations with different limits, the first of which is stopped and started again, and a
clone of it that is never started. -/
theorem accounts_balance_sample :
    let destination := fun capacity : Int => StageCall.create .destination
      { driver := "collect"
        options := [("buffer", .string "audit"), ("capacity", .integer capacity)] } {}
    let queue := fun (h : Handle) (text : String) => StageCall.queue h (.ofText text)
    let calls := [destination 1, destination 2, .init 0 {}, queue 0 "a", queue 0 "b", .init 1 {},
      queue 1 "b", .clone 0, queue 2 "c", .take "audit", .deinit 0, queue 0 "c", .init 0 {},
      queue 0 "d"]
    let l := run "audit" calls
    l.crew = [0, 1, 2] ∧ l.opened = [1, 0] ∧ l.refused = [0, 2, 0] ∧
      l.taken = [.ofText "a", .ofText "b"] ∧ l.taken ++ l.buffers.content "audit" = l.forwarded ∧
      (l.buffers.content "audit").length ≤ 2 ∧ (l.pool.queue (.ofText "e") 2).1.1 = .drop := by
  intro destination queue calls
  obtain ⟨hbalance, hcrew, hbounded⟩ := accounts_balance "audit" calls
  have hlisted : (run "audit" calls).crew = [0, 1, 2] := by decide +kernel
  have hopened : (run "audit" calls).opened = [1, 0] := by decide +kernel
  have hrefused : (run "audit" calls).refused = [0, 2, 0] := by decide +kernel
  have htaken : (run "audit" calls).taken = [.ofText "a", .ofText "b"] := by decide +kernel
  have hlimits : ∀ h ∈ (run "audit" calls).crew, ((run "audit" calls).pool.account? h).all
      (fun a => 0 < a.capacity && a.capacity ≤ 2) = true := by decide +kernel
  generalize run "audit" calls = l at *
  refine ⟨hlisted, hopened, hrefused, htaken, hbalance, hbounded 2 fun h hh c hs => ?_, ?_⟩
  · have hlimit := hlimits h hh
    rw [Pool.account?_of_stage hs] at hlimit
    simpa [Builtin.account?] using hlimit
  · obtain ⟨c, -, -, hqueue⟩ := hcrew 2 (by rw [hlisted]; decide)
    have hclosed : 2 ∉ l.opened := by
      rw [hopened]
      decide
    have hdrop := (hqueue (.ofText "e")).2
    rw [if_pos (.inl hclosed)] at hdrop
    exact hdrop.1

end Ledger

end Routing
