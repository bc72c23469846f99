import Mathlib.Data.List.Forall2
import Routing.Proofs.Compile.Trace
/-!
# Fronts of statements

What a statement is compiled to has a front: messages enter at a head with capabilities, or they come
from sources, or nothing was compiled. `Infers` reads the front off the statement. What it says of
flow control depends on the context of the statement, and nothing else does.
-/

namespace Routing

/-- The capabilities are the same except for flow control. -/
def Capabilities.Agrees (c c' : Capabilities) : Prop :=
  { c with hardFlowControl := false } = { c' with hardFlowControl := false }

namespace Capabilities.Agrees

variable {c c' d d' : Capabilities}

theorem refl (c : Capabilities) : c.Agrees c := rfl

theorem changesMessage (h : c.Agrees c') : c.changesMessage = c'.changesMessage :=
  (Capabilities.mk.inj h).2.1

theorem union (h : c.Agrees c') (h' : d.Agrees d') : (c.union d).Agrees (c'.union d') := by
  obtain ⟨hs, hm, -, hf, hl⟩ := Capabilities.mk.inj h
  obtain ⟨hs', hm', -, hf', hl'⟩ := Capabilities.mk.inj h'
  simp only [Agrees, Capabilities.union, hs, hm, hf, hl, hs', hm', hf', hl']

end Capabilities.Agrees

instance (c c' : Capabilities) : Decidable (c.Agrees c') :=
  inferInstanceAs (Decidable (_ = _))

/-- How messages enter what a statement is compiled to. -/
inductive Front where
  /-- Nothing was compiled. -/
  | empty
  /-- The messages come from sources. -/
  | rooted
  /-- The messages enter at a head. -/
  | headed (caps : Capabilities)
  deriving DecidableEq, Repr

namespace Front

/-- The capabilities of the head, if there is one. -/
def capabilities : Front → Capabilities
  | headed caps => caps
  | _ => .none

def isHeaded : Front → Bool
  | headed _ => true
  | _ => false

/-- The front with more capabilities at the head. -/
def adding (more : Capabilities) : Front → Front
  | headed caps => headed (caps.union more)
  | e => e

/-- The front of a stage with these capabilities. -/
def ofStage (caps : Capabilities) : Front :=
  if caps.isSource then rooted else headed caps

/-- The first front that is one. -/
def leading : List Front → Front
  | [] => empty
  | empty :: es => leading es
  | e :: _ => e

/-- Some of the heads hold their senders back. -/
def hold (es : List Front) : Bool :=
  es.any (·.capabilities.hardFlowControl)

/-- The front of a sequence, given those of its children. -/
def sequence (flags : Flags) (fc : Bool) (es : List Front) : Front :=
  (leading es).adding
    { branchFallback := flags.fallback
      branchFinal := flags.final
      changesMessage := es.any (·.capabilities.changesMessage)
      hardFlowControl := flags.flowControl || hold es || fc }

/-- The front of a junction, given those of its branches. -/
def junction (flags : Flags) (fc : Bool) (es : List Front) : Front :=
  if es.any isHeaded then headed { hardFlowControl := flags.flowControl || hold es || fc }
  else leading es

theorem leading_concat (es : List Front) (e : Front) :
    leading (es ++ [e]) = if leading es = empty then e else leading es := by
  induction es with
  | nil => cases e <;> rfl
  | cons a es ih =>
    cases a with
    | empty => exact ih
    | rooted | headed caps => simp [leading]

/-- Two fronts are the same except for flow control. -/
inductive Agrees : Front → Front → Prop
  | empty : Agrees empty empty
  | rooted : Agrees rooted rooted
  | headed {c c' : Capabilities} (h : c.Agrees c') : Agrees (headed c) (headed c')

namespace Agrees

variable {e e' : Front} {es es' : List Front}

theorem refl (e : Front) : e.Agrees e := by
  cases e with
  | empty => exact .empty
  | rooted => exact .rooted
  | headed caps => exact .headed (.refl caps)

theorem capabilities (h : e.Agrees e') : e.capabilities.Agrees e'.capabilities := by
  cases h with
  | headed h => exact h
  | empty | rooted => exact .refl _

theorem isHeaded (h : e.Agrees e') : e.isHeaded = e'.isHeaded := by
  cases h <;> rfl

theorem adding {c c' : Capabilities} (h : e.Agrees e') (hc : c.Agrees c') :
    (e.adding c).Agrees (e'.adding c') := by
  cases h with
  | headed h => exact .headed (h.union hc)
  | empty => exact .empty
  | rooted => exact .rooted

theorem leading (h : List.Forall₂ Agrees es es') :
    (Front.leading es).Agrees (Front.leading es') := by
  induction h with
  | nil => exact .empty
  | cons h _ ih =>
    cases h with
    | empty => exact ih
    | rooted => exact .rooted
    | headed h => exact .headed h

theorem any_changes (h : List.Forall₂ Agrees es es') :
    es.any (·.capabilities.changesMessage) = es'.any (·.capabilities.changesMessage) := by
  induction h with
  | nil => rfl
  | cons h _ ih => rw [List.any_cons, List.any_cons, ih, h.capabilities.changesMessage]

theorem any_headed (h : List.Forall₂ Agrees es es') :
    es.any Front.isHeaded = es'.any Front.isHeaded := by
  induction h with
  | nil => rfl
  | cons h _ ih => rw [List.any_cons, List.any_cons, ih, h.isHeaded]

theorem sequence (h : List.Forall₂ Agrees es es') (flags : Flags) (fc fc' : Bool) :
    (Front.sequence flags fc es).Agrees (Front.sequence flags fc' es') := by
  refine (leading h).adding ?_
  rw [any_changes h]
  exact rfl

theorem junction (h : List.Forall₂ Agrees es es') (flags : Flags) (fc fc' : Bool) :
    (Front.junction flags fc es).Agrees (Front.junction flags fc' es') := by
  simp only [Front.junction, any_headed h]
  split
  · exact .headed rfl
  · exact leading h

end Agrees

end Front

/-! ### Inference -/

section

variable (objects : Objects) (declared : Handle → Capabilities)

mutual

/-- The front that a statement has in a context that holds senders back or not, given what stages
declare. A reference to a source or a destination has a front of its own. -/
inductive Infers : Statement → Bool → Front → Prop
  | single {h : Heading} {handle : Handle} {cs : List Statement} {fc : Bool}
    (hshape : h.shape = .single) :
    Infers (.mk h (.stage handle) cs) fc (.ofStage (declared handle))
  | source {s t : Statement} {key : TargetKey} {fc : Bool} (hshape : s.shape = .reference)
    (ht : s.target? objects = some (key, t)) (hk : key.kind = .source) : Infers s fc .rooted
  | destination {s t : Statement} {key : TargetKey} {fc : Bool} (hshape : s.shape = .reference)
    (ht : s.target? objects = some (key, t)) (hk : key.kind = .destination) :
    Infers s fc (.headed .none)
  | other {s t : Statement} {key : TargetKey} {fc : Bool} {e : Front} (hshape : s.shape = .reference)
    (ht : s.target? objects = some (key, t)) (hk : ¬ key.Shared) (h : Infers t fc e) :
    Infers s fc e
  | sequence {h : Heading} {o : Object} {cs : List Statement} {fc : Bool} {es : List Front}
    (hshape : h.shape = .sequence) (hcs : InfersAll cs fc es) :
    Infers (.mk h o cs) fc (.sequence h.flags fc es)
  | junction {h : Heading} {o : Object} {cs : List Statement} {fc : Bool} {es : List Front}
    (hshape : h.shape = .junction) (hcs : InfersAll cs fc es) :
    Infers (.mk h o cs) fc (.junction h.flags fc es)

/-- The fronts of the children of a statement in a context; a child holds its senders back as well if
it says so itself. -/
inductive InfersAll : List Statement → Bool → List Front → Prop
  | nil {fc : Bool} : InfersAll [] fc []
  | cons {s : Statement} {ss : List Statement} {fc : Bool} {e : Front} {es : List Front}
    (hs : Infers s (fc || s.flags.flowControl) e) (hss : InfersAll ss fc es) :
    InfersAll (s :: ss) fc (e :: es)

end

end

variable {objects : Objects} {declared : Handle → Capabilities} {s : Statement} {fc : Bool}
  {e : Front}

theorem InfersAll.concat (hs : Infers objects declared s (fc || s.flags.flowControl) e) :
    ∀ {ss es}, InfersAll objects declared ss fc es →
      InfersAll objects declared (ss ++ [s]) fc (es ++ [e])
  | _, _, .nil => .cons hs .nil
  | _, _, .cons h hss => .cons h (hss.concat hs)

namespace Infers

variable {h : Heading} {o : Object} {cs : List Statement} {key : TargetKey} {t : Statement}

theorem of_single (hi : Infers objects declared (.mk h o cs) fc e) (hshape : h.shape = .single) :
    ∃ handle, o = .stage handle ∧ e = .ofStage (declared handle) := by
  cases hi with
  | single _ => exact ⟨_, rfl, rfl⟩
  | source hs | destination hs | other hs => cases hshape.symm.trans hs
  | sequence hs | junction hs => rw [hs] at hshape; cases hshape

theorem of_sequence (hi : Infers objects declared (.mk h o cs) fc e) (hshape : h.shape = .sequence) :
    ∃ es, InfersAll objects declared cs fc es ∧ e = .sequence h.flags fc es := by
  cases hi with
  | sequence _ hcs => exact ⟨_, hcs, rfl⟩
  | source hs | destination hs | other hs => cases hshape.symm.trans hs
  | single hs | junction hs => rw [hs] at hshape; cases hshape

theorem of_junction (hi : Infers objects declared (.mk h o cs) fc e) (hshape : h.shape = .junction) :
    ∃ es, InfersAll objects declared cs fc es ∧ e = .junction h.flags fc es := by
  cases hi with
  | junction _ hcs => exact ⟨_, hcs, rfl⟩
  | source hs | destination hs | other hs => cases hshape.symm.trans hs
  | single hs | sequence hs => rw [hs] at hshape; cases hshape

theorem of_reference (hi : Infers objects declared s fc e) (hshape : s.shape = .reference)
    (ht : s.target? objects = some (key, t)) :
    key.kind = .source ∧ e = .rooted ∨ key.kind = .destination ∧ e = .headed .none ∨
      ¬ key.Shared ∧ Infers objects declared t fc e := by
  cases hi with
  | source _ ht' hk =>
    cases ht.symm.trans ht'
    exact .inl ⟨hk, rfl⟩
  | destination _ ht' hk =>
    cases ht.symm.trans ht'
    exact .inr (.inl ⟨hk, rfl⟩)
  | other _ ht' hk hi =>
    cases ht.symm.trans ht'
    exact .inr (.inr ⟨hk, hi⟩)
  | single hs | sequence hs | junction hs => cases hs.symm.trans hshape

end Infers

-- by the first inference; the shape and the target of a statement leave one way to infer the second

mutual

/-- Contexts change nothing but flow control. -/
theorem Infers.agrees : ∀ {s fc fc' e e'}, Infers objects declared s fc e →
    Infers objects declared s fc' e' → e.Agrees e'
  | _, _, _, _, _, .single hshape, h' => by
    obtain ⟨_, ho, rfl⟩ := h'.of_single hshape
    cases ho
    exact .refl _
  | _, _, _, _, _, .source hshape ht hk, h' => by
    rcases h'.of_reference hshape ht with ⟨-, rfl⟩ | ⟨hk', -⟩ | ⟨hk', -⟩
    · exact .rooted
    · cases hk.symm.trans hk'
    · exact absurd (.inl hk) hk'
  | _, _, _, _, _, .destination hshape ht hk, h' => by
    rcases h'.of_reference hshape ht with ⟨hk', -⟩ | ⟨-, rfl⟩ | ⟨hk', -⟩
    · cases hk.symm.trans hk'
    · exact .refl _
    · exact absurd (.inr hk) hk'
  | _, _, _, _, _, .other hshape ht hk h, h' => by
    rcases h'.of_reference hshape ht with ⟨hk', -⟩ | ⟨hk', -⟩ | ⟨-, h'⟩
    · exact absurd (.inl hk') hk
    · exact absurd (.inr hk') hk
    · exact h.agrees h'
  | _, _, _, _, _, .sequence hshape hcs, h' => by
    obtain ⟨es', hcs', rfl⟩ := h'.of_sequence hshape
    exact .sequence (hcs.agrees hcs') _ _ _
  | _, _, _, _, _, .junction hshape hcs, h' => by
    obtain ⟨es', hcs', rfl⟩ := h'.of_junction hshape
    exact .junction (hcs.agrees hcs') _ _ _

theorem InfersAll.agrees : ∀ {ss fc fc' es es'}, InfersAll objects declared ss fc es →
    InfersAll objects declared ss fc' es' → List.Forall₂ Front.Agrees es es'
  | _, _, _, _, _, .nil, .nil => .nil
  | _, _, _, _, _, .cons h hss, .cons h' hss' => .cons (h.agrees h') (hss.agrees hss')

end

mutual

/-- A statement has one front in a context. -/
theorem Infers.unique : ∀ {s fc e e'}, Infers objects declared s fc e →
    Infers objects declared s fc e' → e = e'
  | _, _, _, _, .single hshape, h' => by
    obtain ⟨_, ho, rfl⟩ := h'.of_single hshape
    cases ho
    rfl
  | _, _, _, _, .source hshape ht hk, h' => by
    rcases h'.of_reference hshape ht with ⟨-, rfl⟩ | ⟨hk', -⟩ | ⟨hk', -⟩
    · rfl
    · cases hk.symm.trans hk'
    · exact absurd (.inl hk) hk'
  | _, _, _, _, .destination hshape ht hk, h' => by
    rcases h'.of_reference hshape ht with ⟨hk', -⟩ | ⟨-, rfl⟩ | ⟨hk', -⟩
    · cases hk.symm.trans hk'
    · rfl
    · exact absurd (.inr hk) hk'
  | _, _, _, _, .other hshape ht hk h, h' => by
    rcases h'.of_reference hshape ht with ⟨hk', -⟩ | ⟨hk', -⟩ | ⟨-, h'⟩
    · exact absurd (.inl hk') hk
    · exact absurd (.inr hk') hk
    · exact h.unique h'
  | _, _, _, _, .sequence hshape hcs, h' => by
    obtain ⟨es', hcs', rfl⟩ := h'.of_sequence hshape
    rw [hcs.unique hcs']
  | _, _, _, _, .junction hshape hcs, h' => by
    obtain ⟨es', hcs', rfl⟩ := h'.of_junction hshape
    rw [hcs.unique hcs']

theorem InfersAll.unique : ∀ {ss fc es es'}, InfersAll objects declared ss fc es →
    InfersAll objects declared ss fc es' → es = es'
  | _, _, _, _, .nil, .nil => rfl
  | _, _, _, _, .cons h hss, .cons h' hss' => by
    rw [h.unique h', hss.unique hss']

end

end Routing
