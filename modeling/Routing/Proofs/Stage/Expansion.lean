import Routing.Stage.Assign
import Routing.Text.Blank
/-!
# Templates, character by character

The body of a template is read once from left to right into parts: a `${` with a brace after it begins a
field, one without a brace after it makes the rest literal, and every other character stands for
itself. Expanding puts in the values of the fields. The parts come from the body alone, so values are not
read again.
-/

namespace Routing

open Text

/-- A part of a template. -/
inductive Piece where
  | literal (c : Char)
  | field (name : List Char)
  deriving DecidableEq, Repr

namespace Piece

def expand (lookup : String → Option String) : Piece → List Char
  | literal c => [c]
  | field name => Template.value lookup name

/-- The parts of a body, read from left to right. -/
inductive Reads : List Char → List Piece → Prop
  | nil : Reads [] []
  | field {name rest : List Char} {ps : List Piece} (hname : '}' ∉ name) (hrest : Reads rest ps) :
    Reads ('$' :: '{' :: (name ++ '}' :: rest)) (field name :: ps)
  | unclosed {rest : List Char} (hrest : '}' ∉ rest) :
    Reads ('$' :: '{' :: rest) (('$' :: '{' :: rest).map literal)
  | literal {c : Char} {rest : List Char} {ps : List Piece} (hc : ¬ ['$', '{'] <+: c :: rest)
    (hrest : Reads rest ps) : Reads (c :: rest) (literal c :: ps)

variable {body before after name rest : List Char} {ps qs : List Piece}
  {lookup : String → Option String}

theorem not_opening {c : Char} (h : ¬ ['$', '{'] <+: c :: rest) {t : List Char} :
    c :: rest ≠ '$' :: '{' :: t := by
  intro heq
  exact h (heq ▸ List.prefix_append ['$', '{'] t)

theorem closing_mem : '}' ∈ name ++ '}' :: rest :=
  List.mem_append_right _ List.mem_cons_self

/-- A body is read in one way only. -/
theorem Reads.unique (h : Reads body ps) (h' : Reads body qs) : qs = ps := by
  induction h generalizing qs with
  | nil =>
    cases h'
    rfl
  | @field name rest ps hname hrest ih =>
    generalize hbody : '$' :: '{' :: (name ++ '}' :: rest) = body at h'
    cases h' with
    | nil => cases hbody
    | @field name' rest' qs hname' hrest' =>
      have hsplit := congrArg (splitOnce '}') (List.cons.inj (List.cons.inj hbody).2).2
      rw [splitOnce_append hname, splitOnce_append hname'] at hsplit
      cases hsplit
      rw [ih hrest']
    | unclosed hrest' =>
      cases hbody
      exact absurd closing_mem hrest'
    | literal hc _ => exact absurd hbody.symm (not_opening hc)
  | @unclosed rest hrest =>
    generalize hbody : '$' :: '{' :: rest = body at h'
    cases h' with
    | nil => cases hbody
    | field hname' hrest' =>
      cases hbody
      exact absurd closing_mem hrest
    | unclosed _ =>
      cases hbody
      rfl
    | literal hc _ => exact absurd hbody.symm (not_opening hc)
  | @literal c rest ps hc hrest ih =>
    generalize hbody : c :: rest = body at h'
    cases h' with
    | nil => cases hbody
    | field _ _ => exact absurd hbody (not_opening hc)
    | unclosed _ => exact absurd hbody (not_opening hc)
    | literal _ hrest' =>
      cases hbody
      rw [ih hrest']

/-- A text without a `${` is read as it stands. -/
theorem reads_literal (h : ¬ ['$', '{'] <:+: body) : Reads body (body.map literal) := by
  induction body with
  | nil => exact .nil
  | cons c body ih =>
    exact .literal (fun hc => h hc.isInfix) (ih fun hinfix => h (List.infix_cons hinfix))

/-- So is what stands in front of the first `${`. -/
theorem Reads.append (h : Reads ('$' :: '{' :: after) ps)
    (hfirst : ∀ t, t <:+ before → t ≠ [] → ¬ ['$', '{'] <+: t ++ (['$', '{'] ++ after)) :
    Reads (before ++ '$' :: '{' :: after) (before.map Piece.literal ++ ps) := by
  induction before with
  | nil => exact h
  | cons c before ih =>
    exact .literal (hfirst (c :: before) List.suffix_rfl (List.cons_ne_nil c before))
      (ih fun t ht => hfirst t (ht.trans (List.suffix_cons c before)))

theorem flatMap_literal (s : List Char) : (s.map literal).flatMap (expand lookup) = s := by
  induction s with
  | nil => rfl
  | cons c s ih => rw [List.map_cons, List.flatMap_cons, ih]; rfl

end Piece

namespace Template

open Piece

variable {body before after name rest : List Char} (lookup : String → Option String)

theorem from?_opening : from? (size before + 2) (before ++ '$' :: '{' :: after) = some after :=
  from?_add before ['$', '{'] after

/-- The first closing brace ends the name of a field. -/
theorem field?_closed (hplace : placeOf ['}'] (name ++ '}' :: rest) = some (size name)) :
    field? lookup (size before) (before ++ '$' :: '{' :: (name ++ '}' :: rest)) =
      some (before ++ value lookup name, rest) := by
  have hrest : from? (size name + 1) (name ++ '}' :: rest) = some rest := from?_add name ['}'] rest
  simp [field?, upTo?_size, from?_opening, hplace, hrest]

theorem field?_unclosed (hplace : placeOf ['}'] after = none) :
    field? lookup (size before) (before ++ '$' :: '{' :: after) =
      some (before ++ '$' :: '{' :: after, []) := by
  simp [field?, upTo?_size, from?_size, from?_opening, hplace]

theorem expandFrom_of_none (h : placeOf ['$', '{'] body = none) :
    expandFrom lookup body = some body := by
  rw [expandFrom, h]

theorem expandFrom_of_field {out : List Char} (h : placeOf ['$', '{'] body = some (size before))
    (hfield : field? lookup (size before) body = some (out, rest)) :
    expandFrom lookup body = (expandFrom lookup rest).map (out ++ ·) := by
  rw [expandFrom, h]
  simp only
  split
  · next hnone => rw [hnone] at hfield; cases hfield
  · next hsome => rw [hsome] at hfield; cases hfield; rfl

/-- The expansion of a body puts the values in the places of its fields. -/
theorem exists_reads (body : List Char) : ∃ ps, Reads body ps ∧
    ∀ lookup, expandFrom lookup body = some (ps.flatMap (Piece.expand lookup)) := by
  -- What is left after a field is shorter.
  induction hn : body.length using Nat.strongRecOn generalizing body with
  | ind n ih =>
  cases hopen : placeOf ['$', '{'] body with
  | none =>
    refine ⟨body.map .literal, reads_literal (placeOf_eq_none hopen), fun lookup => ?_⟩
    rw [expandFrom_of_none lookup hopen, flatMap_literal]
  | some start =>
    obtain ⟨before, after, rfl, rfl, hfirst⟩ := placeOf_eq_some hopen
    cases hclose : placeOf ['}'] after with
    | none =>
      refine ⟨_, (Reads.unclosed (placeOf_char_eq_none hclose)).append hfirst, fun lookup => ?_⟩
      rw [expandFrom_of_field lookup hopen (field?_unclosed lookup hclose),
        expandFrom_of_none lookup rfl, ← List.map_append, flatMap_literal]
      simp
    | some stop =>
      obtain ⟨name, rest, rfl, rfl, hname⟩ := placeOf_char_eq_some hclose
      obtain ⟨ps, hps, hexpand⟩ := ih rest.length (by simp at hn; omega) rest rfl
      refine ⟨_, (Reads.field hname hps).append hfirst, fun lookup => ?_⟩
      have hfield : field? lookup (size before) (before ++ '$' :: '{' :: (name ++ '}' :: rest)) =
          some (before ++ value lookup name, rest) := field?_closed lookup hclose
      rw [expandFrom_of_field lookup hopen hfield, hexpand, List.flatMap_append, flatMap_literal,
        List.flatMap_cons]
      simp [Piece.expand]

/-- Where a field begins it can be cut out, and less is left to expand. -/
theorem exists_field {start : Nat} (h : placeOf ['$', '{'] body = some start) :
    ∃ out rest, field? lookup start body = some (out, rest) ∧ rest.length < body.length := by
  obtain ⟨ps, -, hexpand⟩ := exists_reads body
  have hsome := hexpand lookup
  rw [expandFrom, h] at hsome
  simp only at hsome
  split at hsome
  · cases hsome
  · next out rest hfield => exact ⟨out, rest, hfield, length_field? hfield⟩

/-- Expanding a template puts the values of fields into the parts of its body, whatever they are, and
comes to an end without a cut that cannot be made. An assignment looks up the fields of the message as
it was. -/
theorem expand_reads (t : Template) :
    (∃ ps, Reads t.body.toList ps ∧ (∀ qs, Reads t.body.toList qs → qs = ps) ∧
      (∀ lookup, t.expand? lookup = some (String.ofList (ps.flatMap (Piece.expand lookup))) ∧
        t.expand lookup = String.ofList (ps.flatMap (Piece.expand lookup))) ∧
      ∀ field message, (Assign.mk field t).apply message =
        message.set field (String.ofList (ps.flatMap (Piece.expand message.get?)))) ∧
      ∀ lookup body start, placeOf ['$', '{'] body = some start →
        ∃ out rest, field? lookup start body = some (out, rest) ∧ rest.length < body.length := by
  obtain ⟨ps, hps, hexpand⟩ := exists_reads t.body.toList
  have hsome : ∀ lookup, t.expand? lookup =
      some (String.ofList (ps.flatMap (Piece.expand lookup))) := fun lookup => by
    rw [expand?, hexpand]
    rfl
  have hvalue : ∀ lookup, t.expand lookup =
      String.ofList (ps.flatMap (Piece.expand lookup)) := fun lookup => by
    rw [expand, hsome]
    rfl
  refine ⟨⟨ps, hps, fun qs hqs => hps.unique hqs, fun lookup => ⟨hsome lookup, hvalue lookup⟩,
    fun field message => ?_⟩, fun lookup body start h => exists_field lookup h⟩
  rw [Assign.apply, hvalue]

/-- A dollar sign before a field, a `${` in its name and in its value, and one that is never closed. -/
theorem expand_reads_sample :
    (inline "é$$\x7b$\x7ba\x7d$\x7bb").expand (fun name => if name = "$\x7ba" then some "$\x7bc\x7d" else none) =
        "é$$\x7bc\x7d$\x7bb" ∧
      ∃ out rest, field? (fun _ => none) 3 "é$$\x7b$\x7ba\x7d$\x7bb".toList = some (out, rest) ∧
        rest.length < 11 := by
  obtain ⟨⟨ps, -, hunique, hexpand, -⟩, hfield⟩ := expand_reads (inline "é$$\x7b$\x7ba\x7d$\x7bb")
  have hreads : Reads (inline "é$$\x7b$\x7ba\x7d$\x7bb").body.toList _ :=
    .literal (by decide) (.literal (by decide)
      (.field (show '}' ∉ ['$', '{', 'a'] by decide) (.unclosed (show '}' ∉ ['b'] by decide))))
  refine ⟨?_, hfield _ "é$$\x7b$\x7ba\x7d$\x7bb".toList 3 (by decide +kernel)⟩
  rw [(hexpand _).2, ← hunique _ hreads]
  decide +kernel

end Template

end Routing
