/-!
# Places in a text

A place in a text is counted in the bytes of its UTF-8 form. A text can be cut at a place unless that is
beyond the end or within a character.
-/

namespace Routing.Text

/-- The number of bytes of a text. -/
def size : List Char → Nat
  | [] => 0
  | c :: cs => c.utf8Size + size cs

/-- What stands before and after a place, if the text can be cut there. -/
def cutAt : Nat → List Char → Option (List Char × List Char)
  | 0, s => some ([], s)
  | _ + 1, [] => none
  | n + 1, c :: cs =>
    if c.utf8Size ≤ n + 1 then
      (cutAt (n + 1 - c.utf8Size) cs).map fun parts => (c :: parts.1, parts.2)
    else none

/-- The text up to a place. -/
def upTo? (place : Nat) (s : List Char) : Option (List Char) :=
  (cutAt place s).map (·.1)

/-- The text from a place on. -/
def from? (place : Nat) (s : List Char) : Option (List Char) :=
  (cutAt place s).map (·.2)

/-- The first place at which `needle` stands. -/
def placeOf (needle : List Char) : List Char → Option Nat
  | [] => if needle.isEmpty then some 0 else none
  | c :: cs =>
    if needle.isPrefixOf (c :: cs) then some 0 else (placeOf needle cs).map (c.utf8Size + ·)

theorem size_append (s t : List Char) : size (s ++ t) = size s + size t := by
  induction s with
  | nil => simp [size]
  | cons c s ih => simp only [List.cons_append, size, ih]; omega

theorem cutAt_size (s t : List Char) : cutAt (size s) (s ++ t) = some (s, t) := by
  induction s with
  | nil => rw [size, cutAt, List.nil_append]
  | cons c s ih =>
    have hpos := c.utf8Size_pos
    obtain ⟨n, hn⟩ : ∃ n, c.utf8Size + size s = n + 1 := ⟨c.utf8Size + size s - 1, by omega⟩
    rw [size, List.cons_append, hn, cutAt, if_pos (by omega), ← hn, Nat.add_sub_cancel_left, ih]
    rfl

/-- A cut takes nothing away. -/
theorem append_of_cutAt {n : Nat} {s before after : List Char}
    (h : cutAt n s = some (before, after)) : s = before ++ after ∧ n = size before := by
  fun_induction cutAt n s generalizing before with
  | case1 s => cases h; exact ⟨rfl, rfl⟩
  | case2 => cases h
  | case3 n c cs hle ih =>
    obtain ⟨parts, hparts, heq⟩ := Option.map_eq_some_iff.1 h
    cases heq
    obtain ⟨hs, hn⟩ := ih hparts
    exact ⟨congrArg (c :: ·) hs, by simp only [size]; omega⟩
  | case4 => cases h

theorem upTo?_size (s t : List Char) : upTo? (size s) (s ++ t) = some s := by
  rw [upTo?, cutAt_size]
  rfl

theorem from?_size (s t : List Char) : from? (size s) (s ++ t) = some t := by
  rw [from?, cutAt_size]
  rfl

theorem from?_add (s t u : List Char) : from? (size s + size t) (s ++ (t ++ u)) = some u := by
  rw [← size_append, ← List.append_assoc, from?_size]

/-- What is left after a place is shorter, unless the place is the start. -/
theorem length_from? {n : Nat} {s after : List Char} (h : from? n s = some after) (hn : 0 < n) :
    after.length < s.length := by
  obtain ⟨⟨before, after⟩, hcut, rfl⟩ := Option.map_eq_some_iff.1 h
  obtain ⟨rfl, rfl⟩ := append_of_cutAt hcut
  cases before with
  | nil => simp [size] at hn
  | cons c before =>
    simp only [List.length_append, List.length_cons]
    omega

/-! ### The first place -/

theorem placeOf_eq_some {needle s : List Char} {n : Nat} (h : placeOf needle s = some n) :
    ∃ before after, s = before ++ (needle ++ after) ∧ n = size before ∧
      ∀ t, t <:+ before → t ≠ [] → ¬ needle <+: t ++ (needle ++ after) := by
  induction s generalizing n with
  | nil =>
    rw [placeOf] at h
    split at h
    · next hneedle =>
      cases h
      obtain rfl := List.isEmpty_iff.1 hneedle
      exact ⟨[], [], rfl, rfl, fun t ht hne => absurd (List.suffix_nil.1 ht) hne⟩
    · cases h
  | cons c s ih =>
    rw [placeOf] at h
    split at h
    · next hprefix =>
      cases h
      obtain ⟨after, hafter⟩ := List.isPrefixOf_iff_prefix.1 hprefix
      exact ⟨[], after, hafter.symm, rfl, fun t ht hne => absurd (List.suffix_nil.1 ht) hne⟩
    · next hprefix =>
      obtain ⟨m, hm, rfl⟩ := Option.map_eq_some_iff.1 h
      obtain ⟨before, after, rfl, rfl, hfirst⟩ := ih hm
      refine ⟨c :: before, after, rfl, rfl, fun t ht hne => ?_⟩
      rcases List.suffix_cons_iff.1 ht with rfl | ht
      · exact fun hneedle => hprefix (List.isPrefixOf_iff_prefix.2 hneedle)
      · exact hfirst t ht hne

theorem placeOf_eq_none {needle s : List Char} (h : placeOf needle s = none) : ¬ needle <:+: s := by
  induction s with
  | nil =>
    rw [placeOf] at h
    split at h
    · cases h
    · next hneedle => exact fun hinfix => hneedle (List.isEmpty_iff.2 (List.infix_nil.1 hinfix))
  | cons c s ih =>
    rw [placeOf] at h
    split at h
    · cases h
    · next hprefix =>
      intro hinfix
      rcases List.infix_cons_iff.1 hinfix with hneedle | hinfix
      · exact hprefix (List.isPrefixOf_iff_prefix.2 hneedle)
      · exact ih (Option.map_eq_none_iff.1 h) hinfix

/-! A single character stands first where none stands before it. -/

theorem placeOf_char_eq_some {c : Char} {s : List Char} {n : Nat} (h : placeOf [c] s = some n) :
    ∃ before after, s = before ++ c :: after ∧ n = size before ∧ c ∉ before := by
  obtain ⟨before, after, rfl, rfl, hfirst⟩ := placeOf_eq_some h
  refine ⟨before, after, rfl, rfl, fun hmem => ?_⟩
  obtain ⟨s, t, rfl⟩ := List.append_of_mem hmem
  exact hfirst (c :: t) (List.suffix_append _ _) (List.cons_ne_nil _ _) (List.prefix_append [c] _)

theorem placeOf_char_eq_none {c : Char} {s : List Char} (h : placeOf [c] s = none) : c ∉ s := by
  intro hmem
  obtain ⟨s, t, rfl⟩ := List.append_of_mem hmem
  exact placeOf_eq_none h ⟨s, t, List.append_assoc s [c] t⟩

end Routing.Text
