import Mathlib.Data.List.Basic
import Routing.Stage.Builtin
/-!
# Pairs and their texts

What the `kv` parser reads is what was written: pairs with blanks between them, values with or without
double quotes around, and words that are no pairs. What it does to a message is to put in the pairs of
the text that its field had, so that of several pairs with one name the last counts.
-/

namespace Routing

namespace Text

/-- There are no blanks in it. -/
def Solid (w : List Char) : Prop :=
  ∀ c ∈ w, isBlank c = false

instance (w : List Char) : Decidable (Solid w) :=
  List.decidableBAll (fun c => isBlank c = false) w

/-- A text of these words in order, with at least one blank between two of them. -/
inductive Spaced : List (List Char) → List Char → Prop
  | nil : Spaced [] []
  | last (w : List Char) : Spaced [w] w
  | blank {c : Char} {ws : List (List Char)} {s : List Char} (hc : isBlank c = true)
    (hs : Spaced ws s) : Spaced ws (c :: s)
  | cons (w : List Char) {c : Char} {ws : List (List Char)} {s : List Char} (hc : isBlank c = true)
    (hs : Spaced ws s) : Spaced (w :: ws) (w ++ c :: s)

/-! ### Words -/

section Pieces

variable {p : Char → Bool} {c : Char} {w : List Char}

theorem pieces_ne_nil (s : List Char) : pieces p s ≠ [] := by
  cases s with
  | nil => simp [pieces]
  | cons c s =>
    rw [pieces]
    split
    · simp
    · split <;> simp

theorem pieces_cons_of_pos (hc : p c = true) (s : List Char) :
    pieces p (c :: s) = [] :: pieces p s := by
  rw [pieces]
  cases hs : pieces p s with
  | nil => exact absurd hs (pieces_ne_nil s)
  | cons w ws => simp [hc]

theorem pieces_of_none (hw : ∀ c ∈ w, p c = false) : pieces p w = [w] := by
  induction w with
  | nil => rfl
  | cons d w ih =>
    rw [pieces, ih fun c hc => hw c (List.mem_cons_of_mem d hc)]
    simp [hw d List.mem_cons_self]

theorem pieces_append (hw : ∀ c ∈ w, p c = false) (hc : p c = true) (s : List Char) :
    pieces p (w ++ c :: s) = w :: pieces p s := by
  induction w with
  | nil => exact pieces_cons_of_pos hc s
  | cons d w ih =>
    rw [List.cons_append, pieces, ih fun c hc => hw c (List.mem_cons_of_mem d hc)]
    simp [hw d List.mem_cons_self]

end Pieces

/-- Reading a text finds the words that it was made of, but for empty ones. -/
theorem words_of_spaced {ws : List (List Char)} {s : List Char} (h : Spaced ws s)
    (hws : ∀ w ∈ ws, Solid w) : words s = ws.filter fun w => !w.isEmpty := by
  induction h with
  | nil => rfl
  | last w => rw [words, pieces_of_none (hws w List.mem_cons_self)]
  | blank hc hs ih =>
    rw [words, pieces_cons_of_pos hc, List.filter_cons_of_neg (by simp)]
    exact ih hws
  | cons w hc hs ih =>
    have hrest := ih fun w' hw' => hws w' (List.mem_cons_of_mem w hw')
    rw [words, pieces_append (hws w List.mem_cons_self) hc, List.filter_cons, List.filter_cons,
      ← words, hrest]

/-! ### Quotes -/

section Trim

variable {c : Char} {s : List Char}

theorem dropWhile_eq_self (h : s.head? ≠ some c) : s.dropWhile (· == c) = s := by
  cases s with
  | nil => rfl
  | cons d s => exact List.dropWhile_cons_of_neg (by simpa using h)

/-- A text that neither starts nor ends with a character loses none to trimming. -/
theorem trimMatches_eq_self (hhead : s.head? ≠ some c) (hlast : s.getLast? ≠ some c) :
    trimMatches c s = s := by
  rw [trimMatches, dropWhile_eq_self hhead, dropWhile_eq_self (by rwa [List.head?_reverse]),
    List.reverse_reverse]

/-- Trimming takes off one character that was put around such a text. -/
theorem trimMatches_wrapped (hhead : s.head? ≠ some c) (hlast : s.getLast? ≠ some c) :
    trimMatches c (c :: (s ++ [c])) = s := by
  rw [trimMatches, List.dropWhile_cons_of_pos (by simp)]
  cases s with
  | nil => simp
  | cons d s =>
    have hfront : (d :: s ++ [c]).dropWhile (· == c) = d :: s ++ [c] :=
      dropWhile_eq_self (by simpa using hhead)
    rw [hfront, List.reverse_append, List.reverse_singleton, List.singleton_append,
      List.dropWhile_cons_of_pos (by simp), dropWhile_eq_self (by rwa [List.head?_reverse]),
      List.reverse_reverse]

end Trim

end Text

open Text

namespace KeyValue

/-- A word of a text that is written for the parser. -/
inductive Word where
  /-- A key and its value, which may have double quotes around it. -/
  | pair (key value : List Char) (quoted : Bool)
  /-- A word that is not a pair. -/
  | other (word : List Char)

namespace Word

def text (separator : Char) : Word → List Char
  | pair key value quoted =>
    key ++ separator :: (if quoted then '"' :: (value ++ ['"']) else value)
  | other word => word

/-- The pair of a word as the parser gives it. -/
def entry (lead : String) : Word → Option (String × String)
  | pair key value _ => some (lead ++ String.ofList key, String.ofList value)
  | other _ => none

/-- The word can be written with the separator: a key is there and ends before it, a value does not
start or end with the quotes that may be put around it, and what is no pair does not look like one. -/
inductive Fits (separator : Char) : Word → Prop
  | pair {key value : List Char} (quoted : Bool) (hkey : key ≠ []) (hsolid : Solid key)
    (hseparator : separator ∉ key) (hvalue : Solid value) (hhead : value.head? ≠ some '"')
    (hlast : value.getLast? ≠ some '"') : Fits separator (pair key value quoted)
  | other {word : List Char} (hsolid : Solid word)
    (h : separator ∉ word ∨ word.head? = some separator) : Fits separator (other word)

variable {separator : Char} {w : Word}

theorem Fits.solid (h : w.Fits separator) (hseparator : isBlank separator = false) :
    Solid (w.text separator) := by
  cases h with
  | other hsolid _ => exact hsolid
  | @pair key value quoted hkey hsolid hkeys hvalue hhead hlast =>
    have hquote : isBlank '"' = false := by decide
    intro c hc
    rcases List.mem_append.1 hc with hc | hc
    · exact hsolid c hc
    · rcases List.mem_cons.1 hc with rfl | hc
      · exact hseparator
      · cases quoted with
        | false => exact hvalue c hc
        | true =>
          simp only [if_true, List.mem_cons, List.mem_append, List.not_mem_nil, or_false] at hc
          rcases hc with rfl | hc | rfl
          · exact hquote
          · exact hvalue c hc
          · exact hquote

theorem Fits.pair? {kv : KeyValue} (h : w.Fits kv.separator) :
    kv.pair? (w.text kv.separator) = w.entry kv.lead := by
  cases h with
  | @pair key value quoted hkey hsolid hseparator hvalue hhead hlast =>
    rw [KeyValue.pair?, text, splitOnce_append hseparator]
    simp only [List.isEmpty_eq_false_iff.2 hkey, Bool.false_eq_true, if_false, entry]
    cases quoted with
    | false => simp [trimMatches_eq_self hhead hlast]
    | true => simp [trimMatches_wrapped hhead hlast]
  | @other word hsolid h =>
    rw [KeyValue.pair?, text]
    rcases h with h | h
    · rw [splitOnce_eq_none h]
      rfl
    · obtain ⟨rest, rfl⟩ := List.head?_eq_some_iff.1 h
      rw [show kv.separator :: rest = [] ++ kv.separator :: rest from rfl,
        splitOnce_append List.not_mem_nil]
      rfl

end Word

variable {kv : KeyValue}

/-- Parsing gives back the pairs that were written. -/
theorem parse_of_spaced (hseparator : isBlank kv.separator = false) {ws : List Word} {text : String}
    (hws : ∀ w ∈ ws, w.Fits kv.separator)
    (htext : Spaced (ws.map (Word.text kv.separator)) text.toList) :
    kv.parse text = ws.filterMap (Word.entry kv.lead) := by
  have hwords := words_of_spaced htext fun s hs => by
    obtain ⟨w, hw, rfl⟩ := List.mem_map.1 hs
    exact (hws w hw).solid hseparator
  -- Empty words are no pairs either.
  have hempty : ∀ l : List (List Char),
      (l.filter fun w => !w.isEmpty).filterMap kv.pair? = l.filterMap kv.pair? := by
    intro l
    rw [List.filterMap_filter]
    refine List.filterMap_congr fun w _ => ?_
    cases w <;> rfl
  rw [parse, hwords, hempty, List.filterMap_map]
  exact List.filterMap_congr fun w hw => (hws w hw).pair?

/-- The pairs in the field of a message. -/
def pairs (kv : KeyValue) (message : Message) : List (String × String) :=
  ((message.get? kv.field).map kv.parse).getD []

theorem get?_foldl_set (pairs : List (String × String)) (message : Message) (field : String) :
    (pairs.foldl (fun m p => m.set p.1 p.2) message).get? field =
      (pairs.reverse.lookup field).or (message.get? field) := by
  induction pairs generalizing message with
  | nil => rfl
  | cons p pairs ih =>
    have hlast : List.lookup field [p] = if field = p.1 then some p.2 else none := by
      rw [List.lookup_cons]
      split <;> simp_all
    rw [List.foldl_cons, ih, Message.get?_set, List.reverse_cons, List.lookup_append, hlast,
      Option.or_assoc]
    split <;> rfl

theorem get?_apply (message : Message) (field : String) : (kv.apply message).get? field =
    ((kv.pairs message).reverse.lookup field).or (message.get? field) := by
  rw [pairs, apply]
  cases message.get? kv.field with
  | none => rfl
  | some text => exact get?_foldl_set (kv.parse text) message field

/-- Parsing inverts writing, and queueing puts in what was parsed before anything was put in. -/
theorem parse_inverts (kv : KeyValue) :
    (isBlank kv.separator = false → ∀ (ws : List Word) (text : String),
      (∀ w ∈ ws, w.Fits kv.separator) →
        Spaced (ws.map (Word.text kv.separator)) text.toList →
          kv.parse text = ws.filterMap (Word.entry kv.lead)) ∧
      ∀ (message : Message) (shared : Shared), ∃ after,
        (Builtin.queue message (.keyValue kv) shared).value = (.forward, after) ∧
          ∀ field, after.get? field =
            ((kv.pairs message).reverse.lookup field).or (message.get? field) :=
  ⟨fun hseparator _ _ hws htext => parse_of_spaced hseparator hws htext,
    fun message _ => ⟨kv.apply message, rfl, get?_apply message⟩⟩

/-- The separator is a double quote, and the pair that is read replaces the text it is read from. -/
theorem parse_inverts_sample :
    let kv : KeyValue := { separator := '"', lead := "MESS" }
    kv.parse "  AGE\"\"a\"b\"\t\"c  " = [("MESSAGE", "a\"b")] ∧
      (kv.apply (.ofText "AGE\"\"a\"b\" AGE\"")).get? "MESSAGE" = some "" := by
  intro kv
  obtain ⟨hparse, hqueue⟩ := parse_inverts kv
  refine ⟨hparse (by decide) [.pair ['A', 'G', 'E'] ['a', '"', 'b'] true, .other ['"', 'c']] _ ?_ ?_,
    ?_⟩
  · exact List.forall_mem_cons.2
      ⟨.pair true (by decide) (by decide) (by decide) (by decide) (by decide) (by decide),
        List.forall_mem_cons.2 ⟨.other (by decide) (.inr rfl), List.forall_mem_nil _⟩⟩
  · exact .blank rfl (.blank rfl (.cons _ rfl (.cons ['"', 'c'] rfl (.blank rfl .nil))))
  · obtain ⟨after, hafter, hfields⟩ := hqueue (.ofText "AGE\"\"a\"b\" AGE\"") {}
    cases hafter
    rw [hfields]
    decide +kernel

end KeyValue

end Routing
