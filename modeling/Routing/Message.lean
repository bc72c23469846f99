/-!
# Messages

A message is a set of named text fields, kept in the order of their names.
-/

namespace Routing

/-- What a stage decides about a message. -/
inductive Verdict where
  | forward
  | drop
  deriving DecidableEq, Repr

/-- A message. Each field name occurs once, in ascending order. -/
structure Message where
  fields : List (String × String) := []
  deriving DecidableEq, Repr

namespace Message

/-- The field that holds the text of a message. -/
def textField : String := "MESSAGE"

/-- The value of a field in a list of fields. -/
def lookup (field : String) : List (String × String) → Option String
  | [] => none
  | (k, v) :: rest => if k = field then some v else lookup field rest

/-- The list with a field set, the order being kept. -/
def insert (field value : String) : List (String × String) → List (String × String)
  | [] => [(field, value)]
  | (k, v) :: rest =>
    if k = field then (field, value) :: rest
    else if field < k then (field, value) :: (k, v) :: rest
    else (k, v) :: insert field value rest

def empty : Message := {}

def get? (m : Message) (field : String) : Option String :=
  lookup field m.fields

def set (m : Message) (field value : String) : Message :=
  ⟨insert field value m.fields⟩

def remove (m : Message) (field : String) : Message :=
  ⟨m.fields.filter fun (k, _) => k ≠ field⟩

def size (m : Message) : Nat :=
  m.fields.length

def ofText (text : String) : Message :=
  empty.set textField text

/-- The message with these fields; of a repeated name the last value counts. -/
def ofFields (fields : List (String × String)) : Message :=
  fields.foldl (fun m (k, v) => m.set k v) empty

/-- The text of a message, empty if it has none. -/
def text (m : Message) : String :=
  (m.get? textField).getD ""

theorem lookup_insert (field value name : String) (l : List (String × String)) :
    lookup name (insert field value l) = if name = field then some value else lookup name l := by
  induction l with
  | nil => simp [insert, lookup, eq_comm]
  | cons p rest ih =>
    obtain ⟨k, v⟩ := p
    rw [insert]
    split
    · subst k; simp only [lookup, eq_comm]; split <;> rfl
    · split
      · simp only [lookup, eq_comm (a := field)]
      · rw [lookup, ih, lookup]
        split <;> split <;> simp_all

@[simp] theorem get?_set (m : Message) (field value name : String) :
    (m.set field value).get? name = if name = field then some value else m.get? name :=
  lookup_insert ..

@[simp] theorem get?_empty (name : String) : empty.get? name = none := rfl

end Message

end Routing
