import Mathlib.Algebra.BigOperators.Group.Finset.Basic
import Mathlib.Algebra.Order.Group.Multiset
import Mathlib.Data.Multiset.Bind
/-!
# Bags of words

A bag of words holds each word so many times. `cat` puts each word of one bag before each word of
another, and `before` does so with words that carry a mark.
-/

namespace Routing

/-- A bag of words over some letters. -/
abbrev Words (α : Type) := Multiset (List α)

namespace Words

variable {α β : Type}

/-- Each word of one bag followed by each word of another. -/
def cat (A B : Words α) : Words α :=
  A.bind fun u => B.map (u ++ ·)

/-- Each word of a bag before each marked word. -/
def before (A : Words α) (D : Multiset (List α × β)) : Multiset (List α × β) :=
  A.bind fun u => D.map fun p => (u ++ p.1, p.2)

/-- The words of several bags, one from each, after each other. -/
def catAll : List (Words α) → Words α
  | [] => {[]}
  | A :: As => cat A (catAll As)

variable {A A' B B' C : Words α} {D D' : Multiset (List α × β)}

@[simp] theorem nil_cat : cat {[]} B = B := by simp [cat]

@[simp] theorem cat_nil : cat A {[]} = A := by
  simp only [cat, Multiset.map_singleton, List.append_nil]
  exact (Multiset.bind_singleton A id).trans (Multiset.map_id A)

theorem cat_singleton (w : List α) : cat A {w} = A.map (· ++ w) := by simp [cat]

theorem add_cat : cat (A + A') B = cat A B + cat A' B := by simp [cat]

theorem cat_assoc : cat (cat A B) C = cat A (cat B C) := by
  simp only [cat, Multiset.bind_assoc, Multiset.bind_map, Multiset.map_bind, Multiset.map_map,
    Function.comp_def, List.append_assoc]

theorem cat_bind {ι : Type} (s : Multiset ι) (f : ι → Words α) :
    cat A (s.bind f) = s.bind fun i => cat A (f i) := by
  simp only [cat, Multiset.map_bind]
  exact Multiset.bind_bind _ _

@[simp] theorem nil_before : before {[]} D = D := by simp [before]

@[simp] theorem before_zero : before A (0 : Multiset (List α × β)) = 0 := by simp [before]

theorem before_add : before A (D + D') = before A D + before A D' := by
  simp [before, Multiset.bind_add]

theorem before_product (M : Multiset β) : before A (B ×ˢ M) = cat A B ×ˢ M := by
  change (A.bind fun u => (B.bind fun v => M.map (Prod.mk v)).map fun p => (u ++ p.1, p.2)) =
    (A.bind fun u => B.map (u ++ ·)).bind fun v => M.map (Prod.mk v)
  simp only [Multiset.bind_assoc, Multiset.bind_map, Multiset.map_bind, Multiset.map_map,
    Function.comp_def]

theorem before_sum {ι : Type} (s : Finset ι) (f : ι → Multiset (List α × β)) :
    before A (∑ i ∈ s, f i) = ∑ i ∈ s, before A (f i) := by
  classical
  induction s using Finset.induction_on with
  | empty => simp
  | insert i s hi ih => rw [Finset.sum_insert hi, Finset.sum_insert hi, before_add, ih]

theorem catAll_append (As Bs : List (Words α)) : catAll (As ++ Bs) = cat (catAll As) (catAll Bs) := by
  induction As with
  | nil => simp [catAll]
  | cons A As ih => simp [catAll, ih, cat_assoc]

end Words

end Routing
