import Mathlib.Data.List.Basic

/-!
# Bounded queues and rings

`apply` says what a bounded queue is: a list of at most `cap` items, to
which one end appends and from which the other removes. `Holds t head
xs` says that a ring, the cells `t` read cyclically from index `head`
on, holds the items `xs`. Both are independent of any representation of
the indices; the two rules are that storing one past the last item
appends (`Holds.append`) and that moving `head` on removes
(`Holds.tail`).
-/

namespace MiscTools

namespace Rings

universe u

variable {α : Type u}

/-! ## The bounded queue -/

inductive Op (α : Type u)
  | put (x : α)
  | get
  | count
  | isEmpty

inductive Result (α : Type u)
  | put (accepted : Bool)
  | get (x : Option α)
  | count (n : Nat)
  | isEmpty (b : Bool)

def apply (cap : Nat) (xs : List α) : Op α → Result α × List α
  | .put x => if xs.length < cap then (.put true, xs ++ [x]) else (.put false, xs)
  | .get => (.get xs.head?, xs.tail)
  | .count => (.count xs.length, xs)
  | .isEmpty => (.isEmpty xs.isEmpty, xs)

def run (cap : Nat) : List α → List (Op α) → List (Result α) × List α
  | xs, [] => ([], xs)
  | xs, op :: ops =>
      let r := apply cap xs op
      let rest := run cap r.2 ops
      (r.1 :: rest.1, rest.2)

/-! ## Rings -/

/-- The cells of `t` from `head` on, cyclically, are `xs`. -/
def Holds (t : List α) (head : Nat) (xs : List α) : Prop :=
  ∀ k (hk : k < xs.length), t[(head + k) % t.length]? = some xs[k]

theorem Holds.nil (t : List α) (head : Nat) : Holds t head [] := fun _ hk =>
  absurd hk (Nat.not_lt_zero _)

theorem Holds.head {t : List α} {head : Nat} {x : α} {xs : List α}
    (h : Holds t head (x :: xs)) : t[head % t.length]? = some x :=
  h 0 (Nat.zero_lt_succ _)

/-- Moving on by one cell removes the first item. -/
theorem Holds.tail {t : List α} {head : Nat} {x : α} {xs : List α}
    (h : Holds t head (x :: xs)) : Holds t (head + 1) xs := by
  intro k hk
  have hnext := h (k + 1) (Nat.succ_lt_succ hk)
  rw [Nat.add_right_comm, Nat.add_assoc]
  exact hnext

/-- Where the ring starts counts up to whole turns. -/
theorem Holds.turn {t : List α} {head head' : Nat} {xs : List α} (h : Holds t head xs)
    (heq : head' % t.length = head % t.length) : Holds t head' xs := by
  intro k hk
  rw [Nat.add_mod, heq, ← Nat.add_mod]
  exact h k hk

/-- The cells of a ring that is not full are distinct from the next one. -/
theorem cell_ne {n head k m : Nat} (hkm : k < m) (hmn : m < n) :
    (head + k) % n ≠ (head + m) % n := by
  intro heq
  have hmod : (m - k) % n = 0 := by
    have := Nat.sub_mod_eq_zero_of_mod_eq heq.symm
    rwa [Nat.add_sub_add_left] at this
  rw [Nat.mod_eq_of_lt (by omega)] at hmod
  omega

/-- Storing in the cell after the last item appends it. -/
theorem Holds.append {t : List α} {head : Nat} {xs : List α} {x : α} (h : Holds t head xs)
    (hroom : xs.length < t.length) :
    Holds (t.set ((head + xs.length) % t.length) x) head (xs ++ [x]) := by
  intro k hk
  rw [List.length_append, List.length_singleton] at hk
  rw [List.length_set]
  by_cases hlast : k = xs.length
  · subst hlast
    rw [List.getElem?_set_self (Nat.mod_lt _ (by omega))]
    simp
  · have hk' : k < xs.length := by omega
    rw [List.getElem?_set_ne (cell_ne hk' hroom).symm, h k hk', List.getElem_append_left hk']

end Rings

end MiscTools
