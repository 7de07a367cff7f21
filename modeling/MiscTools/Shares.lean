import Mathlib.Algebra.BigOperators.Group.Finset.Basic
import Mathlib.Algebra.Order.BigOperators.Group.Finset

/-!
# Counting by shares

A counter that several parties contribute to is accounted for by giving
each party a share, a function of its local state, and comparing the
counter with the total of the shares. A step of one party changes the
total by the change of that party's share and by nothing else
(`total_update_add`), stated without subtraction so that `omega` can
use it.
-/

namespace MiscTools

namespace Shares

open Finset

variable {ι α : Type*} [Fintype ι]

/-- The total of the shares `f` of the local states `g`. -/
def total (f : α → Nat) (g : ι → α) : Nat := ∑ u, f (g u)

theorem share_le_total (f : α → Nat) (g : ι → α) (t : ι) : f (g t) ≤ total f g :=
  single_le_sum (f := fun u => f (g u)) (fun _ _ => Nat.zero_le _) (mem_univ t)

theorem share_eq_zero {f : α → Nat} {g : ι → α} (h : total f g = 0) (t : ι) :
    f (g t) = 0 :=
  Nat.le_zero.mp (h ▸ share_le_total f g t)

/-- States with the same shares have the same total. -/
theorem total_congr {f : α → Nat} {g g' : ι → α} (h : ∀ u, f (g' u) = f (g u)) :
    total f g' = total f g :=
  sum_congr rfl fun u _ => h u

/-- One party moves from `g t` to `x`: the total changes by its share. -/
theorem total_update_add [DecidableEq ι] (f : α → Nat) (g : ι → α) (t : ι) (x : α) :
    total f (Function.update g t x) + f (g t) = total f g + f x := by
  have hold := add_sum_erase univ (fun u => f (g u)) (mem_univ t)
  have hnew := add_sum_erase univ (fun u => f (Function.update g t x u)) (mem_univ t)
  have hrest : ∑ u ∈ univ.erase t, f (Function.update g t x u)
      = ∑ u ∈ univ.erase t, f (g u) :=
    sum_congr rfl fun u hu => by rw [Function.update_of_ne (ne_of_mem_erase hu)]
  simp only [Function.update_self] at hnew
  simp only [total]
  omega

end Shares

end MiscTools
