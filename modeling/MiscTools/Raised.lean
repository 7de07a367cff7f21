import Mathlib.Data.List.Basic

/-!
# Lists with values raised

`Raised l l'`: for every bound, `l'` has no more values within it than
`l`. It is a preorder that does not look at the order of a list, and a
list one value of which is replaced by a larger one is raised
(`Raised.set`). It is never lowered again on the way back: a list that is
raised to one it was raised from has lost nothing (`Raised.set_back`). So
where every step of a loop raises, and what comes out is a permutation of
what went in, no step has changed a value.
-/

namespace MiscTools

universe u

variable {α : Type u} [LE α] [DecidableLE α]

/-- How many values of `l` are at most `b`. -/
def atMost (l : List α) (b : α) : Nat := l.countP fun x => decide (x ≤ b)

def Raised (l l' : List α) : Prop := ∀ b, atMost l' b ≤ atMost l b

namespace Raised

theorem refl (l : List α) : Raised l l := fun _ => Nat.le_refl _

theorem trans {l l' l'' : List α} (h : Raised l l') (h' : Raised l' l'') : Raised l l'' :=
  fun b => Nat.le_trans (h' b) (h b)

theorem of_perm {l l' : List α} (h : l.Perm l') : Raised l l' :=
  fun _ => Nat.le_of_eq (h.countP_eq _).symm

/-- One value more within the bound where `y` is, one less where the old
value was. -/
theorem atMost_set {l : List α} {i : Nat} (hi : i < l.length) (y b : α) :
    atMost (l.set i y) b + (if l[i] ≤ b then 1 else 0)
      = atMost l b + (if y ≤ b then 1 else 0) := by
  have hpos : l[i] ≤ b → 0 < l.countP fun x => decide (x ≤ b) := fun hle =>
    List.countP_pos_iff.mpr ⟨l[i], List.getElem_mem hi, decide_eq_true hle⟩
  rw [atMost, atMost, List.countP_set hi]
  simp only [decide_eq_true_eq]
  split
  case isTrue hle =>
      have hone := hpos hle
      omega
  case isFalse => omega

variable [Std.IsPreorder α]

theorem set {l : List α} {i : Nat} (hi : i < l.length) {y : α} (hle : l[i] ≤ y) :
    Raised l (l.set i y) := by
  intro b
  have hcount := atMost_set hi y b
  by_cases hy : y ≤ b
  · rw [if_pos hy, if_pos (Std.le_trans hle hy)] at hcount
    omega
  · rw [if_neg hy] at hcount
    omega

theorem set_back {l : List α} {i : Nat} (hi : i < l.length) {y : α}
    (hback : Raised (l.set i y) l) : y ≤ l[i] := by
  have hcount := atMost_set hi y l[i]
  have hle := hback l[i]
  rw [if_pos (Std.le_refl _)] at hcount
  by_contra hlt
  rw [if_neg hlt] at hcount
  omega

end Raised

end MiscTools
