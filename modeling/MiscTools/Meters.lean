import Mathlib.Algebra.Group.Int.Defs

/-!
# Meters and what they add up

A meter is read at the start and at the stop of an interval, and the
difference goes into an accumulator. What a reading stands for is a
number, its `value`; how it is written down, and when the machine can form
a difference or a sum of two readings, is up to the meter.

The accumulator is a fold, and its value is then the sum of the
differences of the values (`Meter.value_run`), whatever carries and
borrows there were. `Meter.runFits_iff` says when all of the run can be
formed: for readings that do not go back, the sums on the way are no
concern, only the total is.
-/

namespace MiscTools

def total {ι : Type} (f : ι → Int) : List ι → Int
  | [] => 0
  | i :: is => f i + total f is

theorem total_nonneg {ι : Type} {f : ι → Int} {is : List ι} (h : ∀ i ∈ is, 0 ≤ f i) :
    0 ≤ total f is := by
  induction is with
  | nil => exact Int.le_refl 0
  | cons i is ih =>
    have hi := h i List.mem_cons_self
    have := ih fun j hj => h j (List.mem_cons_of_mem i hj)
    rw [total]
    omega

/-- Readings of type `α`; `Good` are the well-formed ones. Where the
values are good and not negative, a sum fits if its value is below the
`limit`. -/
structure Meter (α : Type) where
  value : α → Int
  Good : α → Prop
  add : α → α → α
  sub : α → α → α
  AddFits : α → α → Prop
  SubFits : α → α → Prop
  limit : Int
  value_add : ∀ x y, value (add x y) = value x + value y
  value_sub : ∀ x y, value (sub x y) = value x - value y
  good_add : ∀ {x y}, Good x → Good y → Good (add x y)
  good_sub : ∀ {x y}, Good x → Good y → Good (sub x y)
  addFits_iff : ∀ {x y}, Good x → Good y → 0 ≤ value x → 0 ≤ value y →
    (AddFits x y ↔ value x + value y < limit)

namespace Meter

variable {α ι : Type} (M : Meter α) (start stop : ι → α)

/-! ## One interval -/

/-- The accumulator after the interval `i`. -/
def after (acc : α) (i : ι) : α := M.add (M.sub (stop i) (start i)) acc

def AfterFits (acc : α) (i : ι) : Prop :=
  M.SubFits (stop i) (start i) ∧ M.AddFits (M.sub (stop i) (start i)) acc

/-- How far the meter goes. -/
def diff (i : ι) : Int := M.value (stop i) - M.value (start i)

/-- The readings of one interval, which do not go back. -/
structure Reads (i : ι) : Prop where
  good_start : M.Good (start i)
  good_stop : M.Good (stop i)
  le : M.value (start i) ≤ M.value (stop i)

variable {M start stop} {acc : α} {i : ι} {is : List ι}

theorem value_after : M.value (M.after start stop acc i) = M.value acc + M.diff start stop i := by
  rw [after, M.value_add, M.value_sub, diff, Int.add_comm]

theorem good_after (h : M.Reads start stop i) (hacc : M.Good acc) :
    M.Good (M.after start stop acc i) :=
  M.good_add (M.good_sub h.good_stop h.good_start) hacc

theorem Reads.diff_nonneg (h : M.Reads start stop i) : 0 ≤ M.diff start stop i :=
  Int.sub_nonneg_of_le h.le

theorem afterFits_iff (h : M.Reads start stop i) (hacc : M.Good acc) (hnonneg : 0 ≤ M.value acc) :
    M.AfterFits start stop acc i ↔
      M.SubFits (stop i) (start i) ∧ M.value acc + M.diff start stop i < M.limit := by
  have hdiff : 0 ≤ M.value (M.sub (stop i) (start i)) := by
    rw [M.value_sub]
    exact h.diff_nonneg
  rw [AfterFits, M.addFits_iff (M.good_sub h.good_stop h.good_start) hacc hdiff hnonneg,
    M.value_sub, Int.add_comm, diff]

/-! ## A run of intervals -/

variable (M start stop) in
def run (acc : α) : List ι → α
  | [] => acc
  | i :: is => run (M.after start stop acc i) is

variable (M start stop) in
def RunFits (acc : α) : List ι → Prop
  | [] => True
  | i :: is => M.AfterFits start stop acc i ∧ RunFits (M.after start stop acc i) is

/-- **The accumulator is exact.** -/
theorem value_run (acc : α) (is : List ι) :
    M.value (M.run start stop acc is) = M.value acc + total (M.diff start stop) is := by
  induction is generalizing acc with
  | nil => rw [run, total, Int.add_zero]
  | cons i is ih => rw [run, ih, value_after, total, Int.add_assoc]

theorem good_run (h : ∀ i ∈ is, M.Reads start stop i) (hacc : M.Good acc) :
    M.Good (M.run start stop acc is) := by
  induction is generalizing acc with
  | nil => exact hacc
  | cons i is ih =>
    exact ih (fun j hj => h j (List.mem_cons_of_mem i hj))
      (good_after (h i List.mem_cons_self) hacc)

/-- The whole run fits if each difference does and the last sum does. -/
theorem runFits_iff (h : ∀ i ∈ is, M.Reads start stop i) (hacc : M.Good acc)
    (hnonneg : 0 ≤ M.value acc) (hlt : M.value acc < M.limit) :
    M.RunFits start stop acc is ↔
      (∀ i ∈ is, M.SubFits (stop i) (start i)) ∧
        M.value acc + total (M.diff start stop) is < M.limit := by
  induction is generalizing acc with
  | nil => simpa [RunFits, total] using hlt
  | cons i is ih =>
    have hi := h i List.mem_cons_self
    have his : ∀ j ∈ is, M.Reads start stop j := fun j hj => h j (List.mem_cons_of_mem i hj)
    have hrest : 0 ≤ total (M.diff start stop) is :=
      total_nonneg fun j hj => (his j hj).diff_nonneg
    have hnext : M.value (M.after start stop acc i) = M.value acc + M.diff start stop i :=
      value_after
    have hdiff := hi.diff_nonneg
    rw [RunFits, afterFits_iff hi hacc hnonneg, List.forall_mem_cons, total, ← Int.add_assoc]
    constructor
    · rintro ⟨⟨hsub, hlimit⟩, hrun⟩
      rw [ih his (good_after hi hacc) (by omega) (by omega), hnext] at hrun
      exact ⟨⟨hsub, hrun.1⟩, hrun.2⟩
    · rintro ⟨⟨hsub, hsubs⟩, hlimit⟩
      -- the sum on the way is below the last one
      have hbelow : M.value acc + M.diff start stop i < M.limit := by omega
      refine ⟨⟨hsub, hbelow⟩, ?_⟩
      rw [ih his (good_after hi hacc) (by omega) (by omega), hnext]
      exact ⟨hsubs, hlimit⟩

end Meter

end MiscTools
