import Mathlib.Data.List.Basic

/-!
# Sinking

The inner loop of a sort by insertion: an element `x` at the end of a list
changes places with the one before it for as long as it is smaller. The
loop leaves a list in two parts with `x` between them, `Sunk cmp l x as bs`,
and a turn of it takes the last element of `l` to the front of `bs`
(`Sunk.step`).

Where the comparison is a total preorder and `l` is sorted, so is what the
loop leaves (`Sunk.sorted`). An element that is equal to `x` stays before
it.
-/

namespace MiscTools.Sinking

universe u

variable {α : Type u} {cmp : α → α → Ordering} {l as bs : List α} {x y : α}

def Sorted (cmp : α → α → Ordering) (l : List α) : Prop :=
  l.Pairwise fun a b => cmp a b ≠ .gt

structure Sunk (cmp : α → α → Ordering) (l : List α) (x : α) (as bs : List α) : Prop where
  split : l = as ++ bs
  passed : ∀ b ∈ bs, cmp x b = .lt
  stopped : ∀ a, as.getLast? = some a → cmp x a ≠ .lt

theorem Sunk.nil (cmp : α → α → Ordering) (x : α) : Sunk cmp [] x [] [] :=
  ⟨rfl, nofun, nofun⟩

theorem Sunk.stay (h : cmp x y ≠ .lt) : Sunk cmp (l ++ [y]) x (l ++ [y]) [] := by
  refine ⟨(List.append_nil _).symm, nofun, fun a ha => ?_⟩
  rw [List.getLast?_concat] at ha
  obtain rfl := Option.some.inj ha
  exact h

theorem Sunk.step (h : cmp x y = .lt) (hs : Sunk cmp l x as bs) :
    Sunk cmp (l ++ [y]) x as (bs ++ [y]) := by
  refine ⟨by rw [hs.split, List.append_assoc], fun b hb => ?_, hs.stopped⟩
  rcases List.mem_append.mp hb with hold | hnew
  · exact hs.passed b hold
  · obtain rfl := List.mem_singleton.mp hnew
    exact h

theorem Sunk.perm (h : Sunk cmp l x as bs) : (as ++ x :: bs).Perm (l ++ [x]) := by
  rw [h.split, List.append_assoc]
  exact (List.perm_append_singleton x bs).symm.append_left as

/-- All that `x` has not passed is at most as large. -/
theorem Sunk.le [Std.TransCmp cmp] (h : Sunk cmp l x as bs) (hl : Sorted cmp l) {a : α}
    (ha : a ∈ as) : cmp a x ≠ .gt := by
  have hsorted : Sorted cmp as := by
    unfold Sorted at hl
    rw [h.split, List.pairwise_append] at hl
    exact hl.1
  rcases List.eq_nil_or_concat as with rfl | ⟨front, z, rfl⟩
  · exact absurd ha List.not_mem_nil
  · rw [List.concat_eq_append] at h ha hsorted
    have hlast : cmp z x ≠ .gt := by
      intro hgt
      exact h.stopped z List.getLast?_concat (Std.OrientedCmp.lt_of_gt hgt)
    rcases List.mem_append.mp ha with hfront | hz
    · have haz : cmp a z ≠ .gt :=
        (List.pairwise_append.mp hsorted).2.2 a hfront z (List.mem_singleton.mpr rfl)
      exact Ordering.isLE_iff_ne_gt.mp (Std.TransCmp.isLE_trans
        (Ordering.isLE_iff_ne_gt.mpr haz) (Ordering.isLE_iff_ne_gt.mpr hlast))
    · obtain rfl := List.mem_singleton.mp hz
      exact hlast

/-- **The list is sorted again.** -/
theorem Sunk.sorted [Std.TransCmp cmp] (h : Sunk cmp l x as bs) (hl : Sorted cmp l) :
    Sorted cmp (as ++ x :: bs) := by
  have hle := fun {a : α} (ha : a ∈ as) => h.le hl ha
  unfold Sorted at hl ⊢
  rw [h.split, List.pairwise_append] at hl
  obtain ⟨has, hbs, hcross⟩ := hl
  rw [List.pairwise_append, List.pairwise_cons]
  refine ⟨has, ⟨fun b hb => ?_, hbs⟩, fun a ha b hb => ?_⟩
  · rw [h.passed b hb]
    exact nofun
  · rcases List.mem_cons.mp hb with rfl | hb
    · exact hle ha
    · exact hcross a ha b hb

/-- To compare by a key is to compare. -/
theorem transCmp_on {β : Type u} {cmp : β → β → Ordering} [Std.TransCmp cmp] (f : α → β) :
    Std.TransCmp fun a b => cmp (f a) (f b) where
  eq_swap := Std.OrientedCmp.eq_swap
  isLE_trans := Std.TransCmp.isLE_trans

/-- A sorted list stays so where no element of it changes its place in the
order. -/
theorem Sorted.congr {cmp' : α → α → Ordering} (h : Sorted cmp l)
    (hsame : ∀ a ∈ l, ∀ b ∈ l, cmp' a b = cmp a b) : Sorted cmp' l :=
  List.Pairwise.imp_of_mem (fun ha hb hab => by rwa [hsame _ ha _ hb]) h

end MiscTools.Sinking
