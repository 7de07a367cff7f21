import Mathlib.Data.Finset.Card
import Mathlib.Order.Bounds.Basic

/-!
# Slot allocators

What a slot allocator is for, independent of any representation: it
hands out the least index that is not taken, and takes indices back.
`Step` is the whole specification. An implementation that does not want
to search for the least free index keeps it at hand; the lemmas say how
it moves when a slot is taken, given back, or when the range grows.
-/

namespace MiscTools

namespace Slots

inductive Op
  | grow
  | add
  | del (i : ℕ)

inductive Result
  | done
  | slot (i : ℕ)
  | refused

def LeastFree (S : Finset ℕ) (i : ℕ) : Prop := IsLeast {j | j ∉ S} i

/-- The slots `S` that are taken, and how an operation changes them. -/
inductive Step (S : Finset ℕ) : Op → Result → Finset ℕ → Prop
  | grow : Step S .grow .done S
  | add {i : ℕ} (h : LeastFree S i) : Step S .add (.slot i) (insert i S)
  | del {i : ℕ} (h : i ∈ S) : Step S (.del i) .done (S.erase i)
  | refuse {i : ℕ} (h : i ∉ S) : Step S (.del i) .refused S

variable {S : Finset ℕ} {i j k n : ℕ}

theorem leastFree_iff : LeastFree S i ↔ i ∉ S ∧ ∀ j < i, j ∈ S := by
  constructor
  · rintro ⟨hi, hmin⟩
    refine ⟨hi, fun j hj => ?_⟩
    by_contra hfree
    exact absurd (hmin hfree) (Nat.not_le.mpr hj)
  · rintro ⟨hi, hbelow⟩
    refine ⟨hi, fun j hj => ?_⟩
    by_contra hlt
    exact hj (hbelow j (Nat.not_le.mp hlt))

theorem leastFree_of_full (h : ∀ j < n, j ∈ S) (hn : n ∉ S) : LeastFree S n :=
  leastFree_iff.mpr ⟨hn, h⟩

theorem card_le_of_full (h : ∀ j < n, j ∈ S) : n ≤ S.card := by
  have hsub : Finset.range n ⊆ S := fun j hj => h j (Finset.mem_range.mp hj)
  have := Finset.card_le_card hsub
  rwa [Finset.card_range] at this

/-! ## Taking the least free slot -/

/-- The next free slot after `i` becomes the least one. -/
theorem LeastFree.insert_next (h : LeastFree S i) (hik : i < k) (hk : k ∉ S)
    (hscan : ∀ j, i < j → j < k → j ∈ S) : LeastFree (insert i S) k := by
  obtain ⟨-, hbelow⟩ := leastFree_iff.mp h
  refine leastFree_iff.mpr ⟨?_, fun j hj => Finset.mem_insert.mpr ?_⟩
  · rw [Finset.mem_insert, not_or]
    exact ⟨by omega, hk⟩
  · rcases Nat.lt_trichotomy j i with hlt | rfl | hgt
    · exact Or.inr (hbelow j hlt)
    · exact Or.inl rfl
    · exact Or.inr (hscan j hgt hj)

/-- No free slot after `i`: all are taken. -/
theorem LeastFree.insert_full (h : LeastFree S i) (hscan : ∀ j, i < j → j < n → j ∈ S) :
    ∀ j < n, j ∈ insert i S := by
  obtain ⟨-, hbelow⟩ := leastFree_iff.mp h
  intro j hj
  refine Finset.mem_insert.mpr ?_
  rcases Nat.lt_trichotomy j i with hlt | rfl | hgt
  · exact Or.inr (hbelow j hlt)
  · exact Or.inl rfl
  · exact Or.inr (hscan j hgt hj)

/-! ## Giving a slot back -/

/-- A slot with all slots before it taken becomes the least free one. -/
theorem leastFree_erase (h : ∀ k < j, k ∈ S) : LeastFree (S.erase j) j :=
  leastFree_iff.mpr ⟨Finset.notMem_erase j S,
    fun k hk => Finset.mem_erase.mpr ⟨by omega, h k hk⟩⟩

/-- A slot given back above the least free one does not matter. -/
theorem LeastFree.erase_above (h : LeastFree S i) (hij : i ≤ j) : LeastFree (S.erase j) i := by
  obtain ⟨hi, hbelow⟩ := leastFree_iff.mp h
  exact leastFree_iff.mpr ⟨fun hmem => hi (Finset.mem_of_mem_erase hmem),
    fun k hk => Finset.mem_erase.mpr ⟨by omega, hbelow k hk⟩⟩

end Slots

end MiscTools
