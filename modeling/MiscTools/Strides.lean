/-!
# Addresses in steps

A loop `for (a = lo; a < hi; a += d)` that stores `d` octets at every `a`
compares the start of each store only. `starts` lists the addresses it
stores at, and `starts_fit_iff` says when the last store ends where the
loop does.

`FirstMultiple` is what it is to align an address: the first multiple of
`k` from `lo` on. An address that is a multiple already is its own
(`firstMultiple_self`), and the multiple after the quotient is right for
all others and only for these (`firstMultiple_next_iff`).
-/

namespace MiscTools.Strides

/-! ## Alignment -/

structure FirstMultiple (k lo a : Nat) : Prop where
  dvd : k ∣ a
  ge : lo ≤ a
  least : ∀ b, k ∣ b → lo ≤ b → a ≤ b

variable {k d lo hi : Nat}

theorem FirstMultiple.unique {a b : Nat} (ha : FirstMultiple k lo a)
    (hb : FirstMultiple k lo b) : a = b :=
  Nat.le_antisymm (ha.least b hb.dvd hb.ge) (hb.least a ha.dvd ha.ge)

theorem firstMultiple_self (h : k ∣ lo) : FirstMultiple k lo lo :=
  ⟨h, Nat.le_refl lo, fun _ _ hb => hb⟩

/-- The multiple above `lo` skips `lo` itself. -/
theorem firstMultiple_next_iff (hk : 0 < k) :
    FirstMultiple k lo ((lo / k + 1) * k) ↔ ¬k ∣ lo := by
  have hlo : lo / k * k + lo % k = lo := Nat.div_add_mod' lo k
  have hlt : lo % k < k := Nat.mod_lt lo hk
  rw [Nat.succ_mul]
  constructor
  · intro h hdvd
    have hsame := h.unique (firstMultiple_self hdvd)
    omega
  · intro h
    refine ⟨?_, by omega, ?_⟩
    · rw [← Nat.succ_mul]
      exact Nat.dvd_mul_left k (lo / k + 1)
    · intro b hb hle
      obtain ⟨c, rfl⟩ := hb
      have hpos : lo % k ≠ 0 := fun hzero => h (Nat.dvd_of_mod_eq_zero hzero)
      -- `lo` lies strictly between the two multiples, so `b` is not the lower one
      have hc : lo / k < c := by
        refine Nat.lt_of_mul_lt_mul_right (a := k) ?_
        rw [Nat.mul_comm c k]
        omega
      have hmul := Nat.mul_le_mul_right k (Nat.succ_le_of_lt hc)
      rwa [Nat.succ_mul, Nat.mul_comm c k] at hmul

/-! ## Stores -/

/-- The turns of the loop. -/
def count (d lo hi : Nat) : Nat := (hi - lo + (d - 1)) / d

/-- The addresses it stores at. -/
def starts (d lo hi : Nat) : List Nat := List.range' lo (count d lo hi) d

theorem lt_count_iff (hd : 0 < d) {j : Nat} : j < count d lo hi ↔ lo + d * j < hi := by
  rw [count, ← Nat.succ_le_iff, Nat.le_div_iff_mul_le hd, Nat.succ_mul, Nat.mul_comm d j]
  omega

theorem count_of_le (hd : 0 < d) (h : hi ≤ lo) : count d lo hi = 0 :=
  Nat.eq_zero_of_not_pos fun hpos => absurd ((lt_count_iff hd).mp hpos) (by omega)

/-- A turn, and those from the next address on. -/
theorem count_step (hd : 0 < d) (h : lo < hi) : count d lo hi = count d (lo + d) hi + 1 := by
  have hone : hi - lo + (d - 1) = hi - lo - 1 + d := by omega
  rw [count, count, hone, Nat.add_div_right _ hd]
  by_cases hle : lo + d ≤ hi
  · have hrest : hi - (lo + d) + (d - 1) = hi - lo - 1 := by omega
    rw [hrest]
  · have hlast : hi - (lo + d) + (d - 1) = d - 1 := by omega
    rw [hlast, Nat.div_eq_of_lt (by omega), Nat.div_eq_of_lt (by omega)]

theorem mem_starts {a : Nat} :
    a ∈ starts d lo hi ↔ ∃ j, j < count d lo hi ∧ a = lo + d * j :=
  List.mem_range'

theorem starts_fit_iff (hd : 0 < d) :
    (∀ a ∈ starts d lo hi, a + d ≤ hi) ↔ hi ≤ lo ∨ d ∣ hi - lo := by
  constructor
  · intro h
    by_cases hle : hi ≤ lo
    · exact Or.inl hle
    · right
      have hfirst : 0 < count d lo hi := (lt_count_iff hd).mpr (by omega)
      obtain ⟨j, hj⟩ := Nat.exists_eq_add_of_lt hfirst
      rw [Nat.zero_add] at hj
      have hlast := h (lo + d * j) (mem_starts.mpr ⟨j, by omega, rfl⟩)
      have hend : ¬lo + d * (j + 1) < hi := by
        rw [← lt_count_iff hd]
        omega
      rw [Nat.mul_succ] at hend
      refine ⟨j + 1, ?_⟩
      rw [Nat.mul_succ]
      omega
  · intro h a ha
    obtain ⟨j, hj, rfl⟩ := mem_starts.mp ha
    have hlt := (lt_count_iff hd).mp hj
    rcases h with hle | ⟨q, hq⟩
    · omega
    · have hjq : j < q := Nat.lt_of_mul_lt_mul_left (a := d) (by omega)
      have hmul := Nat.mul_le_mul_left d (Nat.succ_le_of_lt hjq)
      rw [Nat.mul_succ] at hmul
      omega

/-- From an aligned start on, it is the end that has to be aligned. -/
theorem starts_fit_iff_of_dvd (hd : 0 < d) (h : d ∣ lo) :
    (∀ a ∈ starts d lo hi, a + d ≤ hi) ↔ hi ≤ lo ∨ d ∣ hi := by
  rw [starts_fit_iff hd]
  by_cases hle : hi ≤ lo
  · simp only [hle, true_or]
  · rw [Nat.dvd_sub_iff_left (by omega) h]

end MiscTools.Strides
