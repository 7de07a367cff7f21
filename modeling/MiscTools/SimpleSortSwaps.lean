import MiscTools.SimpleSort

/-!
# selection_sort and bubble_sort

The two sorts that exchange elements. `selection_sort` looks for the
extremum from `i` on and exchanges it with element `i - 1`: in the first
turn that is element 2^64 - 1, so no array of two or more is sorted
(`selection_sorts_iff`).

`bubble_sort` carries the largest element of `[0, i]` up to `i`. Its
turns keep `Settled`: above `i` everything is where it belongs. Inside a
turn `j - 1` is the largest so far (`Bubbled`), and exchanges within
`[0, i]` do not disturb what is settled.
-/

namespace MiscTools.SimpleSort

open Blocks Counted Sizes

/-! ## `selection_sort` -/

/-- The index the inner loop finds is inside the array. -/
theorem selectMin_spec {t : List Int} {i : Nat} (hi : i < t.length) :
    ∃ k : Nat, selectMin t t.length i = .ok k ∧ k < t.length := by
  have hturn : ∀ (j min : Int), ((i : Int) + 1) ≤ j → j < t.length →
      (∃ k : Nat, min = k ∧ k < t.length) →
        ∃ min', (do return if (← get t min) < (← get t j) then j else min : Except Fault Int)
          = .ok min' ∧ ∃ k : Nat, min' = k ∧ k < t.length := by
    rintro j min hlo hj ⟨k, rfl, hk⟩
    obtain ⟨m, rfl⟩ : ∃ m : Nat, j = m := ⟨j.toNat, by omega⟩
    refine ⟨if t[k] < t[m] then m else k, ?_, ?_⟩
    · rw [get_of_lt hk, get_of_lt (show m < t.length by omega)]
      rfl
    · split
      · exact ⟨m, rfl, by omega⟩
      · exact ⟨k, rfl, hk⟩
  obtain ⟨min, hmin, k, rfl, hk⟩ := countUp_total hturn (by omega) ⟨i, rfl, hi⟩
  exact ⟨k, hmin, hk⟩

/-- The first turn leaves the array. -/
theorem selectTurn_zero {t : List Int} (hpos : 0 < t.length) (hsmall : t.length < 2 ^ 63) :
    selectTurn t.length 0 t = .error .bounds := by
  obtain ⟨k, hmin, hk⟩ := selectMin_spec hpos
  have hprev : ((0 : Int) - 1) % 2 ^ 64 = (2 ^ 64 - 1 : Nat) := by decide
  have hout : get t (2 ^ 64 - 1 : Nat) = .error .bounds := by
    rw [get, if_pos (Int.natCast_nonneg _), Int.toNat_natCast, Blocks.read,
      List.getElem?_eq_none (by omega)]
  have hne : (k : Int) ≠ (2 ^ 64 - 1 : Nat) := by omega
  rw [selectTurn, show (0 : Int) = (0 : Nat) from rfl, hmin]
  show (if (k : Int) ≠ ((0 : Int) - 1) % 2 ^ 64 then swap t k (((0 : Int) - 1) % 2 ^ 64)
    else return t) = _
  rw [hprev, if_pos hne, swap, get_of_lt hk, hout]
  rfl

theorem short_of_selection {a : Longs} (h : Sorts selectionSort a) : a.val.length < 2 := by
  obtain ⟨t, hsort, -⟩ := h
  by_contra hlong
  have hshort : ¬a.num < 2 := fun hlt => hlong (a.num_lt_two_iff.mp hlt)
  rw [selectionSort, if_neg hshort, a.toNat_num,
    countUp_error (by omega) (selectTurn_zero (by omega) a.small)] at hsort
  cases hsort

/-- **`selection_sort` sorts** only where there is nothing to sort. -/
theorem selection_sorts_iff (a : Longs) : Sorts selectionSort a ↔ a.val.length < 2 := by
  refine ⟨short_of_selection, fun hlen => ⟨a.val, ?_, pairwise_of_short hlen, .refl _⟩⟩
  rw [selectionSort, if_pos (a.num_lt_two_iff.mpr hlen)]
  rfl

/-- Two values in order are not left alone. -/
theorem selection_fails : ¬Sorts selectionSort oneTwo := fun h =>
  absurd (short_of_selection h) (by simp [oneTwo])

/-! ## `bubble_sort` -/

/-- Above `i` every element is at least as large as those before it. -/
def Settled (i : Int) (t : List Int) : Prop :=
  ∀ (p q : Nat) (x y : Int), p ≤ q → i < q → t[p]? = some x → t[q]? = some y → x ≤ y

/-- The element before `j` is the largest so far. -/
def Bubbled (j : Int) (t : List Int) : Prop :=
  ∀ (p m : Nat) (x y : Int), p ≤ m → (m : Int) + 1 = j → t[p]? = some x → t[m]? = some y → x ≤ y

/-- Two neighbours are exchanged if they are out of order. -/
def exchanged (t : List Int) (m : Nat) (x y : Int) : List Int :=
  if y < x then (t.set m y).set (m + 1) x else t

theorem bubbleTurn_eq {t : List Int} {m : Nat} (hm : m + 1 < t.length) :
    bubbleTurn (m + 1 : Nat) t = .ok (exchanged t m t[m] t[m + 1]) := by
  have hlt : m < t.length := by omega
  have hprev : ((m + 1 : Nat) : Int) - 1 = m := by omega
  rw [bubbleTurn, hprev, get_of_lt hm, get_of_lt hlt, exchanged]
  show (if t[m + 1] < t[m] then swap t m (m + 1 : Nat) else return t) = _
  split
  · exact swap_of_lt hlt hm
  · rfl

section

variable {t : List Int} {m : Nat} {x y : Int}

theorem exchanged_perm (hm : m + 1 < t.length) : (exchanged t m t[m] t[m + 1]).Perm t := by
  rw [exchanged]
  split
  · exact List.set_set_perm (by omega) hm
  · exact .refl _

theorem exchanged_other {q : Nat} (hq : q ≠ m) (hq' : q ≠ m + 1) :
    (exchanged t m x y)[q]? = t[q]? := by
  rw [exchanged]
  split
  · rw [List.getElem?_set_ne hq'.symm, List.getElem?_set_ne hq.symm]
  · rfl

/-- The larger of the two is above the other. -/
theorem exchanged_pair (hx : t[m]? = some x) (hy : t[m + 1]? = some y) :
    (exchanged t m x y)[m]? = some (min x y)
      ∧ (exchanged t m x y)[m + 1]? = some (max x y) := by
  have hm : m + 1 < t.length := (List.getElem?_eq_some_iff.mp hy).1
  rw [exchanged]
  split
  case isTrue hlt =>
      rw [List.getElem?_set_ne (by omega), List.getElem?_set_self (by omega),
        List.getElem?_set_self (by rwa [List.length_set])]
      exact ⟨congrArg some (by omega), congrArg some (by omega)⟩
  case isFalse hle =>
      rw [hx, hy]
      exact ⟨congrArg some (by omega), congrArg some (by omega)⟩

/-- An exchange at or below `i` keeps what is settled above. -/
theorem Settled.exchanged {i : Int} (h : Settled i t) (hmi : (m : Int) + 1 ≤ i)
    (hx : t[m]? = some x) (hy : t[m + 1]? = some y) : Settled i (exchanged t m x y) := by
  obtain ⟨hlow, hhigh⟩ := exchanged_pair hx hy
  intro p q a b hpq hq ha hb
  rw [exchanged_other (by omega) (by omega)] at hb
  have hxb := h m q x b (by omega) hq hx hb
  have hyb := h (m + 1) q y b (by omega) hq hy hb
  by_cases hp : p = m
  · rw [hp, hlow] at ha
    obtain rfl := Option.some.inj ha
    omega
  · by_cases hp' : p = m + 1
    · rw [hp', hhigh] at ha
      obtain rfl := Option.some.inj ha
      omega
    · rw [exchanged_other hp hp'] at ha
      exact h p q a b hpq hq ha hb

/-- The largest element moves up with the loop. -/
theorem Bubbled.exchanged (h : Bubbled (m + 1 : Nat) t) (hx : t[m]? = some x)
    (hy : t[m + 1]? = some y) : Bubbled (m + 1 + 1 : Nat) (exchanged t m x y) := by
  obtain ⟨hlow, hhigh⟩ := exchanged_pair hx hy
  intro p k a b hpk hk ha hb
  obtain rfl : k = m + 1 := by omega
  rw [hhigh] at hb
  obtain rfl := Option.some.inj hb
  by_cases hp : p = m
  · rw [hp, hlow] at ha
    obtain rfl := Option.some.inj ha
    omega
  · by_cases hp' : p = m + 1
    · rw [hp', hhigh] at ha
      obtain rfl := Option.some.inj ha
      exact Int.le_refl _
    · rw [exchanged_other hp hp'] at ha
      have hax := h p m a x (by omega) (by omega) ha hx
      omega

end

/-- A pass up to `i` settles `i`. -/
theorem bubble_pass {t : List Int} {i : Int} (hlo : 1 ≤ i) (hi : i < t.length)
    (h : Settled i t) : ∃ t', countUp bubbleTurn (i + 1) 1 t = .ok t' ∧ t'.Perm t
      ∧ Settled (i - 1) t' := by
  have hturn : ∀ (j : Int) (s : List Int), 1 ≤ j → j < i + 1 →
      (s.Perm t ∧ Settled i s ∧ Bubbled j s) →
        ∃ s', bubbleTurn j s = .ok s' ∧ s'.Perm t ∧ Settled i s' ∧ Bubbled (j + 1) s' := by
    rintro j s hj hji ⟨hperm, hsettled, hbubbled⟩
    obtain ⟨m, rfl⟩ : ∃ m : Nat, j = (m + 1 : Nat) := ⟨(j - 1).toNat, by omega⟩
    have hm : m + 1 < s.length := by
      rw [hperm.length_eq]
      omega
    have hx : s[m]? = some s[m] := List.getElem?_eq_getElem _
    have hy : s[m + 1]? = some s[m + 1] := List.getElem?_eq_getElem hm
    exact ⟨_, bubbleTurn_eq hm, (exchanged_perm hm).trans hperm,
      hsettled.exchanged (by omega) hx hy, hbubbled.exchanged hx hy⟩
  have hstart : Bubbled 1 t := by
    intro p m x y hp hm hx hy
    obtain ⟨rfl, rfl⟩ : p = 0 ∧ m = 0 := by omega
    exact Int.le_of_eq (Option.some.inj (hx.symm.trans hy))
  obtain ⟨t', hpass, hperm, hsettled, hbubbled⟩ :=
    countUp_total hturn (by omega) ⟨.refl _, h, hstart⟩
  refine ⟨t', hpass, hperm, fun p q x y hpq hq hx hy => ?_⟩
  by_cases hqi : (q : Int) = i
  · exact hbubbled p q x y hpq (by omega) hx hy
  · exact hsettled p q x y hpq (by omega) hx hy

/-- **`bubble_sort` sorts.** -/
theorem bubble_sorts (a : Longs) : Sorts bubbleSort a := by
  by_cases hshort : a.num < 2
  · refine ⟨a.val, ?_, pairwise_of_short (a.num_lt_two_iff.mp hshort), .refl _⟩
    rw [bubbleSort, if_pos hshort]
    rfl
  · have hlen : ¬a.val.length < 2 := fun hlt => hshort (a.num_lt_two_iff.mpr hlt)
    have hturn : ∀ (i : Int) (s : List Int), 1 ≤ i → i ≤ (a.val.length : Int) - 1 →
        (s.Perm a.val ∧ Settled i s) →
          ∃ s', countUp bubbleTurn (i + 1) 1 s = .ok s' ∧ s'.Perm a.val ∧ Settled (i - 1) s' := by
      rintro i s hlo hi ⟨hperm, hsettled⟩
      obtain ⟨s', hpass, hperm', hsettled'⟩ :=
        bubble_pass hlo (by rw [hperm.length_eq]; omega) hsettled
      exact ⟨s', hpass, hperm'.trans hperm, hsettled'⟩
    have hstart : Settled ((a.val.length : Int) - 1) a.val := by
      intro p q x y _ hq _ hy
      rw [List.getElem?_eq_none (by omega)] at hy
      cases hy
    obtain ⟨t, hsort, hperm, hsettled⟩ :=
      countDown_total hturn (by omega) ⟨.refl _, hstart⟩
    refine ⟨t, ?_, ?_, hperm⟩
    · rw [bubbleSort, if_neg hshort, a.ssize_num]
      exact hsort
    · rw [List.pairwise_iff_getElem]
      intro p q hp hq hpq
      exact hsettled p q _ _ (Nat.le_of_lt hpq) (by omega) (List.getElem?_eq_getElem hp)
        (List.getElem?_eq_getElem hq)

end MiscTools.SimpleSort
