import MiscTools.Blocks
import MiscTools.Counted
import MiscTools.Sizes

/-!
# The sorting functions of simple_sort.c

`long` values are only compared and moved, so they are integers. The
array is a block, and every access is checked: a function that returns
has stayed in `[0, num)`. The counters are integers: they stay in the
range of an `ssize_t` on any array there can be (`Longs`), and only the
`i - 1` of `selection_sort`, a `size_t`, is reduced modulo 2^64.

`insertion_sort` and the passes of `shell_sort` are the same loops with
different gaps, and both put the saved value where the shifting loop
stopped, one gap below the hole it has made. `shell_sort` reads `N`,
which nothing declares, as `num`.
-/

namespace MiscTools.SimpleSort

open Blocks Counted Sizes

/-! ## The arrays -/

/-- An array of `long`: eight bytes each in less than 2^64, so an
`ssize_t` counts them. -/
structure Longs where
  val : List Int
  small : val.length < 2 ^ 63

def Longs.num (a : Longs) : UInt64 := .ofNat a.val.length

theorem Longs.toNat_num (a : Longs) : a.num.toNat = a.val.length := by
  have hsmall := a.small
  rw [num, UInt64.toNat_ofNat']
  omega

theorem Longs.ssize_num (a : Longs) : ssize a.num = a.val.length := by
  rw [ssize_of_lt (by rw [a.toNat_num]; exact a.small), a.toNat_num]

theorem Longs.num_lt_two_iff (a : Longs) : a.num < 2 ↔ a.val.length < 2 := by
  rw [UInt64.lt_iff_toNat_lt, a.toNat_num]
  rfl

/-- `val[i]` -/
def get (t : List Int) (i : Int) : Except Fault Int :=
  if 0 ≤ i then read t i.toNat else .error .bounds

/-- `val[i] = x` -/
def put (t : List Int) (i x : Int) : Except Fault (List Int) :=
  if 0 ≤ i then write t i.toNat x else .error .bounds

/-- `swap(&val[v1], &val[v2])` -/
def swap (t : List Int) (v1 v2 : Int) : Except Fault (List Int) := do
  let tmp ← get t v1
  let t ← put t v1 (← get t v2)
  put t v2 tmp

/-- The function stays inside the array and leaves it in ascending order,
with the values it had. -/
def Sorts (sort : List Int → UInt64 → Except Fault (List Int)) (a : Longs) : Prop :=
  ∃ t, sort a.val a.num = .ok t ∧ t.Pairwise (· ≤ ·) ∧ t.Perm a.val

theorem pairwise_of_short {t : List Int} (h : t.length < 2) : t.Pairwise (· ≤ ·) := by
  match t, h with
  | [], _ => exact List.Pairwise.nil
  | [x], _ => exact List.pairwise_singleton _ _

/-- An array that is in order, and the smallest one that is not. -/
def oneTwo : Longs := ⟨[1, 2], by simp⟩

def twoOne : Longs := ⟨[2, 1], by simp⟩

theorem get_of_lt {t : List Int} {i : Nat} (h : i < t.length) : get t i = .ok t[i] := by
  rw [get, if_pos (Int.natCast_nonneg i), Int.toNat_natCast]
  exact read_of_lt h

theorem put_of_lt {t : List Int} {i : Nat} (h : i < t.length) (x : Int) :
    put t i x = .ok (t.set i x) := by
  rw [put, if_pos (Int.natCast_nonneg i), Int.toNat_natCast]
  exact write_of_lt h x

theorem swap_of_lt {t : List Int} {a b : Nat} (ha : a < t.length) (hb : b < t.length) :
    swap t a b = .ok ((t.set a t[b]).set b t[a]) := by
  rw [swap, get_of_lt ha, get_of_lt hb]
  show (put t a t[b] >>= fun t' => put t' b t[a]) = _
  rw [put_of_lt ha]
  exact put_of_lt (by rwa [List.length_set]) _

/-- An access that returns is one inside the array. -/
theorem get_eq_ok {t : List Int} {i x : Int} (h : get t i = .ok x) :
    ∃ k : Nat, i = k ∧ ∃ hk : k < t.length, x = t[k] := by
  rw [get] at h
  split at h
  · refine ⟨i.toNat, by omega, ?_⟩
    by_cases hk : i.toNat < t.length
    · rw [read_of_lt hk] at h
      exact ⟨hk, (Except.ok.inj h).symm⟩
    · rw [Blocks.read, List.getElem?_eq_none (Nat.not_lt.mp hk)] at h
      cases h
  · cases h

theorem put_eq_ok {t t' : List Int} {i x : Int} (h : put t i x = .ok t') :
    ∃ k : Nat, i = k ∧ k < t.length ∧ t' = t.set k x := by
  rw [put] at h
  split at h
  · refine ⟨i.toNat, by omega, ?_⟩
    rw [write] at h
    split at h
    case isTrue hk => exact ⟨hk, (Except.ok.inj h).symm⟩
    case isFalse => cases h
  · cases h

/-! ## `selection_sort` -/

/-- The inner loop: where it leaves `min`. -/
def selectMin (t : List Int) (num i : Int) : Except Fault Int :=
  countUp (fun j min => do return if (← get t min) < (← get t j) then j else min) num (i + 1) i

def selectTurn (num i : Int) (t : List Int) : Except Fault (List Int) := do
  let min ← selectMin t num i
  let prev := (i - 1) % 2 ^ 64
  if min ≠ prev then swap t min prev else return t

def selectionSort (val : List Int) (num : UInt64) : Except Fault (List Int) :=
  if num < 2 then return val
  else countUp (selectTurn num.toNat) num.toNat 0 val

/-! ## `insertion_sort` and `shell_sort` -/

abbrev Gap := { h : Nat // 0 < h }

/-- The shifting loop from its test on: where it leaves `j`. -/
def shift (h : Gap) (v j : Int) (t : List Int) : Except Fault (Int × List Int) :=
  if 0 ≤ j then do
    let x ← get t j
    if v < x then shift h v (j - h.val) (← put t (j + h.val) x) else return (j, t)
  else return (j, t)
termination_by (j + 1).toNat
decreasing_by
  have := h.property
  omega

def insertTurn (h : Gap) (i : Int) (t : List Int) : Except Fault (List Int) := do
  let v ← get t i
  let (j, t) ← shift h v (i - h.val) t
  put t j v

def gapPass (h : Gap) (num : Int) (t : List Int) : Except Fault (List Int) :=
  countUp (insertTurn h) num h.val t

def insertionSort (val : List Int) (num : UInt64) : Except Fault (List Int) :=
  if num < 2 then return val
  else gapPass ⟨1, Nat.one_pos⟩ (ssize num) val

/-- `for (; h <= n; h += 3*h + 1);` -/
def growGap (n h : Nat) : Nat := if h ≤ n then growGap n (h + (3 * h + 1)) else h
termination_by n + 1 - h

/-- The values of `h` in `for (; h > 0; h /= 3)`. -/
def gapsFrom (h : Nat) : List Gap :=
  if hpos : 0 < h then ⟨h, hpos⟩ :: gapsFrom (h / 3) else []

/-- The gaps of the passes over an array of length `num`. -/
def gaps (num : UInt64) : List Gap :=
  if num < 2 then [] else gapsFrom (growGap (num.toNat / 9) 1)

def shellSort (val : List Int) (num : UInt64) : Except Fault (List Int) :=
  (gaps num).foldlM (fun t h => gapPass h (ssize num) t) val

/-! ## `bubble_sort` -/

def bubbleTurn (j : Int) (t : List Int) : Except Fault (List Int) := do
  if (← get t j) < (← get t (j - 1)) then swap t (j - 1) j else return t

def bubbleSort (val : List Int) (num : UInt64) : Except Fault (List Int) :=
  if num < 2 then return val
  else countDown (fun i t => countUp bubbleTurn (i + 1) 1 t) 1 (ssize num - 1) val

end MiscTools.SimpleSort
