import Mathlib.Algebra.Group.Int.Defs

/-!
# Points in time in two units

A time given in seconds and in a fraction of one, `base` fractions to the
second: `value` is all of it in fractions. A stamp is normal if its
fraction is less than a second, and then the seconds are the quotient by
`base` (`Normal.sec_eq`). `add` carries and `sub` borrows once, which is
enough to keep normal stamps normal.
-/

namespace MiscTools

structure Stamp where
  sec : Int
  frac : Int
deriving DecidableEq

namespace Stamp

def value (base : Int) (s : Stamp) : Int := s.sec * base + s.frac

structure Normal (base : Int) (s : Stamp) : Prop where
  nonneg : 0 ≤ s.frac
  lt : s.frac < base

def zero : Stamp := ⟨0, 0⟩

def add (base : Int) (s t : Stamp) : Stamp :=
  if base ≤ s.frac + t.frac then ⟨s.sec + t.sec + 1, s.frac + t.frac - base⟩
  else ⟨s.sec + t.sec, s.frac + t.frac⟩

def sub (base : Int) (s t : Stamp) : Stamp :=
  if s.frac - t.frac < 0 then ⟨s.sec - t.sec - 1, s.frac - t.frac + base⟩
  else ⟨s.sec - t.sec, s.frac - t.frac⟩

variable {base : Int} {s t : Stamp}

theorem value_zero (base : Int) : zero.value base = 0 := by
  simp [value, zero]

theorem normal_zero (h : 0 < base) : zero.Normal base := ⟨Int.le_refl 0, h⟩

theorem value_add (base : Int) (s t : Stamp) :
    (add base s t).value base = s.value base + t.value base := by
  unfold add value
  split <;> simp only [Int.add_mul, Int.one_mul] <;> omega

theorem value_sub (base : Int) (s t : Stamp) :
    (sub base s t).value base = s.value base - t.value base := by
  unfold sub value
  split <;> simp only [Int.sub_mul, Int.one_mul] <;> omega

theorem Normal.add (hs : s.Normal base) (ht : t.Normal base) : (add base s t).Normal base := by
  have := hs.nonneg
  have := hs.lt
  have := ht.nonneg
  have := ht.lt
  unfold Stamp.add
  split <;> constructor <;> dsimp only <;> omega

theorem Normal.sub (hs : s.Normal base) (ht : t.Normal base) : (sub base s t).Normal base := by
  have := hs.nonneg
  have := hs.lt
  have := ht.nonneg
  have := ht.lt
  unfold Stamp.sub
  split <;> constructor <;> dsimp only <;> omega

/-- The seconds of a normal stamp. -/
theorem Normal.sec_eq (h : s.Normal base) : s.sec = s.value base / base := by
  have hpos : 0 < base := Int.lt_of_le_of_lt h.nonneg h.lt
  rw [value, Int.add_comm, Int.add_mul_ediv_right _ _ (Int.ne_of_gt hpos),
    Int.ediv_eq_zero_of_lt h.nonneg h.lt, Int.zero_add]

theorem Normal.sec_nonneg (h : s.Normal base) (hvalue : 0 ≤ s.value base) : 0 ≤ s.sec := by
  rw [h.sec_eq]
  exact Int.ediv_nonneg hvalue (Int.le_trans h.nonneg (Int.le_of_lt h.lt))

theorem Normal.value_lt_iff (h : s.Normal base) {n : Int} :
    s.value base < n * base ↔ s.sec < n := by
  rw [h.sec_eq]
  exact (Int.ediv_lt_iff_lt_mul (Int.lt_of_le_of_lt h.nonneg h.lt)).symm

end Stamp

end MiscTools
