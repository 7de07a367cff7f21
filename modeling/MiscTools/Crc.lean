/-!
# Cyclic redundancy checks

The reflected division of any width by any polynomial: a bit leaves at
the low end, and the polynomial is taken off when that bit was set.
`zeros` is the register after a number of zero octets, `feed` the
register after the octets of a message.

The division is linear in exclusive or, which is all the table methods
rest on: `byte_table` is the loop with one table, and `zeros_slice`
with `feed_le` the loops that take several octets at once, one table
for each octet of the register. `Feeds.turns` is the rule for all of
them: what one turn of a loop does to the register, the loop does.
-/

namespace MiscTools.Crc

variable {w : Nat}

/-! ## Octets of a word -/

/-- The little-endian word of a list of octets. -/
def le : List (BitVec 8) → BitVec w
  | [] => 0
  | b :: bs => b.setWidth w ^^^ (le bs <<< 8)

/-- The octets of a word, from the low one up. -/
def octets : Nat → BitVec w → List (BitVec 8)
  | 0, _ => []
  | k + 1, v => v.setWidth 8 :: octets k (v >>> 8)

theorem octet_ushiftRight (b : BitVec 8) : b.setWidth w >>> 8 = 0 := by
  apply BitVec.eq_of_getLsbD_eq
  intro i hi
  rw [BitVec.getLsbD_ushiftRight, BitVec.getLsbD_setWidth,
    BitVec.getLsbD_of_ge b (8 + i) (by omega)]
  simp

/-- No bit is set above the octets of the list. -/
theorem le_short (bs : List (BitVec 8)) :
    ∀ i, 8 * bs.length ≤ i → (le bs : BitVec w).getLsbD i = false := by
  induction bs with
  | nil =>
      intro i _
      exact BitVec.getLsbD_zero
  | cons b bs ih =>
      intro i hi
      rw [List.length_cons] at hi
      rw [le, BitVec.getLsbD_xor, BitVec.getLsbD_setWidth, BitVec.getLsbD_shiftLeft,
        BitVec.getLsbD_of_ge b i (by omega), ih (i - 8) (by omega)]
      simp

/-- A word with room for one more octet moves up without a loss. -/
theorem le_shift {bs : List (BitVec 8)} (h : 8 * (bs.length + 1) ≤ w) :
    (le bs : BitVec w) <<< 8 >>> 8 = le bs := by
  apply BitVec.eq_of_getLsbD_eq
  intro i hi
  rw [BitVec.getLsbD_ushiftRight, BitVec.getLsbD_shiftLeft, Nat.add_sub_cancel_left]
  by_cases hroom : 8 + i < w
  · simp [hroom]
  · rw [le_short bs i (by omega), Bool.and_false]

theorem octets_le {bs : List (BitVec 8)} (h : 8 * bs.length ≤ w) :
    octets bs.length (le bs : BitVec w) = bs := by
  induction bs with
  | nil => rfl
  | cons b bs ih =>
      rw [List.length_cons] at h ⊢
      have hlow : (le (b :: bs) : BitVec w).setWidth 8 = b := by
        apply BitVec.eq_of_getLsbD_eq
        intro i hi
        rw [le, BitVec.getLsbD_setWidth, BitVec.getLsbD_xor, BitVec.getLsbD_setWidth,
          BitVec.getLsbD_shiftLeft]
        simp [hi, show i < w by omega]
      have hhigh : (le (b :: bs) : BitVec w) >>> 8 = le bs := by
        rw [le, BitVec.ushiftRight_xor_distrib, octet_ushiftRight, le_shift h]
        exact BitVec.zero_xor
      rw [octets, hlow, hhigh, ih (by omega)]

/-- The low octet of a word and the rest of it. -/
theorem split_low (x : BitVec w) : x = (x &&& 255#w) ^^^ (x >>> 8 <<< 8) := by
  apply BitVec.eq_of_getLsbD_eq
  intro i hi
  rw [BitVec.getLsbD_xor, BitVec.getLsbD_and, BitVec.getLsbD_shiftLeft,
    BitVec.getLsbD_ushiftRight, BitVec.getLsbD_ofNat,
    show (255 : Nat) = 2 ^ 8 - 1 from rfl, Nat.testBit_two_pow_sub_one]
  by_cases hlow : i < 8
  · simp [hi, hlow]
  · simp [hi, hlow, Nat.add_sub_cancel' (Nat.le_of_not_lt hlow)]

/-! ## The division -/

variable (P : BitVec w)

/-- One bit of the reflected division. -/
def bit (c : BitVec w) : BitVec w :=
  if c.getLsbD 0 then (c >>> 1) ^^^ P else c >>> 1

def bits : Nat → BitVec w → BitVec w
  | 0, c => c
  | n + 1, c => bits n (bit P c)

/-- The register after `k` zero octets. -/
def zeros (k : Nat) (c : BitVec w) : BitVec w := bits P (8 * k) c

/-- The register after one octet. -/
def byte (c : BitVec w) (b : BitVec 8) : BitVec w := zeros P 1 (c ^^^ b.setWidth w)

/-- The register after a message. -/
def feed (c : BitVec w) (bs : List (BitVec 8)) : BitVec w := bs.foldl (byte P) c

variable {P}

theorem bit_xor (a b : BitVec w) : bit P (a ^^^ b) = bit P a ^^^ bit P b := by
  unfold bit
  rw [BitVec.getLsbD_xor, BitVec.ushiftRight_xor_distrib]
  have hcancel : (a >>> 1 ^^^ P) ^^^ (b >>> 1 ^^^ P) = a >>> 1 ^^^ b >>> 1 := by
    rw [BitVec.xor_comm (b >>> 1) P, BitVec.xor_assoc, ← BitVec.xor_assoc P P, BitVec.xor_self,
      BitVec.zero_xor]
  cases a.getLsbD 0 <;> cases b.getLsbD 0
  · rfl
  · exact BitVec.xor_assoc ..
  · show (a >>> 1 ^^^ b >>> 1) ^^^ P = (a >>> 1 ^^^ P) ^^^ b >>> 1
    rw [BitVec.xor_assoc, BitVec.xor_comm (b >>> 1) P, ← BitVec.xor_assoc]
  · exact hcancel.symm

theorem bits_xor (n : Nat) (a b : BitVec w) : bits P n (a ^^^ b) = bits P n a ^^^ bits P n b := by
  induction n generalizing a b with
  | zero => rfl
  | succ n ih => rw [bits, bit_xor, ih, bits, bits]

@[simp] theorem bits_of_zero (n : Nat) : bits P n 0#w = 0#w := by
  have h := bits_xor (P := P) n 0#w 0#w
  rw [BitVec.xor_self, BitVec.xor_self] at h
  exact h

theorem bits_add (m n : Nat) (c : BitVec w) : bits P (m + n) c = bits P m (bits P n c) := by
  induction n generalizing c with
  | zero => rfl
  | succ n ih => rw [← Nat.add_assoc, bits, bits, ih]

/-- Low bits that are clear leave without the polynomial. -/
theorem bits_shift (n : Nat) (x : BitVec w) : bits P n (x >>> n <<< n) = x >>> n := by
  induction n generalizing x with
  | zero => simp [bits]
  | succ n ih =>
      have hclear : (x >>> (n + 1) <<< (n + 1)).getLsbD 0 = false := by simp
      have hdown : x >>> (n + 1) <<< (n + 1) >>> 1 = x >>> 1 >>> n <<< n := by
        apply BitVec.eq_of_getLsbD_eq
        intro i hi
        simp only [BitVec.getLsbD_ushiftRight, BitVec.getLsbD_shiftLeft]
        by_cases hn : i < n
        · simp [hn, show 1 + i < n + 1 by omega]
        · rw [show n + 1 + (1 + i - (n + 1)) = 1 + i by omega,
            show 1 + (n + (i - n)) = 1 + i by omega]
          by_cases hw : 1 + i < w
          · simp [hn, hi, hw, show ¬ 1 + i < n + 1 by omega]
          · simp [BitVec.getLsbD_of_ge x (1 + i) (by omega)]
      rw [bits, bit, hclear, if_neg Bool.false_ne_true, hdown, ih, ← BitVec.shiftRight_add,
        Nat.add_comm]

theorem zeros_xor (k : Nat) (a b : BitVec w) :
    zeros P k (a ^^^ b) = zeros P k a ^^^ zeros P k b :=
  bits_xor (8 * k) a b

theorem zeros_add (m n : Nat) (c : BitVec w) : zeros P (m + n) c = zeros P m (zeros P n c) := by
  rw [zeros, Nat.mul_add, bits_add, zeros, zeros]

@[simp] theorem zeros_zero_octets (c : BitVec w) : zeros P 0 c = c := rfl

@[simp] theorem zeros_of_zero (k : Nat) : zeros P k 0#w = 0#w := bits_of_zero (8 * k)

/-! ## Tables -/

/-- **One slice.** The low octet of the register is looked up, and the
rest of it moves down one octet. -/
theorem zeros_slice (k : Nat) (x : BitVec w) :
    zeros P (k + 1) x = zeros P (k + 1) (x &&& 255#w) ^^^ zeros P k (x >>> 8) := by
  have hdown : zeros P 1 (x >>> 8 <<< 8) = x >>> 8 := bits_shift 8 x
  have hsplit := zeros_xor (P := P) (k + 1) (x &&& 255#w) (x >>> 8 <<< 8)
  rw [← split_low x, zeros_add k 1 (x >>> 8 <<< 8), hdown] at hsplit
  exact hsplit

/-- **The loop with one table.** -/
theorem byte_table (c : BitVec w) (b : BitVec 8) :
    byte P c b = zeros P 1 ((c ^^^ b.setWidth w) &&& 255#w) ^^^ (c >>> 8) := by
  have hrest : (c ^^^ b.setWidth w) >>> 8 = c >>> 8 := by
    rw [BitVec.ushiftRight_xor_distrib, octet_ushiftRight]
    exact BitVec.xor_zero
  rw [byte, zeros_slice 0, hrest, zeros_zero_octets]

theorem feed_append (c : BitVec w) (as bs : List (BitVec 8)) :
    feed P c (as ++ bs) = feed P (feed P c as) bs :=
  List.foldl_append

/-- The octets of a buffer may be fed in two goes. -/
theorem feed_take_add (c : BitVec w) (p : List (BitVec 8)) (k l : Nat) :
    feed P (feed P c (p.take k)) ((p.drop k).take l) = feed P c (p.take (k + l)) := by
  rw [← feed_append, ← List.take_add]

/-- A word of octets after `k` more zero octets than its first. -/
theorem zeros_le_cons (k : Nat) {b : BitVec 8} {bs : List (BitVec 8)}
    (h : 8 * (bs.length + 1) ≤ w) :
    zeros P (k + 1) (le (b :: bs)) = zeros P (k + 1) (b.setWidth w) ^^^ zeros P k (le bs) := by
  have hdown : zeros P 1 ((le bs : BitVec w) <<< 8) = le bs := by
    have hbits := bits_shift (P := P) 8 ((le bs : BitVec w) <<< 8)
    rw [le_shift h] at hbits
    exact hbits
  rw [le, zeros_xor, zeros_add k 1 (le bs <<< 8), hdown]

/-- **Octets enter together.** Octets the register has room for are
taken in as one word. -/
theorem feed_le (c : BitVec w) {bs : List (BitVec 8)} (h : 8 * bs.length ≤ w) :
    feed P c bs = zeros P bs.length (c ^^^ le bs) := by
  induction bs generalizing c with
  | nil => exact BitVec.xor_zero.symm
  | cons b bs ih =>
      rw [List.length_cons] at h ⊢
      have hone : zeros P (bs.length + 1) (c ^^^ b.setWidth w) =
          zeros P bs.length (byte P c b) := zeros_add ..
      calc feed P c (b :: bs)
          = feed P (byte P c b) bs := rfl
        _ = zeros P bs.length (byte P c b) ^^^ zeros P bs.length (le bs) := by
            rw [ih _ (by omega), zeros_xor]
        _ = zeros P (bs.length + 1) c ^^^
              (zeros P (bs.length + 1) (b.setWidth w) ^^^ zeros P bs.length (le bs)) := by
            rw [← hone, zeros_xor, BitVec.xor_assoc]
        _ = zeros P (bs.length + 1) (c ^^^ le (b :: bs)) := by
            rw [← zeros_le_cons _ h, zeros_xor]

/-! ## Loops over a buffer -/

/-- One turn of a loop: the register and what is left of the buffer,
unless the turn reads past its end. -/
abbrev Turn (w : Nat) := BitVec w → List (BitVec 8) → Option (BitVec w × List (BitVec 8))

def turns (turn : Turn w) : Nat → Turn w
  | 0, c, p => some (c, p)
  | n + 1, c, p => do
      let (c, p) ← turn c p
      turns turn n c p

/-- The turn feeds `k` octets of the buffer, if there are as many. -/
def Feeds (P : BitVec w) (k : Nat) (turn : Turn w) : Prop :=
  ∀ c p, k ≤ p.length → turn c p = some (feed P c (p.take k), p.drop k)

theorem Feeds.turns {k : Nat} {turn : Turn w} (h : Feeds P k turn) (n : Nat) :
    Feeds P (k * n) (turns turn n) := by
  induction n with
  | zero =>
      intro c p _
      rfl
  | succ n ih =>
      intro c p hp
      rw [Nat.mul_succ] at hp
      have hrest : k * n ≤ (p.drop k).length := by
        rw [List.length_drop]
        omega
      rw [Crc.turns, h c p (by omega), Option.bind_eq_bind, Option.bind_some]
      show Crc.turns turn n _ _ = _
      rw [ih _ _ hrest, feed_take_add, List.drop_drop, Nat.mul_succ, Nat.add_comm]

end MiscTools.Crc
