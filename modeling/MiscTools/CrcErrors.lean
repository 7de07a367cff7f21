import Mathlib.Data.List.GetD
import Mathlib.Tactic.ByContra
import MiscTools.Crc

/-!
# Errors that a cyclic redundancy check detects

The bits of a message enter the register one by one, from the low end of an
octet up (`feed_eq_bitsIn`). As the division is linear, two messages of one
length leave registers that differ by what their difference leaves in a
register of zeros.

- `burst_detected`: where the polynomial has its last term, no bit that has
  entered is ever lost, so a difference that fits into the register stays.
- `odd_detected`: where the polynomial has an odd number of terms besides the
  first, the parity of the register is that of all bits that have entered.
-/

namespace MiscTools.Crc

variable {w : Nat}

/-! ## Bits -/

/-- The bits of an octet in the order in which they enter. -/
def octetBits (b : BitVec 8) : List Bool := (List.range 8).map b.getLsbD

def message (bs : List (BitVec 8)) : List Bool := bs.flatMap octetBits

/-- The first bit at the low end. -/
def word : List Bool → BitVec w
  | [] => 0
  | x :: xs => (BitVec.ofBool x).setWidth w ^^^ (word xs <<< 1)

variable (P : BitVec w)

/-- The register after one bit. -/
def bitIn (c : BitVec w) (x : Bool) : BitVec w := bit P (c ^^^ (BitVec.ofBool x).setWidth w)

def bitsIn (c : BitVec w) (xs : List Bool) : BitVec w := xs.foldl (bitIn P) c

variable {P}

theorem getLsbD_ofBool (x : Bool) (i : Nat) (hw : 0 < w) :
    ((BitVec.ofBool x).setWidth w).getLsbD i = (decide (i = 0) && x) := by
  rw [BitVec.getLsbD_setWidth, BitVec.getLsbD_ofBool]
  by_cases hi : i = 0
  · simp [hi, hw]
  · simp [hi]

theorem getLsbD_word {xs : List Bool} (h : xs.length ≤ w) (i : Nat) :
    (word xs : BitVec w).getLsbD i = xs.getD i false := by
  induction xs generalizing i with
  | nil => exact BitVec.getLsbD_zero
  | cons x xs ih =>
      rw [List.length_cons] at h
      rw [word, BitVec.getLsbD_xor, getLsbD_ofBool x i (by omega), BitVec.getLsbD_shiftLeft]
      cases i with
      | zero => simp
      | succ i =>
          by_cases hi : i + 1 < w
          · simp [hi, ih (by omega)]
          · rw [List.getD_cons_succ, List.getD_eq_default _ _ (by omega)]
            simp [hi]

theorem word_shift {xs : List Bool} (h : xs.length + 1 ≤ w) :
    (word xs : BitVec w) <<< 1 >>> 1 = word xs := by
  apply BitVec.eq_of_getLsbD_eq
  intro i hi
  rw [BitVec.getLsbD_ushiftRight, BitVec.getLsbD_shiftLeft, Nat.add_sub_cancel_left]
  by_cases hroom : 1 + i < w
  · simp [hroom]
  · rw [getLsbD_word (by omega), List.getD_eq_default _ _ (by omega), Bool.and_false]

/-- Bits the register has room for are taken in as one word. -/
theorem bitsIn_word (c : BitVec w) {xs : List Bool} (h : xs.length ≤ w) :
    bitsIn P c xs = bits P xs.length (c ^^^ word xs) := by
  induction xs generalizing c with
  | nil => exact BitVec.xor_zero.symm
  | cons x xs ih =>
      rw [List.length_cons] at h ⊢
      have hdown : bit P ((word xs : BitVec w) <<< 1) = word xs := by
        have hshift := bits_shift (P := P) 1 ((word xs : BitVec w) <<< 1)
        rw [word_shift h] at hshift
        exact hshift
      have hstep : bit P (c ^^^ word (x :: xs)) = bitIn P c x ^^^ word xs := by
        rw [word, ← BitVec.xor_assoc, bit_xor, hdown, bitIn]
      rw [bits, hstep]
      exact ih (bitIn P c x) (by omega)

theorem word_octetBits (h : 8 ≤ w) (b : BitVec 8) : word (octetBits b) = b.setWidth w := by
  have hlen : (octetBits b).length = 8 := by simp [octetBits]
  apply BitVec.eq_of_getLsbD_eq
  intro i hi
  rw [getLsbD_word (by omega), BitVec.getLsbD_setWidth]
  by_cases hi8 : i < 8
  · simp [octetBits, hi, hi8]
  · rw [List.getD_eq_default _ _ (by omega), BitVec.getLsbD_of_ge b i (by omega), Bool.and_false]

theorem bitsIn_append (c : BitVec w) (xs ys : List Bool) :
    bitsIn P c (xs ++ ys) = bitsIn P (bitsIn P c xs) ys :=
  List.foldl_append

/-- **Bit by bit.** -/
theorem feed_eq_bitsIn (h : 8 ≤ w) (c : BitVec w) (bs : List (BitVec 8)) :
    feed P c bs = bitsIn P c (message bs) := by
  induction bs generalizing c with
  | nil => rfl
  | cons b bs ih =>
      have hlen : (octetBits b).length = 8 := by simp [octetBits]
      have hbyte : byte P c b = bitsIn P c (octetBits b) := by
        rw [bitsIn_word c (by omega), word_octetBits h, hlen]
        rfl
      rw [message, List.flatMap_cons, bitsIn_append, ← hbyte]
      exact ih (byte P c b)

/-! ## Differences -/

/-- The bits in which two messages differ. -/
def flips (p q : List (BitVec 8)) : List Bool := List.zipWith xor (message p) (message q)

theorem ofBool_xor (x y : Bool) : (BitVec.ofBool (x ^^ y)).setWidth w =
    (BitVec.ofBool x).setWidth w ^^^ (BitVec.ofBool y).setWidth w := by
  rw [← BitVec.setWidth_xor, BitVec.ofBool_xor_ofBool]

theorem bitsIn_xor (c d : BitVec w) {xs ys : List Bool} (h : xs.length = ys.length) :
    bitsIn P (c ^^^ d) (List.zipWith xor xs ys) = bitsIn P c xs ^^^ bitsIn P d ys := by
  induction xs generalizing c d ys with
  | nil =>
      obtain rfl := List.eq_nil_of_length_eq_zero h.symm
      rfl
  | cons x xs ih =>
      cases ys with
      | nil => cases h
      | cons y ys =>
          have hbit : bitIn P (c ^^^ d) (x ^^ y) = bitIn P c x ^^^ bitIn P d y := by
            rw [bitIn, bitIn, bitIn, ofBool_xor, ← bit_xor]
            congr 1
            ac_rfl
          show bitsIn P (bitIn P (c ^^^ d) (x ^^ y)) (List.zipWith xor xs ys) = _
          rw [hbit]
          exact ih _ _ (Nat.succ.inj h)

theorem message_length (bs : List (BitVec 8)) : (message bs).length = 8 * bs.length := by
  induction bs with
  | nil => rfl
  | cons b bs ih =>
      rw [message, List.flatMap_cons, List.length_append, ← message, ih]
      simp [octetBits]
      omega

/-- What the difference of two messages leaves in a register of zeros. -/
theorem feed_xor_feed (h : 8 ≤ w) (c : BitVec w) {p q : List (BitVec 8)}
    (hlen : p.length = q.length) :
    feed P c p ^^^ feed P c q = bitsIn P 0#w (flips p q) := by
  rw [feed_eq_bitsIn h, feed_eq_bitsIn h,
    ← bitsIn_xor c c (by rw [message_length, message_length, hlen]), BitVec.xor_self, flips]

theorem octetBits_inj {a b : BitVec 8} (h : octetBits a = octetBits b) : a = b := by
  apply BitVec.eq_of_getLsbD_eq
  intro i hi
  have hat := congrArg (fun l => l[i]?) h
  simpa [octetBits, hi] using hat

theorem message_inj {p q : List (BitVec 8)} (hlen : p.length = q.length)
    (h : message p = message q) : p = q := by
  induction p generalizing q with
  | nil => exact (List.eq_nil_of_length_eq_zero hlen.symm).symm
  | cons a p ih =>
      cases q with
      | nil => cases hlen
      | cons b q =>
          obtain ⟨hab, hpq⟩ := List.append_inj h (by simp [octetBits])
          rw [octetBits_inj hab, ih (Nat.succ.inj hlen) hpq]

theorem zipWith_xor_eq_false {xs ys : List Bool} (hlen : xs.length = ys.length)
    (h : true ∉ List.zipWith xor xs ys) : xs = ys := by
  induction xs generalizing ys with
  | nil => exact (List.eq_nil_of_length_eq_zero hlen.symm).symm
  | cons x xs ih =>
      cases ys with
      | nil => cases hlen
      | cons y ys =>
          rw [List.zipWith_cons_cons, List.mem_cons, not_or] at h
          have hxy : x = y := by
            have hne := h.1
            cases x <;> cases y <;> simp_all
          rw [hxy, ih (Nat.succ.inj hlen) h.2]

theorem true_mem_flips {p q : List (BitVec 8)} (hlen : p.length = q.length) (hne : p ≠ q) :
    true ∈ flips p q := by
  by_contra h
  refine hne (message_inj hlen (zipWith_xor_eq_false ?_ h))
  rw [message_length, message_length, hlen]

/-! ## Bursts -/

theorem bitsIn_replicate (k : Nat) (c : BitVec w) :
    bitsIn P c (List.replicate k false) = bits P k c := by
  induction k generalizing c with
  | zero => rfl
  | succ k ih =>
      have hbit : bitIn P c false = bit P c := by simp [bitIn]
      show bitsIn P (bitIn P c false) (List.replicate k false) = _
      rw [hbit, ih, bits]

/-- No bit is lost on a register with the last term. -/
theorem bit_eq_zero (hP : P.getLsbD (w - 1) = true) {c : BitVec w} (h : bit P c = 0#w) :
    c = 0#w := by
  have hlow : c.getLsbD 0 = false := by
    by_contra hset
    rw [Bool.not_eq_false] at hset
    rw [bit, if_pos hset] at h
    have htop := congrArg (fun v => v.getLsbD (w - 1)) h
    simp only [BitVec.getLsbD_xor, BitVec.getLsbD_ushiftRight, hP, BitVec.getLsbD_zero] at htop
    rw [BitVec.getLsbD_of_ge c (1 + (w - 1)) (by omega)] at htop
    cases htop
  rw [bit, hlow, if_neg Bool.false_ne_true] at h
  apply BitVec.eq_of_getLsbD_eq
  intro i hi
  rw [BitVec.getLsbD_zero]
  cases i with
  | zero => exact hlow
  | succ i =>
      have hat := congrArg (fun v => v.getLsbD i) h
      simpa [BitVec.getLsbD_ushiftRight, Nat.add_comm] using hat

theorem bits_eq_zero (hP : P.getLsbD (w - 1) = true) {k : Nat} {c : BitVec w}
    (h : bits P k c = 0#w) : c = 0#w := by
  induction k generalizing c with
  | zero => exact h
  | succ k ih => exact bit_eq_zero hP (ih h)

/-- The messages differ in no more than `n` bits in a row. -/
def Burst (n : Nat) (p q : List (BitVec 8)) : Prop :=
  ∃ j, ∀ i, (flips p q)[i]? = some true → j ≤ i ∧ i < j + n

theorem eq_replicate {xs : List Bool} (h : true ∉ xs) : xs = List.replicate xs.length false :=
  List.eq_replicate_of_mem fun x hx => by
    cases x with
    | false => rfl
    | true => exact absurd hx h

theorem bitsIn_burst (hP : P.getLsbD (w - 1) = true) {e : List Bool} {j : Nat}
    (he : ∀ i, e[i]? = some true → j ≤ i ∧ i < j + w) (h : bitsIn P 0#w e = 0#w) :
    true ∉ e := by
  have hbefore : true ∉ e.take j := fun hmem => by
    obtain ⟨i, hi⟩ := List.mem_iff_getElem?.mp hmem
    rw [List.getElem?_take] at hi
    split at hi
    · have hin := he i hi
      omega
    · cases hi
  have hafter : true ∉ (e.drop j).drop w := fun hmem => by
    obtain ⟨i, hi⟩ := List.mem_iff_getElem?.mp hmem
    rw [List.drop_drop, List.getElem?_drop] at hi
    have hin := he _ hi
    omega
  -- the bits before the burst leave a register of zeros, those after it lose nothing
  have hzero : bitsIn P 0#w (e.take j) = 0#w := by
    rw [eq_replicate hbefore, bitsIn_replicate]
    exact bits_of_zero _
  have hburst : bitsIn P 0#w ((e.drop j).take w) = 0#w := by
    have hsplit := h
    rw [← List.take_append_drop j e, bitsIn_append, hzero,
      ← List.take_append_drop w (e.drop j), bitsIn_append, eq_replicate hafter,
      bitsIn_replicate] at hsplit
    exact bits_eq_zero hP hsplit
  have hlen : ((e.drop j).take w).length ≤ w := List.length_take_le ..
  rw [bitsIn_word _ hlen, BitVec.zero_xor] at hburst
  have hword := bits_eq_zero hP hburst
  have hin : true ∉ (e.drop j).take w := fun hmem => by
    obtain ⟨i, hi⟩ := List.mem_iff_getElem?.mp hmem
    have hat := getLsbD_word hlen i
    rw [hword, BitVec.getLsbD_zero, List.getD_eq_getElem?_getD, hi] at hat
    cases hat
  rw [← List.take_append_drop j e, ← List.take_append_drop w (e.drop j), List.mem_append,
    List.mem_append]
  exact fun hmem => hmem.elim hbefore fun hmem => hmem.elim hin hafter

/-- **Bursts.** -/
theorem burst_detected (hw : 8 ≤ w) (hP : P.getLsbD (w - 1) = true) (c : BitVec w)
    {p q : List (BitVec 8)} (hlen : p.length = q.length) (hne : p ≠ q) (h : Burst w p q) :
    feed P c p ≠ feed P c q := by
  intro heq
  obtain ⟨j, hj⟩ := h
  refine bitsIn_burst hP hj ?_ (true_mem_flips hlen hne)
  rw [← feed_xor_feed hw c hlen, heq, BitVec.xor_self]

/-! ## Parity -/

/-- Whether an odd number of the bits is set. -/
def odd (xs : List Bool) : Bool := xs.foldr xor false

def parity (c : BitVec w) : Bool := odd ((List.range w).map c.getLsbD)

theorem odd_cons (x : Bool) (xs : List Bool) : odd (x :: xs) = (x ^^ odd xs) := rfl

theorem odd_append (xs ys : List Bool) : odd (xs ++ ys) = (odd xs ^^ odd ys) := by
  induction xs with
  | nil => simp [odd]
  | cons x xs ih =>
      rw [List.cons_append, odd_cons, ih, ← Bool.xor_assoc, odd_cons]

theorem odd_eq_count (xs : List Bool) : odd xs = decide (xs.count true % 2 = 1) := by
  induction xs with
  | nil => rfl
  | cons x xs ih =>
      rw [odd_cons, ih, List.count_cons]
      cases x with
      | false => simp
      | true =>
          rw [Bool.true_xor, ← decide_not, decide_eq_decide]
          simp only [beq_self_eq_true, if_true]
          omega

theorem parity_xor (a b : BitVec w) : parity (a ^^^ b) = (parity a ^^ parity b) := by
  have hfold : ∀ is : List Nat, odd (is.map (a ^^^ b).getLsbD) =
      (odd (is.map a.getLsbD) ^^ odd (is.map b.getLsbD)) := by
    intro is
    induction is with
    | nil => rfl
    | cons i is ih =>
        rw [List.map_cons, List.map_cons, List.map_cons, odd_cons, odd_cons, odd_cons, ih,
          BitVec.getLsbD_xor, Bool.xor_assoc, Bool.xor_assoc]
        congr 1
        rw [← Bool.xor_assoc, ← Bool.xor_assoc, Bool.xor_comm (b.getLsbD i)]
  exact hfold _

/-- A bit leaves at the low end. -/
theorem parity_shift (c : BitVec w) : parity (c >>> 1) = (c.getLsbD 0 ^^ parity c) := by
  have hlow : odd ((List.range (w + 1)).map c.getLsbD) = (c.getLsbD 0 ^^ parity (c >>> 1)) := by
    have hup : c.getLsbD ∘ Nat.succ = (c >>> 1).getLsbD := by
      funext i
      rw [BitVec.getLsbD_ushiftRight, Nat.add_comm 1 i]
      rfl
    rw [List.range_succ_eq_map, List.map_cons, List.map_map, odd_cons, hup, parity]
  have hhigh : odd ((List.range (w + 1)).map c.getLsbD) = parity c := by
    rw [List.range_succ, List.map_append, odd_append]
    simp [odd, parity]
  rw [← hhigh, hlow, ← Bool.xor_assoc, Bool.xor_self, Bool.false_xor]

/-- With the first term the polynomial has an even number of them, so a turn
of the division changes an even number of bits. -/
theorem parity_bit (hP : parity P = true) (c : BitVec w) : parity (bit P c) = parity c := by
  rw [bit]
  cases hc : c.getLsbD 0 with
  | false => rw [if_neg Bool.false_ne_true, parity_shift, hc, Bool.false_xor]
  | true => rw [if_pos rfl, parity_xor, parity_shift, hc, hP, Bool.true_xor, Bool.xor_true,
      Bool.not_not]

theorem parity_ofBool (hw : 0 < w) (x : Bool) :
    parity ((BitVec.ofBool x).setWidth w) = x := by
  obtain ⟨w, rfl⟩ := Nat.exists_eq_succ_of_ne_zero (Nat.ne_of_gt hw)
  have hrest : ∀ is : List Nat, odd (is.map fun _ => false) = false := by
    intro is
    induction is with
    | nil => rfl
    | cons i is ih => rw [List.map_cons, odd_cons, ih, Bool.xor_false]
  have hup : ((BitVec.ofBool x).setWidth (w + 1)).getLsbD ∘ Nat.succ = fun _ => false := by
    funext i
    rw [Function.comp_apply, getLsbD_ofBool x _ hw, decide_eq_false (Nat.succ_ne_zero i),
      Bool.false_and]
  rw [parity, List.range_succ_eq_map, List.map_cons, List.map_map, odd_cons, hup, hrest,
    getLsbD_ofBool x 0 hw, Bool.xor_false, decide_eq_true rfl, Bool.true_and]

theorem parity_bitsIn (hw : 0 < w) (hP : parity P = true) (c : BitVec w) (xs : List Bool) :
    parity (bitsIn P c xs) = (parity c ^^ odd xs) := by
  induction xs generalizing c with
  | nil => exact (Bool.xor_false _).symm
  | cons x xs ih =>
      show parity (bitsIn P (bitIn P c x) xs) = _
      rw [ih, bitIn, parity_bit hP, parity_xor, parity_ofBool hw, odd_cons, Bool.xor_assoc]

/-- **Odd numbers of wrong bits.** -/
theorem odd_detected (hw : 8 ≤ w) (hP : parity P = true) (c : BitVec w) {p q : List (BitVec 8)}
    (hlen : p.length = q.length) (hodd : (flips p q).count true % 2 = 1) :
    feed P c p ≠ feed P c q := by
  intro heq
  have hzero : bitsIn P 0#w (flips p q) = 0#w := by
    rw [← feed_xor_feed hw c hlen, heq, BitVec.xor_self]
  have hparity := parity_bitsIn (by omega) hP 0#w (flips p q)
  rw [hzero, odd_eq_count, decide_eq_true hodd, Bool.xor_true] at hparity
  cases hpar : parity (0#w) with
  | false => rw [hpar] at hparity; cases hparity
  | true => rw [hpar] at hparity; cases hparity

end MiscTools.Crc
