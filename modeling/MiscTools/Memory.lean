import Mathlib.Algebra.Group.Nat.Defs
import Mathlib.Tactic.SplitIfs

/-!
# Octets at 64-bit addresses

A flat memory in which addresses wrap around, with little-endian loads and
stores of up to eight octets. `Within a n b` says that `b` is one of the `n`
addresses from `a` on; what a store does and leaves alone is said with it, so
that two accesses are apart when no address is within both.

`clear` sets a stretch of memory to zero. It is what a loop of stores of
zero comes to, whatever the width of the stores (`store_zero`, `clear_clear`).
-/

namespace MiscTools.Memory

abbrev Word := BitVec 64

abbrev Mem := Word → BitVec 8

def Within (a : Word) (n : Nat) (b : Word) : Prop := (b - a).toNat < n

instance (a : Word) (n : Nat) (b : Word) : Decidable (Within a n b) :=
  inferInstanceAs (Decidable ((b - a).toNat < n))

/-- No address is in both stretches. -/
def Apart (a : Word) (n : Nat) (b : Word) (k : Nat) : Prop := ∀ x, Within a n x → ¬Within b k x

/-- The `n` lowest octets of `v`, the lowest first. -/
def store (m : Mem) (a : Word) (n : Nat) {w : Nat} (v : BitVec w) : Mem :=
  fun b => if Within a n b then v.extractLsb' (8 * (b - a).toNat) 8 else m b

def load (m : Mem) (a : Word) : Nat → Word
  | 0 => 0#64
  | n + 1 => (load m (a + 1#64) n) <<< 8 ||| (m a).setWidth 64

def clear (m : Mem) (a : Word) (n : Nat) : Mem :=
  fun b => if Within a n b then 0#8 else m b

variable {m m' : Mem} {a b x : Word} {n k : Nat}

/-! ## Stretches -/

theorem within_self (a : Word) (n : Nat) : Within a (n + 1) a := by
  unfold Within
  rw [BitVec.sub_self]
  exact Nat.succ_pos n

theorem Within.of_succ (h : Within (a + 1#64) n b) : Within a (n + 1) b := by
  unfold Within at *
  bv_omega

theorem Within.mono (h : Within a n b) (hle : n ≤ k) : Within a k b :=
  Nat.lt_of_lt_of_le h hle

/-- A stretch split at `n`. -/
theorem within_add_iff (h : n + k ≤ 2 ^ 64) :
    Within a (n + k) b ↔ Within a n b ∨ Within (a + BitVec.ofNat 64 n) k b := by
  unfold Within
  by_cases hn : n = 2 ^ 64
  · have := (b - a).isLt
    omega
  · have hoff : (BitVec.ofNat 64 n).toNat = n := by
      rw [BitVec.toNat_ofNat]
      omega
    generalize BitVec.ofNat 64 n = d at hoff
    bv_omega

theorem Within.of_offset {l : Nat} (k : Nat) (h : Within (a + BitVec.ofNat 64 k) n x)
    (hle : k + n ≤ l) (hmax : k + n ≤ 2 ^ 64) : Within a l x :=
  ((within_add_iff hmax).mpr (.inr h)).mono hle

theorem Apart.symm (h : Apart a n b k) : Apart b k a n := fun x hb ha => h x ha hb

theorem apart_of_le (h : a.toNat + n ≤ b.toNat) (hk : b.toNat + k ≤ 2 ^ 64) : Apart a n b k := by
  unfold Apart Within
  intro x hx
  bv_omega

/-- Parts of apart stretches are apart. -/
theorem Apart.mono {a' b' : Word} {n' k' : Nat} (h : Apart a n b k)
    (ha : ∀ x, Within a' n' x → Within a n x) (hb : ∀ x, Within b' k' x → Within b k x) :
    Apart a' n' b' k' :=
  fun x h' hk' => h x (ha x h') (hb x hk')

/-! ## Slots of a stack

Slots are given by how far below `sp` they begin. -/

/-- The slot at `k` lies in the stretch at `l`. -/
theorem within_slot {sp : Word} {k l n n' : Nat} (hkl : k ≤ l) (hn : n + l ≤ n' + k)
    (hl : l < 2 ^ 64) (h : Within (sp - BitVec.ofNat 64 k) n x) :
    Within (sp - BitVec.ofNat 64 l) n' x := by
  unfold Within at *
  have hk : (BitVec.ofNat 64 k).toNat = k := by
    rw [BitVec.toNat_ofNat]
    omega
  have hl : (BitVec.ofNat 64 l).toNat = l := by
    rw [BitVec.toNat_ofNat]
    omega
  generalize BitVec.ofNat 64 k = d at hk h
  generalize BitVec.ofNat 64 l = e at hl
  bv_omega

/-- The slot at `k` ends before the one at `l` begins. -/
theorem apart_slots {sp : Word} {k l n n' : Nat} (hkl : l + n ≤ k) (hk : k + n' < 2 ^ 64) :
    Apart (sp - BitVec.ofNat 64 k) n (sp - BitVec.ofNat 64 l) n' := by
  unfold Apart Within
  intro x h
  have hk : (BitVec.ofNat 64 k).toNat = k := by
    rw [BitVec.toNat_ofNat]
    omega
  have hl : (BitVec.ofNat 64 l).toNat = l := by
    rw [BitVec.toNat_ofNat]
    omega
  generalize BitVec.ofNat 64 k = d at hk h
  generalize BitVec.ofNat 64 l = e at hl
  bv_omega

theorem slot_sub {sp : Word} (k n : Nat) :
    sp - BitVec.ofNat 64 k - BitVec.ofNat 64 n = sp - BitVec.ofNat 64 (k + n) := by
  rw [BitVec.sub_sub, BitVec.ofNat_add]

theorem slot_add {sp : Word} (k n : Nat) :
    sp - BitVec.ofNat 64 (k + n) + BitVec.ofNat 64 n = sp - BitVec.ofNat 64 k := by
  rw [← slot_sub, BitVec.sub_add_cancel]

/-! ## Stores -/

theorem store_of_within {w : Nat} (v : BitVec w) (h : Within a n b) :
    store m a n v b = v.extractLsb' (8 * (b - a).toNat) 8 :=
  if_pos h

theorem store_of_not_within {w : Nat} (v : BitVec w) (h : ¬Within a n b) :
    store m a n v b = m b :=
  if_neg h

theorem store_zero (m : Mem) (a : Word) (n w : Nat) : store m a n (0#w) = clear m a n := by
  funext b
  unfold store clear
  congr 1
  ext i hi
  simp

/-! ## Cleared stretches -/

theorem clear_zero (m : Mem) (a : Word) : clear m a 0 = m := by
  funext b
  exact if_neg (Nat.not_lt_zero _)

/-- Clearing goes on where it has stopped. -/
theorem clear_clear (m : Mem) (a : Word) (h : n + k ≤ 2 ^ 64) :
    clear (clear m a n) (a + BitVec.ofNat 64 n) k = clear m a (n + k) := by
  funext b
  simp only [clear, within_add_iff h]
  split_ifs <;> simp_all

/-! ## Loads -/

theorem load_congr : ∀ {n : Nat} {a : Word}, (∀ b, Within a n b → m b = m' b) →
    load m a n = load m' a n := by
  intro n
  induction n with
  | zero => exact fun _ => rfl
  | succ n ih =>
      intro a h
      rw [load, load, h a (within_self a n), ih fun b hb => h b hb.of_succ]

theorem load_store_apart {w : Nat} (v : BitVec w) (h : Apart b k a n) :
    load (store m a n v) b k = load m b k :=
  load_congr fun x hx => store_of_not_within v (h x hx)

theorem load_clear_apart (h : Apart b k a n) : load (clear m a n) b k = load m b k :=
  load_congr fun x hx => if_neg (h x hx)

theorem getLsbD_load : ∀ {n : Nat} {a : Word} {i : Nat}, n ≤ 8 →
    (load m a n).getLsbD i =
      (decide (i < 8 * n) && (m (a + BitVec.ofNat 64 (i / 8))).getLsbD (i % 8)) := by
  intro n
  induction n with
  | zero => intro a i _; simp [load]
  | succ n ih =>
      intro a i hn
      rw [load, BitVec.getLsbD_or, BitVec.getLsbD_shiftLeft, BitVec.getLsbD_setWidth]
      by_cases hlow : i < 8
      · have hdiv : i / 8 = 0 := Nat.div_eq_of_lt hlow
        have hmod : i % 8 = i := Nat.mod_eq_of_lt hlow
        simp [hlow, hdiv, hmod, show i < 8 * (n + 1) by omega, show i < 64 by omega]
      · have hdiv : i / 8 = (i - 8) / 8 + 1 := by omega
        have hmod : i % 8 = (i - 8) % 8 := by omega
        have hnext : a + 1#64 + BitVec.ofNat 64 ((i - 8) / 8) = a + BitVec.ofNat 64 (i / 8) := by
          rw [hdiv, BitVec.ofNat_add, BitVec.add_assoc, BitVec.add_comm 1#64]
        have hhigh : (m a).getLsbD i = false := BitVec.getLsbD_of_ge _ _ (by omega)
        rw [ih (by omega), hnext, ← hmod, hhigh]
        by_cases hlt : i < 8 * (n + 1)
        · simp [hlow, hlt, show i - 8 < 8 * n by omega, show i < 64 by omega]
        · simp [hlt, show ¬i - 8 < 8 * n by omega]

/-- What has been stored is read back. -/
theorem load_store (m : Mem) (a : Word) {n w : Nat} (v : BitVec w) (hn : n ≤ 8)
    (hw : w = 8 * n) : load (store m a n v) a n = v.setWidth 64 := by
  apply BitVec.eq_of_getLsbD_eq
  intro i hi
  rw [getLsbD_load hn, BitVec.getLsbD_setWidth]
  by_cases hlt : i < 8 * n
  · have hoff : a + BitVec.ofNat 64 (i / 8) - a = BitVec.ofNat 64 (i / 8) := by
      rw [BitVec.add_comm, BitVec.add_sub_cancel]
    have hnat : (BitVec.ofNat 64 (i / 8)).toNat = i / 8 := by
      rw [BitVec.toNat_ofNat]
      omega
    have hin : Within a n (a + BitVec.ofNat 64 (i / 8)) := by
      unfold Within
      rw [hoff, hnat]
      omega
    rw [store_of_within v hin, hoff, hnat, BitVec.getLsbD_extractLsb']
    simp [hlt, hi, Nat.mod_lt, Nat.div_add_mod]
  · rw [BitVec.getLsbD_of_ge v i (by omega)]
    simp [hlt]

theorem load_store_word (m : Mem) (a v : Word) : load (store m a 8 v) a 8 = v := by
  rw [load_store m a v (Nat.le_refl 8) rfl, BitVec.setWidth_eq]

/-! ## Words in a row -/

/-- The words lie one after the other from `a` on. -/
def Holds (m : Mem) : Word → List Word → Prop
  | _, [] => True
  | a, v :: vs => load m a 8 = v ∧ Holds m (a + 8#64) vs

theorem within_tail {a x : Word} {n : Nat} (h : Within (a + 8#64) n x) : Within a (n + 8) x := by
  unfold Within at *
  bv_omega

theorem Holds.congr : ∀ {vs : List Word} {a : Word}, Holds m a vs →
    (∀ x, Within a (8 * vs.length) x → m' x = m x) → Holds m' a vs := by
  intro vs
  induction vs with
  | nil => exact fun _ _ => trivial
  | cons v vs ih =>
      intro a h heq
      have hlen : 8 * (v :: vs).length = 8 * vs.length + 8 := rfl
      rw [hlen] at heq
      refine ⟨?_, ih h.2 fun x hx => heq x (within_tail hx)⟩
      rw [← h.1]
      exact load_congr fun x hx => heq x (hx.mono (by omega))

theorem Holds.append : ∀ {vs ws : List Word} {a : Word},
    Holds m a (vs ++ ws) ↔ Holds m a vs ∧ Holds m (a + BitVec.ofNat 64 (8 * vs.length)) ws := by
  intro vs ws
  induction vs with
  | nil => intro a; simp [Holds]
  | cons v vs ih =>
      intro a
      have hnext : a + 8#64 + BitVec.ofNat 64 (8 * vs.length)
          = a + BitVec.ofNat 64 (8 * (v :: vs).length) := by
        rw [List.length_cons, Nat.mul_succ, Nat.add_comm, BitVec.ofNat_add, BitVec.add_assoc]
      rw [List.cons_append, Holds, Holds, ih, hnext, and_assoc]

/-- Where memory is zero. -/
theorem load_eq_zero : ∀ {n : Nat} {a : Word}, (∀ x, Within a n x → m x = 0#8) →
    load m a n = 0#64 := by
  intro n
  induction n with
  | zero => exact fun _ => rfl
  | succ n ih =>
      intro a h
      rw [load, h a (within_self a n), ih fun x hx => h x hx.of_succ]
      rfl

theorem holds_zeros : ∀ {n : Nat} {a : Word}, (∀ x, Within a (8 * n) x → m x = 0#8) →
    Holds m a (List.replicate n 0#64) := by
  intro n
  induction n with
  | zero => exact fun _ => trivial
  | succ n ih =>
      intro a h
      exact ⟨load_eq_zero fun x hx => h x (hx.mono (by omega)),
        ih fun x hx => h x (within_tail hx)⟩

/-- A word is put in front. -/
theorem Holds.push {vs : List Word} (v : Word) (h : Holds m a vs)
    (hlen : 8 * vs.length + 8 ≤ 2 ^ 64) : Holds (store m (a - 8#64) 8 v) (a - 8#64) (v :: vs) := by
  refine ⟨load_store_word m _ v, ?_⟩
  rw [BitVec.sub_add_cancel]
  refine h.congr fun x hx => store_of_not_within v ?_
  unfold Within at *
  bv_omega

/-! ## Memories that agree -/

/-- The two memories have the same octets on `P`. -/
def Agree (P : Word → Prop) (m m' : Mem) : Prop := ∀ a, P a → m a = m' a

section Agreement

variable {P : Word → Prop}

theorem Agree.refl (P : Word → Prop) (m : Mem) : Agree P m m := fun _ _ => rfl

theorem Agree.mono {Q : Word → Prop} (h : Agree P m m') (hle : ∀ a, Q a → P a) :
    Agree Q m m' :=
  fun a ha => h a (hle a ha)

theorem Agree.load (h : Agree P m m') (hP : ∀ x, Within a n x → P x) :
    load m a n = load m' a n :=
  load_congr fun x hx => h x (hP x hx)

theorem Agree.clear (h : Agree P m m') (a : Word) (n : Nat) :
    Agree P (clear m a n) (clear m' a n) := by
  intro x hx
  simp only [Memory.clear, h x hx]

/-- A store elsewhere is not seen. -/
theorem Agree.store_left {w : Nat} (h : Agree P m m') (v : BitVec w)
    (hoff : ∀ x, Within a n x → ¬P x) : Agree P (store m a n v) m' :=
  fun x hx => (store_of_not_within v fun hin => hoff x hin hx).trans (h x hx)

theorem Agree.clear_left (h : Agree P m m') (hoff : ∀ x, Within a n x → ¬P x) :
    Agree P (Memory.clear m a n) m' :=
  fun x hx => (if_neg fun hin => hoff x hin hx).trans (h x hx)

end Agreement

end MiscTools.Memory
