import Mathlib.Algebra.Group.Nat.Defs
import Mathlib.Data.List.Basic

/-!
# Base64

Three bytes are one number of 24 bits, and its four digits to base 64
are their encoding: `bits` and `digit` go there, `num` and `byte` come
back. `encode` is the padded encoding over an arbitrary alphabet, and
`Encodes e bs` is the grammar of encoded texts together with the bytes
they stand for.

The last section computes digits and bytes by shifts and masks, the way
programs do.
-/

namespace MiscTools

namespace Base64

universe u

/-- Sixty-four different characters and a pad that is none of them. -/
structure Alphabet (α : Type u) where
  char : Fin 64 → α
  pad : α
  injective : ∀ v w, char v = char w → v = w
  char_ne_pad : ∀ v, char v ≠ pad

/-! ## Bytes and digits -/

/-- Three bytes as one number. -/
def bits (a b c : UInt8) : Nat := a.toNat * 256 ^ 2 + b.toNat * 256 + c.toNat

/-- The digit of weight `64 ^ k`. -/
def digit (n k : Nat) : Fin 64 := ⟨n / 64 ^ k % 64, Nat.mod_lt _ (by decide)⟩

/-- Four digits as one number. -/
def num (w x y z : Fin 64) : Nat := w.val * 64 ^ 3 + x.val * 64 ^ 2 + y.val * 64 + z.val

/-- The byte of weight `256 ^ k`. -/
def byte (n k : Nat) : UInt8 := UInt8.ofNat (n / 256 ^ k)

theorem num_digit (a b c : UInt8) :
    num (digit (bits a b c) 3) (digit (bits a b c) 2) (digit (bits a b c) 1)
      (digit (bits a b c) 0) = bits a b c := by
  have ha := a.toNat_lt
  have hb := b.toNat_lt
  have hc := c.toNat_lt
  simp only [num, digit, bits]
  omega

/-- Two digits are enough for one byte. -/
theorem num_digit_one (a : UInt8) :
    num (digit (bits a 0 0) 3) (digit (bits a 0 0) 2) 0 0 = bits a 0 0 := by
  have ha := a.toNat_lt
  simp only [num, digit, bits, UInt8.toNat_zero, Fin.val_zero]
  omega

/-- Three digits are enough for two bytes. -/
theorem num_digit_two (a b : UInt8) :
    num (digit (bits a b 0) 3) (digit (bits a b 0) 2) (digit (bits a b 0) 1) 0
      = bits a b 0 := by
  have ha := a.toNat_lt
  have hb := b.toNat_lt
  simp only [num, digit, bits, UInt8.toNat_zero, Fin.val_zero]
  omega

theorem byte_bits (a b c : UInt8) :
    byte (bits a b c) 2 = a ∧ byte (bits a b c) 1 = b ∧ byte (bits a b c) 0 = c := by
  have ha := a.toNat_lt
  have hb := b.toNat_lt
  have hc := c.toNat_lt
  refine ⟨?_, ?_, ?_⟩ <;> apply UInt8.toNat_inj.mp <;>
    simp only [byte, bits, UInt8.toNat_ofNat'] <;> omega

/-! ## The encoding and its grammar -/

section

variable {α : Type u} (A : Alphabet α)

def encode : List UInt8 → List α
  | [] => []
  | [a] => [A.char (digit (bits a 0 0) 3), A.char (digit (bits a 0 0) 2), A.pad, A.pad]
  | [a, b] =>
      [A.char (digit (bits a b 0) 3), A.char (digit (bits a b 0) 2),
        A.char (digit (bits a b 0) 1), A.pad]
  | a :: b :: c :: bs =>
      A.char (digit (bits a b c) 3) :: A.char (digit (bits a b c) 2)
        :: A.char (digit (bits a b c) 1) :: A.char (digit (bits a b c) 0) :: encode bs

/-- The text `e` is well formed and stands for `bs`. The bits of the
last group that no byte needs are not read. -/
inductive Encodes : List α → List UInt8 → Prop
  | nil : Encodes [] []
  | one (w x : Fin 64) :
      Encodes [A.char w, A.char x, A.pad, A.pad] [byte (num w x 0 0) 2]
  | two (w x y : Fin 64) :
      Encodes [A.char w, A.char x, A.char y, A.pad]
        [byte (num w x y 0) 2, byte (num w x y 0) 1]
  | group (w x y z : Fin 64) {e : List α} {bs : List UInt8} (h : Encodes e bs) :
      Encodes (A.char w :: A.char x :: A.char y :: A.char z :: e)
        (byte (num w x y z) 2 :: byte (num w x y z) 1 :: byte (num w x y z) 0 :: bs)

/-- Whole groups of characters, with pads at the end only and two of
them at most. -/
def WellFormed (e : List α) : Prop :=
  e.length % 4 = 0
    ∧ ∃ p k, k ≤ 2 ∧ e = p ++ List.replicate k A.pad ∧ ∀ c ∈ p, ∃ v, c = A.char v

theorem length_encode (bs : List UInt8) :
    (encode A bs).length = 4 * ((bs.length + 2) / 3) := by
  induction bs using encode.induct with
  | case1 => rfl
  | case2 a => simp [encode]
  | case3 a b => simp [encode]
  | case4 a b c bs ih =>
      simp only [encode, List.length_cons, ih]
      omega

/-- What `encode` writes is well formed and stands for the bytes it was
given. -/
theorem encode_encodes (bs : List UInt8) : Encodes A (encode A bs) bs := by
  induction bs using encode.induct with
  | case1 => exact Encodes.nil
  | case2 a =>
      have h := Encodes.one (A := A) (digit (bits a 0 0) 3) (digit (bits a 0 0) 2)
      rwa [num_digit_one, (byte_bits a 0 0).1] at h
  | case3 a b =>
      have h := Encodes.two (A := A) (digit (bits a b 0) 3) (digit (bits a b 0) 2)
        (digit (bits a b 0) 1)
      obtain ⟨h1, h2, -⟩ := byte_bits a b 0
      rwa [num_digit_two, h1, h2] at h
  | case4 a b c bs ih =>
      have h := Encodes.group (A := A) (digit (bits a b c) 3) (digit (bits a b c) 2)
        (digit (bits a b c) 1) (digit (bits a b c) 0) ih
      obtain ⟨h1, h2, h3⟩ := byte_bits a b c
      rwa [num_digit, h1, h2, h3] at h

variable {A}

/-- Three bytes at most stand behind each group of four characters. -/
theorem Encodes.length {e : List α} {bs : List UInt8} (h : Encodes A e bs) :
    e.length % 4 = 0 ∧ bs.length ≤ 3 * (e.length / 4) := by
  induction h with
  | nil => simp
  | one w x => simp
  | two w x y => simp
  | group w x y z h ih =>
      simp only [List.length_cons]
      omega

theorem Encodes.mem {e : List α} {bs : List UInt8} (h : Encodes A e bs) {c : α} (hc : c ∈ e) :
    c = A.pad ∨ ∃ v, c = A.char v := by
  induction h with
  | nil => cases hc
  | one w x =>
      simp only [List.mem_cons, List.not_mem_nil, or_false] at hc
      rcases hc with h | h | h | h
      · exact Or.inr ⟨w, h⟩
      · exact Or.inr ⟨x, h⟩
      · exact Or.inl h
      · exact Or.inl h
  | two w x y =>
      simp only [List.mem_cons, List.not_mem_nil, or_false] at hc
      rcases hc with h | h | h | h
      · exact Or.inr ⟨w, h⟩
      · exact Or.inr ⟨x, h⟩
      · exact Or.inr ⟨y, h⟩
      · exact Or.inl h
  | group w x y z h ih =>
      simp only [List.mem_cons] at hc
      rcases hc with h | h | h | h | h
      · exact Or.inr ⟨w, h⟩
      · exact Or.inr ⟨x, h⟩
      · exact Or.inr ⟨y, h⟩
      · exact Or.inr ⟨z, h⟩
      · exact ih h

theorem Encodes.wellFormed {e : List α} {bs : List UInt8} (h : Encodes A e bs) :
    WellFormed A e := by
  refine ⟨h.length.1, ?_⟩
  induction h with
  | nil => exact ⟨[], 0, by omega, rfl, by simp⟩
  | one w x => exact ⟨[A.char w, A.char x], 2, by omega, rfl, by simp⟩
  | two w x y => exact ⟨[A.char w, A.char x, A.char y], 1, by omega, rfl, by simp⟩
  | group w x y z h ih =>
      obtain ⟨p, k, hk, rfl, hp⟩ := ih
      refine ⟨A.char w :: A.char x :: A.char y :: A.char z :: p, k, hk, rfl, ?_⟩
      intro c hc
      simp only [List.mem_cons] at hc
      rcases hc with h | h | h | h | h
      · exact ⟨w, h⟩
      · exact ⟨x, h⟩
      · exact ⟨y, h⟩
      · exact ⟨z, h⟩
      · exact hp c h

/-- Four characters at a time; the pads decide how the last group
reads. -/
theorem encodes_of_chars {k : Nat} (hk : k ≤ 2) :
    ∀ p : List α, (∀ c ∈ p, ∃ v, c = A.char v) → (p.length + k) % 4 = 0 →
      ∃ bs, Encodes A (p ++ List.replicate k A.pad) bs
  | [], _, hlen => by
      rw [List.length_nil, Nat.zero_add] at hlen
      obtain rfl : k = 0 := by omega
      exact ⟨_, Encodes.nil⟩
  | [_], _, hlen => by
      rw [List.length_singleton] at hlen
      omega
  | [c0, c1], hp, hlen => by
      simp only [List.length_cons, List.length_nil] at hlen
      obtain rfl : k = 2 := by omega
      obtain ⟨w, rfl⟩ := hp c0 (by simp)
      obtain ⟨x, rfl⟩ := hp c1 (by simp)
      exact ⟨_, Encodes.one w x⟩
  | [c0, c1, c2], hp, hlen => by
      simp only [List.length_cons, List.length_nil] at hlen
      obtain rfl : k = 1 := by omega
      obtain ⟨w, rfl⟩ := hp c0 (by simp)
      obtain ⟨x, rfl⟩ := hp c1 (by simp)
      obtain ⟨y, rfl⟩ := hp c2 (by simp)
      exact ⟨_, Encodes.two w x y⟩
  | c0 :: c1 :: c2 :: c3 :: p, hp, hlen => by
      simp only [List.length_cons] at hlen
      obtain ⟨w, rfl⟩ := hp c0 (by simp)
      obtain ⟨x, rfl⟩ := hp c1 (by simp)
      obtain ⟨y, rfl⟩ := hp c2 (by simp)
      obtain ⟨z, rfl⟩ := hp c3 (by simp)
      obtain ⟨bs, h⟩ := encodes_of_chars hk p (fun c hc => hp c (by simp [hc])) (by omega)
      exact ⟨_, Encodes.group w x y z h⟩

/-- The grammar in closed form. -/
theorem wellFormed_iff {e : List α} : WellFormed A e ↔ ∃ bs, Encodes A e bs := by
  constructor
  · rintro ⟨hlen, p, k, hk, rfl, hp⟩
    rw [List.length_append, List.length_replicate] at hlen
    exact encodes_of_chars hk p hp hlen
  · rintro ⟨bs, h⟩
    exact h.wellFormed

end

/-! ## Shifts and masks -/

theorem toNat_shr {a k : UInt8} (h : k.toNat < 8) :
    (a >>> k).toNat = a.toNat / 2 ^ k.toNat := by
  rw [UInt8.toNat_shiftRight, Nat.mod_eq_of_lt h, Nat.shiftRight_eq_div_pow]

/-- Bits put next to bits below the shift. The high ones are lost. -/
theorem toNat_shl_or {a b k : UInt8} (hk : k.toNat < 8) (hb : b.toNat < 2 ^ k.toNat) :
    (a <<< k ||| b).toNat = a.toNat % 2 ^ (8 - k.toNat) * 2 ^ k.toNat + b.toNat := by
  have hpow : 2 ^ 8 = 2 ^ (8 - k.toNat) * 2 ^ k.toNat := by
    rw [← Nat.pow_add, Nat.sub_add_cancel (Nat.le_of_lt hk)]
  rw [UInt8.toNat_or, UInt8.toNat_shiftLeft, Nat.mod_eq_of_lt hk, Nat.shiftLeft_eq, hpow,
    Nat.mul_mod_mul_right, ← Nat.shiftLeft_eq, ← Nat.shiftLeft_add_eq_or_of_lt hb,
    Nat.shiftLeft_eq]

theorem toNat_and_mask {a m : UInt8} {k : Nat} (h : m.toNat = 2 ^ k - 1) :
    (a &&& m).toNat = a.toNat % 2 ^ k := by
  rw [UInt8.toNat_and, h, Nat.and_two_pow_sub_one_eq_mod]

theorem toNat_shl_or_shr {a b k r : UInt8} (hk : k.toNat < 8) (hr : r.toNat < 8)
    (hb : b.toNat < 2 ^ k.toNat * 2 ^ r.toNat) :
    (a <<< k ||| b >>> r).toNat
      = a.toNat % 2 ^ (8 - k.toNat) * 2 ^ k.toNat + b.toNat / 2 ^ r.toNat := by
  rw [toNat_shl_or hk, toNat_shr hr]
  rw [toNat_shr hr]
  exact Nat.div_lt_of_lt_mul (by rwa [Nat.mul_comm] at hb)

/-- The digits of three bytes. -/
theorem digits_eq (a b c : UInt8) :
    (a >>> 2).toNat = (digit (bits a b c) 3).val
      ∧ ((a &&& 3) <<< 4 ||| b >>> 4).toNat = (digit (bits a b c) 2).val
      ∧ ((b &&& 0xF) <<< 2 ||| c >>> 6).toNat = (digit (bits a b c) 1).val
      ∧ (c &&& 0x3F).toNat = (digit (bits a b c) 0).val := by
  have ha := a.toNat_lt
  have hb := b.toNat_lt
  have hc := c.toNat_lt
  have h3 : (a >>> 2).toNat = a.toNat / 4 := toNat_shr (by decide)
  have h2 : ((a &&& 3) <<< 4 ||| b >>> 4).toNat = (a &&& 3).toNat % 16 * 16 + b.toNat / 16 :=
    toNat_shl_or_shr (by decide) (by decide) hb
  have h1 : ((b &&& 0xF) <<< 2 ||| c >>> 6).toNat = (b &&& 0xF).toNat % 64 * 4 + c.toNat / 64 :=
    toNat_shl_or_shr (by decide) (by decide) hc
  have hm2 : (a &&& 3).toNat = a.toNat % 4 := toNat_and_mask (k := 2) rfl
  have hm1 : (b &&& 0xF).toNat = b.toNat % 16 := toNat_and_mask (k := 4) rfl
  have hm0 : (c &&& 0x3F).toNat = c.toNat % 64 := toNat_and_mask (k := 6) rfl
  rw [h3, h2, h1, hm2, hm1, hm0]
  simp only [digit, bits]
  omega

/-- A digit as a byte. -/
def sextet (v : Fin 64) : UInt8 := UInt8.ofNat v.val

theorem toNat_sextet (v : Fin 64) : (sextet v).toNat = v.val := by
  rw [sextet, UInt8.toNat_ofNat']
  omega

/-- The bytes of four digits. -/
theorem bytes_eq (w x y z : Fin 64) :
    sextet w <<< 2 ||| sextet x >>> 4 = byte (num w x y z) 2
      ∧ sextet x <<< 4 ||| sextet y >>> 2 = byte (num w x y z) 1
      ∧ sextet y <<< 6 ||| sextet z = byte (num w x y z) 0 := by
  have hw := toNat_sextet w
  have hx := toNat_sextet x
  have hy := toNat_sextet y
  have hz := toNat_sextet z
  have h2 : (sextet w <<< 2 ||| sextet x >>> 4).toNat
      = (sextet w).toNat % 64 * 4 + (sextet x).toNat / 16 :=
    toNat_shl_or_shr (by decide) (by decide) (by rw [hx]; exact x.isLt)
  have h1 : (sextet x <<< 4 ||| sextet y >>> 2).toNat
      = (sextet x).toNat % 16 * 16 + (sextet y).toNat / 4 :=
    toNat_shl_or_shr (by decide) (by decide) (by rw [hy]; exact y.isLt)
  have h0 : (sextet y <<< 6 ||| sextet z).toNat
      = (sextet y).toNat % 4 * 64 + (sextet z).toNat :=
    toNat_shl_or (by decide) (by rw [hz]; exact z.isLt)
  refine ⟨?_, ?_, ?_⟩ <;> apply UInt8.toNat_inj.mp
  · rw [h2, hw, hx]
    simp only [byte, num, UInt8.toNat_ofNat']
    omega
  · rw [h1, hx, hy]
    simp only [byte, num, UInt8.toNat_ofNat']
    omega
  · rw [h0, hy, hz]
    simp only [byte, num, UInt8.toNat_ofNat']
    omega

end Base64

end MiscTools
