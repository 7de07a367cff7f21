import Mathlib.Algebra.Group.Nat.Defs
import MiscTools.Crc32

/-!
# CRC-32C in assembler

`crc32c_hw_byte` and `crc32c_hw` of `cpu_feature.c`, as they are compiled
for x86_64. The instructions are those `cpu_fi.c` has intrinsics for, so a
turn of either loop is a turn of a loop there. The counters are narrower:
`iquotient` is an `unsigned int`, and 2^32 words are 2^35 bytes.

The loops take in the first `covered len` bytes, which are all of them for
a length below 2^35 and never are from there on. The last byte of a longer
buffer can then have either of two values without being missed.
-/

namespace MiscTools.CpuFeature

open Crc (turns Feeds feed feed_take_add zeros)
open Crc32 (Sse42 crc32cPoly hwByte hwWord hwByte_feeds hwWord_feeds referenceCpu)

/-! ## The program -/

def crc32cHwByte (cpu : Sse42) (crc : BitVec 32) (data : List (BitVec 8)) (length : BitVec 64) :
    Option (BitVec 32) := do
  let (crc, _) ← turns (hwByte cpu) length.toNat crc data
  return crc

def crc32cHw (cpu : Sse42) (crc : BitVec 32) (p : List (BitVec 8)) (len : BitVec 64) :
    Option (BitVec 32) := do
  let iquotient := (len / 8#64).setWidth 32
  let iremainder := (len % 8#64).setWidth 32
  let (crc, ptmp) ← turns (hwWord cpu) iquotient.toNat crc p
  if iremainder ≠ 0#32 then
    crc32cHwByte cpu crc ptmp (iremainder.setWidth 64)
  else
    return crc

/-! ## What is taken in -/

/-- The words, as many as `iquotient` counts, and the rest. -/
def covered (len : BitVec 64) : Nat := 8 * (len.toNat / 8 % 2 ^ 32) + len.toNat % 8

theorem covered_le (len : BitVec 64) : covered len ≤ len.toNat := by
  unfold covered
  omega

theorem covered_eq_iff (len : BitVec 64) : covered len = len.toNat ↔ len.toNat < 2 ^ 35 := by
  unfold covered
  omega

theorem iquotient_toNat (len : BitVec 64) :
    ((len / 8#64).setWidth 32).toNat = len.toNat / 8 % 2 ^ 32 := by
  rw [BitVec.toNat_setWidth, BitVec.toNat_udiv]
  rfl

theorem iremainder_toNat (len : BitVec 64) :
    ((len % 8#64).setWidth 32).toNat = len.toNat % 8 := by
  rw [BitVec.toNat_setWidth, BitVec.toNat_umod]
  have hlt : len.toNat % 8 < 8 := Nat.mod_lt _ (by omega)
  exact Nat.mod_eq_of_lt (Nat.lt_trans hlt (by omega))

theorem crc32cHwByte_eq (cpu : Sse42) (crc : BitVec 32) {data : List (BitVec 8)}
    {length : BitVec 64} (h : length.toNat ≤ data.length) :
    crc32cHwByte cpu crc data length = some (feed crc32cPoly crc (data.take length.toNat)) := by
  have hloop := (hwByte_feeds cpu).turns length.toNat
  rw [Nat.one_mul] at hloop
  rw [crc32cHwByte, hloop crc data h]
  rfl

theorem crc32cHw_eq (cpu : Sse42) (crc : BitVec 32) {p : List (BitVec 8)} {len : BitVec 64}
    (h : covered len ≤ p.length) :
    crc32cHw cpu crc p len = some (feed crc32cPoly crc (p.take (covered len))) := by
  have hwords := (hwWord_feeds cpu).turns ((len / 8#64).setWidth 32).toNat crc p
  rw [iquotient_toNat] at hwords
  unfold covered at h ⊢
  rw [crc32cHw, iquotient_toNat, hwords (by omega), Option.bind_eq_bind, Option.bind_some]
  dsimp only
  by_cases hnone : (len % 8#64).setWidth 32 = 0#32
  · have hzero : len.toNat % 8 = 0 := by
      rw [← iremainder_toNat, hnone]
      rfl
    simp only [hnone, ne_eq, not_true_eq_false, if_false, Option.pure_def, hzero, Nat.add_zero]
  · have htail : (((len % 8#64).setWidth 32).setWidth 64).toNat = len.toNat % 8 := by
      rw [Crc32.toNat_size, iremainder_toNat]
    have hrest : len.toNat % 8 ≤ (p.drop (8 * (len.toNat / 8 % 2 ^ 32))).length := by
      rw [List.length_drop]
      omega
    rw [if_pos hnone, crc32cHwByte_eq cpu _ (by rwa [htail]), htail, feed_take_add]

/-! ## Buffers that are too long -/

/-- A byte is not lost on the register. -/
theorem byte_zero_ne_one (c : BitVec 32) :
    Crc.byte crc32cPoly c 0#8 ≠ Crc.byte crc32cPoly c 1#8 := by
  intro h
  have hone : zeros crc32cPoly 1 1#32 ≠ 0#32 := by decide +kernel
  have hzero : Crc.byte crc32cPoly c 0#8 = zeros crc32cPoly 1 c ^^^ zeros crc32cPoly 1 0#32 :=
    Crc.zeros_xor ..
  have hset : Crc.byte crc32cPoly c 1#8 = zeros crc32cPoly 1 c ^^^ zeros crc32cPoly 1 1#32 :=
    Crc.zeros_xor ..
  rw [hzero, hset, BitVec.xor_right_inj, Crc.zeros_of_zero] at h
  exact hone h.symm

/-- `n` zero bytes and one that is given. -/
def endingIn (n : Nat) (b : BitVec 8) : List (BitVec 8) := List.replicate n 0#8 ++ [b]

theorem endingIn_length (n : Nat) (b : BitVec 8) : (endingIn n b).length = n + 1 := by
  rw [endingIn, List.length_append, List.length_replicate, List.length_singleton]

theorem feed_endingIn (crc : BitVec 32) (n : Nat) (b : BitVec 8) :
    feed crc32cPoly crc (endingIn n b) =
      Crc.byte crc32cPoly (feed crc32cPoly crc (List.replicate n 0#8)) b :=
  Crc.feed_append ..

theorem take_endingIn {k n : Nat} (h : k ≤ n) (b : BitVec 8) :
    (endingIn n b).take k = (List.replicate n 0#8).take k :=
  List.take_append_of_le_length (by rwa [List.length_replicate])

/-- **The assembler covers buffers below 32 GiB.** For no longer length does
it return the checksum of every buffer. -/
theorem crc32cHw_whole_iff (cpu : Sse42) (crc : BitVec 32) (len : BitVec 64) :
    (∀ p : List (BitVec 8), p.length = len.toNat →
      crc32cHw cpu crc p len = some (feed crc32cPoly crc p)) ↔ len.toNat < 2 ^ 35 := by
  have hle := covered_le len
  rw [← covered_eq_iff]
  constructor
  · intro h
    refine Nat.le_antisymm hle (Nat.le_of_not_lt fun hshort => ?_)
    have hlt : covered len ≤ len.toNat - 1 := by omega
    have hlen : ∀ b, (endingIn (len.toNat - 1) b).length = len.toNat := by
      intro b
      rw [endingIn_length]
      omega
    -- the last byte is not read
    have hlast : ∀ b,
        feed crc32cPoly crc ((List.replicate (len.toNat - 1) 0#8).take (covered len)) =
          Crc.byte crc32cPoly (feed crc32cPoly crc (List.replicate (len.toNat - 1) 0#8)) b := by
      intro b
      have hright := h (endingIn (len.toNat - 1) b) (hlen b)
      rw [crc32cHw_eq cpu crc (by rw [hlen]; exact hle), take_endingIn hlt,
        feed_endingIn] at hright
      exact Option.some.inj hright
    exact byte_zero_ne_one _ ((hlast 0#8).symm.trans (hlast 1#8))
  · intro h p hp
    rw [crc32cHw_eq cpu crc (by omega), h, ← hp, List.take_length]

theorem feed_zero_replicate (n : Nat) : feed crc32cPoly 0#32 (List.replicate n 0#8) = 0#32 := by
  induction n with
  | zero => rfl
  | succ n ih =>
      have hbyte : Crc.byte crc32cPoly 0#32 0#8 = 0#32 := Crc.zeros_of_zero 1
      have hnext : feed crc32cPoly 0#32 (List.replicate (n + 1) 0#8) =
          feed crc32cPoly (Crc.byte crc32cPoly 0#32 0#8) (List.replicate n 0#8) := rfl
      rw [hnext, hbyte, ih]

/-- Of 32 GiB not a single word is read, and the last byte is missed. -/
theorem last_byte_missed :
    (endingIn 0x7FFFFFFFF 1#8).length = 0x800000000 ∧
      crc32cHw referenceCpu 0#32 (endingIn 0x7FFFFFFFF 1#8) 0x800000000#64 = some 0#32 ∧
        feed crc32cPoly 0#32 (endingIn 0x7FFFFFFFF 1#8) ≠ 0#32 := by
  have hnone : covered 0x800000000#64 = 0 := rfl
  refine ⟨endingIn_length .., ?_, ?_⟩
  · rw [crc32cHw_eq referenceCpu 0#32 (by rw [hnone]; exact Nat.zero_le _), hnone, List.take_zero]
    rfl
  · intro h
    have hbyte : Crc.byte crc32cPoly 0#32 0#8 = 0#32 := Crc.zeros_of_zero 1
    rw [feed_endingIn, feed_zero_replicate] at h
    exact byte_zero_ne_one 0#32 (hbyte.trans h.symm)

end MiscTools.CpuFeature
