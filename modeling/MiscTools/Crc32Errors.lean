import MiscTools.CpuFeature
import MiscTools.CrcErrors

/-!
# What CRC-32C detects

A buffer may be cut into pieces of less than 2^32 bytes and each piece
taken in by any of the three functions, `crc32c` of `crc32.c` or
`crc32c_hw` of `cpu_fi.c` or of `cpu_feature.c`, the register going from
one call to the next. All cuts of a buffer leave one register
(`pieces_eq`), so two buffers may be compared by their registers whoever
has computed them.
-/

namespace MiscTools.Crc32

open Crc (feed feed_take_add flips Burst)

/-- Who takes in a piece. -/
inductive Route
  | soft (bigEndian : Bool) (addr : BitVec 64)
  | intrinsics (cpu : Sse42)
  | assembler (cpu : Sse42)

def Route.run (crc : BitVec 32) (p : List (BitVec 8)) (len : BitVec 32) :
    Route → Option (BitVec 32)
  | .soft bigEndian addr => crc32c bigEndian crc addr p len
  | .intrinsics cpu => crc32cHw cpu crc p (len.setWidth 64)
  | .assembler cpu => CpuFeature.crc32cHw cpu crc p (len.setWidth 64)

/-- The calls one after the other, each with the length of its piece. A
length is an `unsigned int`, also for the functions that take a `size_t`. -/
def pieces : BitVec 32 → List (BitVec 8) → List (BitVec 32 × Route) → Option (BitVec 32)
  | crc, _, [] => some crc
  | crc, p, (len, route) :: rest => do
      let crc ← route.run crc p len
      pieces crc (p.drop len.toNat) rest

/-- How many bytes the pieces hold. -/
def extent : List (BitVec 32 × Route) → Nat
  | [] => 0
  | (len, _) :: rest => len.toNat + extent rest

theorem Route.run_eq (crc : BitVec 32) {p : List (BitVec 8)} {len : BitVec 32}
    (h : len.toNat ≤ p.length) (route : Route) :
    route.run crc p len = some (feed crc32cPoly crc (p.take len.toNat)) := by
  cases route with
  | soft bigEndian addr => exact crc32c_eq bigEndian crc addr h
  | intrinsics cpu =>
      have heq := @crc32cHw_eq cpu crc p (len.setWidth 64) (by rwa [toNat_size])
      rwa [toNat_size] at heq
  | assembler cpu =>
      -- a length that was an `unsigned int` is far below those that are cut short
      have hall : CpuFeature.covered (len.setWidth 64) = len.toNat := by
        rw [(CpuFeature.covered_eq_iff _).mpr (by rw [toNat_size]; omega), toNat_size]
      have heq := @CpuFeature.crc32cHw_eq cpu crc p (len.setWidth 64) (by rwa [hall])
      rwa [hall] at heq

/-- **All cuts leave one register.** -/
theorem pieces_eq (crc : BitVec 32) {p : List (BitVec 8)} {cuts : List (BitVec 32 × Route)}
    (h : extent cuts ≤ p.length) :
    pieces crc p cuts = some (feed crc32cPoly crc (p.take (extent cuts))) := by
  induction cuts generalizing crc p with
  | nil => rfl
  | cons cut cuts ih =>
      rw [extent] at h ⊢
      rw [pieces, Route.run_eq crc (by omega), Option.bind_eq_bind, Option.bind_some,
        ih _ (by rw [List.length_drop]; omega), feed_take_add]

/-- The differences a check of this length is there for. -/
def Detectable (p q : List (BitVec 8)) : Prop :=
  p ≠ q ∧ Burst 32 p q ∨ (flips p q).count true % 2 = 1

theorem crc32cPoly_last : crc32cPoly.getLsbD (32 - 1) = true := by decide +kernel

theorem crc32cPoly_parity : Crc.parity crc32cPoly = true := by decide +kernel

theorem feed_ne {p q : List (BitVec 8)} (hlen : p.length = q.length) (h : Detectable p q)
    (crc : BitVec 32) : feed crc32cPoly crc p ≠ feed crc32cPoly crc q := by
  obtain ⟨hne, hburst⟩ | hodd := h
  · exact Crc.burst_detected (by omega) crc32cPoly_last crc hlen hne hburst
  · exact Crc.odd_detected (by omega) crc32cPoly_parity crc hlen hodd

/-- **Errors are detected.** Two buffers of one length that differ within 32
bits in a row, or in any odd number of bits wherever these are, get different
registers, from any register on, at any length, however either is cut and
whoever takes in the pieces. -/
theorem pieces_detect (crc : BitVec 32) (p q : List (BitVec 8))
    (cuts cuts' : List (BitVec 32 × Route)) (hp : extent cuts = p.length)
    (hq : extent cuts' = q.length) (hlen : p.length = q.length) (h : Detectable p q) :
    ∃ r r', pieces crc p cuts = some r ∧ pieces crc q cuts' = some r' ∧ r ≠ r' := by
  refine ⟨_, _, pieces_eq crc (Nat.le_of_eq hp), pieces_eq crc (Nat.le_of_eq hq), ?_⟩
  rw [hp, hq, List.take_length, List.take_length]
  exact feed_ne hlen h crc

/-- The first digit with its high bit wrong, in two pieces and in one. -/
theorem pieces_detect_digits :
    ∃ r r', pieces 0xFFFFFFFF#32 digits [(4#32, .soft false 0x1000#64),
        (5#32, .intrinsics referenceCpu)] = some r ∧
      pieces 0xFFFFFFFF#32 (0xB1#8 :: digits.tail) [(9#32, .assembler referenceCpu)] = some r' ∧
      r ≠ r' :=
  pieces_detect 0xFFFFFFFF#32 digits (0xB1#8 :: digits.tail)
    [(4#32, .soft false 0x1000#64), (5#32, .intrinsics referenceCpu)]
    [(9#32, .assembler referenceCpu)] rfl rfl rfl (.inr (by decide))

end MiscTools.Crc32
