import Mathlib.Algebra.Group.Nat.Defs
import MiscTools.Counted
import MiscTools.Strides

/-!
# The fill of the alignment test

`align128bit_offset` of `unalcalc.c`, and what its `main` does with a
mapping: move `vp` if asked to, then store null pointers from there to the
end of it. Addresses are 64 bits wide. `mb_len` and `offset` are those that
`main` has let through, so they are positive.

The mask of `align128bit_offset` keeps the high bits of an address where
the low four say whether it is aligned. An address below 16 is never moved
and any other always is, by 16 if it is aligned (`ap_toNat`).
-/

namespace MiscTools.Unalcalc

open Counted Strides

/-! ## The program -/

/-- What the call returns, and what it leaves in `*ap`. -/
def align128bitOffset (p : BitVec 64) : BitVec 64 × BitVec 64 :=
  let mskRight4bits0 := (-1#64) <<< 4
  let lp := p
  let alignedLp := if lp &&& mskRight4bits0 ≠ 0#64 then ((lp >>> 4) + 1#64) <<< 4 else lp
  (alignedLp - lp, alignedLp)

/-- `vp` at the head of the loop. -/
def beginVp (mblock : BitVec 64) (offset : Nat) (shouldAlign : Bool) : BitVec 64 :=
  let vp := mblock + BitVec.ofNat 64 offset
  let alOffset := (align128bitOffset vp).1
  if alOffset ≠ 0#64 then
    if shouldAlign then vp + alOffset else vp
  else vp

structure Fill where
  vp : BitVec 64
  /-- Where `*vp = NULL` has stored its eight bytes. -/
  stores : List (BitVec 64)

def turn (s : Fill) : Except Empty Fill :=
  .ok { vp := s.vp + 8#64, stores := s.stores ++ [s.vp] }

/-- The loop at `fin`, for at most `k` turns. -/
def fillTo (fin : BitVec 64) (k : Nat) (s : Fill) : Except Empty Fill :=
  whileUpTo (fun s => s.vp < fin) turn k s

def fill (mblock : BitVec 64) (mbLen offset : Nat) (shouldAlign : Bool) (k : Nat) :
    Except Empty Fill :=
  fillTo (mblock + BitVec.ofNat 64 mbLen) k
    { vp := beginVp mblock offset shouldAlign, stores := [] }

/-- What the fill is for. -/
structure FillsWithin (mblock : BitVec 64) (mbLen offset : Nat) (shouldAlign : Bool) : Prop where
  aligned : shouldAlign = true →
    FirstMultiple 16 (mblock.toNat + offset) (beginVp mblock offset shouldAlign).toNat
  unmoved : shouldAlign = true → 16 ∣ mblock.toNat + offset →
    (align128bitOffset (mblock + BitVec.ofNat 64 offset)).1 = 0#64
  /-- The loop ends, and none of its stores is partly outside. -/
  inside : ∃ k s, fill mblock mbLen offset shouldAlign k = .ok s ∧
    ¬s.vp < mblock + BitVec.ofNat 64 mbLen ∧
      ∀ a ∈ s.stores, mblock.toNat ≤ a.toNat ∧ a.toNat + 8 ≤ mblock.toNat + mbLen

/-! ## Alignment -/

theorem mask_eq (lp : BitVec 64) : lp &&& ((-1#64) <<< 4) = lp >>> 4 <<< 4 := by
  apply BitVec.eq_of_getLsbD_eq
  intro i hi
  have hones : (-1#64) = BitVec.allOnes 64 := BitVec.neg_one_eq_allOnes
  rw [hones, BitVec.getLsbD_and, BitVec.getLsbD_shiftLeft, BitVec.getLsbD_shiftLeft,
    BitVec.getLsbD_allOnes, BitVec.getLsbD_ushiftRight]
  by_cases hlow : i < 4
  · simp [hlow]
  · rw [Nat.add_sub_cancel' (Nat.le_of_not_lt hlow)]
    simp [hi, hlow, show i - 4 < 64 by omega]

/-- The test of `align128bit_offset` is on the size of the address. -/
theorem mask_ne_zero_iff (lp : BitVec 64) :
    lp &&& ((-1#64) <<< 4) ≠ 0#64 ↔ 16 ≤ lp.toNat := by
  have hlt := lp.isLt
  have hvalue : (lp >>> 4 <<< 4).toNat = lp.toNat / 16 * 16 := by
    rw [BitVec.toNat_shiftLeft, BitVec.toNat_ushiftRight, Nat.shiftLeft_eq,
      Nat.shiftRight_eq_div_pow]
    exact Nat.mod_eq_of_lt (by omega)
  rw [mask_eq, ne_eq, ← BitVec.toNat_inj, hvalue, BitVec.toNat_ofNat]
  omega

/-- **The multiple of 16 above, whether or not the address is one.** -/
theorem ap_toNat {p : BitVec 64} (h : p.toNat + 16 < 2 ^ 64) :
    (align128bitOffset p).2.toNat =
      if 16 ≤ p.toNat then (p.toNat / 16 + 1) * 16 else p.toNat := by
  show (if p &&& ((-1#64) <<< 4) ≠ 0#64 then ((p >>> 4) + 1#64) <<< 4 else p).toNat = _
  by_cases hhigh : 16 ≤ p.toNat
  · have hnext : (p >>> 4 + 1#64).toNat = p.toNat / 16 + 1 := by
      rw [BitVec.toNat_add, BitVec.toNat_ushiftRight, Nat.shiftRight_eq_div_pow]
      exact Nat.mod_eq_of_lt (by simp; omega)
    rw [if_pos ((mask_ne_zero_iff p).mpr hhigh), if_pos hhigh, BitVec.toNat_shiftLeft, hnext,
      Nat.shiftLeft_eq]
    exact Nat.mod_eq_of_lt (by omega)
  · rw [if_neg (mt (mask_ne_zero_iff p).mp hhigh), if_neg hhigh]

/-- `vp` moves by the offset exactly to what is suggested. -/
theorem beginVp_true (mblock : BitVec 64) (offset : Nat) :
    beginVp mblock offset true = (align128bitOffset (mblock + BitVec.ofNat 64 offset)).2 := by
  rw [beginVp]
  generalize mblock + BitVec.ofNat 64 offset = vp
  have hsum : vp + (align128bitOffset vp).1 = (align128bitOffset vp).2 := by
    show vp + ((align128bitOffset vp).2 - vp) = _
    rw [BitVec.add_comm, BitVec.sub_add_cancel]
  by_cases hzero : (align128bitOffset vp).1 = 0#64
  · rw [hzero, BitVec.add_zero] at hsum
    rw [if_neg (not_not_intro hzero)]
    exact hsum
  · rw [if_pos hzero, if_pos rfl]
    exact hsum

theorem beginVp_false (mblock : BitVec 64) (offset : Nat) :
    beginVp mblock offset false = mblock + BitVec.ofNat 64 offset := by
  simp [beginVp]

/-! ## The loop -/

/-- After `j` turns from `lo` on. -/
structure Filling (lo hi j : Nat) (s : Fill) : Prop where
  turns : j ≤ count 8 lo hi
  vp : s.vp.toNat = lo + 8 * j
  stores : s.stores.map BitVec.toNat = List.range' lo j 8

variable {fin : BitVec 64} {lo : Nat}

theorem Filling.lt_iff {j : Nat} {s : Fill} (h : Filling lo fin.toNat j s) :
    s.vp < fin ↔ j < count 8 lo fin.toNat := by
  rw [BitVec.lt_def, h.vp, lt_count_iff (by omega)]

theorem filling_turn (hwrap : fin.toNat + 8 < 2 ^ 64) {j : Nat} {s : Fill}
    (h : Filling lo fin.toNat j s) (hgo : s.vp < fin) :
    ∃ s', turn s = .ok s' ∧ Filling lo fin.toNat (j + 1) s' := by
  have hstore := BitVec.lt_def.mp hgo
  refine ⟨_, rfl, h.lt_iff.mp hgo, ?_, ?_⟩
  · have hnext : (s.vp + 8#64).toNat = s.vp.toNat + 8 := by
      rw [BitVec.toNat_add]
      exact Nat.mod_eq_of_lt (by simp; omega)
    show (s.vp + 8#64).toNat = _
    rw [hnext, h.vp]
    omega
  · show (s.stores ++ [s.vp]).map BitVec.toNat = _
    rw [List.map_append, h.stores, List.map_singleton, h.vp, List.range'_concat]

theorem filling_start (vp : BitVec 64) :
    Filling vp.toNat fin.toNat 0 { vp := vp, stores := [] } :=
  ⟨Nat.zero_le _, rfl, rfl⟩

/-- A loop that has come to its end has made all stores. -/
theorem Filling.stores_of_end {j : Nat} {s : Fill} (h : Filling lo fin.toNat j s)
    (hend : ¬s.vp < fin) : s.stores.map BitVec.toNat = starts 8 lo fin.toNat := by
  rw [h.lt_iff] at hend
  have hall : j = count 8 lo fin.toNat := Nat.le_antisymm h.turns (Nat.le_of_not_lt hend)
  rw [h.stores, hall, starts]

theorem fillTo_stores (hwrap : fin.toNat + 8 < 2 ^ 64) {vp : BitVec 64} {k : Nat} {s : Fill}
    (hrun : fillTo fin k { vp := vp, stores := [] } = .ok s) (hend : ¬s.vp < fin) :
    s.stores.map BitVec.toNat = starts 8 vp.toNat fin.toNat := by
  have hturn : ∀ s, (∃ j, Filling vp.toNat fin.toNat j s) → s.vp < fin →
      ∃ s', turn s = .ok s' ∧ ∃ j, Filling vp.toNat fin.toNat j s' := by
    rintro s ⟨j, h⟩ hgo
    obtain ⟨s', hs, h'⟩ := filling_turn hwrap h hgo
    exact ⟨s', hs, j + 1, h'⟩
  obtain ⟨s', hs, j, h⟩ := whileUpTo_invariant hturn k ⟨0, filling_start vp⟩
  rw [fillTo, hs] at hrun
  obtain rfl := Except.ok.inj hrun
  exact h.stores_of_end hend

theorem fillTo_ends (hwrap : fin.toNat + 8 < 2 ^ 64) (vp : BitVec 64) :
    ∃ k s, fillTo fin k { vp := vp, stores := [] } = .ok s ∧ ¬s.vp < fin := by
  have hturn : ∀ s, (∃ j, Filling vp.toNat fin.toNat j s) → s.vp < fin →
      ∃ s', turn s = .ok s' ∧ (∃ j, Filling vp.toNat fin.toNat j s') ∧
        fin.toNat - s'.vp.toNat < fin.toNat - s.vp.toNat := by
    rintro s ⟨j, h⟩ hgo
    obtain ⟨s', hs, h'⟩ := filling_turn hwrap h hgo
    have hlt := BitVec.lt_def.mp hgo
    have hvp := h.vp
    have hvp' := h'.vp
    exact ⟨s', hs, ⟨j + 1, h'⟩, by omega⟩
  obtain ⟨s, hs, -, hend⟩ :=
    whileUpTo_ends (fun s : Fill => fin.toNat - s.vp.toNat) hturn ⟨0, filling_start vp⟩
  exact ⟨_, s, hs, hend⟩

/-- The stores of the loop are those of its start and its end. -/
theorem fillTo_inside_iff (fin : BitVec 64) (hwrap : fin.toNat + 8 < 2 ^ 64) {vp : BitVec 64}
    (hlo : lo ≤ vp.toNat) :
    (∃ k s, fillTo fin k { vp := vp, stores := [] } = .ok s ∧ ¬s.vp < fin ∧
      ∀ a ∈ s.stores, lo ≤ a.toNat ∧ a.toNat + 8 ≤ fin.toNat) ↔
      ∀ a ∈ starts 8 vp.toNat fin.toNat, a + 8 ≤ fin.toNat := by
  constructor
  · rintro ⟨k, s, hs, hend, hin⟩ a ha
    rw [← fillTo_stores hwrap hs hend] at ha
    obtain ⟨b, hb, rfl⟩ := List.mem_map.mp ha
    exact (hin b hb).2
  · intro h
    obtain ⟨k, s, hs, hend⟩ := fillTo_ends hwrap vp
    refine ⟨k, s, hs, hend, fun a ha => ?_⟩
    have hmem : a.toNat ∈ starts 8 vp.toNat fin.toNat := by
      rw [← fillTo_stores hwrap hs hend]
      exact List.mem_map_of_mem ha
    obtain ⟨j, -, hj⟩ := mem_starts.mp hmem
    exact ⟨by omega, h a.toNat hmem⟩

/-! ## The fill -/

/-- **When the fill stays within the block.** Without alignment the length
of the rest has to be a multiple of the store's. With it `vp` must not be
aligned yet, and the end of the block has to be, unless `vp` is moved past
it. -/
def Fits (mblock : BitVec 64) (mbLen offset : Nat) (shouldAlign : Bool) : Prop :=
  let start := mblock.toNat + offset
  let fin := mblock.toNat + mbLen
  if shouldAlign then
    16 ≤ start ∧ ¬16 ∣ start ∧ (fin ≤ (start / 16 + 1) * 16 ∨ 8 ∣ fin)
  else 8 ∣ mbLen - offset

variable {mblock : BitVec 64} {mbLen offset : Nat}

theorem toNat_add_of_lt {n : Nat} (h : mblock.toNat + n < 2 ^ 64) :
    (mblock + BitVec.ofNat 64 n).toNat = mblock.toNat + n := by
  rw [BitVec.toNat_add, BitVec.toNat_ofNat, Nat.add_mod_mod]
  exact Nat.mod_eq_of_lt h

theorem beginVp_false_toNat (h : mblock.toNat + offset < 2 ^ 64) :
    (beginVp mblock offset false).toNat = mblock.toNat + offset := by
  rw [beginVp_false]
  exact toNat_add_of_lt h

theorem beginVp_true_toNat (hwrap : mblock.toNat + offset + 16 < 2 ^ 64)
    (hhigh : 16 ≤ mblock.toNat + offset) :
    (beginVp mblock offset true).toNat = ((mblock.toNat + offset) / 16 + 1) * 16 := by
  have hstart : (mblock + BitVec.ofNat 64 offset).toNat = mblock.toNat + offset :=
    toNat_add_of_lt (by omega)
  rw [beginVp_true, ap_toNat (by omega), hstart, if_pos hhigh]

theorem beginVp_aligned_iff (mblock : BitVec 64) {offset : Nat}
    (hwrap : mblock.toNat + offset + 16 < 2 ^ 64) (hpos : 0 < offset) :
    FirstMultiple 16 (mblock.toNat + offset) (beginVp mblock offset true).toNat ↔
      16 ≤ mblock.toNat + offset ∧ ¬16 ∣ mblock.toNat + offset := by
  by_cases hhigh : 16 ≤ mblock.toNat + offset
  · rw [beginVp_true_toNat hwrap hhigh, firstMultiple_next_iff (by omega)]
    simp only [hhigh, true_and]
  · have hstart : (mblock + BitVec.ofNat 64 offset).toNat = mblock.toNat + offset :=
      toNat_add_of_lt (by omega)
    rw [beginVp_true, ap_toNat (by omega), hstart, if_neg hhigh]
    constructor
    · intro h
      have hle := Nat.le_of_dvd (by omega) h.dvd
      omega
    · exact fun h => absurd h.1 hhigh

/-- Whether the stores are inside depends on where they begin and end. -/
theorem fill_inside_iff (hwrap : mblock.toNat + mbLen + 16 < 2 ^ 64) {shouldAlign : Bool}
    (hvp : mblock.toNat ≤ (beginVp mblock offset shouldAlign).toNat) :
    (∃ k s, fill mblock mbLen offset shouldAlign k = .ok s ∧
      ¬s.vp < mblock + BitVec.ofNat 64 mbLen ∧
        ∀ a ∈ s.stores, mblock.toNat ≤ a.toNat ∧ a.toNat + 8 ≤ mblock.toNat + mbLen) ↔
      ∀ a ∈ starts 8 (beginVp mblock offset shouldAlign).toNat (mblock.toNat + mbLen),
        a + 8 ≤ mblock.toNat + mbLen := by
  have hfin : (mblock + BitVec.ofNat 64 mbLen).toNat = mblock.toNat + mbLen :=
    toNat_add_of_lt (by omega)
  have hin := fillTo_inside_iff (mblock + BitVec.ofNat 64 mbLen) (by omega) hvp
  rwa [hfin] at hin

theorem starts_false_iff (hlen : offset < mbLen) (hwrap : mblock.toNat + mbLen + 16 < 2 ^ 64) :
    (∀ a ∈ starts 8 (beginVp mblock offset false).toNat (mblock.toNat + mbLen),
      a + 8 ≤ mblock.toNat + mbLen) ↔ 8 ∣ mbLen - offset := by
  rw [beginVp_false_toNat (by omega), starts_fit_iff (by omega), Nat.add_sub_add_left]
  constructor
  · rintro (hle | hdvd)
    · omega
    · exact hdvd
  · exact Or.inr

theorem starts_true_iff (hlen : offset < mbLen) (hwrap : mblock.toNat + mbLen + 16 < 2 ^ 64)
    (hhigh : 16 ≤ mblock.toNat + offset) :
    (∀ a ∈ starts 8 (beginVp mblock offset true).toNat (mblock.toNat + mbLen),
      a + 8 ≤ mblock.toNat + mbLen) ↔
      mblock.toNat + mbLen ≤ ((mblock.toNat + offset) / 16 + 1) * 16 ∨
        8 ∣ mblock.toNat + mbLen := by
  have height : 8 ∣ ((mblock.toNat + offset) / 16 + 1) * 16 := by omega
  rw [beginVp_true_toNat (by omega) hhigh]
  exact starts_fit_iff_of_dvd (by omega) height

/-- **The fill is right exactly where it fits.** -/
theorem fillsWithin_iff (mblock : BitVec 64) {mbLen offset : Nat} (shouldAlign : Bool)
    (hpos : 0 < offset) (hlen : offset < mbLen)
    (hwrap : mblock.toNat + mbLen + 16 < 2 ^ 64) :
    FillsWithin mblock mbLen offset shouldAlign ↔ Fits mblock mbLen offset shouldAlign := by
  cases shouldAlign with
  | false =>
      have hvp : (beginVp mblock offset false).toNat = mblock.toNat + offset :=
        beginVp_false_toNat (by omega)
      have hin := (fill_inside_iff hwrap (by omega)).trans (starts_false_iff hlen hwrap)
      exact ⟨fun h => hin.mp h.inside, fun h => ⟨nofun, nofun, hin.mpr h⟩⟩
  | true =>
      have haligned := beginVp_aligned_iff mblock (by omega) hpos
      have hin : 16 ≤ mblock.toNat + offset → _ := fun hhigh =>
        (fill_inside_iff hwrap (by rw [beginVp_true_toNat (by omega) hhigh]; omega)).trans
          (starts_true_iff hlen hwrap hhigh)
      constructor
      · intro h
        obtain ⟨hhigh, hoff⟩ := haligned.mp (h.aligned rfl)
        exact ⟨hhigh, hoff, (hin hhigh).mp h.inside⟩
      · rintro ⟨hhigh, hoff, hfits⟩
        exact ⟨fun _ => haligned.mpr ⟨hhigh, hoff⟩, fun _ hdvd => absurd hdvd hoff,
          (hin hhigh).mpr hfits⟩

theorem toNat_page : (0x1000#64).toNat = 4096 := rfl

/-- A page that is filled from its ninth byte on. -/
theorem fillsWithin_page : FillsWithin 0x1000#64 4096 8 true := by
  have hpage := toNat_page
  have hfits : Fits 0x1000#64 4096 8 true := ⟨by omega, by omega, .inr (by omega)⟩
  exact (fillsWithin_iff 0x1000#64 true (by omega) (by omega) (by omega)).mpr hfits

/-- An aligned start is moved, and a rest of eleven bytes gets two stores. -/
theorem fill_moves_and_overruns :
    ¬FillsWithin 0x1000#64 32 16 true ∧ ¬FillsWithin 0x1000#64 12 1 false := by
  have hpage := toNat_page
  constructor
  · intro h
    have hoff := (beginVp_aligned_iff 0x1000#64 (by omega) (by omega)).mp (h.aligned rfl)
    exact hoff.2 (by omega)
  · intro h
    have hvp : (beginVp 0x1000#64 1 false).toNat = (0x1000#64).toNat + 1 :=
      beginVp_false_toNat (by omega)
    have hstarts := (fill_inside_iff (by omega) (by omega)).mp h.inside
    have hrest := (starts_false_iff (by omega) (by omega)).mp hstarts
    omega

end MiscTools.Unalcalc
