import MiscTools.CrcTables

/-!
# CRC-32C in software and in hardware

`crc32c` of `crc32.c` and `crc32c_hw` of `cpu_fi.c` (as it is compiled
for x86_64). A buffer is the list of bytes from the pointer on, and a
read past it makes the call `none`. `bigEndian` says which branches of
the word loop the preprocessor kept; the machine itself stores words
low byte first.

Every loop here is one of the library's `turns`, so what it does is
what one turn does: feed a byte to the register, or a word of eight.
-/

namespace MiscTools.Crc32

open Crc (Turn turns Feeds feed feed_take_add zeros)

/-! ## The software -/

/-- `*(const uint32_t *) p`, or a wider word: the bytes low to high. -/
def load (w : Nat) (p : List (BitVec 8)) : Option (BitVec w) :=
  if w / 8 ≤ p.length then some (Crc.le (p.take (w / 8))) else none

/-- `crc = table[(crc ^ *p++) & 0xFF] ^ (crc >> 8)`. -/
def byteTurn (table : List (BitVec 32)) : Turn 32
  | _, [] => none
  | crc, b :: p => do
      let term ← table[((crc ^^^ b.setWidth 32) &&& 0xFF#32).toNat]?
      return (term ^^^ (crc >>> 8), p)

def singletableCrc32c (crc : BitVec 32) (buf : List (BitVec 8)) (size : BitVec 64) :
    Option (BitVec 32) := do
  let (crc, _) ← turns (byteTurn crc32cTable) size.toNat crc buf
  return crc

/-- The register takes in the first four bytes of the word. -/
def xorWord (bigEndian : Bool) (crc : BitVec 32) (p : List (BitVec 8)) : Option (BitVec 32) :=
  if bigEndian then
    match p with
    | b0 :: b1 :: b2 :: b3 :: _ =>
        some (crc ^^^ b0.setWidth 32 ^^^ (b1.setWidth 32 <<< 8) ^^^ (b2.setWidth 32 <<< 16)
          ^^^ (b3.setWidth 32 <<< 24))
    | _ => none
  else do
    let word ← load 32 p
    return crc ^^^ word

/-- The tables of the first four bytes. -/
def sliceCrc (crc : BitVec 32) : Option (BitVec 32) := do
  let o88 ← sctpCrcTableil8O88[(crc &&& 0xFF#32).toNat]?
  let o80 ← sctpCrcTableil8O80[((crc >>> 8) &&& 0xFF#32).toNat]?
  let term1 := o88 ^^^ o80
  let term2 := crc >>> 16
  let o72 ← sctpCrcTableil8O72[(term2 &&& 0xFF#32).toNat]?
  let o64 ← sctpCrcTableil8O64[((term2 >>> 8) &&& 0xFF#32).toNat]?
  return term1 ^^^ o72 ^^^ o64

/-- The tables of the other four, which never enter the register. -/
def sliceNext (bigEndian : Bool) (crc : BitVec 32) (p : List (BitVec 8)) : Option (BitVec 32) :=
  if bigEndian then
    match p with
    | b4 :: b5 :: b6 :: b7 :: _ => do
        let o56 ← sctpCrcTableil8O56[b4.toNat]?
        let o48 ← sctpCrcTableil8O48[b5.toNat]?
        let o40 ← sctpCrcTableil8O40[b6.toNat]?
        let o32 ← sctpCrcTableil8O32[b7.toNat]?
        return crc ^^^ o56 ^^^ o48 ^^^ o40 ^^^ o32
    | _ => none
  else do
    let word ← load 32 p
    let o56 ← sctpCrcTableil8O56[(word &&& 0xFF#32).toNat]?
    let o48 ← sctpCrcTableil8O48[((word >>> 8) &&& 0xFF#32).toNat]?
    let term1 := o56 ^^^ o48
    let term2 := word >>> 16
    let o40 ← sctpCrcTableil8O40[(term2 &&& 0xFF#32).toNat]?
    let o32 ← sctpCrcTableil8O32[((term2 >>> 8) &&& 0xFF#32).toNat]?
    return crc ^^^ term1 ^^^ o40 ^^^ o32

/-- The body of the word loop of `crc32cSb8_64Bit`. -/
def wordTurn (bigEndian : Bool) : Turn 32 := fun crc p => do
  let crc ← xorWord bigEndian crc p
  let crc ← sliceCrc crc
  let crc ← sliceNext bigEndian crc (p.drop 4)
  return (crc, p.drop 8)

def crc32cSb8_64Bit (bigEndian : Bool) (crc : BitVec 32) (pBuf : List (BitVec 8))
    (length initBytes : BitVec 32) : Option (BitVec 32) := do
  let runningLength := (length - initBytes) / 8#32 * 8#32
  let endBytes := length - initBytes - runningLength
  let (crc, pBuf) ← turns (byteTurn sctpCrcTableil8O32) initBytes.toNat crc pBuf
  let (crc, pBuf) ← turns (wordTurn bigEndian) (runningLength / 8#32).toNat crc pBuf
  let (crc, _) ← turns (byteTurn sctpCrcTableil8O32) endBytes.toNat crc pBuf
  return crc

/-- `addr` is the value of the pointer `buffer`. -/
def multitableCrc32c (bigEndian : Bool) (crc32c : BitVec 32) (addr : BitVec 64)
    (buffer : List (BitVec 8)) (length : BitVec 32) : Option (BitVec 32) :=
  if length = 0#32 then
    some crc32c
  else
    let toEvenWord := (4#64 - (addr &&& 3#64)).setWidth 32
    crc32cSb8_64Bit bigEndian crc32c buffer length toEvenWord

def crc32c (bigEndian : Bool) (crc32c : BitVec 32) (addr : BitVec 64) (buffer : List (BitVec 8))
    (length : BitVec 32) : Option (BitVec 32) :=
  if length < 4#32 then
    singletableCrc32c crc32c buffer (length.setWidth 64)
  else
    multitableCrc32c bigEndian crc32c addr buffer length

/-! ## The hardware -/

/-- The two instructions of SSE 4.2, with what the processor's manual
says of them. -/
structure Sse42 where
  mmCrc32U8 : BitVec 32 → BitVec 8 → BitVec 32
  mmCrc32U64 : BitVec 64 → BitVec 64 → BitVec 64
  u8Step : ∀ crc v, mmCrc32U8 crc v = Crc.byte crc32cPoly crc v
  u64Steps : ∀ crc v, mmCrc32U64 crc v =
    (feed crc32cPoly (crc.setWidth 32) (Crc.octets 8 v)).setWidth 64

/-- `crc = (u_int32_t) _mm_crc32_u64((u_int64_t) crc, *pword)`. -/
def hwWord (cpu : Sse42) : Turn 32 := fun crc p => do
  let word ← load 64 p
  return ((cpu.mmCrc32U64 (crc.setWidth 64) word).setWidth 32, p.drop 8)

def hwByte (cpu : Sse42) : Turn 32
  | _, [] => none
  | crc, b :: p => some (cpu.mmCrc32U8 crc b, p)

def crc32cHw (cpu : Sse42) (crc : BitVec 32) (p : List (BitVec 8)) (len : BitVec 64) :
    Option (BitVec 32) := do
  let nwords := len / 8#64
  let nbytes := len % 8#64
  let (crc, pword) ← turns (hwWord cpu) nwords.toNat crc p
  if nbytes ≠ 0#64 then
    let (crc, _) ← turns (hwByte cpu) nbytes.toNat crc pword
    return crc
  else
    return crc

/-! ## Bytes -/

theorem Slice.feeds {table : List (BitVec 32)} (h : Slice 1 table) :
    Feeds crc32cPoly 1 (byteTurn table) := by
  intro crc p hp
  obtain ⟨b, p, rfl⟩ := List.exists_cons_of_length_pos hp
  have hbyte : zeros crc32cPoly 1 ((crc ^^^ b.setWidth 32) &&& 0xFF#32) ^^^ (crc >>> 8) =
      Crc.byte crc32cPoly crc b := (Crc.byte_table crc b).symm
  rw [byteTurn, h.low, Option.bind_eq_bind, Option.bind_some, hbyte]
  rfl

theorem hwByte_feeds (cpu : Sse42) : Feeds crc32cPoly 1 (hwByte cpu) := by
  intro crc p hp
  obtain ⟨b, p, rfl⟩ := List.exists_cons_of_length_pos hp
  rw [hwByte, cpu.u8Step]
  rfl

/-! ## Words -/

theorem load_some {w : Nat} {p : List (BitVec 8)} (h : w / 8 ≤ p.length) :
    load w p = some (Crc.le (p.take (w / 8))) :=
  if_pos h

theorem hwWord_feeds (cpu : Sse42) : Feeds crc32cPoly 8 (hwWord cpu) := by
  intro crc p hp
  have hlen : (p.take 8).length = 8 := List.length_take_of_le hp
  have hbytes : Crc.octets 8 (Crc.le (p.take 8) : BitVec 64) = p.take 8 := by
    have hfit : 8 * (p.take 8).length ≤ 64 := by omega
    have hoctets := Crc.octets_le hfit
    rwa [hlen] at hoctets
  have hback : ∀ c : BitVec 32, (c.setWidth 64).setWidth 32 = c := by simp
  rw [hwWord, load_some hp, Option.bind_eq_bind, Option.bind_some, cpu.u64Steps, hback, hback]
  exact congrArg (fun bs => some (feed crc32cPoly crc bs, p.drop 8)) hbytes

/-- The four slices of a register. -/
theorem zeros_slices (k : Nat) (x : BitVec 32) :
    zeros crc32cPoly (k + 4) x =
      zeros crc32cPoly (k + 4) (x &&& 0xFF#32) ^^^
        (zeros crc32cPoly (k + 3) ((x >>> 8) &&& 0xFF#32) ^^^
          (zeros crc32cPoly (k + 2) ((x >>> 16) &&& 0xFF#32) ^^^
            zeros crc32cPoly (k + 1) ((x >>> 24) &&& 0xFF#32))) := by
  have hgone : x >>> 32 = 0#32 := BitVec.ushiftRight_eq_zero (Nat.le_refl 32)
  have hlast := Crc.zeros_slice (P := crc32cPoly) k (x >>> 24)
  rw [← BitVec.shiftRight_add, hgone, Crc.zeros_of_zero] at hlast
  rw [Crc.zeros_slice (k + 3), Crc.zeros_slice (k + 2), Crc.zeros_slice (k + 1),
    ← BitVec.shiftRight_add, ← BitVec.shiftRight_add, hlast, BitVec.xor_zero]

theorem sliceCrc_eq (crc : BitVec 32) : sliceCrc crc = some (zeros crc32cPoly 8 crc) := by
  obtain ⟨-, -, -, s64, s72, s80, s88⟩ := slices
  rw [zeros_slices 4]
  simp only [sliceCrc, s88.low, s80.low, s72.low, s64.low, Option.bind_eq_bind, Option.bind_some,
    Option.pure_def, BitVec.xor_assoc, ← BitVec.shiftRight_add]

theorem four_bytes {p : List (BitVec 8)} (h : 4 ≤ p.length) :
    ∃ b0 b1 b2 b3 q, p = b0 :: b1 :: b2 :: b3 :: q :=
  match p, h with
  | b0 :: b1 :: b2 :: b3 :: q, _ => ⟨b0, b1, b2, b3, q, rfl⟩

theorem xorWord_eq (bigEndian : Bool) (crc : BitVec 32) {p : List (BitVec 8)}
    (h : 4 ≤ p.length) : xorWord bigEndian crc p = some (crc ^^^ Crc.le (p.take 4)) := by
  obtain ⟨b0, b1, b2, b3, q, rfl⟩ := four_bytes h
  cases bigEndian with
  | false => rw [xorWord, if_neg Bool.false_ne_true, load_some h]; rfl
  | true =>
      simp [xorWord, Crc.le, BitVec.xor_assoc, BitVec.shiftLeft_xor_distrib,
        ← BitVec.shiftLeft_add]

theorem sliceNext_eq (bigEndian : Bool) (crc : BitVec 32) {p : List (BitVec 8)}
    (h : 4 ≤ p.length) :
    sliceNext bigEndian crc p = some (crc ^^^ zeros crc32cPoly 4 (Crc.le (p.take 4))) := by
  obtain ⟨s40, s48, s56, -⟩ := slices
  cases bigEndian with
  | false =>
      have hload : load 32 p = some (Crc.le (p.take 4)) := load_some h
      rw [zeros_slices 0]
      simp only [sliceNext, Bool.false_eq_true, if_false, hload, Option.bind_eq_bind,
        Option.bind_some, Option.pure_def, s56.low, s48.low, s40.low, slice_o32.low,
        BitVec.xor_assoc, ← BitVec.shiftRight_add]
  | true =>
      obtain ⟨b0, b1, b2, b3, q, rfl⟩ := four_bytes h
      have hfour : zeros crc32cPoly 4 (Crc.le [b0, b1, b2, b3]) =
          zeros crc32cPoly 4 (b0.setWidth 32) ^^^ (zeros crc32cPoly 3 (b1.setWidth 32) ^^^
            (zeros crc32cPoly 2 (b2.setWidth 32) ^^^ zeros crc32cPoly 1 (b3.setWidth 32))) := by
        rw [Crc.zeros_le_cons 3 (by simp), Crc.zeros_le_cons 2 (by simp),
          Crc.zeros_le_cons 1 (by simp), Crc.zeros_le_cons 0 (by simp)]
        exact congrArg _ (congrArg _ (congrArg _ BitVec.xor_zero))
      show sliceNext true crc (b0 :: b1 :: b2 :: b3 :: q) =
        some (crc ^^^ zeros crc32cPoly 4 (Crc.le [b0, b1, b2, b3]))
      rw [hfour]
      simp only [sliceNext, if_true, Option.bind_eq_bind, Option.bind_some, Option.pure_def,
        s56.octet, s48.octet, s40.octet, slice_o32.octet, BitVec.xor_assoc]

/-- **Both branches of the word loop feed eight bytes.** -/
theorem wordTurn_feeds (bigEndian : Bool) : Feeds crc32cPoly 8 (wordTurn bigEndian) := by
  intro crc p hp
  have hlow : (p.take 4).length = 4 := List.length_take_of_le (by omega)
  have hrest : 4 ≤ (p.drop 4).length := by
    rw [List.length_drop]
    omega
  have hhigh : ((p.drop 4).take 4).length = 4 := List.length_take_of_le hrest
  have hfeed : feed crc32cPoly crc (p.take 8) =
      zeros crc32cPoly 8 (crc ^^^ Crc.le (p.take 4)) ^^^
        zeros crc32cPoly 4 (Crc.le ((p.drop 4).take 4)) := by
    rw [List.take_add (i := 4) (j := 4), Crc.feed_append, Crc.feed_le _ (by omega),
      Crc.feed_le _ (by omega), hlow, hhigh, Crc.zeros_xor, ← Crc.zeros_add]
  rw [wordTurn, xorWord_eq bigEndian crc (by omega)]
  simp only [Option.bind_eq_bind, Option.bind_some, Option.pure_def, sliceCrc_eq,
    sliceNext_eq bigEndian _ hrest, hfeed]

/-! ## Whole buffers -/

theorem singletableCrc32c_eq (crc : BitVec 32) {buf : List (BitVec 8)} {size : BitVec 64}
    (h : size.toNat ≤ buf.length) :
    singletableCrc32c crc buf size = some (feed crc32cPoly crc (buf.take size.toNat)) := by
  have hloop := slice_crc32cTable.feeds.turns size.toNat
  rw [Nat.one_mul] at hloop
  rw [singletableCrc32c, hloop crc buf h]
  rfl

/-- The three loops cover the buffer: the bytes before the first word,
the words, and the bytes after the last. -/
theorem lengths_add {length initBytes runningLength : BitVec 32}
    (h : initBytes.toNat ≤ length.toNat)
    (hr : runningLength = (length - initBytes) / 8#32 * 8#32) :
    initBytes.toNat + 8 * (runningLength / 8#32).toNat +
      (length - initBytes - runningLength).toNat = length.toNat := by
  have hsub : (length - initBytes).toNat = length.toNat - initBytes.toNat :=
    BitVec.toNat_sub_of_le h
  have hrun : runningLength.toNat = (length.toNat - initBytes.toNat) / 8 * 8 := by
    rw [hr, BitVec.toNat_mul, BitVec.toNat_udiv, hsub]
    have := length.isLt
    exact Nat.mod_eq_of_lt (by simp; omega)
  have hend : (length - initBytes - runningLength).toNat =
      length.toNat - initBytes.toNat - (length.toNat - initBytes.toNat) / 8 * 8 := by
    rw [BitVec.toNat_sub_of_le, hsub, hrun]
    rw [BitVec.le_def, hsub, hrun]
    omega
  have hwords : (runningLength / 8#32).toNat = (length.toNat - initBytes.toNat) / 8 := by
    rw [BitVec.toNat_udiv, hrun]
    exact Nat.mul_div_cancel _ (by decide)
  rw [hwords, hend]
  omega

theorem crc32cSb8_64Bit_eq (bigEndian : Bool) (crc : BitVec 32) {pBuf : List (BitVec 8)}
    {length initBytes : BitVec 32} (hinit : initBytes.toNat ≤ length.toNat)
    (h : length.toNat ≤ pBuf.length) :
    crc32cSb8_64Bit bigEndian crc pBuf length initBytes =
      some (feed crc32cPoly crc (pBuf.take length.toNat)) := by
  rw [crc32cSb8_64Bit]
  generalize hr : (length - initBytes) / 8#32 * 8#32 = runningLength
  have hlen := lengths_add hinit hr.symm
  have hbytes := slice_o32.feeds.turns
  simp only [Nat.one_mul] at hbytes
  have hpre := hbytes initBytes.toNat crc pBuf (by omega)
  have hwords := (wordTurn_feeds bigEndian).turns (runningLength / 8#32).toNat
    (feed crc32cPoly crc (pBuf.take initBytes.toNat)) (pBuf.drop initBytes.toNat)
    (by rw [List.length_drop]; omega)
  rw [feed_take_add, List.drop_drop] at hwords
  have hend := hbytes (length - initBytes - runningLength).toNat
    (feed crc32cPoly crc (pBuf.take (initBytes.toNat + 8 * (runningLength / 8#32).toNat)))
    (pBuf.drop (initBytes.toNat + 8 * (runningLength / 8#32).toNat))
    (by rw [List.length_drop]; omega)
  rw [feed_take_add, List.drop_drop] at hend
  simp only [Option.bind_eq_bind, Option.bind_some, hpre, hwords, hend, Option.pure_def]
  rw [hlen]

theorem multitableCrc32c_eq (bigEndian : Bool) (crc : BitVec 32) (addr : BitVec 64)
    {buffer : List (BitVec 8)} {length : BitVec 32} (hfour : 4 ≤ length.toNat)
    (h : length.toNat ≤ buffer.length) :
    multitableCrc32c bigEndian crc addr buffer length =
      some (feed crc32cPoly crc (buffer.take length.toNat)) := by
  have hne : length ≠ 0#32 := by
    rintro rfl
    simp at hfour
  have heven : ((4#64 - (addr &&& 3#64)).setWidth 32).toNat ≤ 4 := by
    rw [BitVec.toNat_setWidth]
    refine Nat.le_trans (Nat.mod_le _ _) ?_
    have hlow : (addr &&& 3#64).toNat ≤ 3 := by
      rw [BitVec.toNat_and]
      exact Nat.and_le_right
    rw [BitVec.toNat_sub_of_le (by rw [BitVec.le_def]; exact Nat.le_trans hlow (by decide))]
    exact Nat.sub_le _ _
  rw [multitableCrc32c, if_neg hne]
  exact crc32cSb8_64Bit_eq bigEndian crc (Nat.le_trans heven hfour) h

/-- `unsigned int` to `size_t`. -/
theorem toNat_size (length : BitVec 32) : (length.setWidth 64).toNat = length.toNat := by
  rw [BitVec.toNat_setWidth]
  exact Nat.mod_eq_of_lt (Nat.lt_trans length.isLt (by decide))

/-- **The software.** -/
theorem crc32c_eq (bigEndian : Bool) (crc : BitVec 32) (addr : BitVec 64)
    {buffer : List (BitVec 8)} {length : BitVec 32} (h : length.toNat ≤ buffer.length) :
    crc32c bigEndian crc addr buffer length =
      some (feed crc32cPoly crc (buffer.take length.toNat)) := by
  rw [crc32c]
  split
  case isTrue => rw [singletableCrc32c_eq crc (by rwa [toNat_size]), toNat_size]
  case isFalse hfour =>
      refine multitableCrc32c_eq bigEndian crc addr ?_ h
      rw [BitVec.lt_def] at hfour
      exact Nat.le_of_not_lt hfour

/-- **The hardware.** -/
theorem crc32cHw_eq (cpu : Sse42) (crc : BitVec 32) {p : List (BitVec 8)} {len : BitVec 64}
    (h : len.toNat ≤ p.length) :
    crc32cHw cpu crc p len = some (feed crc32cPoly crc (p.take len.toNat)) := by
  have hlen : 8 * (len / 8#64).toNat + (len % 8#64).toNat = len.toNat := by
    rw [BitVec.toNat_udiv, BitVec.toNat_umod]
    exact Nat.div_add_mod _ _
  have hwords := (hwWord_feeds cpu).turns (len / 8#64).toNat crc p (by omega)
  have hbytes := (hwByte_feeds cpu).turns (len % 8#64).toNat
    (feed crc32cPoly crc (p.take (8 * (len / 8#64).toNat))) (p.drop (8 * (len / 8#64).toNat))
    (by rw [List.length_drop]; omega)
  rw [Nat.one_mul, feed_take_add, hlen] at hbytes
  rw [crc32cHw]
  simp only [Option.bind_eq_bind, Option.bind_some, hwords, Option.pure_def]
  split
  case isTrue => rw [hbytes]; rfl
  case isFalse hnone =>
      have hzero : (len % 8#64).toNat = 0 := congrArg BitVec.toNat (Decidable.not_not.mp hnone)
      rw [← hlen, hzero, Nat.add_zero]

/-- **Hardware and software agree**, on any processor that has the
instructions, from any register, for every buffer at every address, and
whichever branches the preprocessor kept. Neither reads past the
buffer. -/
theorem crc32cHw_eq_crc32c (cpu : Sse42) (bigEndian : Bool) (crc : BitVec 32) (addr : BitVec 64)
    (buffer : List (BitVec 8)) (length : BitVec 32) (h : length.toNat ≤ buffer.length) :
    ∃ r, crc32cHw cpu crc buffer (length.setWidth 64) = some r ∧
      crc32c bigEndian crc addr buffer length = some r := by
  refine ⟨_, ?_, crc32c_eq bigEndian crc addr h⟩
  rw [crc32cHw_eq cpu crc (by rwa [toNat_size]), toNat_size]

/-- A processor whose instructions are written out. -/
def referenceCpu : Sse42 where
  mmCrc32U8 := Crc.byte crc32cPoly
  mmCrc32U64 := fun crc v =>
    (feed crc32cPoly (crc.setWidth 32) (Crc.octets 8 v)).setWidth 64
  u8Step := fun _ _ => rfl
  u64Steps := fun _ _ => rfl

/-- `123456789`. -/
def digits : List (BitVec 8) :=
  [0x31#8, 0x32#8, 0x33#8, 0x34#8, 0x35#8, 0x36#8, 0x37#8, 0x38#8, 0x39#8]

-- the check value of CRC-32C, before its final inversion
example : crc32c false 0xFFFFFFFF#32 0#64 digits 9#32 = some (~~~0xE3069283#32) := by
  decide +kernel

theorem crc32cHw_eq_crc32c_digits :
    ∃ r, crc32cHw referenceCpu 0xFFFFFFFF#32 digits 9#64 = some r ∧
      crc32c true 0xFFFFFFFF#32 0x1001#64 digits 9#32 = some r :=
  crc32cHw_eq_crc32c referenceCpu true 0xFFFFFFFF#32 0x1001#64 digits 9#32 (by decide)

end MiscTools.Crc32
