import MiscTools.B64
import MiscTools.Base64
import MiscTools.Sizes

/-!
# The coders and the standard encoding

In every state the tables can be in, a call works with the same two,
the standard alphabet and its inverse (`ensureReady_correct`). With
these the encoder stores the standard encoding of its string, as far as
the buffer goes (`b64Encode_stores`), and the decoder, given a standard
encoding and room for it, stores what it stands for
(`b64Decode_stores`). The two meet in the grammar `Encodes`.
-/

namespace MiscTools

namespace B64

open Blocks Base64 Sizes

/-! ## The standard alphabet -/

/-- `A` to `Z`, `a` to `z`, `0` to `9`, `+` and `/`. -/
def alphabet : List UInt8 :=
  (List.range' 65 26 ++ List.range' 97 26 ++ List.range' 48 10 ++ [43, 47]).map UInt8.ofNat

/-- The inverse of `alphabet`, with zero for `=`. Other bytes are
invalid, all but the last, which is zero too. -/
def inverse : List UInt8 :=
  List.replicate 43 0x80 ++ [62] ++ List.replicate 3 0x80 ++ [63]
    ++ (List.range' 52 10).map UInt8.ofNat ++ List.replicate 3 0x80 ++ [0]
    ++ List.replicate 3 0x80 ++ (List.range' 0 26).map UInt8.ofNat ++ List.replicate 6 0x80
    ++ (List.range' 26 26).map UInt8.ofNat ++ List.replicate 132 0x80 ++ [0]

def char (v : Fin 64) : UInt8 := (alphabet[v.val]?).getD 0

theorem inverse_char : ∀ v : Fin 64, inverse[(char v).toNat]? = some (sextet v) := by
  decide +kernel

theorem char_injective (v w : Fin 64) (h : char v = char w) : v = w := by
  have hsext : sextet v = sextet w := by
    have hv := inverse_char v
    rw [h, inverse_char w] at hv
    exact (Option.some.inj hv).symm
  apply Fin.ext
  rw [← toNat_sextet v, hsext, toNat_sextet w]

/-- The standard alphabet, padded with `=`. -/
def standard : Alphabet UInt8 where
  char := char
  pad := chr '='
  injective := char_injective
  char_ne_pad := by decide +kernel

theorem standard_ne_nul {c : UInt8} (h : c = standard.pad ∨ ∃ v, c = standard.char v) :
    c ≠ 0 := by
  have hchar : ∀ v, char v ≠ 0 := by decide +kernel
  rcases h with rfl | ⟨v, rfl⟩
  · decide
  · exact hchar v

/-! ## The tables of a run -/

/-- The states of the tables: `b64_init` is all that writes them. -/
inductive Tables.Reached : Tables → Prop
  | zero : Reached Tables.zero
  | init {g : Tables} (h : Reached g) : Reached (b64Init g)

/-- The tables after `b64_init`. -/
def Tables.filled : Tables := { etable := alphabet, dtable := inverse, ready := true }

theorem foldl_set_range (x : UInt8) (t : List UInt8) :
    ∀ n, n ≤ t.length →
      (List.range n).foldl (fun t i => t.set i x) t = List.replicate n x ++ t.drop n := by
  intro n
  induction n with
  | zero => intro _; rfl
  | succ n ih =>
      intro hn
      rw [List.range_succ, List.foldl_append, ih (by omega)]
      show (List.replicate n x ++ t.drop n).set n x = _
      rw [List.set_append_right _ _ (by rw [List.length_replicate]), List.length_replicate,
        Nat.sub_self, List.drop_eq_getElem_cons hn, List.set_cons_zero, List.replicate_succ',
        List.append_assoc]
      rfl

/-- What the decoding table becomes depends on its last cell only. -/
theorem initDtable_eq {t : List UInt8} (h : t.drop 255 = [0]) : initDtable t = inverse := by
  have hlen := congrArg List.length h
  rw [List.length_drop, List.length_singleton] at hlen
  rw [initDtable, foldl_set_range 0x80 t 255 (by omega), h]
  decide +kernel

theorem b64Init_of_reached {g : Tables} (h : g.Reached) : b64Init g = Tables.filled := by
  have hzero : initEtable Tables.zero.etable = alphabet := by decide +kernel
  have hfilled : initEtable alphabet = alphabet := by decide +kernel
  induction h with
  | zero => rw [b64Init, hzero, initDtable_eq (by decide), Tables.filled]
  | init h ih => rw [ih, b64Init, initDtable_eq (by decide), Tables.filled, hfilled]

/-- Whatever was called before, a call works with the same tables. -/
theorem ensureReady_of_reached {g : Tables} (h : g.Reached) : ensureReady g = Tables.filled := by
  cases h with
  | zero => exact b64Init_of_reached Tables.Reached.zero
  | init h => rw [b64Init_of_reached h]; rfl

theorem read_char (v : Fin 64) :
    read Tables.filled.etable v.val = .ok (standard.char v) := by
  have hlt : v.val < alphabet.length := v.isLt
  show read alphabet v.val = .ok ((alphabet[v.val]?).getD 0)
  rw [read_of_lt hlt, List.getElem?_eq_getElem hlt]
  rfl

theorem lookup_char (v : Fin 64) :
    lookup Tables.filled (standard.char v) = .ok (some (sextet v)) := by
  have hvalid : ∀ v : Fin 64, sextet v &&& 0x80 = 0 := by decide
  have hread : read Tables.filled.dtable (standard.char v).toNat = .ok (sextet v) :=
    read_of_some (inverse_char v)
  simp only [lookup, hread]
  show Except.ok (if sextet v &&& 0x80 ≠ 0 then none else some (sextet v)) = _
  rw [if_neg (not_not.mpr (hvalid v))]

theorem lookup_pad : lookup Tables.filled standard.pad = .ok (some (sextet 0)) := by
  decide +kernel

/-! ## The encoder -/

/-- A group is the four digits of its bytes, and pads for those that
are not there. -/
theorem ogroup_eq (n : Nat) (i0 i1 i2 : UInt8) :
    ogroup Tables.filled n i0 i1 i2
      = .ok (if n < 3 then
          [standard.char (digit (bits i0 i1 i2) 3), standard.char (digit (bits i0 i1 i2) 2),
            if n < 2 then standard.pad else standard.char (digit (bits i0 i1 i2) 1), standard.pad]
        else
          [standard.char (digit (bits i0 i1 i2) 3), standard.char (digit (bits i0 i1 i2) 2),
            standard.char (digit (bits i0 i1 i2) 1), standard.char (digit (bits i0 i1 i2) 0)]) := by
  obtain ⟨h3, h2, h1, h0⟩ := digits_eq i0 i1 i2
  simp only [ogroup, h3, h2, h1, h0, read_char]
  show (if n < 3 then Except.ok _ else Except.ok _) = _
  by_cases hn : n < 3
  · rw [if_pos hn, if_pos hn]
    rfl
  · rw [if_neg hn, if_neg hn]

/-- What is stored is the encoding of what is read. -/
theorem encodeLoop_eq (nenc : UInt64) (p : List UInt8) : ∀ (j : Nat) (enc : List UInt8),
    encodeLoop Tables.filled nenc p j enc
      = store (nenc - 1).toNat (encode standard p) j enc := by
  induction p using encode.induct with
  | case1 => exact fun _ _ => rfl
  | case2 a =>
      intro j enc
      simp only [encodeLoop, ogroup_eq]
      rfl
  | case3 a b =>
      intro j enc
      simp only [encodeLoop, ogroup_eq]
      rfl
  | case4 a b c bs ih =>
      intro j enc
      simp only [encodeLoop, ogroup_eq, ih]
      exact (store_append
        [standard.char (digit (bits a b c) 3), standard.char (digit (bits a b c) 2),
          standard.char (digit (bits a b c) 1), standard.char (digit (bits a b c) 0)]
        (encode standard bs) j enc).symm

/-- **The encoder writes the standard encoding.** As much of it as fits
in the buffer, and a NUL after it. -/
theorem b64Encode_stores {g : Tables} (hg : g.Reached) (plain : CStr) {enc : List UInt8}
    {nenc : UInt64} (hn : nenc ≠ 0) (hlen : nenc.toNat ≤ enc.length) :
    ∃ enc', b64Encode g plain enc nenc = .ok (Tables.filled, enc')
      ∧ enc'.length = enc.length
      ∧ (encode standard plain.bytes).take (nenc.toNat - 1) ++ [0] <+: enc' := by
  have hpos := toNat_pos hn
  have hlim := toNat_sub_one hn
  obtain ⟨j, enc1, hstore, hlen1, hb⟩ :=
    store_begins (encode standard plain.bytes) (by omega) (Begins.empty (nenc - 1).toNat enc)
  obtain ⟨enc', hwrite, hlen', hpre⟩ := hb.write_end (by omega) 0
  refine ⟨enc', ?_, hlen'.trans hlen1, ?_⟩
  · rw [b64Encode, ensureReady_of_reached hg, encodeLoop_eq]
    simp only [hstore, hwrite, bind, Except.bind]
    rfl
  · rwa [List.nil_append, hlim] at hpre

/-! ## The decoder -/

/-- One turn of the loop, over bytes of known cells. -/
theorem decodeLoop_group {g : Tables} {ndecoded : UInt64} {a0 a1 a2 a3 b0 b1 b2 b3 : UInt8}
    (h0 : lookup g a0 = .ok (some b0)) (h1 : lookup g a1 = .ok (some b1))
    (h2 : lookup g a2 = .ok (some b2)) (h3 : lookup g a3 = .ok (some b3))
    (e : List UInt8) {j : Nat} (hj : j < (ndecoded - 1).toNat) (decoded : List UInt8) :
    decodeLoop g ndecoded (a0 :: a1 :: a2 :: a3 :: e) j decoded
      = store (ndecoded - 1).toNat
          ([b0 <<< 2 ||| b1 >>> 4, b1 <<< 4 ||| b2 >>> 2, b2 <<< 6 ||| b3].take
            (if a2 = chr '=' then 1 else if a3 = chr '=' then 2 else 3)) j decoded
        >>= fun r => decodeLoop g ndecoded e r.1 r.2 := by
  simp only [decodeLoop, if_pos hj, h0, h1, h2, h3, bind, Except.bind]

/-- One turn of the loop, over characters of known values. -/
theorem decodeLoop_turn {ndecoded : UInt64} {a0 a1 a2 a3 : UInt8} {w x y z : Fin 64}
    (h0 : lookup Tables.filled a0 = .ok (some (sextet w)))
    (h1 : lookup Tables.filled a1 = .ok (some (sextet x)))
    (h2 : lookup Tables.filled a2 = .ok (some (sextet y)))
    (h3 : lookup Tables.filled a3 = .ok (some (sextet z)))
    (e : List UInt8) {j : Nat} (hj : j < (ndecoded - 1).toNat) (decoded : List UInt8) :
    decodeLoop Tables.filled ndecoded (a0 :: a1 :: a2 :: a3 :: e) j decoded
      = store (ndecoded - 1).toNat
          ([byte (num w x y z) 2, byte (num w x y z) 1, byte (num w x y z) 0].take
            (if a2 = standard.pad then 1 else if a3 = standard.pad then 2 else 3)) j decoded
        >>= fun r => decodeLoop Tables.filled ndecoded e r.1 r.2 := by
  obtain ⟨hb2, hb1, hb0⟩ := bytes_eq w x y z
  rw [← hb2, ← hb1, ← hb0]
  exact decodeLoop_group h0 h1 h2 h3 e hj decoded

/-- Where the text is well formed and there is room, what is stored is
what the text stands for. -/
theorem decodeLoop_eq {ndecoded : UInt64} {e bs : List UInt8} (he : Encodes standard e bs) :
    ∀ {j : Nat} {decoded : List UInt8}, (ndecoded - 1).toNat ≤ decoded.length →
      j + bs.length < (ndecoded - 1).toNat →
      decodeLoop Tables.filled ndecoded e j decoded
        = store (ndecoded - 1).toNat bs j decoded >>= fun r => .ok (some r.1, r.2) := by
  induction he with
  | nil =>
      intro j decoded _ _
      rfl
  | one w x =>
      intro j decoded _ hroom
      rw [decodeLoop_turn (lookup_char w) (lookup_char x) lookup_pad lookup_pad [] (by omega),
        if_pos rfl]
      rfl
  | two w x y =>
      intro j decoded _ hroom
      rw [decodeLoop_turn (lookup_char w) (lookup_char x) (lookup_char y) lookup_pad [] (by omega),
        if_neg (standard.char_ne_pad y), if_pos rfl]
      rfl
  | @group w x y z e bs he ih =>
      intro j decoded hlim hroom
      simp only [List.length_cons] at hroom
      let group := [byte (num w x y z) 2, byte (num w x y z) 1, byte (num w x y z) 0]
      have hj : j + group.length < (ndecoded - 1).toNat := by
        show j + 3 < _
        omega
      obtain ⟨decoded1, hstore, hlen⟩ := store_fits group hlim (Nat.le_of_lt hj)
      rw [decodeLoop_turn (lookup_char w) (lookup_char x) (lookup_char y) (lookup_char z) _
        (by omega), if_neg (standard.char_ne_pad y), if_neg (standard.char_ne_pad z)]
      show (store (ndecoded - 1).toNat group j decoded >>= _)
        = (store (ndecoded - 1).toNat (group ++ bs) j decoded >>= _)
      rw [store_append, hstore]
      exact ih (by rwa [hlen]) (by show j + 3 + bs.length < _; omega)

theorem toNat_minDecodedBuflen (el : UInt64) :
    (minDecodedBuflen el).toNat = (el.toNat / 4 + 1) * 3 + 1 := by
  have hlt := el.toNat_lt
  have hdiv : (el / 4).toNat = el.toNat / 4 := UInt64.toNat_div el 4
  rw [minDecodedBuflen, UInt64.toNat_add, UInt64.toNat_mul, UInt64.toNat_add, hdiv]
  show ((el.toNat / 4 + 1) % 2 ^ 64 * 3 % 2 ^ 64 + 1) % 2 ^ 64 = _
  omega

/-- In a buffer that is large enough only the length of the text is
checked. -/
theorem size_check_iff {len : Nat} {ndecoded : UInt64}
    (hn : (len / 4 + 1) * 3 + 1 ≤ ndecoded.toNat) :
    (UInt64.ofNat len % 4 ≠ 0 ∨ ndecoded < minDecodedBuflen (UInt64.ofNat len))
      ↔ len % 4 ≠ 0 := by
  have hof : (UInt64.ofNat len).toNat = len % 2 ^ 64 := UInt64.toNat_ofNat'
  have hroom : ¬ndecoded < minDecodedBuflen (UInt64.ofNat len) := by
    rw [UInt64.lt_iff_toNat_lt, toNat_minDecodedBuflen, hof]
    omega
  have hmod : (UInt64.ofNat len % 4).toNat = len % 4 := by
    rw [UInt64.toNat_mod, hof]
    show len % 2 ^ 64 % 4 = len % 4
    omega
  rw [or_iff_left hroom]
  refine not_congr ⟨?_, ?_⟩
  · intro h
    rw [← hmod, h]
    rfl
  · intro h
    exact UInt64.toNat_inj.mp (hmod.trans h)

/-- **The decoder reads the standard encoding.** Given room for the
bytes a text stands for, it stores them, and a NUL after them. -/
theorem b64Decode_stores {g : Tables} (hg : g.Reached) {encoded : CStr} {bs : List UInt8}
    (he : Encodes standard encoded.bytes bs) {decoded : List UInt8} {ndecoded : UInt64}
    (hn : (encoded.strlen / 4 + 1) * 3 + 1 ≤ ndecoded.toNat)
    (hlen : ndecoded.toNat ≤ decoded.length) :
    ∃ decoded', b64Decode g encoded decoded ndecoded = .ok (Tables.filled, none, decoded')
      ∧ decoded'.length = decoded.length ∧ bs ++ [0] <+: decoded' := by
  obtain ⟨hmod, hbs⟩ : encoded.strlen % 4 = 0 ∧ bs.length ≤ 3 * (encoded.strlen / 4) := he.length
  have hne : ndecoded ≠ 0 := by
    rintro rfl
    rw [UInt64.toNat_zero] at hn
    omega
  have hlim := toNat_sub_one hne
  have hroom : bs.length < (ndecoded - 1).toNat := by omega
  obtain ⟨j, decoded1, hstore, hlen1, hb⟩ :=
    store_begins bs (by omega) (Begins.empty (ndecoded - 1).toNat decoded)
  have hloop : decodeLoop Tables.filled ndecoded encoded.bytes 0 decoded
      = .ok (some j, decoded1) := by
    rw [decodeLoop_eq he (by omega) (by rwa [Nat.zero_add]), hstore]
    rfl
  obtain ⟨decoded', hwrite, hlen', hpre⟩ := hb.write_end (by omega) 0
  have hsize : ¬(UInt64.ofNat encoded.strlen % 4 ≠ 0
      ∨ ndecoded < minDecodedBuflen (UInt64.ofNat encoded.strlen)) := by
    rw [size_check_iff hn]
    exact not_not.mpr hmod
  refine ⟨decoded', ?_, hlen'.trans hlen1, ?_⟩
  · rw [b64Decode, ensureReady_of_reached hg]
    simp only [if_neg hsize, hloop, hwrite, bind, Except.bind]
    rfl
  · rwa [List.nil_append, List.take_of_length_le (by omega)] at hpre

/-! ## The round trip -/

/-- **A decoded encoding is the string again.** For any string and any
two buffers large enough, the encoder leaves a string `e` in the first
and the decoder, called on `e`, succeeds and leaves the original bytes
and a NUL in the second. The tables are as any earlier calls left them
before either. -/
theorem decode_encode {g h : Tables} (hg : g.Reached) (hh : h.Reached) (s : CStr)
    {enc decoded : List UInt8} {nenc ndecoded : UInt64}
    (henc : nenc.toNat ≤ enc.length) (hdec : ndecoded.toNat ≤ decoded.length)
    (hn : (s.strlen / 3 + 1) * 4 + 1 ≤ nenc.toNat)
    (hd : (4 * ((s.strlen + 2) / 3) / 4 + 1) * 3 + 1 ≤ ndecoded.toNat) :
    ∃ g' enc' e h' decoded', b64Encode g s enc nenc = .ok (g', enc')
      ∧ CStr.ofBlock enc' = some e
      ∧ b64Decode h e decoded ndecoded = .ok (h', none, decoded')
      ∧ s.bytes ++ [0] <+: decoded' := by
  have hne : nenc ≠ 0 := by
    rintro rfl
    rw [UInt64.toNat_zero] at hn
    omega
  obtain ⟨enc', hencode, -, hpre⟩ := b64Encode_stores hg s hne henc
  have hlen : (encode standard s.bytes).length = 4 * ((s.strlen + 2) / 3) := length_encode _ _
  have hgram := encode_encodes standard s.bytes
  rw [List.take_of_length_le (by omega)] at hpre
  let e : CStr := ⟨encode standard s.bytes, fun h0 => standard_ne_nul (hgram.mem h0) rfl⟩
  have helen : e.strlen = 4 * ((s.strlen + 2) / 3) := hlen
  have hroom : (e.strlen / 4 + 1) * 3 + 1 ≤ ndecoded.toNat := by
    rw [helen]
    exact hd
  obtain ⟨decoded', hdecode, -, hout⟩ := b64Decode_stores hh hgram hroom hdec
  exact ⟨_, enc', e, _, decoded', hencode, CStr.ofBlock_of_prefix hpre, hdecode, hout⟩

/-- Two bytes, so that the text ends in one pad. -/
def twoBytes : CStr := ⟨[0x4d, 0xff], by decide⟩

theorem decode_encode_twoBytes :
    ∃ g' enc' e h' decoded', b64Encode Tables.zero twoBytes (List.replicate 5 1) 5 = .ok (g', enc')
      ∧ CStr.ofBlock enc' = some e
      ∧ b64Decode (b64Init Tables.zero) e (List.replicate 7 1) 7 = .ok (h', none, decoded')
      ∧ twoBytes.bytes ++ [0] <+: decoded' :=
  decode_encode Tables.Reached.zero (Tables.Reached.init Tables.Reached.zero) twoBytes
    (by decide) (by decide) (by decide) (by decide)

end B64

end MiscTools
