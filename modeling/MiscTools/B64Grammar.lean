import MiscTools.B64Codec

/-!
# What the decoder accepts

The decoder tests the length of a text and, byte by byte, one bit of its
table. That bit is clear for the pad wherever it stands, and for the
byte 255, which the loop that marks the table does not reach: a text of
such bytes is decoded, well formed or not (`b64Decode_total`). On all
other texts the decoder accepts the grammar and nothing else
(`decode_accepts_iff`).

The last section is about the two functions that allocate. Both encode,
so what the one makes of the other's result is longer than the string
they started from (`wrappers_disagree`).
-/

namespace MiscTools

namespace B64

open Blocks Base64 Sizes

/-! ## Bytes the table lets through -/

/-- A byte without the bit of an invalid one. -/
def Tolerated (c : UInt8) : Prop := c = 0xff ∨ c = standard.pad ∨ ∃ v, c = standard.char v

theorem lookup_tolerated {c : UInt8} (h : Tolerated c) :
    ∃ b, lookup Tables.filled c = .ok (some b) := by
  rcases h with rfl | rfl | ⟨v, rfl⟩
  · exact ⟨0, by decide +kernel⟩
  · exact ⟨_, lookup_pad⟩
  · exact ⟨_, lookup_char v⟩

/-- The cells without the bit are those of the tolerated bytes: the cell
of a character holds its value. -/
theorem tolerated_of_bit : ∀ p ∈ inverse.zipIdx, p.1 &&& 0x80 = 0 →
    UInt8.ofNat p.2 = 0xff ∨ UInt8.ofNat p.2 = standard.pad
      ∨ UInt8.ofNat p.2 = standard.char (Fin.ofNat 64 p.1.toNat) := by
  decide +kernel

theorem lookup_invalid {c : UInt8} (h : ¬Tolerated c) : lookup Tables.filled c = .ok none := by
  have hlen : inverse.length = 256 := by decide +kernel
  have hlt : c.toNat < inverse.length := by rw [hlen]; exact c.toNat_lt
  have hcell : (inverse[c.toNat], c.toNat) ∈ inverse.zipIdx :=
    List.mk_mem_zipIdx_iff_getElem?.mpr (List.getElem?_eq_getElem hlt)
  have hbit : inverse[c.toNat] &&& 0x80 ≠ 0 := by
    intro hclear
    have htol := tolerated_of_bit _ hcell hclear
    rw [UInt8.ofNat_toNat] at htol
    exact h (htol.imp_right (Or.imp_right fun hchar => ⟨_, hchar⟩))
  have hread : read Tables.filled.dtable c.toNat = .ok inverse[c.toNat] := read_of_lt hlt
  rw [lookup, hread]
  show Except.ok (if inverse[c.toNat] &&& 0x80 ≠ 0 then none else some inverse[c.toNat]) = _
  rw [if_pos hbit]

/-! ## The decoder on any text -/

/-- The loop stops at a group with an invalid byte. -/
theorem decodeLoop_invalid {ndecoded : UInt64} {a0 a1 a2 a3 : UInt8} (e : List UInt8) {j : Nat}
    (hj : j < (ndecoded - 1).toNat) (decoded : List UInt8)
    (hbad : ¬∀ c ∈ [a0, a1, a2, a3], Tolerated c) :
    decodeLoop Tables.filled ndecoded (a0 :: a1 :: a2 :: a3 :: e) j decoded
      = .ok (none, decoded) := by
  simp only [List.forall_mem_cons, List.not_mem_nil, false_implies, implies_true, and_true] at hbad
  rw [decodeLoop, if_pos hj]
  by_cases h0 : Tolerated a0
  swap
  · rw [lookup_invalid h0]
    rfl
  obtain ⟨b0, hb0⟩ := lookup_tolerated h0
  by_cases h1 : Tolerated a1
  swap
  · rw [hb0, lookup_invalid h1]
    rfl
  obtain ⟨b1, hb1⟩ := lookup_tolerated h1
  by_cases h2 : Tolerated a2
  swap
  · rw [hb0, hb1, lookup_invalid h2]
    rfl
  obtain ⟨b2, hb2⟩ := lookup_tolerated h2
  have h3 : ¬Tolerated a3 := fun h3 => hbad ⟨h0, h1, h2, h3⟩
  rw [hb0, hb1, hb2, lookup_invalid h3]
  rfl

/-- A turn of the loop ends it at an invalid byte, or stores at most three
bytes. -/
theorem decodeLoop_step {ndecoded : UInt64} (a0 a1 a2 a3 : UInt8) (e : List UInt8) {j : Nat}
    (hj : j < (ndecoded - 1).toNat) :
    ((∃ c ∈ [a0, a1, a2, a3], ¬Tolerated c)
        ∧ ∀ decoded, decodeLoop Tables.filled ndecoded (a0 :: a1 :: a2 :: a3 :: e) j decoded
            = .ok (none, decoded))
      ∨ (∀ c ∈ [a0, a1, a2, a3], Tolerated c)
        ∧ ∃ group : List UInt8, group.length ≤ 3
          ∧ ∀ decoded, decodeLoop Tables.filled ndecoded (a0 :: a1 :: a2 :: a3 :: e) j decoded
              = store (ndecoded - 1).toNat group j decoded
                >>= fun r => decodeLoop Tables.filled ndecoded e r.1 r.2 := by
  by_cases hall : ∀ c ∈ [a0, a1, a2, a3], Tolerated c
  · obtain ⟨b0, hb0⟩ := lookup_tolerated (hall a0 (by simp))
    obtain ⟨b1, hb1⟩ := lookup_tolerated (hall a1 (by simp))
    obtain ⟨b2, hb2⟩ := lookup_tolerated (hall a2 (by simp))
    obtain ⟨b3, hb3⟩ := lookup_tolerated (hall a3 (by simp))
    exact Or.inr ⟨hall, _, List.length_take_le' _ _,
      fun decoded => decodeLoop_group hb0 hb1 hb2 hb3 e hj decoded⟩
  · refine Or.inl ⟨?_, fun decoded => decodeLoop_invalid e hj decoded hall⟩
    simpa only [not_forall, exists_prop] using hall

/-- Either a byte is invalid, or all go through and no group stores more
than three bytes. -/
theorem decodeLoop_total {ndecoded : UInt64} :
    ∀ (e : List UInt8), e.length % 4 = 0 → ∀ {out decoded : List UInt8} {j : Nat},
      (ndecoded - 1).toNat ≤ decoded.length →
      out.length + 3 * (e.length / 4) < (ndecoded - 1).toNat →
      Begins (ndecoded - 1).toNat out j decoded →
      (∃ decoded', decodeLoop Tables.filled ndecoded e j decoded = .ok (none, decoded')
          ∧ ∃ c ∈ e, ¬Tolerated c)
        ∨ ∃ out' j' decoded',
            decodeLoop Tables.filled ndecoded e j decoded = .ok (some j', decoded')
              ∧ decoded'.length = decoded.length ∧ (∀ c ∈ e, Tolerated c)
              ∧ out'.length ≤ out.length + 3 * (e.length / 4)
              ∧ Begins (ndecoded - 1).toNat out' j' decoded'
  | [], _, out, decoded, j, _, _, h =>
      Or.inr ⟨out, j, decoded, rfl, rfl, by simp, by simp, h⟩
  | [_], hlen, _, _, _, _, _, _ => by simp at hlen
  | [_, _], hlen, _, _, _, _, _, _ => by simp at hlen
  | [_, _, _], hlen, _, _, _, _, _, _ => by simp at hlen
  | a0 :: a1 :: a2 :: a3 :: e, hlen, out, decoded, j, hlim, hroom, h => by
      simp only [List.length_cons] at hlen hroom
      have hj : j < (ndecoded - 1).toNat := h.lt (by omega)
      rcases decodeLoop_step a0 a1 a2 a3 e hj with
        ⟨⟨c, hc, hbad⟩, hstop⟩ | ⟨hall, group, hgroup, hturn⟩
      · exact Or.inl ⟨decoded, hstop decoded, c, List.mem_append_left e hc, hbad⟩
      obtain ⟨j1, decoded1, heq1, hlen1, hb⟩ := store_begins group hlim h
      have hnext : decodeLoop Tables.filled ndecoded (a0 :: a1 :: a2 :: a3 :: e) j decoded
          = decodeLoop Tables.filled ndecoded e j1 decoded1 := by
        rw [hturn, heq1]
        rfl
      have hout : (out ++ group).length ≤ out.length + 3 := by
        rw [List.length_append]
        omega
      rw [hnext]
      rcases decodeLoop_total e (by omega) (by rwa [hlen1]) (by omega) hb with
        ⟨decoded', heq, c, hc, hbad⟩ | ⟨out', j', decoded', heq, hlen', hrest, hle, hb'⟩
      · exact Or.inl ⟨decoded', heq, c, by simp [hc], hbad⟩
      · refine Or.inr ⟨out', j', decoded', heq, hlen'.trans hlen1, ?_, ?_, hb'⟩
        · intro c hc
          rcases List.mem_append.mp (show c ∈ [a0, a1, a2, a3] ++ e from hc) with hc | hc
          · exact hall c hc
          · exact hrest c hc
        · simp only [List.length_cons]
          omega

/-- **The decoder on any text.** In a buffer that is large enough it
succeeds on whole groups of tolerated bytes, with at most three bytes a
group, and fails on all other texts. -/
theorem b64Decode_total {g : Tables} (hg : g.Reached) (encoded : CStr) {decoded : List UInt8}
    {ndecoded : UInt64} (hn : (encoded.strlen / 4 + 1) * 3 + 1 ≤ ndecoded.toNat)
    (hlen : ndecoded.toNat ≤ decoded.length) :
    (∃ err decoded', b64Decode g encoded decoded ndecoded = .ok (Tables.filled, some err, decoded')
        ∧ ¬(encoded.strlen % 4 = 0 ∧ ∀ c ∈ encoded.bytes, Tolerated c))
      ∨ ∃ out decoded', b64Decode g encoded decoded ndecoded = .ok (Tables.filled, none, decoded')
          ∧ encoded.strlen % 4 = 0 ∧ (∀ c ∈ encoded.bytes, Tolerated c)
          ∧ out.length ≤ 3 * (encoded.strlen / 4) ∧ out ++ [0] <+: decoded' := by
  have hcheck := size_check_iff hn
  have hne : ndecoded ≠ 0 := by
    rintro rfl
    rw [UInt64.toNat_zero] at hn
    omega
  have hlim := toNat_sub_one hne
  by_cases hmod : encoded.strlen % 4 = 0
  swap
  · refine Or.inl ⟨.EMSGSIZE, decoded, ?_, fun h => hmod h.1⟩
    rw [b64Decode, ensureReady_of_reached hg]
    simp only [if_pos (hcheck.mpr hmod)]
    rfl
  have hsize := mt hcheck.mp (not_not.mpr hmod)
  rcases decodeLoop_total encoded.bytes hmod (by omega)
    (by show [].length + 3 * (encoded.strlen / 4) < _; rw [List.length_nil]; omega)
    (Begins.empty (ndecoded - 1).toNat decoded) with
    ⟨decoded', hloop, c, hc, hbad⟩ | ⟨out, j, decoded1, hloop, hlen1, hall, hle, hb⟩
  · refine Or.inl ⟨.EINVAL, decoded', ?_, fun h => hbad (h.2 c hc)⟩
    rw [b64Decode, ensureReady_of_reached hg]
    simp only [if_neg hsize, hloop, bind, Except.bind]
    rfl
  · have hout : out.length ≤ 3 * (encoded.strlen / 4) := by
      rw [List.length_nil, Nat.zero_add] at hle
      exact hle
    obtain ⟨decoded', hwrite, -, hpre⟩ := hb.write_end (by omega) 0
    rw [List.take_of_length_le (by omega)] at hpre
    refine Or.inr ⟨out, decoded', ?_, hmod, hall, hout, hpre⟩
    rw [b64Decode, ensureReady_of_reached hg]
    simp only [if_neg hsize, hloop, hwrite, bind, Except.bind]
    rfl

/-! ## The grammar -/

/-- The decoder accepts the grammar and nothing else, and what it
stores is what the text stands for. -/
def DecodesGrammar (g : Tables) (encoded : CStr) (decoded : List UInt8) (ndecoded : UInt64) :
    Prop :=
  ∃ g' r decoded', b64Decode g encoded decoded ndecoded = .ok (g', r, decoded')
    ∧ (r = none ↔ WellFormed standard encoded.bytes)
    ∧ (r = none → ∃ bs, Encodes standard encoded.bytes bs ∧ bs ++ [0] <+: decoded')
    ∧ (r ≠ none → r = some .EMSGSIZE ∨ r = some .EINVAL)

/-- No byte 255, and pads only as the last or the last two bytes. -/
def PadsLast (e : List UInt8) : Prop :=
  0xff ∉ e ∧ ∃ p k, k ≤ 2 ∧ e = p ++ List.replicate k standard.pad ∧ standard.pad ∉ p

theorem wellFormed_iff_padsLast {e : List UInt8} :
    WellFormed standard e
      ↔ (e.length % 4 = 0 ∧ ∀ c ∈ e, Tolerated c) ∧ PadsLast e := by
  have hff : ∀ v, standard.char v ≠ 0xff := by decide +kernel
  constructor
  · rintro ⟨hlen, p, k, hk, rfl, hp⟩
    have hpad : ∀ c ∈ List.replicate k standard.pad, c = standard.pad :=
      fun c hc => List.eq_of_mem_replicate hc
    refine ⟨⟨hlen, ?_⟩, ?_, p, k, hk, rfl, ?_⟩
    · intro c hc
      rcases List.mem_append.mp hc with hc | hc
      · exact Or.inr (Or.inr (hp c hc))
      · exact Or.inr (Or.inl (hpad c hc))
    · intro hmem
      rcases List.mem_append.mp hmem with hmem | hmem
      · obtain ⟨v, hv⟩ := hp _ hmem
        exact hff v hv.symm
      · have hne : (0xff : UInt8) ≠ standard.pad := by decide
        exact hne (hpad _ hmem)
    · intro hmem
      obtain ⟨v, hv⟩ := hp _ hmem
      exact standard.char_ne_pad v hv.symm
  · rintro ⟨⟨hlen, hall⟩, hno, p, k, hk, rfl, hpad⟩
    refine ⟨hlen, p, k, hk, rfl, ?_⟩
    intro c hc
    rcases hall c (List.mem_append_left _ hc) with rfl | rfl | hv
    · exact absurd (List.mem_append_left _ hc) hno
    · exact absurd hc hpad
    · exact hv

/-- **Where the decoder and the grammar agree.** They differ on exactly
the texts of tolerated bytes, of a length that is a multiple of four,
in which a 255 occurs or a pad that is not at the end. -/
theorem decode_accepts_iff {g : Tables} (hg : g.Reached) (encoded : CStr) {decoded : List UInt8}
    {ndecoded : UInt64} (hn : (encoded.strlen / 4 + 1) * 3 + 1 ≤ ndecoded.toNat)
    (hlen : ndecoded.toNat ≤ decoded.length) :
    DecodesGrammar g encoded decoded ndecoded
      ↔ (encoded.strlen % 4 = 0 ∧ (∀ c ∈ encoded.bytes, Tolerated c) → PadsLast encoded.bytes) := by
  constructor
  · rintro ⟨g', r, decoded', heq, hiff, -, -⟩ ⟨hmod, hall⟩
    rcases b64Decode_total hg encoded hn hlen with ⟨err, _, -, hbad⟩ | ⟨_, _, hok, -⟩
    · exact absurd ⟨hmod, hall⟩ hbad
    · have hr : r = none := by
        rw [hok] at heq
        cases heq
        rfl
      exact (wellFormed_iff_padsLast.mp (hiff.mp hr)).2
  · intro hcond
    rcases b64Decode_total hg encoded hn hlen with
      ⟨err, decoded', heq, hbad⟩ | ⟨_, _, -, hmod, hall, -⟩
    · refine ⟨_, some err, decoded', heq, ?_, by simp, ?_⟩
      · refine ⟨by simp, fun hwf => absurd (wellFormed_iff_padsLast.mp hwf).1 hbad⟩
      · intro _
        cases err with
        | EMSGSIZE => exact Or.inl rfl
        | EINVAL => exact Or.inr rfl
    · have hwf : WellFormed standard encoded.bytes :=
        wellFormed_iff_padsLast.mpr ⟨⟨hmod, hall⟩, hcond ⟨hmod, hall⟩⟩
      obtain ⟨bs, hbs⟩ := wellFormed_iff.mp hwf
      obtain ⟨decoded', heq, -, hpre⟩ := b64Decode_stores hg hbs hn hlen
      exact ⟨_, none, decoded', heq, by simp [hwf], fun _ => ⟨bs, hbs, hpre⟩, by simp⟩

/-- `TQ==`, a well-formed text. -/
def oneByte : CStr := ⟨[0x54, 0x51, 0x3d, 0x3d], by decide⟩

theorem decode_accepts_iff_oneByte :
    DecodesGrammar Tables.zero oneByte (List.replicate 7 1) 7
      ↔ (oneByte.strlen % 4 = 0 ∧ (∀ c ∈ oneByte.bytes, Tolerated c) → PadsLast oneByte.bytes) :=
  decode_accepts_iff Tables.Reached.zero oneByte (by decide) (by decide)

/-- `TQ=A`, with a pad before the last character. -/
def padInside : CStr := ⟨[0x54, 0x51, 0x3d, 0x41], by decide⟩

theorem padInside_accepted :
    (padInside.strlen / 4 + 1) * 3 + 1 ≤ (7 : UInt64).toNat
      ∧ ¬DecodesGrammar Tables.zero padInside (List.replicate 7 1) 7 := by
  refine ⟨by decide, ?_⟩
  rintro ⟨g', r, decoded', heq, hiff, -, -⟩
  have hr : r = none := by
    have hrun : b64Decode Tables.zero padInside (List.replicate 7 1) 7
        = .ok (Tables.filled, none, [0x4d, 0, 1, 1, 1, 1, 1]) := by
      rw [b64Decode, ensureReady_of_reached Tables.Reached.zero]
      decide +kernel
    rw [hrun] at heq
    cases heq
    rfl
  obtain ⟨-, p, k, -, hsplit, hp⟩ := hiff.mp hr
  cases k with
  | zero =>
      -- no pads at the end, and one among the characters
      rw [List.replicate_zero, List.append_nil] at hsplit
      obtain ⟨v, hv⟩ := hp standard.pad (hsplit ▸ by decide)
      exact standard.char_ne_pad v hv.symm
  | succ k =>
      rw [List.replicate_succ', ← List.append_assoc] at hsplit
      have hlast := congrArg List.getLast? hsplit
      rw [List.getLast?_concat] at hlast
      exact absurd hlast (by decide)

/-! ## Strings in fresh memory -/

theorem Tables.reached_filled : Tables.filled.Reached := by
  rw [← b64Init_of_reached Tables.Reached.zero]
  exact Tables.Reached.init Tables.Reached.zero

/-- As much as fits of the encoding, as a string. -/
def encoding (s : CStr) (n : Nat) : CStr :=
  ⟨(encode standard s.bytes).take n, fun h0 =>
    standard_ne_nul ((encode_encodes standard s.bytes).mem (List.mem_of_mem_take h0)) rfl⟩

theorem strlen_encoding (s : CStr) (n : Nat) :
    (encoding s n).strlen = min n (4 * ((s.strlen + 2) / 3)) := by
  show ((encode standard s.bytes).take n).length = _
  rw [List.length_take, length_encode]
  rfl

/-- What either function returns, if it is not NULL. -/
theorem newB64_eq_some {buflen : UInt64 → UInt64} {m : Malloc} {g g' : Tables} {s : CStr}
    {b : List UInt8} (hg : g.Reached) (hn : buflen (UInt64.ofNat s.strlen) ≠ 0)
    (h : newB64 buflen m g (some s) = .ok (g', some b)) :
    g' = Tables.filled
      ∧ CStr.ofBlock b = some (encoding s ((buflen (UInt64.ofNat s.strlen)).toNat - 1)) := by
  simp only [newB64] at h
  by_cases hlen : UInt64.ofNat s.strlen < 1
  · rw [if_pos hlen] at h
    cases h
  rw [if_neg hlen] at h
  cases hm : m.block (buflen (UInt64.ofNat s.strlen)) with
  | none =>
      rw [hm] at h
      cases h
  | some b0 =>
      obtain ⟨b', heq, -, hpre⟩ :=
        b64Encode_stores hg s hn (Nat.le_of_eq (m.length_block hm).symm)
      rw [hm] at h
      simp only [heq] at h
      cases h
      exact ⟨rfl, CStr.ofBlock_of_prefix hpre⟩

/-- Given memory, either function returns a string for any non-empty
one. -/
theorem newB64_of_block {buflen : UInt64 → UInt64} {m : Malloc} {g : Tables} {s : CStr}
    (hg : g.Reached) (hn : buflen (UInt64.ofNat s.strlen) ≠ 0)
    (hlen : UInt64.ofNat s.strlen ≠ 0)
    (hm : m.block (buflen (UInt64.ofNat s.strlen)) ≠ none) :
    ∃ b, newB64 buflen m g (some s) = .ok (Tables.filled, some b) := by
  obtain ⟨b0, hb0⟩ := Option.ne_none_iff_exists'.mp hm
  obtain ⟨b', heq, -, -⟩ := b64Encode_stores hg s hn (Nat.le_of_eq (m.length_block hb0).symm)
  have hpos : ¬UInt64.ofNat s.strlen < 1 := by
    rw [UInt64.lt_one_iff]
    exact hlen
  refine ⟨b', ?_⟩
  simp only [newB64, if_neg hpos, hb0, heq]
  rfl

theorem toNat_minEncodedBuflen (l : UInt64) :
    (minEncodedBuflen l).toNat = ((l.toNat / 3 + 1) * 4 + 1) % 2 ^ 64 := by
  have hdiv : (l / 3).toNat = l.toNat / 3 := UInt64.toNat_div l 3
  rw [minEncodedBuflen, UInt64.toNat_add, UInt64.toNat_mul, UInt64.toNat_add, hdiv]
  show ((l.toNat / 3 + 1) % 2 ^ 64 * 4 % 2 ^ 64 + 1) % 2 ^ 64 = _
  omega

theorem minEncodedBuflen_ne_zero (l : UInt64) : minEncodedBuflen l ≠ 0 := by
  intro h
  have hnat := toNat_minEncodedBuflen l
  rw [h, UInt64.toNat_zero] at hnat
  omega

theorem minDecodedBuflen_ne_zero (el : UInt64) : minDecodedBuflen el ≠ 0 := by
  intro h
  have hnat := toNat_minDecodedBuflen el
  rw [h, UInt64.toNat_zero] at hnat
  omega

/-- `new_b64_decoded(new_b64_encoded(s))` is a string equal to `s`. -/
def RoundTrips (m : Malloc) (g : Tables) (s : CStr) : Prop :=
  ∃ g1 b1 e g2 b2, newB64Encoded m g (some s) = .ok (g1, some b1) ∧ CStr.ofBlock b1 = some e
    ∧ newB64Decoded m g1 (some e) = .ok (g2, some b2) ∧ CStr.ofBlock b2 = some s

/-- `new_b64_decoded(e)` succeeds where `b64_decode` does, and then
both leave the same string. -/
def Agrees (m : Malloc) (g : Tables) (e : CStr) (decoded : List UInt8) (ndecoded : UInt64) :
    Prop :=
  ∃ g1 b g2 r decoded', newB64Decoded m g (some e) = .ok (g1, b)
    ∧ b64Decode g e decoded ndecoded = .ok (g2, r, decoded')
    ∧ (b ≠ none ↔ r = none) ∧ ∀ t, b = some t → CStr.ofBlock t = CStr.ofBlock decoded'

/-- What `new_b64_decoded` returns is as long as its block, which is
longer than anything the text can stand for. -/
theorem newB64Decoded_length {m : Malloc} {g g' : Tables} {e d : CStr} {b : List UInt8}
    (hg : g.Reached) (h : newB64Decoded m g (some e) = .ok (g', some b))
    (hd : CStr.ofBlock b = some d) :
    d.strlen = min (3 * (e.strlen % 2 ^ 64 / 4) + 3) (4 * ((e.strlen + 2) / 3)) := by
  have hof : (UInt64.ofNat e.strlen).toNat = e.strlen % 2 ^ 64 := UInt64.toNat_ofNat'
  have hstr := (newB64_eq_some hg (minDecodedBuflen_ne_zero _) h).2
  rw [hd, toNat_minDecodedBuflen, hof] at hstr
  rw [Option.some.inj hstr, strlen_encoding]
  omega

theorem not_roundTrips {m : Malloc} {g : Tables} {s : CStr} (hg : g.Reached)
    (hs : s.strlen ≠ 0) : ¬RoundTrips m g s := by
  rintro ⟨g1, b1, e, g2, b2, henc, he, hdec, hs2⟩
  obtain ⟨rfl, hb1⟩ := newB64_eq_some hg (minEncodedBuflen_ne_zero _) henc
  have hlen := newB64Decoded_length Tables.reached_filled hdec hs2
  have hof : (UInt64.ofNat s.strlen).toNat = s.strlen % 2 ^ 64 := UInt64.toNat_ofNat'
  rw [he, toNat_minEncodedBuflen, hof] at hb1
  -- the text is whole groups, as many as the string or, cut off, fewer
  obtain ⟨q, hq, hlt⟩ : ∃ q, e.strlen = 4 * q ∧ 4 * q < 2 ^ 64 := by
    rw [Option.some.inj hb1, strlen_encoding]
    exact ⟨_, (Nat.mul_div_cancel' (by omega)).symm, by omega⟩
  have htext := congrArg CStr.strlen (Option.some.inj hb1)
  rw [strlen_encoding, hq] at htext
  rw [hq] at hlen
  have hthree : s.strlen = 3 * q + 3 := by omega
  by_cases hfit : s.strlen < 2 ^ 64
  · rw [Nat.mod_eq_of_lt hfit] at htext
    omega
  · omega

theorem not_agrees {m : Malloc} {g : Tables} {e : CStr} {decoded : List UInt8}
    {ndecoded : UInt64} (hg : g.Reached) (hne : e.strlen ≠ 0) (hsize : e.strlen < 2 ^ 64)
    (hn : (e.strlen / 4 + 1) * 3 + 1 ≤ ndecoded.toNat) (hlen : ndecoded.toNat ≤ decoded.length)
    (hm : m.block (minDecodedBuflen (UInt64.ofNat e.strlen)) ≠ none) :
    ¬Agrees m g e decoded ndecoded := by
  have hof : (UInt64.ofNat e.strlen).toNat = e.strlen := by
    rw [UInt64.toNat_ofNat', Nat.mod_eq_of_lt hsize]
  have hpos : UInt64.ofNat e.strlen ≠ 0 := by
    intro h0
    rw [h0, UInt64.toNat_zero] at hof
    exact hne hof.symm
  obtain ⟨b, hb⟩ := newB64_of_block hg (minDecodedBuflen_ne_zero _) hpos hm
  rintro ⟨g1, b', g2, r, decoded', hnew, hdec, hiff, hsame⟩
  rw [newB64Decoded, hb] at hnew
  cases hnew
  rcases b64Decode_total hg e hn hlen with ⟨err, _, heq, -⟩ | ⟨out, _, heq, -, -, hle, hpre⟩
  · rw [heq] at hdec
    cases hdec
    exact absurd (hiff.mp (by simp)) (by simp)
  · rw [heq] at hdec
    cases hdec
    -- both succeed, and the decoded text is the shorter string
    obtain ⟨d, hd, hdle⟩ := CStr.ofBlock_of_nul hpre
    have hlong := newB64Decoded_length hg hb ((hsame b rfl).trans hd)
    omega

/-- **The allocating functions never invert each other.** No string
comes back from the two of them, and on no text does `new_b64_decoded`
agree with `b64_decode`: it encodes once more. -/
theorem wrappers_disagree {g : Tables} (hg : g.Reached) (m : Malloc) :
    (∀ s : CStr, s.strlen ≠ 0 → ¬RoundTrips m g s)
      ∧ ∀ (e : CStr) (decoded : List UInt8) (ndecoded : UInt64),
          e.strlen ≠ 0 → e.strlen < 2 ^ 64 → (e.strlen / 4 + 1) * 3 + 1 ≤ ndecoded.toNat →
          ndecoded.toNat ≤ decoded.length →
          m.block (minDecodedBuflen (UInt64.ofNat e.strlen)) ≠ none →
          ¬Agrees m g e decoded ndecoded := by
  refine ⟨fun s hs => not_roundTrips hg hs, ?_⟩
  intro e decoded ndecoded hne hsize hn hlen hm
  exact not_agrees hg hne hsize hn hlen hm

/-- Enough memory, all cells the same. -/
def Malloc.plenty : Malloc where
  block n := some (List.replicate n.toNat 0xaa)
  length_block h := by
    obtain rfl := Option.some.inj h
    exact List.length_replicate

theorem wrappers_disagree_oneByte :
    ¬RoundTrips Malloc.plenty Tables.zero oneByte
      ∧ ¬Agrees Malloc.plenty Tables.zero oneByte (List.replicate 7 1) 7 := by
  have h := wrappers_disagree Tables.Reached.zero Malloc.plenty
  exact ⟨h.1 oneByte (by decide),
    h.2 oneByte _ 7 (by decide) (by decide) (by decide) (by decide) (by simp [Malloc.plenty])⟩

/-- The string `M` comes back as `VFE9PQ`. -/
theorem wrappers_encode_twice :
    newB64Encoded Malloc.plenty Tables.zero (some ⟨[0x4d], by decide⟩)
        = .ok (Tables.filled, some [0x54, 0x51, 0x3d, 0x3d, 0])
      ∧ CStr.ofBlock [0x54, 0x51, 0x3d, 0x3d, 0] = some oneByte
      ∧ newB64Decoded Malloc.plenty Tables.filled (some oneByte)
        = .ok (Tables.filled, some [0x56, 0x46, 0x45, 0x39, 0x50, 0x51, 0])
      ∧ CStr.ofBlock [0x56, 0x46, 0x45, 0x39, 0x50, 0x51, 0]
        ≠ some ⟨[0x4d], by decide⟩ := by
  refine ⟨?_, by decide, by decide +kernel, by decide⟩
  show newB64 minEncodedBuflen Malloc.plenty Tables.zero (some ⟨[0x4d], _⟩) = _
  simp only [newB64, b64Encode, ensureReady_of_reached Tables.Reached.zero]
  decide +kernel

end B64

end MiscTools
