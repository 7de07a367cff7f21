import MiscTools.B64Grammar

/-!
# The coders and their buffers

A buffer is the first cells of a block; what follows it belongs to
somebody else. What `b64_encode` leaves in a block is known cell by cell
(`b64Encode_eq`): the standard encoding of its string, cut where the
buffer ends, a NUL, and the old cells behind it (`encodes_what_fits`).

Where the buffer ends is `nenc - 1`, and of a buffer without a cell that
is the largest `size_t` there is. So the encoder stays inside a buffer
just when it has a cell, while the decoder, which looks at the size
first, and the two functions that allocate always do
(`stays_inside_iff`).
-/

namespace MiscTools

namespace B64

open Blocks Base64 Sizes

/-! ## The encoder, cell by cell -/

/-- The text that fits, a NUL, and the block as it was. -/
theorem b64Encode_eq {g : Tables} (hg : g.Reached) (s : CStr) {nenc : UInt64} {enc : List UInt8}
    (hroom : (encoding s (nenc - 1).toNat).strlen < enc.length) :
    b64Encode g s enc nenc
      = .ok (Tables.filled, (encoding s (nenc - 1).toNat).bytes
          ++ 0 :: enc.drop ((encoding s (nenc - 1).toNat).strlen + 1)) := by
  let text := (encode standard s.bytes).take (nenc - 1).toNat
  have hlen : text.length < enc.length := hroom
  have hstore : store (nenc - 1).toNat (encode standard s.bytes) 0 enc
      = .ok (text.length, text ++ enc.drop text.length) := by
    rw [store_eq _ (by rw [Nat.sub_zero, Nat.zero_add]; exact Nat.le_of_lt hlen), Nat.sub_zero,
      Nat.zero_add, List.take_zero, List.nil_append]
  have hwrite : write (text ++ enc.drop text.length) text.length 0
      = .ok (text ++ 0 :: enc.drop (text.length + 1)) := by
    rw [write_of_lt (by rw [List.length_append, List.length_drop]; omega),
      List.set_append_right _ _ (Nat.le_refl _), Nat.sub_self,
      List.drop_eq_getElem_cons hlen, List.set_cons_zero]
  rw [b64Encode, ensureReady_of_reached hg, encodeLoop_eq, hstore]
  show (write (text ++ enc.drop text.length) text.length 0 >>= _) = _
  rw [hwrite]
  rfl

/-- What is cut at the end of a buffer, counted in characters. -/
theorem take_encode (s : CStr) {nenc : UInt64} (hn : nenc ≠ 0) :
    (encode standard s.bytes).take (min (4 * ((s.strlen + 2) / 3)) (nenc.toNat - 1))
      = (encoding s (nenc - 1).toNat).bytes := by
  have hlen : (encode standard s.bytes).length = 4 * ((s.strlen + 2) / 3) := length_encode _ _
  rw [← hlen, Nat.min_comm, ← List.take_eq_take_min]
  show _ = (encode standard s.bytes).take (nenc - 1).toNat
  rw [toNat_sub_one hn]

/-- The size `new_b64_encoded` asks for, and the text it is for. -/
theorem toNat_minEncodedBuflen_of_lt {len : Nat} (h : len < 2 ^ 63) :
    (minEncodedBuflen (UInt64.ofNat len)).toNat = (len / 3 + 1) * 4 + 1 := by
  have hof : (UInt64.ofNat len).toNat = len % 2 ^ 64 := UInt64.toNat_ofNat'
  rw [toNat_minEncodedBuflen, hof]
  omega

/-- **The encoder writes the standard encoding, cut where the buffer
ends.** It stores the first characters of it, all or as many as leave a
cell for the NUL behind them, and no other cell changes. The buffer
`new_b64_encoded` makes for a string is never the shorter one: given
memory it returns the whole encoding. (No string in memory has `2 ^ 63`
bytes.) -/
theorem encodes_what_fits {g : Tables} (hg : g.Reached) (s : CStr) :
    (∀ (nenc : UInt64) (enc : List UInt8), 1 ≤ nenc → nenc.toNat ≤ enc.length →
      b64Encode g s enc nenc = .ok (Tables.filled,
        (encode standard s.bytes).take (min (4 * ((s.strlen + 2) / 3)) (nenc.toNat - 1))
          ++ 0 :: enc.drop (min (4 * ((s.strlen + 2) / 3)) (nenc.toNat - 1) + 1)))
      ∧ ∀ (m : Malloc) (b : List UInt8), s.strlen ≠ 0 → s.strlen < 2 ^ 63 →
          m.block (minEncodedBuflen (UInt64.ofNat s.strlen)) = some b →
          newB64Encoded m g (some s) = .ok (Tables.filled,
            some (encode standard s.bytes ++ 0 :: b.drop (4 * ((s.strlen + 2) / 3) + 1))) := by
  have hcut : ∀ (nenc : UInt64) (enc : List UInt8), nenc ≠ 0 → nenc.toNat ≤ enc.length →
      b64Encode g s enc nenc = .ok (Tables.filled,
        (encode standard s.bytes).take (min (4 * ((s.strlen + 2) / 3)) (nenc.toNat - 1))
          ++ 0 :: enc.drop (min (4 * ((s.strlen + 2) / 3)) (nenc.toNat - 1) + 1)) := by
    intro nenc enc hne hle
    have hpos := toNat_pos hne
    have hlen : (encoding s (nenc - 1).toNat).strlen
        = min (4 * ((s.strlen + 2) / 3)) (nenc.toNat - 1) := by
      rw [strlen_encoding, toNat_sub_one hne, Nat.min_comm]
    rw [b64Encode_eq hg s (by rw [hlen]; omega), hlen, take_encode s hne]
  refine ⟨fun nenc enc hn hle => hcut nenc enc ?_ hle, ?_⟩
  · rintro rfl
    exact absurd hn (by decide)
  intro m b hpos hlt hb
  have hlen : (encode standard s.bytes).length = 4 * ((s.strlen + 2) / 3) := length_encode _ _
  have hsize := toNat_minEncodedBuflen_of_lt hlt
  have hne : ¬UInt64.ofNat s.strlen < 1 := by
    rw [UInt64.lt_one_iff]
    intro h0
    have hof : (UInt64.ofNat s.strlen).toNat = s.strlen % 2 ^ 64 := UInt64.toNat_ofNat'
    rw [h0, UInt64.toNat_zero] at hof
    omega
  have hall : min (4 * ((s.strlen + 2) / 3)) ((minEncodedBuflen (UInt64.ofNat s.strlen)).toNat - 1)
      = 4 * ((s.strlen + 2) / 3) := by
    rw [hsize]
    omega
  have hencode := hcut _ b (minEncodedBuflen_ne_zero _) (Nat.le_of_eq (m.length_block hb).symm)
  rw [hall, List.take_of_length_le (by omega)] at hencode
  simp only [newB64Encoded, newB64, if_neg hne, hb, hencode]
  rfl

/-- Two characters and a NUL in a buffer of three, and a whole text. -/
theorem encodes_what_fits_twoBytes :
    b64Encode Tables.zero twoBytes [1, 2, 3, 4] 3
        = .ok (Tables.filled, (encode standard twoBytes.bytes).take 2 ++ 0 :: [4])
      ∧ newB64Encoded Malloc.plenty Tables.zero (some twoBytes)
        = .ok (Tables.filled, some (encode standard twoBytes.bytes ++ [0])) := by
  have h := encodes_what_fits Tables.Reached.zero twoBytes
  exact ⟨h.1 3 [1, 2, 3, 4] (by decide) (by decide),
    h.2 Malloc.plenty _ (by decide) (by decide) rfl⟩

/-! ## The decoder, inside its buffer -/

/-- No index goes beyond the limit, and what follows the buffer stays as
it was. -/
theorem decodeLoop_within {ndecoded : UInt64} (rest : List UInt8) :
    ∀ (e : List UInt8) {buf : List UInt8} {j : Nat}, (ndecoded - 1).toNat ≤ buf.length →
      j ≤ (ndecoded - 1).toNat →
      ∃ r buf', decodeLoop Tables.filled ndecoded e j (buf ++ rest) = .ok (r, buf' ++ rest)
        ∧ buf'.length = buf.length ∧ ∀ j', r = some j' → j' ≤ (ndecoded - 1).toNat
  | [], buf, j, _, hj | [_], buf, j, _, hj | [_, _], buf, j, _, hj | [_, _, _], buf, j, _, hj =>
      ⟨some j, buf, rfl, rfl, fun _ h => Option.some.inj h ▸ hj⟩
  | a0 :: a1 :: a2 :: a3 :: e, buf, j, hlim, hj => by
      by_cases hlt : j < (ndecoded - 1).toNat
      swap
      · refine ⟨some j, buf, ?_, rfl, fun _ h => Option.some.inj h ▸ hj⟩
        rw [decodeLoop, if_neg hlt]
        rfl
      rcases decodeLoop_step a0 a1 a2 a3 e hlt with ⟨-, hstop⟩ | ⟨-, group, -, hturn⟩
      · exact ⟨none, buf, hstop _, rfl, by simp⟩
      obtain ⟨j1, buf1, hstore, hlen1, hj1⟩ := store_within group hlim hj rest
      obtain ⟨r, buf', hloop, hlen', hr⟩ := decodeLoop_within rest e (by rwa [hlen1]) hj1
      refine ⟨r, buf', ?_, hlen'.trans hlen1, hr⟩
      rw [hturn, hstore]
      exact hloop

/-! ## Staying inside -/

/-- Given the first `nenc` cells of any block, `b64_encode` leaves the
others as they were and a NUL in its own. -/
def EncodeStays (g : Tables) (plain : CStr) (nenc : UInt64) : Prop :=
  ∀ enc rest : List UInt8, enc.length = nenc.toNat →
    ∃ g' enc', b64Encode g plain (enc ++ rest) nenc = .ok (g', enc' ++ rest)
      ∧ enc'.length = enc.length ∧ 0 ∈ enc'

/-- Given the first `ndecoded` cells of any block, `b64_decode` leaves the
others as they were and, if it does not return NULL, a NUL in its own. -/
def DecodeStays (g : Tables) (encoded : CStr) (ndecoded : UInt64) : Prop :=
  ∀ decoded rest : List UInt8, decoded.length = ndecoded.toNat →
    ∃ g' err decoded', b64Decode g encoded (decoded ++ rest) ndecoded
        = .ok (g', err, decoded' ++ rest)
      ∧ decoded'.length = decoded.length ∧ (err = none → 0 ∈ decoded')

/-- Neither function that allocates leaves the block it gets, and what it
returns, if that is not NULL, has a NUL in it. -/
def NewStays (m : Malloc) (g : Tables) (s : Option CStr) : Prop :=
  (∃ g' r, newB64Encoded m g s = .ok (g', r) ∧ ∀ b, r = some b → 0 ∈ b)
    ∧ ∃ g' r, newB64Decoded m g s = .ok (g', r) ∧ ∀ b, r = some b → 0 ∈ b

/-- All of these for one string, one size and one allocator. -/
structure StaysInside (g : Tables) (m : Malloc) (s : CStr) (n : UInt64) : Prop where
  encode : EncodeStays g s n
  decode : DecodeStays g s n
  fresh : NewStays m g (some s)

theorem encodeStays {g : Tables} (hg : g.Reached) (s : CStr) {nenc : UInt64} (hn : nenc ≠ 0) :
    EncodeStays g s nenc := by
  intro enc rest hlen
  have hpos := toNat_pos hn
  let text := encoding s (nenc - 1).toNat
  have hfits : text.strlen < enc.length := by
    show (encoding s (nenc - 1).toNat).strlen < _
    rw [strlen_encoding, toNat_sub_one hn]
    omega
  have hroom : text.strlen < (enc ++ rest).length := by
    rw [List.length_append]
    omega
  refine ⟨Tables.filled, text.bytes ++ 0 :: enc.drop (text.strlen + 1), ?_, ?_, by simp⟩
  · rw [b64Encode_eq hg s hroom, List.drop_append_of_le_length hfits, List.append_assoc]
    rfl
  · rw [List.length_append, List.length_cons, List.length_drop]
    show text.strlen + _ = _
    omega

/-- In a buffer without a cell there is no room for the NUL. -/
theorem not_encodeStays (g : Tables) (s : CStr) : ¬EncodeStays g s 0 := by
  intro h
  obtain ⟨_, enc', -, hlen, hnul⟩ := h [] [] rfl
  rw [List.eq_nil_of_length_eq_zero hlen] at hnul
  exact absurd hnul List.not_mem_nil

theorem decodeStays {g : Tables} (hg : g.Reached) (encoded : CStr) (ndecoded : UInt64) :
    DecodeStays g encoded ndecoded := by
  intro decoded rest hlen
  rw [b64Decode, ensureReady_of_reached hg]
  by_cases hsize : UInt64.ofNat encoded.strlen % 4 ≠ 0
      ∨ ndecoded < minDecodedBuflen (UInt64.ofNat encoded.strlen)
  · exact ⟨_, some .EMSGSIZE, decoded, if_pos hsize, rfl, by simp⟩
  -- the size asked for is never zero, so the one given is not either
  have hne : ndecoded ≠ 0 := by
    rintro rfl
    refine hsize (Or.inr (UInt64.lt_iff_toNat_lt.mpr ?_))
    rw [toNat_minDecodedBuflen, UInt64.toNat_zero]
    omega
  have hpos := toNat_pos hne
  have hlim : (ndecoded - 1).toNat + 1 = decoded.length := by
    rw [toNat_sub_one hne]
    omega
  have hle : (ndecoded - 1).toNat ≤ decoded.length := by omega
  obtain ⟨r, decoded1, hloop, hlen1, hr⟩ :=
    decodeLoop_within rest encoded.bytes hle (Nat.zero_le _)
  simp only [if_neg hsize, hloop, bind, Except.bind]
  cases r with
  | none => exact ⟨_, some .EINVAL, decoded1, rfl, hlen1, by simp⟩
  | some j =>
      have hj : j < decoded1.length := by
        have hle := hr j rfl
        omega
      simp only [write_within hj]
      exact ⟨_, none, decoded1.set j 0, rfl, List.length_set.trans hlen1,
        fun _ => List.mem_set hj 0⟩

theorem newB64_stays {buflen : UInt64 → UInt64} {g : Tables} (hg : g.Reached)
    (hsize : ∀ l, buflen l ≠ 0) (m : Malloc) :
    ∀ s : Option CStr, ∃ g' r, newB64 buflen m g s = .ok (g', r) ∧ ∀ b, r = some b → 0 ∈ b
  | none => ⟨g, none, rfl, by simp⟩
  | some s => by
      by_cases hlen : UInt64.ofNat s.strlen < 1
      · exact ⟨g, none, by rw [newB64, if_pos hlen]; rfl, by simp⟩
      cases hm : m.block (buflen (UInt64.ofNat s.strlen)) with
      | none =>
          refine ⟨g, none, ?_, by simp⟩
          simp only [newB64, if_neg hlen, hm]
          rfl
      | some b =>
          obtain ⟨g', b', hencode, -, hnul⟩ :=
            encodeStays hg s (hsize (UInt64.ofNat s.strlen)) b [] (m.length_block hm)
          rw [List.append_nil, List.append_nil] at hencode
          refine ⟨g', some b', ?_, fun _ h => Option.some.inj h ▸ hnul⟩
          simp only [newB64, if_neg hlen, hm, hencode]
          rfl

/-- **Inside the buffer, if it has a cell.** For any string and any size
the decoder and both functions that allocate write below the size only,
and what they return ends there. The encoder does so just when the size
is not zero. -/
theorem stays_inside_iff {g : Tables} (hg : g.Reached) (m : Malloc) (s : CStr) (n : UInt64) :
    (StaysInside g m s n ↔ n ≠ 0) ∧ DecodeStays g s n ∧ NewStays m g (some s) := by
  have hdecode := decodeStays hg s n
  have hfresh : NewStays m g (some s) :=
    ⟨newB64_stays hg minEncodedBuflen_ne_zero m (some s),
      newB64_stays hg minDecodedBuflen_ne_zero m (some s)⟩
  refine ⟨⟨?_, fun hn => ⟨encodeStays hg s hn, hdecode, hfresh⟩⟩, hdecode, hfresh⟩
  rintro h rfl
  exact not_encodeStays g s h.encode

theorem stays_inside_iff_twoBytes :
    (StaysInside Tables.zero Malloc.plenty twoBytes 3 ↔ (3 : UInt64) ≠ 0)
      ∧ DecodeStays Tables.zero twoBytes 3 ∧ NewStays Malloc.plenty Tables.zero (some twoBytes) :=
  stays_inside_iff Tables.Reached.zero Malloc.plenty twoBytes 3

/-- A buffer of no cells: the text and its NUL go over the five cells
behind it. -/
theorem no_cell_overwritten :
    b64Encode Tables.zero twoBytes ([] ++ [1, 2, 3, 4, 5, 6]) 0
        = .ok (Tables.filled, [] ++ [0x54, 0x66, 0x38, 0x3d, 0, 6])
      ∧ b64Encode Tables.zero twoBytes [] 0 = .error .bounds
      ∧ ¬StaysInside Tables.zero Malloc.plenty twoBytes 0 := by
  refine ⟨?_, ?_, fun h => not_encodeStays _ _ h.encode⟩
  · rw [b64Encode, ensureReady_of_reached Tables.Reached.zero]
    decide +kernel
  · rw [b64Encode, ensureReady_of_reached Tables.Reached.zero]
    decide +kernel

end B64

end MiscTools
