import MiscTools.Slots
import MiscTools.Xvdat
import MiscTools.Runs

/-!
# The slot list is a slot allocator

`xvlst_add` keeps the least free index at hand in `avail` and finds the
next one in three ways; `last` bounds the taken slots and decides
between them. `Valid` is what every operation keeps, also on a
zero-filled list; `Good` adds that there is a map to index, which holds
from the first successful `xvlst_reserve` on. Under `Good` each
operation is a step of `Slots.Step` on the set of taken slots
(`slot_allocator`).
-/

namespace MiscTools

namespace Xvdat

open Blocks Sizes Slots

/-! ## The taken slots -/

/-- The indices of a map with a non-zero byte. -/
def slots (t : List UInt8) : Finset ℕ := (Finset.range t.length).filter fun i => t[i]? ≠ some 0

theorem mem_slots {t : List UInt8} {i : ℕ} : i ∈ slots t ↔ i < t.length ∧ t[i]? ≠ some 0 := by
  simp [slots]

theorem slots_lt {t : List UInt8} {i : ℕ} (h : i ∈ slots t) : i < t.length :=
  (mem_slots.mp h).1

theorem notMem_slots {t : List UInt8} {i : ℕ} (h : i < t.length) :
    i ∉ slots t ↔ t[i] = 0 := by
  simp [mem_slots, h]

theorem slots_set_one {t : List UInt8} {i : ℕ} (h : i < t.length) :
    slots (t.set i 1) = insert i (slots t) := by
  ext j
  simp only [mem_slots, Finset.mem_insert, List.length_set, List.getElem?_set]
  by_cases hj : i = j
  · subst hj
    simp [h]
  · simp [hj, Ne.symm hj]

theorem slots_set_zero {t : List UInt8} {i : ℕ} :
    slots (t.set i 0) = (slots t).erase i := by
  ext j
  simp only [mem_slots, Finset.mem_erase, List.length_set, List.getElem?_set]
  by_cases hj : i = j
  · subst hj
    simp +contextual
  · simp [hj, Ne.symm hj]

def Xvlst.takenSet (l : Xvlst) : Finset ℕ := slots (l.taken.getD [])

/-! ## The invariant -/

/-- `avail` is the least free index, or -1 when there is none below
`max_len`; `len` counts the taken slots and `last` bounds them. The data
block has not been freed. -/
structure Valid (l : Xvlst) : Prop where
  alive : l.data ≠ .freed
  block : (l.taken.getD []).length = l.maxLen.toNat
  small : l.maxLen.toNat < 2 ^ 63
  avail : (l.avail = -1 ∧ ∀ j < l.maxLen.toNat, j ∈ l.takenSet)
    ∨ ∃ i : ℕ, l.avail = i ∧ LeastFree l.takenSet i
  len : l.len.toNat = l.takenSet.card
  last : ∀ i ∈ l.takenSet, i ≤ l.last.toNat

/-- The bounds `last` and `avail` are inside the map. -/
structure Good (l : Xvlst) : Prop extends Valid l where
  last_lt : l.last.toNat < l.maxLen.toNat
  avail_lt : l.avail < l.maxLen.toNat

theorem valid_zero : Valid Xvlst.zero where
  alive := nofun
  block := rfl
  small := by decide
  avail := Or.inr ⟨0, rfl, leastFree_of_full (by simp) (by decide)⟩
  len := rfl
  last := fun i hi => absurd hi (by simp [Xvlst.takenSet, slots, Xvlst.zero])

theorem Valid.taken_lt {l : Xvlst} (h : Valid l) {i : ℕ} (hi : i ∈ l.takenSet) :
    i < l.maxLen.toNat :=
  h.block ▸ slots_lt hi

theorem Valid.card_le {l : Xvlst} (h : Valid l) : l.takenSet.card ≤ l.maxLen.toNat := by
  have hsub : l.takenSet ⊆ Finset.range l.maxLen.toNat := fun i hi =>
    Finset.mem_range.mpr (h.taken_lt hi)
  simpa using Finset.card_le_card hsub

/-- The map of a good list is there. -/
theorem Good.map {l : Xvlst} (h : Good l) :
    ∃ t, l.taken = some t ∧ t.length = l.maxLen.toNat ∧ l.takenSet = slots t := by
  have hpos := h.last_lt
  have hblock := h.block
  cases ht : l.taken with
  | none =>
      rw [ht] at hblock
      simp at hblock
      omega
  | some t =>
      rw [ht] at hblock
      exact ⟨t, rfl, hblock, by rw [Xvlst.takenSet, ht]; rfl⟩

/-! ## Growth -/

/-- A call that must grow to `newMax` elements can: the sizes do not
wrap and both requests are granted. -/
def Granted (a : Alloc) (l : Xvlst) (newMax blksz growblk : UInt64) : Prop :=
  l.maxLen < newMax →
    room newMax.toNat growblk.toNat * blksz.toNat < 2 ^ 64
      ∧ a.data (nblk newMax growblk * blksz) = true ∧ a.taken (nblk newMax growblk) = true

/-- An allocator never grants a block of more than `PTRDIFF_MAX` bytes. -/
def Alloc.Bounded (a : Alloc) : Prop := ∀ n, a.taken n = true → n.toNat < 2 ^ 63

/-- What growing does to a valid list: the new slots are free, and a full
list has its first one at hand. -/
structure Grown (l l' : Xvlst) : Prop where
  taken : l'.takenSet = l.takenSet
  len : l'.len = l.len
  last : l'.last = l.last
  maxLen : l.maxLen.toNat ≤ l'.maxLen.toNat
  avail : l'.avail = l.avail ∨ (l'.avail = l.maxLen.toNat ∧ l.maxLen.toNat < l'.maxLen.toNat)

theorem Grown.refl (l : Xvlst) : Grown l l :=
  ⟨rfl, rfl, rfl, Nat.le_refl _, Or.inl rfl⟩

theorem Grown.good {l l' : Xvlst} (h : Grown l l') (hl : Good l) (hl' : Valid l') : Good l' where
  toValid := hl'
  last_lt := by
    have := hl.last_lt
    have := h.maxLen
    rw [h.last]
    omega
  avail_lt := by
    have := hl.avail_lt
    have := h.maxLen
    rcases h.avail with heq | ⟨heq, hlt⟩ <;> omega

/-- Zeroed cells at the end take no slot. -/
theorem slots_extend {t u : List UInt8} (hle : u.length ≤ t.length)
    (hold : ∀ k < u.length, t[k]? = u[k]?)
    (hnew : ∀ k, u.length ≤ k → k < t.length → t[k]? = some 0) : slots t = slots u := by
  ext k
  simp only [mem_slots]
  constructor
  · rintro ⟨hk, hne⟩
    have hlt : k < u.length := by
      by_contra hge
      exact hne (hnew k (by omega) hk)
    exact ⟨hlt, hold k hlt ▸ hne⟩
  · rintro ⟨hk, hne⟩
    exact ⟨by omega, (hold k hk).symm ▸ hne⟩

theorem growTaken_spec {a : Alloc} {l : Xvlst} {v : Xvec} (h : Valid l)
    (halive : v.data ≠ .freed) (hsmall : v.maxLen.toNat < 2 ^ 63) (hlen : v.len = l.len)
    (hmax : l.maxLen.toNat < v.maxLen.toNat)
    (hgrant : a.taken v.maxLen = true) :
    ∃ l', growTaken a { l with toXvec := v } l.maxLen = .ok (0, l') ∧ Valid l' ∧ Grown l l'
      ∧ l'.maxLen = v.maxLen := by
  have hsub : (v.maxLen - l.maxLen).toNat = v.maxLen.toNat - l.maxLen.toNat :=
    UInt64.toNat_sub_of_le _ _ (UInt64.le_iff_toNat_le.mpr (by omega))
  obtain ⟨t, hfill, hlength, hget⟩ := fill_of_le (x := (0 : UInt8)) (i := l.maxLen.toNat)
    (n := (v.maxLen - l.maxLen).toNat) (t := resize l.taken v.maxLen.toNat a.junk)
    (by rw [length_resize]; omega)
  rw [length_resize] at hlength
  have hslots : slots t = l.takenSet := by
    refine slots_extend (by rw [h.block]; omega) (fun k hk => ?_) fun k hk1 hk2 => ?_
    · rw [h.block] at hk
      rw [hget, if_neg (by omega), getElem?_resize (by rw [h.block]; exact hk) (by omega)]
    · rw [h.block] at hk1
      rw [hget, if_pos (by omega)]
  have hold : ssize l.maxLen = l.maxLen.toNat := ssize_of_lt h.small
  refine ⟨{ l with toXvec := v, taken := some t,
                   avail := if l.avail < 0 then ssize l.maxLen else l.avail },
    by simp [growTaken, hgrant, hfill, bind, Except.bind, pure, Except.pure], ?_, ?_, rfl⟩
  · refine ⟨halive, hlength, hsmall, ?_, ?_, fun i hi => ?_⟩
    · rcases h.avail with ⟨hneg, hfull⟩ | ⟨i, hi, hleast⟩
      · -- the list was full: the first new slot is the least free one
        refine Or.inr ⟨l.maxLen.toNat, by simp [hneg, hold], ?_⟩
        show LeastFree (slots t) _
        rw [hslots]
        exact leastFree_of_full hfull fun hmem => absurd (h.taken_lt hmem) (Nat.lt_irrefl _)
      · refine Or.inr ⟨i, by simp [hi], ?_⟩
        show LeastFree (slots t) _
        rwa [hslots]
    · show v.len.toNat = (slots t).card
      rw [hlen, hslots, h.len]
    · exact h.last i (hslots ▸ hi)
  · refine ⟨hslots, hlen, rfl, hmax.le, ?_⟩
    show (if l.avail < 0 then ssize l.maxLen else l.avail) = l.avail ∨ _
    by_cases hneg : l.avail < 0
    · exact Or.inr ⟨by simp [hneg, hold], hmax⟩
    · exact Or.inl (if_neg hneg)

/-- The growth to `newMax` elements is granted, and the size asked for is
not below the one there is and is a size an object can have. -/
def Serves (a : Alloc) (l : Xvlst) (newMax blksz growblk : UInt64) : Prop :=
  l.maxLen < newMax →
    a.data (nblk newMax growblk * blksz) = true ∧ a.taken (nblk newMax growblk) = true
      ∧ l.maxLen ≤ nblk newMax growblk ∧ (nblk newMax growblk).toNat < 2 ^ 63

theorem xvlstReserve_serves {a : Alloc} {l : Xvlst} {newMax blksz growblk : UInt64}
    (h : Valid l) (hgrow : growblk ≠ 0) (hserves : Serves a l newMax blksz growblk) :
    ∃ l', xvlstReserve a l newMax blksz growblk = .ok (0, l') ∧ Valid l' ∧ Grown l l'
      ∧ (l.maxLen < newMax → l'.maxLen = nblk newMax growblk)
      ∧ (l'.maxLen = l.maxLen → l'.taken = l.taken) := by
  unfold xvlstReserve
  by_cases hle : newMax ≤ l.maxLen
  · exact ⟨l, by rw [if_pos hle]; rfl, h, .refl l, fun hlt =>
      absurd hlt (UInt64.not_lt.mpr hle), fun _ => rfl⟩
  have hlt : l.maxLen < newMax := UInt64.not_le.mp hle
  obtain ⟨hdata, htaken, hkeep, hsmall⟩ := hserves hlt
  have hres : xvecReserve a l.toXvec newMax blksz growblk
      = .ok (0, { l.toXvec with
          data := .block (nblk newMax growblk * blksz).toNat, maxLen := nblk newMax growblk }) := by
    simp [xvecReserve, hgrow, UInt64.not_lt.mpr (UInt64.le_of_lt hlt), h.alive, hdata]
  rw [if_neg hle, hres]
  by_cases hsame : nblk newMax growblk ≤ l.maxLen
  · -- rounded to what is there: only the data block is new
    have heq : nblk newMax growblk = l.maxLen := UInt64.le_antisymm hsame hkeep
    refine ⟨{ l with data := .block (nblk newMax growblk * blksz).toNat }, ?_,
      ⟨nofun, h.block, h.small, h.avail, h.len, h.last⟩,
      ⟨rfl, rfl, rfl, Nat.le_refl _, Or.inl rfl⟩,
      fun _ => heq.symm, fun _ => rfl⟩
    simp [bind, Except.bind, pure, Except.pure, heq]
  · have hgrown : l.maxLen.toNat < (nblk newMax growblk).toNat :=
      UInt64.lt_iff_toNat_lt.mp (UInt64.not_le.mp hsame)
    obtain ⟨l', heq, hvalid, hgr, hmax⟩ := growTaken_spec (a := a)
      (v := { l.toXvec with
        data := .block (nblk newMax growblk * blksz).toNat, maxLen := nblk newMax growblk })
      h nofun hsmall rfl hgrown htaken
    refine ⟨l', ?_, hvalid, hgr, fun _ => hmax, fun hsame' => ?_⟩
    · simpa [bind, Except.bind, hsame] using heq
    · have hmax' : l'.maxLen = nblk newMax growblk := hmax
      rw [← hmax', hsame'] at hgrown
      exact absurd hgrown (Nat.lt_irrefl _)

theorem xvlstReserve_spec {a : Alloc} {l : Xvlst} {newMax blksz growblk : UInt64}
    (h : Valid l) (hb : a.Bounded) (hblk : blksz ≠ 0) (hgrow : growblk ≠ 0)
    (hgrant : Granted a l newMax blksz growblk) :
    ∃ l', xvlstReserve a l newMax blksz growblk = .ok (0, l') ∧ Valid l' ∧ Grown l l'
      ∧ newMax.toNat ≤ l'.maxLen.toNat := by
  have hroom : newMax.toNat ≤ room newMax.toNat growblk.toNat :=
    le_room (Nat.ne_of_gt (toNat_pos hgrow))
  have hnblk : l.maxLen < newMax →
      (nblk newMax growblk).toNat = room newMax.toNat growblk.toNat := by
    intro hlt
    have hltn := UInt64.lt_iff_toNat_lt.mp hlt
    have hpos : 0 < blksz.toNat := toNat_pos hblk
    exact toNat_nblk (fun h0 => by subst h0; exact absurd hltn (Nat.not_lt_zero _))
      (Nat.lt_of_le_of_lt (Nat.le_mul_of_pos_right _ hpos) (hgrant hlt).1)
  have hserves : Serves a l newMax blksz growblk := by
    intro hlt
    obtain ⟨-, hdata, htaken⟩ := hgrant hlt
    have hltn := UInt64.lt_iff_toNat_lt.mp hlt
    refine ⟨hdata, htaken, UInt64.le_iff_toNat_le.mpr ?_, hb _ htaken⟩
    rw [hnblk hlt]
    omega
  obtain ⟨l', heq, hvalid, hgr, hmax, -⟩ := xvlstReserve_serves h hgrow hserves
  refine ⟨l', heq, hvalid, hgr, ?_⟩
  by_cases hlt : l.maxLen < newMax
  · rw [hmax hlt, hnblk hlt]
    exact hroom
  · exact Nat.le_trans (UInt64.le_iff_toNat_le.mp (UInt64.not_lt.mp hlt)) hgr.maxLen

theorem xvlstExpand_eq {a : Alloc} {l : Xvlst} {plus blksz growblk : UInt64}
    (hplus : plus ≠ 0) (hblk : blksz ≠ 0) (hgrow : growblk ≠ 0) :
    xvlstExpand a l plus blksz growblk = xvlstReserve a l (l.len + plus) blksz growblk := by
  simp [xvlstExpand, hplus, hblk, hgrow]

/-! ## Taking a slot -/

section Next

variable {S : Finset ℕ} {t : List UInt8} {last maxLen : UInt64} {i : ℕ}

/-- The three ways of finding the next free slot find it. -/
theorem nextAvail_spec (hleast : LeastFree S i) (hslots : slots t = insert i S)
    (hlen : t.length = maxLen.toNat) (hsmall : maxLen.toNat < 2 ^ 63)
    (hlast : ∀ j ∈ slots t, j ≤ last.toNat) (hle : i ≤ last.toNat)
    (hlt : last.toNat < maxLen.toNat) :
    ∃ r, nextAvail t last maxLen i = .ok r
      ∧ ((r = -1 ∧ ∀ j < maxLen.toNat, j ∈ slots t)
        ∨ ∃ k : ℕ, r = k ∧ k < maxLen.toNat ∧ LeastFree (slots t) k) := by
  have hslast : ssize last = last.toNat := ssize_of_lt (by omega)
  have hsmax : ssize maxLen = maxLen.toNat := ssize_of_lt hsmall
  have hnat : ((i : Int) + 1).toNat = i + 1 := by omega
  -- a free cell after `i` is free in `S`
  have hfree : ∀ k (hk : k < t.length), t[k] = 0 → k ∉ S := fun k hk h0 hmem =>
    (notMem_slots hk).mpr h0 (hslots ▸ Finset.mem_insert_of_mem hmem)
  have htaken : ∀ j (hj : j < t.length), i < j → t[j]? ≠ some 0 → j ∈ S := by
    intro j hj hij hne
    have hmem : j ∈ slots t := mem_slots.mpr ⟨hj, hne⟩
    rw [hslots, Finset.mem_insert] at hmem
    exact hmem.resolve_left (by omega)
  unfold nextAvail
  by_cases hend : (i : Int) = ssize last
  · have hil : i = last.toNat := by omega
    rw [if_pos hend]
    by_cases hfull : ssize maxLen ≤ (i : Int) + 1
    · refine ⟨-1, if_pos hfull, Or.inl ⟨rfl, ?_⟩⟩
      rw [hslots]
      exact hleast.insert_full fun j h1 h2 => by omega
    · have hk : i + 1 < t.length := by omega
      have h0 : t[i + 1] = 0 := (notMem_slots hk).mp fun hmem => by
        have := hlast _ hmem
        omega
      refine ⟨(i : Int) + 1, ?_, Or.inr ⟨i + 1, by omega, by omega, ?_⟩⟩
      · simp [hfull, hnat, read_of_lt hk, h0, bind, Except.bind, pure, Except.pure]
      · rw [hslots]
        exact hleast.insert_next (by omega) (hfree _ hk h0) fun j h1 h2 => by omega
  · rw [if_neg hend]
    have hk : i + 1 < t.length := by omega
    rw [hnat, read_of_lt hk]
    by_cases h0 : t[i + 1] = 0
    · refine ⟨(i : Int) + 1, ?_, Or.inr ⟨i + 1, by omega, by omega, ?_⟩⟩
      · simp [h0, bind, Except.bind, pure, Except.pure]
      · rw [hslots]
        exact hleast.insert_next (by omega) (hfree _ hk h0) fun j h1 h2 => by omega
    · -- search the rest of the map
      have hn : (maxLen - UInt64.ofInt i - 1).toNat = maxLen.toNat - i - 1 := by
        have hof : (UInt64.ofInt i).toNat = i := toNat_ofInt (by omega)
        have h1 : (maxLen - UInt64.ofInt i).toNat = maxLen.toNat - i := by
          rw [UInt64.toNat_sub_of_le _ _ (UInt64.le_iff_toNat_le.mpr (by omega)), hof]
        rw [UInt64.toNat_sub_of_le _ _ (UInt64.le_iff_toNat_le.mpr ?_), h1]
        · rfl
        · show 1 ≤ _
          omega
      rw [hn]
      rcases find_spec t 0 (maxLen.toNat - i - 1) (i + 1) (by omega) with
        ⟨hfind, hmiss⟩ | ⟨k, hfind, hk1, hk2, hget, hmiss⟩
      · refine ⟨-1, by simp [h0, hfind, bind, Except.bind, pure, Except.pure],
          Or.inl ⟨rfl, ?_⟩⟩
        rw [hslots]
        exact hleast.insert_full fun j h1 h2 =>
          htaken j (by omega) h1 (hmiss j (by omega) (by omega))
      · refine ⟨k, by simp [h0, hfind, bind, Except.bind, pure, Except.pure],
          Or.inr ⟨k, rfl, by omega, ?_⟩⟩
        have hkl : k < t.length := by omega
        have hzero : t[k] = 0 :=
          Option.some.inj ((List.getElem?_eq_getElem hkl).symm.trans hget)
        rw [hslots]
        exact hleast.insert_next (by omega) (hfree k hkl hzero) fun j h1 h2 =>
          htaken j (by omega) h1 (hmiss j (by omega) h2)

end Next

theorem takeAvail_spec {l : Xvlst} {i : ℕ} (h : Good l) (hi : l.avail = i)
    (hleast : LeastFree l.takenSet i) :
    ∃ l', takeAvail l = .ok ((i : Int), l') ∧ Good l'
      ∧ l'.takenSet = insert i l.takenSet := by
  obtain ⟨t, ht, hlen, hset⟩ := h.map
  have hlt : i < l.maxLen.toNat := by have := h.avail_lt; omega
  have hsmall := h.small
  have hit : i < t.length := by omega
  have hslots : slots (t.set i 1) = insert i l.takenSet := by rw [slots_set_one hit, hset]
  have hof : (UInt64.ofInt i).toNat = i := toNat_ofInt (by omega)
  have hslast : ssize l.last = l.last.toNat := ssize_of_lt (by have := h.last_lt; omega)
  generalize hlast' : (if ssize l.last < (i : Int) then UInt64.ofInt i else l.last) = last'
  have hmax : last'.toNat = max l.last.toNat i := by
    rw [← hlast']
    split
    · rw [hof]; omega
    · omega
  have hbound : ∀ j ∈ slots (t.set i 1), j ≤ last'.toNat := by
    intro j hj
    rw [hslots, Finset.mem_insert] at hj
    rcases hj with rfl | hj
    · omega
    · have := h.last j hj
      omega
  have hltmax : last'.toNat < l.maxLen.toNat := by have := h.last_lt; omega
  obtain ⟨r, hnext, hr⟩ := nextAvail_spec hleast hslots (by simpa using hlen) hsmall hbound
    (by omega) hltmax
  have htake : takeAvail l = .ok ((i : Int),
      { l with taken := some (t.set i 1), last := last', avail := r, len := l.len + 1 }) := by
    simp [takeAvail, ht, deref, hi, write_of_lt hit, hlast', hnext, bind, Except.bind, pure,
      Except.pure]
  have hfree := (leastFree_iff.mp hleast).1
  refine ⟨_, htake, ?_, hslots⟩
  refine ⟨⟨h.alive, by simpa using hlen, hsmall, ?_, ?_, hbound⟩, hltmax, ?_⟩
  · rcases hr with ⟨rfl, hfull⟩ | ⟨k, rfl, -, hk⟩
    · exact Or.inl ⟨rfl, hfull⟩
    · exact Or.inr ⟨k, rfl, hk⟩
  · show (l.len + 1).toNat = (slots (t.set i 1)).card
    have hcard := h.card_le
    have hlen' := h.len
    rw [hslots, Finset.card_insert_of_notMem hfree, UInt64.toNat_add, hlen']
    show (_ + 1) % 2 ^ 64 = _
    omega
  · rcases hr with ⟨rfl, -⟩ | ⟨k, rfl, hk, -⟩
    · show (-1 : Int) < _
      omega
    · exact Int.ofNat_lt.mpr hk

theorem xvlstAdd_spec {a : Alloc} {l : Xvlst} {blksz growblk : UInt64} (h : Good l)
    (hb : a.Bounded) (hblk : blksz ≠ 0) (hgrow : growblk ≠ 0)
    (hgrant : Granted a l (l.len + 1) blksz growblk) :
    ∃ i l', xvlstAdd a l blksz growblk = .ok ((i : ℕ), l') ∧ Good l'
      ∧ LeastFree l.takenSet i ∧ l'.takenSet = insert i l.takenSet := by
  obtain ⟨l₁, hres, hvalid, hgr, hroom⟩ :=
    xvlstReserve_spec h.toValid hb hblk hgrow hgrant
  have hgood := hgr.good h hvalid
  have hplus : (l.len + 1).toNat = l.len.toNat + 1 := by
    have hcard := h.card_le
    have hsmall := h.small
    have hlen := h.len
    rw [UInt64.toNat_add]
    show (_ + 1) % 2 ^ 64 = _
    omega
  -- there is room for one more, so a slot is free
  obtain ⟨i, hi, hleast⟩ : ∃ i : ℕ, l₁.avail = i ∧ LeastFree l₁.takenSet i := by
    rcases hvalid.avail with ⟨-, hfull⟩ | hfree
    · have := card_le_of_full hfull
      have := h.len
      rw [← hgr.taken] at this
      omega
    · exact hfree
  obtain ⟨l', htake, hgood', hset⟩ := takeAvail_spec hgood hi hleast
  have hassert : l.avail < ssize l.maxLen := by
    rw [ssize_of_lt h.small]
    exact h.avail_lt
  refine ⟨i, l', ?_, hgood', hgr.taken ▸ hleast, hgr.taken ▸ hset⟩
  unfold xvlstAdd
  rw [if_neg (not_not.mpr hassert), xvlstExpand_eq (by decide) hblk hgrow, hres]
  have hpos : ¬(i : Int) < 0 := by omega
  simpa [bind, Except.bind, hi, hpos] using htake

/-! ## Giving a slot back -/

theorem xvlstDel_taken {l : Xvlst} {index : UInt64} (h : Good l)
    (hmem : index.toNat ∈ l.takenSet) :
    ∃ l', xvlstDel l index = .ok (0, l') ∧ Good l'
      ∧ l'.takenSet = l.takenSet.erase index.toNat := by
  obtain ⟨t, ht, hlen, hset⟩ := h.map
  have hlt := h.taken_lt hmem
  have hsmall := h.small
  have hit : index.toNat < t.length := by omega
  have hrange : ¬l.last < index := by
    rw [UInt64.lt_iff_toNat_lt]
    exact Nat.not_lt.mpr (h.last _ hmem)
  have hne : t[index.toNat] ≠ 0 := fun h0 => (notMem_slots hit).mpr h0 (hset ▸ hmem)
  have hs : ssize index = index.toNat := ssize_of_lt (by omega)
  have hpos := Finset.card_pos.mpr ⟨_, hmem⟩
  have hlen0 : l.len ≠ 0 := fun h0 => by
    have := h.len
    rw [h0] at this
    exact absurd this.symm (by show _ ≠ 0; omega)
  have hslots : slots (t.set index.toNat 0) = l.takenSet.erase index.toNat := by
    rw [slots_set_zero, hset]
  generalize havail : (if l.avail < 0 ∨ ssize index < l.avail then ssize index else l.avail) = av
  have hdel : xvlstDel l index = .ok (0,
      { l with taken := some (t.set index.toNat 0), avail := av, len := l.len - 1 }) := by
    simp [xvlstDel, hrange, ht, deref, read_of_lt hit, hne, write_of_lt hit, havail, hlen0, bind,
      Except.bind, pure, Except.pure]
  refine ⟨_, hdel,
    ⟨⟨h.alive, by simpa using hlen, hsmall, Or.inr ?_, ?_, fun j hj => ?_⟩, h.last_lt, ?_⟩, hslots⟩
  · show ∃ i : ℕ, av = i ∧ LeastFree (slots (t.set index.toNat 0)) i
    rw [hslots, ← havail]
    rcases h.avail with ⟨hneg, hfull⟩ | ⟨i, hi, hleast⟩
    · refine ⟨index.toNat, by simp [hneg, hs], leastFree_erase fun k hk => hfull k (by omega)⟩
    · rw [hi, hs]
      by_cases hbelow : index.toNat < i
      · obtain ⟨-, hall⟩ := leastFree_iff.mp hleast
        exact ⟨index.toNat, by simp [hbelow], leastFree_erase fun k hk => hall k (by omega)⟩
      · refine ⟨i, ?_, hleast.erase_above (by omega)⟩
        rw [if_neg]
        omega
  · show (l.len - 1).toNat = (slots (t.set index.toNat 0)).card
    rw [hslots, Finset.card_erase_of_mem hmem, toNat_sub_one hlen0, h.len]
  · have hj' : j ∈ slots (t.set index.toNat 0) := hj
    rw [hslots] at hj'
    exact h.last j (Finset.mem_of_mem_erase hj')
  · show av < l.maxLen.toNat
    have := h.avail_lt
    rw [← havail, hs]
    split <;> omega

theorem xvlstDel_free {l : Xvlst} {index : UInt64} (h : Good l)
    (hfree : index.toNat ∉ l.takenSet) :
    ∃ r, xvlstDel l index = .ok (r, l) ∧ (r = ERANGE ∨ r = EALREADY) := by
  obtain ⟨t, ht, hlen, hset⟩ := h.map
  by_cases hrange : l.last < index
  · exact ⟨ERANGE, by simp [xvlstDel, hrange, pure, Except.pure], Or.inl rfl⟩
  · have hit : index.toNat < t.length := by
      have := h.last_lt
      have := UInt64.le_iff_toNat_le.mp (UInt64.not_lt.mp hrange)
      omega
    have h0 : t[index.toNat] = 0 := (notMem_slots hit).mp (hset ▸ hfree)
    refine ⟨EALREADY, ?_, Or.inr rfl⟩
    simp [xvlstDel, hrange, ht, deref, read_of_lt hit, h0, bind, Except.bind, pure, Except.pure]

/-! ## Every run -/

/-- The call passes its asserts, its sizes do not wrap and its requests
are granted. -/
def CallOK (l : Xvlst) (c : OpCall) : Prop :=
  match c.op with
  | .reserve newMax blksz growblk =>
      blksz ≠ 0 ∧ growblk ≠ 0 ∧ Granted c.alloc l newMax blksz growblk
  | .expand plus blksz growblk =>
      plus ≠ 0 ∧ blksz ≠ 0 ∧ growblk ≠ 0 ∧ l.len.toNat + plus.toNat < 2 ^ 64
        ∧ Granted c.alloc l (l.len + plus) blksz growblk
  | .add blksz growblk =>
      blksz ≠ 0 ∧ growblk ≠ 0 ∧ Granted c.alloc l (l.len + 1) blksz growblk
  | .del _ => True

instance (a : Alloc) (l : Xvlst) (newMax blksz growblk : UInt64) :
    Decidable (Granted a l newMax blksz growblk) := by
  unfold Granted
  infer_instance

instance (l : Xvlst) (c : OpCall) : Decidable (CallOK l c) := by
  unfold CallOK
  split <;> infer_instance

/-- The operation as the specification sees it. -/
def Op.spec : Op → Slots.Op
  | .reserve _ _ _ => .grow
  | .expand _ _ _ => .grow
  | .add _ _ => .add
  | .del index => .del index.toNat

/-- The return values that stand for a result. -/
def Returns : Slots.Result → Int → Prop
  | .done, r => r = 0
  | .slot i, r => r = i
  | .refused, r => r = ERANGE ∨ r = EALREADY

/-- The call returns, as the specification says, and a refused one
changes nothing. -/
structure Correct (l : Xvlst) (c : OpCall) (r : Int) (l' : Xvlst) (res : Slots.Result) :
    Prop where
  apply : c.apply l = .ok (r, l')
  spec : Slots.Step l.takenSet c.op.spec res l'.takenSet
  returns : Returns res r
  unchanged : res = .refused → l' = l

theorem Good.correct {l : Xvlst} {c : OpCall} (h : Good l) (hb : c.alloc.Bounded)
    (hok : CallOK l c) : ∃ r l' res, Correct l c r l' res ∧ Good l' := by
  obtain ⟨op, a⟩ := c
  cases op with
  | reserve newMax blksz growblk =>
      obtain ⟨hblk, hgrow, hgrant⟩ := hok
      obtain ⟨l', heq, hvalid, hgr, -⟩ := xvlstReserve_spec h.toValid hb hblk hgrow hgrant
      refine ⟨0, l', .done, ⟨heq, ?_, rfl, nofun⟩, hgr.good h hvalid⟩
      rw [hgr.taken]
      exact .grow
  | expand plus blksz growblk =>
      obtain ⟨hplus, hblk, hgrow, -, hgrant⟩ := hok
      obtain ⟨l', heq, hvalid, hgr, -⟩ := xvlstReserve_spec h.toValid hb hblk hgrow hgrant
      refine ⟨0, l', .done, ⟨?_, ?_, rfl, nofun⟩, hgr.good h hvalid⟩
      · exact (xvlstExpand_eq hplus hblk hgrow).trans heq
      · rw [hgr.taken]
        exact .grow
  | add blksz growblk =>
      obtain ⟨hblk, hgrow, hgrant⟩ := hok
      obtain ⟨i, l', heq, hgood, hleast, hset⟩ := xvlstAdd_spec h hb hblk hgrow hgrant
      refine ⟨i, l', .slot i, ⟨heq, ?_, rfl, nofun⟩, hgood⟩
      rw [hset]
      exact .add hleast
  | del index =>
      by_cases hmem : index.toNat ∈ l.takenSet
      · obtain ⟨l', heq, hgood, hset⟩ := xvlstDel_taken h hmem
        refine ⟨0, l', .done, ⟨heq, ?_, rfl, nofun⟩, hgood⟩
        rw [hset]
        exact .del hmem
      · obtain ⟨r, heq, hr⟩ := xvlstDel_free h hmem
        exact ⟨r, l, .refused, ⟨heq, .refuse hmem, hr, fun _ => rfl⟩, h⟩

theorem Good.step {l l' : Xvlst} {c : OpCall} (h : Good l) (hb : c.alloc.Bounded)
    (hok : CallOK l c) (hs : step l c = some l') : Good l' := by
  obtain ⟨r, l₁, res, hcorrect, hgood⟩ := h.correct hb hok
  simp only [Xvdat.step, hcorrect.apply, Except.toOption, Option.map_some,
    Option.some.injEq] at hs
  exact hs ▸ hgood

/-- The first successful reservation of at least one slot makes the list
good. -/
theorem good_of_reserve {a : Alloc} {newMax blksz growblk : UInt64} {l : Xvlst}
    (hb : a.Bounded) (hone : newMax ≠ 0)
    (hok : CallOK .zero ⟨.reserve newMax blksz growblk, a⟩)
    (hres : xvlstReserve a .zero newMax blksz growblk = .ok (0, l)) : Good l := by
  obtain ⟨hblk, hgrow, hgrant⟩ := hok
  obtain ⟨l', heq, hvalid, hgr, hroom⟩ := xvlstReserve_spec valid_zero hb hblk hgrow hgrant
  obtain ⟨-, rfl⟩ := Prod.mk.injEq .. |>.mp (Except.ok.inj (hres.symm.trans heq))
  have hpos : 0 < newMax.toNat := toNat_pos hone
  refine ⟨hvalid, ?_, ?_⟩
  · rw [hgr.last]
    show 0 < _
    omega
  · rcases hgr.avail with heq | ⟨heq, hlt⟩
    · rw [heq]
      show (0 : Int) < _
      omega
    · omega

/-- **Slot allocation.** From the first successful reservation on, every
state of a run whose calls pass their asserts, do not wrap and get their
memory is good, and in it every such call returns what the specification
of a slot allocator says. -/
theorem slot_allocator (newMax blksz growblk : UInt64) {a : Alloc} {l : Xvlst}
    {cs : List OpCall} (hb : a.Bounded) (hone : newMax ≠ 0)
    (hfirst : CallOK .zero ⟨.reserve newMax blksz growblk, a⟩)
    (hres : xvlstReserve a .zero newMax blksz growblk = .ok (0, l))
    (hbs : ∀ c ∈ cs, c.alloc.Bounded) (hok : Runs.Meets step CallOK l cs) :
    Runs.Always step
      (fun l => Good l ∧ ∀ c : OpCall, c.alloc.Bounded → CallOK l c →
        ∃ r l' res, Correct l c r l' res) l cs := by
  have hboth := (Runs.meets_of_forall (s := l) hbs).and hok
  have hgood := Runs.always_of_meets
    (fun l c l' (h : Good l) hc hs => h.step hc.1 hc.2 hs)
    (good_of_reserve hb hone hfirst hres) hboth
  refine hgood.imp fun l h => ⟨h, fun c hcb hc => ?_⟩
  obtain ⟨r, l', res, hcorrect, -⟩ := h.correct hcb hc
  exact ⟨r, l', res, hcorrect⟩

/-- An allocator that grants every request up to `PTRDIFF_MAX`. -/
def Alloc.generous : Alloc where
  data := fun n => n.toNat < 2 ^ 63
  taken := fun n => n.toNat < 2 ^ 63
  junk := fun _ => 7

theorem Alloc.generous_bounded : Alloc.generous.Bounded := fun _ h => of_decide_eq_true h

/-- Two slots are reserved and taken, a third makes the list grow, the
first two are given back and taken again around a hole. -/
def opsHole : List OpCall :=
  [⟨.add 4 2, .generous⟩, ⟨.add 4 2, .generous⟩, ⟨.add 4 2, .generous⟩, ⟨.del 0, .generous⟩,
   ⟨.del 1, .generous⟩, ⟨.del 1, .generous⟩, ⟨.add 4 2, .generous⟩, ⟨.add 4 2, .generous⟩,
   ⟨.add 4 2, .generous⟩, ⟨.expand 3 4 2, .generous⟩, ⟨.del 9, .generous⟩]

theorem slot_allocator_opsHole :
    Runs.Always step
      (fun l => Good l ∧ ∀ c : OpCall, c.alloc.Bounded → CallOK l c →
        ∃ r l' res, Correct l c r l' res)
      { data := .block 8, len := 0, maxLen := 2, taken := some [0, 0], last := 0, avail := 0 }
      opsHole :=
  slot_allocator 2 4 2 (a := .generous) Alloc.generous_bounded (by decide) (by decide)
    (by decide +kernel) (by simp [opsHole, Alloc.generous_bounded]) (by decide +kernel)

end Xvdat

end MiscTools
