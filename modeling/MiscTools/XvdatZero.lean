import MiscTools.XvdatSlots

/-!
# Slot lists from a zero-filled struct

There is no constructor: a list starts as a zero-filled `struct xvlst`.
`xvlst_reserve` and `xvlst_expand` make it good in the sense of
`XvdatSlots`. The other two have an unwritten precondition there:
`xvlst_add` asserts that `avail` is below `max_len` before it makes room,
and `xvlst_del` takes index 0, which is not above `last`, for one that
has been used, and reads the map there is not.

`zero_usable` says that this is all that goes wrong with an assertion or
with a NULL map, as long as no growth rounds to less than there is
already, or to more than an object can have.
-/

namespace MiscTools

namespace Xvdat

open Blocks Sizes Slots Runs

/-! ## The calls -/

/-- The arguments pass the asserts on entry. -/
def Op.Admitted : Op → Prop
  | .reserve _ _ growblk => growblk ≠ 0
  | .expand plus blksz growblk => plus ≠ 0 ∧ blksz ≠ 0 ∧ growblk ≠ 0
  | .add blksz growblk => blksz ≠ 0 ∧ growblk ≠ 0
  | .del _ => True

/-- Every `realloc` is granted. -/
def Alloc.Grants (a : Alloc) : Prop := ∀ n, a.data n = true ∧ a.taken n = true

/-- The capacity a call asks for. -/
structure Request where
  newMax : UInt64
  blksz : UInt64
  growblk : UInt64

def Op.request (l : Xvlst) : Op → Option Request
  | .reserve newMax blksz growblk => some ⟨newMax, blksz, growblk⟩
  | .expand plus blksz growblk => some ⟨l.len + plus, blksz, growblk⟩
  | .add blksz growblk => some ⟨l.len + 1, blksz, growblk⟩
  | .del _ => none

/-- A capacity above the one there is, rounded up (modulo 2^64) to a
multiple of `growblk`, is not below the one there is, and is below
2^63. -/
def Fits (l : Xvlst) (c : OpCall) : Prop :=
  ∀ r ∈ c.op.request l, l.maxLen < r.newMax →
    l.maxLen ≤ nblk r.newMax r.growblk ∧ (nblk r.newMax r.growblk).toNat < 2 ^ 63

/-- The list has some capacity, unless the call is to give it some or is
an `xvlst_del` of an index above 0. -/
def HasMap (l : Xvlst) (c : OpCall) : Prop :=
  match c.op with
  | .add _ _ => l.maxLen ≠ 0
  | .del index => l.maxLen ≠ 0 ∨ index ≠ 0
  | _ => True

/-- No assertion fails, and a NULL `taken` is not accessed. -/
def Safe (l : Xvlst) (c : OpCall) : Prop :=
  c.apply l ≠ .error .assertion ∧ c.apply l ≠ .error .null

/-! ## The invariant -/

/-- A list no capacity has been given to. -/
structure Blank (l : Xvlst) : Prop where
  alive : l.data ≠ .freed
  taken : l.taken = none
  len : l.len = 0
  maxLen : l.maxLen = 0
  last : l.last = 0
  avail : l.avail = 0

theorem blank_zero : Blank .zero := ⟨nofun, rfl, rfl, rfl, rfl, rfl⟩

theorem Blank.valid {l : Xvlst} (h : Blank l) : Valid l := by
  have hset : l.takenSet = ∅ := by simp [Xvlst.takenSet, slots, h.taken]
  refine ⟨h.alive, ?_, ?_, Or.inr ⟨0, h.avail, ?_⟩, ?_, ?_⟩
  · rw [h.taken, h.maxLen]
    rfl
  · rw [h.maxLen]
    decide
  · rw [hset]
    exact leastFree_of_full (by simp) (by simp)
  · rw [hset, h.len]
    rfl
  · rw [hset]
    simp

def Usable (l : Xvlst) : Prop := Blank l ∨ Good l

theorem Usable.valid {l : Xvlst} (h : Usable l) : Valid l := by
  rcases h with h | h
  · exact h.valid
  · exact h.toValid

theorem Usable.blank {l : Xvlst} (h : Usable l) (hmax : l.maxLen = 0) : Blank l := by
  rcases h with h | h
  · exact h
  · have hlt := h.last_lt
    rw [hmax] at hlt
    exact absurd hlt (Nat.not_lt_zero _)

theorem Usable.good {l : Xvlst} (h : Usable l) (hmax : l.maxLen ≠ 0) : Good l := by
  rcases h with h | h
  · exact absurd h.maxLen hmax
  · exact h

/-- Growth keeps a list blank, or makes it good. -/
theorem Usable.grown {l l' : Xvlst} (h : Usable l) (hgr : Grown l l') (hvalid : Valid l')
    (hmap : l'.maxLen = l.maxLen → l'.taken = l.taken) : Usable l' := by
  rcases h with h | h
  · by_cases hmax : l'.maxLen = 0
    · refine Or.inl ⟨hvalid.alive, ?_, hgr.len.trans h.len, hmax, hgr.last.trans h.last, ?_⟩
      · rw [hmap (hmax.trans h.maxLen.symm), h.taken]
      · rcases hgr.avail with heq | ⟨-, hlt⟩
        · exact heq.trans h.avail
        · rw [hmax] at hlt
          exact absurd hlt (Nat.not_lt_zero _)
    · have hpos : 0 < l'.maxLen.toNat := toNat_pos hmax
      refine Or.inr ⟨hvalid, ?_, ?_⟩
      · rw [hgr.last, h.last]
        exact hpos
      · rcases hgr.avail with heq | ⟨heq, hlt⟩
        · rw [heq, h.avail]
          omega
        · omega
  · exact Or.inr (hgr.good h hvalid)

/-! ## One call -/

theorem Fits.serves {l : Xvlst} {c : OpCall} {newMax blksz growblk : UInt64}
    (h : Fits l c) (ha : c.alloc.Grants)
    (hreq : c.op.request l = some ⟨newMax, blksz, growblk⟩) :
    Serves c.alloc l newMax blksz growblk := by
  intro hlt
  obtain ⟨hkeep, hsmall⟩ := h ⟨newMax, blksz, growblk⟩ hreq hlt
  exact ⟨(ha _).1, (ha _).2, hkeep, hsmall⟩

/-- On a good list `xvlst_add` returns: a slot, or -1 if it has none
left. -/
theorem Good.add_returns {a : Alloc} {l : Xvlst} {blksz growblk : UInt64} (h : Good l)
    (hblk : blksz ≠ 0) (hgrow : growblk ≠ 0) (hserves : Serves a l (l.len + 1) blksz growblk) :
    ∃ r l', xvlstAdd a l blksz growblk = .ok (r, l') ∧ Good l' := by
  obtain ⟨l₁, hres, hvalid, hgr, -⟩ := xvlstReserve_serves h.toValid hgrow hserves
  have hgood := hgr.good h hvalid
  have hassert : ¬¬l.avail < ssize l.maxLen := by
    rw [ssize_of_lt h.small]
    exact fun hn => hn h.avail_lt
  have hadd : xvlstAdd a l blksz growblk
      = if l₁.avail < 0 then .ok (-1, l₁) else takeAvail l₁ := by
    unfold xvlstAdd
    rw [if_neg hassert, xvlstExpand_eq (by decide) hblk hgrow, hres]
    rfl
  rcases hvalid.avail with ⟨hneg, -⟩ | ⟨i, hi, hleast⟩
  · exact ⟨-1, l₁, by rw [hadd, if_pos (by omega)], hgood⟩
  · obtain ⟨l', htake, hgood', -⟩ := takeAvail_spec hgood hi hleast
    exact ⟨i, l', by rw [hadd, if_neg (by omega), htake], hgood'⟩

theorem Good.del_returns {l : Xvlst} (h : Good l) (index : UInt64) :
    ∃ r l', xvlstDel l index = .ok (r, l') ∧ Good l' := by
  by_cases hmem : index.toNat ∈ l.takenSet
  · obtain ⟨l', heq, hgood, -⟩ := xvlstDel_taken h hmem
    exact ⟨0, l', heq, hgood⟩
  · obtain ⟨r, heq, -⟩ := xvlstDel_free h hmem
    exact ⟨r, l, heq, h⟩

/-- What a call may rely on. -/
structure Ready (l : Xvlst) (c : OpCall) : Prop where
  args : c.op.Admitted
  alloc : c.alloc.Grants
  fits : Fits l c

theorem Usable.returns {l : Xvlst} {c : OpCall} (h : Usable l) (hr : Ready l c)
    (hmap : HasMap l c) : ∃ r l', c.apply l = .ok (r, l') ∧ Usable l' := by
  obtain ⟨op, a⟩ := c
  obtain ⟨hargs, ha, hfits⟩ := hr
  cases op with
  | reserve newMax blksz growblk =>
      obtain ⟨l', heq, hvalid, hgr, -, hkeep⟩ :=
        xvlstReserve_serves h.valid hargs (hfits.serves ha rfl)
      exact ⟨0, l', heq, h.grown hgr hvalid hkeep⟩
  | expand plus blksz growblk =>
      obtain ⟨hplus, hblk, hgrow⟩ := hargs
      obtain ⟨l', heq, hvalid, hgr, -, hkeep⟩ :=
        xvlstReserve_serves h.valid hgrow (hfits.serves ha rfl)
      exact ⟨0, l', (xvlstExpand_eq hplus hblk hgrow).trans heq, h.grown hgr hvalid hkeep⟩
  | add blksz growblk =>
      obtain ⟨r, l', heq, hgood⟩ := (h.good hmap).add_returns hargs.1 hargs.2
        (hfits.serves ha rfl)
      exact ⟨r, l', heq, Or.inr hgood⟩
  | del index =>
      by_cases hmax : l.maxLen = 0
      · have hblank := h.blank hmax
        have hlast : l.last < index := by
          rw [hblank.last]
          exact UInt64.pos_iff_ne_zero.mpr (hmap.resolve_left (not_not_intro hmax))
        exact ⟨ERANGE, l, by simp [OpCall.apply, xvlstDel, hlast, pure, Except.pure], h⟩
      · obtain ⟨r, l', heq, hgood⟩ := (h.good hmax).del_returns index
        exact ⟨r, l', heq, Or.inr hgood⟩

/-- Without a map `xvlst_add` fails its assertion, and `xvlst_del` of
index 0 reads through NULL. -/
theorem Usable.not_safe {l : Xvlst} {c : OpCall} (h : Usable l) (hmap : ¬HasMap l c) :
    ¬Safe l c := by
  obtain ⟨op, a⟩ := c
  cases op with
  | reserve newMax blksz growblk => exact absurd trivial hmap
  | expand plus blksz growblk => exact absurd trivial hmap
  | add blksz growblk =>
      have hblank := h.blank (Decidable.not_not.mp hmap)
      refine fun hsafe => hsafe.1 ?_
      have hassert : ¬l.avail < ssize l.maxLen := by
        rw [hblank.avail, hblank.maxLen]
        decide
      exact if_pos hassert
  | del index =>
      obtain ⟨hmax, hindex⟩ := not_or.mp hmap
      have hblank := h.blank (Decidable.not_not.mp hmax)
      obtain rfl := Decidable.not_not.mp hindex
      refine fun hsafe => hsafe.2 ?_
      simp [OpCall.apply, xvlstDel, hblank.last, hblank.taken, deref, bind, Except.bind]

theorem Usable.step {l l' : Xvlst} {c : OpCall} (h : Usable l) (hr : Ready l c)
    (hmap : HasMap l c) (hs : Xvdat.step l c = some l') : Usable l' := by
  obtain ⟨r, l₁, heq, hgood⟩ := h.returns hr hmap
  simp only [Xvdat.step, heq, Except.toOption, Option.map_some, Option.some.injEq] at hs
  exact hs ▸ hgood

theorem Usable.safe {l : Xvlst} {c : OpCall} (h : Usable l) (hr : Ready l c)
    (hmap : HasMap l c) : Safe l c := by
  obtain ⟨r, l', heq, -⟩ := h.returns hr hmap
  exact ⟨by rw [heq]; nofun, by rw [heq]; nofun⟩

/-! ## Every run -/

instance (l : Xvlst) (c : OpCall) : Decidable (Fits l c) := by
  unfold Fits
  infer_instance

instance (l : Xvlst) (c : OpCall) : Decidable (HasMap l c) :=
  match c with
  | ⟨.reserve _ _ _, _⟩ => isTrue trivial
  | ⟨.expand _ _ _, _⟩ => isTrue trivial
  | ⟨.add _ _, _⟩ => inferInstanceAs (Decidable (l.maxLen ≠ 0))
  | ⟨.del index, _⟩ => inferInstanceAs (Decidable (l.maxLen ≠ 0 ∨ index ≠ 0))

/-- **From a zero-filled struct.** If every call of the run fits and
finds some capacity where it needs it, no assertion fails and a NULL map
is not accessed. As long as the calls fit, the second condition is also
necessary. -/
theorem zero_usable {cs : List OpCall} (hargs : ∀ c ∈ cs, c.op.Admitted)
    (halloc : ∀ c ∈ cs, c.alloc.Grants) :
    (Guards step (fun l c => Fits l c ∧ HasMap l c) .zero cs → Guards step Safe .zero cs)
      ∧ (Guards step Fits .zero cs → Guards step Safe .zero cs →
        Guards step HasMap .zero cs) := by
  have hlabels : Guards step (fun _ c => c.op.Admitted ∧ c.alloc.Grants) .zero cs :=
    guards_of_forall fun c hc => ⟨hargs c hc, halloc c hc⟩
  have hzero : Usable .zero := Or.inl blank_zero
  have hmapped : ∀ {l : Xvlst} {c : OpCall}, Usable l → Safe l c → HasMap l c :=
    fun h hsafe => Decidable.of_not_not fun hmap => h.not_safe hmap hsafe
  refine ⟨fun hok => ?_, fun hfits hsafe => ?_⟩
  · refine guards_of_guards (fun l c l' h hc hs => ?_) (fun l c h hc => ?_) hzero
      (hlabels.and hok)
    · exact h.step ⟨hc.1.1, hc.1.2, hc.2.1⟩ hc.2.2 hs
    · exact h.safe ⟨hc.1.1, hc.1.2, hc.2.1⟩ hc.2.2
  · refine guards_of_guards (fun l c l' h hc hs => ?_) (fun l c h hc => ?_) hzero
      (hlabels.and (hfits.and hsafe))
    · exact h.step ⟨hc.1.1, hc.1.2, hc.2.1⟩ (hmapped h hc.2.2) hs
    · exact hmapped h hc.2.2

/-- An allocator that grants every request. -/
def Alloc.willing : Alloc where
  data := fun _ => true
  taken := fun _ => true
  junk := fun _ => 7

/-- Nothing is reserved, an index never used is deleted, room is made for
one element, and two are added. -/
def opsZero : List OpCall :=
  [⟨.reserve 0 4 2, .willing⟩, ⟨.del 1, .willing⟩, ⟨.expand 1 4 1, .willing⟩,
   ⟨.add 4 1, .willing⟩, ⟨.add 4 1, .willing⟩, ⟨.del 0, .willing⟩]

theorem zero_usable_opsZero : Guards step Safe .zero opsZero :=
  (zero_usable (by simp [opsZero, Op.Admitted]) (by simp [opsZero, Alloc.Grants, Alloc.willing])).1
    (by decide +kernel)

/-- On a zero-filled struct `xvlst_add` fails its assertion and
`xvlst_del` of index 0 reads through NULL. -/
theorem zero_not_usable :
    xvlstAdd .willing .zero 4 2 = .error .assertion ∧ xvlstDel .zero 0 = .error .null
      ∧ ¬Guards step Safe .zero [⟨.add 4 2, .willing⟩]
      ∧ ¬Guards step Safe .zero [⟨.del 0, .willing⟩] := by
  have hadd : xvlstAdd .willing .zero 4 2 = .error .assertion := by decide
  have hdel : xvlstDel .zero 0 = .error .null := by decide
  exact ⟨hadd, hdel, fun h => h.1.1 hadd, fun h => h.1.2 hdel⟩

end Xvdat

end MiscTools
