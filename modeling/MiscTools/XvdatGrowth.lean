import MiscTools.XvdatZero

/-!
# What growth promises

Two promises of the functions that grow a vector or a list.

A failed call leaves the list as it was (`failed_growth_unchanged_iff`).
That is so where the first `realloc` fails, unless its size has wrapped
around to 0: then the block is gone, and `data` still points to it. Between
the two `realloc` calls of `xvlst_reserve` the new `max_len` is already
stored, so where the second fails the list has a capacity and no map. What
a later operation returns depends on all fields but the size of the block
(`apply_forget`), so the damage shows.

A call that returns 0 has made the room it was asked for, and
the block is as large as `max_len` says (`capacity_iff`). That is so
where no size wraps around at 2^64.
-/

namespace MiscTools

namespace Xvdat

open Blocks Sizes

/-! ## The outcomes of `xvlst_reserve` -/

/-- The list between the two `realloc` calls. -/
def Xvlst.widened (l : Xvlst) (n blksz : UInt64) : Xvlst :=
  { l with data := .block (n * blksz).toNat, maxLen := n }

/-- How `xvlst_reserve` returns: with nothing to do, without memory for
the elements, with a capacity rounded to no more than there is, grown, or
without memory for the map. -/
inductive Reserved (a : Alloc) (l : Xvlst) (newMax blksz growblk : UInt64) :
    Int → Xvlst → Prop
  | enough (hle : newMax ≤ l.maxLen) : Reserved a l newMax blksz growblk 0 l
  | refused (hlt : l.maxLen < newMax) (halive : l.data ≠ .freed)
      (hdata : a.data (nblk newMax growblk * blksz) = false) :
      Reserved a l newMax blksz growblk (-1)
        { l with data := l.data.refused (nblk newMax growblk * blksz) }
  | rounded (hlt : l.maxLen < newMax) (halive : l.data ≠ .freed)
      (hdata : a.data (nblk newMax growblk * blksz) = true)
      (hle : nblk newMax growblk ≤ l.maxLen) :
      Reserved a l newMax blksz growblk 0 (l.widened (nblk newMax growblk) blksz)
  | grown (t : List UInt8) (hlt : l.maxLen < newMax)
      (hdata : a.data (nblk newMax growblk * blksz) = true)
      (hmore : l.maxLen < nblk newMax growblk)
      (htaken : a.taken (nblk newMax growblk) = true) :
      Reserved a l newMax blksz growblk 0
        { l.widened (nblk newMax growblk) blksz with
          taken := some t, avail := if l.avail < 0 then ssize l.maxLen else l.avail }
  | mapless (hlt : l.maxLen < newMax)
      (hdata : a.data (nblk newMax growblk * blksz) = true)
      (hmore : l.maxLen < nblk newMax growblk)
      (htaken : a.taken (nblk newMax growblk) = false) :
      Reserved a l newMax blksz growblk (-1)
        { l.widened (nblk newMax growblk) blksz with taken := none }

section Calls

variable {a : Alloc} {l l' : Xvlst} {newMax plus blksz growblk : UInt64} {r : Int}

/-- **Inversion.** -/
theorem xvlstReserve_eq_ok (h : xvlstReserve a l newMax blksz growblk = .ok (r, l')) :
    Reserved a l newMax blksz growblk r l' := by
  unfold xvlstReserve at h
  by_cases hle : newMax ≤ l.maxLen
  · rw [if_pos hle] at h
    obtain ⟨rfl, rfl⟩ := Prod.mk.injEq .. |>.mp (Except.ok.inj h)
    exact .enough hle
  have hlt : l.maxLen < newMax := UInt64.not_le.mp hle
  have hnew : ¬newMax < l.maxLen := UInt64.not_lt.mpr (UInt64.le_of_lt hlt)
  rw [if_neg hle, xvecReserve] at h
  by_cases hgrow : growblk = 0
  · rw [if_pos hgrow] at h
    cases h
  have halive : l.data ≠ .freed := by
    intro hfreed
    rw [if_neg hgrow, if_neg hnew, if_pos hfreed] at h
    cases h
  rw [if_neg hgrow, if_neg hnew, if_neg halive] at h
  cases hdata : a.data (nblk newMax growblk * blksz) with
  | false =>
      simp only [hdata, Bool.false_eq_true, if_false] at h
      obtain ⟨rfl, rfl⟩ := Prod.mk.injEq .. |>.mp (Except.ok.inj h)
      exact .refused hlt halive hdata
  | true =>
      simp only [hdata, if_true, bind, Except.bind, ne_eq, not_true_eq_false, if_false] at h
      by_cases hsame : nblk newMax growblk ≤ l.maxLen
      · rw [if_pos hsame] at h
        obtain ⟨rfl, rfl⟩ := Prod.mk.injEq .. |>.mp (Except.ok.inj h)
        exact .rounded hlt halive hdata hsame
      have hmore : l.maxLen < nblk newMax growblk := UInt64.not_le.mp hsame
      rw [if_neg hsame, growTaken] at h
      cases htaken : a.taken (nblk newMax growblk) with
      | false =>
          simp only [htaken, Bool.false_eq_true, if_false] at h
          obtain ⟨rfl, rfl⟩ := Prod.mk.injEq .. |>.mp (Except.ok.inj h)
          exact .mapless hlt hdata hmore htaken
      | true =>
          simp only [htaken, if_true, bind, Except.bind] at h
          split at h
          · cases h
          · rename_i t _
            obtain ⟨rfl, rfl⟩ := Prod.mk.injEq .. |>.mp (Except.ok.inj h)
            exact .grown t hlt hdata hmore htaken

theorem xvlstExpand_eq_ok (h : xvlstExpand a l plus blksz growblk = .ok (r, l')) :
    Reserved a l (l.len + plus) blksz growblk r l' := by
  unfold xvlstExpand at h
  split at h
  · cases h
  · exact xvlstReserve_eq_ok h

/-- `xvlst_add` returns what it takes, and takes what is at hand; for that
it needs a map. -/
theorem takeAvail_eq_ok (h : takeAvail l = .ok (r, l')) :
    r = l.avail ∧ l'.data = l.data ∧ l.taken ≠ none := by
  obtain ⟨t, hderef, h⟩ := bind_eq_ok.mp h
  obtain ⟨t', -, h⟩ := bind_eq_ok.mp h
  obtain ⟨avail, -, h⟩ := bind_eq_ok.mp h
  obtain ⟨rfl, rfl⟩ := Prod.mk.inj (Except.ok.inj h)
  refine ⟨rfl, rfl, fun hnone => ?_⟩
  rw [hnone] at hderef
  cases hderef

/-- `xvlst_add` has failed to make room, has no slot, or takes one. -/
theorem xvlstAdd_eq_ok (h : xvlstAdd a l blksz growblk = .ok (r, l')) :
    ∃ rc l₁, Reserved a l (l.len + 1) blksz growblk rc l₁
      ∧ ((rc ≠ 0 ∧ r = -ENOMEM ∧ l' = l₁) ∨ (rc = 0 ∧ l₁.avail < 0 ∧ r = -1 ∧ l' = l₁)
        ∨ (rc = 0 ∧ 0 ≤ l₁.avail ∧ takeAvail l₁ = .ok (r, l'))) := by
  unfold xvlstAdd at h
  split at h
  · cases h
  obtain ⟨⟨rc, l₁⟩, hexp, h⟩ := bind_eq_ok.mp h
  refine ⟨rc, l₁, xvlstExpand_eq_ok hexp, ?_⟩
  simp only at h
  by_cases hrc : rc = 0
  · rw [if_neg (not_not_intro hrc)] at h
    by_cases hneg : l₁.avail < 0
    · rw [if_pos hneg] at h
      obtain ⟨rfl, rfl⟩ := Prod.mk.injEq .. |>.mp (Except.ok.inj h)
      exact Or.inr (Or.inl ⟨hrc, hneg, rfl, rfl⟩)
    · rw [if_neg hneg] at h
      exact Or.inr (Or.inr ⟨hrc, Int.not_lt.mp hneg, h⟩)
  · rw [if_pos hrc] at h
    obtain ⟨rfl, rfl⟩ := Prod.mk.injEq .. |>.mp (Except.ok.inj h)
    exact Or.inl ⟨hrc, rfl, rfl⟩

/-- A refused `xvlst_del` changes nothing; any other needs a map. -/
theorem xvlstDel_eq_ok {index : UInt64} (h : xvlstDel l index = .ok (r, l')) :
    l' = l ∨ (r = 0 ∧ l'.data = l.data ∧ l.taken ≠ none) := by
  unfold xvlstDel at h
  split at h
  · exact Or.inl (Prod.mk.inj (Except.ok.inj h)).2.symm
  obtain ⟨t, hderef, h⟩ := bind_eq_ok.mp h
  have hmap : l.taken ≠ none := by
    intro hnone
    rw [hnone] at hderef
    cases hderef
  obtain ⟨x, -, h⟩ := bind_eq_ok.mp h
  split at h
  · exact Or.inl (Prod.mk.inj (Except.ok.inj h)).2.symm
  obtain ⟨t', -, h⟩ := bind_eq_ok.mp h
  by_cases hlen : l.len = 0
  · simp only [hlen, if_true] at h
    cases h
  · simp only [hlen, if_false] at h
    obtain ⟨rfl, rfl⟩ := Prod.mk.inj (Except.ok.inj h)
    exact Or.inr ⟨rfl, rfl, hmap⟩

end Calls

/-! ## A list without a data block -/

/-- What holds from a zero-filled struct on. -/
def Begun (l : Xvlst) : Prop := l.data = .null → Blank l

section Begun

variable {a : Alloc} {l l' : Xvlst} {newMax blksz growblk : UInt64} {r : Int}

theorem Data.refused_eq_null {p : Data} {n : UInt64} (h : p.refused n = .null) : p = .null := by
  cases p with
  | null => rfl
  | block size =>
      simp only [Data.refused] at h
      split at h <;> cases h
  | freed => cases h

theorem Begun.reserved (hl : Begun l) (h : Reserved a l newMax blksz growblk r l') :
    Begun l' := by
  cases h with
  | enough hle => exact hl
  | refused hlt halive hdata =>
      intro hnull
      obtain ⟨-, htaken, hlen, hmax, hlast, havail⟩ := hl (Data.refused_eq_null hnull)
      exact ⟨hnull ▸ nofun, htaken, hlen, hmax, hlast, havail⟩
  | rounded => exact nofun
  | grown => exact nofun
  | mapless => exact nofun

theorem Begun.apply {c : OpCall} (hl : Begun l) (h : c.apply l = .ok (r, l')) : Begun l' := by
  obtain ⟨op, a⟩ := c
  cases op with
  | reserve newMax blksz growblk => exact hl.reserved (xvlstReserve_eq_ok h)
  | expand plus blksz growblk => exact hl.reserved (xvlstExpand_eq_ok h)
  | add blksz growblk =>
      obtain ⟨rc, l₁, hres, ⟨-, -, rfl⟩ | ⟨-, -, -, rfl⟩ | ⟨-, -, htake⟩⟩ := xvlstAdd_eq_ok h
      · exact hl.reserved hres
      · exact hl.reserved hres
      · obtain ⟨-, hdata, hmap⟩ := takeAvail_eq_ok htake
        exact fun hnull => absurd (hl.reserved hres (hdata ▸ hnull)).taken hmap
  | del index =>
      rcases xvlstDel_eq_ok h with rfl | ⟨-, hdata, hmap⟩
      · exact hl
      · exact fun hnull => absurd (hl (hdata ▸ hnull)).taken hmap

theorem begun_of_run {cs : List OpCall} (hrun : Runs.run step .zero cs = some l) :
    Begun l := by
  refine (Runs.always_of_forall (C := fun _ => True) (fun l c l' hl _ hs => ?_)
    (fun _ => blank_zero) fun _ _ => trivial).last hrun
  cases happly : c.apply l with
  | error e =>
      rw [step, happly] at hs
      cases hs
  | ok p =>
      rw [step, happly] at hs
      obtain rfl := Option.some.inj hs
      exact hl.apply happly

end Begun

/-! ## The size of the data block is not looked at -/

/-- Whether there is a block. -/
def Data.forget : Data → Data
  | .block _ => .block 0
  | p => p

theorem Data.forget_eq_freed {p : Data} : p.forget = .freed ↔ p = .freed := by
  cases p <;> simp [Data.forget]

theorem Data.forget_forget (p : Data) : p.forget.forget = p.forget := by
  cases p <;> rfl

theorem Data.forget_refused (p : Data) (n : UInt64) :
    (p.forget.refused n).forget = (p.refused n).forget := by
  cases p with
  | null => rfl
  | block size =>
      by_cases hn : n = 0
      · simp [Data.forget, Data.refused, hn]
      · simp [Data.forget, Data.refused, hn]
  | freed => rfl

/-- All of the list but the size of its data block. -/
def Xvlst.forget (l : Xvlst) : Xvlst := { l with data := l.data.forget }

theorem Xvlst.forget_forget (l : Xvlst) : l.forget.forget = l.forget := by
  rw [Xvlst.forget, Xvlst.forget, Data.forget_forget]

/-- A result with the size of the data block forgotten. -/
def forgetResult (x : Except Fault (Int × Xvlst)) : Except Fault (Int × Xvlst) :=
  x.map fun p => (p.1, p.2.forget)

theorem forgetResult_bind {α : Type} (x : Except Fault α) (f : α → Except Fault (Int × Xvlst)) :
    forgetResult (x >>= f) = x >>= fun y => forgetResult (f y) := by
  cases x <;> rfl

theorem forgetResult_pure (r : Int) (l : Xvlst) :
    forgetResult (pure (r, l)) = pure (r, l.forget) := rfl

/-- What comes after a result may as well have it without that size. -/
theorem forgetResult_then {x : Except Fault (Int × Xvlst)}
    {f : Int × Xvlst → Except Fault (Int × Xvlst)}
    (hf : ∀ r l, forgetResult (f (r, l.forget)) = forgetResult (f (r, l))) :
    forgetResult (x >>= f) = forgetResult x >>= fun p => forgetResult (f p) := by
  cases x with
  | error e => rfl
  | ok p => exact (hf p.1 p.2).symm

theorem takeAvail_forget (l : Xvlst) :
    forgetResult (takeAvail l.forget) = forgetResult (takeAvail l) := by
  simp only [takeAvail, forgetResult_bind]
  simp only [forgetResult_pure, Xvlst.forget, Data.forget_forget]
  rfl

theorem xvlstDel_forget (l : Xvlst) (index : UInt64) :
    forgetResult (xvlstDel l.forget index) = forgetResult (xvlstDel l index) := by
  simp only [xvlstDel, forgetResult_bind, apply_ite forgetResult]
  simp only [forgetResult_pure, Xvlst.forget, Data.forget_forget]
  rfl

theorem xvlstReserve_forget (a : Alloc) (l : Xvlst) (newMax blksz growblk : UInt64) :
    forgetResult (xvlstReserve a l.forget newMax blksz growblk)
      = forgetResult (xvlstReserve a l newMax blksz growblk) := by
  unfold xvlstReserve
  by_cases hle : newMax ≤ l.maxLen
  · have hle' : newMax ≤ l.forget.maxLen := hle
    rw [if_pos hle, if_pos hle', forgetResult_pure, forgetResult_pure, Xvlst.forget_forget]
  have hle' : ¬newMax ≤ l.forget.maxLen := hle
  rw [if_neg hle, if_neg hle']
  unfold xvecReserve
  have hn : ¬newMax < l.maxLen := UInt64.not_lt.mpr (UInt64.le_of_lt (UInt64.not_le.mp hle))
  have hn' : ¬newMax < l.forget.maxLen := hn
  by_cases hg : growblk = 0
  · simp only [if_pos hg]
    rfl
  by_cases hf : l.data = .freed
  · have hf' : l.forget.data = .freed := Data.forget_eq_freed.mpr hf
    simp only [if_neg hg, if_neg hn, if_neg hn', if_pos hf, if_pos hf']
    rfl
  have hf' : l.forget.data ≠ .freed := fun h => hf (Data.forget_eq_freed.mp h)
  by_cases hd : a.data (nblk newMax growblk * blksz) = true
  · simp only [if_neg hg, if_neg hn, if_neg hn', if_neg hf, if_neg hf', if_pos hd]
    rfl
  · simp only [if_neg hg, if_neg hn, if_neg hn', if_neg hf, if_neg hf', if_neg hd]
    exact congrArg (fun data => Except.ok (-1, { l with data := data }))
      (Data.forget_refused l.data (nblk newMax growblk * blksz))

theorem xvlstExpand_forget (a : Alloc) (l : Xvlst) (plus blksz growblk : UInt64) :
    forgetResult (xvlstExpand a l.forget plus blksz growblk)
      = forgetResult (xvlstExpand a l plus blksz growblk) := by
  unfold xvlstExpand
  by_cases hargs : plus = 0 ∨ blksz = 0 ∨ growblk = 0
  · rw [if_pos hargs, if_pos hargs]
  · rw [if_neg hargs, if_neg hargs]
    exact xvlstReserve_forget a l (l.len + plus) blksz growblk

theorem xvlstAdd_forget (a : Alloc) (l : Xvlst) (blksz growblk : UInt64) :
    forgetResult (xvlstAdd a l.forget blksz growblk)
      = forgetResult (xvlstAdd a l blksz growblk) := by
  unfold xvlstAdd
  by_cases havail : ¬l.avail < ssize l.maxLen
  · have havail' : ¬l.forget.avail < ssize l.forget.maxLen := havail
    rw [if_pos havail, if_pos havail']
  · have havail' : ¬¬l.forget.avail < ssize l.forget.maxLen := havail
    rw [if_neg havail, if_neg havail', forgetResult_then, forgetResult_then, xvlstExpand_forget]
    all_goals
      intro r l'
      simp only [apply_ite forgetResult, takeAvail_forget, forgetResult_pure,
        Xvlst.forget_forget]
      rfl

/-- What an operation returns and leaves does not depend on the size of
the data block. -/
theorem apply_forget (c : OpCall) (l : Xvlst) :
    forgetResult (c.apply l.forget) = forgetResult (c.apply l) := by
  obtain ⟨op, a⟩ := c
  cases op with
  | reserve newMax blksz growblk => exact xvlstReserve_forget a l newMax blksz growblk
  | expand plus blksz growblk => exact xvlstExpand_forget a l plus blksz growblk
  | add blksz growblk => exact xvlstAdd_forget a l blksz growblk
  | del index => exact xvlstDel_forget l index

/-! ## Failed calls -/

/-- What the calls return, up to the fault that ends the run. -/
def outcomes : Xvlst → List OpCall → List (Except Fault Int)
  | _, [] => []
  | l, c :: cs =>
      match c.apply l with
      | .error e => [.error e]
      | .ok (r, l') => .ok r :: outcomes l' cs

/-- Two lists that differ in the size of their data block are told apart
by no run. -/
theorem outcomes_congr (cs : List OpCall) : ∀ {l l' : Xvlst}, l'.forget = l.forget →
    outcomes l' cs = outcomes l cs := by
  induction cs with
  | nil =>
      intro l l' _
      rfl
  | cons c cs ih =>
      intro l l' h
      have hsame : forgetResult (c.apply l') = forgetResult (c.apply l) := by
        rw [← apply_forget c l', h, apply_forget c l]
      unfold outcomes
      cases happly : c.apply l with
      | error e =>
          cases happly' : c.apply l' with
          | error e' =>
              rw [happly, happly'] at hsame
              obtain rfl := Except.error.inj hsame
              rfl
          | ok p' =>
              rw [happly, happly'] at hsame
              cases hsame
      | ok p =>
          cases happly' : c.apply l' with
          | error e' =>
              rw [happly, happly'] at hsame
              cases hsame
          | ok p' =>
              rw [happly, happly'] at hsame
              obtain ⟨hr, hl⟩ := Prod.mk.injEq .. |>.mp (Except.ok.inj hsame)
              simp only [hr, ih hl]

/-- The return values that report failure. -/
def Failed : Op → Int → Prop
  | .add _ _, r => r < 0
  | _, r => r ≠ 0

/-- The list is what it was, and no run can tell. -/
structure Unharmed (l l' : Xvlst) : Prop where
  len : l'.len = l.len
  maxLen : l'.maxLen = l.maxLen
  last : l'.last = l.last
  avail : l'.avail = l.avail
  taken : l'.taken = l.taken
  later : ∀ cs, outcomes l' cs = outcomes l cs

theorem Unharmed.refl (l : Xvlst) : Unharmed l l := ⟨rfl, rfl, rfl, rfl, rfl, fun _ => rfl⟩

/-- The list is to grow, the `realloc` of its elements is granted and the
one of its map is not. -/
def MapRefused (l : Xvlst) (c : OpCall) : Prop :=
  ∃ r ∈ c.op.request l, l.maxLen < r.newMax
    ∧ c.alloc.data (nblk r.newMax r.growblk * r.blksz) = true
    ∧ l.maxLen < nblk r.newMax r.growblk ∧ c.alloc.taken (nblk r.newMax r.growblk) = false

/-- `xvlst_add` on a full list, and the capacity it asks for is rounded,
modulo 2^64, to less than there is. -/
def AddShrinks (l : Xvlst) (c : OpCall) : Prop :=
  match c.op with
  | .add blksz growblk =>
      l.avail < 0 ∧ l.maxLen < l.len + 1 ∧ nblk (l.len + 1) growblk < l.maxLen
        ∧ c.alloc.data (nblk (l.len + 1) growblk * blksz) = true
  | _ => False

/-- The list is to grow, and the size of its data block has wrapped around
to 0 bytes, which are refused. -/
def BlockFreed (l : Xvlst) (c : OpCall) : Prop :=
  ∃ r ∈ c.op.request l, l.maxLen < r.newMax ∧ l.data ≠ .null
    ∧ nblk r.newMax r.growblk * r.blksz = 0 ∧ c.alloc.data 0 = false

/-- An allocator with no memory at all. -/
def Alloc.spent : Alloc where
  data := fun _ => false
  taken := fun _ => false
  junk := fun _ => 7

section Calls

variable {a : Alloc} {l l' : Xvlst} {newMax blksz growblk : UInt64} {r : Int}

/-- A block that has been freed shows where the list is to grow. -/
theorem not_unharmed_of_freed (hlt : l.maxLen < newMax) (halive : l.data ≠ .freed) :
    ¬Unharmed l { l with data := .freed } := by
  intro h
  have hle : ¬newMax ≤ l.maxLen := UInt64.not_le.mpr hlt
  have hn : ¬newMax < l.maxLen := UInt64.not_lt.mpr (UInt64.le_of_lt hlt)
  have hlater := h.later [⟨.reserve newMax 1 1, .spent⟩]
  simp [outcomes, OpCall.apply, xvlstReserve, xvecReserve, hle, hn, halive, Alloc.spent, bind,
    Except.bind, pure, Except.pure] at hlater

theorem refused_unharmed_iff (hlt : l.maxLen < newMax) (halive : l.data ≠ .freed) (n : UInt64) :
    Unharmed l { l with data := l.data.refused n } ↔ ¬(l.data ≠ .null ∧ n = 0) := by
  cases hdata : l.data with
  | null =>
      refine iff_of_true ?_ fun hbad => hbad.1 rfl
      show Unharmed l { l with data := .null }
      rw [← hdata]
      exact .refl l
  | block size =>
      by_cases hn : n = 0
      · refine iff_of_false ?_ fun hok => hok ⟨nofun, hn⟩
        rw [Data.refused, if_pos hn]
        exact not_unharmed_of_freed hlt halive
      · refine iff_of_true ?_ fun hbad => hn hbad.2
        rw [Data.refused, if_neg hn, ← hdata]
        exact .refl l
  | freed => exact absurd hdata halive

/-- `xvlst_reserve` harms the list where it is left without a map or with
a block that is gone, and nowhere else where it fails. -/
theorem Reserved.unharmed_iff (h : Reserved a l newMax blksz growblk r l') :
    (r ≠ 0 → Unharmed l l') ↔
      ¬(l.maxLen < newMax ∧ a.data (nblk newMax growblk * blksz) = true
          ∧ l.maxLen < nblk newMax growblk ∧ a.taken (nblk newMax growblk) = false)
        ∧ ¬(l.maxLen < newMax ∧ l.data ≠ .null ∧ nblk newMax growblk * blksz = 0
          ∧ a.data 0 = false) := by
  cases h with
  | enough hle =>
      have hnot : ¬l.maxLen < newMax := UInt64.not_lt.mpr hle
      exact iff_of_true (fun h0 => absurd rfl h0)
        ⟨fun hbad => hnot hbad.1, fun hbad => hnot hbad.1⟩
  | refused hlt halive hdata =>
      have hmap : ¬a.data (nblk newMax growblk * blksz) = true := by
        rw [hdata]
        exact Bool.false_ne_true
      rw [and_iff_right fun hbad => hmap hbad.2.1]
      refine Iff.trans ⟨fun hun => hun (by decide), fun hun _ => hun⟩
        ((refused_unharmed_iff hlt halive _).trans (not_congr ?_))
      constructor
      · rintro ⟨hblock, hzero⟩
        exact ⟨hlt, hblock, hzero, hzero ▸ hdata⟩
      · exact fun hbad => ⟨hbad.2.1, hbad.2.2.1⟩
  | rounded hlt halive hdata hle =>
      refine iff_of_true (fun h0 => absurd rfl h0)
        ⟨fun hbad => absurd hbad.2.2.1 (UInt64.not_lt.mpr hle), fun hbad => ?_⟩
      rw [hbad.2.2.1, hbad.2.2.2] at hdata
      exact absurd hdata Bool.false_ne_true
  | grown t hlt hdata hmore htaken =>
      refine iff_of_true (fun h0 => absurd rfl h0) ⟨fun hbad => ?_, fun hbad => ?_⟩
      · rw [htaken] at hbad
        exact absurd hbad.2.2.2 Bool.noConfusion
      · rw [hbad.2.2.1, hbad.2.2.2] at hdata
        exact absurd hdata Bool.false_ne_true
  | mapless hlt hdata hmore htaken =>
      refine iff_of_false (fun hun => ?_) fun hok => hok.1 ⟨hlt, hdata, hmore, htaken⟩
      have hmax : nblk newMax growblk = l.maxLen := (hun (by decide)).maxLen
      rw [hmax] at hmore
      exact absurd hmore (UInt64.lt_irrefl _)

/-- What is said of the capacity a call asks for. -/
theorem exists_request_iff {c : OpCall} {P : Request → Prop} {q : Request}
    (hreq : c.op.request l = some q) : (∃ r ∈ c.op.request l, P r) ↔ P q := by
  constructor
  · rintro ⟨req, hmem, h⟩
    obtain rfl := Option.some.inj (hreq.symm.trans hmem)
    exact h
  · exact fun h => ⟨_, hreq, h⟩

/-- A `taken` map that was granted is small enough for `avail`. -/
theorem avail_nonneg_of_grown {n : UInt64} (hb : a.Bounded) (hmore : l.maxLen < n)
    (htaken : a.taken n = true) : 0 ≤ if l.avail < 0 then ssize l.maxLen else l.avail := by
  have hsmall := hb n htaken
  have hlt := UInt64.lt_iff_toNat_lt.mp hmore
  have hold : ssize l.maxLen = l.maxLen.toNat := ssize_of_lt (by omega)
  split
  · rw [hold]
    omega
  · omega

/-- Where room has been made, `xvlst_add` has to report failure only if it
has no slot. -/
theorem Reserved.full_iff (h : Reserved a l (l.len + 1) blksz growblk 0 l') (hb : a.Bounded)
    (hl : Begun l) (hneg : l'.avail < 0) :
    Unharmed l l' ↔ ¬AddShrinks l ⟨.add blksz growblk, a⟩ := by
  cases h with
  | enough hle =>
      exact iff_of_true (.refl _) fun hbad => absurd hbad.2.1 (UInt64.not_lt.mpr hle)
  | rounded hlt halive hdata hle =>
      have hneg : l.avail < 0 := hneg
      constructor
      · intro hun hbad
        have hmax : nblk (l.len + 1) growblk = l.maxLen := hun.maxLen
        exact absurd (hmax ▸ hbad.2.2.1) (UInt64.lt_irrefl _)
      · intro hok
        have hmax : nblk (l.len + 1) growblk = l.maxLen :=
          UInt64.le_antisymm hle (UInt64.not_lt.mp fun hless => hok ⟨hneg, hlt, hless, hdata⟩)
        -- a list without a block has slot 0 at hand
        have hblock : ∃ size, l.data = .block size := by
          cases hdata' : l.data with
          | null =>
              rw [(hl hdata').avail] at hneg
              exact absurd hneg (by decide)
          | block size => exact ⟨size, rfl⟩
          | freed => exact absurd hdata' halive
        obtain ⟨size, hblock⟩ := hblock
        have hforget : (l.widened (nblk (l.len + 1) growblk) blksz).forget = l.forget := by
          simp only [Xvlst.forget, Xvlst.widened, hmax, hblock, Data.forget]
        exact ⟨rfl, hmax, rfl, rfl, rfl, fun cs => outcomes_congr cs hforget⟩
  | grown t hlt hdata hmore htaken =>
      exact absurd hneg (Int.not_lt.mpr (avail_nonneg_of_grown hb hmore htaken))

/-- An `xvlst_add` that shrinks the list makes no more room, and finds no
slot. -/
theorem Reserved.shrinks {rc : Int} (h : Reserved a l (l.len + 1) blksz growblk rc l')
    (hbad : AddShrinks l ⟨.add blksz growblk, a⟩) : rc = 0 ∧ l'.avail < 0 := by
  obtain ⟨hneg, hlt, hless, hdata⟩ := hbad
  cases h with
  | enough hle => exact absurd hlt (UInt64.not_lt.mpr hle)
  | refused _ _ hrefused =>
      rw [hrefused] at hdata
      exact absurd hdata Bool.false_ne_true
  | rounded => exact ⟨rfl, hneg⟩
  | grown _ _ _ hmore => exact absurd (UInt64.lt_trans hless hmore) (UInt64.lt_irrefl _)
  | mapless _ _ hmore => exact absurd (UInt64.lt_trans hless hmore) (UInt64.lt_irrefl _)

theorem xvlstAdd_unharmed_iff (hb : a.Bounded) (hl : Begun l)
    (h : xvlstAdd a l blksz growblk = .ok (r, l')) :
    (r < 0 → Unharmed l l') ↔ ¬MapRefused l ⟨.add blksz growblk, a⟩
      ∧ ¬AddShrinks l ⟨.add blksz growblk, a⟩ ∧ ¬BlockFreed l ⟨.add blksz growblk, a⟩ := by
  rw [MapRefused, BlockFreed, exists_request_iff (c := ⟨.add blksz growblk, a⟩) rfl,
    exists_request_iff (c := ⟨.add blksz growblk, a⟩) rfl, and_left_comm]
  obtain ⟨rc, l₁, hres, hout⟩ := xvlstAdd_eq_ok h
  have hunharmed := hres.unharmed_iff
  rcases hout with ⟨hrc, rfl, rfl⟩ | ⟨rfl, hneg, rfl, rfl⟩ | ⟨rfl, hpos, htake⟩
  · rw [and_iff_right fun hbad => hrc (hres.shrinks hbad).1]
    exact Iff.trans ⟨fun hun _ => hun (by decide), fun hun _ => hun hrc⟩ hunharmed
  · rw [and_iff_left (hunharmed.mp fun h0 => absurd rfl h0)]
    exact Iff.trans ⟨fun hun => hun (by decide), fun hun _ => hun⟩ (hres.full_iff hb hl hneg)
  · obtain ⟨rfl, -⟩ := takeAvail_eq_ok htake
    refine iff_of_true (fun hneg => absurd hneg (Int.not_lt.mpr hpos))
      ⟨fun hbad => ?_, hunharmed.mp fun h0 => absurd rfl h0⟩
    exact absurd (hres.shrinks hbad).2 (Int.not_lt.mpr hpos)

/-- **Failed growth.** A call that reports failure leaves a list as it was,
for every later call as well, if and only if it was not refused the map
after it had been granted the elements, was not an `xvlst_add` that shrinks
a full list, and was not refused 0 bytes for the elements. -/
theorem failed_growth_unchanged_iff {cs : List OpCall} {c : OpCall}
    (hrun : Runs.run step .zero cs = some l) (hb : c.alloc.Bounded)
    (h : c.apply l = .ok (r, l')) :
    (Failed c.op r → Unharmed l l') ↔
      ¬MapRefused l c ∧ ¬AddShrinks l c ∧ ¬BlockFreed l c := by
  obtain ⟨op, a⟩ := c
  cases op with
  | reserve newMax blksz growblk =>
      rw [MapRefused, BlockFreed, exists_request_iff (c := ⟨.reserve newMax blksz growblk, a⟩) rfl,
        exists_request_iff (c := ⟨.reserve newMax blksz growblk, a⟩) rfl, and_left_comm,
        and_iff_right (show ¬AddShrinks _ _ from id)]
      exact (xvlstReserve_eq_ok h).unharmed_iff
  | expand plus blksz growblk =>
      rw [MapRefused, BlockFreed, exists_request_iff (c := ⟨.expand plus blksz growblk, a⟩) rfl,
        exists_request_iff (c := ⟨.expand plus blksz growblk, a⟩) rfl, and_left_comm,
        and_iff_right (show ¬AddShrinks _ _ from id)]
      exact (xvlstExpand_eq_ok h).unharmed_iff
  | add blksz growblk => exact xvlstAdd_unharmed_iff hb (begun_of_run hrun) h
  | del index =>
      refine iff_of_true (fun hr => ?_) ⟨fun hbad => ?_, id, fun hbad => ?_⟩
      · rcases xvlstDel_eq_ok h with rfl | ⟨rfl, -⟩
        · exact .refl l'
        · exact absurd rfl hr
      · obtain ⟨req, hreq, -⟩ := hbad
        cases hreq
      · obtain ⟨req, hreq, -⟩ := hbad
        cases hreq

end Calls

instance (l : Xvlst) (c : OpCall) : Decidable (MapRefused l c) := by
  unfold MapRefused
  infer_instance

instance (l : Xvlst) (c : OpCall) : Decidable (BlockFreed l c) := by
  unfold BlockFreed
  infer_instance

instance (l : Xvlst) (c : OpCall) : Decidable (AddShrinks l c) :=
  match c with
  | ⟨.reserve _ _ _, _⟩ => isFalse id
  | ⟨.expand _ _ _, _⟩ => isFalse id
  | ⟨.add blksz growblk, a⟩ =>
      inferInstanceAs (Decidable (l.avail < 0 ∧ l.maxLen < l.len + 1
        ∧ nblk (l.len + 1) growblk < l.maxLen
        ∧ a.data (nblk (l.len + 1) growblk * blksz) = true))
  | ⟨.del _, _⟩ => isFalse id

/-- An allocator with memory for elements and none for a map. -/
def Alloc.mapless : Alloc where
  data := fun _ => true
  taken := fun _ => false
  junk := fun _ => 7

/-- A list of two slots, both taken, and the calls that make it. -/
def fullList : Xvlst where
  data := .block 8
  len := 2
  maxLen := 2
  taken := some [1, 1]
  last := 1
  avail := -1

def opsFull : List OpCall :=
  [⟨.reserve 2 4 2, .willing⟩, ⟨.add 4 2, .willing⟩, ⟨.add 4 2, .willing⟩]

theorem run_opsFull : Runs.run step .zero opsFull = some fullList := by decide +kernel

theorem failed_growth_unchanged_fullList :
    ∃ l', xvlstAdd .spent fullList 4 2 = .ok (-ENOMEM, l') ∧ Unharmed fullList l' := by
  have hb : Alloc.spent.Bounded := fun _ h => absurd h Bool.false_ne_true
  have hadd : (⟨.add 4 2, .spent⟩ : OpCall).apply fullList = .ok (-ENOMEM, fullList) := by decide
  have hfailed : Failed (.add 4 2) (-ENOMEM) := by
    show -ENOMEM < 0
    decide
  exact ⟨fullList, hadd,
    (failed_growth_unchanged_iff run_opsFull hb hadd).mpr (by decide) hfailed⟩

/-- A third element is asked for. There is no memory for the map: `max_len`
has doubled, the map is gone, and `xvlst_del` reads through NULL where it
would have succeeded. Or the size has wrapped around to 0: the block is
gone, and a later growth gives it to `realloc`. -/
theorem failed_growth_harms :
    Runs.run step .zero opsFull = some fullList
      ∧ (∃ l', xvlstAdd .mapless fullList 4 2 = .ok (-ENOMEM, l') ∧ l'.maxLen = 4
        ∧ l'.taken = none ∧ outcomes l' [⟨.del 0, .willing⟩] = [.error .null]
        ∧ outcomes fullList [⟨.del 0, .willing⟩] = [.ok 0] ∧ ¬Unharmed fullList l')
      ∧ ∃ l', xvlstReserve .spent fullList 3 0x4000000000000000 4 = .ok (-1, l')
        ∧ l'.data = .freed ∧ outcomes l' [⟨.reserve 3 4 4, .willing⟩] = [.error .bounds]
        ∧ outcomes fullList [⟨.reserve 3 4 4, .willing⟩] = [.ok 0] ∧ ¬Unharmed fullList l' := by
  refine ⟨run_opsFull, ⟨_, rfl, rfl, rfl, rfl, rfl, fun h => ?_⟩, _, rfl, rfl, rfl, rfl,
    fun h => ?_⟩
  · exact absurd h.maxLen (by decide)
  · exact absurd (h.later [⟨.reserve 3 4 4, .willing⟩]) (by decide +kernel)

/-! ## Sizes that may wrap -/

/-- The capacity `xvec_reserve` rounds to, before it is cut to 64 bits.
For 0 it rounds 2^64 up and keeps what is above. -/
def blocks (newMax growblk : Nat) : Nat :=
  if newMax = 0 then growblk - 1 - (2 ^ 64 - 1) % growblk else room newMax growblk

section Sizes

variable {newMax plus blksz growblk : UInt64}

theorem toNat_nblk_zero (hg : growblk ≠ 0) :
    (nblk 0 growblk).toNat = growblk.toNat - 1 - (2 ^ 64 - 1) % growblk.toNat := by
  have hpos : 0 < growblk.toNat := toNat_pos hg
  have hlt : growblk.toNat < 2 ^ 64 := growblk.toNat_lt
  have hdiv := Nat.div_add_mod (2 ^ 64 - 1) growblk.toNat
  have hmod := Nat.mod_lt (2 ^ 64 - 1) hpos
  rw [nblk, UInt64.toNat_mul, UInt64.toNat_add, UInt64.toNat_div]
  show (1 + (2 ^ 64 - 1) / growblk.toNat) % 2 ^ 64 * growblk.toNat % 2 ^ 64 = _
  have hprod : (1 + (2 ^ 64 - 1) / growblk.toNat) * growblk.toNat
      = 2 ^ 64 + (growblk.toNat - 1 - (2 ^ 64 - 1) % growblk.toNat) := by
    rw [Nat.add_mul, Nat.one_mul, Nat.mul_comm]
    omega
  rw [Nat.mod_mul_mod, hprod, Nat.add_mod_left, Nat.mod_eq_of_lt (by omega)]

theorem toNat_nblk_of_lt (hg : growblk ≠ 0)
    (hfit : blocks newMax.toNat growblk.toNat < 2 ^ 64) :
    (nblk newMax growblk).toNat = blocks newMax.toNat growblk.toNat := by
  by_cases hn : newMax = 0
  · subst hn
    rw [toNat_nblk_zero hg]
    rfl
  · have hn' : newMax.toNat ≠ 0 := Nat.ne_of_gt (toNat_pos hn)
    rw [blocks, if_neg hn'] at hfit ⊢
    exact toNat_nblk hn hfit

/-- A rounding that wraps around is too small. -/
theorem blocks_lt_of_le (h : newMax ≤ nblk newMax growblk) :
    blocks newMax.toNat growblk.toNat < 2 ^ 64 := by
  have hlt : growblk.toNat < 2 ^ 64 := growblk.toNat_lt
  by_cases hn : newMax.toNat = 0
  · rw [blocks, if_pos hn]
    omega
  · have hle := UInt64.le_iff_toNat_le.mp h
    have hroom : room newMax.toNat growblk.toNat ≤ newMax.toNat - 1 + growblk.toNat := room_le
    have hmax : newMax.toNat < 2 ^ 64 := newMax.toNat_lt
    rw [toNat_nblk_mod fun h0 => hn (by rw [h0]; rfl)] at hle
    rw [blocks, if_neg hn]
    by_contra hwrap
    have hmod : room newMax.toNat growblk.toNat % 2 ^ 64
        = room newMax.toNat growblk.toNat - 2 ^ 64 := by
      rw [Nat.mod_eq_sub_mod (Nat.not_lt.mp hwrap), Nat.mod_eq_of_lt (by omega)]
    omega

theorem Data.Holds.alive {p : Data} {n : Nat} (h : p.Holds n) : p ≠ .freed := by
  rintro rfl
  exact h

/-- What a call that returns 0 says about the vector. -/
structure Roomy (v v' : Xvec) (newMax : Nat) (blksz : UInt64) : Prop where
  enough : newMax ≤ v'.maxLen.toNat
  kept : v.maxLen ≤ v'.maxLen
  block : v'.data.Holds (v'.maxLen.toNat * blksz.toNat)

/-- There is enough already, or the bytes for the rounded capacity can be
counted. -/
def ReserveFits (v : Xvec) (newMax blksz growblk : UInt64) : Prop :=
  newMax < v.maxLen ∨ blocks newMax.toNat growblk.toNat * blksz.toNat < 2 ^ 64

/-- So can the elements asked for; `plus` 0 fails the assertion. -/
def ExpandFits (v : Xvec) (plus blksz growblk : UInt64) : Prop :=
  plus = 0 ∨ (v.len.toNat + plus.toNat < 2 ^ 64 ∧ ReserveFits v (v.len + plus) blksz growblk)

/-- The vector after a growth. -/
theorem roomy_grown_iff {v : Xvec} (hg : growblk ≠ 0) (hblk : blksz ≠ 0)
    (hmax : v.maxLen ≤ newMax) :
    Roomy v { v with data := .block (nblk newMax growblk * blksz).toNat,
                     maxLen := nblk newMax growblk } newMax.toNat blksz
      ↔ blocks newMax.toNat growblk.toNat * blksz.toNat < 2 ^ 64 := by
  have hpos : 0 < blksz.toNat := toNat_pos hblk
  constructor
  · rintro ⟨henough, -, hblock⟩
    have hfit := blocks_lt_of_le (UInt64.le_iff_toNat_le.mpr henough)
    have hbytes : (nblk newMax growblk).toNat * blksz.toNat
        ≤ (nblk newMax growblk * blksz).toNat := hblock
    rw [← toNat_nblk_of_lt hg hfit]
    exact Nat.lt_of_le_of_lt hbytes (UInt64.toNat_lt _)
  · intro hfit
    have hlt : blocks newMax.toNat growblk.toNat < 2 ^ 64 :=
      Nat.lt_of_le_of_lt (Nat.le_mul_of_pos_right _ hpos) hfit
    have hblocks := toNat_nblk_of_lt hg hlt
    have henough : newMax.toNat ≤ (nblk newMax growblk).toNat := by
      rw [hblocks, blocks]
      split
      · omega
      · exact le_room (Nat.ne_of_gt (toNat_pos hg))
    refine ⟨henough, UInt64.le_trans hmax (UInt64.le_iff_toNat_le.mpr henough), ?_⟩
    show (nblk newMax growblk).toNat * blksz.toNat ≤ (nblk newMax growblk * blksz).toNat
    rw [UInt64.toNat_mul, hblocks, Nat.mod_eq_of_lt hfit]

theorem xvecReserve_roomy_iff {a : Alloc} {v : Xvec} (ha : ∀ n, a.data n = true)
    (hg : growblk ≠ 0) (hblk : blksz ≠ 0)
    (hblock : v.data.Holds (v.maxLen.toNat * blksz.toNat)) :
    (∀ v', xvecReserve a v newMax blksz growblk = .ok (0, v') → Roomy v v' newMax.toNat blksz)
      ↔ ReserveFits v newMax blksz growblk := by
  by_cases hless : newMax < v.maxLen
  · refine iff_of_true (fun v' h => ?_) (Or.inl hless)
    rw [xvecReserve, if_neg hg, if_pos hless] at h
    obtain ⟨-, rfl⟩ := Prod.mk.injEq .. |>.mp (Except.ok.inj h)
    exact ⟨Nat.le_of_lt (UInt64.lt_iff_toNat_lt.mp hless), UInt64.le_refl _, hblock⟩
  · have hres : xvecReserve a v newMax blksz growblk
        = .ok (0, { v with data := .block (nblk newMax growblk * blksz).toNat,
                           maxLen := nblk newMax growblk }) := by
      simp [xvecReserve, hg, hless, hblock.alive, ha]
    rw [ReserveFits, or_iff_right hless, ← roomy_grown_iff hg hblk (UInt64.not_lt.mp hless)]
    constructor
    · exact fun h => h _ hres
    · intro h v' h'
      obtain ⟨-, rfl⟩ := Prod.mk.injEq .. |>.mp (Except.ok.inj (hres.symm.trans h'))
      exact h

/-- **Capacity.** With memory for every request, on a vector whose block
is as large as `max_len` says: what `xvec_reserve` and `xvec_expand`
promise by returning 0 is so if and only if no size they compute wraps
around. -/
theorem capacity_iff (newMax plus : UInt64) {a : Alloc} {v : Xvec}
    (ha : ∀ n, a.data n = true) (hg : growblk ≠ 0) (hblk : blksz ≠ 0)
    (hblock : v.data.Holds (v.maxLen.toNat * blksz.toNat)) :
    ((∀ v', xvecReserve a v newMax blksz growblk = .ok (0, v') →
        Roomy v v' newMax.toNat blksz) ↔ ReserveFits v newMax blksz growblk)
      ∧ ((∀ v', xvecExpand a v plus blksz growblk = .ok (0, v') →
          Roomy v v' (v.len.toNat + plus.toNat) blksz) ↔ ExpandFits v plus blksz growblk) := by
  refine ⟨xvecReserve_roomy_iff ha hg hblk hblock, ?_⟩
  by_cases hplus : plus = 0
  · refine iff_of_true (fun v' h => ?_) (Or.inl hplus)
    rw [xvecExpand, if_pos (Or.inl hplus)] at h
    cases h
  have hexp : xvecExpand a v plus blksz growblk
      = xvecReserve a v (v.len + plus) blksz growblk := by
    simp [xvecExpand, hplus, hblk, hg]
  rw [hexp, ExpandFits, or_iff_right hplus]
  by_cases hsum : v.len.toNat + plus.toNat < 2 ^ 64
  · have hnew : (v.len + plus).toNat = v.len.toNat + plus.toNat := by
      rw [UInt64.toNat_add, Nat.mod_eq_of_lt hsum]
    rw [and_iff_right hsum, ← hnew]
    exact xvecReserve_roomy_iff ha hg hblk hblock
  · -- whatever is returned, `max_len` is below 2^64
    refine iff_of_false (fun hall => ?_) fun h => hsum h.1
    have hret : ∃ v', xvecReserve a v (v.len + plus) blksz growblk = .ok (0, v') := by
      rw [xvecReserve, if_neg hg]
      split
      · exact ⟨_, rfl⟩
      · exact ⟨_, (if_neg hblock.alive).trans (if_pos (ha _))⟩
    obtain ⟨v', hv'⟩ := hret
    exact hsum (Nat.lt_of_le_of_lt (hall v' hv').enough v'.maxLen.toNat_lt)

end Sizes

instance (v : Xvec) (newMax blksz growblk : UInt64) :
    Decidable (ReserveFits v newMax blksz growblk) := by
  unfold ReserveFits
  infer_instance

instance (v : Xvec) (plus blksz growblk : UInt64) :
    Decidable (ExpandFits v plus blksz growblk) := by
  unfold ExpandFits
  infer_instance

/-- A vector of five elements of four bytes, all used. -/
def fiveVec : Xvec where
  data := .block 20
  len := 5
  maxLen := 5

theorem capacity_fiveVec :
    (∀ v', xvecReserve .willing fiveVec 7 4 10 = .ok (0, v') → Roomy fiveVec v' 7 4)
      ∧ ∀ v', xvecExpand .willing fiveVec 3 4 10 = .ok (0, v') → Roomy fiveVec v' (5 + 3) 4 := by
  have hg : (10 : UInt64) ≠ 0 := by decide
  have hblk : (4 : UInt64) ≠ 0 := by decide
  have h := capacity_iff 7 3 (a := .willing) (v := fiveVec) (fun _ => rfl) hg hblk
    (show 20 ≤ 20 by decide)
  exact ⟨h.1.mpr (by decide), h.2.mpr (by decide)⟩

/-- Each call returns 0: with a block of 16 bytes for 2^60 + 1 elements
of 16 bytes, with a capacity of 0 for 2^64 - 1 elements in steps of two,
and with no growth for 2^64 - 1 elements more. -/
theorem capacity_wraps :
    (∃ v', xvecReserve .willing { data := .null, len := 0, maxLen := 0 } 0x1000000000000001 16 1
        = .ok (0, v') ∧ v'.maxLen = 0x1000000000000001 ∧ v'.data = .block 16)
      ∧ (∃ v', xvecReserve .willing fiveVec 0xffffffffffffffff 4 2 = .ok (0, v')
        ∧ v'.maxLen = 0)
      ∧ ∃ v', xvecExpand .willing fiveVec 0xffffffffffffffff 4 10 = .ok (0, v')
        ∧ v'.maxLen = 5 :=
  ⟨⟨_, rfl, by decide +kernel⟩, ⟨_, rfl, by decide +kernel⟩, ⟨_, rfl, by decide +kernel⟩⟩

end Xvdat

end MiscTools
