import MiscTools.DsRegistry

/-!
# Names that are cut

`debugsync_dyn.c` keeps `DS_MAXLEN` characters of a name. `ds_add` and
`ds_lookup` both cut what they are given, so names that only differ past
the limit are one name to the registry (`dsAdd_congr`, `dsLookup_congr`).
`ds_signal` cuts its name too, but `wait_on` compares the slot with the
whole name it waits for, over one character more than the slot keeps: the
terminator. A name that had to be cut is never found there
(`wait_agrees_iff`).
-/

namespace MiscTools.DsRegistry

open Blocks
open DsDyn (DS_MAXLEN Global waitOn dsSignal)

/-! ## The registry -/

/-- The records of two names start out the same just if the names do as
far as they are kept. -/
theorem DsPoint.new_eq_iff (a b : CStr) : DsPoint.new a = DsPoint.new b ↔ SameName a b := by
  constructor
  · exact fun h => congrArg DsPoint.name h
  · intro h
    unfold new
    congr 1

theorem dsAdd_congr {a b : CStr} (h : SameName a b) (room : Nat) (r : Registry) (env : Env) :
    dsAdd room r env a = dsAdd room r env b := by
  have hstore : ∀ heap, storeNew room heap a = storeNew room heap b := fun heap => by
    rw [storeNew, storeNew, (DsPoint.new_eq_iff a b).mpr h]
  simp only [dsAdd, hstore]

theorem dsLookup_congr {a b : CStr} (h : SameName a b) (bs : Bsearch) (r : Registry)
    (memory : UInt64 → Option CStr) : dsLookup bs r memory a = dsLookup bs r memory b := by
  rw [dsLookup, dsLookup, show a.strndup DS_MAXLEN = b.strndup DS_MAXLEN from h]

/-! ## The slot -/

/-- A wait ends well just when the slot and the name are the same in
`sizeof(ds.signal)` characters. -/
theorem waitOn_ret_zero_iff (g : Global) (pt : Option Nat) (name : CStr) :
    waitOn g pt name 0 = .ret 0 ↔ g.signal.sameUpTo name (DS_MAXLEN + 1) = true := by
  unfold waitOn
  cases hsame : g.signal.sameUpTo name (DS_MAXLEN + 1) with
  | true => simp
  | false =>
      simp only [true_and, if_true, Bool.false_eq_true, iff_false]
      cases pt with
      | none => exact nofun
      | some i =>
          dsimp only
          split
          · exact fun h => absurd (DsDyn.Exit.ret.inj h) (by decide)
          · exact nofun

theorem waitOn_signal_iff (g : Global) (pt : Option Nat) (a b : CStr) :
    waitOn (dsSignal g a) pt b 0 = .ret 0 ↔ b.strlen ≤ DS_MAXLEN ∧ SameName a b := by
  rw [waitOn_ret_zero_iff]
  exact CStr.sameUpTo_strndup_iff

/-- **One name to the signal and to the registry.** After `ds_signal(a)`
the wait for `b` ends exactly if the registry takes `a` and `b` for one
name: just where `b` need not be cut, or differs from `a` in what is
kept. -/
theorem wait_agrees_iff (g : Global) (a b : CStr) :
    (∀ pt, waitOn (dsSignal g a) pt b 0 = .ret 0 ↔ SameName a b)
      ↔ b.strlen ≤ DS_MAXLEN ∨ ¬SameName a b := by
  simp only [waitOn_signal_iff, and_iff_right_iff_imp]
  constructor
  · intro h
    by_cases hsame : SameName a b
    · exact .inl (h none hsame)
    · exact .inr hsame
  · rintro (hle | hdiff) _ hsame
    · exact hle
    · exact absurd hsame hdiff

theorem longName_nulFree : (0 : UInt8) ∉ List.replicate 33 112 := by decide

/-- A name one character longer than the slot. -/
def longName : CStr := ⟨List.replicate 33 112, longName_nulFree⟩

/-- Signalled by its own name, a `ds_wait` sleeps on. -/
theorem long_name_never_signalled :
    ¬∀ (g : Global) (a b : CStr) (pt : Option Nat),
      waitOn (dsSignal g a) pt b 0 = .ret 0 ↔ SameName a b := by
  intro hall
  have hlong := (waitOn_signal_iff DsDyn.dsInit none longName longName).mp
    ((hall DsDyn.dsInit longName longName none).mpr rfl)
  exact absurd hlong.1 (by decide)

end MiscTools.DsRegistry
