import Mathlib.Algebra.Order.Group.Int
import MiscTools.Raised
import MiscTools.SimpleSort

/-!
# insertion_sort and shell_sort

Both put the saved value `v` one gap below the hole the shifting loop has
left. The value in that place is lost, and the one above it, which was
moved up last or is `v` itself, is there twice. What is lost is at most
`v` and what is doubled is at least `v`, so no turn lowers the array
(`insertTurn_spec`), and an array that comes out a permutation of what
went in has not been touched at all: each value is equal to the one a gap
before it. With a last gap of 1 that leaves the arrays of one repeated
value (`insertion_sorts_iff`, `shell_sorts_iff`).

The gaps of `shell_sort` grow by `h += 3*h + 1`, to `(4^k - 1) / 3`, and
shrink by `h /= 3`. They end in 1 or in 2, which is the first digit of
the largest gap in base 3 (`gapsFrom_last`).
-/

namespace MiscTools.SimpleSort

open Blocks Counted Sizes

/-! ## One turn -/

/-- The hole at `p` has moved down to `p'`, one gap above `j'`. With `v`
in the hole the values are the same. -/
structure Shifted (h : Gap) (v : Int) (p : Nat) (t : List Int) (p' : Nat) (j' : Int)
    (t' : List Int) : Prop where
  hole : (p' : Int) = j' + h.val
  length : t'.length = t.length
  inside : p' < t.length
  perm : (t'.set p' v).Perm (t.set p v)
  stale : (p' = p ∧ t' = t) ∨ ∀ y, t'[p']? = some y → v < y
  stop : ∀ k : Nat, j' = k → ∀ x, t'[k]? = some x → x ≤ v

/-- The hole moves: `v` and the value at its next place change places. -/
theorem set_hole_perm {t : List Int} {m k : Nat} (hne : m ≠ k) (hm : m < t.length)
    (hk : k < t.length) (v : Int) : ((t.set m t[k]).set k v).Perm (t.set m v) := by
  have hswap := @List.set_set_perm _ (t.set m v) m k
    (by rwa [List.length_set]) (by rwa [List.length_set])
  rwa [List.getElem_set_self, List.getElem_set_ne hne, List.set_set] at hswap

theorem shift_spec (h : Gap) (v : Int) (p : Nat) : ∀ {j : Int} {t : List Int} {j' : Int}
    {t' : List Int}, (p : Int) = j + h.val → p < t.length → shift h v j t = .ok (j', t') →
      ∃ p', Shifted h v p t p' j' t' := by
  induction p using Nat.strongRecOn with
  | ind p ih =>
      intro j t j' t' hp hlt hs
      have hgap := h.property
      rw [shift] at hs
      split at hs
      case isFalse hneg =>
          obtain ⟨rfl, rfl⟩ := Prod.mk.inj (Except.ok.inj hs)
          exact ⟨p, hp, rfl, hlt, .refl _, .inl ⟨rfl, rfl⟩, fun k hk => by omega⟩
      case isTrue hpos =>
          obtain ⟨x, hx, hs⟩ := bind_eq_ok.mp hs
          obtain ⟨k, hk, hklt, rfl⟩ := get_eq_ok hx
          split at hs
          case isFalse hle =>
              obtain ⟨rfl, rfl⟩ := Prod.mk.inj (Except.ok.inj hs)
              refine ⟨p, hp, rfl, hlt, .refl _, .inl ⟨rfl, rfl⟩, fun m hm y hy => ?_⟩
              obtain rfl : k = m := by omega
              rw [List.getElem?_eq_getElem hklt] at hy
              obtain rfl := Option.some.inj hy
              exact Int.not_lt.mp hle
          case isTrue hgt =>
              obtain ⟨t₁, hput, hs⟩ := bind_eq_ok.mp hs
              obtain ⟨m, hm, -, rfl⟩ := put_eq_ok hput
              obtain rfl : m = p := by omega
              obtain ⟨p', hsh⟩ := ih k (by omega) (j := j - h.val) (by omega)
                (by rwa [List.length_set]) hs
              have hne : m ≠ k := by omega
              refine ⟨p', hsh.hole, ?_, ?_, hsh.perm.trans ?_, .inr ?_, hsh.stop⟩
              · rw [hsh.length, List.length_set]
              · have hin := hsh.inside
                rwa [List.length_set] at hin
              · exact set_hole_perm hne hlt hklt v
              · rcases hsh.stale with ⟨rfl, rfl⟩ | hstale
                · intro y hy
                  rw [List.getElem?_set_ne hne, List.getElem?_eq_getElem hklt] at hy
                  obtain rfl := Option.some.inj hy
                  exact hgt
                · exact hstale

/-- A turn raises the array, and one it does not raise it leaves as it
was, with equal values a gap apart. -/
theorem insertTurn_spec {h : Gap} {i : Int} {t t' : List Int} (ht : insertTurn h i t = .ok t') :
    t'.length = t.length ∧ Raised t t'
      ∧ (Raised t' t → t' = t ∧ ∃ q : Nat, i = q + h.val ∧ t[q]? = t[q + h.val]?) := by
  have hgap := h.property
  obtain ⟨v, hv, ht⟩ := bind_eq_ok.mp ht
  obtain ⟨p, rfl, hp, rfl⟩ := get_eq_ok hv
  obtain ⟨⟨j, t₁⟩, hs, ht⟩ := bind_eq_ok.mp ht
  obtain ⟨k, rfl, hk, rfl⟩ := put_eq_ok ht
  obtain ⟨p', hsh⟩ := shift_spec h t[p] p (by omega) hp hs
  have hlen := hsh.length
  have hp' : p' < t₁.length := hlen ▸ hsh.inside
  have hpk : p' = k + h.val := by
    have hhole := hsh.hole
    omega
  have hne : p' ≠ k := by omega
  have hlow : t₁[k] ≤ t[p] := hsh.stop k rfl _ (List.getElem?_eq_getElem hk)
  -- `u` has the values of `t`; the turn doubles `t₁[p']` in the place of `t₁[k]`
  have hu : (t₁.set p' t[p]).Perm t := by
    have hperm := hsh.perm
    rwa [List.set_getElem_self] at hperm
  have hku : k < (t₁.set p' t[p]).length := by rwa [List.length_set]
  have huk : (t₁.set p' t[p])[k] = t₁[k] := List.getElem_set_ne hne _
  have hlost : ((t₁.set p' t[p]).set k t₁[p']).Perm (t₁.set k t[p]) := by
    rw [List.set_comm _ _ hne]
    exact set_hole_perm hne.symm hk hp' t[p]
  have hhigh : t[p] ≤ t₁[p'] := by
    rcases hsh.stale with ⟨rfl, rfl⟩ | hstale
    · exact Int.le_refl _
    · exact Int.le_of_lt (hstale _ (List.getElem?_eq_getElem hp'))
  refine ⟨by rw [List.length_set, hlen], ?_, fun hback => ?_⟩
  · exact ((Raised.of_perm hu.symm).trans
      (Raised.set hku (by rw [huk]; exact Int.le_trans hlow hhigh))).trans (Raised.of_perm hlost)
  · have hle := Raised.set_back hku
      (((Raised.of_perm hlost).trans hback).trans (Raised.of_perm hu.symm))
    rw [huk] at hle
    rcases hsh.stale with ⟨rfl, rfl⟩ | hstale
    · have heq : t₁[k] = t₁[p'] := Int.le_antisymm hlow hle
      refine ⟨by rw [← heq, List.set_getElem_self], k, by omega, ?_⟩
      rw [List.getElem?_eq_getElem hk, heq, ← hpk, List.getElem?_eq_getElem hp']
    · have hgt := hstale _ (List.getElem?_eq_getElem hp')
      omega

/-! ## Passes -/

/-- Values a gap apart are equal. -/
def Level (h : Gap) (t : List Int) : Prop :=
  ∀ q : Nat, q + h.val < t.length → t[q]? = t[q + h.val]?

/-- All values are equal. -/
def Constant (t : List Int) : Prop := ∀ x ∈ t, ∀ y ∈ t, x = y

/-- A pass raises the array, and one it does not raise it leaves as it
was, and level. -/
theorem gapPass_spec {h : Gap} {t t' : List Int} (ht : gapPass h t.length t = .ok t') :
    t'.length = t.length ∧ Raised t t' ∧ (Raised t' t → t' = t ∧ Level h t) := by
  by_cases hle : (h.val : Int) ≤ t.length
  · have hinv := countUp_invariant (n := t.length) (I := fun i s => s.length = t.length
        ∧ Raised t s ∧ (Raised s t → s = t ∧ ∀ q : Nat, q + (h.val : Int) < i →
          t[q]? = t[q + h.val]?)) ?_ hle
      ⟨rfl, Raised.refl t, fun _ => ⟨rfl, fun q hq => by omega⟩⟩ ht
    · obtain ⟨hlen, hraised, hback⟩ := hinv
      refine ⟨hlen, hraised, fun hb => ⟨(hback hb).1, fun q hq => (hback hb).2 q (by omega)⟩⟩
    · rintro i s s' - - ⟨hlen, hraised, hback⟩ hs
      obtain ⟨hlen', hraised', hback'⟩ := insertTurn_spec hs
      refine ⟨hlen'.trans hlen, hraised.trans hraised', fun hb => ?_⟩
      obtain ⟨rfl, hbefore⟩ := hback (hraised'.trans hb)
      obtain ⟨rfl, q₀, rfl, hq₀⟩ := hback' hb
      refine ⟨rfl, fun q hq => ?_⟩
      rcases (by omega : q < q₀ ∨ q = q₀) with hlt | rfl
      · exact hbefore q (by omega)
      · exact hq₀
  · rw [gapPass, countUp_of_le (by omega)] at ht
    obtain rfl := Except.ok.inj ht
    exact ⟨rfl, Raised.refl t, fun _ => ⟨rfl, fun q hq => by omega⟩⟩

/-- On an array of one value no turn changes anything. -/
theorem insertTurn_constant {h : Gap} {t : List Int} (ht : Constant t) {i : Int}
    (hlo : h.val ≤ i) (hi : i < t.length) : insertTurn h i t = .ok t := by
  have hgap := h.property
  obtain ⟨p, rfl⟩ : ∃ p : Nat, i = p := ⟨i.toNat, by omega⟩
  obtain ⟨q, hq⟩ : ∃ q : Nat, (p : Int) - h.val = q := ⟨p - h.val, by omega⟩
  have hp : p < t.length := by omega
  have hqlt : q < t.length := by omega
  have heq : t[q] = t[p] := ht _ (List.getElem_mem hqlt) _ (List.getElem_mem hp)
  have hshift : shift h t[p] q t = .ok (q, t) := by
    rw [shift, if_pos (Int.natCast_nonneg q), get_of_lt hqlt]
    exact if_neg (by rw [heq]; exact Int.lt_irrefl _)
  rw [insertTurn, get_of_lt hp, hq]
  show (shift h t[p] q t >>= fun r => put r.2 r.1 t[p]) = _
  rw [hshift]
  show put t q t[p] = _
  rw [put_of_lt hqlt, ← heq, List.set_getElem_self]

theorem gapPass_constant (h : Gap) {t : List Int} (ht : Constant t) :
    gapPass h t.length t = .ok t := by
  by_cases hle : (h.val : Int) ≤ t.length
  · have hturn : ∀ i s, (h.val : Int) ≤ i → i < t.length → s = t →
        ∃ s', insertTurn h i s = .ok s' ∧ s' = t := by
      rintro i s hlo hi rfl
      exact ⟨s, insertTurn_constant ht hlo hi, rfl⟩
    obtain ⟨t', hpass, rfl⟩ := countUp_total (I := fun _ s => s = t) hturn hle rfl
    exact hpass
  · exact countUp_of_le (by omega) t

/-- With a gap of 1, only an array of one value is level. -/
theorem constant_of_level {h : Gap} (hone : h.val = 1) {t : List Int} (ht : Level h t) :
    Constant t := by
  have hfirst : ∀ q (hq : q < t.length), t[q]? = t[0]? := by
    intro q
    induction q with
    | zero => exact fun _ => rfl
    | succ q ih =>
        intro hq
        have hstep := ht q (by omega)
        rw [hone] at hstep
        rw [← hstep]
        exact ih (by omega)
  intro x hx y hy
  obtain ⟨p, hp, rfl⟩ := List.getElem_of_mem hx
  obtain ⟨q, hq, rfl⟩ := List.getElem_of_mem hy
  have heq := (hfirst p hp).trans (hfirst q hq).symm
  rw [List.getElem?_eq_getElem hp, List.getElem?_eq_getElem hq] at heq
  exact Option.some.inj heq

theorem Constant.pairwise {t : List Int} (ht : Constant t) : t.Pairwise (· ≤ ·) :=
  List.pairwise_of_forall_mem_list fun x hx y hy => Int.le_of_eq (ht x hx y hy)

/-! ## `insertion_sort` -/

theorem constant_of_short {t : List Int} (ht : t.length < 2) : Constant t := by
  match t, ht with
  | [], _ => exact fun x hx => absurd hx List.not_mem_nil
  | [x], _ =>
      intro y hy z hz
      rw [List.mem_singleton.mp hy, List.mem_singleton.mp hz]

theorem constant_of_insertion {a : Longs} (h : Sorts insertionSort a) : Constant a.val := by
  obtain ⟨t, hsort, -, hperm⟩ := h
  by_cases hshort : a.num < 2
  · exact constant_of_short (a.num_lt_two_iff.mp hshort)
  · rw [insertionSort, if_neg hshort, a.ssize_num] at hsort
    obtain ⟨-, -, hback⟩ := gapPass_spec hsort
    exact constant_of_level rfl (hback (Raised.of_perm hperm)).2

/-- **`insertion_sort` sorts** just the arrays of one repeated value. -/
theorem insertion_sorts_iff (a : Longs) : Sorts insertionSort a ↔ Constant a.val := by
  refine ⟨constant_of_insertion, fun hconst => ⟨a.val, ?_, hconst.pairwise, .refl _⟩⟩
  rw [insertionSort, a.ssize_num]
  split
  · rfl
  · exact gapPass_constant _ hconst

/-- 1 is lost from the first, and the second is left at `val[-1]`. -/
theorem insertion_fails : ¬Sorts insertionSort oneTwo ∧ ¬Sorts insertionSort twoOne := by
  constructor <;> intro h <;>
    exact absurd (constant_of_insertion h 1 (by simp [oneTwo, twoOne]) 2
      (by simp [oneTwo, twoOne])) (by simp)

/-! ## The gaps of `shell_sort` -/

/-- The values of `h` in the growing loop: 0 (before it), 1, 5, 21, … -/
def grownGap (k : Nat) : Nat := (4 ^ k - 1) / 3

/-- The largest gap on an array of length `num` begins with 1 in base 3. -/
def ReachesOne (num : Nat) : Prop :=
  ∃ k m : Nat, grownGap k ≤ num / 9 ∧ num / 9 < grownGap (k + 1)
    ∧ 3 ^ m ≤ grownGap (k + 1) ∧ grownGap (k + 1) < 2 * 3 ^ m

theorem grownGap_succ (k : Nat) : grownGap (k + 1) = 4 * grownGap k + 1 := by
  have hmod : 4 ^ k % 3 = 1 := by
    rw [Nat.pow_mod]
    simp
  rw [grownGap, grownGap, Nat.pow_succ]
  omega

theorem grownGap_mono {k k' : Nat} (h : k ≤ k') : grownGap k ≤ grownGap k' := by
  induction h with
  | refl => exact Nat.le_refl _
  | step _ ih =>
      rw [grownGap_succ]
      omega

/-- The growing loop ends in the first gap past its bound. -/
theorem growGap_spec {n : Nat} : ∀ {k : Nat}, grownGap k ≤ n →
    ∃ k', grownGap k' ≤ n ∧ n < grownGap (k' + 1)
      ∧ growGap n (grownGap (k + 1)) = grownGap (k' + 1) := by
  have hfrom : ∀ (d k : Nat), n + 1 - grownGap (k + 1) = d → grownGap k ≤ n →
      ∃ k', grownGap k' ≤ n ∧ n < grownGap (k' + 1)
        ∧ growGap n (grownGap (k + 1)) = grownGap (k' + 1) := by
    intro d
    induction d using Nat.strongRecOn with
    | ind d ih =>
        intro k hd hk
        by_cases hle : grownGap (k + 1) ≤ n
        · have hnext : grownGap (k + 1) + (3 * grownGap (k + 1) + 1)
              = grownGap (k + 1 + 1) := by
            rw [grownGap_succ (k + 1)]
            omega
          obtain ⟨k', hlow, hhigh, hgrow⟩ := ih _ (by omega) (k + 1) rfl hle
          refine ⟨k', hlow, hhigh, ?_⟩
          rw [growGap, if_pos hle, hnext]
          exact hgrow
        · refine ⟨k, hk, by omega, ?_⟩
          rw [growGap, if_neg hle]
  intro k hk
  exact hfrom _ k rfl hk

/-- The first digit in base 3 is 1: of a number with one digit, and of a
longer one without its last digit. -/
theorem first_digit_small {h : Nat} (hpos : 0 < h) (hsmall : h < 3) :
    h = 1 ↔ ∃ m, 3 ^ m ≤ h ∧ h < 2 * 3 ^ m := by
  constructor
  · exact fun hone => ⟨0, hpos, by omega⟩
  · rintro ⟨m, hlow, hhigh⟩
    cases m with
    | zero => omega
    | succ m =>
        have hm : 0 < 3 ^ m := Nat.pow_pos (by omega)
        rw [Nat.pow_succ] at hlow
        omega

theorem first_digit_div {h : Nat} (hlarge : ¬h < 3) :
    (∃ m, 3 ^ m ≤ h / 3 ∧ h / 3 < 2 * 3 ^ m) ↔ ∃ m, 3 ^ m ≤ h ∧ h < 2 * 3 ^ m := by
  constructor
  · rintro ⟨m, hlow, hhigh⟩
    exact ⟨m + 1, by rw [Nat.pow_succ]; omega, by rw [Nat.pow_succ]; omega⟩
  · rintro ⟨m, hlow, hhigh⟩
    cases m with
    | zero => omega
    | succ m =>
        rw [Nat.pow_succ] at hlow hhigh
        exact ⟨m, by omega, by omega⟩

/-- The shrinking loop ends in the first digit of its start, in base 3. -/
theorem gapsFrom_last (h : Nat) : 0 < h → ∃ g, (gapsFrom h).getLast? = some g
    ∧ (g.val = 1 ↔ ∃ m, 3 ^ m ≤ h ∧ h < 2 * 3 ^ m) := by
  induction h using Nat.strongRecOn with
  | ind h ih =>
      intro hpos
      by_cases hsmall : h < 3
      · have hlast : h / 3 = 0 := by omega
        refine ⟨⟨h, hpos⟩, ?_, first_digit_small hpos hsmall⟩
        rw [gapsFrom, dif_pos hpos, hlast, gapsFrom, dif_neg (Nat.lt_irrefl 0)]
        rfl
      · obtain ⟨g, hlast, hone⟩ := ih (h / 3) (by omega) (by omega)
        refine ⟨g, ?_, hone.trans (first_digit_div hsmall)⟩
        rw [gapsFrom, dif_pos hpos, List.getLast?_cons, hlast]
        rfl

theorem grownGap_one : grownGap 1 = 1 := rfl

/-- There is a last gap, and when it is 1. -/
theorem gaps_last {num : UInt64} (hnum : ¬num < 2) :
    ∃ g, (gaps num).getLast? = some g ∧ (g.val = 1 ↔ ReachesOne num.toNat) := by
  obtain ⟨k, hlow, hhigh, hgrow⟩ := growGap_spec (n := num.toNat / 9) (k := 0) (Nat.zero_le _)
  rw [Nat.zero_add, grownGap_one] at hgrow
  obtain ⟨g, hlast, hone⟩ := gapsFrom_last (grownGap (k + 1)) (by omega)
  refine ⟨g, by rw [gaps, if_neg hnum, hgrow, hlast], ?_⟩
  rw [hone]
  constructor
  · rintro ⟨m, hm⟩
    exact ⟨k, m, hlow, hhigh, hm⟩
  · rintro ⟨k', m, hlow', hhigh', hm⟩
    have hk : k' = k := by
      rcases Nat.lt_trichotomy k' k with hlt | heq | hgt
      · have hle : grownGap (k' + 1) ≤ grownGap k := grownGap_mono hlt
        omega
      · exact heq
      · have hle : grownGap (k + 1) ≤ grownGap k' := grownGap_mono hgt
        omega
    rw [hk] at hm
    exact ⟨m, hm⟩

/-! ## `shell_sort` -/

/-- What one pass does, the passes do. -/
theorem passes_spec {gs : List Gap} : ∀ {t t' : List Int} {num : Int}, num = t.length →
    gs.foldlM (fun t h => gapPass h num t) t = .ok t' →
      Raised t t' ∧ (Raised t' t → t' = t ∧ ∀ g ∈ gs, Level g t) := by
  induction gs with
  | nil =>
      intro t t' num _ h
      obtain rfl := Except.ok.inj h
      exact ⟨Raised.refl t, fun _ => ⟨rfl, fun g hg => absurd hg List.not_mem_nil⟩⟩
  | cons g gs ih =>
      rintro t t' num rfl h
      rw [List.foldlM_cons] at h
      obtain ⟨t₁, hpass, hrest⟩ := bind_eq_ok.mp h
      obtain ⟨hlen, hraised, hback⟩ := gapPass_spec hpass
      obtain ⟨hraised', hback'⟩ := ih (by rw [hlen]) hrest
      refine ⟨hraised.trans hraised', fun hb => ?_⟩
      obtain ⟨rfl, hlevel⟩ := hback (hraised'.trans hb)
      obtain ⟨rfl, hlevels⟩ := hback' hb
      refine ⟨rfl, fun g' hg' => ?_⟩
      rcases List.mem_cons.mp hg' with rfl | hmem
      · exact hlevel
      · exact hlevels g' hmem

theorem passes_constant {t : List Int} (ht : Constant t) (gs : List Gap) :
    gs.foldlM (fun t' h => gapPass h t.length t') t = .ok t := by
  induction gs with
  | nil => rfl
  | cons g gs ih =>
      rw [List.foldlM_cons, gapPass_constant g ht]
      exact ih

theorem level_of_shell {a : Longs} (h : Sorts shellSort a) : ∀ g ∈ gaps a.num, Level g a.val := by
  obtain ⟨t, hsort, -, hperm⟩ := h
  rw [shellSort, a.ssize_num] at hsort
  exact ((passes_spec rfl hsort).2 (Raised.of_perm hperm)).2

/-- **`shell_sort` sorts** and ends in a pass of gap 1 just on the arrays
of one repeated value, and there only for the lengths at which the gaps
come down to 1. -/
theorem shell_sorts_iff (a : Longs) :
    (Sorts shellSort a ∧ ∀ g, (gaps a.num).getLast? = some g → g.val = 1)
      ↔ Constant a.val ∧ (a.val.length < 2 ∨ ReachesOne a.val.length) := by
  have hsorts : Constant a.val → Sorts shellSort a := by
    intro hconst
    refine ⟨a.val, ?_, hconst.pairwise, .refl _⟩
    rw [shellSort, a.ssize_num]
    exact passes_constant hconst _
  by_cases hshort : a.num < 2
  · have hlen := a.num_lt_two_iff.mp hshort
    refine iff_of_true ⟨hsorts (constant_of_short hlen), fun g hg => ?_⟩
      ⟨constant_of_short hlen, .inl hlen⟩
    rw [gaps, if_pos hshort] at hg
    cases hg
  · obtain ⟨g, hlast, hone⟩ := gaps_last hshort
    rw [a.toNat_num] at hone
    constructor
    · rintro ⟨hs, hend⟩
      have hg := hend g hlast
      exact ⟨constant_of_level hg (level_of_shell hs g (List.mem_of_getLast? hlast)),
        .inr (hone.mp hg)⟩
    · rintro ⟨hconst, hlen⟩
      refine ⟨hsorts hconst, fun g' hg' => ?_⟩
      obtain rfl := Option.some.inj (hlast.symm.trans hg')
      refine hone.mpr (hlen.resolve_left fun hlt => hshort (a.num_lt_two_iff.mpr hlt))

/-- 1 is lost from an array of two that was in order, and on 45 values the
last pass has gap 2. -/
theorem shell_fails : ¬Sorts shellSort oneTwo
    ∧ (gaps 45).map (·.val) = [21, 7, 2] := by
  constructor
  · intro h
    have hgaps : gaps oneTwo.num = [⟨1, Nat.one_pos⟩] := by
      simp [gaps, oneTwo, Longs.num, growGap, gapsFrom]
    have hgap : ⟨1, Nat.one_pos⟩ ∈ gaps oneTwo.num := hgaps ▸ List.mem_cons_self
    exact absurd (constant_of_level rfl (level_of_shell h _ hgap) 1 (by simp [oneTwo]) 2
      (by simp [oneTwo])) (by simp)
  · have hgaps : gaps 45 = [⟨21, by decide⟩, ⟨7, by decide⟩, ⟨2, by decide⟩] := by
      simp [gaps, growGap, gapsFrom]
    rw [hgaps]
    rfl

end MiscTools.SimpleSort
