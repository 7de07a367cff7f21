import Mathlib.Algebra.Group.Nat.Defs
import MiscTools.Blocks
import MiscTools.CStr
import MiscTools.Counted

/-!
# The value the memcached tester sends

`main` of `mmcu.c` fills a block of `size` bytes with repetitions of its
argument `val`, the last one cut short, and asserts that a string of
`size - 1` bytes came out. The loop goes on by the length of `val`; where
that is 0 it does not go on at all, and `size` has to be 1 for the loop to
end.
-/

namespace MiscTools.Mmcu

open Blocks Counted

/-! ## The loop -/

/-- What the loop works on; `p` is an index into `buf`. -/
structure Filling where
  buf : List UInt8
  p : Nat
  left : Nat

def turn (val : CStr) (s : Filling) : Except Fault Filling := do
  let n := if val.strlen > s.left then s.left else val.strlen
  return { buf := ← copy s.buf s.p (val.bytes ++ [0]) n, p := s.p + n, left := s.left - n }

/-- At most `k` turns. -/
def fillLoop (val : CStr) (k : Nat) (s : Filling) : Except Fault Filling :=
  whileUpTo (fun s => s.left > 0) (turn val) k s

/-- `assert(strlen(buf) == (size-1))` -/
def assertLength (size : Nat) (buf : List UInt8) : Except Fault Unit :=
  match CStr.ofBlock buf with
  | none => .error .bounds
  | some s => if s.strlen = size - 1 then .ok () else .error .assertion

/-- The lines after the loop. -/
def terminate (size : Nat) (buf : List UInt8) : Except Fault (List UInt8) := do
  let buf ← write buf (size - 1) 0
  assertLength size buf
  return buf

/-- The block `buf` as `main` leaves it, `none` if `k` turns do not get
it there. -/
def fillBuf (val : CStr) (size : Nat) (buf : List UInt8) (k : Nat) :
    Except Fault (Option (List UInt8)) := do
  let s ← fillLoop val k { buf := buf, p := 0, left := size - 1 }
  if s.left > 0 then return none else return some (← terminate size s.buf)

/-- What the filling is for. -/
structure FillsExactly (val : CStr) (size : Nat) (buf : List UInt8) : Prop where
  /-- No turn writes from `size - 1` on. -/
  writes : ∀ k, ∃ s, fillLoop val k { buf := buf, p := 0, left := size - 1 } = .ok s ∧
    ∀ i, size - 1 ≤ i → s.buf[i]? = buf[i]?
  ends : ∃ k out s, fillBuf val size buf k = .ok (some out) ∧
    (∀ i, i < size - 1 → out[i]? = val.bytes[i % val.strlen]?) ∧ out[size - 1]? = some 0 ∧
      CStr.ofBlock out = some s ∧ s.strlen = size - 1

/-! ## One turn -/

/-- The first `p` cells are filled, and where there is more to do they end
with a whole repetition. -/
structure Filled (val : CStr) (size : Nat) (buf : List UInt8) (s : Filling) : Prop where
  length : s.buf.length = size
  sum : s.p + s.left = size - 1
  aligned : s.left = 0 ∨ s.p % val.strlen = 0
  cells : ∀ i, i < s.p → s.buf[i]? = val.bytes[i % val.strlen]?
  rest : ∀ i, s.p ≤ i → s.buf[i]? = buf[i]?

variable {val : CStr} {size : Nat} {buf : List UInt8} {s : Filling}

theorem filled_start (hbuf : buf.length = size) :
    Filled val size buf { buf := buf, p := 0, left := size - 1 } where
  length := hbuf
  sum := Nat.zero_add _
  aligned := .inr (Nat.zero_mod _)
  cells := fun i hi => (Nat.not_lt_zero i hi).elim
  rest := fun _ _ => rfl

/-- In a repetition that begins at a multiple of its length. -/
theorem mod_of_aligned {p i n : Nat} (haligned : p % n = 0) (hge : p ≤ i) (hlt : i - p < n) :
    i % n = i - p := by
  calc i % n = (p + (i - p)) % n := by rw [Nat.add_sub_cancel' hge]
    _ = (i - p) % n := by rw [Nat.add_mod, haligned, Nat.zero_add, Nat.mod_mod]
    _ = i - p := Nat.mod_eq_of_lt hlt

/-- A turn adds a repetition, or what there is room for. -/
theorem turn_filled (h : Filled val size buf s) (hleft : s.left > 0) :
    ∃ s', turn val s = .ok s' ∧ Filled val size buf s' ∧
      s'.left = s.left - min s.left val.strlen := by
  have hlength := h.length
  have hsum := h.sum
  have haligned : s.p % val.strlen = 0 := h.aligned.resolve_left (by omega)
  generalize hn : (if val.strlen > s.left then s.left else val.strlen) = n
  have hmin : n = min s.left val.strlen := by
    rw [← hn]
    split <;> omega
  have hsource : n ≤ val.bytes.length := hmin ▸ Nat.min_le_right ..
  obtain ⟨t, hcopy, hlen, hget⟩ :
      ∃ t, copy s.buf s.p (val.bytes ++ [0]) n = .ok t ∧ t.length = s.buf.length ∧ ∀ i,
        t[i]? = if s.p ≤ i ∧ i < s.p + n then (val.bytes ++ [0])[i - s.p]? else s.buf[i]? :=
    copy_of_le (by omega) (by rw [List.length_append]; omega)
  have hturn : turn val s = .ok { buf := t, p := s.p + n, left := s.left - n } := by
    rw [turn, hn, hcopy]
    rfl
  refine ⟨_, hturn, ⟨hlen.trans hlength, by dsimp only; omega, ?_, ?_, ?_⟩, by rw [hmin]⟩
  · rcases Nat.lt_or_ge s.left val.strlen with hlt | hge
    · exact .inl (by dsimp only; omega)
    · have hfull : n = val.strlen := by omega
      dsimp only
      rw [hfull, Nat.add_mod_right]
      exact .inr haligned
  · intro i hi
    dsimp only at hi ⊢
    rw [hget]
    rcases Nat.lt_or_ge i s.p with hlt | hge
    · rw [if_neg (by omega)]
      exact h.cells i hlt
    · rw [if_pos ⟨hge, hi⟩, mod_of_aligned haligned hge (by omega),
        List.getElem?_append_left (by omega)]
  · intro i hi
    dsimp only at hi ⊢
    rw [hget, if_neg (by omega)]
    exact h.rest i (by omega)

/-! ## The lines after the loop -/

theorem filled_nulFree (h : Filled val size buf s) : 0 ∉ s.buf.take s.p := by
  intro hmem
  obtain ⟨i, hi⟩ := List.mem_iff_getElem?.mp hmem
  have hlt : i < s.p := by
    have := (List.getElem?_eq_some_iff.mp hi).1
    rw [List.length_take] at this
    omega
  rw [List.getElem?_take_of_lt hlt, h.cells i hlt] at hi
  exact val.nulFree (List.mem_of_getElem? hi)

theorem assertLength_of {t : CStr} (h : CStr.ofBlock buf = some t) (hlen : t.strlen = size - 1) :
    assertLength size buf = .ok () := by
  rw [assertLength, h]
  exact if_pos hlen

/-- The assertion holds where the loop has ended. -/
theorem terminate_filled (hsize : 1 ≤ size) (h : Filled val size buf s) (hleft : s.left = 0) :
    ∃ out t, terminate size s.buf = .ok out ∧
      (∀ i, i < size - 1 → out[i]? = val.bytes[i % val.strlen]?) ∧ out[size - 1]? = some 0 ∧
        CStr.ofBlock out = some t ∧ t.strlen = size - 1 := by
  have hlength := h.length
  have hsum := h.sum
  have hp : s.p = size - 1 := by omega
  have htake : (s.buf.take s.p).length = size - 1 := by
    rw [List.length_take_of_le (by omega), hp]
  have hstring : CStr.ofBlock (s.buf.set (size - 1) 0) =
      some ⟨s.buf.take s.p, filled_nulFree h⟩ := by
    apply CStr.ofBlock_of_prefix
    have hprefix := prefix_set (List.take_prefix s.p s.buf) (by omega) 0
    rwa [htake] at hprefix
  have hrun : terminate size s.buf = .ok (s.buf.set (size - 1) 0) := by
    rw [terminate, write_of_lt (by omega)]
    show assertLength size _ >>= _ = _
    rw [assertLength_of hstring htake]
    rfl
  refine ⟨_, _, hrun, fun i hi => ?_, List.getElem?_set_self (by omega), hstring, htake⟩
  rw [List.getElem?_set_ne (by omega)]
  exact h.cells i (by omega)

/-! ## The whole -/

theorem fillLoop_filled (hbuf : buf.length = size) (k : Nat) :
    ∃ s, fillLoop val k { buf := buf, p := 0, left := size - 1 } = .ok s ∧
      Filled val size buf s := by
  have hturn : ∀ s, Filled val size buf s → s.left > 0 →
      ∃ s', turn val s = .ok s' ∧ Filled val size buf s' := by
    intro s h hleft
    obtain ⟨s', hs, h', -⟩ := turn_filled h hleft
    exact ⟨s', hs, h'⟩
  exact whileUpTo_invariant hturn k (filled_start hbuf)

/-- Repetitions of at least a byte fill the block. -/
theorem fillLoop_ends (hval : 1 ≤ val.strlen) (hbuf : buf.length = size) :
    ∃ s, fillLoop val (size - 1) { buf := buf, p := 0, left := size - 1 } = .ok s ∧
      Filled val size buf s ∧ s.left = 0 := by
  have hturn : ∀ s, Filled val size buf s → s.left > 0 →
      ∃ s', turn val s = .ok s' ∧ Filled val size buf s' ∧ s'.left < s.left := by
    intro s h hleft
    obtain ⟨s', hs, h', hless⟩ := turn_filled h hleft
    exact ⟨s', hs, h', by omega⟩
  obtain ⟨s, hs, h, hstop⟩ := whileUpTo_ends Filling.left hturn (filled_start hbuf)
  exact ⟨s, hs, h, by omega⟩

/-- Nothing is added where there is nothing to repeat. -/
theorem fillBuf_forever (hval : val.strlen = 0) (hsize : 1 < size) (hbuf : buf.length = size)
    (k : Nat) : fillBuf val size buf k = .ok none := by
  have hturn : ∀ s, Filled val size buf s ∧ s.left > 0 →
      ∃ s', turn val s = .ok s' ∧ Filled val size buf s' ∧ s'.left > 0 := by
    rintro s ⟨h, hleft⟩
    obtain ⟨s', hs, h', hless⟩ := turn_filled h hleft
    exact ⟨s', hs, h', by omega⟩
  have hrun : ∃ s, fillLoop val k { buf := buf, p := 0, left := size - 1 } = .ok s ∧ s.left > 0 :=
    whileUpTo_forever (fun s h => h.2) hturn
      ⟨filled_start hbuf, Nat.sub_pos_of_lt hsize⟩ k
  obtain ⟨s, hs, hleft⟩ := hrun
  rw [fillBuf, hs]
  exact if_pos hleft

theorem fillBuf_ended {k : Nat} {out : List UInt8}
    (h : fillLoop val k { buf := buf, p := 0, left := size - 1 } = .ok s) (hleft : s.left = 0)
    (hout : terminate size s.buf = .ok out) : fillBuf val size buf k = .ok (some out) := by
  rw [fillBuf, h]
  show (if s.left > 0 then _ else _) = _
  rw [if_neg (by omega), hout]
  rfl

/-- **The filling ends just if there is something to repeat, or no room to
fill.** Then the block holds the repetitions and the assertion is true. -/
theorem fillsExactly_iff (val : CStr) {size : Nat} {buf : List UInt8} (hsize : 1 ≤ size)
    (hbuf : buf.length = size) : FillsExactly val size buf ↔ 1 ≤ val.strlen ∨ size = 1 := by
  constructor
  · intro h
    by_contra hnot
    obtain ⟨k, out, -, hout, -⟩ := h.ends
    have hnone : fillBuf val size buf k = .ok none :=
      fillBuf_forever (by omega) (by omega) hbuf k
    rw [hnone] at hout
    cases hout
  · intro hcond
    refine ⟨fun k => ?_, ?_⟩
    · have hrun : ∃ s, fillLoop val k { buf := buf, p := 0, left := size - 1 } = .ok s ∧
          Filled val size buf s := fillLoop_filled hbuf k
      obtain ⟨s, hs, h⟩ := hrun
      have := h.sum
      exact ⟨s, hs, fun i hi => h.rest i (by omega)⟩
    · have hends : ∃ k s, fillLoop val k { buf := buf, p := 0, left := size - 1 } = .ok s ∧
          Filled val size buf s ∧ s.left = 0 := by
        rcases hcond with hval | hone
        · exact ⟨size - 1, fillLoop_ends hval hbuf⟩
        · exact ⟨0, _, rfl, filled_start hbuf, by dsimp only; omega⟩
      obtain ⟨k, s, hs, h, hleft⟩ := hends
      obtain ⟨out, t, hout, hspec⟩ := terminate_filled hsize h hleft
      exact ⟨k, out, t, fillBuf_ended hs hleft hout, hspec⟩

def abc : CStr := ⟨[97, 98, 99], by decide⟩

/-- A repetition and a third of the next one. -/
theorem fillsExactly_abc : FillsExactly abc 5 [7, 7, 7, 7, 7] := by
  have hiff : FillsExactly abc 5 [7, 7, 7, 7, 7] ↔ 1 ≤ abc.strlen ∨ 5 = 1 :=
    fillsExactly_iff abc (by decide) rfl
  exact hiff.mpr (.inl (by decide))

/-- The empty string does not fill a single byte. -/
theorem empty_value_never_fills :
    ¬FillsExactly CStr.empty 2 [7, 7] ∧ ∀ k, fillBuf CStr.empty 2 [7, 7] k = .ok none := by
  have hforever : ∀ k, fillBuf CStr.empty 2 [7, 7] k = .ok none :=
    fillBuf_forever rfl (by decide) rfl
  refine ⟨fun h => ?_, hforever⟩
  obtain ⟨k, out, -, hout, -⟩ := h.ends
  rw [hforever k] at hout
  cases hout

end MiscTools.Mmcu
