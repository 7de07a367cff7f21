import Mathlib.Data.List.TakeWhile

/-!
# C strings

The strings the library calls of this repository work on: the bytes
before the terminating NUL. That no byte is NUL is a field, so a value
of `CStr` is always what `strlen` and `strcmp` see.
-/

namespace MiscTools

/-- The bytes of a C string before its terminating NUL. -/
structure CStr where
  bytes : List UInt8
  nulFree : 0 ∉ bytes
deriving DecidableEq

namespace CStr

theorem ext {s t : CStr} (h : s.bytes = t.bytes) : s = t := by
  cases s; cases t; simpa using h

theorem nulFree_nil : (0 : UInt8) ∉ [] := List.not_mem_nil

def empty : CStr := ⟨[], nulFree_nil⟩

def strlen (s : CStr) : Nat := s.bytes.length

/-- `strndup(s, n)`, when it does not run out of memory: at most `n`
bytes of `s`. -/
def strndup (s : CStr) (n : Nat) : CStr :=
  ⟨s.bytes.take n, fun h => s.nulFree (List.mem_of_mem_take h)⟩

theorem strlen_strndup_le (s : CStr) (n : Nat) : (s.strndup n).strlen ≤ n :=
  List.length_take_le n s.bytes

/-- A string that fits is duplicated whole. -/
theorem strndup_of_le {s : CStr} {n : Nat} (h : s.strlen ≤ n) : s.strndup n = s :=
  ext (List.take_of_length_le h)

/-- `strncmp(s, t, n) == 0`: no difference in the first `n` characters. -/
def sameUpTo (s t : CStr) (n : Nat) : Bool := decide (s.bytes.take n = t.bytes.take n)

/-- Strings that fit are compared whole. -/
theorem sameUpTo_iff {s t : CStr} {n : Nat} (hs : s.strlen ≤ n) (ht : t.strlen ≤ n) :
    s.sameUpTo t n = true ↔ s = t := by
  rw [sameUpTo, decide_eq_true_eq, List.take_of_length_le hs, List.take_of_length_le ht]
  exact ⟨ext, fun h => h ▸ rfl⟩

/-- A string cut at `n` and one that is not are the same in `n + 1`
characters just if the second one needs no cutting. -/
theorem sameUpTo_strndup_iff {s t : CStr} {n : Nat} :
    (s.strndup n).sameUpTo t (n + 1) = true ↔ t.strlen ≤ n ∧ s.strndup n = t.strndup n := by
  have hcut : (s.strndup n).bytes.take (n + 1) = s.bytes.take n :=
    List.take_of_length_le (Nat.le_succ_of_le (strlen_strndup_le s n))
  rw [sameUpTo, decide_eq_true_eq, hcut]
  by_cases hle : t.strlen ≤ n
  · rw [List.take_of_length_le (Nat.le_succ_of_le hle), strndup_of_le hle]
    exact ⟨fun h => ⟨hle, ext h⟩, fun h => congrArg bytes h.2⟩
  · refine iff_of_false (fun h => hle ?_) fun h => hle h.1
    have hlen := congrArg List.length h
    rw [List.length_take, List.length_take] at hlen
    show t.bytes.length ≤ n
    omega

/-- `strcmp` on the bytes before the terminators, by unsigned byte. -/
def strcmpBytes : List UInt8 → List UInt8 → Ordering
  | [], [] => .eq
  | [], _ :: _ => .lt
  | _ :: _, [] => .gt
  | x :: xs, y :: ys => if x < y then .lt else if y < x then .gt else strcmpBytes xs ys

/-- The sign of `strcmp(s, t)`. -/
def strcmp (s t : CStr) : Ordering := strcmpBytes s.bytes t.bytes

/-! ## Strings in memory -/

/-- The string a block holds: the bytes before its first NUL. -/
def ofBlock (t : List UInt8) : Option CStr :=
  if 0 ∈ t then
    some ⟨t.takeWhile (· ≠ 0), fun h => by simpa using List.mem_takeWhile_imp h⟩
  else none

theorem ofBlock_of_prefix {s : CStr} {t : List UInt8} (h : s.bytes ++ [0] <+: t) :
    ofBlock t = some s := by
  obtain ⟨r, rfl⟩ := h
  have hmem : 0 ∈ s.bytes ++ [0] ++ r := by simp
  have hne : ∀ c ∈ s.bytes, decide (c ≠ 0) = true := by
    intro c hc
    rw [decide_eq_true_eq]
    rintro rfl
    exact s.nulFree hc
  have htake : (s.bytes ++ [0] ++ r).takeWhile (· ≠ 0) = s.bytes := by
    rw [List.append_assoc, List.takeWhile_append_of_pos hne]
    simp
  rw [ofBlock, if_pos hmem]
  exact congrArg some (ext htake)

/-- A NUL in the block ends its string there or before. -/
theorem ofBlock_of_nul {out t : List UInt8} (h : out ++ [0] <+: t) :
    ∃ s, ofBlock t = some s ∧ s.strlen ≤ out.length := by
  obtain ⟨r, rfl⟩ := h
  have hmem : 0 ∈ out ++ [0] ++ r := by simp
  refine ⟨_, if_pos hmem, ?_⟩
  show ((out ++ [0] ++ r).takeWhile (· ≠ 0)).length ≤ out.length
  rw [List.append_assoc, List.takeWhile_append]
  split
  · rw [List.singleton_append, List.takeWhile_cons_of_neg (by simp), List.append_nil]
  · exact (List.takeWhile_prefix _).length_le

end CStr

end MiscTools
