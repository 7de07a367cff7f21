import Mathlib.Data.List.Basic

/-!
# Blocks of memory with checked access

A block is the list of its cells; a pointer that may be NULL is an
`Option` of one. Every access is checked: outside the block it is a
`Fault`, so that a function which returns a value has provably stayed
inside. A failed `assert` is a `Fault` too.

The element type is arbitrary. `resize` is a successful `realloc` (the
cells that were not there before hold whatever `junk` says), `fill` is
`memset`, `copy` is `memcpy`, `find` is `memchr`, and `store` is the loop
that appends to a buffer until it is full.
-/

namespace MiscTools

namespace Blocks

universe u

inductive Fault
  | assertion
  | null
  | bounds
deriving DecidableEq

variable {α : Type u}

def deref : Option (List α) → Except Fault (List α)
  | none => .error .null
  | some t => .ok t

def read (t : List α) (i : Nat) : Except Fault α :=
  match t[i]? with
  | none => .error .bounds
  | some x => .ok x

def write (t : List α) (i : Nat) (x : α) : Except Fault (List α) :=
  if i < t.length then .ok (t.set i x) else .error .bounds

/-- The `n` cells from `i` on become `x`. -/
def fill (t : List α) (i n : Nat) (x : α) : Except Fault (List α) :=
  if i + n ≤ t.length then
    .ok (t.mapIdx fun k y => if i ≤ k ∧ k < i + n then x else y)
  else .error .bounds

/-- The first `n` cells of `src` go to the cells from `i` on. -/
def copy (t : List α) (i : Nat) (src : List α) (n : Nat) : Except Fault (List α) :=
  if i + n ≤ t.length ∧ n ≤ src.length then .ok (t.take i ++ src.take n ++ t.drop (i + n))
  else .error .bounds

/-- The first of the `n` cells from `i` on that is `x`. -/
def find [DecidableEq α] (t : List α) (x : α) (i : Nat) : Nat → Except Fault (Option Nat)
  | 0 => .ok none
  | n + 1 =>
      match read t i with
      | .error e => .error e
      | .ok y => if y = x then .ok (some i) else find t x (i + 1) n

/-- The cells of `p`, cut or extended to `n`. -/
def resize (p : Option (List α)) (n : Nat) (junk : Nat → α) : List α :=
  (List.range n).map fun k => ((p.getD [])[k]?).getD (junk k)

/-- Store `xs` from cell `j` on, as far as `lim`; the next index comes
back with the block. -/
def store (lim : Nat) : List α → Nat → List α → Except Fault (Nat × List α)
  | [], j, t => .ok (j, t)
  | x :: xs, j, t =>
      if j < lim then
        match write t j x with
        | .error e => .error e
        | .ok t' => store lim xs (j + 1) t'
      else .ok (j, t)

/-- Of `out`, what fits below `lim` is in the first cells of `t`, and `j`
is the cell after it. -/
structure Begins (lim : Nat) (out : List α) (j : Nat) (t : List α) : Prop where
  index : j = (out.take lim).length
  cells : out.take lim <+: t

/-- Two computations in a row return when both do. -/
theorem bind_eq_ok {β γ : Type u} {x : Except Fault β} {f : β → Except Fault γ} {z : γ} :
    x >>= f = .ok z ↔ ∃ y, x = .ok y ∧ f y = .ok z := by
  cases x with
  | error e => exact ⟨nofun, fun ⟨_, h, _⟩ => nomatch h⟩
  | ok y => exact ⟨fun h => ⟨y, rfl, h⟩, fun ⟨_, h, hf⟩ => by cases h; exact hf⟩

/-! ## Access inside the block -/

theorem read_of_some {t : List α} {i : Nat} {x : α} (h : t[i]? = some x) :
    read t i = .ok x := by
  simp [read, h]

theorem read_of_lt {t : List α} {i : Nat} (h : i < t.length) : read t i = .ok t[i] :=
  read_of_some (List.getElem?_eq_getElem h)

theorem write_of_lt {t : List α} {i : Nat} (h : i < t.length) (x : α) :
    write t i x = .ok (t.set i x) := by
  simp [write, h]

theorem write_within {buf : List α} {i : Nat} (h : i < buf.length) (rest : List α) (x : α) :
    write (buf ++ rest) i x = .ok (buf.set i x ++ rest) := by
  rw [write_of_lt (by rw [List.length_append]; omega), List.set_append_left _ _ h]

theorem length_resize (p : Option (List α)) (n : Nat) (junk : Nat → α) :
    (resize p n junk).length = n := by
  simp [resize]

/-- The cells that fit keep their values. -/
theorem getElem?_resize {p : Option (List α)} {n : Nat} {junk : Nat → α} {k : Nat}
    (hk : k < (p.getD []).length) (hn : k < n) :
    (resize p n junk)[k]? = (p.getD [])[k]? := by
  simp [resize, hn, hk]

theorem prefix_resize {p : Option (List α)} {out : List α} {n : Nat} {junk : Nat → α}
    (h : out <+: p.getD []) (hn : out.length ≤ n) : out <+: resize p n junk := by
  rw [List.prefix_iff_getElem?] at h ⊢
  intro i hi
  rw [getElem?_resize (List.getElem?_eq_some_iff.mp (h i hi)).1 (by omega), h i hi]

theorem fill_of_le {t : List α} {i n : Nat} {x : α} (h : i + n ≤ t.length) :
    ∃ t', fill t i n x = .ok t' ∧ t'.length = t.length
      ∧ ∀ k, t'[k]? = if i ≤ k ∧ k < i + n then some x else t[k]? := by
  refine ⟨t.mapIdx fun k y => if i ≤ k ∧ k < i + n then x else y, by simp [fill, h], by simp, ?_⟩
  intro k
  rw [List.getElem?_mapIdx]
  by_cases hk : k < t.length
  · rw [List.getElem?_eq_getElem hk]
    split <;> simp_all
  · rw [List.getElem?_eq_none (by omega), if_neg (by omega)]
    rfl

theorem copy_of_le {t src : List α} {i n : Nat} (h : i + n ≤ t.length) (hn : n ≤ src.length) :
    ∃ t', copy t i src n = .ok t' ∧ t'.length = t.length
      ∧ ∀ k, t'[k]? = if i ≤ k ∧ k < i + n then src[k - i]? else t[k]? := by
  have hlen : (t.take i).length = i := List.length_take_of_le (by omega)
  have hlen' : (src.take n).length = n := List.length_take_of_le hn
  refine ⟨t.take i ++ src.take n ++ t.drop (i + n), if_pos ⟨h, hn⟩, ?_, fun k => ?_⟩
  · rw [List.length_append, List.length_append, hlen, hlen', List.length_drop]
    omega
  rcases Nat.lt_or_ge k i with hk | hk
  · rw [if_neg (by omega), List.append_assoc, List.getElem?_append_left (by omega),
      List.getElem?_take_of_lt hk]
  rw [List.append_assoc, List.getElem?_append_right (by omega), hlen]
  rcases Nat.lt_or_ge k (i + n) with hk' | hk'
  · rw [if_pos ⟨hk, hk'⟩, List.getElem?_append_left (by omega),
      List.getElem?_take_of_lt (by omega)]
  · rw [if_neg (by omega), List.getElem?_append_right (by omega), hlen', List.getElem?_drop]
    congr 1
    omega

/-- Inside the block `find` returns, and what it returns is the first
hit. -/
theorem find_spec [DecidableEq α] (t : List α) (x : α) (n : Nat) :
    ∀ i, i + n ≤ t.length →
      (find t x i n = .ok none ∧ ∀ j, i ≤ j → j < i + n → t[j]? ≠ some x)
        ∨ ∃ k, find t x i n = .ok (some k) ∧ i ≤ k ∧ k < i + n ∧ t[k]? = some x
          ∧ ∀ j, i ≤ j → j < k → t[j]? ≠ some x := by
  induction n with
  | zero =>
      intro i _
      exact Or.inl ⟨rfl, fun j h1 h2 => by omega⟩
  | succ n ih =>
      intro i hle
      have hi : i < t.length := by omega
      have hget : t[i]? = some t[i] := List.getElem?_eq_getElem hi
      simp only [find, read_of_lt hi]
      by_cases hx : t[i] = x
      · refine Or.inr ⟨i, by simp [hx], Nat.le_refl _, by omega, hx ▸ hget, ?_⟩
        intro j h1 h2
        omega
      · rw [if_neg hx]
        have hne : t[i]? ≠ some x := fun h => hx (Option.some.inj (hget.symm.trans h))
        rcases ih (i + 1) (by omega) with ⟨heq, hmiss⟩ | ⟨k, heq, h1, h2, h3, hmiss⟩
        · refine Or.inl ⟨heq, fun j hj1 hj2 => ?_⟩
          rcases Nat.eq_or_lt_of_le hj1 with rfl | hlt
          · exact hne
          · exact hmiss j hlt (by omega)
        · refine Or.inr ⟨k, heq, by omega, by omega, h3, fun j hj1 hj2 => ?_⟩
          rcases Nat.eq_or_lt_of_le hj1 with rfl | hlt
          · exact hne
          · exact hmiss j hlt hj2

/-! ## Stores cut at a limit -/

theorem store_append {lim : Nat} (xs ys : List α) : ∀ (j : Nat) (t : List α),
    store lim (xs ++ ys) j t = (store lim xs j t >>= fun r => store lim ys r.1 r.2) := by
  induction xs with
  | nil => exact fun _ _ => rfl
  | cons x xs ih =>
      intro j t
      by_cases hj : j < lim
      · rw [List.cons_append, store, store, if_pos hj, if_pos hj]
        cases write t j x with
        | error e => rfl
        | ok t' => exact ih (j + 1) t'
      · rw [List.cons_append, store, store, if_neg hj, if_neg hj]
        show _ = store lim ys j t
        cases ys with
        | nil => rfl
        | cons y ys => rw [store, if_neg hj]

/-- The cells that are stored, and the ones left as they were. -/
theorem store_eq {lim : Nat} (xs : List α) : ∀ {j : Nat} {t : List α},
    j + (xs.take (lim - j)).length ≤ t.length →
    store lim xs j t = .ok (j + (xs.take (lim - j)).length,
      t.take j ++ xs.take (lim - j) ++ t.drop (j + (xs.take (lim - j)).length)) := by
  induction xs with
  | nil =>
      intro j t _
      simp [store]
  | cons x xs ih =>
      intro j t hle
      by_cases hj : j < lim
      · have hsucc : lim - j = lim - (j + 1) + 1 := by omega
        rw [hsucc, List.take_succ_cons, List.length_cons] at hle ⊢
        have hlt : j < t.length := by omega
        have htake : (t.set j x).take (j + 1) = t.take j ++ [x] := by
          rw [List.take_add_one, List.take_set_of_le (Nat.le_refl j), List.getElem?_set_self hlt]
          rfl
        rw [store, if_pos hj, write_of_lt hlt]
        show store lim xs (j + 1) (t.set j x) = _
        rw [ih (by rw [List.length_set]; omega), htake, List.drop_set_of_lt (by omega),
          Nat.add_right_comm, List.append_assoc (t.take j), List.singleton_append, Nat.add_assoc]
      · rw [store, if_neg hj, Nat.sub_eq_zero_of_le (by omega)]
        simp

/-- Short of the limit everything is stored. -/
theorem store_fits {lim : Nat} (xs : List α) {j : Nat} {t : List α} (hlim : lim ≤ t.length)
    (hj : j + xs.length ≤ lim) :
    ∃ t', store lim xs j t = .ok (j + xs.length, t') ∧ t'.length = t.length := by
  have hall : xs.take (lim - j) = xs := List.take_of_length_le (by omega)
  have hstore := store_eq xs (by rw [hall]; omega : j + (xs.take (lim - j)).length ≤ t.length)
  rw [hall] at hstore
  refine ⟨_, hstore, ?_⟩
  rw [List.length_append, List.length_append, List.length_take_of_le (by omega), List.length_drop]
  omega

/-- A limit inside the block keeps what follows the block as it was. -/
theorem store_within {lim : Nat} (xs : List α) {j : Nat} {buf : List α} (hlim : lim ≤ buf.length)
    (hj : j ≤ lim) (rest : List α) :
    ∃ j' buf', store lim xs j (buf ++ rest) = .ok (j', buf' ++ rest)
      ∧ buf'.length = buf.length ∧ j' ≤ lim := by
  have hk : (xs.take (lim - j)).length ≤ lim - j := List.length_take_le _ _
  refine ⟨j + (xs.take (lim - j)).length,
    buf.take j ++ xs.take (lim - j) ++ buf.drop (j + (xs.take (lim - j)).length), ?_, ?_, ?_⟩
  · rw [store_eq xs (by rw [List.length_append]; omega),
      List.take_append_of_le_length (by omega), List.drop_append_of_le_length (by omega)]
    simp only [List.append_assoc]
  · rw [List.length_append, List.length_append, List.length_take_of_le (by omega),
      List.length_drop]
    omega
  · omega

theorem Begins.empty (lim : Nat) (t : List α) : Begins lim [] 0 t :=
  ⟨by rw [List.take_nil, List.length_nil], by rw [List.take_nil]; exact List.nil_prefix⟩

theorem Begins.lt {lim : Nat} {out t : List α} {j : Nat} (h : Begins lim out j t)
    (hlt : out.length < lim) : j < lim := by
  rw [h.index, List.length_take]
  omega

theorem prefix_set {out t : List α} (h : out <+: t) (hlt : out.length < t.length) (x : α) :
    out ++ [x] <+: t.set out.length x := by
  obtain ⟨r, rfl⟩ := h
  cases r with
  | nil => simp at hlt
  | cons y r => exact ⟨r, by simp⟩

theorem store_begins {lim : Nat} (xs : List α) {out t : List α} {j : Nat}
    (hlim : lim ≤ t.length) (h : Begins lim out j t) :
    ∃ j' t', store lim xs j t = .ok (j', t') ∧ t'.length = t.length
      ∧ Begins lim (out ++ xs) j' t' := by
  have hidx := h.index
  rw [List.length_take] at hidx
  have hk : (xs.take (lim - j)).length ≤ lim - j := List.length_take_le _ _
  have hout : t.take j = out.take lim := by
    rw [h.index, ← List.prefix_iff_eq_take.mp h.cells]
  have hall : (out ++ xs).take lim = t.take j ++ xs.take (lim - j) := by
    have hrest : lim - j = lim - out.length := by omega
    rw [List.take_append, hout, hrest]
  have hj : (t.take j).length = j := List.length_take_of_le (by omega)
  refine ⟨_, _, store_eq xs (by omega), ?_, ?_, ?_⟩
  · rw [List.length_append, List.length_append, hj, List.length_drop]
    omega
  · rw [hall, List.length_append, hj]
  · rw [hall]
    exact List.prefix_append _ _

/-- The cell after what was stored can be written too. -/
theorem Begins.write_end {lim : Nat} {out t : List α} {j : Nat} (h : Begins lim out j t)
    (hlim : lim < t.length) (x : α) :
    ∃ t', write t j x = .ok t' ∧ t'.length = t.length ∧ out.take lim ++ [x] <+: t' := by
  have hle : (out.take lim).length ≤ lim := List.length_take_le lim out
  have hj := h.index
  subst hj
  exact ⟨_, write_of_lt (by omega) x, List.length_set, prefix_set h.cells (by omega) x⟩

end Blocks

end MiscTools
