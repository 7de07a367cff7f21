import MiscTools.Queue

/-!
# The pointer queue is a bounded FIFO

`Repr q xs`: the queue `q` represents the list `xs`, oldest item first.
The ring is described by `head` and `count` alone; `tail` follows from
them, and both are -1 on the empty queue. Every operation keeps the
relation and returns what the bounded list returns (`Repr.apply`), so
does every run (`fifo_refinement`).
-/

namespace MiscTools

namespace Queue

open Blocks Sizes Rings

/-- The queue represents `xs`. -/
structure Repr (q : Pqueue) (xs : List Ptr) : Prop where
  size : q.data.length = q.maxCount.toNat
  small : q.maxCount.toNat < 2 ^ 63
  count : q.count.toNat = xs.length
  fits : xs.length ≤ q.maxCount.toNat
  empty : xs = [] → q.head = -1 ∧ q.tail = -1
  ring : xs ≠ [] → ∃ h : ℕ, q.head = h ∧ h < q.maxCount.toNat
    ∧ q.tail = ((h + xs.length - 1) % q.maxCount.toNat : ℕ) ∧ Holds q.data h xs

/-- What the source returns for a result of the bounded list. -/
def encode : Rings.Result Ptr → Output
  | .put true => .put 0 none
  | .put false => .put (-1) (some .ENOMEM)
  | .get (some x) => .get x none
  | .get none => .get (-1) (some .ENOENT)
  | .count n => .count (UInt64.ofNat n)
  | .isEmpty b => .isEmpty (if b then 1 else 0)

theorem repr_create {mem : Bool × Bool} {capacity : UInt64} {q : Pqueue}
    (h : pqueueCreate mem capacity = some q) : Repr q [] ∧ q.maxCount = capacity := by
  unfold pqueueCreate at h
  split at h
  · rw [Option.map_eq_some_iff] at h
    obtain ⟨data, hdata, rfl⟩ := h
    unfold calloc at hdata
    split at hdata
    · rename_i hfit
      obtain rfl := Option.some.inj hdata
      have hsmall : capacity.toNat < 2 ^ 63 := by
        have : capacity.toNat * 8 < 2 ^ 64 := hfit.2
        omega
      exact ⟨⟨List.length_replicate, hsmall, rfl, Nat.zero_le _, fun _ => ⟨rfl, rfl⟩,
        fun h => absurd rfl h⟩, rfl⟩
    · cases hdata
  · cases h

section Represented

variable {q : Pqueue} {xs : List Ptr}

theorem Repr.count_eq_zero (h : Repr q xs) : q.count = 0 ↔ xs = [] := by
  rw [← UInt64.toNat_inj, h.count]
  exact List.length_eq_zero_iff

/-- The wrap-around of the source is a remainder. -/
theorem next_eq (hsmall : q.maxCount.toNat < 2 ^ 63) {i : ℕ} (hi : i < q.maxCount.toNat) :
    next q i = ((i + 1) % q.maxCount.toNat : ℕ) := by
  rw [next, ssize_of_lt hsmall]
  by_cases hend : q.maxCount.toNat = i + 1
  · rw [if_pos (by omega), hend, Nat.mod_self]
    rfl
  · rw [if_neg (by omega), Nat.mod_eq_of_lt (by omega)]
    rfl

/-! ## `pqueue_put` -/

theorem Repr.put_full (h : Repr q xs) (hfull : q.maxCount.toNat ≤ xs.length) (val : Ptr) :
    pqueuePut q val = .ok (-1, some .ENOMEM, q) := by
  have hle : q.maxCount ≤ q.count := by
    rw [UInt64.le_iff_toNat_le, h.count]
    exact hfull
  rw [pqueuePut, if_pos hle]
  rfl

/-- The cell `pqueue_put` stores in: the one after the last item. -/
theorem Repr.put_cell (h : Repr q xs) (hroom : xs.length < q.maxCount.toNat) :
    ∃ k : ℕ, (if q.count + 1 = 1 then 0 else q.head) = k ∧ k < q.maxCount.toNat
      ∧ (if q.count + 1 = 1 then 0 else next q q.tail)
        = ((k + xs.length) % q.maxCount.toNat : ℕ) ∧ Holds q.data k xs := by
  have hone : q.count + 1 = 1 ↔ xs = [] := by
    rw [← h.count_eq_zero]
    constructor
    · intro heq
      have := congrArg (· - 1) heq
      simpa using this
    · intro heq
      rw [heq]
      rfl
  by_cases hnil : xs = []
  · subst hnil
    refine ⟨0, if_pos (hone.mpr rfl), hroom, ?_, Holds.nil _ _⟩
    rw [if_pos (hone.mpr rfl)]
    simp
  · obtain ⟨k, hhead, hk, htail, hring⟩ := h.ring hnil
    refine ⟨k, by rw [if_neg (mt hone.mp hnil), hhead], hk, ?_, hring⟩
    have hpos : 0 < xs.length := List.length_pos_iff.mpr hnil
    rw [if_neg (mt hone.mp hnil), htail, next_eq h.small (Nat.mod_lt _ (by omega)),
      Nat.mod_add_mod]
    congr 2
    omega

theorem Repr.put_room (h : Repr q xs) (hroom : xs.length < q.maxCount.toNat) (val : Ptr) :
    ∃ q', pqueuePut q val = .ok (0, none, q') ∧ Repr q' (xs ++ [val])
      ∧ q'.maxCount = q.maxCount := by
  obtain ⟨k, hhead, hk, htail, hring⟩ := h.put_cell hroom
  have hlt : ¬q.maxCount ≤ q.count := by
    rw [UInt64.le_iff_toNat_le, h.count]
    omega
  have hcell : (k + xs.length) % q.maxCount.toNat < q.maxCount.toNat := Nat.mod_lt _ (by omega)
  have hassert : 0 ≤ (((k + xs.length) % q.maxCount.toNat : ℕ) : Int)
      ∧ (((k + xs.length) % q.maxCount.toNat : ℕ) : Int) < ssize q.maxCount := by
    rw [ssize_of_lt h.small]
    omega
  have hwrite : write q.data ((k + xs.length) % q.maxCount.toNat) val
      = .ok (q.data.set ((k + xs.length) % q.maxCount.toNat) val) :=
    write_of_lt (by rw [h.size]; exact hcell) val
  have hput : pqueuePut q val = .ok (0, none,
      { data := q.data.set ((k + xs.length) % q.maxCount.toNat) val, maxCount := q.maxCount,
        count := q.count + 1, head := k,
        tail := ((k + xs.length) % q.maxCount.toNat : ℕ) }) := by
    simp only [pqueuePut, if_neg hlt, hhead, htail, not_true_eq_false, if_false, hassert,
      and_self, Int.toNat_natCast, hwrite]
    rfl
  refine ⟨_, hput, ⟨?_, h.small, ?_, ?_, fun hnil => ?_, fun _ => ?_⟩, rfl⟩
  · simpa using h.size
  · have hcount := h.count
    have hsmall := h.small
    show (q.count + 1).toNat = _
    rw [UInt64.toNat_add, List.length_append]
    show (_ + 1) % 2 ^ 64 = _ + 1
    omega
  · rw [List.length_append]
    exact hroom
  · simp at hnil
  · refine ⟨k, rfl, hk, ?_, ?_⟩
    · simp
    · have happ := hring.append (x := val) (by rw [h.size]; exact hroom)
      rwa [h.size] at happ

/-! ## `pqueue_get` -/

theorem Repr.get_empty (h : Repr q []) : pqueueGet q = .ok (-1, some .ENOENT, q) := by
  rw [pqueueGet, if_pos (h.count_eq_zero.mpr rfl)]
  rfl

theorem Repr.get_cons {x : Ptr} {xs : List Ptr} (h : Repr q (x :: xs)) :
    ∃ q', pqueueGet q = .ok (x, none, q') ∧ Repr q' xs ∧ q'.maxCount = q.maxCount := by
  obtain ⟨k, hhead, hk, htail, hring⟩ := h.ring (List.cons_ne_nil x xs)
  have hcount := h.count
  have hfits := h.fits
  have hsmall := h.small
  rw [List.length_cons] at hcount hfits htail
  have hne : ¬q.count = 0 := fun h0 => List.cons_ne_nil x xs (h.count_eq_zero.mp h0)
  have hassert : 0 ≤ (k : Int) ∧ (k : Int) < ssize q.maxCount := by
    rw [ssize_of_lt hsmall]
    omega
  have hread : read q.data k = .ok x := by
    have hx := hring.head
    rw [h.size, Nat.mod_eq_of_lt hk] at hx
    exact read_of_some hx
  have hcount' : (q.count - 1).toNat = xs.length := by
    rw [toNat_sub_one hne, hcount]
    rfl
  have hlast : q.count - 1 = 0 ↔ xs = [] := by
    rw [← UInt64.toNat_inj, hcount']
    exact List.length_eq_zero_iff
  have hfits' : xs.length ≤ q.maxCount.toNat := by omega
  by_cases hnil : xs = []
  · refine ⟨{ q with count := q.count - 1, head := -1, tail := -1 }, ?_,
      ⟨h.size, hsmall, hcount', hfits', fun _ => ⟨rfl, rfl⟩, fun hxs => absurd hnil hxs⟩, rfl⟩
    simp only [pqueueGet, if_neg hne, hhead, hassert, and_self, not_true_eq_false, if_false,
      Int.toNat_natCast, hread, bind, Except.bind, if_pos (hlast.mpr hnil)]
    rfl
  · have hpos : 0 < xs.length := List.length_pos_iff.mpr hnil
    refine ⟨{ q with count := q.count - 1, head := next q k }, ?_,
      ⟨h.size, hsmall, hcount', hfits', fun hxs => absurd hxs hnil, fun _ => ?_⟩, rfl⟩
    · simp only [pqueueGet, if_neg hne, hhead, hassert, and_self, not_true_eq_false, if_false,
        Int.toNat_natCast, hread, bind, Except.bind, if_neg (mt hlast.mp hnil)]
      rfl
    · refine ⟨(k + 1) % q.maxCount.toNat, next_eq hsmall hk, Nat.mod_lt _ (by omega), ?_, ?_⟩
      · show q.tail = _
        rw [htail]
        congr 1
        have hmove : (k + 1) % q.maxCount.toNat + xs.length - 1
            = (k + 1) % q.maxCount.toNat + (xs.length - 1) := by omega
        rw [hmove, Nat.mod_add_mod]
        congr 1
        omega
      · refine hring.tail.turn ?_
        rw [h.size, Nat.mod_mod]

/-! ## Every run -/

/-- One operation keeps the representation and returns what the bounded
list returns. -/
theorem Repr.apply (h : Repr q xs) (op : Op Ptr) :
    ∃ q', Queue.apply q op = .ok (encode (Rings.apply q.maxCount.toNat xs op).1, q')
      ∧ Repr q' (Rings.apply q.maxCount.toNat xs op).2 ∧ q'.maxCount = q.maxCount := by
  cases op with
  | put val =>
      by_cases hroom : xs.length < q.maxCount.toNat
      · obtain ⟨q', hput, hrepr, hmax⟩ := h.put_room hroom val
        refine ⟨q', ?_, ?_, hmax⟩
        · simp [Queue.apply, Rings.apply, hput, hroom, encode, bind, Except.bind, pure,
            Except.pure]
        · simpa [Rings.apply, hroom] using hrepr
      · have hput := h.put_full (Nat.not_lt.mp hroom) val
        refine ⟨q, ?_, ?_, rfl⟩
        · simp [Queue.apply, Rings.apply, hput, hroom, encode, bind, Except.bind, pure,
            Except.pure]
        · simpa [Rings.apply, hroom] using h
  | get =>
      cases xs with
      | nil =>
          refine ⟨q, ?_, h, rfl⟩
          simp [Queue.apply, Rings.apply, h.get_empty, encode, bind, Except.bind, pure,
            Except.pure]
      | cons x xs =>
          obtain ⟨q', hget, hrepr, hmax⟩ := h.get_cons
          refine ⟨q', ?_, hrepr, hmax⟩
          simp [Queue.apply, Rings.apply, hget, encode, bind, Except.bind, pure, Except.pure]
  | count =>
      refine ⟨q, ?_, h, rfl⟩
      simp [Queue.apply, Rings.apply, encode, pqueueCount, ← h.count, pure, Except.pure]
  | isEmpty =>
      refine ⟨q, ?_, h, rfl⟩
      simp [Queue.apply, Rings.apply, encode, pqueueIsEmpty, h.count_eq_zero, pure,
        Except.pure]

end Represented

theorem Repr.run (ops : List (Op Ptr)) : ∀ {q : Pqueue} {xs : List Ptr}, Repr q xs →
    ∃ q', Queue.run q ops = .ok ((Rings.run q.maxCount.toNat xs ops).1.map encode, q')
      ∧ Repr q' (Rings.run q.maxCount.toNat xs ops).2 ∧ q'.maxCount = q.maxCount := by
  induction ops with
  | nil => exact fun {q xs} h => ⟨q, rfl, h, rfl⟩
  | cons op ops ih =>
      intro q xs h
      obtain ⟨q₁, happly, h₁, hmax₁⟩ := h.apply op
      obtain ⟨q', hrun, h', hmax'⟩ := ih h₁
      rw [hmax₁] at hrun h'
      refine ⟨q', ?_, h', hmax'.trans hmax₁⟩
      simp [Queue.run, Rings.run, happly, hrun, bind, Except.bind, pure, Except.pure]

/-- **Bounded FIFO.** On a queue made by `pqueue_create`, every sequence
of operations returns what the bounded list returns, without a failed
assertion or a stray access; in the state it ends in, `head` and `tail`
are where `count` says, a full queue refuses and an empty one has
nothing to give, and both stay as they are. -/
theorem fifo_refinement {mem : Bool × Bool} {capacity : UInt64} {q : Pqueue}
    (hcreate : pqueueCreate mem capacity = some q) (ops : List (Op Ptr)) :
    ∃ q', Queue.run q ops = .ok ((Rings.run capacity.toNat [] ops).1.map encode, q')
      ∧ q'.count.toNat = (Rings.run capacity.toNat [] ops).2.length
      ∧ q'.maxCount = capacity ∧ q'.count ≤ q'.maxCount
      ∧ (q'.count = 0 → q'.head = -1 ∧ q'.tail = -1)
      ∧ (q'.count ≠ 0 → 0 ≤ q'.head ∧ q'.head < q'.maxCount.toNat
        ∧ q'.tail = (q'.head + q'.count.toNat - 1) % q'.maxCount.toNat)
      ∧ (∀ val, q'.maxCount ≤ q'.count → pqueuePut q' val = .ok (-1, some .ENOMEM, q'))
      ∧ (q'.count = 0 → pqueueGet q' = .ok (-1, some .ENOENT, q')) := by
  obtain ⟨hrepr, rfl⟩ := repr_create hcreate
  obtain ⟨q', hrun, h, hmax⟩ := hrepr.run ops
  refine ⟨q', hrun, h.count, hmax, ?_, fun h0 => h.empty (h.count_eq_zero.mp h0),
    fun hne => ?_, fun val hfull => ?_, fun h0 => ?_⟩
  · rw [UInt64.le_iff_toNat_le, h.count]
    exact h.fits
  · have hxs := mt h.count_eq_zero.mpr hne
    obtain ⟨k, hhead, hk, htail, -⟩ := h.ring hxs
    have hpos : 0 < (Rings.run q.maxCount.toNat [] ops).2.length := List.length_pos_iff.mpr hxs
    refine ⟨by omega, by omega, ?_⟩
    rw [htail, hhead, h.count, Int.natCast_emod]
    congr 1
    omega
  · rw [UInt64.le_iff_toNat_le, h.count] at hfull
    exact h.put_full hfull val
  · have hxs := h.count_eq_zero.mp h0
    rw [hxs] at h
    exact h.get_empty

/-- A queue of two, filled, refused, and drained past its end. -/
def opsWrap : List (Op Ptr) :=
  [.put 5, .put 7, .put 9, .get, .put 11, .count, .get, .get, .get, .isEmpty]

theorem fifo_refinement_opsWrap :
    ∃ q', Queue.run { data := [0, 0], maxCount := 2, count := 0, head := -1, tail := -1 } opsWrap
        = .ok ((Rings.run 2 [] opsWrap).1.map encode, q') := by
  have hcreate : pqueueCreate (true, true) 2
      = some { data := [0, 0], maxCount := 2, count := 0, head := -1, tail := -1 } := by decide
  obtain ⟨q', hrun, -⟩ := fifo_refinement hcreate opsWrap
  exact ⟨q', hrun⟩

end Queue

end MiscTools
