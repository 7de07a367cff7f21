import MiscTools.QueueFifo

/-!
# Dumping the pointer queue

`pqueue_dump` walks the ring once more, with a wrap-around of its own: it
tests the index before it is used, where `pqueue_get` and `pqueue_put`
test it after it has been moved. So the walk may stand one cell past the
end between two items, and starts at -1 on an empty queue, but neither is
ever read (`Repr.dumpFrom`).

What is printed is the list of the `fprintf` calls.
-/

namespace MiscTools

namespace Queue

open Blocks Sizes Rings

/-- The `fprintf` calls of `pqueue_dump`. -/
inductive Fprintf
  /-- `"pq(count=%lu/%lu, head=%ld, tail=%ld) {"` -/
  | start (count maxCount : UInt64) (head tail : Int)
  /-- `"%s%p"` -/
  | item (sep : String) (val : Ptr)
  /-- `"}\n"` -/
  | finish
deriving DecidableEq

/-- `pq->data[i]` -/
def Pqueue.at (q : Pqueue) (i : Int) : Except Fault Ptr :=
  if 0 ≤ i then read q.data i.toNat else .error .bounds

/-- The separator before item `n`. -/
def sep (n : Nat) : String := if 0 < n then ", " else ""

/-- The loop from its test on, with `left` items to go. -/
def dumpFrom (q : Pqueue) (n : Nat) (i : Int) : Nat → Except Fault (List Fprintf)
  | 0 => return []
  | left + 1 => do
      let i := if ssize q.maxCount ≤ i then 0 else i
      let val ← q.at i
      return .item (sep n) val :: (← dumpFrom q (n + 1) (i + 1) left)

def pqueueDump (q : Pqueue) : Except Fault (List Fprintf × Pqueue) := do
  let items ← dumpFrom q 0 q.head q.count.toNat
  return (.start q.count q.maxCount q.head q.tail :: (items ++ [.finish]), q)

/-- What is printed for `xs`, the first of which is item `n`. -/
def printed (n : Nat) : List Ptr → List Fprintf
  | [] => []
  | x :: xs => .item (sep n) x :: printed (n + 1) xs

section Represented

variable {q : Pqueue} {xs : List Ptr}

/-- The walk prints the items the ring holds, if it starts where they do,
or one cell past the end. -/
theorem Repr.dumpFrom (h : Repr q xs) (hpos : 0 < q.maxCount.toNat) (ys : List Ptr) :
    ∀ {n k : Nat}, k ≤ q.maxCount.toNat → Holds q.data k ys →
      Queue.dumpFrom q n k ys.length = .ok (printed n ys) := by
  induction ys with
  | nil => exact fun _ _ => rfl
  | cons y ys ih =>
      intro n k hk hholds
      obtain ⟨j, hj, hwrap, hcell⟩ : ∃ j : Nat, j < q.maxCount.toNat
          ∧ (if ssize q.maxCount ≤ (k : Int) then 0 else (k : Int)) = j
          ∧ Holds q.data j (y :: ys) := by
        rw [ssize_of_lt h.small]
        by_cases hend : k = q.maxCount.toNat
        · refine ⟨0, hpos, by rw [if_pos (by omega)]; rfl, hholds.turn ?_⟩
          rw [h.size, hend, Nat.mod_self, Nat.zero_mod]
        · exact ⟨k, by omega, if_neg (by omega), hholds⟩
      have hread : q.at j = .ok y := by
        rw [Pqueue.at, if_pos (Int.natCast_nonneg j), Int.toNat_natCast]
        have hy := hcell.head
        rw [h.size, Nat.mod_eq_of_lt hj] at hy
        exact read_of_some hy
      have hrest := ih (n := n + 1) hj hcell.tail
      rw [Int.natCast_succ] at hrest
      rw [List.length_cons, Queue.dumpFrom, hwrap]
      simp only [hread, hrest, bind, Except.bind]
      rfl

theorem Repr.dump (h : Repr q xs) :
    pqueueDump q
      = .ok (.start q.count q.maxCount q.head q.tail :: (printed 0 xs ++ [.finish]), q) := by
  have hloop : Queue.dumpFrom q 0 q.head q.count.toNat = .ok (printed 0 xs) := by
    rw [h.count]
    by_cases hnil : xs = []
    · subst hnil
      rfl
    · obtain ⟨k, hhead, hk, -, hring⟩ := h.ring hnil
      rw [hhead]
      exact h.dumpFrom (Nat.zero_lt_of_lt hk) xs (Nat.le_of_lt hk) hring
  rw [pqueueDump, hloop]
  rfl

/-- As many calls of `pqueue_get` as there are items return the items and
leave nothing. -/
theorem Repr.gets : ∀ {xs : List Ptr} {q : Pqueue}, Repr q xs →
    ∃ q', Queue.run q (List.replicate xs.length .get) = .ok (xs.map (.get · none), q')
      ∧ pqueueIsEmpty q' ≠ 0 := by
  intro xs
  induction xs with
  | nil =>
      intro q h
      refine ⟨q, rfl, ?_⟩
      simp [pqueueIsEmpty, h.count_eq_zero]
  | cons x xs ih =>
      intro q h
      obtain ⟨q₁, hget, h₁, -⟩ := h.get_cons
      obtain ⟨q', hrun, hempty⟩ := ih h₁
      refine ⟨q', ?_, hempty⟩
      rw [List.length_cons, List.replicate_succ]
      simp [Queue.run, Queue.apply, hget, hrun, bind, Except.bind, pure, Except.pure]

end Represented

/-- **The dump shows the queue.** After every sequence of operations on a
queue made by `pqueue_create`, `pqueue_dump` reads inside `data`, prints
what the bounded list holds after them, which is what repeated calls of
`pqueue_get` would return, and leaves the queue as it is. -/
theorem dump_shows {mem : Bool × Bool} {capacity : UInt64} {q : Pqueue}
    (hcreate : pqueueCreate mem capacity = some q) (ops : List (Op Ptr)) :
    ∃ outs q' xs, Queue.run q ops = .ok (outs, q') ∧ xs = (Rings.run capacity.toNat [] ops).2
      ∧ q'.data.length = q'.maxCount.toNat
      ∧ pqueueDump q'
          = .ok (.start q'.count q'.maxCount q'.head q'.tail :: (printed 0 xs ++ [.finish]), q')
      ∧ ∃ q'', Queue.run q' (List.replicate xs.length .get) = .ok (xs.map (.get · none), q'')
          ∧ pqueueIsEmpty q'' ≠ 0 := by
  obtain ⟨hrepr, rfl⟩ := repr_create hcreate
  obtain ⟨q', hrun, h, -⟩ := hrepr.run ops
  exact ⟨_, q', _, hrun, rfl, h.size, h.dump, h.gets⟩

/-- The queue of two that `opsWrap` fills past its end. -/
theorem dump_shows_opsWrap :
    ∃ outs q',
      Queue.run { data := [0, 0], maxCount := 2, count := 0, head := -1, tail := -1 }
          (opsWrap.take 5) = .ok (outs, q')
      ∧ pqueueDump q'
          = .ok ([.start q'.count q'.maxCount q'.head q'.tail, .item "" 7, .item ", " 11, .finish],
              q') := by
  have hcreate : pqueueCreate (true, true) 2
      = some { data := [0, 0], maxCount := 2, count := 0, head := -1, tail := -1 } := by decide
  obtain ⟨outs, q', xs, hrun, hxs, -, hdump, -⟩ := dump_shows hcreate (opsWrap.take 5)
  obtain rfl : xs = [7, 11] := hxs.trans (by decide)
  exact ⟨outs, q', hrun, hdump⟩

/-- The walk starts in the last cell and wraps. -/
example : (pqueueDump { data := [11, 9], maxCount := 2, count := 2, head := 1, tail := 0 }).map
    (·.1) = .ok [.start 2 2 1 0, .item "" 9, .item ", " 11, .finish] := rfl

end Queue

end MiscTools
