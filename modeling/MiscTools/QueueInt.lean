import Mathlib.Data.List.TakeWhile
import MiscTools.QueueFifo

/-!
# Draining a queue of ints

`pqueue_iput` and `pqueue_iget` of `queue.h` send an `int` through the
pointer queue as a `long`. The empty queue returns -1, which is an `int`
as well, and sets `errno`; `testq.c` looks at both.

A consumer calls `pqueue_iget` until some test of its result and of
`errno` says that the queue is empty. Whatever the test, it receives the
queued values up to the first that passes the test (`Repr.drain`), so
the test of `testq.c` drains the queue and the test for -1 alone stops
at the first -1 that was put (`drain_until`).
-/

namespace MiscTools

namespace Queue

open Blocks

/-! ## The type-cast helpers -/

/-- `(void*)lval` for `long lval = val` -/
def toPtr (val : Int32) : Ptr := val.toInt64.toUInt64

/-- `(int) lval` for `long lval = (long) p` -/
def ofPtr (p : Ptr) : Int32 := p.toInt64.toInt32

def pqueueIget (q : Pqueue) : Except Fault (Int32 × Option Errno × Pqueue) := do
  let (p, errno, q') ← pqueueGet q
  return (ofPtr p, errno, q')

def pqueueIput (q : Pqueue) (val : Int32) : Except Fault (Int × Option Errno × Pqueue) :=
  pqueuePut q (toPtr val)

theorem ofPtr_toPtr (val : Int32) : ofPtr (toPtr val) = val := by
  rw [ofPtr, toPtr, Int64.toInt64_toUInt64, Int32.toInt32_toInt64]

/-! ## Producers and consumers -/

inductive IntOp
  | put (val : Int32)
  | get

/-- A call and what it returned. -/
inductive Event
  | put (val : Int32) (rc : Int)
  | got (val : Int32) (errno : Option Errno)
deriving DecidableEq

def runInt (q : Pqueue) : List IntOp → Except Fault (List Event × Pqueue)
  | [] => return ([], q)
  | .put val :: ops => do
      let (rc, _, q') ← pqueueIput q val
      let (es, q'') ← runInt q' ops
      return (.put val rc :: es, q'')
  | .get :: ops => do
      let (val, errno, q') ← pqueueIget q
      let (es, q'') ← runInt q' ops
      return (.got val errno :: es, q'')

/-- The values successfully put and not yet taken, after `xs`. -/
def pending : List Int32 → List Event → List Int32
  | xs, [] => xs
  | xs, .put val rc :: es => pending (if rc = 0 then xs ++ [val] else xs) es
  | xs, .got _ errno :: es => pending (if errno.isNone then xs.tail else xs) es

/-- A consumer that calls `pqueue_iget` until `stop` holds of its result
and of `errno` (cleared before each call): the values it has received,
or `none` after `fuel` calls without a stop. -/
def drain (stop : Int32 → Option Errno → Bool) :
    Nat → Pqueue → Except Fault (Option (List Int32 × Pqueue))
  | 0, _ => return none
  | fuel + 1, q => do
      let (val, errno, q') ← pqueueIget q
      if stop val errno then return some ([], q')
      else return (← drain stop fuel q').map fun r => (val :: r.1, r.2)

/-- `pqueue_iget` returned -1. -/
def isMinusOne (val : Int32) (_ : Option Errno) : Bool := decide (val = -1)

/-- The test of `testq.c`: -1, and `errno` is set. -/
def isEmptyError (val : Int32) (errno : Option Errno) : Bool :=
  decide (val = -1) && errno.isSome

/-! ## What a consumer receives -/

section Represented

variable {q : Pqueue} {xs : List Int32}

theorem Repr.iget_empty (h : Repr q []) : pqueueIget q = .ok (-1, some .ENOENT, q) := by
  have hcast : ofPtr (-1) = -1 := by decide
  simp [pqueueIget, h.get_empty, hcast, bind, Except.bind, pure, Except.pure]

theorem Repr.iget_cons {x : Int32} (h : Repr q ((x :: xs).map toPtr)) :
    ∃ q', pqueueIget q = .ok (x, none, q') ∧ Repr q' (xs.map toPtr) := by
  obtain ⟨q', hget, hrepr, -⟩ := h.get_cons
  refine ⟨q', ?_, hrepr⟩
  simp [pqueueIget, hget, ofPtr_toPtr, bind, Except.bind, pure, Except.pure]

/-- The queued values up to the first that passes the test; all of them
leave the queue empty. -/
theorem Repr.drain (stop : Int32 → Option Errno → Bool)
    (hstop : stop (-1) (some .ENOENT) = true) :
    ∀ {xs : List Int32} {q : Pqueue}, Repr q (xs.map toPtr) → ∀ {fuel : ℕ}, xs.length < fuel →
      ∃ q', drain stop fuel q = .ok (some (xs.takeWhile fun x => !stop x none, q'))
        ∧ ((∀ x ∈ xs, stop x none = false) → Repr q' []) := by
  intro xs
  induction xs with
  | nil =>
      intro q h fuel hfuel
      obtain ⟨n, rfl⟩ := Nat.exists_eq_add_of_lt hfuel
      refine ⟨q, ?_, fun _ => h⟩
      simp [Queue.drain, h.iget_empty, hstop, bind, Except.bind, pure, Except.pure]
  | cons x xs ih =>
      intro q h fuel hfuel
      obtain ⟨n, rfl⟩ : ∃ n, fuel = n + 1 := ⟨fuel - 1, by omega⟩
      rw [List.length_cons] at hfuel
      obtain ⟨q₁, hget, h₁⟩ := h.iget_cons
      by_cases hx : stop x none = true
      · refine ⟨q₁, ?_, fun hall => ?_⟩
        · simp [Queue.drain, hget, hx, bind, Except.bind, pure, Except.pure]
        · rw [hall x List.mem_cons_self] at hx
          cases hx
      · rw [Bool.not_eq_true] at hx
        have hleft : xs.length < n := by omega
        obtain ⟨q', hdrain, hempty⟩ := ih h₁ hleft
        refine ⟨q', ?_, fun hall => hempty fun y hy => hall y (List.mem_cons_of_mem x hy)⟩
        simp [Queue.drain, hget, hx, hdrain, bind, Except.bind, pure, Except.pure]

/-- A run of puts and gets ends in a queue of the pending values. -/
theorem Repr.runInt (ops : List IntOp) : ∀ {q : Pqueue} {xs : List Int32},
    Repr q (xs.map toPtr) →
      ∃ es q', runInt q ops = .ok (es, q') ∧ Repr q' ((pending xs es).map toPtr) := by
  induction ops with
  | nil => exact fun {q xs} h => ⟨[], q, rfl, h⟩
  | cons op ops ih =>
      intro q xs h
      cases op with
      | put val =>
          by_cases hroom : (xs.map toPtr).length < q.maxCount.toNat
          · obtain ⟨q₁, hput, h₁, -⟩ := h.put_room hroom (toPtr val)
            have hmap : xs.map toPtr ++ [toPtr val] = (xs ++ [val]).map toPtr := by simp
            obtain ⟨es, q', hrun, h'⟩ := ih (hmap ▸ h₁)
            refine ⟨.put val 0 :: es, q', ?_, h'⟩
            simp [Queue.runInt, pqueueIput, hput, hrun, bind, Except.bind, pure, Except.pure]
          · have hput := h.put_full (Nat.not_lt.mp hroom) (toPtr val)
            obtain ⟨es, q', hrun, h'⟩ := ih h
            refine ⟨.put val (-1) :: es, q', ?_, by simpa [pending] using h'⟩
            simp [Queue.runInt, pqueueIput, hput, hrun, bind, Except.bind, pure, Except.pure]
      | get =>
          cases xs with
          | nil =>
              obtain ⟨es, q', hrun, h'⟩ := ih h
              refine ⟨.got (-1) (some .ENOENT) :: es, q', ?_, h'⟩
              simp [Queue.runInt, h.iget_empty, hrun, bind, Except.bind, pure, Except.pure]
          | cons x xs =>
              obtain ⟨q₁, hget, h₁⟩ := h.iget_cons
              obtain ⟨es, q', hrun, h'⟩ := ih h₁
              refine ⟨.got x none :: es, q', ?_, h'⟩
              simp [Queue.runInt, hget, hrun, bind, Except.bind, pure, Except.pure]

end Represented

/-- **Draining.** After any run of puts and gets a consumer that stops at
-1 has received the pending values before the first -1 among them, which
is all of them, and an empty queue, exactly when none of them is -1. One
that stops at -1 with `errno` set has received all of them, and the
queue is empty. -/
theorem drain_until {mem : Bool × Bool} {capacity : UInt64} {q : Pqueue}
    (hcreate : pqueueCreate mem capacity = some q) (ops : List IntOp) :
    ∃ es q₁, runInt q ops = .ok (es, q₁) ∧ ∀ fuel, (pending [] es).length < fuel →
      (∃ q₂, drain isMinusOne fuel q₁
            = .ok (some ((pending [] es).takeWhile fun x => decide (x ≠ -1), q₂))
          ∧ (((pending [] es).takeWhile (fun x => decide (x ≠ -1)) = pending [] es
            ∧ pqueueIsEmpty q₂ ≠ 0) ↔ -1 ∉ pending [] es))
        ∧ ∃ q₂, drain isEmptyError fuel q₁ = .ok (some (pending [] es, q₂))
          ∧ pqueueIsEmpty q₂ ≠ 0 := by
  have h₀ : Repr q (([] : List Int32).map toPtr) := (repr_create hcreate).1
  obtain ⟨es, q₁, hrun, h⟩ := Repr.runInt ops h₀
  have hempty : ∀ {q : Pqueue}, Repr q [] → pqueueIsEmpty q ≠ 0 := fun hq => by
    simp [pqueueIsEmpty, hq.count_eq_zero]
  refine ⟨es, q₁, hrun, fun fuel hfuel => ⟨?_, ?_⟩⟩
  · obtain ⟨q₂, hdrain, hall⟩ := Repr.drain isMinusOne rfl h hfuel
    have hstop : (fun x => !isMinusOne x none) = fun x => decide (x ≠ -1) := by
      funext x
      simp [isMinusOne]
    rw [hstop] at hdrain
    refine ⟨q₂, hdrain, ?_⟩
    rw [List.takeWhile_eq_self_iff]
    constructor
    · rintro ⟨hne, -⟩ hmem
      exact absurd (hne _ hmem) (by decide)
    · intro hne
      refine ⟨fun x hx => ?_, hempty (hall fun x hx => ?_)⟩
      · simpa using ne_of_mem_of_not_mem hx hne
      · simpa [isMinusOne] using ne_of_mem_of_not_mem hx hne
  · obtain ⟨q₂, hdrain, hall⟩ := Repr.drain isEmptyError rfl h hfuel
    have hnever : ∀ x, isEmptyError x none = false := fun x => by simp [isEmptyError]
    refine ⟨q₂, ?_, hempty (hall fun x _ => hnever x)⟩
    rw [hdrain, List.takeWhile_eq_self_iff.mpr fun x _ => by rw [hnever]; rfl]

/-- A queue of two, with -1 in it. -/
def opsMinusOne : List IntOp := [.put 5, .put (-1), .put 9, .get, .put 7]

theorem drain_until_opsMinusOne :
    ∃ es q₁, runInt { data := [0, 0], maxCount := 2, count := 0, head := -1, tail := -1 }
        opsMinusOne = .ok (es, q₁)
      ∧ ∀ fuel, (pending [] es).length < fuel →
        ∃ q₂, drain isEmptyError fuel q₁ = .ok (some (pending [] es, q₂))
          ∧ pqueueIsEmpty q₂ ≠ 0 := by
  have hcreate : pqueueCreate (true, true) 2
      = some { data := [0, 0], maxCount := 2, count := 0, head := -1, tail := -1 } := by decide
  obtain ⟨es, q₁, hrun, h⟩ := drain_until hcreate opsMinusOne
  exact ⟨es, q₁, hrun, fun fuel hfuel => (h fuel hfuel).2⟩

/-- -1 and 7 are put; the consumer stops at the -1 with nothing received
and 7 still in the queue. -/
theorem minus_one_stops :
    ∃ q es q₁ q₂, pqueueCreate (true, true) 2 = some q
      ∧ runInt q [.put (-1), .put 7] = .ok (es, q₁) ∧ pending [] es = [-1, 7]
      ∧ drain isMinusOne 3 q₁ = .ok (some ([], q₂)) ∧ pqueueIsEmpty q₂ = 0 :=
  ⟨_, _, _, _, rfl, rfl, by decide, rfl, by decide⟩

end Queue

end MiscTools
