import MiscTools.Blocks
import MiscTools.Rings
import MiscTools.Sizes

/-!
# The pointer queue

`queue.c`. A `void *` is a 64-bit word that is never followed, `data` is
the block `calloc` gave, and `errno` is returned with the result where
the source sets it. The queue handle is the queue itself: handles of
queues that were not created, or have been freed, are outside the model.
-/

namespace MiscTools

namespace Queue

open Blocks Sizes

/-- A `void *`. -/
abbrev Ptr := UInt64

inductive Errno
  | ENOENT
  | ENOMEM
deriving DecidableEq

structure Pqueue where
  data : List Ptr
  maxCount : UInt64
  count : UInt64
  head : Int
  tail : Int
deriving DecidableEq

/-- `calloc(n, size)` for words: NULL where the product overflows. `mem`
is whether there is memory. -/
def calloc (mem : Bool) (n size : UInt64) : Option (List Ptr) :=
  if mem ∧ n.toNat * size.toNat < 2 ^ 64 then some (List.replicate n.toNat 0) else none

/-- `pqueue_create`; `mem` is what its two `calloc` calls find. -/
def pqueueCreate (mem : Bool × Bool) (capacity : UInt64) : Option Pqueue :=
  if mem.1 then
    (calloc mem.2 capacity 8).map fun data =>
      { data := data, maxCount := capacity, count := 0, head := -1, tail := -1 }
  else none

def pqueueCount (q : Pqueue) : UInt64 := q.count

/-- `pqueue_is_empty`, an `int`. -/
def pqueueIsEmpty (q : Pqueue) : Int := if q.count = 0 then 1 else 0

/-- The index after `i`: both wrap-arounds of the ring. -/
def next (q : Pqueue) (i : Int) : Int := if ssize q.maxCount ≤ i + 1 then 0 else i + 1

def pqueueGet (q : Pqueue) : Except Fault (Ptr × Option Errno × Pqueue) :=
  if q.count = 0 then return (-1, some .ENOENT, q)
  else if ¬(0 ≤ q.head ∧ q.head < ssize q.maxCount) then throw .assertion
  else do
    let val ← read q.data q.head.toNat
    let count := q.count - 1
    if count = 0 then return (val, none, { q with count := count, head := -1, tail := -1 })
    else return (val, none, { q with count := count, head := next q q.head })

def pqueuePut (q : Pqueue) (val : Ptr) : Except Fault (Int × Option Errno × Pqueue) :=
  if q.maxCount ≤ q.count then return (-1, some .ENOMEM, q)
  else
    let count := q.count + 1
    let head := if count = 1 then 0 else q.head
    let tail := if count = 1 then 0 else next q q.tail
    if ¬(0 ≤ tail ∧ tail < ssize q.maxCount) then throw .assertion
    else do
      let data ← write q.data tail.toNat val
      return (0, none, { q with data := data, count := count, head := head, tail := tail })

/-! ## Operations as data -/

/-- What a call returns, with `errno` where it is set. -/
inductive Output
  | put (rc : Int) (errno : Option Errno)
  | get (val : Ptr) (errno : Option Errno)
  | count (n : UInt64)
  | isEmpty (rc : Int)
deriving DecidableEq

def apply (q : Pqueue) : Rings.Op Ptr → Except Fault (Output × Pqueue)
  | .put val => do
      let (rc, errno, q') ← pqueuePut q val
      return (.put rc errno, q')
  | .get => do
      let (val, errno, q') ← pqueueGet q
      return (.get val errno, q')
  | .count => return (.count (pqueueCount q), q)
  | .isEmpty => return (.isEmpty (pqueueIsEmpty q), q)

def run (q : Pqueue) : List (Rings.Op Ptr) → Except Fault (List Output × Pqueue)
  | [] => return ([], q)
  | op :: ops => do
      let (out, q') ← apply q op
      let (outs, q'') ← run q' ops
      return (out :: outs, q'')

end Queue

end MiscTools
