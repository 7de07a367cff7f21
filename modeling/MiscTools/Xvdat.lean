import MiscTools.Blocks
import MiscTools.Sizes

/-!
# Extensible vectors and slot lists

`xvdat.c`. A `size_t` is a `UInt64`, so all size arithmetic wraps as in
the source; an `ssize_t` is an `Int` with the two conversions written
out (`Sizes.ssize`, and `UInt64.ofInt` back). The data block is known by its
size alone, since no function here reads or writes it; the `taken` map
is its bytes.

The allocator is a parameter (`Alloc`): whether each of the two
`realloc` calls a function may make is granted, and what a new block
holds. A `realloc` that returns NULL leaves the block as it was, but where
0 bytes were asked for it has freed it. The size of the data block may be 0
after it has wrapped around; that of the map is above an earlier one.
Accesses to `taken` are checked, as is that a block given to `realloc` has
not been freed, and a failed `assert` is a fault. The list argument itself
is never NULL.
-/

namespace MiscTools

namespace Xvdat

open Blocks Sizes

/-- What `realloc` answers during one call, and the contents of memory
it has not been asked to keep. -/
structure Alloc where
  data : UInt64 → Bool
  taken : UInt64 → Bool
  junk : Nat → UInt8

/-- What `data` points to; a block is known by its size. -/
inductive Data
  | null
  | block (size : Nat)
  /-- A block that has been freed. -/
  | freed
deriving DecidableEq

/-- There are `n` bytes. -/
def Data.Holds : Data → Nat → Prop
  | .null, n => n = 0
  | .block size, n => n ≤ size
  | .freed, _ => False

/-- What becomes of `p` where `realloc(p, n)` returns NULL. -/
def Data.refused (p : Data) (n : UInt64) : Data :=
  match p with
  | .null => .null
  | .block size => if n = 0 then .freed else .block size
  | .freed => .freed

structure Xvec where
  data : Data
  len : UInt64
  maxLen : UInt64
deriving DecidableEq

structure Xvlst extends Xvec where
  taken : Option (List UInt8)
  last : UInt64
  avail : Int
deriving DecidableEq

def ENOMEM : Int := 12
def ERANGE : Int := 34
def EALREADY : Int := 114

/-- A zero-filled `struct xvlst`. -/
def Xvlst.zero : Xvlst where
  data := .null
  len := 0
  maxLen := 0
  taken := none
  last := 0
  avail := 0

/-- The number of elements `xvec_reserve` makes room for. -/
def nblk (newMax growblk : UInt64) : UInt64 := (1 + (newMax - 1) / growblk) * growblk

def xvecReserve (a : Alloc) (v : Xvec) (newMax blksz growblk : UInt64) :
    Except Fault (Int × Xvec) :=
  if growblk = 0 then .error .assertion
  else if newMax < v.maxLen then .ok (0, v)
  else
    let n := nblk newMax growblk
    if v.data = .freed then .error .bounds
    else if a.data (n * blksz) then
      .ok (0, { v with data := .block (n * blksz).toNat, maxLen := n })
    else .ok (-1, { v with data := v.data.refused (n * blksz) })

def xvecExpand (a : Alloc) (v : Xvec) (plus blksz growblk : UInt64) :
    Except Fault (Int × Xvec) :=
  if plus = 0 ∨ blksz = 0 ∨ growblk = 0 then .error .assertion
  else xvecReserve a v (v.len + plus) blksz growblk

/-- `xvlst_reserve` from the `realloc` of `taken` on; the vector part has
grown from `oldMax`. -/
def growTaken (a : Alloc) (l : Xvlst) (oldMax : UInt64) : Except Fault (Int × Xvlst) :=
  if a.taken l.maxLen then do
    let t ← fill (resize l.taken l.maxLen.toNat a.junk) oldMax.toNat
      (l.maxLen - oldMax).toNat 0
    return (0, { l with taken := some t, avail := if l.avail < 0 then ssize oldMax else l.avail })
  else return (-1, { l with taken := none })

def xvlstReserve (a : Alloc) (l : Xvlst) (newMax blksz growblk : UInt64) :
    Except Fault (Int × Xvlst) :=
  if newMax ≤ l.maxLen then return (0, l)
  else do
    let (rc, v) ← xvecReserve a l.toXvec newMax blksz growblk
    let l' := { l with toXvec := v }
    if rc ≠ 0 then return (rc, l')
    else if l'.maxLen ≤ l.maxLen then return (rc, l')
    else growTaken a l' l.maxLen

def xvlstExpand (a : Alloc) (l : Xvlst) (plus blksz growblk : UInt64) :
    Except Fault (Int × Xvlst) :=
  if plus = 0 ∨ blksz = 0 ∨ growblk = 0 then throw .assertion
  else xvlstReserve a l (l.len + plus) blksz growblk

/-- The next value of `avail` once slot `i` has been taken from the map
`t`: past the last slot ever used, next to `i`, or searched for. -/
def nextAvail (t : List UInt8) (last maxLen : UInt64) (i : Int) : Except Fault Int :=
  if i = ssize last then
    if ssize maxLen ≤ i + 1 then return -1
    else do
      if (← read t (i + 1).toNat) = 0 then return i + 1 else throw .assertion
  else do
    if (← read t (i + 1).toNat) = 0 then return i + 1
    else
      match ← find t 0 (i + 1).toNat (maxLen - UInt64.ofInt i - 1).toNat with
      | some k => return k
      | none => return -1

/-- `xvlst_add` from `i = l->avail` on. -/
def takeAvail (l : Xvlst) : Except Fault (Int × Xvlst) := do
  let i := l.avail
  let t ← write (← deref l.taken) i.toNat 1
  let last := if ssize l.last < i then UInt64.ofInt i else l.last
  let avail ← nextAvail t last l.maxLen i
  return (i, { l with taken := some t, last := last, avail := avail, len := l.len + 1 })

def xvlstAdd (a : Alloc) (l : Xvlst) (blksz growblk : UInt64) : Except Fault (Int × Xvlst) :=
  if ¬l.avail < ssize l.maxLen then throw .assertion
  else do
    let (rc, l') ← xvlstExpand a l 1 blksz growblk
    if rc ≠ 0 then return (-ENOMEM, l')
    else if l'.avail < 0 then return (-1, l')
    else takeAvail l'

def xvlstDel (l : Xvlst) (index : UInt64) : Except Fault (Int × Xvlst) :=
  if l.last < index then return (ERANGE, l)
  else do
    let t ← deref l.taken
    if (← read t index.toNat) = 0 then return (EALREADY, l)
    else
      let t ← write t index.toNat 0
      let avail := if l.avail < 0 ∨ ssize index < l.avail then ssize index else l.avail
      if l.len = 0 then throw .assertion
      else return (0, { l with taken := some t, avail := avail, len := l.len - 1 })

/-! ## Size arithmetic that does not wrap -/

/-- The room `xvec_reserve` makes, as a mathematical integer. -/
def room (newMax growblk : Nat) : Nat := (1 + (newMax - 1) / growblk) * growblk

theorem room_eq (newMax growblk : Nat) :
    room newMax growblk = growblk + growblk * ((newMax - 1) / growblk) := by
  rw [room, Nat.add_mul, Nat.one_mul, Nat.mul_comm]

theorem le_room {newMax growblk : Nat} (h : growblk ≠ 0) : newMax ≤ room newMax growblk := by
  have hdiv := Nat.div_add_mod (newMax - 1) growblk
  have hmod := Nat.mod_lt (newMax - 1) (Nat.pos_of_ne_zero h)
  rw [room_eq]
  omega

theorem room_le {newMax growblk : Nat} : room newMax growblk ≤ newMax - 1 + growblk := by
  have hdiv := Nat.div_add_mod (newMax - 1) growblk
  rw [room_eq]
  omega

theorem toNat_nblk_mod {newMax growblk : UInt64} (hn : newMax ≠ 0) :
    (nblk newMax growblk).toNat = room newMax.toNat growblk.toNat % 2 ^ 64 := by
  rw [nblk, UInt64.toNat_mul, UInt64.toNat_add, UInt64.toNat_div, toNat_sub_one hn]
  show (1 + (newMax.toNat - 1) / growblk.toNat) % 2 ^ 64 * growblk.toNat % 2 ^ 64 = _
  rw [Nat.mod_mul_mod, room]

theorem toNat_nblk {newMax growblk : UInt64} (hn : newMax ≠ 0)
    (hfit : room newMax.toNat growblk.toNat < 2 ^ 64) :
    (nblk newMax growblk).toNat = room newMax.toNat growblk.toNat := by
  rw [toNat_nblk_mod hn, Nat.mod_eq_of_lt hfit]

/-! ## Operations as data -/

inductive Op
  | reserve (newMax blksz growblk : UInt64)
  | expand (plus blksz growblk : UInt64)
  | add (blksz growblk : UInt64)
  | del (index : UInt64)

/-- An operation and what the allocator answers during it. -/
structure OpCall where
  op : Op
  alloc : Alloc

def OpCall.apply (c : OpCall) (l : Xvlst) : Except Fault (Int × Xvlst) :=
  match c.op with
  | .reserve newMax blksz growblk => xvlstReserve c.alloc l newMax blksz growblk
  | .expand plus blksz growblk => xvlstExpand c.alloc l plus blksz growblk
  | .add blksz growblk => xvlstAdd c.alloc l blksz growblk
  | .del index => xvlstDel l index

def step (l : Xvlst) (c : OpCall) : Option Xvlst := ((c.apply l).toOption).map (·.2)

end Xvdat

end MiscTools
