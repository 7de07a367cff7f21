import MiscTools.Blocks
import MiscTools.CStr

/-!
# Base64 encoding and decoding

`b64.c`. The two tables are built by the loops of the source and live
in `Tables`, which every call takes and returns; `strlen` bounds the
loops over a string, so they are recursions over the bytes that are
left. The pointers the source never tests are never NULL here.
-/

namespace MiscTools

namespace B64

open Blocks

inductive Errno
  | EMSGSIZE
  | EINVAL
deriving DecidableEq

/-- A character constant, as an unsigned byte. -/
def chr (c : Char) : UInt8 := UInt8.ofNat c.toNat

def minDecodedBuflen (el : UInt64) : UInt64 := (el / 4 + 1) * 3 + 1

def minEncodedBuflen (l : UInt64) : UInt64 := (l / 3 + 1) * 4 + 1

/-! ## The tables -/

/-- `g_etable`, `g_dtable` and `g_ready`. -/
structure Tables where
  etable : List UInt8
  dtable : List UInt8
  ready : Bool
deriving DecidableEq

/-- The tables of a program that has just started. -/
def Tables.zero : Tables :=
  { etable := List.replicate 64 0, dtable := List.replicate 256 0, ready := false }

def initEtable (t : List UInt8) : List UInt8 :=
  let t := (List.range 9).foldl (fun t i =>
    (((t.set i (chr 'A' + UInt8.ofNat i)).set (i + 9) (chr 'J' + UInt8.ofNat i)).set
      (26 + i) (chr 'a' + UInt8.ofNat i)).set (26 + i + 9) (chr 'j' + UInt8.ofNat i)) t
  let t := (List.range 8).foldl (fun t i =>
    (t.set (i + 18) (chr 'S' + UInt8.ofNat i)).set (26 + i + 18) (chr 's' + UInt8.ofNat i)) t
  let t := (List.range 10).foldl (fun t i => t.set (52 + i) (chr '0' + UInt8.ofNat i)) t
  (t.set 62 (chr '+')).set 63 (chr '/')

/-- `for (i = first; i <= last; i++) g_dtable[i] = v + (i - first);` -/
def setRun (first last : Char) (v : Nat) (t : List UInt8) : List UInt8 :=
  (List.range' first.toNat (last.toNat + 1 - first.toNat)).foldl
    (fun t i => t.set i (UInt8.ofNat (v + (i - first.toNat)))) t

def initDtable (t : List UInt8) : List UInt8 :=
  -- the last cell, 255, is not reached
  let t := (List.range 255).foldl (fun t i => t.set i 0x80) t
  let t := setRun 'A' 'I' 0 t
  let t := setRun 'J' 'R' 9 t
  let t := setRun 'S' 'Z' 18 t
  let t := setRun 'a' 'i' 26 t
  let t := setRun 'j' 'r' 35 t
  let t := setRun 's' 'z' 44 t
  let t := setRun '0' '9' 52 t
  ((t.set '+'.toNat 62).set '/'.toNat 63).set '='.toNat 0

def b64Init (g : Tables) : Tables :=
  { etable := initEtable g.etable, dtable := initDtable g.dtable, ready := true }

/-- `if (0 == g_ready) b64_init();` -/
def ensureReady (g : Tables) : Tables := if g.ready then g else b64Init g

/-! ## Encoding -/

/-- `ogroup` for `n` bytes read into `igroup`. -/
def ogroup (g : Tables) (n : Nat) (i0 i1 i2 : UInt8) : Except Fault (List UInt8) := do
  let o0 ← read g.etable (i0 >>> 2).toNat
  let o1 ← read g.etable ((i0 &&& 3) <<< 4 ||| i1 >>> 4).toNat
  let o2 ← read g.etable ((i1 &&& 0xF) <<< 2 ||| i2 >>> 6).toNat
  let o3 ← read g.etable (i2 &&& 0x3F).toNat
  if n < 3 then return [o0, o1, if n < 2 then chr '=' else o2, chr '=']
  else return [o0, o1, o2, o3]

/-- The loop over the string, from the bytes that are left and `j` on. -/
def encodeLoop (g : Tables) (nenc : UInt64) :
    List UInt8 → Nat → List UInt8 → Except Fault (Nat × List UInt8)
  | [], j, enc => return (j, enc)
  | [p0], j, enc => do store (nenc - 1).toNat (← ogroup g 1 p0 0 0) j enc
  | [p0, p1], j, enc => do store (nenc - 1).toNat (← ogroup g 2 p0 p1 0) j enc
  | p0 :: p1 :: p2 :: p, j, enc => do
      let (j, enc) ← store (nenc - 1).toNat (← ogroup g 3 p0 p1 p2) j enc
      encodeLoop g nenc p j enc

def b64Encode (g : Tables) (plain : CStr) (enc : List UInt8) (nenc : UInt64) :
    Except Fault (Tables × List UInt8) := do
  let g := ensureReady g
  let (j, enc) ← encodeLoop g nenc plain.bytes 0 enc
  return (g, ← write enc j 0)

/-! ## Decoding -/

/-- `g_dtable[c]`, or nothing where it has the bit of an invalid byte. -/
def lookup (g : Tables) (c : UInt8) : Except Fault (Option UInt8) := do
  let b ← read g.dtable c.toNat
  return if b &&& 0x80 ≠ 0 then none else some b

/-- The loop over the string, from the bytes that are left and `j` on.
There is no index after an invalid byte. A last group is never short:
the length is a multiple of four. -/
def decodeLoop (g : Tables) (ndecoded : UInt64) :
    List UInt8 → Nat → List UInt8 → Except Fault (Option Nat × List UInt8)
  | a0 :: a1 :: a2 :: a3 :: e, j, decoded =>
      if j < (ndecoded - 1).toNat then do
        let some b0 ← lookup g a0 | return (none, decoded)
        let some b1 ← lookup g a1 | return (none, decoded)
        let some b2 ← lookup g a2 | return (none, decoded)
        let some b3 ← lookup g a3 | return (none, decoded)
        let o := [b0 <<< 2 ||| b1 >>> 4, b1 <<< 4 ||| b2 >>> 2, b2 <<< 6 ||| b3]
        let olen := if a2 = chr '=' then 1 else if a3 = chr '=' then 2 else 3
        let (j, decoded) ← store (ndecoded - 1).toNat (o.take olen) j decoded
        decodeLoop g ndecoded e j decoded
      else return (some j, decoded)
  | _, j, decoded => return (some j, decoded)

/-- NULL is returned where `errno` is set. -/
def b64Decode (g : Tables) (encoded : CStr) (decoded : List UInt8) (ndecoded : UInt64) :
    Except Fault (Tables × Option Errno × List UInt8) := do
  let g := ensureReady g
  let elen := UInt64.ofNat encoded.strlen
  if elen % 4 ≠ 0 ∨ ndecoded < minDecodedBuflen elen then return (g, some .EMSGSIZE, decoded)
  else
    match ← decodeLoop g ndecoded encoded.bytes 0 decoded with
    | (none, decoded) => return (g, some .EINVAL, decoded)
    | (some j, decoded) => return (g, none, ← write decoded j 0)

/-! ## Strings in fresh memory -/

/-- `malloc`: NULL, or a block of the size asked for that holds
anything. -/
structure Malloc where
  block : UInt64 → Option (List UInt8)
  length_block : ∀ {n : UInt64} {b : List UInt8}, block n = some b → b.length = n.toNat

/-- Both functions that allocate, but for the size: the string they are
given goes through `b64_encode`. -/
def newB64 (buflen : UInt64 → UInt64) (m : Malloc) (g : Tables) :
    Option CStr → Except Fault (Tables × Option (List UInt8))
  | none => return (g, none)
  | some s =>
      let len := UInt64.ofNat s.strlen
      if len < 1 then return (g, none)
      else
        match m.block (buflen len) with
        | none => return (g, none)
        | some b => do
            let (g, b) ← b64Encode g s b (buflen len)
            return (g, some b)

def newB64Encoded (m : Malloc) (g : Tables) (plain : Option CStr) :
    Except Fault (Tables × Option (List UInt8)) :=
  newB64 minEncodedBuflen m g plain

def newB64Decoded (m : Malloc) (g : Tables) (encoded : Option CStr) :
    Except Fault (Tables × Option (List UInt8)) :=
  newB64 minDecodedBuflen m g encoded

end B64

end MiscTools
