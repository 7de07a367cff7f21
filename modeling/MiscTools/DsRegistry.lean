import MiscTools.Blocks
import MiscTools.DsDyn

/-!
# The point registry of debugsync_dyn

`ds.point` is an array of pointers to records, kept sorted by name:
`ds_add` puts a new record at the end and swaps it down, `ds_lookup` is
a `bsearch` with the same comparison, and it returns the address of an
array element as that of a record (`registry_correct_iff`).

A pointer is an object and a place in it, so a record and an element of
`ds.point` never have the same address. The exception is a pointer that
was not one before: `ds_cmp` reads a pointer from both its arguments, and
the key of `ds_lookup` is a record, so there it takes the first eight
bytes of a name for an address. What is found at such an address is a
parameter (`Env.memory`). An access to something that is not there is a
`Fault`, and so is a write to a record through a pointer to an element.

The block for a record is asked for with the size of a pointer. How large
it then is is a parameter (`room`), and where it is smaller than a `struct
ds_point` the stores to it are a `Fault`. `capacity` and `count` do not wrap.
-/

namespace MiscTools.DsRegistry

open Blocks
open DsDyn (DS_MAXLEN)

abbrev DS_EXPAND_BY : Nat := 8

/-- `sizeof(struct ds_point)` -/
abbrev sizeofDsPoint : Nat := (DS_MAXLEN + 1) + 1

/-- A stored name fits. -/
structure DsPoint where
  name : CStr
  isEnabled : Bool
  fits : name.strlen ≤ DS_MAXLEN
deriving DecidableEq

/-- What a `struct ds_point *` holds: NULL, the record allocated as
number `k`, or the address of `ds.point[i]`. -/
inductive Ptr
  | null
  | record (k : Nat)
  | elem (i : Nat)
deriving DecidableEq

/-- `ds.point`, `ds.capacity`, `ds.count`, and the records in the order
they were allocated. -/
structure Registry where
  point : Option (List Ptr)
  capacity : Nat
  count : Nat
  heap : List DsPoint
deriving DecidableEq

/-- What a call finds: whether `realloc` and `malloc` have memory, what
new elements of `ds.point` hold, and the string at an address (`none`
where nothing is mapped). -/
structure Env where
  grow : Bool := true
  record : Bool := true
  junk : Nat → Ptr := fun _ => .null
  memory : UInt64 → Option CStr := fun _ => none

namespace Registry

def init : Registry where
  point := none
  capacity := 0
  count := 0
  heap := []

/-- The record a pointer points to. -/
def deref (r : Registry) : Ptr → Except Fault DsPoint
  | .record k => read r.heap k
  | .null => .error .null
  | .elem _ => .error .bounds

/-- `ds.point[i]` -/
def get (r : Registry) (i : Nat) : Except Fault Ptr := do
  read (← Blocks.deref r.point) i

/-- `ds.point[i] = p` -/
def set (r : Registry) (i : Nat) (p : Ptr) : Except Fault Registry := do
  return { r with point := some (← write (← Blocks.deref r.point) i p) }

def swapPoint (r : Registry) (i j : Nat) : Except Fault Registry := do
  let tmp ← r.get i
  (← r.set i (← r.get j)).set j tmp

end Registry

/-! ## `ds_cmp` -/

/-- What `ds_cmp` is given the address of. -/
inductive Arg
  | key (name : CStr)
  | elem (i : Nat)

/-- The first eight bytes of a `name` array as an address; the bytes
after the string are 0. -/
def addressOf (name : CStr) : UInt64 :=
  (name.bytes.take 8).foldr (fun b w => w * 256 + b.toUInt64) 0

/-- `(*(struct ds_point**)p)->name` -/
def nameAt (r : Registry) (memory : UInt64 → Option CStr) : Arg → Except Fault CStr
  | .key name =>
      match memory (addressOf name) with
      | some s => .ok s
      | none => .error .bounds
  | .elem i => do return (← r.deref (← r.get i)).name

def dsCmp (r : Registry) (memory : UInt64 → Option CStr) (p1 p2 : Arg) :
    Except Fault Ordering := do
  return (← nameAt r memory p1).strcmp (← nameAt r memory p2)

/-! ## `ds_add` -/

/-- The growth of `ds.point`; `none` when `realloc` fails. -/
def Registry.grown (r : Registry) (env : Env) : Option Registry :=
  if r.capacity ≤ r.count then
    if env.grow then
      some { r with
        point := some (resize r.point (DS_EXPAND_BY + r.capacity) env.junk)
        capacity := r.capacity + DS_EXPAND_BY }
    else none
  else some r

/-- The loop of `ds_add`: the element at `i` moves down to its place,
which is returned. -/
def sink (r : Registry) (memory : UInt64 → Option CStr) : Nat → Except Fault (Nat × Registry)
  | 0 => return (0, r)
  | i + 1 => do
      if (← dsCmp r memory (.elem (i + 1)) (.elem i)) = .lt then
        sink (← r.swapPoint (i + 1) i) memory i
      else return (i + 1, r)

def DsPoint.new (pointName : CStr) : DsPoint where
  name := pointName.strndup DS_MAXLEN
  isEnabled := false
  fits := CStr.strlen_strndup_le pointName DS_MAXLEN

/-- The stores of `ds_add` to a new record, the block of which has `room`
bytes. -/
def storeNew (room : Nat) (heap : List DsPoint) (pointName : CStr) :
    Except Fault (List DsPoint) :=
  if sizeofDsPoint ≤ room then .ok (heap ++ [.new pointName]) else .error .bounds

/-- `room` is the size of what `malloc(sizeof(ds.point[0]))` returns. -/
def dsAdd (room : Nat) (r : Registry) (env : Env) (pointName : CStr) :
    Except Fault (Ptr × Registry) :=
  match r.grown env with
  | none => return (.null, { r with point := none })
  | some r =>
      let i := r.count
      let r := { r with count := r.count + 1 }
      if env.record then do
        let r ← r.set i (.record r.heap.length)
        let heap ← storeNew room r.heap pointName
        let (i, r) ← sink { r with heap := heap } env.memory i
        return (← r.get i, r)
      else return (.null, ← r.set i .null)

/-! ## `ds_lookup` -/

/-- `bsearch` over `n` elements, `cmp i` being what the comparison of the
key with element `i` returns: no element is looked at when there is none,
and an element it returns is a match. -/
structure Bsearch where
  search : Nat → (Nat → Except Fault Ordering) → Except Fault (Option Nat)
  empty : ∀ cmp, search 0 cmp = .ok none
  hit : ∀ n cmp i, search n cmp = .ok (some i) → i < n ∧ cmp i = .ok .eq

def dsLookup (bs : Bsearch) (r : Registry) (memory : UInt64 → Option CStr)
    (pointName : CStr) : Except Fault Ptr := do
  let key := Arg.key (pointName.strndup DS_MAXLEN)
  match ← bs.search r.count fun i => dsCmp r memory key (.elem i) with
  | some i => return .elem i
  | none => return .null

/-! ## `ds_set` -/

/-- `pt->is_enabled = enable` -/
def Registry.setEnabled (r : Registry) (pt : Ptr) (enable : Bool) : Except Fault Registry := do
  let p ← r.deref pt
  match pt with
  | .record k => return { r with heap := r.heap.set k { p with isEnabled := enable } }
  | _ => return r

/-- `ds_set` up to its wait: the record it works on. -/
def dsSet (bs : Bsearch) (room : Nat) (r : Registry) (env : Env) (pointName : CStr)
    (enable : Bool) : Except Fault (Ptr × Registry) := do
  let found ← dsLookup bs r env.memory pointName
  let (pt, r) ← if found = .null then dsAdd room r env pointName else pure (found, r)
  if pt = .null then return (pt, r)
  else return (pt, ← r.setEnabled pt enable)

/-- Calls of `ds_set(name, false)`, one after the other. -/
def setAll (bs : Bsearch) (room : Nat) : Registry → List (CStr × Env) → Except Fault Registry
  | r, [] => return r
  | r, (pointName, env) :: cs => do
      let (_, r) ← dsSet bs room r env pointName false
      setAll bs room r cs

/-! ## What the registry is for -/

/-- The names are one as far as they are kept. -/
def SameName (s t : CStr) : Prop := s.strndup DS_MAXLEN = t.strndup DS_MAXLEN

/-- Element `i` of `ds.point` is `p`, the record of `name`. -/
structure Holds (r : Registry) (i : Nat) (p : Ptr) (name : CStr) : Prop where
  below : i < r.count
  elem : r.get i = .ok p
  record : ∃ pt, r.deref p = .ok pt ∧ pt.name = name.strndup DS_MAXLEN

/-- `ds.point` holds one record for each of `names`, and `ds_lookup`
finds these and no others. -/
structure Registered (bs : Bsearch) (memory : UInt64 → Option CStr) (r : Registry)
    (names : List CStr) : Prop where
  only : ∀ i < r.count, ∃ name ∈ names, ∃ p, Holds r i p name
  once : ∀ name ∈ names, ∃! i, ∃ p, Holds r i p name
  found : ∀ name, (∃ n ∈ names, SameName n name) →
    ∃ i p, dsLookup bs r memory name = .ok p ∧ Holds r i p name
  missed : ∀ name, (∀ n ∈ names, ¬SameName n name) → dsLookup bs r memory name = .ok .null

/-- The calls return, and their names are registered. -/
def Correct (bs : Bsearch) (room : Nat) (memory : UInt64 → Option CStr)
    (calls : List (CStr × Env)) : Prop :=
  ∃ r, setAll bs room .init calls = .ok r ∧ Registered bs memory r (calls.map (·.1))

/-! ## What `ds_lookup` returns -/

/-- NULL, or the address of an element whose name is the string at the
address the key is taken for. -/
theorem dsLookup_cases {bs : Bsearch} {r : Registry} {memory : UInt64 → Option CStr}
    {name : CStr} {p : Ptr} (h : dsLookup bs r memory name = .ok p) :
    p = .null ∨ ∃ i, p = .elem i ∧ i < r.count
      ∧ dsCmp r memory (.key (name.strndup DS_MAXLEN)) (.elem i) = .ok .eq := by
  cases hs : bs.search r.count
      fun i => dsCmp r memory (.key (name.strndup DS_MAXLEN)) (.elem i) with
  | error e =>
      simp only [dsLookup, hs, bind, Except.bind] at h
      cases h
  | ok found =>
      simp only [dsLookup, hs, bind, Except.bind] at h
      cases found with
      | none =>
          obtain rfl := Except.ok.inj h
          exact Or.inl rfl
      | some i =>
          obtain rfl := Except.ok.inj h
          exact Or.inr ⟨i, rfl, bs.hit _ _ i hs⟩

/-- `ds_lookup` never returns a record. -/
theorem not_holds_of_lookup {bs : Bsearch} {r : Registry} {memory : UInt64 → Option CStr}
    {name name' : CStr} {p : Ptr} {i : Nat} (h : dsLookup bs r memory name = .ok p) :
    ¬Holds r i p name' := by
  intro hholds
  obtain ⟨pt, hpt, -⟩ := hholds.record
  rcases dsLookup_cases h with rfl | ⟨j, rfl, -⟩ <;> cases hpt

/-- **The registry.** Whatever is at the addresses the keys are taken
for, the names are registered if and only if `ds_set` was never
called. -/
theorem registry_correct_iff (bs : Bsearch) (room : Nat) (memory : UInt64 → Option CStr)
    (calls : List (CStr × Env)) : Correct bs room memory calls ↔ calls = [] := by
  constructor
  · rintro ⟨r, -, hreg⟩
    cases calls with
    | nil => rfl
    | cons c cs =>
        obtain ⟨i, p, hlook, hholds⟩ := hreg.found c.1 ⟨c.1, by simp, rfl⟩
        exact absurd hholds (not_holds_of_lookup hlook)
  · rintro rfl
    refine ⟨.init, rfl, ⟨fun i hi => absurd hi (Nat.not_lt_zero i), by simp, by simp,
      fun name _ => ?_⟩⟩
    simp [dsLookup, Registry.init, bs.empty, bind, Except.bind, pure, Except.pure]

/-- The search of the elements from `lo` to `hi`, halved at most `fuel`
times. -/
def binaryFrom (cmp : Nat → Except Fault Ordering) :
    Nat → Nat → Nat → Except Fault (Option Nat)
  | 0, _, _ => .ok none
  | fuel + 1, lo, hi =>
      if lo < hi then do
        let mid := (lo + hi) / 2
        match ← cmp mid with
        | .lt => binaryFrom cmp fuel lo mid
        | .gt => binaryFrom cmp fuel (mid + 1) hi
        | .eq => return some mid
      else .ok none

theorem binaryFrom_hit {cmp : Nat → Except Fault Ordering} {i : Nat} :
    ∀ {fuel lo hi : Nat}, binaryFrom cmp fuel lo hi = .ok (some i) →
      i < hi ∧ cmp i = .ok .eq := by
  intro fuel
  induction fuel with
  | zero =>
      intro lo hi h
      cases h
  | succ fuel ih =>
      intro lo hi h
      unfold binaryFrom at h
      split at h
      · cases hmid : cmp ((lo + hi) / 2) with
        | error e =>
            simp only [hmid] at h
            cases h
        | ok o =>
            simp only [hmid, bind, Except.bind] at h
            cases o with
            | lt =>
                obtain ⟨hlt, heq⟩ := ih h
                exact ⟨by omega, heq⟩
            | gt => exact ih h
            | eq =>
                obtain rfl := Option.some.inj (Except.ok.inj h)
                exact ⟨by omega, hmid⟩
      · cases h

def binarySearch : Bsearch where
  search := fun n cmp => binaryFrom cmp n 0 n
  empty := fun _ => rfl
  hit := fun _ _ _ h => binaryFrom_hit h

/-- A name, and a string that sorts after it. -/
def xName : CStr := ⟨[120], by decide⟩

def zName : CStr := ⟨[122], by decide⟩

/-- `ds_set("x", false)`, once and twice, with room enough for records.
After the first call `ds_lookup` takes the name itself for the address
120: with nothing there it crashes, with another string there it returns
NULL, and a second call adds a second record of that name. -/
theorem set_is_not_found :
    (∃ r, setAll binarySearch sizeofDsPoint .init [(xName, {})] = .ok r ∧ r.point.isSome
      ∧ dsLookup binarySearch r (fun _ => none) xName = .error .bounds
      ∧ dsLookup binarySearch r (fun _ => some zName) xName = .ok .null)
    ∧ ∃ r, setAll binarySearch sizeofDsPoint .init
        [(xName, {}), (xName, { memory := fun _ => some zName })] = .ok r ∧ r.count = 2
      ∧ r.heap = [.new xName, .new xName] := by
  refine ⟨⟨_, rfl, ?_⟩, ⟨_, rfl, ?_⟩⟩ <;> decide +kernel

end MiscTools.DsRegistry
