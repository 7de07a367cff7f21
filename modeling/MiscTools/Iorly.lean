import Mathlib.Algebra.Group.Int.Defs
import MiscTools.Blocks
import MiscTools.Runs
import MiscTools.Sizes

/-!
# The event list of the relay

`evl_ensure_avail` of `iorly.c` makes room for `n` more events, and
`kq_reader_add` puts one in the list for a descriptor, or two if it is a
regular file. `p` and `ev` of `evl_ensure_avail` are what `realloc` returns
and `evl`.

The list grows by `n / EVL_MIN_EXT` entries, or by one, where the names
are those of blocks of `EVL_MIN_EXT`. A list that is full then has room for
one event, and full is what `kq_reader_add` leaves it from the first
descriptor on (`Full`). The two events of a regular file do not fit, unless
there are so many entries already that nothing is added any more.
-/

namespace MiscTools.Iorly

open Blocks Runs

/-! ## The program -/

abbrev EVL_MIN_EXT : UInt64 := 100

abbrev EVL_MAX_LEN : UInt64 := 10000

inductive Filter
  | EVFILT_READ
  | EVFILT_VNODE
deriving DecidableEq

inductive Flag
  | EV_ADD
  | EV_CLEAR
deriving DecidableEq

inductive Note
  | NOTE_DELETE
  | NOTE_RENAME
deriving DecidableEq

/-- `struct kevent`; the words that are sets of bits are lists of these. -/
structure Kevent where
  ident : Nat
  filter : Filter
  flags : List Flag
  fflags : List Note
  data : Int
  udata : UInt64
deriving DecidableEq

/-- What `ke` points to. -/
inductive Ke
  | null
  | block (t : List Kevent)
  /-- A block that has been freed. -/
  | freed
deriving DecidableEq

structure EvList where
  ke : Ke
  len : Int
  capacity : UInt64
deriving DecidableEq

def EvList.empty : EvList where
  ke := .null
  len := 0
  capacity := 0

inductive Errno
  | EOVERFLOW
  | ENOMEM
deriving DecidableEq

/-- What `realloc` does, and what new entries hold. -/
inductive Realloc
  | refused
  | granted (junk : Nat → Kevent)

/-- What `realloc` is given: a pointer that is NULL or has a block. -/
def Ke.old : Ke → Except Fault (Option (List Kevent))
  | .null => .ok none
  | .block t => .ok (some t)
  | .freed => .error .bounds

/-- `if (evl->ke) free(evl->ke)`; the pointer is kept. -/
def Ke.free : Ke → Except Fault Ke
  | .null => .ok .null
  | .block _ => .ok .freed
  | .freed => .error .bounds

/-- The error that is returned, `none` for 0. -/
def evlEnsureAvail (evl : EvList) (n : UInt64) (answer : Realloc) :
    Except Fault (Option Errno × EvList) :=
  if n = 0 then .error .assertion
  else if UInt64.ofInt evl.len + n < evl.capacity then .ok (none, evl)
  else
    let nblocks := if n / EVL_MIN_EXT ≠ 0 then n / EVL_MIN_EXT else 1
    let newCapacity := evl.capacity + nblocks
    if newCapacity > EVL_MAX_LEN then .ok (some .EOVERFLOW, evl)
    else do
      let old ← evl.ke.old
      match answer with
      | .refused => return (some .ENOMEM, { evl with ke := ← evl.ke.free })
      | .granted junk =>
          return (none,
            { evl with
              ke := .block (resize old newCapacity.toNat junk)
              capacity := newCapacity })

/-- `EV_SET(&events->ke[i], ...)` -/
def evSet (events : EvList) (i : UInt64) (kev : Kevent) : Except Fault EvList :=
  match events.ke with
  | .null => .error .null
  | .block t => do return { events with ke := .block (← write t i.toNat kev) }
  | .freed => .error .bounds

def vnodeEvent (fd : Nat) (udata : UInt64) : Kevent where
  ident := fd
  filter := .EVFILT_VNODE
  flags := [.EV_ADD, .EV_CLEAR]
  fflags := [.NOTE_DELETE, .NOTE_RENAME]
  data := 0
  udata := udata

def readEvent (fd : Nat) (udata : UInt64) : Kevent where
  ident := fd
  filter := .EVFILT_READ
  flags := [.EV_ADD]
  fflags := []
  data := 0
  udata := udata

/-- The events of a descriptor, when there is room for them. -/
def setEvents (events : EvList) (fd : Nat) (udata : UInt64) (isReg : Bool) :
    Except Fault EvList := do
  let i := UInt64.ofInt events.len
  let (i, events) ← if isReg then do
      let events ← evSet events i (vnodeEvent fd udata)
      pure (i + 1, { events with len := events.len + 1 })
    else pure (i, events)
  let events ← evSet events i (readEvent fd udata)
  return { events with len := events.len + 1 }

/-- `stMode` is what `fstat` says of the descriptor, and of that whether
it is a regular file; `none` if `fstat` fails. -/
def kqReaderAdd (events : EvList) (fd : Nat) (udata : UInt64) (stMode : Option Bool)
    (answer : Realloc) : Except Fault (Int × EvList) :=
  match stMode with
  | none => return (-1, events)
  | some isReg => do
      let (err, events) ← evlEnsureAvail events (if isReg then 2 else 1) answer
      if err ≠ none then return (-1, events)
      else return (0, ← setEvents events fd udata isReg)

/-! ## What is promised -/

/-- The entries of the list. -/
def EvList.entries (l : EvList) : List Kevent :=
  match l.ke with
  | .block t => t
  | _ => []

/-- A list as it can be: `ke` has `capacity` entries, and `len`, which is
an `int`, does not exceed it. -/
structure EvList.Valid (l : EvList) : Prop where
  alive : l.ke ≠ .freed
  entries : l.entries.length = l.capacity.toNat
  int : -2 ^ 31 ≤ l.len ∧ l.len < 2 ^ 31
  len_le : l.len ≤ l.capacity.toNat

/-- Where `evl_ensure_avail` returns 0 there is room for `n` events, and
those that were there are kept. -/
def Ensures (l : EvList) (n : UInt64) : Prop :=
  ∀ junk l', evlEnsureAvail l n (.granted junk) = .ok (none, l') →
    l'.len + n.toNat ≤ l'.capacity.toNat ∧
      ∀ i : Nat, i < l.len → l'.entries[i]? = l.entries[i]?

/-- A call of `kq_reader_add` while there is memory. -/
structure Add where
  fd : Nat
  udata : UInt64
  stMode : Option Bool
  junk : Nat → Kevent

def Add.call (l : EvList) (a : Add) : Except Fault (Int × EvList) :=
  kqReaderAdd l a.fd a.udata a.stMode (.granted a.junk)

def step (l : EvList) (a : Add) : Option EvList := (a.call l).toOption.map (·.2)

/-- No `EV_SET` of the call is outside of `ke`. -/
def WritesInside (l : EvList) (a : Add) : Prop := ∃ rc l', a.call l = .ok (rc, l')

/-! ## `evl_ensure_avail` -/

/-- By how many entries the list grows. -/
def blocks (n : Nat) : Nat := if n / 100 = 0 then 1 else n / 100

def newCapacity (l : EvList) (n : UInt64) : UInt64 :=
  l.capacity + if n / EVL_MIN_EXT ≠ 0 then n / EVL_MIN_EXT else 1

theorem newCapacity_toNat (l : EvList) (n : UInt64) :
    (newCapacity l n).toNat = (l.capacity.toNat + blocks n.toNat) % 2 ^ 64 := by
  have hdiv : (n / EVL_MIN_EXT).toNat = n.toNat / 100 := UInt64.toNat_div ..
  have hblocks : (if n / EVL_MIN_EXT ≠ 0 then n / EVL_MIN_EXT else 1).toNat = blocks n.toNat := by
    rw [blocks, ← hdiv]
    by_cases hzero : n / EVL_MIN_EXT = 0
    · rw [if_neg (not_not_intro hzero), hzero]
      rfl
    · have hne : (n / EVL_MIN_EXT).toNat ≠ 0 := fun h => hzero (UInt64.toNat_inj.mp h)
      rw [if_pos hzero, if_neg hne]
  rw [newCapacity, UInt64.toNat_add, hblocks]

/-- The test for room is made in `size_t`. -/
theorem room_iff (l : EvList) (n : UInt64) :
    UInt64.ofInt l.len + n < l.capacity ↔ (l.len + n.toNat) % 2 ^ 64 < l.capacity.toNat := by
  have hlen : (UInt64.ofInt l.len).toNat = (l.len % 2 ^ 64).toNat := by
    show (UInt64.ofNat (l.len % 2 ^ 64).toNat).toNat = _
    rw [UInt64.toNat_ofNat']
    omega
  rw [UInt64.lt_iff_toNat_lt, UInt64.toNat_add, hlen]
  omega

/-- The list with a block of `c` entries. -/
def EvList.grownTo (l : EvList) (c : UInt64) (junk : Nat → Kevent) : EvList :=
  { l with ke := .block (resize (some l.entries) c.toNat junk), capacity := c }

theorem Ke.old_of_alive {l : EvList} (h : l.ke ≠ .freed) :
    ∃ p, l.ke.old = .ok p ∧ p.getD [] = l.entries := by
  unfold EvList.entries
  cases hke : l.ke with
  | null => exact ⟨none, rfl, rfl⟩
  | block t => exact ⟨some t, rfl, rfl⟩
  | freed => exact absurd hke h

/-- **The outcomes of `evl_ensure_avail`.** -/
theorem evlEnsureAvail_eq {l : EvList} (h : l.ke ≠ .freed) {n : UInt64} (hn : 0 < n.toNat)
    (junk : Nat → Kevent) :
    evlEnsureAvail l n (.granted junk) =
      if (l.len + n.toNat) % 2 ^ 64 < l.capacity.toNat then .ok (none, l)
      else if 10000 < (newCapacity l n).toNat then .ok (some .EOVERFLOW, l)
      else .ok (none, l.grownTo (newCapacity l n) junk) := by
  have hpos : n ≠ 0 := by
    rintro rfl
    exact absurd hn (Nat.lt_irrefl 0)
  obtain ⟨p, hp, hentries⟩ := Ke.old_of_alive h
  have hblock : resize p (newCapacity l n).toNat junk =
      resize (some l.entries) (newCapacity l n).toNat junk := by
    rw [resize, hentries]
    rfl
  rw [evlEnsureAvail, if_neg hpos]
  by_cases hroom : UInt64.ofInt l.len + n < l.capacity
  · rw [if_pos hroom, if_pos ((room_iff l n).mp hroom)]
  · rw [if_neg hroom, if_neg (mt (room_iff l n).mpr hroom)]
    have hlarge : EVL_MAX_LEN < newCapacity l n ↔ 10000 < (newCapacity l n).toNat :=
      UInt64.lt_iff_toNat_lt
    show (if EVL_MAX_LEN < newCapacity l n then _ else _) = _
    by_cases hmax : EVL_MAX_LEN < newCapacity l n
    · rw [if_pos hmax, if_pos (hlarge.mp hmax)]
    · rw [if_neg hmax, if_neg (mt hlarge.mpr hmax), hp, EvList.grownTo, ← hblock]
      rfl

/-- The condition: `len + n` does not wrap, and the entries by which the
list would grow are enough, unless they are not needed or not granted. -/
def Suffices (l : EvList) (n : UInt64) : Prop :=
  let sum : Int := l.len + n.toNat
  let grown : Nat := (l.capacity.toNat + blocks n.toNat) % 2 ^ 64
  sum < 2 ^ 64 ∧ (sum < l.capacity.toNat ∨ 10000 < grown ∨ sum ≤ grown)

theorem grownTo_kept {l : EvList} (h : l.Valid) {c : UInt64} (junk : Nat → Kevent)
    (hc : l.len ≤ c.toNat) {i : Nat} (hi : i < l.len) :
    (l.grownTo c junk).entries[i]? = l.entries[i]? := by
  have hlen := h.len_le
  have hentries := h.entries
  exact getElem?_resize (show i < l.entries.length by omega) (by omega)

theorem ensures_iff {l : EvList} (h : l.Valid) {n : UInt64} (hn : 0 < n.toNat) :
    Ensures l n ↔ Suffices l n := by
  have hlen := h.len_le
  have hint := h.int
  have hcap := l.capacity.toNat_lt
  have hsize := n.toNat_lt
  have hnew := newCapacity_toNat l n
  unfold Ensures Suffices
  simp only [evlEnsureAvail_eq h.alive hn]
  by_cases hroom : (l.len + n.toNat) % 2 ^ 64 < l.capacity.toNat
  · simp only [if_pos hroom]
    constructor
    · intro hall
      have hsum := (hall (fun _ => ⟨0, .EVFILT_READ, [], [], 0, 0⟩) l rfl).1
      omega
    · intro hcond junk l' hl'
      obtain ⟨-, rfl⟩ := Prod.mk.inj (Except.ok.inj hl')
      exact ⟨by omega, fun _ _ => rfl⟩
  · simp only [if_neg hroom]
    by_cases hmax : 10000 < (newCapacity l n).toNat
    · simp only [if_pos hmax]
      refine iff_of_true (fun junk l' hl' => ?_) ⟨by omega, by omega⟩
      cases hl'
    · simp only [if_neg hmax]
      constructor
      · intro hall
        have hsum := (hall (fun _ => ⟨0, .EVFILT_READ, [], [], 0, 0⟩) _ rfl).1
        change l.len + n.toNat ≤ (newCapacity l n).toNat at hsum
        omega
      · intro hcond junk l' hl'
        obtain ⟨-, rfl⟩ := Prod.mk.inj (Except.ok.inj hl')
        have hsum : l.len + n.toNat ≤ (newCapacity l n).toNat := by omega
        exact ⟨hsum, fun i hi => grownTo_kept h junk (by omega) hi⟩

/-! ## `kq_reader_add` -/

/-- A regular file comes when the list has as many entries as it may have,
if at all. -/
def Fits (l : EvList) (a : Add) : Prop := a.stMode = some true → 10000 ≤ l.capacity.toNat

/-- A list that `kq_reader_add` has filled has no room. -/
structure Full (l : EvList) : Prop where
  alive : l.ke ≠ .freed
  entries : l.entries.length = l.capacity.toNat
  len : l.len = l.capacity.toNat
  max : l.capacity.toNat ≤ 10000

theorem full_empty : Full .empty := ⟨nofun, rfl, rfl, Nat.zero_le _⟩

section

variable {l : EvList}

theorem evSet_of_lt {i : UInt64} (h : i.toNat < l.entries.length) (kev : Kevent) :
    ∃ t, evSet l i kev = .ok { l with ke := .block t } ∧ t.length = l.entries.length := by
  unfold EvList.entries at h ⊢
  cases hke : l.ke with
  | null =>
      rw [hke] at h
      exact absurd h (Nat.not_lt_zero _)
  | freed =>
      rw [hke] at h
      exact absurd h (Nat.not_lt_zero _)
  | block t =>
      rw [hke] at h
      refine ⟨t.set i.toNat kev, ?_, List.length_set⟩
      simp only [evSet, hke, write_of_lt h, bind, Except.bind, pure, Except.pure]

theorem evSet_of_le {i : UInt64} (h : l.entries.length ≤ i.toNat) (kev : Kevent) :
    ∃ e, evSet l i kev = .error e := by
  unfold EvList.entries at h
  unfold evSet
  cases hke : l.ke with
  | null => exact ⟨_, rfl⟩
  | freed => exact ⟨_, rfl⟩
  | block t =>
      rw [hke] at h
      refine ⟨.bounds, ?_⟩
      simp only [write, if_neg (Nat.not_lt_of_le h), bind, Except.bind]

theorem index_toNat (hnonneg : 0 ≤ l.len) (hmax : l.len < 10000) :
    ((UInt64.ofInt l.len).toNat : Int) = l.len := by
  obtain ⟨k, hk⟩ := Int.eq_ofNat_of_zero_le hnonneg
  rw [hk, Sizes.toNat_ofInt (by omega)]

/-- The event of a descriptor goes to the last entry. -/
theorem setEvents_false (h : l.entries.length = l.len + 1) (hnonneg : 0 ≤ l.len)
    (hmax : l.len < 10000) (fd : Nat) (udata : UInt64) :
    ∃ t, setEvents l fd udata false = .ok { l with ke := .block t, len := l.len + 1 }
      ∧ t.length = l.entries.length := by
  have hi := index_toNat hnonneg hmax
  rw [setEvents]
  generalize UInt64.ofInt l.len = i at hi ⊢
  obtain ⟨t, ht, hlen⟩ :=
    evSet_of_lt (show i.toNat < l.entries.length by omega) (readEvent fd udata)
  refine ⟨t, ?_, hlen⟩
  simp only [Bool.false_eq_true, if_false, bind, Except.bind, pure, Except.pure, ht]

/-- The second event of a regular file has no entry to go to. -/
theorem setEvents_true (h : l.entries.length = l.len + 1) (hnonneg : 0 ≤ l.len)
    (hmax : l.len < 10000) (fd : Nat) (udata : UInt64) :
    ∃ e, setEvents l fd udata true = .error e := by
  have hi := index_toNat hnonneg hmax
  rw [setEvents]
  generalize UInt64.ofInt l.len = i at hi ⊢
  obtain ⟨t, ht, hlen⟩ :=
    evSet_of_lt (show i.toNat < l.entries.length by omega) (vnodeEvent fd udata)
  have hnext : t.length ≤ (i + 1).toNat := by
    have hsucc : (i + 1).toNat = i.toNat + 1 := by
      rw [UInt64.toNat_add]
      exact Nat.mod_eq_of_lt (show i.toNat + 1 < 2 ^ 64 by omega)
    omega
  obtain ⟨e, he⟩ :=
    @evSet_of_le { l with ke := .block t, len := l.len + 1 } _ hnext (readEvent fd udata)
  refine ⟨e, ?_⟩
  simp only [if_true, bind, Except.bind, pure, Except.pure, ht, he]

/-- A call for one event or two lets a full list grow by one. -/
theorem Full.ensure_eq (h : Full l) (isReg : Bool) (junk : Nat → Kevent) :
    ∃ c : UInt64, c.toNat = l.capacity.toNat + 1 ∧
      evlEnsureAvail l (if isReg then 2 else 1) (.granted junk) =
        if 10000 ≤ l.capacity.toNat then .ok (some .EOVERFLOW, l)
        else .ok (none, l.grownTo c junk) := by
  have hlen := h.len
  have hmax := h.max
  have hc := newCapacity_toNat l (if isReg then 2 else 1)
  have hn : (if isReg then 2 else 1 : UInt64).toNat = 1 ∨
      (if isReg then 2 else 1 : UInt64).toNat = 2 := by
    cases isReg
    · exact .inl rfl
    · exact .inr rfl
  have hblocks : blocks (if isReg then 2 else 1 : UInt64).toNat = 1 := by
    cases isReg <;> rfl
  rw [hblocks] at hc
  refine ⟨newCapacity l (if isReg then 2 else 1), by omega, ?_⟩
  rw [evlEnsureAvail_eq h.alive (by omega), if_neg (by omega)]
  by_cases hfull : 10000 ≤ l.capacity.toNat
  · rw [if_pos hfull, if_pos (by omega)]
  · rw [if_neg hfull, if_neg (by omega)]

/-- The entries of a list that has just grown. -/
theorem entries_grownTo (c : UInt64) (junk : Nat → Kevent) :
    (l.grownTo c junk).entries.length = c.toNat :=
  length_resize ..

/-- The call fills the entry by which the list grows, or adds nothing. -/
theorem Full.add (h : Full l) {a : Add} (hfits : Fits l a) :
    ∃ rc l', a.call l = .ok (rc, l') ∧ Full l' := by
  have hlen := h.len
  unfold Add.call kqReaderAdd
  cases hmode : a.stMode with
  | none => exact ⟨-1, l, rfl, h⟩
  | some isReg =>
      obtain ⟨c, hc, hensure⟩ := h.ensure_eq isReg a.junk
      dsimp only
      rw [hensure]
      by_cases hfull : 10000 ≤ l.capacity.toNat
      · refine ⟨-1, l, ?_, h⟩
        rw [if_pos hfull]
        rfl
      · cases isReg with
        | true => exact absurd (hfits hmode) hfull
        | false =>
            have hone : ((l.grownTo c a.junk).entries.length : Int) = l.len + 1 := by
              rw [entries_grownTo]
              omega
            obtain ⟨t, hset, ht⟩ := setEvents_false hone (show 0 ≤ l.len by omega)
              (show l.len < 10000 by omega) a.fd a.udata
            rw [entries_grownTo] at ht
            refine ⟨0, { l.grownTo c a.junk with ke := .block t, len := l.len + 1 }, ?_, nofun, ht,
              ?_, show c.toNat ≤ 10000 by omega⟩
            · rw [if_neg hfull]
              simp only [bind, Except.bind, ne_eq, not_true_eq_false, if_false, hset]
              rfl
            · show l.len + 1 = c.toNat
              omega

theorem Full.add_fails (h : Full l) {a : Add} (hno : ¬Fits l a) : ∃ e, a.call l = .error e := by
  have hlen := h.len
  unfold Fits at hno
  obtain ⟨hmode, hfull⟩ := Classical.not_imp.mp hno
  obtain ⟨c, hc, hensure⟩ := h.ensure_eq true a.junk
  have hone : ((l.grownTo c a.junk).entries.length : Int) = l.len + 1 := by
    rw [entries_grownTo]
    omega
  obtain ⟨e, he⟩ := setEvents_true hone (show 0 ≤ l.len by omega)
    (show l.len < 10000 by omega) a.fd a.udata
  refine ⟨e, ?_⟩
  unfold Add.call kqReaderAdd
  rw [hmode]
  dsimp only
  rw [hensure, if_neg hfull]
  simp only [bind, Except.bind, ne_eq, not_true_eq_false, if_false, he]

theorem Full.writesInside_iff (h : Full l) (a : Add) : Fits l a ↔ WritesInside l a := by
  constructor
  · intro hfits
    obtain ⟨rc, l', hcall, -⟩ := h.add hfits
    exact ⟨rc, l', hcall⟩
  · rintro ⟨rc, l', hcall⟩
    refine Classical.byContradiction fun hno => ?_
    obtain ⟨e, he⟩ := h.add_fails hno
    rw [he] at hcall
    cases hcall

theorem Full.step {l' : EvList} {a : Add} (h : Full l) (hfits : Fits l a)
    (hs : step l a = some l') : Full l' := by
  obtain ⟨rc, l₁, hcall, h₁⟩ := h.add hfits
  rw [Iorly.step, hcall] at hs
  obtain rfl := Option.some.inj hs
  exact h₁

end

/-- **When the capacity suffices.** A call of `evl_ensure_avail` does what
it is for if and only if the entries by which the list grows are enough.
From the empty list on all events are set within `ke` if and only if no
regular file comes before the list has reached its largest capacity. -/
theorem capacity_suffices_iff {l : EvList} (h : l.Valid) {n : UInt64} (hn : 0 < n.toNat)
    (adds : List Add) :
    (Ensures l n ↔ Suffices l n) ∧
      (Guards step WritesInside .empty adds ↔ Guards step Fits .empty adds) :=
  ⟨ensures_iff h hn,
    (guards_iff_guards (fun _ _ _ hI hc hs => hI.step hc hs)
      (fun _ a hI => hI.writesInside_iff a) full_empty).symm⟩

theorem valid_empty : EvList.empty.Valid :=
  ⟨nofun, rfl, by decide, by decide⟩

def junkEvent : Kevent := readEvent 0 0

/-- A pipe. -/
def pipe : Add := { fd := 3, udata := 0, stMode := some false, junk := fun _ => junkEvent }

def regularFile : Add := { fd := 4, udata := 0, stMode := some true, junk := fun _ => junkEvent }

/-- One event fits in the empty list, and one more after it. -/
theorem capacity_suffices_pipes :
    Ensures .empty 1 ∧ Guards step WritesInside .empty [pipe, pipe] := by
  have hiff : (Ensures .empty 1 ↔ Suffices .empty 1) ∧
      (Guards step WritesInside .empty [pipe, pipe] ↔ Guards step Fits .empty [pipe, pipe]) :=
    capacity_suffices_iff valid_empty (by decide) [pipe, pipe]
  refine ⟨hiff.1.mpr ⟨by decide, .inr (.inr (by decide))⟩, hiff.2.mpr ?_⟩
  exact ⟨nofun, fun _ _ => ⟨nofun, fun _ _ => trivial⟩⟩

/-- Two events do not fit in the empty list, also after it has grown. -/
theorem regular_file_overruns :
    ¬Ensures .empty 2 ∧ ¬Guards step WritesInside .empty [regularFile] := by
  constructor
  · intro h
    have hsuff := (ensures_iff valid_empty (by decide)).mp h
    rcases hsuff.2 with hroom | hmax | hgrown
    · exact absurd hroom (by decide)
    · exact absurd hmax (by decide)
    · exact absurd hgrown (by decide)
  · intro h
    have hfits : Fits .empty regularFile := (full_empty.writesInside_iff regularFile).mpr h.1
    exact absurd (hfits rfl) (by decide)

end MiscTools.Iorly
