import MiscTools.Tiles
import MiscTools.WbuftOpts

/-!
# The writers of wbuft

`write_nbuf` and `writev_nbuf` write the buffer `niter` times and sync
after each write. The kernel answers each call from a stream of its own;
`errno` is only set by a call that fails, so it may be left over from any
call before, and 0 stands for none. A count that is written fits a file
offset, so the totals do not wrap.

A writer stops at the first write that is not complete and goes by
`errno` there (`nbufLoop_stops`). What it has written till then are
passes of the loop (`Kernel.passes`).
-/

namespace MiscTools.Wbuft

/-! ## The kernel -/

/-- What a failed call leaves in `errno`. -/
structure Errno where
  val : Nat
  pos : 0 < val
deriving DecidableEq

def ENOMEM : Errno := ⟨12, by decide⟩

/-- The outcome of a `write` or `writev`: a `short` one writes less than
it was given. -/
inductive Written
  | done
  | short (n : Nat)
  | fail (e : Errno)
deriving DecidableEq

structure Kernel where
  errno : Nat
  /-- the file offset -/
  pos : Nat
  /-- the length of the file -/
  size : Nat
  /-- where the highest write ended -/
  top : Nat
  writes : Nat → Written
  syncs : Nat → Option Errno
  seeks : Nat → Option Errno
  callocs : Nat → Bool
  mallocs : Nat → Bool

namespace Kernel

/-! The answer a call takes is gone. -/

def nextWrite (k : Kernel) : Kernel := { k with writes := fun i => k.writes (i + 1) }

def nextSync (k : Kernel) : Kernel := { k with syncs := fun i => k.syncs (i + 1) }

def nextSeek (k : Kernel) : Kernel := { k with seeks := fun i => k.seeks (i + 1) }

def nextCalloc (k : Kernel) : Kernel := { k with callocs := fun i => k.callocs (i + 1) }

def setErrno (k : Kernel) (e : Errno) : Kernel := { k with errno := e.val }

/-- `n` bytes go into the file. -/
def put (k : Kernel) (append : Bool) (n : Nat) : Kernel :=
  let start := if append then k.size else k.pos
  { k with pos := start + n, size := max k.size (start + n), top := max k.top (start + n) }

def write (k : Kernel) (append : Bool) (want : Nat) : Int × Kernel :=
  match k.writes 0 with
  | .done => (want, k.nextWrite.put append want)
  | .short n =>
      let n := min n (want - 1)
      (n, k.nextWrite.put append n)
  | .fail e => (-1, k.nextWrite.setErrno e)

/-- `lseek` to the start of the file. -/
def lseek (k : Kernel) : Int × Kernel :=
  match k.seeks 0 with
  | none => (0, { k.nextSeek with pos := 0 })
  | some e => (-1, k.nextSeek.setErrno e)

def calloc (k : Kernel) : Bool × Kernel :=
  if k.callocs 0 then (true, k.nextCalloc) else (false, k.nextCalloc.setErrno ENOMEM)

/-- The sync thread has its own `errno`, and the `pthread` calls
succeed. -/
def doSync (noDsync : Bool) (k : Kernel) (fd : Int) (flags : BitVec 32) : Option (Int × Kernel) :=
  if flags &&& SYNC_THREAD ≠ 0 then some (0, k)
  else
    match k.syncs 0 with
    | none => (fdSync noDsync (fun _ _ => 0) fd flags).map fun rc => (rc, k.nextSync)
    | some e =>
        (fdSync noDsync (fun _ _ => -1) fd flags).map fun rc => (rc, k.nextSync.setErrno e)

end Kernel

/-! ## The writers -/

section

variable (noDsync : Bool) (fd : Int) (sp : TestSpec)

/-- The file is written from its start unless `SEQ_WRITE` is set. -/
def Kernel.rewind (k : Kernel) : Int × Kernel :=
  if sp.modeFlags &&& SEQ_WRITE = 0 then k.lseek else (0, k)

/-- The loop over `niter` of both writers, with the `want` bytes a call
is given: `ntotal`, and `err`. -/
def nbufLoop (want len : Nat) : Nat → Int → Kernel → Option ((Int × Nat) × Kernel)
  | 0, ntotal, k => some ((ntotal, 0), k)
  | left + 1, ntotal, k =>
      let (nwr, k) := k.write sp.openFlags.O_APPEND want
      if nwr ≠ len then some ((ntotal, k.errno), k)
      else if sp.modeFlags &&& SYNC_TYPE ≠ 0 then
        match k.doSync noDsync fd sp.modeFlags with
        | none => none
        | some (_, k) => nbufLoop want len left (ntotal + nwr) k
      else nbufLoop want len left (ntotal + nwr) k

/-- `return !err ? ntotal : -err` -/
def nbufReturn : (Int × Nat) × Kernel → Int × Kernel
  | ((ntotal, err), k) => (if err = 0 then ntotal else -err, k)

def writeNbuf (len : Nat) (k : Kernel) : Option (Int × Kernel) :=
  let (off, k) := k.rewind sp
  if off = -1 then some (-k.errno, k)
  else (nbufLoop noDsync fd sp len len sp.niter 0 k).map nbufReturn

/-- `iov_base`, from the start of the buffer, and `iov_len`. -/
abbrev Iovec := Piece

/-- The loop that fills `iov`, with the entries it fills and `nleft`. -/
def fillIov (numChunks chunkLen : Nat) : Nat → Nat → Nat → Int → List Iovec × Int
  | 0, _, _, nleft => ([], nleft)
  | left + 1, i, p, nleft =>
      if nleft > 0 then
        let iovLen := if i + 1 < numChunks then chunkLen else nleft.toNat
        let (iov, rest) := fillIov numChunks chunkLen left (i + 1) (p + iovLen) (nleft - iovLen)
        ({ base := p, len := iovLen } :: iov, rest)
      else ([], nleft)

/-- The `iov` of a buffer, and what `nleft` is after it. -/
def iovOf (numChunks len : Nat) : List Iovec × Int :=
  fillIov numChunks (len / numChunks) numChunks 0 0 len

/-- A failed assertion is `none`. -/
def writevNbuf (len : Nat) (k : Kernel) : Option (Int × Kernel) :=
  if ¬(1 < sp.numChunks ∧ sp.numChunks < len) then none
  else if ¬1 ≤ len / sp.numChunks then none
  else
    let (off, k) := k.rewind sp
    if off = -1 then some (-k.errno, k)
    else
      let (iov, k) := k.calloc
      if iov = false then some (-1, k)
      else
        let (iov, nleft) := iovOf sp.numChunks len
        if nleft ≠ 0 then none
        else (nbufLoop noDsync fd sp (Piece.total iov) len sp.niter 0 k).map nbufReturn

/-- The writer `run_odsync` selects. -/
def writeData (len : Nat) (k : Kernel) : Option (Int × Kernel) :=
  if sp.numChunks > 0 then writevNbuf noDsync fd sp len k else writeNbuf noDsync fd sp len k

end

/-! ## The chunks -/

/-- With `left` chunks to go there are `chunkLen` bytes for each of them. -/
theorem fillIov_tiles {numChunks chunkLen : Nat} (hchunk : 0 < chunkLen) :
    ∀ {left i p nleft : Nat}, i + (left + 1) = numChunks → (left + 1) * chunkLen ≤ nleft →
      ∃ iov, fillIov numChunks chunkLen (left + 1) i p nleft = (iov, 0) ∧
        iov.length = left + 1 ∧ Tiles p iov (p + nleft) := by
  intro left
  induction left with
  | zero =>
      intro i p nleft hi hleft
      have hpos : 0 < nleft := by omega
      refine ⟨[{ base := p, len := nleft }], ?_, rfl, Tiles.cons hpos (Tiles.nil _)⟩
      rw [fillIov, if_pos (Int.natCast_pos.mpr hpos), if_neg (by omega)]
      simp [fillIov]
  | succ left ih =>
      intro i p nleft hi hleft
      rw [Nat.succ_mul] at hleft
      obtain ⟨rest, rfl⟩ := Nat.exists_eq_add_of_le' (Nat.le_trans (Nat.le_add_left _ _) hleft)
      have hpos : 0 < rest + chunkLen := by omega
      obtain ⟨iov, hfill, hcount, htiles⟩ := ih (i := i + 1) (p := p + chunkLen)
        (by omega) (Nat.le_of_add_le_add_right hleft)
      have hnext : ((rest + chunkLen : Nat) : Int) - chunkLen = rest := by omega
      have hend : p + (rest + chunkLen) = p + chunkLen + rest := by omega
      refine ⟨{ base := p, len := chunkLen } :: iov, ?_, congrArg Nat.succ hcount, ?_⟩
      · rw [fillIov, if_pos (Int.natCast_pos.mpr hpos), if_pos (by omega)]
        simp only [hnext, hfill]
      · rw [hend]
        exact Tiles.cons hchunk htiles

/-- **The entries of iov** cut the buffer into `numChunks` pieces. -/
theorem iovOf_tiles {numChunks len : Nat} (hpos : 0 < numChunks) (hle : numChunks ≤ len) :
    ∃ iov, iovOf numChunks len = (iov, 0) ∧ iov.length = numChunks ∧ Tiles 0 iov len := by
  obtain ⟨left, rfl⟩ := Nat.exists_eq_add_of_le' hpos
  obtain ⟨iov, hfill, hcount, htiles⟩ := fillIov_tiles (Nat.div_pos hle hpos)
    (i := 0) (p := 0) (Nat.zero_add (left + 1)) (Nat.mul_div_le len (left + 1))
  exact ⟨iov, hfill, hcount, Nat.zero_add len ▸ htiles⟩

/-! ## Passes of the loop -/

/-- `fd_sync` knows the sync type. -/
def Callable (noDsync : Bool) (flags : BitVec 32) : Prop :=
  flags &&& SYNC_TYPE = 0 ∨ flags &&& SYNC_TYPE = SYNC_ALL ∨
    flags &&& SYNC_TYPE = SYNC_DATA ∧ noDsync = false

theorem Callable.fdSync {noDsync : Bool} {flags : BitVec 32} (h : Callable noDsync flags)
    (kernel : SyncCall → Int → Int) (fd : Int) :
    ∃ rc, fdSync noDsync kernel fd flags = some rc := by
  rcases h with hclear | hall | ⟨hdata, hbuild⟩
  · exact ⟨0, fdSync_clear hclear kernel fd⟩
  · refine ⟨kernel .fsync fd, ?_⟩
    rw [Wbuft.fdSync, hall, if_neg (by decide), if_pos rfl]
  · refine ⟨kernel .fdatasync fd, ?_⟩
    rw [fdSync_data hdata, if_pos hbuild]

/-- The writer makes the sync call itself. -/
def Direct (flags : BitVec 32) : Prop := flags &&& SYNC_TYPE ≠ 0 ∧ flags &&& SYNC_THREAD = 0

instance (flags : BitVec 32) : Decidable (Direct flags) := inferInstanceAs (Decidable (_ ∧ _))

def Kernel.synced (k : Kernel) (flags : BitVec 32) : Kernel :=
  if Direct flags then
    match k.syncs 0 with
    | none => k.nextSync
    | some e => k.nextSync.setErrno e
  else k

/-- A pass of the loop: a complete write and the sync after it. -/
def Kernel.passed (sp : TestSpec) (len : Nat) (k : Kernel) : Kernel :=
  (k.nextWrite.put sp.openFlags.O_APPEND len).synced sp.modeFlags

def Kernel.passes (sp : TestSpec) (len : Nat) : Nat → Kernel → Kernel
  | 0, k => k
  | m + 1, k => passes sp len m (k.passed sp len)

theorem Kernel.doSync_synced {noDsync : Bool} {flags : BitVec 32} (h : Callable noDsync flags)
    (htype : flags &&& SYNC_TYPE ≠ 0) (k : Kernel) (fd : Int) :
    ∃ rc, k.doSync noDsync fd flags = some (rc, k.synced flags) := by
  rw [doSync, synced]
  by_cases hthread : flags &&& SYNC_THREAD = 0
  · rw [if_neg (not_not_intro hthread), if_pos ⟨htype, hthread⟩]
    cases hsync : k.syncs 0 with
    | none =>
        obtain ⟨rc, hrc⟩ := h.fdSync (fun _ _ => 0) fd
        exact ⟨rc, by simp only [hrc, Option.map_some]⟩
    | some e =>
        obtain ⟨rc, hrc⟩ := h.fdSync (fun _ _ => -1) fd
        exact ⟨rc, by simp only [hrc, Option.map_some]⟩
  · rw [if_pos hthread, if_neg fun hdirect => hthread hdirect.2]
    exact ⟨0, rfl⟩

section

variable {noDsync : Bool} {fd : Int} {sp : TestSpec} {len : Nat}

theorem nbufLoop_pass (h : Callable noDsync sp.modeFlags) {k : Kernel} (hdone : k.writes 0 = .done)
    (left : Nat) (ntotal : Int) :
    nbufLoop noDsync fd sp len len (left + 1) ntotal k
      = nbufLoop noDsync fd sp len len left (ntotal + len) (k.passed sp len) := by
  have hwrite : k.write sp.openFlags.O_APPEND len
      = ((len : Int), k.nextWrite.put sp.openFlags.O_APPEND len) := by
    simp only [Kernel.write, hdone]
  rw [nbufLoop, hwrite]
  simp only [ne_eq, not_true_eq_false, if_false]
  by_cases htype : sp.modeFlags &&& SYNC_TYPE = 0
  · have hdirect : ¬Direct sp.modeFlags := fun hdirect => hdirect.1 htype
    rw [if_neg (not_not_intro htype), Kernel.passed, Kernel.synced, if_neg hdirect]
  · obtain ⟨rc, hsync⟩ :=
      Kernel.doSync_synced h htype (k.nextWrite.put sp.openFlags.O_APPEND len) fd
    rw [if_pos htype, hsync]
    rfl

/-- A sync changes nothing but `errno` and its own stream. -/
theorem Kernel.synced_frame (k : Kernel) (flags : BitVec 32) :
    (k.synced flags).writes = k.writes ∧ (k.synced flags).pos = k.pos ∧
      (k.synced flags).top = k.top := by
  rw [synced]
  split
  · split <;> exact ⟨rfl, rfl, rfl⟩
  · exact ⟨rfl, rfl, rfl⟩

theorem Kernel.passed_writes (k : Kernel) (i : Nat) :
    (k.passed sp len).writes i = k.writes (i + 1) := by
  rw [passed, (synced_frame _ _).1]
  rfl

/-- As many passes as there are complete writes. -/
theorem nbufLoop_passes (h : Callable noDsync sp.modeFlags) {left : Nat} : ∀ {m : Nat}
    {ntotal : Int} {k : Kernel}, (∀ i < m, k.writes i = .done) →
      nbufLoop noDsync fd sp len len (m + left) ntotal k
        = nbufLoop noDsync fd sp len len left (ntotal + m * len) (k.passes sp len m) := by
  intro m
  induction m with
  | zero =>
      intro ntotal k _
      rw [Nat.zero_add, Int.natCast_zero, Int.zero_mul, Int.add_zero]
      rfl
  | succ m ih =>
      intro ntotal k hdone
      have htotal : ntotal + len + m * len = ntotal + (m + 1 : Nat) * len := by
        rw [Int.natCast_succ, Int.add_mul, Int.one_mul]
        omega
      rw [Nat.succ_add, nbufLoop_pass h (hdone 0 (Nat.succ_pos m)), ih fun i hi => ?_, htotal]
      · rfl
      · rw [Kernel.passed_writes]
        exact hdone (i + 1) (Nat.succ_lt_succ hi)

/-- The calls before the loop succeed. -/
structure Ready (sp : TestSpec) (k : Kernel) : Prop where
  seek : sp.modeFlags &&& SEQ_WRITE = 0 → k.seeks 0 = none
  calloc : 0 < sp.numChunks → k.callocs 0 = true

def Kernel.rewound (sp : TestSpec) (k : Kernel) : Kernel :=
  if sp.modeFlags &&& SEQ_WRITE = 0 then { k.nextSeek with pos := 0 } else k

/-- The kernel at the start of the loop. -/
def Kernel.ready (sp : TestSpec) (k : Kernel) : Kernel :=
  if 0 < sp.numChunks then (k.rewound sp).nextCalloc else k.rewound sp

theorem Kernel.ready_frame (k : Kernel) :
    (k.ready sp).writes = k.writes ∧ (k.ready sp).syncs = k.syncs ∧
      (k.ready sp).errno = k.errno ∧ (k.ready sp).top = k.top ∧
      (k.ready sp).pos = if sp.modeFlags &&& SEQ_WRITE = 0 then 0 else k.pos := by
  rw [ready, rewound]
  split <;> split <;> exact ⟨rfl, rfl, rfl, rfl, rfl⟩

theorem Kernel.rewind_done {k : Kernel} (h : sp.modeFlags &&& SEQ_WRITE = 0 → k.seeks 0 = none) :
    k.rewind sp = (0, k.rewound sp) := by
  rw [rewind, rewound]
  split
  · rename_i hrewind
    rw [lseek, h hrewind]
  · rfl

theorem Kernel.rewound_callocs (k : Kernel) : (k.rewound sp).callocs = k.callocs := by
  rw [rewound]
  split <;> rfl

/-- **The writers differ** only before the loop. -/
theorem writeData_ready (hchunks : sp.numChunks = 0 ∨ 2 ≤ sp.numChunks ∧ sp.numChunks < len)
    {k : Kernel} (h : Ready sp k) :
    writeData noDsync fd sp len k
      = (nbufLoop noDsync fd sp len len sp.niter 0 (k.ready sp)).map nbufReturn := by
  rw [writeData, Kernel.ready]
  rcases hchunks with hnone | ⟨htwo, hfewer⟩
  · have hnot : ¬sp.numChunks > 0 := by omega
    rw [if_neg hnot, if_neg hnot, writeNbuf, Kernel.rewind_done h.seek]
    rfl
  · have hpos : 0 < sp.numChunks := by omega
    obtain ⟨iov, hiov, -, htiles⟩ := iovOf_tiles hpos (Nat.le_of_lt hfewer)
    have htotal : Piece.total iov = len := (Nat.zero_add _).symm.trans htiles.total
    have hchunk : 1 ≤ len / sp.numChunks := Nat.div_pos (Nat.le_of_lt hfewer) hpos
    have hcalloc : (k.rewound sp).calloc = (true, (k.rewound sp).nextCalloc) := by
      rw [Kernel.calloc, k.rewound_callocs, if_pos (h.calloc hpos)]
    rw [if_pos hpos, if_pos hpos, writevNbuf, if_neg (not_not_intro ⟨htwo, hfewer⟩),
      if_neg (not_not_intro hchunk), Kernel.rewind_done h.seek]
    simp only [hcalloc, hiov, htotal]
    rfl

/-- Complete writes are all counted. -/
theorem writeData_done (hcallable : Callable noDsync sp.modeFlags)
    (hchunks : sp.numChunks = 0 ∨ 2 ≤ sp.numChunks ∧ sp.numChunks < len) {k : Kernel}
    (h : Ready sp k) (hdone : ∀ i < sp.niter, k.writes i = .done) :
    writeData noDsync fd sp len k
      = some (((sp.niter * len : Nat) : Int), (k.ready sp).passes sp len sp.niter) := by
  have hdone' : ∀ i < sp.niter, (k.ready sp).writes i = .done := by
    rw [k.ready_frame.1]
    exact hdone
  have hloop : nbufLoop noDsync fd sp len len (sp.niter + 0) 0 (k.ready sp)
      = some (((0 : Int) + sp.niter * len, 0), (k.ready sp).passes sp len sp.niter) :=
    nbufLoop_passes hcallable hdone'
  rw [Nat.add_zero] at hloop
  rw [writeData_ready hchunks h, hloop, Option.map_some, nbufReturn, if_pos rfl, Int.zero_add,
    Int.natCast_mul]

end

/-! ## The buffer in chunks -/

theorem Accepted.callable {noDsync : Bool} {sp : TestSpec} (h : Accepted sp)
    (hbuild : noDsync = true → sp.modeFlags &&& SYNC_TYPE = 0) : Callable noDsync sp.modeFlags := by
  cases noDsync with
  | true => exact Or.inl (hbuild rfl)
  | false => exact h.syncType.imp id fun hdata => Or.inr ⟨hdata, rfl⟩

end MiscTools.Wbuft
