import MiscTools.FdioTransfer

/-!
# Sending a file

`bsd_nsendfile`, the branch of `fdio.c` for FreeBSD. Its kernel reports
in `sbytes` how many bytes a call of `sendfile` sent, whether the call
failed or not, and leaves the position of `in_fd` alone. A `Sent` is one
such answer. The answers to the two calls of `lseek` are arguments of
the function, and `calls` records where each call started and what it
sent.

Whatever the answers, the bytes go out in order and each call starts
where the one before it ended (`SendInv`). What the caller is told is
another matter: the value returned is what the last call sent, and
`*offset` is moved by the last call twice where the loop ends with it.
`bsd_accounts_iff` says when nothing is lost by that.

At the end of the file a call sends nothing and does not fail, and the
loop makes it again. So the loop ends on a file that is long enough, and
on no other (`bsd_ends_iff`).
-/

namespace MiscTools

namespace Fdio

namespace Bsd

/-! ## bsd_nsendfile -/

/-- The error if the call returns `-1`, and `*sbytes`. -/
structure Sent where
  err : Option Errno
  sbytes : Nat
deriving DecidableEq

/-- A call that was made: the offset it was given, and the answer. -/
structure Chunk where
  start : Int
  answer : Sent
deriving DecidableEq

/-- The result, `*sbytes`, and the kernel after. -/
def sendfile (k : Kernel) (offset : Int) (nbytes : Nat) (a : Sent) :
    Option (Int × Nat × Kernel) :=
  let bytes := k.file.drop offset.toNat
  if a.sbytes ≤ nbytes ∧ a.sbytes ≤ bytes.length then
    let k := { k with output := k.output ++ bytes.take a.sbytes }
    match a.err with
    | none => some (0, a.sbytes, k)
    | some e => some (-1, a.sbytes, { k with errno := some e })
  else none

/-- `lseek(in_fd, pos, SEEK_SET)` -/
def seekSet (k : Kernel) (pos : Int) : Option Errno → Int × Kernel
  | none => (pos, { k with pos := pos.toNat })
  | some e => (-1, { k with errno := some e })

structure Sending where
  kernel : Kernel
  eoffset : Int
  sbytes : Nat
  total : Nat
  err : Option Errno
  broken : Bool
  calls : List Chunk

structure BsdRet where
  ret : Int
  offset : Option Int
  kernel : Kernel
  calls : List Chunk
deriving DecidableEq

/-- What comes after the loop. Without an offset `pos` is where `eoffset`
points to, with one it is 0. -/
def Sending.finish (s : Sending) (offset : Option Int) (startPos : Int) (set : Option Errno) :
    BsdRet :=
  let (pos, k) :=
    if offset = none ∧ s.total > 0 then seekSet s.kernel (startPos + s.total) set
    else (if offset = none then s.eoffset else 0, s.kernel)
  let err := if pos = -1 ∧ s.err = none then k.errno else s.err
  let k := if pos = -1 then k.perror "lseek [set]" else k
  { ret := s.sbytes
    offset := offset.map fun _ => s.eoffset + s.sbytes
    kernel := k.setErrno err
    calls := s.calls }

def bsdLoop (offset : Option Int) (startPos : Int) (count : Nat) (flags : UInt32)
    (set : Option Errno) : Loop Sending Sent BsdRet where
  exit s :=
    if s.broken ∨ ¬count > s.total then some (s.finish offset startPos set)
    else none
  turn s a := do
    let (rc, sbytes, k) ← sendfile s.kernel s.eoffset (count - s.total) a
    let s := { s with
      kernel := k, sbytes := sbytes, calls := s.calls ++ [Chunk.mk s.eoffset a] }
    if rc = -1 then
      let err := k.errno
      if some .EINTR = err then
        let k := if flags &&& fdioQuietEintr = 0 then k.perror "sendfile" else k
        return { s with
          kernel := { k with errno := none }, err := none
          total := s.total + sbytes, eoffset := s.eoffset + sbytes }
      else if quietEagain flags err ∨ quietEpipe flags err then
        return { s with err := err, broken := true }
      else
        return { s with kernel := k.perror "sendfile", err := err, broken := true }
    else
      return { s with total := s.total + sbytes, eoffset := s.eoffset + sbytes }

def EINVAL : Errno := .other 22

/-- `cur` and `set` are the errors of `lseek(in_fd, 0, SEEK_CUR)` and of
the call that sets the position. The answers that were not taken come
back. -/
def bsdNsendfile (offset : Option Int) (count : Nat) (flags : UInt32) (cur set : Option Errno)
    (k : Kernel) (answers : List Sent) : Option BsdRet × List Sent :=
  match (if offset = none then cur else none) with
  | some e =>
      let k := { k with errno := some e }
      (some ⟨-1, none, k.perror "lseek [current]", []⟩, answers)
  | none =>
      let startPos := offset.getD k.pos
      if startPos < 0 then
        (some ⟨-1, offset, { k with errno := some EINVAL }, []⟩, answers)
      else
        let (r, _, rest) := (bsdLoop offset startPos count flags set).drive
          ⟨k, startPos, 0, 0, none, false, []⟩ answers
        (r, rest)

/-! ## One turn -/

/-- A failure that ends the loop. -/
def Sent.breaks (a : Sent) : Bool :=
  match a.err with
  | none => false
  | some e => e ≠ .EINTR

section

variable {offset : Option Int} {startPos : Int} {count : Nat} {flags : UInt32}
  {set : Option Errno} {s s' : Sending} {a : Sent}

/-- The loop goes on while bytes are missing and no call has failed. -/
theorem bsdLoop_going (h : (bsdLoop offset startPos count flags set).exit s = none) :
    s.total < count ∧ s.broken = false := by
  simp only [bsdLoop] at h
  split at h
  · cases h
  · rename_i hgo
    rw [not_or, Decidable.not_not] at hgo
    exact ⟨hgo.2, Bool.not_eq_true _ ▸ hgo.1⟩

theorem bsdLoop_left {r : BsdRet} (h : (bsdLoop offset startPos count flags set).exit s = some r) :
    (s.broken = true ∨ count ≤ s.total) ∧ r = s.finish offset startPos set := by
  simp only [bsdLoop] at h
  split at h
  · rename_i hleft
    cases h
    exact ⟨hleft.imp_right Nat.le_of_not_lt, rfl⟩
  · cases h

/-- What a turn does with an answer that fits. -/
structure Turned (s : Sending) (a : Sent) (s' : Sending) : Prop where
  fits : a.sbytes ≤ s.kernel.file.length - s.eoffset.toNat
  file : s'.kernel.file = s.kernel.file
  pos : s'.kernel.pos = s.kernel.pos
  output : s'.kernel.output
    = s.kernel.output ++ (s.kernel.file.drop s.eoffset.toNat).take a.sbytes
  calls : s'.calls = s.calls ++ [⟨s.eoffset, a⟩]
  sbytes : s'.sbytes = a.sbytes
  broken : s'.broken = a.breaks
  total : s'.total = s.total + if a.breaks then 0 else a.sbytes
  eoffset : s'.eoffset = s.eoffset + if a.breaks then 0 else (a.sbytes : Int)

theorem bsd_turn (hbroken : s.broken = false)
    (h : (bsdLoop offset startPos count flags set).turn s a = some s') : Turned s a s' := by
  obtain ⟨err, sbytes⟩ := a
  simp only [bsdLoop, sendfile] at h
  by_cases hfits : sbytes ≤ count - s.total
      ∧ sbytes ≤ (s.kernel.file.drop s.eoffset.toNat).length
  swap
  · rw [if_neg hfits] at h
    cases h
  have hle := hfits.2
  rw [List.length_drop] at hle
  rw [if_pos hfits] at h
  cases err with
  | none =>
      cases h
      exact ⟨hle, rfl, rfl, rfl, rfl, rfl, hbroken, rfl, rfl⟩
  | some e =>
      by_cases he : e = .EINTR
      · subst he
        simp only [Option.bind_eq_bind, Option.bind_some, if_pos, Option.pure_def] at h
        cases h
        refine ⟨hle, ?_, ?_, ?_, rfl, rfl, hbroken, rfl, rfl⟩
        · show Kernel.file (if _ then _ else _) = _
          split <;> rfl
        · show Kernel.pos (if _ then _ else _) = _
          split <;> rfl
        · show Kernel.output (if _ then _ else _) = _
          split <;> rfl
      · have hbreaks : Sent.breaks ⟨some e, sbytes⟩ = true := decide_eq_true he
        have hne : ¬some Errno.EINTR = some e := fun heq => he (Option.some.inj heq).symm
        simp only [Option.bind_eq_bind, Option.bind_some, if_pos, if_neg hne,
          Option.pure_def] at h
        split at h
        · cases h
          exact ⟨hle, rfl, rfl, rfl, rfl, rfl, hbreaks.symm, by rw [hbreaks]; rfl,
            by rw [hbreaks]; exact (Int.add_zero _).symm⟩
        · cases h
          exact ⟨hle, rfl, rfl, rfl, rfl, rfl, hbreaks.symm, by rw [hbreaks]; rfl,
            by rw [hbreaks]; exact (Int.add_zero _).symm⟩

end

/-! ## Where the loop stands -/

/-- The bytes sent over all calls. -/
def bytesOf (answers : List Sent) : Nat := answers.foldr (fun a n => a.sbytes + n) 0

@[simp] theorem bytesOf_nil : bytesOf [] = 0 := rfl

@[simp] theorem bytesOf_cons (a : Sent) (answers : List Sent) :
    bytesOf (a :: answers) = a.sbytes + bytesOf answers := rfl

@[simp] theorem bytesOf_append (answers answers' : List Sent) :
    bytesOf (answers ++ answers') = bytesOf answers + bytesOf answers' := by
  induction answers with
  | nil => exact (Nat.zero_add _).symm
  | cons a answers ih => rw [List.cons_append, bytesOf_cons, bytesOf_cons, ih, Nat.add_assoc]

theorem bytesOf_eq_zero {answers : List Sent} :
    bytesOf answers = 0 ↔ ∀ a ∈ answers, a.sbytes = 0 := by
  induction answers with
  | nil => simp
  | cons a answers ih => rw [bytesOf_cons, Nat.add_eq_zero_iff, ih, List.forall_mem_cons]

/-- Each call starts where the one before it ended. -/
def Contiguous : Int → List Chunk → Prop
  | _, [] => True
  | start, c :: calls => c.start = start ∧ Contiguous (start + c.answer.sbytes) calls

theorem contiguous_snoc {a : Sent} : ∀ {calls : List Chunk} {start stop : Int},
    Contiguous start calls → stop = start + bytesOf (calls.map Chunk.answer) →
    Contiguous start (calls ++ [⟨stop, a⟩])
  | [], start, _, _, hstop => ⟨hstop.trans (Int.add_zero start), trivial⟩
  | c :: calls, start, stop, h, hstop => by
      refine ⟨h.1, contiguous_snoc h.2 ?_⟩
      rw [hstop, List.map_cons, bytesOf_cons]
      omega

/-- Where the loop stands that began at `start` with kernel `k`. -/
structure SendInv (k : Kernel) (start : Int) (count : Nat) (used : List Sent) (s : Sending) :
    Prop where
  file : s.kernel.file = k.file
  pos : s.kernel.pos = k.pos
  calls : s.calls.map Chunk.answer = used
  contiguous : Contiguous start s.calls
  eoffset : s.eoffset = start + s.total
  sent : s.total + (if s.broken then s.sbytes else 0) = bytesOf used
  within : bytesOf used ≤ k.file.length - start.toNat
  output : s.kernel.output = k.output ++ (k.file.drop start.toNat).take (bytesOf used)
  last : used = [] ∧ s.sbytes = 0 ∧ s.broken = false
    ∨ ∃ init a, used = init ++ [a] ∧ s.sbytes = a.sbytes ∧ s.broken = a.breaks ∧ 0 < count

section

variable {offset : Option Int} {start startPos : Int} {count : Nat} {flags : UInt32}
  {cur set : Option Errno} {k : Kernel} {used : List Sent} {s s' : Sending} {a : Sent}

theorem SendInv.turn (hstart : 0 ≤ start) (hI : SendInv k start count used s)
    (hexit : (bsdLoop offset startPos count flags set).exit s = none)
    (h : (bsdLoop offset startPos count flags set).turn s a = some s') :
    SendInv k start count (used ++ [a]) s' := by
  obtain ⟨hlt, hgo⟩ := bsdLoop_going hexit
  have hturn := bsd_turn hgo h
  have hsent : s.total = bytesOf used := by
    have hsent := hI.sent
    rwa [hgo] at hsent
  have heoff : s.eoffset = start + bytesOf used := hsent ▸ hI.eoffset
  have hnat : s.eoffset.toNat = start.toNat + bytesOf used := by omega
  have hbytes : bytesOf (used ++ [a]) = bytesOf used + a.sbytes := by simp
  refine ⟨hturn.file.trans hI.file, hturn.pos.trans hI.pos, ?_, ?_, ?_, ?_, ?_, ?_, ?_⟩
  · rw [hturn.calls, List.map_append, hI.calls]
    rfl
  · rw [hturn.calls]
    exact contiguous_snoc hI.contiguous (by rw [hI.calls, heoff])
  · rw [hturn.eoffset, hturn.total, hI.eoffset]
    split <;> omega
  · rw [hturn.total, hturn.broken, hturn.sbytes, hbytes]
    split <;> omega
  · have hfits := hturn.fits
    have hwithin := hI.within
    rw [hI.file, hnat] at hfits
    omega
  · rw [hturn.output, hI.output, hI.file, hbytes, hnat, List.append_assoc, ← List.drop_drop,
      List.take_add]
  · exact Or.inr ⟨used, a, rfl, hturn.sbytes, hturn.broken, Nat.zero_lt_of_lt hlt⟩

theorem bsdNsendfile_refused {e : Errno} (hcur : (if offset = none then cur else none) = some e)
    (answers : List Sent) :
    bsdNsendfile offset count flags cur set k answers
      = (some ⟨-1, none, Kernel.perror { k with errno := some e } "lseek [current]", []⟩,
          answers) := by
  simp only [bsdNsendfile, hcur]

theorem bsdNsendfile_invalid (hcur : (if offset = none then cur else none) = none)
    (hstart : offset.getD k.pos < 0) (answers : List Sent) :
    bsdNsendfile offset count flags cur set k answers
      = (some ⟨-1, offset, { k with errno := some EINVAL }, []⟩, answers) := by
  simp only [bsdNsendfile, hcur]
  rw [if_pos hstart]

theorem bsdNsendfile_loop (hcur : (if offset = none then cur else none) = none)
    (hstart : 0 ≤ offset.getD k.pos) (answers : List Sent) :
    bsdNsendfile offset count flags cur set k answers
      = (((bsdLoop offset (offset.getD k.pos) count flags set).drive
            ⟨k, offset.getD k.pos, 0, 0, none, false, []⟩ answers).1,
          ((bsdLoop offset (offset.getD k.pos) count flags set).drive
            ⟨k, offset.getD k.pos, 0, 0, none, false, []⟩ answers).2.2) := by
  simp only [bsdNsendfile, hcur]
  rw [if_neg (Int.not_lt.mpr hstart)]

/-- The state the loop is left in, where it is reached. -/
theorem bsd_loop_spec {r : BsdRet} {answers rest : List Sent}
    (hcur : (if offset = none then cur else none) = none) (hstart : 0 ≤ offset.getD k.pos)
    (h : bsdNsendfile offset count flags cur set k answers = (some r, rest)) :
    ∃ used s, answers = used ++ rest ∧ SendInv k (offset.getD k.pos) count used s
      ∧ (s.broken = true ∨ count ≤ s.total) ∧ r = s.finish offset (offset.getD k.pos) set := by
  rw [bsdNsendfile_loop hcur hstart] at h
  have hinit : SendInv k (offset.getD k.pos) count []
      ⟨k, offset.getD k.pos, 0, 0, none, false, []⟩ :=
    ⟨rfl, rfl, rfl, trivial, (Int.add_zero _).symm, rfl, Nat.zero_le _,
      (List.append_nil _).symm, Or.inl ⟨rfl, rfl, rfl⟩⟩
  rcases hdrive : (bsdLoop offset (offset.getD k.pos) count flags set).drive
    ⟨k, offset.getD k.pos, 0, 0, none, false, []⟩ answers with ⟨v, s, rest'⟩
  rw [hdrive] at h
  cases h
  obtain ⟨used, hsplit, hI, hexit⟩ := Loop.drive_invariant
    (fun hI hexit h => SendInv.turn hstart hI hexit h) hinit hdrive
  obtain ⟨hleft, hfinish⟩ := bsdLoop_left hexit.symm
  exact ⟨used, s, hsplit, hI, hleft, hfinish⟩

/-- A call that made no call of `sendfile`, or the state its loop was
left in. -/
theorem bsd_spec {r : BsdRet} {answers rest : List Sent}
    (h : bsdNsendfile offset count flags cur set k answers = (some r, rest)) :
    (rest = answers ∧ r.ret = -1 ∧ r.offset = offset ∧ r.kernel.pos = k.pos ∧ r.calls = [])
      ∨ ∃ used s, answers = used ++ rest ∧ SendInv k (offset.getD k.pos) count used s
        ∧ (s.broken = true ∨ count ≤ s.total) ∧ r = s.finish offset (offset.getD k.pos) set := by
  cases hcur : (if offset = none then cur else none) with
  | some e =>
      rw [bsdNsendfile_refused hcur] at h
      cases h
      have hnone : offset = none := by
        by_contra hsome
        rw [if_neg hsome] at hcur
        cases hcur
      exact Or.inl ⟨rfl, rfl, hnone.symm, rfl, rfl⟩
  | none =>
      by_cases hstart : offset.getD k.pos < 0
      · rw [bsdNsendfile_invalid hcur hstart] at h
        cases h
        exact Or.inl ⟨rfl, rfl, rfl, rfl, rfl⟩
      · exact Or.inr (bsd_loop_spec hcur (Int.not_lt.mp hstart) h)

end

/-! ## What the caller is told -/

/-- `*offset`, or the position of `in_fd`, has moved by `n`. -/
def Advanced (offset : Option Int) (k : Kernel) (n : Nat) (r : BsdRet) : Prop :=
  match offset with
  | some o => r.offset = some (o + n)
  | none => (r.kernel.pos : Int) = k.pos + n

/-- The bytes of all calls are returned, or `-1` if there are none, and
the offset has moved past them. -/
structure Accounts (offset : Option Int) (k : Kernel) (answers : List Sent) (r : BsdRet) :
    Prop where
  calls : r.calls.map Chunk.answer = answers
  contiguous : Contiguous (offset.getD k.pos) r.calls
  ret : r.ret = bytesOf answers ∨ r.ret = -1 ∧ bytesOf answers = 0
  advanced : Advanced offset k (bytesOf answers) r

/-- With an offset the last call fails for good. Without one it fails
with nothing sent, or it does not fail and the position can be set. -/
def LastFits (offset : Option Int) (set : Option Errno) (last : Sent) : Prop :=
  match offset with
  | some _ => last.breaks = true
  | none => if last.breaks then last.sbytes = 0 else set = none

/-- No call is made, or no call but the last sends anything. -/
def LastAlone (offset : Option Int) (set : Option Errno) (answers : List Sent) : Prop :=
  answers = [] ∨ ∃ init last, answers = init ++ [last] ∧ (∀ a ∈ init, a.sbytes = 0)
    ∧ LastFits offset set last

section

variable {offset : Option Int} {count : Nat} {k : Kernel} {used : List Sent} {s : Sending}
  {set : Option Errno} {startPos : Int}

@[simp] theorem finish_ret : (s.finish offset startPos set).ret = s.sbytes := rfl

@[simp] theorem finish_calls : (s.finish offset startPos set).calls = s.calls := rfl

@[simp] theorem finish_offset :
    (s.finish offset startPos set).offset = offset.map fun _ => s.eoffset + s.sbytes := rfl

theorem setErrno_pos (k : Kernel) (err : Option Errno) : (k.setErrno err).pos = k.pos := by
  cases err <;> rfl

/-- The position is set if there is no offset and bytes were counted. -/
theorem finish_pos : (s.finish offset startPos set).kernel.pos
    = if offset = none ∧ s.total > 0 ∧ set = none then (startPos + s.total).toNat
      else s.kernel.pos := by
  have hmute : ∀ (pos : Int) (k : Kernel) (err : Option Errno),
      ((if pos = -1 then k.perror "lseek [set]" else k).setErrno err).pos = k.pos := by
    intro pos k err
    rw [setErrno_pos]
    split <;> rfl
  simp only [Sending.finish]
  rw [hmute]
  by_cases hnone : offset = none ∧ s.total > 0
  · rw [if_pos hnone]
    cases set with
    | none =>
        rw [if_pos ⟨hnone.1, hnone.2, rfl⟩]
        rfl
    | some e =>
        rw [if_neg (by simp)]
        rfl
  · have hset : ¬(offset = none ∧ s.total > 0 ∧ set = none) := fun h => hnone ⟨h.1, h.2.1⟩
    rw [if_neg hnone, if_neg hset]

/-- What was counted is all of it, or all but the last answer. -/
theorem SendInv.counted {start : Int} {init : List Sent} {a : Sent}
    (hI : SendInv k start count (init ++ [a]) s) (hbytes : s.sbytes = a.sbytes)
    (hbroken : s.broken = a.breaks) :
    s.total = bytesOf init + if a.breaks then 0 else a.sbytes := by
  have hsent := hI.sent
  rw [bytesOf_append, bytesOf_cons, bytesOf_nil, hbytes, hbroken] at hsent
  cases hbr : a.breaks with
  | false =>
      rw [hbr] at hsent
      simpa using hsent
  | true =>
      rw [hbr] at hsent
      simpa using hsent

/-- The loop was left behind `init ++ [a]`, and nothing was sent before
`a`. -/
theorem finish_advanced {init : List Sent} {a : Sent}
    (hI : SendInv k (offset.getD k.pos) count (init ++ [a]) s) (hbytes : s.sbytes = a.sbytes)
    (hbroken : s.broken = a.breaks) (hcount : 0 < count)
    (hleft : s.broken = true ∨ count ≤ s.total) (hzero : bytesOf init = 0) :
    Advanced offset k (bytesOf (init ++ [a])) (s.finish offset (offset.getD k.pos) set)
      ↔ LastFits offset set a := by
  have htotal := hI.counted hbytes hbroken
  have heoff := hI.eoffset
  have hall : bytesOf (init ++ [a]) = a.sbytes := by simp [hzero]
  rw [hzero, Nat.zero_add] at htotal
  rw [hbroken] at hleft
  rw [hall]
  cases offset with
  | some o =>
      show some (s.eoffset + (s.sbytes : Int)) = some (o + _) ↔ a.breaks = true
      rw [Option.some.injEq, heoff, hbytes, htotal, Option.getD_some]
      cases hbr : a.breaks with
      | true => simp
      | false =>
          -- the last call was counted, and is counted again
          rw [hbr] at hleft htotal
          simp at hleft htotal ⊢
          omega
  | none =>
      rw [Advanced, LastFits, finish_pos, hI.pos, Option.getD_none]
      cases hbr : a.breaks with
      | true =>
          -- nothing was counted, so the position is not set
          rw [hbr, if_pos rfl] at htotal
          rw [htotal, if_neg (by simp), if_pos rfl]
          omega
      | false =>
          rw [hbr, if_neg Bool.false_ne_true] at htotal
          have hpos : s.total > 0 := by
            rw [hbr] at hleft
            exact Nat.lt_of_lt_of_le hcount (hleft.resolve_left Bool.false_ne_true)
          rw [if_neg Bool.false_ne_true]
          cases set with
          | none =>
              rw [if_pos ⟨rfl, hpos, rfl⟩, htotal]
              exact iff_of_true (by omega) rfl
          | some e =>
              rw [if_neg (by simp)]
              exact iff_of_false (by omega) (by simp)

end

/-- **All bytes are accounted for** just if no call is made, or the last
call sends all there is and the loop is left in a way that suits it.
Where `*offset` is given and the range was sent, it is always too far. -/
theorem bsd_accounts_iff {offset : Option Int} {count : Nat} {flags : UInt32}
    {cur set : Option Errno} {k : Kernel} {answers : List Sent} {r : BsdRet}
    (h : bsdNsendfile offset count flags cur set k answers = (some r, [])) :
    Accounts offset k answers r ↔ LastAlone offset set answers := by
  rcases bsd_spec h with ⟨rfl, hret, hoffset, hpos, hcalls⟩ | ⟨used, s, hsplit, hI, hleft, rfl⟩
  · refine iff_of_true ⟨congrArg (List.map _) hcalls, ?_, Or.inr ⟨hret, rfl⟩, ?_⟩ (Or.inl rfl)
    · rw [hcalls]
      trivial
    · cases offset with
      | some o => exact hoffset.trans (congrArg some (Int.add_zero o).symm)
      | none => exact (congrArg Nat.cast hpos).trans (Int.add_zero _).symm
  rw [List.append_nil] at hsplit
  subst hsplit
  rcases hI.last with ⟨rfl, hbytes, hbroken⟩ | ⟨init, a, rfl, hbytes, hbroken, hcount⟩
  · have htotal : s.total = 0 := by
      have hsent := hI.sent
      rw [hbroken] at hsent
      exact hsent
    refine iff_of_true ⟨hI.calls, hI.contiguous, Or.inl ?_, ?_⟩ (Or.inl rfl)
    · rw [finish_ret, hbytes]
      rfl
    · have heoff := hI.eoffset
      cases offset with
      | some o =>
          show some (s.eoffset + (s.sbytes : Int)) = some (o + 0)
          rw [heoff, hbytes, htotal]
          simp
      | none =>
          rw [Advanced, finish_pos, if_neg (by simp [htotal]), hI.pos]
          exact (Int.add_zero _).symm
  · constructor
    · intro hacc
      have hzero : bytesOf init = 0 := by
        have hret := hacc.ret
        rw [finish_ret, hbytes, bytesOf_append, bytesOf_cons, bytesOf_nil] at hret
        omega
      exact Or.inr ⟨init, a, rfl, bytesOf_eq_zero.mp hzero,
        (finish_advanced hI hbytes hbroken hcount hleft hzero).mp hacc.advanced⟩
    · rintro (hnil | ⟨init', a', heq, hnone, hfits⟩)
      · simp at hnil
      · obtain ⟨rfl, hlast⟩ := List.append_inj' heq rfl
        cases hlast
        have hzero := bytesOf_eq_zero.mpr hnone
        refine ⟨hI.calls, hI.contiguous, Or.inl ?_,
          (finish_advanced hI hbytes hbroken hcount hleft hzero).mpr hfits⟩
        rw [finish_ret, hbytes, bytesOf_append, hzero, bytesOf_cons, bytesOf_nil]
        omega

theorem bsd_accounts_position :
    Accounts none (Kernel.fresh none) [⟨none, 4⟩]
        ⟨4, none, { Kernel.fresh none with pos := 4, output := [1, 2, 3, 4] }, [⟨0, ⟨none, 4⟩⟩]⟩
      ↔ LastAlone none none [⟨none, 4⟩] :=
  bsd_accounts_iff
    (show bsdNsendfile none 4 0 none none (Kernel.fresh none) [⟨none, 4⟩] = _ from rfl)

/-- Three bytes, an interruption, then two: the file has been sent, 2 is
returned and the offset is 7. -/
theorem bsd_miscounts :
    bsdNsendfile (some 0) 5 fdioQuietEintr none none (Kernel.fresh none)
          [⟨some .EINTR, 3⟩, ⟨none, 2⟩]
        = (some ⟨2, some 7, { Kernel.fresh none with output := [1, 2, 3, 4, 5] },
            [⟨0, ⟨some .EINTR, 3⟩⟩, ⟨3, ⟨none, 2⟩⟩]⟩, [])
      ∧ ¬Accounts (some 0) (Kernel.fresh none) [⟨some .EINTR, 3⟩, ⟨none, 2⟩]
          ⟨2, some 7, { Kernel.fresh none with output := [1, 2, 3, 4, 5] },
            [⟨0, ⟨some .EINTR, 3⟩⟩, ⟨3, ⟨none, 2⟩⟩]⟩ := by
  refine ⟨rfl, fun hacc => ?_⟩
  have hmoved : some (7 : Int) = some 5 := hacc.advanced
  cases hmoved

/-! ## Answers without end -/

/-- The answers to a call for `count` bytes with `left` before the end of
the file: a call that succeeds sends all it can, a call that is
interrupted sends some of it, and there are finitely many of these. -/
structure Serving (left count : Nat) (ans : Nat → Sent) : Prop where
  interrupted : ∀ i e, (ans i).err = some e → e = .EINTR
  finitely : ∃ last, ∀ i, last ≤ i → (ans i).err = none
  within : ∀ i, bytesOf (firsts ans i) < count →
    (ans i).sbytes ≤ min (left - bytesOf (firsts ans i)) (count - bytesOf (firsts ans i))
  whole : ∀ i, bytesOf (firsts ans i) < count → (ans i).err = none →
    (ans i).sbytes = min (left - bytesOf (firsts ans i)) (count - bytesOf (firsts ans i))

theorem Serving.not_breaks {left count : Nat} {ans : Nat → Sent} (h : Serving left count ans)
    (i : Nat) : (ans i).breaks = false := by
  rw [Sent.breaks]
  cases herr : (ans i).err with
  | none => rfl
  | some e =>
      obtain rfl := h.interrupted i e herr
      rfl

/-- After the first answer the rest serves the rest. -/
theorem Serving.tail {left count : Nat} {ans : Nat → Sent} (h : Serving left count ans) :
    Serving (left - (ans 0).sbytes) (count - (ans 0).sbytes) fun i => ans (i + 1) := by
  obtain ⟨last, hlast⟩ := h.finitely
  have hsucc : ∀ i, bytesOf (firsts ans (i + 1))
      = (ans 0).sbytes + bytesOf (firsts (fun i => ans (i + 1)) i) := fun i => rfl
  refine ⟨fun i => h.interrupted (i + 1), ⟨last, fun i hi => hlast (i + 1) (by omega)⟩, ?_, ?_⟩
  · intro i hlt
    have hle := h.within (i + 1) (by rw [hsucc]; omega)
    rwa [hsucc, ← Nat.sub_sub, ← Nat.sub_sub] at hle
  · intro i hlt herr
    have heq := h.whole (i + 1) (by rw [hsucc]; omega) herr
    rwa [hsucc, ← Nat.sub_sub, ← Nat.sub_sub] at heq

section

variable {count : Nat} {s : Sending} {ans : Nat → Sent}

/-- An answer that fits is taken. -/
theorem bsd_takes (offset : Option Int) (startPos : Int) (flags : UInt32) (set : Option Errno)
    {a : Sent}
    (hfits : a.sbytes ≤ min (s.kernel.file.length - s.eoffset.toNat) (count - s.total)) :
    ∃ s', (bsdLoop offset startPos count flags set).turn s a = some s' := by
  have hgiven : a.sbytes ≤ count - s.total
      ∧ a.sbytes ≤ (s.kernel.file.drop s.eoffset.toNat).length := by
    rw [List.length_drop]
    omega
  simp only [bsdLoop, sendfile]
  rw [if_pos hgiven]
  cases a.err with
  | none => exact ⟨_, rfl⟩
  | some e =>
      simp only [Option.bind_eq_bind, Option.bind_some, if_pos]
      split
      · exact ⟨_, rfl⟩
      · split
        · exact ⟨_, rfl⟩
        · exact ⟨_, rfl⟩

theorem bsdLoop_exit (offset : Option Int) (startPos : Int) (flags : UInt32) (set : Option Errno)
    (h : s.broken = true ∨ count ≤ s.total) :
    (bsdLoop offset startPos count flags set).exit s = some (s.finish offset startPos set) :=
  if_pos (h.imp_right Nat.not_lt_of_le)

theorem bsdLoop_stays (offset : Option Int) (startPos : Int) (flags : UInt32)
    (set : Option Errno) (hgo : s.broken = false) (hlt : s.total < count) :
    (bsdLoop offset startPos count flags set).exit s = none := by
  refine if_neg ?_
  rw [hgo]
  simpa using hlt

/-- Where a call that was served leaves the loop. -/
theorem bsd_served (offset : Option Int) (startPos : Int) (flags : UInt32) (set : Option Errno)
    (hgo : s.broken = false) (hlt : s.total < count) (hoff : 0 ≤ s.eoffset)
    (hans : Serving (s.kernel.file.length - s.eoffset.toNat) (count - s.total) ans) :
    ∃ s', (bsdLoop offset startPos count flags set).turn s (ans 0) = some s' ∧ s'.broken = false
      ∧ 0 ≤ s'.eoffset ∧ s'.total = s.total + (ans 0).sbytes
      ∧ s'.kernel.file.length - s'.eoffset.toNat
        = s.kernel.file.length - s.eoffset.toNat - (ans 0).sbytes := by
  have hfits := hans.within 0 (by show 0 < count - s.total; omega)
  obtain ⟨s', hs'⟩ := bsd_takes offset startPos flags set hfits
  have hturn := bsd_turn hgo hs'
  have hbreaks := hans.not_breaks 0
  have htotal := hturn.total
  have heoff := hturn.eoffset
  rw [hbreaks, if_neg Bool.false_ne_true] at htotal heoff
  refine ⟨s', hs', hturn.broken.trans hbreaks, ?_, htotal, ?_⟩
  · omega
  · rw [hturn.file, heoff]
    omega

/-- With enough of the file left the loop ends: the first call that is
not interrupted sends the rest. -/
theorem bsdLoop_ends (offset : Option Int) (startPos : Int) (flags : UInt32) (set : Option Errno)
    (last : Nat) : ∀ {s : Sending} {ans : Nat → Sent}, s.broken = false →
    0 ≤ s.eoffset →
    Serving (s.kernel.file.length - s.eoffset.toNat) (count - s.total) ans →
    (∀ i, last ≤ i → (ans i).err = none) →
    count - s.total ≤ s.kernel.file.length - s.eoffset.toNat →
    ∃ n r, ((bsdLoop offset startPos count flags set).drive s (firsts ans n)).1 = some r := by
  induction last with
  | zero =>
      intro s ans hgo hoff hans hlast hroom
      by_cases hdone : count ≤ s.total
      · exact ⟨0, _, bsdLoop_exit offset startPos flags set (Or.inr hdone)⟩
      obtain ⟨s', hturn, hgo', -, htotal, -⟩ :=
        bsd_served offset startPos flags set hgo (Nat.lt_of_not_le hdone) hoff hans
      have hwhole := hans.whole 0 (by show 0 < count - s.total; omega) (hlast 0 (Nat.le_refl 0))
      simp only [firsts, bytesOf_nil] at hwhole
      refine ⟨1, s'.finish offset startPos set, ?_⟩
      simp only [firsts, Loop.drive, hturn,
        bsdLoop_stays offset startPos flags set hgo (Nat.lt_of_not_le hdone)]
      exact bsdLoop_exit offset startPos flags set (Or.inr (by omega))
  | succ last ih =>
      intro s ans hgo hoff hans hlast hroom
      by_cases hdone : count ≤ s.total
      · exact ⟨0, _, bsdLoop_exit offset startPos flags set (Or.inr hdone)⟩
      obtain ⟨s', hturn, hgo', hoff', htotal, hleft⟩ :=
        bsd_served offset startPos flags set hgo (Nat.lt_of_not_le hdone) hoff hans
      have htail := hans.tail
      rw [← hleft, Nat.sub_sub, ← htotal] at htail
      obtain ⟨n, r, hn⟩ := ih hgo' hoff' htail (fun i hi => hlast (i + 1) (by omega)) (by omega)
      refine ⟨n + 1, r, ?_⟩
      simp only [firsts, Loop.drive, hturn,
        bsdLoop_stays offset startPos flags set hgo (Nat.lt_of_not_le hdone)]
      exact hn

end

section

variable {offset : Option Int} {count : Nat} {cur : Option Errno} {k : Kernel}
  {ans : Nat → Sent}

/-- A file that is too short is sent for ever. -/
theorem bsd_endless (flags : UInt32) (set : Option Errno)
    (hans : Serving (k.file.length - (offset.getD k.pos).toNat) count ans)
    (hcur : (if offset = none then cur else none) = none) (hstart : 0 ≤ offset.getD k.pos)
    (hshort : k.file.length - (offset.getD k.pos).toNat < count) (n : Nat) :
    (bsdNsendfile offset count flags cur set k (firsts ans n)).1 = none := by
  rcases hrun : bsdNsendfile offset count flags cur set k (firsts ans n) with ⟨v, rest⟩
  cases v with
  | none => rfl
  | some r =>
      obtain ⟨used, s, hsplit, hI, hleft, -⟩ := bsd_loop_spec hcur hstart hrun
      have hgo : s.broken = false := by
        rcases hI.last with ⟨-, -, hbroken⟩ | ⟨init, a, hused, -, hbroken, -⟩
        · exact hbroken
        · obtain ⟨i, rfl⟩ : ∃ i, a = ans i := by
            refine mem_firsts (n := n) ?_
            rw [hsplit, hused]
            simp
          exact hbroken.trans (hans.not_breaks i)
      have hsent := hI.sent
      have hwithin := hI.within
      rw [hgo] at hleft hsent
      simp at hleft hsent
      omega

/-- **The loop ends** just if the file has `count` bytes from the offset
on, or the loop is not reached. -/
theorem bsd_ends_iff (offset : Option Int) (flags : UInt32) (set : Option Errno)
    (hans : Serving (k.file.length - (offset.getD k.pos).toNat) count ans) :
    (∃ n r, (bsdNsendfile offset count flags cur set k (firsts ans n)).1 = some r)
      ↔ (offset = none ∧ cur ≠ none) ∨ offset.getD k.pos < 0
        ∨ count ≤ k.file.length - (offset.getD k.pos).toNat := by
  cases hcur : (if offset = none then cur else none) with
  | some e =>
      have hseek : offset = none ∧ cur ≠ none := by
        by_cases hnone : offset = none
        · rw [if_pos hnone] at hcur
          exact ⟨hnone, by simp [hcur]⟩
        · rw [if_neg hnone] at hcur
          cases hcur
      exact iff_of_true ⟨0, _, congrArg Prod.fst (bsdNsendfile_refused hcur _)⟩ (Or.inl hseek)
  | none =>
      have hseek : ¬(offset = none ∧ cur ≠ none) := by
        rintro ⟨hnone, hfails⟩
        rw [if_pos hnone] at hcur
        exact hfails hcur
      by_cases hstart : offset.getD k.pos < 0
      · exact iff_of_true ⟨0, _, congrArg Prod.fst (bsdNsendfile_invalid hcur hstart _)⟩
          (Or.inr (Or.inl hstart))
      have hnn := Int.not_lt.mp hstart
      rw [or_iff_right hseek, or_iff_right hstart]
      constructor
      · rintro ⟨n, r, hrun⟩
        by_contra hshort
        rw [bsd_endless flags set hans hcur hnn (Nat.lt_of_not_le hshort) n] at hrun
        cases hrun
      · intro hroom
        obtain ⟨last, hlast⟩ := hans.finitely
        obtain ⟨n, r, hrun⟩ := bsdLoop_ends offset (offset.getD k.pos) flags set last
          (s := ⟨k, offset.getD k.pos, 0, 0, none, false, []⟩) rfl hnn hans hlast hroom
        exact ⟨n, r, by rw [bsdNsendfile_loop hcur hnn, hrun]⟩

end

/-- Five bytes are sent, and no more. -/
def fiveSent : Nat → Sent
  | 0 => ⟨none, 5⟩
  | _ + 1 => ⟨none, 0⟩

theorem fiveSent_bytes (i : Nat) : bytesOf (firsts fiveSent (i + 1)) = 5 := by
  have hnone : ∀ i, bytesOf (firsts (fun j => fiveSent (j + 1)) i) = 0 := by
    intro i
    induction i with
    | zero => rfl
    | succ i ih => exact (Nat.zero_add _).trans ih
  exact congrArg (5 + ·) (hnone i)

theorem fiveSent_serving {count : Nat} (h : 5 ≤ count) : Serving 5 count fiveSent where
  interrupted
    | 0, _, h => nomatch h
    | _ + 1, _, h => nomatch h
  finitely := ⟨0, fun
    | 0, _ => rfl
    | _ + 1, _ => rfl⟩
  within
    | 0, _ => by
        show 5 ≤ min (5 - 0) (count - 0)
        omega
    | _ + 1, _ => Nat.zero_le _
  whole
    | 0, _, _ => by
        show 5 = min (5 - 0) (count - 0)
        omega
    | i + 1, _, _ => by
        rw [fiveSent_bytes]
        exact (Nat.zero_min _).symm

theorem bsd_ends_five :
    (∃ n r, (bsdNsendfile (some 0) 5 0 none none (Kernel.fresh none)
        (firsts fiveSent n)).1 = some r)
      ↔ ((some 0 : Option Int) = none ∧ (none : Option Errno) ≠ none) ∨ (0 : Int) < 0 ∨ 5 ≤ 5 :=
  bsd_ends_iff (some 0) 0 none (fiveSent_serving (Nat.le_refl 5))

/-- Ten bytes of a file of five: the end of the file is met again and
again. -/
theorem bsd_waits_for_ever :
    Serving 5 10 fiveSent ∧ ∀ n,
      (bsdNsendfile (some 0) 10 0 none none (Kernel.fresh none) (firsts fiveSent n)).1 = none :=
  ⟨fiveSent_serving (by decide), bsd_endless 0 none (fiveSent_serving (by decide)) rfl
    (by decide) (by decide)⟩

end Bsd

end Fdio

end MiscTools
