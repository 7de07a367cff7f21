import MiscTools.Loops

/-!
# Reading, writing and transferring

`fdio.c`, as built on Linux. The kernel answers every system call: an
`Event` is one answer, and a list of them drives a run. The kernel knows
what is behind `in_fd` and how far it was read, what `out_fd` has
accepted, and `errno`, which a successful call leaves alone. An answer
that does not fit the call (more bytes than were asked for, no bytes
before the end of the file) does not occur, and a function whose calls
are not all answered has not returned yet.

A read buffer is the list of the bytes stored in it so far. What goes to
`stderr` is kept, since the quiet flags change nothing else.
-/

namespace MiscTools

namespace Fdio

/-! ## The kernel -/

inductive Errno
  | EINTR
  | EAGAIN
  | EWOULDBLOCK
  | EPIPE
  | other (n : Nat)
deriving DecidableEq

inductive Diag
  | perror (s : String) (err : Option Errno)
  /-- `"writev: underwrote %ld bytes\n"` -/
  | underwrote (nbytes : Nat)
  /-- `"%s: fd in/out=[%d/%d] underwrite: read/write=[%ld/%ld]"` -/
  | underwrite (nrd nwr : Int)
  /-- `"%s: panic: nread < nwrite [%ld/%ld]\n"` -/
  | panicked (nrd nwr : Int)
  /-- `"Moved %s to %s\n"` -/
  | moved (counter : Nat)
  /-- `"\n%s: reading [%s] from the start\n"` -/
  | rewound
deriving DecidableEq

/-- No `errno` is zero. -/
structure Kernel where
  errno : Option Errno
  file : List UInt8
  pos : Nat
  output : List UInt8
  stderr : List Diag
deriving DecidableEq

inductive Answer
  | count (n : Nat)
  | fail (e : Errno)
deriving DecidableEq

/-- Calls that move no bytes. -/
inductive Call
  | open_
  | close
  | lseek
  | rename
  | fsync
  | unlink
  | nanosleep
deriving DecidableEq

/-- `read` and `pread` are answered alike, and so are `write` and
`writev`. -/
inductive Event
  | read (a : Answer)
  | write (a : Answer)
  | sendfile (a : Answer)
  | call (c : Call) (err : Option Errno)
deriving DecidableEq

namespace Kernel

def report (k : Kernel) (d : Diag) : Kernel := { k with stderr := k.stderr ++ [d] }

def perror (k : Kernel) (s : String) : Kernel := k.report (.perror s k.errno)

/-- `if (err) errno = err;` -/
def setErrno (k : Kernel) (err : Option Errno) : Kernel :=
  match err with
  | none => k
  | some e => { k with errno := some e }

/-- Some of the bytes there are, and none only if there are none. -/
def Fits (n count avail : Nat) : Prop := n ≤ count ∧ n ≤ avail ∧ (n = 0 → avail = 0)

instance (n count avail : Nat) : Decidable (Fits n count avail) :=
  inferInstanceAs (Decidable (_ ∧ _ ∧ _))

/-- The result, the bytes that came with it, and the kernel after. -/
def read (k : Kernel) (count : Nat) : Event → Option (Int × List UInt8 × Kernel)
  | .read (.count n) =>
      if Fits n count (k.file.drop k.pos).length then
        some (n, (k.file.drop k.pos).take n, { k with pos := k.pos + n })
      else none
  | .read (.fail e) => some (-1, [], { k with errno := some e })
  | _ => none

def pread (k : Kernel) (count : Nat) (offset : Int) : Event → Option (Int × List UInt8 × Kernel)
  | .read (.count n) =>
      if 0 ≤ offset ∧ Fits n count (k.file.drop offset.toNat).length then
        some (n, (k.file.drop offset.toNat).take n, k)
      else none
  | .read (.fail e) => some (-1, [], { k with errno := some e })
  | _ => none

def write (k : Kernel) (buf : List UInt8) : Event → Option (Int × Kernel)
  | .write (.count n) =>
      if 1 ≤ n ∧ n ≤ buf.length then some (n, { k with output := k.output ++ buf.take n })
      else none
  | .write (.fail e) => some (-1, { k with errno := some e })
  | _ => none

/-- With an offset the position of the file stays where it is. -/
def sendfile (k : Kernel) (offset : Option Int) (count : Nat) :
    Event → Option (Int × Option Int × Kernel)
  | .sendfile (.count n) =>
      let start := (offset.getD k.pos).toNat
      if 0 ≤ offset.getD k.pos ∧ Fits n count (k.file.drop start).length then
        let k := { k with output := k.output ++ (k.file.drop start).take n }
        match offset with
        | none => some (n, none, { k with pos := k.pos + n })
        | some o => some (n, some (o + n), k)
      else none
  | .sendfile (.fail e) => some (-1, offset, { k with errno := some e })
  | _ => none

end Kernel

/-- How far a function got. -/
inductive Outcome (ρ : Type)
  | waits
  | aborts
  | returns (r : ρ)
deriving DecidableEq

structure Ret (ρ : Type) where
  outcome : Outcome ρ
  kernel : Kernel
  rest : List Event
deriving DecidableEq

/-- Go on with the result of a function, if there is one. -/
def Ret.andThen {ρ ρ' : Type} (r : Ret ρ) (f : ρ → Kernel → List Event → Ret ρ') : Ret ρ' :=
  match r.outcome with
  | .returns v => f v r.kernel r.rest
  | .waits => ⟨.waits, r.kernel, r.rest⟩
  | .aborts => ⟨.aborts, r.kernel, r.rest⟩

/-- A loop of system calls as a function. -/
def runLoop {σ ρ : Type} (L : Loop σ Event (ρ × Kernel)) (kernel : σ → Kernel) (s : σ)
    (events : List Event) : Ret ρ :=
  match L.drive s events with
  | (some (v, k), _, rest) => ⟨.returns v, k, rest⟩
  | (none, s, rest) => ⟨.waits, kernel s, rest⟩

/-! ## Flags -/

def fdioQuietEagain : UInt32 := 1
def fdioQuietEpipe : UInt32 := (1 : UInt32) <<< 1
def fdioQuietEintr : UInt32 := (1 : UInt32) <<< 2
def fdioSendfile : UInt32 := (1 : UInt32) <<< 3

/-- `EINTR`, however many bytes were moved before: the loop goes on. -/
def Kernel.retry (k : Kernel) (flags : UInt32) : Kernel :=
  { (if flags &&& fdioQuietEintr = 0 then k.perror "writev" else k) with errno := none }

/-- An error that is not reported. -/
def quietEagain (flags : UInt32) (err : Option Errno) : Bool :=
  flags &&& fdioQuietEagain ≠ 0 ∧ (some .EWOULDBLOCK = err ∨ some .EAGAIN = err)

def quietEpipe (flags : UInt32) (err : Option Errno) : Bool :=
  flags &&& fdioQuietEpipe ≠ 0 ∧ some .EPIPE = err

/-! ## nwrite -/

structure Writing where
  kernel : Kernel
  err : Option Errno
  total : Nat
  nwr : Int
  broken : Bool

def nwriteLoop (buf : List UInt8) (count : Nat) (flags : UInt32) :
    Loop Writing Event (Int × Kernel) where
  exit s :=
    if s.broken ∨ ¬count > s.total then
      some (if s.nwr < 0 then s.nwr else s.total, s.kernel.setErrno s.err)
    else none
  turn s event := do
    let (nwr, k) ← s.kernel.write ((buf.drop s.total).take (count - s.total)) event
    if nwr ≤ 0 then
      let err := k.errno
      if some .EINTR = err then
        return { s with kernel := k.retry flags, err := none, nwr := nwr }
      else if quietEagain flags err ∨ quietEpipe flags err then
        return { s with kernel := k, err := err, nwr := nwr, broken := true }
      else
        return { s with kernel := k.perror "writev", err := err, nwr := nwr, broken := true }
    else
      return { s with kernel := k, nwr := nwr, total := s.total + nwr.toNat }

def nwrite (buf : List UInt8) (count : Nat) (flags : UInt32) (k : Kernel)
    (events : List Event) : Ret Int :=
  runLoop (nwriteLoop buf count flags) Writing.kernel
    { kernel := k, err := none, total := 0, nwr := 0, broken := false } events

/-! ## nwritev -/

structure Gathering where
  kernel : Kernel
  iov : List (List UInt8)
  err : Option Errno
  nbytes : Int
  total : Int
  broken : Bool

/-- The loop that drops what was written from the array. -/
def advance : Int → List (List UInt8) → Int × List (List UInt8)
  | nbytes, [] => (nbytes, [])
  | nbytes, v :: iov =>
      if nbytes < v.length then (nbytes, v.drop nbytes.toNat :: iov)
      else advance (nbytes - v.length) iov

def nwritevLoop (flags : UInt32) : Loop Gathering Event (Int × Kernel) where
  exit s :=
    if s.broken ∨ s.iov = [] then
      let underwr := s.iov.foldl (fun underwr v => underwr + v.length) 0
      let k :=
        if s.nbytes < 0 ∧ underwr ≠ 0 then s.kernel.report (.underwrote underwr) else s.kernel
      some (if s.err ≠ none then s.nbytes else s.total, k.setErrno s.err)
    else none
  turn s event := do
    let (nbytes, k) ← s.kernel.write s.iov.flatten event
    if nbytes ≤ 0 then
      let err := k.errno
      if some .EINTR = err then
        let (nbytes, iov) := advance 0 s.iov
        return { s with kernel := k.retry flags, err := none, nbytes := nbytes, iov := iov }
      else if quietEagain flags err ∨ quietEpipe flags err then
        return { s with kernel := k, err := err, nbytes := nbytes, broken := true }
      else
        return { s with
          kernel := k.perror "writev", err := err, nbytes := nbytes, broken := true }
    else
      let (left, iov) := advance nbytes s.iov
      return { s with kernel := k, nbytes := left, total := s.total + nbytes, iov := iov }

def nwritev (iov : List (List UInt8)) (flags : UInt32) (k : Kernel) (events : List Event) :
    Ret Int :=
  if iov = [] then ⟨.aborts, k, events⟩
  else
    runLoop (nwritevLoop flags) Gathering.kernel
      { kernel := k, iov := iov, err := none, nbytes := 0, total := 0, broken := false } events

/-! ## nread and npread -/

inductive Next
  | again
  | leave
  /-- `return total;` inside the loop -/
  | eof
deriving DecidableEq

/-- `buf` holds the `total` bytes stored so far. -/
structure Reading where
  kernel : Kernel
  buf : List UInt8
  err : Option Errno
  offset : Int
  next : Next

def Reading.total (s : Reading) : Nat := s.buf.length

/-- The loop of both functions; they differ in the system call. -/
def nreadLoop (call : Kernel → Nat → Int → Event → Option (Int × List UInt8 × Kernel))
    (count : Nat) (flags : UInt32) : Loop Reading Event ((Int × List UInt8) × Kernel) where
  exit s :=
    if s.next = .eof then some ((s.total, s.buf), s.kernel)
    else if s.next = .leave ∨ ¬count > s.total then
      some ((s.total, s.buf), s.kernel.setErrno s.err)
    else none
  turn s event := do
    let (nrd, bytes, k) ← call s.kernel (count - s.total) s.offset event
    if nrd = -1 then
      let err := k.errno
      if some .EINTR = err then
        return { s with kernel := k.retry flags, err := none }
      else if quietEagain flags err then
        return { s with kernel := k, err := err, next := .leave }
      else
        return { s with kernel := k.perror "read", err := err, next := .leave }
    else if nrd = 0 then
      return { s with kernel := k, next := .eof }
    else
      return { s with kernel := k, buf := s.buf ++ bytes, offset := s.offset + nrd }

def nread (count : Nat) (flags : UInt32) (k : Kernel) (events : List Event) :
    Ret (Int × List UInt8) :=
  runLoop (nreadLoop (fun k n _ => k.read n) count flags) Reading.kernel
    { kernel := k, buf := [], err := none, offset := 0, next := .again } events

def npread (count : Nat) (offset : Int) (flags : UInt32) (k : Kernel) (events : List Event) :
    Ret (Int × List UInt8) :=
  runLoop (nreadLoop Kernel.pread count flags) Reading.kernel
    { kernel := k, buf := [], err := none, offset := offset, next := .again } events

/-! ## transfer -/

def trfbufLimit : Nat := 1024 * 10

/-- The return value, and `*offset` where there is one. -/
def nsendfile (offset : Option Int) (count : Nat) (k : Kernel) :
    List Event → Ret (Int × Option Int)
  | [] => ⟨.waits, k, []⟩
  | event :: events =>
      match k.sendfile offset count event with
      | none => ⟨.waits, k, event :: events⟩
      | some (n, offset, k) => ⟨.returns (n, offset), k, events⟩

/-- What `transfer` does with what it read. -/
def passOn (offset : Option Int) (flags : UInt32) (nrd : Int) (buf : List UInt8) (k : Kernel)
    (events : List Event) : Ret (Int × Option Int) :=
  let err := k.errno
  if nrd ≤ 0 ∨ err ≠ none then
    ⟨.returns (0, offset), k.setErrno err, events⟩
  else
    (nwrite buf nrd.toNat flags k events).andThen fun nwr k events =>
    if nwr = nrd then
      ⟨.returns (nwr, offset.map (· + nwr)), k.setErrno err, events⟩
    else if nwr < nrd then
      let k := k.report (.underwrite nrd nwr)
      ⟨.returns (nwr, offset.map (· + nwr)), k.setErrno err, events⟩
    else ⟨.aborts, k.report (.panicked nrd nwr), events⟩

def transfer (offset : Option Int) (count : Nat) (flags : UInt32) (k : Kernel)
    (events : List Event) : Ret (Int × Option Int) :=
  if flags &&& fdioSendfile ≠ 0 then nsendfile offset count k events
  else
    let nbytes := if count = 0 ∨ count > trfbufLimit then trfbufLimit else count
    let r := match offset with
      | some o => npread nbytes o flags k events
      | none => nread nbytes flags k events
    r.andThen fun v k events => passOn offset flags v.1 v.2 k events

end Fdio

end MiscTools
