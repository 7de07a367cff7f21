import MiscTools.CStr
import MiscTools.FdioLoops
import MiscTools.Vnodes

/-!
# A reader of files that grow

`evrdr.c`. It waits for a kqueue to say that its file has bytes it has not
read, or that the file has lost its name; then it opens the file that has
the name now, and makes one where there is none.

Between any two calls of the reader the other processes may make files,
write to their ends, rename and unlink them (`Vnodes.Act`), so a run is a list
of calls, each one's or the others'.
Of the kernel there are the files and the two filters of the queue, which
has no more than one descriptor in it: a note is kept until it is fetched
(`EV_CLEAR`), and there is something to read as long as the position is not
the size.
-/

namespace MiscTools

namespace Evrdr

open Fdio Vnodes

/-! ## The queue -/

/-- `fflags` -/
structure Fflags where
  noteDelete : Bool
  noteRename : Bool
deriving DecidableEq

inductive Kevent
  | evfiltRead (data : Int)
  | evfiltVnode (fflags : Fflags)
deriving DecidableEq

/-- An open file. `got` is what has been read through it. A filter that has
not been added is `none`, or `false`. -/
structure Fd where
  vnode : Nat
  pos : Nat
  got : List UInt8
  vnodeFilter : Option Fflags
  readFilter : Bool
deriving DecidableEq

namespace Fd

/-- The file has been noted. -/
def note (notes : List (Nat × Note)) (fd : Fd) : Fd :=
  { fd with vnodeFilter := fd.vnodeFilter.map fun f =>
      { noteDelete := f.noteDelete || notes.contains (fd.vnode, .delete)
        noteRename := f.noteRename || notes.contains (fd.vnode, .rename) } }

/-- Whether there is a note to fetch. -/
def noted (fd : Fd) : Bool := fd.vnodeFilter.any fun f => f.noteDelete || f.noteRename

def events (fd : Fd) (size : Nat) : List Kevent :=
  (if fd.noted then fd.vnodeFilter.toList.map .evfiltVnode else [])
    ++ (if fd.readFilter ∧ size ≠ fd.pos then [.evfiltRead (size - fd.pos)] else [])

def cleared (fd : Fd) : Fd := { fd with vnodeFilter := fd.vnodeFilter.map fun _ => ⟨false, false⟩ }

def kernel (files : Files CStr UInt8) (fd : Fd) : Kernel where
  errno := none
  file := files.file fd.vnode
  pos := fd.pos
  output := []
  stderr := []

end Fd

/-! ## The program -/

/-- `g_opt`, without the descriptor. -/
structure Cliopt where
  print : Bool
  tmoutSec : Nat
  fpath : CStr

/-- What goes to `stdout`. -/
inductive Out
  /-- `"Entering watch loop\n"` -/
  | entering
  /-- `'.'` -/
  | dot
  /-- `"=== BEGIN\n%s\n=== END\n"` -/
  | block (buf : List UInt8)
  /-- `"NOTE_DELETE "` -/
  | noteDelete
  /-- `"NOTE_RENAME "` -/
  | noteRename
  /-- `'\n'` -/
  | newline
  /-- `"Exiting watch loop, rc = %d\n"` -/
  | exiting (rc : Int)
deriving DecidableEq

/-- What goes to `stderr`. -/
inductive Diag
  | perror (s : String)
  /-- `"EVFILT_READ: fd=%d, offset=%ld\n"` -/
  | evfiltRead (offset : Int)
  /-- `"read %ld bytes from fd=%d\n"` -/
  | readBytes (nrd : Int)
  /-- `"%s: i=%ld rc=%d\n"` -/
  | event (i : Nat) (rc : Int)
  /-- `"\nre-opened %s\n"` -/
  | reopened (fpath : CStr)
  /-- `"\nkevent timed out\n"` -/
  | timedOut
  | fdio (d : Fdio.Diag)
deriving DecidableEq

/-- `sizeof(buf)` -/
def bufSize : Nat := 1024 + 1

/-- What `process_event` leaves: its result, the flag `f_REOPEN`, and what
it has read and printed. -/
structure Processed where
  rc : Int
  reopen : Bool
  buf : List UInt8
  stdout : List Out
  stderr : List Diag
deriving DecidableEq

def processEvent (print : Bool) (k : Kernel) (answers : List Event) : Kevent → Ret Processed
  | .evfiltRead offset =>
      if offset > 0 then
        let len := if offset.toNat ≥ bufSize then bufSize - 1 else offset.toNat
        (nread len 0 k answers).andThen fun (nrd, buf) k answers =>
        if nrd ≤ 0 then
          ⟨.returns
            { rc := -1, reopen := false, buf := buf, stdout := []
              stderr := k.stderr.map .fdio ++ [.evfiltRead offset, .readBytes nrd] }, k, answers⟩
        else
          -- `buf[nrd] = '\0'`, and `%s` ends at the first of them
          ⟨.returns
            { rc := 0, reopen := false, buf := buf
              stdout := .dot :: if print then [.block (buf.takeWhile (· ≠ 0))] else []
              stderr := k.stderr.map .fdio }, k, answers⟩
      else
        ⟨.returns { rc := 0, reopen := false, buf := [], stdout := [], stderr := [] }, k, answers⟩
  | .evfiltVnode fflags =>
      ⟨.returns
        { rc := 0, reopen := fflags.noteDelete || fflags.noteRename, buf := []
          stdout := (if fflags.noteDelete then [.noteDelete] else [])
            ++ (if fflags.noteRename then [.noteRename] else []) ++ [.newline]
          stderr := [] }, k, answers⟩

inductive Filter
  | vnode
  | read
deriving DecidableEq

/-- Where the reader is: which call it makes next. `reopened` says who has
called `kq_add`, `ev` is the event at hand, the one of number `i`, and
`flags` is `f_REOPEN`. -/
inductive Pc
  | adding (filter : Filter) (reopened : Bool)
  | waiting
  | handling (i : Nat) (ev : Kevent) (rest : List Kevent) (flags : Bool)
  | closing
  | opening
  | left (rc : Int)
deriving DecidableEq

/-- `closed` are the files that have been closed, each with what was read
from it. -/
structure Sys where
  files : Files CStr UInt8
  fd : Option Fd
  closed : List (Nat × List UInt8)
  pc : Pc
  stdout : List Out
  stderr : List Diag

/-- What `kevent` returns. -/
inductive Fetched
  | events (evs : List Kevent)
  | timeout
  | fails
deriving DecidableEq

inductive Label
  | other (a : Act CStr UInt8)
  | add (ok : Bool)
  | kevent (f : Fetched)
  | process (answers : List Event)
  | close (ok : Bool)
  | open_ (ok : Bool)
deriving DecidableEq

namespace Sys

/-- `main` has opened the file and calls `follow`. -/
def start (files : Files CStr UInt8) (vnode : Nat) : Sys where
  files := files
  fd := some ⟨vnode, 0, [], none, false⟩
  closed := []
  pc := .adding .vnode false
  stdout := []
  stderr := []

def report (s : Sys) (d : Diag) : Sys := { s with stderr := s.stderr ++ [d] }

/-- The loop of `follow` is left. -/
def leave (s : Sys) (rc : Int) : Sys :=
  { s with pc := .left rc, stdout := s.stdout ++ [.exiting rc] }

/-- `follow` does not look at what `kq_add` returns. -/
def entering (s : Sys) : Sys := { s with pc := .waiting, stdout := s.stdout ++ [.entering] }

/-- One call of `kq_add`. -/
def kqAdd (o : Cliopt) (s : Sys) (filter : Filter) (reopened ok : Bool) : Option Sys := do
  let fd ← s.fd
  if ok then
    match filter with
    | .vnode =>
        return { s with
          fd := some { fd with vnodeFilter := some ⟨false, false⟩ }, pc := .adding .read reopened }
    | .read =>
        let s := { s with fd := some { fd with readFilter := true } }
        return if reopened then { s.report (.reopened o.fpath) with pc := .waiting } else s.entering
  else
    let s := s.report (.perror "kevent")
    return if reopened then s.leave (-1) else s.entering

/-- All that has happened is fetched at once, in any order. -/
def kevent (o : Cliopt) (s : Sys) (f : Fetched) : Option Sys := do
  let fd ← s.fd
  let pending := fd.events (s.files.file fd.vnode).length
  match f with
  | .fails => return (s.report (.perror "kevent (loop)")).leave 0
  | .timeout =>
      if o.tmoutSec > 0 ∧ pending = [] then return (s.report .timedOut).leave 0 else none
  | .events [] => none
  | .events (ev :: rest) =>
      if (ev :: rest).Perm pending then
        return { s with fd := some fd.cleared, pc := .handling 0 ev rest false }
      else none

/-- The end of a turn of the loop over the events. -/
def next (i : Nat) (rest : List Kevent) (flags : Bool) : Pc :=
  match rest with
  | ev :: rest => .handling (i + 1) ev rest flags
  | [] => if flags then .closing else .waiting

def process (o : Cliopt) (s : Sys) (i : Nat) (ev : Kevent) (rest : List Kevent) (flags : Bool)
    (answers : List Event) : Option Sys := do
  let fd ← s.fd
  let r := processEvent o.print (fd.kernel s.files) answers ev
  match r.outcome with
  | .returns p =>
      let s := { s with
        fd := some { fd with pos := r.kernel.pos, got := fd.got ++ p.buf }
        stdout := s.stdout ++ p.stdout, stderr := s.stderr ++ p.stderr }
      return if p.rc ≠ 0 then (s.report (.event i p.rc)).leave p.rc
        else { s with pc := next i rest (flags || p.reopen) }
  | _ => none

/-- The first call of `re_open`. -/
def close (s : Sys) (ok : Bool) : Option Sys := do
  let fd ← s.fd
  return if ok then
    { s with fd := none, closed := s.closed ++ [(fd.vnode, fd.got)], pc := .opening }
  else (s.report (.perror "close [re-open]")).leave (-1)

/-- The second, with `O_CREAT`. -/
def open_ (o : Cliopt) (s : Sys) (ok : Bool) : Option Sys :=
  if ok then do
    let (files, _) ← s.files.act (.creat o.fpath false)
    let v ← files.dir o.fpath
    return { s with files := files, fd := some ⟨v, 0, [], none, false⟩, pc := .adding .vnode true }
  else some ((s.report (.perror "open [re-open]")).leave (-1))

end Sys

def step (o : Cliopt) (s : Sys) : Label → Option Sys
  | .other a => do
      let (files, notes) ← s.files.act a
      return { s with files := files, fd := s.fd.map (Fd.note notes) }
  | .add ok =>
      match s.pc with
      | .adding filter reopened => s.kqAdd o filter reopened ok
      | _ => none
  | .kevent f => if s.pc = .waiting then s.kevent o f else none
  | .process answers =>
      match s.pc with
      | .handling i ev rest flags => s.process o i ev rest flags answers
      | _ => none
  | .close ok => if s.pc = .closing then s.close ok else none
  | .open_ ok => if s.pc = .opening then s.open_ o ok else none

end Evrdr

end MiscTools
