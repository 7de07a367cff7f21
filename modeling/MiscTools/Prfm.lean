import Mathlib.Algebra.Group.Int.Defs
import Mathlib.Logic.Function.Basic
import MiscTools.Stamps

/-!
# The profiling probe

`prfm.c`, with the macros of `rusage_ops.h` and `nbsd_time.h`. A macro
gets the addresses of its operands, and the result may be written over
one of them while they are still being read; so the macros work on a
memory `m : P → α`, where the places `P` are whatever the operands point
to. The four macros on times have the same lines, with an operation, a
test and two corrections of their own.

The fields of `struct rusage` that are not times are counters, and the
lines for them in a macro are a list: each line names one field in all
three operands. A `long` that overflows is undefined, and a call of the
system that fails ends the program: both are errors here.
-/

namespace MiscTools.Prfm

/-- How the program stops before it returns. -/
inductive Stop
  | abort
  | overflow
deriving DecidableEq

def FitsLong (x : Int) : Prop := -2 ^ 63 ≤ x ∧ x < 2 ^ 63

instance (x : Int) : Decidable (FitsLong x) := inferInstanceAs (Decidable (_ ∧ _))

/-- The result of an operation on `long`. -/
def long (x : Int) : Except Stop Int :=
  if FitsLong x then .ok x else .error .overflow

/-! ## The data -/

inductive Counter
  | maxrss | ixrss | idrss | isrss | minflt | majflt | nswap | inblock | oublock
  | msgsnd | msgrcv | nsignals | nvcsw | nivcsw
deriving DecidableEq

/-- `struct rusage` -/
structure Rusage where
  utime : Stamp
  stime : Stamp
  count : Counter → Int

/-- `struct prfm_metrics` -/
structure Metrics where
  tm : Stamp
  ru : Rusage

/-- `struct prfm` -/
structure Probe where
  who : Int
  flags : BitVec 32
  start : Metrics
  accum : Metrics

def prfm_TIME : BitVec 32 := 1

def prfm_RUSAGE : BitVec 32 := 2

def Probe.time (r : Probe) : Prop := r.flags &&& prfm_TIME ≠ 0

def Probe.rusage (r : Probe) : Prop := r.flags &&& prfm_RUSAGE ≠ 0

instance (r : Probe) : Decidable r.time := inferInstanceAs (Decidable (_ ≠ _))

instance (r : Probe) : Decidable r.rusage := inferInstanceAs (Decidable (_ ≠ _))

/-! ## The macros of `nbsd_time.h` -/

section Macros

variable {P : Type} [DecidableEq P]

/-- `(p)->tv_sec = x` -/
def setSec (m : P → Stamp) (p : P) (x : Int) : P → Stamp :=
  Function.update m p { m p with sec := x }

/-- `(p)->tv_usec = x` or `(p)->tv_nsec = x` -/
def setFrac (m : P → Stamp) (p : P) (x : Int) : P → Stamp :=
  Function.update m p { m p with frac := x }

/-- The lines of such a macro: the operation on both fields and, where
the fraction went `past`, the correction of both. -/
def stampOp (op : Int → Int → Int) (past : Int → Prop) [DecidablePred past]
    (sec' frac' : Int → Int) (tvp uvp vvp : P) (m : P → Stamp) : Except Stop (P → Stamp) := do
  let m := setSec m vvp (← long (op (m tvp).sec (m uvp).sec))
  let m := setFrac m vvp (← long (op (m tvp).frac (m uvp).frac))
  if past (m vvp).frac then
    let m := setSec m vvp (← long (sec' (m vvp).sec))
    return setFrac m vvp (← long (frac' (m vvp).frac))
  else return m

def timeradd (tvp uvp vvp : P) : (P → Stamp) → Except Stop (P → Stamp) :=
  stampOp (· + ·) (1000000 ≤ ·) (· + 1) (· - 1000000) tvp uvp vvp

def timersub (tvp uvp vvp : P) : (P → Stamp) → Except Stop (P → Stamp) :=
  stampOp (· - ·) (· < 0) (· - 1) (· + 1000000) tvp uvp vvp

def timespecadd (tsp usp vsp : P) : (P → Stamp) → Except Stop (P → Stamp) :=
  stampOp (· + ·) (1000000000 ≤ ·) (· + 1) (· - 1000000000) tsp usp vsp

def timespecsub (tsp usp vsp : P) : (P → Stamp) → Except Stop (P → Stamp) :=
  stampOp (· - ·) (· < 0) (· - 1) (· + 1000000000) tsp usp vsp

/-! ## The macros of `rusage_ops.h` -/

/-- `f` works on one field of what is at the places. -/
def onField {α β : Type} (get : α → β) (set : α → β → α)
    (f : (P → β) → Except Stop (P → β)) (m : P → α) : Except Stop (P → α) := do
  let b ← f fun p => get (m p)
  return fun p => set (m p) (b p)

/-- The counters, in the order of the lines. -/
def counters : List Counter :=
  [.maxrss, .ixrss, .idrss, .isrss, .minflt, .majflt, .nswap, .inblock, .oublock,
   .msgsnd, .msgrcv, .nsignals, .nvcsw, .nivcsw]

def rusageClear (r : Rusage) : Rusage where
  utime := .zero
  stime := .zero
  count := fun c => if c ∈ counters then 0 else r.count c

/-- `(rrp)->c = op (rap)->c (rbp)->c` -/
def counterLine (op : Int → Int → Int) (rap rbp rrp : P) (m : P → Rusage) (c : Counter) :
    Except Stop (P → Rusage) := do
  let x ← long (op ((m rap).count c) ((m rbp).count c))
  return Function.update m rrp
    { m rrp with count := Function.update (m rrp).count c x }

def rusageSub (rap rbp rrp : P) (m : P → Rusage) : Except Stop (P → Rusage) := do
  let m ← onField Rusage.utime (fun r t => { r with utime := t }) (timersub rap rbp rrp) m
  let m ← onField Rusage.stime (fun r t => { r with stime := t }) (timersub rap rbp rrp) m
  counters.foldlM (counterLine (· - ·) rap rbp rrp) m

def rusageAdd (rap rbp rrp : P) (m : P → Rusage) : Except Stop (P → Rusage) := do
  let m ← onField Rusage.utime (fun r t => { r with utime := t }) (timeradd rap rbp rrp) m
  let m ← onField Rusage.stime (fun r t => { r with stime := t }) (timeradd rap rbp rrp) m
  counters.foldlM (counterLine (· + ·) rap rbp rrp) m

end Macros

/-! ## `prfm.c` -/

/-- What `clock_gettime` and `getrusage(who)` answer; `none` is a
failure. -/
structure Os where
  clock : Option Stamp
  usage : Int → Option Rusage

/-- A `perror` and an `abort` where the answer is a failure. -/
def answer {α : Type} : Option α → Except Stop α
  | some x => .ok x
  | none => .error .abort

def capture (t : Metrics) (flags : BitVec 32) (who : Int) (os : Os) : Except Stop Metrics := do
  let mut t := t
  if flags &&& prfm_TIME ≠ 0 then
    t := { t with tm := ← answer os.clock }
  if flags &&& prfm_RUSAGE ≠ 0 then
    t := { t with ru := ← answer (os.usage who) }
  return t

def reset (r : Probe) : Probe :=
  let r := if r.time then
    { r with accum := { r.accum with tm := .zero }, start := { r.start with tm := .zero } } else r
  if r.rusage then
    { r with
      accum := { r.accum with ru := rusageClear r.accum.ru }
      start := { r.start with ru := rusageClear r.start.ru } }
  else r

def prfmXinit (r : Probe) (flags : BitVec 32) (rusageWho : Int) : Probe :=
  { reset { r with flags := flags } with who := rusageWho }

def prfmStart (r : Probe) (os : Os) : Except Stop Probe := do
  return { r with start := ← capture r.start r.flags r.who os }

/-- What the macros of `prfm_stop` get the addresses of. -/
inductive Place
  | start
  | accum
  | curr
deriving DecidableEq

def Probe.memory (r : Probe) (curr : Metrics) : Place → Metrics
  | .start => r.start
  | .accum => r.accum
  | .curr => curr

/-- `prfm_stop`; `curr` is what its local variable holds at first. -/
def prfmStop (r : Probe) (curr : Metrics) (os : Os) : Except Stop Probe := do
  let curr ← capture curr r.flags r.who os
  let m := r.memory curr
  let m ← if r.time then
    onField Metrics.tm (fun t x => { t with tm := x })
      (fun m => do timespecadd .curr .accum .accum (← timespecsub .curr .start .curr m)) m
    else pure m
  let m ← if r.rusage then
    onField Metrics.ru (fun t x => { t with ru := x })
      (fun m => do rusageAdd .curr .accum .accum (← rusageSub .curr .start .curr m)) m
    else pure m
  return { r with start := m .start, accum := m .accum }

/-- A `prfm_start` and the `prfm_stop` after it: what is read, and what
the local variable of `prfm_stop` happens to hold. -/
structure Pair where
  start : Metrics
  stop : Metrics
  junk : Metrics

/-- The calls of the system succeed and answer `t`. -/
def Metrics.os (t : Metrics) : Os where
  clock := some t.tm
  usage := fun _ => some t.ru

def pairs (r : Probe) : List Pair → Except Stop Probe
  | [] => return r
  | p :: ps => do pairs (← prfmStop (← prfmStart r p.start.os) p.junk p.stop.os) ps

end MiscTools.Prfm
