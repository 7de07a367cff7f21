import Mathlib.Data.Fintype.Basic
import MiscTools.DsCalls
import MiscTools.Runs

/-!
# Threads over debugsync

The system the facility is used in: any number of threads, each outside
every `ds_` call, between the unlocked check and the mutex, or asleep in
`pthread_cond_wait` inside `ds_wait` or `ds_exec`. One step is one
unlocked access to `ds.activation` or one whole mutex-protected section
of `DsCalls`; any thread may take the next step, so the runs of `step`
are the interleavings of the sections. A sleeper may take its step at
any time: wake-ups are spurious unless a broadcast came first, and the
order in which woken threads get the mutex is free.

A thread keeps the list of the waiting sections it is in: a `ds_wait`
that returned 0 opens one, the `ds_unblock` call made for it closes it.
A call `unblock name (some k)` is only possible for a section `k` of the
calling thread under that name; `unblock name none` is a call made
without one (`disciplineOK` rules it out).

Times, flags on sleepers and the record of the last call are history:
no section reads them. `clock` counts the sections run so far, so that a
section opened by a `ds_wait` counted before an executor raised the
point has the smaller `since`.
-/

namespace MiscTools

namespace Debugsync

/-! ## Threads -/

/-- A waiting section a thread is in: the name it waited on, the point
it was counted on (`none` when `ds_wait` took the inactive exit), and
the time it was counted. -/
structure WaitSection where
  name : CStr
  pt : Option PointIdx
  since : Nat
deriving DecidableEq

inductive Call
  | wait (name : CStr)
  | exec (name : CStr)
  | unblock (name : CStr) (k : Option WaitSection)
  | enable (name : CStr) (enable : Bool)
  | disableAll
  | activate (activate : Bool)
deriving DecidableEq

/-- History of a call blocked in `pthread_cond_wait`. -/
structure Nap where
  /-- a broadcast has been issued since it went to sleep -/
  signalled : Bool := false
  /-- its point has been disabled since it went to sleep -/
  disabled : Bool := false
  /-- it went back to sleep although its point had been disabled -/
  relapsed : Bool := false
deriving DecidableEq

inductive Pc
  | idle
  /-- past the unlocked check, before `pthread_mutex_lock` -/
  | locking (c : Call)
  /-- `ds_activate(true)` past its unlocked check, before the store -/
  | activating
  | inWait (name : CStr) (i : PointIdx) (since : Nat) (nap : Nap)
  /-- holding `i`; `ended`: `nblocked` has reached 0 since it raised -/
  | inExec (i : PointIdx) (raisedAt : Nat) (ended : Bool) (nap : Nap)
deriving DecidableEq

/-- The last call a thread has finished: what it raised and when, whether
its point was disabled while it slept, and its return value. -/
structure Done where
  raised : Option (PointIdx × Nat) := none
  disabled : Bool := false
  rc : Int
deriving DecidableEq

structure Thread where
  pc : Pc := .idle
  sections : List WaitSection := []
  last : Option Done := none
deriving DecidableEq

/-- What a section that took the globals from `g` to `g'` and did
(`bcast`) or did not broadcast leaves in the history of a sleeper on
`i`. -/
def Nap.observe (g g' : DsGlobal) (bcast : Bool) (i : PointIdx) (nap : Nap) : Nap :=
  { nap with
    signalled := nap.signalled || bcast
    disabled := nap.disabled || ((g.point i).isEnabled && !(g'.point i).isEnabled) }

def Pc.observe (g g' : DsGlobal) (bcast : Bool) : Pc → Pc
  | .inWait name i since nap => .inWait name i since (nap.observe g g' bcast i)
  | .inExec i raisedAt ended nap =>
      .inExec i raisedAt
        (ended || (decide (0 < (g.point i).nblocked) && decide ((g'.point i).nblocked = 0)))
        (nap.observe g g' bcast i)
  | pc => pc

def Thread.observe (g g' : DsGlobal) (bcast : Bool) (th : Thread) : Thread :=
  { th with pc := th.pc.observe g g' bcast }

/-- The call is over and `ds_wait` returned `rc`: 0 opens a section. -/
def Thread.waited (th : Thread) (k : WaitSection) (disabled : Bool) (rc : Int) : Thread where
  pc := .idle
  sections := if rc = 0 then k :: th.sections else th.sections
  last := some { disabled := disabled, rc := rc }

/-- `ds_unblock` is over: the section it was called for is closed. -/
def Thread.unblocked (th : Thread) (k : Option WaitSection) (rc : Int) : Thread where
  pc := .idle
  sections :=
    match k with
    | some k => th.sections.erase k
    | none => th.sections
  last := some { rc := rc }

def Thread.finished (th : Thread) (d : Done) : Thread :=
  { th with pc := .idle, last := some d }

/-! ## The system -/

structure Sys (Tid : Type) where
  ds : DsGlobal
  threads : Tid → Thread
  clock : Nat
  aborted : Bool

/-- What the C library answers during a section. -/
structure Env where
  alloc : Bool := true
  bcast : Int := 0
deriving DecidableEq

inductive Act
  /-- call the function and run its unlocked check -/
  | call (c : Call)
  /-- take the mutex and run the section -/
  | lock (env : Env)
  /-- the unlocked store of `ds_activate(true)` -/
  | store
  /-- return from `pthread_cond_wait` with `rc`, holding the mutex -/
  | wake (rc : Int)
deriving DecidableEq

structure Label (Tid : Type) where
  tid : Tid
  act : Act
deriving DecidableEq

variable {Tid : Type}

section Steps

variable [DecidableEq Tid]

/-- After `ds_init`: every thread is outside the facility. -/
def Sys.init (activationFlags : BitVec 32) : Sys Tid where
  ds := dsInit activationFlags
  threads := fun _ => {}
  clock := 0
  aborted := false

def Sys.put (s : Sys Tid) (t : Tid) (th : Thread) : Sys Tid :=
  { s with threads := Function.update s.threads t th }

/-- The end of a section of `t` that leaves the globals `g'`. -/
def Sys.settle (s : Sys Tid) (t : Tid) (th : Thread) (g' : DsGlobal) (bcast : Bool) :
    Sys Tid where
  ds := g'
  threads := Function.update (fun u => (s.threads u).observe s.ds g' bcast) t th
  clock := s.clock + 1
  aborted := s.aborted

/-- A call made for a section needs the caller to be in it. -/
def Call.possible (ks : List WaitSection) : Call → Bool
  | .unblock name (some k) => decide (k ∈ ks) && decide (k.name = name)
  | _ => true

def Call.locked (g : DsGlobal) (env : Env) : Call → Locked
  | .wait name => dsWait g env.alloc name
  | .exec name => dsExec g env.alloc env.bcast name
  | .unblock name _ => dsUnblock g env.bcast name
  | .enable name b => dsEnable g env.bcast name b
  | .disableAll => dsDisableAll g
  | .activate b => dsActivate g b

/-- The caller after the unlocked early exit, which returns 0. -/
def Thread.skip (th : Thread) : Call → Thread
  | .wait name => th.waited ⟨name, none, 0⟩ false 0
  | .unblock _ k => th.unblocked k 0
  | _ => th.finished { rc := 0 }

/-- The caller after the unlocked part of the call. -/
def Thread.begin (th : Thread) (g : DsGlobal) (c : Call) : Thread :=
  if g.localInactive then
    match c with
    | .activate true => { th with pc := .activating }
    | .activate false => { th with pc := .locking c }
    | c => th.skip c
  else { th with pc := .locking c }

/-- The caller after the first section of the call, run at time `now`. -/
def Thread.after (th : Thread) (now : Nat) (out : Locked) (c : Call) : Thread :=
  match c, out.exit, out.pt with
  | .wait name, .sleep, some i => { th with pc := .inWait name i now {} }
  | .wait name, .ret rc, pt => th.waited ⟨name, pt, now⟩ false rc
  | .exec _, .sleep, some i => { th with pc := .inExec i now false {} }
  | .exec _, .ret rc, some i =>
      th.finished { raised := if out.bcast then some (i, now) else none, rc := rc }
  | .unblock _ k, .ret rc, _ => th.unblocked k rc
  | _, .ret rc, _ => th.finished { rc := rc }
  | _, _, _ => th

/-- The sleeper in `ds_wait` after it has run from its loop test on. -/
def Thread.afterWait (th : Thread) (name : CStr) (i : PointIdx) (since : Nat) (nap : Nap) :
    Exit → Thread
  | .ret rc => th.waited ⟨name, some i, since⟩ (nap.disabled || nap.relapsed) rc
  | _ => { th with pc := .inWait name i since { relapsed := nap.disabled || nap.relapsed } }

/-- The sleeper in `ds_exec` after it has run from its loop test on. -/
def Thread.afterExec (th : Thread) (i : PointIdx) (raisedAt : Nat) (ended : Bool) (nap : Nap) :
    Exit → Thread
  | .ret rc =>
      th.finished { raised := some (i, raisedAt), disabled := nap.disabled || nap.relapsed,
                    rc := rc }
  | _ =>
      { th with pc := .inExec i raisedAt ended { relapsed := nap.disabled || nap.relapsed } }

/-- The section `out` of thread `t`, which leaves it as `th`. A failed
assertion stops the program. -/
def Sys.close (s : Sys Tid) (t : Tid) (th : Thread) (out : Locked) : Sys Tid :=
  match out.exit with
  | .abort => { s with aborted := true }
  | _ => s.settle t th out.ds out.bcast

def step (s : Sys Tid) (l : Label Tid) : Option (Sys Tid) :=
  if s.aborted then none
  else
    let th := s.threads l.tid
    match l.act, th.pc with
    | .call c, .idle =>
        if c.possible th.sections then some (s.put l.tid (th.begin s.ds c)) else none
    | .lock env, .locking c =>
        let out := c.locked s.ds env
        some (s.close l.tid (th.after s.clock out c) out)
    | .store, .activating =>
        some { s.put l.tid { th with pc := .idle } with ds := s.ds.doActivate true }
    | .wake rc, .inWait name i since nap =>
        let out := dsWaitLoop s.ds i rc
        some (s.close l.tid (th.afterWait name i since nap out.exit) out)
    | .wake rc, .inExec i raisedAt ended nap =>
        let out := dsExecLoop s.ds i rc
        some (s.close l.tid (th.afterExec i raisedAt ended nap out.exit) out)
    | _, _ => none

end Steps

/-! ## Kinds of runs -/

/-- The calls of a rendezvous. -/
def Call.meets : Call → Bool
  | .wait _ => true
  | .exec _ => true
  | .unblock _ _ => true
  | _ => false

namespace Label

/-- The facility is not (de)activated. -/
def activeOK (l : Label Tid) : Bool :=
  match l.act with
  | .call (.activate _) => false
  | _ => true

/-- `ds_unblock` is only called for a section of the caller. -/
def disciplineOK (l : Label Tid) : Bool :=
  match l.act with
  | .call (.unblock _ none) => false
  | _ => true

/-- `pthread_cond_broadcast` and `pthread_cond_wait` return 0. -/
def pthreadOK (l : Label Tid) : Bool :=
  match l.act with
  | .lock env => decide (env.bcast = 0)
  | .wake rc => decide (rc = 0)
  | _ => true

theorem pthreadOK.bcast {l : Label Tid} {env : Env} (h : l.pthreadOK = true)
    (hact : l.act = .lock env) : env.bcast = 0 := by
  simpa [pthreadOK, hact] using h

theorem pthreadOK.wake {l : Label Tid} {rc : Int} (h : l.pthreadOK = true)
    (hact : l.act = .wake rc) : rc = 0 := by
  simpa [pthreadOK, hact] using h

/-- Only `ds_wait`, `ds_exec` and `ds_unblock` are called. -/
def rendezvousOK (l : Label Tid) : Bool :=
  match l.act with
  | .call c => c.meets
  | _ => true

end Label

/-! ## Reading a state after a step -/

section Views

variable [DecidableEq Tid] (s : Sys Tid) (t u : Tid) (th : Thread) (g' : DsGlobal) (b : Bool)

@[simp] theorem Sys.put_ds : (s.put t th).ds = s.ds := rfl
@[simp] theorem Sys.put_clock : (s.put t th).clock = s.clock := rfl
@[simp] theorem Sys.put_aborted : (s.put t th).aborted = s.aborted := rfl
@[simp] theorem Sys.settle_ds : (s.settle t th g' b).ds = g' := rfl
@[simp] theorem Sys.settle_clock : (s.settle t th g' b).clock = s.clock + 1 := rfl
@[simp] theorem Sys.settle_aborted : (s.settle t th g' b).aborted = s.aborted := rfl

@[simp] theorem Sys.put_threads_self : (s.put t th).threads t = th := by
  simp [Sys.put]

@[simp] theorem Sys.settle_threads_self : (s.settle t th g' b).threads t = th := by
  simp [Sys.settle]

variable {t u}

theorem Sys.put_threads_ne (h : u ≠ t) : (s.put t th).threads u = s.threads u := by
  simp [Sys.put, h]

theorem Sys.settle_threads_ne (h : u ≠ t) :
    (s.settle t th g' b).threads u = (s.threads u).observe s.ds g' b := by
  simp [Sys.settle, h]

@[simp] theorem Thread.observe_sections (g g' : DsGlobal) (th : Thread) :
    (th.observe g g' b).sections = th.sections := rfl

@[simp] theorem Thread.observe_last (g g' : DsGlobal) (th : Thread) :
    (th.observe g g' b).last = th.last := rfl

@[simp] theorem Thread.observe_pc (g g' : DsGlobal) (th : Thread) :
    (th.observe g g' b).pc = th.pc.observe g g' b := rfl

variable {s th g' b}

/-- What the section leaves true of its own thread and of every observer
is true of all threads. -/
theorem Sys.settle_forall {Q : Tid → Thread → Prop} (hself : Q t th)
    (hother : ∀ u, u ≠ t → Q u ((s.threads u).observe s.ds g' b)) :
    ∀ u, Q u ((s.settle t th g' b).threads u) := fun u => by
  by_cases hu : u = t
  · subst hu
    rwa [Sys.settle_threads_self]
  · rw [Sys.settle_threads_ne s th g' b hu]
    exact hother u hu

theorem Sys.put_forall {Q : Tid → Thread → Prop} (hself : Q t th)
    (hother : ∀ u, u ≠ t → Q u (s.threads u)) : ∀ u, Q u ((s.put t th).threads u) := fun u => by
  by_cases hu : u = t
  · subst hu
    rwa [Sys.put_threads_self]
  · rw [Sys.put_threads_ne s th hu]
    exact hother u hu

end Views

end Debugsync

end MiscTools
