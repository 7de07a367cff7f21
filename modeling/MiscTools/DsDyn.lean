import Mathlib.Data.Fintype.Basic
import Mathlib.Data.List.Basic
import MiscTools.CStr
import MiscTools.Runs

/-!
# Signals of debugsync_dyn

All names of `debugsync_dyn.c` share one condition variable and one
slot for the name last signalled. A thread in `wait_on` sleeps until it
finds its own name in the slot; `ds_signal` puts a name there and wakes
one of the sleepers, whichever `pthread_cond_signal` picks.

A step is one section under the mutex: a call up to its return or its
`pthread_cond_wait`, or a woken thread from its loop test on. Which
record `ds_set` works on is part of the step, so that nothing here
depends on what `ds_lookup` finds. Wake-ups come from `ds_signal` only,
and of what a sleeper keeps about them only whether one is pending
decides what can happen next; the rest is history.
-/

namespace MiscTools.DsDyn

open Runs

abbrev DS_MAXLEN : Nat := 32

/-! ## Sections -/

/-- `ds`, without the mutex and the condition: the slot, and `is_enabled`
of the records in the order they were added. -/
structure Global where
  signal : CStr
  enabled : List Bool
deriving DecidableEq

inductive Exit
  | ret (rc : Int)
  | sleep
deriving DecidableEq

def dsInit : Global where
  signal := .empty
  enabled := []

def Global.isEnabled (g : Global) (i : Nat) : Bool := g.enabled.getD i false

def Global.setEnabled (g : Global) (i : Nat) (enable : Bool) : Global :=
  { g with enabled := g.enabled.set i enable }

/-- The loop of `wait_on` from its test on, after `pthread_cond_wait`
returned `rc` or with `rc` 0 at first. `pt` is the record `enabled`
points into. -/
def waitOn (g : Global) (pt : Option Nat) (pointName : CStr) (rc : Int) : Exit :=
  if rc = 0 ∧ g.signal.sameUpTo pointName (DS_MAXLEN + 1) = false then
    match pt with
    | some i => if g.isEnabled i = false then .ret (-1) else .sleep
    | none => .sleep
  else .ret rc

def dsWait (g : Global) (pointName : CStr) : Exit := waitOn g none pointName 0

/-- The record `ds_add` makes is number `g.enabled.length`. -/
def Global.atPoint (g : Global) (i : Nat) : Global :=
  if i = g.enabled.length then { g with enabled := g.enabled ++ [false] } else g

/-- `wait_on` has returned to `ds_set`. -/
def Global.leave (g : Global) (pt : Option Nat) : Global :=
  match pt with
  | some i => g.setEnabled i false
  | none => g

/-- `pt` is what `ds_lookup` or else `ds_add` returned, and `none` when
there was no memory for a new record. -/
def dsSet (g : Global) (pt : Option Nat) (pointName : CStr) (enable : Bool) : Global × Exit :=
  match pt with
  | none => (g, .ret (-1))
  | some i =>
      let g := (g.atPoint i).setEnabled i enable
      if enable then
        match waitOn g (some i) pointName 0 with
        | .ret rc => (g.leave (some i), .ret rc)
        | .sleep => (g, .sleep)
      else (g, .ret 0)

def dsSignal (g : Global) (pointName : CStr) : Global :=
  { g with signal := pointName.strndup DS_MAXLEN }

/-! ## Threads -/

/-- A call asleep in `wait_on`. -/
structure Sleeper where
  name : CStr
  pt : Option Nat
  /-- the name of the `ds_signal` call whose wake-up is pending -/
  wakeup : Option CStr := none
  /-- `ds_signal` has been called with its name since it went to sleep -/
  called : Bool := false
  /-- it was woken by such a call and went back to sleep -/
  relapsed : Bool := false
deriving DecidableEq

inductive Thread
  /-- outside the facility, with the value of its last call -/
  | returned (rc : Int)
  | asleep (z : Sleeper)
deriving DecidableEq

structure Sys (Tid : Type) where
  ds : Global
  threads : Tid → Thread

inductive Label (Tid : Type)
  | wait (t : Tid) (name : CStr)
  | set (t : Tid) (name : CStr) (enable : Bool) (pt : Option Nat)
  /-- `woken` is the thread `pthread_cond_signal` picks, if any sleeps -/
  | signal (name : CStr) (woken : Option Tid)
  /-- a woken thread returns from `pthread_cond_wait` with `rc` -/
  | resume (t : Tid) (rc : Int)
deriving DecidableEq

/-- Asleep, and not picked by any signal. -/
def Thread.unwoken : Thread → Bool
  | .asleep z => z.wakeup.isNone
  | .returned _ => false

/-- What a call of `ds_signal` does to a sleeper. -/
def Sleeper.hear (z : Sleeper) (name : CStr) (picked : Bool) : Sleeper :=
  { z with
    wakeup := if picked then some name else z.wakeup
    called := z.called || decide (z.name = name) }

def Thread.hear (th : Thread) (name : CStr) (picked : Bool) : Thread :=
  match th with
  | .asleep z => .asleep (z.hear name picked)
  | .returned rc => .returned rc

/-- A sleeper goes back to sleep. -/
def Sleeper.again (z : Sleeper) : Sleeper :=
  { z with wakeup := none, relapsed := z.relapsed || decide (z.wakeup = some z.name) }

variable {Tid : Type} [DecidableEq Tid]

def Sys.init : Sys Tid where
  ds := dsInit
  threads := fun _ => .returned 0

def Sys.settle (s : Sys Tid) (t : Tid) (g : Global) (th : Thread) : Sys Tid where
  ds := g
  threads := Function.update s.threads t th

/-- The caller after its first section. -/
def Exit.thread (name : CStr) (pt : Option Nat) : Exit → Thread
  | .ret rc => .returned rc
  | .sleep => .asleep { name := name, pt := pt }

/-- A record a call can work on: one there is, or the next one. -/
def Global.hasPoint (g : Global) : Option Nat → Bool
  | some i => decide (i ≤ g.enabled.length)
  | none => true

/-- The thread picked is one that sleeps, if there is any. -/
def Sys.picks [Fintype Tid] (s : Sys Tid) : Option Tid → Bool
  | some t => (s.threads t).unwoken
  | none => decide (∀ t, (s.threads t).unwoken = false)

def step [Fintype Tid] (s : Sys Tid) : Label Tid → Option (Sys Tid)
  | .wait t name =>
      match s.threads t with
      | .returned _ => some (s.settle t s.ds ((dsWait s.ds name).thread name none))
      | .asleep _ => none
  | .set t name enable pt =>
      match s.threads t with
      | .returned _ =>
          if s.ds.hasPoint pt then
            let (g, exit) := dsSet s.ds pt name enable
            some (s.settle t g (exit.thread name pt))
          else none
      | .asleep _ => none
  | .signal name woken =>
      if s.picks woken then
        some { ds := dsSignal s.ds name,
               threads := fun t => (s.threads t).hear name (decide (woken = some t)) }
      else none
  | .resume t rc =>
      match s.threads t with
      | .asleep z =>
          if z.wakeup.isSome then
            match waitOn s.ds z.pt z.name rc with
            | .ret rc => some (s.settle t (s.ds.leave z.pt) (.returned rc))
            | .sleep => some (s.settle t s.ds (.asleep z.again))
          else none
      | .returned _ => none

/-! ## What a section does -/

@[simp] theorem Global.atPoint_signal (g : Global) (i : Nat) : (g.atPoint i).signal = g.signal := by
  rw [atPoint]
  split <;> rfl

@[simp] theorem Global.setEnabled_signal (g : Global) (i : Nat) (enable : Bool) :
    (g.setEnabled i enable).signal = g.signal := rfl

@[simp] theorem Global.leave_signal (g : Global) (pt : Option Nat) :
    (g.leave pt).signal = g.signal := by
  cases pt <;> rfl

theorem dsSet_signal (g : Global) (pt : Option Nat) (name : CStr) (enable : Bool) :
    (dsSet g pt name enable).1.signal = g.signal := by
  cases pt with
  | none => rfl
  | some i =>
      cases enable with
      | false => simp [dsSet]
      | true =>
          simp only [dsSet, if_true]
          split <;> simp

/-- A sleeper that finds its name goes on, and so does one whose record
is disabled. -/
theorem waitOn_sleep_iff (g : Global) (pt : Option Nat) (name : CStr) (rc : Int) :
    waitOn g pt name rc = .sleep ↔
      rc = 0 ∧ g.signal.sameUpTo name (DS_MAXLEN + 1) = false ∧
        ∀ i, pt = some i → g.isEnabled i = true := by
  unfold waitOn
  split
  case isFalse hgo =>
      exact iff_of_false (fun h => by cases h) fun h => hgo ⟨h.1, h.2.1⟩
  case isTrue hwait =>
      cases pt with
      | none => simp [hwait.1, hwait.2]
      | some i => cases hen : g.isEnabled i <;> simp [hwait.1, hwait.2, hen]

theorem Thread.hear_asleep {th : Thread} {name : CStr} {picked : Bool} {z : Sleeper}
    (h : th.hear name picked = .asleep z) : ∃ z₀, th = .asleep z₀ ∧ z = z₀.hear name picked := by
  cases th with
  | returned rc => cases h
  | asleep z₀ => exact ⟨z₀, rfl, (Thread.asleep.inj h).symm⟩

/-! ## What a step does -/

/-- The thread that makes a call, and the sleeper that it may become. -/
def Label.caller : Label Tid → Option (Tid × CStr)
  | .wait t name => some (t, name)
  | .set t name _ _ => some (t, name)
  | _ => none

variable [Fintype Tid]

theorem step_call {s s' : Sys Tid} {l : Label Tid} {t : Tid} {name : CStr}
    (hl : l.caller = some (t, name)) (h : step s l = some s') :
    ∃ g exit pt, s' = s.settle t g (Exit.thread name pt exit) ∧ g.signal = s.ds.signal := by
  cases l with
  | wait u n =>
      obtain ⟨rfl, rfl⟩ := Prod.mk.inj (Option.some.inj hl)
      rw [step] at h
      split at h
      · exact ⟨s.ds, dsWait s.ds n, none, (Option.some.inj h).symm, rfl⟩
      · cases h
  | set u n enable pt =>
      obtain ⟨rfl, rfl⟩ := Prod.mk.inj (Option.some.inj hl)
      rw [step] at h
      split at h
      · split at h
        · exact ⟨_, _, pt, (Option.some.inj h).symm, dsSet_signal ..⟩
        · cases h
      · cases h
  | signal n woken => cases hl
  | resume u rc => cases hl

theorem step_signal {s s' : Sys Tid} {name : CStr} {woken : Option Tid}
    (h : step s (.signal name woken) = some s') :
    s' = { ds := dsSignal s.ds name,
           threads := fun t => (s.threads t).hear name (decide (woken = some t)) } := by
  rw [step] at h
  split at h
  · exact (Option.some.inj h).symm
  · cases h

theorem step_resume {s s' : Sys Tid} {t : Tid} {rc : Int}
    (h : step s (.resume t rc) = some s') :
    ∃ z, s.threads t = .asleep z ∧
      ((∃ rc', waitOn s.ds z.pt z.name rc = .ret rc'
          ∧ s' = s.settle t (s.ds.leave z.pt) (.returned rc'))
        ∨ (waitOn s.ds z.pt z.name rc = .sleep ∧ s' = s.settle t s.ds (.asleep z.again))) := by
  rw [step] at h
  split at h
  case h_2 => cases h
  case h_1 z hz =>
      refine ⟨z, hz, ?_⟩
      split at h
      · split at h
        case h_1 rc' hret => exact .inl ⟨rc', hret, (Option.some.inj h).symm⟩
        case h_2 hsleep => exact .inr ⟨hsleep, (Option.some.inj h).symm⟩
      · cases h

/-! ## Lost signals -/

/-- No signal for the sleeper is lost: one that was called since it went
to sleep has woken it, or some other has, and it has not gone back to
sleep after its own. -/
def Thread.Heard : Thread → Prop
  | .asleep z => (z.wakeup = none → z.called = false) ∧ z.relapsed = false
  | .returned _ => True

def Label.nameOK : Label Tid → Bool
  | .wait _ name => decide (name.strlen ≤ DS_MAXLEN)
  | .set _ name _ _ => decide (name.strlen ≤ DS_MAXLEN)
  | .signal name _ => decide (name.strlen ≤ DS_MAXLEN)
  | .resume _ _ => true

omit [Fintype Tid] in
/-- The name is signalled while at most one thread sleeps on it, and that
one is picked; and a woken thread whose name has been signalled gets the
mutex while its name is in the slot, or its record is disabled. -/
def Heeded (s : Sys Tid) : Label Tid → Prop
  | .signal name woken =>
      ∀ t z, s.threads t = .asleep z → z.wakeup = none → z.name = name → woken = some t
  | .resume t rc =>
      ∀ z, s.threads t = .asleep z → z.called = true →
        rc ≠ 0 ∨ s.ds.signal = z.name ∨ ∃ i, z.pt = some i ∧ s.ds.isEnabled i = false
  | _ => True

/-- What holds of a sleeper as long as no signal is lost. -/
structure Sleeper.Quiet (z : Sleeper) : Prop where
  short : z.name.strlen ≤ DS_MAXLEN
  own : z.wakeup = some z.name → z.called = true
  unwoken : z.wakeup = none → z.called = false
  relapsed : z.relapsed = false

structure Quiet (s : Sys Tid) : Prop where
  slot : s.ds.signal.strlen ≤ DS_MAXLEN
  sleeper : ∀ t z, s.threads t = .asleep z → z.Quiet

theorem Sleeper.Quiet.hear {z : Sleeper} {name : CStr} {picked : Bool} (h : z.Quiet)
    (hpick : z.wakeup = none → z.name = name → picked = true) : (z.hear name picked).Quiet where
  short := h.short
  own := by
    intro hown
    rw [Sleeper.hear, Bool.or_eq_true, decide_eq_true_eq]
    cases picked with
    | true => exact .inr (Option.some.inj hown).symm
    | false => exact .inl (h.own hown)
  unwoken := by
    intro hnone
    cases picked with
    | true => cases hnone
    | false =>
        have hname : z.name ≠ name := fun hname => Bool.false_ne_true (hpick hnone hname)
        rw [Sleeper.hear, h.unwoken hnone, decide_eq_false hname]
        rfl
  relapsed := h.relapsed

theorem Sleeper.Quiet.again {z : Sleeper} (h : z.Quiet) (hcalled : z.called = false) :
    z.again.Quiet where
  short := h.short
  own := fun hown => by cases hown
  unwoken := fun _ => hcalled
  relapsed := by
    have hother : z.wakeup ≠ some z.name := fun hown => by
      rw [h.own hown] at hcalled
      cases hcalled
    rw [Sleeper.again, h.relapsed, decide_eq_false hother]
    rfl

omit [Fintype Tid] in
theorem Quiet.settle {s : Sys Tid} {t : Tid} {g : Global} {th : Thread} (h : Quiet s)
    (hslot : g.signal.strlen ≤ DS_MAXLEN) (hth : ∀ z, th = .asleep z → z.Quiet) :
    Quiet (s.settle t g th) where
  slot := hslot
  sleeper := by
    intro u z hz
    have hcases : (if u = t then th else s.threads u) = .asleep z := by
      rwa [← Function.update_apply]
    split at hcases
    · exact hth z hcases
    · exact h.sleeper u z hcases

omit [DecidableEq Tid] [Fintype Tid] in
theorem Quiet.heard {s : Sys Tid} (h : Quiet s) (t : Tid) : (s.threads t).Heard := by
  cases hz : s.threads t with
  | returned rc => trivial
  | asleep z => exact ⟨(h.sleeper t z hz).unwoken, (h.sleeper t z hz).relapsed⟩

/-- A woken thread goes on just when the slot names it, or its record is
disabled. -/
theorem waitOn_ret_iff {g : Global} {z : Sleeper} {rc : Int} (hslot : g.signal.strlen ≤ DS_MAXLEN)
    (hname : z.name.strlen ≤ DS_MAXLEN) :
    waitOn g z.pt z.name rc ≠ .sleep ↔
      rc ≠ 0 ∨ g.signal = z.name ∨ ∃ i, z.pt = some i ∧ g.isEnabled i = false := by
  rw [Ne, waitOn_sleep_iff,
    ← CStr.sameUpTo_iff (Nat.le_succ_of_le hslot) (Nat.le_succ_of_le hname)]
  constructor
  · intro hgo
    by_cases hrc : rc = 0
    · refine .inr (Decidable.or_iff_not_imp_left.mpr fun hsame => ?_)
      refine Decidable.by_contra fun hnone => hgo ⟨hrc, by simpa using hsame, fun i hi => ?_⟩
      cases hen : g.isEnabled i with
      | true => rfl
      | false => exact absurd ⟨i, hi, hen⟩ hnone
    · exact .inl hrc
  · rintro (hrc | hsame | ⟨i, hi, hen⟩) ⟨hrc', hdiff, hall⟩
    · exact hrc hrc'
    · rw [hsame] at hdiff
      cases hdiff
    · rw [hall i hi] at hen
      cases hen

/-! ## One step -/

omit [DecidableEq Tid] [Fintype Tid] in
theorem quiet_init : Quiet (Sys.init : Sys Tid) where
  slot := Nat.zero_le _
  sleeper := fun _ _ h => by cases h

theorem Quiet.step {s s' : Sys Tid} {l : Label Tid} (h : Quiet s) (hname : l.nameOK = true)
    (hc : Heeded s l) (hs : step s l = some s') : Quiet s' := by
  have hcall : ∀ t name, l.caller = some (t, name) → name.strlen ≤ DS_MAXLEN → Quiet s' := by
    intro t name hl hshort
    obtain ⟨g, exit, pt, rfl, hg⟩ := step_call hl hs
    refine h.settle (hg ▸ h.slot) fun z hz => ?_
    cases exit with
    | ret rc => cases hz
    | sleep =>
        obtain rfl := Thread.asleep.inj hz
        exact ⟨hshort, fun hown => (by cases hown), fun _ => rfl, rfl⟩
  cases l with
  | wait t name => exact hcall t name rfl (of_decide_eq_true hname)
  | set t name enable pt => exact hcall t name rfl (of_decide_eq_true hname)
  | signal name woken =>
      obtain rfl := step_signal hs
      refine ⟨CStr.strlen_strndup_le .., fun t z hz => ?_⟩
      obtain ⟨z₀, hth, rfl⟩ := Thread.hear_asleep hz
      exact (h.sleeper t z₀ hth).hear fun hnone hn => decide_eq_true (hc t z₀ hth hnone hn)
  | resume t rc =>
      obtain ⟨z, hz, ⟨rc', -, rfl⟩ | ⟨hsleep, rfl⟩⟩ := step_resume hs
      · exact h.settle ((Global.leave_signal s.ds z.pt).symm ▸ h.slot) fun z' hz' => by cases hz'
      · have hq := h.sleeper t z hz
        refine h.settle h.slot fun z' hz' => ?_
        obtain rfl := Thread.asleep.inj hz'
        refine hq.again (Bool.eq_false_iff.mpr fun hcalled => ?_)
        exact (waitOn_ret_iff h.slot hq.short).mpr (hc z hz hcalled) hsleep

/-- A step that is not heeded loses a signal: the sleeper that is not
picked, or the woken thread that goes back to sleep. -/
theorem Quiet.lost {s s' : Sys Tid} {l : Label Tid} (h : Quiet s) (hc : ¬Heeded s l)
    (hs : DsDyn.step s l = some s') : ¬∀ t, (s'.threads t).Heard := by
  intro hheard
  cases l with
  | wait t name => exact hc trivial
  | set t name enable pt => exact hc trivial
  | signal name woken =>
      obtain rfl := step_signal hs
      refine hc fun t z hz hnone hname => Decidable.by_contra fun hother => ?_
      have hafter := hheard t
      simp only [hz, Thread.hear, decide_eq_false hother] at hafter
      have hcalled : (z.hear name false).called = false := hafter.1 hnone
      rw [Sleeper.hear, Bool.or_eq_false_iff, decide_eq_false_iff_not] at hcalled
      exact hcalled.2 hname
  | resume t rc =>
      obtain ⟨z, hz, hexit⟩ := step_resume hs
      refine hc fun z' hz' hcalled => ?_
      obtain rfl := Thread.asleep.inj (hz.symm.trans hz')
      refine (waitOn_ret_iff h.slot (h.sleeper t z hz).short).mp fun hsleep => ?_
      rcases hexit with ⟨rc', hret, -⟩ | ⟨-, rfl⟩
      · rw [hsleep] at hret
        cases hret
      · have hafter := hheard t
        rw [show (s.settle t s.ds (.asleep z.again)).threads t = .asleep z.again from
          Function.update_self ..] at hafter
        have hnever : z.called = false := hafter.1 rfl
        rw [hcalled] at hnever
        cases hnever

/-! ## Runs -/

/-- **No signal is lost** in a run, if and only if every signal of it is
heeded. -/
theorem signals_heard_iff {ls : List (Label Tid)} (hnames : ∀ l ∈ ls, l.nameOK = true) :
    Always step (fun s => ∀ t, (s.threads t).Heard) Sys.init ls ↔ Meets step Heeded Sys.init ls :=
  always_iff_meets (I := Quiet) (L := fun l => l.nameOK = true)
    (fun _ _ _ h hname hc hs => h.step hname hc hs) (fun _ h => h.heard)
    (fun _ _ _ h _ hc hs => h.lost hc hs) quiet_init hnames

/-- The first two names of `utest.c`. -/
def anny : CStr := ⟨[65, 78, 78, 89], by decide⟩

def benny : CStr := ⟨[66, 69, 78, 78, 89], by decide⟩

/-- Two threads are woken one after the other, each for its name. -/
def traceInTurn (t0 t1 : Tid) : List (Label Tid) :=
  [.set t0 anny true (some 0), .signal anny (some t0), .resume t0 0, .wait t1 benny,
   .signal benny (some t1), .resume t1 0]

theorem signals_heard_iff_traceInTurn :
    Always step (fun s => ∀ t, (s.threads t).Heard) Sys.init (traceInTurn (0 : Fin 2) 1) ↔
      Meets step Heeded Sys.init (traceInTurn (0 : Fin 2) 1) :=
  signals_heard_iff (by decide)

/-- Both threads sleep, and the one that waits for the other name is
picked. -/
def traceWrongPick (t0 t1 : Tid) : List (Label Tid) :=
  [.set t0 anny true (some 0), .set t1 benny true (some 1), .signal anny (some t1)]

/-- The slot is written again before the woken thread runs. -/
def traceReplaced (t0 : Tid) : List (Label Tid) :=
  [.wait t0 anny, .signal anny (some t0), .signal benny none, .resume t0 0]

theorem signals_lost :
    ((∀ l ∈ traceWrongPick (0 : Fin 2) 1, l.nameOK = true) ∧
      ¬Always step (fun s => ∀ t, (s.threads t).Heard) Sys.init (traceWrongPick (0 : Fin 2) 1)) ∧
    ((∀ l ∈ traceReplaced (0 : Fin 2), l.nameOK = true) ∧
      ¬Always step (fun s => ∀ t, (s.threads t).Heard) Sys.init (traceReplaced (0 : Fin 2))) := by
  refine ⟨⟨by decide, fun h => ?_⟩, by decide, fun h => ?_⟩
  · have hrun : (run step Sys.init (traceWrongPick (0 : Fin 2) 1)).map (fun s => s.threads 0) =
        some (.asleep { name := anny, pt := some 0, called := true }) := by
      decide +kernel
    obtain ⟨s, hs, hz⟩ := Option.map_eq_some_iff.mp hrun
    have hheard := h.last hs 0
    rw [hz] at hheard
    exact Bool.false_ne_true (hheard.1 rfl).symm
  · have hrun : (run step Sys.init (traceReplaced (0 : Fin 2))).map (fun s => s.threads 0) =
        some (.asleep { name := anny, pt := none, called := true, relapsed := true }) := by
      decide +kernel
    obtain ⟨s, hs, hz⟩ := Option.map_eq_some_iff.mp hrun
    have hheard := h.last hs 0
    rw [hz] at hheard
    exact Bool.false_ne_true hheard.2.symm

end MiscTools.DsDyn
