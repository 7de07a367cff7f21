import MiscTools.DsSys

/-!
# What one step can do

`step_cases` inverts `step` once: every step of a system is one of the
constructors of `Step`, which states the whole successor and the guards
under which the source gets there. The invariants of the later modules
are case analyses over `Step`; none of them unfolds `step` or a section.
-/

namespace MiscTools

namespace Debugsync

open DsGlobal

variable {Tid : Type} [DecidableEq Tid]

/-- The thread is outside the facility, in the sections it was in before,
and the call it finished neither raised a point nor slept. -/
structure Thread.Plain (th th' : Thread) : Prop where
  pc : th'.pc = .idle
  sections : th'.sections = th.sections
  last : ∃ rc, th'.last = some { rc := rc }

inductive Step (s : Sys Tid) (t : Tid) : Act → Sys Tid → Prop
  /-- the unlocked part of a call -/
  | begin {c : Call} (hpc : (s.threads t).pc = .idle)
      (hposs : c.possible (s.threads t).sections = true) :
      Step s t (.call c) (s.put t ((s.threads t).begin s.ds c))
  | store (hpc : (s.threads t).pc = .activating) :
      Step s t .store
        { s.put t { s.threads t with pc := .idle } with ds := s.ds.doActivate true }
  /-- a section that returns without touching a point, but for the one
  it may have created -/
  | quit {c : Call} {env : Env} {th : Thread} {g' : DsGlobal}
      (hpc : (s.threads t).pc = .locking c) (hth : (s.threads t).Plain th)
      (hg : g' = s.ds ∨ ∃ name i, Acquired s.ds name g' i)
      (hwait : ∀ name, c = .wait name → s.ds.inactive = true ∨ s.ds.lookUp name = none)
      (hun : ∀ name k, c ≠ .unblock name k) :
      Step s t (.lock env) (s.settle t th g' false)
  /-- `ds_activate` where the facility is inactive -/
  | activate {b : Bool} {env : Env} (hpc : (s.threads t).pc = .locking (.activate b)) :
      Step s t (.lock env)
        (s.settle t ((s.threads t).finished { rc := 0 }) (s.ds.doActivate b) false)
  /-- `disable_all`, from `ds_disable_all` or `ds_activate` -/
  | disableAll {c : Call} {env : Env} {g' : DsGlobal}
      (hpc : (s.threads t).pc = .locking c)
      (hg : (c = .disableAll ∧ g' = s.ds.disableAll.1)
        ∨ ∃ b, c = .activate b ∧ g' = s.ds.disableAll.1.doActivate b) :
      Step s t (.lock env)
        (s.settle t ((s.threads t).finished { rc := 0 }) g' s.ds.disableAll.2)
  | enable {name : CStr} {enable b : Bool} {env : Env} {i : PointIdx} {rc : Int}
      (hpc : (s.threads t).pc = .locking (.enable name enable))
      (hlook : s.ds.lookUp name = some i)
      (hb : b = true ↔ enable = false ∧ 0 < (s.ds.point i).nblocked) :
      Step s t (.lock env)
        (s.settle t ((s.threads t).finished { rc := rc }) (s.ds.setEnabled i enable) b)
  /-- `ds_unblock` where the facility is inactive or has no such point -/
  | drop {name : CStr} {k : Option WaitSection} {env : Env}
      (hpc : (s.threads t).pc = .locking (.unblock name k))
      (hnone : s.ds.inactive = true ∨ s.ds.lookUp name = none) :
      Step s t (.lock env) (s.settle t ((s.threads t).unblocked k (-1)) s.ds false)
  | abort {name : CStr} {k : Option WaitSection} {env : Env} {i : PointIdx}
      (hpc : (s.threads t).pc = .locking (.unblock name k))
      (hact : s.ds.inactive = false) (hlook : s.ds.lookUp name = some i)
      (h0 : (s.ds.point i).nblocked = 0) :
      Step s t (.lock env) { s with aborted := true }
  /-- `ds_unblock` by the last blocked section: the rendezvous ends -/
  | releaseLast {name : CStr} {k : Option WaitSection} {env : Env} {i : PointIdx}
      (hpc : (s.threads t).pc = .locking (.unblock name k))
      (hact : s.ds.inactive = false) (hlook : s.ds.lookUp name = some i)
      (h1 : (s.ds.point i).nblocked = 1) :
      Step s t (.lock env)
        (s.settle t ((s.threads t).unblocked k env.bcast)
          ((s.ds.decBlocked i).setSyncwait i false) true)
  | releaseOne {name : CStr} {k : Option WaitSection} {env : Env} {i : PointIdx}
      (hpc : (s.threads t).pc = .locking (.unblock name k))
      (hact : s.ds.inactive = false) (hlook : s.ds.lookUp name = some i)
      (h1 : 1 < (s.ds.point i).nblocked) :
      Step s t (.lock env)
        (s.settle t ((s.threads t).unblocked k 0) (s.ds.decBlocked i) false)
  /-- `ds_wait` counts itself and goes to sleep -/
  | countSleep {name : CStr} {env : Env} {g' : DsGlobal} {i : PointIdx}
      (hpc : (s.threads t).pc = .locking (.wait name))
      (hacq : Acquired s.ds name g' i)
      (hsw : (g'.point i).inSyncwait = false) (hen : (g'.point i).isEnabled = true) :
      Step s t (.lock env)
        (s.settle t { s.threads t with pc := .inWait name i s.clock {} }
          (g'.incBlocked i) false)
  /-- `ds_wait` counts itself on a raised point and returns 0 -/
  | countEnter {name : CStr} {env : Env} {g' : DsGlobal} {i : PointIdx}
      (hpc : (s.threads t).pc = .locking (.wait name))
      (hacq : Acquired s.ds name g' i)
      (hsw : (g'.point i).inSyncwait = true) (hen : (g'.point i).isEnabled = true) :
      Step s t (.lock env)
        (s.settle t ((s.threads t).waited ⟨name, some i, s.clock⟩ false 0)
          (g'.incBlocked i) false)
  /-- `ds_wait` counts itself on a disabled point and fails -/
  | countFail {name : CStr} {env : Env} {g' : DsGlobal} {i : PointIdx} {rc : Int}
      (hpc : (s.threads t).pc = .locking (.wait name))
      (hacq : Acquired s.ds name g' i) (hrc : rc ≠ 0)
      (hen : (g'.point i).isEnabled = false) :
      Step s t (.lock env)
        (s.settle t ((s.threads t).waited ⟨name, some i, s.clock⟩ false rc)
          (g'.incBlocked i) false)
  /-- `ds_exec` raises the point and holds -/
  | raise {name : CStr} {env : Env} {i : PointIdx}
      (hpc : (s.threads t).pc = .locking (.exec name))
      (hact : s.ds.inactive = false) (hlook : s.ds.lookUp name = some i)
      (hnb : (s.ds.point i).nblocked ≠ 0)
      (hsw : (s.ds.point i).inSyncwait = false) (hen : (s.ds.point i).isEnabled = true)
      (hbc : env.bcast = 0) :
      Step s t (.lock env)
        (s.settle t { s.threads t with pc := .inExec i s.clock false {} }
          (s.ds.setSyncwait i true) true)
  /-- `ds_exec` raises the point and drops it in the same section -/
  | raiseDrop {name : CStr} {env : Env} {i : PointIdx} {rc : Int}
      (hpc : (s.threads t).pc = .locking (.exec name))
      (hact : s.ds.inactive = false) (hlook : s.ds.lookUp name = some i) (hrc : rc ≠ 0)
      (hnb : (s.ds.point i).nblocked ≠ 0)
      (hbusy : (s.ds.point i).isEnabled = false ∨ (s.ds.point i).inSyncwait = false)
      (hout : (s.ds.point i).isEnabled = false ∨ env.bcast ≠ 0) :
      Step s t (.lock env)
        (s.settle t ((s.threads t).finished { raised := some (i, s.clock), rc := rc })
          ((s.ds.setSyncwait i true).setSyncwait i false) true)
  /-- a sleeper in `ds_wait` goes back to sleep -/
  | wakeSleep {name : CStr} {i : PointIdx} {since : Nat} {nap : Nap} {rc : Int}
      (hpc : (s.threads t).pc = .inWait name i since nap) (hrc : rc = 0)
      (hsw : (s.ds.point i).inSyncwait = false) (hen : (s.ds.point i).isEnabled = true) :
      Step s t (.wake rc)
        (s.settle t
          { s.threads t with
            pc := .inWait name i since { relapsed := nap.disabled || nap.relapsed } }
          s.ds false)
  /-- a sleeper in `ds_wait` returns 0 -/
  | wakeEnter {name : CStr} {i : PointIdx} {since : Nat} {nap : Nap} {rc : Int}
      (hpc : (s.threads t).pc = .inWait name i since nap) (hrc : rc = 0)
      (hsw : (s.ds.point i).inSyncwait = true) (hen : (s.ds.point i).isEnabled = true) :
      Step s t (.wake rc)
        (s.settle t
          ((s.threads t).waited ⟨name, some i, since⟩ (nap.disabled || nap.relapsed) 0)
          s.ds false)
  /-- a sleeper in `ds_wait` fails -/
  | wakeFail {name : CStr} {i : PointIdx} {since : Nat} {nap : Nap} {rc rc' : Int}
      (hpc : (s.threads t).pc = .inWait name i since nap) (hrc' : rc' ≠ 0)
      (hout : (s.ds.point i).isEnabled = false ∨ rc ≠ 0) :
      Step s t (.wake rc)
        (s.settle t
          ((s.threads t).waited ⟨name, some i, since⟩ (nap.disabled || nap.relapsed) rc')
          s.ds false)
  /-- an executor goes back to sleep -/
  | holdOn {i : PointIdx} {raisedAt : Nat} {ended : Bool} {nap : Nap} {rc : Int}
      (hpc : (s.threads t).pc = .inExec i raisedAt ended nap) (hrc : rc = 0)
      (hsw : (s.ds.point i).inSyncwait = true) (hen : (s.ds.point i).isEnabled = true) :
      Step s t (.wake rc)
        (s.settle t
          { s.threads t with
            pc := .inExec i raisedAt ended { relapsed := nap.disabled || nap.relapsed } }
          s.ds false)
  /-- an executor leaves its loop, clears `in_syncwait` and returns -/
  | letGo {i : PointIdx} {raisedAt : Nat} {ended : Bool} {nap : Nap} {rc rc' : Int}
      (hpc : (s.threads t).pc = .inExec i raisedAt ended nap)
      (hout : rc ≠ 0 ∨ (s.ds.point i).inSyncwait = false
        ∨ (s.ds.point i).isEnabled = false)
      (hrc' : rc' = 0 ↔ rc = 0 ∧ (s.ds.point i).isEnabled = true) :
      Step s t (.wake rc)
        (s.settle t
          ((s.threads t).finished
            { raised := some (i, raisedAt), disabled := nap.disabled || nap.relapsed,
              rc := rc' })
          (s.ds.setSyncwait i false) false)

theorem Thread.finished_plain (th : Thread) (rc : Int) :
    th.Plain (th.finished { rc := rc }) :=
  ⟨rfl, rfl, rc, rfl⟩

theorem Thread.waited_plain (th : Thread) (k : WaitSection) {rc : Int} (h : rc ≠ 0) :
    th.Plain (th.waited k false rc) :=
  ⟨rfl, if_neg h, rc, rfl⟩

/-! ## The sections, one by one -/

section Sections

variable {s : Sys Tid} {t : Tid}

/-- The successor of the section that runs `c` in thread `t`. -/
def Sys.sectionOf (s : Sys Tid) (t : Tid) (c : Call) (env : Env) : Sys Tid :=
  s.close t ((s.threads t).after s.clock (c.locked s.ds env) c) (c.locked s.ds env)

theorem step_wait {name : CStr} {env : Env}
    (hpc : (s.threads t).pc = .locking (.wait name)) :
    Step s t (.lock env) (s.sectionOf t (.wait name) env) := by
  rw [Sys.sectionOf, Call.locked]
  rcases dsWait_cases s.ds env.alloc name with ⟨h, hnone⟩ | ⟨g', i, -, hacq, h⟩
  · rw [h]
    refine .quit hpc (Thread.waited_plain _ _ (by decide)) (Or.inl rfl) ?_ (by simp)
    rintro _ ⟨⟩
    exact hnone
  · rw [h]
    rcases dsWaitLoop_cases (g'.incBlocked i) i 0 with
      ⟨h, -, hsw, hen⟩ | ⟨h, -, hsw, hen⟩ | ⟨rc', hrc', h, hout⟩
    · rw [h]
      exact .countSleep hpc hacq (by simpa using hsw) (by simpa using hen)
    · rw [h]
      exact .countEnter hpc hacq (by simpa using hsw) (by simpa using hen)
    · rw [h]
      exact .countFail hpc hacq hrc' (by simpa using hout)

theorem step_exec {name : CStr} {env : Env}
    (hpc : (s.threads t).pc = .locking (.exec name)) :
    Step s t (.lock env) (s.sectionOf t (.exec name) env) := by
  rw [Sys.sectionOf, Call.locked]
  rcases dsExec_cases s.ds env.alloc env.bcast name with
    ⟨g', pt, rc, h, hg⟩ | ⟨i, h, hact, hlook, hnb, hsw, hen, hbc⟩
      | ⟨i, rc, hrc, h, hact, hlook, hnb, hbusy, hout⟩
  · rw [h]
    have hg' : g' = s.ds ∨ ∃ name i, Acquired s.ds name g' i :=
      hg.imp id fun ⟨i, hi⟩ => ⟨name, i, hi⟩
    cases pt with
    | none => exact .quit hpc (Thread.finished_plain _ rc) hg' (by simp) (by simp)
    | some i => exact .quit hpc (Thread.finished_plain _ rc) hg' (by simp) (by simp)
  · rw [h]
    exact .raise hpc hact hlook hnb hsw hen hbc
  · rw [h]
    exact .raiseDrop hpc hact hlook hrc hnb hbusy hout

theorem step_unblock {name : CStr} {k : Option WaitSection} {env : Env}
    (hpc : (s.threads t).pc = .locking (.unblock name k)) :
    Step s t (.lock env) (s.sectionOf t (.unblock name k) env) := by
  rw [Sys.sectionOf, Call.locked]
  rcases dsUnblock_cases s.ds env.bcast name with
    ⟨h, hnone⟩ | ⟨i, hact, hlook, ⟨h, h0⟩ | ⟨h, h1⟩ | ⟨h, h1⟩⟩
  · rw [h]
    exact .drop hpc hnone
  · rw [h]
    exact .abort hpc hact hlook h0
  · rw [h]
    exact .releaseLast hpc hact hlook h1
  · rw [h]
    exact .releaseOne hpc hact hlook h1

theorem step_enable {name : CStr} {b : Bool} {env : Env}
    (hpc : (s.threads t).pc = .locking (.enable name b)) :
    Step s t (.lock env) (s.sectionOf t (.enable name b) env) := by
  rw [Sys.sectionOf, Call.locked]
  rcases dsEnable_cases s.ds env.bcast name b with h | ⟨i, b', rc, -, hlook, h, hb⟩
  · rw [h]
    exact .quit hpc (Thread.finished_plain _ _) (Or.inl rfl) (by simp) (by simp)
  · rw [h]
    exact .enable hpc hlook hb

theorem step_disableAll {env : Env} (hpc : (s.threads t).pc = .locking .disableAll) :
    Step s t (.lock env) (s.sectionOf t .disableAll env) := by
  rw [Sys.sectionOf, Call.locked, dsDisableAll]
  split
  · exact .quit hpc (Thread.finished_plain _ _) (Or.inl rfl) (by simp) (by simp)
  · exact .disableAll hpc (Or.inl ⟨rfl, rfl⟩)

theorem step_activate {b : Bool} {env : Env}
    (hpc : (s.threads t).pc = .locking (.activate b)) :
    Step s t (.lock env) (s.sectionOf t (.activate b) env) := by
  rw [Sys.sectionOf, Call.locked, dsActivate]
  split
  · exact .activate hpc
  · exact .disableAll hpc (Or.inr ⟨b, rfl, rfl⟩)

theorem step_wakeWait {name : CStr} {i : PointIdx} {since : Nat} {nap : Nap} {rc : Int}
    (hpc : (s.threads t).pc = .inWait name i since nap) :
    Step s t (.wake rc)
      (s.close t ((s.threads t).afterWait name i since nap (dsWaitLoop s.ds i rc).exit)
        (dsWaitLoop s.ds i rc)) := by
  rcases dsWaitLoop_cases s.ds i rc with
    ⟨h, hrc, hsw, hen⟩ | ⟨h, hrc, hsw, hen⟩ | ⟨rc', hrc', h, hout⟩
  · rw [h]
    exact .wakeSleep hpc hrc hsw hen
  · rw [h]
    exact .wakeEnter hpc hrc hsw hen
  · rw [h]
    exact .wakeFail hpc hrc' hout

theorem step_wakeExec {i : PointIdx} {raisedAt : Nat} {ended : Bool} {nap : Nap} {rc : Int}
    (hpc : (s.threads t).pc = .inExec i raisedAt ended nap) :
    Step s t (.wake rc)
      (s.close t
        ((s.threads t).afterExec i raisedAt ended nap (dsExecLoop s.ds i rc).exit)
        (dsExecLoop s.ds i rc)) := by
  rcases dsExecLoop_cases s.ds i rc with ⟨h, hrc, hsw, hen⟩ | ⟨rc', h, hout, hrc'⟩
  · rw [h]
    exact .holdOn hpc hrc hsw hen
  · rw [h]
    exact .letGo hpc hout hrc'

end Sections

/-- **Inversion.** Every step of the system is one of the cases of
`Step`, taken by a program that has not aborted. -/
theorem step_cases {s s' : Sys Tid} {l : Label Tid} (h : step s l = some s') :
    s.aborted = false ∧ Step s l.tid l.act s' := by
  unfold step at h
  split at h
  · cases h
  rename_i hab
  refine ⟨by simpa using hab, ?_⟩
  simp only at h
  split at h
  · rename_i c hact hpc
    split at h
    · rename_i hposs
      obtain rfl := Option.some.inj h
      rw [hact]
      exact .begin hpc hposs
    · cases h
  · rename_i env c hact hpc
    obtain rfl := Option.some.inj h
    rw [hact]
    cases c with
    | wait name => exact step_wait hpc
    | exec name => exact step_exec hpc
    | unblock name k => exact step_unblock hpc
    | enable name b => exact step_enable hpc
    | disableAll => exact step_disableAll hpc
    | activate b => exact step_activate hpc
  · rename_i hact hpc
    obtain rfl := Option.some.inj h
    rw [hact]
    exact .store hpc
  · rename_i rc name i since nap hact hpc
    obtain rfl := Option.some.inj h
    rw [hact]
    exact step_wakeWait hpc
  · rename_i rc i raisedAt ended nap hact hpc
    obtain rfl := Option.some.inj h
    rw [hact]
    exact step_wakeExec hpc
  · cases h

end Debugsync

end MiscTools
