import MiscTools.DsBacked

/-!
# Calls made while debugsync is inactive

Each of `ds_wait`, `ds_exec`, `ds_unblock` and `ds_enable` looks twice
whether the facility is inactive: before it takes the mutex, where
`DS_GLOBAL` has to be clear too, and under it, where another thread may
have cleared `DS_ACTIVE` in between. Both exits leave the points alone
(`LeavesInactive.outcome`). The first one returns 0; the second one breaks
out with `pt` still NULL, which the last line of the function takes for
a failure (`inactive_transparent_iff`).
-/

namespace MiscTools

namespace Debugsync

open DsGlobal Runs

/-- The functions that take the name of a point. -/
def Call.onPoint : Call → Bool
  | .wait _ => true
  | .exec _ => true
  | .unblock _ _ => true
  | .enable _ _ => true
  | .disableAll => false
  | .activate _ => false

variable {Tid : Type} [DecidableEq Tid]

/-- Thread `t` makes the call `c` in `s`, and leaves it for an inactive
facility in the step from `b` to `s'`. -/
inductive LeavesInactive (s : Sys Tid) (t : Tid) (c : Call) : Sys Tid → Sys Tid → Prop
  | unlocked {s' : Sys Tid} (hlocal : s.ds.localInactive = true)
      (hcall : step s ⟨t, .call c⟩ = some s') : LeavesInactive s t c s s'
  /-- the other threads go on until `t` gets the mutex -/
  | locked {s₁ b s' : Sys Tid} {ls : List (Label Tid)} {env : Env}
      (hlocal : s.ds.localInactive = false) (hcall : step s ⟨t, .call c⟩ = some s₁)
      (hothers : ∀ l ∈ ls, t ≠ l.tid) (hrun : run step s₁ ls = some b)
      (hinactive : b.ds.inactive = true) (hlock : step b ⟨t, .lock env⟩ = some s') :
      LeavesInactive s t c b s'

/-- The call returned 0 and its last step left the points as they were. -/
structure Transparent (t : Tid) (b s' : Sys Tid) : Prop where
  returned : ∃ d, (s'.threads t).last = some d ∧ d.rc = 0
  table : s'.ds = b.ds

/-! ## The two exits -/

theorem Call.locked_inactive {c : Call} (hc : c.onPoint = true) {g : DsGlobal}
    (hg : g.inactive = true) (env : Env) : c.locked g env = { ds := g, exit := .ret (-1) } := by
  cases c with
  | wait name => exact if_pos hg
  | exec name => exact if_pos hg
  | unblock name k => exact if_pos hg
  | enable name b => exact if_pos hg
  | disableAll => cases hc
  | activate b => cases hc

/-- The unlocked exit returns 0. -/
theorem Thread.skip_last {c : Call} (hc : c.onPoint = true) (th : Thread) {g : DsGlobal}
    (hg : g.localInactive = true) : (th.begin g c).last = some { rc := 0 } := by
  unfold Thread.begin
  rw [if_pos hg]
  cases c with
  | wait name => rfl
  | exec name => rfl
  | unblock name k => rfl
  | enable name b => rfl
  | disableAll => cases hc
  | activate b => cases hc

/-- The exit under the mutex returns -1. -/
theorem Thread.after_last {c : Call} (hc : c.onPoint = true) (th : Thread) (now : Nat)
    (g : DsGlobal) :
    (th.after now { ds := g, exit := .ret (-1) } c).last = some { rc := -1 } := by
  cases c with
  | wait name => rfl
  | exec name => rfl
  | unblock name k => rfl
  | enable name b => rfl
  | disableAll => cases hc
  | activate b => cases hc

/-! ## A call among other threads -/

section

variable {s b s' : Sys Tid} {t : Tid} {c : Call}

theorem step_call_eq (h : step s ⟨t, .call c⟩ = some s') :
    s' = s.put t ((s.threads t).begin s.ds c) := by
  obtain ⟨-, hstep⟩ := step_cases h
  cases hstep
  rfl

/-- Nobody else takes a thread from its place before the mutex. -/
theorem step_other_locking {l : Label Tid} (hne : t ≠ l.tid) (h : step s l = some s')
    (hpc : (s.threads t).pc = .locking c) : (s'.threads t).pc = .locking c := by
  obtain ⟨u, act⟩ := l
  obtain ⟨-, hstep⟩ := step_cases h
  cases hstep <;> simp [Sys.put_threads_ne, Sys.settle_threads_ne, hne, hpc]

theorem run_others_locking {ls : List (Label Tid)} : ∀ {s : Sys Tid}, (∀ l ∈ ls, t ≠ l.tid) →
    run step s ls = some b → (s.threads t).pc = .locking c → (b.threads t).pc = .locking c := by
  induction ls with
  | nil =>
      intro s _ hrun hpc
      obtain rfl := Option.some.inj hrun
      exact hpc
  | cons l ls ih =>
      intro s hothers hrun hpc
      obtain ⟨s₁, hs, hrest⟩ := run_cons_eq_some.mp hrun
      exact ih (fun l' hl' => hothers l' (List.mem_cons_of_mem _ hl')) hrest
        (step_other_locking (hothers l List.mem_cons_self) hs hpc)

/-- Under the mutex an inactive facility is a failed call. -/
theorem step_lock_inactive (hc : c.onPoint = true) (hb : b.ds.inactive = true) {env : Env}
    (hpc : (b.threads t).pc = .locking c) (h : step b ⟨t, .lock env⟩ = some s') :
    (s'.threads t).last = some { rc := -1 } ∧ s'.ds = b.ds := by
  unfold step at h
  split at h
  · cases h
  · simp only [hpc, Call.locked_inactive hc hb, Sys.close] at h
    obtain rfl := Option.some.inj h
    refine ⟨?_, rfl⟩
    rw [Sys.settle_threads_self]
    exact Thread.after_last hc _ _ _

/-- Neither exit touches the points, and what the call returns tells by
which one it left. -/
theorem LeavesInactive.outcome (hc : c.onPoint = true) (h : LeavesInactive s t c b s') :
    (s'.threads t).last = some { rc := if s.ds.localInactive then 0 else -1 } ∧ s'.ds = b.ds := by
  cases h with
  | unlocked hlocal hcall =>
      obtain rfl := step_call_eq hcall
      refine ⟨?_, rfl⟩
      rw [Sys.put_threads_self, Thread.skip_last hc _ hlocal, if_pos hlocal]
  | locked hlocal hcall hothers hrun hinactive hlock =>
      obtain rfl := step_call_eq hcall
      have hstart : ((s.put t ((s.threads t).begin s.ds c)).threads t).pc = .locking c := by
        rw [Sys.put_threads_self]
        unfold Thread.begin
        rw [if_neg (Bool.eq_false_iff.mp hlocal)]
      have hpc := run_others_locking hothers hrun hstart
      rw [if_neg (Bool.eq_false_iff.mp hlocal)]
      exact step_lock_inactive hc hinactive hpc hlock

/-- **An inactive facility is transparent** to a call just if the call
leaves by the unlocked exit: `DS_ACTIVE` and `DS_GLOBAL` are both clear
when it is made. -/
theorem inactive_transparent_iff (hc : c.onPoint = true) (h : LeavesInactive s t c b s') :
    Transparent t b s' ↔ s.ds.localInactive = true := by
  obtain ⟨hlast, htable⟩ := h.outcome hc
  constructor
  · rintro ⟨⟨d, hd, hrc⟩, -⟩
    rw [hlast] at hd
    obtain rfl := Option.some.inj hd
    cases hlocal : s.ds.localInactive with
    | true => rfl
    | false =>
        rw [hlocal] at hrc
        cases hrc
  · intro hlocal
    rw [hlocal] at hlast
    exact ⟨⟨_, hlast, rfl⟩, htable⟩

end

/-- `ds_init(0)` and a `ds_wait`. -/
theorem inactive_transparent_iff_wait :
    ∃ s' : Sys Unit, LeavesInactive (Sys.init 0) () (.wait .empty) (Sys.init 0) s' ∧
      (Transparent () (Sys.init 0) s' ↔ (dsInit 0).localInactive = true) := by
  have hcall : step (Sys.init 0) ⟨(), .call (.wait .empty)⟩
      = some ((Sys.init 0).put () (Thread.skip {} (.wait .empty))) := rfl
  exact ⟨_, .unlocked rfl hcall, inactive_transparent_iff rfl (.unlocked rfl hcall)⟩

/-- With `DS_GLOBAL` set, `ds_exec` fails in a facility that has never
been active. -/
theorem inactive_exec_fails :
    ¬∀ (s b s' : Sys Unit) (t : Unit) (c : Call), c.onPoint = true → LeavesInactive s t c b s' →
      Transparent t b s' := by
  intro hall
  let b : Sys Unit := (Sys.init DS_GLOBAL).put () { pc := .locking (.exec .empty) }
  have hcall : step (Sys.init DS_GLOBAL) ⟨(), .call (.exec .empty)⟩ = some b := rfl
  obtain ⟨s', hlock⟩ : ∃ s', step b ⟨(), .lock {}⟩ = some s' := ⟨_, rfl⟩
  have hinactive : b.ds.inactive = true := by decide
  have hleaves := LeavesInactive.locked rfl hcall (fun l hl => absurd hl List.not_mem_nil) rfl
    hinactive hlock
  obtain ⟨⟨d, hd, hrc⟩, -⟩ := hall _ _ _ () _ rfl hleaves
  rw [(hleaves.outcome rfl).1] at hd
  obtain rfl := Option.some.inj hd
  exact absurd hrc (by decide)

end Debugsync

end MiscTools
