import MiscTools.DsInactive
import MiscTools.DsWake

/-!
# Activating debugsync twice

`ds_activate(true)` sets `DS_ACTIVE` without the mutex where the facility
is inactive and local, and under the mutex everywhere else. The second
path first runs `disable_all` if the facility is active, whichever way it
is about to be switched: the branch is there to err out what is pending
when the facility is switched off (`deactivate_step`), and a facility
that is only switched on once more goes through it too.

`activation_idempotent_iff` is the exact condition: the call finds nothing
to disable.
-/

namespace MiscTools

namespace Debugsync

open DsGlobal Runs

variable {Tid : Type}

/-! ## What activation is for -/

/-- In `ds_activate(true)`, past the unlocked check. -/
def Thread.Activates (th : Thread) : Prop :=
  th.pc = .activating ∨ th.pc = .locking (.activate true)

/-- Nothing but `DS_ACTIVE` is set: the points stay as they are, and no
other thread is woken or has its point disabled. -/
structure OnlyActivates (t : Tid) (s s' : Sys Tid) : Prop where
  points : s'.ds.point = s.ds.point
  count : s'.ds.count = s.ds.count
  activation : s'.ds.activation = s.ds.activation ||| DS_ACTIVE
  others : ∀ u, u ≠ t → s'.threads u = s.threads u

/-- The points are disabled, and whoever is counted on one that was
enabled is woken. -/
structure ErrsOut (t : Tid) (s s' : Sys Tid) : Prop where
  disabled : ∀ i : PointIdx, i.val < s.ds.count → (s'.ds.point i).isEnabled = false
  woken : ∀ i : PointIdx, i.val < s.ds.count → (s.ds.point i).isEnabled = true →
    0 < (s.ds.point i).nblocked → ∀ u, u ≠ t → ∀ c nap,
      (s'.threads u).pc.asleep = some (i, c, nap) → nap.signalled = true ∧ nap.disabled = true

variable [DecidableEq Tid]

/-- The step is not one of `ds_activate(true)`, or it only activates; and
`ds_activate(false)` errs out what is pending. -/
def Idempotent (s : Sys Tid) (l : Label Tid) : Prop :=
  ∀ s', step s l = some s' →
    (l.act = .call (.activate true) →
      s'.ds = s.ds ∧ ∀ u, u ≠ l.tid → s'.threads u = s.threads u)
    ∧ ((s.threads l.tid).Activates → OnlyActivates l.tid s s')
    ∧ ((s.threads l.tid).pc = .locking (.activate false) → s.ds.inactive = false →
      ErrsOut l.tid s s')

omit [DecidableEq Tid] in
/-- A `ds_activate(true)` that gets the mutex finds the facility inactive
or no point enabled. -/
def NothingEnabled (s : Sys Tid) (l : Label Tid) : Prop :=
  (s.threads l.tid).pc = .locking (.activate true) →
    s.ds.inactive = true
      ∨ ∀ i : PointIdx, i.val < s.ds.count → (s.ds.point i).isEnabled = false

/-! ## The step -/

theorem Nap.observe_same {g g' : DsGlobal} (h : g'.point = g.point) (i : PointIdx) (nap : Nap) :
    nap.observe g g' false i = nap := by
  cases nap
  simp [Nap.observe, h]

/-- A section that leaves the points and does not broadcast is not
noticed. -/
theorem Thread.observe_same {g g' : DsGlobal} (h : g'.point = g.point) (th : Thread) :
    th.observe g g' false = th := by
  obtain ⟨pc, sections, last⟩ := th
  cases pc with
  | inExec i raisedAt ended nap =>
      have hcount : ∀ n : Nat, (decide (0 < n) && decide (n = 0)) = false := by
        intro n
        cases n <;> rfl
      simp [Thread.observe, Pc.observe, Nap.observe_same h, h, hcount]
  | inWait name i since nap => simp [Thread.observe, Pc.observe, Nap.observe_same h]
  | idle => rfl
  | locking c => rfl
  | activating => rfl

/-- `disable_all` finds nothing to do. -/
theorem disableAll_of_nothing {g : DsGlobal}
    (h : ∀ i : PointIdx, i.val < g.count → (g.point i).isEnabled = false) :
    g.disableAll.1.point = g.point ∧ g.disableAll.2 = false := by
  constructor
  · funext j
    have hen : (g.disableAll.1.point j).isEnabled = (g.point j).isEnabled := by
      rw [disableAll_isEnabled]
      by_cases hj : j.val < g.count
      · rw [h j hj, Bool.false_and]
      · rw [decide_eq_true (Nat.not_lt.mp hj), Bool.and_true]
    have hname := disableAll_name g j
    have hsw := disableAll_inSyncwait g j
    have hnb := disableAll_nblocked g j
    generalize g.disableAll.1.point j = p at *
    generalize g.point j = q at *
    obtain ⟨_, _, _, _⟩ := p
    obtain ⟨_, _, _, _⟩ := q
    simp_all
  · refine Bool.eq_false_iff.mpr fun hb => ?_
    obtain ⟨j, hj, hen, -⟩ := (disableAll_snd g).mp hb
    rw [h j hj] at hen
    cases hen

theorem disableAll_activation (g : DsGlobal) : g.disableAll.1.activation = g.activation :=
  (disableAllLoop_spec g _).2.1

section

variable {s s' : Sys Tid} {t : Tid} {act : Act}

/-- The section under the mutex. -/
theorem activate_lock {b : Bool} (hpc : (s.threads t).pc = .locking (.activate b))
    (h : step s ⟨t, act⟩ = some s') :
    s' = s.settle t ((s.threads t).finished { rc := 0 }) (dsActivate s.ds b).ds
      (dsActivate s.ds b).bcast := by
  unfold step at h
  split at h
  · cases h
  · simp only [hpc] at h
    cases act with
    | lock env =>
        obtain rfl := Option.some.inj h
        have hexit : (dsActivate s.ds b).exit = .ret 0 := by
          rw [dsActivate]
          split <;> rfl
        simp only [Call.locked, Sys.close, Thread.after, hexit]
    | call c => cases h
    | store => cases h
    | wake rc => cases h

/-- Under the mutex `ds_activate(true)` only activates just if there is
nothing to disable. -/
theorem activate_step_iff (hpc : (s.threads t).pc = .locking (.activate true))
    (h : step s ⟨t, act⟩ = some s') :
    OnlyActivates t s s' ↔ s.ds.inactive = true
      ∨ ∀ i : PointIdx, i.val < s.ds.count → (s.ds.point i).isEnabled = false := by
  obtain rfl := activate_lock hpc h
  cases hin : s.ds.inactive with
  | true =>
      refine iff_of_true ?_ (.inl rfl)
      rw [dsActivate, if_pos hin]
      refine ⟨rfl, rfl, rfl, fun u hu => ?_⟩
      rw [Sys.settle_threads_ne _ _ _ _ hu]
      exact Thread.observe_same rfl _
  | false =>
      rw [dsActivate, if_neg (Bool.eq_false_iff.mp hin)]
      constructor
      · intro honly
        refine .inr fun i hi => ?_
        have hsame := congrFun honly.points i
        have hoff := disableAll_isEnabled s.ds i
        rw [decide_eq_false (Nat.not_le.mpr hi), Bool.and_false] at hoff
        rwa [← hsame]
      · rintro (hcases | hnone)
        · cases hcases
        · obtain ⟨hpoint, hbcast⟩ := disableAll_of_nothing hnone
          refine ⟨hpoint, disableAll_count _, ?_, fun u hu => ?_⟩
          · show (s.ds.disableAll.1.activation ||| DS_ACTIVE) = _
            rw [disableAll_activation]
          · rw [Sys.settle_threads_ne _ _ _ _ hu, hbcast]
            exact Thread.observe_same hpoint _

/-- The unlocked store only activates. -/
theorem activate_store (hpc : (s.threads t).pc = .activating) (h : step s ⟨t, act⟩ = some s') :
    OnlyActivates t s s' := by
  obtain ⟨-, hstep⟩ := step_cases h
  cases hstep with
  | store _ =>
      refine ⟨rfl, rfl, rfl, fun u hu => ?_⟩
      exact Sys.put_threads_ne s _ hu
  | _ => simp_all

/-- An active facility that is switched off errs out what is pending. -/
theorem deactivate_step (hpc : (s.threads t).pc = .locking (.activate false))
    (hactive : s.ds.inactive = false) (h : step s ⟨t, act⟩ = some s') : ErrsOut t s s' := by
  obtain rfl := activate_lock hpc h
  rw [dsActivate, if_neg (Bool.eq_false_iff.mp hactive)]
  have hoff : ∀ i : PointIdx, i.val < s.ds.count →
      (s.ds.disableAll.1.point i).isEnabled = false := by
    intro i hi
    rw [disableAll_isEnabled, decide_eq_false (Nat.not_le.mpr hi), Bool.and_false]
  refine ⟨hoff, fun i hi hen hnb u hu c nap hnap => ?_⟩
  rw [Sys.settle_threads_ne _ _ _ _ hu, Thread.observe_pc, Pc.observe_asleep,
    Option.map_eq_some_iff] at hnap
  obtain ⟨⟨j, c', nap₀⟩, -, heq⟩ := hnap
  simp only [Prod.mk.injEq] at heq
  obtain ⟨rfl, rfl, rfl⟩ := heq
  have hbcast := (disableAll_snd s.ds).mpr ⟨j, hi, hen, hnb⟩
  simp [Nap.observe, hbcast, hen, hi]

theorem idempotent_step_iff {l : Label Tid} (h : step s l = some s') :
    Idempotent s l ↔ NothingEnabled s l := by
  obtain ⟨t, act⟩ := l
  constructor
  · intro hidem hpc
    exact (activate_step_iff hpc h).mp ((hidem s' h).2.1 (.inr hpc))
  · intro hnothing s₁ hs₁
    refine ⟨?_, ?_, fun hpc hactive => deactivate_step hpc hactive hs₁⟩
    · rintro rfl
      obtain rfl := step_call_eq hs₁
      exact ⟨rfl, fun u hu => Sys.put_threads_ne s _ hu⟩
    · rintro (hpc | hpc)
      · exact activate_store hpc hs₁
      · exact (activate_step_iff hpc hs₁).mpr (hnothing hpc)

end

/-! ## Runs -/

/-- **Activation is idempotent** in a run, if and only if no
`ds_activate(true)` gets the mutex while the facility is active and a
point is enabled. -/
theorem activation_idempotent_iff (activationFlags : BitVec 32) (ls : List (Label Tid)) :
    Meets step Idempotent (Sys.init activationFlags) ls
      ↔ Meets step NothingEnabled (Sys.init activationFlags) ls :=
  meets_iff_meets (I := fun _ => True) (fun _ _ _ _ _ _ => trivial)
    (fun _ _ _ _ h => idempotent_step_iff h) trivial

/-- A `ds_wait` sleeps on its point when another thread activates the
facility once more. -/
def traceAgain (t0 t1 : Tid) : List (Label Tid) :=
  [⟨t0, .call (.wait .empty)⟩, ⟨t0, .lock {}⟩, ⟨t1, .call (.activate true)⟩] ++
  [⟨t1, .lock {}⟩]

/-- The point is disabled, and the `ds_wait` fails. -/
theorem activated_again_fails :
    ¬Meets step Idempotent (Sys.init DS_ACTIVE) (traceAgain (0 : Fin 2) 1)
      ∧ (run step (Sys.init DS_ACTIVE) (traceAgain (0 : Fin 2) 1 ++ [⟨0, .wake 0⟩])).bind
          (fun s => (s.threads 0).last) = some { disabled := true, rc := -1 } := by
  constructor
  · intro hmeets
    have hbefore : (run step (Sys.init DS_ACTIVE)
        [⟨0, .call (.wait .empty)⟩, ⟨0, .lock {}⟩, ⟨1, .call (.activate true)⟩]).map
        (fun s : Sys (Fin 2) => (s.aborted, (s.threads 1).pc, s.ds.inactive,
          decide (0 < s.ds.count), (s.ds.point 0).isEnabled))
          = some (false, .locking (.activate true), false, true, true) := by
      decide +kernel
    obtain ⟨s, hs, hview⟩ := Option.map_eq_some_iff.mp hbefore
    simp only [Prod.mk.injEq, decide_eq_true_eq] at hview
    obtain ⟨hab, hpc, hactive, hcount, hen⟩ := hview
    have hstep : ∃ s', step s ⟨1, .lock {}⟩ = some s' := by
      rw [step, if_neg (Bool.eq_false_iff.mp hab)]
      simp [hpc]
    obtain ⟨s', hs'⟩ := hstep
    rcases (idempotent_step_iff hs').mp (hmeets.reached hs hs') hpc with hin | hnone
    · rw [hactive] at hin
      cases hin
    · rw [hnone 0 hcount] at hen
      cases hen
  · decide +kernel

end Debugsync

end MiscTools
