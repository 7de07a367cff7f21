import MiscTools.DsTable

/-!
# The mutex-protected sections of debugsync.c

Every interface function takes `ds.mtx` and holds it until it unlocks
or blocks in `pthread_cond_wait`. What runs in between is one atomic
section, a function from the globals to a `Locked`: the globals after
it, whether it called `pthread_cond_broadcast`, the local `pt`, and how
it ended. `ds_wait` and `ds_exec` have a second section, the part from
the loop test on, which runs again after each return from
`pthread_cond_wait`.

What the C library answers is a parameter: `alloc` for `strndup`, `bc`
and `rc` for the return values of `pthread_cond_broadcast` and
`pthread_cond_wait`.

`TRACE` is empty unless `DEBUG` is defined and is left out. The unlocked
check of `local_inactive` at the top of each function is in `DsSys`: it
is a step of its own.
-/

namespace MiscTools

namespace Debugsync

open DsGlobal

/-- How a section ends: blocked in `pthread_cond_wait`, returned after
unlocking, or in a failed `assert`. -/
inductive Exit
  | sleep
  | ret (rc : Int)
  | abort
deriving DecidableEq

structure Locked where
  ds : DsGlobal
  bcast : Bool := false
  pt : Option PointIdx := none
  exit : Exit

/-! ## `ds_wait` -/

/-- `ds_wait` from its loop test to the end, `rc` being the last return
value of `pthread_cond_wait` (0 before the first call). -/
def dsWaitLoop (g : DsGlobal) (i : PointIdx) (rc : Int) : Locked :=
  if rc = 0 ∧ (g.point i).inSyncwait = false ∧ (g.point i).isEnabled = true then
    { ds := g, pt := some i, exit := .sleep }
  else if (g.point i).isEnabled = false then
    { ds := g, pt := some i, exit := .ret (-1) }
  else { ds := g, pt := some i, exit := .ret rc }

def dsWait (g : DsGlobal) (alloc : Bool) (name : CStr) : Locked :=
  if g.inactive then { ds := g, exit := .ret (-1) }
  else
    match g.acquire alloc name with
    | none => { ds := g, exit := .ret (-1) }
    | some (g', i) => dsWaitLoop (g'.incBlocked i) i 0

/-! ## `ds_exec` -/

/-- `ds_exec` from its loop test to the end. -/
def dsExecLoop (g : DsGlobal) (i : PointIdx) (rc : Int) : Locked :=
  if rc = 0 ∧ (g.point i).inSyncwait = true ∧ (g.point i).isEnabled = true then
    { ds := g, pt := some i, exit := .sleep }
  else
    let g' := g.setSyncwait i false
    if (g'.point i).isEnabled = false then
      { ds := g', pt := some i, exit := .ret (-1) }
    else { ds := g', pt := some i, exit := .ret rc }

def dsExec (g : DsGlobal) (alloc : Bool) (bc : Int) (name : CStr) : Locked :=
  if g.inactive then { ds := g, exit := .ret (-1) }
  else
    match g.acquire alloc name with
    | none => { ds := g, exit := .ret (-1) }
    | some (g', i) =>
        -- busy: another executor holds the point
        if (g'.point i).isEnabled = true ∧ (g'.point i).inSyncwait = true then
          { ds := g', pt := some i, exit := .ret (-1) }
        -- idle: nobody waits
        else if (g'.point i).nblocked = 0 then
          { ds := g', pt := some i, exit := .ret 0 }
        else { dsExecLoop (g'.setSyncwait i true) i bc with bcast := true }

/-! ## `ds_unblock` -/

def dsUnblock (g : DsGlobal) (bc : Int) (name : CStr) : Locked :=
  if g.inactive then { ds := g, exit := .ret (-1) }
  else
    match g.lookUp name with
    | none => { ds := g, exit := .ret (-1) }
    | some i =>
        -- assert(pt->nblocked > 0)
        if (g.point i).nblocked = 0 then { ds := g, pt := some i, exit := .abort }
        else
          let g' := g.decBlocked i
          if (g'.point i).nblocked = 0 then
            { ds := g'.setSyncwait i false, bcast := true, pt := some i, exit := .ret bc }
          else { ds := g', pt := some i, exit := .ret 0 }

/-! ## `ds_enable`, `ds_disable_all`, `ds_activate` -/

def dsEnable (g : DsGlobal) (bc : Int) (name : CStr) (enable : Bool) : Locked :=
  if g.inactive then { ds := g, exit := .ret (-1) }
  else
    match g.lookUp name with
    | none => { ds := g, exit := .ret (-1) }
    | some i =>
        let g' := g.setEnabled i enable
        if (g'.point i).isEnabled = false ∧ 0 < (g'.point i).nblocked then
          { ds := g', bcast := true, pt := some i, exit := .ret bc }
        else { ds := g', pt := some i, exit := .ret 0 }

def dsDisableAll (g : DsGlobal) : Locked :=
  if g.inactive then { ds := g, exit := .ret 0 }
  else { ds := g.disableAll.1, bcast := g.disableAll.2, exit := .ret 0 }

/-- The locked branch of `ds_activate`. -/
def dsActivate (g : DsGlobal) (activate : Bool) : Locked :=
  if g.inactive then { ds := g.doActivate activate, exit := .ret 0 }
  else
    { ds := g.disableAll.1.doActivate activate, bcast := g.disableAll.2, exit := .ret 0 }

/-! ## What the sections do

One lemma per function, with the guard of each outcome. Callers use
these and never unfold the functions. -/

/-- The three ways out of `ds_wait`'s loop: sleep, reached (0), or
failed. The globals are not touched. -/
theorem dsWaitLoop_cases (g : DsGlobal) (i : PointIdx) (rc : Int) :
    (dsWaitLoop g i rc = { ds := g, pt := some i, exit := .sleep }
        ∧ rc = 0 ∧ (g.point i).inSyncwait = false ∧ (g.point i).isEnabled = true)
      ∨ (dsWaitLoop g i rc = { ds := g, pt := some i, exit := .ret 0 }
        ∧ rc = 0 ∧ (g.point i).inSyncwait = true ∧ (g.point i).isEnabled = true)
      ∨ ∃ rc', rc' ≠ 0
        ∧ dsWaitLoop g i rc = { ds := g, pt := some i, exit := .ret rc' }
        ∧ ((g.point i).isEnabled = false ∨ rc ≠ 0) := by
  unfold dsWaitLoop
  by_cases hen : (g.point i).isEnabled = true
  · by_cases hrc : rc = 0
    · by_cases hsw : (g.point i).inSyncwait = true
      · exact Or.inr (Or.inl ⟨by simp [hen, hrc, hsw], hrc, hsw, hen⟩)
      · rw [Bool.not_eq_true] at hsw
        exact Or.inl ⟨by simp [hen, hrc, hsw], hrc, hsw, hen⟩
    · exact Or.inr (Or.inr ⟨rc, hrc, by simp [hen, hrc], Or.inr hrc⟩)
  · rw [Bool.not_eq_true] at hen
    exact Or.inr (Or.inr ⟨-1, by decide, by simp [hen], Or.inl hen⟩)

/-- The two ways out of `ds_exec`'s loop. On the way out `in_syncwait`
is cleared, and 0 is returned only where the point is enabled. -/
theorem dsExecLoop_cases (g : DsGlobal) (i : PointIdx) (rc : Int) :
    (dsExecLoop g i rc = { ds := g, pt := some i, exit := .sleep }
        ∧ rc = 0 ∧ (g.point i).inSyncwait = true ∧ (g.point i).isEnabled = true)
      ∨ ∃ rc', dsExecLoop g i rc
          = { ds := g.setSyncwait i false, pt := some i, exit := .ret rc' }
        ∧ (rc ≠ 0 ∨ (g.point i).inSyncwait = false ∨ (g.point i).isEnabled = false)
        ∧ (rc' = 0 ↔ rc = 0 ∧ (g.point i).isEnabled = true) := by
  unfold dsExecLoop
  by_cases hen : (g.point i).isEnabled = true
  · by_cases hloop : rc = 0 ∧ (g.point i).inSyncwait = true
    · exact Or.inl ⟨by simp [hloop, hen], hloop.1, hloop.2, hen⟩
    · refine Or.inr ⟨rc, ?_, ?_, by simp [hen]⟩
      · simpa [hen] using hloop
      · by_cases hrc : rc = 0
        · exact Or.inr (Or.inl (by simpa [hrc] using hloop))
        · exact Or.inl hrc
  · rw [Bool.not_eq_true] at hen
    exact Or.inr ⟨-1, by simp [hen], Or.inr (Or.inr hen), by simp [hen]⟩

/-- `ds_exec` returns at once (inactive, no point, busy or idle), or
raises the point and holds, or raises it and drops it again in the same
section. Only a point with blocked sections is raised, and never one
that is busy. -/
theorem dsExec_cases (g : DsGlobal) (alloc : Bool) (bc : Int) (name : CStr) :
    (∃ g' pt rc, dsExec g alloc bc name = { ds := g', pt := pt, exit := .ret rc }
        ∧ (g' = g ∨ ∃ i, Acquired g name g' i))
      ∨ (∃ i, dsExec g alloc bc name
          = { ds := g.setSyncwait i true, bcast := true, pt := some i, exit := .sleep }
        ∧ g.inactive = false ∧ g.lookUp name = some i ∧ (g.point i).nblocked ≠ 0
        ∧ (g.point i).inSyncwait = false ∧ (g.point i).isEnabled = true ∧ bc = 0)
      ∨ ∃ i rc, rc ≠ 0 ∧ dsExec g alloc bc name
          = { ds := (g.setSyncwait i true).setSyncwait i false, bcast := true,
              pt := some i, exit := .ret rc }
        ∧ g.inactive = false ∧ g.lookUp name = some i ∧ (g.point i).nblocked ≠ 0
        ∧ ((g.point i).isEnabled = false ∨ (g.point i).inSyncwait = false)
        ∧ ((g.point i).isEnabled = false ∨ bc ≠ 0) := by
  unfold dsExec
  by_cases hin : g.inactive = true
  · exact Or.inl ⟨g, none, -1, by simp [hin], Or.inl rfl⟩
  rw [Bool.not_eq_true] at hin
  simp only [hin, Bool.false_eq_true, if_false]
  cases hacq : g.acquire alloc name with
  | none => exact Or.inl ⟨g, none, -1, rfl, Or.inl rfl⟩
  | some r =>
      obtain ⟨g', i⟩ := r
      have hget := acquire_eq_some hacq
      by_cases hbusy : (g'.point i).isEnabled = true ∧ (g'.point i).inSyncwait = true
      · exact Or.inl ⟨g', some i, -1, by simp [hbusy], Or.inr ⟨i, hget⟩⟩
      simp only [hbusy, if_false]
      by_cases hnb : (g'.point i).nblocked = 0
      · exact Or.inl ⟨g', some i, 0, by simp [hnb], Or.inr ⟨i, hget⟩⟩
      simp only [hnb, if_false]
      cases hget with
      | created hnone hi hcount hact hself hne => simp [hself] at hnb
      | found hlook =>
          rcases dsExecLoop_cases (g.setSyncwait i true) i bc with
            ⟨heq, hbc, -, hen⟩ | ⟨rc', heq, hout, hrc⟩
          · rw [setSyncwait_isEnabled] at hen
            refine Or.inr (Or.inl ⟨i, by rw [heq], trivial, hlook, hnb, ?_, hen, hbc⟩)
            simpa [hen] using hbusy
          · simp only [setSyncwait_isEnabled, setSyncwait_inSyncwait, if_true,
              Bool.true_eq_false, false_or] at hout hrc
            refine Or.inr (Or.inr ⟨i, rc', fun h => ?_, by rw [heq], trivial, hlook, hnb, ?_,
              hout.symm⟩)
            · obtain ⟨h1, h2⟩ := hrc.mp h
              rcases hout with hout | hout
              · exact hout h1
              · rw [h2] at hout; cases hout
            · by_cases hen : (g.point i).isEnabled = true
              · exact Or.inr (by simpa [hen] using hbusy)
              · exact Or.inl (by simpa using hen)

/-- The guard under which `ds_exec` raises point `i` and goes to sleep:
the point has blocked sections and is neither busy nor disabled. -/
def Raises (g : DsGlobal) (bc : Int) (name : CStr) (i : PointIdx) : Prop :=
  g.inactive = false ∧ g.lookUp name = some i ∧ (g.point i).nblocked ≠ 0
    ∧ (g.point i).inSyncwait = false ∧ (g.point i).isEnabled = true ∧ bc = 0

theorem dsExec_of_raises {g : DsGlobal} {alloc : Bool} {bc : Int} {name : CStr} {i : PointIdx}
    (h : Raises g bc name i) :
    dsExec g alloc bc name
      = { ds := g.setSyncwait i true, bcast := true, pt := some i, exit := .sleep } := by
  obtain ⟨hin, hlook, hnb, hsw, hen, rfl⟩ := h
  simp [dsExec, hin, acquire, hlook, hnb, hsw, dsExecLoop, hen]

/-- `ds_wait` gets no point and returns, or counts itself and enters its
loop. -/
theorem dsWait_cases (g : DsGlobal) (alloc : Bool) (name : CStr) :
    (dsWait g alloc name = { ds := g, exit := .ret (-1) }
        ∧ (g.inactive = true ∨ g.lookUp name = none))
      ∨ ∃ g' i, g.inactive = false ∧ Acquired g name g' i
        ∧ dsWait g alloc name = dsWaitLoop (g'.incBlocked i) i 0 := by
  unfold dsWait
  by_cases hin : g.inactive = true
  · exact Or.inl ⟨by simp [hin], Or.inl hin⟩
  rw [Bool.not_eq_true] at hin
  simp only [hin, Bool.false_eq_true, if_false]
  cases hacq : g.acquire alloc name with
  | none => exact Or.inl ⟨rfl, Or.inr (acquire_eq_none hacq)⟩
  | some r => exact Or.inr ⟨r.1, r.2, trivial, acquire_eq_some hacq, rfl⟩

/-- `ds_unblock` finds nothing to do, fails its assertion, ends the
rendezvous (the count reaches 0), or only takes itself off the count. -/
theorem dsUnblock_cases (g : DsGlobal) (bc : Int) (name : CStr) :
    (dsUnblock g bc name = { ds := g, exit := .ret (-1) }
        ∧ (g.inactive = true ∨ g.lookUp name = none))
      ∨ ∃ i, g.inactive = false ∧ g.lookUp name = some i
        ∧ ((dsUnblock g bc name = { ds := g, pt := some i, exit := .abort }
            ∧ (g.point i).nblocked = 0)
          ∨ (dsUnblock g bc name
              = { ds := (g.decBlocked i).setSyncwait i false, bcast := true,
                  pt := some i, exit := .ret bc }
            ∧ (g.point i).nblocked = 1)
          ∨ (dsUnblock g bc name = { ds := g.decBlocked i, pt := some i, exit := .ret 0 }
            ∧ 1 < (g.point i).nblocked)) := by
  unfold dsUnblock
  by_cases hin : g.inactive = true
  · exact Or.inl ⟨by simp [hin], Or.inl hin⟩
  rw [Bool.not_eq_true] at hin
  simp only [hin, Bool.false_eq_true, if_false]
  cases hlook : g.lookUp name with
  | none => exact Or.inl ⟨rfl, Or.inr rfl⟩
  | some i =>
      refine Or.inr ⟨i, trivial, rfl, ?_⟩
      simp only [decBlocked_nblocked, if_true]
      by_cases h0 : (g.point i).nblocked = 0
      · exact Or.inl ⟨by simp [h0], h0⟩
      by_cases h1 : (g.point i).nblocked = 1
      · exact Or.inr (Or.inl ⟨by simp [h1], h1⟩)
      · refine Or.inr (Or.inr ⟨?_, by omega⟩)
        have : ¬(g.point i).nblocked - 1 = 0 := by omega
        simp [h0, this]

/-- `ds_enable` finds no point, or sets the flag; it broadcasts when it
disables a point with blocked sections. -/
theorem dsEnable_cases (g : DsGlobal) (bc : Int) (name : CStr) (enable : Bool) :
    dsEnable g bc name enable = { ds := g, exit := .ret (-1) }
      ∨ ∃ i b rc, g.inactive = false ∧ g.lookUp name = some i
        ∧ dsEnable g bc name enable
          = { ds := g.setEnabled i enable, bcast := b, pt := some i, exit := .ret rc }
        ∧ (b = true ↔ enable = false ∧ 0 < (g.point i).nblocked) := by
  unfold dsEnable
  by_cases hin : g.inactive = true
  · exact Or.inl (by simp [hin])
  rw [Bool.not_eq_true] at hin
  simp only [hin, Bool.false_eq_true, if_false]
  cases hlook : g.lookUp name with
  | none => exact Or.inl rfl
  | some i =>
      simp only [setEnabled_isEnabled, setEnabled_nblocked, if_true]
      by_cases hb : enable = false ∧ 0 < (g.point i).nblocked
      · exact Or.inr ⟨i, true, bc, trivial, rfl, by simp [hb], by simp [hb]⟩
      · exact Or.inr ⟨i, false, 0, trivial, rfl, by simp [hb], by simpa using hb⟩

end Debugsync

end MiscTools
