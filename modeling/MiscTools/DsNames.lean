import MiscTools.DsBacked

/-!
# Sync points and their names

A point is known by its name, and the name is handled in two places:
`create_new` stores at most 32 characters of it, `look_up` compares all
of it. `Log` is the system of `DsSys` with the record of what every
`acquire` inside `ds_wait` and `ds_exec` has returned so far; `Unique`
says that the table has one point for one name and that a name acquired
once is found again.

A name that fits is stored whole, so it stays the name of its point. A
longer one is stored cut off: no later `look_up` finds it, and the next
`acquire` makes another point. `unique_by_name` says that this is all
that can go wrong.
-/

namespace MiscTools

namespace Debugsync

open DsGlobal Runs

/-! ## What a section acquires -/

/-- The name a call acquires a point for. -/
def Call.acquires : Call → Option CStr
  | .wait name => some name
  | .exec name => some name
  | _ => none

/-- What the step asks `acquire` for, if it runs the section of a call
that does. -/
def Label.acquires {Tid : Type} (s : Sys Tid) (l : Label Tid) : Option (CStr × Env) :=
  match l.act, (s.threads l.tid).pc with
  | .lock env, .locking c => c.acquires.map fun name => (name, env)
  | _, _ => none

/-- The name and the point, where `acquire` returns one. -/
def Label.acquired {Tid : Type} (s : Sys Tid) (l : Label Tid) : List (CStr × PointIdx) :=
  match l.acquires s with
  | none => []
  | some (name, env) =>
      if s.ds.inactive then []
      else ((s.ds.acquire env.alloc name).map fun r => (name, r.2)).toList

structure Log (Tid : Type) where
  sys : Sys Tid
  acquired : List (CStr × PointIdx)

variable {Tid : Type}

section Steps

variable [DecidableEq Tid]

def Log.init (activationFlags : BitVec 32) : Log Tid where
  sys := Sys.init activationFlags
  acquired := []

def logStep (s : Log Tid) (l : Label Tid) : Option (Log Tid) :=
  (step s.sys l).map fun s' => ⟨s', l.acquired s.sys ++ s.acquired⟩

end Steps

/-- One point for one name: no two entries of the table have the same
one, and what was acquired is what `look_up` and `acquire` return. -/
structure Unique (s : Log Tid) : Prop where
  names : ∀ i j : PointIdx, i.val < s.sys.ds.count → j.val < s.sys.ds.count →
    (s.sys.ds.point i).name = (s.sys.ds.point j).name → i = j
  again : ∀ p ∈ s.acquired, s.sys.ds.lookUp p.1 = some p.2
    ∧ ∀ alloc, s.sys.ds.acquire alloc p.1 = some (s.sys.ds, p.2)
  apart : ∀ p ∈ s.acquired, ∀ q ∈ s.acquired, p.1.strlen ≤ DS_MAX_POINT_NAME_LEN →
    q.1.strlen ≤ DS_MAX_POINT_NAME_LEN → p.1 ≠ q.1 → p.2 ≠ q.2

/-- A `ds_wait` or `ds_exec` that finds the facility active, the table
not full and memory for the name names its point by at most 32
characters. -/
def NameOK (s : Log Tid) (l : Label Tid) : Prop :=
  ∀ p ∈ l.acquires s.sys, s.sys.ds.inactive = false → p.2.alloc = true →
    s.sys.ds.count < DS_MAX_POINT_COUNT → p.1.strlen ≤ DS_MAX_POINT_NAME_LEN

instance (s : Log Tid) (l : Label Tid) : Decidable (NameOK s l) := by
  unfold NameOK
  infer_instance

/-! ## Names across a section -/

/-- The table has the same names. -/
structure SameNames (g g' : DsGlobal) : Prop where
  count : g'.count = g.count
  name : ∀ j, (g'.point j).name = (g.point j).name

theorem SameNames.refl (g : DsGlobal) : SameNames g g := ⟨rfl, fun _ => rfl⟩

theorem Exit.ret_ne_abort (rc : Int) : Exit.ret rc ≠ .abort := nofun

/-- The section leaves the names of the table as they are, and no
assertion of it fails. -/
structure Keeps (g : DsGlobal) (out : Locked) : Prop where
  names : SameNames g out.ds
  abort : out.exit ≠ .abort

theorem keeps_waitLoop (g : DsGlobal) (i : PointIdx) (rc : Int) :
    Keeps g (dsWaitLoop g i rc) := by
  rcases dsWaitLoop_cases g i rc with ⟨h, -⟩ | ⟨h, -⟩ | ⟨rc', -, h, -⟩ <;> rw [h]
  · exact ⟨.refl g, nofun⟩
  · exact ⟨.refl g, Exit.ret_ne_abort 0⟩
  · exact ⟨.refl g, Exit.ret_ne_abort rc'⟩

theorem keeps_execLoop (g : DsGlobal) (i : PointIdx) (rc : Int) :
    Keeps g (dsExecLoop g i rc) := by
  rcases dsExecLoop_cases g i rc with ⟨h, -⟩ | ⟨rc', h, -⟩ <;> rw [h]
  · exact ⟨.refl g, nofun⟩
  · exact ⟨⟨rfl, by simp⟩, Exit.ret_ne_abort rc'⟩

theorem Keeps.of_names {g g' : DsGlobal} {out : Locked} (hg : SameNames g g')
    (h : Keeps g' out) : Keeps g out :=
  ⟨⟨h.names.count.trans hg.count, fun j => (h.names.name j).trans (hg.name j)⟩, h.abort⟩

/-- What a section that acquires may do: nothing happens where the
facility is inactive or `acquire` fails, and nothing else happens to the
names where it returns a point. -/
structure Acquires (g : DsGlobal) (alloc : Bool) (name : CStr) (out : Locked) : Prop where
  abort : out.exit ≠ .abort
  ds : ((g.inactive = true ∨ g.acquire alloc name = none) ∧ out.ds = g)
    ∨ ∃ g' i, g.inactive = false ∧ g.acquire alloc name = some (g', i) ∧ SameNames g' out.ds

/-- The two functions that acquire begin alike. -/
theorem Acquires.of_body {g : DsGlobal} {alloc : Bool} {name : CStr} {out : Locked}
    (hin : g.inactive = true → out = { ds := g, exit := .ret (-1) })
    (hnone : g.inactive = false → g.acquire alloc name = none →
      out = { ds := g, exit := .ret (-1) })
    (hsome : ∀ g' i, g.inactive = false → g.acquire alloc name = some (g', i) → Keeps g' out) :
    Acquires g alloc name out := by
  by_cases hact : g.inactive = true
  · rw [hin hact]
    exact ⟨Exit.ret_ne_abort (-1), Or.inl ⟨Or.inl hact, rfl⟩⟩
  rw [Bool.not_eq_true] at hact
  cases hacq : g.acquire alloc name with
  | none =>
      rw [hnone hact hacq]
      exact ⟨Exit.ret_ne_abort (-1), Or.inl ⟨Or.inr hacq, rfl⟩⟩
  | some r =>
      obtain ⟨g', i⟩ := r
      have hkeeps := hsome g' i hact hacq
      exact ⟨hkeeps.abort, Or.inr ⟨g', i, hact, hacq, hkeeps.names⟩⟩

theorem acquires_wait (g : DsGlobal) (alloc : Bool) (name : CStr) :
    Acquires g alloc name (dsWait g alloc name) := by
  refine .of_body (fun hin => ?_) (fun hin hnone => ?_) fun g' i hin hacq => ?_
  · rw [dsWait, if_pos hin]
  · simp only [dsWait, hin, hnone, Bool.false_eq_true, if_false]
  · simp only [dsWait, hin, hacq, Bool.false_eq_true, if_false]
    have hloop := keeps_waitLoop (g'.incBlocked i) i 0
    have hinc : SameNames g' (g'.incBlocked i) := ⟨rfl, by simp⟩
    exact hloop.of_names hinc

theorem acquires_exec (g : DsGlobal) (alloc : Bool) (bc : Int) (name : CStr) :
    Acquires g alloc name (dsExec g alloc bc name) := by
  refine .of_body (fun hin => ?_) (fun hin hnone => ?_) fun g' i hin hacq => ?_
  · rw [dsExec, if_pos hin]
  · simp only [dsExec, hin, hnone, Bool.false_eq_true, if_false]
  · simp only [dsExec, hin, hacq, Bool.false_eq_true, if_false]
    split
    · exact ⟨.refl g', Exit.ret_ne_abort (-1)⟩
    split
    · exact ⟨.refl g', Exit.ret_ne_abort 0⟩
    · have hloop := keeps_execLoop (g'.setSyncwait i true) i bc
      have hset : SameNames g' (g'.setSyncwait i true) := ⟨rfl, by simp⟩
      exact .of_names hset ⟨hloop.names, hloop.abort⟩

theorem Call.locked_acquires {c : Call} {name : CStr} (hc : c.acquires = some name)
    (g : DsGlobal) (env : Env) : Acquires g env.alloc name (c.locked g env) := by
  cases c with
  | wait name' =>
      obtain rfl := Option.some.inj hc
      exact acquires_wait g env.alloc name'
  | exec name' =>
      obtain rfl := Option.some.inj hc
      exact acquires_exec g env.alloc env.bcast name'
  | unblock name' k => cases hc
  | enable name' b => cases hc
  | disableAll => cases hc
  | activate b => cases hc

/-- Every other section leaves the names alone. -/
theorem Call.locked_other {c : Call} (hc : c.acquires = none) (g : DsGlobal) (env : Env) :
    SameNames g (c.locked g env).ds := by
  cases c with
  | wait name => cases hc
  | exec name => cases hc
  | unblock name k =>
      rcases dsUnblock_cases g env.bcast name with
        ⟨h, -⟩ | ⟨i, -, -, ⟨h, -⟩ | ⟨h, -⟩ | ⟨h, -⟩⟩ <;> simp only [Call.locked, h]
      · exact .refl g
      · exact .refl g
      · exact ⟨rfl, by simp⟩
      · exact ⟨rfl, by simp⟩
  | enable name b =>
      rcases dsEnable_cases g env.bcast name b with h | ⟨i, b', rc, -, -, h, -⟩ <;>
        simp only [Call.locked, h]
      · exact .refl g
      · exact ⟨rfl, by simp⟩
  | disableAll =>
      simp only [Call.locked, dsDisableAll]
      split
      · exact .refl g
      · exact ⟨by simp, by simp⟩
  | activate b =>
      simp only [Call.locked, dsActivate]
      split
      · exact ⟨rfl, by simp⟩
      · exact ⟨by simp, by simp⟩

/-! ## Names across a step -/

/-- A step that acquires runs the section of a call that does. -/
theorem Label.acquires_some {s : Sys Tid} {l : Label Tid} {p : CStr × Env}
    (h : l.acquires s = some p) :
    ∃ c, l.act = .lock p.2 ∧ (s.threads l.tid).pc = .locking c ∧ c.acquires = some p.1 := by
  unfold Label.acquires at h
  split at h
  · rename_i env c hact hpc
    obtain ⟨name, hname, rfl⟩ := Option.map_eq_some_iff.mp h
    exact ⟨c, hact, hpc, hname⟩
  · cases h

section Steps

variable [DecidableEq Tid]

theorem Sys.close_ds {s : Sys Tid} {t : Tid} {th : Thread} {out : Locked}
    (h : out.exit ≠ .abort) : (s.close t th out).ds = out.ds := by
  cases hexit : out.exit with
  | abort => exact absurd hexit h
  | sleep => simp [Sys.close, hexit]
  | ret rc => simp [Sys.close, hexit]

theorem Sys.close_names {s : Sys Tid} {t : Tid} {th : Thread} {out : Locked}
    (h : SameNames s.ds out.ds) : SameNames s.ds (s.close t th out).ds := by
  by_cases hexit : out.exit = .abort
  · simp only [Sys.close, hexit]
    exact .refl s.ds
  · rwa [Sys.close_ds hexit]

/-- The names of the table across a step: as they were, or as `acquire`
left them. -/
theorem step_names {s s' : Sys Tid} {l : Label Tid} (h : step s l = some s') :
    (l.acquired s = [] ∧ SameNames s.ds s'.ds)
      ∨ ∃ p g' i, l.acquires s = some p ∧ s.ds.inactive = false
        ∧ s.ds.acquire p.2.alloc p.1 = some (g', i) ∧ l.acquired s = [(p.1, i)]
        ∧ SameNames g' s'.ds := by
  cases hget : l.acquires s with
  | some p =>
      obtain ⟨c, hact, hpc, hc⟩ := Label.acquires_some hget
      have hs : s' = s.sectionOf l.tid c p.2 := by
        simp only [step, hact, hpc] at h
        split at h
        · cases h
        · exact (Option.some.inj h).symm
      obtain ⟨hexit, hout⟩ := Call.locked_acquires hc s.ds p.2
      have hds : s'.ds = (c.locked s.ds p.2).ds := by rw [hs, Sys.sectionOf, Sys.close_ds hexit]
      rcases hout with ⟨hnone, heq⟩ | ⟨g', i, hin, hacq, hnames⟩
      · refine Or.inl ⟨?_, by rw [hds, heq]; exact .refl _⟩
        rcases hnone with hin | hnone
        · simp [Label.acquired, hget, hin]
        · simp [Label.acquired, hget, hnone]
      · refine Or.inr ⟨p, g', i, rfl, hin, hacq, ?_, by rwa [hds]⟩
        simp [Label.acquired, hget, hin, hacq]
  | none =>
      refine Or.inl ⟨by simp [Label.acquired, hget], ?_⟩
      obtain ⟨-, hst⟩ := step_cases h
      unfold step at h
      split at h
      · cases h
      simp only at h
      split at h
      · split at h
        · obtain rfl := Option.some.inj h
          exact .refl _
        · cases h
      · rename_i env c hact hpc
        obtain rfl := Option.some.inj h
        refine Sys.close_names (Call.locked_other ?_ _ _)
        simpa [Label.acquires, hact, hpc] using hget
      · obtain rfl := Option.some.inj h
        exact ⟨rfl, fun _ => rfl⟩
      · obtain rfl := Option.some.inj h
        exact Sys.close_names (keeps_waitLoop _ _ _).names
      · obtain rfl := Option.some.inj h
        exact Sys.close_names (keeps_execLoop _ _ _).names
      · cases h

theorem logStep_eq_some {s s' : Log Tid} {l : Label Tid} :
    logStep s l = some s' ↔
      step s.sys l = some s'.sys ∧ s'.acquired = l.acquired s.sys ++ s.acquired := by
  obtain ⟨sys, acquired⟩ := s'
  rw [logStep, Option.map_eq_some_iff]
  constructor
  · rintro ⟨sys', hs, heq⟩
    obtain ⟨rfl, rfl⟩ := Log.mk.injEq .. |>.mp heq
    exact ⟨hs, rfl⟩
  · rintro ⟨hs, rfl⟩
    exact ⟨sys, hs, rfl⟩

end Steps

/-! ## The invariant -/

variable {s s' : Log Tid} {l : Label Tid}

/-- The names of the table differ, and what was acquired was acquired
under a name that fits and still resolves to its point. -/
structure Named (s : Log Tid) : Prop where
  table : TableInv s.sys
  names : ∀ i j : PointIdx, i.val < s.sys.ds.count → j.val < s.sys.ds.count →
    (s.sys.ds.point i).name = (s.sys.ds.point j).name → i = j
  acquired : ∀ p ∈ s.acquired, p.1.strlen ≤ DS_MAX_POINT_NAME_LEN
    ∧ Resolves s.sys.ds p.1 p.2

theorem named_init (flags : BitVec 32) : Named (Log.init flags : Log Tid) where
  table := tableInv_init flags
  names := fun _ _ hi => absurd hi (Nat.not_lt_zero _)
  acquired := fun _ hp => absurd hp List.not_mem_nil

theorem Named.unique (h : Named s) : Unique s where
  names := h.names
  again := fun p hp => by
    obtain ⟨hlen, -, hlook⟩ := h.acquired p hp
    exact ⟨hlook hlen, fun alloc => by rw [acquire, hlook hlen]⟩
  apart := fun p hp q hq hlen hlen' hne hpt => by
    have hp := (lookUp_eq_some.mp ((h.acquired p hp).2.2 hlen)).2.1
    have hq := (lookUp_eq_some.mp ((h.acquired q hq).2.2 hlen')).2.1
    exact hne (by rw [← hp, hpt, hq])

/-- A point that `acquire` creates under a name that fits has a name no
other point has. -/
theorem DsGlobal.Acquired.names {g g' : DsGlobal} {name : CStr} {i : PointIdx}
    (h : Acquired g name g' i) (hlen : name.strlen ≤ DS_MAX_POINT_NAME_LEN)
    (hold : ∀ i j : PointIdx, i.val < g.count → j.val < g.count →
      (g.point i).name = (g.point j).name → i = j) :
    ∀ i j : PointIdx, i.val < g'.count → j.val < g'.count →
      (g'.point i).name = (g'.point j).name → i = j := by
  cases h with
  | found hlook => exact hold
  | created hnone hi hcount hact hself hne =>
      have hname : (g'.point i).name = name := by rw [hself]; exact CStr.strndup_of_le hlen
      -- an entry other than the new one is an old one, and has another name
      have hother : ∀ k, k ≠ i → k.val < g'.count →
          k.val < g.count ∧ (g.point k).name ≠ name := by
        intro k hk hlt
        have hkv : k.val ≠ i.val := fun hv => hk (Fin.ext hv)
        have hlt' : k.val < g.count := by omega
        exact ⟨hlt', lookUp_eq_none.mp hnone k hlt'⟩
      intro j k hj hk heq
      by_cases hji : j = i
      · by_cases hki : k = i
        · rw [hji, hki]
        · rw [hji, hname, hne k hki] at heq
          exact absurd heq.symm (hother k hki hk).2
      · by_cases hki : k = i
        · rw [hki, hname, hne j hji] at heq
          exact absurd heq (hother j hji hj).2
        · rw [hne j hji, hne k hki] at heq
          exact hold j k (hother j hji hj).1 (hother k hki hk).1 heq

theorem names_congr {g g' : DsGlobal} (h : SameNames g g')
    (hold : ∀ i j : PointIdx, i.val < g.count → j.val < g.count →
      (g.point i).name = (g.point j).name → i = j) :
    ∀ i j : PointIdx, i.val < g'.count → j.val < g'.count →
      (g'.point i).name = (g'.point j).name → i = j := by
  intro i j hi hj heq
  rw [h.name, h.name] at heq
  exact hold i j (h.count ▸ hi) (h.count ▸ hj) heq

/-- What `NameOK` asks of a step that acquires. -/
theorem NameOK.fits {p : CStr × Env} {g' : DsGlobal} {i : PointIdx} (h : TableInv s.sys)
    (hok : NameOK s l) (hget : l.acquires s.sys = some p)
    (hin : s.sys.ds.inactive = false)
    (hacq : s.sys.ds.acquire p.2.alloc p.1 = some (g', i)) :
    p.1.strlen ≤ DS_MAX_POINT_NAME_LEN := by
  by_contra hlong
  have hnone := h.table.lookUp_long (Nat.not_le.mp hlong)
  rw [acquire, hnone] at hacq
  simp only [createNew] at hacq
  split at hacq
  · rename_i hroom
    split at hacq
    · rename_i halloc
      exact hlong (hok p hget hin halloc hroom)
    · cases hacq
  · cases hacq

section Runs

variable [DecidableEq Tid]

theorem Named.step (h : Named s) (hok : NameOK s l) (hs : logStep s l = some s') :
    Named s' := by
  obtain ⟨hstep, hlog⟩ := logStep_eq_some.mp hs
  have htable := h.table.step (step_cases hstep).2
  rcases step_names hstep with ⟨hnil, hnames⟩ | ⟨p, g', i, hget, hin, hacq, hone, hnames⟩
  · refine ⟨htable, names_congr hnames h.names, fun p hp => ?_⟩
    rw [hlog, hnil] at hp
    obtain ⟨hlen, hres⟩ := h.acquired p hp
    exact ⟨hlen, hres.congr hnames.count hnames.name⟩
  · have hlen := hok.fits h.table hget hin hacq
    have hacq := acquire_eq_some hacq
    refine ⟨htable, names_congr hnames (hacq.names hlen h.names), fun q hq => ?_⟩
    rw [hlog, hone, List.singleton_append, List.mem_cons] at hq
    rcases hq with rfl | hq
    · exact ⟨hlen, hacq.self_resolves.congr hnames.count hnames.name⟩
    · obtain ⟨hlen', hres⟩ := h.acquired q hq
      exact ⟨hlen', (hacq.resolves hres).congr hnames.count hnames.name⟩

/-- A name that does not fit is acquired and not found again. -/
theorem Named.not_unique (h : Named s) (hbad : ¬NameOK s l) (hs : logStep s l = some s') :
    ¬Unique s' := by
  obtain ⟨hstep, hlog⟩ := logStep_eq_some.mp hs
  have htable := h.table.step (step_cases hstep).2
  obtain ⟨p, hget, hin, halloc, hroom, hlong⟩ : ∃ p, l.acquires s.sys = some p
      ∧ s.sys.ds.inactive = false ∧ p.2.alloc = true ∧ s.sys.ds.count < DS_MAX_POINT_COUNT
      ∧ DS_MAX_POINT_NAME_LEN < p.1.strlen := by
    by_contra hnone
    refine hbad fun p hget hin halloc hroom => ?_
    by_contra hlong
    exact hnone ⟨p, hget, hin, halloc, hroom, Nat.not_le.mp hlong⟩
  have hcreate : ∃ r, s.sys.ds.acquire p.2.alloc p.1 = some r := by
    rw [acquire, h.table.table.lookUp_long hlong]
    simp [createNew, hroom, halloc]
  obtain ⟨⟨g', i⟩, hacq⟩ := hcreate
  have hmem : (p.1, i) ∈ s'.acquired := by
    rw [hlog]
    simp [Label.acquired, hget, hin, hacq]
  intro huniq
  have hfound := (huniq.again _ hmem).1
  rw [htable.table.lookUp_long hlong] at hfound
  cases hfound

/-- **Unique names.** On every run from `ds_init`, whatever is called by
any number of threads, the points are unique by name in every state
reached if and only if every step meets `NameOK`. -/
theorem unique_by_name (activationFlags : BitVec 32) (ls : List (Label Tid)) :
    Always logStep Unique (Log.init activationFlags) ls
      ↔ Meets logStep NameOK (Log.init activationFlags) ls :=
  always_iff_meets (L := fun _ => True)
    (fun _ _ _ h _ hok hs => Named.step h hok hs) (fun _ h => h.unique)
    (fun _ _ _ h _ hbad hs => h.not_unique hbad hs) (named_init activationFlags)
    fun _ _ => trivial

end Runs

/-- A name of 33 characters. -/
def longName : CStr := ⟨List.replicate 33 112, by decide⟩

/-- One thread calls `ds_exec(longName)` twice. -/
def traceLong : List (Label Unit) :=
  [⟨(), .call (.exec longName)⟩, ⟨(), .lock {}⟩, ⟨(), .call (.exec longName)⟩, ⟨(), .lock {}⟩]

/-- Both calls make a point, the two have one name, and `look_up` does
not find the name they were acquired under. -/
theorem long_name_twice :
    ∃ s, run logStep (Log.init DS_ACTIVE) traceLong = some s ∧ s.sys.ds.count = 2
      ∧ (s.sys.ds.point 0).name = (s.sys.ds.point 1).name
      ∧ s.acquired = [(longName, 1), (longName, 0)] ∧ s.sys.ds.lookUp longName = none
      ∧ ¬Unique s := by
  have hrun : (run logStep (Log.init DS_ACTIVE) traceLong).map (fun s =>
      (s.sys.ds.count, decide ((s.sys.ds.point 0).name = (s.sys.ds.point 1).name), s.acquired,
        s.sys.ds.lookUp longName))
      = some (2, true, [(longName, 1), (longName, 0)], none) := by decide +kernel
  obtain ⟨s, hs, heq⟩ := Option.map_eq_some_iff.mp hrun
  simp only [Prod.mk.injEq, decide_eq_true_eq] at heq
  obtain ⟨hcount, hname, hlog, hnone⟩ := heq
  refine ⟨s, hs, hcount, hname, hlog, hnone, fun h => ?_⟩
  have h01 := h.names 0 1 (by rw [hcount]; decide) (by rw [hcount]; decide) hname
  exact absurd h01 (by decide)

end Debugsync

end MiscTools
