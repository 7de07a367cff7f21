import MiscTools.DsAccount

/-!
# The rendezvous

The system in which only `ds_wait`, `ds_exec` and `ds_unblock` are
called. Every point below `ds.count` is then enabled for good, and the
only steps that write `in_syncwait` are the executor that raises a point
and the `ds_unblock` that takes its count to 0 (`MeetStep`).

- `sections_covered`: a thread in its section on a point is covered by
  a raised flag and an executor that is still held.
- `one_holder`: how far the flag works as the lock of the point. It is
  cleared by the unblocking thread and not by the holder, so a second
  executor can raise the point before the first has run again; the runs
  in which that does not happen are exactly those in which at most one
  executor is held and no executor is held past the end of its own
  rendezvous.
-/

namespace MiscTools

namespace Debugsync

open DsGlobal Runs

variable {Tid : Type}

/-! ## Holders -/

@[simp] theorem Thread.holds_observe {g g' : DsGlobal} {b : Bool} {th : Thread}
    {i : PointIdx} : (th.observe g g' b).Holds i ↔ th.Holds i := by
  constructor
  · rintro ⟨r, e, nap, h⟩
    obtain ⟨e', nap', h', -⟩ := Pc.observe_inExec h
    exact ⟨r, e', nap', h'⟩
  · rintro ⟨r, e, nap, h⟩
    exact ⟨r, _, _, by rw [Thread.observe_pc, h]; rfl⟩

/-- A thread holds one point at a time. -/
theorem Thread.Holds.unique {th : Thread} {i j : PointIdx} (hi : th.Holds i)
    (hj : th.Holds j) : i = j := by
  obtain ⟨r, e, nap, h⟩ := hi
  obtain ⟨r', e', nap', h'⟩ := hj
  exact (Pc.inExec.inj (h.symm.trans h')).1

/-- A thread on its way to the mutex holds nothing. -/
theorem Thread.not_holds_of_locking {th : Thread} {c : Call} (h : th.pc = .locking c)
    (i : PointIdx) : ¬th.Holds i := by
  rintro ⟨r, e, nap, h'⟩
  rw [h] at h'
  cases h'

/-- Nor does one asleep in `ds_wait`. -/
theorem Thread.not_holds_of_inWait {th : Thread} {name : CStr} {j : PointIdx} {since : Nat}
    {nap : Nap} (h : th.pc = .inWait name j since nap) (i : PointIdx) : ¬th.Holds i := by
  rintro ⟨r, e, nap, h'⟩
  rw [h] at h'
  cases h'

/-! ## The invariant of a rendezvous -/

/-- If the thread is on its way to the mutex, it is for a rendezvous. -/
def Thread.Meets (th : Thread) : Prop := ∀ c, th.pc = .locking c → c.meets = true

/-- The points of the sections the thread is in are raised. -/
def Thread.Covered (g : DsGlobal) (th : Thread) : Prop :=
  ∀ k ∈ th.sections, ∀ i, k.pt = some i → (g.point i).inSyncwait = true

theorem Thread.Meets.observe {g g' : DsGlobal} {b : Bool} {th : Thread} (h : th.Meets) :
    (th.observe g g' b).Meets := fun c hc => h c (Pc.observe_eq_locking.mp hc)

theorem Thread.Covered.mono {g g' : DsGlobal} {th : Thread} (h : th.Covered g)
    (hg : ∀ i, (g.point i).inSyncwait = true → (g'.point i).inSyncwait = true) :
    th.Covered g' := fun k hk i hi => hg i (h k hk i hi)

section Meeting

variable [DecidableEq Tid] [Fintype Tid]

/-- The labels of a disciplined rendezvous whose `pthread` calls
succeed. -/
def Label.meetingOK (l : Label Tid) : Bool :=
  l.steadyOK && l.rendezvousOK && l.pthreadOK

/-- What holds in every state of such a run. -/
structure Meeting (s : Sys Tid) : Prop extends Steady s where
  enabled : ∀ i : PointIdx, i.val < s.ds.count → (s.ds.point i).isEnabled = true
  calls : ∀ t, (s.threads t).Meets
  covered : ∀ t, (s.threads t).Covered s.ds
  held : ∀ i, (s.ds.point i).inSyncwait = true → ∃ u, (s.threads u).Holds i

omit [DecidableEq Tid] in
theorem meeting_init {flags : BitVec 32} (h : flags &&& DS_ACTIVE ≠ 0) :
    Meeting (Sys.init flags : Sys Tid) where
  toSteady := steady_init h
  enabled := fun _ hi => absurd hi (Nat.not_lt_zero _)
  calls := fun _ _ hpc => by cases hpc
  covered := fun _ _ hk => absurd hk List.not_mem_nil
  held := fun _ hsw => by cases hsw

/-- A step of a rendezvous: the unlocked part of a call, a section that
leaves the flags as they are, an executor that raises a point, or the
`ds_unblock` that ends the rendezvous. -/
inductive MeetStep (s : Sys Tid) (t : Tid) : Sys Tid → Prop
  | begin {c : Call} (hpc : (s.threads t).pc = .idle) (hc : c.meets = true) :
      MeetStep s t (s.put t { s.threads t with pc := .locking c })
  | quiet {th : Thread} {g' : DsGlobal} {b : Bool} (hg : FlagsKept s.ds g')
      (hlock : ∀ c, th.pc ≠ .locking c)
      (hsec : ∀ k ∈ th.sections, k ∈ (s.threads t).sections
        ∨ ∀ i, k.pt = some i → (s.ds.point i).inSyncwait = true)
      (hhold : ∀ i, (s.threads t).Holds i →
        th.Holds i ∨ (s.ds.point i).inSyncwait = false) :
      MeetStep s t (s.settle t th g' b)
  | raise {i : PointIdx} {c : Call} (hpc : (s.threads t).pc = .locking c) :
      MeetStep s t
        (s.settle t { s.threads t with pc := .inExec i s.clock false {} }
          (s.ds.setSyncwait i true) true)
  | release {k : Option WaitSection} {i : PointIdx} {c : Call} {rc : Int}
      (hpc : (s.threads t).pc = .locking c) (h1 : (s.ds.point i).nblocked = 1) :
      MeetStep s t
        (s.settle t ((s.threads t).unblocked k rc)
          ((s.ds.decBlocked i).setSyncwait i false) true)

omit [Fintype Tid] in
/-- The caller held nothing. -/
theorem MeetStep.of_locking {s : Sys Tid} {t : Tid} {th : Thread} {g' : DsGlobal} {b : Bool}
    {c : Call} (hpc : (s.threads t).pc = .locking c) (hg : FlagsKept s.ds g')
    (hlock : ∀ c, th.pc ≠ .locking c)
    (hsec : ∀ k ∈ th.sections, k ∈ (s.threads t).sections
      ∨ ∀ i, k.pt = some i → (s.ds.point i).inSyncwait = true) :
    MeetStep s t (s.settle t th g' b) :=
  .quiet hg hlock hsec fun i hi => absurd hi (Thread.not_holds_of_locking hpc i)

theorem Meeting.cases {s s' : Sys Tid} {l : Label Tid} (h : Meeting s)
    (hlab : l.meetingOK = true) (hs : step s l = some s') : MeetStep s l.tid s' := by
  simp only [Label.meetingOK, Bool.and_eq_true] at hlab
  obtain ⟨⟨hsteady, hrdv⟩, hpth⟩ := hlab
  have hrun := (h.toSteady.step hsteady hs).running
  obtain ⟨-, hst⟩ := step_cases hs
  have hcalls := h.calls l.tid
  have hraised := h.toTableInv.raised l.tid
  generalize hact : l.act = a at hst
  cases hst with
  | begin hpc hposs =>
      rw [h.active.begin_eq]
      exact .begin hpc (by simpa [Label.rendezvousOK, hact] using hrdv)
  | store hpc => exact absurd hpc (h.active.untouched l.tid).1
  | @quit c env th g' hpc hth hg =>
      have hkept : FlagsKept s.ds g' := by
        rcases hg with rfl | ⟨name, i, hacq⟩
        · exact .refl _
        · exact hacq.flagsKept h.table
      exact .of_locking hpc hkept (fun c hc => by rw [hth.pc] at hc; cases hc)
        fun k hk => Or.inl (hth.sections ▸ hk)
  | activate hpc => cases hcalls _ hpc
  | disableAll hpc hg =>
      rcases hg with ⟨rfl, -⟩ | ⟨b, rfl, -⟩
      · cases hcalls _ hpc
      · cases hcalls _ hpc
  | enable hpc hlook hb => cases hcalls _ hpc
  | drop hpc hnone =>
      exact .of_locking hpc (.refl _) (by simp [Thread.unblocked])
        fun k hk => Or.inl (Thread.unblocked_sections_subset _ _ _ k hk)
  | abort hpc hact' hlook h0 => cases hrun
  | releaseLast hpc hact' hlook h1 => exact .release hpc h1
  | releaseOne hpc hact' hlook h1 =>
      exact .of_locking hpc ((FlagsKept.refl _).decBlocked _) (by simp [Thread.unblocked])
        fun k hk => Or.inl (Thread.unblocked_sections_subset _ _ _ k hk)
  | countSleep hpc hacq hsw hen =>
      exact .of_locking hpc ((hacq.flagsKept h.table).incBlocked _) (by simp)
        fun k hk => Or.inl hk
  | @countEnter name env g' i hpc hacq hsw hen =>
      have hkept := hacq.flagsKept h.table
      exact .of_locking hpc (hkept.incBlocked _) (by simp [Thread.waited])
        (Thread.waited_sections_cases _ _ _ _ (by rw [← hkept.inSyncwait, hsw]))
  | @countFail name env g' i rc hpc hacq hrc hen =>
      exfalso
      rcases (hacq.flagsKept h.table).isEnabled i hacq.lt_count with ⟨hlt, heq⟩ | ⟨-, hon⟩
      · rw [heq, h.enabled i hlt] at hen; cases hen
      · rw [hon] at hen; cases hen
  | raise hpc hact' hlook hnb hsw hen hbc => exact .raise hpc
  | raiseDrop hpc hact' hlook hrc hnb hbusy hout =>
      exfalso
      rcases hout with hout | hout
      · rw [h.enabled _ (lookUp_lt hlook)] at hout; cases hout
      · exact hout (Label.pthreadOK.bcast hpth hact)
  | wakeSleep hpc hrc hsw hen =>
      exact .quiet (.refl _) (by simp) (fun k hk => Or.inl hk)
        fun i hi => absurd hi (Thread.not_holds_of_inWait hpc i)
  | wakeEnter hpc hrc hsw hen =>
      exact .quiet (.refl _) (by simp [Thread.waited])
        (Thread.waited_sections_cases _ _ _ _ hsw)
        fun i hi => absurd hi (Thread.not_holds_of_inWait hpc i)
  | @wakeFail name i since nap rc rc' hpc hrc' hout =>
      exfalso
      have hk : (⟨name, some i, since⟩ : WaitSection) ∈ (s.threads l.tid).blocked := by
        rw [Thread.blocked_of_sleeps hpc]
        exact List.mem_cons_self
      rcases hout with hout | hout
      · rw [h.enabled i (h.resolves l.tid _ hk i rfl).1.1] at hout; cases hout
      · exact hout (Label.pthreadOK.wake hpth hact)
  | holdOn hpc hrc hsw hen =>
      refine .quiet (.refl _) (by simp) (fun k hk => Or.inl hk) fun j hj => Or.inl ?_
      obtain rfl := hj.unique ⟨_, _, _, hpc⟩
      exact ⟨_, _, _, rfl⟩
  | @letGo i raisedAt ended nap rc rc' hpc hout hrc' =>
      have hoff : (s.ds.point i).inSyncwait = false := by
        rcases hout with hout | hout | hout
        · exact absurd (Label.pthreadOK.wake hpth hact) hout
        · exact hout
        · rw [h.enabled i (hraised i _ _ _ hpc).1] at hout; cases hout
      -- the flag it clears on the way out is already clear
      have hkept : FlagsKept s.ds (s.ds.setSyncwait i false) := by
        refine ⟨fun j => ?_, fun j hj => Or.inl ⟨hj, by simp⟩⟩
        rw [setSyncwait_inSyncwait]
        split
        · rename_i hji; rw [hji, hoff]
        · rfl
      refine .quiet hkept (by simp [Thread.finished]) (fun k hk => Or.inl hk) fun j hj => ?_
      obtain rfl := hj.unique ⟨_, _, _, hpc⟩
      exact Or.inr hoff

omit [Fintype Tid] in
theorem settle_meets {s : Sys Tid} {t : Tid} {th : Thread} {g' : DsGlobal} {b : Bool}
    (h : ∀ u, (s.threads u).Meets) (hth : ∀ c, th.pc ≠ .locking c) :
    ∀ u, ((s.settle t th g' b).threads u).Meets :=
  Sys.settle_forall (Q := fun _ th => th.Meets) (fun c hc => absurd hc (hth c))
    fun u _ => (h u).observe

omit [Fintype Tid] in
/-- A holder other than the caller stays a holder. -/
theorem settle_holds {s : Sys Tid} {t u : Tid} {th : Thread} {g' : DsGlobal} {b : Bool}
    {i : PointIdx} (hu : (s.threads u).Holds i) (ht : (s.threads t).Holds i → th.Holds i) :
    ((s.settle t th g' b).threads u).Holds i := by
  by_cases hut : u = t
  · subst hut
    rw [Sys.settle_threads_self]
    exact ht hu
  · rwa [Sys.settle_threads_ne s _ _ _ hut, Thread.holds_observe]

theorem Meeting.step {s s' : Sys Tid} {l : Label Tid} (h : Meeting s)
    (hlab : l.meetingOK = true) (hs : step s l = some s') : Meeting s' := by
  have hsteady : l.steadyOK = true := by
    simp only [Label.meetingOK, Bool.and_eq_true] at hlab
    exact hlab.1.1
  have hnext := h.toSteady.step hsteady hs
  have hcase := h.cases hlab hs
  generalize l.tid = t at hcase
  cases hcase with
  | begin hpc hc =>
      refine ⟨hnext, h.enabled, ?_, ?_, fun i hsw => ?_⟩
      · refine Sys.put_forall (Q := fun _ th => th.Meets) (fun c' hc' => ?_) fun u _ => h.calls u
        obtain rfl := Pc.locking.inj hc'
        exact hc
      · exact Sys.put_forall (Q := fun _ th => th.Covered s.ds) (h.covered t)
          fun u _ => h.covered u
      · obtain ⟨u, hu⟩ := h.held i hsw
        have hut : u ≠ t := fun hut => by
          obtain ⟨r, e, nap, hu⟩ := hu
          rw [hut, hpc] at hu
          cases hu
        exact ⟨u, by rwa [Sys.put_threads_ne s _ hut]⟩
  | @quiet th g' b hg hlock hsec hhold =>
      have hmono : ∀ i, (s.ds.point i).inSyncwait = true → (g'.point i).inSyncwait = true :=
        fun i hi => (hg.inSyncwait i).trans hi
      refine ⟨hnext, fun i hi => ?_, settle_meets h.calls hlock, ?_, fun i hsw => ?_⟩
      · rcases hg.isEnabled i hi with ⟨hlt, heq⟩ | ⟨-, hon⟩
        · rw [Sys.settle_ds, heq, h.enabled i hlt]
        · exact hon
      · refine Sys.settle_forall (Q := fun _ th => th.Covered g') (fun k hk i hi => ?_)
          fun u _ => (h.covered u).mono hmono
        exact hmono i ((hsec k hk).elim (fun hk => h.covered t k hk i hi) fun hk => hk i hi)
      · rw [Sys.settle_ds, hg.inSyncwait] at hsw
        obtain ⟨u, hu⟩ := h.held i hsw
        refine ⟨u, settle_holds hu fun ht => (hhold i ht).resolve_right fun hoff => ?_⟩
        rw [hsw] at hoff
        cases hoff
  | @raise i c hpc =>
      have hmono : ∀ j, (s.ds.point j).inSyncwait = true →
          ((s.ds.setSyncwait i true).point j).inSyncwait = true := fun j hj => by simp [hj]
      refine ⟨hnext, fun j hj => ?_, settle_meets h.calls (by simp), ?_, fun j hsw => ?_⟩
      · simpa using h.enabled j hj
      · exact Sys.settle_forall (Q := fun _ th => th.Covered (s.ds.setSyncwait i true))
          ((h.covered t).mono hmono) fun u _ => (h.covered u).mono hmono
      · by_cases hji : j = i
        · subst hji
          exact ⟨t, s.clock, false, {}, by rw [Sys.settle_threads_self]⟩
        · rw [Sys.settle_ds, setSyncwait_inSyncwait, if_neg hji] at hsw
          obtain ⟨u, hu⟩ := h.held j hsw
          exact ⟨u, settle_holds hu fun ht => absurd ht (Thread.not_holds_of_locking hpc j)⟩
  | @release k i c rc hpc h1 =>
      -- the count is 0, so no section on `i` is left
      have hfree := hnext.no_section (i := i) (by simp [h1])
      have hsec : ∀ u, ((s.settle t ((s.threads t).unblocked k rc)
          ((s.ds.decBlocked i).setSyncwait i false) true).threads u).Covered s.ds :=
        Sys.settle_forall (Q := fun _ th => th.Covered s.ds)
          (fun k' hk' => h.covered t k' (Thread.unblocked_sections_subset _ _ _ k' hk'))
          fun u _ => h.covered u
      refine ⟨hnext, fun j hj => ?_, settle_meets h.calls (by simp [Thread.unblocked]),
        fun u k' hk' j hj => ?_, fun j hsw => ?_⟩
      · simpa using h.enabled j hj
      · have hji : j ≠ i := fun hji =>
          hfree u k' (Thread.mem_blocked_of_mem hk') (hji ▸ hj)
        simpa [hji] using hsec u k' hk' j hj
      · have hji : j ≠ i := fun hji => by simp [hji] at hsw
        rw [Sys.settle_ds, setSyncwait_inSyncwait, if_neg hji, decBlocked_inSyncwait] at hsw
        obtain ⟨u, hu⟩ := h.held j hsw
        exact ⟨u, settle_holds hu fun ht => absurd ht (Thread.not_holds_of_locking hpc j)⟩

/-- **Rendezvous cover.** In every state of a rendezvous, a thread in its
section on a point is covered: the point is raised and some executor is
still held on it. -/
theorem sections_covered {flags : BitVec 32} (hact : flags &&& DS_ACTIVE ≠ 0)
    {ls : List (Label Tid)} (hlab : ∀ l ∈ ls, l.meetingOK = true) :
    Always step
      (fun s => ∀ t, ∀ k ∈ (s.threads t).sections, ∃ i, k.pt = some i
        ∧ (k.name.strlen ≤ DS_MAX_POINT_NAME_LEN → s.ds.lookUp k.name = some i)
        ∧ (s.ds.point i).inSyncwait = true ∧ ∃ u, (s.threads u).Holds i)
      (Sys.init flags) ls := by
  have hinv := always_of_forall (fun s l s' (h : Meeting s) hl hs => h.step hl hs)
    (meeting_init hact) hlab
  refine hinv.imp fun s h t k hk => ?_
  have hblk := Thread.mem_blocked_of_mem hk
  obtain ⟨i, hi⟩ := Option.ne_none_iff_exists'.mp (h.active.counted t k hblk)
  have hsw := h.covered t k hk i hi
  exact ⟨i, hi, (h.resolves t k hblk i hi).1.2, hsw, h.held i hsw⟩

/-- Two waiters and an executor: the second waiter comes late, and the
first one wakes spuriously before the point is raised. -/
def traceMeeting (t0 t1 t2 : Tid) : List (Label Tid) :=
  [⟨t0, .call (.wait ptName)⟩, ⟨t0, .lock {}⟩, ⟨t0, .wake 0⟩,
   ⟨t2, .call (.exec ptName)⟩, ⟨t2, .lock {}⟩,
   ⟨t1, .call (.wait ptName)⟩, ⟨t1, .lock {}⟩, ⟨t0, .wake 0⟩, ⟨t2, .wake 0⟩,
   ⟨t0, .call (.unblock ptName (some ptSection))⟩, ⟨t0, .lock {}⟩]

theorem sections_covered_traceMeeting :
    Always step
      (fun s => ∀ t, ∀ k ∈ (s.threads t).sections, ∃ i, k.pt = some i
        ∧ (k.name.strlen ≤ DS_MAX_POINT_NAME_LEN → s.ds.lookUp k.name = some i)
        ∧ (s.ds.point i).inSyncwait = true ∧ ∃ u, (s.threads u).Holds i)
      (Sys.init DS_ACTIVE) (traceMeeting (0 : Fin 3) 1 2) :=
  sections_covered (by decide) (by decide)

end Meeting

/-! ## The flag as a lock -/

section Lock

variable [DecidableEq Tid]

/-- At most one executor is held on a raised point, and none that is
past the end of its own rendezvous. -/
def OneHolder (s : Sys Tid) : Prop :=
  ∀ i, (s.ds.point i).inSyncwait = true →
    (∀ t u, (s.threads t).Holds i → (s.threads u).Holds i → t = u)
      ∧ ∀ t r e nap, (s.threads t).pc = .inExec i r e nap → e = false

/-- The step is not a `ds_exec` that raises a point on which an earlier
executor has yet to leave its loop. -/
def LoneOK (s : Sys Tid) (l : Label Tid) : Prop :=
  match l.act, (s.threads l.tid).pc with
  | .lock env, .locking (.exec name) =>
      ∀ i, Raises s.ds env.bcast name i → ∀ u, ¬(s.threads u).Holds i
  | _, _ => True

/-- The state after `t` has raised `i`. -/
def Sys.raised (s : Sys Tid) (t : Tid) (i : PointIdx) : Sys Tid :=
  s.settle t { s.threads t with pc := .inExec i s.clock false {} } (s.ds.setSyncwait i true) true

/-- A step that raises no point and keeps no executor past the end of
its rendezvous. -/
structure Calm (s s' : Sys Tid) : Prop where
  sw : ∀ i, (s'.ds.point i).inSyncwait = true → (s.ds.point i).inSyncwait = true
  exec : ∀ u i r e nap, (s'.threads u).pc = .inExec i r e nap →
    (s'.ds.point i).inSyncwait = true → ∃ nap', (s.threads u).pc = .inExec i r e nap'

theorem Calm.settle {s : Sys Tid} {t : Tid} {th : Thread} {g' : DsGlobal} {b : Bool}
    (hth : ∀ i r e nap, th.pc = .inExec i r e nap →
      ∃ nap', (s.threads t).pc = .inExec i r e nap')
    (hg : ∀ i, (g'.point i).inSyncwait = true → (s.ds.point i).inSyncwait = true
      ∧ (0 < (s.ds.point i).nblocked → 0 < (g'.point i).nblocked)) :
    Calm s (s.settle t th g' b) where
  sw := fun i hi => (hg i hi).1
  exec := Sys.settle_forall
    (Q := fun u th => ∀ i r e nap, th.pc = .inExec i r e nap →
      (g'.point i).inSyncwait = true → ∃ nap', (s.threads u).pc = .inExec i r e nap')
    (fun i r e nap h _ => hth i r e nap h) fun u _ i r e nap h hsw => by
      obtain ⟨e', nap', h', he, -⟩ := Pc.observe_inExec h
      have hpos := (hg i hsw).2
      have hkeep : (decide (0 < (s.ds.point i).nblocked)
          && decide ((g'.point i).nblocked = 0)) = false := by
        simp only [Bool.and_eq_false_iff, decide_eq_false_iff_not]
        omega
      rw [hkeep, Bool.or_false] at he
      exact ⟨nap', he ▸ h'⟩

/-- A thread moves outside the lock. -/
theorem Calm.put {s : Sys Tid} {t : Tid} {th : Thread} {g' : DsGlobal}
    (hth : ∀ i r e nap, th.pc ≠ .inExec i r e nap)
    (hg : ∀ i, (g'.point i).inSyncwait = (s.ds.point i).inSyncwait) :
    Calm s { s.put t th with ds := g' } where
  sw := fun i hi => by rwa [← hg i]
  exec := Sys.put_forall
    (Q := fun u th => ∀ i r e nap, th.pc = .inExec i r e nap →
      (g'.point i).inSyncwait = true → ∃ nap', (s.threads u).pc = .inExec i r e nap')
    (fun i r e nap h => absurd h (hth i r e nap)) fun u _ i r e nap h _ => ⟨nap, h⟩

/-- A section is counted on a point, found or made. -/
theorem Calm.settle_counted {s : Sys Tid} {t : Tid} {th : Thread} {name : CStr} {g' : DsGlobal}
    {i : PointIdx} {b : Bool} (hinv : TableInv s) (hacq : Acquired s.ds name g' i)
    (hth : ∀ j r e nap, th.pc ≠ .inExec j r e nap) :
    Calm s (s.settle t th (g'.incBlocked i) b) := by
  refine .settle (fun j r e nap h => absurd h (hth j r e nap)) fun j hj => ?_
  obtain ⟨-, hsw, -⟩ := hacq.point hinv.table j
  rw [count_acquired hinv.table hacq]
  exact ⟨by simpa [hsw] using hj, by omega⟩

/-- One point is left with its flag down, the others as they were. -/
theorem Calm.settle_cleared {s : Sys Tid} {t : Tid} {th : Thread} {g' : DsGlobal} {i : PointIdx}
    {b : Bool} (hth : ∀ j r e nap, th.pc ≠ .inExec j r e nap)
    (hoff : (g'.point i).inSyncwait = false)
    (hg : ∀ j, j ≠ i → (g'.point j).inSyncwait = (s.ds.point j).inSyncwait
      ∧ (g'.point j).nblocked = (s.ds.point j).nblocked) :
    Calm s (s.settle t th g' b) := by
  refine .settle (fun j r e nap h => absurd h (hth j r e nap)) fun j hj => ?_
  have hji : j ≠ i := fun hji => by rw [hji, hoff] at hj; cases hj
  obtain ⟨hsw, hnb⟩ := hg j hji
  exact ⟨by rwa [← hsw], by rw [hnb]; exact id⟩

theorem Step.calm {s s' : Sys Tid} {t : Tid} {a : Act} (hinv : TableInv s)
    (hst : Step s t a s') :
    Calm s s' ∨ ∃ name env i, a = .lock env ∧ (s.threads t).pc = .locking (.exec name)
      ∧ Raises s.ds env.bcast name i ∧ s' = s.raised t i := by
  cases hst with
  | begin hpc hposs =>
      exact Or.inl (.put ((s.threads t).begin_awake s.ds _).2 fun i => rfl)
  | store hpc =>
      exact Or.inl (.put (fun i r e nap h => by cases h) fun i => by rw [doActivate_point])
  | abort hpc hact hlook h0 => exact Or.inl ⟨fun i hi => hi, fun u i r e nap h _ => ⟨nap, h⟩⟩
  | quit hpc hth hg =>
      refine Or.inl (.settle (fun i r e nap h => by rw [hth.pc] at h; cases h) fun i hi => ?_)
      rcases hg with rfl | ⟨name, j, hacq⟩
      · exact ⟨hi, id⟩
      · obtain ⟨h1, h2, -⟩ := hacq.point hinv.table i
        rw [h1, ← h2]
        exact ⟨hi, id⟩
  | activate hpc => exact Or.inl (.settle (by simp [Thread.finished]) fun i hi => ⟨hi, id⟩)
  | disableAll hpc hg =>
      refine Or.inl (.settle (by simp [Thread.finished]) fun i hi => ?_)
      rcases hg with ⟨-, rfl⟩ | ⟨b, -, rfl⟩ <;> simpa using hi
  | enable hpc hlook hb =>
      exact Or.inl (.settle (by simp [Thread.finished]) fun i hi => by simpa using hi)
  | drop hpc hnone => exact Or.inl (.settle (by simp [Thread.unblocked]) fun i hi => ⟨hi, id⟩)
  | @releaseLast name k env i hpc hact hlook h1 =>
      exact Or.inl (.settle_cleared (i := i) (by simp [Thread.unblocked]) (by simp)
        fun j hji => by simp [hji])
  | @releaseOne name k env i hpc hact hlook h1 =>
      refine Or.inl (.settle (by simp [Thread.unblocked]) fun j hj => ⟨by simpa using hj, ?_⟩)
      rw [decBlocked_nblocked]
      by_cases hji : j = i
      · subst hji; simp only [if_true]; omega
      · simp [hji]
  | countSleep hpc hacq hsw hen => exact Or.inl (.settle_counted hinv hacq (by simp))
  | countEnter hpc hacq hsw hen =>
      exact Or.inl (.settle_counted hinv hacq (by simp [Thread.waited]))
  | countFail hpc hacq hrc hen => exact Or.inl (.settle_counted hinv hacq (by simp [Thread.waited]))
  | raise hpc hact hlook hnb hsw hen hbc =>
      exact Or.inr ⟨_, _, _, rfl, hpc, ⟨hact, hlook, hnb, hsw, hen, hbc⟩, rfl⟩
  | @raiseDrop name env i rc hpc hact hlook hrc hnb hbusy hout =>
      exact Or.inl (.settle_cleared (i := i) (by simp [Thread.finished]) (by simp)
        fun j hji => by simp [hji])
  | wakeSleep hpc hrc hsw hen => exact Or.inl (.settle (by simp) fun i hi => ⟨hi, id⟩)
  | wakeEnter hpc hrc hsw hen =>
      exact Or.inl (.settle (by simp [Thread.waited]) fun i hi => ⟨hi, id⟩)
  | wakeFail hpc hrc' hout =>
      exact Or.inl (.settle (by simp [Thread.waited]) fun i hi => ⟨hi, id⟩)
  | holdOn hpc hrc hsw hen =>
      refine Or.inl (.settle (fun i r e nap h => ?_) fun i hi => ⟨hi, id⟩)
      obtain ⟨rfl, rfl, rfl, -⟩ := Pc.inExec.inj h
      exact ⟨_, hpc⟩
  | @letGo i raisedAt ended nap rc rc' hpc hout hrc' =>
      exact Or.inl (.settle_cleared (i := i) (by simp [Thread.finished]) (by simp)
        fun j hji => by simp [hji])

omit [DecidableEq Tid] in
theorem OneHolder.calm {s s' : Sys Tid} (h : OneHolder s) (hcalm : Calm s s') :
    OneHolder s' := fun i hsw => by
  have hold := hcalm.sw i hsw
  obtain ⟨hone, hend⟩ := h i hold
  have hback : ∀ u, (s'.threads u).Holds i → (s.threads u).Holds i := by
    rintro u ⟨r, e, nap, hu⟩
    obtain ⟨nap', hu'⟩ := hcalm.exec u i r e nap hu hsw
    exact ⟨r, e, nap', hu'⟩
  refine ⟨fun t u ht hu => hone t u (hback t ht) (hback u hu), fun t r e nap ht => ?_⟩
  obtain ⟨nap', ht'⟩ := hcalm.exec t i r e nap ht hsw
  exact hend t r e nap' ht'

section Raise

variable {s : Sys Tid} {t : Tid} {i : PointIdx}

theorem Sys.raised_self (s : Sys Tid) (t : Tid) (i : PointIdx) :
    ((s.raised t i).threads t).pc = .inExec i s.clock false {} := by
  rw [Sys.raised, Sys.settle_threads_self]

theorem Sys.raised_holds {u : Tid} (hu : u ≠ t) (j : PointIdx) :
    ((s.raised t i).threads u).Holds j ↔ (s.threads u).Holds j := by
  rw [Sys.raised, Sys.settle_threads_ne s _ _ _ hu, Thread.holds_observe]

theorem OneHolder.raise (h : OneHolder s) (hnb : (s.ds.point i).nblocked ≠ 0)
    (hfree : ∀ u, ¬(s.threads u).Holds i) : OneHolder (s.raised t i) := fun j hsw => by
  have hlast := s.raised_self t i
  have hself : ∀ u, ((s.raised t i).threads u).Holds i → u = t := fun u hu => by
    by_contra hut
    exact hfree u ((Sys.raised_holds hut i).mp hu)
  by_cases hji : j = i
  · subst hji
    refine ⟨fun u v hu hv => (hself u hu).trans (hself v hv).symm, fun u r e nap hu => ?_⟩
    obtain rfl := hself u ⟨r, e, nap, hu⟩
    rw [hlast] at hu
    exact (Pc.inExec.inj hu).2.2.1.symm
  · have hne : ∀ u, ((s.raised t i).threads u).Holds j → u ≠ t := fun u hu hut => by
      subst hut
      exact hji (hu.unique ⟨_, _, _, hlast⟩)
    rw [Sys.raised, Sys.settle_ds, setSyncwait_inSyncwait, if_neg hji] at hsw
    obtain ⟨hone, hend⟩ := h j hsw
    refine ⟨fun u v hu hv => hone u v ((Sys.raised_holds (hne u hu) j).mp hu)
      ((Sys.raised_holds (hne v hv) j).mp hv), fun u r e nap hu => ?_⟩
    have hut := hne u ⟨r, e, nap, hu⟩
    rw [Sys.raised, Sys.settle_threads_ne s _ _ _ hut] at hu
    obtain ⟨e', nap', hu', he, -⟩ := Pc.observe_inExec hu
    rw [hend u r e' nap' hu', Bool.false_or, setSyncwait_nblocked] at he
    rw [he, Bool.and_eq_false_iff, decide_eq_false_iff_not, decide_eq_false_iff_not]
    omega

end Raise

theorem step_raise {s s' : Sys Tid} {l : Label Tid} {name : CStr} {env : Env} {i : PointIdx}
    (hact : l.act = .lock env) (hpc : (s.threads l.tid).pc = .locking (.exec name))
    (hr : Raises s.ds env.bcast name i) (hs : step s l = some s') :
    s' = s.raised l.tid i := by
  have hab := (step_cases hs).1
  simp only [step, hab, Bool.false_eq_true, if_false, hact, hpc, Call.locked,
    dsExec_of_raises hr, Option.some.injEq] at hs
  exact hs.symm

/-- **The flag as a lock.** At most one executor is held on a raised
point, and none is kept past the end of its own rendezvous, in every
state of a run, if and only if no `ds_exec` of the run raises a point on
which an earlier executor has yet to leave its loop. -/
theorem one_holder (flags : BitVec 32) (ls : List (Label Tid)) :
    Always step OneHolder (Sys.init flags) ls ↔ Meets step LoneOK (Sys.init flags) ls := by
  refine always_iff_meets (I := fun s => TableInv s ∧ OneHolder s) (L := fun _ => True)
    ?_ (fun s h => h.2) ?_ ⟨tableInv_init flags, fun i hsw => by cases hsw⟩ fun _ _ => trivial
  · intro s l s' ⟨hinv, h⟩ _ hok hs
    obtain ⟨-, hst⟩ := step_cases hs
    refine ⟨hinv.step hst, ?_⟩
    rcases hst.calm hinv with hcalm | ⟨name, env, i, hact, hpc, hr, rfl⟩
    · exact h.calm hcalm
    · simp only [LoneOK, hact, hpc] at hok
      exact h.raise hr.2.2.1 (hok i hr)
  · intro s l s' ⟨hinv, h⟩ _ hbad hs hgood
    unfold LoneOK at hbad
    split at hbad
    · rename_i env name hact hpc
      simp only [not_forall, not_not] at hbad
      obtain ⟨i, hr, u, hu⟩ := hbad
      rw [step_raise hact hpc hr hs] at hgood
      have hut : u ≠ l.tid := fun hut => Thread.not_holds_of_locking hpc i (hut ▸ hu)
      have hsw : ((s.raised l.tid i).ds.point i).inSyncwait = true := by simp [Sys.raised]
      exact hut ((hgood i hsw).1 u l.tid ((Sys.raised_holds hut i).mpr hu)
        ⟨_, _, _, s.raised_self l.tid i⟩)
    · exact hbad trivial

/-- `t0` ends the rendezvous of executor `t1`, and `t2` starts a
`ds_wait` before executor `t1` has run again: executor `t3` raises the point,
and executor `t1` is held past the end of its own rendezvous. -/
def traceTwoHolders (t0 t1 t2 t3 : Tid) : List (Label Tid) :=
  [⟨t0, .call (.wait ptName)⟩, ⟨t0, .lock {}⟩, ⟨t1, .call (.exec ptName)⟩, ⟨t1, .lock {}⟩,
   ⟨t0, .wake 0⟩, ⟨t0, .call (.unblock ptName (some ptSection))⟩, ⟨t0, .lock {}⟩,
   ⟨t2, .call (.wait ptName)⟩, ⟨t2, .lock {}⟩, ⟨t3, .call (.exec ptName)⟩, ⟨t3, .lock {}⟩]

theorem two_holders :
    (∀ l ∈ traceTwoHolders (0 : Fin 4) 1 2 3, (l.steadyOK && l.rendezvousOK && l.pthreadOK) = true)
      ∧ ¬Always step OneHolder (Sys.init DS_ACTIVE) (traceTwoHolders (0 : Fin 4) 1 2 3) := by
  refine ⟨by decide, fun h => ?_⟩
  have hrun : (run step (Sys.init DS_ACTIVE) (traceTwoHolders (0 : Fin 4) 1 2 3)).map (fun s =>
      ((s.ds.point 0).inSyncwait, (s.threads 1).pc, (s.threads 3).pc))
      = some (true, .inExec 0 1 true { signalled := true }, .inExec 0 5 false {}) := by
    decide +kernel
  obtain ⟨s, hs, heq⟩ := Option.map_eq_some_iff.mp hrun
  simp only [Prod.mk.injEq] at heq
  obtain ⟨hsw, h1, h3⟩ := heq
  have := (h.last hs 0 hsw).2 1 _ _ _ h1
  cases this

end Lock

end Debugsync

end MiscTools
