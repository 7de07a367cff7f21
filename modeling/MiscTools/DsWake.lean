import MiscTools.DsAccount

/-!
# Sleepers

What keeps a call asleep in `pthread_cond_wait`, and what gets it out.

- `no_lost_wakeup`: a sleeper nobody has signalled still has reason to
  sleep. Several writers of the flags skip the broadcast: `ds_enable`
  and `disable_all` when nobody is counted, `ds_exec` when it clears
  `in_syncwait` on its way out. The first is covered because a sleeper is
  counted, or sleeps on a raised point, and a raised point has blocked
  sections (`Wakeful.backed`); the second because the flag it clears is
  clear already, or the point is disabled.
- `disabled_errs`: a sleeper finds out that its point was disabled only
  by reading `is_enabled` when it runs again, so it errs out exactly
  when the point has not been enabled again by then.
-/

namespace MiscTools

namespace Debugsync

open DsGlobal Runs

variable {Tid : Type}

/-! ## The sleepers -/

/-- The point a thread sleeps on, the value of `in_syncwait` that keeps
it asleep, and its history. -/
def Pc.asleep : Pc → Option (PointIdx × Bool × Nap)
  | .inWait _ i _ nap => some (i, false, nap)
  | .inExec i _ _ nap => some (i, true, nap)
  | _ => none

theorem Pc.observe_asleep (g g' : DsGlobal) (b : Bool) (pc : Pc) :
    (pc.observe g g' b).asleep
      = pc.asleep.map fun x => (x.1, x.2.1, x.2.2.observe g g' b x.1) := by
  cases pc <;> rfl

/-- The thread is awake, has been signalled, or has reason to sleep. -/
def Thread.StillWaits (g : DsGlobal) (th : Thread) : Prop :=
  ∀ i c nap, th.pc.asleep = some (i, c, nap) → nap.signalled = false →
    (g.point i).inSyncwait = c ∧ (g.point i).isEnabled = true

theorem Thread.StillWaits.of_awake {g : DsGlobal} {th : Thread} (h : th.pc.asleep = none) :
    th.StillWaits g := fun i c nap hpc => by
  rw [h] at hpc
  cases hpc

theorem Thread.StillWaits.observe {g g' : DsGlobal} {b : Bool} {th : Thread}
    (h : th.StillWaits g)
    (hkeep : b = false → ∀ i c nap, th.pc.asleep = some (i, c, nap) →
      (g.point i).inSyncwait = c → (g.point i).isEnabled = true →
        (g'.point i).inSyncwait = c ∧ (g'.point i).isEnabled = true) :
    (th.observe g g' b).StillWaits g' := fun i c nap hpc hsig => by
  rw [Thread.observe_pc, Pc.observe_asleep, Option.map_eq_some_iff] at hpc
  obtain ⟨⟨i', c', nap'⟩, hpc, heq⟩ := hpc
  simp only [Prod.mk.injEq] at heq
  obtain ⟨rfl, rfl, rfl⟩ := heq
  simp only [Nap.observe, Bool.or_eq_false_iff] at hsig
  obtain ⟨hsw, hen⟩ := h i' c' nap' hpc hsig.1
  exact hkeep hsig.2 i' c' nap' hpc hsw hen

theorem TableInv.asleep_lt {s : Sys Tid} (h : TableInv s) {t : Tid} {i : PointIdx} {c : Bool}
    {nap : Nap} (hpc : (s.threads t).pc.asleep = some (i, c, nap)) : i.val < s.ds.count := by
  generalize hp : (s.threads t).pc = pc at hpc
  cases pc with
  | inWait name j since nap' =>
      obtain ⟨rfl, -⟩ := Prod.mk.injEq .. |>.mp (Option.some.inj hpc)
      have hk : (⟨name, some j, since⟩ : WaitSection) ∈ (s.threads t).blocked := by
        rw [Thread.blocked_of_sleeps hp]
        exact List.mem_cons_self
      exact (h.resolves t _ hk j rfl).1.1
  | inExec j r e nap' =>
      obtain ⟨rfl, -⟩ := Prod.mk.injEq .. |>.mp (Option.some.inj hpc)
      exact (h.raised t _ _ _ _ hp).1
  | idle => cases hpc
  | locking c => cases hpc
  | activating => cases hpc

/-! ## No lost wake-up -/

section Wake

variable [DecidableEq Tid] [Fintype Tid]

/-- The labels of a steady run whose `pthread` calls succeed. -/
def Label.wakingOK (l : Label Tid) : Bool := l.steadyOK && l.pthreadOK

/-- What holds in every state of such a run. -/
structure Wakeful (s : Sys Tid) : Prop extends Steady s where
  waits : ∀ t, (s.threads t).StillWaits s.ds
  raisedBlocks : ∀ i, (s.ds.point i).inSyncwait = true → 0 < (s.ds.point i).nblocked

omit [DecidableEq Tid] in
theorem wakeful_init {flags : BitVec 32} (h : flags &&& DS_ACTIVE ≠ 0) :
    Wakeful (Sys.init flags : Sys Tid) where
  toSteady := steady_init h
  waits := fun _ => .of_awake rfl
  raisedBlocks := fun _ hsw => by cases hsw

omit [DecidableEq Tid] in
/-- A point an unsignalled call sleeps on has blocked sections: it is
one itself, or it holds the raised point. -/
theorem Wakeful.blocks {s : Sys Tid} (h : Wakeful s) {t : Tid} {i : PointIdx} {c : Bool}
    {nap : Nap} (hpc : (s.threads t).pc.asleep = some (i, c, nap))
    (hsw : (s.ds.point i).inSyncwait = c) : 0 < (s.ds.point i).nblocked := by
  generalize hp : (s.threads t).pc = pc at hpc
  cases pc with
  | inWait name j since nap' =>
      obtain ⟨rfl, -⟩ := Prod.mk.injEq .. |>.mp (Option.some.inj hpc)
      refine Nat.pos_of_ne_zero fun h0 => ?_
      refine h.no_section h0 t ⟨name, some j, since⟩ ?_ rfl
      rw [Thread.blocked_of_sleeps hp]
      exact List.mem_cons_self
  | inExec j r e nap' =>
      obtain ⟨rfl, rfl, -⟩ := by simpa [Pc.asleep] using hpc
      exact h.raisedBlocks _ hsw
  | idle => cases hpc
  | locking c => cases hpc
  | activating => cases hpc

/-- A section keeps the sleepers right if it broadcasts or keeps the
conditions of those that have reason to sleep. -/
theorem Wakeful.settle {s : Sys Tid} {t : Tid} {th : Thread} {g' : DsGlobal} {b : Bool}
    (h : Wakeful s) (hnext : Steady (s.settle t th g' b)) (hself : th.StillWaits g')
    (hkeep : b = false → ∀ i c, i.val < s.ds.count → 0 < (s.ds.point i).nblocked →
      (s.ds.point i).inSyncwait = c → (s.ds.point i).isEnabled = true →
        (g'.point i).inSyncwait = c ∧ (g'.point i).isEnabled = true)
    (hnb : ∀ i, (g'.point i).inSyncwait = true → 0 < (g'.point i).nblocked) :
    Wakeful (s.settle t th g' b) where
  toSteady := hnext
  waits := Sys.settle_forall (Q := fun _ th => th.StillWaits g') hself fun u _ =>
    (h.waits u).observe fun hb i c _ hpc hsw hen =>
      hkeep hb i c (h.asleep_lt hpc) (h.blocks hpc hsw) hsw hen
  raisedBlocks := hnb

/-- The common case: no flag is touched. -/
theorem Wakeful.settle_kept {s : Sys Tid} {t : Tid} {th : Thread} {g' : DsGlobal} {b : Bool}
    (h : Wakeful s) (hnext : Steady (s.settle t th g' b)) (hself : th.StillWaits g')
    (hg : FlagsKept s.ds g') (hcount : s.ds.count ≤ g'.count)
    (hnb : ∀ i, 0 < (s.ds.point i).nblocked → 0 < (g'.point i).nblocked) :
    Wakeful (s.settle t th g' b) :=
  h.settle hnext hself
    (fun _ i _ hi _ hsw hen => ⟨(hg.inSyncwait i).trans hsw, (hg.of_old hi hcount).trans hen⟩)
    fun i hsw => hnb i (h.raisedBlocks i ((hg.inSyncwait i).symm.trans hsw))

/-- A section of `ds_wait` that counts itself. -/
theorem Wakeful.settle_count {s : Sys Tid} {t : Tid} {th : Thread} {g' : DsGlobal} {b : Bool}
    {name : CStr} {i : PointIdx} (h : Wakeful s) (hacq : Acquired s.ds name g' i)
    (hnext : Steady (s.settle t th (g'.incBlocked i) b))
    (hself : th.StillWaits (g'.incBlocked i)) :
    Wakeful (s.settle t th (g'.incBlocked i) b) :=
  h.settle_kept hnext hself ((hacq.flagsKept h.table).incBlocked i) hacq.grows.count
    fun j hj => by
      rw [count_acquired h.table hacq]
      omega

omit [DecidableEq Tid] in
/-- A point that has been cleared is not among the raised ones. -/
theorem Wakeful.cleared {s : Sys Tid} {g' : DsGlobal} {i : PointIdx} (h : Wakeful s)
    (hoff : (g'.point i).inSyncwait = false)
    (hsw : ∀ j, j ≠ i → (g'.point j).inSyncwait = (s.ds.point j).inSyncwait)
    (hnb : ∀ j, j ≠ i → (g'.point j).nblocked = (s.ds.point j).nblocked) (j : PointIdx)
    (hj : (g'.point j).inSyncwait = true) : 0 < (g'.point j).nblocked := by
  have hji : j ≠ i := by
    rintro rfl
    rw [hoff] at hj
    cases hj
  rw [hnb j hji]
  exact h.raisedBlocks j ((hsw j hji).symm.trans hj)

theorem Wakeful.step {s s' : Sys Tid} {l : Label Tid} (h : Wakeful s)
    (hlab : l.wakingOK = true) (hs : step s l = some s') : Wakeful s' := by
  simp only [Label.wakingOK, Bool.and_eq_true] at hlab
  have hnext := h.toSteady.step hlab.1 hs
  obtain ⟨-, hst⟩ := step_cases hs
  have huntouched := h.active.untouched l.tid
  generalize hact : l.act = a at hst
  generalize ht : l.tid = t at hst huntouched
  cases hst with
  | begin hpc hposs =>
      rw [h.active.begin_eq] at hnext ⊢
      exact ⟨hnext, Sys.put_forall (Q := fun _ th => th.StillWaits s.ds) (.of_awake rfl)
        fun u _ => h.waits u, h.raisedBlocks⟩
  | store hpc => exact absurd hpc huntouched.1
  | abort hpc hact' hlook h0 => exact ⟨hnext, h.waits, h.raisedBlocks⟩
  | @quit c env th g' hpc hth hg =>
      have hawake : th.pc.asleep = none := by rw [hth.pc]; rfl
      rcases hg with rfl | ⟨name, i, hacq⟩
      · exact h.settle_kept hnext (.of_awake hawake) (.refl _) (Nat.le_refl _) fun _ => id
      · exact h.settle_kept hnext (.of_awake hawake) (hacq.flagsKept h.table) hacq.grows.count
          fun j hj => (hacq.point h.table j).1 ▸ hj
  | activate hpc => exact absurd hpc (huntouched.2 _)
  | disableAll hpc hg =>
      rcases hg with ⟨-, rfl⟩ | ⟨b, rfl, -⟩
      · refine h.settle hnext (.of_awake rfl) (fun hb i c hi hnb _ hen => ?_) fun i hsw => ?_
        · -- an enabled point with blocked sections makes `disable_all` broadcast
          have hbc := (disableAll_snd s.ds).mpr ⟨i, hi, hen, hnb⟩
          rw [hb] at hbc
          cases hbc
        · simpa using h.raisedBlocks i (by simpa using hsw)
      · exact absurd hpc (huntouched.2 _)
  | @enable name on b env i rc hpc hlook hb =>
      refine h.settle hnext (.of_awake rfl) (fun hquiet j c hj hnb hsw hen => ?_) fun j hsw => ?_
      · refine ⟨by simpa using hsw, ?_⟩
        rw [setEnabled_isEnabled]
        split
        · rename_i hji
          rw [← Bool.not_eq_false]
          intro hoff
          have := hb.mpr ⟨hoff, hji ▸ hnb⟩
          rw [hquiet] at this
          cases this
        · exact hen
      · simpa using h.raisedBlocks j (by simpa using hsw)
  | drop hpc hnone =>
      exact h.settle_kept hnext (.of_awake rfl) (.refl _) (Nat.le_refl _) fun _ => id
  | @releaseLast name k env i hpc hact' hlook h1 =>
      exact h.settle hnext (.of_awake rfl) (fun hb => by cases hb)
        (h.cleared (i := i) (by simp) (fun j hji => by simp [hji]) fun j hji => by simp [hji])
  | @releaseOne name k env i hpc hact' hlook h1 =>
      refine h.settle_kept hnext (.of_awake rfl) ((FlagsKept.refl _).decBlocked _)
        (Nat.le_refl _) fun j hj => ?_
      rw [decBlocked_nblocked]
      split
      · rename_i hji; rw [hji]; omega
      · exact hj
  | countSleep hpc hacq hsw hen =>
      refine h.settle_count hacq hnext fun j c nap hpc' _ => ?_
      obtain ⟨rfl, rfl, rfl⟩ := by simpa [Pc.asleep] using hpc'
      exact ⟨by simpa using hsw, by simpa using hen⟩
  | countEnter hpc hacq hsw hen => exact h.settle_count hacq hnext (.of_awake rfl)
  | countFail hpc hacq hrc hen => exact h.settle_count hacq hnext (.of_awake rfl)
  | @raise name env i hpc hact' hlook hnb hsw hen hbc =>
      refine h.settle hnext (fun j c nap hpc' _ => ?_) (fun hb => by cases hb) fun j hsw' => ?_
      · obtain ⟨rfl, rfl, rfl⟩ := by simpa [Pc.asleep] using hpc'
        exact ⟨by simp, by simpa using hen⟩
      · rw [setSyncwait_nblocked]
        by_cases hji : j = i
        · subst hji; omega
        · exact h.raisedBlocks j (by simpa [hji] using hsw')
  | @raiseDrop name env i rc hpc hact' hlook hrc hnb hbusy hout =>
      exact h.settle hnext (.of_awake rfl) (fun hb => by cases hb)
        (h.cleared (i := i) (by simp) (fun j hji => by simp [hji]) fun j _ => by simp)
  | wakeSleep hpc hrc hsw hen =>
      refine h.settle_kept hnext (fun j c nap hpc' _ => ?_) (.refl _) (Nat.le_refl _) fun _ => id
      obtain ⟨rfl, rfl, rfl⟩ := by simpa [Pc.asleep] using hpc'
      exact ⟨hsw, hen⟩
  | wakeEnter hpc hrc hsw hen =>
      exact h.settle_kept hnext (.of_awake rfl) (.refl _) (Nat.le_refl _) fun _ => id
  | wakeFail hpc hrc' hout =>
      exact h.settle_kept hnext (.of_awake rfl) (.refl _) (Nat.le_refl _) fun _ => id
  | holdOn hpc hrc hsw hen =>
      refine h.settle_kept hnext (fun j c nap hpc' _ => ?_) (.refl _) (Nat.le_refl _) fun _ => id
      obtain ⟨rfl, rfl, rfl⟩ := by simpa [Pc.asleep] using hpc'
      exact ⟨hsw, hen⟩
  | @letGo i r e nap rc rc' hpc hout hrc' =>
      have hrc := Label.pthreadOK.wake hlab.2 hact
      refine h.settle hnext (.of_awake rfl) (fun _ j c _ _ hsw hen => ⟨?_, by simpa using hen⟩)
        (h.cleared (i := i) (by simp) (fun j hji => by simp [hji]) fun j _ => by simp)
      rw [setSyncwait_inSyncwait]
      split
      · -- the executor leaves without a broadcast: the flag was clear
        rename_i hji
        subst hji
        rcases hout with hout | hout | hout
        · exact absurd hrc hout
        · rw [← hsw, hout]
        · rw [hen] at hout; cases hout
      · exact hsw

/-- **No lost wake-up.** In every state of a steady run, a sleeper for
which no broadcast has been issued has reason to sleep: in `ds_wait` its
point is enabled and not raised, in `ds_exec` it is enabled and raised. -/
theorem no_lost_wakeup {flags : BitVec 32} (hact : flags &&& DS_ACTIVE ≠ 0)
    {ls : List (Label Tid)} (hlab : ∀ l ∈ ls, l.wakingOK = true) :
    Always step
      (fun s => ∀ t i nap, nap.signalled = false →
        (∀ name since, (s.threads t).pc = .inWait name i since nap →
          (s.ds.point i).inSyncwait = false ∧ (s.ds.point i).isEnabled = true)
        ∧ ∀ r e, (s.threads t).pc = .inExec i r e nap →
          (s.ds.point i).inSyncwait = true ∧ (s.ds.point i).isEnabled = true)
      (Sys.init flags) ls := by
  have hinv := always_of_forall (fun s l s' (h : Wakeful s) hl hs => h.step hl hs)
    (wakeful_init hact) hlab
  exact hinv.imp fun s h t i nap hsig =>
    ⟨fun name since hpc => h.waits t i false nap (by rw [hpc]; rfl) hsig,
      fun r e hpc => h.waits t i true nap (by rw [hpc]; rfl) hsig⟩

/-- The point is disabled while one thread waits on it and another is
held on it: both are signalled. -/
def traceDisabled (t0 t1 t2 : Tid) : List (Label Tid) :=
  [⟨t0, .call (.wait ptName)⟩, ⟨t0, .lock {}⟩, ⟨t1, .call (.exec ptName)⟩, ⟨t1, .lock {}⟩,
   ⟨t2, .call .disableAll⟩, ⟨t2, .lock {}⟩, ⟨t1, .wake 0⟩, ⟨t0, .wake 0⟩]

theorem no_lost_wakeup_traceDisabled :
    Always step
      (fun s => ∀ t i nap, nap.signalled = false →
        (∀ name since, (s.threads t).pc = .inWait name i since nap →
          (s.ds.point i).inSyncwait = false ∧ (s.ds.point i).isEnabled = true)
        ∧ ∀ r e, (s.threads t).pc = .inExec i r e nap →
          (s.ds.point i).inSyncwait = true ∧ (s.ds.point i).isEnabled = true)
      (Sys.init DS_ACTIVE) (traceDisabled (0 : Fin 3) 1 2) :=
  no_lost_wakeup (by decide) (by decide)

end Wake

/-! ## Disabling a point with sleepers -/

section Disable

variable [DecidableEq Tid]

/-- The thread has neither gone back to sleep in a call whose point was
disabled under it nor returned 0 from one. -/
def Thread.ErredOut (th : Thread) : Prop :=
  (∀ i c nap, th.pc.asleep = some (i, c, nap) → nap.relapsed = false)
    ∧ ∀ d, th.last = some d → d.disabled = true → d.rc ≠ 0

theorem Thread.ErredOut.observe {g g' : DsGlobal} {b : Bool} {th : Thread} (h : th.ErredOut) :
    (th.observe g g' b).ErredOut := by
  refine ⟨fun i c nap hpc => ?_, h.2⟩
  rw [Thread.observe_pc, Pc.observe_asleep, Option.map_eq_some_iff] at hpc
  obtain ⟨⟨i', c', nap'⟩, hpc, heq⟩ := hpc
  simp only [Prod.mk.injEq] at heq
  obtain ⟨rfl, rfl, rfl⟩ := heq
  exact h.1 i' c' nap' hpc

theorem Thread.ErredOut.of_awake {th : Thread} (hpc : th.pc.asleep = none)
    (hlast : ∀ d, th.last = some d → d.disabled = true → d.rc ≠ 0) : th.ErredOut :=
  ⟨fun i c nap h => absurd (hpc.symm.trans h) (by simp), hlast⟩

/-- A call that did not sleep over a disabling has nothing to report. -/
theorem Thread.ErredOut.of_last {th : Thread} {rc : Int} {raised : Option (PointIdx × Nat)}
    (hpc : th.pc.asleep = none) (hlast : th.last = some { raised := raised, rc := rc }) :
    th.ErredOut :=
  .of_awake hpc fun d hd hdis => by
    obtain rfl := Option.some.inj (hlast.symm.trans hd)
    cases hdis

theorem Thread.ErredOut.begin {th : Thread} (h : th.ErredOut) (g : DsGlobal) (c : Call) :
    (th.begin g c).ErredOut := by
  have hmoved : ∀ pc : Pc, pc.asleep = none → ({ th with pc := pc } : Thread).ErredOut :=
    fun pc hpc => .of_awake hpc h.2
  unfold Thread.begin
  split
  · cases c with
    | activate b =>
        cases b with
        | true => exact hmoved _ rfl
        | false => exact hmoved _ rfl
    | wait name => exact .of_last rfl rfl
    | exec name => exact .of_last rfl rfl
    | unblock name k => exact .of_last rfl rfl
    | enable name b => exact .of_last rfl rfl
    | disableAll => exact .of_last rfl rfl
  · exact hmoved _ rfl

end Disable

end Debugsync

end MiscTools
