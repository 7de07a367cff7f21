import MiscTools.DsWake

/-!
# What a successful ds_exec has waited for

When a `ds_exec` that raised its point returns 0, the sections that were
counted when it raised should be closed. An executor that sees the point
disabled errs out, so what matters is a point that is disabled and
enabled again while it sleeps: in between, another `ds_exec` on the
disabled point sets `in_syncwait` and clears it, and after the re-enable
the sleeper takes the clear flag for the end of its rendezvous.

`exec_returns_sound` shows that this is the only way to go wrong: in a
run that re-enables a point only while it is still raised, or while no
executor on it is owed a section (`ReenableOK`), a 0 is never early.
-/

namespace MiscTools

namespace Debugsync

open DsGlobal Runs

variable {Tid : Type}

/-- The sections counted on `i` before time `r` are closed. -/
def Sys.Released (s : Sys Tid) (i : PointIdx) (r : Nat) : Prop :=
  ∀ t, ∀ k ∈ (s.threads t).sections, k.pt = some i → r ≤ k.since

/-- An executor that raised `i` at `r` will not return 0 too early: it
would err out, go back to sleep, or be right. -/
def Sys.Safe (s : Sys Tid) (i : PointIdx) (r : Nat) : Prop :=
  (s.ds.point i).isEnabled = false ∨ (s.ds.point i).inSyncwait = true ∨ s.Released i r

/-- When the thread raised `i`, if it is an executor held on it. -/
def Pc.raisedAt (i : PointIdx) : Pc → Option Nat
  | .inExec j r _ _ => if j = i then some r else none
  | _ => none

/-- A disabled point is enabled again only while it is raised, or while
no executor on it is owed a section. -/
def ReenableOK (s : Sys Tid) (l : Label Tid) : Prop :=
  match l.act, (s.threads l.tid).pc with
  | .lock _, .locking (.enable name true) =>
      ∀ i ∈ s.ds.lookUp name, (s.ds.point i).isEnabled = false →
        (s.ds.point i).inSyncwait = true
          ∨ ∀ t, ∀ r ∈ (s.threads t).pc.raisedAt i, s.Released i r
  | _, _ => True

instance [Fintype Tid] (s : Sys Tid) (i : PointIdx) (r : Nat) : Decidable (s.Released i r) := by
  unfold Sys.Released
  infer_instance

instance [Fintype Tid] (s : Sys Tid) (l : Label Tid) : Decidable (ReenableOK s l) :=
  decidable_of_iff
    ((match l.act, (s.threads l.tid).pc with
      | .lock _, .locking (.enable name true) =>
          decide (∀ i ∈ s.ds.lookUp name, (s.ds.point i).isEnabled = false →
            (s.ds.point i).inSyncwait = true
              ∨ ∀ t, ∀ r ∈ (s.threads t).pc.raisedAt i, s.Released i r)
      | _, _ => true) = true)
    (by unfold ReenableOK; split <;> simp only [decide_eq_true_eq])

section Sound

variable [DecidableEq Tid]

/-- Thread `l.tid` returns 0 from the `ds_exec` that raised `i` at `r`. -/
def ExecReturns (s : Sys Tid) (l : Label Tid) (s' : Sys Tid) (i : PointIdx) (r : Nat) : Prop :=
  step s l = some s' ∧ (∃ e nap, (s.threads l.tid).pc = .inExec i r e nap)
    ∧ (s'.threads l.tid).pc = .idle ∧ ∃ d, (s'.threads l.tid).last = some d ∧ d.rc = 0

theorem Sys.Safe.settle {s : Sys Tid} {t : Tid} {th : Thread} {g' : DsGlobal} {b : Bool}
    {i : PointIdx} {r : Nat} (h : s.Safe i r)
    (hen : (g'.point i).isEnabled = (s.ds.point i).isEnabled)
    (hsw : (g'.point i).inSyncwait = (s.ds.point i).inSyncwait)
    (hsec : ∀ k ∈ th.sections, k ∈ (s.threads t).sections
      ∨ (k.pt = some i → (g'.point i).inSyncwait = true)) :
    (s.settle t th g' b).Safe i r := by
  by_cases hraised : (g'.point i).inSyncwait = true
  · exact Or.inr (Or.inl hraised)
  rcases h with hoff | hon | hrel
  · exact Or.inl (hen.trans hoff)
  · exact absurd (hsw.trans hon) hraised
  · refine Or.inr (Or.inr (Sys.settle_forall
      (Q := fun _ th => ∀ k ∈ th.sections, k.pt = some i → r ≤ k.since)
      (fun k hk hi => ?_) fun u _ => hrel u))
    exact hrel t k ((hsec k hk).resolve_right fun h => hraised (h hi)) hi

/-- A thread in `ds_exec` moves only by waking up. -/
theorem act_of_inExec {s s' : Sys Tid} {l : Label Tid} {i : PointIdx} {r : Nat} {e : Bool}
    {nap : Nap} (hpc : (s.threads l.tid).pc = .inExec i r e nap) (hs : step s l = some s') :
    ∃ rc, l.act = .wake rc := by
  unfold step at hs
  split at hs
  · cases hs
  simp only [hpc] at hs
  split at hs
  all_goals simp_all

variable [Fintype Tid]

structure Sound (s : Sys Tid) : Prop extends Steady s where
  safe : ∀ t i r e nap, (s.threads t).pc = .inExec i r e nap → s.Safe i r

omit [DecidableEq Tid] in
theorem sound_init {flags : BitVec 32} (h : flags &&& DS_ACTIVE ≠ 0) :
    Sound (Sys.init flags : Sys Tid) :=
  ⟨steady_init h, fun _ _ _ _ _ hpc => by cases hpc⟩

/-- The unlocked part of a call. -/
theorem Sound.put {s : Sys Tid} {t : Tid} {th : Thread} (h : Sound s)
    (hnext : Steady (s.put t th)) (hpc : ∀ i r e nap, th.pc ≠ .inExec i r e nap)
    (hsec : th.sections = (s.threads t).sections) : Sound (s.put t th) := by
  have hsame : ∀ u, ((s.put t th).threads u).sections = (s.threads u).sections :=
    Sys.put_forall (Q := fun u th => th.sections = (s.threads u).sections) hsec fun _ _ => rfl
  refine ⟨hnext, Sys.put_forall
    (Q := fun _ th' => ∀ i r e nap, th'.pc = .inExec i r e nap → (s.put t th).Safe i r)
    (fun i r e nap hw => absurd hw (hpc i r e nap)) fun u _ i r e nap hw => ?_⟩
  refine (h.safe u i r e nap hw).imp id (Or.imp id fun hrel v k hk => ?_)
  exact hrel v k (hsame v ▸ hk)

theorem Sound.settle {s : Sys Tid} {t : Tid} {th : Thread} {g' : DsGlobal} {b : Bool}
    (h : Sound s) (hnext : Steady (s.settle t th g' b))
    (hself : ∀ i r e nap, th.pc = .inExec i r e nap → (g'.point i).inSyncwait = true
      ∨ ∃ e' nap', (s.threads t).pc = .inExec i r e' nap')
    (hkeep : ∀ u i r e nap, (s.threads u).pc = .inExec i r e nap → s.Safe i r →
      (s.settle t th g' b).Safe i r) : Sound (s.settle t th g' b) := by
  refine ⟨hnext, Sys.settle_forall
    (Q := fun _ th => ∀ i r e nap, th.pc = .inExec i r e nap → (s.settle t _ g' b).Safe i r)
    (fun i r e nap hpc => ?_) fun u _ i r e nap hpc => ?_⟩
  · rcases hself i r e nap hpc with hsw | ⟨e', nap', hpc'⟩
    · exact Or.inr (Or.inl hsw)
    · exact hkeep t i r e' nap' hpc' (h.safe t i r e' nap' hpc')
  · obtain ⟨e', nap', hpc', -⟩ := Pc.observe_inExec hpc
    exact hkeep u i r e' nap' hpc' (h.safe u i r e' nap' hpc')

/-- The common case: no flag is touched, and a section is only entered on
a raised point. -/
theorem Sound.settle_kept {s : Sys Tid} {t : Tid} {th : Thread} {g' : DsGlobal} {b : Bool}
    (h : Sound s) (hnext : Steady (s.settle t th g' b))
    (hself : ∀ i r e nap, th.pc = .inExec i r e nap →
      ∃ e' nap', (s.threads t).pc = .inExec i r e' nap')
    (hg : FlagsKept s.ds g') (hcount : s.ds.count ≤ g'.count)
    (hsec : ∀ k ∈ th.sections, k ∈ (s.threads t).sections
      ∨ ∀ i, k.pt = some i → (g'.point i).inSyncwait = true) :
    Sound (s.settle t th g' b) :=
  h.settle hnext (fun i r e nap hpc => Or.inr (hself i r e nap hpc))
    fun u i r e nap hpc hsafe =>
      hsafe.settle (hg.of_old (h.toTableInv.raised u i r e nap hpc).1 hcount) (hg.inSyncwait i)
        fun k hk => (hsec k hk).imp id fun hk hi => hk i hi

/-- A section that changes the flags of one point: the executors on that
point are left to show. -/
theorem Sound.settle_at {s : Sys Tid} {t : Tid} {th : Thread} {g' : DsGlobal} {b : Bool}
    {i : PointIdx} (h : Sound s) (hnext : Steady (s.settle t th g' b))
    (hself : ∀ j r e nap, th.pc = .inExec j r e nap → (g'.point j).inSyncwait = true)
    (hen : ∀ j, j ≠ i → (g'.point j).isEnabled = (s.ds.point j).isEnabled)
    (hsw : ∀ j, j ≠ i → (g'.point j).inSyncwait = (s.ds.point j).inSyncwait)
    (hsec : ∀ k ∈ th.sections, k ∈ (s.threads t).sections)
    (hat : ∀ u r e nap, (s.threads u).pc = .inExec i r e nap → s.Safe i r →
      (s.settle t th g' b).Safe i r) : Sound (s.settle t th g' b) := by
  refine h.settle hnext (fun j r e nap hpc => Or.inl (hself j r e nap hpc))
    fun u j r e nap hpc hsafe => ?_
  by_cases hji : j = i
  · subst hji
    exact hat u r e nap hpc hsafe
  · exact hsafe.settle (hen j hji) (hsw j hji) fun k hk => Or.inl (hsec k hk)

theorem Sound.step {s s' : Sys Tid} {l : Label Tid} (h : Sound s)
    (hlab : l.wakingOK = true) (hok : ReenableOK s l) (hs : step s l = some s') :
    Sound s' := by
  simp only [Label.wakingOK, Bool.and_eq_true] at hlab
  have hnext := h.toSteady.step hlab.1 hs
  obtain ⟨-, hst⟩ := step_cases hs
  have huntouched := h.active.untouched l.tid
  have hlt := h.toTableInv.raised
  unfold ReenableOK at hok
  generalize hact : l.act = a at hst hok
  generalize l.tid = t at hst huntouched hok
  cases hst with
  | begin hpc hposs =>
      rw [h.active.begin_eq] at hnext ⊢
      exact h.put hnext (by simp) rfl
  | store hpc => exact absurd hpc huntouched.1
  | abort hpc hact' hlook h0 => exact ⟨hnext, h.safe⟩
  | quit hpc hth hg =>
      rcases hg with rfl | ⟨name, i, hacq⟩
      · exact h.settle_kept hnext (fun i r e nap hw => by rw [hth.pc] at hw; cases hw)
          (.refl _) (Nat.le_refl _) fun k hk => Or.inl (hth.sections ▸ hk)
      · exact h.settle_kept hnext (fun i r e nap hw => by rw [hth.pc] at hw; cases hw)
          (hacq.flagsKept h.table) hacq.grows.count
          fun k hk => Or.inl (hth.sections ▸ hk)
  | activate hpc => exact absurd hpc (huntouched.2 _)
  | disableAll hpc hg =>
      rcases hg with ⟨-, rfl⟩ | ⟨b, rfl, -⟩
      · refine h.settle hnext (fun i r e nap hpc => by cases hpc) fun u i r e nap hpc _ => ?_
        have := (hlt u i r e nap hpc).1
        exact Or.inl (by simp; omega)
      · exact absurd hpc (huntouched.2 _)
  | @enable name on b env i rc hpc hlook hb =>
      refine h.settle_at (i := i) hnext (fun j r e nap hpc => by cases hpc)
        (fun j hji => by simp [hji]) (fun j _ => by simp) (fun _ => id)
        fun u r e nap hpc' hsafe => ?_
      cases on with
      | false => exact Or.inl (by simp)
      | true =>
          by_cases hen : (s.ds.point i).isEnabled = true
          · exact hsafe.settle (by simp [hen]) (by simp) fun k hk => Or.inl hk
          · simp only [hpc] at hok
            rcases hok i hlook (by simpa using hen) with hsw | hrel
            · exact Or.inr (Or.inl (by simpa using hsw))
            · have hrel := hrel u r (by simp [hpc', Pc.raisedAt])
              exact Or.inr (Or.inr (Sys.settle_forall
                (Q := fun _ th => ∀ k ∈ th.sections, k.pt = some i → r ≤ k.since)
                (hrel t) fun v _ => hrel v))
  | drop hpc hnone =>
      exact h.settle_kept hnext (fun i r e nap hpc => by cases hpc) (.refl _) (Nat.le_refl _)
        fun k hk => Or.inl (Thread.unblocked_sections_subset _ _ _ k hk)
  | @releaseLast name k env i hpc hact' hlook h1 =>
      refine h.settle_at (i := i) hnext (fun j r e nap hpc => by cases hpc)
        (fun j _ => by simp) (fun j hji => by simp [hji])
        (Thread.unblocked_sections_subset _ _ _) fun u r e nap hpc' hsafe => ?_
      -- the last section on the point has been closed
      refine Or.inr (Or.inr fun v k' hk' hi => ?_)
      exact absurd hi (hnext.no_section (by simp [h1]) v k' (Thread.mem_blocked_of_mem hk'))
  | releaseOne hpc hact' hlook h1 =>
      exact h.settle_kept hnext (fun i r e nap hpc => by cases hpc)
        ((FlagsKept.refl _).decBlocked _) (Nat.le_refl _)
        fun k hk => Or.inl (Thread.unblocked_sections_subset _ _ _ k hk)
  | countSleep hpc hacq hsw hen =>
      exact h.settle_kept hnext (fun i r e nap hpc => by cases hpc)
        ((hacq.flagsKept h.table).incBlocked _) hacq.grows.count fun k hk => Or.inl hk
  | countEnter hpc hacq hsw hen =>
      exact h.settle_kept hnext (fun i r e nap hpc => by cases hpc)
        ((hacq.flagsKept h.table).incBlocked _) hacq.grows.count
        (Thread.waited_sections_cases _ _ _ _ (by simpa using hsw))
  | countFail hpc hacq hrc hen =>
      exact h.settle_kept hnext (fun i r e nap hpc => by cases hpc)
        ((hacq.flagsKept h.table).incBlocked _) hacq.grows.count
        fun k hk => Or.inl (Thread.waited_sections_subset _ _ _ hrc k hk)
  | @raise name env i hpc hact' hlook hnb hsw hen hbc =>
      refine h.settle_at (i := i) hnext (fun j r e nap hpc' => ?_) (fun j _ => by simp)
        (fun j hji => by simp [hji]) (fun _ => id) fun u r e nap _ _ => Or.inr (Or.inl (by simp))
      obtain ⟨rfl, -⟩ := Pc.inExec.inj hpc'
      simp
  | @raiseDrop name env i rc hpc hact' hlook hrc hnb hbusy hout =>
      refine h.settle_at (i := i) hnext (fun j r e nap hpc => by cases hpc)
        (fun j _ => by simp) (fun j hji => by simp [hji]) (fun _ => id)
        fun u r e nap hpc' hsafe => ?_
      rcases hout with hout | hout
      · exact Or.inl (by simpa using hout)
      · exact absurd (Label.pthreadOK.bcast hlab.2 hact) hout
  | wakeSleep hpc hrc hsw hen =>
      exact h.settle_kept hnext (fun i r e nap hpc => by cases hpc) (.refl _) (Nat.le_refl _)
        fun k hk => Or.inl hk
  | wakeEnter hpc hrc hsw hen =>
      exact h.settle_kept hnext (fun i r e nap hpc => by cases hpc) (.refl _) (Nat.le_refl _)
        (Thread.waited_sections_cases _ _ _ _ hsw)
  | wakeFail hpc hrc' hout =>
      exact h.settle_kept hnext (fun i r e nap hpc => by cases hpc) (.refl _) (Nat.le_refl _)
        fun k hk => Or.inl (Thread.waited_sections_subset _ _ _ hrc' k hk)
  | holdOn hpc hrc hsw hen =>
      refine h.settle_kept hnext (fun i r e nap hpc' => ?_) (.refl _) (Nat.le_refl _)
        fun k hk => Or.inl hk
      obtain ⟨rfl, rfl, -⟩ := Pc.inExec.inj hpc'
      exact ⟨_, _, hpc⟩
  | @letGo i raisedAt ended nap rc rc' hpc hout hrc' =>
      refine h.settle_at (i := i) hnext (fun j r e nap hpc => by cases hpc)
        (fun j _ => by simp) (fun j hji => by simp [hji]) (fun _ => id)
        fun u r e nap hpc' hsafe => ?_
      rcases hout with hout | hout | hout
      · exact absurd (Label.pthreadOK.wake hlab.2 hact) hout
      · exact hsafe.settle (by simp) (by simp [hout]) fun k hk => Or.inl hk
      · exact Or.inl (by simpa using hout)

/-- A safe executor is right when it returns 0. -/
theorem Sound.returns {s s' : Sys Tid} {l : Label Tid} {i : PointIdx} {r : Nat}
    (h : Sound s) (hret : ExecReturns s l s' i r) : s'.Released i r := by
  obtain ⟨hs, ⟨e, nap, hpc⟩, hidle, d, hlast, hzero⟩ := hret
  obtain ⟨rc, hact⟩ := act_of_inExec hpc hs
  have hsafe := h.safe l.tid i r e nap hpc
  have hst := (step_cases hs).2
  rw [hact] at hst
  cases hst with
  | wakeSleep hpc' => rw [hpc] at hpc'; cases hpc'
  | wakeEnter hpc' => rw [hpc] at hpc'; cases hpc'
  | wakeFail hpc' => rw [hpc] at hpc'; cases hpc'
  | holdOn hpc' => rw [Sys.settle_threads_self] at hidle; cases hidle
  | letGo hpc' hout hrc' =>
      rw [hpc] at hpc'
      obtain ⟨rfl, rfl, rfl, rfl⟩ := Pc.inExec.inj hpc'
      rw [Sys.settle_threads_self] at hlast
      obtain rfl := Option.some.inj hlast
      obtain ⟨hrc, hen⟩ := hrc'.mp hzero
      have hrel : s.Released i r := by
        rcases hsafe with hoff | hon | hrel
        · rw [hen] at hoff; cases hoff
        · rcases hout with hout | hout | hout
          · exact absurd hrc hout
          · rw [hon] at hout; cases hout
          · rw [hen] at hout; cases hout
        · exact hrel
      exact Sys.settle_forall (Q := fun _ th => ∀ k ∈ th.sections, k.pt = some i → r ≤ k.since)
        (hrel l.tid) fun u _ => hrel u

/-- **A 0 from ds_exec is sound.** In a run that re-enables a point only
while it is raised or while no executor on it is owed a section, a
`ds_exec` that raised its point and returns 0 leaves no section open
that was counted when it raised. -/
theorem exec_returns_sound {flags : BitVec 32} (hact : flags &&& DS_ACTIVE ≠ 0)
    {ls : List (Label Tid)} (hlab : ∀ l ∈ ls, l.wakingOK = true)
    (hmeet : Meets step ReenableOK (Sys.init flags) ls) :
    Always step (fun s => ∀ l s' i r, ExecReturns s l s' i r → s'.Released i r)
      (Sys.init flags) ls := by
  have hlabels : Meets step (fun _ l => l.wakingOK = true) (Sys.init flags) ls :=
    meets_of_forall hlab
  exact (always_of_meets (fun s l s' h hok hs => Sound.step h hok.1 hok.2 hs)
    (sound_init hact) (hlabels.and hmeet)).imp fun s h l s' i r => h.returns

/-- Executor `t1` sleeps while its point is disabled, raised and dropped by
executor `t3`, and enabled again; `t0` is still in its section. -/
def traceEarly (t0 t1 t2 t3 : Tid) : List (Label Tid) :=
  [⟨t0, .call (.wait ptName)⟩, ⟨t0, .lock {}⟩, ⟨t1, .call (.exec ptName)⟩, ⟨t1, .lock {}⟩,
   ⟨t0, .wake 0⟩, ⟨t2, .call (.enable ptName false)⟩, ⟨t2, .lock {}⟩,
   ⟨t3, .call (.exec ptName)⟩, ⟨t3, .lock {}⟩, ⟨t2, .call (.enable ptName true)⟩, ⟨t2, .lock {}⟩]

theorem exec_returns_early :
    (∀ l ∈ traceEarly (0 : Fin 4) 1 2 3, l.wakingOK = true)
      ∧ ¬Always step (fun s => ∀ l s' i r, ExecReturns s l s' i r → s'.Released i r)
          (Sys.init DS_ACTIVE) (traceEarly (0 : Fin 4) 1 2 3) := by
  refine ⟨by decide, fun h => ?_⟩
  have hrun : (run step (Sys.init DS_ACTIVE) (traceEarly (0 : Fin 4) 1 2 3)).bind (fun s =>
      (step s ⟨1, .wake 0⟩).map fun s' =>
        ((s.threads 1).pc, s'.threads 1, (s'.threads 0).sections))
      = some (.inExec 0 1 false { signalled := true, disabled := true },
          { pc := .idle, last := some { raised := some (0, 1), disabled := true, rc := 0 } },
          [⟨ptName, some 0, 0⟩]) := by decide +kernel
  obtain ⟨s, hs, hnext⟩ := Option.bind_eq_some_iff.mp hrun
  obtain ⟨s', hs', heq⟩ := Option.map_eq_some_iff.mp hnext
  simp only [Prod.mk.injEq] at heq
  obtain ⟨hpc, hth, hsec⟩ := heq
  have hret : ExecReturns s ⟨1, .wake 0⟩ s' 0 1 :=
    ⟨hs', ⟨_, _, hpc⟩, by rw [hth], _, by rw [hth], rfl⟩
  have := h.last hs _ s' 0 1 hret 0 ⟨ptName, some 0, 0⟩ (by rw [hsec]; simp) rfl
  exact absurd this (by decide)

/-- The point is disabled and enabled again before anyone raises it. -/
def traceReenabled (t0 t1 t2 : Tid) : List (Label Tid) :=
  [⟨t0, .call (.wait ptName)⟩, ⟨t0, .lock {}⟩, ⟨t2, .call (.enable ptName false)⟩, ⟨t2, .lock {}⟩,
   ⟨t2, .call (.enable ptName true)⟩, ⟨t2, .lock {}⟩, ⟨t0, .wake 0⟩,
   ⟨t1, .call (.exec ptName)⟩, ⟨t1, .lock {}⟩, ⟨t0, .wake 0⟩,
   ⟨t0, .call (.unblock ptName (some ptSection))⟩, ⟨t0, .lock {}⟩, ⟨t1, .wake 0⟩]

theorem exec_returns_sound_traceReenabled :
    Always step (fun s => ∀ l s' i r, ExecReturns s l s' i r → s'.Released i r)
      (Sys.init DS_ACTIVE) (traceReenabled (0 : Fin 3) 1 2) :=
  exec_returns_sound (by decide) (by decide) (by decide +kernel)

end Sound

end Debugsync

end MiscTools
