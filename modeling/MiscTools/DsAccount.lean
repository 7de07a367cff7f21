import MiscTools.DsBacked

/-!
# Waiter accounting

`nblocked` against the sections of all threads. `step_ledger` sorts the
steps into those that leave the two in balance and those that leak, that
is, close a section (or give one up) without taking it off the count. In
a facility that stays active the leaks are the steps that miss
`LeakFree`: a `ds_wait` that has counted itself and leaves with an
error, and a `ds_unblock` under a name too long to be found.

- `nblocked_accounts`: with no leak the count is exact in every state of
  a run, and only then.
- `assert_holds`: across any activation changes, the assertion of
  `ds_unblock` never fails in a run that meets `CountedOK`.
-/

namespace MiscTools

namespace Debugsync

open DsGlobal Runs

variable {Tid : Type}

/-! ## Shares of one thread -/

@[simp] theorem Thread.blockedOn_observe (i : PointIdx) (g g' : DsGlobal) (b : Bool)
    (th : Thread) : (th.observe g g' b).blockedOn i = th.blockedOn i := by
  simp only [Thread.blockedOn, Thread.blocked_observe]

/-- The thread entered one more counted section. -/
theorem Thread.blockedOn_cons {x y : Thread} {k : WaitSection}
    (h : y.blocked = k :: x.blocked) (i : PointIdx) :
    y.blockedOn i = x.blockedOn i + if k.pt = some i then 1 else 0 := by
  simp only [Thread.blockedOn, h, List.countP_cons, decide_eq_true_eq]

theorem Thread.blockedOn_congr {x y : Thread} (h : y.blocked = x.blocked)
    (i : PointIdx) : y.blockedOn i = x.blockedOn i := by
  simp only [Thread.blockedOn, h]

/-- The thread closed the section `k` it was in. -/
theorem Thread.blockedOn_erase {x y : Thread} {k : WaitSection} (hk : k ∈ x.blocked)
    (h : y.blocked = x.blocked.erase k) (i : PointIdx) :
    y.blockedOn i + (if k.pt = some i then 1 else 0) = x.blockedOn i := by
  have hperm := (List.perm_cons_erase hk).countP_eq fun k => decide (k.pt = some i)
  simp only [Thread.blockedOn, h, hperm, List.countP_cons, decide_eq_true_eq]

theorem Thread.blockedOn_pos {th : Thread} {k : WaitSection} {i : PointIdx}
    (hk : k ∈ th.blocked) (hi : k.pt = some i) : 0 < th.blockedOn i :=
  List.countP_pos_iff.mpr ⟨k, hk, by simpa using hi⟩

theorem Thread.blockedOn_eq_zero {th : Thread} {i : PointIdx} (h : th.blockedOn i = 0) :
    ∀ k ∈ th.blocked, k.pt ≠ some i := fun k hk hi => by
  have := Thread.blockedOn_pos hk hi
  omega

/-! ## Totals over the threads -/

section Totals

variable [DecidableEq Tid] [Fintype Tid] (s : Sys Tid) (t : Tid) (th : Thread)

theorem Sys.blockedOn_put_add (i : PointIdx) :
    (s.put t th).blockedOn i + (s.threads t).blockedOn i = s.blockedOn i + th.blockedOn i :=
  Shares.total_update_add (Thread.blockedOn i) s.threads t th

theorem Sys.blockedOn_settle_add (g' : DsGlobal) (b : Bool) (i : PointIdx) :
    (s.settle t th g' b).blockedOn i + (s.threads t).blockedOn i
      = s.blockedOn i + th.blockedOn i := by
  have h := Shares.total_update_add (Thread.blockedOn i)
    (fun u => (s.threads u).observe s.ds g' b) t th
  rw [Shares.total_congr (g := s.threads) (fun u => Thread.blockedOn_observe ..),
    Thread.blockedOn_observe] at h
  exact h

end Totals

/-! ## Balanced steps and leaks -/

/-- The steps that do not leak a count: a `ds_wait` counts itself only
on an enabled point and leaves its loop only with success, and a
`ds_unblock` names a point by a name that fits. -/
def LeakFree (s : Sys Tid) (l : Label Tid) : Prop :=
  match l.act, (s.threads l.tid).pc with
  | .lock _, .locking (.wait name) =>
      ∀ i ∈ s.ds.lookUp name, (s.ds.point i).isEnabled = true
  | .lock _, .locking (.unblock name _) => name.strlen ≤ DS_MAX_POINT_NAME_LEN
  | .wake rc, .inWait _ i _ _ => rc = 0 ∧ (s.ds.point i).isEnabled = true
  | _, _ => True

/-- The section a `ds_unblock` is called for is counted on the point
that it finds, if it was counted at all. -/
theorem unblock_target {s : Sys Tid} {t : Tid} {name : CStr} {k : Option WaitSection}
    {i : PointIdx} (hinv : TableInv s) (hd : Disciplined s)
    (hpc : (s.threads t).pc = .locking (.unblock name k))
    (hlook : s.ds.lookUp name = some i) :
    ∃ k', k = some k' ∧ k' ∈ (s.threads t).blocked
      ∧ (s.threads t).blocked = (s.threads t).sections
      ∧ name.strlen ≤ DS_MAX_POINT_NAME_LEN ∧ (k'.pt = none ∨ k'.pt = some i) := by
  obtain ⟨k', rfl, hk', rfl⟩ := hd t name k hpc
  have hmem := Thread.mem_blocked_of_mem hk'
  obtain ⟨hlt, hname, -⟩ := lookUp_eq_some.mp hlook
  have hlen := hinv.table.names i hlt
  rw [hname] at hlen
  refine ⟨k', rfl, hmem, Thread.blocked_locking hpc, hlen, ?_⟩
  cases hpt : k'.pt with
  | none => exact Or.inl rfl
  | some j =>
      obtain ⟨⟨-, hj⟩, -⟩ := hinv.resolves t k' hmem j hpt
      exact Or.inr (congrArg some (Option.some.inj ((hj hlen).symm.trans hlook)))

/-- Counting in: the count of the acquired point goes up, every other
one stays. -/
theorem count_acquired {g g' : DsGlobal} {name : CStr} {i : PointIdx} (hok : TableOK g)
    (hacq : Acquired g name g' i) (j : PointIdx) :
    ((g'.incBlocked i).point j).nblocked
      = (g.point j).nblocked + if j = i then 1 else 0 := by
  rw [incBlocked_nblocked, (hacq.point hok j).1]
  split <;> rfl

theorem leakFree_of_acquired {s : Sys Tid} {t : Tid} {name : CStr} {env : Env}
    {g' : DsGlobal} {i : PointIdx} (hpc : (s.threads t).pc = .locking (.wait name))
    (hacq : Acquired s.ds name g' i) (hen : (g'.point i).isEnabled = true) :
    LeakFree s ⟨t, .lock env⟩ := by
  simp only [LeakFree, hpc, Option.mem_def]
  intro j hj
  cases hacq with
  | found hlook =>
      obtain rfl := Option.some.inj (hlook.symm.trans hj)
      exact hen
  | created hnone hi hcount hact hself hne =>
      rw [hnone] at hj
      cases hj

instance (s : Sys Tid) (l : Label Tid) : Decidable (LeakFree s l) :=
  decidable_of_iff
    ((match l.act, (s.threads l.tid).pc with
      | .lock _, .locking (.wait name) =>
          decide (∀ i ∈ s.ds.lookUp name, (s.ds.point i).isEnabled = true)
      | .lock _, .locking (.unblock name _) => decide (name.strlen ≤ DS_MAX_POINT_NAME_LEN)
      | .wake rc, .inWait _ i _ _ => decide (rc = 0 ∧ (s.ds.point i).isEnabled = true)
      | _, _ => true) = true)
    (by unfold LeakFree; split <;> simp only [decide_eq_true_eq])

section Ledger

variable [DecidableEq Tid] [Fintype Tid]

/-- What a step does to the balance of the count and the sections: it
keeps it at every point, or it leaks at one. -/
inductive Ledger (s : Sys Tid) (l : Label Tid) (s' : Sys Tid) : Prop
  | even (heq : ∀ i, s'.blockedOn i + (s.ds.point i).nblocked
        = s.blockedOn i + (s'.ds.point i).nblocked)
      (hok : Active s → LeakFree s l)
  | leak (i : PointIdx)
      (hle : ∀ j, s'.blockedOn j + (s.ds.point j).nblocked
        ≤ s.blockedOn j + (s'.ds.point j).nblocked)
      (hlt : s'.blockedOn i + (s.ds.point i).nblocked
        < s.blockedOn i + (s'.ds.point i).nblocked)
      (hbad : Active s → ¬LeakFree s l)

omit [DecidableEq Tid] in
theorem Ledger.le {s s' : Sys Tid} {l : Label Tid} (h : Ledger s l s') (i : PointIdx) :
    s'.blockedOn i + (s.ds.point i).nblocked
      ≤ s.blockedOn i + (s'.ds.point i).nblocked := by
  cases h with
  | even heq hok => exact (heq i).le
  | leak j hle hlt hbad => exact hle i

section Settle

variable {s : Sys Tid} {t : Tid} {a : Act} {th : Thread} {g' : DsGlobal} {b : Bool}

/-- A section that moves the caller's share as it moves the count. -/
theorem Ledger.settle_even
    (h : ∀ i, th.blockedOn i + (s.ds.point i).nblocked
      = (s.threads t).blockedOn i + (g'.point i).nblocked)
    (hok : Active s → LeakFree s ⟨t, a⟩) : Ledger s ⟨t, a⟩ (s.settle t th g' b) :=
  .even (fun i => by
    have := s.blockedOn_settle_add t th g' b i
    have := h i
    simp only [Sys.settle_ds]
    omega) hok

/-- A section after which the count of `j` is ahead of the sections by
one more than before. -/
theorem Ledger.settle_leak (j : PointIdx)
    (h : ∀ i, th.blockedOn i + (s.ds.point i).nblocked + (if j = i then 1 else 0)
      = (s.threads t).blockedOn i + (g'.point i).nblocked)
    (hbad : Active s → ¬LeakFree s ⟨t, a⟩) : Ledger s ⟨t, a⟩ (s.settle t th g' b) := by
  refine .leak j (fun i => ?_) ?_ hbad
  · have := s.blockedOn_settle_add t th g' b i
    have := h i
    simp only [Sys.settle_ds]
    omega
  · have := s.blockedOn_settle_add t th g' b j
    have := h j
    simp only [if_true] at this
    simp only [Sys.settle_ds]
    omega

/-- A section that moves neither. -/
theorem Ledger.settle_same (hblk : th.blocked = (s.threads t).blocked)
    (hnb : ∀ i, (g'.point i).nblocked = (s.ds.point i).nblocked)
    (hok : Active s → LeakFree s ⟨t, a⟩) : Ledger s ⟨t, a⟩ (s.settle t th g' b) :=
  .settle_even (fun i => by rw [hnb, Thread.blockedOn_congr hblk]) hok

/-- A section that closes the caller's own, counted on `i`, and takes it
off the count. -/
theorem Ledger.settle_close {k : WaitSection} {i : PointIdx} (hk : k ∈ (s.threads t).blocked)
    (hblk : th.blocked = (s.threads t).blocked.erase k) (hpt : k.pt = some i)
    (hpos : 0 < (s.ds.point i).nblocked)
    (hnb : ∀ j, (g'.point j).nblocked
      = if j = i then (s.ds.point j).nblocked - 1 else (s.ds.point j).nblocked)
    (hok : Active s → LeakFree s ⟨t, a⟩) : Ledger s ⟨t, a⟩ (s.settle t th g' b) := by
  refine .settle_even (fun j => ?_) hok
  have herase := Thread.blockedOn_erase hk hblk j
  simp only [hpt, Option.some.injEq] at herase
  rw [hnb]
  by_cases hji : j = i
  · subst hji
    simp only [if_true] at herase ⊢
    omega
  · simp only [hji, Ne.symm hji, if_false] at herase ⊢
    omega

end Settle

/-- The unlocked part of a call. Its early exits are the leaks: the one
of `ds_unblock` closes a section that was counted. -/
theorem Ledger.begin {s : Sys Tid} {t : Tid} {c : Call} (hpc : (s.threads t).pc = .idle)
    (hposs : c.possible (s.threads t).sections = true) :
    Ledger s ⟨t, .call c⟩ (s.put t ((s.threads t).begin s.ds c)) := by
  have hsec : (s.threads t).blocked = (s.threads t).sections :=
    Thread.blocked_of_awake fun _ _ _ _ hw => by rw [hpc] at hw; cases hw
  have hput := s.blockedOn_put_add t ((s.threads t).begin s.ds c)
  rcases (s.threads t).begin_cases s.ds c with (hb | ⟨name, -, hb⟩) | ⟨name, k, rfl, hb⟩
  · refine .even (fun i => ?_) fun _ => trivial
    have := hput i
    have := Thread.blockedOn_congr (hb.trans hsec.symm) i
    simp only [Sys.put_ds]
    omega
  · refine .even (fun i => ?_) fun _ => trivial
    have := hput i
    have := Thread.blockedOn_cons (hsec ▸ hb) i
    simp only [reduceCtorEq, if_false] at this
    simp only [Sys.put_ds]
    omega
  · have hk : k ∈ (s.threads t).blocked := by
      simp only [Call.possible, Bool.and_eq_true, decide_eq_true_eq] at hposs
      exact hsec ▸ hposs.1
    have herase := Thread.blockedOn_erase hk (hsec ▸ hb)
    cases hpt : k.pt with
    | none =>
        refine .even (fun i => ?_) fun _ => trivial
        have := hput i
        have := herase i
        simp only [hpt, reduceCtorEq, if_false] at this
        simp only [Sys.put_ds]
        omega
    | some j =>
        refine .leak j (fun i => ?_) ?_ fun hact => ?_
        · have := hput i
          have := herase i
          simp only [Sys.put_ds]
          omega
        · have := hput j
          have := herase j
          simp only [hpt, if_true] at this
          simp only [Sys.put_ds]
          omega
        · -- an active facility has no early exits
          exfalso
          have := herase j
          rw [hact.begin_eq, Thread.blockedOn_congr (x := s.threads t)] at this
          · simp [hpt] at this
          · rw [hsec]
            rfl

/-- `ds_unblock` closes the caller's section without a point to take it
off from. -/
theorem Ledger.drop {s : Sys Tid} {t : Tid} {name : CStr} {k : Option WaitSection} {env : Env}
    (hinv : TableInv s) (hd : Disciplined s)
    (hpc : (s.threads t).pc = .locking (.unblock name k))
    (hnone : s.ds.inactive = true ∨ s.ds.lookUp name = none) :
    Ledger s ⟨t, .lock env⟩ (s.settle t ((s.threads t).unblocked k (-1)) s.ds false) := by
  obtain ⟨k', rfl, hk', rfl⟩ := hd t name k hpc
  have hsec := Thread.blocked_locking hpc
  have hmem : k' ∈ (s.threads t).blocked := Thread.mem_blocked_of_mem hk'
  have herase := Thread.blockedOn_erase (y := (s.threads t).unblocked (some k') (-1)) hmem
    (by rw [hsec]; rfl)
  cases hpt : k'.pt with
  | none =>
      refine .settle_even (fun i => ?_) fun hact => absurd hpt (hact.counted t k' hmem)
      have := herase i
      simp only [hpt, reduceCtorEq, if_false] at this
      omega
  | some j =>
      refine .settle_leak j (fun i => ?_) fun hact hfree => ?_
      · have := herase i
        simp only [hpt, Option.some.injEq] at this
        omega
      · simp only [LeakFree, hpc] at hfree
        rcases hnone with hin | hnone
        · rw [hact.on] at hin
          cases hin
        · rw [(hinv.resolves t k' hmem j hpt).1.2 hfree] at hnone
          cases hnone

/-- `ds_unblock` takes the caller's section off the point it finds. -/
theorem Ledger.release {s : Sys Tid} {t : Tid} {name : CStr} {k : Option WaitSection} {env : Env}
    {i : PointIdx} {rc : Int} {g' : DsGlobal} {b : Bool} (hinv : TableInv s) (hd : Disciplined s)
    (hc : CountedOK s ⟨t, .lock env⟩) (hpc : (s.threads t).pc = .locking (.unblock name k))
    (hact : s.ds.inactive = false) (hlook : s.ds.lookUp name = some i)
    (hpos : 0 < (s.ds.point i).nblocked)
    (hnb : ∀ j, (g'.point j).nblocked
      = if j = i then (s.ds.point j).nblocked - 1 else (s.ds.point j).nblocked) :
    Ledger s ⟨t, .lock env⟩ (s.settle t ((s.threads t).unblocked k rc) g' b) := by
  obtain ⟨k', rfl, hmem, hsec, hlen, hpt⟩ := unblock_target hinv hd hpc hlook
  have hpt' : k'.pt = some i := hpt.resolve_left fun hnone => by
    rcases hc.unblock hpc hnone with h | h
    · rw [hact] at h
      cases h
    · rw [hlook] at h
      cases h
  exact .settle_close hmem (by rw [hsec]; rfl) hpt' hpos hnb fun _ => by
    simpa [LeakFree, hpc] using hlen

/-- `ds_wait` counts itself on a point that is disabled. -/
theorem Ledger.countFail {s : Sys Tid} {t : Tid} {name : CStr} {env : Env} {g' : DsGlobal}
    {i : PointIdx} {rc : Int} {b : Bool} (hinv : TableInv s)
    (hpc : (s.threads t).pc = .locking (.wait name)) (hacq : Acquired s.ds name g' i)
    (hrc : rc ≠ 0) (hen : (g'.point i).isEnabled = false) :
    Ledger s ⟨t, .lock env⟩
      (s.settle t ((s.threads t).waited ⟨name, some i, s.clock⟩ false rc) (g'.incBlocked i) b) := by
  have hsame : ((s.threads t).waited ⟨name, some i, s.clock⟩ false rc).blocked
      = (s.threads t).blocked := by
    rw [Thread.blocked_waited, if_neg hrc, Thread.blocked_locking hpc]
  refine .settle_leak i (fun j => ?_) fun _ hfree => ?_
  · rw [Thread.blockedOn_congr hsame, count_acquired hinv.table hacq]
    simp only [eq_comm (a := j)]
    omega
  · simp only [LeakFree, hpc] at hfree
    cases hacq with
    | found hlook =>
        rw [hfree i hlook] at hen
        cases hen
    | created hnone hi hcount hact hself hne =>
        rw [hself] at hen
        cases hen

/-- `ds_wait` counts itself, and its section is open from then on. -/
theorem Ledger.counted {s : Sys Tid} {t : Tid} {th : Thread} {name : CStr} {env : Env}
    {g' : DsGlobal} {i : PointIdx} {b : Bool} (hinv : TableInv s)
    (hpc : (s.threads t).pc = .locking (.wait name)) (hacq : Acquired s.ds name g' i)
    (hen : (g'.point i).isEnabled = true)
    (hth : th.blocked = ⟨name, some i, s.clock⟩ :: (s.threads t).blocked) :
    Ledger s ⟨t, .lock env⟩ (s.settle t th (g'.incBlocked i) b) := by
  refine .settle_even (fun j => ?_) fun _ => leakFree_of_acquired hpc hacq hen
  rw [Thread.blockedOn_cons hth, count_acquired hinv.table hacq]
  simp only [Option.some.injEq, eq_comm (a := j)]
  omega

/-- The unlocked store touches neither. -/
theorem Ledger.store {s : Sys Tid} {t : Tid} (hpc : (s.threads t).pc = .activating) :
    Ledger s ⟨t, .store⟩
      { s.put t { s.threads t with pc := .idle } with ds := s.ds.doActivate true } := by
  refine .even (fun i => ?_) fun _ => ?_
  · have := s.blockedOn_put_add t { s.threads t with pc := .idle } i
    have hsame : ({ s.threads t with pc := .idle } : Thread).blocked
        = (s.threads t).blocked :=
      (Thread.blocked_of_awake fun _ _ _ _ hw => by rw [hpc] at hw; cases hw).symm
    have := Thread.blockedOn_congr hsame i
    simp only [Sys.blockedOn, Sys.put, doActivate_point] at *
    omega
  · simp [LeakFree]

/-- Sorting the steps. -/
theorem step_ledger {s s' : Sys Tid} {l : Label Tid} (hinv : TableInv s)
    (hd : Disciplined s) (hc : CountedOK s l) (hst : Step s l.tid l.act s') :
    Ledger s l s' := by
  obtain ⟨t, a⟩ := l
  simp only at hst
  cases hst with
  | begin hpc hposs => exact .begin hpc hposs
  | store hpc => exact .store hpc
  | @quit c env th g' hpc hth hg hwait hun =>
      have hnb : ∀ i, (g'.point i).nblocked = (s.ds.point i).nblocked := by
        rcases hg with rfl | ⟨name, i, hacq⟩
        · exact fun _ => rfl
        · exact fun j => (hacq.point hinv.table j).1
      refine .settle_same (hth.blocked.trans (Thread.blocked_locking hpc).symm) hnb fun hact => ?_
      unfold LeakFree
      simp only [hpc]
      cases c with
      | wait name =>
          rcases hwait name rfl with hin | hnone
          · rw [hact.on] at hin
            cases hin
          · simp [hnone]
      | unblock name k => exact absurd rfl (hun name k)
      | exec name => trivial
      | enable name b => trivial
      | disableAll => trivial
      | activate b => trivial
  | activate hpc =>
      exact .settle_same (Thread.blocked_locking hpc).symm (fun i => by rw [doActivate_point])
        fun _ => by simp [LeakFree, hpc]
  | disableAll hpc hg =>
      refine .settle_same (Thread.blocked_locking hpc).symm (fun i => ?_) fun _ => ?_
      · rcases hg with ⟨-, rfl⟩ | ⟨b, -, rfl⟩ <;> simp
      · rcases hg with ⟨rfl, -⟩ | ⟨b, rfl, -⟩ <;> simp [LeakFree, hpc]
  | enable hpc hlook hb =>
      exact .settle_same (Thread.blocked_locking hpc).symm (fun i => setEnabled_nblocked ..)
        fun _ => by simp [LeakFree, hpc]
  | drop hpc hnone => exact .drop hinv hd hpc hnone
  | abort hpc hact hlook h0 =>
      refine .even (fun i => rfl) fun _ => ?_
      obtain ⟨-, -, -, -, hlen, -⟩ := unblock_target hinv hd hpc hlook
      simpa [LeakFree, hpc] using hlen
  | releaseLast hpc hact hlook h1 =>
      exact .release hinv hd hc hpc hact hlook (by omega) fun j => by
        rw [setSyncwait_nblocked, decBlocked_nblocked]
  | releaseOne hpc hact hlook h1 =>
      exact .release hinv hd hc hpc hact hlook (by omega) fun j => decBlocked_nblocked ..
  | countSleep hpc hacq hsw hen =>
      exact .counted hinv hpc hacq hen
        (by rw [Thread.blocked_locking hpc]; exact Thread.blocked_of_sleeps rfl)
  | countEnter hpc hacq hsw hen =>
      exact .counted hinv hpc hacq hen
        (by rw [Thread.blocked_locking hpc, Thread.blocked_waited, if_pos rfl])
  | countFail hpc hacq hrc hen => exact .countFail hinv hpc hacq hrc hen
  | raise hpc hact hlook hnb hsw hen hbc =>
      exact .settle_same (Thread.blocked_locking hpc).symm (fun i => setSyncwait_nblocked ..)
        fun _ => by simp [LeakFree, hpc]
  | raiseDrop hpc hact hlook hrc hnb hbusy hout =>
      exact .settle_same (Thread.blocked_locking hpc).symm
        (fun i => by rw [setSyncwait_nblocked, setSyncwait_nblocked])
        fun _ => by simp [LeakFree, hpc]
  | wakeSleep hpc hrc hsw hen =>
      exact .settle_same (Thread.blocked_of_sleeps hpc).symm (fun i => rfl)
        fun _ => by simp [LeakFree, hpc, hrc, hen]
  | wakeEnter hpc hrc hsw hen =>
      exact .settle_same (Thread.blocked_of_sleeps hpc).symm (fun i => rfl)
        fun _ => by simp [LeakFree, hpc, hrc, hen]
  | @wakeFail name i since nap rc rc' hpc hrc' hout =>
      have hcons := Thread.blockedOn_cons (y := s.threads t)
        (x := (s.threads t).waited ⟨name, some i, since⟩ (nap.disabled || nap.relapsed) rc')
        (by rw [Thread.blocked_of_sleeps hpc, Thread.blocked_waited, if_neg hrc'])
      refine .settle_leak i (fun j => ?_) fun _ hfree => ?_
      · rw [hcons]
        simp only [Option.some.injEq]
        omega
      · simp only [LeakFree, hpc] at hfree
        rcases hout with hout | hout
        · rw [hfree.2] at hout
          cases hout
        · exact hout hfree.1
  | holdOn hpc hrc hsw hen =>
      exact .settle_same
        (Thread.blocked_of_awake fun _ _ _ _ hw => by rw [hpc] at hw; cases hw).symm
        (fun i => rfl) fun _ => by simp [LeakFree, hpc]
  | letGo hpc hout hrc' =>
      exact .settle_same
        (Thread.blocked_of_awake fun _ _ _ _ hw => by rw [hpc] at hw; cases hw).symm
        (fun i => setSyncwait_nblocked ..) fun _ => by simp [LeakFree, hpc]

end Ledger

/-! ## The accounts along a run -/

section Runs

variable [DecidableEq Tid] [Fintype Tid]

/-- `nblocked` covers the sections, and no assertion has failed. -/
structure Accounted (s : Sys Tid) : Prop extends TableInv s where
  disciplined : Disciplined s
  backed : Backed s
  running : s.aborted = false

omit [DecidableEq Tid] in
theorem Sys.blockedOn_init (flags : BitVec 32) (i : PointIdx) :
    (Sys.init flags : Sys Tid).blockedOn i = 0 :=
  Finset.sum_eq_zero fun _ _ => rfl

omit [DecidableEq Tid] in
theorem accounted_init (flags : BitVec 32) : Accounted (Sys.init flags : Sys Tid) where
  toTableInv := tableInv_init flags
  disciplined := fun _ _ _ hpc => by cases hpc
  backed := fun i => (Sys.blockedOn_init flags i).le
  running := rfl

/-- A `ds_unblock` made for a counted section finds the count raised. -/
theorem Accounted.step {s s' : Sys Tid} {l : Label Tid} (h : Accounted s)
    (hlab : l.disciplineOK = true) (hc : CountedOK s l) (hs : step s l = some s') :
    Accounted s' := by
  obtain ⟨-, hst⟩ := step_cases hs
  refine ⟨h.toTableInv.step hst, h.disciplined.step h.toTableInv hlab hst, fun i => ?_, ?_⟩
  · have := (step_ledger h.toTableInv h.disciplined hc hst).le i
    have := h.backed i
    omega
  · generalize l.act = a at hst
    cases hst.shape h.toTableInv with
    | begin hpc hposs => exact h.running
    | store hpc => exact h.running
    | sect hset => exact h.running
    | @abort _ name k i hpc hact hlook h0 =>
        exfalso
        obtain ⟨k', rfl, hmem, -, -, hpt⟩ := unblock_target h.toTableInv h.disciplined hpc hlook
        rcases hpt with hpt | hpt
        · rcases hc.unblock hpc hpt with hin | hnone
          · rw [hact] at hin; cases hin
          · rw [hlook] at hnone; cases hnone
        · have hpos := Thread.blockedOn_pos hmem hpt
          have hle := Shares.share_le_total (Thread.blockedOn i) s.threads l.tid
          have hb := h.backed i
          rw [h0, Sys.blockedOn] at hb
          omega

omit [DecidableEq Tid] in
/-- Nobody is left on a point whose count is 0. -/
theorem Accounted.no_section {s : Sys Tid} (h : Accounted s) {i : PointIdx}
    (h0 : (s.ds.point i).nblocked = 0) (t : Tid) :
    ∀ k ∈ (s.threads t).blocked, k.pt ≠ some i :=
  Thread.blockedOn_eq_zero
    (Shares.share_eq_zero (Nat.le_zero.mp (h0 ▸ h.backed i)) t)

/-- **The assertion of `ds_unblock`.** Across any calls, activation
changes and answers of the C library, it never fails in a run in which
no `ds_unblock` made for an uncounted section reaches the count. -/
theorem assert_holds {flags : BitVec 32} {ls : List (Label Tid)}
    (hdisc : ∀ l ∈ ls, l.disciplineOK = true)
    (hmeet : Meets step CountedOK (Sys.init flags) ls) :
    Always step (fun s => s.aborted = false) (Sys.init flags) ls := by
  have hlabels : Meets step (fun _ l => l.disciplineOK = true) (Sys.init flags) ls :=
    meets_of_forall hdisc
  exact (always_of_meets (fun s l s' h hok hs => Accounted.step h hok.1 hok.2 hs)
    (accounted_init flags) (hlabels.and hmeet)).imp fun s h => h.running

/-! ## Exact accounting -/

/-- Threads asleep in `ds_wait` on point `i`: past the increment. -/
def Thread.insideWait (i : PointIdx) (th : Thread) : Nat :=
  match th.pc with
  | .inWait _ j _ _ => if j = i then 1 else 0
  | _ => 0

/-- Sections on point `i` a thread is in: its `ds_wait` returned 0 and
its `ds_unblock` has not come. -/
def Thread.inSections (i : PointIdx) (th : Thread) : Nat :=
  th.sections.countP fun k => decide (k.pt = some i)

theorem Thread.blockedOn_eq (i : PointIdx) (th : Thread) :
    th.blockedOn i = th.insideWait i + th.inSections i := by
  obtain ⟨pc, ks, last⟩ := th
  cases pc with
  | inWait name j since nap =>
      simp only [blockedOn, blocked, insideWait, inSections, List.countP_cons,
        Option.some.injEq, decide_eq_true_eq]
      omega
  | idle => simp [blockedOn, blocked, insideWait, inSections]
  | locking c => simp [blockedOn, blocked, insideWait, inSections]
  | activating => simp [blockedOn, blocked, insideWait, inSections]
  | inExec j r e nap => simp [blockedOn, blocked, insideWait, inSections]

omit [DecidableEq Tid] in
theorem Sys.blockedOn_eq (s : Sys Tid) (i : PointIdx) :
    s.blockedOn i = Shares.total (Thread.insideWait i) s.threads
      + Shares.total (Thread.inSections i) s.threads := by
  simp only [Sys.blockedOn, Shares.total, Thread.blockedOn_eq, Finset.sum_add_distrib]

omit [DecidableEq Tid] [Fintype Tid] in
/-- In a facility that stays active every section was counted, so no
`ds_unblock` can take a foreign count. -/
theorem Active.countedOK {s : Sys Tid} (h : Active s) (hd : Disciplined s) (l : Label Tid) :
    CountedOK s l := by
  unfold CountedOK
  split
  · rename_i name k hpc
    obtain ⟨k', hk', hmem, -⟩ := hd l.tid name (some k) hpc
    obtain rfl := Option.some.inj hk'
    exact fun hnone => absurd hnone (h.counted l.tid k (Thread.mem_blocked_of_mem hmem))
  · trivial

/-- The labels of a disciplined run of a facility that stays active. -/
def Label.steadyOK (l : Label Tid) : Bool := l.activeOK && l.disciplineOK

/-- What holds in every state of such a run. -/
structure Steady (s : Sys Tid) : Prop extends Accounted s where
  active : Active s

omit [DecidableEq Tid] in
theorem steady_init {flags : BitVec 32} (h : flags &&& DS_ACTIVE ≠ 0) :
    Steady (Sys.init flags : Sys Tid) :=
  ⟨accounted_init flags, active_init h⟩

theorem Steady.step {s s' : Sys Tid} {l : Label Tid} (h : Steady s)
    (hlab : l.steadyOK = true) (hs : step s l = some s') : Steady s' := by
  simp only [Label.steadyOK, Bool.and_eq_true] at hlab
  exact ⟨h.toAccounted.step hlab.2 (h.active.countedOK h.disciplined l) hs,
    h.active.step h.toTableInv hlab.1 (step_cases hs).2⟩

/-- **Waiter accounting.** In a facility that stays active, `nblocked` is
the number of calls inside `ds_wait` plus the number of sections not yet
unblocked in every state of a run, if and only if no step of the run
leaks. -/
theorem nblocked_accounts {flags : BitVec 32} (hact : flags &&& DS_ACTIVE ≠ 0)
    {ls : List (Label Tid)} (hlab : ∀ l ∈ ls, l.steadyOK = true) :
    Always step
        (fun s => ∀ i, (s.ds.point i).nblocked
          = Shares.total (Thread.insideWait i) s.threads
            + Shares.total (Thread.inSections i) s.threads)
        (Sys.init flags) ls
      ↔ Meets step LeakFree (Sys.init flags) ls := by
  refine always_iff_meets
    (I := fun s => Steady s ∧ ∀ i, (s.ds.point i).nblocked = s.blockedOn i)
    (L := fun l => l.steadyOK = true) ?_ ?_ ?_ ?_ hlab
  · intro s l s' ⟨h, heq⟩ hl hfree hs
    refine ⟨h.step hl hs, fun i => ?_⟩
    cases step_ledger h.toTableInv h.disciplined (h.active.countedOK h.disciplined l)
      (step_cases hs).2 with
    | even hbal hok =>
        have := hbal i
        have := heq i
        omega
    | leak j hle hlt hbad => exact absurd hfree (hbad h.active)
  · intro s ⟨h, heq⟩ i
    rw [heq i, Sys.blockedOn_eq]
  · intro s l s' ⟨h, heq⟩ hl hleak hs hgood
    cases step_ledger h.toTableInv h.disciplined (h.active.countedOK h.disciplined l)
      (step_cases hs).2 with
    | even hbal hok => exact hleak (hok h.active)
    | leak j hle hlt hbad =>
        have hj := hgood j
        rw [← Sys.blockedOn_eq] at hj
        have := heq j
        omega
  · exact ⟨steady_init hact, fun i => (Sys.blockedOn_init flags i).symm⟩

end Runs

/-! ## The defects at concrete runs -/

/-- The name used by the traces below. -/
def ptName : CStr := ⟨[112], by decide⟩

/-- The section of a `ds_wait` on `ptName`, counted at time 0. -/
def ptSection : WaitSection := ⟨ptName, some 0, 0⟩

/-- `t0` waits while the facility is inactive, so nothing is counted;
the facility is activated, `t1` creates the point, and `t0`
unblocks. -/
def traceUncounted (t0 t1 : Tid) : List (Label Tid) :=
  [⟨t0, .call (.wait ptName)⟩, ⟨t1, .call (.activate true)⟩, ⟨t1, .store⟩,
   ⟨t1, .call (.exec ptName)⟩, ⟨t1, .lock {}⟩,
   ⟨t0, .call (.unblock ptName (some ⟨ptName, none, 0⟩))⟩, ⟨t0, .lock {}⟩]

theorem assert_fails_after_activation :
    (∀ l ∈ traceUncounted (0 : Fin 2) 1, l.disciplineOK = true)
      ∧ (run step (Sys.init 0) (traceUncounted (0 : Fin 2) 1)).map (·.aborted) = some true := by
  decide +kernel

/-- Activated in time, the same calls are counted and balanced. -/
def traceCounted (t0 t1 : Tid) : List (Label Tid) :=
  [⟨t1, .call (.activate true)⟩, ⟨t1, .store⟩,
   ⟨t0, .call (.wait ptName)⟩, ⟨t0, .lock {}⟩,
   ⟨t1, .call (.exec ptName)⟩, ⟨t1, .lock {}⟩, ⟨t0, .wake 0⟩,
   ⟨t0, .call (.unblock ptName (some ptSection))⟩, ⟨t0, .lock {}⟩, ⟨t1, .wake 0⟩]

theorem assert_holds_traceCounted :
    Always step (fun s => s.aborted = false) (Sys.init 0) (traceCounted (0 : Fin 2) 1) :=
  assert_holds (by decide) (by decide +kernel)

/-- `t1` disables the point `t0` waits on; `ds_wait` fails and
its count stays. -/
def traceLeak (t0 t1 : Tid) : List (Label Tid) :=
  [⟨t0, .call (.wait ptName)⟩, ⟨t0, .lock {}⟩, ⟨t1, .call (.enable ptName false)⟩,
   ⟨t1, .lock {}⟩, ⟨t0, .wake 0⟩]

theorem nblocked_leaks :
    (∀ l ∈ traceLeak (0 : Fin 2) 1, l.steadyOK = true)
      ∧ (run step (Sys.init DS_ACTIVE) (traceLeak (0 : Fin 2) 1)).map (fun s =>
          ((s.ds.point 0).nblocked, Shares.total (Thread.insideWait 0) s.threads
            + Shares.total (Thread.inSections 0) s.threads)) = some (1, 0) := by
  decide +kernel

theorem nblocked_accounts_traceLeak :
    ¬Always step
        (fun s => ∀ i, (s.ds.point i).nblocked
          = Shares.total (Thread.insideWait i) s.threads
            + Shares.total (Thread.inSections i) s.threads)
        (Sys.init DS_ACTIVE) (traceLeak (0 : Fin 2) 1) := by
  rw [nblocked_accounts (by decide) (by decide)]
  decide +kernel

end Debugsync

end MiscTools
