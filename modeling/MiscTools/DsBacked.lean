import MiscTools.DsInv

/-!
# Every step keeps the table

The step lemmas of the invariants of `DsInv`: the table and the sections
that point into it (`TableInv`), the callers that unblock what they
waited on (`Disciplined`), and the facility that stays active (`Active`).
What a section does to them depends on little of it, so the constructors
of `Step` are first sorted by shape (`Step.shape`), and each invariant
looks at four shapes only.
-/

namespace MiscTools

namespace Debugsync

open DsGlobal Runs

variable {Tid : Type}

/-! ## The table -/

theorem TableInv.put [DecidableEq Tid] {s : Sys Tid} {t : Tid} {th : Thread} (h : TableInv s)
    (hblk : ∀ k ∈ th.blocked, k ∈ (s.threads t).blocked ∨ k.pt = none)
    (hexec : ∀ i r e nap, th.pc ≠ .inExec i r e nap) : TableInv (s.put t th) where
  table := h.table
  resolves := Sys.put_forall
    (Q := fun _ th => ∀ k ∈ th.blocked, ∀ i, k.pt = some i →
      Resolves s.ds k.name i ∧ k.since < s.clock)
    (fun k hk i hi => by
      rcases hblk k hk with hk | hk
      · exact h.resolves t k hk i hi
      · rw [hk] at hi
        cases hi)
    fun u _ => h.resolves u
  raised := Sys.put_forall
    (Q := fun _ th => ∀ i r e nap, th.pc = .inExec i r e nap → i.val < s.ds.count ∧ r < s.clock)
    (fun i r e nap hpc => absurd hpc (hexec i r e nap))
    fun u _ => h.raised u

/-- A sleeper stays where it is, whatever it observes. -/
theorem Pc.observe_inExec {pc : Pc} {g g' : DsGlobal} {b : Bool} {i : PointIdx} {r : Nat}
    {e : Bool} {nap : Nap} (h : pc.observe g g' b = .inExec i r e nap) :
    ∃ e' nap', pc = .inExec i r e' nap'
      ∧ e = (e' || (decide (0 < (g.point i).nblocked) && decide ((g'.point i).nblocked = 0)))
      ∧ nap = nap'.observe g g' b i := by
  cases pc with
  | inExec i' r' e' nap' =>
      simp only [Pc.observe, Pc.inExec.injEq] at h
      obtain ⟨rfl, rfl, rfl, rfl⟩ := h
      exact ⟨e', nap', rfl, rfl, rfl⟩
  | idle => cases h
  | locking c => cases h
  | activating => cases h
  | inWait name i' since nap' => cases h

@[simp] theorem Pc.observe_eq_locking {pc : Pc} {g g' : DsGlobal} {b : Bool} {c : Call} :
    pc.observe g g' b = .locking c ↔ pc = .locking c := by
  cases pc <;> simp [Pc.observe]

@[simp] theorem Pc.observe_eq_activating {pc : Pc} {g g' : DsGlobal} {b : Bool} :
    pc.observe g g' b = .activating ↔ pc = .activating := by
  cases pc <;> simp [Pc.observe]

theorem TableInv.settle [DecidableEq Tid] {s : Sys Tid} {t : Tid} {th : Thread}
    {g' : DsGlobal} {b : Bool} (h : TableInv s) (hg : Grows s.ds g')
    (hblk : ∀ k ∈ th.blocked, k ∈ (s.threads t).blocked
      ∨ ∀ i, k.pt = some i → Resolves g' k.name i ∧ k.since = s.clock)
    (hexec : ∀ i r e nap, th.pc = .inExec i r e nap → i.val < g'.count ∧ r ≤ s.clock) :
    TableInv (s.settle t th g' b) where
  table := hg.ok h.table
  resolves := by
    have hold : ∀ v, ∀ k ∈ (s.threads v).blocked, ∀ i, k.pt = some i →
        Resolves g' k.name i ∧ k.since < s.clock + 1 := by
      intro v k hk i hi
      obtain ⟨hres, hsince⟩ := h.resolves v k hk i hi
      exact ⟨hg.resolves _ _ hres, Nat.lt_succ_of_lt hsince⟩
    refine Sys.settle_forall
      (Q := fun _ th => ∀ k ∈ th.blocked, ∀ i, k.pt = some i →
        Resolves g' k.name i ∧ k.since < s.clock + 1) (fun k hk i hi => ?_) fun u _ k hk => ?_
    · rcases hblk k hk with hk | hk
      · exact hold t k hk i hi
      · obtain ⟨hres, hsince⟩ := hk i hi
        exact ⟨hres, by omega⟩
    · rw [Thread.blocked_observe] at hk
      exact hold u k hk
  raised := by
    refine Sys.settle_forall
      (Q := fun _ th => ∀ i r e nap, th.pc = .inExec i r e nap →
        i.val < g'.count ∧ r < s.clock + 1) (fun i r e nap hpc => ?_) fun u _ i r e nap hpc => ?_
    · obtain ⟨h1, h2⟩ := hexec i r e nap hpc
      exact ⟨h1, Nat.lt_succ_of_le h2⟩
    · obtain ⟨e', nap', hpc', -⟩ := Pc.observe_inExec hpc
      obtain ⟨h1, h2⟩ := h.raised u i r e' nap' hpc'
      exact ⟨Nat.lt_of_lt_of_le h1 hg.count, Nat.lt_succ_of_lt h2⟩

/-! ## The shape of a section -/

/-- What every section of thread `t` that leaves it as `th` and the
globals as `g'` keeps, whatever the call. -/
structure Settled (s : Sys Tid) (t : Tid) (th : Thread) (g' : DsGlobal) : Prop where
  grows : Grows s.ds g'
  blocked : ∀ k ∈ th.blocked, k ∈ (s.threads t).blocked
    ∨ ∃ i, k.pt = some i ∧ Resolves g' k.name i ∧ k.since = s.clock
  exec : ∀ i r e nap, th.pc = .inExec i r e nap → i.val < g'.count ∧ r ≤ s.clock
  locking : ∀ c, th.pc ≠ .locking c
  activating : th.pc ≠ .activating
  inactive : g'.inactive = s.ds.inactive ∨ ∃ b, (s.threads t).pc = .locking (.activate b)

/-- The common case: the caller ends idle in sections it was in. -/
theorem Settled.of_idle {s : Sys Tid} {t : Tid} {th : Thread} {g' : DsGlobal}
    (hg : Grows s.ds g') (hpc : th.pc = .idle)
    (hsub : ∀ k ∈ th.sections, k ∈ (s.threads t).sections)
    (hin : g'.inactive = s.ds.inactive ∨ ∃ b, (s.threads t).pc = .locking (.activate b)) :
    Settled s t th g' where
  grows := hg
  blocked := fun k hk => by
    rw [Thread.blocked_of_awake fun _ _ _ _ hw => by rw [hpc] at hw; cases hw] at hk
    exact Or.inl (Thread.mem_blocked_of_mem (hsub k hk))
  exec := fun i r e nap hw => by rw [hpc] at hw; cases hw
  locking := fun c hw => by rw [hpc] at hw; cases hw
  activating := fun hw => by rw [hpc] at hw; cases hw
  inactive := hin

/-- A section that counts the caller in: its new section resolves to the
point that was acquired. -/
theorem Settled.of_count {s : Sys Tid} {t : Tid} {th : Thread} {g' : DsGlobal}
    {name : CStr} {i : PointIdx} (hacq : Acquired s.ds name g' i)
    (hblk : ∀ k ∈ th.blocked, k ∈ (s.threads t).sections ∨ k = ⟨name, some i, s.clock⟩)
    (hexec : ∀ i r e nap, th.pc ≠ .inExec i r e nap) (hlock : ∀ c, th.pc ≠ .locking c)
    (hact : th.pc ≠ .activating) : Settled s t th (g'.incBlocked i) where
  grows := hacq.grows.trans (grows_incBlocked hacq.lt_count)
  blocked := fun k hk => by
    rcases hblk k hk with hk | rfl
    · exact Or.inl (Thread.mem_blocked_of_mem hk)
    · exact Or.inr ⟨i, rfl,
        (grows_incBlocked hacq.lt_count).resolves _ _ hacq.self_resolves, rfl⟩
  exec := fun i r e nap hw => absurd hw (hexec i r e nap)
  locking := hlock
  activating := hact
  inactive := Or.inl hacq.inactive

theorem Thread.unblocked_sections_subset (th : Thread) (k : Option WaitSection) (rc : Int) :
    ∀ k' ∈ (th.unblocked k rc).sections, k' ∈ th.sections := by
  intro k' hk'
  cases k with
  | none => exact hk'
  | some k => exact List.mem_of_mem_erase hk'

/-- A failed `ds_wait` opens no section. -/
theorem Thread.waited_sections_subset (th : Thread) (k : WaitSection) (b : Bool) {rc : Int}
    (hrc : rc ≠ 0) : ∀ k' ∈ (th.waited k b rc).sections, k' ∈ th.sections := by
  intro k' hk'
  rwa [Thread.waited, if_neg hrc] at hk'

/-- The section a `ds_wait` opens is on its own point. -/
theorem Thread.waited_sections_cases (th : Thread) (name : CStr) {i : PointIdx} (since : Nat)
    (b : Bool) {P : PointIdx → Prop} (hi : P i) :
    ∀ k ∈ (th.waited ⟨name, some i, since⟩ b 0).sections,
      k ∈ th.sections ∨ ∀ j, k.pt = some j → P j := by
  intro k hk
  rw [Thread.waited, if_pos rfl] at hk
  rcases List.mem_cons.mp hk with rfl | hk
  · refine Or.inr fun j hj => ?_
    obtain rfl := Option.some.inj hj
    exact hi
  · exact Or.inl hk

/-- A step is the unlocked part of a call, the unlocked store of
`ds_activate`, a failed assertion, or a whole section. -/
inductive Shape [DecidableEq Tid] (s : Sys Tid) (t : Tid) : Act → Sys Tid → Prop
  | begin {c : Call} (hpc : (s.threads t).pc = .idle)
      (hposs : c.possible (s.threads t).sections = true) :
      Shape s t (.call c) (s.put t ((s.threads t).begin s.ds c))
  | store (hpc : (s.threads t).pc = .activating) :
      Shape s t .store
        { s.put t { s.threads t with pc := .idle } with ds := s.ds.doActivate true }
  | abort {a : Act} {name : CStr} {k : Option WaitSection} {i : PointIdx}
      (hpc : (s.threads t).pc = .locking (.unblock name k))
      (hact : s.ds.inactive = false) (hlook : s.ds.lookUp name = some i)
      (h0 : (s.ds.point i).nblocked = 0) : Shape s t a { s with aborted := true }
  | sect {a : Act} {th : Thread} {g' : DsGlobal} {b : Bool} (hs : Settled s t th g') :
      Shape s t a (s.settle t th g' b)

theorem Step.shape [DecidableEq Tid] {s s' : Sys Tid} {t : Tid} {a : Act} (h : TableInv s)
    (hst : Step s t a s') : Shape s t a s' := by
  cases hst with
  | begin hpc hposs => exact .begin hpc hposs
  | store hpc => exact .store hpc
  | abort hpc hact hlook h0 => exact .abort hpc hact hlook h0
  | quit hpc hth hg =>
      have hsub : ∀ k ∈ _, k ∈ (s.threads t).sections := fun k hk => hth.sections ▸ hk
      rcases hg with rfl | ⟨name, i, hacq⟩
      · exact .sect (.of_idle (Grows.refl _) hth.pc hsub (Or.inl rfl))
      · exact .sect (.of_idle hacq.grows hth.pc hsub (Or.inl hacq.inactive))
  | activate hpc =>
      exact .sect
        (.of_idle (grows_doActivate _) rfl (fun k hk => hk) (Or.inr ⟨_, hpc⟩))
  | disableAll hpc hg =>
      rcases hg with ⟨-, rfl⟩ | ⟨b, rfl, rfl⟩
      · exact .sect
          (.of_idle grows_disableAll rfl (fun k hk => hk) (Or.inl (by simp)))
      · exact .sect
          (.of_idle (grows_disableAll.trans (grows_doActivate b)) rfl (fun k hk => hk)
            (Or.inr ⟨b, hpc⟩))
  | enable hpc hlook hb =>
      exact .sect
        (.of_idle (grows_setEnabled _ (lookUp_lt hlook)) rfl (fun k hk => hk) (Or.inl rfl))
  | drop hpc hnone =>
      exact .sect
        (.of_idle (Grows.refl _) rfl (Thread.unblocked_sections_subset _ _ _) (Or.inl rfl))
  | releaseLast hpc hact hlook h1 =>
      have hlt := lookUp_lt hlook
      exact .sect
        (.of_idle ((grows_decBlocked hlt).trans (grows_setSyncwait false hlt)) rfl
          (Thread.unblocked_sections_subset _ _ _) (Or.inl rfl))
  | releaseOne hpc hact hlook h1 =>
      exact .sect
        (.of_idle (grows_decBlocked (lookUp_lt hlook)) rfl
          (Thread.unblocked_sections_subset _ _ _) (Or.inl rfl))
  | countSleep hpc hacq hsw hen =>
      refine .sect (.of_count hacq (fun k hk => ?_) (by simp) (by simp) (by simp))
      rw [Thread.blocked_of_sleeps rfl] at hk
      exact (List.mem_cons.mp hk).symm
  | countEnter hpc hacq hsw hen =>
      refine .sect (.of_count hacq (fun k hk => ?_) (by simp [Thread.waited])
        (by simp [Thread.waited]) (by simp [Thread.waited]))
      rw [Thread.blocked_waited, if_pos rfl] at hk
      exact (List.mem_cons.mp hk).symm
  | countFail hpc hacq hrc hen =>
      exact .sect (.of_idle (hacq.grows.trans (grows_incBlocked hacq.lt_count)) rfl
        (Thread.waited_sections_subset _ _ _ hrc) (Or.inl hacq.inactive))
  | raise hpc hact hlook hnb hsw hen hbc =>
      have hlt := lookUp_lt hlook
      refine .sect ⟨grows_setSyncwait true hlt,
        fun k hk => Or.inl (Thread.mem_blocked_of_mem hk), fun i r e nap hw => ?_,
        by simp, by simp, Or.inl rfl⟩
      obtain ⟨rfl, rfl, -, -⟩ := Pc.inExec.inj hw
      exact ⟨hlt, Nat.le_refl _⟩
  | raiseDrop hpc hact hlook hrc hnb hbusy hout =>
      have hlt := lookUp_lt hlook
      exact .sect
        (.of_idle ((grows_setSyncwait true hlt).trans (grows_setSyncwait false hlt)) rfl
          (fun k hk => hk) (Or.inl rfl))
  | wakeSleep hpc hrc hsw hen =>
      refine .sect ⟨Grows.refl _, fun k hk => Or.inl ?_, by simp, by simp, by simp,
        Or.inl rfl⟩
      rw [Thread.blocked_of_sleeps rfl] at hk
      rwa [Thread.blocked_of_sleeps hpc]
  | wakeEnter hpc hrc hsw hen =>
      refine .sect ⟨Grows.refl _, fun k hk => Or.inl ?_, by simp [Thread.waited],
        by simp [Thread.waited], by simp [Thread.waited], Or.inl rfl⟩
      rw [Thread.blocked_waited, if_pos rfl] at hk
      rwa [Thread.blocked_of_sleeps hpc]
  | wakeFail hpc hrc' hout =>
      exact .sect (.of_idle (Grows.refl _) rfl (Thread.waited_sections_subset _ _ _ hrc')
        (Or.inl rfl))
  | holdOn hpc hrc hsw hen =>
      obtain ⟨hlt, hle⟩ := h.raised t _ _ _ _ hpc
      refine .sect ⟨Grows.refl _,
        fun k hk => Or.inl (Thread.mem_blocked_of_mem hk), fun i r e nap hw => ?_,
        by simp, by simp, Or.inl rfl⟩
      obtain ⟨rfl, rfl, -, -⟩ := Pc.inExec.inj hw
      exact ⟨hlt, Nat.le_of_lt hle⟩
  | letGo hpc hout hrc' =>
      exact .sect
        (.of_idle (grows_setSyncwait false (h.raised t _ _ _ _ hpc).1) rfl (fun k hk => hk)
          (Or.inl rfl))

/-! ## The table, preserved -/

theorem tableInv_init (flags : BitVec 32) : TableInv (Sys.init flags : Sys Tid) where
  table := tableOK_init flags
  resolves := fun _ _ hk => absurd hk List.not_mem_nil
  raised := fun _ _ _ _ _ hpc => by cases hpc

theorem TableInv.begin [DecidableEq Tid] {s : Sys Tid} {t : Tid} {c : Call} (h : TableInv s)
    (hpc : (s.threads t).pc = .idle) :
    TableInv (s.put t ((s.threads t).begin s.ds c)) := by
  have hsec : (s.threads t).blocked = (s.threads t).sections :=
    Thread.blocked_of_awake fun _ _ _ _ hw => by rw [hpc] at hw; cases hw
  refine h.put (fun k hk => ?_) ((s.threads t).begin_awake s.ds c).2
  rcases (s.threads t).begin_cases s.ds c with (hb | ⟨name, -, hb⟩) | ⟨name, k', -, hb⟩ <;>
    rw [hb] at hk
  · exact Or.inl (hsec ▸ hk)
  · rcases List.mem_cons.mp hk with rfl | hk
    · exact Or.inr rfl
    · exact Or.inl (hsec ▸ hk)
  · exact Or.inl (hsec ▸ List.mem_of_mem_erase hk)

theorem TableInv.store [DecidableEq Tid] {s : Sys Tid} {t : Tid} (h : TableInv s) :
    TableInv { s.put t { s.threads t with pc := .idle } with ds := s.ds.doActivate true } := by
  have hput : TableInv (s.put t { s.threads t with pc := .idle }) :=
    h.put (fun k hk => Or.inl (Thread.mem_blocked_of_mem hk)) (fun _ _ _ _ hw => by cases hw)
  have hg : Grows s.ds (s.ds.doActivate true) := grows_doActivate true
  exact ⟨hg.ok hput.table,
    fun u k hk i hi => ⟨hg.resolves _ _ (hput.resolves u k hk i hi).1,
      (hput.resolves u k hk i hi).2⟩,
    fun u i r e nap hw => hput.raised u i r e nap hw⟩

/-- `TableInv` holds whatever is called. -/
theorem TableInv.step [DecidableEq Tid] {s s' : Sys Tid} {t : Tid} {a : Act} (h : TableInv s)
    (hst : Step s t a s') : TableInv s' := by
  cases hst.shape h with
  | begin hpc hposs => exact h.begin hpc
  | store hpc => exact h.store
  | abort hpc hact hlook h0 => exact ⟨h.table, h.resolves, h.raised⟩
  | sect hs =>
      exact h.settle hs.grows
        (fun k hk => (hs.blocked k hk).imp id fun ⟨i, hi, hr⟩ j hj => by
          obtain rfl := Option.some.inj (hi.symm.trans hj)
          exact hr)
        hs.exec

/-! ## The discipline, preserved -/

/-- A thread is on its way to the mutex only for the call it has made,
and with its sections untouched. -/
theorem Thread.begin_locking {th : Thread} {g : DsGlobal} {c c' : Call}
    (h : (th.begin g c).pc = .locking c') :
    c' = c ∧ (th.begin g c).sections = th.sections := by
  unfold Thread.begin at h ⊢
  split at h
  · rename_i hin
    simp only [hin, if_true]
    cases c with
    | activate b =>
        cases b with
        | true => cases h
        | false => exact ⟨(Pc.locking.inj h).symm, rfl⟩
    | wait name => cases h
    | exec name => cases h
    | unblock name k => cases h
    | enable name b => cases h
    | disableAll => cases h
  · rename_i hin
    rw [if_neg hin]
    exact ⟨(Pc.locking.inj h).symm, rfl⟩

/-- `Disciplined`, of one thread. -/
def Thread.Disciplined (th : Thread) : Prop :=
  ∀ name k, th.pc = .locking (.unblock name k) →
    ∃ k', k = some k' ∧ k' ∈ th.sections ∧ k'.name = name

theorem Disciplined.step [DecidableEq Tid] {s s' : Sys Tid} {l : Label Tid} (h : Disciplined s)
    (hinv : TableInv s) (hlab : l.disciplineOK = true) (hst : Step s l.tid l.act s') :
    Disciplined s' := by
  generalize hact : l.act = a at hst
  cases hst.shape hinv with
  | @begin c hpc hposs =>
      refine Sys.put_forall (Q := fun _ th => th.Disciplined) (fun name k hu => ?_) fun u _ => h u
      obtain ⟨rfl, hsec⟩ := Thread.begin_locking hu
      rw [hsec]
      cases k with
      | none => simp [Label.disciplineOK, hact] at hlab
      | some k =>
          simp only [Call.possible, Bool.and_eq_true, decide_eq_true_eq] at hposs
          exact ⟨k, rfl, hposs.1, hposs.2⟩
  | store hpc =>
      exact Sys.put_forall (Q := fun _ th => th.Disciplined) (fun name k hu => by cases hu)
        fun u _ => h u
  | abort hpc hact hlook h0 => exact h
  | sect hs =>
      exact Sys.settle_forall (Q := fun _ th => th.Disciplined)
        (fun name k hu => absurd hu (hs.locking _))
        fun u _ name k hu => h u name k (Pc.observe_eq_locking.mp hu)

/-! ## The facility that stays active -/

/-- The facility is active, nobody is about to change that, and every
section was counted. -/
structure Active (s : Sys Tid) : Prop where
  on : s.ds.inactive = false
  counted : ∀ t, ∀ k ∈ (s.threads t).blocked, k.pt ≠ none
  untouched : ∀ t, (s.threads t).pc ≠ .activating
    ∧ ∀ b, (s.threads t).pc ≠ .locking (.activate b)

theorem active_init {flags : BitVec 32} (h : flags &&& DS_ACTIVE ≠ 0) :
    Active (Sys.init flags : Sys Tid) where
  on := by simpa [Sys.init, dsInit, DsGlobal.inactive] using h
  counted := fun _ _ hk => absurd hk List.not_mem_nil
  untouched := fun _ => ⟨by simp [Sys.init], by simp [Sys.init]⟩

/-- The thread is not about to change the facility's state. -/
def Thread.Untouched (th : Thread) : Prop :=
  th.pc ≠ .activating ∧ ∀ b, th.pc ≠ .locking (.activate b)

/-- While the facility is active no call takes the early exit. -/
theorem Active.begin_eq {s : Sys Tid} (h : Active s) (th : Thread) (c : Call) :
    th.begin s.ds c = { th with pc := .locking c } := by
  unfold Thread.begin
  split
  · rename_i hin
    have hon := h.on
    rw [inactive_of_localInactive hin] at hon
    cases hon
  · rfl

theorem Active.step [DecidableEq Tid] {s s' : Sys Tid} {l : Label Tid} (h : Active s)
    (hinv : TableInv s) (hlab : l.activeOK = true) (hst : Step s l.tid l.act s') :
    Active s' := by
  have hne := h.untouched l.tid
  generalize hact : l.act = a at hst
  cases hst.shape hinv with
  | @begin c hpc hposs =>
      rw [h.begin_eq]
      refine ⟨h.on, Sys.put_forall (Q := fun _ th => ∀ k ∈ th.blocked, k.pt ≠ none) ?_
        fun u _ => h.counted u, Sys.put_forall (Q := fun _ th => th.Untouched) ⟨?_, fun b hb => ?_⟩
        fun u _ => h.untouched u⟩
      · rw [Thread.blocked_locking rfl]
        exact fun k hk => h.counted l.tid k (Thread.mem_blocked_of_mem hk)
      · exact Pc.noConfusion
      · obtain rfl := Pc.locking.inj hb
        simp [Label.activeOK, hact] at hlab
  | store hpc => exact absurd hpc hne.1
  | abort hpc hact hlook h0 => exact ⟨h.on, h.counted, h.untouched⟩
  | @sect _ th g' b hs =>
      refine ⟨?_, Sys.settle_forall (Q := fun _ th => ∀ k ∈ th.blocked, k.pt ≠ none)
        (fun k hk => ?_) fun u _ => ?_, Sys.settle_forall (Q := fun _ th => th.Untouched)
        ⟨hs.activating, fun b => hs.locking _⟩ fun u _ => ?_⟩
      · rcases hs.inactive with hin | ⟨b', hb'⟩
        · exact hin.trans h.on
        · exact absurd hb' (hne.2 b')
      · rcases hs.blocked k hk with hk | ⟨i, hi, -⟩
        · exact h.counted l.tid k hk
        · rw [hi]
          exact Option.some_ne_none i
      · rw [Thread.blocked_observe]
        exact h.counted u
      · simpa [Thread.Untouched] using h.untouched u

end Debugsync

end MiscTools
