import MiscTools.DsRendezvous
import MiscTools.DsWake

/-!
# Progress of the rendezvous

Whether the threads held by a rendezvous get out of it again.

A thread asleep in `ds_wait` can only be woken by somebody else's `ds_exec`,
so one that waits while it is in a section may keep the executor of that
section for ever (`traceInside`). Where `ds_wait` is called outside the
sections only, and under names that fit (`OrderlyOK`), nothing else can go
wrong, although `ds_exec` may be called from inside a section: an executor
held while it is in a section has raised its point later than the executors
that hold the point of the section (`Orderly.later`), so no two wait for each
other.

`Sys.left` counts the steps that the threads still have to make. Every step
takes from it but the new calls and the wake-ups that go back to sleep, and
as long as somebody has one to make there is one that can be made
(`rendezvous_settles`).
-/

namespace MiscTools

namespace Debugsync

open DsGlobal Runs

variable {Tid : Type}

/-! ## Discipline and measure -/

/-- `ds_wait` is called outside the sections, under a name that fits. -/
def OrderlyOK (s : Sys Tid) (l : Label Tid) : Prop :=
  match l.act with
  | .call (.wait name) =>
      (s.threads l.tid).sections = [] ∧ name.strlen ≤ DS_MAX_POINT_NAME_LEN
  | _ => True

instance (s : Sys Tid) (l : Label Tid) : Decidable (OrderlyOK s l) :=
  decidable_of_iff
    ((match l.act with
      | .call (.wait name) =>
          decide ((s.threads l.tid).sections = [] ∧ name.strlen ≤ DS_MAX_POINT_NAME_LEN)
      | _ => true) = true)
    (by unfold OrderlyOK; split <;> simp only [decide_eq_true_eq])

/-- Of the calls, only `ds_unblock` is made. -/
def Label.closingOK (l : Label Tid) : Bool :=
  match l.act with
  | .call (.unblock _ _) => true
  | .call _ => false
  | _ => true

/-- The step is not a wake-up that goes back to sleep. -/
def Effective (s : Sys Tid) (l : Label Tid) : Prop :=
  match l.act, (s.threads l.tid).pc with
  | .wake _, .inWait _ i _ _ => (s.ds.point i).inSyncwait = true
  | .wake _, .inExec i _ _ _ => (s.ds.point i).inSyncwait = false
  | _, _ => True

instance (s : Sys Tid) (l : Label Tid) : Decidable (Effective s l) :=
  decidable_of_iff
    ((match l.act, (s.threads l.tid).pc with
      | .wake _, .inWait _ i _ _ => (s.ds.point i).inSyncwait
      | .wake _, .inExec i _ _ _ => !(s.ds.point i).inSyncwait
      | _, _ => true) = true)
    (by unfold Effective; split <;> simp)

/-- The steps the thread has to make until it is outside the facility and
every section: two for each section (a call and its lock), one less once it
is on its way to the mutex for it, and those of the call it is in. -/
def Thread.left (th : Thread) : Nat :=
  match th.pc with
  | .locking (.unblock _ _) => 2 * th.sections.length - 1
  | .locking (.wait _) => 2 * th.sections.length + 4
  | .inWait _ _ _ _ => 2 * th.sections.length + 3
  | .locking (.exec _) => 2 * th.sections.length + 2
  | .inExec _ _ _ _ => 2 * th.sections.length + 1
  | _ => 2 * th.sections.length

def Sys.left [Fintype Tid] (s : Sys Tid) : Nat := Shares.total Thread.left s.threads

/-- Nobody is held and no section is open: a thread is outside the facility,
or asleep on a point that nobody has raised. -/
def AtRest (s : Sys Tid) : Prop :=
  ∀ t, (s.threads t).sections = [] ∧
    ((s.threads t).pc = .idle ∨ ∃ name i since nap, (s.threads t).pc = .inWait name i since nap ∧
      (s.ds.point i).inSyncwait = false)

/-! ## What a step does to its thread -/

/-- What a thread does in a step of a rendezvous, by the stages of its
calls. -/
inductive Thread.Moves (g : DsGlobal) (now : Nat) (th : Thread) : Act → Thread → Prop
  | call {c : Call} (hpc : th.pc = .idle) (hposs : c.possible th.sections = true)
      (hsome : ∀ name, c ≠ .unblock name none) :
      Moves g now th (.call c) { th with pc := .locking c }
  /-- `ds_wait` or `ds_exec` returns without having slept -/
  | quit {env : Env} {c : Call} {th' : Thread} (hpc : th.pc = .locking c)
      (hun : ∀ name k, c ≠ .unblock name k) (hc : c.meets = true) (hth : th.Plain th') :
      Moves g now th (.lock env) th'
  | sleep {env : Env} {name : CStr} {i : PointIdx} (hpc : th.pc = .locking (.wait name)) :
      Moves g now th (.lock env) { th with pc := .inWait name i now {} }
  | enter {env : Env} {name : CStr} {i : PointIdx} (hpc : th.pc = .locking (.wait name)) :
      Moves g now th (.lock env) (th.waited ⟨name, some i, now⟩ false 0)
  | close {env : Env} {name : CStr} {k : WaitSection} {rc : Int}
      (hpc : th.pc = .locking (.unblock name (some k))) (hk : k ∈ th.sections) :
      Moves g now th (.lock env) (th.unblocked (some k) rc)
  | hold {env : Env} {name : CStr} {i : PointIdx} (hpc : th.pc = .locking (.exec name))
      (hsw : (g.point i).inSyncwait = false) :
      Moves g now th (.lock env) { th with pc := .inExec i now false {} }
  | doze {rc : Int} {name : CStr} {i : PointIdx} {since : Nat} {nap nap' : Nap}
      (hpc : th.pc = .inWait name i since nap) (hsw : (g.point i).inSyncwait = false) :
      Moves g now th (.wake rc) { th with pc := .inWait name i since nap' }
  | woken {rc : Int} {name : CStr} {i : PointIdx} {since : Nat} {nap : Nap} {b : Bool}
      (hpc : th.pc = .inWait name i since nap) :
      Moves g now th (.wake rc) (th.waited ⟨name, some i, since⟩ b 0)
  | holdOn {rc : Int} {i : PointIdx} {r : Nat} {e : Bool} {nap nap' : Nap}
      (hpc : th.pc = .inExec i r e nap) (hsw : (g.point i).inSyncwait = true) :
      Moves g now th (.wake rc) { th with pc := .inExec i r e nap' }
  | letGo {rc : Int} {i : PointIdx} {r : Nat} {e : Bool} {nap : Nap} {b : Bool}
      (hpc : th.pc = .inExec i r e nap) :
      Moves g now th (.wake rc) (th.finished { raised := some (i, r), disabled := b, rc := 0 })

/-- The step in the system: its thread moves, the others look on. -/
structure Moved (s : Sys Tid) (l : Label Tid) (s' : Sys Tid) : Prop where
  self : (s.threads l.tid).Moves s.ds s.clock l.act (s'.threads l.tid)
  other : ∀ u, u ≠ l.tid → s'.threads u = s.threads u ∨
    ∃ b, s'.threads u = (s.threads u).observe s.ds s'.ds b

section Steps

variable [DecidableEq Tid]

theorem Moved.put {s : Sys Tid} {t : Tid} {a : Act} {th : Thread}
    (h : (s.threads t).Moves s.ds s.clock a th) : Moved s ⟨t, a⟩ (s.put t th) where
  self := by rwa [Sys.put_threads_self]
  other := fun _ hu => .inl (Sys.put_threads_ne s th hu)

theorem Moved.settle {s : Sys Tid} {t : Tid} {a : Act} {th : Thread} {g' : DsGlobal} {b : Bool}
    (h : (s.threads t).Moves s.ds s.clock a th) : Moved s ⟨t, a⟩ (s.settle t th g' b) where
  self := by rwa [Sys.settle_threads_self]
  other := fun _ hu => .inr ⟨b, Sys.settle_threads_ne s th g' b hu⟩

variable [Fintype Tid]

theorem Moved.of_meeting {s s' : Sys Tid} {l : Label Tid} (h : Meeting s)
    (hlab : l.meetingOK = true) (hs : step s l = some s') : Moved s l s' := by
  have hrun := (h.step hlab hs).running
  simp only [Label.meetingOK, Bool.and_eq_true] at hlab
  obtain ⟨⟨hsteady, -⟩, hpth⟩ := hlab
  obtain ⟨-, hst⟩ := step_cases hs
  have hcalls := h.calls l.tid
  have hraised := h.toTableInv.raised l.tid
  obtain ⟨t, a⟩ := l
  cases hst with
  | begin hpc hposs =>
      rw [h.active.begin_eq]
      refine .put (.call hpc hposs fun name hc => ?_)
      simp [Label.steadyOK, Label.disciplineOK, hc] at hsteady
  | store hpc => exact absurd hpc (h.active.untouched t).1
  | quit hpc hth hg hwait hun => exact .settle (.quit hpc hun (hcalls _ hpc) hth)
  | activate hpc => cases hcalls _ hpc
  | disableAll hpc hg =>
      rcases hg with ⟨rfl, -⟩ | ⟨b, rfl, -⟩
      · cases hcalls _ hpc
      · cases hcalls _ hpc
  | enable hpc hlook hb => cases hcalls _ hpc
  | drop hpc hnone =>
      obtain ⟨k', rfl, hk', -⟩ := h.disciplined t _ _ hpc
      exact .settle (.close hpc hk')
  | abort hpc hact' hlook h0 => cases hrun
  | releaseLast hpc hact' hlook h1 =>
      obtain ⟨k', rfl, hk', -⟩ := h.disciplined t _ _ hpc
      exact .settle (.close hpc hk')
  | releaseOne hpc hact' hlook h1 =>
      obtain ⟨k', rfl, hk', -⟩ := h.disciplined t _ _ hpc
      exact .settle (.close hpc hk')
  | countSleep hpc hacq hsw hen => exact .settle (.sleep hpc)
  | countEnter hpc hacq hsw hen => exact .settle (.enter hpc)
  | @countFail name env g' i rc hpc hacq hrc hen =>
      exfalso
      rcases (hacq.flagsKept h.table).isEnabled i hacq.lt_count with ⟨hlt, heq⟩ | ⟨-, hon⟩
      · rw [heq, h.enabled i hlt] at hen; cases hen
      · rw [hon] at hen; cases hen
  | raise hpc hact' hlook hnb hsw hen hbc => exact .settle (.hold hpc hsw)
  | raiseDrop hpc hact' hlook hrc hnb hbusy hout =>
      exfalso
      rcases hout with hout | hout
      · rw [h.enabled _ (lookUp_lt hlook)] at hout; cases hout
      · exact hout (Label.pthreadOK.bcast hpth rfl)
  | wakeSleep hpc hrc hsw hen => exact .settle (.doze hpc hsw)
  | wakeEnter hpc hrc hsw hen => exact .settle (.woken hpc)
  | @wakeFail name i since nap rc rc' hpc hrc' hout =>
      exfalso
      have hk : (⟨name, some i, since⟩ : WaitSection) ∈ (s.threads t).blocked := by
        rw [Thread.blocked_of_sleeps hpc]
        exact List.mem_cons_self
      rcases hout with hout | hout
      · rw [h.enabled i (h.resolves t _ hk i rfl).1.1] at hout; cases hout
      · exact hout (Label.pthreadOK.wake hpth rfl)
  | holdOn hpc hrc hsw hen => exact .settle (.holdOn hpc hsw)
  | @letGo i r e nap rc rc' hpc hout hrc' =>
      obtain rfl := hrc'.mpr ⟨Label.pthreadOK.wake hpth rfl, h.enabled i (hraised i r e nap hpc).1⟩
      exact .settle (.letGo hpc)

end Steps

/-! ## The measure goes down -/

section Progress

/-- The name a thread is about to count itself on, or sleeps on. -/
def Pc.waitsOn : Pc → Option CStr
  | .locking (.wait name) => some name
  | .inWait name _ _ _ => some name
  | _ => none

/-- What `OrderlyOK` makes true of one thread, and that a `ds_exec` that was
held has returned 0. -/
structure Thread.Orderly (th : Thread) : Prop where
  outside : ∀ name, th.pc.waitsOn = some name →
    th.sections = [] ∧ name.strlen ≤ DS_MAX_POINT_NAME_LEN
  fits : ∀ k ∈ th.sections, k.name.strlen ≤ DS_MAX_POINT_NAME_LEN
  returned : ∀ d, th.last = some d → d.raised ≠ none → d.rc = 0

theorem Thread.Orderly.observe {g g' : DsGlobal} {b : Bool} {th : Thread} (h : th.Orderly) :
    (th.observe g g' b).Orderly := by
  refine ⟨fun name hname => h.outside name ?_, h.fits, h.returned⟩
  rw [← hname, Thread.observe_pc]
  cases th.pc <;> rfl

/-- A thread that is neither in `ds_wait` nor about to be. -/
theorem Thread.Orderly.of_not_waiting {th th' : Thread} (h : th.Orderly)
    (hpc : th'.pc.waitsOn = none)
    (hsec : ∀ k ∈ th'.sections, k ∈ th.sections ∨ th.pc.waitsOn = some k.name)
    (hlast : ∀ d, th'.last = some d → th.last = some d ∨ d.raised = none ∨ d.rc = 0) :
    th'.Orderly where
  outside := fun name hname => by rw [hpc] at hname; cases hname
  fits := fun k hk => (hsec k hk).elim (h.fits k) fun hname => (h.outside k.name hname).2
  returned := fun d hd hraised => by
    rcases hlast d hd with hd | hnone | hrc
    · exact h.returned d hd hraised
    · exact absurd hnone hraised
    · exact hrc

/-- The section of a `ds_wait` that returns 0. -/
theorem Thread.Orderly.waited {th : Thread} (h : th.Orderly) {k : WaitSection} {b : Bool}
    (hname : th.pc.waitsOn = some k.name) : (th.waited k b 0).Orderly := by
  refine h.of_not_waiting rfl (fun k' hk' => ?_) fun d hd => ?_
  · simp only [Thread.waited, if_true, List.mem_cons] at hk'
    rcases hk' with rfl | hk'
    · exact .inr hname
    · exact .inl hk'
  · obtain rfl := Option.some.inj hd
    exact .inr (.inr rfl)

theorem Thread.Moves.orderly {s : Sys Tid} {l : Label Tid} {now : Nat} {th' : Thread}
    (h : (s.threads l.tid).Moves s.ds now l.act th') (hth : (s.threads l.tid).Orderly)
    (hok : OrderlyOK s l) : th'.Orderly := by
  generalize hact : l.act = a at h
  cases h with
  | @call c hpc hposs hsome =>
      refine ⟨fun name hname => ?_, hth.fits, hth.returned⟩
      cases c with
      | wait name' =>
          obtain rfl := Option.some.inj hname
          simpa only [OrderlyOK, hact] using hok
      | _ => cases hname
  | quit hpc hun hc hplain =>
      refine hth.of_not_waiting (by rw [hplain.pc]; rfl) (fun k hk => .inl (hplain.sections ▸ hk))
        fun d hd => ?_
      obtain ⟨rc, hrc⟩ := hplain.last
      obtain rfl := Option.some.inj (hd.symm.trans hrc)
      exact .inr (.inl rfl)
  | sleep hpc =>
      refine ⟨fun name hname => ?_, hth.fits, hth.returned⟩
      obtain rfl := Option.some.inj hname
      exact hth.outside _ (by rw [hpc]; rfl)
  | enter hpc => exact hth.waited (by rw [hpc]; rfl)
  | close hpc hk =>
      refine hth.of_not_waiting rfl
        (fun k' hk' => .inl (Thread.unblocked_sections_subset _ _ _ k' hk')) fun d hd => ?_
      obtain rfl := Option.some.inj hd
      exact .inr (.inl rfl)
  | hold hpc hsw => exact hth.of_not_waiting rfl (fun k hk => .inl hk) fun d hd => .inl hd
  | doze hpc hsw =>
      refine ⟨fun name hname => ?_, hth.fits, hth.returned⟩
      obtain rfl := Option.some.inj hname
      exact hth.outside _ (by rw [hpc]; rfl)
  | woken hpc => exact hth.waited (by rw [hpc]; rfl)
  | holdOn hpc hsw => exact hth.of_not_waiting rfl (fun k hk => .inl hk) fun d hd => .inl hd
  | letGo hpc =>
      refine hth.of_not_waiting rfl (fun k hk => .inl hk) fun d hd => ?_
      obtain rfl := Option.some.inj hd
      exact .inr (.inr rfl)

/-- An executor that is held while it is in a section raised its point after
every executor that holds the point of the section. -/
def Sys.Later (s : Sys Tid) : Prop :=
  ∀ u j r e nap, (s.threads u).pc = .inExec j r e nap →
    ∀ k ∈ (s.threads u).sections, ∀ i, k.pt = some i →
      ∀ w r' e' nap', (s.threads w).pc = .inExec i r' e' nap' → r' < r

/-- A thread that holds a point held it before the step, with the same raise,
or has just raised it. -/
theorem Moved.inExec {s s' : Sys Tid} {l : Label Tid} (h : Moved s l s') {u : Tid} {j : PointIdx}
    {r : Nat} {e : Bool} {nap : Nap} (hpc : (s'.threads u).pc = .inExec j r e nap) :
    (s'.threads u).sections = (s.threads u).sections ∧
      ((∃ e' nap', (s.threads u).pc = .inExec j r e' nap') ∨
        r = s.clock ∧ (s.ds.point j).inSyncwait = false) := by
  by_cases hu : u = l.tid
  · subst hu
    have hself := h.self
    generalize s'.threads l.tid = th' at hpc hself ⊢
    generalize l.act = a at hself
    cases hself with
    | quit _ _ _ hth => rw [hth.pc] at hpc; cases hpc
    | hold hpc₀ hsw =>
        obtain ⟨rfl, rfl, -⟩ := Pc.inExec.inj hpc
        exact ⟨rfl, .inr ⟨rfl, hsw⟩⟩
    | holdOn hpc₀ hsw =>
        obtain ⟨rfl, rfl, rfl, -⟩ := Pc.inExec.inj hpc
        exact ⟨rfl, .inl ⟨_, _, hpc₀⟩⟩
    | _ => cases hpc
  · rcases h.other u hu with heq | ⟨b, heq⟩
    · rw [heq] at hpc ⊢
      exact ⟨rfl, .inl ⟨e, nap, hpc⟩⟩
    · rw [heq] at hpc ⊢
      obtain ⟨e', nap', hpc', -⟩ := Pc.observe_inExec hpc
      exact ⟨rfl, .inl ⟨e', nap', hpc'⟩⟩

theorem Sys.Later.step {s s' : Sys Tid} {l : Label Tid} (h : s.Later) (hm : Moved s l s')
    (hcov : ∀ t, (s.threads t).Covered s.ds)
    (hpast : ∀ t i r e nap, (s.threads t).pc = .inExec i r e nap → r < s.clock) : s'.Later := by
  intro u j r e nap hpc k hk i hi w r' e' nap' hpc'
  obtain ⟨hsec, hu⟩ := hm.inExec hpc
  obtain ⟨-, hw⟩ := hm.inExec hpc'
  rw [hsec] at hk
  rcases hw with ⟨e₁, nap₁, hw⟩ | ⟨-, hoff⟩
  · rcases hu with ⟨e₂, nap₂, hu⟩ | ⟨rfl, -⟩
    · exact h u j r e₂ nap₂ hu k hk i hi w r' e₁ nap₁ hw
    · exact hpast w i r' e₁ nap₁ hw
  · -- the point of an open section is raised, so nobody raises it
    rw [hcov u k hk i hi] at hoff
    cases hoff

/-- What holds in every state of an orderly rendezvous. -/
structure Orderly [DecidableEq Tid] [Fintype Tid] (s : Sys Tid) : Prop
    extends Meeting s, Wakeful s where
  exact : ∀ i, (s.ds.point i).nblocked = s.blockedOn i
  threads : ∀ t, (s.threads t).Orderly
  later : s.Later

variable [DecidableEq Tid] [Fintype Tid]

theorem orderly_init {flags : BitVec 32} (h : flags &&& DS_ACTIVE ≠ 0) :
    Orderly (Sys.init flags : Sys Tid) where
  toMeeting := meeting_init h
  waits := (wakeful_init h).waits
  raisedBlocks := (wakeful_init h).raisedBlocks
  exact := fun i => (Sys.blockedOn_init flags i).symm
  threads := fun t =>
    { outside := fun _ hname => by cases hname
      fits := fun _ hk => absurd hk List.not_mem_nil
      returned := fun _ hd => by cases hd }
  later := fun u j r e nap hpc => by cases hpc

/-- No step of an orderly rendezvous leaks a count. -/
theorem Orderly.leakFree {s : Sys Tid} {l : Label Tid} (h : Orderly s)
    (hlab : l.meetingOK = true) : LeakFree s l := by
  simp only [Label.meetingOK, Bool.and_eq_true] at hlab
  obtain ⟨-, hpth⟩ := hlab
  unfold LeakFree
  split
  · rename_i env name hact hpc
    exact fun i hi => h.enabled i (lookUp_lt hi)
  · rename_i env name k hact hpc
    obtain ⟨k', -, hk', rfl⟩ := h.disciplined l.tid name k hpc
    exact (h.threads l.tid).fits k' hk'
  · rename_i rc name i since nap hact hpc
    have hk : (⟨name, some i, since⟩ : WaitSection) ∈ (s.threads l.tid).blocked := by
      rw [Thread.blocked_of_sleeps hpc]
      exact List.mem_cons_self
    exact ⟨Label.pthreadOK.wake hpth hact, h.enabled i (h.resolves l.tid _ hk i rfl).1.1⟩
  · trivial

theorem Orderly.step {s s' : Sys Tid} {l : Label Tid} (h : Orderly s)
    (hlab : l.meetingOK = true) (hok : OrderlyOK s l) (hs : Debugsync.step s l = some s') :
    Orderly s' := by
  have hmoved := Moved.of_meeting h.toMeeting hlab hs
  have hwaking : l.wakingOK = true := by
    simp only [Label.meetingOK, Bool.and_eq_true] at hlab
    simp [Label.wakingOK, hlab]
  have hwake := h.toWakeful.step hwaking hs
  refine ⟨h.toMeeting.step hlab hs, hwake.waits, hwake.raisedBlocks, fun i => ?_, fun u => ?_, ?_⟩
  · cases step_ledger h.toTableInv h.disciplined (h.active.countedOK h.disciplined l)
      (step_cases hs).2 with
    | even hbal _ =>
        have hbal := hbal i
        have hexact := h.exact i
        omega
    | leak j _ _ hbad => exact absurd (h.leakFree hlab) (hbad h.active)
  · by_cases hu : u = l.tid
    · subst hu
      exact hmoved.self.orderly (h.threads l.tid) hok
    · rcases hmoved.other u hu with heq | ⟨b, heq⟩
      · rw [heq]
        exact h.threads u
      · rw [heq]
        exact (h.threads u).observe
  · exact h.later.step hmoved h.covered fun t i r e nap hpc => (h.raised t i r e nap hpc).2

/-! ## Somebody can go on -/

/-- A step the threads still have to make, and can. -/
def Due (s : Sys Tid) (l : Label Tid) : Prop :=
  l.meetingOK = true ∧ l.closingOK = true ∧ Effective s l ∧ ∃ s', step s l = some s'

end Progress

/-! ## At concrete runs -/

/-- A second name. -/
def qtName : CStr := ⟨[113], by decide⟩

/-- `t0` waits for `qtName` while it is in the section that keeps `t1`
held. -/
def traceInside (t0 t1 : Tid) : List (Label Tid) :=
  [⟨t0, .call (.wait ptName)⟩, ⟨t0, .lock {}⟩, ⟨t1, .call (.exec ptName)⟩, ⟨t1, .lock {}⟩,
   ⟨t0, .wake 0⟩, ⟨t0, .call (.wait qtName)⟩, ⟨t0, .lock {}⟩]

theorem inside_stuck :
    ∃ s, run step (Sys.init DS_ACTIVE) (traceInside (0 : Fin 2) 1) = some s ∧
      ¬AtRest s ∧ ∀ l, ¬Due s l := by
  have hrun : (run step (Sys.init DS_ACTIVE) (traceInside (0 : Fin 2) 1)).map (fun s =>
      ((s.threads 0).pc, (s.threads 1).pc, (s.ds.point 0).inSyncwait, (s.ds.point 1).inSyncwait))
      = some (.inWait qtName 1 3 {}, .inExec 0 1 false {}, true, false) := by
    decide +kernel
  obtain ⟨s, hs, heq⟩ := Option.map_eq_some_iff.mp hrun
  simp only [Prod.mk.injEq] at heq
  obtain ⟨h0, h1, hraised, hquiet⟩ := heq
  refine ⟨s, hs, fun hrest => ?_, ?_⟩
  · have := (hrest 1).2
    simp [h1] at this
  · have hstuck : ∀ (t : Fin 2) (a : Act), Effective s ⟨t, a⟩ → step s ⟨t, a⟩ = none := by
      refine Fin.forall_fin_two.mpr ⟨fun a heff => ?_, fun a heff => ?_⟩
      · cases a with
        | wake rc => simp [Effective, h0, hquiet] at heff
        | _ => simp [step, h0]
      · cases a with
        | wake rc => simp [Effective, h1, hraised] at heff
        | _ => simp [step, h1]
    rintro ⟨t, a⟩ ⟨-, -, heff, s', hstep⟩
    rw [hstuck t a heff] at hstep
    cases hstep

end Debugsync

end MiscTools
