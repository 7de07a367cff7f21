import MiscTools.Runs

/-!
# The sync thread of wbuft

The writer of `wbuft.c` hands its sync requests to a thread through
`g_st`: one record, under one mutex, with a command word and the file
and flags the command is for. The thread keeps the mutex while it syncs,
so a request or the quit command either finds the last command carried
out or writes over it.

The two threads are steps over the record. A step of the writer is one
call of `toggle_sync_thread`, or the `close` or the join at the end of
`run_odsync`; the sync thread's steps run from the mutex to the start of
the sync, and from its end to the place where the mutex is given up. The
`pthread` calls succeed, and wake-ups may be spurious.
-/

namespace MiscTools.Wbuft

open Runs

/-! ## Syncing a file -/

def SYNC_TYPE : BitVec 32 := 0x3

def SYNC_ALL : BitVec 32 := 1

def SYNC_DATA : BitVec 32 := 2

def SYNC_THREAD : BitVec 32 := 1#32 <<< 4

inductive SyncCall
  | fsync
  | fdatasync
deriving DecidableEq

/-- `kernel` answers the call that is made, and `noDsync` is a build
without `fdatasync`. A failed assertion is `none`. -/
def fdSync (noDsync : Bool) (kernel : SyncCall → Int → Int) (fd : Int) (flags : BitVec 32) :
    Option Int :=
  if flags &&& SYNC_TYPE = 0 then some 0
  else if flags &&& SYNC_TYPE = SYNC_ALL then some (kernel .fsync fd)
  else if flags &&& SYNC_TYPE = SYNC_DATA ∧ noDsync = false then some (kernel .fdatasync fd)
  else none

/-- A type that is set is synced by a call to the kernel. -/
theorem fdSync_answer {noDsync : Bool} {kernel : SyncCall → Int → Int} {fd rc : Int}
    {flags : BitVec 32} (htype : flags &&& SYNC_TYPE ≠ 0)
    (h : fdSync noDsync kernel fd flags = some rc) : ∃ call, rc = kernel call fd := by
  rw [fdSync, if_neg htype] at h
  split at h
  · exact ⟨.fsync, (Option.some.inj h).symm⟩
  · split at h
    · exact ⟨.fdatasync, (Option.some.inj h).symm⟩
    · cases h

/-! ## The two threads -/

inductive Command
  | sQUIT
  | sWAIT
  | sSYNC
deriving DecidableEq

/-- `g_st`, without the mutex and the condition. -/
structure SyncState where
  state : Command := .sWAIT
  fd : Int := -1
  flags : BitVec 32 := 0
deriving DecidableEq

/-- A call of `fd_sync` the thread has made: whether the file was open
and how many requests had been issued when it started, and what it
returned. -/
structure Synced where
  fd : Int
  flags : BitVec 32
  opened : Bool
  requests : Nat
  rc : Int
deriving DecidableEq

inductive Worker
  /-- before it has the mutex -/
  | locking
  /-- in `pthread_cond_wait` -/
  | asleep
  /-- in `fd_sync`, with the mutex; `opened`: the file was open at the start -/
  | syncing (opened : Bool)
  | exited
deriving DecidableEq

/-- How far `run_odsync` is: writing, past the `close`, waiting for the
thread, and past a `stop_sync_thread` that returned 0. -/
inductive Main
  | writing
  | closed
  | stopping
  | joined
deriving DecidableEq

structure Sys where
  g : SyncState := {}
  worker : Worker := .locking
  main : Main := .writing
  /-- how many requests the writer has issued -/
  requests : Nat := 0
  calls : List Synced := []
deriving DecidableEq

/-- A run of `run_odsync` with a sync thread: the file it opened and the
flags it was given. -/
structure Odsync where
  fd : Int
  modeFlags : BitVec 32
  noDsync : Bool
  opened : 0 ≤ fd
  threaded : modeFlags &&& SYNC_THREAD ≠ 0
  typed : modeFlags &&& SYNC_TYPE ≠ 0

def Worker.signal : Worker → Worker
  | .asleep => .locking
  | w => w

def Worker.holdsMutex : Worker → Bool
  | .syncing _ => true
  | _ => false

def Sys.toggleSyncThread (s : Sys) (fd : Int) (flags : BitVec 32) (state : Command) : Sys :=
  { s with g := { state := state, fd := fd, flags := flags }, worker := s.worker.signal }

/-- `do_sync`; without `SYNC_THREAD` the writer syncs the file itself. -/
def Sys.doSync (s : Sys) (fd : Int) (flags : BitVec 32) : Sys :=
  if flags &&& SYNC_THREAD ≠ 0 then s.toggleSyncThread fd flags .sSYNC else s

def Sys.isOpen (s : Sys) (r : Odsync) (fd : Int) : Bool :=
  decide (s.main = .writing) && decide (fd = r.fd)

/-- The loop test of `thread_run`, with the mutex just taken. -/
def Sys.enter (s : Sys) (r : Odsync) : Sys :=
  if s.g.state = .sWAIT then { s with worker := .asleep }
  else { s with worker := .syncing (s.isOpen r s.g.fd) }

/-- `thread_run` from the return of `fd_sync` on: it leaves the loop, or
it goes back to its loop test and to sleep. -/
def Sys.leave (s : Sys) (opened : Bool) (rc : Int) : Sys :=
  let call : Synced :=
    { fd := s.g.fd, flags := s.g.flags, opened := opened, requests := s.requests, rc := rc }
  if rc ≠ 0 ∨ s.g.state = .sQUIT then { s with calls := call :: s.calls, worker := .exited }
  else
    { s with calls := call :: s.calls, worker := .asleep, g := { s.g with state := .sWAIT } }

inductive Label
  | request
  | close
  | stop
  | join
  /-- the thread gets the mutex -/
  | lock
  /-- the kernel answers the thread's call -/
  | synced (answer : Int)
  /-- a spurious wake-up -/
  | wake
deriving DecidableEq

/-- The kernel's answer for a file: an error if the file was not open
when the call started. -/
def kernelSync (opened : Bool) (answer : Int) : SyncCall → Int → Int := fun _ _ =>
  if opened then answer else -1

def step (r : Odsync) (s : Sys) : Label → Option Sys
  | .request =>
      if s.main = .writing ∧ s.worker.holdsMutex = false then
        some { s.doSync r.fd r.modeFlags with requests := s.requests + 1 }
      else none
  | .close => if s.main = .writing then some { s with main := .closed } else none
  | .stop =>
      if s.main = .closed ∧ s.worker.holdsMutex = false then
        some { s.toggleSyncThread (-1) 0 .sQUIT with main := .stopping }
      else none
  | .join =>
      if s.main = .stopping ∧ s.worker = .exited then some { s with main := .joined } else none
  | .lock => if s.worker = .locking then some (s.enter r) else none
  | .synced answer =>
      match s.worker with
      | .syncing opened =>
          (fdSync r.noDsync (kernelSync opened answer) s.g.fd s.g.flags).map (s.leave opened)
      | _ => none
  | .wake => if s.worker = .asleep then some { s with worker := .locking } else none

/-! ## What a step does -/

theorem step_request {r : Odsync} {s s' : Sys} (h : step r s .request = some s') :
    s.main = .writing ∧ s' =
      { s.toggleSyncThread r.fd r.modeFlags .sSYNC with requests := s.requests + 1 } := by
  rw [step] at h
  split at h
  · rename_i hcan
    rw [Sys.doSync, if_pos r.threaded] at h
    exact ⟨hcan.1, (Option.some.inj h).symm⟩
  · cases h

theorem step_stop {r : Odsync} {s s' : Sys} (h : step r s .stop = some s') :
    s.main = .closed ∧ s' = { s.toggleSyncThread (-1) 0 .sQUIT with main := .stopping } := by
  rw [step] at h
  split at h
  · rename_i hcan
    exact ⟨hcan.1, (Option.some.inj h).symm⟩
  · cases h

theorem step_synced {r : Odsync} {s s' : Sys} {answer : Int}
    (h : step r s (.synced answer) = some s') :
    ∃ opened rc, s.worker = .syncing opened ∧ s' = s.leave opened rc ∧
      (s.g.flags &&& SYNC_TYPE ≠ 0 → rc = 0 → opened = true) := by
  rw [step] at h
  split at h
  case h_1 opened hworker =>
      obtain ⟨rc, hsync, rfl⟩ := Option.map_eq_some_iff.mp h
      refine ⟨opened, rc, hworker, rfl, fun htype hrc => ?_⟩
      obtain ⟨call, hans⟩ := fdSync_answer htype hsync
      rw [hrc, kernelSync] at hans
      split at hans
      · assumption
      · cases hans
  case h_2 => cases h

theorem Sys.leave_calls (s : Sys) (opened : Bool) (rc : Int) :
    (s.leave opened rc).calls =
      { fd := s.g.fd, flags := s.g.flags, opened := opened,
        requests := s.requests, rc := rc } :: s.calls := by
  rw [leave]
  split <;> rfl

theorem Sys.leave_frame (s : Sys) (opened : Bool) (rc : Int) :
    (s.leave opened rc).g.fd = s.g.fd ∧ (s.leave opened rc).main = s.main ∧
      (s.leave opened rc).requests = s.requests := by
  rw [leave]
  split <;> exact ⟨rfl, rfl, rfl⟩

/-- The writer has given the quit command. -/
def Main.quitting : Main → Bool
  | .stopping => true
  | .joined => true
  | _ => false

/-- A step that neither issues a command nor ends a sync. -/
def Label.quiet : Label → Bool
  | .close => true
  | .join => true
  | .lock => true
  | .wake => true
  | _ => false

theorem step_quiet {r : Odsync} {s s' : Sys} {l : Label} (hl : l.quiet = true)
    (h : step r s l = some s') :
    s'.g = s.g ∧ s'.requests = s.requests ∧ s'.calls = s.calls ∧
      s'.main.quitting = s.main.quitting ∧
      ∀ opened, s'.worker = .syncing opened → s.worker = .syncing opened ∨ s.g.state ≠ .sWAIT := by
  cases l with
  | close =>
      rw [step] at h
      split at h
      · rename_i hm
        obtain rfl := Option.some.inj h
        exact ⟨rfl, rfl, rfl, hm ▸ rfl, fun _ hw => .inl hw⟩
      · cases h
  | join =>
      rw [step] at h
      split at h
      · rename_i hm
        obtain rfl := Option.some.inj h
        exact ⟨rfl, rfl, rfl, hm.1 ▸ rfl, fun _ hw => .inl hw⟩
      · cases h
  | lock =>
      rw [step] at h
      split at h
      · obtain rfl := Option.some.inj h
        rw [Sys.enter]
        split
        · exact ⟨rfl, rfl, rfl, rfl, fun _ hw => by cases hw⟩
        · exact ⟨rfl, rfl, rfl, rfl, fun _ _ => .inr ‹_›⟩
      · cases h
  | wake =>
      rw [step] at h
      split at h
      · obtain rfl := Option.some.inj h
        exact ⟨rfl, rfl, rfl, rfl, fun _ hw => by cases hw⟩
      · cases h
  | request => cases hl
  | stop => cases hl
  | synced answer => cases hl

/-! ## The last request -/

/-- A sync of the file with the run's flags was started after the last
request, while the file was open, and is over. -/
def Served (r : Odsync) (s : Sys) : Prop :=
  ∃ c ∈ s.calls, c.fd = r.fd ∧ c.flags = r.modeFlags ∧ c.opened = true ∧ c.requests = s.requests

/-- No sync has failed so far. -/
def Clean (s : Sys) : Prop := ∀ c ∈ s.calls, c.rc = 0

/-- The quit command is given when no request is pending. -/
def QuitsIdle (s : Sys) (l : Label) : Prop := l = .stop → s.g.state ≠ .sSYNC

instance (s : Sys) (l : Label) : Decidable (QuitsIdle s l) :=
  inferInstanceAs (Decidable (_ → _))

/-- What holds before the quit command, and after one that was given
when no request was pending. -/
structure Orderly (r : Odsync) (s : Sys) : Prop where
  pending : s.g.state = .sSYNC → s.g.fd = r.fd ∧ s.g.flags = r.modeFlags
  quit : s.main.quitting = true → s.g.state ≠ .sSYNC
  busy : ∀ opened, s.worker = .syncing opened → s.g.state ≠ .sWAIT
  older : ∀ c ∈ s.calls, c.requests ≤ s.requests
  unserved : s.g.state = .sSYNC → ∀ c ∈ s.calls, c.rc = 0 → c.requests < s.requests
  served : Clean s → 0 < s.requests → s.g.state = .sSYNC ∨ Served r s

/-- What holds after a quit command that wrote over a request. -/
structure Overwritten (r : Odsync) (s : Sys) : Prop where
  quitting : s.main.quitting = true
  nofile : s.g.fd = -1
  unserved : ∀ c ∈ s.calls, c.rc = 0 → c.fd = r.fd → c.requests < s.requests

/-! ## One step -/

theorem orderly_init (r : Odsync) : Orderly r {} where
  pending := fun h => by cases h
  quit := fun h => by cases h
  busy := fun _ h => by cases h
  older := fun _ hc => by cases hc
  unserved := fun h => by cases h
  served := fun _ h => by cases h

theorem Orderly.request {r : Odsync} {s s' : Sys} (h : Orderly r s)
    (hs : step r s .request = some s') : Orderly r s' := by
  obtain ⟨hmain, rfl⟩ := step_request hs
  exact
    { pending := fun _ => ⟨rfl, rfl⟩
      quit := fun (hq : s.main.quitting = true) => by
        rw [hmain] at hq
        cases hq
      busy := fun _ _ hw => by cases hw
      older := fun c hc => Nat.le_succ_of_le (h.older c hc)
      unserved := fun _ c hc _ => Nat.lt_succ_of_le (h.older c hc)
      served := fun _ _ => .inl rfl }

theorem Orderly.stop {r : Odsync} {s s' : Sys} (h : Orderly r s) (hidle : QuitsIdle s .stop)
    (hs : step r s .stop = some s') : Orderly r s' := by
  obtain ⟨-, rfl⟩ := step_stop hs
  exact
    { pending := fun hq => by cases hq
      quit := fun _ hq => by cases hq
      busy := fun _ _ hw => by cases hw
      older := h.older
      unserved := fun hq => by cases hq
      served := fun hclean hreq => .inr ((h.served hclean hreq).resolve_left (hidle rfl)) }

/-- The end of a sync serves the request it was started for. -/
theorem Orderly.synced {r : Odsync} {s s' : Sys} {answer : Int} (h : Orderly r s)
    (hs : step r s (.synced answer) = some s') : Orderly r s' := by
  obtain ⟨opened, rc, hworker, rfl, hopen⟩ := step_synced hs
  have hbusy := h.busy opened hworker
  have holder : ∀ c ∈ (s.leave opened rc).calls, c.requests ≤ s.requests := by
    intro c hc
    rw [Sys.leave_calls] at hc
    rcases List.mem_cons.mp hc with rfl | hc
    · exact Nat.le_refl _
    · exact h.older c hc
  by_cases hend : rc ≠ 0 ∨ s.g.state = .sQUIT
  · rw [Sys.leave, if_pos hend] at holder ⊢
    refine ⟨h.pending, h.quit, fun _ hw => (by cases hw), holder, fun hsync c hc hrc => ?_,
      fun hclean hreq => ?_⟩
    · rcases List.mem_cons.mp hc with rfl | hc
      · rw [hend.resolve_left fun hne => hne hrc] at hsync
        cases hsync
      · exact h.unserved hsync c hc hrc
    · rcases h.served (fun c hc => hclean c (List.mem_cons_of_mem _ hc)) hreq with hsync | hserved
      · exact .inl hsync
      · obtain ⟨c, hc, hmatch⟩ := hserved
        exact .inr ⟨c, List.mem_cons_of_mem _ hc, hmatch⟩
  · rw [Sys.leave, if_neg hend] at holder ⊢
    rw [not_or, Decidable.not_not] at hend
    have hsync : s.g.state = .sSYNC := by
      cases hstate : s.g.state with
      | sQUIT => exact absurd hstate hend.2
      | sWAIT => exact absurd hstate hbusy
      | sSYNC => rfl
    obtain ⟨hfd, hflags⟩ := h.pending hsync
    have htype : s.g.flags &&& SYNC_TYPE ≠ 0 := hflags ▸ r.typed
    exact ⟨fun hq => (by cases hq), fun _ hq => (by cases hq), fun _ hw => (by cases hw), holder,
      fun hq => (by cases hq),
      fun _ _ => .inr ⟨_, List.mem_cons_self, hfd, hflags, hopen htype hend.1, rfl⟩⟩

theorem Orderly.quiet {r : Odsync} {s s' : Sys} {l : Label} (h : Orderly r s)
    (hl : l.quiet = true) (hs : step r s l = some s') : Orderly r s' := by
  obtain ⟨hg, hreq, hcalls, hquit, hworker⟩ := step_quiet hl hs
  have hserved : Served r s → Served r s' := by
    rw [Served, Served, hcalls, hreq]
    exact id
  refine ⟨?_, ?_, ?_, ?_, ?_, ?_⟩
  · rw [hg]
    exact h.pending
  · rw [hg, hquit]
    exact h.quit
  · intro opened hw
    rw [hg]
    exact (hworker opened hw).elim (h.busy opened) id
  · rw [hcalls, hreq]
    exact h.older
  · rw [hg, hcalls, hreq]
    exact h.unserved
  · rw [Clean, hcalls, hreq, hg]
    exact fun hclean hpos => (h.served hclean hpos).imp id hserved

theorem Orderly.step {r : Odsync} {s s' : Sys} {l : Label} (h : Orderly r s)
    (hidle : QuitsIdle s l) (hs : step r s l = some s') : Orderly r s' := by
  cases l with
  | request => exact h.request hs
  | stop => exact h.stop hidle hs
  | synced answer => exact h.synced hs
  | close => exact h.quiet rfl hs
  | join => exact h.quiet rfl hs
  | lock => exact h.quiet rfl hs
  | wake => exact h.quiet rfl hs

/-- A quit command that finds a request writes over it. -/
theorem Orderly.overwritten {r : Odsync} {s s' : Sys} {l : Label} (h : Orderly r s)
    (hbusy : ¬QuitsIdle s l) (hs : Wbuft.step r s l = some s') : Overwritten r s' := by
  obtain ⟨rfl, hsync⟩ := Classical.not_imp.mp hbusy
  obtain ⟨-, rfl⟩ := step_stop hs
  exact ⟨rfl, rfl, fun c hc hrc _ => h.unserved (Decidable.not_not.mp hsync) c hc hrc⟩

/-- Nothing brings the request back: no more requests are issued, and
the thread only syncs the file the quit command names. -/
theorem Overwritten.step {r : Odsync} {s s' : Sys} {l : Label} (h : Overwritten r s)
    (hs : step r s l = some s') : Overwritten r s' := by
  cases hl : l.quiet with
  | true =>
      obtain ⟨hg, hreq, hcalls, hquit, -⟩ := step_quiet hl hs
      exact ⟨hquit ▸ h.quitting, hg ▸ h.nofile, by rw [hcalls, hreq]; exact h.unserved⟩
  | false =>
      have hq := h.quitting
      cases l with
      | request =>
          rw [(step_request hs).1] at hq
          cases hq
      | stop =>
          rw [(step_stop hs).1] at hq
          cases hq
      | synced answer =>
          obtain ⟨opened, rc, -, rfl, -⟩ := step_synced hs
          obtain ⟨hfd, hmain, hreq⟩ := s.leave_frame opened rc
          refine ⟨hmain ▸ hq, hfd ▸ h.nofile, fun c hc hrc hcfd => ?_⟩
          rw [Sys.leave_calls] at hc
          rw [hreq]
          rcases List.mem_cons.mp hc with rfl | hc
          · -- the new call is of descriptor -1
            have hfile : s.g.fd = r.fd := hcfd
            have hopen := r.opened
            rw [← hfile, h.nofile] at hopen
            exact absurd hopen (by decide)
          · exact h.unserved c hc hrc hcfd
      | close => cases hl
      | join => cases hl
      | lock => cases hl
      | wake => cases hl

/-! ## Shutdown -/

theorem Overwritten.not_served {r : Odsync} {s : Sys} (h : Overwritten r s) (hclean : Clean s) :
    ¬Served r s := by
  rintro ⟨c, hc, hfd, -, -, hreq⟩
  exact Nat.ne_of_lt (h.unserved c hc (hclean c hc) hfd) hreq

/-- **The last request is synced**, in a run that stopped the thread with
no sync failing, if and only if the quit command found no request
pending. -/
theorem last_request_synced_iff (r : Odsync) {ls : List Label} {s : Sys}
    (hrun : run (step r) {} ls = some s) (hret : s.main = .joined) (hclean : Clean s)
    (hreq : 0 < s.requests) :
    Served r s ↔ Meets (step r) QuitsIdle {} ls := by
  have hend := meets_or_ends (I := Orderly r) (J := Overwritten r) (C := QuitsIdle)
    (fun s l s' h hidle hs => h.step hidle hs) (fun s l s' h hbusy hs => h.overwritten hbusy hs)
    (fun s l s' h hs => h.step hs) (orderly_init r) hrun
  rcases hend with ⟨hmeets, horderly⟩ | ⟨hmiss, hover⟩
  · refine iff_of_true ?_ hmeets
    exact (horderly.served hclean hreq).resolve_left (horderly.quit (hret ▸ rfl))
  · exact iff_of_false (hover.not_served hclean) hmiss

/-- `wbuft -D -T` on descriptor 3. -/
def threeData : Odsync where
  fd := 3
  modeFlags := SYNC_DATA ||| SYNC_THREAD
  noDsync := false
  opened := by decide
  threaded := by decide
  typed := by decide

/-- The thread syncs the request before the writer closes the file. -/
def traceServed : List Label :=
  [.lock, .request, .lock, .synced 0, .close, .stop, .lock, .synced 0, .join]

theorem last_request_synced_iff_traceServed :
    ∃ s, run (step threeData) {} traceServed = some s ∧
      (Served threeData s ↔ Meets (step threeData) QuitsIdle {} traceServed) :=
  ⟨_, rfl, last_request_synced_iff threeData rfl rfl
    (fun c hc => by revert c; decide) (Nat.succ_pos 0)⟩

/-- The quit command comes before the woken thread gets the mutex. -/
def traceOvertaken : List Label :=
  [.lock, .request, .close, .stop, .lock, .synced 0, .join]

theorem request_overtaken :
    ¬∀ (r : Odsync) (ls : List Label) (s : Sys), run (step r) {} ls = some s →
      s.main = .joined → Clean s → 0 < s.requests → Served r s := by
  intro hall
  have hrun : run (step threeData) {} traceOvertaken = some
      { g := { state := .sQUIT, fd := -1, flags := 0 }, worker := .exited, main := .joined,
        requests := 1,
        calls := [{ fd := -1, flags := 0, opened := false, requests := 1, rc := 0 }] } := rfl
  obtain ⟨c, hc, hfd, -⟩ := hall threeData traceOvertaken _ hrun rfl
    (fun c hc => by rw [List.mem_singleton.mp hc]) (Nat.succ_pos 0)
  rw [List.mem_singleton.mp hc] at hfd
  cases hfd

end MiscTools.Wbuft
