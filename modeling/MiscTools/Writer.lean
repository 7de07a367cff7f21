import MiscTools.FrelayTurn

/-!
# The writer

`writer.c`, the relay with a fixed limit. It differs from `frelay.c` in
the size of a chunk, in the test for a full file and in the order of the
calls of its `rollover`; and it does not reset the counter.

So the counter is the size of the current file up to the first roll-over
and never after it (`counter_iff`).
-/

namespace MiscTools

namespace Writer

open Fdio Frelay Runs

/-! ## The relay -/

def maxDstLength : Nat := (1024 * 1024) * 20

def rollover (fpath : CStr) (s : Relay) (counter : Nat) (events : List Event) : Moment Int :=
  if counter = 0 ∨ newpathLen fpath counter ≥ pathMax then ⟨.aborts, s, events⟩
  else
    (s.sys .rename events).andThen fun err s events =>
    if err ≠ none then ⟨.returns (-1), s.perror "rename", events⟩
    else
      (s.sys .close events).andThen fun err s events =>
      if err ≠ none then ⟨.returns (-1), s.perror "close", events⟩
      else
        let s := { s with outOpen := false }
        (s.sys .unlink events).andThen fun err s events =>
        if err ≠ none then ⟨.returns (-1), s.perror "unlink", events⟩
        else
          (s.sys .open_ events).andThen fun err s events =>
          if err ≠ none then ⟨.returns (-1), s.perror "open [roll]", events⟩
          else
            ⟨.returns 0, { s with
              outOpen := true, closed := s.closed ++ [s.kernel.output]
              kernel := { s.kernel with output := [] } }, events⟩

/-- One turn of the loop, and `err` where it is left. -/
def relayTurn (dstPath : CStr) (s : Relay) (events : List Event) :
    Moment (Option (Option Errno)) :=
  (s.io (transfer none mtuDefault 0 s.kernel events)).andThen fun v s events =>
  let nsent := v.1
  if s.kernel.errno ≠ none then ⟨.returns (some s.kernel.errno), s.perror "transfer", events⟩
  else
    (rewind s nsent events).andThen fun left s events =>
    match left with
    | some err => ⟨.returns (some err), s, events⟩
    | none =>
        let s := { s with ntotal := s.ntotal + nsent }
        if s.ntotal + (mtuDefault : Int) ≥ maxDstLength then
          let s := { s with nrolls := s.nrolls + 1 }
          (rollover dstPath s s.nrolls events).andThen fun rc s events =>
          if rc = -1 then ⟨.returns (some none), s, events⟩
          else pause s events
        else pause s events

def cyclicFileRelay (dstPath : CStr) (s : Relay) (events : List Event) : Moment Int :=
  (s.sys .open_ events).andThen fun err s events =>
  if err ≠ none then ⟨.returns (-1), s.perror "open [src]", events⟩
  else
    (s.sys .open_ events).andThen fun err s events =>
    if err ≠ none then
      ((s.perror "open [dst]").sys .close events).andThen fun _ s events =>
      ⟨.returns (-1), s, events⟩
    else
      let s := { s with outOpen := true }
      (loopOf (relayTurn dstPath) (events.length + 1) s events).andThen fun err s events =>
      (if s.outOpen then s.sys .close events else ⟨.returns none, s, events⟩).andThen
        fun _ s events =>
      (s.sys .close events).andThen fun _ s events =>
      ⟨.returns (if err ≠ none then -1 else 0), s, events⟩

/-! ## One turn -/

/-- What a turn of the writer does to it. -/
def turned (s : Relay) : Relay :=
  let t := s.fed mtuDefault
  if t.ntotal + mtuDefault ≥ maxDstLength then
    { t.swapped with nrolls := s.nrolls + 1, outOpen := true }
  else t

theorem rollover_swapped (fpath : CStr) (s : Relay) (counter : Nat) (events : List Event) :
    (rollover fpath s counter events).Leaves (fun rc => rc ≠ -1)
      { s.swapped with outOpen := true } := by
  unfold rollover
  split
  · exact ⟨trivial, fun v hv => by cases hv⟩
  have hfails : ∀ {s : Relay} {events : List Event} {t : Relay},
      Moment.Leaves ⟨.returns (-1), s, events⟩ (fun rc : Int => rc ≠ -1) t :=
    leaves_returns fun h => absurd rfl h
  refine (sys_leaves s .rename events).andThen fun err s₁ events h₁ => ?_
  split
  · exact hfails
  refine (sys_leaves s₁ .close events).andThen fun err s₂ events h₂ => ?_
  split
  · exact hfails
  refine (sys_leaves _ .unlink events).andThen fun err s₃ events h₃ => ?_
  split
  · exact hfails
  refine (sys_leaves s₃ .open_ events).andThen fun err s₄ events h₄ => ?_
  split
  · exact hfails
  refine leaves_returns fun _ => ?_
  have hsame : s₄.quiet = Relay.quiet { s with outOpen := false } :=
    ((h₄ trivial).trans (h₃ trivial)).trans
      (congrArg (fun r : Relay => { r with outOpen := false })
        ((h₂ trivial).trans (h₁ trivial)))
  exact congrArg (fun r : Relay => { r.swapped with outOpen := true }) hsame

/-- What `writer.c` does about a full file. -/
def swapIfFull (dstPath : CStr) (_nsent : Int) (s : Relay) (events : List Event) :
    Moment (Option (Option Errno)) :=
  if s.ntotal + (mtuDefault : Int) ≥ maxDstLength then
    let s := { s with nrolls := s.nrolls + 1 }
    (rollover dstPath s s.nrolls events).andThen fun rc s events =>
    if rc = -1 then ⟨.returns (some none), s, events⟩
    else pause s events
  else pause s events

theorem relayTurn_feed (dstPath : CStr) (s : Relay) (events : List Event) :
    relayTurn dstPath s events = feed mtuDefault (swapIfFull dstPath) s events := rfl

theorem relayTurn_turned (dstPath : CStr) (s : Relay) (events : List Event) :
    (relayTurn dstPath s events).Leaves (· = none) (turned s) := by
  rw [relayTurn_feed]
  refine feed_leaves (fun {s₁} events hfed => ?_) events
  obtain ⟨-, -, -, -, -, htotal, hrolls⟩ := Relay.quiet_ext hfed
  rw [turned, ← htotal, swapIfFull]
  split
  · refine (rollover_swapped dstPath _ _ events).andThen fun rc s₃ events h₃ => ?_
    split
    · exact leaves_returns (by simp)
    rename_i hrc
    refine (pause_leaves s₃ events).congr ((h₃ hrc).trans ?_)
    rw [hrolls]
    exact congrArg
      (fun r : Relay => { r.swapped with nrolls := s.nrolls + 1, outOpen := true }) hfed
  · exact (pause_leaves _ events).congr hfed

/-! ## The counter -/

/-- The counter is the size of the current file, and no file was swapped
with more than a chunk missing. -/
def Counted (p : Relay × List Event) : Prop :=
  p.1.ntotal = p.1.kernel.output.length
    ∧ ∀ f ∈ p.1.closed, maxDstLength ≤ f.length + mtuDefault

/-- The next turn does not fill the file. -/
def Stays (p : Relay × List Event) : Prop :=
  p.1.ntotal + p.1.chunk mtuDefault + mtuDefault < maxDstLength

/-- The counter before the first roll-over. -/
structure First (s : Relay) : Prop where
  ntotal : s.ntotal = s.kernel.output.length
  closed : s.closed = []

theorem First.turned {s : Relay} (h : First s)
    (hstays : s.ntotal + s.chunk mtuDefault + mtuDefault < maxDstLength) : First (turned s) := by
  have hstay : Writer.turned s = s.fed mtuDefault := if_neg (Int.not_le.mpr hstays)
  rw [hstay]
  refine ⟨?_, h.closed⟩
  rw [Relay.fed_output_length]
  show s.ntotal + (s.chunk mtuDefault : Int) = _
  have htotal := h.ntotal
  omega

theorem First.quiet {s t : Relay} (h : First t) (hst : s.quiet = t.quiet) : First s := by
  obtain ⟨-, -, hout, hclosed, -, htotal, -⟩ := Relay.quiet_ext hst
  exact ⟨htotal.trans (hout ▸ h.ntotal), hclosed.trans h.closed⟩

/-- After a roll-over the counter is that of the file before. -/
theorem not_counted_of_roll {p p' : Relay × List Event} {dstPath : CStr} {l : Unit}
    (hrolls : ¬Stays p) (hstep : turnStep (relayTurn dstPath) p l = some p') : ¬Counted p' := by
  rintro ⟨hcounted, -⟩
  obtain ⟨-, -, hout, -, -, htotal, -⟩ :=
    Relay.quiet_ext (turnStep_leaves (relayTurn_turned dstPath _ _) hstep)
  have hroll : Writer.turned p.1
      = { (p.1.fed mtuDefault).swapped with nrolls := p.1.nrolls + 1, outOpen := true } :=
    if_pos (Int.not_lt.mp hrolls)
  rw [hroll] at hout htotal
  rw [hout, htotal] at hcounted
  have hzero : p.1.ntotal + p.1.chunk mtuDefault = 0 := hcounted
  rw [Stays, hzero] at hrolls
  revert hrolls
  decide

/-- **The counter follows the file** in the runs without a roll-over, and
in no others. -/
theorem counter_iff (src : List UInt8) (errno : Option Errno) (dstPath : CStr)
    (events : List Event) (turns : List Unit) :
    Always (turnStep (relayTurn dstPath)) Counted (Relay.opened src errno, events) turns
      ↔ Meets (turnStep (relayTurn dstPath)) (fun p _ => Stays p)
        (Relay.opened src errno, events) turns := by
  refine always_iff_meets (I := fun p => First p.1) (L := fun _ => True) ?_ ?_ ?_
    ⟨rfl, rfl⟩ (fun _ _ => trivial)
  · intro p l p' hI _ hstays hstep
    exact (hI.turned hstays).quiet (turnStep_leaves (relayTurn_turned dstPath _ _) hstep)
  · intro p hI
    refine ⟨hI.ntotal, ?_⟩
    rw [hI.closed]
    simp
  · intro p l p' _ _ hrolls hstep
    exact not_counted_of_roll hrolls hstep

/-- Once the counter is that high the file is swapped in every turn. -/
theorem rolls_ever_after {dstPath : CStr} :
    ∀ {turns : List Unit} {p p' : Relay × List Event},
      maxDstLength ≤ p.1.ntotal + mtuDefault →
      run (turnStep (relayTurn dstPath)) p turns = some p' →
      p'.1.closed.length = p.1.closed.length + turns.length := by
  intro turns
  induction turns with
  | nil =>
      intro p p' _ h
      cases h
      rfl
  | cons l turns ih =>
      intro p p' hfull h
      obtain ⟨p₁, hstep, hrest⟩ := run_cons_eq_some.mp h
      obtain ⟨-, -, -, hclosed, -, htotal, -⟩ :=
        Relay.quiet_ext (turnStep_leaves (relayTurn_turned dstPath _ _) hstep)
      have hroll : turned p.1
          = { (p.1.fed mtuDefault).swapped with nrolls := p.1.nrolls + 1, outOpen := true } := by
        refine if_pos ?_
        show p.1.ntotal + (p.1.chunk mtuDefault : Int) + mtuDefault ≥ maxDstLength
        omega
      rw [hroll] at hclosed htotal
      have htotal' : p₁.1.ntotal = p.1.ntotal + p.1.chunk mtuDefault := htotal
      have hlen : p₁.1.closed.length = p.1.closed.length + 1 := by
        rw [hclosed]
        exact List.length_append
      rw [ih (by omega) hrest, hlen, List.length_cons]
      omega

/-! ## A run with a roll-over -/

/-- The calls of `rollover`. -/
def swapCalls : List Call := [.rename, .close, .unlink, .open_]

theorem rollover_whole {fpath : CStr} {counter : Nat} (s : Relay) (hcounter : counter ≠ 0)
    (hpath : newpathLen fpath counter < pathMax) (rest : List Event) :
    ∃ t, rollover fpath s counter (swapCalls.map done ++ rest) = ⟨.returns 0, t, rest⟩
      ∧ t.kernel.errno = s.kernel.errno := by
  rw [rollover, if_neg (by omega)]
  exact ⟨_, rfl, rfl⟩

/-- From every state without an error a turn can go on. -/
theorem relayTurn_whole {s : Relay} (dstPath : CStr) (herr : s.kernel.errno = none)
    (hpath : newpathLen dstPath (s.nrolls + 1) < pathMax) (rest : List Event) :
    ∃ t, relayTurn dstPath s
        (turnAnswers mtuDefault (s.chunk mtuDefault)
          (if (s.fed mtuDefault).ntotal + mtuDefault ≥ maxDstLength then swapCalls else [])
            ++ rest)
        = ⟨.returns none, t, rest⟩ ∧ t.kernel.errno = none := by
  obtain ⟨t, hfeed, herr', htotal, hrolls⟩ :=
    @feed_whole s mtuDefault (swapIfFull dstPath) herr
      (if (s.fed mtuDefault).ntotal + mtuDefault ≥ maxDstLength then swapCalls else []) rest
  rw [relayTurn_feed, hfeed, swapIfFull, ← htotal]
  by_cases hroll : t.ntotal + (mtuDefault : Int) ≥ maxDstLength
  · rw [if_pos hroll, if_pos hroll]
    obtain ⟨t₂, hswap, herr₂⟩ := rollover_whole { t with nrolls := t.nrolls + 1 }
      (Nat.succ_ne_zero t.nrolls) (hrolls ▸ hpath) (done .nanosleep :: rest)
    dsimp only
    rw [hswap, Moment.returns_andThen]
    exact ⟨t₂, pause_whole t₂ rest, herr₂.trans herr'⟩
  · rw [if_neg hroll, if_neg hroll]
    exact ⟨t, pause_whole t rest, herr'⟩

/-- A relay that has copied `n` full chunks and not rolled over. -/
structure Copied (src : List UInt8) (n : Nat) (s : Relay) : Prop where
  file : s.kernel.file = src
  pos : s.kernel.pos = mtuDefault * n
  ntotal : s.ntotal = (mtuDefault * n : Nat)
  nrolls : s.nrolls = 0
  outOpen : s.outOpen = true
  errno : s.kernel.errno = none

theorem Copied.chunk {src : List UInt8} {n : Nat} {s : Relay} (h : Copied src n s)
    (hsrc : mtuDefault * (n + 1) ≤ src.length) : s.chunk mtuDefault = mtuDefault := by
  have hlimit : chunkLimit mtuDefault = mtuDefault := by decide
  rw [Relay.chunk, chunkOf, h.file, h.pos, hlimit]
  rw [Nat.mul_succ] at hsrc
  omega

/-- One more chunk. -/
theorem Copied.step {src : List UInt8} {n : Nat} {s : Relay} (h : Copied src n s)
    (hsrc : mtuDefault * (n + 1) ≤ src.length) (rest : List Event) :
    ∃ t, turnStep (relayTurn dst) (s, turnAnswers mtuDefault mtuDefault
          (if mtuDefault * (n + 1) + mtuDefault ≥ maxDstLength then swapCalls else []) ++ rest) ()
        = some (t, rest)
      ∧ (mtuDefault * (n + 1) + mtuDefault < maxDstLength → Copied src (n + 1) t) := by
  have hchunk := h.chunk hsrc
  have hpath : newpathLen dst (s.nrolls + 1) < pathMax := by
    rw [h.nrolls]
    exact newpathLen_dst
  have htotal : (s.fed mtuDefault).ntotal = (mtuDefault * (n + 1) : Nat) := by
    show s.ntotal + (s.chunk mtuDefault : Int) = _
    rw [h.ntotal, hchunk, Nat.mul_succ]
    rfl
  have hiff : (s.fed mtuDefault).ntotal + (mtuDefault : Int) ≥ maxDstLength
      ↔ mtuDefault * (n + 1) + mtuDefault ≥ maxDstLength := by
    rw [htotal]
    omega
  obtain ⟨t, ht, herr⟩ := relayTurn_whole dst h.errno hpath rest
  simp only [hchunk, hiff] at ht
  refine ⟨t, ?_, fun hroom => ?_⟩
  · simp only [turnStep]
    rw [if_pos h.outOpen, ht]
  · have hquiet := (relayTurn_turned dst s _).2 none (congrArg Moment.outcome ht) rfl
    rw [ht, turned, if_neg (fun hfull => Nat.not_lt_of_le (hiff.mp hfull) hroom)] at hquiet
    obtain ⟨hfile, hpos, -, -, hopen, hnew, hrolls⟩ := Relay.quiet_ext hquiet
    refine ⟨hfile.trans h.file, ?_, hnew.trans htotal, hrolls.trans h.nrolls,
      hopen.trans h.outOpen, herr⟩
    rw [hpos]
    show (if s.chunk mtuDefault = 0 then 0 else s.kernel.pos + s.chunk mtuDefault) = _
    rw [hchunk, h.pos, Nat.mul_succ]
    rfl

/-- The answers to `n` full chunks. -/
def fullChunks (n : Nat) : List Event :=
  (List.replicate n (turnAnswers mtuDefault mtuDefault [])).flatten

theorem Copied.run {src : List UInt8} (rest : List Event) : ∀ (m : Nat) {n : Nat} {s : Relay},
    Copied src n s → mtuDefault * (n + m) ≤ src.length →
    mtuDefault * (n + m) + mtuDefault < maxDstLength →
    ∃ t, run (turnStep (relayTurn dst)) (s, fullChunks m ++ rest) (List.replicate m ())
        = some (t, rest) ∧ Copied src (n + m) t := by
  intro m
  induction m with
  | zero =>
      intro n s h _ _
      exact ⟨s, rfl, h⟩
  | succ m ih =>
      intro n s h hsrc hroom
      have hle : mtuDefault * (n + 1) ≤ mtuDefault * (n + (m + 1)) :=
        Nat.mul_le_mul_left _ (by omega)
      have hroom' : mtuDefault * (n + 1) + mtuDefault < maxDstLength :=
        Nat.lt_of_le_of_lt (Nat.add_le_add_right hle _) hroom
      obtain ⟨t, hstep, hnext⟩ := h.step (Nat.le_trans hle hsrc) (fullChunks m ++ rest)
      rw [if_neg (Nat.not_le_of_lt hroom')] at hstep
      have hsum : n + (m + 1) = n + 1 + m := by omega
      rw [hsum] at hsrc hroom ⊢
      obtain ⟨t', hrun, hcopied⟩ := ih (hnext hroom') hsrc hroom
      refine ⟨t', ?_, hcopied⟩
      rw [List.replicate_succ, run_cons_eq_some]
      refine ⟨_, ?_, hrun⟩
      rw [fullChunks, List.replicate_succ, List.flatten_cons, List.append_assoc]
      exact hstep

/-- 13980 chunks fit, and the next one is the last before a roll-over. -/
theorem counter_lost :
    ¬Always (turnStep (relayTurn dst)) Counted
      (Relay.opened (List.replicate (mtuDefault * 13981) 0) none,
        fullChunks 13980 ++ (turnAnswers mtuDefault mtuDefault swapCalls ++ []))
      (List.replicate 13980 () ++ [()]) := by
  have hsrc : (List.replicate (mtuDefault * 13981) (0 : UInt8)).length = mtuDefault * 13981 :=
    List.length_replicate
  intro halways
  have hstart : Copied (List.replicate (mtuDefault * 13981) 0) 0
      (Relay.opened (List.replicate (mtuDefault * 13981) 0) none) :=
    ⟨rfl, rfl, rfl, rfl, rfl, rfl⟩
  obtain ⟨s, hrun, hs⟩ := hstart.run (turnAnswers mtuDefault mtuDefault swapCalls ++ [])
    13980 (by rw [hsrc]; decide) (by decide)
  have hroom : mtuDefault * (0 + 13980 + 1)
      ≤ (List.replicate (mtuDefault * 13981) (0 : UInt8)).length := by
    rw [hsrc]
  obtain ⟨t, hstep, -⟩ := hs.step hroom []
  rw [if_pos (by decide)] at hstep
  have hrolls : ¬Stays (s, turnAnswers mtuDefault mtuDefault swapCalls ++ []) := by
    rw [Stays, hs.chunk hroom, hs.ntotal]
    decide
  exact not_counted_of_roll hrolls hstep ((halways.after hrun).2 _ hstep)

end Writer

end MiscTools
