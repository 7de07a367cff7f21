import MiscTools.FdioSim
import MiscTools.CStr

/-!
# The cyclic relay

`cyclic_file_relay` of `frelay.c`: a file is copied over and over to a
destination that is swapped for a new file when it is full. The state of
the relay holds the destination files before the current one; what
`out_fd` has accepted is the current one. `g_quit` is never set, and
what goes to `stdout` is left out.

At every moment what was written to the destination files, one after the
other, is a prefix of the source repeated for ever (`relay_stream`).
Bytes are dropped only by a `transfer` that leaves `errno` set, and then
the relay ends.
-/

namespace MiscTools

namespace Frelay

open Fdio

/-! ## The relay -/

/-- `closed` are the destination files before the current one. -/
structure Relay where
  kernel : Kernel
  closed : List (List UInt8)
  /-- `out_fd >= 0` -/
  outOpen : Bool
  ntotal : Int
  nrolls : Nat

/-- A moment of a run: how far it got, and the answers not taken yet. -/
structure Moment (ρ : Type) where
  outcome : Outcome ρ
  state : Relay
  rest : List Event

def Moment.andThen {ρ ρ' : Type} (m : Moment ρ) (f : ρ → Relay → List Event → Moment ρ') :
    Moment ρ' :=
  match m.outcome with
  | .returns v => f v m.state m.rest
  | .waits => ⟨.waits, m.state, m.rest⟩
  | .aborts => ⟨.aborts, m.state, m.rest⟩

namespace Relay

def report (s : Relay) (d : Diag) : Relay := { s with kernel := s.kernel.report d }

def perror (s : Relay) (msg : String) : Relay := { s with kernel := s.kernel.perror msg }

/-- A call that moves no bytes, and its error. -/
def sys (s : Relay) (c : Call) : List Event → Moment (Option Errno)
  | .call c' err :: events =>
      if c' = c then ⟨.returns err, { s with kernel := s.kernel.setErrno err }, events⟩
      else ⟨.waits, s, .call c' err :: events⟩
  | events => ⟨.waits, s, events⟩

/-- A function of `fdio.c` on the files of the relay. -/
def io {ρ : Type} (s : Relay) (r : Ret ρ) : Moment ρ :=
  ⟨r.outcome, { s with kernel := r.kernel }, r.rest⟩

end Relay

def mtuDefault : Nat := 1500

def pathMax : Nat := 4096

/-- The length of `"%s.%06lu"`. -/
def newpathLen (fpath : CStr) (counter : Nat) : Nat :=
  fpath.strlen + 1 + max 6 (toString counter).length

def rollover (fpath : CStr) (s : Relay) (counter : Nat) (events : List Event) : Moment Int :=
  if counter = 0 ∨ newpathLen fpath counter ≥ pathMax then ⟨.aborts, s, events⟩
  else
    (s.sys .rename events).andThen fun err s events =>
    if err ≠ none then ⟨.returns (-1), s.perror "rename", events⟩
    else
      let s := s.report (.moved counter)
      (s.sys .fsync events).andThen fun err s events =>
      if err ≠ none then ⟨.returns (-1), s.perror "fsync", events⟩
      else
        (s.sys .close events).andThen fun err s events =>
        if err ≠ none then ⟨.returns (-1), s.perror "close", events⟩
        else
          (s.sys .open_ events).andThen fun err s events =>
          if err ≠ none then
            ⟨.returns (-1), { s with outOpen := false }.perror "open [roll]", events⟩
          else
            let s := { s with
              closed := s.closed ++ [s.kernel.output], kernel := { s.kernel with output := [] } }
            (s.sys .unlink events).andThen fun err s events =>
            if err ≠ none then ⟨.returns (-1), s.perror "unlink", events⟩
            else ⟨.returns 0, s, events⟩

/-- At the end of the source it is read from the start. The result is
that of a turn that is over. -/
def rewind (s : Relay) (nsent : Int) (events : List Event) :
    Moment (Option (Option Errno)) :=
  if nsent = 0 then
    (s.sys .lseek events).andThen fun err s events =>
    if err ≠ none then ⟨.returns (some err), s.perror "lseek [start]", events⟩
    else ⟨.returns none, { s with kernel := { s.kernel with pos := 0 } }.report .rewound, events⟩
  else ⟨.returns none, s, events⟩

/-- The end of a turn. -/
def pause (s : Relay) (events : List Event) : Moment (Option (Option Errno)) :=
  (s.sys .nanosleep events).andThen fun err s events =>
  ⟨.returns none, if err ≠ none then s.perror "nanosleep" else s, events⟩

/-- One turn of the loop, and `err` where it is left. -/
def relayTurn (dstPath : CStr) (maxDstLen : Nat) (s : Relay) (events : List Event) :
    Moment (Option (Option Errno)) :=
  (s.io (transfer none (mtuDefault * 10) 0 s.kernel events)).andThen fun v s events =>
  let nsent := v.1
  if s.kernel.errno ≠ none then ⟨.returns (some s.kernel.errno), s.perror "transfer", events⟩
  else
    (rewind s nsent events).andThen fun left s events =>
    match left with
    | some err => ⟨.returns (some err), s, events⟩
    | none =>
        let s := { s with ntotal := s.ntotal + nsent }
        if s.ntotal + nsent ≥ maxDstLen then
          let s := { s with nrolls := s.nrolls + 1 }
          (rollover dstPath s s.nrolls events).andThen fun rc s events =>
          -- a rollover that fails leaves `err` alone
          if rc = -1 then ⟨.returns (some none), s, events⟩
          else pause { s with ntotal := 0 } events
        else pause s events

/-- The loop, for as many turns as `fuel` says. -/
def relayLoop (dstPath : CStr) (maxDstLen : Nat) :
    Nat → Relay → List Event → Moment (Option Errno)
  | 0, s, events => ⟨.waits, s, events⟩
  | fuel + 1, s, events =>
      if s.outOpen then
        (relayTurn dstPath maxDstLen s events).andThen fun left s events =>
        match left with
        | some err => ⟨.returns err, s, events⟩
        | none => relayLoop dstPath maxDstLen fuel s events
      else ⟨.returns none, s, events⟩

/-- A turn takes an answer, so the fuel lasts (`relayLoop_fuel`). -/
def cyclicFileRelay (dstPath : CStr) (maxDstLen : Nat) (s : Relay) (events : List Event) :
    Moment Int :=
  (s.sys .open_ events).andThen fun err s events =>
  if err ≠ none then ⟨.returns (-1), s.perror "open [src]", events⟩
  else
    (s.sys .open_ events).andThen fun err s events =>
    if err ≠ none then
      ((s.perror "open [dst]").sys .close events).andThen fun _ s events =>
      ⟨.returns (-1), s, events⟩
    else
      let s := { s with outOpen := true }
      (relayLoop dstPath maxDstLen (events.length + 1) s events).andThen fun err s events =>
      (if s.outOpen then s.sys .close events else ⟨.returns none, s, events⟩).andThen
        fun _ s events =>
      (s.sys .close events).andThen fun _ s events =>
      ⟨.returns (if err ≠ none then -1 else 0), s, events⟩

/-- The relay before it runs, over a source and any `errno`. -/
def Relay.start (src : List UInt8) (errno : Option Errno) : Relay :=
  { kernel := { errno := errno, file := src, pos := 0, output := [], stderr := [] }
    closed := [], outOpen := false, ntotal := 0, nrolls := 0 }

/-! ## What holds at a moment -/

/-- `I` holds now, and `Q` too if the function has returned. -/
def Moment.Sat {ρ : Type} (m : Moment ρ) (I : Relay → Prop) (Q : ρ → Relay → Prop) : Prop :=
  I m.state ∧ ∀ v, m.outcome = .returns v → Q v m.state

theorem Moment.Sat.andThen {ρ ρ' : Type} {m : Moment ρ} {f : ρ → Relay → List Event → Moment ρ'}
    {I : Relay → Prop} {Q : ρ → Relay → Prop} {Q' : ρ' → Relay → Prop} (h : m.Sat I Q)
    (hf : ∀ v s events, Q v s → (f v s events).Sat I Q') : (m.andThen f).Sat I Q' := by
  unfold Moment.andThen
  cases hout : m.outcome with
  | waits =>
      refine ⟨h.1, ?_⟩
      intro v hv
      cases hv
  | aborts =>
      refine ⟨h.1, ?_⟩
      intro v hv
      cases hv
  | returns v => exact hf v m.state m.rest (h.2 v hout)

theorem sat_returns {ρ : Type} {v : ρ} {s : Relay} {events : List Event} {I : Relay → Prop}
    {Q : ρ → Relay → Prop} (hI : I s) (hQ : Q v s) : Moment.Sat ⟨.returns v, s, events⟩ I Q := by
  refine ⟨hI, ?_⟩
  intro v' hv'
  cases hv'
  exact hQ

/-! ## The stream -/

/-- What was written to the destination files. -/
def Relay.written (s : Relay) : List UInt8 := (s.closed ++ [s.kernel.output]).flatten

/-- What was written is a prefix of the source repeated. -/
def Sound (src : List UInt8) (s : Relay) : Prop :=
  ∃ n, s.written <+: (List.replicate n src).flatten

/-- All that was read was written. -/
structure Synced (src : List UInt8) (s : Relay) : Prop where
  file : s.kernel.file = src
  le : s.kernel.pos ≤ src.length
  written : ∃ n, s.written = (List.replicate n src).flatten ++ src.take s.kernel.pos

theorem Relay.written_eq (s : Relay) : s.written = s.closed.flatten ++ s.kernel.output := by
  simp [Relay.written]

/-- With a little more of the source it is still a prefix. -/
theorem repeat_take {src bs : List UInt8} (n pos len : Nat)
    (h : bs = (List.replicate n src).flatten ++ (src.take pos ++ ((src.drop pos).take len))) :
    bs <+: (List.replicate (n + 1) src).flatten := by
  rw [h, ← List.take_add, List.replicate_succ', List.flatten_append, List.flatten_singleton]
  exact List.prefix_append_right_inj _ |>.mpr (List.take_prefix _ _)

theorem Synced.sound {src : List UInt8} {s : Relay} (h : Synced src s) : Sound src s := by
  obtain ⟨n, hn⟩ := h.written
  exact ⟨n + 1, repeat_take n s.kernel.pos 0 (by rw [hn, List.take_zero, List.append_nil])⟩

theorem Synced.sat_returns {ρ : Type} {src : List UInt8} {s : Relay} (h : Synced src s) (v : ρ)
    (events : List Event) :
    Moment.Sat ⟨.returns v, s, events⟩ (Sound src) fun _ s => Synced src s :=
  Frelay.sat_returns h.sound h

/-- A call that moves no bytes keeps what does not depend on `errno`. -/
theorem sys_sat {I P : Relay → Prop} {s : Relay} (hs : P s)
    (herrno : ∀ err, P { s with kernel := s.kernel.setErrno err }) (hI : ∀ t, P t → I t)
    (c : Call) (events : List Event) : (s.sys c events).Sat I fun _ t => P t := by
  have hwaits : ∀ events,
      (⟨.waits, s, events⟩ : Moment (Option Errno)).Sat I fun _ t => P t := by
    intro events
    refine ⟨hI s hs, ?_⟩
    intro v hv
    cases hv
  unfold Relay.sys
  split
  · split
    · exact sat_returns (hI _ (herrno _)) (herrno _)
    · exact hwaits _
  · exact hwaits _

theorem Synced.setErrno {src : List UInt8} {s : Relay} (h : Synced src s) (err : Option Errno) :
    Synced src { s with kernel := s.kernel.setErrno err } := by
  cases err with
  | none => exact h
  | some e => exact ⟨h.file, h.le, h.written⟩

theorem Synced.sys {src : List UInt8} {s : Relay} (h : Synced src s) (c : Call)
    (events : List Event) :
    (s.sys c events).Sat (Sound src) fun _ s => Synced src s :=
  sys_sat h h.setErrno (fun _ ht => ht.sound) c events

theorem Synced.report {src : List UInt8} {s : Relay} (h : Synced src s) (d : Diag) :
    Synced src (s.report d) :=
  ⟨h.file, h.le, h.written⟩

theorem Synced.perror {src : List UInt8} {s : Relay} (h : Synced src s) (msg : String) :
    Synced src (s.perror msg) :=
  ⟨h.file, h.le, h.written⟩

/-- The old file goes to the closed ones as it is. -/
theorem rollover_synced {src : List UInt8} {s : Relay} (h : Synced src s) (fpath : CStr)
    (counter : Nat) (events : List Event) :
    (rollover fpath s counter events).Sat (Sound src) fun _ s => Synced src s := by
  unfold rollover
  split
  · refine ⟨h.sound, ?_⟩
    intro v hv
    cases hv
  refine (h.sys .rename events).andThen ?_
  intro err s events h
  split
  · exact (h.perror "rename").sat_returns _ _
  refine ((h.report (.moved counter)).sys .fsync events).andThen ?_
  intro err s events h
  split
  · exact (h.perror "fsync").sat_returns _ _
  refine (h.sys .close events).andThen ?_
  intro err s events h
  split
  · exact (h.perror "close").sat_returns _ _
  refine (h.sys .open_ events).andThen ?_
  intro err s events h
  split
  · have hclosed : Synced src { s with outOpen := false } := ⟨h.file, h.le, h.written⟩
    exact (hclosed.perror "open [roll]").sat_returns _ _
  have hnew : Synced src { s with
      closed := s.closed ++ [s.kernel.output], kernel := { s.kernel with output := [] } } := by
    refine ⟨h.file, h.le, ?_⟩
    obtain ⟨n, hn⟩ := h.written
    refine ⟨n, ?_⟩
    rw [← hn, Relay.written_eq, Relay.written, List.append_nil]
  refine (hnew.sys .unlink events).andThen ?_
  intro err s events h
  split
  · exact (h.perror "unlink").sat_returns _ _
  · exact h.sat_returns _ _

theorem pause_synced {src : List UInt8} {s : Relay} (h : Synced src s) (events : List Event) :
    (pause s events).Sat (Sound src) fun _ s => Synced src s := by
  refine (h.sys .nanosleep events).andThen ?_
  intro err s events h
  refine Synced.sat_returns ?_ _ _
  split
  · exact h.perror "nanosleep"
  · exact h

/-- The source is read from the start where it was read to the end. -/
theorem rewind_synced {src : List UInt8} {s : Relay} {nsent : Int} (h : Synced src s)
    (hend : nsent = 0 → s.kernel.pos = src.length) (events : List Event) :
    (rewind s nsent events).Sat (Sound src) fun _ s => Synced src s := by
  unfold rewind
  split
  · rename_i hzero
    refine (sys_sat (P := fun t => Synced src t ∧ t.kernel.pos = src.length)
      ⟨h, hend hzero⟩ ?_ (fun _ ht => ht.1.sound) .lseek events).andThen ?_
    · intro err
      refine ⟨h.setErrno err, ?_⟩
      cases err <;> exact hend hzero
    rintro err s events ⟨h, hpos⟩
    split
    · exact (h.perror "lseek [start]").sat_returns _ _
    have hstart : Synced src { s with kernel := { s.kernel with pos := 0 } } := by
      obtain ⟨n, hn⟩ := h.written
      refine ⟨h.file, Nat.zero_le _, n + 1, ?_⟩
      show s.written = _
      rw [hn, hpos, List.take_length, List.take_zero, List.append_nil,
        List.replicate_succ', List.flatten_append, List.flatten_singleton]
    exact (hstart.report .rewound).sat_returns _ _
  · exact h.sat_returns _ _

/-! ## A turn -/

/-- What a call of `transfer` leaves behind: all that was read was
written, to the end of the source if nothing was, or `errno` is set. -/
theorem transfer_synced {src : List UInt8} {s : Relay} (h : Synced src s) (events : List Event) :
    (s.io (transfer none (mtuDefault * 10) 0 s.kernel events)).Sat (Sound src) fun v t =>
      Sound src t ∧ (t.kernel.errno = none →
        Synced src t ∧ (v.1 = 0 → t.kernel.pos = src.length)) := by
  obtain ⟨reads, writes, buf, sent, -, ht⟩ :=
    transfer_spec (by decide : (0 : UInt32) &&& fdioSendfile = 0) (mtuDefault * 10) s.kernel
      events
  generalize transfer none (mtuDefault * 10) 0 s.kernel events = r at ht
  obtain ⟨_, hfile, hpos⟩ := ht.at_
  obtain ⟨n, hn⟩ := h.written
  have hbuf := ht.eq_take
  rw [h.file] at hbuf
  have hwritten : (s.io r).state.written
      = (List.replicate n src).flatten ++ (src.take s.kernel.pos ++ buf.take sent) := by
    rw [Relay.written_eq] at hn ⊢
    show s.closed.flatten ++ r.kernel.output = _
    rw [ht.output, ← List.append_assoc, hn, List.append_assoc]
  have hsound : Sound src (s.io r).state := by
    refine ⟨n + 1, repeat_take n s.kernel.pos (min sent buf.length) ?_⟩
    rw [hwritten, hbuf, List.take_take, ← hbuf]
  refine ⟨hsound, ?_⟩
  intro v hv
  refine ⟨hsound, ?_⟩
  intro herrno
  have hlen : buf.length ≤ src.length - s.kernel.pos := by
    have hl := congrArg List.length hbuf
    rw [List.length_take, List.length_drop] at hl
    omega
  have hsynced : sent = buf.length → Synced src (s.io r).state := by
    intro hsent
    have hle := h.le
    refine ⟨hfile.trans h.file, ?_, n, ?_⟩
    · show r.kernel.pos ≤ _
      omega
    · rw [hwritten, hsent, List.take_length, hbuf]
      show _ = _ ++ src.take r.kernel.pos
      rw [hpos, List.take_add, ← hbuf]
  rcases ht.outcome with hw | ⟨hret, hsent, -, hstop, hend⟩ | ⟨hret, hne, hsent, -⟩
      | ⟨-, -, -, -, e, -, -, herr⟩
  · rw [show (s.io r).outcome = r.outcome from rfl, hw] at hv
    cases hv
  · have hzero : buf.length = 0 := hstop.resolve_right (not_not.mpr herrno)
    refine ⟨hsynced (hsent.trans hzero.symm), ?_⟩
    intro _
    rcases hend with ⟨hempty, -, -⟩ | ⟨e, -, -, herr⟩
    · have hdrop := congrArg List.length (hempty hzero)
      rw [List.length_drop, List.length_nil, h.file] at hdrop
      have hle := h.le
      show r.kernel.pos = _
      omega
    · rw [show (s.io r).state.kernel = r.kernel from rfl, herr] at herrno
      cases herrno
  · refine ⟨hsynced hsent, ?_⟩
    intro hv0
    rw [show (s.io r).outcome = r.outcome from rfl, hret] at hv
    cases hv
    exact absurd hv0 (by show ¬(buf.length : Int) = 0; omega)
  · rw [show (s.io r).state.kernel = r.kernel from rfl, herr] at herrno
    cases herrno

theorem relayTurn_synced {src : List UInt8} {s : Relay} (h : Synced src s) (dstPath : CStr)
    (maxDstLen : Nat) (events : List Event) :
    (relayTurn dstPath maxDstLen s events).Sat (Sound src) fun left t =>
      Sound src t ∧ (left = none → Synced src t) := by
  have hgo : ∀ {t : Relay} {left : Option (Option Errno)}, Synced src t →
      Sound src t ∧ (left = none → Synced src t) := fun ht => ⟨ht.sound, fun _ => ht⟩
  refine (transfer_synced h events).andThen ?_
  rintro ⟨nsent, o⟩ s events ⟨hsound, hsynced⟩
  dsimp only
  split
  · exact sat_returns hsound ⟨hsound, by simp⟩
  rename_i herrno
  obtain ⟨h, hend⟩ := hsynced (not_not.mp herrno)
  refine (rewind_synced h hend events).andThen ?_
  intro left s events h
  cases left with
  | some err => exact sat_returns h.sound ⟨h.sound, by simp⟩
  | none =>
      have htotal : ∀ n k, Synced src { s with ntotal := n, nrolls := k } :=
        fun n k => ⟨h.file, h.le, h.written⟩
      dsimp only
      split
      · refine (rollover_synced (htotal _ _) dstPath _ events).andThen ?_
        intro rc s events h
        split
        · exact sat_returns h.sound ⟨h.sound, by simp⟩
        · have hzero : Synced src { s with ntotal := 0 } := ⟨h.file, h.le, h.written⟩
          obtain ⟨hI, hQ⟩ := pause_synced hzero events
          exact ⟨hI, fun v hv => hgo (hQ v hv)⟩
      · obtain ⟨hI, hQ⟩ := pause_synced (htotal _ _) events
        exact ⟨hI, fun v hv => hgo (hQ v hv)⟩

/-! ## The run -/

theorem relayLoop_sound {src : List UInt8} (dstPath : CStr) (maxDstLen : Nat) :
    ∀ (fuel : Nat) {s : Relay} (events : List Event), Synced src s →
      (relayLoop dstPath maxDstLen fuel s events).Sat (Sound src) fun _ t => Sound src t := by
  intro fuel
  induction fuel with
  | zero =>
      intro s events h
      refine ⟨h.sound, ?_⟩
      intro v hv
      cases hv
  | succ fuel ih =>
      intro s events h
      rw [relayLoop]
      split
      · refine (relayTurn_synced h dstPath maxDstLen events).andThen ?_
        rintro left s events ⟨hsound, hsynced⟩
        cases left with
        | some err => exact sat_returns hsound hsound
        | none => exact ih events (hsynced rfl)
      · exact sat_returns h.sound h.sound

/-- A call after the loop changes nothing that was written. -/
theorem close_sound {src : List UInt8} {s : Relay} (h : Sound src s) (events : List Event) :
    (s.sys .close events).Sat (Sound src) fun _ t => Sound src t := by
  refine sys_sat h ?_ (fun _ ht => ht) .close events
  intro err
  cases err with
  | none => exact h
  | some e => exact h

/-! ## The fuel -/

/-- A call of `transfer` reads at least once. -/
theorem transfer_takes {k k' : Kernel} {events rest : List Event} {count : Nat}
    {v : Int × Option Int} (h : transfer none count 0 k events = ⟨.returns v, k', rest⟩) :
    rest.length < events.length := by
  rw [transfer_eq (by decide)] at h
  obtain ⟨w, hw, hp⟩ := andThen_returns h
  obtain ⟨avail, At, n, used, buf, -, hr⟩ := readPart_spec none count 0 k events
  obtain rfl : w = (↑buf.length, buf) :=
    Outcome.returns.inj (hw.symm.trans (hr.outcome.resolve_left (by simp [hw])).1)
  obtain ⟨writes, hwrites, -, -⟩ := passOn_value hp
  have hle := congrArg List.length hwrites
  rw [List.length_append] at hle
  have hlt : (readPart none count 0 k events).rest.length < events.length := by
    have hne := nbytes_ne_zero count
    simp only [readPart, nread] at hw ⊢
    generalize (if count = 0 ∨ count > trfbufLimit then trfbufLimit else count) = c at hne hw ⊢
    simp only [runLoop] at hw ⊢
    have hexit := nreadLoop_exit (s := ⟨k, [], none, 0, .again⟩) (fun k n _ => k.read n) 0 rfl
      (show 0 < c by omega)
    rcases hd : (nreadLoop (fun k n _ => k.read n) c 0).drive ⟨k, [], none, 0, .again⟩ events with
      ⟨r, s, rest⟩
    rw [hd] at hw
    cases r with
    | none => cases hw
    | some r => exact Loop.drive_takes hexit hd
  omega

/-- No more than `n` answers are left. -/
def Moment.Within {ρ : Type} (m : Moment ρ) (n : Nat) : Prop := m.rest.length ≤ n

theorem Moment.Within.andThen {ρ ρ' : Type} {m : Moment ρ}
    {f : ρ → Relay → List Event → Moment ρ'} {n : Nat} (h : m.Within n)
    (hf : ∀ v s events, events.length ≤ n → (f v s events).Within n) : (m.andThen f).Within n := by
  unfold Moment.andThen
  cases m.outcome with
  | waits => exact h
  | aborts => exact h
  | returns v => exact hf v m.state m.rest h

theorem sys_within (s : Relay) (c : Call) {events : List Event} {n : Nat} (h : events.length ≤ n) :
    (s.sys c events).Within n := by
  unfold Relay.sys
  split
  · rw [List.length_cons] at h
    split
    · exact Nat.le_of_succ_le h
    · exact h
  · exact h

theorem rollover_within (fpath : CStr) (s : Relay) (counter : Nat) {events : List Event} {n : Nat}
    (h : events.length ≤ n) : (rollover fpath s counter events).Within n := by
  unfold rollover
  split
  · exact h
  refine (sys_within s .rename h).andThen ?_
  intro err s events h
  split
  · exact h
  refine (sys_within _ .fsync h).andThen ?_
  intro err s events h
  split
  · exact h
  refine (sys_within s .close h).andThen ?_
  intro err s events h
  split
  · exact h
  refine (sys_within s .open_ h).andThen ?_
  intro err s events h
  split
  · exact h
  refine (sys_within _ .unlink h).andThen ?_
  intro err s events h
  split
  · exact h
  · exact h

theorem pause_within (s : Relay) {events : List Event} {n : Nat} (h : events.length ≤ n) :
    (pause s events).Within n := by
  refine (sys_within s .nanosleep h).andThen ?_
  intro err s events h
  exact h

theorem rewind_within (s : Relay) (nsent : Int) {events : List Event} {n : Nat}
    (h : events.length ≤ n) : (rewind s nsent events).Within n := by
  unfold rewind
  split
  · refine (sys_within s .lseek h).andThen ?_
    intro err s events h
    split
    · exact h
    · exact h
  · exact h

theorem relayTurn_takes {dstPath : CStr} {maxDstLen : Nat} {s : Relay} {events : List Event}
    {v : Option (Option Errno)} (h : (relayTurn dstPath maxDstLen s events).outcome = .returns v) :
    (relayTurn dstPath maxDstLen s events).rest.length < events.length := by
  unfold relayTurn at h ⊢
  rcases hr : transfer none (mtuDefault * 10) 0 s.kernel events with ⟨outcome, k, rest⟩
  rw [hr] at h
  cases outcome with
  | waits => cases h
  | aborts => cases h
  | returns w =>
      have hlt := transfer_takes hr
      have hrest : (s.io ⟨.returns w, k, rest⟩).Within rest.length := Nat.le_refl _
      refine Nat.lt_of_le_of_lt (hrest.andThen ?_) hlt
      intro v s events h
      dsimp only
      split
      · exact h
      refine (rewind_within s v.1 h).andThen ?_
      intro left s events h
      cases left with
      | some err => exact h
      | none =>
          dsimp only
          split
          · refine (rollover_within dstPath _ _ h).andThen ?_
            intro rc s events h
            split
            · exact h
            · exact pause_within _ h
          · exact pause_within _ h

/-- More turns than answers are not needed. -/
theorem relayLoop_fuel (dstPath : CStr) (maxDstLen : Nat) :
    ∀ (fuel : Nat) (s : Relay) (events : List Event), events.length < fuel →
      relayLoop dstPath maxDstLen (fuel + 1) s events
        = relayLoop dstPath maxDstLen fuel s events := by
  intro fuel
  induction fuel with
  | zero =>
      intro s events h
      cases h
  | succ fuel ih =>
      intro s events h
      rw [relayLoop, relayLoop]
      split
      · unfold Moment.andThen
        cases hout : (relayTurn dstPath maxDstLen s events).outcome with
        | waits => rfl
        | aborts => rfl
        | returns left =>
            cases left with
            | some err => rfl
            | none =>
                have hlt := relayTurn_takes hout
                exact ih _ _ (by omega)
      · rfl

/-! ## The stream of the relay -/

theorem start_synced (src : List UInt8) (errno : Option Errno) :
    Synced src (Relay.start src errno) :=
  ⟨rfl, Nat.zero_le _, 0, rfl⟩

/-- **The relay writes the source over and over.** Whatever the system
calls answered so far, the destination files hold, one after the other,
a prefix of the source repeated. -/
theorem relay_stream (src : List UInt8) (errno : Option Errno) (dstPath : CStr)
    (maxDstLen : Nat) (events : List Event) :
    ∃ n, ((cyclicFileRelay dstPath maxDstLen (Relay.start src errno) events).state.closed
        ++ [(cyclicFileRelay dstPath maxDstLen (Relay.start src errno) events).state.kernel.output]
        ).flatten
      <+: (List.replicate n src).flatten := by
  suffices hsat : (cyclicFileRelay dstPath maxDstLen (Relay.start src errno) events).Sat (Sound src)
      fun _ t => Sound src t from hsat.1
  refine ((start_synced src errno).sys .open_ events).andThen ?_
  intro err s events h
  split
  · exact sat_returns (h.perror "open [src]").sound (h.perror "open [src]").sound
  refine (h.sys .open_ events).andThen ?_
  intro err s events h
  split
  · refine (close_sound (h.perror "open [dst]").sound events).andThen ?_
    intro _ s events h
    exact sat_returns h h
  have hopen : Synced src { s with outOpen := true } := ⟨h.file, h.le, h.written⟩
  refine (relayLoop_sound dstPath maxDstLen _ events hopen).andThen ?_
  intro err s events h
  have hclose : (if s.outOpen then s.sys .close events else ⟨.returns none, s, events⟩).Sat
      (Sound src) fun _ t => Sound src t := by
    split
    · exact close_sound h events
    · exact sat_returns h h
  refine hclose.andThen ?_
  intro _ s events h
  refine (close_sound h events).andThen ?_
  intro _ s events h
  exact sat_returns h h

end Frelay

end MiscTools
