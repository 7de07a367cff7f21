import MiscTools.Frelay
import MiscTools.Runs

/-!
# One turn of a relay

A turn that goes on has lost nothing: `transfer` left no `errno`, so it
read what one chunk holds of the rest of the source and wrote all of it
(`transfer_clean`). But for `errno` and what went to `stderr` such a turn
is a function of the state (`Relay.turned`, with the size of a chunk and
what a full file does to the counter as parameters), which is what the
questions about sizes are asked of. `relayTurn_turned` is the connection
to the loop body, `relayLoop_eq` and `loopOf_run` the one to the loop.
-/

namespace MiscTools

namespace Fdio

/-! ## A transfer that leaves no error -/

/-- How many bytes a call asks for. -/
def chunkLimit (count : Nat) : Nat :=
  if count = 0 ∨ count > trfbufLimit then trfbufLimit else count

theorem chunkLimit_ne_zero (count : Nat) : chunkLimit count ≠ 0 := nbytes_ne_zero count

/-- How many bytes a call moves with `left` before the end of the file. -/
def chunkOf (count left : Nat) : Nat := min (chunkLimit count) left

theorem passOn_clean {flags : UInt32} {buf : List UInt8} {k k' : Kernel} {events rest : List Event}
    {v : Int × Option Int}
    (h : passOn none flags buf.length buf k events = ⟨.returns v, k', rest⟩)
    (herr : k'.errno = none) :
    k.errno = none ∧ v.1 = buf.length ∧ k'.file = k.file ∧ k'.pos = k.pos
      ∧ k'.output = k.output ++ buf := by
  by_cases hstop : (buf.length : Int) ≤ 0 ∨ k.errno ≠ none
  · rw [passOn_stop hstop] at h
    cases h
    have hnil : buf = [] := by
      refine List.length_eq_zero_iff.mp ?_
      have hle := hstop.resolve_right (not_not.mpr herr)
      omega
    subst hnil
    exact ⟨herr, rfl, rfl, rfl, (List.append_nil _).symm⟩
  · rw [not_or, not_not] at hstop
    obtain ⟨writes, sent, -, hw⟩ := nwrite_spec buf flags k events
    rw [passOn_write (by omega) hstop.2] at h
    rcases hw.outcome with hwaits | ⟨hret, hsent, -⟩ | ⟨hret, -, e, -, -, herrno⟩
    · simp only [Ret.andThen, hwaits] at h
      cases h
    · simp only [Ret.andThen, hret, if_pos] at h
      cases h
      refine ⟨hstop.2, rfl, hw.file, hw.pos, ?_⟩
      rw [hw.output, hsent, List.take_length]
    · simp only [Ret.andThen, hret, if_neg (show ¬(-1 : Int) = buf.length by omega),
        if_pos (show (-1 : Int) < buf.length by omega)] at h
      cases h
      have hnone : (nwrite buf buf.length flags k events).kernel.errno = none := herr
      rw [herrno] at hnone
      cases hnone

/-- **A transfer without an error** has moved a whole chunk, or what was
left of the file. -/
theorem transfer_clean {flags : UInt32} (hflags : flags &&& fdioSendfile = 0) {count : Nat}
    {k k' : Kernel} {events rest : List Event} {v : Int × Option Int}
    (h : transfer none count flags k events = ⟨.returns v, k', rest⟩) (herr : k'.errno = none) :
    v.1 = chunkOf count (k.file.length - k.pos) ∧ k'.file = k.file
      ∧ k'.pos = k.pos + chunkOf count (k.file.length - k.pos)
      ∧ k'.output
        = k.output ++ (k.file.drop k.pos).take (chunkOf count (k.file.length - k.pos)) := by
  rw [transfer_eq hflags] at h
  obtain ⟨w, hw, hp⟩ := andThen_returns h
  obtain ⟨used, buf, -, hr⟩ := nread_spec (chunkLimit count) flags k events
  rw [show readPart none count flags k events = nread (chunkLimit count) flags k events from rfl]
    at hw hp
  generalize nread (chunkLimit count) flags k events = r at hw hp hr
  obtain ⟨hret, hend⟩ := hr.outcome.resolve_left (by simp [hw])
  obtain rfl := Outcome.returns.inj (hw.symm.trans hret)
  obtain ⟨hnone, hv, hfile, hpos, hout⟩ := passOn_clean hp herr
  obtain ⟨o, hfile', hpos'⟩ := hr.at_
  have hle : buf.length ≤ k.file.length - k.pos := by
    rw [hr.eq_take, List.length_take, List.length_drop]
    exact Nat.min_le_right _ _
  have hlen : buf.length = chunkOf count (k.file.length - k.pos) := by
    have hcount := hr.le
    rw [chunkOf]
    rcases hend with ⟨hfull, -⟩ | ⟨e, -, -, herrno⟩
    · rw [List.length_drop] at hfull
      omega
    · rw [hnone] at herrno
      cases herrno
  refine ⟨hv.trans (congrArg Nat.cast hlen), hfile.trans hfile', ?_, ?_⟩
  · rw [hpos, ← hlen]
    exact hpos'
  · rw [hout, ← hlen, ← hr.eq_take]
    exact congrArg (· ++ buf) hr.output

/-! ## Answers without a hitch -/

theorem read_turn {n m : Nat} {s : Reading}
    (hfits : Kernel.Fits m (n - s.total) (s.kernel.file.length - s.kernel.pos)) :
    (nreadLoop (fun k n _ => k.read n) n 0).turn s (.read (.count m))
      = some (if m = 0 then { s with next := .eof }
          else { s with
            kernel := { s.kernel with pos := s.kernel.pos + m }
            buf := s.buf ++ (s.kernel.file.drop s.kernel.pos).take m
            offset := s.offset + m }) := by
  rw [← List.length_drop] at hfits
  simp only [nreadLoop, Kernel.read]
  rw [if_pos hfits]
  by_cases hm : m = 0
  · subst hm
    rfl
  · simp only [Option.bind_eq_bind, Option.bind_some]
    rw [if_neg (show ¬(m : Int) = -1 by omega), if_neg (show ¬(m : Int) = 0 by omega), if_neg hm]
    rfl

/-- The answers to the reads of one chunk. -/
def readAnswers (n c : Nat) : List Event :=
  if c = 0 then [.read (.count 0)]
  else if c = n then [.read (.count c)]
  else [.read (.count c), .read (.count 0)]

theorem read_ends {n : Nat} {k : Kernel} {buf : List UInt8} {o : Int} {next : Next}
    (h : next = .eof ∨ next = .again ∧ buf.length = n) (rest : List Event) :
    runLoop (nreadLoop (fun k n _ => k.read n) n 0) Reading.kernel ⟨k, buf, none, o, next⟩ rest
      = ⟨.returns (buf.length, buf), k, rest⟩ := by
  refine runLoop_exit (v := ((buf.length : Int), buf)) ?_ rest
  simp only [nreadLoop]
  rcases h with rfl | ⟨rfl, htotal⟩
  · rfl
  · exact (if_neg (by simp)).trans (if_pos (Or.inr (show ¬n > buf.length by omega)))

theorem nread_whole {n c : Nat} (k : Kernel) (hn : n ≠ 0)
    (hc : c = min n (k.file.length - k.pos)) (rest : List Event) :
    nread n 0 k (readAnswers n c ++ rest)
      = ⟨.returns (c, (k.file.drop k.pos).take c), { k with pos := k.pos + c }, rest⟩ := by
  have hgo := nreadLoop_exit (s := ⟨k, [], none, 0, .again⟩) (fun k n _ => k.read n) 0 rfl
    (show 0 < n by omega)
  have hturn := read_turn (n := n) (m := c) (s := ⟨k, [], none, 0, .again⟩)
    (show Kernel.Fits c (n - 0) (k.file.length - k.pos) from ⟨by omega, by omega, by omega⟩)
  have hbuf : ((k.file.drop k.pos).take c).length = c := by
    rw [List.length_take, List.length_drop]
    omega
  rw [readAnswers]
  by_cases h0 : c = 0
  · subst h0
    rw [if_pos rfl, nread, List.cons_append, runLoop_turn hgo hturn, if_pos rfl]
    exact read_ends (Or.inl rfl) rest
  have hnext : (nreadLoop (fun k n _ => k.read n) n 0).turn ⟨k, [], none, 0, .again⟩
      (.read (.count c))
      = some ⟨{ k with pos := k.pos + c }, (k.file.drop k.pos).take c, none, c, .again⟩ := by
    rw [hturn, if_neg h0]
    simp
  rw [if_neg h0]
  by_cases hfull : c = n
  · rw [if_pos hfull, nread, List.cons_append, runLoop_turn hgo hnext, List.nil_append,
      read_ends (Or.inr ⟨rfl, hbuf.trans hfull⟩), hbuf]
  · have hgo' := nreadLoop_exit
      (s := ⟨{ k with pos := k.pos + c }, (k.file.drop k.pos).take c, none, c, .again⟩)
      (fun k n _ => k.read n) 0 rfl (show ((k.file.drop k.pos).take c).length < n by omega)
    have heof := read_turn (n := n) (m := 0)
      (s := ⟨{ k with pos := k.pos + c }, (k.file.drop k.pos).take c, none, c, .again⟩)
      (show Kernel.Fits 0 _ (k.file.length - (k.pos + c)) from ⟨by omega, by omega, by omega⟩)
    rw [if_pos rfl] at heof
    rw [if_neg hfull, nread, List.cons_append, runLoop_turn hgo hnext, List.cons_append,
      runLoop_turn hgo' heof, List.nil_append, read_ends (Or.inl rfl), hbuf]

theorem nwrite_whole {buf : List UInt8} (hne : buf.length ≠ 0) (k : Kernel) (rest : List Event) :
    nwrite buf buf.length 0 k (.write (.count buf.length) :: rest)
      = ⟨.returns buf.length, { k with output := k.output ++ buf }, rest⟩ := by
  have hgo : (nwriteLoop buf buf.length 0).exit ⟨k, none, 0, 0, false⟩ = none := by
    refine if_neg ?_
    rw [not_or, Decidable.not_not]
    exact ⟨Bool.false_ne_true, Nat.pos_of_ne_zero hne⟩
  have hturn := nwrite_turn_count buf buf.length 0 ⟨k, none, 0, 0, false⟩ buf.length
  rw [if_pos (by simp; omega)] at hturn
  rw [nwrite, runLoop_turn hgo hturn]
  simp only [List.drop_zero, Nat.sub_zero, List.take_length, Nat.zero_add]
  rw [runLoop_exit (v := (buf.length : Int)) (k := { k with output := k.output ++ buf })]
  refine (if_pos (Or.inr (Nat.lt_irrefl _))).trans ?_
  rw [if_neg (show ¬(buf.length : Int) < 0 by omega)]
  rfl

/-- The answers to a transfer of one chunk. -/
def transferAnswers (n c : Nat) : List Event :=
  readAnswers n c ++ if c = 0 then [] else [.write (.count c)]

/-- A chunk that is read and written without a hitch. -/
theorem transfer_whole {count c : Nat} (k : Kernel)
    (hc : c = chunkOf count (k.file.length - k.pos)) (herr : k.errno = none) (rest : List Event) :
    transfer none count 0 k (transferAnswers (chunkLimit count) c ++ rest)
      = ⟨.returns (c, none),
          { k with pos := k.pos + c, output := k.output ++ (k.file.drop k.pos).take c }, rest⟩ := by
  rw [chunkOf] at hc
  have hread : readPart none count 0 k = nread (chunkLimit count) 0 k := rfl
  have hbuf : ((k.file.drop k.pos).take c).length = c := by
    rw [List.length_take, List.length_drop]
    omega
  rw [transfer_eq (by decide), hread, transferAnswers, List.append_assoc,
    nread_whole k (chunkLimit_ne_zero count) hc]
  show passOn none 0 c ((k.file.drop k.pos).take c) { k with pos := k.pos + c } _ = _
  by_cases h0 : c = 0
  · rw [if_pos h0, passOn_stop (Or.inl (by omega)), h0]
    simp
  · have hwrites : (if c = 0 then [] else [Event.write (.count c)]) ++ rest
        = .write (.count ((k.file.drop k.pos).take c).length) :: rest := by
      rw [if_neg h0, hbuf]
      rfl
    have hpass : passOn none 0 _ _ { k with pos := k.pos + c }
        ((if c = 0 then [] else [Event.write (.count c)]) ++ rest) = _ :=
      passOn_write (show ((k.file.drop k.pos).take c).length ≠ 0 by omega) herr
    rw [hwrites, nwrite_whole (by omega), hbuf] at hpass
    rw [hwrites, hbuf]
    exact hpass.trans (if_pos rfl)

end Fdio

namespace Frelay

open Fdio

/-! ## The turn as a function -/

namespace Relay

/-- The relay, but for `errno` and what went to `stderr`. -/
def quiet (s : Relay) : Relay :=
  { s with kernel := { s.kernel with errno := none, stderr := [] } }

/-- How many bytes the next turn moves. -/
def chunk (s : Relay) (count : Nat) : Nat := chunkOf count (s.kernel.file.length - s.kernel.pos)

/-- The bytes are moved. -/
def moved (s : Relay) (count : Nat) : Relay :=
  { s with
    kernel := { s.kernel with
      pos := s.kernel.pos + s.chunk count
      output := s.kernel.output ++ (s.kernel.file.drop s.kernel.pos).take (s.chunk count) } }

/-- They are counted, and if there were none the source is read from the
start. -/
def fed (s : Relay) (count : Nat) : Relay :=
  { s with
    kernel := { (s.moved count).kernel with
      pos := if s.chunk count = 0 then 0 else s.kernel.pos + s.chunk count }
    ntotal := s.ntotal + s.chunk count }

/-- The chunk is behind the bytes of the current file. -/
theorem fed_output_length (s : Relay) (count : Nat) :
    (s.fed count).kernel.output.length = s.kernel.output.length + s.chunk count := by
  show (s.kernel.output ++ (s.kernel.file.drop s.kernel.pos).take (s.chunk count)).length = _
  rw [List.length_append, List.length_take, List.length_drop, Relay.chunk, chunkOf]
  omega

/-- The destination is swapped for a new file. -/
def swapped (s : Relay) : Relay :=
  { s with
    closed := s.closed ++ [s.kernel.output], kernel := { s.kernel with output := [] } }

/-- What a turn of the relay does to it. -/
def turned (s : Relay) (maxDstLen : Nat) : Relay :=
  let t := s.fed (mtuDefault * 10)
  if t.ntotal + s.chunk (mtuDefault * 10) ≥ maxDstLen then
    { t.swapped with nrolls := s.nrolls + 1, ntotal := 0 }
  else t

@[simp] theorem quiet_report (s : Relay) (d : Diag) : (s.report d).quiet = s.quiet := rfl

@[simp] theorem quiet_perror (s : Relay) (msg : String) : (s.perror msg).quiet = s.quiet := rfl

theorem quiet_setErrno (s : Relay) (err : Option Errno) :
    Relay.quiet { s with kernel := s.kernel.setErrno err } = s.quiet := by
  cases err <;> rfl

theorem quiet_ext {s t : Relay} (h : s.quiet = t.quiet) :
    s.kernel.file = t.kernel.file ∧ s.kernel.pos = t.kernel.pos
      ∧ s.kernel.output = t.kernel.output ∧ s.closed = t.closed ∧ s.outOpen = t.outOpen
      ∧ s.ntotal = t.ntotal ∧ s.nrolls = t.nrolls := by
  simp only [quiet, Relay.mk.injEq, Kernel.mk.injEq, true_and, and_true] at h
  obtain ⟨⟨hfile, hpos, hout⟩, hclosed, hopen, htotal, hrolls⟩ := h
  exact ⟨hfile, hpos, hout, hclosed, hopen, htotal, hrolls⟩

end Relay

/-- Whatever state a function returns with looks like `t`, where the
result is one of `R`. -/
def Moment.Leaves {ρ : Type} (m : Moment ρ) (R : ρ → Prop) (t : Relay) : Prop :=
  m.Sat (fun _ => True) fun v s => R v → s.quiet = t.quiet

theorem leaves_returns {ρ : Type} {v : ρ} {s t : Relay} {events : List Event} {R : ρ → Prop}
    (h : R v → s.quiet = t.quiet) : Moment.Leaves ⟨.returns v, s, events⟩ R t :=
  sat_returns trivial h

theorem Moment.Leaves.congr {ρ : Type} {m : Moment ρ} {R : ρ → Prop} {s t : Relay}
    (h : m.Leaves R s) (hst : s.quiet = t.quiet) : m.Leaves R t :=
  ⟨trivial, fun v hv hR => (h.2 v hv hR).trans hst⟩

theorem sys_leaves (s : Relay) (c : Call) (events : List Event) :
    (s.sys c events).Leaves (fun _ => True) s := by
  have h : (s.sys c events).Sat (fun _ => True) fun _ t => t.quiet = s.quiet :=
    sys_sat (P := fun t => t.quiet = s.quiet) rfl (fun err => s.quiet_setErrno err)
      (fun _ _ => trivial) c events
  exact ⟨trivial, fun v hv _ => h.2 v hv⟩

/-- Go on from a state that looks like `s`. -/
theorem Moment.Leaves.andThen {ρ ρ' : Type} {m : Moment ρ} {R : ρ → Prop} {R' : ρ' → Prop}
    {s t : Relay} {f : ρ → Relay → List Event → Moment ρ'} (h : m.Leaves R s)
    (hf : ∀ v s' events, (R v → s'.quiet = s.quiet) → (f v s' events).Leaves R' t) :
    (m.andThen f).Leaves R' t :=
  Moment.Sat.andThen h fun v s' events hv => hf v s' events hv

theorem rollover_swapped (fpath : CStr) (s : Relay) (counter : Nat) (events : List Event) :
    (rollover fpath s counter events).Leaves (fun rc => rc ≠ -1) s.swapped := by
  unfold rollover
  split
  · exact ⟨trivial, fun v hv => by cases hv⟩
  have hfails : ∀ {s : Relay} {events : List Event} {t : Relay},
      Moment.Leaves ⟨.returns (-1), s, events⟩ (fun rc : Int => rc ≠ -1) t :=
    leaves_returns fun h => absurd rfl h
  refine (sys_leaves s .rename events).andThen fun err s₁ events h₁ => ?_
  split
  · exact hfails
  refine (sys_leaves _ .fsync events).andThen fun err s₂ events h₂ => ?_
  split
  · exact hfails
  refine (sys_leaves s₂ .close events).andThen fun err s₃ events h₃ => ?_
  split
  · exact hfails
  refine (sys_leaves s₃ .open_ events).andThen fun err s₄ events h₄ => ?_
  split
  · exact hfails
  refine (sys_leaves _ .unlink events).andThen fun err s₅ events h₅ => ?_
  split
  · exact hfails
  refine leaves_returns fun _ => (h₅ trivial).trans ?_
  have hsame : s₄.quiet = s.quiet :=
    ((h₄ trivial).trans (h₃ trivial)).trans ((h₂ trivial).trans (h₁ trivial))
  exact congrArg Relay.swapped hsame

theorem pause_leaves (s : Relay) (events : List Event) : (pause s events).Leaves (· = none) s := by
  refine (sys_leaves s .nanosleep events).andThen fun err s₁ events h₁ => ?_
  refine leaves_returns fun _ => ?_
  split
  · exact h₁ trivial
  · exact h₁ trivial

theorem transfer_moved (s : Relay) (count : Nat) (events : List Event) :
    (s.io (transfer none count 0 s.kernel events)).Sat (fun _ => True) fun v t =>
      t.kernel.errno = none → v.1 = s.chunk count ∧ t.quiet = (s.moved count).quiet := by
  refine ⟨trivial, fun v hv herr => ?_⟩
  rcases hr : transfer none count 0 s.kernel events with ⟨outcome, k, rest⟩
  rw [hr] at hv herr
  obtain rfl : outcome = .returns v := hv
  obtain ⟨hval, hfile, hpos, hout⟩ := transfer_clean (by decide) hr herr
  refine ⟨hval, ?_⟩
  obtain ⟨errno, file, pos, output, stderr⟩ := k
  obtain rfl : file = s.kernel.file := hfile
  obtain rfl : pos = s.kernel.pos + _ := hpos
  obtain rfl : output = s.kernel.output ++ _ := hout
  rfl

/-- The source is read from the start where nothing was moved. -/
theorem rewind_fed {s s₁ : Relay} {count : Nat} (h : s₁.quiet = (s.moved count).quiet)
    (events : List Event) :
    (rewind s₁ (s.chunk count) events).Leaves (· = none)
      { s.fed count with ntotal := s.ntotal } := by
  unfold rewind
  split
  · rename_i hzero
    refine (sys_leaves s₁ .lseek events).andThen fun err s₂ events h₂ => ?_
    split
    · exact leaves_returns (by simp)
    refine leaves_returns fun _ => ?_
    have hsame := (h₂ trivial).trans h
    have hstart : s.fed count
        = { s.moved count with
            kernel := { (s.moved count).kernel with pos := 0 }
            ntotal := s.ntotal + s.chunk count } := by
      rw [Relay.fed, if_pos (Int.natCast_eq_zero.mp hzero)]
      rfl
    rw [hstart]
    exact congrArg (fun r : Relay => { r with kernel := { r.kernel with pos := 0 } }) hsame
  · rename_i hsome
    refine leaves_returns fun _ => h.trans ?_
    rw [Relay.fed, if_neg (fun h0 => hsome (congrArg Nat.cast h0))]
    rfl

/-- A turn as far as two relays share it: what was moved is counted, and
`full` is what they do about a full file. -/
def feed (count : Nat) (full : Int → Relay → List Event → Moment (Option (Option Errno)))
    (s : Relay) (events : List Event) : Moment (Option (Option Errno)) :=
  (s.io (transfer none count 0 s.kernel events)).andThen fun v s events =>
  let nsent := v.1
  if s.kernel.errno ≠ none then ⟨.returns (some s.kernel.errno), s.perror "transfer", events⟩
  else
    (rewind s nsent events).andThen fun left s events =>
    match left with
    | some err => ⟨.returns (some err), s, events⟩
    | none => full nsent { s with ntotal := s.ntotal + nsent } events

theorem feed_leaves {s t : Relay} {count : Nat}
    {full : Int → Relay → List Event → Moment (Option (Option Errno))}
    (hfull : ∀ {s₁ : Relay} (events : List Event), s₁.quiet = (s.fed count).quiet →
      (full (s.chunk count) s₁ events).Leaves (· = none) t) (events : List Event) :
    (feed count full s events).Leaves (· = none) t := by
  refine Moment.Sat.andThen (transfer_moved s count events) ?_
  rintro ⟨nsent, o⟩ s₁ events h₁
  dsimp only
  split
  · exact leaves_returns (by simp)
  rename_i herr
  obtain ⟨rfl, hmoved⟩ := h₁ (not_not.mp herr)
  refine (rewind_fed hmoved events).andThen fun left s₂ events h₂ => ?_
  cases left with
  | some err => exact leaves_returns (by simp)
  | none =>
      refine hfull events ?_
      exact congrArg (fun r : Relay => { r with ntotal := r.ntotal + s.chunk count }) (h₂ rfl)

/-- What `frelay.c` does about a full file. -/
def swapIfFull (dstPath : CStr) (maxDstLen : Nat) (nsent : Int) (s : Relay) (events : List Event) :
    Moment (Option (Option Errno)) :=
  if s.ntotal + nsent ≥ maxDstLen then
    let s := { s with nrolls := s.nrolls + 1 }
    (rollover dstPath s s.nrolls events).andThen fun rc s events =>
    if rc = -1 then ⟨.returns (some none), s, events⟩
    else pause { s with ntotal := 0 } events
  else pause s events

theorem relayTurn_feed (dstPath : CStr) (maxDstLen : Nat) (s : Relay) (events : List Event) :
    relayTurn dstPath maxDstLen s events
      = feed (mtuDefault * 10) (swapIfFull dstPath maxDstLen) s events := rfl

theorem relayTurn_turned (dstPath : CStr) (maxDstLen : Nat) (s : Relay) (events : List Event) :
    (relayTurn dstPath maxDstLen s events).Leaves (· = none) (s.turned maxDstLen) := by
  rw [relayTurn_feed]
  refine feed_leaves (fun {s₁} events hfed => ?_) events
  obtain ⟨-, -, -, -, -, htotal, hrolls⟩ := Relay.quiet_ext hfed
  rw [Relay.turned, ← htotal, swapIfFull]
  split
  · refine (rollover_swapped dstPath _ _ events).andThen fun rc s₃ events h₃ => ?_
    split
    · exact leaves_returns (by simp)
    rename_i hrc
    have hswapped : s₃.quiet
        = Relay.quiet { (s.fed (mtuDefault * 10)).swapped with nrolls := s.nrolls + 1 } := by
      refine (h₃ hrc).trans ?_
      rw [hrolls]
      exact congrArg (fun r : Relay => { r.swapped with nrolls := s.nrolls + 1 }) hfed
    exact (pause_leaves _ events).congr
      (congrArg (fun r : Relay => { r with ntotal := 0 }) hswapped)
  · exact (pause_leaves _ events).congr hfed

/-! ## Turns as steps -/

/-- A turn that goes on, as a step: the relay, and the answers that are
left. -/
def turnStep (turn : Relay → List Event → Moment (Option (Option Errno))) :
    Relay × List Event → Unit → Option (Relay × List Event)
  | (s, events), _ =>
      if s.outOpen then
        match turn s events with
        | ⟨.returns none, t, rest⟩ => some (t, rest)
        | _ => none
      else none

theorem turnStep_some {turn : Relay → List Event → Moment (Option (Option Errno))}
    {p p' : Relay × List Event} {l : Unit} (h : turnStep turn p l = some p') :
    p.1.outOpen = true ∧ turn p.1 p.2 = ⟨.returns none, p'.1, p'.2⟩ := by
  obtain ⟨s, events⟩ := p
  simp only [turnStep] at h
  split at h
  · rename_i hopen
    split at h
    · rename_i t' rest hret
      cases h
      exact ⟨hopen, hret⟩
    · cases h
  · cases h

theorem turnStep_leaves {turn : Relay → List Event → Moment (Option (Option Errno))}
    {p p' : Relay × List Event} {l : Unit} {t : Relay}
    (hturn : (turn p.1 p.2).Leaves (· = none) t) (h : turnStep turn p l = some p') :
    p'.1.quiet = t.quiet := by
  obtain ⟨-, hret⟩ := turnStep_some h
  have hleaves := hturn.2 none (congrArg Moment.outcome hret) rfl
  rwa [hret] at hleaves

/-- The loop around a turn, for as many turns as `fuel` says. -/
def loopOf (turn : Relay → List Event → Moment (Option (Option Errno))) :
    Nat → Relay → List Event → Moment (Option Errno)
  | 0, s, events => ⟨.waits, s, events⟩
  | fuel + 1, s, events =>
      if s.outOpen then
        (turn s events).andThen fun left s events =>
        match left with
        | some err => ⟨.returns err, s, events⟩
        | none => loopOf turn fuel s events
      else ⟨.returns none, s, events⟩

theorem relayLoop_eq (dstPath : CStr) (maxDstLen fuel : Nat) :
    relayLoop dstPath maxDstLen fuel = loopOf (relayTurn dstPath maxDstLen) fuel := by
  induction fuel with
  | zero => rfl
  | succ fuel ih =>
      funext s events
      rw [relayLoop, ih]
      rfl

/-- The turns of a run are those of the loop. -/
theorem loopOf_run {turn : Relay → List Event → Moment (Option (Option Errno))} (fuel : Nat) :
    ∀ {turns : List Unit} {p p' : Relay × List Event},
      Runs.run (turnStep turn) p turns = some p' →
      loopOf turn (turns.length + fuel) p.1 p.2 = loopOf turn fuel p'.1 p'.2 := by
  intro turns
  induction turns with
  | nil =>
      intro p p' h
      cases h
      rw [List.length_nil, Nat.zero_add]
  | cons l turns ih =>
      intro p p' h
      obtain ⟨p₁, hstep, hrest⟩ := Runs.run_cons_eq_some.mp h
      obtain ⟨hopen, hret⟩ := turnStep_some hstep
      rw [List.length_cons, Nat.add_right_comm, loopOf, if_pos hopen, hret]
      exact ih hrest

/-! ## A turn without a hitch -/

/-- A call that succeeds. -/
def done (c : Call) : Event := .call c none

/-- The answers to a turn that moves `c` bytes and then makes the calls
`swap`. -/
def turnAnswers (count c : Nat) (swap : List Call) : List Event :=
  transferAnswers (chunkLimit count) c ++ ((if c = 0 then [done .lseek] else [])
    ++ (swap.map done ++ [done .nanosleep]))

theorem sys_done (s : Relay) (c : Call) (events : List Event) :
    s.sys c (done c :: events) = ⟨.returns none, s, events⟩ := by
  simp only [done, Relay.sys, if_pos, Kernel.setErrno]

theorem Moment.returns_andThen {ρ ρ' : Type} (v : ρ) (s : Relay) (rest : List Event)
    (f : ρ → Relay → List Event → Moment ρ') :
    (⟨.returns v, s, rest⟩ : Moment ρ).andThen f = f v s rest := rfl

theorem rewind_whole (s : Relay) (c : Nat) (rest : List Event) :
    ∃ t, rewind s c ((if c = 0 then [done .lseek] else []) ++ rest) = ⟨.returns none, t, rest⟩
      ∧ t.kernel.errno = s.kernel.errno ∧ t.ntotal = s.ntotal ∧ t.nrolls = s.nrolls := by
  by_cases h0 : c = 0
  · rw [if_pos h0, rewind, if_pos (Int.natCast_eq_zero.mpr h0), List.singleton_append, sys_done]
    exact ⟨_, rfl, rfl, rfl, rfl⟩
  · rw [if_neg h0, rewind, if_neg (fun h => h0 (Int.natCast_eq_zero.mp h))]
    exact ⟨s, rfl, rfl, rfl, rfl⟩

theorem pause_whole (s : Relay) (rest : List Event) :
    pause s (done .nanosleep :: rest) = ⟨.returns none, s, rest⟩ := by
  rw [pause, sys_done]
  rfl

/-- The calls of `rollover`. -/
def swapCalls : List Call := [.rename, .fsync, .close, .open_, .unlink]

theorem rollover_whole {fpath : CStr} {counter : Nat} (s : Relay) (hcounter : counter ≠ 0)
    (hpath : newpathLen fpath counter < pathMax) (rest : List Event) :
    ∃ t, rollover fpath s counter (swapCalls.map done ++ rest) = ⟨.returns 0, t, rest⟩
      ∧ t.kernel.errno = s.kernel.errno := by
  rw [rollover, if_neg (by omega)]
  exact ⟨_, rfl, rfl⟩

/-- Without an error the chunk is counted and the rest of the turn goes
on with the answers that are left. -/
theorem feed_whole {s : Relay} {count : Nat}
    {full : Int → Relay → List Event → Moment (Option (Option Errno))}
    (herr : s.kernel.errno = none) (swap : List Call) (rest : List Event) :
    ∃ t, feed count full s (turnAnswers count (s.chunk count) swap ++ rest)
        = full (s.chunk count) t (swap.map done ++ done .nanosleep :: rest)
      ∧ t.kernel.errno = none ∧ t.ntotal = (s.fed count).ntotal ∧ t.nrolls = s.nrolls := by
  have hchunk : s.chunk count = chunkOf count (s.kernel.file.length - s.kernel.pos) := rfl
  simp only [feed, turnAnswers, List.append_assoc]
  rw [transfer_whole s.kernel hchunk herr, Relay.io, Moment.returns_andThen]
  have hgo : ¬s.kernel.errno ≠ none := not_not.mpr herr
  rw [if_neg hgo]
  obtain ⟨t, hrewind, herr', htotal, hrolls⟩ := rewind_whole (s.moved count) (s.chunk count)
    (swap.map done ++ ([done .nanosleep] ++ rest))
  refine ⟨{ t with ntotal := t.ntotal + s.chunk count }, ?_, herr'.trans herr,
    congrArg (· + _) htotal, hrolls⟩
  exact congrArg (fun m : Moment (Option (Option Errno)) => m.andThen _) hrewind

/-- From every state without an error a turn can go on. -/
theorem relayTurn_whole {s : Relay} (dstPath : CStr) (maxDstLen : Nat)
    (herr : s.kernel.errno = none) (hpath : newpathLen dstPath (s.nrolls + 1) < pathMax)
    (rest : List Event) :
    ∃ t, relayTurn dstPath maxDstLen s
        (turnAnswers (mtuDefault * 10) (s.chunk (mtuDefault * 10))
          (if (s.fed (mtuDefault * 10)).ntotal + s.chunk (mtuDefault * 10) ≥ maxDstLen then
            swapCalls else []) ++ rest)
        = ⟨.returns none, t, rest⟩ ∧ t.kernel.errno = none := by
  obtain ⟨t, hfeed, herr', htotal, hrolls⟩ :=
    @feed_whole s (mtuDefault * 10) (swapIfFull dstPath maxDstLen) herr
      (if (s.fed (mtuDefault * 10)).ntotal + s.chunk (mtuDefault * 10) ≥ maxDstLen then
        swapCalls else []) rest
  rw [relayTurn_feed, hfeed, swapIfFull, ← htotal]
  by_cases hroll : t.ntotal + s.chunk (mtuDefault * 10) ≥ maxDstLen
  · rw [if_pos hroll, if_pos hroll]
    obtain ⟨t₂, hswap, herr₂⟩ := rollover_whole { t with nrolls := t.nrolls + 1 }
      (Nat.succ_ne_zero t.nrolls) (hrolls ▸ hpath) (done .nanosleep :: rest)
    dsimp only
    rw [hswap, Moment.returns_andThen]
    exact ⟨{ t₂ with ntotal := 0 }, pause_whole _ rest, herr₂.trans herr'⟩
  · rw [if_neg hroll, if_neg hroll]
    exact ⟨t, pause_whole t rest, herr'⟩

/-- Both files were opened. -/
def Relay.opened (src : List UInt8) (errno : Option Errno) : Relay :=
  { Relay.start src errno with outOpen := true }

/-- The path `d`. -/
def dst : CStr := ⟨[100], by decide⟩

theorem newpathLen_dst : newpathLen dst 1 < pathMax := by decide

end Frelay

end MiscTools
