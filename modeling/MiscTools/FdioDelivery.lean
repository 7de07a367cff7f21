import MiscTools.FdioTransfer

/-!
# What nwrite reports

A caller of `nwrite` learns from the result how much of its buffer is
gone: as many bytes as it says, or none if it is `-1` (`Reports`). The
loop counts them in `total`, but after a failed write it returns what
the write returned. So the report is right unless a write fails for good
when a part of the buffer, but not all of it, was accepted
(`nwrite_reports_iff`).
-/

namespace MiscTools

namespace Fdio

/-! ## Answers to write -/

/-- The bytes an answer accepts. -/
def taken : Event → Nat
  | .write (.count n) => n
  | _ => 0

/-- The bytes that were accepted. -/
def accepted : List Event → Nat
  | [] => 0
  | ev :: events => taken ev + accepted events

/-- An answer the loop goes on after: some bytes, or an interruption. -/
def GoesOn (ev : Event) : Prop :=
  ev = .write (.fail .EINTR) ∨ ∃ n, 1 ≤ n ∧ ev = .write (.count n)

/-- With `total` bytes of `count` accepted before these answers, a write
fails for good when some bytes have been accepted and some are left. -/
def FailsPartway (total count : Nat) (events : List Event) : Prop :=
  ∃ before e after, events = before ++ .write (.fail e) :: after ∧ e ≠ .EINTR
    ∧ (∀ ev ∈ before, GoesOn ev) ∧ 0 < total + accepted before
    ∧ total + accepted before < count

theorem not_failsPartway_nil (total count : Nat) : ¬FailsPartway total count [] := by
  rintro ⟨before, e, after, hsplit, -⟩
  cases before <;> cases hsplit

theorem FailsPartway.lt {total count : Nat} {events : List Event}
    (h : FailsPartway total count events) : total < count := by
  obtain ⟨before, e, after, -, -, -, -, hlt⟩ := h
  omega

theorem goesOn_fail {e : Errno} : GoesOn (.write (.fail e)) ↔ e = .EINTR := by
  simp [GoesOn]

theorem failsPartway_goesOn {ev : Event} (h : GoesOn ev) (total count : Nat)
    (events : List Event) :
    FailsPartway total count (ev :: events) ↔ FailsPartway (total + taken ev) count events := by
  constructor
  · rintro ⟨before, e, after, hsplit, he, hgo, hpos, hlt⟩
    cases before with
    | nil =>
        cases hsplit
        exact absurd (goesOn_fail.mp h) he
    | cons ev' before =>
        cases hsplit
        rw [accepted] at hpos hlt
        exact ⟨before, e, after, rfl, he, fun x hx => hgo x (List.mem_cons_of_mem _ hx),
          by omega, by omega⟩
  · rintro ⟨before, e, after, rfl, he, hgo, hpos, hlt⟩
    refine ⟨ev :: before, e, after, rfl, he, List.forall_mem_cons.mpr ⟨h, hgo⟩, ?_, ?_⟩
    · rw [accepted]
      omega
    · rw [accepted]
      omega

theorem failsPartway_ends {ev : Event} (h : ¬GoesOn ev) (total count : Nat)
    (events : List Event) :
    FailsPartway total count (ev :: events)
      ↔ (∃ e, ev = .write (.fail e)) ∧ 0 < total ∧ total < count := by
  constructor
  · rintro ⟨before, e, after, hsplit, -, hgo, hpos, hlt⟩
    cases before with
    | nil =>
        cases hsplit
        exact ⟨⟨e, rfl⟩, hpos, hlt⟩
    | cons ev' before =>
        cases hsplit
        exact absurd (hgo _ (List.mem_cons_self ..)) h
  · rintro ⟨⟨e, rfl⟩, hpos, hlt⟩
    exact ⟨[], e, events, rfl, mt goesOn_fail.mpr h, by simp, hpos, hlt⟩

/-! ## The loop -/

/-- What the result of a call says about the bytes: as many as it is, or
none. -/
def Reports (buf : List UInt8) (k : Kernel) (r : Ret Int) : Prop :=
  ∀ v, r.outcome = .returns v →
    (0 ≤ v → v.toNat ≤ buf.length ∧ r.kernel.output = k.output ++ buf.take v.toNat)
      ∧ (v = -1 → r.kernel.output = k.output)

theorem reports_of_waits {buf : List UInt8} {k k' : Kernel} {events : List Event} :
    Reports buf k ⟨.waits, k', events⟩ := by
  intro v h
  cases h

/-- A loop that has not failed, and that began with kernel `k`. -/
structure Sending (buf : List UInt8) (count : Nat) (k : Kernel) (s : Writing) : Prop where
  broken : s.broken = false
  le : s.total ≤ count
  output : s.kernel.output = k.output ++ buf.take s.total
  nwr : s.nwr < 0 → s.total < count

section

variable {buf : List UInt8} {count : Nat} {flags : UInt32} {k : Kernel} {s : Writing}

/-- With nothing left the whole count is returned. -/
theorem Sending.ends (h : Sending buf count k s) (hall : ¬s.total < count)
    (events : List Event) :
    (runLoop (nwriteLoop buf count flags) Writing.kernel s events).outcome = .returns (count : Int)
      ∧ (runLoop (nwriteLoop buf count flags) Writing.kernel s events).kernel.output
        = k.output ++ buf.take count := by
  have hnwr : ¬s.nwr < 0 := fun hneg => hall (h.nwr hneg)
  have hexit : (nwriteLoop buf count flags).exit s
      = some ((s.total : Int), s.kernel.setErrno s.err) := by
    simp only [nwriteLoop]
    rw [if_pos (Or.inr hall), if_neg hnwr]
  obtain rfl : s.total = count := Nat.le_antisymm h.le (Nat.not_lt.mp hall)
  rw [runLoop_exit hexit, ← h.output]
  refine ⟨rfl, ?_⟩
  cases s.err <;> rfl

/-- And reported. -/
theorem Sending.done (h : Sending buf count k s) (hcount : count ≤ buf.length)
    (hall : ¬s.total < count) (events : List Event) :
    Reports buf k (runLoop (nwriteLoop buf count flags) Writing.kernel s events) := by
  obtain ⟨hret, hout⟩ := h.ends hall events
  intro v hv
  obtain rfl : (count : Int) = v := Outcome.returns.inj (hret.symm.trans hv)
  exact ⟨fun _ => ⟨hcount, hout⟩, fun hneg => by omega⟩

/-- After a write that failed for good the report is right if nothing
was accepted. -/
theorem reports_broken (hle : s.total < count) (hcount : count ≤ buf.length)
    (hbroken : s.broken = true) (hnwr : s.nwr = -1)
    (hout : s.kernel.output = k.output ++ buf.take s.total) (events : List Event) :
    Reports buf k (runLoop (nwriteLoop buf count flags) Writing.kernel s events)
      ↔ s.total = 0 := by
  have hexit : (nwriteLoop buf count flags).exit s = some (-1, s.kernel.setErrno s.err) := by
    simp only [nwriteLoop]
    rw [if_pos (Or.inl hbroken), hnwr]
    rfl
  have hout' : (s.kernel.setErrno s.err).output = k.output ++ buf.take s.total := by
    rw [← hout]
    cases s.err <;> rfl
  rw [runLoop_exit hexit]
  constructor
  · intro h
    have hnone := (h (-1) rfl).2 rfl
    rw [hout'] at hnone
    have hlen := congrArg List.length hnone
    rw [List.length_append, List.length_take] at hlen
    omega
  · intro hzero v hv
    cases hv
    refine ⟨fun hneg => by omega, fun _ => ?_⟩
    rw [hout', hzero, List.take_zero, List.append_nil]

theorem Sending.turn_count (h : Sending buf count k s) {n : Nat} (hn : 1 ≤ n ∧ n ≤ count - s.total)
    (hcount : count ≤ buf.length) :
    ∃ s', (nwriteLoop buf count flags).turn s (.write (.count n)) = some s'
      ∧ s'.total = s.total + n ∧ Sending buf count k s' := by
  have hleft : n ≤ ((buf.drop s.total).take (count - s.total)).length := by
    rw [List.length_take, List.length_drop]
    omega
  refine ⟨_, (nwrite_turn_count buf count flags s n).trans (if_pos ⟨hn.1, hleft⟩), rfl,
    h.broken, ?_, ?_, ?_⟩
  · show s.total + n ≤ count
    omega
  · show s.kernel.output ++ _ = _
    rw [h.output, List.append_assoc, List.take_take, Nat.min_eq_left hn.2, ← List.take_add]
  · intro hneg
    exact absurd hneg (by show ¬(n : Int) < 0; omega)

/-- A write fails: the loop goes on after `EINTR` only. -/
theorem Sending.turn_fail (h : Sending buf count k s) (hlt : s.total < count) (e : Errno) :
    ∃ s', (nwriteLoop buf count flags).turn s (.write (.fail e)) = some s'
      ∧ s'.total = s.total ∧ s'.kernel.output = k.output ++ buf.take s'.total
      ∧ (e = .EINTR → Sending buf count k s')
      ∧ (e ≠ .EINTR → s'.broken = true ∧ s'.nwr = -1) := by
  obtain ⟨k', hk', hturn⟩ := nwrite_turn_fail buf count flags s e
  have hout : k'.output = k.output ++ buf.take s.total :=
    (Kernel.mute_with hk').2.2.2.trans h.output
  refine ⟨_, hturn, rfl, hout, ?_, ?_⟩
  · rintro rfl
    refine ⟨?_, h.le, hout, fun _ => hlt⟩
    rw [kept_eintr, h.broken]
    rfl
  · intro he
    refine ⟨?_, rfl⟩
    rw [kept_of_ne he, Option.isSome_some, Bool.or_true]

/-- No write is answered with nothing, or with more than is left. -/
theorem nwrite_turn_none {l : Event} (hfail : ∀ e, l ≠ .write (.fail e))
    (hcount : ∀ n, l = .write (.count n) → ¬(1 ≤ n ∧ n ≤ count - s.total)) :
    (nwriteLoop buf count flags).turn s l = none := by
  cases l with
  | write a =>
      cases a with
      | count n =>
          rw [nwrite_turn_count, List.length_take]
          refine if_neg fun hn => hcount n rfl ⟨hn.1, ?_⟩
          exact Nat.le_trans hn.2 (Nat.min_le_left _ _)
      | fail e => exact absurd rfl (hfail e)
  | read a => rfl
  | sendfile a => rfl
  | call c err => rfl

/-- **One call, from any turn on.** -/
theorem Sending.reports_iff (hcount : count ≤ buf.length) :
    ∀ (events : List Event) {s : Writing}, Sending buf count k s →
      (Reports buf k (runLoop (nwriteLoop buf count flags) Writing.kernel s events)
        ↔ ¬FailsPartway s.total count events) := by
  intro events
  induction events with
  | nil =>
      intro s h
      refine iff_of_true ?_ (not_failsPartway_nil _ _)
      by_cases hlt : s.total < count
      · rw [runLoop_nil (by simp [nwriteLoop, h.broken, hlt])]
        exact reports_of_waits
      · exact h.done hcount hlt []
  | cons l ls ih =>
      intro s h
      by_cases hlt : s.total < count
      swap
      · exact iff_of_true (h.done hcount hlt _) fun hf => hlt hf.lt
      have hexit : (nwriteLoop buf count flags).exit s = none := by
        simp [nwriteLoop, h.broken, hlt]
      by_cases hgo : GoesOn l
      · rw [failsPartway_goesOn hgo]
        rcases hgo with rfl | ⟨n, hn, rfl⟩
        · obtain ⟨s', hturn, htotal, -, hnext, -⟩ := h.turn_fail hlt .EINTR
          rw [runLoop_turn hexit hturn, ih (hnext rfl), htotal]
          rfl
        · by_cases hfit : n ≤ count - s.total
          · obtain ⟨s', hturn, htotal, hnext⟩ := h.turn_count ⟨hn, hfit⟩ hcount
            rw [runLoop_turn hexit hturn, ih hnext, htotal]
            rfl
          · have hstuck : (nwriteLoop buf count flags).turn s (.write (.count n)) = none := by
              refine nwrite_turn_none (by simp) ?_
              rintro m hm ⟨-, hle⟩
              cases hm
              exact hfit hle
            rw [runLoop_stuck hexit hstuck]
            refine iff_of_true reports_of_waits fun hf => hfit ?_
            have hlt' : s.total + n < count := hf.lt
            omega
      · rw [failsPartway_ends hgo]
        by_cases hfail : ∃ e, l = .write (.fail e)
        · obtain ⟨e, rfl⟩ := hfail
          obtain ⟨s', hturn, htotal, hout, -, hbroken⟩ := h.turn_fail hlt e
          obtain ⟨hbr, hnwr⟩ := hbroken (mt goesOn_fail.mpr hgo)
          rw [runLoop_turn hexit hturn, reports_broken (htotal ▸ hlt) hcount hbr hnwr hout, htotal]
          refine ⟨fun hzero hf => ?_, fun hf => ?_⟩
          · have hpos := hf.2.1
            omega
          · exact Nat.eq_zero_of_not_pos fun hpos => hf ⟨⟨e, rfl⟩, hpos, hlt⟩
        · have hstuck : (nwriteLoop buf count flags).turn s l = none := by
            refine nwrite_turn_none (fun e he => hfail ⟨e, he⟩) ?_
            rintro n rfl ⟨hn, -⟩
            exact hgo (Or.inr ⟨n, hn, rfl⟩)
          rw [runLoop_stuck hexit hstuck]
          exact iff_of_true reports_of_waits fun hf => hfail hf.1

/-- Writes that accept what is left, with interruptions between them, end
the loop. -/
theorem Sending.returns (hcount : count ≤ buf.length) (rest : List Event) :
    ∀ {events : List Event} {s : Writing}, Sending buf count k s → (∀ ev ∈ events, GoesOn ev) →
      s.total + accepted events = count →
      (runLoop (nwriteLoop buf count flags) Writing.kernel s (events ++ rest)).outcome
          = .returns (count : Int)
        ∧ (runLoop (nwriteLoop buf count flags) Writing.kernel s (events ++ rest)).kernel.output
          = k.output ++ buf.take count := by
  intro events
  induction events with
  | nil =>
      intro s h _ hall
      exact h.ends (Nat.not_lt.mpr (Nat.le_of_eq hall.symm)) rest
  | cons l ls ih =>
      intro s h hgo hall
      obtain ⟨hl, hls⟩ := List.forall_mem_cons.mp hgo
      rw [accepted] at hall
      by_cases hlt : s.total < count
      swap
      · exact h.ends hlt _
      have hexit : (nwriteLoop buf count flags).exit s = none := by
        simp [nwriteLoop, h.broken, hlt]
      rcases hl with rfl | ⟨n, hn, rfl⟩
      · obtain ⟨s', hturn, htotal, -, hnext, -⟩ := h.turn_fail hlt .EINTR
        rw [List.cons_append, runLoop_turn hexit hturn]
        refine ih (hnext rfl) hls ?_
        rw [htotal]
        simpa [taken] using hall
      · rw [taken] at hall
        obtain ⟨s', hturn, htotal, hnext⟩ := h.turn_count ⟨hn, by omega⟩ hcount
        rw [List.cons_append, runLoop_turn hexit hturn]
        exact ih hnext hls (by omega)

/-- Where a call of `nwrite` starts. -/
theorem sending_start (buf : List UInt8) (count : Nat) (k : Kernel) :
    Sending buf count k ⟨k, none, 0, 0, false⟩ := by
  refine ⟨rfl, Nat.zero_le _, by rw [List.take_zero, List.append_nil], ?_⟩
  intro hneg
  exact absurd hneg (Int.lt_irrefl 0)

end

/-- A call returns once the writes have accepted all there is. -/
theorem nwrite_returns (buf : List UInt8) {count : Nat} (hcount : count ≤ buf.length)
    (flags : UInt32) (k : Kernel) {events : List Event} (hgo : ∀ ev ∈ events, GoesOn ev)
    (hall : accepted events = count) (rest : List Event) :
    (nwrite buf count flags k (events ++ rest)).outcome = .returns (count : Int)
      ∧ (nwrite buf count flags k (events ++ rest)).kernel.output = k.output ++ buf.take count :=
  Sending.returns hcount rest (sending_start buf count k) hgo ((Nat.zero_add _).trans hall)

/-- **nwrite reports what it delivered, if it does not fail partway.**
For any buffer, count, flags and answers. -/
theorem nwrite_reports_iff (buf : List UInt8) {count : Nat} (hcount : count ≤ buf.length)
    (flags : UInt32) (k : Kernel) (events : List Event) :
    Reports buf k (nwrite buf count flags k events) ↔ ¬FailsPartway 0 count events :=
  Sending.reports_iff hcount events (sending_start buf count k)

theorem nwrite_reports_iff_interrupted :
    Reports [1, 2, 3] (Kernel.fresh none)
        (nwrite [1, 2, 3] 3 0 (Kernel.fresh none)
          [.write (.count 2), .write (.fail .EINTR), .write (.count 1)])
      ↔ ¬FailsPartway 0 3 [.write (.count 2), .write (.fail .EINTR), .write (.count 1)] :=
  nwrite_reports_iff [1, 2, 3] (by decide) 0 (Kernel.fresh none) _

/-- Two bytes are accepted, then the descriptor is full for the moment:
the call returns `-1`. -/
theorem two_bytes_unreported :
    nwrite [1, 2, 3] 3 fdioQuietEagain (Kernel.fresh none)
        [.write (.count 2), .write (.fail .EAGAIN)]
      = ⟨.returns (-1), { Kernel.fresh (some .EAGAIN) with output := [1, 2] }, []⟩
      ∧ ¬Reports [1, 2, 3] (Kernel.fresh none)
          (nwrite [1, 2, 3] 3 fdioQuietEagain (Kernel.fresh none)
            [.write (.count 2), .write (.fail .EAGAIN)]) := by
  refine ⟨by decide, fun h => ?_⟩
  have hnone := (h (-1) (by decide)).2 rfl
  exact absurd hnone (by decide)

end Fdio

end MiscTools
