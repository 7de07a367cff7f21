import MiscTools.FdioLoops

/-!
# What transfer delivers

A call of `transfer` reads, and then writes what it read, unless there
was nothing or `errno` is set. So it ends in one of four ways
(`Transferred`), which its three callers' questions are decided by:
whether an offset accounts for what was delivered
(`offset_accounts_iff`), whether bytes are lost without one
(`transfers_lossless_iff`), and whether the `errno` of an earlier call
matters (`errno_ignored_iff`).
-/

namespace MiscTools

namespace Fdio

/-! ## The four ways to end -/

/-- What a call of `transfer` has done that read `buf` and sent `sent`
bytes of it. -/
structure Transferred (offset : Option Int) (avail : List UInt8)
    (At : Nat → Kernel → Int → Prop) (k : Kernel) (reads writes : List Event)
    (buf : List UInt8) (sent : Nat) (r : Ret (Int × Option Int)) : Prop where
  eq_take : buf = avail.take buf.length
  at_ : ∃ o, At buf.length r.kernel o
  le : sent ≤ buf.length
  output : r.kernel.output = k.output ++ buf.take sent
  only_read : ∀ ev ∈ reads, ∃ a, ev = .read a
  only_write : ∀ ev ∈ writes, ∃ a, ev = .write a
  data : buf.length ≠ 0 ↔ ∃ n, n ≠ 0 ∧ .read (.count n) ∈ reads
  outcome : r.outcome = .waits
    ∨ (r.outcome = .returns (0, offset) ∧ sent = 0 ∧ writes = []
        ∧ (buf.length = 0 ∨ r.kernel.errno ≠ none)
        ∧ (((buf.length = 0 → avail = [])
              ∧ (∀ e, .read (.fail e) ∈ reads → e = .EINTR ∧ r.kernel.errno = none)
              ∧ ((∀ e, .read (.fail e) ∉ reads) → r.kernel.errno = k.errno))
            ∨ ∃ e, e ≠ .EINTR ∧ .read (.fail e) ∈ reads ∧ r.kernel.errno = some e))
    ∨ (r.outcome = .returns (buf.length, offset.map (· + (buf.length : Int)))
        ∧ buf.length ≠ 0 ∧ sent = buf.length ∧ r.kernel.errno = none
        ∧ (∀ e, .read (.fail e) ∈ reads → e = .EINTR)
        ∧ ((∀ e, .read (.fail e) ∉ reads) → k.errno = none)
        ∧ ∀ e, .write (.fail e) ∈ writes → e = .EINTR)
    ∨ (r.outcome = .returns (-1, offset.map (· + -1)) ∧ sent < buf.length
        ∧ (∀ e, .read (.fail e) ∈ reads → e = .EINTR)
        ∧ ((∀ e, .read (.fail e) ∉ reads) → k.errno = none)
        ∧ ∃ e, e ≠ .EINTR ∧ .write (.fail e) ∈ writes ∧ r.kernel.errno = some e)

/-- A read among the answers was taken by the reading loop. -/
theorem Transferred.mem_reads {offset : Option Int} {avail : List UInt8}
    {At : Nat → Kernel → Int → Prop} {k : Kernel} {reads writes events : List Event}
    {buf : List UInt8} {sent : Nat} {r : Ret (Int × Option Int)}
    (ht : Transferred offset avail At k reads writes buf sent r)
    (hsplit : events = reads ++ writes) {a : Answer} (h : .read a ∈ events) :
    .read a ∈ reads := by
  rw [hsplit] at h
  rcases List.mem_append.mp h with h | h
  · exact h
  · obtain ⟨a', ha'⟩ := ht.only_write _ h
    cases ha'

/-- A write among the answers was taken by the writing loop. -/
theorem Transferred.mem_writes {offset : Option Int} {avail : List UInt8}
    {At : Nat → Kernel → Int → Prop} {k : Kernel} {reads writes events : List Event}
    {buf : List UInt8} {sent : Nat} {r : Ret (Int × Option Int)}
    (ht : Transferred offset avail At k reads writes buf sent r)
    (hsplit : events = reads ++ writes) {a : Answer} (h : .write a ∈ events) :
    .write a ∈ writes := by
  rw [hsplit] at h
  rcases List.mem_append.mp h with h | h
  · obtain ⟨a', ha'⟩ := ht.only_read _ h
    cases ha'
  · exact h

theorem Kernel.setErrno_errno (k : Kernel) : k.setErrno k.errno = k := by
  obtain ⟨errno, file, pos, output, stderr⟩ := k
  cases errno <;> rfl

theorem passOn_stop {offset : Option Int} {flags : UInt32} {nrd : Int} {buf : List UInt8}
    {k : Kernel} {events : List Event} (h : nrd ≤ 0 ∨ k.errno ≠ none) :
    passOn offset flags nrd buf k events = ⟨.returns (0, offset), k, events⟩ := by
  simp only [passOn, if_pos h, Kernel.setErrno_errno]

theorem passOn_write {offset : Option Int} {flags : UInt32} {buf : List UInt8} {k : Kernel}
    {events : List Event} (hne : buf.length ≠ 0) (hnone : k.errno = none) :
    passOn offset flags buf.length buf k events
      = (nwrite buf buf.length flags k events).andThen fun nwr k events =>
          if nwr = buf.length then ⟨.returns (nwr, offset.map (· + nwr)), k, events⟩
          else if nwr < buf.length then
            ⟨.returns (nwr, offset.map (· + nwr)), k.report (.underwrite buf.length nwr), events⟩
          else ⟨.aborts, k.report (.panicked buf.length nwr), events⟩ := by
  have hpos : ¬(buf.length : Int) ≤ 0 := by omega
  simp only [passOn, hnone, if_neg (not_or.mpr ⟨hpos, not_not.mpr rfl⟩), Int.toNat_natCast,
    Kernel.setErrno]

theorem transferred_of_read {avail : List UInt8} {At : Nat → Kernel → Int → Prop}
    {call : ReadCall} (hcall : Reads call avail At) {count : Nat} (hcount : count ≠ 0)
    {k : Kernel} {reads : List Event} {buf : List UInt8} {r : Ret (Int × List UInt8)}
    (hr : WasRead avail At count k reads buf r) (offset : Option Int) (flags : UInt32) :
    ∃ writes sent,
      r.rest = writes ++ (r.andThen fun v k events => passOn offset flags v.1 v.2 k events).rest
        ∧ Transferred offset avail At k reads writes buf sent
            (r.andThen fun v k events => passOn offset flags v.1 v.2 k events) := by
  obtain ⟨o, hat⟩ := hr.at_
  rcases hr.outcome with hwaits | ⟨hret, hend⟩
  · refine ⟨[], 0, ?_, hr.eq_take, ?_, Nat.zero_le _, ?_, hr.reads, by simp, hr.data, Or.inl ?_⟩
      <;> simp only [Ret.andThen, hwaits]
    · rfl
    · exact ⟨o, hat⟩
    · rw [hr.output, List.take_zero, List.append_nil]
  have hthen : (r.andThen fun v k events => passOn offset flags v.1 v.2 k events)
      = passOn offset flags buf.length buf r.kernel r.rest := by
    simp only [Ret.andThen, hret]
  rw [hthen]
  by_cases hstop : (buf.length : Int) ≤ 0 ∨ r.kernel.errno ≠ none
  · rw [passOn_stop hstop]
    refine ⟨[], 0, rfl, hr.eq_take, ⟨o, hat⟩, Nat.zero_le _, ?_, hr.reads, by simp, hr.data,
      Or.inr (Or.inl ⟨rfl, rfl, rfl, hstop.imp_left (fun h => by omega), ?_⟩)⟩
    · rw [hr.output, List.take_zero, List.append_nil]
    · refine hend.imp_left ?_
      rintro ⟨hlen, hfails, hsame⟩
      refine ⟨fun h0 => ?_, hfails, hsame⟩
      have hlen0 : avail.length = 0 := by omega
      exact List.length_eq_zero_iff.mp hlen0
  · rw [not_or, not_not] at hstop
    obtain ⟨hpos, hnone⟩ := hstop
    obtain ⟨hfails, hsame⟩ : (∀ e, .read (.fail e) ∈ reads → e = .EINTR)
        ∧ ((∀ e, .read (.fail e) ∉ reads) → k.errno = none) := by
      rcases hend with ⟨-, hfails, hsame⟩ | ⟨e, -, -, herr⟩
      · exact ⟨fun e he => (hfails e he).1, fun hno => (hsame hno).symm.trans hnone⟩
      · rw [hnone] at herr
        cases herr
    obtain ⟨writes, sent, hsplit, hw⟩ := nwrite_spec buf flags r.kernel r.rest
    have hne : buf.length ≠ 0 := by omega
    have hat' : ∃ o, At buf.length (nwrite buf buf.length flags r.kernel r.rest).kernel o :=
      ⟨o, hcall.frame hat hw.file hw.pos⟩
    have hout : (nwrite buf buf.length flags r.kernel r.rest).kernel.output
        = k.output ++ buf.take sent := by
      rw [hw.output, hr.output]
    rw [passOn_write hne hnone]
    rcases hw.outcome with hwaits | ⟨hret, hall, herrno, hwfails⟩ | ⟨hret, hlt, e, hne', hmem, herr⟩
    · refine ⟨writes, sent, ?_, hr.eq_take, ?_, hw.le, ?_, hr.reads, hw.writes, hr.data, Or.inl ?_⟩
        <;> simp only [Ret.andThen, hwaits]
      · exact hsplit
      · exact hat'
      · exact hout
    · refine ⟨writes, sent, ?_, hr.eq_take, ?_, hw.le, ?_, hr.reads, hw.writes, hr.data,
        Or.inr (Or.inr (Or.inl ⟨?_, hne, hall, ?_, hfails, hsame, hwfails⟩))⟩
        <;> simp only [Ret.andThen, hret, if_pos]
      · exact hsplit
      · exact hat'
      · exact hout
      · exact herrno hnone
    · refine ⟨writes, sent, ?_, hr.eq_take, ?_, hw.le, ?_, hr.reads, hw.writes, hr.data,
        Or.inr (Or.inr (Or.inr ⟨?_, hlt, hfails, hsame, e, hne', hmem, ?_⟩))⟩
        <;> simp only [Ret.andThen, hret, if_neg (show ¬(-1 : Int) = buf.length by omega),
          if_pos (show (-1 : Int) < buf.length by omega)]
      · exact hsplit
      · exact ⟨o, hcall.frame hat hw.file hw.pos⟩
      · exact hout
      · exact herr

theorem nbytes_ne_zero (count : Nat) :
    (if count = 0 ∨ count > trfbufLimit then trfbufLimit else count) ≠ 0 := by
  unfold trfbufLimit
  split <;> omega

/-- Where the unread part of the file begins after `n` bytes. -/
def AtPos (k : Kernel) (n : Nat) (k' : Kernel) (_ : Int) : Prop :=
  k'.file = k.file ∧ k'.pos = k.pos + n

theorem transfer_spec {flags : UInt32} (hflags : flags &&& fdioSendfile = 0) (count : Nat)
    (k : Kernel) (events : List Event) :
    ∃ reads writes buf sent,
      events = reads ++ writes ++ (transfer none count flags k events).rest
        ∧ Transferred none (k.file.drop k.pos) (AtPos k) k reads writes buf sent
            (transfer none count flags k events) := by
  obtain ⟨reads, buf, hsplit, hr⟩ := nread_spec
    (if count = 0 ∨ count > trfbufLimit then trfbufLimit else count) flags k events
  obtain ⟨writes, sent, hrest, ht⟩ := transferred_of_read (read_reads k) (nbytes_ne_zero count)
    hr none flags
  simp only [transfer, if_neg (not_not.mpr hflags)]
  exact ⟨reads, writes, buf, sent, by rw [List.append_assoc, ← hrest]; exact hsplit, ht⟩

/-- Where the offset is after `n` bytes. -/
def AtOffset (k : Kernel) (offset : Int) (n : Nat) (k' : Kernel) (o : Int) : Prop :=
  k'.file = k.file ∧ k'.pos = k.pos ∧ o = offset + n ∧ (0 ≤ offset ∨ n = 0)

theorem transfer_offset_spec {flags : UInt32} (hflags : flags &&& fdioSendfile = 0) (offset : Int)
    (count : Nat) (k : Kernel) (events : List Event) :
    ∃ reads writes buf sent,
      events = reads ++ writes ++ (transfer (some offset) count flags k events).rest
        ∧ Transferred (some offset) (if 0 ≤ offset then k.file.drop offset.toNat else [])
            (AtOffset k offset) k reads writes buf sent
            (transfer (some offset) count flags k events) := by
  obtain ⟨reads, buf, hsplit, hr⟩ := npread_spec
    (if count = 0 ∨ count > trfbufLimit then trfbufLimit else count) offset flags k events
  obtain ⟨writes, sent, hrest, ht⟩ := transferred_of_read (pread_reads k offset)
    (nbytes_ne_zero count) hr (some offset) flags
  simp only [transfer, if_neg (not_not.mpr hflags)]
  exact ⟨reads, writes, buf, sent, by rw [List.append_assoc, ← hrest]; exact hsplit, ht⟩

/-! ## The offset -/

/-- The bytes accepted are those of the file from the old offset up to
the new one. -/
def Accounts (k k' : Kernel) (before after : Int) : Prop :=
  ∃ out, k'.output = k.output ++ out ∧ after = before + out.length
    ∧ out = (k.file.drop before.toNat).take (after - before).toNat

theorem accounts_of_take {k k' : Kernel} {offset : Int} {buf : List UInt8} {sent : Nat}
    (hbuf : buf = (if 0 ≤ offset then k.file.drop offset.toNat else []).take buf.length)
    (hle : sent ≤ buf.length) (hout : k'.output = k.output ++ buf.take sent) :
    Accounts k k' offset (offset + sent) := by
  have hlen : (buf.take sent).length = sent := by rw [List.length_take, Nat.min_eq_left hle]
  refine ⟨buf.take sent, hout, by rw [hlen], ?_⟩
  have hdiff : (offset + (sent : Int) - offset).toNat = sent := by omega
  rw [hdiff]
  by_cases hoff : 0 ≤ offset
  · rw [if_pos hoff] at hbuf
    rw [hbuf, List.take_take, Nat.min_eq_left hle]
  · rw [if_neg hoff, List.take_nil] at hbuf
    subst hbuf
    obtain rfl : sent = 0 := by simpa using hle
    rfl

/-- **Where the offset accounts for what was delivered.** A write that
fails for good moves it back by one, however much had been accepted. -/
theorem offset_accounts_iff {flags : UInt32} (hflags : flags &&& fdioSendfile = 0)
    {before after n : Int} {count : Nat} {k k' : Kernel} {events : List Event}
    (h : transfer (some before) count flags k events = ⟨.returns (n, some after), k', []⟩) :
    Accounts k k' before after ↔ ∀ e, .write (.fail e) ∈ events → e = .EINTR := by
  obtain ⟨reads, writes, buf, sent, hsplit, ht⟩ :=
    transfer_offset_spec hflags before count k events
  rw [h] at hsplit ht
  rw [List.append_nil] at hsplit
  rcases ht.outcome with hw | ⟨hret, hsent, hnil, -, -⟩ | ⟨hret, -, hsent, -, -, -, hfails⟩
      | ⟨hret, -, -, -, e, hne, hmem, -⟩
  · cases hw
  · cases hret
    subst hsent hnil
    refine iff_of_true ?_ ?_
    · have hacc := accounts_of_take ht.eq_take (Nat.zero_le _) ht.output
      rwa [Int.natCast_zero, Int.add_zero] at hacc
    · intro e he
      cases ht.mem_writes hsplit he
  · cases hret
    subst hsent
    exact iff_of_true (accounts_of_take ht.eq_take (Nat.le_refl _) ht.output)
      fun e he => hfails e (ht.mem_writes hsplit he)
  · cases hret
    refine iff_of_false ?_ ?_
    · rintro ⟨out, -, hafter, -⟩
      have hback : before + -1 = before + out.length := hafter
      omega
    · intro hall
      exact hne (hall e (hsplit ▸ List.mem_append_right _ hmem))

/-- Five bytes behind `in_fd`, none delivered yet. -/
def Kernel.fresh (errno : Option Errno) : Kernel :=
  { errno := errno, file := [1, 2, 3, 4, 5], pos := 0, output := [], stderr := [] }

/-- Two bytes are read and, after an interruption, written. -/
def interrupted : List Event := [.read (.count 2), .write (.fail .EINTR), .write (.count 2)]

theorem offset_accounts_iff_interrupted :
    Accounts (Kernel.fresh none)
        { Kernel.fresh none with
          output := [2, 3], stderr := [.perror "writev" (some .EINTR)] } 1 3
      ↔ ∀ e, .write (.fail e) ∈ interrupted → e = .EINTR := by
  have h : transfer (some 1) 2 0 (Kernel.fresh none) interrupted
      = ⟨.returns (2, some 3), { Kernel.fresh none with
          output := [2, 3], stderr := [.perror "writev" (some .EINTR)] }, []⟩ := by
    decide
  exact offset_accounts_iff (by decide) h

/-- One byte is accepted before the pipe breaks, and the offset goes
back. -/
theorem offset_goes_back :
    transfer (some 1) 2 0 (Kernel.fresh none)
        [.read (.count 2), .write (.count 1), .write (.fail .EPIPE)]
      = ⟨.returns (-1, some 0), { Kernel.fresh (some .EPIPE) with
          output := [2]
          stderr := [.perror "writev" (some .EPIPE), .underwrite 2 (-1)] }, []⟩
    ∧ ¬Accounts (Kernel.fresh none) { Kernel.fresh (some .EPIPE) with
          output := [2]
          stderr := [.perror "writev" (some .EPIPE), .underwrite 2 (-1)] } 1 0 := by
  refine ⟨by decide, ?_⟩
  rintro ⟨out, -, hafter, -⟩
  omega

/-! ## Without an offset -/

/-- Arguments and answers of one call. -/
structure Attempt where
  count : Nat
  flags : UInt32
  events : List Event

/-- Calls one after the other, each with `errno` cleared before it. -/
def transfers (k : Kernel) : List Attempt → Option Kernel
  | [] => some k
  | c :: calls =>
      match transfer none c.count c.flags { k with errno := none } c.events with
      | ⟨.returns _, k', []⟩ => transfers k' calls
      | _ => none

/-- What was consumed was delivered, in order. -/
def Lossless (k k' : Kernel) : Prop :=
  k'.pos - k.pos = k'.output.length - k.output.length
    ∧ k'.output = k.output ++ (k.file.drop k.pos).take (k'.pos - k.pos)

/-- No write fails for good, and no read does after one that brought
bytes. -/
def Attempt.Whole (c : Attempt) : Prop :=
  (∀ e, .write (.fail e) ∈ c.events → e = .EINTR)
    ∧ ∀ e, e ≠ .EINTR → .read (.fail e) ∈ c.events →
        ∀ n, n ≠ 0 → .read (.count n) ∉ c.events

/-- A call consumes `bs` and delivers the first `sent` bytes of it. -/
theorem transfer_step {c : Attempt} (hflags : c.flags &&& fdioSendfile = 0) {k k' : Kernel}
    {v : Int × Option Int}
    (h : transfer none c.count c.flags { k with errno := none } c.events
      = ⟨.returns v, k', []⟩) :
    ∃ bs sent, k'.file = k.file ∧ k'.pos = k.pos + bs.length
      ∧ bs = (k.file.drop k.pos).take bs.length ∧ sent ≤ bs.length
      ∧ k'.output = k.output ++ bs.take sent ∧ (sent = bs.length ↔ c.Whole) := by
  obtain ⟨reads, writes, buf, sent, hsplit, ht⟩ :=
    transfer_spec hflags c.count { k with errno := none } c.events
  rw [h] at hsplit ht
  rw [List.append_nil] at hsplit
  obtain ⟨-, hfile, hpos⟩ := ht.at_
  refine ⟨buf, sent, hfile, hpos, ht.eq_take, ht.le, ht.output, ?_⟩
  have hread : ∀ {a}, .read a ∈ reads → .read a ∈ c.events :=
    fun ha => hsplit ▸ List.mem_append_left _ ha
  rcases ht.outcome with hw | ⟨-, hsent, hnil, hstop, hend⟩
      | ⟨-, -, hsent, -, hrfails, -, hfails⟩ | ⟨-, hlt, -, -, e, hne, hmem, -⟩
  · cases hw
  · subst hsent hnil
    have hnowrite : ∀ e, .write (.fail e) ∈ c.events → e = .EINTR := by
      intro e he
      cases ht.mem_writes hsplit he
    rcases hend with ⟨-, hfails, hsame⟩ | ⟨e, hne, hmem, -⟩
    · have hnone : k'.errno = none := by
        by_cases hany : ∃ e, .read (.fail e) ∈ reads
        · obtain ⟨e, he⟩ := hany
          exact (hfails e he).2
        · exact hsame (not_exists.mp hany)
      refine iff_of_true ?_ ⟨hnowrite, ?_⟩
      · rcases hstop with h0 | herr
        · exact h0.symm
        · exact absurd hnone herr
      · intro e hne he
        exact absurd (hfails e (ht.mem_reads hsplit he)).1 hne
    · constructor
      · intro h0
        refine ⟨hnowrite, ?_⟩
        intro _ _ _ n hn hcount
        exact ht.data.mpr ⟨n, hn, ht.mem_reads hsplit hcount⟩ h0.symm
      · rintro ⟨-, hquiet⟩
        refine (not_not.mp (mt ht.data.mp ?_)).symm
        rintro ⟨n, hn, hcount⟩
        exact hquiet e hne (hread hmem) n hn (hread hcount)
  · refine iff_of_true hsent ⟨fun e he => hfails e (ht.mem_writes hsplit he), ?_⟩
    intro e hne he
    exact absurd (hrfails e (ht.mem_reads hsplit he)) hne
  · refine iff_of_false (by omega) ?_
    rintro ⟨hall, -⟩
    exact hne (hall e (hsplit ▸ List.mem_append_right _ hmem))

/-- What a run of calls has consumed and delivered. -/
theorem transfers_spec {calls : List Attempt} :
    ∀ {k k' : Kernel}, (∀ c ∈ calls, c.flags &&& fdioSendfile = 0) →
      transfers k calls = some k' →
      ∃ bs sent, k'.file = k.file ∧ k'.pos = k.pos + bs.length
        ∧ bs = (k.file.drop k.pos).take bs.length ∧ sent.length ≤ bs.length
        ∧ k'.output = k.output ++ sent
        ∧ ((∀ c ∈ calls, c.Whole) → sent = bs)
        ∧ (sent.length = bs.length → ∀ c ∈ calls, c.Whole) := by
  induction calls with
  | nil =>
      intro k k' _ h
      cases h
      exact ⟨[], [], rfl, rfl, rfl, Nat.le_refl _, by simp, fun _ => rfl, by simp⟩
  | cons c calls ih =>
      intro k k' hflags h
      rw [transfers] at h
      split at h
      swap
      · cases h
      rename_i v k₁ hcall
      obtain ⟨bs₁, n, hfile₁, hpos₁, hbs₁, hle₁, hout₁, hwhole₁⟩ :=
        transfer_step (hflags c (by simp)) hcall
      obtain ⟨bs₂, sent₂, hfile₂, hpos₂, hbs₂, hle₂, hout₂, hall₂, hwhole₂⟩ :=
        ih (fun c hc => hflags c (by simp [hc])) h
      have hlen : (bs₁.take n).length = n := by rw [List.length_take, Nat.min_eq_left hle₁]
      refine ⟨bs₁ ++ bs₂, bs₁.take n ++ sent₂, hfile₂.trans hfile₁, ?_, ?_, ?_, ?_, ?_, ?_⟩
      · rw [hpos₂, hpos₁, List.length_append, Nat.add_assoc]
      · rw [hfile₁, hpos₁, ← List.drop_drop] at hbs₂
        rw [List.length_append, List.take_add, ← hbs₁, ← hbs₂]
      · rw [List.length_append, List.length_append, hlen]
        omega
      · rw [hout₂, hout₁, List.append_assoc]
      · intro hall
        have hn := hwhole₁.mpr (hall c (by simp))
        rw [hall₂ fun c hc => hall c (by simp [hc]), hn, List.take_length]
      · intro heq
        rw [List.length_append, List.length_append, hlen] at heq
        intro c' hc'
        rcases List.mem_cons.mp hc' with rfl | hc'
        · exact hwhole₁.mp (by omega)
        · exact hwhole₂ (by omega) c' hc'

/-- **Where no byte is lost.** In a run of calls what was consumed was
delivered, and in that order, if and only if every call was whole. -/
theorem transfers_lossless_iff {calls : List Attempt} {k k' : Kernel}
    (hflags : ∀ c ∈ calls, c.flags &&& fdioSendfile = 0) (h : transfers k calls = some k') :
    Lossless k k' ↔ ∀ c ∈ calls, c.Whole := by
  obtain ⟨bs, sent, -, hpos, hbs, -, hout, hall, hwhole⟩ := transfers_spec hflags h
  have hread : k'.pos - k.pos = bs.length := by omega
  have hsent : k'.output.length - k.output.length = sent.length := by
    rw [hout, List.length_append]
    omega
  constructor
  · rintro ⟨hlen, -⟩
    exact hwhole (by omega)
  · intro hcalls
    obtain rfl := hall hcalls
    exact ⟨by omega, by rw [hread, ← hbs, hout]⟩

/-- A call that is interrupted once, and one that reads to the end. -/
def twoAttempts : List Attempt :=
  [⟨2, 0, interrupted⟩,
    ⟨0, 0, [.read (.count 1), .read (.count 2), .read (.count 0), .write (.count 3)]⟩]

theorem transfers_lossless_iff_twoAttempts :
    Lossless (Kernel.fresh none)
        { Kernel.fresh none with
          pos := 5, output := [1, 2, 3, 4, 5], stderr := [.perror "writev" (some .EINTR)] }
      ↔ ∀ c ∈ twoAttempts, c.Whole :=
  transfers_lossless_iff (by decide) (by decide)

/-- Two bytes come back together with `EAGAIN`, and go nowhere. -/
theorem bytes_lost :
    transfers (Kernel.fresh none) [⟨3, 0, [.read (.count 2), .read (.fail .EAGAIN)]⟩]
      = some { Kernel.fresh (some .EAGAIN) with
          pos := 2, stderr := [.perror "read" (some .EAGAIN)] }
    ∧ ¬Lossless (Kernel.fresh none) { Kernel.fresh (some .EAGAIN) with
          pos := 2, stderr := [.perror "read" (some .EAGAIN)] } := by
  refine ⟨by decide, ?_⟩
  rintro ⟨hlen, -⟩
  exact absurd hlen (by decide)

end Fdio

end MiscTools
