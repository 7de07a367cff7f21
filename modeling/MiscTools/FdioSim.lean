import MiscTools.FdioDelivery

/-!
# Two runs on the same answers

`nwritev` and `nwrite` on the concatenated buffer take the same answers,
hand on the same bytes and return the same (`nwritev_nwrite`): after
every turn the array stands for the rest of the buffer (`Follows`). They
return once all bytes were accepted (`nwritev_returns`).

Two calls of `transfer` that start with different values of `errno` read
the same. What they do next depends on whether `errno` is zero, so they
differ if and only if one of them started with zero and nothing cleared
`errno` on the way (`errno_ignored_iff`).
-/

namespace MiscTools

namespace Fdio

/-- Related loops make related functions. -/
theorem runLoop_simulates {σ σ' ρ : Type} {L : Loop σ Event (ρ × Kernel)}
    {L' : Loop σ' Event (ρ × Kernel)} (kernel : σ → Kernel) (kernel' : σ' → Kernel)
    {R : σ → σ' → Prop} {S : Kernel → Kernel → Prop}
    (hkernel : ∀ {s s'}, R s s' → S (kernel s) (kernel' s'))
    (hexit : ∀ {s s'}, R s s' →
      Option.Rel (fun v v' => v.1 = v'.1 ∧ S v.2 v'.2) (L.exit s) (L'.exit s'))
    (hturn : ∀ {s s' l}, R s s' → L.exit s = none → L'.exit s' = none →
      Option.Rel R (L.turn s l) (L'.turn s' l))
    (events : List Event) {s : σ} {s' : σ'} (h : R s s') :
    (runLoop L kernel s events).outcome = (runLoop L' kernel' s' events).outcome
      ∧ S (runLoop L kernel s events).kernel (runLoop L' kernel' s' events).kernel
      ∧ (runLoop L kernel s events).rest = (runLoop L' kernel' s' events).rest := by
  obtain ⟨hret, hR, hrest⟩ := Loop.drive_simulates hexit hturn events h
  rcases hd : L.drive s events with ⟨r, t, rest⟩
  rcases hd' : L'.drive s' events with ⟨r', t', rest'⟩
  rw [hd, hd'] at hret hR hrest
  simp only [runLoop, hd, hd']
  cases hret with
  | none => exact ⟨rfl, hkernel hR, hrest⟩
  | some hv => exact ⟨congrArg Outcome.returns hv.1, hv.2, hrest⟩

/-! ## The array of nwritev -/

/-- What is left of the array is what is left of the bytes, and nothing
is left of the one exactly if nothing is of the other. -/
theorem advance_spec :
    ∀ (iov : List (List UInt8)) (n : Nat), n ≤ iov.flatten.length →
      (advance n iov).2.flatten = iov.flatten.drop n
        ∧ ((advance n iov).2 = [] ↔ n = iov.flatten.length) := by
  intro iov
  induction iov with
  | nil =>
      intro n hn
      obtain rfl : n = 0 := by simpa using hn
      exact ⟨rfl, by simp [advance]⟩
  | cons v iov ih =>
      intro n hn
      rw [List.flatten_cons, List.length_append] at hn
      rw [List.flatten_cons, List.length_append, advance]
      by_cases hlt : (n : Int) < v.length
      · rw [if_pos hlt, Int.toNat_natCast, List.drop_append_of_le_length (by omega)]
        exact ⟨rfl, by simp; omega⟩
      · have hsub : (n : Int) - v.length = ((n - v.length : Nat) : Int) := by omega
        obtain ⟨hflat, hdone⟩ := ih (n - v.length) (by omega)
        rw [if_neg hlt, hsub, hflat, hdone, List.drop_append,
          List.drop_of_length_le (show v.length ≤ n by omega), List.nil_append]
        exact ⟨rfl, by omega⟩

theorem nwritev_turn_count (flags : UInt32) (s : Gathering) (n : Nat) :
    (nwritevLoop flags).turn s (.write (.count n))
      = if 1 ≤ n ∧ n ≤ s.iov.flatten.length then
          some { s with
            kernel := { s.kernel with output := s.kernel.output ++ s.iov.flatten.take n }
            nbytes := (advance n s.iov).1
            total := s.total + n
            iov := (advance n s.iov).2 }
        else none := by
  simp only [nwritevLoop, Kernel.write]
  by_cases h : 1 ≤ n ∧ n ≤ s.iov.flatten.length
  · rw [if_pos h, if_pos h]
    have hpos : ¬(n : Int) ≤ 0 := by omega
    show (if (n : Int) ≤ 0 then _ else _) = _
    rw [if_neg hpos]
    rfl
  · rw [if_neg h, if_neg h]
    rfl

theorem nwritev_turn_fail (flags : UInt32) (s : Gathering) (e : Errno) :
    ∃ k, k.mute = { s.kernel.mute with errno := kept e }
      ∧ (nwritevLoop flags).turn s (.write (.fail e))
        = some (if kept e = none then
            { s with
              kernel := k, err := none, nbytes := (advance 0 s.iov).1, iov := (advance 0 s.iov).2 }
          else { s with kernel := k, err := kept e, nbytes := -1, broken := true }) := by
  simp only [nwritevLoop, Kernel.write, Option.bind_eq_bind, Option.bind_some]
  rw [if_pos (by decide : (-1 : Int) ≤ 0)]
  by_cases h : e = .EINTR
  · subst h
    rw [if_pos rfl]
    refine ⟨({ s.kernel with errno := some .EINTR } : Kernel).retry flags, ?_, ?_⟩
    · rw [Kernel.mute_retry]
      rfl
    · rw [kept_eintr, if_pos rfl]
      rfl
  · have hne : ¬some Errno.EINTR = some e := fun heq => h (Option.some.inj heq).symm
    rw [if_neg hne, kept_of_ne h]
    by_cases hquiet : quietEagain flags (some e) = true ∨ quietEpipe flags (some e) = true
    · refine ⟨{ s.kernel with errno := some e }, rfl, ?_⟩
      rw [if_pos hquiet, if_neg (Option.some_ne_none e)]
      rfl
    · refine ⟨({ s.kernel with errno := some e } : Kernel).perror "writev", rfl, ?_⟩
      rw [if_neg hquiet, if_neg (Option.some_ne_none e)]
      rfl

/-! ## nwritev and nwrite -/

/-- The loop of `nwritev` is where that of `nwrite` is on `buf`. -/
structure Follows (buf : List UInt8) (s : Gathering) (t : Writing) : Prop where
  kernel : s.kernel.mute = t.kernel.mute
  le : t.total ≤ buf.length
  iov : s.iov.flatten = buf.drop t.total
  done : s.iov = [] ↔ t.total = buf.length
  total : s.total = t.total
  err : s.err = t.err
  broken : s.broken = t.broken
  going : t.broken = false → t.err = none ∧ (t.nwr < 0 → t.total < buf.length)
  stopped : t.broken = true → s.nbytes = -1 ∧ t.nwr = -1 ∧ t.err ≠ none

theorem Kernel.mute_setErrno (k : Kernel) (err : Option Errno) :
    (k.setErrno err).mute = k.mute.setErrno err := by
  cases err <;> rfl

theorem Follows.exit {buf : List UInt8} {s : Gathering} {t : Writing} (h : Follows buf s t)
    (flags : UInt32) :
    Option.Rel (fun v v' => v.1 = v'.1 ∧ v.2.mute = v'.2.mute) ((nwritevLoop flags).exit s)
      ((nwriteLoop buf buf.length flags).exit t) := by
  have hiff : (s.broken = true ∨ s.iov = []) ↔ (t.broken = true ∨ ¬buf.length > t.total) := by
    rw [h.broken, h.done]
    have hle := h.le
    exact or_congr_right ⟨by omega, by omega⟩
  simp only [nwritevLoop, nwriteLoop]
  by_cases hleft : t.broken = true ∨ ¬buf.length > t.total
  swap
  · rw [if_neg (mt hiff.mp hleft), if_neg hleft]
    exact Option.Rel.none
  rw [if_pos (hiff.mpr hleft), if_pos hleft]
  refine Option.Rel.some ⟨?_, ?_⟩
  · dsimp only
    rw [h.err]
    cases hbr : t.broken with
    | true =>
        obtain ⟨hnbytes, hnwr, herr⟩ := h.stopped hbr
        rw [if_pos herr, hnbytes, hnwr]
        rfl
    | false =>
        obtain ⟨herr, hneg⟩ := h.going hbr
        have hfull : ¬t.total < buf.length := by
          rcases hleft with htrue | hge
          · rw [hbr] at htrue
            cases htrue
          · exact hge
        rw [if_neg (not_not.mpr herr), if_neg (fun h => hfull (hneg h)), h.total]
  · dsimp only
    rw [Kernel.mute_setErrno, Kernel.mute_setErrno, ← h.kernel, h.err]
    split <;> rfl

theorem Follows.turn {buf : List UInt8} {s : Gathering} {t : Writing} {l : Event}
    (h : Follows buf s t) (flags : UInt32) (hgo : (nwriteLoop buf buf.length flags).exit t = none) :
    Option.Rel (Follows buf) ((nwritevLoop flags).turn s l)
      ((nwriteLoop buf buf.length flags).turn t l) := by
  obtain ⟨hbroken, hlt⟩ : t.broken = false ∧ t.total < buf.length := by
    simp only [nwriteLoop] at hgo
    split at hgo
    · cases hgo
    · rename_i hstay
      rw [not_or, not_not] at hstay
      exact ⟨Bool.not_eq_true _ ▸ hstay.1, hstay.2⟩
  obtain ⟨herr, hneg⟩ := h.going hbroken
  have hrest : (buf.drop t.total).take (buf.length - t.total) = buf.drop t.total :=
    List.take_of_length_le (Nat.le_of_eq List.length_drop)
  have hlen : s.iov.flatten.length = buf.length - t.total := by rw [h.iov, List.length_drop]
  cases l with
  | read a => exact Option.Rel.none
  | sendfile a => exact Option.Rel.none
  | call c err => exact Option.Rel.none
  | write a =>
      cases a with
      | count n =>
          rw [nwritev_turn_count, nwrite_turn_count, hrest, h.iov]
          by_cases hn : 1 ≤ n ∧ n ≤ (buf.drop t.total).length
          swap
          · rw [if_neg hn, if_neg hn]
            exact Option.Rel.none
          rw [if_pos hn, if_pos hn]
          rw [List.length_drop] at hn
          obtain ⟨hflat, hdone⟩ := advance_spec s.iov n (by omega)
          obtain ⟨herrno, hfile, hpos, hout⟩ := Kernel.mute_ext h.kernel
          refine Option.Rel.some ⟨?_, ?_, ?_, ?_, ?_, h.err, h.broken, ?_, ?_⟩
          · simp only [Kernel.mute, herrno, hfile, hpos, hout]
          · show t.total + n ≤ _
            omega
          · show (advance n s.iov).2.flatten = buf.drop (t.total + n)
            rw [hflat, h.iov, List.drop_drop]
          · show (advance n s.iov).2 = [] ↔ t.total + n = _
            rw [hdone]
            omega
          · show s.total + (n : Int) = ((t.total + n : Nat) : Int)
            rw [h.total, Int.natCast_add]
          · intro _
            refine ⟨herr, ?_⟩
            intro hn0
            exact absurd hn0 (by show ¬(n : Int) < 0; omega)
          · intro hbr
            rw [hbroken] at hbr
            cases hbr
      | fail e =>
          obtain ⟨k, hk, hs⟩ := nwritev_turn_fail flags s e
          obtain ⟨k', hk', ht⟩ := nwrite_turn_fail buf buf.length flags t e
          have hkernel : k.mute = k'.mute := by rw [hk, hk', h.kernel]
          rw [hs, ht, hbroken]
          refine Option.Rel.some ?_
          by_cases hkept : kept e = none
          · obtain ⟨hflat, hdone⟩ := advance_spec s.iov 0 (Nat.zero_le _)
            rw [if_pos hkept, hkept]
            refine ⟨hkernel, h.le, ?_, ?_, h.total, rfl, h.broken.trans hbroken, ?_, by simp⟩
            · show (advance 0 s.iov).2.flatten = _
              rw [show (0 : Int) = ((0 : Nat) : Int) from rfl, hflat, List.drop_zero, h.iov]
            · show (advance 0 s.iov).2 = [] ↔ t.total = _
              rw [show (0 : Int) = ((0 : Nat) : Int) from rfl, hdone]
              omega
            · intro _
              exact ⟨rfl, fun _ => hlt⟩
          · have hsome : (kept e).isSome = true := Option.isSome_iff_ne_none.mpr hkept
            rw [if_neg hkept, hsome]
            exact ⟨hkernel, h.le, h.iov, h.done, h.total, rfl, rfl, by simp,
              fun _ => ⟨rfl, rfl, hkept⟩⟩

/-- Given the same answers the two loops stop in related states. -/
theorem nwritev_follows {iov : List (List UInt8)} (hlen : 1 ≤ iov.flatten.length)
    (flags : UInt32) (k : Kernel) (events : List Event) :
    (nwritev iov flags k events).outcome
        = (nwrite iov.flatten iov.flatten.length flags k events).outcome
      ∧ (nwritev iov flags k events).kernel.mute
        = (nwrite iov.flatten iov.flatten.length flags k events).kernel.mute
      ∧ (nwritev iov flags k events).rest
        = (nwrite iov.flatten iov.flatten.length flags k events).rest := by
  have hne : iov ≠ [] := by
    rintro rfl
    exact absurd hlen (by decide)
  have hstart : Follows iov.flatten ⟨k, iov, none, 0, 0, false⟩ ⟨k, none, 0, 0, false⟩ := by
    refine ⟨rfl, Nat.zero_le _, rfl, iff_of_false hne (by show ¬0 = _; omega), rfl, rfl, rfl,
      ?_, by simp⟩
    intro _
    exact ⟨rfl, by simp⟩
  rw [nwritev, if_neg hne]
  exact runLoop_simulates Gathering.kernel Writing.kernel (S := fun k k' => k.mute = k'.mute)
    (fun h => h.kernel) (fun h => h.exit flags) (fun h _ hgo => h.turn flags hgo) events hstart

/-- So `nwritev` returns where `nwrite` does. -/
theorem nwritev_returns {iov : List (List UInt8)} (hlen : 1 ≤ iov.flatten.length)
    (flags : UInt32) (k : Kernel) {events : List Event} (hgo : ∀ ev ∈ events, GoesOn ev)
    (hall : accepted events = iov.flatten.length) (rest : List Event) :
    (nwritev iov flags k (events ++ rest)).outcome = .returns (iov.flatten.length : Int)
      ∧ (nwritev iov flags k (events ++ rest)).kernel.output = k.output ++ iov.flatten := by
  obtain ⟨hout, hkernel, -⟩ := nwritev_follows hlen flags k (events ++ rest)
  have hwhole := nwrite_returns iov.flatten (Nat.le_refl _) flags k hgo hall rest
  rw [List.take_length] at hwhole
  exact ⟨hout.trans hwhole.1, (Kernel.mute_ext hkernel).2.2.2.trans hwhole.2⟩

/-- **nwritev is nwrite on the concatenation.** The same answers are
taken, the same bytes handed on, and the value and `errno` are the same.
Where nothing failed for good, all of the bytes were handed on. -/
theorem nwritev_nwrite (iov : List (List UInt8)) (hlen : 1 ≤ iov.flatten.length)
    (flags : UInt32) (k : Kernel) (events : List Event) :
    (nwritev iov flags k events).outcome
        = (nwrite iov.flatten iov.flatten.length flags k events).outcome
      ∧ (nwritev iov flags k events).kernel.output
        = (nwrite iov.flatten iov.flatten.length flags k events).kernel.output
      ∧ (nwritev iov flags k events).kernel.errno
        = (nwrite iov.flatten iov.flatten.length flags k events).kernel.errno
      ∧ (nwritev iov flags k events).rest
        = (nwrite iov.flatten iov.flatten.length flags k events).rest
      ∧ ∃ used, events = used ++ (nwritev iov flags k events).rest
        ∧ ((nwritev iov flags k events).outcome ≠ .waits →
            (∀ e, .write (.fail e) ∈ used → e = .EINTR) →
            (nwritev iov flags k events).kernel.output = k.output ++ iov.flatten) := by
  obtain ⟨hout, hkernel, hrest⟩ := nwritev_follows hlen flags k events
  obtain ⟨herrno, -, -, houtput⟩ := Kernel.mute_ext hkernel
  obtain ⟨used, sent, hsplit, hw⟩ := nwrite_spec iov.flatten flags k events
  refine ⟨hout, houtput, herrno, hrest, used, ?_, ?_⟩
  · rw [hrest]
    exact hsplit
  · intro hdone hfails
    rw [houtput, hw.output]
    rcases hw.outcome with hwaits | ⟨-, hall, -, -⟩ | ⟨-, -, e, hbad, hmem, -⟩
    · exact absurd (hout.trans hwaits) hdone
    · rw [hall, List.take_length]
    · exact absurd (hfails e hmem) hbad

/-- The first write ends inside the last entry. -/
def splitEntry : List Event := [.write (.count 3), .write (.fail .EINTR), .write (.count 1)]

/-- Three entries, one of them empty. -/
theorem nwritev_nwrite_entries :
    (nwritev [[1, 2], [], [3, 4]] 0 (Kernel.fresh none) splitEntry).outcome = .returns 4
      ∧ (nwrite [1, 2, 3, 4] 4 0 (Kernel.fresh none) splitEntry).outcome = .returns 4
      ∧ (nwritev [[1, 2], [], [3, 4]] 0 (Kernel.fresh none) splitEntry).kernel.output
        = [1, 2, 3, 4] := by
  have hret : (nwritev [[1, 2], [], [3, 4]] 0 (Kernel.fresh none) splitEntry).outcome
      = .returns 4 := by decide
  obtain ⟨hsame, -, -, -, used, hsplit, hall⟩ :=
    nwritev_nwrite [[1, 2], [], [3, 4]] (by decide) 0 (Kernel.fresh none) splitEntry
  refine ⟨hret, hsame ▸ hret, hall (by simp [hret]) fun e he => ?_⟩
  have hmem : .write (.fail e) ∈ splitEntry := by
    rw [hsplit]
    exact List.mem_append_left _ he
  simpa [splitEntry] using hmem

/-! ## Stale errno -/

/-- The same but for `errno` and `stderr`. -/
def Same (k k' : Kernel) : Prop := k'.file = k.file ∧ k'.pos = k.pos ∧ k'.output = k.output

theorem same_of_mute {k k' t t' : Kernel} {e e' : Option Errno} (h : Same k k')
    (ht : t.mute = { k.mute with errno := e }) (ht' : t'.mute = { k'.mute with errno := e' }) :
    Same t t' := by
  obtain ⟨-, hfile, hpos, hout⟩ := Kernel.mute_with ht
  obtain ⟨-, hfile', hpos', hout'⟩ := Kernel.mute_with ht'
  obtain ⟨h1, h2, h3⟩ := h
  exact ⟨hfile'.trans (h1.trans hfile.symm), hpos'.trans (h2.trans hpos.symm),
    hout'.trans (h3.trans hout.symm)⟩

theorem Same.retry {k k' : Kernel} (h : Same k k') (flags : UInt32) :
    Same (k.retry flags) (k'.retry flags) :=
  same_of_mute h (Kernel.mute_retry k flags) (Kernel.mute_retry k' flags)

theorem Same.setErrno {k k' : Kernel} (h : Same k k') (err : Option Errno) :
    Same (k.setErrno err) (k'.setErrno err) := by
  cases err with
  | none => exact h
  | some e => exact h

/-- A call that does not look at `errno`, and sets it if it fails. -/
def Blind (call : ReadCall) : Prop :=
  ∀ {k k' : Kernel} (c : Nat) (o : Int) (l : Event), Same k k' →
    Option.Rel (fun v v' => v'.1 = v.1 ∧ v'.2.1 = v.2.1 ∧ Same v.2.2 v'.2.2
      ∧ (v.1 = -1 → v'.2.2.errno = v.2.2.errno)) (call k c o l) (call k' c o l)

theorem read_blind : Blind fun k c _ => k.read c := by
  rintro k k' c o l ⟨hfile, hpos, hout⟩
  cases l with
  | write a => exact Option.Rel.none
  | sendfile a => exact Option.Rel.none
  | call c err => exact Option.Rel.none
  | read a =>
      cases a with
      | fail e => exact Option.Rel.some ⟨rfl, rfl, ⟨hfile, hpos, hout⟩, fun _ => rfl⟩
      | count n =>
          simp only [Kernel.read, hfile, hpos]
          split
          · refine Option.Rel.some ⟨rfl, rfl, ⟨rfl, rfl, hout⟩, ?_⟩
            intro h
            exact absurd h (by show ¬(n : Int) = -1; omega)
          · exact Option.Rel.none

theorem pread_blind : Blind Kernel.pread := by
  rintro k k' c o l ⟨hfile, hpos, hout⟩
  cases l with
  | write a => exact Option.Rel.none
  | sendfile a => exact Option.Rel.none
  | call c err => exact Option.Rel.none
  | read a =>
      cases a with
      | fail e => exact Option.Rel.some ⟨rfl, rfl, ⟨hfile, hpos, hout⟩, fun _ => rfl⟩
      | count n =>
          simp only [Kernel.pread, hfile]
          split
          · refine Option.Rel.some ⟨rfl, rfl, ⟨hfile, hpos, hout⟩, ?_⟩
            intro h
            exact absurd h (by show ¬(n : Int) = -1; omega)
          · exact Option.Rel.none

theorem write_blind {k k' : Kernel} (buf : List UInt8) (l : Event) (h : Same k k') :
    Option.Rel (fun v v' => v'.1 = v.1 ∧ Same v.2 v'.2 ∧ (v.1 ≤ 0 → v'.2.errno = v.2.errno))
      (k.write buf l) (k'.write buf l) := by
  obtain ⟨hfile, hpos, hout⟩ := h
  cases l with
  | read a => exact Option.Rel.none
  | sendfile a => exact Option.Rel.none
  | call c err => exact Option.Rel.none
  | write a =>
      cases a with
      | fail e => exact Option.Rel.some ⟨rfl, ⟨hfile, hpos, hout⟩, fun _ => rfl⟩
      | count n =>
          simp only [Kernel.write, hout]
          split
          · refine Option.Rel.some ⟨rfl, ⟨hfile, hpos, rfl⟩, ?_⟩
            intro h
            exact absurd h (by show ¬(n : Int) ≤ 0; omega)
          · exact Option.Rel.none

/-- Two read loops that differ in `errno` alone. -/
structure SameReading (s s' : Reading) : Prop where
  kernel : Same s.kernel s'.kernel
  buf : s'.buf = s.buf
  err : s'.err = s.err
  offset : s'.offset = s.offset
  next : s'.next = s.next

theorem SameReading.exit {call : ReadCall} {count : Nat} {flags : UInt32} {s s' : Reading}
    (h : SameReading s s') :
    Option.Rel (fun v v' => v.1 = v'.1 ∧ Same v.2 v'.2) ((nreadLoop call count flags).exit s)
      ((nreadLoop call count flags).exit s') := by
  have htotal : s'.total = s.total := congrArg List.length h.buf
  simp only [nreadLoop, htotal, h.buf, h.err, h.next]
  split
  · exact Option.Rel.some ⟨rfl, h.kernel⟩
  · split
    · exact Option.Rel.some ⟨rfl, h.kernel.setErrno s.err⟩
    · exact Option.Rel.none

theorem SameReading.turn {call : ReadCall} (hcall : Blind call) {count : Nat} {flags : UInt32}
    {s s' : Reading} {l : Event} (h : SameReading s s') :
    Option.Rel SameReading ((nreadLoop call count flags).turn s l)
      ((nreadLoop call count flags).turn s' l) := by
  have htotal : s'.total = s.total := congrArg List.length h.buf
  have hread := hcall (count - s.total) s.offset l h.kernel
  simp only [nreadLoop, htotal, h.offset, Option.bind_eq_bind]
  cases hv : call s.kernel (count - s.total) s.offset l with
  | none =>
      rw [hv] at hread
      cases hv' : call s'.kernel (count - s.total) s.offset l with
      | none => exact Option.Rel.none
      | some v' =>
          rw [hv'] at hread
          cases hread
  | some v =>
      rw [hv] at hread
      cases hv' : call s'.kernel (count - s.total) s.offset l with
      | none =>
          rw [hv'] at hread
          cases hread
      | some v' =>
          rw [hv'] at hread
          obtain ⟨nrd, bytes, k⟩ := v
          obtain ⟨nrd', bytes', k'⟩ := v'
          cases hread with
          | some hread =>
              obtain ⟨hnrd, hbytes, hk, herrno⟩ := hread
              dsimp only at hnrd hbytes hk herrno
              subst hnrd hbytes
              simp only [Option.bind_some]
              by_cases hfail : nrd' = -1
              · rw [if_pos hfail, if_pos hfail, herrno hfail]
                split
                · exact Option.Rel.some ⟨hk.retry flags, h.buf, rfl, rfl, h.next⟩
                · split
                  · exact Option.Rel.some ⟨hk, h.buf, rfl, rfl, rfl⟩
                  · exact Option.Rel.some ⟨hk, h.buf, rfl, rfl, rfl⟩
              · rw [if_neg hfail, if_neg hfail]
                split
                · exact Option.Rel.some ⟨hk, h.buf, h.err, rfl, rfl⟩
                · exact Option.Rel.some ⟨hk, by rw [h.buf], h.err, rfl, h.next⟩

theorem nreadLoop_same {call : ReadCall} (hcall : Blind call) (count : Nat) (o : Int)
    (flags : UInt32) {k k' : Kernel} (h : Same k k') (events : List Event) :
    (runLoop (nreadLoop call count flags) Reading.kernel ⟨k, [], none, o, .again⟩ events).outcome
        = (runLoop (nreadLoop call count flags) Reading.kernel ⟨k', [], none, o, .again⟩
            events).outcome
      ∧ Same
        (runLoop (nreadLoop call count flags) Reading.kernel ⟨k, [], none, o, .again⟩ events).kernel
        (runLoop (nreadLoop call count flags) Reading.kernel ⟨k', [], none, o, .again⟩
          events).kernel
      ∧ (runLoop (nreadLoop call count flags) Reading.kernel ⟨k, [], none, o, .again⟩ events).rest
        = (runLoop (nreadLoop call count flags) Reading.kernel ⟨k', [], none, o, .again⟩
            events).rest :=
  runLoop_simulates Reading.kernel Reading.kernel (fun h => h.kernel)
    (fun h => SameReading.exit h)
    (fun h _ _ => SameReading.turn hcall h) events ⟨h, rfl, rfl, rfl, rfl⟩

/-- Two write loops that differ in `errno` alone. -/
structure SameWriting (s s' : Writing) : Prop where
  kernel : Same s.kernel s'.kernel
  err : s'.err = s.err
  total : s'.total = s.total
  nwr : s'.nwr = s.nwr
  broken : s'.broken = s.broken

theorem SameWriting.exit {buf : List UInt8} {count : Nat} {flags : UInt32} {s s' : Writing}
    (h : SameWriting s s') :
    Option.Rel (fun v v' => v.1 = v'.1 ∧ Same v.2 v'.2) ((nwriteLoop buf count flags).exit s)
      ((nwriteLoop buf count flags).exit s') := by
  simp only [nwriteLoop, h.err, h.total, h.nwr, h.broken]
  split
  · exact Option.Rel.some ⟨rfl, h.kernel.setErrno s.err⟩
  · exact Option.Rel.none

theorem SameWriting.turn {buf : List UInt8} {count : Nat} {flags : UInt32} {s s' : Writing}
    {l : Event} (h : SameWriting s s') :
    Option.Rel SameWriting ((nwriteLoop buf count flags).turn s l)
      ((nwriteLoop buf count flags).turn s' l) := by
  have hwrite := write_blind ((buf.drop s.total).take (count - s.total)) l h.kernel
  simp only [nwriteLoop, h.total, Option.bind_eq_bind]
  cases hv : s.kernel.write ((buf.drop s.total).take (count - s.total)) l with
  | none =>
      rw [hv] at hwrite
      cases hv' : s'.kernel.write ((buf.drop s.total).take (count - s.total)) l with
      | none => exact Option.Rel.none
      | some v' =>
          rw [hv'] at hwrite
          cases hwrite
  | some v =>
      rw [hv] at hwrite
      cases hv' : s'.kernel.write ((buf.drop s.total).take (count - s.total)) l with
      | none =>
          rw [hv'] at hwrite
          cases hwrite
      | some v' =>
          rw [hv'] at hwrite
          obtain ⟨nwr, k⟩ := v
          obtain ⟨nwr', k'⟩ := v'
          cases hwrite with
          | some hwrite =>
              obtain ⟨hnwr, hk, herrno⟩ := hwrite
              dsimp only at hnwr hk herrno
              subst hnwr
              simp only [Option.bind_some]
              by_cases hfail : nwr' ≤ 0
              · rw [if_pos hfail, if_pos hfail, herrno hfail]
                split
                · exact Option.Rel.some ⟨hk.retry flags, rfl, rfl, rfl, h.broken⟩
                · split
                  · exact Option.Rel.some ⟨hk, rfl, rfl, rfl, rfl⟩
                  · exact Option.Rel.some ⟨hk, rfl, rfl, rfl, rfl⟩
              · rw [if_neg hfail, if_neg hfail]
                exact Option.Rel.some ⟨hk, h.err, rfl, rfl, h.broken⟩

theorem nwrite_same (buf : List UInt8) (count : Nat) (flags : UInt32) {k k' : Kernel}
    (h : Same k k') (events : List Event) :
    (nwrite buf count flags k events).outcome = (nwrite buf count flags k' events).outcome
      ∧ Same (nwrite buf count flags k events).kernel (nwrite buf count flags k' events).kernel
      ∧ (nwrite buf count flags k events).rest = (nwrite buf count flags k' events).rest :=
  runLoop_simulates Writing.kernel Writing.kernel (fun h => h.kernel)
    (fun h => SameWriting.exit h)
    (fun h _ _ => SameWriting.turn h) events ⟨h, rfl, rfl, rfl, rfl⟩

/-- The part of `transfer` that reads. -/
def readPart (offset : Option Int) (count : Nat) (flags : UInt32) (k : Kernel)
    (events : List Event) : Ret (Int × List UInt8) :=
  match offset with
  | some o =>
      npread (if count = 0 ∨ count > trfbufLimit then trfbufLimit else count) o flags k events
  | none => nread (if count = 0 ∨ count > trfbufLimit then trfbufLimit else count) flags k events

theorem transfer_eq {flags : UInt32} (hflags : flags &&& fdioSendfile = 0) (offset : Option Int)
    (count : Nat) (k : Kernel) (events : List Event) :
    transfer offset count flags k events
      = (readPart offset count flags k events).andThen fun v k events =>
          passOn offset flags v.1 v.2 k events := by
  simp only [transfer, if_neg (not_not.mpr hflags)]
  rfl

theorem readPart_spec (offset : Option Int) (count : Nat) (flags : UInt32) (k : Kernel)
    (events : List Event) :
    ∃ avail At n used buf, events = used ++ (readPart offset count flags k events).rest
      ∧ WasRead avail At n k used buf (readPart offset count flags k events) := by
  cases offset with
  | none => exact ⟨_, _, _, nread_spec _ flags k events⟩
  | some o => exact ⟨_, _, _, npread_spec _ o flags k events⟩

theorem readPart_same (offset : Option Int) (count : Nat) (flags : UInt32) {k k' : Kernel}
    (h : Same k k') (events : List Event) :
    (readPart offset count flags k events).outcome
        = (readPart offset count flags k' events).outcome
      ∧ Same (readPart offset count flags k events).kernel
          (readPart offset count flags k' events).kernel
      ∧ (readPart offset count flags k events).rest
        = (readPart offset count flags k' events).rest := by
  cases offset with
  | none => exact nreadLoop_same read_blind _ _ flags h events
  | some o => exact nreadLoop_same pread_blind _ o flags h events

/-- What is passed on with `errno` set, or nothing read, is nothing. -/
theorem passOn_value {offset : Option Int} {flags : UInt32} {buf : List UInt8} {k k' : Kernel}
    {events rest : List Event} {v : Int × Option Int}
    (h : passOn offset flags buf.length buf k events = ⟨.returns v, k', rest⟩) :
    ∃ writes, events = writes ++ rest ∧ (∀ ev ∈ writes, ∃ a, ev = .write a)
      ∧ (v.1 = 0 ↔ buf.length = 0 ∨ k.errno ≠ none) := by
  by_cases hstop : buf.length = 0 ∨ k.errno ≠ none
  · rw [passOn_stop (hstop.imp_left fun h0 => by omega)] at h
    cases h
    exact ⟨[], rfl, by simp, iff_of_true rfl hstop⟩
  · have hgo := hstop
    rw [not_or, not_not] at hgo
    obtain ⟨writes, sent, hsplit, hw⟩ := nwrite_spec buf flags k events
    rw [passOn_write hgo.1 hgo.2] at h
    rcases hw.outcome with hwaits | ⟨hret, -⟩ | ⟨hret, -⟩
    · simp only [Ret.andThen, hwaits] at h
      cases h
    · simp only [Ret.andThen, hret, if_pos] at h
      cases h
      exact ⟨writes, hsplit, hw.writes, iff_of_false (by omega) hstop⟩
    · simp only [Ret.andThen, hret, if_neg (show ¬(-1 : Int) = buf.length by omega),
        if_pos (show (-1 : Int) < buf.length by omega)] at h
      cases h
      exact ⟨writes, hsplit, hw.writes, iff_of_false (by show ¬(-1 : Int) = 0; decide) hstop⟩

/-- On the same side of the test of `errno` the same is passed on. -/
theorem passOn_same (offset : Option Int) (flags : UInt32) {buf : List UInt8} {k k' : Kernel}
    (hsame : Same k k') (hiff : buf.length = 0 ∨ (k.errno = none ↔ k'.errno = none))
    (events : List Event) :
    (passOn offset flags buf.length buf k events).outcome
        = (passOn offset flags buf.length buf k' events).outcome
      ∧ Same (passOn offset flags buf.length buf k events).kernel
          (passOn offset flags buf.length buf k' events).kernel := by
  by_cases hstop : buf.length = 0 ∨ k.errno ≠ none
  · have hstop' : buf.length = 0 ∨ k'.errno ≠ none := by
      rcases hstop with h0 | herr
      · exact Or.inl h0
      · exact hiff.imp_right fun h => mt h.mpr herr
    rw [passOn_stop (hstop.imp_left fun h0 => by omega),
      passOn_stop (hstop'.imp_left fun h0 => by omega)]
    exact ⟨rfl, hsame⟩
  · rw [not_or, not_not] at hstop
    obtain ⟨hne, hnone⟩ := hstop
    have hnone' : k'.errno = none := (hiff.resolve_left hne).mp hnone
    rw [passOn_write hne hnone, passOn_write hne hnone']
    obtain ⟨hout, hk, hrest⟩ := nwrite_same buf buf.length flags hsame events
    simp only [Ret.andThen, ← hout, ← hrest]
    cases (nwrite buf buf.length flags k events).outcome with
    | waits => exact ⟨rfl, hk⟩
    | aborts => exact ⟨rfl, hk⟩
    | returns nwr =>
        dsimp only
        split
        · exact ⟨rfl, hk⟩
        · split
          · exact ⟨rfl, hk⟩
          · exact ⟨rfl, hk⟩

theorem andThen_returns {ρ ρ' : Type} {r : Ret ρ} {f : ρ → Kernel → List Event → Ret ρ'} {v : ρ'}
    {k : Kernel} {rest : List Event} (h : r.andThen f = ⟨.returns v, k, rest⟩) :
    ∃ w, r.outcome = .returns w ∧ f w r.kernel r.rest = ⟨.returns v, k, rest⟩ := by
  cases hout : r.outcome with
  | waits =>
      simp only [Ret.andThen, hout] at h
      cases h
  | aborts =>
      simp only [Ret.andThen, hout] at h
      cases h
  | returns w =>
      simp only [Ret.andThen, hout] at h
      exact ⟨w, rfl, h⟩

/-- After a read that failed nothing is left of the old `errno`. -/
theorem WasRead.errno_iff {avail avail' : List UInt8} {At At' : Nat → Kernel → Int → Prop}
    {n n' : Nat} {k k' : Kernel} {used : List Event} {buf : List UInt8}
    {r r' : Ret (Int × List UInt8)} (hr : WasRead avail At n k used buf r)
    (hr' : WasRead avail' At' n' k' used buf r') (hret : r.outcome ≠ .waits)
    (hret' : r'.outcome ≠ .waits) :
    (r.kernel.errno = none ↔ r'.kernel.errno = none)
      ↔ (k.errno = none ↔ k'.errno = none) ∨ ∃ e, .read (.fail e) ∈ used := by
  by_cases hany : ∃ e, .read (.fail e) ∈ used
  · refine iff_of_true ?_ (Or.inr hany)
    obtain ⟨e, he⟩ := hany
    rcases (hr.outcome.resolve_left hret).2 with ⟨-, hfails, -⟩ | ⟨e₁, hne, hmem, herr⟩
    · rcases (hr'.outcome.resolve_left hret').2 with ⟨-, hfails', -⟩ | ⟨e₂, hne', hmem', -⟩
      · exact iff_of_true (hfails e he).2 (hfails' e he).2
      · exact absurd (hfails e₂ hmem').1 hne'
    · rcases (hr'.outcome.resolve_left hret').2 with ⟨-, hfails', -⟩ | ⟨e₂, -, -, herr'⟩
      · exact absurd (hfails' e₁ hmem).1 hne
      · rw [herr, herr']
        exact iff_of_false (by simp) (by simp)
  · have hno := not_exists.mp hany
    have herr : r.kernel.errno = k.errno := by
      rcases (hr.outcome.resolve_left hret).2 with ⟨-, -, hsame⟩ | ⟨e, -, hmem, -⟩
      · exact hsame hno
      · exact absurd hmem (hno e)
    have herr' : r'.kernel.errno = k'.errno := by
      rcases (hr'.outcome.resolve_left hret').2 with ⟨-, -, hsame⟩ | ⟨e, -, hmem, -⟩
      · exact hsame hno
      · exact absurd hmem (hno e)
    rw [herr, herr', or_iff_left hany]

/-- **Where an old errno does not matter.** Of two calls that differ in
`errno` alone, with answers for the longer one, the results differ if
and only if one `errno` is zero and the other is not, data was read, and
no read failed. -/
theorem errno_ignored_iff {flags : UInt32} (hflags : flags &&& fdioSendfile = 0)
    {offset : Option Int} {count : Nat} {k k' : Kernel} {e : Option Errno} {events : List Event}
    {v v' : Int × Option Int} {t t' : Kernel} {rest rest' : List Event}
    (hk : k' = { k with errno := e })
    (h : transfer offset count flags k events = ⟨.returns v, t, rest⟩)
    (h' : transfer offset count flags k' events = ⟨.returns v', t', rest'⟩)
    (hall : rest = [] ∨ rest' = []) :
    (v = v' ∧ t.output = t'.output)
      ↔ (k.errno = none ↔ k'.errno = none) ∨ (∃ e, .read (.fail e) ∈ events)
        ∨ ∀ n, n ≠ 0 → .read (.count n) ∉ events := by
  have hsame : Same k k' := by
    subst hk
    exact ⟨rfl, rfl, rfl⟩
  obtain ⟨hout, hpart, hrest⟩ := readPart_same offset count flags hsame events
  obtain ⟨avail, At, n, used, buf, hsplit, hr⟩ := readPart_spec offset count flags k events
  obtain ⟨avail', At', n', used', buf', hsplit', hr'⟩ := readPart_spec offset count flags k' events
  rw [transfer_eq hflags] at h h'
  obtain ⟨w, hw, hp⟩ := andThen_returns h
  obtain ⟨w', hw', hp'⟩ := andThen_returns h'
  obtain ⟨rfl⟩ : used = used' :=
    List.append_cancel_right (hsplit.symm.trans (hrest ▸ hsplit'))
  have hwait : (readPart offset count flags k events).outcome ≠ .waits := by simp [hw]
  have hwait' : (readPart offset count flags k' events).outcome ≠ .waits := by simp [hw']
  obtain rfl : w = (↑buf.length, buf) :=
    Outcome.returns.inj (hw.symm.trans (hr.outcome.resolve_left hwait).1)
  obtain rfl : w' = (↑buf'.length, buf') :=
    Outcome.returns.inj (hw'.symm.trans (hr'.outcome.resolve_left hwait').1)
  obtain rfl : buf = buf' :=
    congrArg Prod.snd (Outcome.returns.inj (hw.symm.trans (hout.trans hw')))
  dsimp only at hp hp'
  rw [← hrest] at hp'
  obtain ⟨writes, hwrites, honly, hzero⟩ := passOn_value hp
  obtain ⟨writes', hwrites', honly', hzero'⟩ := passOn_value hp'
  -- what the reads left over are answers to writes
  have hmem : ∀ a, .read a ∈ events ↔ .read a ∈ used := by
    intro a
    have hnone : .read a ∉ (readPart offset count flags k events).rest := by
      intro ha
      rcases hall with rfl | rfl
      · rw [hwrites, List.append_nil] at ha
        obtain ⟨_, hev⟩ := honly _ ha
        cases hev
      · rw [hwrites', List.append_nil] at ha
        obtain ⟨_, hev⟩ := honly' _ ha
        cases hev
    rw [hsplit, List.mem_append, or_iff_left hnone]
  have hdata : buf.length = 0 ↔ ∀ n, n ≠ 0 → .read (.count n) ∉ events := by
    constructor
    · intro h0 n hn hcount
      exact hr.data.mpr ⟨n, hn, (hmem _).mp hcount⟩ h0
    · intro hno
      refine not_not.mp (mt hr.data.mp ?_)
      rintro ⟨n, hn, hcount⟩
      exact hno n hn ((hmem _).mpr hcount)
  have hfail : (∃ e, .read (.fail e) ∈ events) ↔ ∃ e, .read (.fail e) ∈ used :=
    exists_congr fun e => hmem (.fail e)
  rw [← hdata, hfail, ← or_assoc, ← hr.errno_iff hr' hwait hwait']
  constructor
  · rintro ⟨rfl, -⟩
    by_cases h0 : buf.length = 0
    · exact Or.inr h0
    · rw [hzero] at hzero'
      simpa [h0, not_iff_not] using hzero'
  · intro hcond
    obtain ⟨houtcome, hkernel⟩ := passOn_same offset flags hpart hcond.symm
      (readPart offset count flags k events).rest
    rw [hp, hp'] at houtcome hkernel
    exact ⟨Outcome.returns.inj houtcome, hkernel.2.2.symm⟩

/-- An interruption clears what was in `errno`. -/
def retriedRead : List Event := [.read (.fail .EINTR), .read (.count 2), .write (.count 2)]

theorem errno_ignored_iff_retriedRead :
    (((2, none) : Int × Option Int) = (2, none) ∧ ([1, 2] : List UInt8) = [1, 2])
      ↔ ((Kernel.fresh none).errno = none ↔ (Kernel.fresh (some .EAGAIN)).errno = none)
        ∨ (∃ e, .read (.fail e) ∈ retriedRead) ∨ ∀ n, n ≠ 0 → .read (.count n) ∉ retriedRead := by
  have h : ∀ e ∈ [none, some .EAGAIN], transfer none 2 0 (Kernel.fresh e) retriedRead
      = ⟨.returns (2, none), { Kernel.fresh none with
          pos := 2, output := [1, 2], stderr := [.perror "writev" (some .EINTR)] }, []⟩ := by
    decide
  exact errno_ignored_iff (by decide) rfl (h none (by simp)) (h (some .EAGAIN) (by simp))
    (Or.inl rfl)

/-- Nothing fails, and with an old `EAGAIN` nothing is delivered. -/
theorem errno_leaks :
    transfer none 2 0 (Kernel.fresh none) [.read (.count 2), .write (.count 2)]
        = ⟨.returns (2, none), { Kernel.fresh none with pos := 2, output := [1, 2] }, []⟩
      ∧ transfer none 2 0 (Kernel.fresh (some .EAGAIN)) [.read (.count 2), .write (.count 2)]
        = ⟨.returns (0, none), { Kernel.fresh (some .EAGAIN) with pos := 2 },
            [.write (.count 2)]⟩ := by
  decide

end Fdio

end MiscTools
