import MiscTools.Fdio
import Mathlib.Data.List.Basic

/-!
# The retrying loops

What one answer does to each loop, and from it what a whole call does.
A failure either clears `errno` and the loop goes on, or it is kept and
ends the call (`kept`). A write loop has handed on a prefix of its
buffer wherever it stands (`nwrite_spec`); a read loop has stored a
prefix of what there was to read (`nreadLoop_spec`).
-/

namespace MiscTools

namespace Fdio

/-! ## What the loops do not report -/

/-- The kernel, but for what went to `stderr`. -/
def Kernel.mute (k : Kernel) : Kernel := { k with stderr := [] }

@[simp] theorem Kernel.mute_report (k : Kernel) (d : Diag) : (k.report d).mute = k.mute := rfl

@[simp] theorem Kernel.mute_perror (k : Kernel) (s : String) : (k.perror s).mute = k.mute := rfl

@[simp] theorem Kernel.mute_retry (k : Kernel) (flags : UInt32) :
    (k.retry flags).mute = { k.mute with errno := none } := by
  unfold Kernel.retry
  split <;> rfl

theorem Kernel.mute_ext {k k' : Kernel} (h : k.mute = k'.mute) :
    k.errno = k'.errno ∧ k.file = k'.file ∧ k.pos = k'.pos ∧ k.output = k'.output := by
  simp only [Kernel.mute, Kernel.mk.injEq, and_true] at h
  exact h

theorem Kernel.mute_with {k k' : Kernel} {e : Option Errno}
    (h : k'.mute = { k.mute with errno := e }) :
    k'.errno = e ∧ k'.file = k.file ∧ k'.pos = k.pos ∧ k'.output = k.output := by
  simp only [Kernel.mute, Kernel.mk.injEq, and_true] at h
  exact h

/-- What `err` and `errno` are after a failed call. -/
def kept (e : Errno) : Option Errno := if some .EINTR = some e then none else some e

@[simp] theorem kept_eintr : kept .EINTR = none := rfl

theorem kept_of_ne {e : Errno} (h : e ≠ .EINTR) : kept e = some e := by
  rw [kept, if_neg]
  intro heq
  exact h (Option.some.inj heq).symm

theorem kept_eq_none {e : Errno} : kept e = none ↔ e = .EINTR := by
  by_cases h : e = .EINTR
  · simp [h]
  · simp [kept_of_ne h, h]

theorem mem_snoc_of_ne {ev l : Event} {used : List Event} (h : ev ≠ l) :
    ev ∈ used ++ [l] ↔ ev ∈ used := by
  rw [List.mem_append, List.mem_singleton]
  exact or_iff_left h

/-! ## Loops turn by turn -/

section

variable {σ ρ : Type} {L : Loop σ Event (ρ × Kernel)} {kernel : σ → Kernel} {s s' : σ}

theorem runLoop_exit {v : ρ} {k : Kernel} (h : L.exit s = some (v, k)) (events : List Event) :
    runLoop L kernel s events = ⟨.returns v, k, events⟩ := by
  cases events with
  | nil => simp only [runLoop, Loop.drive, h]
  | cons l ls => simp only [runLoop, Loop.drive, h]

theorem runLoop_nil (h : L.exit s = none) : runLoop L kernel s [] = ⟨.waits, kernel s, []⟩ := by
  simp only [runLoop, Loop.drive, h]

theorem runLoop_stuck {l : Event} (h : L.exit s = none) (ht : L.turn s l = none)
    (ls : List Event) : runLoop L kernel s (l :: ls) = ⟨.waits, kernel s, l :: ls⟩ := by
  simp only [runLoop, Loop.drive, h, ht]

theorem runLoop_turn {l : Event} (h : L.exit s = none) (ht : L.turn s l = some s')
    (ls : List Event) : runLoop L kernel s (l :: ls) = runLoop L kernel s' ls := by
  simp only [runLoop, Loop.drive, h, ht]

end

/-! ## One turn of nwrite -/

theorem nwrite_turn_count (buf : List UInt8) (count : Nat) (flags : UInt32) (s : Writing)
    (n : Nat) :
    (nwriteLoop buf count flags).turn s (.write (.count n))
      = if 1 ≤ n ∧ n ≤ ((buf.drop s.total).take (count - s.total)).length then
          some { s with
            kernel := { s.kernel with
              output := s.kernel.output ++ ((buf.drop s.total).take (count - s.total)).take n }
            nwr := n
            total := s.total + n }
        else none := by
  simp only [nwriteLoop, Kernel.write]
  by_cases h : 1 ≤ n ∧ n ≤ ((buf.drop s.total).take (count - s.total)).length
  · rw [if_pos h, if_pos h]
    have hpos : ¬(n : Int) ≤ 0 := by omega
    show (if (n : Int) ≤ 0 then _ else _) = _
    rw [if_neg hpos]
    rfl
  · rw [if_neg h, if_neg h]
    rfl

theorem nwrite_turn_fail (buf : List UInt8) (count : Nat) (flags : UInt32) (s : Writing)
    (e : Errno) :
    ∃ k, k.mute = { s.kernel.mute with errno := kept e }
      ∧ (nwriteLoop buf count flags).turn s (.write (.fail e))
        = some { s with
            kernel := k, err := kept e, nwr := -1, broken := s.broken || (kept e).isSome } := by
  simp only [nwriteLoop, Kernel.write, Option.bind_eq_bind, Option.bind_some]
  rw [if_pos (by decide : (-1 : Int) ≤ 0)]
  by_cases h : e = .EINTR
  · subst h
    rw [if_pos rfl, kept_eintr, Option.isSome_none, Bool.or_false]
    refine ⟨_, ?_, rfl⟩
    rw [Kernel.mute_retry]
    rfl
  · rw [kept_of_ne h, Option.isSome_some, Bool.or_true, if_neg]
    · split
      · exact ⟨_, rfl, rfl⟩
      · exact ⟨_, rfl, rfl⟩
    · intro heq
      exact h (Option.some.inj heq).symm

theorem nwrite_turn_write {buf : List UInt8} {count : Nat} {flags : UInt32} {s s' : Writing}
    {l : Event} (h : (nwriteLoop buf count flags).turn s l = some s') : ∃ a, l = .write a := by
  cases l with
  | write a => exact ⟨a, rfl⟩
  | read a => cases h
  | sendfile a => cases h
  | call c err => cases h

/-! ## nwrite -/

/-- Where a write loop stands that began with kernel `k`. -/
structure WriteInv (buf : List UInt8) (k : Kernel) (used : List Event) (s : Writing) : Prop where
  le : s.total ≤ buf.length
  output : s.kernel.output = k.output ++ buf.take s.total
  file : s.kernel.file = k.file
  pos : s.kernel.pos = k.pos
  writes : ∀ ev ∈ used, ∃ a, ev = .write a
  going : s.broken = false → s.err = none ∧ (s.nwr < 0 → s.total < buf.length)
    ∧ (k.errno = none → s.kernel.errno = none) ∧ ∀ e, .write (.fail e) ∈ used → e = .EINTR
  broken : s.broken = true → s.nwr = -1 ∧ s.total < buf.length
    ∧ ∃ e, e ≠ .EINTR ∧ s.err = some e ∧ .write (.fail e) ∈ used

/-- The loop goes on while bytes are left and no write has failed. -/
theorem nwriteLoop_going {buf : List UInt8} {count : Nat} {flags : UInt32} {s : Writing}
    (h : (nwriteLoop buf count flags).exit s = none) : s.total < count ∧ s.broken = false := by
  simp only [nwriteLoop] at h
  split at h
  · cases h
  · rename_i hgo
    rw [not_or, not_not] at hgo
    exact ⟨hgo.2, Bool.not_eq_true _ ▸ hgo.1⟩

section

variable {buf : List UInt8} {flags : UInt32} {k : Kernel} {used : List Event} {s s' : Writing}

/-- Bytes are accepted. -/
theorem WriteInv.turn_count {n : Nat} (hI : WriteInv buf k used s) (hbroken : s.broken = false)
    (h : (nwriteLoop buf buf.length flags).turn s (.write (.count n)) = some s') :
    WriteInv buf k (used ++ [.write (.count n)]) s' := by
  obtain ⟨herr, -, hquiet, hfails⟩ := hI.going hbroken
  have hle := hI.le
  rw [nwrite_turn_count] at h
  split at h
  · rename_i hn
    cases h
    rw [List.length_take, List.length_drop] at hn
    have hbytes : ((buf.drop s.total).take (buf.length - s.total)).take n
        = (buf.drop s.total).take n := by
      rw [List.take_take, Nat.min_eq_left (by omega)]
    refine ⟨by show s.total + n ≤ _; omega, ?_, hI.file, hI.pos,
      List.forall_mem_append.mpr ⟨hI.writes, List.forall_mem_singleton.mpr ⟨_, rfl⟩⟩, ?_, ?_⟩
    · show s.kernel.output ++ _ = _
      rw [hbytes, hI.output, List.append_assoc, ← List.take_add]
    · intro _
      refine ⟨herr, ?_, hquiet, ?_⟩
      · intro hneg
        exact absurd hneg (by show ¬(n : Int) < 0; omega)
      · intro e he
        exact hfails e ((mem_snoc_of_ne (by simp)).mp he)
    · intro hbr
      rw [hbroken] at hbr
      cases hbr
  · cases h

/-- A write fails: the loop goes on after `EINTR` only. -/
theorem WriteInv.turn_fail {e : Errno} (hI : WriteInv buf k used s) (hlt : s.total < buf.length)
    (hbroken : s.broken = false)
    (h : (nwriteLoop buf buf.length flags).turn s (.write (.fail e)) = some s') :
    WriteInv buf k (used ++ [.write (.fail e)]) s' := by
  obtain ⟨-, -, -, hfails⟩ := hI.going hbroken
  obtain ⟨k', hk', hturn⟩ := nwrite_turn_fail buf buf.length flags s e
  rw [hturn] at h
  cases h
  obtain ⟨herrno, hfile, hpos, hout⟩ := Kernel.mute_with hk'
  refine ⟨hI.le, hout.trans hI.output, hfile.trans hI.file, hpos.trans hI.pos,
    List.forall_mem_append.mpr ⟨hI.writes, List.forall_mem_singleton.mpr ⟨_, rfl⟩⟩, ?_, ?_⟩
  · intro hbr
    have hsome : (kept e).isSome = false := by
      simpa [hbroken] using hbr
    have hnone : kept e = none := by
      cases hke : kept e with
      | none => rfl
      | some e' =>
          rw [hke] at hsome
          cases hsome
    refine ⟨hnone, fun _ => hlt, fun _ => herrno.trans hnone, ?_⟩
    intro e' he'
    rcases List.mem_append.mp he' with he' | he'
    · exact hfails e' he'
    · cases List.mem_singleton.mp he'
      exact kept_eq_none.mp hnone
  · intro hbr
    have hne : e ≠ .EINTR := by
      rintro rfl
      rw [kept_eintr] at hbr
      simp [hbroken] at hbr
    exact ⟨rfl, hlt, e, hne, kept_of_ne hne, by simp⟩

theorem WriteInv.turn {l : Event} (hI : WriteInv buf k used s)
    (hexit : (nwriteLoop buf buf.length flags).exit s = none)
    (h : (nwriteLoop buf buf.length flags).turn s l = some s') :
    WriteInv buf k (used ++ [l]) s' := by
  obtain ⟨hlt, hbroken⟩ := nwriteLoop_going hexit
  obtain ⟨a, rfl⟩ := nwrite_turn_write h
  cases a with
  | count n => exact hI.turn_count hbroken h
  | fail e => exact hI.turn_fail hlt hbroken h

end

/-- What a call of `nwrite` has done that took the answers `used`: it
waits, or all was sent and nothing failed for good, or it failed. -/
structure Wrote (buf : List UInt8) (k : Kernel) (used : List Event) (sent : Nat) (r : Ret Int) :
    Prop where
  le : sent ≤ buf.length
  output : r.kernel.output = k.output ++ buf.take sent
  file : r.kernel.file = k.file
  pos : r.kernel.pos = k.pos
  writes : ∀ ev ∈ used, ∃ a, ev = .write a
  outcome : r.outcome = .waits
    ∨ (r.outcome = .returns buf.length ∧ sent = buf.length
        ∧ (k.errno = none → r.kernel.errno = none) ∧ ∀ e, .write (.fail e) ∈ used → e = .EINTR)
    ∨ (r.outcome = .returns (-1) ∧ sent < buf.length
        ∧ ∃ e, e ≠ .EINTR ∧ .write (.fail e) ∈ used ∧ r.kernel.errno = some e)

/-- **nwrite.** What it hands on is a prefix of the buffer: the whole of
it, or less and then `-1` comes back with the error in `errno`. -/
theorem nwrite_spec (buf : List UInt8) (flags : UInt32) (k : Kernel) (events : List Event) :
    ∃ used sent, events = used ++ (nwrite buf buf.length flags k events).rest
      ∧ Wrote buf k used sent (nwrite buf buf.length flags k events) := by
  have hstart : WriteInv buf k [] ⟨k, none, 0, 0, false⟩ := by
    refine ⟨Nat.zero_le _, by simp, rfl, rfl, by simp, ?_, by simp⟩
    intro _
    exact ⟨rfl, by simp, fun h => h, by simp⟩
  rcases hdrive : (nwriteLoop buf buf.length flags).drive ⟨k, none, 0, 0, false⟩ events with
    ⟨r, s, rest⟩
  obtain ⟨used, hsplit, hI, hr⟩ := Loop.drive_invariant
    (fun hI hexit h => WriteInv.turn hI hexit h) hstart hdrive
  rw [List.nil_append] at hI
  simp only [nwrite, runLoop, hdrive]
  cases r with
  | none => exact ⟨used, s.total, hsplit, hI.le, hI.output, hI.file, hI.pos, hI.writes, Or.inl rfl⟩
  | some v =>
      obtain ⟨v, k'⟩ := v
      simp only [nwriteLoop] at hr
      split at hr
      swap
      · cases hr
      rename_i hleft
      cases hr
      refine ⟨used, s.total, hsplit, hI.le, ?_, ?_, ?_, hI.writes, Or.inr ?_⟩
      · cases s.err <;> exact hI.output
      · cases s.err <;> exact hI.file
      · cases s.err <;> exact hI.pos
      · cases hbr : s.broken with
        | false =>
            obtain ⟨herr, hneg, hquiet, hfails⟩ := hI.going hbr
            have hfull : s.total = buf.length := by
              rw [hbr] at hleft
              have hle := hI.le
              simp at hleft
              omega
            have hnn : ¬s.nwr < 0 := fun h => Nat.lt_irrefl _ (hfull ▸ hneg h)
            refine Or.inl ⟨?_, hfull, ?_, hfails⟩
            · rw [if_neg hnn, hfull]
            · rw [herr]
              exact hquiet
        | true =>
            obtain ⟨hnwr, hlt, e, hne, herr, hmem⟩ := hI.broken hbr
            refine Or.inr ⟨?_, hlt, e, hne, hmem, ?_⟩
            · rw [hnwr]
              rfl
            · rw [herr]
              rfl

/-! ## nread and npread -/

abbrev ReadCall := Kernel → Nat → Int → Event → Option (Int × List UInt8 × Kernel)

/-- The call reads what is left of `avail`. `At n` is where the kernel
and the offset are after `n` bytes. -/
structure Reads (call : ReadCall) (avail : List UInt8) (At : Nat → Kernel → Int → Prop) :
    Prop where
  frame : ∀ {n k k' o}, At n k o → k'.file = k.file → k'.pos = k.pos → At n k' o
  count : ∀ {n k o c m r bytes k'}, At n k o →
    call k c o (.read (.count m)) = some (r, bytes, k') →
      r = m ∧ bytes = (avail.drop n).take m ∧ Kernel.Fits m c (avail.length - n)
        ∧ k'.errno = k.errno ∧ k'.output = k.output ∧ At (n + m) k' (o + m)
  fail : ∀ k o c e, call k c o (.read (.fail e)) = some (-1, [], { k with errno := some e })
  reads : ∀ {k o c l v}, call k c o l = some v → ∃ a, l = .read a

theorem read_reads (k : Kernel) :
    Reads (fun k c _ => k.read c) (k.file.drop k.pos)
      fun n k' _ => k'.file = k.file ∧ k'.pos = k.pos + n where
  frame := by
    rintro n k' k'' o ⟨hfile, hpos⟩ hfile' hpos'
    exact ⟨hfile'.trans hfile, hpos'.trans hpos⟩
  count := by
    rintro n k' o c m r bytes k'' ⟨hfile, hpos⟩ h
    simp only [Kernel.read] at h
    split at h
    · rename_i hfits
      cases h
      rw [hfile, hpos, ← List.drop_drop] at hfits ⊢
      rw [List.length_drop] at hfits
      exact ⟨rfl, rfl, hfits, rfl, rfl, rfl, Nat.add_assoc _ _ _⟩
    · cases h
  fail _ _ _ _ := rfl
  reads := by
    rintro k' o c l v h
    cases l with
    | read a => exact ⟨a, rfl⟩
    | write a => cases h
    | sendfile a => cases h
    | call c err => cases h

/-- Before the start of the file nothing can be read. -/
theorem pread_reads (k : Kernel) (offset : Int) :
    Reads Kernel.pread (if 0 ≤ offset then k.file.drop offset.toNat else [])
      fun n k' o => k'.file = k.file ∧ k'.pos = k.pos ∧ o = offset + n
        ∧ (0 ≤ offset ∨ n = 0) where
  frame := by
    rintro n k' k'' o ⟨hfile, hpos, ho⟩ hfile' hpos'
    exact ⟨hfile'.trans hfile, hpos'.trans hpos, ho⟩
  count := by
    rintro n k' o c m r bytes k'' ⟨hfile, hpos, rfl, hstart⟩ h
    simp only [Kernel.pread] at h
    split at h
    · rename_i hfits
      cases h
      obtain ⟨hge, hfits⟩ := hfits
      have hoff : 0 ≤ offset := by
        rcases hstart with h | rfl
        · exact h
        · simpa using hge
      have hnat : (offset + (n : Int)).toNat = offset.toNat + n := by omega
      rw [if_pos hoff]
      rw [hfile, hnat, ← List.drop_drop] at hfits ⊢
      rw [List.length_drop] at hfits
      exact ⟨rfl, rfl, hfits, rfl, rfl, rfl, hpos, by omega, Or.inl hoff⟩
    · cases h
  fail _ _ _ _ := rfl
  reads := by
    rintro k' o c l v h
    cases l with
    | read a => exact ⟨a, rfl⟩
    | write a => cases h
    | sendfile a => cases h
    | call c err => cases h

/-- The loop goes on while there is room and nothing ended it. -/
theorem nreadLoop_exit {count : Nat} {s : Reading} (call : ReadCall) (flags : UInt32)
    (hnext : s.next = .again) (hlt : s.total < count) :
    (nreadLoop call count flags).exit s = none := by
  simp [nreadLoop, hnext, hlt]

theorem nreadLoop_going {call : ReadCall} {count : Nat} {flags : UInt32} {s : Reading}
    (h : (nreadLoop call count flags).exit s = none) : s.total < count ∧ s.next = .again := by
  simp only [nreadLoop] at h
  split at h
  · cases h
  · rename_i heof
    split at h
    · cases h
    · rename_i hgo
      rw [not_or, not_not] at hgo
      refine ⟨hgo.2, ?_⟩
      cases hn : s.next with
      | again => rfl
      | leave => exact absurd hn hgo.1
      | eof => exact absurd hn heof

section

variable {call : ReadCall} {avail : List UInt8} {At : Nat → Kernel → Int → Prop} {count : Nat}
  {flags : UInt32}

theorem nread_turn_count (hcall : Reads call avail At) {s s' : Reading} {m : Nat}
    (hat : At s.total s.kernel s.offset)
    (h : (nreadLoop call count flags).turn s (.read (.count m)) = some s') :
    Kernel.Fits m (count - s.total) (avail.length - s.total) ∧ s'.err = s.err
      ∧ s'.kernel.errno = s.kernel.errno ∧ s'.kernel.output = s.kernel.output
      ∧ s'.buf = s.buf ++ (avail.drop s.total).take m
      ∧ At (s.total + m) s'.kernel s'.offset
      ∧ s'.next = if m = 0 then .eof else s.next := by
  simp only [nreadLoop, Option.bind_eq_bind, Option.bind_eq_some_iff] at h
  obtain ⟨⟨r, bytes, k'⟩, hread, hrest⟩ := h
  obtain ⟨rfl, rfl, hfits, herrno, hout, hat'⟩ := hcall.count hat hread
  dsimp only at hrest
  rw [if_neg (by omega)] at hrest
  by_cases hm : m = 0
  · subst hm
    rw [if_pos (show ((0 : Nat) : Int) = 0 from rfl)] at hrest
    cases hrest
    exact ⟨hfits, rfl, herrno, hout, by simp, by simpa using hat', rfl⟩
  · rw [if_neg (by omega)] at hrest
    cases hrest
    exact ⟨hfits, rfl, herrno, hout, rfl, hat', (if_neg hm).symm⟩

theorem nread_turn_total (hcall : Reads call avail At) {s s' : Reading} {m : Nat}
    (hat : At s.total s.kernel s.offset)
    (h : (nreadLoop call count flags).turn s (.read (.count m)) = some s') :
    s'.total = s.total + m := by
  obtain ⟨hfits, -, -, -, hbuf, -⟩ := nread_turn_count hcall hat h
  show s'.buf.length = s.buf.length + m
  rw [hbuf, List.length_append, List.length_take, List.length_drop, Nat.min_eq_left hfits.2.1]

theorem nread_turn_fail (hcall : Reads call avail At) (count : Nat) (flags : UInt32)
    (s : Reading) (e : Errno) :
    ∃ k, k.mute = { s.kernel.mute with errno := kept e }
      ∧ (nreadLoop call count flags).turn s (.read (.fail e))
        = some { s with
            kernel := k, err := kept e, next := if (kept e).isSome then .leave else s.next } := by
  simp only [nreadLoop, hcall.fail, Option.bind_eq_bind, Option.bind_some]
  rw [if_pos trivial]
  by_cases h : e = .EINTR
  · subst h
    rw [if_pos rfl, kept_eintr, Option.isSome_none, if_neg (by decide)]
    refine ⟨_, ?_, rfl⟩
    rw [Kernel.mute_retry]
    rfl
  · rw [kept_of_ne h, Option.isSome_some, if_pos rfl, if_neg]
    · split
      · exact ⟨_, rfl, rfl⟩
      · exact ⟨_, rfl, rfl⟩
    · intro heq
      exact h (Option.some.inj heq).symm

/-- Where a read loop stands that began with kernel `k`. -/
structure ReadInv (avail : List UInt8) (At : Nat → Kernel → Int → Prop) (count : Nat)
    (k : Kernel) (used : List Event) (s : Reading) : Prop where
  at_ : At s.total s.kernel s.offset
  buf : s.buf = avail.take s.total
  le : s.total ≤ count
  output : s.kernel.output = k.output
  reads : ∀ ev ∈ used, ∃ a, ev = .read a
  data : s.total ≠ 0 ↔ ∃ n, n ≠ 0 ∧ .read (.count n) ∈ used
  clean : s.next ≠ .leave → s.err = none
    ∧ (∀ e, .read (.fail e) ∈ used → e = .EINTR ∧ s.kernel.errno = none)
    ∧ ((∀ e, .read (.fail e) ∉ used) → s.kernel.errno = k.errno)
  eof : s.next = .eof → s.total = avail.length
  failed : s.next = .leave → s.total < count
    ∧ ∃ e, e ≠ .EINTR ∧ s.err = some e ∧ .read (.fail e) ∈ used

/-- A read brings bytes, or finds the end of the file. -/
theorem ReadInv.turn_count (hcall : Reads call avail At) {k : Kernel} {used : List Event}
    {s s' : Reading} {m : Nat} (hI : ReadInv avail At count k used s) (hnext : s.next = .again)
    (h : (nreadLoop call count flags).turn s (.read (.count m)) = some s') :
    ReadInv avail At count k (used ++ [.read (.count m)]) s' := by
  obtain ⟨herr, hfails, hsame⟩ := hI.clean (by rw [hnext]; decide)
  obtain ⟨hfits, herr', herrno, hout, hbuf, hat, hnext'⟩ := nread_turn_count hcall hI.at_ h
  have hle : s.total ≤ avail.length := by
    have hlen := congrArg List.length hI.buf
    rw [List.length_take] at hlen
    show s.buf.length ≤ _
    omega
  have htotal := nread_turn_total hcall hI.at_ h
  have hleave : s'.next ≠ .leave := by
    rw [hnext', hnext]
    split <;> decide
  refine ⟨by rw [htotal]; exact hat, ?_, ?_, hout.trans hI.output,
    List.forall_mem_append.mpr ⟨hI.reads, List.forall_mem_singleton.mpr ⟨_, rfl⟩⟩, ?_, ?_, ?_, ?_⟩
  · rw [htotal, List.take_add, ← hI.buf, hbuf]
  · have hroom := hfits.1
    have hsofar := hI.le
    omega
  · rw [htotal]
    constructor
    · intro hne
      by_cases hm : m = 0
      · obtain ⟨n, hn, hmem⟩ := hI.data.mp (by omega)
        exact ⟨n, hn, List.mem_append_left _ hmem⟩
      · exact ⟨m, hm, by simp⟩
    · rintro ⟨n, hn, hmem⟩
      rcases List.mem_append.mp hmem with hmem | hmem
      · have hpos := hI.data.mpr ⟨n, hn, hmem⟩
        omega
      · cases List.mem_singleton.mp hmem
        omega
  · intro _
    refine ⟨herr'.trans herr, ?_, ?_⟩
    · intro e he
      obtain ⟨heq, hnone⟩ := hfails e ((mem_snoc_of_ne (by simp)).mp he)
      exact ⟨heq, herrno.trans hnone⟩
    · intro hno
      refine herrno.trans (hsame ?_)
      intro e he
      exact hno e (List.mem_append_left _ he)
  · intro heof
    rw [hnext', hnext] at heof
    split at heof
    · rename_i hm
      have hend := hfits.2.2 hm
      omega
    · cases heof
  · intro hl
    exact absurd hl hleave

/-- A read fails: the loop goes on after `EINTR` only. -/
theorem ReadInv.turn_fail (hcall : Reads call avail At) {k : Kernel} {used : List Event}
    {s s' : Reading} {e : Errno} (hI : ReadInv avail At count k used s)
    (hlt : s.total < count) (hnext : s.next = .again)
    (h : (nreadLoop call count flags).turn s (.read (.fail e)) = some s') :
    ReadInv avail At count k (used ++ [.read (.fail e)]) s' := by
  obtain ⟨-, hfails, -⟩ := hI.clean (by rw [hnext]; decide)
  obtain ⟨k', hk', hturn⟩ := nread_turn_fail hcall count flags s e
  rw [hturn] at h
  cases h
  obtain ⟨herrno, hfile, hpos, hout⟩ := Kernel.mute_with hk'
  have hcounts : ∀ n, .read (.count n) ∈ used ++ [.read (.fail e)] ↔ .read (.count n) ∈ used :=
    fun n => mem_snoc_of_ne (by simp)
  refine ⟨hcall.frame hI.at_ hfile hpos, hI.buf, hI.le, hout.trans hI.output,
    List.forall_mem_append.mpr ⟨hI.reads, List.forall_mem_singleton.mpr ⟨_, rfl⟩⟩, ?_, ?_, ?_, ?_⟩
  · simp only [hcounts]
    exact hI.data
  · intro hleave
    have hnone : kept e = none := by
      by_cases he : e = .EINTR
      · exact kept_eq_none.mpr he
      · rw [kept_of_ne he] at hleave
        exact absurd rfl hleave
    refine ⟨hnone, ?_, ?_⟩
    · intro e' he'
      rcases List.mem_append.mp he' with he' | he'
      · exact ⟨(hfails e' he').1, herrno.trans hnone⟩
      · cases List.mem_singleton.mp he'
        exact ⟨kept_eq_none.mp hnone, herrno.trans hnone⟩
    · intro hno
      exact absurd (by simp) (hno e)
  · intro heof
    dsimp only at heof
    rw [hnext] at heof
    split at heof <;> cases heof
  · intro hleave
    have hne : e ≠ .EINTR := by
      rintro rfl
      rw [kept_eintr, hnext] at hleave
      cases hleave
    exact ⟨hlt, e, hne, kept_of_ne hne, by simp⟩

theorem ReadInv.turn (hcall : Reads call avail At) {k : Kernel} {used : List Event}
    {s s' : Reading} {l : Event} (hI : ReadInv avail At count k used s)
    (hexit : (nreadLoop call count flags).exit s = none)
    (h : (nreadLoop call count flags).turn s l = some s') :
    ReadInv avail At count k (used ++ [l]) s' := by
  obtain ⟨hlt, hnext⟩ := nreadLoop_going hexit
  obtain ⟨a, rfl⟩ : ∃ a, l = .read a := by
    simp only [nreadLoop, Option.bind_eq_bind, Option.bind_eq_some_iff] at h
    obtain ⟨v, hv, -⟩ := h
    exact hcall.reads hv
  cases a with
  | count m => exact hI.turn_count hcall hnext h
  | fail e => exact hI.turn_fail hcall hlt hnext h

/-- What a call has done that read `buf` with the answers `used`: it
waits, or it came to the end of the buffer or of the file, with `errno`
cleared or as it was, or it failed. -/
structure WasRead (avail : List UInt8) (At : Nat → Kernel → Int → Prop) (count : Nat)
    (k : Kernel) (used : List Event) (buf : List UInt8) (r : Ret (Int × List UInt8)) : Prop where
  eq_take : buf = avail.take buf.length
  at_ : ∃ o, At buf.length r.kernel o
  le : buf.length ≤ count
  output : r.kernel.output = k.output
  reads : ∀ ev ∈ used, ∃ a, ev = .read a
  data : buf.length ≠ 0 ↔ ∃ n, n ≠ 0 ∧ .read (.count n) ∈ used
  outcome : r.outcome = .waits
    ∨ r.outcome = .returns (buf.length, buf)
      ∧ (((buf.length = count ∨ buf.length = avail.length)
            ∧ (∀ e, .read (.fail e) ∈ used → e = .EINTR ∧ r.kernel.errno = none)
            ∧ ((∀ e, .read (.fail e) ∉ used) → r.kernel.errno = k.errno))
          ∨ ∃ e, e ≠ .EINTR ∧ .read (.fail e) ∈ used ∧ r.kernel.errno = some e)

theorem nreadLoop_spec (hcall : Reads call avail At) {k : Kernel} {o : Int} (hat : At 0 k o)
    (count : Nat) (flags : UInt32) (events : List Event) :
    ∃ used buf,
      events = used ++ (runLoop (nreadLoop call count flags) Reading.kernel
          ⟨k, [], none, o, .again⟩ events).rest
        ∧ WasRead avail At count k used buf
            (runLoop (nreadLoop call count flags) Reading.kernel ⟨k, [], none, o, .again⟩
              events) := by
  have hstart : ReadInv avail At count k [] ⟨k, [], none, o, .again⟩ := by
    refine ⟨hat, by simp [Reading.total], Nat.zero_le _, rfl, by simp, by simp [Reading.total], ?_,
      by simp, by simp⟩
    intro _
    exact ⟨rfl, by simp, fun _ => rfl⟩
  rcases hdrive : (nreadLoop call count flags).drive ⟨k, [], none, o, .again⟩ events with
    ⟨r, s, rest⟩
  obtain ⟨used, hsplit, hI, hr⟩ := Loop.drive_invariant
    (fun hI hexit h => ReadInv.turn hcall hI hexit h) hstart hdrive
  rw [List.nil_append] at hI
  simp only [runLoop, hdrive]
  cases r with
  | none =>
      exact ⟨used, s.buf, hsplit, hI.buf, ⟨_, hI.at_⟩, hI.le, hI.output, hI.reads, hI.data,
        Or.inl rfl⟩
  | some v =>
      simp only [nreadLoop] at hr
      split at hr
      · rename_i heof
        cases hr
        obtain ⟨-, hfails, hsame⟩ := hI.clean (by rw [heof]; decide)
        exact ⟨used, s.buf, hsplit, hI.buf, ⟨_, hI.at_⟩, hI.le, hI.output, hI.reads, hI.data,
          Or.inr ⟨rfl, Or.inl ⟨Or.inr (hI.eof heof), hfails, hsame⟩⟩⟩
      · split at hr
        swap
        · cases hr
        rename_i hleft
        cases hr
        cases hnext : s.next with
        | eof => rename_i heof; exact absurd hnext heof
        | again =>
            obtain ⟨herr, hfails, hsame⟩ := hI.clean (by rw [hnext]; decide)
            have hfull : s.total = count := by
              rcases hleft with hleave | hge
              · rw [hnext] at hleave
                cases hleave
              · have hle := hI.le
                omega
            rw [herr]
            exact ⟨used, s.buf, hsplit, hI.buf, ⟨_, hI.at_⟩, hI.le, hI.output, hI.reads, hI.data,
              Or.inr ⟨rfl, Or.inl ⟨Or.inl hfull, hfails, hsame⟩⟩⟩
        | leave =>
            obtain ⟨-, e, hne, herr, hmem⟩ := hI.failed hnext
            rw [herr]
            exact ⟨used, s.buf, hsplit, hI.buf, ⟨_, hcall.frame hI.at_ rfl rfl⟩, hI.le, hI.output,
              hI.reads, hI.data, Or.inr ⟨rfl, Or.inr ⟨e, hne, hmem, rfl⟩⟩⟩

end

/-- **nread.** It takes a prefix of what is unread. -/
theorem nread_spec (count : Nat) (flags : UInt32) (k : Kernel) (events : List Event) :
    ∃ used buf, events = used ++ (nread count flags k events).rest
      ∧ WasRead (k.file.drop k.pos) (fun n k' _ => k'.file = k.file ∧ k'.pos = k.pos + n) count k
          used buf (nread count flags k events) :=
  nreadLoop_spec (read_reads k) ⟨rfl, rfl⟩ count flags events

/-- **npread.** It takes a prefix of what is behind the offset. -/
theorem npread_spec (count : Nat) (offset : Int) (flags : UInt32) (k : Kernel)
    (events : List Event) :
    ∃ used buf, events = used ++ (npread count offset flags k events).rest
      ∧ WasRead (if 0 ≤ offset then k.file.drop offset.toNat else [])
          (fun n k' o => k'.file = k.file ∧ k'.pos = k.pos ∧ o = offset + n
            ∧ (0 ≤ offset ∨ n = 0)) count k used buf (npread count offset flags k events) :=
  nreadLoop_spec (pread_reads k offset) ⟨rfl, rfl, by simp, Or.inr rfl⟩ count flags events

end Fdio

end MiscTools
