import MiscTools.FrelayTurn

/-!
# The size limit of the relay

The relay rolls over when another chunk of the size of the last one would
not fit. Within one pass over the source that is enough, since chunks
only get smaller towards its end. It is not across a rewind: the chunk
before it is the rest of the source, the one at it is empty, and the one
after it may be a full one.

So what decides is the room at a rewind (`Room`): a run keeps all
destination files within the limit just if no turn at the start of the
source lacks it (`limit_iff`). Sources whose chunks are all of one size
never do (`limit_kept`).
-/

namespace MiscTools

namespace Frelay

open Fdio Runs

/-- No destination file holds more than `maxDstLen` bytes. -/
def FitsIn (maxDstLen : Nat) (p : Relay × List Event) : Prop :=
  ∀ f ∈ p.1.closed ++ [p.1.kernel.output], f.length ≤ maxDstLen

/-- At the start of the source there is room for its first chunk. -/
def Room (maxDstLen : Nat) (p : Relay × List Event) : Prop :=
  p.1.kernel.pos = 0 → p.1.ntotal + min trfbufLimit p.1.kernel.file.length ≤ maxDstLen

/-! ## One turn -/

theorem chunk_eq (s : Relay) :
    s.chunk (mtuDefault * 10) = min trfbufLimit (s.kernel.file.length - s.kernel.pos) := rfl

theorem turned_roll {s : Relay} {maxDstLen : Nat}
    (h : s.ntotal + s.chunk (mtuDefault * 10) + s.chunk (mtuDefault * 10) ≥ maxDstLen) :
    s.turned maxDstLen = { (s.fed (mtuDefault * 10)).swapped with
      nrolls := s.nrolls + 1, ntotal := 0 } :=
  if_pos h

theorem turned_stay {s : Relay} {maxDstLen : Nat}
    (h : ¬s.ntotal + s.chunk (mtuDefault * 10) + s.chunk (mtuDefault * 10) ≥ maxDstLen) :
    s.turned maxDstLen = s.fed (mtuDefault * 10) :=
  if_neg h

/-- The chunk ends up in a destination file. -/
theorem turned_file (s : Relay) (maxDstLen : Nat) :
    (s.fed (mtuDefault * 10)).kernel.output
      ∈ (s.turned maxDstLen).closed ++ [(s.turned maxDstLen).kernel.output] := by
  by_cases h : s.ntotal + s.chunk (mtuDefault * 10) + s.chunk (mtuDefault * 10) ≥ maxDstLen
  · rw [turned_roll h]
    simp [Relay.swapped]
  · rw [turned_stay h]
    simp

/-- What holds between two turns of a relay that has kept the limit. -/
structure Kept (src : List UInt8) (maxDstLen : Nat) (s : Relay) : Prop where
  file : s.kernel.file = src
  le : s.kernel.pos ≤ src.length
  ntotal : s.ntotal = s.kernel.output.length
  closed : ∀ f ∈ s.closed, f.length ≤ maxDstLen
  current : s.kernel.output.length ≤ maxDstLen
  room : s.kernel.pos ≠ 0 → s.ntotal + min trfbufLimit (src.length - s.kernel.pos) ≤ maxDstLen

theorem Kept.quiet {src : List UInt8} {maxDstLen : Nat} {s t : Relay} (h : Kept src maxDstLen t)
    (hst : s.quiet = t.quiet) : Kept src maxDstLen s := by
  obtain ⟨hfile, hpos, hout, hclosed, -, htotal, -⟩ := Relay.quiet_ext hst
  refine ⟨hfile.trans h.file, hpos ▸ h.le, ?_, hclosed ▸ h.closed, hout ▸ h.current, ?_⟩
  · rw [htotal, hout]
    exact h.ntotal
  · rw [hpos, htotal]
    exact h.room

theorem Kept.fed_pos {src : List UInt8} {maxDstLen : Nat} {s : Relay} (h : Kept src maxDstLen s) :
    (s.fed (mtuDefault * 10)).kernel.pos ≤ src.length
      ∧ ((s.fed (mtuDefault * 10)).kernel.pos ≠ 0 →
        (s.fed (mtuDefault * 10)).kernel.pos = s.kernel.pos + s.chunk (mtuDefault * 10)) := by
  have hle := h.le
  have hchunk := chunk_eq s
  rw [h.file] at hchunk
  show (if s.chunk (mtuDefault * 10) = 0 then 0 else _) ≤ _
    ∧ ((if s.chunk (mtuDefault * 10) = 0 then 0 else _) ≠ 0 →
      (if s.chunk (mtuDefault * 10) = 0 then 0 else _) = _)
  split
  · exact ⟨Nat.zero_le _, fun h0 => absurd rfl h0⟩
  · exact ⟨by omega, fun _ => rfl⟩

/-- A chunk that fits keeps the limit, and the next one of this pass over
the source fits too. -/
theorem Kept.turned {src : List UInt8} {maxDstLen : Nat} {s : Relay} (h : Kept src maxDstLen s)
    (hmax : trfbufLimit < maxDstLen)
    (hfits : s.ntotal + s.chunk (mtuDefault * 10) ≤ maxDstLen) :
    Kept src maxDstLen (s.turned maxDstLen) := by
  have hchunk := chunk_eq s
  rw [h.file] at hchunk
  have htotal := h.ntotal
  have hlen := Relay.fed_output_length s (mtuDefault * 10)
  have hnew : (s.fed (mtuDefault * 10)).kernel.output.length ≤ maxDstLen := by omega
  obtain ⟨hpos, hnext⟩ := h.fed_pos
  by_cases hroll : s.ntotal + s.chunk (mtuDefault * 10) + s.chunk (mtuDefault * 10) ≥ maxDstLen
  · rw [turned_roll hroll]
    refine ⟨h.file, hpos, rfl, ?_, Nat.zero_le _, fun _ => ?_⟩
    · exact List.forall_mem_append.mpr ⟨h.closed, List.forall_mem_singleton.mpr hnew⟩
    · show (0 : Int) + (min trfbufLimit _ : Nat) ≤ maxDstLen
      omega
  · rw [turned_stay hroll]
    refine ⟨h.file, hpos, ?_, h.closed, hnew, fun hne => ?_⟩
    · rw [hlen]
      show s.ntotal + (s.chunk (mtuDefault * 10) : Int) = _
      omega
    · -- what is left of the source is no larger a chunk
      rw [hnext hne]
      show s.ntotal + (s.chunk (mtuDefault * 10) : Int) + _ ≤ _
      omega

/-! ## The run -/

theorem opened_kept (src : List UInt8) (errno : Option Errno) (maxDstLen : Nat) :
    Kept src maxDstLen (Relay.opened src errno) :=
  ⟨rfl, Nat.zero_le _, rfl, by simp [Relay.opened, Relay.start], Nat.zero_le _,
    fun h => absurd rfl h⟩

theorem Kept.fitsIn {src : List UInt8} {maxDstLen : Nat} {p : Relay × List Event}
    (h : Kept src maxDstLen p.1) : FitsIn maxDstLen p :=
  List.forall_mem_append.mpr ⟨h.closed, List.forall_mem_singleton.mpr h.current⟩

/-- With room at the start of the source every chunk fits. -/
theorem Kept.fits {src : List UInt8} {maxDstLen : Nat} {p : Relay × List Event}
    (h : Kept src maxDstLen p.1) (hroom : Room maxDstLen p) :
    p.1.ntotal + p.1.chunk (mtuDefault * 10) ≤ maxDstLen := by
  rw [chunk_eq, h.file]
  by_cases h0 : p.1.kernel.pos = 0
  · have hfirst := hroom h0
    rw [h.file] at hfirst
    rw [h0, Nat.sub_zero]
    exact hfirst
  · exact h.room h0

/-- Without the room the first chunk goes beyond the limit. -/
theorem Kept.overrun {src : List UInt8} {dstPath : CStr} {maxDstLen : Nat}
    {p p' : Relay × List Event} {l : Unit} (h : Kept src maxDstLen p.1)
    (hroom : ¬Room maxDstLen p)
    (hstep : turnStep (relayTurn dstPath maxDstLen) p l = some p') : ¬FitsIn maxDstLen p' := by
  intro hfits
  rw [Room, Classical.not_imp] at hroom
  obtain ⟨h0, hfull⟩ := hroom
  have hquiet := turnStep_leaves (relayTurn_turned dstPath maxDstLen _ _) hstep
  obtain ⟨-, -, hout, hclosed, -⟩ := Relay.quiet_ext hquiet
  have hmem := turned_file p.1 maxDstLen
  rw [← hout, ← hclosed] at hmem
  have hle := hfits _ hmem
  have htotal := h.ntotal
  rw [Relay.fed_output_length, chunk_eq, h0, Nat.sub_zero] at hle
  omega

/-- **The limit is kept** by the runs that find room for a whole first
chunk whenever they are at the start of the source, and by no others. -/
theorem limit_iff (src : List UInt8) (errno : Option Errno) (dstPath : CStr) {maxDstLen : Nat}
    (hmax : trfbufLimit < maxDstLen) (events : List Event) (turns : List Unit) :
    Always (turnStep (relayTurn dstPath maxDstLen)) (FitsIn maxDstLen)
        (Relay.opened src errno, events) turns
      ↔ Meets (turnStep (relayTurn dstPath maxDstLen)) (fun p _ => Room maxDstLen p)
        (Relay.opened src errno, events) turns := by
  refine always_iff_meets (I := fun p => Kept src maxDstLen p.1) (L := fun _ => True) ?_ ?_ ?_
    (opened_kept src errno maxDstLen) (fun _ _ => trivial)
  · intro p l p' hI _ hroom hstep
    have hquiet := turnStep_leaves (relayTurn_turned dstPath maxDstLen _ _) hstep
    exact (hI.turned hmax (hI.fits hroom)).quiet hquiet
  · intro p hI
    exact hI.fitsIn
  · intro p l p' hI _ hroom hstep
    exact hI.overrun hroom hstep

/-- What holds besides where all chunks are of one size. -/
structure Uniform (src : List UInt8) (maxDstLen : Nat) (s : Relay) : Prop where
  kept : Kept src maxDstLen s
  dvd : min trfbufLimit src.length ∣ s.kernel.pos
  room : s.ntotal + min trfbufLimit src.length ≤ maxDstLen

theorem Uniform.quiet {src : List UInt8} {maxDstLen : Nat} {s t : Relay}
    (h : Uniform src maxDstLen t) (hst : s.quiet = t.quiet) : Uniform src maxDstLen s := by
  obtain ⟨-, hpos, -, -, -, htotal, -⟩ := Relay.quiet_ext hst
  exact ⟨h.kept.quiet hst, hpos ▸ h.dvd, htotal ▸ h.room⟩

theorem Uniform.chunk {src : List UInt8} {maxDstLen : Nat} {s : Relay} (h : Uniform src maxDstLen s)
    (hsrc : min trfbufLimit src.length ∣ src.length) :
    s.chunk (mtuDefault * 10) = 0 ∨ s.chunk (mtuDefault * 10) = min trfbufLimit src.length := by
  have hle := h.kept.le
  rw [chunk_eq, h.kept.file]
  rcases Nat.eq_zero_or_pos (src.length - s.kernel.pos) with h0 | hpos
  · exact Or.inl (by rw [h0, Nat.min_zero])
  · have hleft := Nat.le_of_dvd hpos (Nat.dvd_sub hsrc h.dvd)
    exact Or.inr (by omega)

theorem Uniform.turned {src : List UInt8} {maxDstLen : Nat} {s : Relay}
    (h : Uniform src maxDstLen s) (hmax : trfbufLimit < maxDstLen)
    (hsrc : min trfbufLimit src.length ∣ src.length) :
    Uniform src maxDstLen (s.turned maxDstLen) := by
  have hroom := h.room
  have hchunk := h.chunk hsrc
  have hkept := h.kept.turned hmax (by omega)
  obtain ⟨-, hnext⟩ := h.kept.fed_pos
  have hdvd : min trfbufLimit src.length ∣ (s.fed (mtuDefault * 10)).kernel.pos := by
    by_cases h0 : (s.fed (mtuDefault * 10)).kernel.pos = 0
    · rw [h0]
      exact Nat.dvd_zero _
    · rw [hnext h0]
      rcases hchunk with hc | hc
      · rw [hc]
        exact h.dvd
      · rw [hc]
        exact Nat.dvd_add h.dvd (Nat.dvd_refl _)
  by_cases hroll : s.ntotal + s.chunk (mtuDefault * 10) + s.chunk (mtuDefault * 10) ≥ maxDstLen
  · rw [turned_roll hroll] at hkept ⊢
    refine ⟨hkept, hdvd, ?_⟩
    show (0 : Int) + _ ≤ _
    omega
  · rw [turned_stay hroll] at hkept ⊢
    refine ⟨hkept, hdvd, ?_⟩
    show s.ntotal + (s.chunk (mtuDefault * 10) : Int) + _ ≤ _
    omega

/-- **Where all chunks are of one size** the limit is kept. -/
theorem limit_kept {src : List UInt8} (errno : Option Errno) (dstPath : CStr) {maxDstLen : Nat}
    (hmax : trfbufLimit < maxDstLen) (hsrc : min trfbufLimit src.length ∣ src.length)
    (events : List Event) (turns : List Unit) :
    Always (turnStep (relayTurn dstPath maxDstLen)) (FitsIn maxDstLen)
      (Relay.opened src errno, events) turns := by
  have hstart : Uniform src maxDstLen (Relay.opened src errno) := by
    refine ⟨opened_kept src errno maxDstLen, Nat.dvd_zero _, ?_⟩
    show (0 : Int) + _ ≤ _
    omega
  have halways : Always (turnStep (relayTurn dstPath maxDstLen))
      (fun p => Uniform src maxDstLen p.1) (Relay.opened src errno, events) turns := by
    refine always_of_forall (C := fun _ => True) ?_ hstart (fun _ _ => trivial)
    intro p l p' hI _ hstep
    have hturned := turnStep_leaves (relayTurn_turned dstPath maxDstLen _ _) hstep
    exact (hI.turned hmax hsrc).quiet hturned
  exact halways.imp fun p hI => hI.kept.fitsIn

/-! ## A run beyond the limit -/

/-- A relay that has not rolled over, where it stands in the source and
what it has counted. -/
structure Stands (src : List UInt8) (maxDstLen : Nat) (s : Relay) (pos : Nat) (ntotal : Int) :
    Prop where
  kept : Kept src maxDstLen s
  pos : s.kernel.pos = pos
  ntotal : s.ntotal = ntotal
  nrolls : s.nrolls = 0
  outOpen : s.outOpen = true
  errno : s.kernel.errno = none

theorem Stands.step {src : List UInt8} {maxDstLen c pos : Nat} {ntotal : Int} {s : Relay}
    (h : Stands src maxDstLen s pos ntotal) (hc : c = min trfbufLimit (src.length - pos))
    (rest : List Event) :
    ∃ t, turnStep (relayTurn dst maxDstLen) (s, turnAnswers (mtuDefault * 10) c
          (if ntotal + c + c ≥ maxDstLen then swapCalls else []) ++ rest) () = some (t, rest)
      ∧ t.kernel.errno = none ∧ t.quiet = (s.turned maxDstLen).quiet := by
  have hchunk : s.chunk (mtuDefault * 10) = c := by
    rw [chunk_eq, h.kept.file, h.pos, hc]
  have hpath : newpathLen dst (s.nrolls + 1) < pathMax := by
    rw [h.nrolls]
    exact newpathLen_dst
  obtain ⟨t, ht, herr⟩ := relayTurn_whole dst maxDstLen h.errno hpath rest
  have htotal : (s.fed (mtuDefault * 10)).ntotal = ntotal + c := by
    rw [← hchunk, ← h.ntotal]
    rfl
  rw [htotal, hchunk] at ht
  refine ⟨t, ?_, herr, ?_⟩
  · simp only [turnStep]
    rw [if_pos h.outOpen, ht]
  · have hleaves := (relayTurn_turned dst maxDstLen s _).2 none (congrArg Moment.outcome ht) rfl
    rw [ht] at hleaves
    exact hleaves

/-- A turn without a roll-over. -/
theorem Stands.stays {src : List UInt8} {maxDstLen c pos : Nat} {ntotal : Int} {s : Relay}
    (h : Stands src maxDstLen s pos ntotal) (hmax : trfbufLimit < maxDstLen)
    (hc : c = min trfbufLimit (src.length - pos)) (hstay : ntotal + c + c < maxDstLen)
    (rest : List Event) :
    ∃ t, turnStep (relayTurn dst maxDstLen)
          (s, turnAnswers (mtuDefault * 10) c [] ++ rest) () = some (t, rest)
      ∧ Stands src maxDstLen t (if c = 0 then 0 else pos + c) (ntotal + c) := by
  obtain ⟨t, hstep, herr, hquiet⟩ := h.step hc rest
  rw [if_neg (Int.not_le.mpr hstay)] at hstep
  have hchunk : s.chunk (mtuDefault * 10) = c := by
    rw [chunk_eq, h.kept.file, h.pos, hc]
  have htotal := h.ntotal
  have hkept := h.kept.turned hmax (by omega)
  rw [turned_stay (by omega)] at hquiet hkept
  obtain ⟨-, hpos, -, -, hopen, hnew, hrolls⟩ := Relay.quiet_ext hquiet
  refine ⟨t, hstep, hkept.quiet hquiet, ?_, ?_, hrolls.trans h.nrolls, hopen.trans h.outOpen, herr⟩
  · rw [hpos, ← hchunk, ← h.pos]
    rfl
  · rw [hnew, ← hchunk, ← h.ntotal]
    rfl

theorem opened_stands (src : List UInt8) (maxDstLen : Nat) :
    Stands src maxDstLen (Relay.opened src none) 0 0 :=
  ⟨opened_kept src none maxDstLen, rfl, rfl, rfl, rfl, rfl⟩

theorem limit_iff_short :
    Always (turnStep (relayTurn dst 10241)) (FitsIn 10241) (Relay.opened [1, 2, 3] none,
        turnAnswers (mtuDefault * 10) 3 []) [()]
      ↔ Meets (turnStep (relayTurn dst 10241)) (fun p _ => Room 10241 p)
        (Relay.opened [1, 2, 3] none, turnAnswers (mtuDefault * 10) 3 []) [()] :=
  limit_iff [1, 2, 3] none dst (by decide) _ _

/-- The answers to a pass over 10242 bytes and the first chunk of the
next one. -/
def secondPass : List Event :=
  turnAnswers (mtuDefault * 10) 10240 [] ++ (turnAnswers (mtuDefault * 10) 2 []
    ++ (turnAnswers (mtuDefault * 10) 0 []
    ++ (turnAnswers (mtuDefault * 10) 10240 swapCalls ++ [])))

/-- 10242 bytes and 10240 of them again, in a file for 20481. -/
theorem limit_exceeded :
    ¬Always (turnStep (relayTurn dst 20481)) (FitsIn 20481)
      (Relay.opened (List.replicate 10242 0) none, secondPass) [(), (), (), ()] := by
  have hmax : trfbufLimit < 20481 := by decide
  have hsrc : (List.replicate 10242 (0 : UInt8)).length = 10242 := List.length_replicate
  obtain ⟨s₁, hstep₁, h₁⟩ := (opened_stands (List.replicate 10242 0) 20481).stays
    (c := 10240) hmax (by rw [hsrc]; rfl) (by decide) _
  obtain ⟨s₂, hstep₂, h₂⟩ := h₁.stays (c := 2) hmax (by rw [hsrc]; rfl) (by decide) _
  obtain ⟨s₃, hstep₃, h₃⟩ := h₂.stays (c := 0) hmax (by rw [hsrc]; rfl) (by decide) _
  obtain ⟨s₄, hstep₄, -, -⟩ := h₃.step (c := 10240) (by rw [hsrc]; rfl) []
  have hroom : ¬Room 20481 (s₃, turnAnswers (mtuDefault * 10) 10240 swapCalls ++ []) := by
    intro hroom
    have hfits := hroom h₃.pos
    rw [h₃.kept.file, h₃.ntotal, hsrc] at hfits
    revert hfits
    decide
  intro halways
  have hlast := (((halways.2 _ hstep₁).2 _ hstep₂).2 _ hstep₃).2 _ hstep₄
  exact h₃.kept.overrun (p := (s₃, _)) hroom hstep₄ hlast

end Frelay

end MiscTools
