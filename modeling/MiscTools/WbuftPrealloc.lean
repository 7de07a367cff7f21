import MiscTools.WbuftRounds
import Mathlib.Tactic.Linarith
import Mathlib.Tactic.Ring

/-!
# How much wbuft preallocates

A round writes `niter * len` bytes, from the start of the file or, with
`SEQ_WRITE`, from where the last one ended. The size for `fallocate`
takes the first length `niter` times, and each increment once. So it
covers the first round, and all of them only if the writes of the others
are few beside `nincr` (`prealloc_covers_iff`).
-/

namespace MiscTools.Wbuft

/-! ## The number of rounds -/

/-- How many of the lengths are below the bound. -/
def TestSpec.rounds (sp : TestSpec) : Nat :=
  min sp.nincr ((MAX_BUFSZ - sp.len + (sp.incr - 1)) / sp.incr)

section

variable {sp : TestSpec} {len : Nat} {k : Kernel}

theorem roundLens_range (hincr : 0 < sp.incr) : ∀ (left len : Nat), roundLens sp left len
    = (List.range (min left ((MAX_BUFSZ - len + (sp.incr - 1)) / sp.incr))).map
        fun i => len + i * sp.incr := by
  intro left
  induction left with
  | zero =>
      intro len
      rw [Nat.zero_min]
      rfl
  | succ left ih =>
      intro len
      rw [roundLens]
      by_cases hmax : len < MAX_BUFSZ
      · have hdiv : (MAX_BUFSZ - len + (sp.incr - 1)) / sp.incr
            = (MAX_BUFSZ - (len + sp.incr) + (sp.incr - 1)) / sp.incr + 1 := by
          rcases Nat.le_total (len + sp.incr) MAX_BUFSZ with hle | hle
          · rw [← Nat.add_div_right _ hincr]
            congr 1
            omega
          · have hnone : MAX_BUFSZ - (len + sp.incr) + (sp.incr - 1) < sp.incr := by omega
            have hone : MAX_BUFSZ - len + (sp.incr - 1)
                = MAX_BUFSZ - len - 1 + sp.incr := by omega
            rw [Nat.div_eq_of_lt hnone, hone, Nat.add_div_right _ hincr,
              Nat.div_eq_of_lt (by omega)]
        rw [if_pos hmax, ih, hdiv, Nat.succ_min_succ, range_lens_succ]
      · have hnone : MAX_BUFSZ - len + (sp.incr - 1) < sp.incr := by omega
        rw [if_neg hmax, Nat.div_eq_of_lt hnone, Nat.min_zero]
        rfl

/-! ## What the rounds write -/

theorem Kernel.passed_span (happend : sp.openFlags.O_APPEND = false) (k : Kernel) (len : Nat) :
    (k.passed sp len).pos = k.pos + len ∧ (k.passed sp len).top = max k.top (k.pos + len) := by
  obtain ⟨-, hpos, htop⟩ :=
    (k.nextWrite.put sp.openFlags.O_APPEND len).synced_frame sp.modeFlags
  rw [passed, hpos, htop, happend]
  exact ⟨rfl, rfl⟩

/-- The file offset after a number of passes, and the end of the highest
write. -/
theorem Kernel.passes_span (happend : sp.openFlags.O_APPEND = false) : ∀ (m : Nat) {k : Kernel},
    k.pos ≤ k.top → (k.passes sp len m).pos = k.pos + m * len ∧
      (k.passes sp len m).top = max k.top (k.pos + m * len) := by
  intro m
  induction m with
  | zero =>
      intro k hle
      rw [Nat.zero_mul, Nat.add_zero, Nat.max_eq_left hle]
      exact ⟨rfl, rfl⟩
  | succ m ih =>
      intro k hle
      obtain ⟨hpos, htop⟩ := k.passed_span happend len
      obtain ⟨hpos', htop'⟩ := ih (k := k.passed sp len) (by omega)
      rw [passes, hpos', htop', hpos, htop, Nat.succ_mul]
      omega

/-- Where a round starts to write. -/
def Kernel.base (sp : TestSpec) (k : Kernel) : Nat :=
  if sp.modeFlags &&& SEQ_WRITE = 0 then 0 else k.pos

theorem Kernel.round_span (happend : sp.openFlags.O_APPEND = false) (hle : k.pos ≤ k.top)
    (len : Nat) :
    (k.round sp len).pos = k.base sp + sp.niter * len ∧
      (k.round sp len).top = max k.top (k.base sp + sp.niter * len) := by
  have hpos : (k.nextMalloc.ready sp).pos = k.base sp := k.nextMalloc.ready_frame.2.2.2.2
  have htop : (k.nextMalloc.ready sp).top = k.top := k.nextMalloc.ready_frame.2.2.2.1
  have hbase : k.base sp ≤ k.top := by
    rw [base]
    split
    · exact Nat.zero_le _
    · exact hle
  rw [← hpos, ← htop] at hbase ⊢
  exact passes_span happend sp.niter hbase

/-- The kernel after the first `n` rounds. -/
def Kernel.after (sp : TestSpec) (k : Kernel) (n : Nat) : Kernel :=
  k.rounds sp ((List.range n).map fun i => sp.len + i * sp.incr)

theorem Kernel.after_succ (k : Kernel) (n : Nat) :
    k.after sp (n + 1) = (k.after sp n).round sp (sp.len + n * sp.incr) := by
  rw [after, rounds, List.range_succ, List.map_append, List.foldl_append]
  rfl

/-- Rounds that rewind write as far as the last one does. -/
theorem Kernel.after_rewound (hseq : sp.modeFlags &&& SEQ_WRITE = 0)
    (happend : sp.openFlags.O_APPEND = false) (hpos : k.pos = 0) (htop : k.top = 0) (n : Nat) :
    (k.after sp (n + 1)).pos ≤ (k.after sp (n + 1)).top ∧
      (k.after sp (n + 1)).top = sp.niter * (sp.len + n * sp.incr) := by
  have hround : ∀ {k : Kernel} {len : Nat}, k.pos ≤ k.top → k.top ≤ sp.niter * len →
      (k.round sp len).pos ≤ (k.round sp len).top ∧ (k.round sp len).top = sp.niter * len := by
    intro k len hle hmax
    obtain ⟨hpos, htop⟩ := round_span happend hle len
    rw [base, if_pos hseq, Nat.zero_add] at hpos htop
    rw [hpos, htop]
    omega
  induction n with
  | zero =>
      have hstart : k.after sp 0 = k := rfl
      rw [after_succ, hstart]
      exact hround (Nat.le_of_eq (hpos.trans htop.symm)) (by omega)
  | succ n ih =>
      obtain ⟨hle, htop⟩ := ih
      rw [after_succ]
      refine hround hle (htop ▸ Nat.mul_le_mul_left _ (Nat.add_le_add_left ?_ _))
      exact Nat.mul_le_mul_right _ (Nat.le_succ n)

/-- Rounds that go on add up. -/
theorem Kernel.after_sequential (hseq : sp.modeFlags &&& SEQ_WRITE ≠ 0)
    (happend : sp.openFlags.O_APPEND = false) (hpos : k.pos = 0) (htop : k.top = 0) (n : Nat) :
    (k.after sp n).pos = (k.after sp n).top ∧
      2 * (k.after sp n).top + sp.niter * n * sp.incr
        = sp.niter * n * (2 * sp.len + n * sp.incr) := by
  induction n with
  | zero =>
      have hstart : k.after sp 0 = k := rfl
      rw [hstart, hpos, htop]
      exact ⟨rfl, by ring⟩
  | succ n ih =>
      obtain ⟨hend, hsum⟩ := ih
      obtain ⟨hpos', htop'⟩ := round_span happend (Nat.le_of_eq hend)
        (sp.len + n * sp.incr)
      rw [base, if_neg hseq, hend] at hpos' htop'
      rw [Nat.max_eq_right (Nat.le_add_right _ _)] at htop'
      rw [after_succ, hpos', htop']
      refine ⟨rfl, ?_⟩
      linarith [hsum]

end

/-! ## What is preallocated -/

/-- The run has preallocated all it writes. -/
def Covered (sp : TestSpec) (st : Start) (k : Kernel) : Prop :=
  ∃ r, runOdsync false sp st k = some r ∧ r.rounds.kernel.top ≤ r.nfalloc

/-- No round is run; or the size does not wrap, and its increments make up
for what the later rounds add: the last increment `niter` times, or with
`SEQ_WRITE` all the writes of the rounds after the first. -/
def Covering (sp : TestSpec) : Prop :=
  sp.rounds = 0 ∨ sp.len * sp.niter + sp.incr * (sp.nincr - 1) < 2 ^ 64 ∧
    if sp.modeFlags &&& SEQ_WRITE = 0 then sp.niter * (sp.rounds - 1) ≤ sp.nincr - 1
    else sp.niter * (sp.rounds - 1) * (2 * sp.len + sp.incr * sp.rounds)
      ≤ 2 * sp.incr * (sp.nincr - 1)

section

variable {sp : TestSpec}

/-- The increments alone do not wrap. -/
theorem Accepted.increments_lt (hsp : Accepted sp) : sp.incr * (sp.nincr - 1) < 2 ^ 64 := by
  have hnincr : sp.nincr - 1 ≤ MAX_NINCR := Nat.le_trans (Nat.sub_le _ _) hsp.nincr.2
  exact Nat.lt_of_le_of_lt (Nat.mul_le_mul hsp.incr.2 hnincr) (by decide)

/-- A size that does not wrap is what is asked for, and one that wraps is
too small for the first round. -/
theorem Accepted.le_nfalloc_iff (hsp : Accepted sp) {top : Nat} (hfirst : sp.len * sp.niter ≤ top) :
    top ≤ sp.nfalloc ↔ sp.len * sp.niter + sp.incr * (sp.nincr - 1) < 2 ^ 64 ∧
      top ≤ sp.len * sp.niter + sp.incr * (sp.nincr - 1) := by
  have hincr := hsp.increments_lt
  rw [TestSpec.nfalloc]
  omega

theorem rewound_le_iff (hincr : 0 < sp.incr) {n top : Nat}
    (htop : top = sp.len * sp.niter + sp.incr * (sp.niter * n)) :
    top ≤ sp.len * sp.niter + sp.incr * (sp.nincr - 1) ↔ sp.niter * n ≤ sp.nincr - 1 := by
  rw [htop, Nat.add_le_add_iff_left]
  exact Nat.mul_le_mul_left_iff hincr

theorem sequential_le_iff {n top : Nat} (htop : 2 * top
      = 2 * (sp.len * sp.niter) + sp.niter * n * (2 * sp.len + sp.incr * (n + 1))) :
    top ≤ sp.len * sp.niter + sp.incr * (sp.nincr - 1)
      ↔ sp.niter * n * (2 * sp.len + sp.incr * (n + 1)) ≤ 2 * sp.incr * (sp.nincr - 1) := by
  rw [Nat.mul_assoc 2]
  omega

/-- **The preallocation covers the run** just if the increments it counts
are enough. -/
theorem prealloc_covers_iff {opts : List Opt} {bufsz niter : Int}
    (h : mainSpec false opts bufsz niter = .ok sp) (hfalloc : sp.modeFlags &&& FALLOC ≠ 0)
    (happend : sp.openFlags.O_APPEND = false) {st : Start} (hst : st.NoErrors) {k : Kernel}
    (hk : NoErrors k) : Covered sp st k ↔ Covering sp := by
  have hsp := mainSpec_accepted h
  have hincr : 0 < sp.incr := Nat.lt_of_lt_of_le (by decide) hsp.incr.1
  obtain ⟨k₀, ⟨-, hpos, htop⟩, hrun⟩ := runOdsync_faultless hsp hst hk
  rw [if_pos hfalloc, roundLens_range hincr] at hrun
  have hcovered : Covered sp st k ↔ (k₀.after sp sp.rounds).top ≤ sp.nfalloc := by
    constructor
    · rintro ⟨r, hr, hle⟩
      obtain rfl := Option.some.inj (hr.symm.trans hrun)
      exact hle
    · exact fun hle => ⟨_, hrun, hle⟩
  rw [hcovered, Covering]
  cases hrounds : sp.rounds with
  | zero =>
      have hstart : k₀.after sp 0 = k₀ := rfl
      rw [hstart, htop]
      exact iff_of_true (Nat.zero_le _) (Or.inl rfl)
  | succ n =>
      have hsome : ∀ {p : Prop}, n + 1 = 0 ∨ p ↔ p := or_iff_right (Nat.succ_ne_zero n)
      rw [hsome, Nat.add_sub_cancel]
      by_cases hseq : sp.modeFlags &&& SEQ_WRITE = 0
      · have htop : (k₀.after sp (n + 1)).top
            = sp.len * sp.niter + sp.incr * (sp.niter * n) := by
          rw [(Kernel.after_rewound hseq happend hpos htop n).2]
          ring
        rw [hsp.le_nfalloc_iff (htop ▸ Nat.le_add_right _ _), rewound_le_iff hincr htop,
          if_pos hseq]
      · have htop : 2 * (k₀.after sp (n + 1)).top = 2 * (sp.len * sp.niter)
            + sp.niter * n * (2 * sp.len + sp.incr * (n + 1)) := by
          linarith [(Kernel.after_sequential hseq happend hpos htop (n + 1)).2]
        rw [hsp.le_nfalloc_iff (by omega), sequential_le_iff htop, if_neg hseq]

end

/-- `wbuft -F -N 2 file 1024 1` -/
def twoWrites : TestSpec :=
  { modeFlags := FALLOC, len := 1024, niter := 1, incr := 128, nincr := 2 }

theorem prealloc_covers_iff_twoWrites :
    Covered twoWrites opensThree faultless ↔ Covering twoWrites := by
  have hmain : mainSpec false [.F, .N 2] 1024 1 = .ok twoWrites := rfl
  exact prealloc_covers_iff hmain (by decide) rfl opensThree_noErrors faultless_noErrors

/-- Two writes of 1152 bytes from the start, and 2176 bytes for them. -/
theorem prealloc_too_small :
    ¬∀ (opts : List Opt) (bufsz niter : Int) (sp : TestSpec) (st : Start) (k : Kernel),
      mainSpec false opts bufsz niter = .ok sp → sp.modeFlags &&& FALLOC ≠ 0 →
      sp.openFlags.O_APPEND = false → st.NoErrors → NoErrors k → Covered sp st k := by
  intro hall
  obtain ⟨r, hr, hle⟩ := hall _ _ _ twoRounds opensThree faultless twoRounds_accepted (by decide)
    rfl opensThree_noErrors faultless_noErrors
  obtain rfl := Option.some.inj hr
  exact absurd hle (by decide)

end MiscTools.Wbuft
