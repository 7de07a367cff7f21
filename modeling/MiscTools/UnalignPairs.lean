import MiscTools.UnalignFill

/-!
# The vectorized fill

`unal.S` makes the stores in pairs, with `movdqa`. It counts them beforehand
and makes the first one alone where the rest would not begin at a multiple of
16. That helps if `vp` is a multiple of 8, as gcc may take a pointer to
`void *` to be. Nothing in `main` sees to it: with another offset the first
pair raises an exception. This is all there is between the listing and the
source (`unal03_does`).
-/

namespace MiscTools.Unalign

open Memory X86 Strides

/-- How many stores come before the pairs. -/
def alone (vp : Word) : Nat := vp.toNat / 8 % 2

/-- There is a pair, and it is not at a multiple of 16. -/
def Misaligned (fin vp : Word) : Prop :=
  ¬8 ∣ vp.toNat ∧ alone vp + 2 ≤ turns fin vp

instance (fin vp : Word) : Decidable (Misaligned fin vp) := by
  unfold Misaligned
  infer_instance

example : Misaligned 0x1020#64 0x1001#64 ∧ ¬Misaligned 0x1020#64 0x1008#64 := by decide

def vectorLoop (k : Nat) : Loop := fun fin vp m next =>
  if Misaligned fin vp then .fault else fillLoop k fin vp m next

/-! ## The count -/

section

variable {fin vp : Word}

theorem count_word (h : vp.ult fin = true) :
    (7#64 + fin - (8#64 + vp)) >>> 3 + 1#64
      = BitVec.ofNat 64 (turns fin vp) := by
  rw [BitVec.ult_eq_decide, decide_eq_true_eq] at h
  have hlast : (7#64 + fin - (8#64 + vp)).toNat = fin.toNat - vp.toNat - 1 := by bv_omega
  apply BitVec.eq_of_toNat_eq
  rw [BitVec.toNat_add, BitVec.toNat_ushiftRight, hlast, Nat.shiftRight_eq_div_pow,
    BitVec.toNat_ofNat, turns, count]
  simp
  omega

/-- What is left after `j` stores, and its pairs. -/
theorem half_word {j n : Nat} (hj : j ≤ n) (hn : n < 2 ^ 64) :
    BitVec.ofNat 64 n - BitVec.ofNat 64 j = BitVec.ofNat 64 (n - j) ∧
    BitVec.ofNat 64 (n - j) >>> 1 = BitVec.ofNat 64 ((n - j) / 2) ∧
      BitVec.ofNat 64 ((n - j) / 2) + BitVec.ofNat 64 ((n - j) / 2)
        = BitVec.ofNat 64 (2 * ((n - j) / 2)) := by
  refine ⟨?_, ?_, ?_⟩
  · apply BitVec.eq_of_toNat_eq
    rw [BitVec.toNat_sub, BitVec.toNat_ofNat, BitVec.toNat_ofNat, BitVec.toNat_ofNat]
    omega
  · apply BitVec.eq_of_toNat_eq
    rw [BitVec.toNat_ushiftRight, BitVec.toNat_ofNat, BitVec.toNat_ofNat,
      Nat.shiftRight_eq_div_pow]
    omega
  · rw [← BitVec.ofNat_add, Nat.two_mul]

theorem scale_word (j : Nat) : BitVec.ofNat 64 j * 8#64 = BitVec.ofNat 64 (8 * j) := by
  rw [Nat.mul_comm, BitVec.ofNat_mul]

theorem alone_word (vp : Word) : vp <<< 60 >>> 63 = BitVec.ofNat 64 (alone vp) := by
  apply BitVec.eq_of_toNat_eq
  rw [BitVec.toNat_ushiftRight, BitVec.toNat_shiftLeft, Nat.shiftLeft_eq,
    Nat.shiftRight_eq_div_pow, BitVec.toNat_ofNat, alone]
  omega

/-- The fill from the `j`-th store on. -/
theorem filled_drop {j : Nat} (hfin : fin.toNat + 8 ≤ 2 ^ 64)
    (hj : j ≤ turns fin vp) :
    (vp + BitVec.ofNat 64 (8 * j)).toNat = vp.toNat + 8 * j ∧
      filled fin (vp + BitVec.ofNat 64 (8 * j)) + 8 * j = filled fin vp := by
  have hvp := vp.isLt
  rw [turns, count] at hj
  have hoff : (vp + BitVec.ofNat 64 (8 * j)).toNat = vp.toNat + 8 * j := by
    rw [BitVec.toNat_add, BitVec.toNat_ofNat]
    omega
  refine ⟨hoff, ?_⟩
  rw [filled, filled, turns, turns, hoff, count, count]
  omega

end

/-! ## `unal.S` -/

/-- `j` stores have been made since `s₁`. -/
structure Filling (fin vp : Word) (s₁ : State) (j : Nat) (s : State) : Prop where
  mem : s.mem = clear s₁.mem vp (8 * j)
  rsi : s.regs .rsi = fin
  rbp : s.regs .rbp = vp
  r8 : s.regs .r8 = BitVec.ofNat 64 (turns fin vp)
  kept : ∀ r ∈ [Reg.rsp, .rbx, .r12, .r13, .r14, .r15], s.regs r = s₁.regs r

section

variable {ld : Sym → Word} {t pc : Text Sym} {s₀ s₁ s s' : State} {fin vp : Word} {j : Nat}

theorem turn_loop03 (pc : Text Sym) : Turn ld t (loop03.take 3) pc .a 15 .rsi := by
  intro s
  refine ⟨_, .of_stepN (n := 3) rfl, ?_, ?_, ?_, ?_⟩
  · simp
  · simp
  · intro r hr
    simp [hr]
  · simp [holds_a_sub]

theorem common03 : Common unal03 labels03 := by
  constructor <;> exact ⟨_, rfl⟩

theorem turns_pos (h : vp.ult fin = true) : 0 < turns fin vp := by
  rw [BitVec.ult_eq_decide, decide_eq_true_eq] at h
  exact (lt_count_iff (by omega)).mpr (by omega)

theorem turns_lt (fin vp : Word) : turns fin vp < 2 ^ 62 := by
  rw [turns, count]
  omega

theorem alone_lt (vp : Word) : alone vp < 2 := Nat.mod_lt _ (by omega)

/-- The first comparison of the counts. -/
theorem run_count (hrsi : s.regs .rsi = fin) (hrbp : s.regs .rbp = vp)
    (h : vp.ult fin = true) :
    ∃ s', stepN ld t 9 ⟨count03 ++ pc, s⟩ = some ⟨count03.drop 9 ++ pc, s'⟩ ∧
      s'.mem = s.mem ∧ s'.regs .rax = vp + 8#64 ∧
      s'.regs .r8 = BitVec.ofNat 64 (turns fin vp) ∧ s'.regs .rdx = BitVec.ofNat 64 (alone vp) ∧
      s'.flags = subFlags (BitVec.ofNat 64 (alone vp)) (BitVec.ofNat 64 (turns fin vp)) ∧
        ∀ r ∉ [Reg.rax, .r8, .rdx], s'.regs r = s.regs r := by
  refine ⟨_, rfl, ?_, ?_, ?_, ?_, ?_, ?_⟩
  · simp
  · simp [hrbp, BitVec.add_comm]
  · simp [hrsi, hrbp, count_word h]
  · simp [hrbp, alone_word]
  · simp [hrsi, hrbp, count_word h, alone_word]
  · intro r hr
    simp only [List.mem_cons, List.not_mem_nil, or_false, not_or] at hr
    simp [hr]

/-- Up to the test whether a store is made alone. -/
theorem steps_count (hrsi : s.regs .rsi = fin) (hrbp : s.regs .rbp = vp)
    (h : vp.ult fin = true) :
    ∃ s', Steps ld t ⟨count03 ++ pc, s⟩ ⟨count03.drop 11 ++ pc, s'⟩ ∧
      s'.mem = s.mem ∧ s'.regs .rax = vp + 8#64 ∧
      s'.regs .r8 = BitVec.ofNat 64 (turns fin vp) ∧ s'.regs .rdx = BitVec.ofNat 64 (alone vp) ∧
      Cond.e.holds s'.flags = some (decide (alone vp = 0)) ∧
        ∀ r ∉ [Reg.rax, .r8, .rdx], s'.regs r = s.regs r := by
  obtain ⟨s₁, hrun, hmem, hrax, hr8, hrdx, hflags, hregs⟩ :=
    @run_count ld t pc s fin vp hrsi hrbp h
  have hc : Cond.be.holds s₁.flags = some ((BitVec.ofNat 64 (turns fin vp)).ule
      (BitVec.ofNat 64 (alone vp))) := hflags ▸ holds_be_sub _ _
  -- the smaller of the two counts is the one made alone
  have hmin : (if (BitVec.ofNat 64 (turns fin vp)).ule (BitVec.ofNat 64 (alone vp)) then
      BitVec.ofNat 64 (turns fin vp) else BitVec.ofNat 64 (alone vp))
        = BitVec.ofNat 64 (alone vp) := by
    split_ifs with hle
    · rw [BitVec.ule_eq_decide, decide_eq_true_eq, BitVec.toNat_ofNat, BitVec.toNat_ofNat] at hle
      have hpos := turns_pos h
      have hmax := turns_lt fin vp
      have halone := alone_lt vp
      congr 1
      omega
    · rfl
  refine ⟨_, (Steps.of_stepN hrun).trans (.cmov hc (.of_stepN (n := 1) rfl)),
    ?_, ?_, ?_, ?_, ?_, ?_⟩
  · simp [hmem]
  · simp [hrax]
  · simp [hr8]
  · simp [hr8, hrdx, hmin]
  · have hzero : (BitVec.ofNat 64 (alone vp) = 0#64) = (alone vp = 0) := by
      have halone := alone_lt vp
      rw [← BitVec.toNat_inj, BitVec.toNat_ofNat, BitVec.toNat_ofNat, eq_iff_iff]
      omega
    simp [Cond.holds, logicFlags, hr8, hrdx, hmin, beq_eq_decide, hzero]
  · intro r hr
    simp only [List.mem_cons, List.not_mem_nil, or_false, not_or] at hr
    simp [hr, hregs]

/-- One turn of the loop over the pairs. -/
theorem pair_turn (hal : (s.regs .rcx).toNat % 16 = 0) (hx : s.xmm .xmm0 = 0#128) :
    ∃ s', Steps ld t ⟨pairLoop03 ++ pc, s⟩ ⟨pairLoop03.drop 4 ++ pc, s'⟩ ∧
      s'.mem = clear s.mem (s.regs .rcx) 16 ∧ s'.xmm .xmm0 = 0#128 ∧
      s'.regs .rcx = s.regs .rcx + 16#64 ∧ s'.regs .rdx = s.regs .rdx + 1#64 ∧
      (∀ r, r ≠ .rcx → r ≠ .rdx → s'.regs r = s.regs r) ∧
        Cond.b.holds s'.flags = some ((s'.regs .rdx).ult (s'.regs .rdi)) := by
  refine ⟨_, (Steps.of_stepN (n := 1) rfl).trans (.movdqa ?_ (.of_stepN (n := 2) rfl)),
    ?_, ?_, ?_, ?_, ?_, ?_⟩
  · simpa using hal
  · simp [hx, store_zero]
  · simp [hx]
  · simp
  · simp
  · intro r hrcx hrdx
    simp [hrcx, hrdx]
  · simp [holds_b_sub]

theorem ult_succ {i n : Nat} (h : i + n + 1 < 2 ^ 64) :
    (BitVec.ofNat 64 i + 1#64).ult (BitVec.ofNat 64 (i + n + 1)) = decide (0 < n) := by
  rw [BitVec.ult_eq_decide, decide_eq_decide, BitVec.toNat_add, BitVec.toNat_ofNat,
    BitVec.toNat_ofNat, BitVec.toNat_ofNat]
  omega

/-- The loop over the pairs, from the `i`-th of `q` on. -/
theorem steps_pairs (hfind : find 11 t = some (pairLoop03 ++ pc)) {q : Nat} (hq : q < 2 ^ 60) :
    ∀ {n i : Nat} {s : State}, i + n + 1 = q →
    s.regs .rdi = BitVec.ofNat 64 q → s.regs .rdx = BitVec.ofNat 64 i →
    (s.regs .rcx).toNat % 16 = 0 → s.xmm .xmm0 = 0#128 →
    ∃ s', Steps ld t ⟨pairLoop03 ++ pc, s⟩ ⟨pairLoop03.drop 5 ++ pc, s'⟩ ∧
      s'.mem = clear s.mem (s.regs .rcx) (16 * (n + 1)) ∧
        ∀ r, r ≠ .rcx → r ≠ .rdx → s'.regs r = s.regs r := by
  intro n
  induction n with
  | zero =>
      intro i s hi hrdi hrdx hal hx
      obtain ⟨s', hsteps, hmem, -, -, hrdx', hregs, hc⟩ :=
        @pair_turn ld t pc s hal hx
      rw [hrdx', hrdx, hregs .rdi (by decide) (by decide), hrdi, ← hi,
        ult_succ (i := i) (n := 0) (by omega)] at hc
      exact ⟨s', hsteps.trans (.not_taken (hc.trans (by simp)) (.refl _)), hmem, hregs⟩
  | succ n ih =>
      intro i s hi hrdi hrdx hal hx
      obtain ⟨s₁, hsteps, hmem, hx₁, hrcx₁, hrdx₁, hregs, hc⟩ :=
        @pair_turn ld t pc s hal hx
      have hrdi₁ := (hregs .rdi (by decide) (by decide)).trans hrdi
      rw [hrdx₁, hrdx, hrdi₁, ← hi, ult_succ (by omega)] at hc
      have hal₁ : (s₁.regs .rcx).toNat % 16 = 0 := by
        rw [hrcx₁, BitVec.toNat_add]
        simp
        omega
      obtain ⟨s₂, hrest, hmem₂, hregs₂⟩ := ih (i := i + 1) (by omega) hrdi₁
        (hrdx₁.trans (by rw [hrdx, BitVec.ofNat_add])) hal₁ hx₁
      refine ⟨s₂, hsteps.trans (.taken (hc.trans (by simp)) hfind hrest), ?_, ?_⟩
      · rw [hmem₂, hmem, hrcx₁, clear_clear (n := 16) _ _ (by omega)]
        congr 1
        omega
      · intro r hr hr'
        exact (hregs₂ r hr hr').trans (hregs r hr hr')

theorem Filling.update {k : Nat} (h : Filling fin vp s₁ j s)
    (hmem : s'.mem = Memory.clear s₁.mem vp (8 * k))
    (hregs : ∀ r ∈ [Reg.rsi, .rbp, .r8, .rsp, .rbx, .r12, .r13, .r14, .r15],
      s'.regs r = s.regs r) : Filling fin vp s₁ k s' where
  mem := hmem
  rsi := (hregs .rsi (by decide)).trans h.rsi
  rbp := (hregs .rbp (by decide)).trans h.rbp
  r8 := (hregs .r8 (by decide)).trans h.r8
  kept := fun r hr => (hregs r (by revert r; decide)).trans (h.kept r hr)

/-- More of the stretch has been cleared, and other registers have changed. -/
theorem Filling.clear {k : Nat} (h : Filling fin vp s₁ j s) (hmax : 8 * (j + k) ≤ 2 ^ 64)
    (hmem : s'.mem = Memory.clear s.mem (vp + BitVec.ofNat 64 (8 * j)) (8 * k))
    (hregs : ∀ r ∈ [Reg.rsi, .rbp, .r8, .rsp, .rbx, .r12, .r13, .r14, .r15],
      s'.regs r = s.regs r) : Filling fin vp s₁ (j + k) s' := by
  refine h.update ?_ hregs
  rw [hmem, h.mem, clear_clear _ _ (by omega), Nat.mul_add]

/-- Only other registers have changed. -/
theorem Filling.same_mem (h : Filling fin vp s₁ j s) (hmem : s'.mem = s.mem)
    (hregs : ∀ r ∈ [Reg.rsi, .rbp, .r8, .rsp, .rbx, .r12, .r13, .r14, .r15],
      s'.regs r = s.regs r) : Filling fin vp s₁ j s' :=
  h.update (hmem.trans h.mem) hregs

end

/-! ## From its labels on -/

def from9 : Text Sym := end03 ++ tail labels03 ++ .label 14 :: alone03

def from15 : Text Sym := loop03 ++ .label 9 :: from9

def from11 : Text Sym := pairLoop03 ++ .label 15 :: from15

def from8 : Text Sym := pairs03 ++ .label 11 :: from11

section

variable {ld : Sym → Word} {s₀ s₁ s : State} {argv mblock mbLen offset : Word} {m : Mem} {j : Nat}
  (hl : Loaded ld argv s₀)

include hl

theorem does_end03 (h : Ready s₀ mblock mbLen offset m s₁)
    (hf : Filling (mblock + mbLen) (mblock + offset) s₁
      (turns (mblock + mbLen) (mblock + offset)) s) :
    Does ld unal03 s₀ ⟨from9, s⟩
      (finishMain ld mblock mbLen
        (mblock + offset + BitVec.ofNat 64 (filled (mblock + mbLen) (mblock + offset)))
        (clear m (mblock + offset) (filled (mblock + mbLen) (mblock + offset)))) := by
  refine .run (n := 2) rfl (does_finish hl common03 (h.frame.filled h.block ?_ ?_) ?_ ?_ ?_)
  · simp [hf.kept]
  · simp [hf.mem, filled]
  · simp [hf.kept, h.rbx]
  · simp [hf.kept, h.r12]
  · simp [hf.rbp, hf.r8, filled, BitVec.ofNat_mul, BitVec.mul_comm]

/-- One by one. -/
theorem does_loop15 (h : Ready s₀ mblock mbLen offset m s₁)
    (hf : Filling (mblock + mbLen) (mblock + offset) s₁ j s)
    (hj : j < turns (mblock + mbLen) (mblock + offset))
    (hrax : s.regs .rax = mblock + offset + BitVec.ofNat 64 (8 * j)) :
    Does ld unal03 s₀ ⟨from15, s⟩
      (finishMain ld mblock mbLen
        (mblock + offset + BitVec.ofNat 64 (filled (mblock + mbLen) (mblock + offset)))
        (clear m (mblock + offset) (filled (mblock + mbLen) (mblock + offset)))) := by
  obtain ⟨hat, hrest⟩ := filled_drop h.block.fin_le (Nat.le_of_lt hj)
  refine does_fill (by decide) (turn_loop03 _) rfl h.block.fin_le hf.rsi ?_ fun s' hmem hregs => ?_
  · rw [hrax, BitVec.ult_eq_decide, decide_eq_true_eq, hat, ← lt_count_iff (by omega)]
    exact hj
  · have hlen : 8 * turns (mblock + mbLen) (mblock + offset) ≤ 2 ^ 64 := by
      have hfin := h.block.fin_le
      rw [turns, count]
      omega
    have hall := @Filling.clear _ _ s' _ _ _ (turns (mblock + mbLen) (mblock + offset) - j) hf
      (by omega) ?_ (by simp [hregs])
    · rw [Nat.add_sub_cancel' (Nat.le_of_lt hj)] at hall
      exact .run (n := 1) rfl (does_end03 hl h hall)
    · rw [hmem, hrax]
      congr 1
      simp only [filled] at hrest ⊢
      omega

/-- What the registers hold when there is a pair. -/
structure Pairing (fin vp : Word) (j : Nat) (s : State) : Prop where
  rax : s.regs .rax = vp + BitVec.ofNat 64 (8 * j)
  rcx : s.regs .rcx = vp + BitVec.ofNat 64 (8 * j)
  rdx : s.regs .rdx = 0#64
  rdi : s.regs .rdi = BitVec.ofNat 64 ((turns fin vp - j) / 2)
  r9 : s.regs .r9 = BitVec.ofNat 64 (2 * ((turns fin vp - j) / 2))
  r10 : s.regs .r10 = BitVec.ofNat 64 (turns fin vp - j)
  xmm0 : s.xmm .xmm0 = 0#128

/-- In pairs, where the first is at a multiple of 16. -/
theorem does_loop11 (h : Ready s₀ mblock mbLen offset m s₁)
    (hf : Filling (mblock + mbLen) (mblock + offset) s₁ j s)
    (hp : Pairing (mblock + mbLen) (mblock + offset) j s)
    (hj : j + 2 ≤ turns (mblock + mbLen) (mblock + offset))
    (hal : (s.regs .rcx).toNat % 16 = 0) :
    Does ld unal03 s₀ ⟨from11, s⟩
      (finishMain ld mblock mbLen
        (mblock + offset + BitVec.ofNat 64 (filled (mblock + mbLen) (mblock + offset)))
        (clear m (mblock + offset) (filled (mblock + mbLen) (mblock + offset)))) := by
  have hlen : turns (mblock + mbLen) (mblock + offset) < 2 ^ 61 := by
    have hfin := h.block.fin_le
    rw [turns, count]
    omega
  generalize hn : (turns (mblock + mbLen) (mblock + offset) - j) / 2 = q
  obtain ⟨s₂, hsteps, hmem, hregs⟩ := @steps_pairs ld unal03
    (.label 15 :: from15) rfl q (by omega) (q - 1) 0 s (by omega)
    (hp.rdi.trans (by rw [hn])) hp.rdx hal hp.xmm0
  have hf₂ := @Filling.clear _ _ s₂ _ _ _ (2 * q) hf (by omega)
    (by rw [hmem, hp.rcx]; congr 1; omega) (by simp [hregs])
  have hr9 : s₂.regs .r9 = BitVec.ofNat 64 (2 * q) := by
    rw [hregs .r9 (by decide) (by decide), hp.r9, hn]
  have hr10 : s₂.regs .r10 =
      BitVec.ofNat 64 (turns (mblock + mbLen) (mblock + offset) - j) := by
    rw [hregs .r10 (by decide) (by decide), hp.r10]
  refine .steps hsteps (.run (n := 2) rfl ?_)
  by_cases heven : turns (mblock + mbLen) (mblock + offset) - j = 2 * q
  · have hall : j + 2 * q = turns (mblock + mbLen) (mblock + offset) := by omega
    rw [hall] at hf₂
    refine .steps (.taken ?_ rfl (.refl _))
      (does_end03 hl h (hf₂.same_mem (by rfl) (by simp)))
    simp [holds_e_sub, hr9, hr10, heven]
  · -- one store is left
    refine .steps (.not_taken ?_ (.refl _)) (.run (n := 1) rfl
      (does_loop15 hl h (hf₂.same_mem (by rfl) (by simp)) (by omega) ?_))
    · have hne : BitVec.ofNat 64 (turns (mblock + mbLen) (mblock + offset) - j)
          ≠ BitVec.ofNat 64 (2 * q) := by
        rw [Ne, ← BitVec.toNat_inj, BitVec.toNat_ofNat, BitVec.toNat_ofNat]
        omega
      simp [holds_e_sub, hr9, hr10, hne]
    · simp only [State.set_self, eval_index, State.setFlags_regs, hr9]
      rw [hregs .rax (by decide) (by decide), hp.rax, Nat.mul_add, BitVec.ofNat_add,
        BitVec.zero_add, BitVec.add_assoc, Nat.mul_comm 8 (2 * q), BitVec.ofNat_mul (2 * q) 8]

/-- From the first store on that is not made alone. -/
theorem does_from8 (h : Ready s₀ mblock mbLen offset m s₁)
    (hf : Filling (mblock + mbLen) (mblock + offset) s₁ j s) (hj : j = alone (mblock + offset))
    (hlt : j < turns (mblock + mbLen) (mblock + offset))
    (hrax : s.regs .rax = mblock + offset + BitVec.ofNat 64 (8 * j))
    (hrdx : s.regs .rdx = BitVec.ofNat 64 j) :
    Does ld unal03 s₀ ⟨from8, s⟩
      (if Misaligned (mblock + mbLen) (mblock + offset) then .fault else
        finishMain ld mblock mbLen
          (mblock + offset + BitVec.ofNat 64 (filled (mblock + mbLen) (mblock + offset)))
          (clear m (mblock + offset) (filled (mblock + mbLen) (mblock + offset)))) := by
  have hlen : turns (mblock + mbLen) (mblock + offset) < 2 ^ 61 := by
    have hfin := h.block.fin_le
    rw [turns, count]
    omega
  obtain ⟨hr10, hrdi, hr9⟩ := half_word (Nat.le_of_lt hlt) (by omega)
  refine .run (n := 6) rfl ?_
  by_cases htwo : j + 2 ≤ turns (mblock + mbLen) (mblock + offset)
  · refine .steps (.not_taken ?_ (.refl _)) ?_
    · have hne :
          BitVec.ofNat 64 (2 * ((turns (mblock + mbLen) (mblock + offset) - j) / 2)) ≠ 0#64 := by
        rw [Ne, ← BitVec.toNat_inj, BitVec.toNat_ofNat]
        simp
        omega
      simp [Cond.holds, addFlags, hf.r8, hrdx, hr10, hrdi, hr9, hne]
    · have hal : (mblock + offset + BitVec.ofNat 64 (8 * j)).toNat % 16 = 0 ↔
          8 ∣ (mblock + offset).toNat := by
        rw [(filled_drop h.block.fin_le (Nat.le_of_lt hlt)).1, hj, alone]
        omega
      refine .run (n := 4) rfl ?_
      by_cases hdvd : 8 ∣ (mblock + offset).toNat
      · rw [if_neg fun hmis => hmis.1 hdvd]
        refine does_loop11 hl h (hf.same_mem (by rfl) (by simp)) ⟨?_, ?_, ?_, ?_, ?_, ?_, ?_⟩
          htwo ?_
        · simp [hrax]
        · simp [hf.rbp, hrdx, scale_word]
        · simp [State.low]
        · simp [hf.r8, hrdx, hr10, hrdi]
        · simp [hf.r8, hrdx, hr10, hrdi, hr9]
        · simp [hf.r8, hrdx, hr10]
        · simp
        · refine (congrArg (fun a : Word => a.toNat % 16) ?_).trans (hal.mpr hdvd)
          simp [hf.rbp, hrdx, scale_word]
      · rw [if_pos ⟨hdvd, hj ▸ htwo⟩]
        refine .run (n := 1) rfl (.misaligned fun hzero => hdvd (hal.mp ?_))
        refine (congrArg (fun a : Word => a.toNat % 16) ?_).trans hzero
        simp [hf.rbp, hrdx, scale_word]
  · rw [if_neg fun hmis => htwo (hj ▸ hmis.2)]
    have hone : (turns (mblock + mbLen) (mblock + offset) - j) / 2 = 0 := by omega
    refine .steps (.taken ?_ rfl (.refl _))
      (does_loop15 hl h (hf.same_mem (by rfl) (by simp)) hlt (by simp [hrax]))
    simp [Cond.holds, addFlags, hf.r8, hrdx, hr10, hrdi, hone]

theorem does_count03 (h : Ready s₀ mblock mbLen offset m s) (hrsi : s.regs .rsi = mblock + mbLen)
    (hlt : (mblock + offset).ult (mblock + mbLen) = true) :
    Does ld unal03 s₀ ⟨count03 ++ .label 8 :: from8, s⟩
      (if Misaligned (mblock + mbLen) (mblock + offset) then .fault else
        finishMain ld mblock mbLen
          (mblock + offset + BitVec.ofNat 64 (filled (mblock + mbLen) (mblock + offset)))
          (clear m (mblock + offset) (filled (mblock + mbLen) (mblock + offset)))) := by
  obtain ⟨s₁, hsteps, hmem, hrax, hr8, hrdx, hc, hregs⟩ :=
    @steps_count ld unal03 (.label 8 :: from8) s _ _ hrsi h.rbp hlt
  have hf : Filling (mblock + mbLen) (mblock + offset) s 0 s₁ := by
    refine ⟨?_, ?_, ?_, hr8, ?_⟩
    · rw [hmem, Nat.mul_zero, clear_zero]
    · rw [hregs .rsi (by decide), hrsi]
    · rw [hregs .rbp (by decide), h.rbp]
    · exact fun r hr => hregs r (by revert r; decide)
  refine .steps hsteps ?_
  by_cases hzero : alone (mblock + offset) = 0
  · rw [decide_eq_true hzero] at hc
    refine .steps (.taken hc rfl (.refl _)) (.run (n := 1) rfl (.jmp rfl ?_))
    refine does_from8 hl h (hf.same_mem (by rfl) (by simp)) hzero.symm (turns_pos hlt) ?_ ?_
    · simp [hf.rbp]
    · simp [hrdx, hzero]
  · rw [decide_eq_false hzero] at hc
    have hone : alone (mblock + offset) = 1 := by
      have halone := alone_lt (mblock + offset)
      omega
    have hmax := turns_lt (mblock + mbLen) (mblock + offset)
    have hf₁ : Filling (mblock + mbLen) (mblock + offset) s 1
        ((s₁.setFlags (subFlags (s₁.regs .rdx) (s₁.regs .r8))).setMem
          (store s₁.mem (s₁.regs .rbp) 8 0#64)) :=
      hf.clear (k := 1) (by omega) (by simp [hf.rbp, store_zero]) (by simp)
    refine .steps (.not_taken hc (.refl _)) (.run (n := 2) rfl ?_)
    by_cases hlast : turns (mblock + mbLen) (mblock + offset) = 1
    · have hmis : ¬Misaligned (mblock + mbLen) (mblock + offset) := fun hmis => by
        have htwo := hmis.2
        omega
      rw [if_neg hmis]
      refine .steps (.taken ?_ rfl (.refl _)) (does_end03 hl h (hlast ▸ ?_))
      · simp [holds_e_sub, hr8, hrdx, hlast, hone]
      · exact hf₁.same_mem (by simp) (by simp)
    · have hne : BitVec.ofNat 64 (turns (mblock + mbLen) (mblock + offset)) ≠ 1#64 := by
        rw [Ne, ← BitVec.toNat_inj, BitVec.toNat_ofNat, BitVec.toNat_ofNat]
        omega
      have hpos := turns_pos hlt
      refine .steps (.not_taken ?_ (.refl _)) (.run (n := 1) rfl
        (does_from8 hl h (hf₁.same_mem (by simp) (by simp)) hone.symm (by omega) ?_ ?_))
      · simp [holds_e_sub, hr8, hrdx, hone, hne]
      · simp [hrax]
      · simp [hrdx, hone]

theorem does_loop03 {k : Nat} (hk : 2 ^ 44 ≤ k) (h : Ready s₀ mblock mbLen offset m s) :
    Does ld unal03 s₀ ⟨begin03.drop 5 ++ count03 ++ .label 8 :: from8, s⟩
      (vectorLoop k (mblock + mbLen) (mblock + offset) m (finishMain ld mblock mbLen)) := by
  obtain ⟨pc', hfinish⟩ := common03.finish
  rw [vectorLoop, h.block.fillLoop_eq hk]
  refine .run (n := 2) rfl ?_
  by_cases hlt : (mblock + offset).ult (mblock + mbLen) = true
  · refine .steps (.not_taken ?_ (.refl _)) ?_
    · simp [holds_ae_sub, h.rbp, h.rbx, h.r12, hlt]
    · refine does_count03 hl (h.same_mem ?_ (by rfl)) ?_ hlt
      · simp [Kept, calleeSaved]
      · simp [h.rbx, h.r12]
  · have hn := filled_of_not_lt hlt
    have hmis : ¬Misaligned (mblock + mbLen) (mblock + offset) := by
      intro hmis
      have hpos := hmis.2
      rw [filled] at hn
      omega
    rw [if_neg hmis]
    refine .steps (.taken ?_ hfinish (.refl _))
      (does_finish hl common03 (h.frame.filled h.block ?_ ?_) ?_ ?_ ?_)
    · simp [holds_ae_sub, h.rbp, h.rbx, h.r12, hlt]
    · simp
    · simp [hn, clear_zero]
    · simp [h.rbx]
    · simp [h.r12]
    · simp [h.rbp, hn]

theorem middle03 {k : Nat} (hk : 2 ^ 44 ≤ k) :
    Middle ld unal03 (begin03 ++ count03 ++ .label 8 :: from8) s₀ (vectorLoop k) := by
  intro mblock mbLen offset m s h hrdi
  refine does_call hl (n := 4) rfl ?_ (h.frame.same_mem (by simp) (by rfl))
    fun v m' s' _ _ hret => ?_
  · simp [observe, State.low, hrdi, h.rbp, hl.sym_eq]
  · exact does_loop03 hl hk ((h.same_mem (by simp [Kept, calleeSaved]) (by rfl)).returned hret)

omit hl in
/-- **`unal.S` does what the source does, or it raises an exception.** That is
where `vp` is not a multiple of 8 and there is a pair to be stored. -/
theorem unal03_does (hl : Loaded ld (s₀.regs .rsi) s₀) {k : Nat} (hk : 2 ^ 44 ≤ k) :
    Does ld unal03 s₀ ⟨unal03, s₀⟩
      (main ld (vectorLoop k) (s₀.low .rdi) (s₀.regs .rsi) s₀.mem) :=
  does_main hl common03 (middle03 hl hk) rfl

end

theorem unal03_does_start :
    Does startSyms unal03 startState ⟨unal03, startState⟩
      (main startSyms (vectorLoop (2 ^ 44)) 3#32 0x7fffffffe100#64 fun _ => 0#8) :=
  unal03_does loaded_start (Nat.le_refl _)

end MiscTools.Unalign
