import MiscTools.UnalignMain

/-!
# The loop of the unaligned fill

The loop of the source clears eight octets a turn, as long as it starts below
`fin`: what it comes to is one cleared stretch (`fill_eq`). A loop of the same
stores in a listing clears the same stretch (`steps_fill`).

`unal.02.S` has just that loop. It does what the source does, for every
`argv` and whatever the library answers (`unal02_does`).
-/

namespace MiscTools.Unalign

open Memory X86 Strides

/-- The turns of the loop. -/
def turns (fin vp : Word) : Nat := count 8 vp.toNat fin.toNat

/-- The octets that are cleared from `vp` on. -/
def filled (fin vp : Word) : Nat := 8 * turns fin vp

section

variable {fin vp : Word} {m : Mem}

theorem filled_of_not_lt (h : ¬vp.ult fin = true) : filled fin vp = 0 := by
  rw [BitVec.ult_eq_decide, decide_eq_true_eq, Nat.not_lt] at h
  rw [filled, turns, count_of_le (by omega) h]

/-- A turn clears the first eight. -/
theorem filled_of_lt (h : vp.ult fin = true) (hfin : fin.toNat + 8 ≤ 2 ^ 64) :
    filled fin vp = 8 + filled fin (vp + 8#64) ∧ filled fin vp ≤ 2 ^ 64 ∧
      (vp + 8#64).toNat = vp.toNat + 8 := by
  rw [BitVec.ult_eq_decide, decide_eq_true_eq] at h
  have hnext : (vp + 8#64).toNat = vp.toNat + 8 := by
    rw [BitVec.toNat_add]
    exact Nat.mod_eq_of_lt (by simp; omega)
  refine ⟨?_, ?_, hnext⟩
  · rw [filled, filled, turns, turns, hnext, count_step (by omega) h]
    omega
  · rw [filled, turns, count]
    omega

/-- What is cleared with the first turn and with the others. -/
theorem clear_filled (m : Mem) (h : vp.ult fin = true) (hfin : fin.toNat + 8 ≤ 2 ^ 64) :
    clear (store m vp 8 (0#64)) (vp + 8#64) (filled fin (vp + 8#64))
        = clear m vp (filled fin vp) ∧
      vp + 8#64 + BitVec.ofNat 64 (filled fin (vp + 8#64))
        = vp + BitVec.ofNat 64 (filled fin vp) := by
  obtain ⟨hfilled, hmax, -⟩ := filled_of_lt h hfin
  rw [hfilled] at hmax
  rw [hfilled, store_zero, clear_clear m vp hmax, BitVec.ofNat_add, BitVec.add_assoc]
  exact ⟨rfl, rfl⟩

/-- One stretch is cleared. -/
theorem fill_eq (hfin : fin.toNat + 8 ≤ 2 ^ 64) :
    ∀ {k : Nat} {vp : Word} {m : Mem}, filled fin vp ≤ 8 * k →
      fill fin k vp m
        = some (vp + BitVec.ofNat 64 (filled fin vp), clear m vp (filled fin vp)) := by
  have hend : ∀ {k : Nat} {vp : Word} {m : Mem}, ¬vp.ult fin = true → fill fin k vp m
      = some (vp + BitVec.ofNat 64 (filled fin vp), clear m vp (filled fin vp)) := by
    intro k vp m h
    rw [filled_of_not_lt h, clear_zero, BitVec.add_zero]
    cases k <;> rw [fill, if_neg h]
  intro k
  induction k with
  | zero =>
      intro vp m hk
      refine hend fun h => ?_
      have hturn := (filled_of_lt h hfin).1
      omega
  | succ k ih =>
      intro vp m hk
      by_cases h : vp.ult fin = true
      · obtain ⟨hmem, hvp⟩ := clear_filled m h hfin
        have hturn := (filled_of_lt h hfin).1
        rw [fill, if_pos h, ih (by omega), hmem, hvp]
      · exact hend h

end

/-! ## Where the stores are -/

section

variable {s₀ s s' : State} {m : Mem} {mblock mbLen offset : Word}

theorem Block.fin_toNat (h : Block s₀ mblock mbLen offset) :
    (mblock + mbLen).toNat = mblock.toNat + mbLen.toNat := by
  have hlow := h.low
  rw [BitVec.toNat_add]
  omega

theorem Block.vp_toNat (h : Block s₀ mblock mbLen offset) :
    (mblock + offset).toNat = mblock.toNat + offset.toNat := by
  have hlow := h.low
  have hoff := h.offset
  rw [BitVec.toNat_add]
  omega

/-- The last store may reach behind the block, by seven octets. -/
theorem Block.within_filled (h : Block s₀ mblock mbLen offset) {x : Word}
    (hx : Within (mblock + offset) (filled (mblock + mbLen) (mblock + offset)) x) :
    Within mblock (mbLen.toNat + 8) x := by
  have hlow := h.low
  have hoff := h.offset
  unfold Within at *
  rw [filled, turns, h.fin_toNat, h.vp_toNat, count] at hx
  bv_omega

theorem Block.fin_le (h : Block s₀ mblock mbLen offset) :
    (mblock + mbLen).toNat + 8 ≤ 2 ^ 64 := by
  have hlow := h.low
  rw [h.fin_toNat]
  omega

/-- The loop of the source gets through the block. -/
theorem Block.fillLoop_eq (h : Block s₀ mblock mbLen offset) {k : Nat} (hk : 2 ^ 44 ≤ k)
    (next : Word → Mem → Prog Event (BitVec 32)) :
    fillLoop k (mblock + mbLen) (mblock + offset) m next =
      next (mblock + offset + BitVec.ofNat 64 (filled (mblock + mbLen) (mblock + offset)))
        (clear m (mblock + offset) (filled (mblock + mbLen) (mblock + offset))) := by
  have hlow := h.low
  have hcount : filled (mblock + mbLen) (mblock + offset) ≤ 8 * 2 ^ 44 := by
    rw [filled, turns, h.fin_toNat, h.vp_toNat, count]
    omega
  rw [fillLoop, fill_eq h.fin_le (by omega)]

/-- The fill leaves the frame alone. -/
theorem Frame.filled (h : Frame s₀ m s) (hb : Block s₀ mblock mbLen offset)
    (hregs : ∀ r ∈ [Reg.rsp, .r13, .r14, .r15], s'.regs r = s.regs r)
    (hmem : s'.mem = clear s.mem (mblock + offset) (filled (mblock + mbLen) (mblock + offset))) :
    Frame s₀ (clear m (mblock + offset) (filled (mblock + mbLen) (mblock + offset))) s' := by
  refine h.update hregs ?_ ?_
  · rw [hmem]
    refine (Agree.refl _ _).clear_left fun x hx hs => ?_
    exact hb.apart x (hb.within_filled hx) hs.own
  · rw [hmem]
    exact h.rest.clear _ _

end

/-! ## The loop in a listing -/

section

variable {ld : Sym → Word} {t pc body : Text Sym} {l : Nat} {c : Cond} {fin : Word}

/-- One turn of it: a store, and the test whether to go on. `r` holds `fin`. -/
def Turn (ld : Sym → Word) (t body pc : Text Sym) (c : Cond) (l : Nat) (r : Reg) : Prop :=
  ∀ s, ∃ s', Steps ld t ⟨body ++ .j c l :: pc, s⟩ ⟨.j c l :: pc, s'⟩ ∧
    s'.mem = store s.mem (s.regs .rax) 8 (0#64) ∧ s'.regs .rax = s.regs .rax + 8#64 ∧
    (∀ r ≠ Reg.rax, s'.regs r = s.regs r) ∧
      c.holds s'.flags = some ((s'.regs .rax).ult (s'.regs r))

/-- A listing tests at the end of a turn. -/
theorem steps_fill {r : Reg} (hr : r ≠ .rax) (hturn : Turn ld t body pc c l r)
    (hfind : find l t = some (body ++ .j c l :: pc)) (hfin : fin.toNat + 8 ≤ 2 ^ 64) :
    ∀ {n : Nat} {s : State}, s.regs r = fin → (s.regs .rax).ult fin = true →
      filled fin (s.regs .rax) = n → ∃ s', Steps ld t ⟨body ++ .j c l :: pc, s⟩ ⟨pc, s'⟩ ∧
        s'.mem = clear s.mem (s.regs .rax) n ∧ ∀ r ≠ Reg.rax, s'.regs r = s.regs r := by
  intro n
  induction n using Nat.strongRecOn with
  | _ n ih =>
    intro s hs hlt hn
    obtain ⟨s₁, hsteps, hmem, hrax, hregs, hc⟩ := hturn s
    obtain ⟨hclear, -⟩ := clear_filled s.mem hlt hfin
    obtain ⟨hfilled, -⟩ := filled_of_lt hlt hfin
    rw [← hrax] at hfilled hclear
    rw [← hmem, hn] at hclear
    rw [hregs r hr, hs] at hc
    by_cases hgo : (s₁.regs .rax).ult fin = true
    · rw [hgo] at hc
      obtain ⟨s₂, hrest, hmem₂, hregs₂⟩ :=
        ih (filled fin (s₁.regs .rax)) (by omega) ((hregs r hr).trans hs) hgo rfl
      refine ⟨s₂, hsteps.trans (.taken hc hfind hrest), hmem₂.trans hclear, fun r' hr' => ?_⟩
      exact (hregs₂ r' hr').trans (hregs r' hr')
    · rw [Bool.of_not_eq_true hgo] at hc
      rw [filled_of_not_lt hgo, clear_zero] at hclear
      exact ⟨s₁, hsteps.trans (.not_taken hc (.refl _)), hclear, hregs⟩

theorem does_fill {s₀ s : State} {p : Prog Event (BitVec 32)} {r : Reg} (hr : r ≠ .rax)
    (hturn : Turn ld t body pc c l r) (hfind : find l t = some (body ++ .j c l :: pc))
    (hfin : fin.toNat + 8 ≤ 2 ^ 64) (hs : s.regs r = fin) (hlt : (s.regs .rax).ult fin = true)
    (hp : ∀ s', s'.mem = clear s.mem (s.regs .rax) (filled fin (s.regs .rax)) →
      (∀ r ≠ Reg.rax, s'.regs r = s.regs r) → Does ld t s₀ ⟨pc, s'⟩ p) :
    Does ld t s₀ ⟨body ++ .j c l :: pc, s⟩ p := by
  obtain ⟨s', hsteps, hmem, hregs⟩ := steps_fill hr hturn hfind hfin hs hlt rfl
  exact (hp s' hmem hregs).steps hsteps

end

/-! ## `unal.02.S` -/

section

variable {ld : Sym → Word} {t pc : Text Sym} {s₀ : State}

theorem turn_loop02 (pc : Text Sym) : Turn ld t (loop02.take 3) pc .b 8 .rdx := by
  intro s
  refine ⟨_, .of_stepN (n := 3) rfl, ?_, ?_, ?_, ?_⟩
  · simp [Addr.eval]
  · simp
  · intro r hr
    simp [hr]
  · simp [holds_b_sub]

/-- The stores but the first are counted by a shift. -/
theorem shift_eq {fin vp : Word} (h : vp.ult fin = true) :
    (~~~vp + fin) >>> 3 = BitVec.ofNat 64 (turns fin vp - 1) := by
  rw [BitVec.ult_eq_decide, decide_eq_true_eq] at h
  have hlast : (~~~vp + fin).toNat = fin.toNat - vp.toNat - 1 := by
    rw [BitVec.toNat_add, BitVec.toNat_not]
    omega
  apply BitVec.eq_of_toNat_eq
  rw [BitVec.toNat_ushiftRight, hlast, Nat.shiftRight_eq_div_pow, BitVec.toNat_ofNat, turns,
    count]
  omega

theorem vp_behind {fin vp : Word} (h : vp.ult fin = true) :
    8#64 + vp + (~~~vp + fin) >>> 3 * 8#64 = vp + BitVec.ofNat 64 (filled fin vp) := by
  have hpos : 0 < turns fin vp := by
    rw [BitVec.ult_eq_decide, decide_eq_true_eq] at h
    exact (lt_count_iff (by omega)).mpr (by omega)
  have hsum : filled fin vp = 8 + (turns fin vp - 1) * 8 := by
    rw [filled]
    omega
  rw [shift_eq h, hsum, BitVec.ofNat_add, BitVec.ofNat_mul, BitVec.add_comm 8#64, BitVec.add_assoc]

theorem common02 : Common unal02 labels02 := by
  constructor <;> exact ⟨_, rfl⟩

variable {argv : Word} (hl : Loaded ld argv s₀)

include hl

theorem does_loop02 {k : Nat} (hk : 2 ^ 44 ≤ k) {m : Mem} {s : State}
    {mblock mbLen offset : Word} (h : Ready s₀ mblock mbLen offset m s) :
    Does ld unal02 s₀ ⟨begin02.drop 5 ++ .label 8 :: loop02 ++ end02 ++ tail labels02, s⟩
      (fillLoop k (mblock + mbLen) (mblock + offset) m (finishMain ld mblock mbLen)) := by
  obtain ⟨pc', hfinish⟩ := common02.finish
  rw [h.block.fillLoop_eq hk]
  refine .run (n := 2) rfl ?_
  by_cases hlt : (mblock + offset).ult (mblock + mbLen) = true
  · refine .steps (.not_taken ?_ (.refl _)) (.run (n := 2) rfl ?_)
    · simp [holds_ae_sub, h.rbp, h.rbx, h.r12, hlt]
    · refine does_fill (by decide) (turn_loop02 _) rfl h.block.fin_le ?_ ?_ fun s' hmem hregs => ?_
      · simp [h.rbx, h.r12]
      · simp [h.rbp, hlt]
      · refine .run (n := 6) rfl (does_finish hl common02 (h.frame.filled h.block ?_ ?_) ?_ ?_ ?_)
        · simp [hregs]
        · simp [hmem, h.rbp]
        · simp [hregs, h.rbx]
        · simp [hregs, h.r12]
        · simp [hregs, h.rbp, h.rbx, h.r12, vp_behind hlt]
  · have hn := filled_of_not_lt hlt
    refine .steps (.taken ?_ hfinish (.refl _))
      (does_finish hl common02 (h.frame.filled h.block ?_ ?_) ?_ ?_ ?_)
    · simp [holds_ae_sub, h.rbp, h.rbx, h.r12, hlt]
    · simp
    · simp [hn, clear_zero]
    · simp [h.rbx]
    · simp [h.r12]
    · simp [h.rbp, hn]

theorem middle02 {k : Nat} (hk : 2 ^ 44 ≤ k) :
    Middle ld unal02 (begin02 ++ .label 8 :: loop02 ++ end02 ++ tail labels02) s₀
      (fillLoop k) := by
  intro mblock mbLen offset m s h hrdi
  refine does_call hl (n := 4) rfl ?_ (h.frame.same_mem (by simp) (by rfl))
    fun v m' s' _ _ hret => ?_
  · simp [observe, State.low, hrdi, h.rbp, hl.sym_eq]
  · exact does_loop02 hl hk ((h.same_mem (by simp [Kept, calleeSaved]) (by rfl)).returned hret)

omit hl in
/-- **`unal.02.S` does what the source does.** A loop that is granted 2^44
turns gets through the lower half of the address space. -/
theorem unal02_does (hl : Loaded ld (s₀.regs .rsi) s₀) {k : Nat} (hk : 2 ^ 44 ≤ k) :
    Does ld unal02 s₀ ⟨unal02, s₀⟩
      (main ld (fillLoop k) (s₀.low .rdi) (s₀.regs .rsi) s₀.mem) :=
  does_main hl common02 (middle02 hl hk) rfl

end

def startSyms : Sym → Word
  | .stdout => 0x404040#64
  | .stderr => 0x404060#64
  | .strtol => 0x401030#64
  | .mmap => 0x401040#64
  | .fprintfChk => 0x401050#64
  | .munmap => 0x401060#64
  | .perror => 0x401070#64
  | _ => 0x402010#64

/-- `main` is called with two arguments. -/
def startState : State where
  regs
    | .rdi => 3#64
    | .rsi => 0x7fffffffe100#64
    | .rsp => 0x7fffffffe008#64
    | _ => 0#64
  xmm := fun _ => 0#128
  flags := logicFlags 0#64
  mem := fun _ => 0#8

theorem loaded_start : Loaded startSyms (startState.regs .rsi) startState where
  small f := by cases f <;> decide
  aligned := by decide
  stdout := apart_of_le (by decide) (by decide)
  stderr := apart_of_le (by decide) (by decide)
  argv := (apart_of_le (by decide) (by decide)).symm

theorem unal02_does_start :
    Does startSyms unal02 startState ⟨unal02, startState⟩
      (main startSyms (fillLoop (2 ^ 44)) 3#32 0x7fffffffe100#64 fun _ => 0#8) :=
  unal02_does loaded_start (Nat.le_refl _)

end MiscTools.Unalign
