import Mathlib.Logic.Function.Basic
import Mathlib.Logic.Relation
import MiscTools.Memory

/-!
# A piece of x86-64

The instructions that a compiler emits for loops over words, calls and
simple tests, and those that hand-written code uses to change stacks. Operands
stand in AT&T order, the source first. `σ` is the type of the symbols that the
text refers to, and `ld` says where the linker has put them.

A text is a list of lines. Where the processor is in it is the rest of the
text from there on, so code falls through into what follows it. `step` is
undefined at `call` and `ret`, which leave the text, and where an instruction
faults: `movdqa` on an address that is not a multiple of 16. It is undefined,
too, at a branch on a flag that the last instruction has left undefined.
-/

namespace MiscTools.X86

open Memory

/-! ## The state -/

inductive Reg
  | rax | rbx | rcx | rdx | rsi | rdi | rbp | rsp
  | r8 | r9 | r10 | r11 | r12 | r13 | r14 | r15
  deriving DecidableEq

inductive XReg
  | xmm0 | xmm1 | xmm2 | xmm3 | xmm4 | xmm5 | xmm6 | xmm7
  deriving DecidableEq

structure Flags where
  zf : Bool
  cf : Bool
  sf : Bool
  /-- `none` where it is undefined. -/
  of : Option Bool

structure State where
  regs : Reg → Word
  xmm : XReg → BitVec 128
  flags : Flags
  mem : Mem

/-- The lower half of a register. -/
def State.low (s : State) (r : Reg) : BitVec 32 := (s.regs r).setWidth 32

def State.set (s : State) (r : Reg) (v : Word) : State :=
  { s with regs := Function.update s.regs r v }

/-- Writing the lower half clears the upper one. -/
def State.setLow (s : State) (r : Reg) (v : BitVec 32) : State := s.set r (v.setWidth 64)

def State.setFlags (s : State) (f : Flags) : State := { s with flags := f }

def State.setMem (s : State) (m : Mem) : State := { s with mem := m }

def State.setXmm (s : State) (x : XReg) (v : BitVec 128) : State :=
  { s with xmm := Function.update s.xmm x v }

section

variable (s : State) (r r' : Reg) (v : Word) (w : BitVec 32) (f : Flags) (m : Mem) (x : XReg)
  (u : BitVec 128)

@[simp] theorem State.set_self : (s.set r v).regs r = v := Function.update_self ..

@[simp] theorem State.set_of_ne (h : r' ≠ r) : (s.set r v).regs r' = s.regs r' :=
  Function.update_of_ne h ..

@[simp] theorem State.set_flags : (s.set r v).flags = s.flags := rfl
@[simp] theorem State.set_mem : (s.set r v).mem = s.mem := rfl
@[simp] theorem State.set_xmm : (s.set r v).xmm = s.xmm := rfl
@[simp] theorem State.setLow_self : (s.setLow r w).regs r = w.setWidth 64 := State.set_self ..

@[simp] theorem State.setLow_of_ne (h : r' ≠ r) : (s.setLow r w).regs r' = s.regs r' :=
  State.set_of_ne _ _ _ _ h

@[simp] theorem State.setLow_flags : (s.setLow r w).flags = s.flags := rfl
@[simp] theorem State.setLow_mem : (s.setLow r w).mem = s.mem := rfl
@[simp] theorem State.setLow_xmm : (s.setLow r w).xmm = s.xmm := rfl
@[simp] theorem State.setFlags_regs : (s.setFlags f).regs = s.regs := rfl
@[simp] theorem State.setFlags_flags : (s.setFlags f).flags = f := rfl
@[simp] theorem State.setFlags_mem : (s.setFlags f).mem = s.mem := rfl
@[simp] theorem State.setFlags_xmm : (s.setFlags f).xmm = s.xmm := rfl
@[simp] theorem State.setMem_regs : (s.setMem m).regs = s.regs := rfl
@[simp] theorem State.setMem_flags : (s.setMem m).flags = s.flags := rfl
@[simp] theorem State.setMem_mem : (s.setMem m).mem = m := rfl
@[simp] theorem State.setMem_xmm : (s.setMem m).xmm = s.xmm := rfl
@[simp] theorem State.setXmm_regs : (s.setXmm x u).regs = s.regs := rfl
@[simp] theorem State.setXmm_flags : (s.setXmm x u).flags = s.flags := rfl
@[simp] theorem State.setXmm_mem : (s.setXmm x u).mem = s.mem := rfl
@[simp] theorem State.setXmm_self : (s.setXmm x u).xmm x = u := Function.update_self ..

end

/-! ## Instructions -/

/-- `disp(base,index,scale)`, relative to a symbol if there is one. -/
structure Addr (σ : Type) where
  sym : Option σ := none
  disp : Word := 0#64
  base : Option Reg := none
  index : Option (Reg × Word) := none

inductive Operand (σ : Type)
  | imm (v : Word)
  | sym (s : σ)
  | reg (r : Reg)
  | mem (a : Addr σ)

instance {σ : Type} : Coe Reg (Operand σ) := ⟨.reg⟩

inductive Cond | e | a | ae | b | be | le

/-- A label, or an instruction. -/
inductive Line (σ : Type)
  | label (l : Nat)
  | pushq (r : Reg)
  | popq (r : Reg)
  | movq (src dst : Operand σ)
  | movl (src dst : Operand σ)
  | leaq (src : Addr σ) (dst : Reg)
  | addq (src : Operand σ) (dst : Reg)
  | subq (src : Operand σ) (dst : Reg)
  | xorl (src : Operand σ) (dst : Reg)
  | orl (src : Operand σ) (dst : Reg)
  | notq (dst : Reg)
  | salq (count : Nat) (dst : Reg)
  | shrq (count : Nat) (dst : Reg)
  | cmpq (src : Operand σ) (dst : Reg)
  | cmpl (src : Operand σ) (dst : Reg)
  | testq (src : Operand σ) (dst : Reg)
  | cmov (c : Cond) (src dst : Reg)
  | pxor (src dst : XReg)
  | movdqa (src : XReg) (dst : Addr σ)
  | j (c : Cond) (l : Nat)
  | jmp (l : Nat)
  | call (f : σ)
  | ret

/-! ## What they compute -/

/-- `dst - src`. -/
def subFlags {w : Nat} (src dst : BitVec w) : Flags where
  zf := dst == src
  cf := dst.ult src
  sf := (dst - src).msb
  of := some (dst.ssubOverflow src)

def addFlags {w : Nat} (src dst : BitVec w) : Flags where
  zf := dst + src == 0#w
  cf := dst.uaddOverflow src
  sf := (dst + src).msb
  of := some (dst.saddOverflow src)

/-- After a bitwise operation. -/
def logicFlags {w : Nat} (v : BitVec w) : Flags where
  zf := v == 0#w
  cf := false
  sf := v.msb
  of := some false

/-- `v <<< count`, for a count from 1 to 63. -/
def shlFlags (count : Nat) (v : Word) : Flags where
  zf := v <<< count == 0#64
  cf := v.getLsbD (64 - count)
  sf := (v <<< count).msb
  of := if count = 1 then some ((v <<< count).msb != v.msb) else none

/-- `v >>> count`, for a count from 1 to 63. -/
def shrFlags (count : Nat) (v : Word) : Flags where
  zf := v >>> count == 0#64
  cf := v.getLsbD (count - 1)
  sf := (v >>> count).msb
  of := if count = 1 then some v.msb else none

def Cond.holds : Cond → Flags → Option Bool
  | e, f => some f.zf
  | a, f => some (!f.cf && !f.zf)
  | ae, f => some (!f.cf)
  | b, f => some f.cf
  | be, f => some (f.cf || f.zf)
  | le, f => f.of.map fun of => f.zf || (f.sf != of)

section

variable {σ : Type} (ld : σ → Word)

def Addr.eval (a : Addr σ) (s : State) : Word :=
  a.sym.elim 0#64 ld + a.disp + a.base.elim 0#64 s.regs
    + a.index.elim 0#64 fun p => s.regs p.1 * p.2

def Operand.read (s : State) : Operand σ → Word
  | imm v => v
  | sym f => ld f
  | reg r => s.regs r
  | mem a => load s.mem (a.eval ld s) 8

def Operand.readLow (s : State) : Operand σ → BitVec 32
  | imm v => v.setWidth 32
  | sym f => (ld f).setWidth 32
  | reg r => s.low r
  | mem a => (load s.mem (a.eval ld s) 4).setWidth 32

section

variable (s : State) (v : Word) (f : σ) (r i : Reg)

@[simp] theorem eval_base :
    Addr.eval ld { disp := v, base := some r } s = v + s.regs r := by
  simp [Addr.eval]

@[simp] theorem eval_index (scale : Word) :
    Addr.eval ld { disp := v, base := some r, index := some (i, scale) } s
      = v + s.regs r + s.regs i * scale := by
  simp [Addr.eval]

@[simp] theorem read_imm : (Operand.imm v).read ld s = v := rfl
@[simp] theorem read_sym : (Operand.sym f).read ld s = ld f := rfl
@[simp] theorem read_reg : (Operand.reg r).read ld s = s.regs r := rfl
@[simp] theorem readLow_imm : (Operand.imm v).readLow ld s = v.setWidth 32 := rfl
@[simp] theorem readLow_sym : (Operand.sym f).readLow ld s = (ld f).setWidth 32 := rfl
@[simp] theorem readLow_reg : (Operand.reg r).readLow ld s = s.low r := rfl

end

def exec (s : State) : Line σ → Option State
  | .label _ => some s
  | .pushq r =>
      let sp := s.regs .rsp - 8#64
      some ((s.set .rsp sp).setMem (store s.mem sp 8 (s.regs r)))
  | .popq r =>
      let sp := s.regs .rsp
      some ((s.set .rsp (sp + 8#64)).set r (load s.mem sp 8))
  | .movq src (.reg r) => some (s.set r (src.read ld s))
  | .movq src (.mem a) => some (s.setMem (store s.mem (a.eval ld s) 8 (src.read ld s)))
  | .movl src (.reg r) => some (s.setLow r (src.readLow ld s))
  | .movl src (.mem a) => some (s.setMem (store s.mem (a.eval ld s) 4 (src.readLow ld s)))
  | .leaq src dst => some (s.set dst (src.eval ld s))
  | .addq src dst =>
      let v := src.read ld s
      some ((s.set dst (s.regs dst + v)).setFlags (addFlags v (s.regs dst)))
  | .subq src dst =>
      let v := src.read ld s
      some ((s.set dst (s.regs dst - v)).setFlags (subFlags v (s.regs dst)))
  | .xorl src dst =>
      let v := s.low dst ^^^ src.readLow ld s
      some ((s.setLow dst v).setFlags (logicFlags v))
  | .orl src dst =>
      let v := s.low dst ||| src.readLow ld s
      some ((s.setLow dst v).setFlags (logicFlags v))
  | .notq dst => some (s.set dst (~~~(s.regs dst)))
  | .salq count dst =>
      some ((s.set dst (s.regs dst <<< count)).setFlags (shlFlags count (s.regs dst)))
  | .shrq count dst =>
      some ((s.set dst (s.regs dst >>> count)).setFlags (shrFlags count (s.regs dst)))
  | .cmpq src dst => some (s.setFlags (subFlags (src.read ld s) (s.regs dst)))
  | .cmpl src dst => some (s.setFlags (subFlags (src.readLow ld s) (s.low dst)))
  | .testq src dst => some (s.setFlags (logicFlags (s.regs dst &&& src.read ld s)))
  | .cmov c src dst =>
      (c.holds s.flags).map fun h => s.set dst (if h then s.regs src else s.regs dst)
  | .pxor src dst => some (s.setXmm dst (s.xmm dst ^^^ s.xmm src))
  | .movdqa src dst =>
      let a := dst.eval ld s
      if a.toNat % 16 = 0 then some (s.setMem (store s.mem a 16 (s.xmm src))) else none
  | _ => none

end

/-! ## Running a text -/

abbrev Text (σ : Type) := List (Line σ)

/-- The text after the label. -/
def find {σ : Type} (l : Nat) : Text σ → Option (Text σ)
  | [] => none
  | .label l' :: t => if l' = l then some t else find l t
  | _ :: t => find l t

structure Config (σ : Type) where
  pc : Text σ
  st : State

section

variable {σ : Type} (ld : σ → Word) (t : Text σ)

def step : Config σ → Option (Config σ)
  | ⟨[], _⟩ => none
  | ⟨.j c l :: pc, s⟩ =>
      (c.holds s.flags).bind fun h =>
        if h then (find l t).map fun pc' => ⟨pc', s⟩ else some ⟨pc, s⟩
  | ⟨.jmp l :: _, s⟩ => (find l t).map fun pc' => ⟨pc', s⟩
  | ⟨i :: pc, s⟩ => (exec ld s i).map fun s' => ⟨pc, s'⟩

/-- The configuration after `n` steps. -/
def stepN : Nat → Config σ → Option (Config σ)
  | 0, c => some c
  | n + 1, c => (step ld t c).bind (stepN n)

/-- Any number of steps. -/
def Steps : Config σ → Config σ → Prop :=
  Relation.ReflTransGen fun c c' => step ld t c = some c'

end

section

variable {σ : Type} {ld : σ → Word} {t : Text σ} {c c' c'' : Config σ}

theorem Steps.refl (c : Config σ) : Steps ld t c c := Relation.ReflTransGen.refl

theorem Steps.trans (h : Steps ld t c c') (h' : Steps ld t c' c'') : Steps ld t c c'' :=
  Relation.ReflTransGen.trans h h'

theorem Steps.head (h : step ld t c = some c') (h' : Steps ld t c' c'') : Steps ld t c c'' :=
  Relation.ReflTransGen.head h h'

/-- A stretch of the text that is run through by evaluation. -/
theorem Steps.of_stepN : ∀ {n : Nat} {c : Config σ}, stepN ld t n c = some c' →
    Steps ld t c c' := by
  intro n
  induction n with
  | zero =>
      intro c h
      obtain rfl := Option.some.inj h
      exact .refl c
  | succ n ih =>
      intro c h
      obtain ⟨c₁, hstep, hrest⟩ := Option.bind_eq_some_iff.mp h
      exact .head hstep (ih hrest)

variable {s : State} {pc pc' : Text σ} {l : Nat} {cond : Cond}

theorem Steps.jmp (hl : find l t = some pc') (h : Steps ld t ⟨pc', s⟩ c') :
    Steps ld t ⟨.jmp l :: pc, s⟩ c' :=
  .head (by simp [step, hl]) h

theorem Steps.taken (hc : cond.holds s.flags = some true) (hl : find l t = some pc')
    (h : Steps ld t ⟨pc', s⟩ c') : Steps ld t ⟨.j cond l :: pc, s⟩ c' :=
  .head (by simp [step, hc, hl]) h

theorem Steps.cmov {src dst : Reg} {h : Bool} (hc : cond.holds s.flags = some h)
    (hs : Steps ld t ⟨pc, s.set dst (if h then s.regs src else s.regs dst)⟩ c') :
    Steps ld t ⟨.cmov cond src dst :: pc, s⟩ c' :=
  .head (by simp [step, exec, hc]) hs

theorem Steps.movdqa {src : XReg} {dst : Addr σ} (ha : (dst.eval ld s).toNat % 16 = 0)
    (h : Steps ld t ⟨pc, s.setMem (store s.mem (dst.eval ld s) 16 (s.xmm src))⟩ c') :
    Steps ld t ⟨.movdqa src dst :: pc, s⟩ c' :=
  .head (by simp [step, exec, ha]) h

theorem step_movdqa_none {src : XReg} {dst : Addr σ} (ha : (dst.eval ld s).toNat % 16 ≠ 0) :
    step ld t ⟨.movdqa src dst :: pc, s⟩ = none := by
  simp [step, exec, ha]

theorem Steps.not_taken (hc : cond.holds s.flags = some false) (h : Steps ld t ⟨pc, s⟩ c') :
    Steps ld t ⟨.j cond l :: pc, s⟩ c' :=
  .head (by simp [step, hc]) h

end

/-! ## What the conditions say -/

section

variable {w : Nat} (src dst v : BitVec w)

theorem holds_e_sub : Cond.e.holds (subFlags src dst) = some (dst == src) := rfl

theorem holds_b_sub : Cond.b.holds (subFlags src dst) = some (dst.ult src) := rfl

theorem holds_ae_sub : Cond.ae.holds (subFlags src dst) = some (!dst.ult src) := rfl

theorem holds_a_sub : Cond.a.holds (subFlags src dst) = some (src.ult dst) := by
  simp only [Cond.holds, subFlags, Option.some.injEq, BitVec.ult]
  by_cases h : dst = src
  · simp [h]
  · have hne : dst.toNat ≠ src.toNat := fun heq => h (BitVec.eq_of_toNat_eq heq)
    have hbeq : (dst == src) = false := beq_eq_false_iff_ne.mpr h
    rw [hbeq, Bool.not_false, Bool.and_true, ← decide_not, decide_eq_decide]
    omega

theorem holds_be_sub : Cond.be.holds (subFlags src dst) = some (dst.ule src) := by
  simp only [Cond.holds, subFlags, Option.some.injEq, BitVec.ult, BitVec.ule]
  by_cases h : dst = src
  · simp [h]
  · have hne : dst.toNat ≠ src.toNat := fun heq => h (BitVec.eq_of_toNat_eq heq)
    have hbeq : (dst == src) = false := beq_eq_false_iff_ne.mpr h
    rw [hbeq, Bool.or_false, decide_eq_decide]
    omega

/-- The sign of the difference, corrected where it has overflowed. -/
theorem slt_eq_sub_flags : dst.slt src = ((dst - src).msb != dst.ssubOverflow src) := by
  by_cases hov : dst.ssubOverflow src = true
  · have hsign := (BitVec.ssubOverflow_eq dst src).symm.trans hov
    rw [hov, BitVec.slt_eq_decide]
    have hd := BitVec.msb_eq_toInt (x := dst)
    have hs := BitVec.msb_eq_toInt (x := src)
    simp only [Bool.or_eq_true, Bool.and_eq_true, Bool.not_eq_true'] at hsign
    rcases hsign with ⟨⟨hpos, hneg⟩, hres⟩ | ⟨⟨hneg, hpos⟩, hres⟩
    · rw [hpos, eq_comm, decide_eq_false_iff_not] at hd
      rw [hneg, eq_comm, decide_eq_true_eq] at hs
      rw [hres]
      exact decide_eq_false (by omega)
    · rw [hneg, eq_comm, decide_eq_true_eq] at hd
      rw [hpos, eq_comm, decide_eq_false_iff_not] at hs
      rw [hres]
      exact decide_eq_true (by omega)
  · have hexact := BitVec.toInt_sub_of_not_ssubOverflow hov
    rw [Bool.not_eq_true] at hov
    rw [hov, Bool.bne_false, BitVec.slt_eq_decide, BitVec.msb_eq_toInt, hexact, decide_eq_decide]
    omega

theorem holds_le_sub : Cond.le.holds (subFlags src dst) = some (dst.sle src) := by
  simp only [Cond.holds, subFlags, Option.map_some, BitVec.sle_eq_slt_or_eq, slt_eq_sub_flags,
    Bool.or_comm]

theorem holds_le_logic : Cond.le.holds (logicFlags v) = some (v.sle 0#w) := by
  have hneg : v.slt 0#w = v.msb := by
    rw [BitVec.slt_eq_decide, BitVec.msb_eq_toInt, BitVec.toInt_zero]
  simp only [Cond.holds, logicFlags, Option.map_some, BitVec.sle_eq_slt_or_eq, hneg, Bool.bne_false,
    Bool.or_comm]

end

end MiscTools.X86
