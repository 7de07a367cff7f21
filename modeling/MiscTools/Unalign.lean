import MiscTools.Strides
import MiscTools.X86Calls

/-!
# The unaligned fill and its listings

`unalign.c` maps a block, stores null pointers from `offset` on to the end of
it and unmaps it. Beside the source lie what gcc has made of it without and
with vectorization, `unal.02.S` and `unal.S` (`unal.03.S` is the same text).

Here are the source program, as the calls it makes and the memory it makes
them in, and the two listings line by line. The listings share all but the
middle, so the common parts stand once, with the numbers of their labels.
-/

namespace MiscTools.Unalign

open Memory X86

inductive Sym
  | lc0 | lc1 | lc2 | lc3 | lc4 | lc5 | lc6
  | stdout | stderr
  | strtol | mmap | fprintfChk | munmap | perror

/-! ## The source -/

/-- The calls of `main`, `atol` as the `strtol` that it stands for and
`fprintf` as the one that `_FORTIFY_SOURCE` puts in its place. -/
inductive Event
  | strtol (nptr endptr : Word) (base : BitVec 32)
  | mmap (addr length : Word) (prot flags fd : BitVec 32) (offset : Word)
  | munmap (addr length : Word)
  | fprintfChk (stream : Word) (flag : BitVec 32) (format arg : Word)
  | perror (s : Word)

/-- The loop at `fin`, for at most `k` turns: `vp` behind it and the memory. -/
def fill (fin : Word) : Nat → Word → Mem → Option (Word × Mem)
  | 0, vp, m => if vp.ult fin then none else some (vp, m)
  | k + 1, vp, m =>
      if vp.ult fin then fill fin k (vp + 8#64) (store m vp 8 0#64) else some (vp, m)

section

variable (ld : Sym → Word)

/-- A complaint on `stderr`, and 1 is returned. -/
def complain (format : Sym) (arg : Word) (m : Mem) : Prog Event (BitVec 32) :=
  .call (.fprintfChk (load m (ld .stderr) 8) 1#32 (ld format) arg) m fun _ m => .done 1#32 m

/-- From the end of the loop on. -/
def finishMain (mblock mbLen vp : Word) (m : Mem) : Prog Event (BitVec 32) :=
  .call (.fprintfChk (load m (ld .stdout) 8) 1#32 (ld .lc5) vp) m fun _ m =>
  .call (.munmap mblock mbLen) m fun v m =>
  let rc : BitVec 32 := v.setWidth 32
  if rc == -1#32 then
    .call (.perror (ld .lc6)) m fun _ m => .done rc m
  else .done rc m

/-- What is done with `vp` behind the loop and the memory is the last
argument. -/
abbrev Loop :=
  Word → Word → Mem → (Word → Mem → Prog Event (BitVec 32)) → Prog Event (BitVec 32)

/-- The loop of the source, with `k` turns. -/
def fillLoop (k : Nat) : Loop := fun fin vp m next =>
  match fill fin k vp m with
  | none => .pending
  | some (vp, m) => next vp m

/-- `main`, with its loop. -/
def main (loop : Loop) (argc : BitVec 32) (argv : Word) (m : Mem) : Prog Event (BitVec 32) :=
  if argc.slt 3#32 then complain ld .lc0 (load m argv 8) m else
  .call (.strtol (load m (argv + 8#64) 8) 0#64 10#32) m fun mbLen m =>
  if mbLen.sle 0#64 then complain ld .lc1 (load m (argv + 8#64) 8) m else
  .call (.strtol (load m (argv + 16#64) 8) 0#64 10#32) m fun offset m =>
  if offset.sle 0#64 then complain ld .lc2 (load m (argv + 8#64) 8) m else
  .call (.mmap 0#64 mbLen 3#32 34#32 (-1#32) 0#64) m fun mblock m =>
  if mblock == -1#64 then .call (.perror (ld .lc3)) m fun _ m => .done 1#32 m else
  let vp := mblock + offset
  .call (.fprintfChk (load m (ld .stdout) 8) 1#32 (ld .lc4) vp) m fun _ m =>
  loop (mblock + mbLen) vp m (finishMain ld mblock mbLen)

end

/-! ## The listings -/

section

open Reg XReg Line

abbrev imm (v : Word) : Operand Sym := .imm v

abbrev sym (f : Sym) : Operand Sym := .sym f

/-- `f(%rip)`. -/
def var (f : Sym) : Operand Sym := .mem { sym := some f }

/-- `disp(base)`. -/
def at_ (disp : Word) (base : Reg) : Operand Sym := .mem { disp := disp, base := some base }

@[simp] theorem read_var (ld : Sym → Word) (s : State) (f : Sym) :
    (var f).read ld s = load s.mem (ld f) 8 := by
  simp [var, Operand.read, Addr.eval]

@[simp] theorem read_at (ld : Sym → Word) (s : State) (disp : Word) (base : Reg) :
    (at_ disp base).read ld s = load s.mem (s.regs base + disp) 8 := by
  simp [at_, Operand.read, Addr.eval, BitVec.add_comm]

@[simp] theorem readLow_at (ld : Sym → Word) (s : State) (disp : Word) (base : Reg) :
    (at_ disp base).readLow ld s = (load s.mem (s.regs base + disp) 4).setWidth 32 := by
  simp [at_, Operand.readLow, Addr.eval, BitVec.add_comm]

structure Labels where
  /-- Where the loop is behind. -/
  finish : Nat
  exit : Nat
  usage : Nat
  complain : Nat
  badLength : Nat
  badOffset : Nat
  unmapFailed : Nat
  mapFailed : Nat

variable (L : Labels)

def enter : Text Sym :=
  [pushq r12,
   movq rsi r12,
   pushq rbp,
   pushq rbx,
   subq (imm 16#64) rsp,
   cmpl (imm 2#64) rdi,
   j .le L.usage]

def readLength : Text Sym :=
  [movq (at_ 8#64 rsi) rdi,
   movl (imm 10#64) rdx,
   xorl rsi rsi,
   call .strtol,
   testq rax rax,
   movq rax rbx,
   j .le L.badLength]

def readOffset : Text Sym :=
  [movq (at_ 16#64 r12) rdi,
   xorl rsi rsi,
   movl (imm 10#64) rdx,
   call .strtol,
   testq rax rax,
   movq rax rbp,
   j .le L.badOffset]

def mapBlock : Text Sym :=
  [xorl r9 r9,
   orl (imm (-1#64)) r8,
   xorl rdi rdi,
   movl (imm 34#64) rcx,
   movl (imm 3#64) rdx,
   movq rbx rsi,
   call .mmap,
   cmpq (imm (-1#64)) rax,
   movq rax r12,
   j .e L.mapFailed,
   movq (var .stdout) rdi,
   addq rax rbp]

def finishText : Text Sym :=
  [movq (var .stdout) rdi,
   movq rbp rcx,
   movl (sym .lc5) rdx,
   movl (imm 1#64) rsi,
   xorl rax rax,
   call .fprintfChk,
   movq rbx rsi,
   movq r12 rdi,
   call .munmap,
   cmpl (imm (-1#64)) rax,
   j .e L.unmapFailed]

def exitText : Text Sym :=
  [addq (imm 16#64) rsp,
   popq rbx,
   popq rbp,
   popq r12,
   ret]

def usageText : Text Sym :=
  [movq (at_ 0#64 rsi) rcx,
   movl (sym .lc0) rdx]

def complainText : Text Sym :=
  [movq (var .stderr) rdi,
   movl (imm 1#64) rsi,
   xorl rax rax,
   call .fprintfChk,
   movl (imm 1#64) rax,
   jmp L.exit]

def badLengthText : Text Sym :=
  [movq (at_ 8#64 r12) rcx,
   movl (sym .lc1) rdx,
   jmp L.complain]

def badOffsetText : Text Sym :=
  [movq (at_ 8#64 r12) rcx,
   movl (sym .lc2) rdx,
   jmp L.complain]

def unmapFailedText : Text Sym :=
  [movl (sym .lc6) rdi,
   movl rax (at_ 8#64 rsp),
   call .perror,
   movl (at_ 8#64 rsp) rax,
   jmp L.exit]

def mapFailedText : Text Sym :=
  [movl (sym .lc3) rdi,
   call .perror,
   movl (imm 1#64) rax,
   jmp L.exit]

def head : Text Sym := enter L ++ readLength L ++ readOffset L ++ mapBlock L

def tail : Text Sym :=
  label L.finish :: finishText L ++ label L.exit :: exitText ++
  label L.usage :: usageText ++ label L.complain :: complainText L ++
  label L.badLength :: badLengthText L ++ label L.badOffset :: badOffsetText L ++
  label L.unmapFailed :: unmapFailedText L ++ label L.mapFailed :: mapFailedText L

def labels02 : Labels where
  finish := 7
  exit := 3
  usage := 12
  complain := 10
  badLength := 13
  badOffset := 14
  unmapFailed := 16
  mapFailed := 15

def begin02 : Text Sym :=
  [movl (sym .lc4) rdx,
   xorl rax rax,
   movq rbp rcx,
   movl (imm 1#64) rsi,
   call .fprintfChk,
   leaq { base := some r12, index := some (rbx, 1#64) } rdx,
   cmpq rdx rbp,
   j .ae 7,
   movq rbp rax]

def loop02 : Text Sym :=
  [movq (imm 0#64) (at_ 0#64 rax),
   addq (imm 8#64) rax,
   cmpq rdx rax,
   j .b 8]

def end02 : Text Sym :=
  [movq rbp rax,
   notq rax,
   addq rdx rax,
   shrq 3 rax,
   leaq { disp := 8#64, base := some rbp, index := some (rax, 8#64) } rbp]

/-- `unal.02.S`. -/
def unal02 : Text Sym :=
  head labels02 ++ begin02 ++ label 8 :: loop02 ++ end02 ++ tail labels02

def labels03 : Labels where
  finish := 7
  exit := 3
  usage := 20
  complain := 18
  badLength := 21
  badOffset := 22
  unmapFailed := 24
  mapFailed := 23

def begin03 : Text Sym :=
  [movl (imm 1#64) rsi,
   xorl rax rax,
   movq rbp rcx,
   movl (sym .lc4) rdx,
   call .fprintfChk,
   leaq { base := some r12, index := some (rbx, 1#64) } rsi,
   cmpq rsi rbp,
   j .ae 7]

/-- How many stores there are, and whether the first is made alone. -/
def count03 : Text Sym :=
  [leaq { disp := 8#64, base := some rbp } rax,
   leaq { disp := 7#64, base := some rsi } r8,
   movq rbp rdx,
   salq 60 rdx,
   subq rax r8,
   shrq 63 rdx,
   shrq 3 r8,
   addq (imm 1#64) r8,
   cmpq rdx r8,
   cmov .be r8 rdx,
   testq rdx rdx,
   j .e 14,
   cmpq rdx r8,
   movq (imm 0#64) (at_ 0#64 rbp),
   j .e 9]

def pairs03 : Text Sym :=
  [movq r8 r10,
   subq rdx r10,
   movq r10 rdi,
   shrq 1 rdi,
   movq rdi r9,
   addq r9 r9,
   j .e 15,
   pxor xmm0 xmm0,
   leaq { base := some rbp, index := some (rdx, 8#64) } rcx,
   xorl rdx rdx]

def pairLoop03 : Text Sym :=
  [addq (imm 1#64) rdx,
   movdqa xmm0 { base := some rcx },
   addq (imm 16#64) rcx,
   cmpq rdi rdx,
   j .b 11,
   cmpq r9 r10,
   leaq { base := some rax, index := some (r9, 8#64) } rax,
   j .e 9]

def loop03 : Text Sym :=
  [movq (imm 0#64) (at_ 0#64 rax),
   addq (imm 8#64) rax,
   cmpq rax rsi,
   j .a 15]

def end03 : Text Sym := [leaq { base := some rbp, index := some (r8, 8#64) } rbp]

def alone03 : Text Sym :=
  [movq rbp rax,
   jmp 8]

/-- `unal.S`. -/
def unal03 : Text Sym :=
  head labels03 ++ begin03 ++ count03 ++ label 8 :: pairs03 ++ label 11 :: pairLoop03 ++
    label 15 :: loop03 ++ label 9 :: end03 ++ tail labels03 ++ label 14 :: alone03

end

end MiscTools.Unalign
