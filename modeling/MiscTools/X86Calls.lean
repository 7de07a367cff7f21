import MiscTools.X86

/-!
# Code that calls a library

`Prog` is what a routine does as its surroundings see it: the calls it makes,
each with the memory it makes them in, and what it returns. `Behaves` says
that machine code does just that. It follows the System V convention: a callee
keeps `rbx`, `rbp`, `r12` to `r15` and `rsp`, the stack is aligned at a call,
and the routine keeps the same registers for its own caller.

The frame of the routine is its own. Nobody else writes to it, and of the
memory everything else is compared. Whatever the library answers and does to
the rest of the memory, code and program go on in step, so a proof of
`Behaves` is one for all answers that `answers` admits. It asks for a finite
number of steps up to the next call: the code does not hang. A fault is a
`movdqa` that is come to and cannot be made, since its address is no multiple
of 16.
-/

namespace MiscTools.X86

open Memory

inductive Prog (ε ρ : Type)
  | done (r : ρ) (m : Mem)
  | call (e : ε) (m : Mem) (k : Word → Mem → Prog ε ρ)
  /-- A `movdqa` raises an exception: its address is no multiple of 16. -/
  | fault
  /-- The turns that were granted to a loop are used up. -/
  | pending

structure Library (σ ε ρ : Type) where
  ld : σ → Word
  /-- The call that is made, from the registers with its arguments. -/
  observe : σ → State → Option ε
  answers : ε → Word → Mem → Prop
  result : State → ρ

def calleeSaved : List Reg := [.rbx, .rbp, .rsp, .r12, .r13, .r14, .r15]

/-- The registers that a callee keeps. -/
def Kept (s s' : State) : Prop := ∀ r ∈ calleeSaved, s'.regs r = s.regs r

/-- A call from `s` has returned in `s'`, with `v` and the memory `m`. -/
structure Returned (own : Word → Prop) (s : State) (v : Word) (m : Mem) (s' : State) : Prop where
  rax : s'.regs .rax = v
  kept : Kept s s'
  frame : Agree own s'.mem s.mem
  rest : Agree (fun a => ¬own a) s'.mem m

section

variable {σ ε ρ : Type} (lib : Library σ ε ρ) (t : Text σ) (own : Word → Prop) (s₀ : State)

/-- The code at `c` of a routine that was entered in `s₀` does what `p` does. -/
def Behaves (c : Config σ) : Prog ε ρ → Prop
  | .done r m => ∃ pc s, Steps lib.ld t c ⟨.ret :: pc, s⟩ ∧ lib.result s = r ∧ Kept s₀ s ∧
      load s.mem (s.regs .rsp) 8 = load s₀.mem (s₀.regs .rsp) 8 ∧
        Agree (fun a => ¬own a) s.mem m
  | .call e m k => ∃ f pc s, Steps lib.ld t c ⟨.call f :: pc, s⟩ ∧ lib.observe f s = some e ∧
      (s.regs .rsp).toNat % 16 = 0 ∧ Agree (fun a => ¬own a) s.mem m ∧
        ∀ v m' s', lib.answers e v m' → Returned own s v m' s' → Behaves ⟨pc, s'⟩ (k v m')
  | .fault => ∃ src dst pc s, Steps lib.ld t c ⟨.movdqa src dst :: pc, s⟩ ∧
      (dst.eval lib.ld s).toNat % 16 ≠ 0 ∧ step lib.ld t ⟨.movdqa src dst :: pc, s⟩ = none
  | .pending => False

end

variable {σ ε ρ : Type} {lib : Library σ ε ρ} {t : Text σ} {own : Word → Prop} {s₀ : State}
  {c c' : Config σ} {s : State} {pc pc' : Text σ} {l : Nat} {cond : Cond} {p q : Prog ε ρ}

theorem Behaves.steps (hs : Steps lib.ld t c c') (h : Behaves lib t own s₀ c' p) :
    Behaves lib t own s₀ c p := by
  cases p with
  | done r m =>
      obtain ⟨pc, s, hs', hrest⟩ := h
      exact ⟨pc, s, hs.trans hs', hrest⟩
  | call e m k =>
      obtain ⟨f, pc, s, hs', hrest⟩ := h
      exact ⟨f, pc, s, hs.trans hs', hrest⟩
  | fault =>
      obtain ⟨src, dst, pc, s, hs', ha⟩ := h
      exact ⟨src, dst, pc, s, hs.trans hs', ha⟩
  | pending => exact h

/-- Straight code, run through by evaluation. -/
theorem Behaves.run {n : Nat} (hs : stepN lib.ld t n c = some c')
    (h : Behaves lib t own s₀ c' p) : Behaves lib t own s₀ c p :=
  h.steps (.of_stepN hs)

theorem Behaves.jmp (hl : find l t = some pc') (h : Behaves lib t own s₀ ⟨pc', s⟩ p) :
    Behaves lib t own s₀ ⟨.jmp l :: pc, s⟩ p :=
  h.steps (.jmp hl (.refl _))

theorem Behaves.misaligned {src : XReg} {dst : Addr σ}
    (ha : (dst.eval lib.ld s).toNat % 16 ≠ 0) :
    Behaves lib t own s₀ ⟨.movdqa src dst :: pc, s⟩ .fault :=
  ⟨src, dst, pc, s, .refl _, ha, step_movdqa_none ha⟩

/-- A branch of the code is one of the program. -/
theorem Behaves.branch {P : Prop} [Decidable P] (hc : cond.holds s.flags = some (decide P))
    (hl : find l t = some pc') (hp : P → Behaves lib t own s₀ ⟨pc', s⟩ p)
    (hq : ¬P → Behaves lib t own s₀ ⟨pc, s⟩ q) :
    Behaves lib t own s₀ ⟨.j cond l :: pc, s⟩ (if P then p else q) := by
  by_cases h : P
  · rw [if_pos h]
    rw [decide_eq_true h] at hc
    exact (hp h).steps (.taken hc hl (.refl _))
  · rw [if_neg h]
    rw [decide_eq_false h] at hc
    exact (hq h).steps (.not_taken hc (.refl _))

end MiscTools.X86
