import MiscTools.X86

/-!
# Pushing and popping several registers

What hand-written code does to save registers and to restore them, for any
list of registers. The words on the stack are listed from the top on
(`Memory.Holds`).
-/

namespace MiscTools.X86

open Memory

section

variable {σ : Type} (ld : σ → Word) (t : Text σ)

theorem stepN_add (n k : Nat) (c : Config σ) :
    stepN ld t (n + k) c = (stepN ld t n c).bind (stepN ld t k) := by
  induction n generalizing c with
  | zero => rw [Nat.zero_add]; rfl
  | succ n ih =>
      rw [Nat.succ_add, stepN, stepN, Option.bind_assoc]
      exact congrArg _ (funext ih)

end

section

variable {σ : Type} {ld : σ → Word} {t pc : Text σ}

/-- Registers have been pushed, and the stack below has stayed. -/
structure Pushed (rs : List Reg) (s s' : State) : Prop where
  rsp : s'.regs .rsp = s.regs .rsp - BitVec.ofNat 64 (8 * rs.length)
  regs : ∀ r ≠ Reg.rsp, s'.regs r = s.regs r
  holds : ∀ {vs}, 8 * (rs.length + vs.length) ≤ 2 ^ 64 → Holds s.mem (s.regs .rsp) vs →
    Holds s'.mem (s'.regs .rsp) (rs.reverse.map s.regs ++ vs)
  rest : Agree (fun x => ¬Within (s'.regs .rsp) (8 * rs.length) x) s'.mem s.mem

theorem stepN_pushes : ∀ {rs : List Reg} {s : State}, Reg.rsp ∉ rs → 8 * rs.length < 2 ^ 64 →
    ∃ s', stepN ld t rs.length ⟨rs.map .pushq ++ pc, s⟩ = some ⟨pc, s'⟩ ∧ Pushed rs s s' := by
  intro rs
  induction rs with
  | nil =>
      intro s _ _
      refine ⟨s, rfl, ⟨?_, ?_, ?_, ?_⟩⟩
      · simp
      · exact fun _ _ => rfl
      · exact fun _ h => h
      · exact .refl _ _
  | cons r rs ih =>
      intro s hrs hlen
      rw [List.mem_cons, not_or] at hrs
      obtain ⟨hr, hrs⟩ := hrs
      have hn : 8 * (r :: rs).length = 8 * rs.length + 8 := rfl
      obtain ⟨s', hrun, h⟩ := ih (s := (s.set .rsp (s.regs .rsp - 8#64)).setMem
        (store s.mem (s.regs .rsp - 8#64) 8 (s.regs r))) hrs (by omega)
      have hrsp : s'.regs .rsp + BitVec.ofNat 64 (8 * rs.length) = s.regs .rsp - 8#64 := by
        rw [h.rsp]
        exact BitVec.sub_add_cancel ..
      refine ⟨s', hrun, ⟨?_, fun r' hr' => ?_, ?_, ?_⟩⟩
      · rw [h.rsp, hn, Nat.add_comm]
        exact slot_sub 8 _
      · rw [h.regs r' hr']
        exact State.set_of_ne _ _ _ _ hr'
      · intro vs hvs hold
        rw [List.length_cons] at hvs
        have hnext := h.holds (by rw [List.length_cons]; omega)
          (hold.push (s.regs r) (by omega))
        rw [List.reverse_cons, List.map_append, List.append_assoc]
        refine (List.map_congr_left fun r' hr' => ?_) ▸ hnext
        have hne : r' ≠ .rsp := fun he => hrs (he ▸ List.mem_reverse.mp hr')
        exact State.set_of_ne _ _ _ _ hne
      · intro x hx
        rw [hn] at hx
        rw [h.rest x fun hin => hx (hin.mono (by omega))]
        refine store_of_not_within _ fun hin => hx ?_
        rw [← hrsp] at hin
        exact hin.of_offset _ (Nat.le_refl _) (by omega)

/-- Registers have been popped. -/
structure Popped (rs : List Reg) (s s' : State) : Prop where
  rsp : s'.regs .rsp = s.regs .rsp + BitVec.ofNat 64 (8 * rs.length)
  regs : ∀ {vs ws}, vs.length = rs.length → Holds s.mem (s.regs .rsp) (vs ++ ws) →
    rs.map s'.regs = vs
  other : ∀ r ∉ rs, r ≠ .rsp → s'.regs r = s.regs r
  mem : s'.mem = s.mem

theorem stepN_pops : ∀ {rs : List Reg} {s : State}, Reg.rsp ∉ rs → rs.Nodup →
    ∃ s', stepN ld t rs.length ⟨rs.map .popq ++ pc, s⟩ = some ⟨pc, s'⟩ ∧ Popped rs s s' := by
  intro rs
  induction rs with
  | nil =>
      intro s _ _
      refine ⟨s, rfl, ⟨by simp, ?_, fun _ _ _ => rfl, rfl⟩⟩
      intro vs ws hlen _
      exact (List.eq_nil_of_length_eq_zero hlen).symm
  | cons r rs ih =>
      intro s hrs hnd
      rw [List.mem_cons, not_or] at hrs
      obtain ⟨hr, hrs⟩ := hrs
      obtain ⟨hnew, hnd⟩ := List.nodup_cons.mp hnd
      obtain ⟨s', hrun, h⟩ := ih (s := (s.set .rsp (s.regs .rsp + 8#64)).set r
        (load s.mem (s.regs .rsp) 8)) hrs hnd
      have hrsp : ((s.set .rsp (s.regs .rsp + 8#64)).set r (load s.mem (s.regs .rsp) 8)).regs .rsp
          = s.regs .rsp + 8#64 := by
        rw [State.set_of_ne _ _ _ _ hr, State.set_self]
      refine ⟨s', hrun, ⟨?_, ?_, ?_, h.mem⟩⟩
      · rw [h.rsp, hrsp, List.length_cons, Nat.mul_succ, Nat.add_comm, BitVec.ofNat_add,
          BitVec.add_assoc]
      · intro vs ws hlen hold
        cases vs with
        | nil => cases hlen
        | cons v vs =>
            have hrest : rs.map s'.regs = vs := h.regs (Nat.succ.inj hlen) (by
              rw [hrsp]
              exact hold.2)
            rw [List.map_cons, hrest, h.other r hnew (Ne.symm hr), State.set_self]
            exact congrArg (· :: vs) hold.1
      · intro r' hr' hne
        rw [List.mem_cons, not_or] at hr'
        obtain ⟨hne', hr'⟩ := hr'
        rw [h.other r' hr' hne, State.set_of_ne _ _ _ _ hne', State.set_of_ne _ _ _ _ hne]

end

end MiscTools.X86
