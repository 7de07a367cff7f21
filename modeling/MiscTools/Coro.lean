import MiscTools.Runs
import MiscTools.X86Stack

/-!
# Coroutines on their own stacks

`coro.c` with `CORO_ASM` on amd64. `coro_transfer` saves the general-purpose
registers that a callee keeps on the stack of the coroutine that calls it, the
stack pointer in its context, and goes on with those of another. (A callee
keeps the control bits of the floating-point units, too. Nothing saves them,
and they are not modelled.) `coro_create` lays out a stack as `coro_transfer`
leaves one, and transfers to it.

What this is for is said without stacks: a context is asleep with what its
coroutine was doing (`Frozen`), and a transfer puts one to sleep and wakes
another. `Rep` is that memory holds what is asleep. It survives every run in
which nobody writes where a sleeping coroutine is stored, so a call of
`coro_transfer` returns as any call does, whatever has run meanwhile.
-/

namespace MiscTools.Coro

open Memory X86 Runs

/-! ## The code -/

section

open Reg Line

def coroTransfer : Text Empty :=
  [pushq rbp,
   pushq rbx,
   pushq r12,
   pushq r13,
   pushq r14,
   pushq r15,
   movq rsp (.mem { base := some rdi }),
   movq (.mem { base := some rsi }) rsp,
   popq r15,
   popq r14,
   popq r13,
   popq r12,
   popq rbx,
   popq rbp,
   ret]

end

/-- Where a call of `coro_transfer` returns to, and the state there. -/
def transfer (s : State) : Option (Word × State) :=
  match stepN Empty.elim coroTransfer 14 ⟨coroTransfer, s⟩ with
  | some ⟨.ret :: _, s'⟩ => some (load s'.mem (s'.regs .rsp) 8, s'.set .rsp (s'.regs .rsp + 8#64))
  | _ => none

inductive Sym
  | coroInitFunc | coroInitArg | newCoro | createCoro
  | abort | coroInit

/-- `*--ctx->sp = v`. -/
def push (m : Mem) (ctx v : Word) : Mem :=
  let m := store m ctx 8 (load m ctx 8 - 8#64)
  store m (load m ctx 8) 8 v

def statics : List Sym := [.coroInitFunc, .coroInitArg, .newCoro, .createCoro]

/-- What `coro_init` is going to read. -/
def setStatics (ld : Sym → Word) (ctx coro arg nctx : Word) (m : Mem) : Mem :=
  let m := store m (ld .coroInitFunc) 8 coro
  let m := store m (ld .coroInitArg) 8 arg
  let m := store m (ld .newCoro) 8 ctx
  store m (ld .createCoro) 8 nctx

def layOut (ld : Sym → Word) (ctx sptr ssize : Word) (m : Mem) : Mem :=
  let m := store m ctx 8 (ssize + sptr)
  let m := push m ctx (ld .abort)
  let m := push m ctx (ld .coroInit)
  let m := store m ctx 8 (load m ctx 8 - 48#64)
  clear m (load m ctx 8) 48

/-- `coro_transfer (prev, next)` is called, and is to return to `ret`. -/
def callTransfer (prev next ret : Word) (s : State) : State :=
  let sp := s.regs .rsp - 8#64
  (((s.set .rdi prev).set .rsi next).set .rsp sp).setMem (store s.mem sp 8 ret)

/-- All that `coro_create` writes before it calls `coro_transfer`. -/
def createMem (ld : Sym → Word) (ctx coro arg sptr ssize nctx : Word) (m : Mem) : Mem :=
  layOut ld ctx sptr ssize (setStatics ld ctx coro arg nctx m)

/-- `coro_create` at that call. -/
def atTransfer (ld : Sym → Word) (ctx coro arg sptr ssize nctx ret : Word) (s : State) : State :=
  let m := createMem ld ctx coro arg sptr ssize nctx s.mem
  callTransfer (load m (ld .createCoro) 8) (load m (ld .newCoro) 8) ret (s.setMem m)

/-- `coro_create`, from the state in its frame up to where its call of
`coro_transfer` leads. `nctx` is the address of the local variable, and `ret`
where that call is to return to. -/
def coroCreate (ld : Sym → Word) (ctx coro arg sptr ssize nctx ret : Word)
    (r : Word × State) : Option (Word × State) :=
  if coro = 0#64 then some r
  else transfer (atTransfer ld ctx coro arg sptr ssize nctx ret r.2)

/-! ## What sleeps -/

/-- The registers that are saved, in the order they are pushed. -/
def saved : List Reg := [.rbp, .rbx, .r12, .r13, .r14, .r15]

/-- How a coroutine goes on. -/
structure Frozen where
  /-- From the last one that was pushed on. -/
  regs : List Word
  ip : Word
  /-- The stack pointer then. -/
  sp : Word
  /-- What lies there. -/
  above : List Word
  six : regs.length = 6

/-- After the call of `coro_transfer` that is to be made in `s`. -/
def current (s : State) : Frozen where
  regs := saved.reverse.map s.regs
  ip := load s.mem (s.regs .rsp) 8
  sp := s.regs .rsp + 8#64
  above := []
  six := rfl

/-- At the beginning of `coro_init`. -/
def newborn (ld : Sym → Word) (sptr ssize : Word) : Frozen where
  regs := List.replicate 6 0#64
  ip := ld .coroInit
  sp := sptr + ssize - 8#64
  above := [ld .abort]
  six := rfl

def Frozen.base (f : Frozen) : Word := f.sp - 56#64

def Frozen.words (f : Frozen) : List Word := f.regs ++ f.ip :: f.above

structure Resumed (f : Frozen) (ip : Word) (s : State) : Prop where
  ip : ip = f.ip
  sp : s.regs .rsp = f.sp
  regs : saved.reverse.map s.regs = f.regs
  above : Holds s.mem f.sp f.above

structure Stored (m : Mem) (c : Word) (f : Frozen) : Prop where
  sp : load m c 8 = f.base
  words : Holds m f.base f.words

/-- Which contexts are asleep. -/
abbrev Pool := Word → Option Frozen

/-- Where a sleeping coroutine is stored. -/
def Area (c : Word) (f : Frozen) (x : Word) : Prop :=
  Within c 8 x ∨ Within f.base (8 * f.words.length) x

def Guarded (p : Pool) (x : Word) : Prop := ∃ c f, p c = some f ∧ Area c f x

/-! ## The system -/

structure Machine where
  st : State
  /-- Where the coroutine that runs was resumed. -/
  ip : Word
  asleep : Pool

inductive Act
  /-- The coroutine that runs has come to the state. -/
  | work (s : State)
  | transfer (prev next : Word)
  | create (ctx coro arg sptr ssize nctx ret : Word)

variable (ld : Sym → Word)

/-- What `coro_create` writes to: the context and the end of the stack that it
is given, its own variable, its own stack where it makes the call, and the
statics. -/
def places (ctx sptr ssize nctx : Word) (s : State) : List (Word × Nat) :=
  (ctx, 8) :: (sptr + ssize - 64#64, 64) :: (nctx, 8) :: (s.regs .rsp - 56#64, 56) ::
    statics.map fun v => (ld v, 8)

def step (a : Machine) : Act → Option Machine
  | .work s => some { a with st := s }
  | .transfer prev next =>
      (transfer a.st).map fun r =>
        { st := r.2
          ip := r.1
          asleep :=
            Function.update (Function.update a.asleep prev (some (current a.st))) next none }
  | .create ctx coro arg sptr ssize nctx ret =>
      (coroCreate ld ctx coro arg sptr ssize nctx ret (a.ip, a.st)).map fun r =>
        { st := r.2
          ip := r.1
          asleep :=
            if coro = 0#64 then a.asleep
            else Function.update (Function.update a.asleep ctx none) nctx
              (some (current (atTransfer ld ctx coro arg sptr ssize nctx ret a.st))) }

/-- Each writes only where no other sleeps. `coro_transfer` takes 48 octets of
the stack, and `coro_create` 8 more for the call and 64 at the end of the new
one, besides the variables. -/
def Obeys (a : Machine) : Act → Prop
  | .work s => Agree (Guarded a.asleep) s.mem a.st.mem
  | .transfer prev next =>
      a.st.regs .rdi = prev ∧ a.st.regs .rsi = next ∧ (next = prev ∨ (a.asleep next).isSome) ∧
      Apart prev 8 (a.st.regs .rsp - 48#64) 56 ∧
        ∀ x, Within (a.st.regs .rsp - 48#64) 48 x ∨ Within prev 8 x →
          ¬Guarded (Function.update a.asleep prev none) x
  | .create ctx coro _ sptr ssize nctx _ =>
      coro ≠ 0#64 →
        (places ld ctx sptr ssize nctx a.st).Pairwise (fun p q => Apart p.1 p.2 q.1 q.2) ∧
        ∀ p ∈ places ld ctx sptr ssize nctx a.st, ∀ x, Within p.1 p.2 x →
          ¬Guarded (Function.update (Function.update a.asleep ctx none) nctx none) x

/-- Memory holds what is asleep. -/
def Rep (a : Machine) : Prop := ∀ c f, a.asleep c = some f → Stored a.st.mem c f

/-! ## `coro_transfer` -/

section

variable {s s' : State} {m m' : Mem} {c : Word} {f : Frozen} {p : Pool} {P : Word → Prop}

theorem current_base (s : State) : (current s).base = s.regs .rsp - 48#64 := by
  show s.regs .rsp + 8#64 - 56#64 = _
  bv_omega

theorem Frozen.base_add (f : Frozen) : f.base + 48#64 + 8#64 = f.sp := by
  show f.sp - 56#64 + 48#64 + 8#64 = f.sp
  rw [slot_add 8 48, BitVec.sub_add_cancel]

/-- What the call does: the coroutine that runs is stored, and any that is
stored at `rsi` then is resumed. -/
structure Transferred (s : State) (ip : Word) (s' : State) : Prop where
  stored : Stored s'.mem (s.regs .rdi) (current s)
  rest : Agree (fun x => ¬(Within (s.regs .rsp - 48#64) 48 x ∨ Within (s.regs .rdi) 8 x))
    s'.mem s.mem
  resumed : ∀ f, Stored s'.mem (s.regs .rsi) f → Resumed f ip s'

/-- The stack pointer is exchanged between the pushes and the pops. -/
theorem run_exchange (s : State) :
    stepN Empty.elim coroTransfer 2 ⟨coroTransfer.drop 6, s⟩ =
      some ⟨saved.reverse.map .popq ++ [.ret],
        (s.setMem (store s.mem (s.regs .rdi) 8 (s.regs .rsp))).set .rsp
          (load (store s.mem (s.regs .rdi) 8 (s.regs .rsp)) (s.regs .rsi) 8)⟩ := by
  simp [stepN, X86.step, exec, coroTransfer, saved, Operand.read]

theorem transfer_eq_some (s : State) (hapart : Apart (s.regs .rdi) 8 (s.regs .rsp - 48#64) 56) :
    ∃ ip s', transfer s = some (ip, s') ∧ Transferred s ip s' := by
  obtain ⟨s₁, hrun₁, h₁⟩ := @stepN_pushes _ Empty.elim coroTransfer
    (coroTransfer.drop 6) saved s (by decide) (by decide)
  obtain ⟨s₂, hrun₂, h₂⟩ := @stepN_pops _ Empty.elim coroTransfer [.ret] saved.reverse
    ((s₁.setMem (store s₁.mem (s₁.regs .rdi) 8 (s₁.regs .rsp))).set .rsp
      (load (store s₁.mem (s₁.regs .rdi) 8 (s₁.regs .rsp)) (s₁.regs .rsi) 8))
    (by decide) (by decide)
  have hrun : stepN Empty.elim coroTransfer 14 ⟨coroTransfer, s⟩ = some ⟨[.ret], s₂⟩ := by
    have hsplit : 14 = saved.length + (2 + saved.reverse.length) := rfl
    rw [hsplit, stepN_add]
    refine (congrArg (Option.bind · _) hrun₁).trans ?_
    rw [Option.bind_some, stepN_add, run_exchange, Option.bind_some]
    exact hrun₂
  have hrsp : s₁.regs .rsp = s.regs .rsp - 48#64 := h₁.rsp
  have hrdi : s₁.regs .rdi = s.regs .rdi := h₁.regs .rdi (by decide)
  have hrsi : s₁.regs .rsi = s.regs .rsi := h₁.regs .rsi (by decide)
  have hmem := h₂.mem
  have hsp := h₂.rsp
  have hregs := @h₂.regs
  simp only [State.set_mem, State.setMem_mem, State.set_self, hrdi, hrsi, hrsp] at hmem hsp hregs
  refine ⟨_, _, by rw [transfer, hrun], ⟨?_, ?_⟩, ?_, fun f hf => ⟨?_, ?_, ?_, ?_⟩⟩
  · rw [State.set_mem, hmem, load_store_word, current_base]
  · have hret : Holds s.mem (s.regs .rsp) [load s.mem (s.regs .rsp) 8] := ⟨rfl, trivial⟩
    rw [State.set_mem, hmem, current_base]
    refine (hrsp ▸ h₁.holds (by simp [saved]) hret).congr fun x hx => ?_
    exact store_of_not_within _ fun hin => hapart x hin hx
  · intro x hx
    rw [not_or] at hx
    rw [State.set_mem, hmem, store_of_not_within _ hx.2]
    exact h₁.rest x (hrsp ▸ hx.1)
  all_goals
    rw [State.set_mem, hmem] at hf
    rw [hf.sp] at hsp hregs
    obtain ⟨hsaved, hip, habove⟩ := Holds.append.mp hf.words
    rw [f.six] at hip habove
  · rw [hmem, hsp]
    exact hip
  · rw [State.set_self, hsp]
    exact f.base_add
  · exact hregs f.six hf.words
  · rw [State.set_mem, hmem, ← f.base_add]
    exact habove

/-! ## `coro_create` -/

theorem push_eq {ctx a : Word} (v : Word) (hsp : load m ctx 8 = a) :
    push m ctx v = store (store m ctx 8 (a - 8#64)) (a - 8#64) 8 v := by
  rw [push, hsp]
  simp only [load_store_word]

theorem load_push {ctx a : Word} (v : Word) (hsp : load m ctx 8 = a)
    (hapart : Apart ctx 8 (a - 8#64) 8) : load (push m ctx v) ctx 8 = a - 8#64 := by
  rw [push_eq v hsp, load_store_apart _ hapart, load_store_word]

/-- A word goes in front of those that `ctx->sp` points to. -/
theorem holds_push {ctx a : Word} {vs : List Word} (v : Word) (hsp : load m ctx 8 = a)
    (h : Holds m a vs) (hlen : 8 * vs.length + 8 ≤ 2 ^ 64)
    (hapart : Apart ctx 8 (a - 8#64) (8 * vs.length + 8)) :
    Holds (push m ctx v) (a - 8#64) (v :: vs) := by
  rw [push_eq v hsp]
  refine Holds.push v (h.congr fun x hx => store_of_not_within _ fun hin => hapart x hin ?_) hlen
  exact within_tail (by rwa [BitVec.sub_add_cancel])

theorem agree_push {ctx a : Word} (h : Agree P m m') (v : Word) (hsp : load m ctx 8 = a)
    (hctx : ∀ x, Within ctx 8 x → ¬P x) (hat : ∀ x, Within (a - 8#64) 8 x → ¬P x) :
    Agree P (push m ctx v) m' := by
  rw [push_eq v hsp]
  exact (h.store_left _ hctx).store_left _ hat

variable {ld : Sym → Word} {ctx coro arg sptr ssize nctx : Word}

/-- The end of the new stack. -/
theorem within_top {x : Word} {n : Nat} (k : Nat) (hn : n ≤ k) (hk : k ≤ 64)
    (h : Within (sptr + ssize - BitVec.ofNat 64 k) n x) : Within (sptr + ssize - 64#64) 64 x :=
  within_slot hk (by omega) (by omega) h

/-- `ctx->sp` goes down a word at a time. -/
theorem load_layOut (m : Mem) (hapart : Apart ctx 8 (sptr + ssize - 64#64) 64) (a b : Word) :
    load (store m ctx 8 (ssize + sptr)) ctx 8 = sptr + ssize ∧
    load (push (store m ctx 8 (ssize + sptr)) ctx a) ctx 8 = sptr + ssize - 8#64 ∧
      load (push (push (store m ctx 8 (ssize + sptr)) ctx a) ctx b) ctx 8
        = sptr + ssize - 16#64 := by
  have htop : load (store m ctx 8 (ssize + sptr)) ctx 8 = sptr + ssize := by
    rw [load_store_word, BitVec.add_comm]
  have hslot : sptr + ssize - 8#64 - 8#64 = sptr + ssize - 16#64 := slot_sub 8 8
  have hone := load_push a htop (hapart.mono (fun _ => id) fun _ =>
    within_top 8 (Nat.le_refl 8) (by omega))
  refine ⟨htop, hone, ?_⟩
  rw [← hslot]
  refine load_push b hone (hapart.mono (fun _ => id) fun _ hx => ?_)
  rw [hslot] at hx
  exact within_top 16 (by omega) (by omega) hx

theorem stored_layOut (m : Mem) (hapart : Apart ctx 8 (sptr + ssize - 64#64) 64) :
    Stored (layOut ld ctx sptr ssize m) ctx (newborn ld sptr ssize) := by
  have hbase : (newborn ld sptr ssize).base = sptr + ssize - 64#64 := slot_sub 8 56
  have hslot : sptr + ssize - 8#64 - 8#64 = sptr + ssize - 16#64 := slot_sub 8 8
  have hzeros : sptr + ssize - 16#64 - 48#64 = sptr + ssize - 64#64 := slot_sub 16 48
  have hstart : sptr + ssize - 64#64 + 48#64 = sptr + ssize - 16#64 := slot_add 16 48
  have hsub : ∀ {n} k, n ≤ k → k ≤ 64 → Apart ctx 8 (sptr + ssize - BitVec.ofNat 64 k) n :=
    fun k hn hk => hapart.mono (fun _ => id) fun _ => within_top k hn hk
  obtain ⟨htop, hone, htwo⟩ := load_layOut m hapart (ld .abort) (ld .coroInit)
  have hold := holds_push (ld .coroInit) hone
    (@holds_push _ _ _ [] (ld .abort) htop trivial (by decide) (hsub 8 (by simp) (by omega)))
    (by simp) (hslot ▸ hsub 16 (by simp) (by omega))
  simp only [layOut, htwo, load_store_word, hzeros]
  constructor
  · rw [hbase, load_clear_apart (hsub 64 (by omega) (by omega)), load_store_word]
  · rw [hbase]
    refine Holds.append.mpr ⟨holds_zeros fun x hx => if_pos hx, ?_⟩
    show Holds _ (sptr + ssize - 64#64 + 48#64) _
    rw [hstart]
    refine (hslot ▸ hold).congr fun x hx => ?_
    have hoff := (apart_slots (k := 64) (n := 48) (l := 16) (by omega) (by simp)).symm x hx
    exact (if_neg hoff).trans
      (store_of_not_within _ fun hin => hsub 16 (by simp) (by omega) x hin hx)

theorem agree_layOut (h : Agree P m m') (hapart : Apart ctx 8 (sptr + ssize - 64#64) 64)
    (hctx : ∀ x, Within ctx 8 x → ¬P x)
    (htop : ∀ x, Within (sptr + ssize - 64#64) 64 x → ¬P x) :
    Agree P (layOut ld ctx sptr ssize m) m' := by
  have hslot : sptr + ssize - 8#64 - 8#64 = sptr + ssize - 16#64 := slot_sub 8 8
  have hzeros : sptr + ssize - 16#64 - 48#64 = sptr + ssize - 64#64 := slot_sub 16 48
  obtain ⟨hsp, hone, htwo⟩ := load_layOut m hapart (ld .abort) (ld .coroInit)
  simp only [layOut, htwo, load_store_word, hzeros]
  refine Agree.clear_left ?_ fun x hx => htop x (within_top 64 (by omega) (by omega) hx)
  refine Agree.store_left (agree_push (agree_push (h.store_left _ hctx) _ hsp hctx ?_)
    _ hone hctx ?_) _ hctx
  · exact fun x hx => htop x (within_top 8 (by omega) (by omega) hx)
  · exact fun x hx => htop x (within_top 16 (by omega) (by omega) (hslot ▸ hx))

theorem agree_setStatics (m : Mem)
    (hP : ∀ v ∈ statics, ∀ x, Within (ld v) 8 x → ¬P x) :
    Agree P (setStatics ld ctx coro arg nctx m) m := by
  unfold setStatics
  refine Agree.store_left (.store_left (.store_left (.store_left (.refl P m) _ ?_) _ ?_) _ ?_) _ ?_
  all_goals exact hP _ (by simp [statics])

/-- What `coro_init` finds. -/
structure StaticsHold (ld : Sym → Word) (ctx coro arg nctx : Word) (m : Mem) : Prop where
  func : load m (ld .coroInitFunc) 8 = coro
  arg : load m (ld .coroInitArg) 8 = arg
  newCoro : load m (ld .newCoro) 8 = ctx
  createCoro : load m (ld .createCoro) 8 = nctx

theorem StaticsHold.agree (h : StaticsHold ld ctx coro arg nctx m)
    (hagree : ∀ v ∈ statics, Agree (Within (ld v) 8) m' m) :
    StaticsHold ld ctx coro arg nctx m' where
  func := ((hagree _ (by simp [statics])).load fun _ => id).trans h.func
  arg := ((hagree _ (by simp [statics])).load fun _ => id).trans h.arg
  newCoro := ((hagree _ (by simp [statics])).load fun _ => id).trans h.newCoro
  createCoro := ((hagree _ (by simp [statics])).load fun _ => id).trans h.createCoro

theorem staticsHold_setStatics (m : Mem)
    (hapart : statics.Pairwise fun v w => Apart (ld v) 8 (ld w) 8) :
    StaticsHold ld ctx coro arg nctx (setStatics ld ctx coro arg nctx m) := by
  simp only [statics, List.pairwise_cons, List.mem_cons, List.not_mem_nil, or_false,
    forall_eq_or_imp, forall_eq] at hapart
  obtain ⟨⟨hfa, hfn, hfc⟩, ⟨han, hac⟩, hnc, -⟩ := hapart
  unfold setStatics
  constructor
  · rw [load_store_apart _ hfc, load_store_apart _ hfn, load_store_apart _ hfa, load_store_word]
  · rw [load_store_apart _ hac, load_store_apart _ han, load_store_word]
  · rw [load_store_apart _ hnc, load_store_word]
  · rw [load_store_word]

end

/-! ## Runs -/

section

variable {ld : Sym → Word} {a a' : Machine} {act : Act} {acts : List Act} {p : Pool} {m m' : Mem}
  {c : Word} {f : Frozen}

theorem Stored.agree (h : Stored m c f) (heq : ∀ x, Area c f x → m' x = m x) :
    Stored m' c f where
  sp := (load_congr fun x hx => heq x (.inl hx)).trans h.sp
  words := h.words.congr fun x hx => heq x (.inr hx)

/-- One context is written, and the others are left alone. -/
theorem stored_update (h : ∀ c f, p c = some f → Stored m c f) {d : Word} {g : Frozen}
    (hagree : Agree (Guarded (Function.update p d none)) m' m) (hnew : Stored m' d g) :
    ∀ c f, Function.update p d (some g) c = some f → Stored m' c f := by
  intro c f hc
  by_cases hcd : c = d
  · subst hcd
    rw [Function.update_self] at hc
    exact Option.some.inj hc ▸ hnew
  · rw [Function.update_of_ne hcd] at hc
    refine (h c f hc).agree fun x hx => hagree x ⟨c, f, ?_, hx⟩
    rwa [Function.update_of_ne hcd]

/-- The coroutine that runs goes to sleep, and the one it names is resumed. -/
theorem step_transfer (h : Rep a) {prev next : Word} (hc : Obeys ld a (.transfer prev next)) :
    ∃ a', step ld a (.transfer prev next) = some a' ∧ Rep a' ∧
      ∀ f, Function.update a.asleep prev (some (current a.st)) next = some f →
        Resumed f a'.ip a'.st := by
  obtain ⟨rfl, rfl, hnext, hapart, hguard⟩ := hc
  obtain ⟨ip, s', hs, ht⟩ := transfer_eq_some a.st hapart
  have hagree : Agree (Guarded (Function.update a.asleep (a.st.regs .rdi) none)) s'.mem
      a.st.mem := fun x hx => ht.rest x fun hin => hguard x hin hx
  have hall := stored_update h hagree ht.stored
  refine ⟨_, by rw [step, hs]; rfl, fun c f hc => ?_, fun f hf => ?_⟩
  · dsimp only at hc
    by_cases hcn : c = a.st.regs .rsi
    · rw [hcn, Function.update_self] at hc
      cases hc
    · rw [Function.update_of_ne hcn] at hc
      exact hall c f hc
  · exact ht.resumed f (hall _ f hf)

section Create

variable {ctx coro arg sptr ssize nctx ret : Word} {s : State}

theorem mem_places_iff {Q : Word × Nat → Prop} :
    (∀ p ∈ places ld ctx sptr ssize nctx s, Q p) ↔
      Q (ctx, 8) ∧ Q (sptr + ssize - 64#64, 64) ∧ Q (nctx, 8) ∧ Q (s.regs .rsp - 56#64, 56) ∧
        ∀ v ∈ statics, Q (ld v, 8) := by
  simp [places]

/-- No two of the places overlap. -/
structure PlacesApart (ld : Sym → Word) (ctx sptr ssize nctx : Word) (s : State) : Prop where
  top : Apart ctx 8 (sptr + ssize - 64#64) 64
  ctx_nctx : Apart ctx 8 nctx 8
  ctx_call : Apart ctx 8 (s.regs .rsp - 56#64) 56
  top_nctx : Apart (sptr + ssize - 64#64) 64 nctx 8
  top_call : Apart (sptr + ssize - 64#64) 64 (s.regs .rsp - 56#64) 56
  nctx_call : Apart nctx 8 (s.regs .rsp - 56#64) 56
  ctx_static : ∀ v ∈ statics, Apart ctx 8 (ld v) 8
  top_static : ∀ v ∈ statics, Apart (sptr + ssize - 64#64) 64 (ld v) 8
  nctx_static : ∀ v ∈ statics, Apart nctx 8 (ld v) 8
  call_static : ∀ v ∈ statics, Apart (s.regs .rsp - 56#64) 56 (ld v) 8
  statics : statics.Pairwise fun v w => Apart (ld v) 8 (ld w) 8

theorem placesApart (h : (places ld ctx sptr ssize nctx s).Pairwise
    fun p q => Apart p.1 p.2 q.1 q.2) : PlacesApart ld ctx sptr ssize nctx s := by
  simp only [places, List.pairwise_cons, List.mem_cons, List.mem_map, forall_eq_or_imp,
    forall_exists_index, and_imp, forall_apply_eq_imp_iff₂, List.pairwise_map] at h
  obtain ⟨⟨h₁, h₂, h₃, h₄⟩, ⟨h₅, h₆, h₇⟩, ⟨h₈, h₉⟩, h₁₀, h₁₁⟩ := h
  exact ⟨h₁, h₂, h₃, h₅, h₆, h₈, h₄, h₇, h₉, h₁₀, h₁₁⟩

/-- Nothing else is written up to the call. -/
theorem agree_createMem {P : Word → Prop} (m : Mem)
    (hapart : Apart ctx 8 (sptr + ssize - 64#64) 64) (hctx : ∀ x, Within ctx 8 x → ¬P x)
    (htop : ∀ x, Within (sptr + ssize - 64#64) 64 x → ¬P x)
    (hstatic : ∀ v ∈ statics, ∀ x, Within (ld v) 8 x → ¬P x) :
    Agree P (createMem ld ctx coro arg sptr ssize nctx m) m :=
  agree_layOut (agree_setStatics m hstatic) hapart hctx htop

theorem staticsHold_createMem (m : Mem) (h : PlacesApart ld ctx sptr ssize nctx s) :
    StaticsHold ld ctx coro arg nctx (createMem ld ctx coro arg sptr ssize nctx m) :=
  (staticsHold_setStatics m h.statics).agree fun v hv =>
    agree_layOut (.refl _ _) h.top (h.ctx_static v hv) (h.top_static v hv)

theorem atTransfer_mem : (atTransfer ld ctx coro arg sptr ssize nctx ret s).mem =
    store (createMem ld ctx coro arg sptr ssize nctx s.mem) (s.regs .rsp - 8#64) 8 ret := rfl

theorem atTransfer_regs {r : Reg} (hdi : r ≠ .rdi) (hsi : r ≠ .rsi) (hsp : r ≠ .rsp) :
    (atTransfer ld ctx coro arg sptr ssize nctx ret s).regs r = s.regs r := by
  simp [atTransfer, callTransfer, hdi, hsi, hsp]

theorem atTransfer_rsp :
    (atTransfer ld ctx coro arg sptr ssize nctx ret s).regs .rsp = s.regs .rsp - 8#64 := by
  simp [atTransfer, callTransfer]

theorem atTransfer_args (h : PlacesApart ld ctx sptr ssize nctx s) :
    (atTransfer ld ctx coro arg sptr ssize nctx ret s).regs .rdi = nctx ∧
      (atTransfer ld ctx coro arg sptr ssize nctx ret s).regs .rsi = ctx := by
  have hstatics := @staticsHold_createMem _ _ coro arg _ _ _ _ s.mem h
  simp [atTransfer, callTransfer, hstatics.createCoro, hstatics.newCoro]

/-- The call leaves everything as it was but its stack and the variable. -/
theorem agree_transferred {P : Word → Prop} {ip : Word} {s' : State}
    (h : PlacesApart ld ctx sptr ssize nctx s)
    (ht : Transferred (atTransfer ld ctx coro arg sptr ssize nctx ret s) ip s')
    (hnctx : ∀ x, Within nctx 8 x → ¬P x)
    (hcall : ∀ x, Within (s.regs .rsp - 56#64) 56 x → ¬P x) :
    Agree P s'.mem (createMem ld ctx coro arg sptr ssize nctx s.mem) := by
  intro x hx
  have hslot : s.regs .rsp - 8#64 - 48#64 = s.regs .rsp - 56#64 := slot_sub 8 48
  refine (ht.rest x ?_).trans ?_
  · rw [atTransfer_rsp, (atTransfer_args h).1, hslot]
    rintro (hin | hin)
    · exact hcall x (hin.mono (by omega)) hx
    · exact hnctx x hin hx
  · rw [atTransfer_mem]
    refine store_of_not_within _ fun hin => hcall x ?_ hx
    exact within_slot (k := 8) (by omega) (by omega) (by omega) hin

theorem stored_transferred {ip : Word} {s' : State} (h : PlacesApart ld ctx sptr ssize nctx s)
    (ht : Transferred (atTransfer ld ctx coro arg sptr ssize nctx ret s) ip s') :
    Stored s'.mem ctx (newborn ld sptr ssize) := by
  have hbase : (newborn ld sptr ssize).base = sptr + ssize - 64#64 := slot_sub 8 56
  refine (stored_layOut _ h.top).agree (agree_transferred h ht (fun x hx harea => ?_)
    fun x hx harea => ?_)
  all_goals simp only [Area, hbase] at harea
  · rcases harea with hin | hin
    · exact h.ctx_nctx x hin hx
    · exact h.top_nctx x hin hx
  · rcases harea with hin | hin
    · exact h.ctx_call x hin hx
    · exact h.top_call x hin hx

/-- A new coroutine begins at once, and `coro_create` goes to sleep in its
call. -/
theorem step_create (h : Rep a) (hcoro : coro ≠ 0#64)
    (hc : Obeys ld a (.create ctx coro arg sptr ssize nctx ret)) :
    ∃ a', step ld a (.create ctx coro arg sptr ssize nctx ret) = some a' ∧ Rep a' ∧
      Resumed (newborn ld sptr ssize) a'.ip a'.st ∧
      StaticsHold ld ctx coro arg nctx a'.st.mem ∧ a'.asleep nctx =
        some (current (atTransfer ld ctx coro arg sptr ssize nctx ret a.st)) := by
  obtain ⟨hplaces, hguard⟩ := hc hcoro
  have hapart := placesApart hplaces
  obtain ⟨hctx, htop, hnctx, hcall, hstatic⟩ := mem_places_iff.mp hguard
  obtain ⟨hrdi, hrsi⟩ := @atTransfer_args _ _ coro arg _ _ _ ret _ hapart
  have hslot : a.st.regs .rsp - 8#64 - 48#64 = a.st.regs .rsp - 56#64 := slot_sub 8 48
  obtain ⟨ip, s', hs, ht⟩ := transfer_eq_some
    (atTransfer ld ctx coro arg sptr ssize nctx ret a.st) (by
      rw [hrdi, atTransfer_rsp, hslot]
      exact hapart.nctx_call)
  have hstep : step ld a (.create ctx coro arg sptr ssize nctx ret) =
      some ⟨s', ip, Function.update (Function.update a.asleep ctx none) nctx
        (some (current (atTransfer ld ctx coro arg sptr ssize nctx ret a.st)))⟩ := by
    simp only [step, coroCreate, if_neg hcoro, hs, Option.map_some]
  have hagree : Agree (Guarded (Function.update (Function.update a.asleep ctx none) nctx none))
      s'.mem a.st.mem := fun x hx =>
    (agree_transferred hapart ht hnctx hcall x hx).trans
      (agree_createMem _ hapart.top hctx htop hstatic x hx)
  have hstored := ht.stored
  rw [hrdi] at hstored
  have hresumed := ht.resumed
  rw [hrsi] at hresumed
  refine ⟨_, hstep, stored_update (fun c f hf => h c f ?_) hagree hstored,
    hresumed _ (stored_transferred hapart ht), ?_, Function.update_self ..⟩
  · rw [Function.update_apply] at hf
    split_ifs at hf
    exact hf
  · exact (staticsHold_createMem _ hapart).agree fun v hv =>
      agree_transferred hapart ht (hapart.nctx_static v hv) (hapart.call_static v hv)

end Create

theorem step_obeys (h : Rep a) (hc : Obeys ld a act) :
    ∃ a', step ld a act = some a' ∧ Rep a' := by
  cases act with
  | work s =>
      refine ⟨_, rfl, fun c f hf => ?_⟩
      exact (h c f hf).agree fun x hx => hc x ⟨c, f, hf, hx⟩
  | transfer prev next =>
      obtain ⟨a', hs, h', -⟩ := step_transfer h hc
      exact ⟨a', hs, h'⟩
  | create ctx coro arg sptr ssize nctx ret =>
      by_cases hcoro : coro = 0#64
      · refine ⟨a, ?_, h⟩
        simp [step, coroCreate, hcoro]
      · obtain ⟨a', hs, h', -⟩ := step_create h hcoro hc
        exact ⟨a', hs, h'⟩

theorem asleep_create {ctx coro arg sptr ssize nctx ret : Word} (hcoro : coro ≠ 0#64)
    (hs : step ld a (.create ctx coro arg sptr ssize nctx ret) = some a') :
    a'.asleep = Function.update (Function.update a.asleep ctx none) nctx
      (some (current (atTransfer ld ctx coro arg sptr ssize nctx ret a.st))) := by
  rw [step, Option.map_eq_some_iff] at hs
  obtain ⟨r, -, rfl⟩ := hs
  exact if_neg hcoro

theorem asleep_transfer {prev next : Word} (hs : step ld a (.transfer prev next) = some a') :
    a'.asleep
      = Function.update (Function.update a.asleep prev (some (current a.st))) next none := by
  rw [step, Option.map_eq_some_iff] at hs
  obtain ⟨r, -, rfl⟩ := hs
  rfl

/-- The context is named. -/
def Act.Uses (c : Word) : Act → Prop
  | .work _ => False
  | .transfer prev next => prev = c ∨ next = c
  | .create ctx _ _ _ _ nctx _ => ctx = c ∨ nctx = c

theorem asleep_of_not_uses (hs : step ld a act = some a') (hne : ¬act.Uses c) :
    a'.asleep c = a.asleep c := by
  cases act with
  | work s =>
      obtain rfl := Option.some.inj hs
      rfl
  | transfer prev next =>
      simp only [Act.Uses, not_or] at hne
      rw [asleep_transfer hs, Function.update_of_ne (Ne.symm hne.2),
        Function.update_of_ne (Ne.symm hne.1)]
  | create ctx coro arg sptr ssize nctx ret =>
      rw [step, Option.map_eq_some_iff] at hs
      obtain ⟨r, -, rfl⟩ := hs
      simp only [Act.Uses, not_or] at hne
      dsimp only
      split_ifs
      · rfl
      · rw [Function.update_of_ne (Ne.symm hne.2), Function.update_of_ne (Ne.symm hne.1)]

/-- **Whoever sleeps is resumed as it went to sleep.** Other coroutines run
meanwhile, create new ones and pass control on. -/
theorem resumed_of_asleep (h : Rep a) (hf : a.asleep c = some f) {q : Word} (hq : q ≠ c)
    (hacts : ∀ act ∈ acts, ¬act.Uses c)
    (hg : Guards (step ld) (Obeys ld) a (acts ++ [.transfer q c])) :
    ∃ a', run (step ld) a (acts ++ [.transfer q c]) = some a' ∧ Resumed f a'.ip a'.st ∧ Rep a' := by
  obtain ⟨a₁, hrun, h₁, hg₁⟩ := run_of_guards (fun _ _ h hc => step_obeys h hc) h hg
  have hf₁ : a₁.asleep c = some f :=
    (run_frame (f := fun a => a.asleep c) (K := fun act => ¬act.Uses c)
      (fun _ _ _ hne hs => asleep_of_not_uses hs hne) hacts hrun).trans hf
  obtain ⟨a', hs, h', hres⟩ := step_transfer h₁ hg₁.1
  refine ⟨a', ?_, hres f ?_, h'⟩
  · rw [run_append, hrun, Option.bind_some, run, hs]
    rfl
  · rw [Function.update_of_ne (Ne.symm hq), hf₁]

/-- **A call of `coro_transfer` returns as a call does.** Once control comes
back, the stack pointer is above the return address, and the registers that a
callee keeps are as they were. -/
theorem transfer_returns (h : Rep a) {prev next q : Word} (hne : prev ≠ next) (hq : q ≠ prev)
    (hacts : ∀ act ∈ acts, ¬act.Uses prev)
    (hg : Guards (step ld) (Obeys ld) a (.transfer prev next :: (acts ++ [.transfer q prev]))) :
    ∃ a', run (step ld) a (.transfer prev next :: (acts ++ [.transfer q prev])) = some a' ∧
      a'.ip = load a.st.mem (a.st.regs .rsp) 8 ∧ a'.st.regs .rsp = a.st.regs .rsp + 8#64 ∧
        ∀ r ∈ saved, a'.st.regs r = a.st.regs r := by
  obtain ⟨a₁, hs, h₁, -⟩ := step_transfer h hg.1
  have hf : a₁.asleep prev = some (current a.st) := by
    rw [asleep_transfer hs, Function.update_of_ne hne, Function.update_self]
  obtain ⟨a', hrun, hres, -⟩ := resumed_of_asleep h₁ hf hq hacts (hg.2 a₁ hs)
  refine ⟨a', run_cons_eq_some.mpr ⟨a₁, hs, hrun⟩, hres.ip, hres.sp, fun r hr => ?_⟩
  exact List.map_inj_left.mp hres.regs r (List.mem_reverse.mpr hr)

/-- A new coroutine at `coro_init`, with nothing in its registers, with
`abort` to return to and its stack as at the entry of any function. -/
structure Begins (ld : Sym → Word) (ctx coro arg sptr ssize nctx : Word) (a : Machine) :
    Prop where
  ip : a.ip = ld .coroInit
  sp : a.st.regs .rsp = sptr + ssize - 8#64
  abort : load a.st.mem (a.st.regs .rsp) 8 = ld .abort
  aligned : (a.st.regs .rsp).toNat % 16 = 8
  zero : ∀ r ∈ saved, a.st.regs r = 0#64
  statics : StaticsHold ld ctx coro arg nctx a.st.mem

theorem Resumed.begins {ctx coro arg sptr ssize nctx : Word}
    (h : Resumed (newborn ld sptr ssize) a.ip a.st) (hend : (sptr + ssize).toNat % 16 = 0)
    (hstatics : StaticsHold ld ctx coro arg nctx a.st.mem) :
    Begins ld ctx coro arg sptr ssize nctx a := by
  refine ⟨h.ip, h.sp, ?_, ?_, fun r hr => ?_, hstatics⟩
  · rw [h.sp]
    exact h.above.1
  · rw [h.sp]
    show (sptr + ssize - 8#64).toNat % 16 = 8
    bv_omega
  · have hzero := List.mem_map_of_mem (f := a.st.regs) (List.mem_reverse.mpr hr)
    rw [h.regs] at hzero
    exact List.eq_of_mem_replicate hzero

/-- **`coro_create` begins a coroutine, and returns.** Its call of
`coro_transfer` enters `coro_init`, on a stack whose end is a multiple of 16.
Once control comes back to its variable, it goes on behind the call with the
stack pointer and the registers it had. -/
theorem create_starts (h : Rep a) {ctx coro arg sptr ssize nctx ret : Word}
    (hcoro : coro ≠ 0#64) (hend : (sptr + ssize).toNat % 16 = 0)
    (hc : Obeys ld a (.create ctx coro arg sptr ssize nctx ret)) :
    ∃ a₁, step ld a (.create ctx coro arg sptr ssize nctx ret) = some a₁ ∧
      Begins ld ctx coro arg sptr ssize nctx a₁ ∧
      ∀ {acts : List Act} {q : Word}, q ≠ nctx → (∀ act ∈ acts, ¬act.Uses nctx) →
        Guards (step ld) (Obeys ld) a₁ (acts ++ [.transfer q nctx]) →
        ∃ a', run (step ld) a₁ (acts ++ [.transfer q nctx]) = some a' ∧ a'.ip = ret ∧
          a'.st.regs .rsp = a.st.regs .rsp ∧ ∀ r ∈ saved, a'.st.regs r = a.st.regs r := by
  obtain ⟨a₁, hs, h₁, hres, hstatics, hf⟩ := step_create h hcoro hc
  refine ⟨a₁, hs, hres.begins hend hstatics, fun hq hacts hg => ?_⟩
  obtain ⟨a', hrun, hback, -⟩ := resumed_of_asleep h₁ hf hq hacts hg
  refine ⟨a', hrun, ?_, ?_, fun r hr => ?_⟩
  · rw [hback.ip]
    show load _ _ 8 = ret
    rw [atTransfer_mem, atTransfer_rsp, load_store_word]
  · rw [hback.sp]
    show _ + 8#64 = _
    rw [atTransfer_rsp, BitVec.sub_add_cancel]
  · have hkept := List.map_inj_left.mp hback.regs r (List.mem_reverse.mpr hr)
    rw [hkept]
    exact atTransfer_regs (by rintro rfl; simp [saved] at hr) (by rintro rfl; simp [saved] at hr)
      (by rintro rfl; simp [saved] at hr)

end

/-! ## Two coroutines -/

def twoSyms : Sym → Word
  | .coroInitFunc => 0x404040#64
  | .coroInitArg => 0x404048#64
  | .newCoro => 0x404050#64
  | .createCoro => 0x404058#64
  | .abort => 0x401030#64
  | .coroInit => 0x401200#64

/-- One runs, and another sleeps on a stack as `coro_create` lays it out. -/
def two : Machine where
  st :=
    { regs := fun
        | .rdi => 0x1000#64
        | .rsi => 0x1010#64
        | .rsp => 0x8008#64
        | _ => 7#64
      xmm := fun _ => 0#128
      flags := logicFlags 0#64
      mem := layOut twoSyms 0x1010#64 0x10000#64 0x1000#64 fun _ => 0#8 }
  ip := 0#64
  asleep := Function.update (fun _ => none) 0x1010#64 (some (newborn twoSyms 0x10000#64 0x1000#64))

/-- The other one is about to pass control to `n`. -/
def back (n : Word) (s : State) : State := (s.set .rdi 0x1010#64).set .rsi n

def twoBack : State := back 0x1000#64 ((transfer two.st).getD (0#64, two.st)).2

theorem asleep_two {c : Word} {f : Frozen} (hc : two.asleep c = some f) :
    c = 0x1010#64 ∧ f = newborn twoSyms 0x10000#64 0x1000#64 := by
  simp only [two, Function.update_apply] at hc
  split_ifs at hc with h
  exact ⟨h, (Option.some.inj hc).symm⟩

theorem rep_two : Rep two := by
  intro c f hc
  obtain ⟨rfl, rfl⟩ := asleep_two hc
  have hapart : Apart 0x1010#64 8 (0x10000#64 + 0x1000#64 - 64#64) 64 :=
    apart_of_le (by decide) (by decide)
  simp only [two]
  exact stored_layOut _ hapart

theorem obeys_two {a : Machine} (hregs : a.st.regs = two.st.regs)
    (hasleep : a.asleep = two.asleep) :
    Obeys twoSyms a (.transfer 0x1000#64 0x1010#64) := by
  simp only [Obeys, hregs, hasleep]
  refine ⟨rfl, rfl, .inr (by simp [two]), apart_of_le (by decide) (by decide), ?_⟩
  rintro x h ⟨c, f, hc, harea⟩
  have hstack : Apart (two.st.regs .rsp - 48#64) 48 0x10fc0#64 64 :=
    apart_of_le (by decide) (by decide)
  have hctx : Apart 0x1000#64 8 0x10fc0#64 64 := apart_of_le (by decide) (by decide)
  have hstack' : Apart 0x1010#64 8 (two.st.regs .rsp - 48#64) 48 :=
    apart_of_le (by decide) (by decide)
  have hctx' : Apart 0x1000#64 8 0x1010#64 8 := apart_of_le (by decide) (by decide)
  have hc' : two.asleep c = some f := by
    rw [Function.update_apply] at hc
    split_ifs at hc
    exact hc
  obtain ⟨rfl, rfl⟩ := asleep_two hc'
  rcases h with h | h <;> rcases harea with ha | ha
  · exact hstack' x ha h
  · exact hstack x h ha
  · exact hctx' x h ha
  · exact hctx x h ha

/-- Control goes back to the only one that sleeps. -/
theorem obeys_back {a : Machine} {s : State} {n base : Word} (hst : a.st = back n s)
    (hrsp : s.regs .rsp = 0x10ff8#64) (hsome : (a.asleep n).isSome)
    (honly : ∀ c f, a.asleep c = some f → c = n ∧ f.base = base ∧ f.words.length = 7)
    (hn : Apart 0x1010#64 8 n 8) (hbase : Apart 0x1010#64 8 base 56)
    (hstack : Apart (0x10ff8#64 - 48#64) 48 n 8)
    (hstack' : Apart (0x10ff8#64 - 48#64) 48 base 56) :
    Obeys twoSyms a (.transfer 0x1010#64 n) := by
  have hsp : a.st.regs .rsp = 0x10ff8#64 := by simp [hst, back, hrsp]
  refine ⟨by simp [hst, back], by simp [hst, back], .inr hsome, ?_, ?_⟩
  all_goals rw [hsp]
  · exact apart_of_le (by decide) (by decide)
  · rintro x h ⟨c, f, hc, harea⟩
    rw [Function.update_apply] at hc
    split_ifs at hc
    obtain ⟨rfl, hb, hlen⟩ := honly c f hc
    rw [Area, hb, hlen] at harea
    rcases h with h | h <;> rcases harea with ha | ha
    · exact hstack x h ha
    · exact hstack' x h ha
    · exact hn x h ha
    · exact hbase x h ha

theorem guards_two : Guards (step twoSyms) (Obeys twoSyms) two
    [.transfer 0x1000#64 0x1010#64, .work twoBack, .transfer 0x1010#64 0x1000#64] := by
  refine ⟨obeys_two rfl rfl, fun a₁ hs => ?_⟩
  obtain ⟨a, hs', -, hres⟩ := step_transfer rep_two (obeys_two rfl rfl)
  obtain rfl := Option.some.inj (hs.symm.trans hs')
  have hasleep := asleep_transfer hs
  have hst : twoBack = back 0x1000#64 a₁.st := by
    rw [step, Option.map_eq_some_iff] at hs
    obtain ⟨r, hr, rfl⟩ := hs
    rw [twoBack, hr]
    rfl
  have hrsp : a₁.st.regs .rsp = 0x10ff8#64 := by
    rw [(hres (newborn twoSyms 0x10000#64 0x1000#64) (by simp [two])).sp]
    rfl
  refine ⟨fun x _ => by rw [hst]; rfl, fun a₂ hs₂ => ⟨?_, fun _ _ => trivial⟩⟩
  obtain rfl := Option.some.inj hs₂
  refine @obeys_back _ a₁.st _ (two.st.regs .rsp - 48#64) hst hrsp (by simp [hasleep])
    (fun c f hc => ?_) (apart_of_le (by decide) (by decide)).symm
    (apart_of_le (by decide) (by decide)) (apart_of_le (by decide) (by decide)).symm
    (apart_of_le (by decide) (by decide)).symm
  simp only [hasleep, Function.update_apply] at hc
  split_ifs at hc with hnew hold
  · obtain rfl := Option.some.inj hc
    exact ⟨hold, current_base two.st, rfl⟩
  · exact absurd (asleep_two hc).1 hnew

theorem transfer_returns_two :
    ∃ a', run (step twoSyms) two
        [.transfer 0x1000#64 0x1010#64, .work twoBack, .transfer 0x1010#64 0x1000#64] = some a' ∧
      a'.ip = load two.st.mem (two.st.regs .rsp) 8 ∧
      a'.st.regs .rsp = two.st.regs .rsp + 8#64 ∧ ∀ r ∈ saved, a'.st.regs r = two.st.regs r :=
  @transfer_returns _ _ [.work twoBack] rep_two _ _ _ (by decide) (by decide)
    (by simp [Act.Uses]) guards_two

/-- Before the second one has been created. -/
def single : Machine :=
  { two with st := two.st.setMem fun _ => 0#8, asleep := fun _ => none }

/-- The second one is created, with a variable above the stack pointer. -/
def createSecond : Act :=
  .create 0x1010#64 0x401300#64 0#64 0x10000#64 0x1000#64 0x8010#64 0x401280#64

theorem obeys_createSecond : Obeys twoSyms single createSecond := by
  refine fun _ => ⟨?_, fun p _ x _ => ?_⟩
  · have hle : (places twoSyms 0x1010#64 0x10000#64 0x1000#64 0x8010#64 single.st).Pairwise
        fun p q => p.1.toNat + p.2 ≤ q.1.toNat ∧ q.1.toNat + q.2 ≤ 2 ^ 64 ∨
          q.1.toNat + q.2 ≤ p.1.toNat ∧ p.1.toNat + p.2 ≤ 2 ^ 64 := by decide
    refine hle.imp fun h => ?_
    rcases h with h | h
    · exact apart_of_le h.1 h.2
    · exact (apart_of_le h.1 h.2).symm
  · rintro ⟨c, f, hc, -⟩
    simp [single, Function.update_apply] at hc

/-- It has nothing to do but to let `coro_create` return. -/
theorem create_starts_single :
    ∃ a₁ a', step twoSyms single createSecond = some a₁ ∧
      Begins twoSyms 0x1010#64 0x401300#64 0#64 0x10000#64 0x1000#64 0x8010#64 a₁ ∧
      run (step twoSyms) a₁ [.work (back 0x8010#64 a₁.st), .transfer 0x1010#64 0x8010#64]
        = some a' ∧
      a'.ip = 0x401280#64 ∧ a'.st.regs .rsp = 0x8008#64 ∧ ∀ r ∈ saved, a'.st.regs r = 7#64 := by
  have hrep : Rep single := fun _ _ h => by cases h
  obtain ⟨a₁, hs, hbegins, hreturns⟩ :=
    create_starts hrep (by decide) (by decide) obeys_createSecond
  have hasleep := asleep_create (by decide) hs
  have hguards : Guards (step twoSyms) (Obeys twoSyms) a₁
      [.work (back 0x8010#64 a₁.st), .transfer 0x1010#64 0x8010#64] := by
    refine ⟨fun x _ => rfl, fun a₂ hs₂ => ⟨?_, fun _ _ => trivial⟩⟩
    obtain rfl := Option.some.inj hs₂
    refine @obeys_back _ a₁.st _ (single.st.regs .rsp - 8#64 - 48#64) rfl hbegins.sp
      (by simp [hasleep]) (fun c f hc => ?_) (apart_of_le (by decide) (by decide))
      (apart_of_le (by decide) (by decide)) (apart_of_le (by decide) (by decide)).symm
      (apart_of_le (by decide) (by decide)).symm
    simp only [hasleep, Function.update_apply] at hc
    split_ifs at hc with hnctx
    · obtain rfl := Option.some.inj hc
      exact ⟨hnctx, (current_base _).trans (by rw [atTransfer_rsp]), rfl⟩
    · cases hc
  obtain ⟨a', hrun, hip, hsp, hregs⟩ :=
    @hreturns [.work (back 0x8010#64 a₁.st)] _ (by decide) (by simp [Act.Uses]) hguards
  refine ⟨a₁, a', hs, hbegins, hrun, hip, hsp, fun r hr => (hregs r hr).trans ?_⟩
  simp only [saved, List.mem_cons, List.not_mem_nil, or_false] at hr
  rcases hr with rfl | rfl | rfl | rfl | rfl | rfl <;> rfl

end MiscTools.Coro
