import MiscTools.Unalign

/-!
# What the listings of the unaligned fill share

Both listings set up the same frame, read the same arguments and leave by the
same exits. Here the text around the loop is shown to do what `main` of
`unalign.c` does around its loop, for any text that has the common parts at
their labels (`Common`): whoever supplies the middle gets the whole
(`behaves_main`).

The frame is the 48 octets up to the return address. Between the calls it
holds the registers of the caller (`Frame`).
-/

namespace MiscTools.Unalign

open Memory X86

/-! ## The surroundings -/

/-- The lowest address of the frame. -/
def frameBase (s₀ : State) : Word := s₀.regs .rsp - 40#64

def Own (s₀ : State) (a : Word) : Prop := Within (frameBase s₀) 48 a

/-- The part of it where the registers and the return address lie. -/
def Saved (s₀ : State) (a : Word) : Prop := Within (s₀.regs .rsp - 24#64) 32 a

def observe : Sym → State → Option Event
  | .strtol, s => some (.strtol (s.regs .rdi) (s.regs .rsi) (s.low .rdx))
  | .mmap, s =>
      some (.mmap (s.regs .rdi) (s.regs .rsi) (s.low .rdx) (s.low .rcx) (s.low .r8) (s.regs .r9))
  | .munmap, s => some (.munmap (s.regs .rdi) (s.regs .rsi))
  | .fprintfChk, s => some (.fprintfChk (s.regs .rdi) (s.low .rsi) (s.regs .rdx) (s.regs .rcx))
  | .perror, s => some (.perror (s.regs .rdi))
  | _, _ => none

/-- A block is mapped in the lower half of the address space, and the frame
does not begin right behind it. Otherwise the library is free in what it
answers. -/
def answers (s₀ : State) : Event → Word → Mem → Prop
  | .mmap _ length _ _ _ _, v, _ =>
      v = -1#64 ∨
        v.toNat + length.toNat + 8 ≤ 2 ^ 47 ∧ Apart v (length.toNat + 8) (frameBase s₀) 48
  | _, _, _ => True

def library (ld : Sym → Word) (s₀ : State) : Library Sym Event (BitVec 32) where
  ld := ld
  observe := observe
  answers := answers s₀
  result := fun s => s.low .rax

@[simp] theorem library_ld (ld : Sym → Word) (s₀ : State) : (library ld s₀).ld = ld := rfl

/-- The memory that `main` reads by address is not in the frame, the linker
has put the symbols below 4 GiB, and `main` is called as the convention asks. -/
structure Loaded (ld : Sym → Word) (argv : Word) (s₀ : State) : Prop where
  small : ∀ f, (ld f).toNat < 2 ^ 32
  aligned : (s₀.regs .rsp).toNat % 16 = 8
  stdout : Apart (ld .stdout) 8 (frameBase s₀) 48
  stderr : Apart (ld .stderr) 8 (frameBase s₀) 48
  argv : Apart argv 24 (frameBase s₀) 48

/-- What lies there. -/
def savedWords (s₀ : State) : List Word :=
  [s₀.regs .rbx, s₀.regs .rbp, s₀.regs .r12, load s₀.mem (s₀.regs .rsp) 8]

/-- Between two calls, with the memory `m` outside of the frame. -/
structure Frame (s₀ : State) (m : Mem) (s : State) : Prop where
  rsp : s.regs .rsp = s₀.regs .rsp - 40#64
  r13 : s.regs .r13 = s₀.regs .r13
  r14 : s.regs .r14 = s₀.regs .r14
  r15 : s.regs .r15 = s₀.regs .r15
  saved : Holds s.mem (s₀.regs .rsp - 24#64) (savedWords s₀)
  rest : Agree (fun a => ¬Own s₀ a) s.mem m

variable {s₀ s s' : State} {m m' : Mem} {v : Word}

theorem Saved.own {x : Word} (h : Saved s₀ x) : Own s₀ x :=
  within_slot (by omega) (by omega) (by omega) h

/-- Registers may change, and memory except where they are saved. -/
theorem Frame.update (h : Frame s₀ m s)
    (hregs : ∀ r ∈ [Reg.rsp, .r13, .r14, .r15], s'.regs r = s.regs r)
    (hsaved : Agree (Saved s₀) s'.mem s.mem) (hrest : Agree (fun a => ¬Own s₀ a) s'.mem m') :
    Frame s₀ m' s' where
  rsp := (hregs .rsp (by simp)).trans h.rsp
  r13 := (hregs .r13 (by simp)).trans h.r13
  r14 := (hregs .r14 (by simp)).trans h.r14
  r15 := (hregs .r15 (by simp)).trans h.r15
  saved := h.saved.congr hsaved
  rest := hrest

/-- Only registers change. -/
theorem Frame.same_mem (h : Frame s₀ m s)
    (hregs : ∀ r ∈ [Reg.rsp, .r13, .r14, .r15], s'.regs r = s.regs r)
    (hmem : s'.mem = s.mem) : Frame s₀ m s' :=
  h.update hregs (hmem ▸ .refl _ _) (hmem ▸ h.rest)

theorem Frame.returned (h : Frame s₀ m s) (hret : Returned (Own s₀) s v m' s') :
    Frame s₀ m' s' :=
  h.update (fun r hr => hret.kept r (by revert r; decide)) (hret.frame.mono fun _ => Saved.own)
    hret.rest

/-- The local variable of the frame. -/
theorem own_local {x : Word} (h : Within (s₀.regs .rsp - 32#64) 4 x) :
    Own s₀ x ∧ ¬Saved s₀ x :=
  ⟨within_slot (by omega) (by omega) (by omega) h, apart_slots (by omega) (by omega) x h⟩

/-! ## The exits -/

/-- The text has the common parts at their labels. -/
structure Common (t : Text Sym) (L : Labels) : Prop where
  finish : ∃ pc, find L.finish t = some (finishText L ++ .label L.exit :: exitText ++ pc)
  exit : ∃ pc, find L.exit t = some (exitText ++ pc)
  usage : ∃ pc, find L.usage t = some (usageText ++ .label L.complain :: complainText L ++ pc)
  complain : ∃ pc, find L.complain t = some (complainText L ++ pc)
  badLength : ∃ pc, find L.badLength t = some (badLengthText L ++ pc)
  badOffset : ∃ pc, find L.badOffset t = some (badOffsetText L ++ pc)
  unmapFailed : ∃ pc, find L.unmapFailed t = some (unmapFailedText L ++ pc)
  mapFailed : ∃ pc, find L.mapFailed t = some (mapFailedText L ++ pc)

section

variable {ld : Sym → Word} {argv : Word} {t pc : Text Sym} {L : Labels}

abbrev Does (ld : Sym → Word) (t : Text Sym) (s₀ : State) (c : Config Sym)
    (p : Prog Event (BitVec 32)) : Prop :=
  Behaves (library ld s₀) t (Own s₀) s₀ c p

theorem does_exit (h : Frame s₀ m s) {rc : BitVec 32} (hrc : s.low .rax = rc) :
    Does ld t s₀ ⟨exitText ++ pc, s⟩ (.done rc m) := by
  have hsp : s.regs .rsp + 16#64 = s₀.regs .rsp - 24#64 := by
    rw [h.rsp]
    exact slot_add 24 16
  have hend : s₀.regs .rsp - 24#64 + 8#64 + 8#64 + 8#64 = s₀.regs .rsp := by
    rw [slot_add 16 8, slot_add 8 8, BitVec.sub_add_cancel]
  obtain ⟨hrbx, hrbp, hr12, hret, -⟩ := h.saved
  rw [hend] at hret
  refine ⟨pc, _, .of_stepN (n := 4) rfl, ?_, ?_, ?_, ?_⟩
  · simpa [library, State.low] using hrc
  · simp [Kept, calleeSaved, h.r13, h.r14, h.r15, hsp, hrbx, hrbp, hr12, hend]
  · simp [hsp, hend, hret]
  · simpa using h.rest

/-- The memory outside of the frame is read as `main` reads it. -/
theorem Frame.load_eq (h : Frame s₀ m s) {a : Word} {n : Nat} (ha : Apart a n (frameBase s₀) 48) :
    load s.mem a n = load m a n :=
  h.rest.load ha

variable (hl : Loaded ld argv s₀)

include hl

theorem Loaded.load_argv (h : Frame s₀ m s) {a : Word}
    (ha : ∀ x, Within a 8 x → Within argv 24 x) : load s.mem a 8 = load m a 8 :=
  h.load_eq (hl.argv.mono ha fun _ => id)

omit hl in
theorem word_of_argv (k : Nat) (hk : k ≤ 16) (x : Word)
    (h : Within (argv + BitVec.ofNat 64 k) 8 x) : Within argv 24 x :=
  h.of_offset k (by omega) (by omega)

/-- Straight code up to a call, and what comes after it. -/
theorem does_call {n : Nat} {c : Config Sym} {f : Sym} {e : Event}
    {k : Word → Mem → Prog Event (BitVec 32)}
    (hs : stepN ld t n c = some ⟨.call f :: pc, s⟩) (hobs : observe f s = some e)
    (h : Frame s₀ m s)
    (hk : ∀ v m' s', answers s₀ e v m' → Frame s₀ m' s' → Returned (Own s₀) s v m' s' →
      Does ld t s₀ ⟨pc, s'⟩ (k v m')) :
    Does ld t s₀ c (.call e m k) := by
  have halign : (s.regs .rsp).toNat % 16 = 0 := by
    have hsp := hl.aligned
    rw [h.rsp]
    bv_omega
  refine ⟨f, pc, s, .of_stepN hs, hobs, halign, h.rest, fun v m' s' hans hret => ?_⟩
  exact hk v m' s' hans (h.returned hret) hret

theorem does_complain (hc : Common t L) (h : Frame s₀ m s) {f : Sym} {arg : Word}
    (hrdx : s.regs .rdx = ld f) (hrcx : s.regs .rcx = arg) :
    Does ld t s₀ ⟨complainText L ++ pc, s⟩ (complain ld f arg m) := by
  obtain ⟨pc', hexit⟩ := hc.exit
  refine does_call hl (n := 3) rfl ?_ ?_ fun v m' s' _ h' _ => ?_
  · simp [observe, State.low, hrdx, hrcx, h.load_eq hl.stderr]
  · exact h.same_mem (by simp) rfl
  · refine .run (n := 1) rfl ?_
    refine .jmp hexit (does_exit (h'.same_mem (by simp) (by rfl)) ?_)
    simp [State.low]

/-- What a symbol is when it is loaded as the lower half of a register. -/
theorem Loaded.sym_eq (f : Sym) : ((ld f).setWidth 32).setWidth 64 = ld f := by
  apply BitVec.eq_of_toNat_eq
  have hlt := hl.small f
  simp
  omega

theorem does_unmapFailed (hc : Common t L) (h : Frame s₀ m s) {rc : BitVec 32}
    (hrc : s.low .rax = rc) :
    Does ld t s₀ ⟨unmapFailedText L ++ pc, s⟩
      (.call (.perror (ld .lc6)) m fun _ m => .done rc m) := by
  obtain ⟨pc', hexit⟩ := hc.exit
  have hslot : 8#64 + (s₀.regs .rsp - 40#64) = s₀.regs .rsp - 32#64 :=
    (BitVec.add_comm ..).trans (slot_add 32 8)
  refine does_call hl (n := 2) rfl ?_ ?_ fun v m' s' _ h' hret => ?_
  · simp [observe, hl.sym_eq]
  · refine h.update (by simp) ?_ ?_
    · refine (Agree.refl _ _).store_left _ fun x hx => (own_local ?_).2
      simpa [Addr.eval, h.rsp, hslot] using hx
    · refine h.rest.store_left _ fun x hx => not_not_intro (own_local ?_).1
      simpa [Addr.eval, h.rsp, hslot] using hx
  · refine .run (n := 1) rfl ?_
    refine .jmp hexit (does_exit (h'.same_mem (by simp) (by rfl)) ?_)
    have hback := hret.frame.load (n := 4) (a := s₀.regs .rsp - 32#64) fun x hx =>
      (own_local hx).1
    rw [← hslot] at hback
    have hstored := load_store s.mem (8#64 + (s₀.regs .rsp - 40#64)) (n := 4)
      (BitVec.setWidth 32 (s.regs .rax)) (by omega) rfl
    simpa [State.low, h'.rsp, BitVec.add_comm _ 8#64, hback, Addr.eval, h.rsp, hstored] using hrc

theorem does_finish (hc : Common t L) (h : Frame s₀ m s) {mblock mbLen vp : Word}
    (hrbx : s.regs .rbx = mbLen) (hr12 : s.regs .r12 = mblock) (hrbp : s.regs .rbp = vp) :
    Does ld t s₀ ⟨finishText L ++ .label L.exit :: exitText ++ pc, s⟩
      (finishMain ld mblock mbLen vp m) := by
  obtain ⟨pc', hfail⟩ := hc.unmapFailed
  refine does_call hl (n := 5) rfl ?_ ?_ fun v m' s' _ h' hret => ?_
  · simp [observe, State.low, hrbp, hl.sym_eq, h.load_eq hl.stdout]
  · exact h.same_mem (by simp) rfl
  · have hrbx' := (hret.kept .rbx (by decide)).trans hrbx
    have hr12' := (hret.kept .r12 (by decide)).trans hr12
    refine does_call hl (n := 2) rfl ?_ ?_ fun v m'' s'' _ h'' hret' => ?_
    · simp [observe, hrbx', hr12']
    · exact h'.same_mem (by simp) rfl
    · refine .run (n := 1) rfl (.branch ?_ hfail (fun _ => ?_) fun _ => ?_)
      · simp [holds_e_sub, State.low, hret'.rax, beq_eq_decide]
      · refine does_unmapFailed hl hc (h''.same_mem (by simp) (by rfl)) ?_
        simp [State.low, hret'.rax]
      · refine .run (n := 1) rfl (does_exit (h''.same_mem (by simp) (by rfl)) ?_)
        simp [State.low, hret'.rax]

/-! ## Up to the loop -/

omit hl in
/-- Three registers have been pushed, and there is room for the local variable. -/
theorem frame_enter :
    ∃ s, stepN ld t 6 ⟨enter L ++ pc, s₀⟩ = some ⟨.j .le L.usage :: pc, s⟩ ∧
      Frame s₀ s₀.mem s ∧ s.flags = subFlags 2#32 (s₀.low .rdi) ∧
        s.regs .rsi = s₀.regs .rsi ∧ s.regs .r12 = s₀.regs .rsi := by
  have hret : Holds s₀.mem (s₀.regs .rsp) [load s₀.mem (s₀.regs .rsp) 8] := ⟨rfl, trivial⟩
  have hsaved := ((hret.push (s₀.regs .r12) (by simp)).push (s₀.regs .rbp) (by simp)).push
    (s₀.regs .rbx) (by simp)
  refine ⟨_, rfl, ⟨?_, ?_, ?_, ?_, ?_, ?_⟩, ?_, ?_, ?_⟩
  case refine_5 => simpa [slot_sub, savedWords] using hsaved
  case refine_6 =>
    have hslot : ∀ k ≤ 24, 8 ≤ k → ∀ x, Within (s₀.regs .rsp - BitVec.ofNat 64 k) 8 x →
        ¬¬Own s₀ x :=
      fun k hk hk' x hx => not_not_intro (within_slot (by omega) (by omega) (by omega) hx)
    have hrest := (((Agree.refl (fun a => ¬Own s₀ a) s₀.mem).store_left (s₀.regs .r12)
      (hslot 8 (by omega) (by omega))).store_left (s₀.regs .rbp)
      (hslot 16 (by omega) (by omega))).store_left (s₀.regs .rbx)
      (hslot 24 (by omega) (by omega))
    simpa [slot_sub] using hrest
  all_goals simp [slot_sub, State.low]

omit hl in
theorem slt_three (x : BitVec 32) : x.slt 3#32 = x.sle 2#32 := by
  rw [BitVec.slt_eq_decide, BitVec.sle_eq_decide, decide_eq_decide]
  have htwo : (2#32).toInt = 2 := rfl
  have hthree : (3#32).toInt = 3 := rfl
  omega

theorem does_usage (hc : Common t L) (h : Frame s₀ m s) (hrsi : s.regs .rsi = argv) :
    Does ld t s₀ ⟨usageText ++ .label L.complain :: complainText L ++ pc, s⟩
      (complain ld .lc0 (load m argv 8) m) := by
  refine .run (n := 3) rfl (does_complain hl hc (h.same_mem (by simp) (by rfl)) ?_ ?_)
  · simp [hl.sym_eq]
  · simp [hrsi, hl.load_argv h fun _ hx => hx.mono (by omega)]

/-- For the length and the offset. -/
theorem does_badArgument (hc : Common t L) (h : Frame s₀ m s) (hr12 : s.regs .r12 = argv)
    (f : Sym) :
    Does ld t s₀ ⟨.movq (at_ 8#64 .r12) (.reg .rcx) :: .movl (sym f) (.reg .rdx) ::
      .jmp L.complain :: pc, s⟩ (complain ld f (load m (argv + 8#64) 8) m) := by
  obtain ⟨pc', hcomplain⟩ := hc.complain
  refine .run (n := 2) rfl (.jmp hcomplain
    (does_complain hl hc (h.same_mem (by simp) (by rfl)) ?_ ?_))
  · simp [hl.sym_eq]
  · simp [hr12, hl.load_argv h (word_of_argv 8 (by omega))]

theorem does_mapFailed (hc : Common t L) (h : Frame s₀ m s) :
    Does ld t s₀ ⟨mapFailedText L ++ pc, s⟩
      (.call (.perror (ld .lc3)) m fun _ m => .done 1#32 m) := by
  obtain ⟨pc', hexit⟩ := hc.exit
  refine does_call hl (n := 1) rfl ?_ (h.same_mem (by simp) rfl) fun v m' s' _ h' _ => ?_
  · simp [observe, hl.sym_eq]
  · refine .run (n := 1) rfl (.jmp hexit (does_exit (h'.same_mem (by simp) (by rfl)) ?_))
    simp [State.low]

/-- `mmap` has mapped the block, and `main` has accepted the offset. -/
structure Block (s₀ : State) (mblock mbLen offset : Word) : Prop where
  offset : offset.toNat < 2 ^ 63
  low : mblock.toNat + mbLen.toNat + 8 ≤ 2 ^ 47
  apart : Apart mblock (mbLen.toNat + 8) (frameBase s₀) 48

/-- The loop is next. -/
structure Ready (s₀ : State) (mblock mbLen offset : Word) (m : Mem) (s : State) : Prop where
  block : Block s₀ mblock mbLen offset
  frame : Frame s₀ m s
  rbx : s.regs .rbx = mbLen
  r12 : s.regs .r12 = mblock
  rbp : s.regs .rbp = mblock + offset

omit hl in
theorem Ready.returned {mblock mbLen offset : Word} (h : Ready s₀ mblock mbLen offset m s)
    (hret : Returned (Own s₀) s v m' s') : Ready s₀ mblock mbLen offset m' s' where
  block := h.block
  frame := h.frame.returned hret
  rbx := (hret.kept .rbx (by decide)).trans h.rbx
  r12 := (hret.kept .r12 (by decide)).trans h.r12
  rbp := (hret.kept .rbp (by decide)).trans h.rbp

omit hl in
/-- Only registers that a callee may change do change. -/
theorem Ready.same_mem {mblock mbLen offset : Word} (h : Ready s₀ mblock mbLen offset m s)
    (hkept : Kept s s') (hmem : s'.mem = s.mem) : Ready s₀ mblock mbLen offset m s' where
  block := h.block
  frame := h.frame.same_mem (fun r hr => hkept r (by revert r; decide)) hmem
  rbx := (hkept .rbx (by decide)).trans h.rbx
  r12 := (hkept .r12 (by decide)).trans h.r12
  rbp := (hkept .rbp (by decide)).trans h.rbp

/-- What a text has to do between the common parts: print the address and
fill the block. -/
def Middle (ld : Sym → Word) (t pc : Text Sym) (s₀ : State) (loop : Loop) : Prop :=
  ∀ {mblock mbLen offset m s}, Ready s₀ mblock mbLen offset m s →
    s.regs .rdi = load m (ld .stdout) 8 →
    Does ld t s₀ ⟨pc, s⟩
      (.call (.fprintfChk (load m (ld .stdout) 8) 1#32 (ld .lc4) (mblock + offset)) m fun _ m =>
        loop (mblock + mbLen) (mblock + offset) m (finishMain ld mblock mbLen))

theorem does_mapBlock (hc : Common t L) {loop : Loop} (hmid : Middle ld t pc s₀ loop)
    (h : Frame s₀ m s) {mbLen offset : Word} (hrbx : s.regs .rbx = mbLen)
    (hrbp : s.regs .rbp = offset) (hpos : offset.toNat < 2 ^ 63) :
    Does ld t s₀ ⟨mapBlock L ++ pc, s⟩
      (.call (.mmap 0#64 mbLen 3#32 34#32 (-1#32) 0#64) m fun mblock m =>
        if mblock == -1#64 then .call (.perror (ld .lc3)) m fun _ m => .done 1#32 m else
        .call (.fprintfChk (load m (ld .stdout) 8) 1#32 (ld .lc4) (mblock + offset)) m fun _ m =>
          loop (mblock + mbLen) (mblock + offset) m (finishMain ld mblock mbLen)) := by
  obtain ⟨pcm, hmap⟩ := hc.mapFailed
  refine does_call hl (n := 6) rfl ?_ (h.same_mem (by simp) (by rfl))
    fun mblock m' s' hans h' hret => ?_
  · simp [observe, State.low, hrbx, show ∀ x : BitVec 32, x ||| 4294967295#32 = 4294967295#32 from
    fun _ => BitVec.or_allOnes]
  have hrbx' : s'.regs .rbx = mbLen := (hret.kept .rbx (by decide)).trans (by simp [hrbx])
  have hrbp' : s'.regs .rbp = offset := (hret.kept .rbp (by decide)).trans (by simp [hrbp])
  refine .run (n := 2) rfl (.branch ?_ hmap (fun _ => ?_) fun hne => ?_)
  · simp [holds_e_sub, hret.rax, beq_eq_decide]
  · exact does_mapFailed hl hc (h'.same_mem (by simp) (by rfl))
  · have hblock := hans.resolve_left (by simpa using hne)
    refine .run (n := 2) rfl (hmid ⟨⟨hpos, hblock.1, hblock.2⟩, ?_, ?_, ?_, ?_⟩ ?_)
    · exact h'.same_mem (by simp) (by rfl)
    · simp [hrbx']
    · simp [hret.rax]
    · simp [hrbp', hret.rax, BitVec.add_comm]
    · simp [h'.load_eq hl.stdout]

theorem does_readOffset (hc : Common t L) {loop : Loop} (hmid : Middle ld t pc s₀ loop)
    (h : Frame s₀ m s) {mbLen : Word} (hrbx : s.regs .rbx = mbLen) (hr12 : s.regs .r12 = argv) :
    Does ld t s₀ ⟨readOffset L ++ (mapBlock L ++ pc), s⟩
      (.call (.strtol (load m (argv + 16#64) 8) 0#64 10#32) m fun offset m =>
        if offset.sle 0#64 then complain ld .lc2 (load m (argv + 8#64) 8) m else
        .call (.mmap 0#64 mbLen 3#32 34#32 (-1#32) 0#64) m fun mblock m =>
        if mblock == -1#64 then .call (.perror (ld .lc3)) m fun _ m => .done 1#32 m else
        .call (.fprintfChk (load m (ld .stdout) 8) 1#32 (ld .lc4) (mblock + offset)) m fun _ m =>
          loop (mblock + mbLen) (mblock + offset) m (finishMain ld mblock mbLen)) := by
  obtain ⟨pco, hoffset⟩ := hc.badOffset
  refine does_call hl (n := 3) rfl ?_ (h.same_mem (by simp) (by rfl))
    fun offset m' s' _ h' hret => ?_
  · simp [observe, State.low, hr12, hl.load_argv h (word_of_argv 16 (by omega))]
  have hrbx' : s'.regs .rbx = mbLen := (hret.kept .rbx (by decide)).trans (by simp [hrbx])
  have hr12' : s'.regs .r12 = argv := (hret.kept .r12 (by decide)).trans (by simp [hr12])
  refine .run (n := 2) rfl (.branch ?_ hoffset (fun _ => ?_) fun hgt => ?_)
  · simp [hret.rax, holds_le_logic]
  · exact does_badArgument hl hc (h'.same_mem (by simp) (by rfl)) (by simp [hr12']) .lc2
  · have hpos : offset.toNat < 2 ^ 63 := by
      rw [BitVec.sle_eq_decide, decide_eq_true_eq, BitVec.toInt_zero, BitVec.toInt_eq_toNat_cond]
        at hgt
      omega
    exact does_mapBlock hl hc hmid (h'.same_mem (by simp) (by rfl)) (by simp [hrbx'])
      (by simp [hret.rax]) hpos

theorem does_main (hc : Common t L) {loop : Loop} (hmid : Middle ld t pc s₀ loop)
    (hargv : s₀.regs .rsi = argv) :
    Does ld t s₀ ⟨head L ++ pc, s₀⟩ (main ld loop (s₀.low .rdi) argv s₀.mem) := by
  obtain ⟨pcu, husage⟩ := hc.usage
  obtain ⟨pcl, hlength⟩ := hc.badLength
  obtain ⟨s, hs, h, hflags, hrsi, hr12⟩ := @frame_enter s₀ ld t
    (readLength L ++ (readOffset L ++ (mapBlock L ++ pc))) L
  rw [hargv] at hrsi hr12
  unfold main
  refine .run (n := 6) hs (.branch ?_ husage (fun _ => does_usage hl hc h hrsi) fun _ => ?_)
  · rw [hflags, holds_le_sub, slt_three, Bool.decide_eq_true]
  refine does_call hl (n := 3) rfl ?_ (h.same_mem (by simp) (by rfl))
    fun mbLen m s' _ h' hret => ?_
  · simp [observe, State.low, hrsi, hl.load_argv h (word_of_argv 8 (by omega))]
  have hr12' : s'.regs .r12 = argv := (hret.kept .r12 (by decide)).trans (by simp [hr12])
  refine .run (n := 2) rfl (.branch ?_ hlength (fun _ => ?_) fun _ => ?_)
  · simp [hret.rax, holds_le_logic]
  · exact does_badArgument hl hc (h'.same_mem (by simp) (by rfl)) (by simp [hr12']) .lc1
  · exact does_readOffset hl hc hmid (h'.same_mem (by simp) (by rfl)) (by simp [hret.rax])
      (by simp [hr12'])

end

end MiscTools.Unalign
