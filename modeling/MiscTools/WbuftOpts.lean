import MiscTools.Wbuft

/-!
# The options of wbuft

`read_opt` and the checks of `main`: what a `test_spec` that is run looks
like. An option with an argument carries the value `atol` made of it.
What is printed is left out.

The sync type a sequence of options selects is `SYNC_DATA` or none, since
`-S` sets the flag of `-D` (`readOpt_syncType`); so the documented call
is made just if there is no `-S` (`sync_options_iff`).
-/

namespace MiscTools.Wbuft

/-! ## read_opt -/

def MIN_BUFSZ : Nat := 1024
def MAX_BUFSZ : Nat := 1024 * 1024 * 512
def MIN_INCR : Nat := 128
def MIN_NINCR : Nat := 1
def MAX_NINCR : Nat := 1024 * 1024

def FALLOC : BitVec 32 := 1#32 <<< 2
def FALLOC_SZ : BitVec 32 := 1#32 <<< 3
def SEQ_WRITE : BitVec 32 := 1#32 <<< 5

/-- `open_flags`, by the flags that are set. -/
structure OpenFlags where
  O_TRUNC : Bool := false
  O_APPEND : Bool := false
  O_DIRECT : Bool := false
  O_FSYNC : Bool := false
  O_DSYNC : Bool := false
deriving DecidableEq

structure TestSpec where
  modeFlags : BitVec 32 := 0
  openFlags : OpenFlags := {}
  len : Nat := 0
  niter : Nat := 0
  incr : Nat := 0
  nincr : Nat := 0
  numChunks : Nat := 0
deriving DecidableEq

/-- The options of `"ktfaidDSI:N:FTU:Q"`, and what `getopt` answers to
any other, `-s` among them. -/
inductive Opt
  | k
  | t
  | f
  | a
  | i
  | d
  | D
  | S
  | I (lval : Int)
  | N (lval : Int)
  | F
  | T
  | U (lval : Int)
  | Q
  | invalid
deriving DecidableEq

def EINVAL : Int := 22

/-- The body of the loop of `read_opt`, and what it returns where it
stops. -/
def readOne (noDsync : Bool) (sp : TestSpec) : Opt → Except Int TestSpec
  | .Q => .ok { sp with modeFlags := sp.modeFlags ||| SEQ_WRITE }
  | .T => .ok { sp with modeFlags := sp.modeFlags ||| SYNC_THREAD }
  | .F => .ok { sp with modeFlags := sp.modeFlags ||| FALLOC }
  | .k => .ok { sp with modeFlags := sp.modeFlags ||| FALLOC_SZ }
  | .t => .ok { sp with openFlags := { sp.openFlags with O_TRUNC := true } }
  | .a => .ok { sp with openFlags := { sp.openFlags with O_APPEND := true } }
  | .i => .ok { sp with openFlags := { sp.openFlags with O_DIRECT := true } }
  | .f => .ok { sp with openFlags := { sp.openFlags with O_FSYNC := true } }
  | .d =>
      if noDsync then .error EINVAL
      else .ok { sp with openFlags := { sp.openFlags with O_DSYNC := true } }
  | .D =>
      if noDsync then .error EINVAL
      else .ok { sp with modeFlags := sp.modeFlags ||| SYNC_DATA }
  | .S => .ok { sp with modeFlags := sp.modeFlags ||| SYNC_DATA }
  | .I lval =>
      if lval < MIN_INCR ∨ lval > MIN_INCR + MAX_NINCR * MIN_BUFSZ then .error EINVAL
      else .ok { sp with incr := lval.toNat }
  | .N lval =>
      if lval < MIN_NINCR ∨ lval > MAX_NINCR then .error EINVAL
      else .ok { sp with nincr := lval.toNat }
  | .U lval => if lval < 2 then .error EINVAL else .ok { sp with numChunks := lval.toNat }
  | .invalid => .error (-1)

def readOpt (noDsync : Bool) : TestSpec → List Opt → Except Int TestSpec
  | sp, [] => .ok sp
  | sp, o :: opts => do
      let sp ← readOne noDsync sp o
      readOpt noDsync sp opts

/-- The defaults of `main`. -/
def TestSpec.withDefaults (sp : TestSpec) : TestSpec :=
  { sp with
    len := if sp.len = 0 then MIN_BUFSZ else sp.len
    incr := if sp.incr = 0 then MIN_INCR else sp.incr
    nincr := if sp.nincr = 0 then MIN_NINCR else sp.nincr }

/-- `main` up to the call of `run_odsync`: the options, the buffer size
and the number of writes. -/
def mainSpec (noDsync : Bool) (opts : List Opt) (bufsz niter : Int) : Except Int TestSpec :=
  match readOpt noDsync {} opts with
  | .error _ => .error EINVAL
  | .ok sp =>
      if bufsz < MIN_BUFSZ ∨ bufsz > MAX_BUFSZ then .error EINVAL
      else if 0 ≥ niter then .error EINVAL
      else
        let sp := { sp with len := bufsz.toNat, niter := niter.toNat }.withDefaults
        if sp.numChunks ≥ sp.len then .error EINVAL else .ok sp

/-! ## What an option changes -/

theorem or_and_of_disjoint {x y m : BitVec 32} (h : y &&& m = 0) :
    (x ||| y) &&& m = x &&& m := by
  rw [BitVec.and_or_distrib_right, h]
  exact BitVec.or_zero

section

variable {noDsync : Bool} {sp sp' : TestSpec}

/-- Only the two sync options change the sync type. -/
theorem readOne_syncType {o : Opt} (h : readOne noDsync sp o = .ok sp') :
    sp'.modeFlags &&& SYNC_TYPE
      = (sp.modeFlags &&& SYNC_TYPE) ||| if o = .D ∨ o = .S then SYNC_DATA else 0 := by
  have hkeeps : ∀ x : BitVec 32, x = x ||| 0 := fun x => BitVec.or_zero.symm
  have hsets : (sp.modeFlags ||| SYNC_DATA) &&& SYNC_TYPE
      = (sp.modeFlags &&& SYNC_TYPE) ||| SYNC_DATA := by
    rw [BitVec.and_or_distrib_right]
    rfl
  cases o with
  | D =>
      simp only [readOne] at h
      split at h
      · cases h
      · cases h
        exact hsets
  | S =>
      cases h
      exact hsets
  | Q | T | F | k =>
      cases h
      exact (or_and_of_disjoint (by decide)).trans (hkeeps _)
  | t | a | i | f =>
      cases h
      exact hkeeps _
  | d | I | N | U =>
      simp only [readOne] at h
      split at h
      · cases h
      · cases h
        exact hkeeps _
  | invalid => cases h

/-- What holds of a `test_spec` between two options. -/
structure Parsed (sp : TestSpec) : Prop where
  incr : sp.incr = 0 ∨ MIN_INCR ≤ sp.incr ∧ sp.incr ≤ MIN_INCR + MAX_NINCR * MIN_BUFSZ
  nincr : sp.nincr = 0 ∨ MIN_NINCR ≤ sp.nincr ∧ sp.nincr ≤ MAX_NINCR
  numChunks : sp.numChunks = 0 ∨ 2 ≤ sp.numChunks

theorem Parsed.readOne (hsp : Parsed sp) {o : Opt} (h : readOne noDsync sp o = .ok sp') :
    Parsed sp' := by
  cases o with
  | Q | T | F | k | t | a | i | f | S =>
      cases h
      exact ⟨hsp.incr, hsp.nincr, hsp.numChunks⟩
  | d | D =>
      simp only [Wbuft.readOne] at h
      split at h
      · cases h
      · cases h
        exact ⟨hsp.incr, hsp.nincr, hsp.numChunks⟩
  | I lval =>
      simp only [Wbuft.readOne] at h
      split at h
      · cases h
      · rename_i hrange
        cases h
        exact ⟨Or.inr (by show MIN_INCR ≤ lval.toNat ∧ lval.toNat ≤ _; omega), hsp.nincr,
          hsp.numChunks⟩
  | N lval =>
      simp only [Wbuft.readOne] at h
      split at h
      · cases h
      · rename_i hrange
        cases h
        exact ⟨hsp.incr, Or.inr (by show MIN_NINCR ≤ lval.toNat ∧ lval.toNat ≤ _; omega),
          hsp.numChunks⟩
  | U lval =>
      simp only [Wbuft.readOne] at h
      split at h
      · cases h
      · cases h
        exact ⟨hsp.incr, hsp.nincr, Or.inr (by show 2 ≤ lval.toNat; omega)⟩
  | invalid => cases h

theorem readOpt_cons {o : Opt} {opts : List Opt} (h : readOpt noDsync sp (o :: opts) = .ok sp') :
    ∃ sp₁, readOne noDsync sp o = .ok sp₁ ∧ readOpt noDsync sp₁ opts = .ok sp' := by
  rw [readOpt] at h
  cases hone : readOne noDsync sp o with
  | error rc =>
      rw [hone] at h
      cases h
  | ok sp₁ =>
      rw [hone] at h
      exact ⟨sp₁, rfl, h⟩

end

/-- **The sync type** after a sequence of options. -/
theorem readOpt_syncType {noDsync : Bool} {opts : List Opt} : ∀ {sp sp' : TestSpec},
    readOpt noDsync sp opts = .ok sp' → sp'.modeFlags &&& SYNC_TYPE
      = (sp.modeFlags &&& SYNC_TYPE) ||| if .D ∈ opts ∨ .S ∈ opts then SYNC_DATA else 0 := by
  induction opts with
  | nil =>
      intro sp sp' h
      cases h
      rw [if_neg (by simp)]
      exact BitVec.or_zero.symm
  | cons o opts ih =>
      intro sp sp' h
      obtain ⟨sp₁, hone, hrest⟩ := readOpt_cons h
      rw [ih hrest, readOne_syncType hone, BitVec.or_assoc]
      congr 1
      by_cases ho : o = .D ∨ o = .S
      · have hmem : .D ∈ o :: opts ∨ .S ∈ o :: opts := by
          rcases ho with rfl | rfl <;> simp
        rw [if_pos ho, if_pos hmem]
        split <;> decide
      · have hiff : (.D ∈ o :: opts ∨ .S ∈ o :: opts) ↔ .D ∈ opts ∨ .S ∈ opts := by
          obtain ⟨hD, hS⟩ := not_or.mp ho
          have hD' : ¬Opt.D = o := fun h => hD h.symm
          have hS' : ¬Opt.S = o := fun h => hS h.symm
          simp only [List.mem_cons, hD', hS', false_or]
        simp only [if_neg ho, hiff]
        exact BitVec.zero_or

theorem readOpt_parsed {noDsync : Bool} {opts : List Opt} : ∀ {sp sp' : TestSpec},
    Parsed sp → readOpt noDsync sp opts = .ok sp' → Parsed sp' := by
  induction opts with
  | nil =>
      intro sp sp' hsp h
      cases h
      exact hsp
  | cons o opts ih =>
      intro sp sp' hsp h
      obtain ⟨sp₁, hone, hrest⟩ := readOpt_cons h
      exact ih (hsp.readOne hone) hrest

/-- A build without `fdatasync` accepts no `-D`. -/
theorem readOpt_fdatasync {noDsync : Bool} {opts : List Opt} (hD : .D ∈ opts) :
    ∀ {sp sp' : TestSpec}, readOpt noDsync sp opts = .ok sp' → noDsync = false := by
  induction opts with
  | nil => cases hD
  | cons o opts ih =>
      intro sp sp' h
      obtain ⟨sp₁, hone, hrest⟩ := readOpt_cons h
      rcases List.mem_cons.mp hD with rfl | hD
      · rw [readOne] at hone
        split at hone
        · cases hone
        · rename_i hbuild
          simpa using hbuild
      · exact ih hD hrest

/-! ## The documented call -/

section

variable {noDsync : Bool} {flags : BitVec 32} {opts : List Opt}

theorem fdSync_clear (h : flags &&& SYNC_TYPE = 0) (kernel : SyncCall → Int → Int) (fd : Int) :
    fdSync noDsync kernel fd flags = some 0 := by
  rw [fdSync, if_pos h]

theorem fdSync_data (h : flags &&& SYNC_TYPE = SYNC_DATA) (kernel : SyncCall → Int → Int)
    (fd : Int) :
    fdSync noDsync kernel fd flags =
      if noDsync = false then some (kernel .fdatasync fd) else none := by
  rw [fdSync, h, if_neg (by decide), if_neg (by decide)]
  simp only [true_and]

/-- What the usage text says of the options, of an `fd_sync` with the
flags they give. -/
structure Documented (noDsync : Bool) (opts : List Opt) (flags : BitVec 32) : Prop where
  answers : ∀ kernel fd, fdSync noDsync kernel fd flags ≠ none
  all : .S ∈ opts → ∀ kernel fd, fdSync noDsync kernel fd flags = some (kernel .fsync fd)
  data : .D ∈ opts → .S ∉ opts → ∀ kernel fd,
    fdSync noDsync kernel fd flags = some (kernel .fdatasync fd)
  neither : .D ∉ opts → .S ∉ opts → ∀ kernel fd, fdSync noDsync kernel fd flags = some 0

/-- With `-S`, `fd_sync` makes the other call, or none that exists. -/
theorem not_documented (hflags : flags &&& SYNC_TYPE = SYNC_DATA) (hS : .S ∈ opts) :
    ¬Documented noDsync opts flags := by
  intro hdoc
  have hcall := hdoc.all hS (fun call _ => if call = .fsync then 0 else 1) 0
  rw [fdSync_data hflags] at hcall
  split at hcall
  · cases Option.some.inj hcall
  · cases hcall

/-- **The documented call is made** just if the options have no `-S`. -/
theorem sync_options_iff {sp : TestSpec} (h : readOpt noDsync {} opts = .ok sp) :
    Documented noDsync opts sp.modeFlags ↔ .S ∉ opts := by
  have htype : sp.modeFlags &&& SYNC_TYPE = if .D ∈ opts ∨ .S ∈ opts then SYNC_DATA else 0 := by
    rw [readOpt_syncType h]
    exact BitVec.zero_or
  constructor
  · intro hdoc hS
    rw [if_pos (Or.inr hS)] at htype
    exact not_documented htype hS hdoc
  · intro hS
    by_cases hD : .D ∈ opts
    · rw [if_pos (Or.inl hD)] at htype
      have hcall : ∀ kernel fd,
          fdSync noDsync kernel fd sp.modeFlags = some (kernel .fdatasync fd) := fun kernel fd => by
        rw [fdSync_data htype, if_pos (readOpt_fdatasync hD h)]
      exact ⟨fun kernel fd => (hcall kernel fd).symm ▸ Option.some_ne_none _,
        fun hmem => absurd hmem hS, fun _ _ => hcall, fun hmem => absurd hD hmem⟩
    · rw [if_neg (not_or.mpr ⟨hD, hS⟩)] at htype
      have hcall : ∀ kernel fd, fdSync noDsync kernel fd sp.modeFlags = some 0 := fdSync_clear htype
      exact ⟨fun kernel fd => (hcall kernel fd).symm ▸ Option.some_ne_none _,
        fun hmem => absurd hmem hS, fun hmem => absurd hmem hD, fun _ _ => hcall⟩

end

theorem sync_options_iff_threaded : ∃ sp, readOpt false {} [.D, .T] = .ok sp ∧
    (Documented false [.D, .T] sp.modeFlags ↔ .S ∉ [Opt.D, .T]) :=
  ⟨_, rfl, sync_options_iff rfl⟩

/-- `-S` alone measures `fdatasync`. -/
theorem sync_all_missed :
    ¬∀ (noDsync : Bool) (opts : List Opt) (sp : TestSpec), readOpt noDsync {} opts = .ok sp →
      Documented noDsync opts sp.modeFlags :=
  fun hall => not_documented (by decide) List.mem_cons_self (hall false [.S] _ rfl)

/-! ## What main accepts -/

/-- The bounds of a `test_spec` that is run. -/
structure Accepted (sp : TestSpec) : Prop where
  len : MIN_BUFSZ ≤ sp.len ∧ sp.len ≤ MAX_BUFSZ
  niter : 0 < sp.niter
  incr : MIN_INCR ≤ sp.incr ∧ sp.incr ≤ MIN_INCR + MAX_NINCR * MIN_BUFSZ
  nincr : MIN_NINCR ≤ sp.nincr ∧ sp.nincr ≤ MAX_NINCR
  numChunks : sp.numChunks = 0 ∨ 2 ≤ sp.numChunks
  fewer : sp.numChunks < sp.len
  syncType : sp.modeFlags &&& SYNC_TYPE = 0 ∨ sp.modeFlags &&& SYNC_TYPE = SYNC_DATA

/-- A default is within the range it is the lower end of. -/
theorem default_within {lo hi x : Nat} (hle : lo ≤ hi) (h : x = 0 ∨ lo ≤ x ∧ x ≤ hi) :
    lo ≤ (if x = 0 then lo else x) ∧ (if x = 0 then lo else x) ≤ hi := by
  split
  · exact ⟨Nat.le_refl lo, hle⟩
  · rename_i hx
    exact h.resolve_left hx

/-- Every default passes the check of its option. -/
theorem mainSpec_accepted {noDsync : Bool} {opts : List Opt} {bufsz niter : Int} {sp : TestSpec}
    (h : mainSpec noDsync opts bufsz niter = .ok sp) : Accepted sp := by
  rw [mainSpec] at h
  cases hread : readOpt noDsync {} opts with
  | error rc =>
      rw [hread] at h
      cases h
  | ok sp₀ =>
      rw [hread] at h
      have hparsed : Parsed sp₀ := readOpt_parsed ⟨Or.inl rfl, Or.inl rfl, Or.inl rfl⟩ hread
      have htype : sp₀.modeFlags &&& SYNC_TYPE = 0 ∨ sp₀.modeFlags &&& SYNC_TYPE = SYNC_DATA := by
        rw [readOpt_syncType hread]
        split
        · exact Or.inr BitVec.zero_or
        · exact Or.inl BitVec.zero_or
      simp only at h
      split at h
      · cases h
      · split at h
        · cases h
        · split at h
          · cases h
          · rename_i hrange hniter hfewer
            rw [not_or, Int.not_lt, Int.not_lt] at hrange
            have hlen : MIN_BUFSZ ≤ bufsz.toNat ∧ bufsz.toNat ≤ MAX_BUFSZ := by omega
            cases h
            exact
              { len := default_within (by decide) (Or.inr hlen)
                niter := by
                  show 0 < niter.toNat
                  omega
                incr := default_within (by decide) hparsed.incr
                nincr := default_within (by decide) hparsed.nincr
                numChunks := hparsed.numChunks
                fewer := Nat.lt_of_not_le hfewer
                syncType := htype }

end MiscTools.Wbuft
