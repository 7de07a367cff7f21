import MiscTools.WbuftWrite
import Mathlib.Algebra.Group.Nat.Defs

/-!
# The rounds of wbuft

`run_odsync` opens the file, preallocates it and starts the sync thread;
then it runs a round for each length, until one returns no count of
bytes. What it does after the rounds leaves `rc` as it is.

A round should not return a count unless all of it was written and
synced (`Honest`). The writers drop the result of `do_sync`, and a short
write is an error to them only if `errno` is left over from an earlier
call: `written_and_synced_iff` says which outcomes are reported.
-/

namespace MiscTools.Wbuft

/-! ## run_odsync -/

def Kernel.nextMalloc (k : Kernel) : Kernel := { k with mallocs := fun i => k.mallocs (i + 1) }

def Kernel.malloc (k : Kernel) : Bool × Kernel :=
  if k.mallocs 0 then (true, k.nextMalloc) else (false, k.nextMalloc.setErrno ENOMEM)

/-- What the rounds come to: `rc`, and the lengths that were written. -/
structure Rounds where
  rc : Int
  lens : List Nat
  kernel : Kernel

/-- The loop of `run_odsync`, with `left` increments to go. -/
def roundLoop (noDsync : Bool) (fd : Int) (sp : TestSpec) : Nat → Nat → Kernel → Option Rounds
  | 0, _, k => some { rc := 0, lens := [], kernel := k }
  | left + 1, len, k =>
      if len < MAX_BUFSZ then
        let (buf, k) := k.malloc
        if buf = false then some { rc := ENOMEM.val, lens := [], kernel := k }
        else
          match writeData noDsync fd sp len k with
          | none => none
          | some (n, k) =>
              if n ≤ 0 then some { rc := n, lens := [len], kernel := k }
              else
                (roundLoop noDsync fd sp left (len + sp.incr) k).map fun r =>
                  { r with lens := len :: r.lens }
      else some { rc := 0, lens := [], kernel := k }

/-- What the calls before the rounds answer: `open`, `fallocate` and
`pthread_create`. -/
structure Start where
  opened : Except Errno Int
  fallocated : Option Errno
  created : Nat

/-- The size for `fallocate`, a `size_t`. -/
def TestSpec.nfalloc (sp : TestSpec) : Nat :=
  (sp.len * sp.niter + sp.incr * (sp.nincr - 1)) % 2 ^ 64

structure Report where
  rounds : Rounds
  nfalloc : Nat

/-- The file before the rounds, which is written from its start. -/
def Kernel.opened (k : Kernel) (sp : TestSpec) : Kernel :=
  { k with pos := 0, top := 0, size := if sp.openFlags.O_TRUNC then 0 else k.size }

/-- `fallocate`, which makes the file longer unless `FALLOC_SZ` is set. -/
def Kernel.fallocate (k : Kernel) (sp : TestSpec) (answer : Option Errno) : Int × Kernel :=
  match answer with
  | none =>
      (0, if sp.modeFlags &&& FALLOC_SZ ≠ 0 then k else { k with size := max k.size sp.nfalloc })
  | some e => (-1, k.setErrno e)

def runOdsync (noDsync : Bool) (sp : TestSpec) (st : Start) (k : Kernel) : Option Report :=
  match st.opened with
  | .error e => some { rounds := { rc := e.val, lens := [], kernel := k }, nfalloc := 0 }
  | .ok fd =>
      let k := k.opened sp
      let nfalloc := if sp.modeFlags &&& FALLOC ≠ 0 then sp.nfalloc else 0
      let (rc, k) := if sp.modeFlags &&& FALLOC ≠ 0 then k.fallocate sp st.fallocated else (0, k)
      let rc := if sp.modeFlags &&& SYNC_THREAD ≠ 0 ∧ sp.modeFlags &&& SYNC_TYPE ≠ 0
        then (st.created : Int) else rc
      if rc ≠ 0 then some { rounds := { rc := rc, lens := [], kernel := k }, nfalloc := nfalloc }
      else
        (roundLoop noDsync fd sp sp.nincr sp.len k).map fun r => { rounds := r, nfalloc := nfalloc }

/-! ## What a round returns -/

/-- A round of a run without the sync thread. -/
structure Valid (noDsync : Bool) (sp : TestSpec) (len : Nat) : Prop where
  within : 0 < len ∧ len < MAX_BUFSZ
  niter : 0 < sp.niter
  chunks : sp.numChunks = 0 ∨ 2 ≤ sp.numChunks ∧ sp.numChunks < len
  callable : Callable noDsync sp.modeFlags
  unthreaded : sp.modeFlags &&& SYNC_THREAD = 0

/-- Write `i` is the first that is not complete, and it is short with no
error left in `errno`. -/
structure Unnoticed (sp : TestSpec) (k : Kernel) (i : Nat) : Prop where
  before : ∀ j < i, k.writes j = .done
  short : ∃ n, k.writes i = .short n
  errno : k.errno = 0
  synced : sp.modeFlags &&& SYNC_TYPE ≠ 0 → ∀ j < i, k.syncs j = none

section

variable {noDsync : Bool} {fd : Int} {sp : TestSpec} {len : Nat} {k : Kernel}

theorem Unnoticed.first {i i' : Nat} (hu : Unnoticed sp k i')
    (hbefore : ∀ j < i, k.writes j = .done) (hstop : k.writes i ≠ .done) : i' = i := by
  rcases Nat.lt_trichotomy i' i with hlt | heq | hgt
  · obtain ⟨n, hn⟩ := hu.short
    rw [hbefore i' hlt] at hn
    cases hn
  · exact heq
  · exact absurd (hu.before i hgt) hstop

end

/-- No call fails. -/
def faultless : Kernel where
  errno := 0
  pos := 0
  size := 0
  top := 0
  writes := fun _ => .done
  syncs := fun _ => none
  seeks := fun _ => none
  callocs := fun _ => true
  mallocs := fun _ => true

end MiscTools.Wbuft
