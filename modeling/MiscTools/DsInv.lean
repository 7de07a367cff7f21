import MiscTools.DsSteps
import MiscTools.Shares

/-!
# Table invariant and waiter accounting

Two invariants everything else rests on.

`TableInv` holds in every reachable state, whatever is called: the
entries beyond `ds.count` are blank, stored names fit, and a section
counted on a point under a name that fits is found again by `look_up`.

`Backed` says that `nblocked` of a point is at least the number of
sections counted on it and not closed. It is not an equality: a
`ds_wait` that fails after counting itself leaves the count raised. It
is kept by every disciplined step, except that a section opened by the
inactive exit of `ds_wait` (which was never counted) must not be taken
off the count (`CountedOK`). Under `Backed` the assertion of
`ds_unblock` holds, and a point whose count reaches 0 has no section
left.
-/

namespace MiscTools

namespace Debugsync

open DsGlobal Runs

/-! ## The table -/

/-- The stored names fit, and the table is still zero-filled beyond
`count`. -/
structure TableOK (g : DsGlobal) : Prop where
  names : ∀ i : PointIdx, i.val < g.count → (g.point i).name.strlen ≤ DS_MAX_POINT_NAME_LEN
  blank : ∀ i : PointIdx, g.count ≤ i.val →
    (g.point i).nblocked = 0 ∧ (g.point i).inSyncwait = false
      ∧ (g.point i).isEnabled = false

/-- `i` is the point `name` was counted on, and `look_up` still finds it
if the name fits. -/
def Resolves (g : DsGlobal) (name : CStr) (i : PointIdx) : Prop :=
  i.val < g.count ∧ (name.strlen ≤ DS_MAX_POINT_NAME_LEN → g.lookUp name = some i)

theorem tableOK_init (flags : BitVec 32) : TableOK (dsInit flags) where
  names := fun _ h => absurd h (Nat.not_lt_zero _)
  blank := fun _ _ => ⟨rfl, rfl, rfl⟩

/-- Names longer than the limit are never found. -/
theorem TableOK.lookUp_long {g : DsGlobal} (h : TableOK g) {name : CStr}
    (hlen : DS_MAX_POINT_NAME_LEN < name.strlen) : g.lookUp name = none := by
  refine lookUp_eq_none.mpr fun k hk heq => ?_
  have := h.names k hk
  rw [heq] at this
  omega

theorem lookUp_lt {g : DsGlobal} {name : CStr} {i : PointIdx}
    (h : g.lookUp name = some i) : i.val < g.count :=
  (lookUp_eq_some.mp h).1

/-- Updates that keep names and count keep what names resolve to. -/
theorem Resolves.congr {g g' : DsGlobal} {name : CStr} {i : PointIdx}
    (h : Resolves g name i) (hcount : g'.count = g.count)
    (hname : ∀ j, (g'.point j).name = (g.point j).name) : Resolves g' name i := by
  obtain ⟨hlt, hlook⟩ := h
  refine ⟨by omega, fun hlen => ?_⟩
  rw [lookUp_congr hcount hname, hlook hlen]

/-- An update below `count` that keeps names and count keeps `TableOK`. -/
theorem TableOK.congr {g g' : DsGlobal} (h : TableOK g) (hcount : g'.count = g.count)
    (hname : ∀ j, (g'.point j).name = (g.point j).name)
    (hout : ∀ j : PointIdx, g.count ≤ j.val →
      (g'.point j).nblocked = (g.point j).nblocked
        ∧ (g'.point j).inSyncwait = (g.point j).inSyncwait
        ∧ ((g'.point j).isEnabled = true → (g.point j).isEnabled = true)) :
    TableOK g' where
  names := fun i hi => by
    rw [hname]
    exact h.names i (by omega)
  blank := fun i hi => by
    have hi' : g.count ≤ i.val := by omega
    obtain ⟨h1, h2, h3⟩ := h.blank i hi'
    obtain ⟨e1, e2, e3⟩ := hout i hi'
    refine ⟨by rw [e1, h1], by rw [e2, h2], ?_⟩
    rw [← Bool.not_eq_true]
    intro hen
    rw [e3 hen] at h3
    cases h3

/-- What an acquisition does to one point: it keeps the count and the
rendezvous flag of every point, and enables at most the one acquired. -/
theorem DsGlobal.Acquired.point {g g' : DsGlobal} {name : CStr} {i : PointIdx}
    (hok : TableOK g) (h : Acquired g name g' i) (j : PointIdx) :
    (g'.point j).nblocked = (g.point j).nblocked
      ∧ (g'.point j).inSyncwait = (g.point j).inSyncwait
      ∧ ((g'.point j).isEnabled = (g.point j).isEnabled
        ∨ (g.count ≤ j.val ∧ (g'.point j).isEnabled = true)) := by
  cases h with
  | found hlook => exact ⟨rfl, rfl, Or.inl rfl⟩
  | created hnone hi hcount hact hself hne =>
      by_cases hj : j = i
      · subst hj
        obtain ⟨h1, h2, -⟩ := hok.blank j (by omega)
        rw [hself, h1, h2]
        exact ⟨rfl, rfl, Or.inr ⟨by omega, rfl⟩⟩
      · rw [hne j hj]
        exact ⟨rfl, rfl, Or.inl rfl⟩

theorem DsGlobal.Acquired.lt_count {g g' : DsGlobal} {name : CStr} {i : PointIdx}
    (h : Acquired g name g' i) : i.val < g'.count := by
  cases h with
  | found hlook => exact lookUp_lt hlook
  | created hnone hi hcount hact hself hne => omega

theorem DsGlobal.Acquired.inactive {g g' : DsGlobal} {name : CStr} {i : PointIdx}
    (h : Acquired g name g' i) : g'.inactive = g.inactive := by
  cases h with
  | found hlook => rfl
  | created hnone hi hcount hact hself hne => rw [DsGlobal.inactive, hact]; rfl

theorem DsGlobal.Acquired.tableOK {g g' : DsGlobal} {name : CStr} {i : PointIdx}
    (hok : TableOK g) (h : Acquired g name g' i) : TableOK g' := by
  cases h with
  | found hlook => exact hok
  | created hnone hi hcount hact hself hne =>
      refine ⟨fun j hj => ?_, fun j hj => ?_⟩
      · by_cases hji : j = i
        · rw [hji, hself]
          exact CStr.strlen_strndup_le _ _
        · have : j.val ≠ i.val := fun h => hji (Fin.ext h)
          rw [hne j hji]
          exact hok.names j (by omega)
      · have hji : j ≠ i := fun h => by subst h; omega
        rw [hne j hji]
        exact hok.blank j (by omega)

/-- An acquisition keeps what every other name resolves to: a new entry
comes after the ones that were there. -/
theorem DsGlobal.Acquired.resolves {g g' : DsGlobal} {name name' : CStr} {i j : PointIdx}
    (h : Acquired g name g' i) (hr : Resolves g name' j) : Resolves g' name' j := by
  cases h with
  | found hlook => exact hr
  | created hnone hi hcount hact hself hne =>
      obtain ⟨hlt, hlook⟩ := hr
      refine ⟨by omega, fun hlen => ?_⟩
      obtain ⟨h1, h2, h3⟩ := lookUp_eq_some.mp (hlook hlen)
      have hji : j ≠ i := fun h => by subst h; omega
      refine lookUp_eq_some.mpr ⟨by omega, by rw [hne j hji, h2], fun k hk => ?_⟩
      have hki : k ≠ i := fun h => by
        subst h
        have := Fin.lt_def.mp hk
        omega
      rw [hne k hki]
      exact h3 k hk

theorem DsGlobal.Acquired.self_resolves {g g' : DsGlobal} {name : CStr} {i : PointIdx}
    (h : Acquired g name g' i) : Resolves g' name i := by
  cases h with
  | found hlook => exact ⟨lookUp_lt hlook, fun _ => hlook⟩
  | created hnone hi hcount hact hself hne =>
      refine ⟨by omega, fun hlen => ?_⟩
      refine lookUp_eq_some.mpr ⟨by omega, ?_, fun k hk => ?_⟩
      · rw [hself]
        exact CStr.strndup_of_le hlen
      · have hki : k ≠ i := Fin.ne_of_lt hk
        rw [hne k hki]
        exact lookUp_eq_none.mp hnone k (by have := Fin.lt_def.mp hk; omega)

/-! ## The sections a thread has counted -/

/-- The sections a thread is in, and the one it is asleep in `ds_wait`
for. -/
def Thread.blocked (th : Thread) : List WaitSection :=
  match th.pc with
  | .inWait name i since _ => ⟨name, some i, since⟩ :: th.sections
  | _ => th.sections

theorem Thread.blocked_of_sleeps {th : Thread} {name : CStr} {i : PointIdx} {since : Nat}
    {nap : Nap} (h : th.pc = .inWait name i since nap) :
    th.blocked = ⟨name, some i, since⟩ :: th.sections := by
  rw [Thread.blocked, h]

theorem Thread.blocked_of_awake {th : Thread}
    (h : ∀ name i since nap, th.pc ≠ .inWait name i since nap) :
    th.blocked = th.sections := by
  unfold Thread.blocked
  split
  · rename_i hpc
    exact absurd hpc (h _ _ _ _)
  · rfl

theorem Thread.mem_blocked_of_mem {th : Thread} {k : WaitSection} (h : k ∈ th.sections) :
    k ∈ th.blocked := by
  unfold Thread.blocked
  split
  · exact List.mem_cons_of_mem _ h
  · exact h

@[simp] theorem Thread.blocked_observe (g g' : DsGlobal) (b : Bool) (th : Thread) :
    (th.observe g g' b).blocked = th.blocked := by
  obtain ⟨pc, ks, last⟩ := th
  cases pc <;> rfl

@[simp] theorem Thread.blocked_waited (th : Thread) (k : WaitSection) (b : Bool) (rc : Int) :
    (th.waited k b rc).blocked = if rc = 0 then k :: th.sections else th.sections := rfl

theorem Thread.Plain.blocked {th th' : Thread} (h : th.Plain th') :
    th'.blocked = th.sections := by
  rw [← h.sections]
  exact Thread.blocked_of_awake fun _ _ _ _ hpc => by rw [h.pc] at hpc; cases hpc

theorem Thread.blocked_locking {th : Thread} {c : Call} (h : th.pc = .locking c) :
    th.blocked = th.sections :=
  Thread.blocked_of_awake fun _ _ _ _ hpc => by rw [h] at hpc; cases hpc

/-- The sections after the unlocked part of a call: the early exit of
`ds_wait` opens one that no point counts, the one of `ds_unblock` closes
its own, every other call leaves them. -/
theorem Thread.begin_cases (th : Thread) (g : DsGlobal) (c : Call) :
    ((th.begin g c).blocked = th.sections ∨ ∃ name, g.localInactive = true
          ∧ (th.begin g c).blocked = ⟨name, none, 0⟩ :: th.sections)
      ∨ ∃ name k, c = .unblock name (some k)
          ∧ (th.begin g c).blocked = th.sections.erase k := by
  unfold Thread.begin
  split
  · rename_i hin
    cases c with
    | wait name => exact Or.inl (Or.inr ⟨name, hin, rfl⟩)
    | exec name => exact Or.inl (Or.inl rfl)
    | unblock name k =>
        cases k with
        | none => exact Or.inl (Or.inl rfl)
        | some k => exact Or.inr ⟨name, k, rfl, rfl⟩
    | enable name b => exact Or.inl (Or.inl rfl)
    | disableAll => exact Or.inl (Or.inl rfl)
    | activate b => cases b <;> exact Or.inl (Or.inl rfl)
  · exact Or.inl (Or.inl rfl)

/-- The unlocked part of a call puts nobody to sleep. -/
theorem Thread.begin_awake (th : Thread) (g : DsGlobal) (c : Call) :
    (∀ name i since nap, (th.begin g c).pc ≠ .inWait name i since nap)
      ∧ ∀ i r e nap, (th.begin g c).pc ≠ .inExec i r e nap := by
  unfold Thread.begin
  split
  · cases c with
    | activate b => cases b <;> simp
    | wait name => simp [Thread.skip, Thread.waited]
    | exec name => simp [Thread.skip, Thread.finished]
    | unblock name k => simp [Thread.skip, Thread.unblocked]
    | enable name b => simp [Thread.skip, Thread.finished]
    | disableAll => simp [Thread.skip, Thread.finished]
  · simp

/-- The executor that holds point `i`: it has raised `i` and has not
returned. -/
def Thread.Holds (th : Thread) (i : PointIdx) : Prop :=
  ∃ r e nap, th.pc = .inExec i r e nap

/-! ## Growth of the table

What every section does to the table as a whole, whichever fields of
its points it writes. -/

structure Grows (g g' : DsGlobal) : Prop where
  count : g.count ≤ g'.count
  ok : TableOK g → TableOK g'
  resolves : ∀ name i, Resolves g name i → Resolves g' name i

theorem Grows.refl (g : DsGlobal) : Grows g g :=
  ⟨Nat.le_refl _, id, fun _ _ => id⟩

theorem Grows.trans {g g' g'' : DsGlobal} (h : Grows g g') (h' : Grows g' g'') :
    Grows g g'' :=
  ⟨Nat.le_trans h.count h'.count, fun ok => h'.ok (h.ok ok),
    fun name i hr => h'.resolves name i (h.resolves name i hr)⟩

/-- An update of point fields other than the name, harmless beyond
`count`. -/
theorem Grows.of_fields {g g' : DsGlobal} (hcount : g'.count = g.count)
    (hname : ∀ j, (g'.point j).name = (g.point j).name)
    (hout : TableOK g → ∀ j : PointIdx, g.count ≤ j.val →
      (g'.point j).nblocked = (g.point j).nblocked
        ∧ (g'.point j).inSyncwait = (g.point j).inSyncwait
        ∧ ((g'.point j).isEnabled = true → (g.point j).isEnabled = true)) :
    Grows g g' :=
  ⟨hcount.ge, fun ok => ok.congr hcount hname (hout ok),
    fun _ _ hr => hr.congr hcount hname⟩

theorem DsGlobal.Acquired.grows {g g' : DsGlobal} {name : CStr} {i : PointIdx}
    (h : Acquired g name g' i) : Grows g g' where
  count := by
    cases h with
    | found hlook => exact Nat.le_refl _
    | created hnone hi hcount hact hself hne => omega
  ok := fun ok => h.tableOK ok
  resolves := fun _ _ hr => h.resolves hr

section GrowsSetters

variable {g : DsGlobal} {i : PointIdx} (b : Bool)

theorem grows_incBlocked (hi : i.val < g.count) : Grows g (g.incBlocked i) :=
  .of_fields rfl (by simp) fun _ j hj => by
    have hji : j ≠ i := fun h => by subst h; omega
    simp [hji]

theorem grows_decBlocked (hi : i.val < g.count) : Grows g (g.decBlocked i) :=
  .of_fields rfl (by simp) fun _ j hj => by
    have hji : j ≠ i := fun h => by subst h; omega
    simp [hji]

theorem grows_setSyncwait (hi : i.val < g.count) : Grows g (g.setSyncwait i b) :=
  .of_fields rfl (by simp) fun _ j hj => by
    have hji : j ≠ i := fun h => by subst h; omega
    simp [hji]

theorem grows_setEnabled (hi : i.val < g.count) : Grows g (g.setEnabled i b) :=
  .of_fields rfl (by simp) fun _ j hj => by
    have hji : j ≠ i := fun h => by subst h; omega
    simp [hji]

theorem grows_disableAll : Grows g g.disableAll.1 :=
  .of_fields (by simp) (by simp) fun _ j _ => by simp +contextual

theorem grows_doActivate : Grows g (g.doActivate b) :=
  .of_fields rfl (fun _ => rfl) fun _ _ _ => ⟨rfl, rfl, id⟩

end GrowsSetters

/-! ## Sections that leave the flags alone -/

/-- The flags of every point are as they were, and a new point is
enabled. -/
structure FlagsKept (g g' : DsGlobal) : Prop where
  inSyncwait : ∀ j, (g'.point j).inSyncwait = (g.point j).inSyncwait
  isEnabled : ∀ j : PointIdx, j.val < g'.count →
    (j.val < g.count ∧ (g'.point j).isEnabled = (g.point j).isEnabled)
      ∨ (g.count ≤ j.val ∧ (g'.point j).isEnabled = true)

theorem FlagsKept.refl (g : DsGlobal) : FlagsKept g g :=
  ⟨fun _ => rfl, fun _ hj => Or.inl ⟨hj, rfl⟩⟩

theorem FlagsKept.of_old {g g' : DsGlobal} (h : FlagsKept g g') {j : PointIdx}
    (hj : j.val < g.count) (hcount : g.count ≤ g'.count) :
    (g'.point j).isEnabled = (g.point j).isEnabled := by
  rcases h.isEnabled j (by omega) with ⟨-, heq⟩ | ⟨hle, -⟩
  · exact heq
  · omega

theorem FlagsKept.incBlocked {g g' : DsGlobal} (h : FlagsKept g g') (i : PointIdx) :
    FlagsKept g (g'.incBlocked i) :=
  ⟨fun j => by simpa using h.inSyncwait j, fun j hj => by simpa using h.isEnabled j hj⟩

theorem FlagsKept.decBlocked {g g' : DsGlobal} (h : FlagsKept g g') (i : PointIdx) :
    FlagsKept g (g'.decBlocked i) :=
  ⟨fun j => by simpa using h.inSyncwait j, fun j hj => by simpa using h.isEnabled j hj⟩

theorem DsGlobal.Acquired.flagsKept {g g' : DsGlobal} {name : CStr} {i : PointIdx}
    (hok : TableOK g) (h : Acquired g name g' i) : FlagsKept g g' where
  inSyncwait := fun j => (h.point hok j).2.1
  isEnabled := fun j hj => by
    cases h with
    | found hlook => exact Or.inl ⟨hj, rfl⟩
    | created hnone hi hcount hact hself hne =>
        by_cases hji : j = i
        · subst hji
          exact Or.inr ⟨hi.ge, by rw [hself]⟩
        · have : j.val ≠ i.val := fun hv => hji (Fin.ext hv)
          exact Or.inl ⟨by omega, by rw [hne j hji]⟩

/-! ## The invariants -/

variable {Tid : Type}

structure TableInv (s : Sys Tid) : Prop where
  table : TableOK s.ds
  resolves : ∀ t, ∀ k ∈ (s.threads t).blocked, ∀ i, k.pt = some i →
    Resolves s.ds k.name i ∧ k.since < s.clock
  raised : ∀ t i r e nap, (s.threads t).pc = .inExec i r e nap →
    i.val < s.ds.count ∧ r < s.clock

/-- A `ds_unblock` on its way to the mutex was called for a section the
caller is in. -/
def Disciplined (s : Sys Tid) : Prop :=
  ∀ t name k, (s.threads t).pc = .locking (.unblock name k) →
    ∃ k', k = some k' ∧ k' ∈ (s.threads t).sections ∧ k'.name = name

/-- The sections of a thread counted on point `i`. -/
def Thread.blockedOn (i : PointIdx) (th : Thread) : Nat :=
  th.blocked.countP fun k => decide (k.pt = some i)

/-- The sections of all threads counted on point `i`: the calls inside
`ds_wait` past the increment, and the sections not yet unblocked. -/
def Sys.blockedOn [Fintype Tid] (s : Sys Tid) (i : PointIdx) : Nat :=
  Shares.total (Thread.blockedOn i) s.threads

/-- `nblocked` covers every section counted on the point. -/
def Backed [Fintype Tid] (s : Sys Tid) : Prop :=
  ∀ i, s.blockedOn i ≤ (s.ds.point i).nblocked

/-- The step is not a `ds_unblock` that reaches the count for a section
opened by the inactive exit of `ds_wait`. -/
def CountedOK (s : Sys Tid) (l : Label Tid) : Prop :=
  match (s.threads l.tid).pc with
  | .locking (.unblock name (some k)) =>
      k.pt = none → s.ds.inactive = true ∨ s.ds.lookUp name = none
  | _ => True

instance (s : Sys Tid) (l : Label Tid) : Decidable (CountedOK s l) :=
  decidable_of_iff
    ((match (s.threads l.tid).pc with
      | .locking (.unblock name (some k)) =>
          decide (k.pt = none → s.ds.inactive = true ∨ s.ds.lookUp name = none)
      | _ => true) = true)
    (by unfold CountedOK; split <;> simp only [decide_eq_true_eq])

theorem CountedOK.unblock {s : Sys Tid} {l : Label Tid} {name : CStr} {k : WaitSection}
    (h : CountedOK s l) (hpc : (s.threads l.tid).pc = .locking (.unblock name (some k)))
    (hk : k.pt = none) : s.ds.inactive = true ∨ s.ds.lookUp name = none := by
  simp only [CountedOK, hpc] at h
  exact h hk

end Debugsync

end MiscTools
