import Mathlib.Data.Fin.Basic
import Mathlib.Logic.Function.Basic
import MiscTools.CStr

/-!
# The table of debug sync points

`struct ds_global` of `debugsync.c` without its mutex and condition
variable (both live in the scheduler of `DsSys`), and the local-scope
functions over it: `inactive`, `do_activate`, `disable_all`,
`create_new`, `look_up`, `acquire`.

A `struct ds_point *` is an index into the 256-entry table, so a pointer
outside the table cannot be built. Every update of a point is one of the
four setters below, each with one lemma per field; nothing later in the
development unfolds them.

`nblocked` is a natural number: the counter is a `size_t`, and 2^64
calls would be needed to wrap it.
-/

namespace MiscTools

namespace Debugsync

def DS_MAX_POINT_NAME_LEN : Nat := 32

abbrev DS_MAX_POINT_COUNT : Nat := 256

def DS_ACTIVE : BitVec 32 := 1

def DS_GLOBAL : BitVec 32 := 2

/-- A `struct ds_point *`: the index of its entry in `ds.point`. -/
abbrev PointIdx := Fin DS_MAX_POINT_COUNT

structure DsPoint where
  name : CStr
  isEnabled : Bool
  inSyncwait : Bool
  nblocked : Nat

structure DsGlobal where
  activation : BitVec 32
  point : PointIdx → DsPoint
  count : Nat
  count_le : count ≤ DS_MAX_POINT_COUNT

/-- `ds_init`: the table is zero-filled. -/
def dsInit (activationFlags : BitVec 32) : DsGlobal where
  activation := activationFlags
  point := fun _ => ⟨⟨[], List.not_mem_nil⟩, false, false, 0⟩
  count := 0
  count_le := Nat.zero_le _

namespace DsGlobal

/-! ## Activation -/

def inactive (g : DsGlobal) : Bool := g.activation &&& DS_ACTIVE == 0

def localInactive (g : DsGlobal) : Bool :=
  g.activation &&& (DS_ACTIVE ||| DS_GLOBAL) == 0

def doActivate (g : DsGlobal) (activate : Bool) : DsGlobal :=
  { g with activation :=
      if activate then g.activation ||| DS_ACTIVE
      else g.activation &&& ~~~DS_ACTIVE }

@[simp] theorem doActivate_point (g : DsGlobal) (b : Bool) :
    (g.doActivate b).point = g.point := rfl

@[simp] theorem doActivate_count (g : DsGlobal) (b : Bool) :
    (g.doActivate b).count = g.count := rfl

/-- The early exit is only taken when the facility is inactive. -/
theorem inactive_of_localInactive {g : DsGlobal} (h : g.localInactive = true) :
    g.inactive = true := by
  simp only [localInactive, inactive, beq_iff_eq] at h ⊢
  have hsub : DS_ACTIVE = (DS_ACTIVE ||| DS_GLOBAL) &&& DS_ACTIVE := by decide
  rw [hsub, ← BitVec.and_assoc, h]
  decide

/-! ## Updates of one point -/

def modify (g : DsGlobal) (i : PointIdx) (f : DsPoint → DsPoint) : DsGlobal :=
  { g with point := Function.update g.point i (f (g.point i)) }

theorem modify_point (g : DsGlobal) (i j : PointIdx) (f : DsPoint → DsPoint) :
    (g.modify i f).point j = if j = i then f (g.point j) else g.point j := by
  by_cases h : j = i
  · subst h; simp [modify]
  · simp [modify, h]

/-- `pt->nblocked++` -/
def incBlocked (g : DsGlobal) (i : PointIdx) : DsGlobal :=
  g.modify i fun p => { p with nblocked := p.nblocked + 1 }

/-- `--pt->nblocked` -/
def decBlocked (g : DsGlobal) (i : PointIdx) : DsGlobal :=
  g.modify i fun p => { p with nblocked := p.nblocked - 1 }

/-- `pt->in_syncwait = b` -/
def setSyncwait (g : DsGlobal) (i : PointIdx) (b : Bool) : DsGlobal :=
  g.modify i fun p => { p with inSyncwait := b }

/-- `pt->is_enabled = b` -/
def setEnabled (g : DsGlobal) (i : PointIdx) (b : Bool) : DsGlobal :=
  g.modify i fun p => { p with isEnabled := b }

section Setters

variable (g : DsGlobal) (i j : PointIdx) (b : Bool)

@[simp] theorem incBlocked_count : (g.incBlocked i).count = g.count := rfl
@[simp] theorem decBlocked_count : (g.decBlocked i).count = g.count := rfl
@[simp] theorem setSyncwait_count : (g.setSyncwait i b).count = g.count := rfl
@[simp] theorem setEnabled_count : (g.setEnabled i b).count = g.count := rfl

@[simp] theorem incBlocked_inactive : (g.incBlocked i).inactive = g.inactive := rfl
@[simp] theorem decBlocked_inactive : (g.decBlocked i).inactive = g.inactive := rfl
@[simp] theorem setSyncwait_inactive : (g.setSyncwait i b).inactive = g.inactive := rfl
@[simp] theorem setEnabled_inactive : (g.setEnabled i b).inactive = g.inactive := rfl

@[simp] theorem incBlocked_name : ((g.incBlocked i).point j).name = (g.point j).name := by
  rw [incBlocked, modify_point]; split <;> rfl

@[simp] theorem decBlocked_name : ((g.decBlocked i).point j).name = (g.point j).name := by
  rw [decBlocked, modify_point]; split <;> rfl

@[simp] theorem setSyncwait_name : ((g.setSyncwait i b).point j).name = (g.point j).name := by
  rw [setSyncwait, modify_point]; split <;> rfl

@[simp] theorem setEnabled_name : ((g.setEnabled i b).point j).name = (g.point j).name := by
  rw [setEnabled, modify_point]; split <;> rfl

@[simp] theorem incBlocked_isEnabled :
    ((g.incBlocked i).point j).isEnabled = (g.point j).isEnabled := by
  rw [incBlocked, modify_point]; split <;> rfl

@[simp] theorem decBlocked_isEnabled :
    ((g.decBlocked i).point j).isEnabled = (g.point j).isEnabled := by
  rw [decBlocked, modify_point]; split <;> rfl

@[simp] theorem setSyncwait_isEnabled :
    ((g.setSyncwait i b).point j).isEnabled = (g.point j).isEnabled := by
  rw [setSyncwait, modify_point]; split <;> rfl

@[simp] theorem setEnabled_isEnabled :
    ((g.setEnabled i b).point j).isEnabled = if j = i then b else (g.point j).isEnabled := by
  rw [setEnabled, modify_point]; split <;> rfl

@[simp] theorem incBlocked_inSyncwait :
    ((g.incBlocked i).point j).inSyncwait = (g.point j).inSyncwait := by
  rw [incBlocked, modify_point]; split <;> rfl

@[simp] theorem decBlocked_inSyncwait :
    ((g.decBlocked i).point j).inSyncwait = (g.point j).inSyncwait := by
  rw [decBlocked, modify_point]; split <;> rfl

@[simp] theorem setSyncwait_inSyncwait :
    ((g.setSyncwait i b).point j).inSyncwait = if j = i then b else (g.point j).inSyncwait := by
  rw [setSyncwait, modify_point]; split <;> rfl

@[simp] theorem setEnabled_inSyncwait :
    ((g.setEnabled i b).point j).inSyncwait = (g.point j).inSyncwait := by
  rw [setEnabled, modify_point]; split <;> rfl

@[simp] theorem incBlocked_nblocked :
    ((g.incBlocked i).point j).nblocked =
      if j = i then (g.point j).nblocked + 1 else (g.point j).nblocked := by
  rw [incBlocked, modify_point]; split <;> rfl

@[simp] theorem decBlocked_nblocked :
    ((g.decBlocked i).point j).nblocked =
      if j = i then (g.point j).nblocked - 1 else (g.point j).nblocked := by
  rw [decBlocked, modify_point]; split <;> rfl

@[simp] theorem setSyncwait_nblocked :
    ((g.setSyncwait i b).point j).nblocked = (g.point j).nblocked := by
  rw [setSyncwait, modify_point]; split <;> rfl

@[simp] theorem setEnabled_nblocked :
    ((g.setEnabled i b).point j).nblocked = (g.point j).nblocked := by
  rw [setEnabled, modify_point]; split <;> rfl

end Setters

/-! ## `disable_all` -/

/-- The loop of `disable_all` over the first `n` points, and
`has_pending_waits` after them. -/
def disableAllLoop (g : DsGlobal) : Nat → DsGlobal × Bool
  | 0 => (g, false)
  | n + 1 =>
      let r := disableAllLoop g n
      if h : n < DS_MAX_POINT_COUNT then
        if (r.1.point ⟨n, h⟩).isEnabled then
          (r.1.setEnabled ⟨n, h⟩ false,
            r.2 || decide (0 < (r.1.point ⟨n, h⟩).nblocked))
        else r
      else r

/-- `disable_all`: the table after it, and whether it broadcasts. -/
def disableAll (g : DsGlobal) : DsGlobal × Bool := disableAllLoop g g.count

/-- What the loop keeps: everything but the `is_enabled` flags of the
points it has passed, and those are clear. -/
theorem disableAllLoop_spec (g : DsGlobal) : ∀ n : Nat,
    (disableAllLoop g n).1.count = g.count
      ∧ (disableAllLoop g n).1.activation = g.activation
      ∧ ∀ j, ((disableAllLoop g n).1.point j).name = (g.point j).name
        ∧ ((disableAllLoop g n).1.point j).inSyncwait = (g.point j).inSyncwait
        ∧ ((disableAllLoop g n).1.point j).nblocked = (g.point j).nblocked
        ∧ ((disableAllLoop g n).1.point j).isEnabled
          = ((g.point j).isEnabled && decide (n ≤ j.val)) := by
  intro n
  induction n with
  | zero => simp [disableAllLoop]
  | succ n ih =>
      obtain ⟨hcount, hact, hpt⟩ := ih
      simp only [disableAllLoop]
      split
      · rename_i h
        have hn := (hpt ⟨n, h⟩).2.2.2
        split
        · refine ⟨by simpa using hcount, hact, fun j => ?_⟩
          obtain ⟨h1, h2, h3, h4⟩ := hpt j
          refine ⟨by simpa using h1, by simpa using h2, by simpa using h3, ?_⟩
          rw [setEnabled_isEnabled, h4]
          by_cases hj : j = ⟨n, h⟩
          · subst hj; simp
          · have : j.val ≠ n := fun hv => hj (Fin.ext hv)
            simp only [hj, if_false]
            congr 1
            exact decide_eq_decide.mpr (by omega)
        · rename_i hoff
          refine ⟨hcount, hact, fun j => ?_⟩
          obtain ⟨h1, h2, h3, h4⟩ := hpt j
          refine ⟨h1, h2, h3, ?_⟩
          rw [h4]
          by_cases hj : j = ⟨n, h⟩
          · subst hj
            simp only [hn, Bool.not_eq_true] at hoff
            simp_all
          · have : j.val ≠ n := fun hv => hj (Fin.ext hv)
            congr 1
            exact decide_eq_decide.mpr (by omega)
      · rename_i h
        refine ⟨hcount, hact, fun j => ?_⟩
        obtain ⟨h1, h2, h3, h4⟩ := hpt j
        refine ⟨h1, h2, h3, ?_⟩
        rw [h4]
        congr 1
        exact decide_eq_decide.mpr (by have := j.isLt; omega)

theorem disableAllLoop_snd (g : DsGlobal) : ∀ n : Nat, n ≤ DS_MAX_POINT_COUNT →
    ((disableAllLoop g n).2 = true ↔
      ∃ j : PointIdx, j.val < n ∧ (g.point j).isEnabled = true ∧ 0 < (g.point j).nblocked) := by
  intro n
  induction n with
  | zero => simp [disableAllLoop]
  | succ n ih =>
      intro hle
      have ih := ih (by omega)
      obtain ⟨-, -, hpt⟩ := disableAllLoop_spec g n
      have hn : n < DS_MAX_POINT_COUNT := hle
      obtain ⟨-, -, hnb, hen⟩ := hpt ⟨n, hn⟩
      have hen' : ((disableAllLoop g n).1.point ⟨n, hn⟩).isEnabled
          = (g.point ⟨n, hn⟩).isEnabled := by simpa using hen
      have hsplit : (∃ j : PointIdx, j.val < n + 1 ∧ (g.point j).isEnabled = true
            ∧ 0 < (g.point j).nblocked) ↔
          (∃ j : PointIdx, j.val < n ∧ (g.point j).isEnabled = true
            ∧ 0 < (g.point j).nblocked)
          ∨ ((g.point ⟨n, hn⟩).isEnabled = true ∧ 0 < (g.point ⟨n, hn⟩).nblocked) := by
        constructor
        · rintro ⟨j, hj, h1, h2⟩
          rcases Nat.lt_succ_iff_lt_or_eq.mp hj with hj | hj
          · exact Or.inl ⟨j, hj, h1, h2⟩
          · obtain rfl : j = ⟨n, hn⟩ := Fin.ext hj
            exact Or.inr ⟨h1, h2⟩
        · rintro (⟨j, hj, h⟩ | h)
          · exact ⟨j, by omega, h⟩
          · exact ⟨⟨n, hn⟩, by simp, h⟩
      rw [hsplit, ← ih]
      simp only [disableAllLoop, hn, dif_pos, hen', hnb]
      split
      · rename_i hon
        simp [hon]
      · rename_i hoff
        simp [hoff]

@[simp] theorem disableAll_count (g : DsGlobal) : g.disableAll.1.count = g.count :=
  (disableAllLoop_spec g _).1

@[simp] theorem disableAll_inactive (g : DsGlobal) :
    g.disableAll.1.inactive = g.inactive := by
  rw [inactive, inactive, disableAll, (disableAllLoop_spec g _).2.1]

@[simp] theorem disableAll_name (g : DsGlobal) (j : PointIdx) :
    (g.disableAll.1.point j).name = (g.point j).name :=
  ((disableAllLoop_spec g _).2.2 j).1

@[simp] theorem disableAll_inSyncwait (g : DsGlobal) (j : PointIdx) :
    (g.disableAll.1.point j).inSyncwait = (g.point j).inSyncwait :=
  ((disableAllLoop_spec g _).2.2 j).2.1

@[simp] theorem disableAll_nblocked (g : DsGlobal) (j : PointIdx) :
    (g.disableAll.1.point j).nblocked = (g.point j).nblocked :=
  ((disableAllLoop_spec g _).2.2 j).2.2.1

@[simp] theorem disableAll_isEnabled (g : DsGlobal) (j : PointIdx) :
    (g.disableAll.1.point j).isEnabled
      = ((g.point j).isEnabled && decide (g.count ≤ j.val)) :=
  ((disableAllLoop_spec g _).2.2 j).2.2.2

/-- `disable_all` broadcasts exactly when it disables a point with
pending waits. -/
theorem disableAll_snd (g : DsGlobal) :
    g.disableAll.2 = true ↔
      ∃ j : PointIdx, j.val < g.count ∧ (g.point j).isEnabled = true
        ∧ 0 < (g.point j).nblocked :=
  disableAllLoop_snd g _ g.count_le

/-! ## `create_new`, `look_up`, `acquire` -/

/-- `create_new`; `alloc` is whether `strndup` finds memory. Points are
created enabled. -/
def createNew (g : DsGlobal) (alloc : Bool) (name : CStr) :
    Option (DsGlobal × PointIdx) :=
  if h : g.count < DS_MAX_POINT_COUNT then
    if alloc then
      some ({ g with
        point := Function.update g.point ⟨g.count, h⟩
          ⟨name.strndup DS_MAX_POINT_NAME_LEN, true, false, 0⟩
        count := g.count + 1
        count_le := h }, ⟨g.count, h⟩)
    else none
  else none

/-- The scan of `look_up` from entry `i` on, with `n` entries left. -/
def lookUpFrom (g : DsGlobal) (name : CStr) (i : Nat) : Nat → Option PointIdx
  | 0 => none
  | n + 1 =>
      if h : i < DS_MAX_POINT_COUNT then
        if name = (g.point ⟨i, h⟩).name then some ⟨i, h⟩
        else lookUpFrom g name (i + 1) n
      else none

def lookUp (g : DsGlobal) (name : CStr) : Option PointIdx := lookUpFrom g name 0 g.count

def acquire (g : DsGlobal) (alloc : Bool) (name : CStr) : Option (DsGlobal × PointIdx) :=
  match g.lookUp name with
  | some i => some (g, i)
  | none => g.createNew alloc name

theorem lookUpFrom_eq_some {g : DsGlobal} {name : CStr} {j : PointIdx} :
    ∀ {n i : Nat}, i + n ≤ DS_MAX_POINT_COUNT →
      (lookUpFrom g name i n = some j ↔
        i ≤ j.val ∧ j.val < i + n ∧ (g.point j).name = name
          ∧ ∀ k : PointIdx, i ≤ k.val → k < j → (g.point k).name ≠ name) := by
  intro n
  induction n with
  | zero =>
      intro i _
      simp only [lookUpFrom, reduceCtorEq, false_iff]
      rintro ⟨h1, h2, -⟩
      omega
  | succ n ih =>
      intro i hle
      have hi : i < DS_MAX_POINT_COUNT := by omega
      simp only [lookUpFrom, hi, dif_pos]
      by_cases hname : name = (g.point ⟨i, hi⟩).name
      · rw [if_pos hname]
        constructor
        · intro h
          obtain rfl := Option.some.inj h
          refine ⟨Nat.le_refl _, by simp, hname.symm, fun k hk hlt => ?_⟩
          exact absurd (Fin.lt_def.mp hlt) (by simpa using hk)
        · rintro ⟨h1, -, -, h4⟩
          rcases Nat.lt_or_eq_of_le h1 with hlt | heq
          · exact absurd hname.symm (h4 ⟨i, hi⟩ (Nat.le_refl _) hlt)
          · exact congrArg some (Fin.ext heq)
      · rw [if_neg hname, ih (by omega)]
        constructor
        · rintro ⟨h1, h2, h3, h4⟩
          refine ⟨by omega, by omega, h3, fun k hk hlt => ?_⟩
          rcases Nat.lt_or_eq_of_le hk with hik | hik
          · exact h4 k hik hlt
          · obtain rfl : k = ⟨i, hi⟩ := Fin.ext hik.symm
            exact fun h => hname h.symm
        · rintro ⟨h1, h2, h3, h4⟩
          have hne : j.val ≠ i := fun h => by
            obtain rfl : j = ⟨i, hi⟩ := Fin.ext h
            exact hname h3.symm
          exact ⟨by omega, by omega, h3, fun k hk => h4 k (by omega)⟩

/-- `look_up` finds the first entry of that name. -/
theorem lookUp_eq_some {g : DsGlobal} {name : CStr} {j : PointIdx} :
    g.lookUp name = some j ↔
      j.val < g.count ∧ (g.point j).name = name
        ∧ ∀ k : PointIdx, k < j → (g.point k).name ≠ name := by
  rw [lookUp, lookUpFrom_eq_some (by simpa using g.count_le)]
  simp

theorem lookUpFrom_eq_none {g : DsGlobal} {name : CStr} :
    ∀ {n i : Nat}, i + n ≤ DS_MAX_POINT_COUNT →
      (lookUpFrom g name i n = none ↔
        ∀ k : PointIdx, i ≤ k.val → k.val < i + n → (g.point k).name ≠ name) := by
  intro n
  induction n with
  | zero =>
      intro i _
      simp only [lookUpFrom, true_iff]
      intro k h1 h2
      omega
  | succ n ih =>
      intro i hle
      have hi : i < DS_MAX_POINT_COUNT := by omega
      simp only [lookUpFrom, hi, dif_pos]
      by_cases hname : name = (g.point ⟨i, hi⟩).name
      · rw [if_pos hname]
        simp only [reduceCtorEq, false_iff]
        exact fun h => h ⟨i, hi⟩ (Nat.le_refl _) (by simp) hname.symm
      · rw [if_neg hname, ih (by omega)]
        constructor
        · intro h k h1 h2
          rcases Nat.lt_or_eq_of_le h1 with hik | hik
          · exact h k hik (by omega)
          · obtain rfl : k = ⟨i, hi⟩ := Fin.ext hik.symm
            exact fun h => hname h.symm
        · exact fun h k h1 h2 => h k (by omega) (by omega)

theorem lookUp_eq_none {g : DsGlobal} {name : CStr} :
    g.lookUp name = none ↔
      ∀ k : PointIdx, k.val < g.count → (g.point k).name ≠ name := by
  rw [lookUp, lookUpFrom_eq_none (by simpa using g.count_le)]
  simp

/-- `look_up` reads only the names and the count. -/
theorem lookUp_congr {g g' : DsGlobal} (hcount : g'.count = g.count)
    (hname : ∀ j, (g'.point j).name = (g.point j).name) (name : CStr) :
    g'.lookUp name = g.lookUp name := by
  cases h : g.lookUp name with
  | none =>
      rw [lookUp_eq_none] at h ⊢
      simpa [hcount, hname] using h
  | some j =>
      rw [lookUp_eq_some] at h ⊢
      simpa [hcount, hname] using h

/-- How `acquire` gets point `i` for `name`: it is there, or it is a
fresh entry at the end of the table. -/
inductive Acquired (g : DsGlobal) (name : CStr) : DsGlobal → PointIdx → Prop
  | found {i : PointIdx} (h : g.lookUp name = some i) : Acquired g name g i
  | created {g' : DsGlobal} {i : PointIdx} (hnone : g.lookUp name = none)
      (hi : i.val = g.count) (hcount : g'.count = g.count + 1)
      (hact : g'.activation = g.activation)
      (hself : g'.point i = ⟨name.strndup DS_MAX_POINT_NAME_LEN, true, false, 0⟩)
      (hne : ∀ j, j ≠ i → g'.point j = g.point j) : Acquired g name g' i

theorem acquire_eq_some {g g' : DsGlobal} {alloc : Bool} {name : CStr} {i : PointIdx}
    (h : g.acquire alloc name = some (g', i)) : Acquired g name g' i := by
  unfold acquire at h
  split at h
  · rename_i j hj
    obtain ⟨rfl, rfl⟩ := Prod.mk.injEq .. |>.mp (Option.some.inj h)
    exact .found hj
  · rename_i hnone
    unfold createNew at h
    split at h
    · split at h
      · obtain ⟨rfl, rfl⟩ := Prod.mk.injEq .. |>.mp (Option.some.inj h)
        exact .created hnone rfl rfl rfl (by simp) (fun j hj => by simp [hj])
      · cases h
    · cases h

theorem acquire_eq_none {g : DsGlobal} {alloc : Bool} {name : CStr}
    (h : g.acquire alloc name = none) : g.lookUp name = none := by
  unfold acquire at h
  split at h
  · cases h
  · assumption

end DsGlobal

end Debugsync

end MiscTools
