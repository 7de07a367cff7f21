import Mathlib.Logic.Function.Basic
import MiscTools.Runs

/-!
# Files that outlive their names

A file is known to the system by a number and to a process by a name. A
name can be taken off a file, by a rename or an unlink, while the file is
still open somewhere, and the file then lives on under its number. Whoever
watches the number is told: a call that takes a name off a file leaves a
note for it (`noted_of_lost`), and no call leaves a note for a file that
keeps the name (`lost_of_noted`).

The names are the entries of one directory, which is not renamed itself, and
no entry is a symbolic link. No file has two names, since there is no call
that makes a hard link. That is a field of `Files`, as is that a name leads to
a file that is there. What is in a file is never overwritten: bytes are
written at its end, and it may be cut off to nothing.
-/

namespace MiscTools

namespace Vnodes

open Function (update)

universe u v

structure Files (ν : Type u) (β : Type v) where
  content : List (List β)
  dir : ν → Option Nat
  there : ∀ {n v}, dir n = some v → v < content.length
  unique : ∀ {m n v}, dir m = some v → dir n = some v → m = n

inductive Note
  | delete
  | rename
deriving DecidableEq

/-- What a process may do to the files. -/
inductive Act (ν : Type u) (β : Type v)
  | write (v : Nat) (bytes : List β)
  | creat (n : ν) (trunc : Bool)
  | rename (src dst : ν)
  | unlink (n : ν)
deriving DecidableEq

namespace Files

variable {ν : Type u} {β : Type v}

/-- What is in a file, and nothing where there is no file. -/
def file (s : Files ν β) (v : Nat) : List β := s.content.getD v []

def setFile (s : Files ν β) (v : Nat) (bytes : List β) : Files ν β where
  content := s.content.set v bytes
  dir := s.dir
  there h := by rw [List.length_set]; exact s.there h
  unique := s.unique

theorem file_setFile (s : Files ν β) {v : Nat} (bytes : List β) (h : v < s.content.length)
    (w : Nat) : (s.setFile v bytes).file w = if w = v then bytes else s.file w := by
  unfold file setFile
  rw [List.getD_eq_getElem?_getD]
  by_cases hvw : v = w
  · rw [← hvw, List.getElem?_set_self h, if_pos rfl, Option.getD_some]
  · rw [List.getElem?_set_ne hvw, if_neg (Ne.symm hvw), List.getD_eq_getElem?_getD]

variable [DecidableEq ν]

/-- A new file of this name. -/
def create (s : Files ν β) (n : ν) (_h : s.dir n = none) : Files ν β where
  content := s.content ++ [[]]
  dir := update s.dir n (some s.content.length)
  there {m v} hv := by
    rw [List.length_append, List.length_singleton]
    rw [Function.update_apply] at hv
    split at hv
    · cases hv
      exact Nat.lt_succ_self _
    · exact Nat.lt_succ_of_lt (s.there hv)
  unique {m m' v} hv hv' := by
    rw [Function.update_apply] at hv hv'
    split at hv <;> split at hv'
    · rename_i hm hm'
      exact hm.trans hm'.symm
    · cases hv
      exact absurd (s.there hv') (Nat.lt_irrefl _)
    · cases hv'
      exact absurd (s.there hv) (Nat.lt_irrefl _)
    · exact s.unique hv hv'

def remove (s : Files ν β) (n : ν) : Files ν β where
  content := s.content
  dir := update s.dir n none
  there {m v} hv := by
    rw [Function.update_apply] at hv
    split at hv
    · cases hv
    · exact s.there hv
  unique {m m' v} hv hv' := by
    rw [Function.update_apply] at hv hv'
    split at hv
    · cases hv
    split at hv'
    · cases hv'
    exact s.unique hv hv'

/-- The file `v` of the name `src` gets the name `dst`. -/
def move (s : Files ν β) (src dst : ν) (v : Nat) (h : s.dir src = some v) : Files ν β where
  content := s.content
  dir := update (update s.dir dst (some v)) src none
  there {m w} hw := by
    rw [Function.update_apply] at hw
    split at hw
    · cases hw
    rw [Function.update_apply] at hw
    split at hw
    · cases hw
      exact s.there h
    · exact s.there hw
  unique {m m' w} hw hw' := by
    rw [Function.update_apply, Function.update_apply] at hw hw'
    split at hw
    · cases hw
    split at hw'
    · cases hw'
    rename_i hm hm'
    split at hw <;> split at hw'
    · rename_i hd hd'
      exact hd.trans hd'.symm
    · cases hw
      exact absurd (s.unique hw' h) hm'
    · cases hw'
      exact absurd (s.unique hw h) hm
    · exact s.unique hw hw'

/-- The files after a call, and the notes it leaves. A call that fails is
none at all. -/
def act (s : Files ν β) : Act ν β → Option (Files ν β × List (Nat × Note))
  | .write v bytes =>
      if v < s.content.length then some (s.setFile v (s.file v ++ bytes), []) else none
  | .creat n trunc =>
      match h : s.dir n with
      | none => some (s.create n h, [])
      | some v => some (if trunc then s.setFile v [] else s, [])
  | .rename src dst =>
      match h : s.dir src with
      | none => none
      | some v =>
          if s.dir dst = some v then some (s, [])
          else
            some (s.move src dst v h,
              (v, .rename) :: ((s.dir dst).toList.map fun w => (w, .delete)))
  | .unlink n => (s.dir n).map fun v => (s.remove n, [(v, .delete)])

/-- The ways a call can go. -/
inductive Acted (s : Files ν β) : Act ν β → Files ν β → List (Nat × Note) → Prop
  | write {v : Nat} (bytes : List β) (h : v < s.content.length) :
      Acted s (.write v bytes) (s.setFile v (s.file v ++ bytes)) []
  | create {n : ν} (trunc : Bool) (h : s.dir n = none) : Acted s (.creat n trunc) (s.create n h) []
  | trunc {n : ν} {v : Nat} (h : s.dir n = some v) : Acted s (.creat n true) (s.setFile v []) []
  | same {a : Act ν β} : Acted s a s []
  | move {src dst : ν} {v : Nat} (h : s.dir src = some v) (hdst : s.dir dst ≠ some v) :
      Acted s (.rename src dst) (s.move src dst v h)
        ((v, .rename) :: ((s.dir dst).toList.map fun w => (w, .delete)))
  | remove {n : ν} {v : Nat} (h : s.dir n = some v) :
      Acted s (.unlink n) (s.remove n) [(v, .delete)]

theorem act_cases {s s' : Files ν β} {a : Act ν β} {notes : List (Nat × Note)}
    (h : s.act a = some (s', notes)) : s.Acted a s' notes := by
  cases a with
  | write v bytes =>
      simp only [act] at h
      split at h <;> cases h
      exact .write bytes ‹_›
  | creat n trunc =>
      simp only [act] at h
      split at h <;> cases h
      · exact .create trunc _
      · cases trunc
        · exact .same
        · exact .trunc ‹_›
  | rename src dst =>
      simp only [act] at h
      split at h
      · cases h
      · split at h <;> cases h
        · exact .same
        · exact .move _ ‹_›
  | unlink n =>
      simp only [act, Option.map_eq_some_iff] at h
      obtain ⟨v, hv, hs⟩ := h
      cases hs
      exact .remove hv

/-! ## What a call does to the bytes -/

theorem file_create (s : Files ν β) {n : ν} (h : s.dir n = none) (w : Nat) :
    (s.create n h).file w = s.file w := by
  unfold file create
  rw [List.getD_eq_getElem?_getD, List.getD_eq_getElem?_getD]
  rcases Nat.lt_trichotomy w s.content.length with hw | hw | hw
  · rw [List.getElem?_append_left hw]
  · rw [hw, List.getElem?_append_right (Nat.le_refl _), List.getElem?_eq_none (Nat.le_refl _)]
    simp
  · rw [List.getElem?_eq_none (by rw [List.length_append, List.length_singleton]; omega),
      List.getElem?_eq_none (by omega)]

/-- The call cuts no file off that has bytes in it. -/
def Keeps (s : Files ν β) : Act ν β → Prop
  | .creat n true => ∀ v ∈ s.dir n, s.file v = []
  | _ => True

instance [DecidableEq β] (s : Files ν β) (a : Act ν β) : Decidable (s.Keeps a) := by
  unfold Keeps
  split <;> infer_instance

theorem act_length {s s' : Files ν β} {a : Act ν β} {notes : List (Nat × Note)}
    (h : s.act a = some (s', notes)) : s.content.length ≤ s'.content.length := by
  cases act_cases h with
  | write bytes h => exact Nat.le_of_eq List.length_set.symm
  | create trunc h => exact Nat.le_of_lt (by simp [create])
  | trunc h => exact Nat.le_of_eq List.length_set.symm
  | same => exact Nat.le_refl _
  | move h hdst => exact Nat.le_refl _
  | remove h => exact Nat.le_refl _

/-- **A file only grows.** -/
theorem act_grows {s s' : Files ν β} {a : Act ν β} {notes : List (Nat × Note)} (hkeeps : s.Keeps a)
    (h : s.act a = some (s', notes)) (v : Nat) : s.file v <+: s'.file v := by
  cases act_cases h with
  | write bytes hw =>
      rw [file_setFile s _ hw]
      split
      · rename_i hv
        rw [hv]
        exact List.prefix_append _ _
      · exact List.prefix_refl _
  | create trunc h => exact ⟨[], by rw [List.append_nil, file_create]⟩
  | trunc hw =>
      rw [file_setFile s _ (s.there hw)]
      split
      · rename_i hv
        exact ⟨[], by rw [List.append_nil, hv, hkeeps _ hw]⟩
      · exact List.prefix_refl _
  | same => exact List.prefix_refl _
  | move h hdst => exact List.prefix_refl _
  | remove h => exact List.prefix_refl _

/-! ## What a call does to the names -/

/-- A file that loses its name is noted. -/
theorem noted_of_lost {s s' : Files ν β} {a : Act ν β} {notes : List (Nat × Note)} {n : ν} {v : Nat}
    (h : s.act a = some (s', notes)) (hv : s.dir n = some v) :
    s'.dir n = some v ∨ ∃ note, (v, note) ∈ notes := by
  cases act_cases h with
  | write bytes h => exact .inl hv
  | @create m trunc hm =>
      have hne : n ≠ m := fun heq => by rw [heq, hm] at hv; cases hv
      exact .inl ((Function.update_of_ne hne _ _).trans hv)
  | trunc h => exact .inl hv
  | same => exact .inl hv
  | @move src dst w hw hdst =>
      by_cases hsrc : n = src
      · rw [hsrc, hw] at hv
        cases hv
        exact .inr ⟨.rename, List.mem_cons_self⟩
      by_cases hn : n = dst
      · refine .inr ⟨.delete, List.mem_cons_of_mem _ ?_⟩
        rw [← hn, hv]
        exact List.mem_singleton_self _
      · exact .inl ((Function.update_of_ne hsrc _ _).trans
          ((Function.update_of_ne hn _ _).trans hv))
  | @remove m w hw =>
      by_cases hm : n = m
      · rw [hm, hw] at hv
        cases hv
        exact .inr ⟨.delete, List.mem_singleton_self _⟩
      · exact .inl ((Function.update_of_ne hm _ _).trans hv)

theorem dir_move {s : Files ν β} {src dst n : ν} {v w : Nat} (h : s.dir src = some v)
    (hdst : n ≠ dst) (hn : (s.move src dst v h).dir n = some w) :
    n ≠ src ∧ s.dir n = some w := by
  simp only [move, Function.update_apply, if_neg hdst] at hn
  split at hn
  · cases hn
  · exact ⟨‹_›, hn⟩

theorem dir_remove {s : Files ν β} {m n : ν} {w : Nat} (hn : (s.remove m).dir n = some w) :
    n ≠ m ∧ s.dir n = some w := by
  simp only [remove, Function.update_apply] at hn
  split at hn
  · cases hn
  · exact ⟨‹_›, hn⟩

/-- A name that no call gives away leads to the file it led to, or to a new
one. -/
theorem dir_of_act {s s' : Files ν β} {a : Act ν β} {notes : List (Nat × Note)} {n : ν} {v : Nat}
    (hdst : ∀ src, a ≠ .rename src n) (h : s.act a = some (s', notes)) (hv : s'.dir n = some v) :
    s.dir n = some v ∨ v = s.content.length := by
  cases act_cases h with
  | write bytes h => exact .inl hv
  | create trunc h =>
      simp only [create, Function.update_apply] at hv
      split at hv
      · exact .inr (Option.some.inj hv).symm
      · exact .inl hv
  | trunc h => exact .inl hv
  | same => exact .inl hv
  | @move src dst w hw _ => exact .inl (dir_move hw (fun heq => hdst src (by rw [heq])) hv).2
  | remove h => exact .inl (dir_remove hv).2

/-- A file that is noted has no name but one that it has just been given. -/
theorem lost_of_noted {s s' : Files ν β} {a : Act ν β} {notes : List (Nat × Note)} {n : ν} {v : Nat}
    {note : Note} (hdst : ∀ src, a ≠ .rename src n) (h : s.act a = some (s', notes))
    (hnote : (v, note) ∈ notes) : s'.dir n ≠ some v := by
  intro hv
  cases act_cases h with
  | write bytes h => cases hnote
  | create trunc h => cases hnote
  | trunc h => cases hnote
  | same => cases hnote
  | @move src dst w hw _ =>
      have hne : n ≠ dst := fun heq => hdst src (by rw [heq])
      obtain ⟨hsrc, hn⟩ := dir_move hw hne hv
      rcases List.mem_cons.mp hnote with heq | hmem
      · cases heq
        exact hsrc (s.unique hn hw)
      · obtain ⟨w', hw', heq⟩ := List.mem_map.mp hmem
        cases heq
        exact hne (s.unique hn (Option.mem_toList.mp hw'))
  | @remove m w hw =>
      obtain ⟨hm, hn⟩ := dir_remove hv
      cases List.mem_singleton.mp hnote
      exact hm (s.unique hn hw)

end Files

end Vnodes

end MiscTools
