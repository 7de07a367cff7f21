import Mathlib.Data.Fintype.Basic
import MiscTools.Runs

/-!
# Coroutines on threads

`coro.c` with `CORO_PTHREAD`: a coroutine is a thread, and the one that has
control holds `coro_mutex`. `coro_transfer` signals the condition variable of
the context it goes to and waits on that of the one it leaves. No flag says
who is to go on, so it is the condition variables alone that keep the
coroutines apart.

A condition variable is there from `pthread_cond_init` to
`pthread_cond_destroy`. To signal one that is not there or to wait on it is
undefined, and so is it to initialize one that is there, to destroy one while
a thread waits on it and to unlock a mutex that another thread has: no step
does that.

What this is for is a `Pool`: who has control, and who is asleep in which
context. Each state of the threads stands for a pool (`Rep`), with the number
of steps of the threads until the one that has control runs. The wake-ups and
the new threads may come in any order; where no wake-up is spurious and the
calls are ones the pool can make, the threads do what the pool does
(`pool_keeps`).

Left out: `pthread_testcancel` of FreeBSD, the attributes of a thread, and a
`pthread_create` that fails, which `coro_create` does not notice.
-/

namespace MiscTools

namespace CoroPthread

open Runs

/-! ## The threads -/

section

variable (κ τ : Type)

/-- Where a thread is. A condition variable is that of a context, or that of
`nctx` (`none`). -/
inductive Pc
  | absent
  /-- in `coro_init`, before it locks the mutex -/
  | starting (self : κ)
  | running
  /-- in `coro_transfer`, before `pthread_cond_signal` -/
  | transferring (prev next : Option κ)
  /-- in `coro_transfer`, before `pthread_cond_wait` -/
  | signalled (prev : Option κ)
  | waiting (cv : Option κ)
  /-- about to lock the mutex again -/
  | relocking
  /-- in `coro_destroy`, after `pthread_cancel` -/
  | cancelling (ctx : κ) (id : τ)
  /-- in `coro_destroy`, before `pthread_join` returns -/
  | joining (ctx : κ) (id : τ)
  /-- in `coro_destroy`, about to lock the mutex again -/
  | reaping (ctx : κ)
  /-- in `coro_destroy`, before `pthread_cond_destroy` -/
  | closing (ctx : κ)
  /-- out of `pthread_cond_wait` by cancellation, about to lock the mutex -/
  | cancelled
  /-- before the unlock of `mutex_unlock_wrapper` -/
  | cleaning
  | ended
  | joined
deriving DecidableEq

structure Sys where
  mutex : Option τ
  once : Bool
  /-- `id` of a context that has been created: `none` is `null_tid` -/
  id : κ → Option (Option τ)
  /-- The condition variable of a context is there. -/
  cvs : κ → Bool
  pcs : τ → Pc κ τ

inductive Act
  /-- `coro_create`, with the thread it starts if `coro` is not null -/
  | create (ctx : κ) (new : Option τ)
  | transfer (prev next : κ)
  | destroy (ctx : κ)
  /-- the function of the coroutine returns -/
  | finish
  /-- `pthread_cond_signal`, with the thread it wakes -/
  | signal (woken : Option τ)
  | wait
  | lock
  | unlock
  | join
  | condDestroy
  | spurious
deriving DecidableEq

structure Label where
  tid : τ
  act : Act κ τ

end

variable {κ τ : Type}

section

variable [DecidableEq κ] [DecidableEq τ]

/-- The first thread, before it has created a coroutine. -/
def Sys.init (main : τ) : Sys κ τ where
  mutex := none
  once := false
  id := fun _ => none
  cvs := fun _ => false
  pcs := Function.update (fun _ => .absent) main .running

def Sys.put (s : Sys κ τ) (t : τ) (pc : Pc κ τ) : Sys κ τ :=
  { s with pcs := Function.update s.pcs t pc }

/-- The condition variable is there; that of `nctx` is from the first
`coro_create` on. -/
def Sys.alive (s : Sys κ τ) : Option κ → Bool
  | some c => s.cvs c
  | none => s.once

/-- `coro_create` up to its `coro_transfer`. The first call locks the mutex
for good. -/
def Sys.create (s : Sys κ τ) (t : τ) (ctx : κ) (new : Option τ) : Option (Sys κ τ) :=
  let s₁ := if s.once then s else { s with mutex := some t, once := true }
  let s₂ := { s₁ with
    id := Function.update s.id ctx (some new)
    cvs := Function.update s.cvs ctx true }
  if s.cvs ctx ∨ s.once = false ∧ s.mutex ≠ none then none
  else
    match new with
    | none => some s₂
    | some u =>
        if s.pcs u = .absent then
          some ((s₂.put u (.starting ctx)).put t (.transferring none (some ctx)))
        else none

/-- `coro_destroy` up to its `pthread_mutex_unlock`, or up to its
`pthread_cond_destroy`. A thread is cancelled while it is asleep; one that has
ended is only joined. -/
def Sys.destroy (s : Sys κ τ) (t : τ) (ctx : κ) : Option (Sys κ τ) :=
  match s.id ctx with
  | none => none
  | some none => some (s.put t (.closing ctx))
  | some (some u) =>
      match s.pcs u with
      | .waiting _ => some ((s.put u .cancelled).put t (.cancelling ctx u))
      | .ended => some (s.put t (.cancelling ctx u))
      | _ => none

/-- A signal wakes one of the threads that wait, if there is one. -/
def Sys.signal [Fintype τ] (s : Sys κ τ) (cv : Option κ) (woken : Option τ) : Option (Sys κ τ) :=
  if s.alive cv then
    match woken with
    | some u => if s.pcs u = .waiting cv then some (s.put u .relocking) else none
    | none => if ∃ u, s.pcs u = .waiting cv then none else some s
  else none

/-- `pthread_cond_destroy`. -/
def Sys.condDestroy [Fintype τ] (s : Sys κ τ) (ctx : κ) : Option (Sys κ τ) :=
  if s.cvs ctx ∧ ¬∃ u, s.pcs u = .waiting (some ctx) then
    some { s with cvs := Function.update s.cvs ctx false }
  else none

/-- One step of a thread. The mutex is taken only where it is free, and left
only by the one that has it. -/
def step [Fintype τ] (main : τ) (s : Sys κ τ) (l : Label κ τ) : Option (Sys κ τ) :=
  match l.act, s.pcs l.tid with
  | .create ctx new, .running => s.create l.tid ctx new
  | .transfer prev next, .running =>
      some (s.put l.tid (.transferring (some prev) (some next)))
  | .destroy ctx, .running => s.destroy l.tid ctx
  | .finish, .running => if l.tid = main then none else some (s.put l.tid .cleaning)
  | .signal woken, .transferring prev next =>
      (s.signal next woken).map fun s₁ => s₁.put l.tid (.signalled prev)
  | .wait, .signalled prev =>
      if s.alive prev ∧ s.mutex = some l.tid then
        some { s.put l.tid (.waiting prev) with mutex := none }
      else none
  | .lock, .starting self =>
      if s.mutex = none then
        some { s.put l.tid (.transferring (some self) none) with mutex := some l.tid }
      else none
  | .lock, .relocking =>
      if s.mutex = none then some { s.put l.tid .running with mutex := some l.tid } else none
  | .lock, .cancelled =>
      if s.mutex = none then some { s.put l.tid .cleaning with mutex := some l.tid } else none
  | .lock, .reaping ctx =>
      if s.mutex = none then some { s.put l.tid (.closing ctx) with mutex := some l.tid } else none
  | .unlock, .cleaning =>
      if s.mutex = some l.tid then some { s.put l.tid .ended with mutex := none } else none
  | .unlock, .cancelling ctx u =>
      if s.mutex = some l.tid then some { s.put l.tid (.joining ctx u) with mutex := none }
      else none
  | .join, .joining ctx u =>
      if s.pcs u = .ended then some ((s.put u .joined).put l.tid (.reaping ctx)) else none
  | .condDestroy, .closing ctx => (s.condDestroy ctx).map fun s₁ => s₁.put l.tid .running
  | .spurious, .waiting _ => some (s.put l.tid .relocking)
  | _, _ => none

/-! ## The pool -/

/-- Who has control, and who is asleep in which context. `none` has control
when a coroutine has ended. -/
structure Pool (κ τ : Type) where
  current : Option τ
  asleep : κ → Option τ
  /-- The contexts there are, with the coroutine that each was created for. -/
  id : κ → Option (Option τ)

/-- The calls of the program. -/
inductive Op (κ τ : Type)
  | create (ctx : κ) (new : Option τ)
  | transfer (prev next : κ)
  | destroy (ctx : κ)
  | finish

def Pool.init (main : τ) : Pool κ τ where
  current := some main
  asleep := fun _ => none
  id := fun _ => none

/-- What a call does, where it may be made: a context is created that is not
there, a coroutine leaves to one that is there and has nobody asleep in it
and goes to one that has, and a context is destroyed with the coroutine of
its own asleep in it or, if it has none, with nobody. -/
def Pool.step (main : τ) (p : Pool κ τ) : Op κ τ → Option (Pool κ τ)
  | .create ctx new =>
      if p.current.isSome ∧ p.id ctx = none then
        some { p with
          asleep := Function.update p.asleep ctx new
          id := Function.update p.id ctx (some new) }
      else none
  | .transfer prev next =>
      if p.current.isSome ∧ (p.id prev).isSome ∧ p.asleep prev = none ∧
          (p.asleep next).isSome then
        some { p with
          current := p.asleep next
          asleep := Function.update (Function.update p.asleep next none) prev p.current }
      else none
  | .destroy ctx =>
      match p.id ctx with
      | none => none
      | some new =>
          if p.current.isSome ∧ p.asleep ctx = new then
            some { p with
              asleep := Function.update p.asleep ctx none
              id := Function.update p.id ctx none }
          else none
  | .finish =>
      if p.current.isSome ∧ p.current ≠ some main then some { p with current := none } else none

/-- The call a step begins, if it begins one. -/
def Act.op : Act κ τ → Option (Op κ τ)
  | .create ctx new => some (.create ctx new)
  | .transfer prev next => some (.transfer prev next)
  | .destroy ctx => some (.destroy ctx)
  | .finish => some .finish
  | _ => none

end

/-! ## The pool a state stands for -/

/-- The thread neither has control nor is on its way to it: it does not run
at all, or is asleep in its context. -/
def Rests (s : Sys κ τ) (p : Pool κ τ) (v : τ) : Prop :=
  ((s.pcs v = .absent ∨ s.pcs v = .ended ∨ s.pcs v = .joined) ∧ ∀ c, p.asleep c ≠ some v) ∨
    ∃ c, s.pcs v = .waiting (some c) ∧ p.asleep c = some v

/-- How far the threads are with the last call: the context that is being
destroyed, if one is, and the number of steps until the one that has control
runs. -/
inductive Phase (main : τ) (s : Sys κ τ) (p : Pool κ τ) : Option κ → Nat → Prop
  | run {t : τ} (ht : s.pcs t = .running)
      (hm : s.mutex = some t ∨ s.once = false ∧ t = main ∧ ∀ c, p.id c = none)
      (hcur : p.current = some t) (hrest : ∀ v, v ≠ t → Rests s p v) : Phase main s p none 0
  | dead (hm : s.mutex = none) (hcur : p.current = none) (hrest : ∀ v, Rests s p v) :
      Phase main s p none 0
  | back {t : τ} (ht : s.pcs t = .relocking) (hm : s.mutex = none) (hcur : p.current = some t)
      (hrest : ∀ v, v ≠ t → Rests s p v) : Phase main s p none 1
  /-- `a` leaves to `prev`, `b` is the one it has woken -/
  | handed {a b : τ} {prev : κ} (ha : s.pcs a = .signalled (some prev)) (hb : s.pcs b = .relocking)
      (hm : s.mutex = some a) (hcur : p.current = some b) (hslot : p.asleep prev = some a)
      (hrest : ∀ v, v ≠ a → v ≠ b → Rests s p v) : Phase main s p none 2
  | hand {a b : τ} {prev : κ} {cv : Option κ} (ha : s.pcs a = .transferring (some prev) cv)
      (hb : s.pcs b = .waiting cv) (hcv : s.alive cv = true) (hm : s.mutex = some a)
      (hcur : p.current = some b) (hslot : p.asleep prev = some a)
      (hfree : ∀ c, cv = some c → p.asleep c = none)
      (hrest : ∀ v, v ≠ a → v ≠ b → Rests s p v) : Phase main s p none 3
  /-- `t` creates the coroutine `u` in `ctx` -/
  | created {t u : τ} {ctx : κ} (ht : s.pcs t = .waiting none) (hu : s.pcs u = .starting ctx)
      (honce : s.once = true) (hm : s.mutex = none) (hcur : p.current = some t)
      (hslot : p.asleep ctx = some u)
      (hrest : ∀ v, v ≠ t → v ≠ u → Rests s p v) : Phase main s p none 4
  | creating {t u : τ} {ctx : κ} (ht : s.pcs t = .signalled none) (hu : s.pcs u = .starting ctx)
      (honce : s.once = true) (hm : s.mutex = some t) (hcur : p.current = some t)
      (hslot : p.asleep ctx = some u)
      (hrest : ∀ v, v ≠ t → v ≠ u → Rests s p v) : Phase main s p none 5
  | create {t u : τ} {ctx : κ} (ht : s.pcs t = .transferring none (some ctx))
      (hu : s.pcs u = .starting ctx) (honce : s.once = true) (hm : s.mutex = some t)
      (hcur : p.current = some t) (hslot : p.asleep ctx = some u)
      (hrest : ∀ v, v ≠ t → v ≠ u → Rests s p v) : Phase main s p none 6
  /-- `t` destroys `ctx` -/
  | closing {t : τ} {ctx : κ} (ht : s.pcs t = .closing ctx) (hm : s.mutex = some t)
      (hcur : p.current = some t) (hgone : p.id ctx = none)
      (hrest : ∀ v, v ≠ t → Rests s p v) : Phase main s p (some ctx) 1
  | reaping {t : τ} {ctx : κ} (ht : s.pcs t = .reaping ctx) (hm : s.mutex = none)
      (hcur : p.current = some t) (hgone : p.id ctx = none)
      (hrest : ∀ v, v ≠ t → Rests s p v) : Phase main s p (some ctx) 2
  /-- `t` destroys `ctx` and with it the coroutine `u` -/
  | reaped {t u : τ} {ctx : κ} (ht : s.pcs t = .joining ctx u) (hu : s.pcs u = .ended)
      (hm : s.mutex = none) (hcur : p.current = some t) (hgone : p.id ctx = none)
      (hout : ∀ c, p.asleep c ≠ some u)
      (hrest : ∀ v, v ≠ t → v ≠ u → Rests s p v) : Phase main s p (some ctx) 3
  | leaving {t u : τ} {ctx : κ} (ht : s.pcs t = .joining ctx u) (hu : s.pcs u = .cleaning)
      (hm : s.mutex = some u) (hcur : p.current = some t) (hgone : p.id ctx = none)
      (hout : ∀ c, p.asleep c ≠ some u)
      (hrest : ∀ v, v ≠ t → v ≠ u → Rests s p v) : Phase main s p (some ctx) 4
  | cancelled {t u : τ} {ctx : κ} (ht : s.pcs t = .joining ctx u) (hu : s.pcs u = .cancelled)
      (hm : s.mutex = none) (hcur : p.current = some t) (hgone : p.id ctx = none)
      (hout : ∀ c, p.asleep c ≠ some u)
      (hrest : ∀ v, v ≠ t → v ≠ u → Rests s p v) : Phase main s p (some ctx) 5
  | destroy {t u : τ} {ctx : κ} (ht : s.pcs t = .cancelling ctx u) (hu : s.pcs u = .cancelled)
      (hm : s.mutex = some t) (hcur : p.current = some t) (hgone : p.id ctx = none)
      (hout : ∀ c, p.asleep c ≠ some u)
      (hrest : ∀ v, v ≠ t → v ≠ u → Rests s p v) : Phase main s p (some ctx) 6
  /-- the function of `t` has returned -/
  | finish {t : τ} (ht : s.pcs t = .cleaning) (hm : s.mutex = some t) (hcur : p.current = none)
      (hout : ∀ c, p.asleep c ≠ some t) (hrest : ∀ v, v ≠ t → Rests s p v) :
      Phase main s p none 1

/-- No coroutine is in two places, and each is asleep in a context there is. -/
structure Pool.Sound (p : Pool κ τ) : Prop where
  once : ∀ {c c' v}, p.asleep c = some v → p.asleep c' = some v → c = c'
  awake : ∀ {t}, p.current = some t → ∀ c, p.asleep c ≠ some t
  there : ∀ {c v}, p.asleep c = some v → (p.id c).isSome

/-- The condition variables that are there are those of the contexts there
are, and of the one that is being destroyed. -/
def Cvs (s : Sys κ τ) (p : Pool κ τ) (d : Option κ) : Prop :=
  ∀ c, s.cvs c = true ↔ (p.id c).isSome ∨ d = some c

structure Rep (main : τ) (s : Sys κ τ) (p : Pool κ τ) (n : Nat) : Prop where
  sound : p.Sound
  id : ∀ {c new}, p.id c = some new → s.id c = some new
  phase : ∃ d, Phase main s p d n ∧ Cvs s p d

section

variable {main : τ} {s s' : Sys κ τ} {p p' : Pool κ τ} {t u v : τ}

theorem ne_of_pcs {pc pc' : Pc κ τ} (ht : s.pcs t = pc) (hu : s.pcs u = pc') (hne : pc ≠ pc') :
    t ≠ u := by
  rintro rfl
  exact hne (ht.symm.trans hu)

theorem Rests.congr (h : Rests s p v) (hpc : s'.pcs v = s.pcs v)
    (hp : ∀ c, p'.asleep c = some v ↔ p.asleep c = some v) : Rests s' p' v := by
  rcases h with ⟨hgone, hout⟩ | ⟨c, hw, hc⟩
  · exact .inl ⟨hpc ▸ hgone, fun c hc => hout c ((hp c).mp hc)⟩
  · exact .inr ⟨c, hpc.trans hw, (hp c).mpr hc⟩

/-- A thread that the step does not touch rests on. -/
theorem Rests.kept (h : Rests s p v) (hpc : s'.pcs v = s.pcs v) : Rests s' p v :=
  h.congr hpc fun _ => Iff.rfl

theorem Rests.not_waiting {cv : Option κ} (h : Rests s p v)
    (hfree : ∀ c, cv = some c → p.asleep c ≠ some v) : s.pcs v ≠ .waiting cv := by
  intro hw
  rcases h with ⟨hgone, -⟩ | ⟨c, hc, hslot⟩
  · rw [hw] at hgone
    rcases hgone with h | h | h <;> cases h
  · exact hfree c (Pc.waiting.inj (hw.symm.trans hc)) hslot

/-- A coroutine that is created does not wait yet. -/
theorem none_waits {ctx : κ} (ht : s.pcs t = .transferring none (some ctx))
    (hu : s.pcs u = .starting ctx) (hslot : p.asleep ctx = some u)
    (hrest : ∀ v, v ≠ t → v ≠ u → Rests s p v) (v : τ) : s.pcs v ≠ .waiting (some ctx) := by
  intro hv
  have hvt : v ≠ t := ne_of_pcs hv ht (by simp)
  have hvu : v ≠ u := ne_of_pcs hv hu (by simp)
  refine (hrest v hvt hvu).not_waiting (fun c hc hslot' => hvu ?_) hv
  obtain rfl := Option.some.inj hc
  exact Option.some.inj (hslot'.symm.trans hslot)

theorem Rests.not_running (h : Rests s p v) : s.pcs v ≠ .running := by
  intro hv
  rcases h with ⟨hgone, -⟩ | ⟨c, hc, -⟩
  · rw [hv] at hgone
    rcases hgone with h | h | h <;> cases h
  · rw [hv] at hc
    cases hc

/-- A thread that runs has control, and all others rest. -/
theorem Phase.running {d : Option κ} {n : Nat} (h : Phase main s p d n)
    (hv : s.pcs v = .running) :
    d = none ∧ n = 0 ∧ p.current = some v ∧
      (s.mutex = some v ∨ s.once = false ∧ v = main ∧ ∀ c, p.id c = none) ∧
        ∀ u, u ≠ v → Rests s p u := by
  have hone : ∀ {t}, s.pcs t ≠ .running → (∀ u, u ≠ t → Rests s p u) → False := by
    intro t ht hrest
    have hne : v ≠ t := fun h => ht (h ▸ hv)
    exact (hrest v hne).not_running hv
  have htwo : ∀ {t u}, s.pcs t ≠ .running → s.pcs u ≠ .running →
      (∀ w, w ≠ t → w ≠ u → Rests s p w) → False := by
    intro t u ht hu hrest
    have hne : v ≠ t := fun h => ht (h ▸ hv)
    have hne' : v ≠ u := fun h => hu (h ▸ hv)
    exact (hrest v hne hne').not_running hv
  cases h with
  | @run t ht hm hcur hrest =>
      by_cases hvt : v = t
      · subst hvt
        exact ⟨rfl, rfl, hcur, hm, hrest⟩
      · exact absurd hv (hrest v hvt).not_running
  | dead hm hcur hrest => exact absurd hv (hrest v).not_running
  | back ht hm hcur hrest => exact (hone (by simp [ht]) hrest).elim
  | handed ha hb hm hcur hslot hrest => exact (htwo (by simp [ha]) (by simp [hb]) hrest).elim
  | hand ha hb _ hm hcur hslot hfree hrest =>
      exact (htwo (by simp [ha]) (by simp [hb]) hrest).elim
  | created ht hu _ hm hcur hslot hrest => exact (htwo (by simp [ht]) (by simp [hu]) hrest).elim
  | creating ht hu _ hm hcur hslot hrest => exact (htwo (by simp [ht]) (by simp [hu]) hrest).elim
  | create ht hu _ hm hcur hslot hrest => exact (htwo (by simp [ht]) (by simp [hu]) hrest).elim
  | closing ht hm hcur hgone hrest => exact (hone (by simp [ht]) hrest).elim
  | reaping ht hm hcur hgone hrest => exact (hone (by simp [ht]) hrest).elim
  | reaped ht hu hm hcur hgone hout hrest =>
      exact (htwo (by simp [ht]) (by simp [hu]) hrest).elim
  | leaving ht hu hm hcur hgone hout hrest =>
      exact (htwo (by simp [ht]) (by simp [hu]) hrest).elim
  | cancelled ht hu hm hcur hgone hout hrest =>
      exact (htwo (by simp [ht]) (by simp [hu]) hrest).elim
  | destroy ht hu hm hcur hgone hout hrest =>
      exact (htwo (by simp [ht]) (by simp [hu]) hrest).elim
  | finish ht hm hcur hout hrest => exact (hone (by simp [ht]) hrest).elim

/-- A coroutine that is asleep waits in its context. -/
theorem Rests.waits (h : Rests s p u) (hp : p.Sound) {c : κ} (hu : p.asleep c = some u) :
    s.pcs u = .waiting (some c) := by
  rcases h with ⟨-, hout⟩ | ⟨c', hw, hslot⟩
  · exact absurd hu (hout c)
  · rw [hw, hp.once hslot hu]

/-- The condition variable of a context somebody is asleep in is there. -/
theorem Cvs.alive {d : Option κ} (h : Cvs s p d) (hp : p.Sound) {c : κ}
    (hc : p.asleep c = some u) : s.alive (some c) = true :=
  (h c).mpr (.inl (hp.there hc))

end

section

variable [DecidableEq τ] {s : Sys κ τ} {t v : τ}

@[simp] theorem Sys.put_self (pc : Pc κ τ) : (s.put t pc).pcs t = pc := by
  simp [Sys.put]

theorem Sys.put_ne {pc : Pc κ τ} (h : v ≠ t) : (s.put t pc).pcs v = s.pcs v := by
  simp [Sys.put, h]

end

/-! ## The calls -/

section

variable [DecidableEq κ] {main : τ} {s s' : Sys κ τ} {p p' : Pool κ τ} {t v : τ}

/-- A coroutine that is awake falls asleep. -/
theorem Pool.Sound.sleeps (h : p.Sound) {c : κ} (hout : ∀ c, p.asleep c ≠ some t)
    (hslots : p'.asleep = Function.update p.asleep c (some t))
    (hid : ∀ c', c' = c ∨ (p.id c').isSome → (p'.id c').isSome)
    (hcur : ∀ v, p'.current = some v → v ≠ t ∧ ∀ c, p.asleep c ≠ some v) : p'.Sound := by
  constructor
  · intro c₁ c₂ v h₁ h₂
    rw [hslots, Function.update_apply] at h₁ h₂
    split_ifs at h₁ h₂ with hc₁ hc₂ hc₂
    · rw [hc₁, hc₂]
    · exact absurd (h₂.trans h₁.symm) (hout c₂)
    · exact absurd (h₁.trans h₂.symm) (hout c₁)
    · exact h.once h₁ h₂
  · intro v hv c₁ h₁
    obtain ⟨hne, hnone⟩ := hcur v hv
    rw [hslots, Function.update_apply] at h₁
    split_ifs at h₁ with hc₁
    · exact hne (Option.some.inj h₁).symm
    · exact hnone c₁ h₁
  · intro c₁ v h₁
    rw [hslots, Function.update_apply] at h₁
    split_ifs at h₁ with hc₁
    · exact hid c₁ (.inl hc₁)
    · exact hid c₁ (.inr (h.there h₁))

/-- The coroutine in a context is taken out of it. -/
theorem Pool.Sound.wakes (h : p.Sound) {c : κ}
    (hslots : p'.asleep = Function.update p.asleep c none)
    (hid : ∀ c', c' ≠ c → (p.id c').isSome → (p'.id c').isSome)
    (hcur : ∀ v, p'.current = some v → p.current = some v ∨ p.asleep c = some v) : p'.Sound := by
  have hsub : ∀ {c₁ v}, p'.asleep c₁ = some v → c₁ ≠ c ∧ p.asleep c₁ = some v := by
    intro c₁ v h₁
    rw [hslots, Function.update_apply] at h₁
    split_ifs at h₁ with hc₁
    exact ⟨hc₁, h₁⟩
  constructor
  · exact fun h₁ h₂ => h.once (hsub h₁).2 (hsub h₂).2
  · intro v hv c₁ h₁
    obtain ⟨hne, h₁⟩ := hsub h₁
    rcases hcur v hv with hv | hv
    · exact h.awake hv c₁ h₁
    · exact hne (h.once h₁ hv)
  · intro c₁ v h₁
    obtain ⟨hne, h₁⟩ := hsub h₁
    exact hid c₁ hne (h.there h₁)

variable [DecidableEq τ]

/-- A coroutine is created: it is in its context, and its thread starts. -/
theorem Rep.create {n : Nat} {ctx : κ} {new : Option τ} (h : Rep main s p n)
    (ht : s.pcs t = .running) (hs : s.create t ctx new = some s')
    (hp : p.step main (.create ctx new) = some p') : ∃ m ≤ 6, Rep main s' p' m := by
  obtain ⟨d, hphase, hcvs⟩ := h.phase
  obtain ⟨rfl, rfl, hcur, hm, hrest⟩ := hphase.running ht
  simp only [Pool.step] at hp
  split at hp
  case isFalse => cases hp
  rename_i hok
  obtain rfl := Option.some.inj hp
  have hslot : p.asleep ctx = none := by
    by_contra hne
    obtain ⟨v, hv⟩ := Option.ne_none_iff_exists'.mp hne
    have hthere := h.sound.there hv
    rw [hok.2] at hthere
    cases hthere
  -- from the first call on, the thread that runs holds the mutex
  have hheld : (if s.once then s else { s with mutex := some t, once := true }).mutex = some t := by
    split
    · rename_i honce
      rcases hm with hm | ⟨hoff, -⟩
      · exact hm
      · rw [honce] at hoff
        cases hoff
    · rfl
  have honce : (if s.once then s else { s with mutex := some t, once := true }).once = true := by
    split
    · assumption
    · rfl
  have hid : ∀ {c new'}, Function.update p.id ctx (some new) c = some new' →
      Function.update s.id ctx (some new) c = some new' := by
    intro c new' hc
    by_cases hcc : c = ctx
    · subst hcc
      rwa [Function.update_self] at hc ⊢
    · rw [Function.update_of_ne hcc] at hc ⊢
      exact h.id hc
  have hopen : ∀ c, Function.update s.cvs ctx true c = true ↔
      (Function.update p.id ctx (some new) c).isSome ∨ none = some c := by
    intro c
    by_cases hcc : c = ctx
    · subst hcc
      simp
    · rw [Function.update_of_ne hcc, Function.update_of_ne hcc]
      exact hcvs c
  simp only [Sys.create] at hs
  obtain ⟨-, hs⟩ := Option.ite_none_left_eq_some.mp hs
  cases new with
  | none =>
      obtain rfl := Option.some.inj hs
      have hsame : Function.update p.asleep ctx none = p.asleep := by
        rw [← hslot, Function.update_eq_self]
      refine ⟨0, Nat.zero_le _, ⟨?_, hid, none, .run (t := t) ?_ (.inl hheld) hcur
        fun v hv => ?_, hopen⟩⟩
      · refine ⟨fun h₁ h₂ => h.sound.once (hsame ▸ h₁) (hsame ▸ h₂),
          fun hv c hc => h.sound.awake hv c (hsame ▸ hc), fun {c v} hc => ?_⟩
        have hthere := h.sound.there (hsame ▸ hc)
        show (Function.update p.id ctx (some none) c).isSome
        rw [Function.update_apply]
        split_ifs
        · rfl
        · exact hthere
      · split <;> exact ht
      · exact (hrest v hv).congr (by split <;> rfl) fun c => by simp only [hsame]
  | some u =>
      obtain ⟨hu, hs⟩ := Option.ite_none_right_eq_some.mp hs
      obtain rfl := Option.some.inj hs
      have hut : u ≠ t := ne_of_pcs hu ht (by simp)
      have hout : ∀ c, p.asleep c ≠ some u := fun c hc => by
        rw [(hrest u hut).waits h.sound hc] at hu
        cases hu
      refine ⟨6, Nat.le_refl _, ⟨?_, hid, none, .create (t := t) (u := u) (Sys.put_self _) ?_ honce
        hheld hcur (Function.update_self ..) fun v hvt hvu => ?_, hopen⟩⟩
      · refine h.sound.sleeps hout rfl (fun c hc => ?_) fun v hv => ⟨?_, h.sound.awake hv⟩
        · show (Function.update p.id ctx (some (some u)) c).isSome
          rw [Function.update_apply]
          split_ifs with hcc
          · rfl
          · exact hc.resolve_left hcc
        · rintro rfl
          exact hut (Option.some.inj (hv.symm.trans hcur))
      · rw [Sys.put_ne hut, Sys.put_self]
      · refine (hrest v hvt).congr ?_ fun c => ?_
        · rw [Sys.put_ne hvt, Sys.put_ne hvu]
          split <;> rfl
        · by_cases hc : c = ctx
          · subst hc
            simp [hslot, Ne.symm hvu]
          · simp only [Function.update_of_ne hc]

/-- The one that calls falls asleep in `prev`, the one in `next` has control. -/
theorem Rep.transfer {n : Nat} {prev next : κ} (h : Rep main s p n) (ht : s.pcs t = .running)
    (hp : p.step main (.transfer prev next) = some p') :
    ∃ m ≤ 6, Rep main (s.put t (.transferring (some prev) (some next))) p' m := by
  obtain ⟨d, hphase, hcvs⟩ := h.phase
  obtain ⟨rfl, rfl, hcur, hm, hrest⟩ := hphase.running ht
  simp only [Pool.step] at hp
  split at hp
  case isFalse => cases hp
  rename_i hok
  obtain rfl := Option.some.inj hp
  obtain ⟨-, hthere, hprev, hnext⟩ := hok
  obtain ⟨u, hu⟩ := Option.isSome_iff_exists.mp hnext
  have hut : u ≠ t := fun he => h.sound.awake hcur next (he ▸ hu)
  have hne : next ≠ prev := fun he => by rw [he, hprev] at hu; cases hu
  have hwoken : Pool.Sound
      { p with current := p.asleep next, asleep := Function.update p.asleep next none } :=
    h.sound.wakes rfl (fun _ _ hc => hc) fun v hv => .inr hv
  refine ⟨3, by omega, ⟨?_, h.id, none, .hand (Sys.put_self _) (b := u) ?_ ?_ ?_ hu ?_
    (fun c hc => ?_) fun v hvt hvu => ?_, hcvs⟩⟩
  · refine hwoken.sleeps (t := t) (c := prev) (fun c hc => ?_) (by rw [← hcur]) (fun c hc => ?_)
      fun v hv => ⟨?_, hwoken.awake hv⟩
    · simp only [Function.update_apply] at hc
      split_ifs at hc
      exact h.sound.awake hcur c hc
    · rcases hc with rfl | hc
      · exact hthere
      · exact hc
    · rintro rfl
      exact hut (Option.some.inj (hu.symm.trans hv))
  · rw [Sys.put_ne hut]
    exact (hrest u hut).waits h.sound hu
  · exact (hcvs next).mpr (.inl (h.sound.there hu))
  · rcases hm with hm | ⟨-, -, hnone⟩
    · exact hm
    · rw [hnone prev] at hthere
      cases hthere
  · rw [← hcur]
    exact Function.update_self ..
  · obtain rfl := Option.some.inj hc
    show Function.update (Function.update p.asleep next none) prev p.current next = none
    rw [Function.update_of_ne hne, Function.update_self]
  · refine (hrest v hvt).congr (Sys.put_ne hvt) fun c => ?_
    by_cases hc : c = prev
    · subst hc
      simp [hcur, hprev, Ne.symm hvt]
    · by_cases hc' : c = next
      · subst hc'
        simp [hc, hu, Ne.symm hvu]
      · simp only [Function.update_of_ne hc, Function.update_of_ne hc']

/-- A context is destroyed, and with it the coroutine that is asleep in it. -/
theorem Rep.destroy {n : Nat} {ctx : κ} (h : Rep main s p n) (ht : s.pcs t = .running)
    (hs : s.destroy t ctx = some s') (hp : p.step main (.destroy ctx) = some p') :
    ∃ m ≤ 6, Rep main s' p' m := by
  obtain ⟨d, hphase, hcvs⟩ := h.phase
  obtain ⟨rfl, rfl, hcur, hm, hrest⟩ := hphase.running ht
  simp only [Pool.step] at hp
  split at hp
  case h_1 => cases hp
  rename_i new hid
  split at hp
  case isFalse => cases hp
  rename_i hok
  obtain rfl := Option.some.inj hp
  have hheld : s.mutex = some t := by
    rcases hm with hm | ⟨-, -, hnone⟩
    · exact hm
    · rw [hnone ctx] at hid
      cases hid
  have hsound : Pool.Sound
      { p with asleep := Function.update p.asleep ctx none, id := Function.update p.id ctx none } :=
    h.sound.wakes rfl (fun c hc hsome => by simpa [Function.update_of_ne hc] using hsome)
      fun v hv => .inl hv
  have hids : ∀ {c new'}, Function.update p.id ctx none c = some new' → s.id c = some new' := by
    intro c new' hc
    rw [Function.update_apply] at hc
    split_ifs at hc
    exact h.id hc
  have hopen : ∀ c, s.cvs c = true ↔
      (Function.update p.id ctx none c).isSome ∨ some ctx = some c := by
    intro c
    rw [hcvs c]
    by_cases hc : c = ctx
    · subst hc
      simp [hid]
    · simp [Function.update_of_ne hc, Ne.symm hc]
  rw [Sys.destroy, h.id hid] at hs
  cases new with
  | none =>
      obtain rfl := Option.some.inj hs
      refine ⟨1, by omega, ⟨hsound, hids, some ctx, .closing (Sys.put_self _) hheld hcur
        (Function.update_self ..) fun v hv => (hrest v hv).congr (Sys.put_ne hv) fun c => ?_,
        hopen⟩⟩
      have hsame : Function.update p.asleep ctx none = p.asleep := by
        rw [← hok.2, Function.update_eq_self]
      simp only [hsame]
  | some u =>
      have hut : u ≠ t := fun he => h.sound.awake hcur ctx (he ▸ hok.2)
      simp only [(hrest u hut).waits h.sound hok.2] at hs
      obtain rfl := Option.some.inj hs
      refine ⟨6, Nat.le_refl _, ⟨hsound, hids, some ctx, .destroy (Sys.put_self _) ?_ hheld hcur
        (Function.update_self ..) (fun c hc => ?_) fun v hvt hvu => ?_, hopen⟩⟩
      · rw [Sys.put_ne hut, Sys.put_self]
      · simp only [Function.update_apply] at hc
        split_ifs at hc with hcc
        exact hcc (h.sound.once hc hok.2)
      · refine (hrest v hvt).congr ((Sys.put_ne hvt).trans (Sys.put_ne hvu)) fun c => ?_
        by_cases hc : c = ctx
        · subst hc
          simp [hok.2, Ne.symm hvu]
        · simp only [Function.update_of_ne hc]

/-- When a coroutine ends nobody has control. -/
theorem Rep.finish {n : Nat} (h : Rep main s p n) (ht : s.pcs t = .running)
    (hp : p.step main .finish = some p') : ∃ m ≤ 6, Rep main (s.put t .cleaning) p' m := by
  obtain ⟨d, hphase, hcvs⟩ := h.phase
  obtain ⟨rfl, rfl, hcur, hm, hrest⟩ := hphase.running ht
  simp only [Pool.step] at hp
  split at hp
  case isFalse => cases hp
  rename_i hok
  obtain rfl := Option.some.inj hp
  refine ⟨1, by omega, ⟨⟨h.sound.once, (fun hv => by cases hv), h.sound.there⟩, h.id, none,
    .finish (Sys.put_self _) ?_ rfl (h.sound.awake hcur) fun v hv => ?_, hcvs⟩⟩
  · rcases hm with hm | ⟨-, rfl, -⟩
    · exact hm
    · exact absurd hcur hok.2
  · exact (hrest v hv).kept (Sys.put_ne hv)

end

section

variable [DecidableEq κ] [DecidableEq τ] [Fintype τ] {main : τ} {s s' s₁ : Sys κ τ}
  {p p' : Pool κ τ} {l : Label κ τ} {t u v : τ}

/-! ## What a thread can do -/

theorem step_waiting {cv : Option κ} (ht : s.pcs l.tid = .waiting cv) (hns : l.act ≠ .spurious) :
    step main s l = none := by
  obtain ⟨t, a⟩ := l
  cases a <;> simp_all [step]

/-- A thread that rests takes no step of its own. -/
theorem Rests.step_eq_none (h : Rests s p l.tid) (hns : l.act ≠ .spurious) :
    step main s l = none := by
  rcases h with ⟨hgone, -⟩ | ⟨c, hw, -⟩
  · obtain ⟨t, a⟩ := l
    rcases hgone with hgone | hgone | hgone <;> cases a <;> simp_all [step]
  · exact step_waiting hw hns

theorem step_transferring {prev next : Option κ} (ht : s.pcs l.tid = .transferring prev next) :
    step main s l = some s' ↔ ∃ woken, l.act = .signal woken ∧
      (s.signal next woken).map (fun s₁ => s₁.put l.tid (.signalled prev)) = some s' := by
  obtain ⟨t, a⟩ := l
  cases a <;> simp [step, ht]

theorem step_signalled {prev : Option κ} (ht : s.pcs l.tid = .signalled prev) :
    step main s l = some s' ↔ l.act = .wait ∧ s.alive prev = true ∧ s.mutex = some l.tid ∧
      { s.put l.tid (.waiting prev) with mutex := none } = s' := by
  obtain ⟨t, a⟩ := l
  cases a <;> simp [step, ht, and_assoc]

theorem step_starting {self : κ} (ht : s.pcs l.tid = .starting self) :
    step main s l = some s' ↔ l.act = .lock ∧ s.mutex = none ∧
      { s.put l.tid (.transferring (some self) none) with mutex := some l.tid } = s' := by
  obtain ⟨t, a⟩ := l
  cases a <;> simp [step, ht]

theorem step_relocking (ht : s.pcs l.tid = .relocking) :
    step main s l = some s' ↔ l.act = .lock ∧ s.mutex = none ∧
      { s.put l.tid .running with mutex := some l.tid } = s' := by
  obtain ⟨t, a⟩ := l
  cases a <;> simp [step, ht]

theorem step_cancelled (ht : s.pcs l.tid = .cancelled) :
    step main s l = some s' ↔ l.act = .lock ∧ s.mutex = none ∧
      { s.put l.tid .cleaning with mutex := some l.tid } = s' := by
  obtain ⟨t, a⟩ := l
  cases a <;> simp [step, ht]

theorem step_cleaning (ht : s.pcs l.tid = .cleaning) :
    step main s l = some s' ↔ l.act = .unlock ∧ s.mutex = some l.tid ∧
      { s.put l.tid .ended with mutex := none } = s' := by
  obtain ⟨t, a⟩ := l
  cases a <;> simp [step, ht]

theorem step_cancelling {ctx : κ} (ht : s.pcs l.tid = .cancelling ctx u) :
    step main s l = some s' ↔ l.act = .unlock ∧ s.mutex = some l.tid ∧
      { s.put l.tid (.joining ctx u) with mutex := none } = s' := by
  obtain ⟨t, a⟩ := l
  cases a <;> simp [step, ht]

theorem step_joining {ctx : κ} (ht : s.pcs l.tid = .joining ctx u) :
    step main s l = some s' ↔
      l.act = .join ∧ s.pcs u = .ended ∧ (s.put u .joined).put l.tid (.reaping ctx) = s' := by
  obtain ⟨t, a⟩ := l
  cases a <;> simp [step, ht]

theorem step_reaping {ctx : κ} (ht : s.pcs l.tid = .reaping ctx) :
    step main s l = some s' ↔ l.act = .lock ∧ s.mutex = none ∧
      { s.put l.tid (.closing ctx) with mutex := some l.tid } = s' := by
  obtain ⟨t, a⟩ := l
  cases a <;> simp [step, ht]

theorem step_closing {ctx : κ} (ht : s.pcs l.tid = .closing ctx) :
    step main s l = some s' ↔ l.act = .condDestroy ∧ s.cvs ctx = true ∧
      (∀ u, s.pcs u ≠ .waiting (some ctx)) ∧
        { s with cvs := Function.update s.cvs ctx false }.put l.tid .running = s' := by
  obtain ⟨t, a⟩ := l
  cases a <;> simp [step, ht, Sys.condDestroy, and_assoc]

/-- The only thread that waits is woken. -/
theorem signal_one {cv : Option κ} {woken : Option τ} (hcv : s.alive cv = true)
    (hu : s.pcs u = .waiting cv) (honly : ∀ v, s.pcs v = .waiting cv → v = u) :
    s.signal cv woken = some s₁ ↔ woken = some u ∧ s.put u .relocking = s₁ := by
  cases woken with
  | none =>
      have hsome : ∃ u, s.pcs u = .waiting cv := ⟨u, hu⟩
      simp [Sys.signal, hcv, hsome]
  | some v =>
      by_cases hv : s.pcs v = .waiting cv
      · obtain rfl := honly v hv
        simp [Sys.signal, hcv, hu]
      · have hne : v ≠ u := fun h => hv (h ▸ hu)
        simp [Sys.signal, hcv, hv, hne]

/-- A signal nobody waits for is lost. -/
theorem signal_lost {cv : Option κ} {woken : Option τ} (hcv : s.alive cv = true)
    (hno : ∀ v, s.pcs v ≠ .waiting cv) :
    s.signal cv woken = some s₁ ↔ woken = none ∧ s = s₁ := by
  cases woken with
  | none => simp [Sys.signal, hcv, hno]
  | some v => simp [Sys.signal, hcv, hno]

/-! ## The steps between two calls -/

/-- Where all threads but one rest, it is that one that takes a step. -/
theorem tid_eq (hrest : ∀ v, v ≠ t → Rests s p v) (hns : l.act ≠ .spurious)
    (hs : step main s l = some s') : l.tid = t := by
  by_contra hne
  rw [(hrest l.tid hne).step_eq_none hns] at hs
  cases hs

theorem tid_eq_or (hrest : ∀ v, v ≠ t → v ≠ u → Rests s p v) (hns : l.act ≠ .spurious)
    (hs : step main s l = some s') : l.tid = t ∨ l.tid = u := by
  by_contra hne
  rw [not_or] at hne
  rw [(hrest l.tid hne.1 hne.2).step_eq_none hns] at hs
  cases hs

/-- A step between two calls brings the threads one step closer to the end of
the last one. -/
theorem Phase.step {d : Option κ} {n : Nat} (h : Phase main s p d n) (hp : p.Sound)
    (hcvs : Cvs s p d) (hn : n ≠ 0) (hns : l.act ≠ .spurious) (hs : step main s l = some s') :
    l.act.op = none ∧ s'.id = s.id ∧
      ∃ m, n = m + 1 ∧ ∃ d', Phase main s' p d' m ∧ Cvs s' p d' := by
  obtain ⟨x, a⟩ := l
  cases h with
  | run => exact absurd rfl hn
  | dead => exact absurd rfl hn
  | @back t ht hm hcur hrest =>
      obtain rfl := tid_eq hrest hns hs
      obtain ⟨rfl, -, rfl⟩ := (step_relocking ht).mp hs
      refine ⟨rfl, rfl, 0, rfl, none, .run (by simp) (.inl rfl) hcur fun v hv => ?_, hcvs⟩
      exact (hrest v hv).kept (Sys.put_ne hv)
  | @handed a b prev ha hb hm hcur hslot hrest =>
      have hab : b ≠ a := ne_of_pcs hb ha (by simp)
      obtain rfl | rfl := tid_eq_or hrest hns hs
      · obtain ⟨rfl, -, -, rfl⟩ := (step_signalled ha).mp hs
        refine ⟨rfl, rfl, 1, rfl, none, .back ((Sys.put_ne hab).trans hb) rfl hcur fun v hv => ?_,
          hcvs⟩
        by_cases hva : v = x
        · subst hva
          exact .inr ⟨prev, Sys.put_self _, hslot⟩
        · exact (hrest v hva hv).kept (Sys.put_ne hva)
      · obtain ⟨-, hfree, -⟩ := (step_relocking hb).mp hs
        rw [hm] at hfree
        cases hfree
  | @hand a b prev cv ha hb hcv hm hcur hslot hfree hrest =>
      have hab : b ≠ a := ne_of_pcs hb ha (by simp)
      obtain rfl | rfl := tid_eq_or hrest hns hs
      · obtain ⟨woken, rfl, hmap⟩ := (step_transferring ha).mp hs
        obtain ⟨s₁, hsig, rfl⟩ := Option.map_eq_some_iff.mp hmap
        have honly : ∀ v, s.pcs v = .waiting cv → v = b := fun v hv => by
          by_contra hvb
          have hva : v ≠ x := ne_of_pcs hv ha (by simp)
          exact (hrest v hva hvb).not_waiting (fun c hc => by simp [hfree c hc]) hv
        obtain ⟨-, rfl⟩ := (signal_one hcv hb honly).mp hsig
        refine ⟨rfl, rfl, 2, rfl, none, .handed (Sys.put_self _) ?_ hm hcur hslot
          fun v hva hvb => ?_, hcvs⟩
        · rw [Sys.put_ne hab, Sys.put_self]
        · exact (hrest v hva hvb).kept ((Sys.put_ne hva).trans (Sys.put_ne hvb))
      · rw [step_waiting hb hns] at hs
        cases hs
  | @created t u ctx ht hu honce hm hcur hslot hrest =>
      have htu : t ≠ u := ne_of_pcs ht hu (by simp)
      obtain rfl | rfl := tid_eq_or hrest hns hs
      · rw [step_waiting ht hns] at hs
        cases hs
      · obtain ⟨rfl, -, rfl⟩ := (step_starting hu).mp hs
        refine ⟨rfl, rfl, 3, rfl, none, .hand (Sys.put_self _) ((Sys.put_ne htu).trans ht) honce rfl
          hcur hslot (fun c hc => by cases hc) fun v hvu hvt => ?_, hcvs⟩
        exact (hrest v hvt hvu).kept (Sys.put_ne hvu)
  | @creating t u ctx ht hu honce hm hcur hslot hrest =>
      have htu : u ≠ t := ne_of_pcs hu ht (by simp)
      obtain rfl | rfl := tid_eq_or hrest hns hs
      · obtain ⟨rfl, -, -, rfl⟩ := (step_signalled ht).mp hs
        refine ⟨rfl, rfl, 4, rfl, none, .created (Sys.put_self _) ((Sys.put_ne htu).trans hu) honce
          rfl hcur hslot fun v hvt hvu => ?_, hcvs⟩
        exact (hrest v hvt hvu).kept (Sys.put_ne hvt)
      · obtain ⟨-, hfree, -⟩ := (step_starting hu).mp hs
        rw [hm] at hfree
        cases hfree
  | @create t u ctx ht hu honce hm hcur hslot hrest =>
      have htu : u ≠ t := ne_of_pcs hu ht (by simp)
      obtain rfl | rfl := tid_eq_or hrest hns hs
      · obtain ⟨woken, rfl, hmap⟩ := (step_transferring ht).mp hs
        obtain ⟨s₁, hsig, rfl⟩ := Option.map_eq_some_iff.mp hmap
        have hno := none_waits ht hu hslot hrest
        obtain ⟨-, rfl⟩ := (signal_lost (hcvs.alive hp hslot) hno).mp hsig
        refine ⟨rfl, rfl, 5, rfl, none, .creating (Sys.put_self _) ((Sys.put_ne htu).trans hu) honce
          hm hcur hslot fun v hvt hvu => ?_, hcvs⟩
        exact (hrest v hvt hvu).kept (Sys.put_ne hvt)
      · obtain ⟨-, hfree, -⟩ := (step_starting hu).mp hs
        rw [hm] at hfree
        cases hfree
  | @closing t ctx ht hm hcur hgone hrest =>
      obtain rfl := tid_eq hrest hns hs
      obtain ⟨rfl, -, -, rfl⟩ := (step_closing ht).mp hs
      refine ⟨rfl, rfl, 0, rfl, none, .run (Sys.put_self _) (.inl hm) hcur fun v hv => ?_,
        fun c => ?_⟩
      · exact (hrest v hv).kept (Sys.put_ne hv)
      · show Function.update s.cvs ctx false c = true ↔ _
        by_cases hc : c = ctx
        · subst hc
          simp [hgone]
        · simpa [Function.update_of_ne hc, Ne.symm hc] using hcvs c
  | @reaping t ctx ht hm hcur hgone hrest =>
      obtain rfl := tid_eq hrest hns hs
      obtain ⟨rfl, -, rfl⟩ := (step_reaping ht).mp hs
      refine ⟨rfl, rfl, 1, rfl, some ctx, .closing (Sys.put_self _) rfl hcur hgone fun v hv => ?_,
        hcvs⟩
      exact (hrest v hv).kept (Sys.put_ne hv)
  | @reaped t u ctx ht hu hm hcur hgone hout hrest =>
      have htu : t ≠ u := ne_of_pcs ht hu (by simp)
      obtain rfl | rfl := tid_eq_or hrest hns hs
      · obtain ⟨rfl, -, rfl⟩ := (step_joining ht).mp hs
        refine ⟨rfl, rfl, 2, rfl, some ctx, .reaping (Sys.put_self _) hm hcur hgone fun v hv => ?_,
          hcvs⟩
        by_cases hvu : v = u
        · subst hvu
          exact .inl ⟨.inr (.inr (by rw [Sys.put_ne hv, Sys.put_self])), hout⟩
        · exact (hrest v hv hvu).kept ((Sys.put_ne hv).trans (Sys.put_ne hvu))
      · have hended : Rests s p x := .inl ⟨.inr (.inl hu), hout⟩
        rw [hended.step_eq_none hns] at hs
        cases hs
  | @leaving t u ctx ht hu hm hcur hgone hout hrest =>
      have htu : t ≠ u := ne_of_pcs ht hu (by simp)
      obtain rfl | rfl := tid_eq_or hrest hns hs
      · obtain ⟨-, hended, -⟩ := (step_joining ht).mp hs
        rw [hu] at hended
        cases hended
      · obtain ⟨rfl, -, rfl⟩ := (step_cleaning hu).mp hs
        refine ⟨rfl, rfl, 3, rfl, some ctx, .reaped ((Sys.put_ne htu).trans ht) (Sys.put_self _) rfl
          hcur hgone hout fun v hvt hvu => ?_, hcvs⟩
        exact (hrest v hvt hvu).kept (Sys.put_ne hvu)
  | @cancelled t u ctx ht hu hm hcur hgone hout hrest =>
      have htu : t ≠ u := ne_of_pcs ht hu (by simp)
      obtain rfl | rfl := tid_eq_or hrest hns hs
      · obtain ⟨-, hended, -⟩ := (step_joining ht).mp hs
        rw [hu] at hended
        cases hended
      · obtain ⟨rfl, -, rfl⟩ := (step_cancelled hu).mp hs
        refine ⟨rfl, rfl, 4, rfl, some ctx, .leaving ((Sys.put_ne htu).trans ht) (Sys.put_self _)
          rfl hcur hgone hout fun v hvt hvu => ?_, hcvs⟩
        exact (hrest v hvt hvu).kept (Sys.put_ne hvu)
  | @destroy t u ctx ht hu hm hcur hgone hout hrest =>
      have htu : u ≠ t := ne_of_pcs hu ht (by simp)
      obtain rfl | rfl := tid_eq_or hrest hns hs
      · obtain ⟨rfl, -, rfl⟩ := (step_cancelling ht).mp hs
        refine ⟨rfl, rfl, 5, rfl, some ctx, .cancelled (Sys.put_self _) ((Sys.put_ne htu).trans hu)
          rfl hcur hgone hout fun v hvt hvu => ?_, hcvs⟩
        exact (hrest v hvt hvu).kept (Sys.put_ne hvt)
      · obtain ⟨-, hfree, -⟩ := (step_cancelled hu).mp hs
        rw [hm] at hfree
        cases hfree
  | @finish t ht hm hcur hout hrest =>
      obtain rfl := tid_eq hrest hns hs
      obtain ⟨rfl, -, rfl⟩ := (step_cleaning ht).mp hs
      refine ⟨rfl, rfl, 0, rfl, none, .dead rfl hcur fun v => ?_, hcvs⟩
      by_cases hv : v = x
      · subst hv
        exact .inl ⟨.inr (.inl (Sys.put_self _)), hout⟩
      · exact (hrest v hv).kept (Sys.put_ne hv)

theorem running_of_op {op : Op κ τ} (hop : l.act.op = some op) (hs : step main s l = some s') :
    s.pcs l.tid = .running := by
  obtain ⟨t, a⟩ := l
  generalize hpc : s.pcs t = pc
  cases a <;> cases pc <;> simp_all [step, Act.op]

theorem Rep.call {n : Nat} {op : Op κ τ} (h : Rep main s p n) (hop : l.act.op = some op)
    (hs : step main s l = some s') (hp : p.step main op = some p') :
    ∃ m ≤ 6, Rep main s' p' m := by
  have ht := running_of_op hop hs
  obtain ⟨t, a⟩ := l
  cases a with
  | create ctx new =>
      obtain rfl := Option.some.inj hop
      simp only [step, ht] at hs
      exact h.create ht hs hp
  | transfer prev next =>
      obtain rfl := Option.some.inj hop
      simp only [step, ht, Option.some.injEq] at hs
      subst hs
      exact h.transfer ht hp
  | destroy ctx =>
      obtain rfl := Option.some.inj hop
      simp only [step, ht] at hs
      exact h.destroy ht hs hp
  | finish =>
      obtain rfl := Option.some.inj hop
      simp only [step, ht] at hs
      split at hs
      case isTrue => cases hs
      obtain rfl := Option.some.inj hs
      exact h.finish ht hp
  | _ => cases hop

end

/-! ## At concrete runs -/

/-- The coroutine `u` is created in `ctx` by thread 0. -/
def traceCreate (ctx u : Fin 3) : List (Label (Fin 3) (Fin 3)) :=
  [⟨0, .create ctx (some u)⟩, ⟨0, .signal none⟩, ⟨0, .wait⟩, ⟨u, .lock⟩, ⟨u, .signal (some 0)⟩,
   ⟨u, .wait⟩, ⟨0, .lock⟩]

/-- While thread 0 has control, the coroutine in 2 wakes up by itself; it takes
the mutex that thread 0 has left to the one in 1. -/
def traceSpurious : List (Label (Fin 3) (Fin 3)) :=
  ⟨0, .create 0 none⟩ :: traceCreate 1 1 ++ traceCreate 2 2 ++
    [⟨2, .spurious⟩, ⟨0, .transfer 0 1⟩, ⟨0, .signal (some 1)⟩, ⟨0, .wait⟩, ⟨2, .lock⟩]

theorem spurious_misleads :
    (run (step 0) (Sys.init 0) traceSpurious).map (fun s => s.pcs 2) = some .running ∧
      (run (Pool.step 0) (Pool.init 0) (traceSpurious.filterMap (·.act.op))).map (·.current) =
        some (some 1) := by
  decide +kernel

end CoroPthread

end MiscTools
