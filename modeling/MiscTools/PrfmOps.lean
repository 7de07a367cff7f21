import MiscTools.Prfm

/-!
# What the macros compute

Each macro either overflows or leaves the result of its operation at the
one place it writes, whether or not that place is an operand: a line reads
one field of the operands and writes the same field of the result, so the
other lines still find the operands in theirs. `Yields` states both at
once, and it composes, so that the condition for a sequence of lines is
the conjunction of theirs.
-/

namespace MiscTools.Prfm

/-! ## Returning exactly if -/

/-- `x` returns `y` if `p` holds, and does not return if not. -/
def Yields {β : Type} (x : Except Stop β) (p : Prop) (y : β) : Prop :=
  ∀ b, x = .ok b ↔ p ∧ b = y

section Yields

variable {β γ : Type} {x : Except Stop β} {f : β → Except Stop γ} {p q : Prop} {y : β} {z : γ}

theorem yields_ok (y : β) : Yields (.ok y) True y := by
  intro b
  rw [Except.ok.injEq, true_and, eq_comm]

theorem yields_long (n : Int) : Yields (long n) (FitsLong n) n := by
  intro b
  unfold long
  split
  next h => rw [yields_ok n b, true_and, and_iff_right h]
  next h => exact ⟨nofun, fun hb => (h hb.1).elim⟩

theorem Yields.bind (hx : Yields x p y) (hf : p → Yields (f y) q z) :
    Yields (x >>= f) (p ∧ q) z := by
  intro c
  cases x with
  | error e =>
    have hp : ¬p := fun hp => nomatch (hx y).mpr ⟨hp, rfl⟩
    exact ⟨nofun, fun hc => (hp hc.1.1).elim⟩
  | ok b =>
    obtain ⟨hp, rfl⟩ := (hx b).mp rfl
    rw [and_iff_right hp]
    exact hf hp c

theorem Yields.congr (h : Yields x p y) (hpq : p ↔ q) {y' : β} (hy : y = y') : Yields x q y' := by
  subst hy
  intro b
  rw [h b, hpq]

/-- Lines that only run if `c` holds. -/
theorem Yields.ite {c : Prop} [Decidable c] {y' : β} (hx : c → Yields x p y) :
    Yields (if c then x else .ok y') (c → p) (if c then y else y') := by
  split
  next hc => exact (hx hc).congr ⟨fun hp _ => hp, fun h => h hc⟩ rfl
  next hc => exact (yields_ok y').congr ⟨fun _ h => (hc h).elim, fun _ => trivial⟩ rfl

/-- The rest of a block after such lines stands in both branches. -/
theorem Yields.ite_bind {c : Prop} [Decidable c] {y' : β}
    (hx : Yields (if c then x else .ok y') p y) (hf : p → Yields (f y) q z) :
    Yields (if c then x >>= f else .ok y' >>= f) (p ∧ q) z := by
  have hrun := hx.bind hf
  split at hrun
  next hc => rwa [if_pos hc]
  next hc => rwa [if_neg hc]

theorem Yields.eq_ok (h : Yields x p y) (hp : p) : x = .ok y := (h y).mpr ⟨hp, rfl⟩

theorem yields_onField {P α : Type} {get : α → β} {set : α → β → α}
    {f : (P → β) → Except Stop (P → β)} {m : P → α} {b : P → β}
    (hf : Yields (f fun q => get (m q)) p b) :
    Yields (onField get set f m) p fun q => set (m q) (b q) := by
  have hrun : Yields (onField get set f m) (p ∧ True) fun q => set (m q) (b q) :=
    hf.bind fun _ => yields_ok _
  exact hrun.congr (and_iff_left trivial) rfl

end Yields

variable {P : Type} [DecidableEq P]

/-! ## Stamps in memory -/

section Stamps

variable {m : P → Stamp} {p q : P} {x y : Int}

@[simp] theorem setSec_frac : (setSec m p x q).frac = (m q).frac := by
  by_cases h : q = p
  · simp [setSec, h]
  · simp [setSec, Function.update_of_ne h]

@[simp] theorem setFrac_setSec :
    setFrac (setSec m p x) p y = Function.update m p ⟨x, y⟩ := by
  simp [setFrac, setSec]

/-- What `stampOp` computes. -/
def corrected (op : Int → Int → Int) (past : Int → Prop) [DecidablePred past]
    (sec' frac' : Int → Int) (s t : Stamp) : Stamp :=
  if past (op s.frac t.frac) then ⟨sec' (op s.sec t.sec), frac' (op s.frac t.frac)⟩
  else ⟨op s.sec t.sec, op s.frac t.frac⟩

/-- The fractions are no concern, only the seconds may be too large, and
they are looked at before the correction and after it. -/
theorem yields_stampOp {op : Int → Int → Int} {past : Int → Prop} [DecidablePred past]
    {sec' frac' : Int → Int} {t u v : P} (hfrac : FitsLong (op (m t).frac (m u).frac))
    (hfrac' : past (op (m t).frac (m u).frac) → FitsLong (frac' (op (m t).frac (m u).frac))) :
    Yields (stampOp op past sec' frac' t u v m)
      (FitsLong (op (m t).sec (m u).sec) ∧
        FitsLong (corrected op past sec' frac' (m t) (m u)).sec)
      (Function.update m v (corrected op past sec' frac' (m t) (m u))) := by
  unfold corrected
  split
  next hpast =>
    have hrun : Yields (stampOp op past sec' frac' t u v m)
        (FitsLong (op (m t).sec (m u).sec) ∧ FitsLong (op (m t).frac (m u).frac) ∧
          FitsLong (sec' (op (m t).sec (m u).sec)) ∧
            FitsLong (frac' (op (m t).frac (m u).frac)) ∧ True)
        (Function.update m v
          ⟨sec' (op (m t).sec (m u).sec), frac' (op (m t).frac (m u).frac)⟩) := by
      refine (yields_long _).bind fun _ => ?_
      simp only [setSec_frac]
      refine (yields_long _).bind fun _ => ?_
      simp only [setFrac_setSec, Function.update_self, if_pos hpast]
      refine (yields_long _).bind fun _ => (yields_long _).bind fun _ => ?_
      rw [Function.update_idem]
      exact yields_ok _
    exact hrun.congr (by simp only [hfrac, hfrac' hpast, true_and, and_true]) rfl
  next hpast =>
    have hrun : Yields (stampOp op past sec' frac' t u v m)
        (FitsLong (op (m t).sec (m u).sec) ∧ FitsLong (op (m t).frac (m u).frac) ∧ True)
        (Function.update m v ⟨op (m t).sec (m u).sec, op (m t).frac (m u).frac⟩) := by
      refine (yields_long _).bind fun _ => ?_
      simp only [setSec_frac]
      refine (yields_long _).bind fun _ => ?_
      simp only [setFrac_setSec, Function.update_self, if_neg hpast]
      exact yields_ok _
    exact hrun.congr (by simp only [hfrac, and_self, and_true]) rfl

/-- The sum of two stamps, in a base up to that of nanoseconds. -/
theorem yields_stampAdd {base : Int} {t u v : P} (hbase : base ≤ 1000000000)
    (ht : (m t).Normal base) (hu : (m u).Normal base) :
    Yields (stampOp (· + ·) (base ≤ ·) (· + 1) (· - base) t u v m)
      (FitsLong ((m t).sec + (m u).sec) ∧ FitsLong (Stamp.add base (m t) (m u)).sec)
      (Function.update m v (Stamp.add base (m t) (m u))) := by
  have := ht.nonneg
  have := ht.lt
  have := hu.nonneg
  have := hu.lt
  exact yields_stampOp ⟨by omega, by omega⟩ fun _ => ⟨by omega, by omega⟩

theorem yields_stampSub {base : Int} {t u v : P} (hbase : base ≤ 1000000000)
    (ht : (m t).Normal base) (hu : (m u).Normal base) :
    Yields (stampOp (· - ·) (· < 0) (· - 1) (· + base) t u v m)
      (FitsLong ((m t).sec - (m u).sec) ∧ FitsLong (Stamp.sub base (m t) (m u)).sec)
      (Function.update m v (Stamp.sub base (m t) (m u))) := by
  have := ht.nonneg
  have := ht.lt
  have := hu.nonneg
  have := hu.lt
  exact yields_stampOp ⟨by omega, by omega⟩ fun _ => ⟨by omega, by omega⟩

end Stamps

/-! ## A field of what is in memory -/

theorem get_update {α β : Type} (get : α → β) {m : P → α} {t : P} {u : α}
    (h : get u = get (m t)) (q : P) : get (Function.update m t u q) = get (m q) := by
  by_cases hq : q = t
  · rw [hq, Function.update_self, h]
  · rw [Function.update_of_ne hq]

theorem yields_onField_update {α β : Type} {get : α → β} {set : α → β → α}
    {f : (P → β) → Except Stop (P → β)} {m : P → α} {p : Prop} {t : P} {x : β}
    (hset : ∀ a, set a (get a) = a)
    (hf : Yields (f fun q => get (m q)) p (Function.update (fun q => get (m q)) t x)) :
    Yields (onField get set f m) p (Function.update m t (set (m t) x)) := by
  refine (yields_onField hf).congr Iff.rfl (funext fun q => ?_)
  by_cases hq : q = t
  · subst hq
    rw [Function.update_self, Function.update_self]
  · rw [Function.update_of_ne hq, Function.update_of_ne hq, hset]

/-! ## Usage in memory -/

section Usage

variable {m : P → Rusage} {r s t : P}

theorem mem_counters (c : Counter) : c ∈ counters := by
  cases c <;> decide

theorem counters_nodup : counters.Nodup := by decide

/-- The counters replaced. -/
def withCounts (u : Rusage) (f : Counter → Int) : Rusage := { u with count := f }

@[simp] theorem withCounts_count (u : Rusage) (f : Counter → Int) :
    (withCounts u f).count = f := rfl

@[simp] theorem withCounts_withCounts (u : Rusage) (f g : Counter → Int) :
    withCounts (withCounts u f) g = withCounts u g := rfl

/-- The memory after the line of the counter `c`. -/
def setCount (m : P → Rusage) (t : P) (c : Counter) (x : Int) : P → Rusage :=
  Function.update m t (withCounts (m t) (Function.update (m t).count c x))

theorem setCount_self (m : P → Rusage) (t : P) (c : Counter) (x : Int) :
    setCount m t c x t = withCounts (m t) (Function.update (m t).count c x) :=
  Function.update_self ..

theorem update_setCount (m : P → Rusage) (t : P) (c : Counter) (x : Int) (u : Rusage) :
    Function.update (setCount m t c x) t u = Function.update m t u :=
  Function.update_idem ..

theorem setCount_of_ne {c d : Counter} (h : d ≠ c) (x : Int) (q : P) :
    (setCount m t c x q).count d = (m q).count d := by
  by_cases hq : q = t
  · rw [hq, setCount_self, withCounts_count, Function.update_of_ne h]
  · rw [setCount, Function.update_of_ne hq]

/-- The lines of different counters do not see each other. -/
theorem yields_counters {op : Int → Int → Int} {cs : List Counter} (hcs : cs.Nodup) :
    Yields (cs.foldlM (counterLine op r s t) m)
      (∀ c ∈ cs, FitsLong (op ((m r).count c) ((m s).count c)))
      (Function.update m t (withCounts (m t) fun c =>
        if c ∈ cs then op ((m r).count c) ((m s).count c) else (m t).count c)) := by
  induction cs generalizing m with
  | nil => exact (yields_ok m).congr (by simp) (Function.update_eq_self t m).symm
  | cons c cs ih =>
    obtain ⟨hc, hcs⟩ := List.nodup_cons.mp hcs
    have hline : Yields (counterLine op r s t m c)
        (FitsLong (op ((m r).count c) ((m s).count c)) ∧ True)
        (setCount m t c (op ((m r).count c) ((m s).count c))) :=
      (yields_long _).bind fun _ => yields_ok _
    have hother : ∀ d ∈ cs, ∀ x q, (setCount m t c x q).count d = (m q).count d :=
      fun d hd => setCount_of_ne (ne_of_mem_of_not_mem hd hc)
    rw [List.foldlM_cons]
    refine (hline.bind fun _ => ih hcs).congr ?_ ?_
    · rw [and_true, List.forall_mem_cons]
      exact and_congr_right' (forall₂_congr fun d hd => by rw [hother d hd, hother d hd])
    · rw [setCount_self, withCounts_withCounts, update_setCount]
      refine congrArg (fun f => Function.update m t (withCounts (m t) f)) (funext fun d => ?_)
      by_cases hd : d ∈ cs
      · rw [if_pos hd, if_pos (List.mem_cons_of_mem c hd), hother d hd, hother d hd]
      · by_cases hdc : d = c
        · simp [hdc, hc]
        · simp [hd, hdc]

/-- An operation on the times and one on the counters. -/
def usage (f : Stamp → Stamp → Stamp) (op : Int → Int → Int) (a b : Rusage) : Rusage where
  utime := f a.utime b.utime
  stime := f a.stime b.stime
  count := fun c => op (a.count c) (b.count c)

def UsageFits (fits : Stamp → Stamp → Prop) (op : Int → Int → Int) (a b : Rusage) : Prop :=
  fits a.utime b.utime ∧ fits a.stime b.stime ∧ ∀ c, FitsLong (op (a.count c) (b.count c))

structure Rusage.Normal (a : Rusage) : Prop where
  utime : a.utime.Normal 1000000
  stime : a.stime.Normal 1000000

/-- The lines of `rusage_sub` and `rusage_add`. -/
theorem yields_usage {lines : (P → Stamp) → Except Stop (P → Stamp)}
    {fits : Stamp → Stamp → Prop} {f : Stamp → Stamp → Stamp} {op : Int → Int → Int}
    (hlines : ∀ {m : P → Stamp}, (m r).Normal 1000000 → (m s).Normal 1000000 →
      Yields (lines m) (fits (m r) (m s)) (Function.update m t (f (m r) (m s))))
    (hr : (m r).Normal) (hs : (m s).Normal) :
    Yields (do
        let m ← onField Rusage.utime (fun r x => { r with utime := x }) lines m
        let m ← onField Rusage.stime (fun r x => { r with stime := x }) lines m
        counters.foldlM (counterLine op r s t) m)
      (UsageFits fits op (m r) (m s)) (Function.update m t (usage f op (m r) (m s))) := by
  generalize hm₁ : Function.update m t { m t with utime := f (m r).utime (m s).utime } = m₁
  have hutime : Yields (onField Rusage.utime (fun r x => { r with utime := x }) lines m)
      (fits (m r).utime (m s).utime) m₁ :=
    hm₁ ▸ yields_onField_update (fun _ => rfl) (hlines hr.utime hs.utime)
  have hstime₁ : ∀ q, (m₁ q).stime = (m q).stime := hm₁ ▸ get_update Rusage.stime rfl
  have hcount₁ : ∀ q, (m₁ q).count = (m q).count := hm₁ ▸ get_update Rusage.count rfl
  generalize hm₂ :
    Function.update m₁ t { m₁ t with stime := f (m₁ r).stime (m₁ s).stime } = m₂
  have hstime : Yields (onField Rusage.stime (fun r x => { r with stime := x }) lines m₁)
      (fits (m r).stime (m s).stime) m₂ := by
    rw [← hm₂, ← hstime₁ r, ← hstime₁ s]
    exact yields_onField_update (fun _ => rfl)
      (hlines (by rw [hstime₁]; exact hr.stime) (by rw [hstime₁]; exact hs.stime))
  have hcount₂ : ∀ q, (m₂ q).count = (m₁ q).count := hm₂ ▸ get_update Rusage.count rfl
  refine (hutime.bind fun _ => hstime.bind fun _ => yields_counters counters_nodup).congr ?_ ?_
  · simp only [hcount₂, hcount₁, mem_counters, forall_const, UsageFits]
  · have hself : m₂ t = { m₁ t with stime := f (m₁ r).stime (m₁ s).stime } :=
      hm₂ ▸ Function.update_self ..
    have hself₁ : m₁ t = { m t with utime := f (m r).utime (m s).utime } :=
      hm₁ ▸ Function.update_self ..
    simp only [hcount₂, hcount₁, mem_counters, if_true, hself, hself₁, hstime₁]
    rw [← hm₂, ← hm₁, Function.update_idem, Function.update_idem]
    rfl

theorem yields_rusageSub (hr : (m r).Normal) (hs : (m s).Normal) :
    Yields (rusageSub r s t m)
      (UsageFits
        (fun x y => FitsLong (x.sec - y.sec) ∧ FitsLong (Stamp.sub 1000000 x y).sec)
        (· - ·) (m r) (m s))
      (Function.update m t (usage (Stamp.sub 1000000) (· - ·) (m r) (m s))) :=
  yields_usage (yields_stampSub (by decide)) hr hs

theorem yields_rusageAdd (hr : (m r).Normal) (hs : (m s).Normal) :
    Yields (rusageAdd r s t m)
      (UsageFits
        (fun x y => FitsLong (x.sec + y.sec) ∧ FitsLong (Stamp.add 1000000 x y).sec)
        (· + ·) (m r) (m s))
      (Function.update m t (usage (Stamp.add 1000000) (· + ·) (m r) (m s))) :=
  yields_usage (yields_stampAdd (by decide)) hr hs

end Usage

end MiscTools.Prfm
