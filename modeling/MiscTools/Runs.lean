/-!
# Runs of a labelled step function

The induction rules for a system given by an executable partial step
function `step : σ → ℓ → Option σ`, independent of any particular
system. A run is a list of labels; a property of runs is one of

- `run step s ls = some s'`: the list is executable and ends in `s'`;
- `Always step P s ls`: `P` holds in every state the list reaches, up
  to the first label that is not enabled;
- `Meets step C s ls`: every step the list takes meets `C`, a
  condition on the label and the state before the step;
- `Guards step C s ls`: every step the list tries, also the one it gets
  stuck at, meets `C`.

Each rule asks for one step lemma and returns the run lemma.
`always_iff_meets` is the two-sided form: where a step that misses `C`
breaks `P` at once, the runs on which `P` always holds are exactly the
runs whose steps all meet `C`. `meets_or_ends` is the one for a damage
that only shows at the end. `tally_add_le` is the rule for progress: a
measure bounds the steps of a run that count.
-/

namespace MiscTools

namespace Runs

universe u v

variable {σ : Type u} {ℓ : Type v}

/-! ## Runs and what holds along them -/

def run (step : σ → ℓ → Option σ) : σ → List ℓ → Option σ
  | s, [] => some s
  | s, l :: ls => (step s l).bind fun s' => run step s' ls

def Always (step : σ → ℓ → Option σ) (P : σ → Prop) : σ → List ℓ → Prop
  | s, [] => P s
  | s, l :: ls => P s ∧ ∀ s', step s l = some s' → Always step P s' ls

def Meets (step : σ → ℓ → Option σ) (C : σ → ℓ → Prop) : σ → List ℓ → Prop
  | _, [] => True
  | s, l :: ls => ∀ s', step s l = some s' → C s l ∧ Meets step C s' ls

def Guards (step : σ → ℓ → Option σ) (C : σ → ℓ → Prop) : σ → List ℓ → Prop
  | _, [] => True
  | s, l :: ls => C s l ∧ ∀ s', step s l = some s' → Guards step C s' ls

variable {step : σ → ℓ → Option σ}

/-- A concrete run can be checked against a decidable condition. -/
instance decidableMeets {C : σ → ℓ → Prop} [∀ s l, Decidable (C s l)] :
    ∀ (ls : List ℓ) (s : σ), Decidable (Meets step C s ls)
  | [], _ => isTrue trivial
  | l :: ls, s =>
      match h : step s l with
      | none => isTrue fun s' hs => by rw [h] at hs; cases hs
      | some s₁ =>
          have := decidableMeets (C := C) ls s₁
          decidable_of_iff (C s l ∧ Meets step C s₁ ls)
            ⟨fun hm s' hs => by
                obtain rfl := Option.some.inj (h.symm.trans hs)
                exact hm,
             fun hm => hm s₁ h⟩

instance decidableGuards {C : σ → ℓ → Prop} [∀ s l, Decidable (C s l)] :
    ∀ (ls : List ℓ) (s : σ), Decidable (Guards step C s ls)
  | [], _ => isTrue trivial
  | l :: ls, s =>
      match h : step s l with
      | none => decidable_of_iff (C s l)
          ⟨fun hc => ⟨hc, fun s' hs => by rw [h] at hs; cases hs⟩, fun hg => hg.1⟩
      | some s₁ =>
          have := decidableGuards (C := C) ls s₁
          decidable_of_iff (C s l ∧ Guards step C s₁ ls)
            ⟨fun hg => ⟨hg.1, fun s' hs => by
                obtain rfl := Option.some.inj (h.symm.trans hs)
                exact hg.2⟩,
             fun hg => ⟨hg.1, hg.2 s₁ h⟩⟩

theorem run_cons_eq_some {s s' : σ} {l : ℓ} {ls : List ℓ} :
    run step s (l :: ls) = some s' ↔
      ∃ s₁, step s l = some s₁ ∧ run step s₁ ls = some s' := by
  simp only [run, Option.bind_eq_some_iff]

theorem Always.head {P : σ → Prop} {s : σ} {ls : List ℓ} (h : Always step P s ls) : P s := by
  cases ls with
  | nil => exact h
  | cons l ls => exact h.1

theorem Always.after {P : σ → Prop} {ls' : List ℓ} :
    ∀ {ls : List ℓ} {s s' : σ}, Always step P s (ls ++ ls') → run step s ls = some s' →
      Always step P s' ls' := by
  intro ls
  induction ls with
  | nil =>
      intro s s' h hrun
      obtain rfl := Option.some.inj hrun
      exact h
  | cons l ls ih =>
      intro s s' h hrun
      obtain ⟨s₁, hs, hrest⟩ := run_cons_eq_some.mp hrun
      exact ih (h.2 s₁ hs) hrest

theorem Always.last {P : σ → Prop} {ls : List ℓ} {s s' : σ} (h : Always step P s ls)
    (hrun : run step s ls = some s') : P s' := by
  rw [← List.append_nil ls] at h
  exact (h.after hrun).head

theorem Always.imp {P Q : σ → Prop} (h : ∀ s, P s → Q s) :
    ∀ {ls : List ℓ} {s : σ}, Always step P s ls → Always step Q s ls := by
  intro ls
  induction ls with
  | nil =>
      intro s hP
      exact h s hP
  | cons l ls ih =>
      intro s hP
      exact ⟨h s hP.1, fun s' hs => ih (hP.2 s' hs)⟩

/-- A condition on labels alone is met by every list of such labels. -/
theorem meets_of_forall {C : ℓ → Prop} :
    ∀ {ls : List ℓ} {s : σ}, (∀ l ∈ ls, C l) → Meets step (fun _ l => C l) s ls := by
  intro ls
  induction ls with
  | nil =>
      intro s _
      trivial
  | cons l ls ih =>
      intro s h s' _
      exact ⟨h l List.mem_cons_self, ih fun l' hl' => h l' (List.mem_cons_of_mem _ hl')⟩

/-- Every step of a run that meets `C` does. -/
theorem Meets.reached {C : σ → ℓ → Prop} {ls ls' : List ℓ} {l : ℓ} :
    ∀ {s s' s'' : σ}, Meets step C s (ls ++ l :: ls') → run step s ls = some s' →
      step s' l = some s'' → C s' l := by
  induction ls with
  | nil =>
      intro s s' s'' h hrun hs
      obtain rfl := Option.some.inj hrun
      exact (h s'' hs).1
  | cons l₀ ls ih =>
      intro s s' s'' h hrun hs
      obtain ⟨s₁, hs₁, hrest⟩ := run_cons_eq_some.mp hrun
      exact ih (h s₁ hs₁).2 hrest hs

theorem Meets.and {C C' : σ → ℓ → Prop} :
    ∀ {ls : List ℓ} {s : σ}, Meets step C s ls → Meets step C' s ls →
      Meets step (fun s l => C s l ∧ C' s l) s ls := by
  intro ls
  induction ls with
  | nil =>
      intro s _ _
      trivial
  | cons l ls ih =>
      intro s h h' s' hs
      obtain ⟨hc, hrest⟩ := h s' hs
      obtain ⟨hc', hrest'⟩ := h' s' hs
      exact ⟨⟨hc, hc'⟩, ih hrest hrest'⟩

theorem guards_of_forall {C : ℓ → Prop} :
    ∀ {ls : List ℓ} {s : σ}, (∀ l ∈ ls, C l) → Guards step (fun _ l => C l) s ls := by
  intro ls
  induction ls with
  | nil =>
      intro s _
      trivial
  | cons l ls ih =>
      intro s h
      exact ⟨h l List.mem_cons_self, fun s' _ => ih fun l' hl' => h l' (List.mem_cons_of_mem _ hl')⟩

theorem Guards.and {C C' : σ → ℓ → Prop} :
    ∀ {ls : List ℓ} {s : σ}, Guards step C s ls → Guards step C' s ls →
      Guards step (fun s l => C s l ∧ C' s l) s ls := by
  intro ls
  induction ls with
  | nil =>
      intro s _ _
      trivial
  | cons l ls ih =>
      intro s h h'
      exact ⟨⟨h.1, h'.1⟩, fun s' hs => ih (h.2 s' hs) (h'.2 s' hs)⟩

/-! ## The invariant rules -/

/-- An invariant that every step meeting `C` keeps holds in every state
of a run whose steps all meet `C`. -/
theorem always_of_meets {I : σ → Prop} {C : σ → ℓ → Prop}
    (hstep : ∀ s l s', I s → C s l → step s l = some s' → I s') :
    ∀ {ls : List ℓ} {s : σ}, I s → Meets step C s ls → Always step I s ls := by
  intro ls
  induction ls with
  | nil =>
      intro s h _
      exact h
  | cons l ls ih =>
      intro s h hm
      refine ⟨h, fun s' hs => ?_⟩
      obtain ⟨hc, hrest⟩ := hm s' hs
      exact ih (hstep s l s' h hc hs) hrest

/-- The label-only form: an invariant kept by every step whose label
meets `C` holds in every state reached by such labels. -/
theorem always_of_forall {I : σ → Prop} {C : ℓ → Prop}
    (hstep : ∀ s l s', I s → C l → step s l = some s' → I s')
    {ls : List ℓ} {s : σ} (h : I s) (hls : ∀ l ∈ ls, C l) :
    Always step I s ls :=
  always_of_meets (C := fun _ l => C l) hstep h (meets_of_forall hls)

/-- The exact rule. Under a background condition `L` on the labels,
steps meeting `C` keep `I`, `I` gives `P`, and a step that misses
`C` breaks `P` right after it. -/
theorem always_iff_meets {I P : σ → Prop} {C : σ → ℓ → Prop} {L : ℓ → Prop}
    (hstep : ∀ s l s', I s → L l → C s l → step s l = some s' → I s')
    (hP : ∀ s, I s → P s)
    (hbad : ∀ s l s', I s → L l → ¬C s l → step s l = some s' → ¬P s') :
    ∀ {ls : List ℓ} {s : σ}, I s → (∀ l ∈ ls, L l) →
      (Always step P s ls ↔ Meets step C s ls) := by
  intro ls
  induction ls with
  | nil =>
      intro s h _
      exact iff_of_true (hP s h) trivial
  | cons l ls ih =>
      intro s h hlab
      have hl := hlab l List.mem_cons_self
      have hrest : ∀ l' ∈ ls, L l' := fun l' hl' => hlab l' (List.mem_cons_of_mem _ hl')
      constructor
      · intro hall s' hs
        have hnext := hall.2 s' hs
        by_cases hok : C s l
        · have hinv := hstep s l s' h hl hok hs
          exact ⟨hok, (ih hinv hrest).mp hnext⟩
        · exact absurd hnext.head (hbad s l s' h hl hok hs)
      · intro hm
        refine ⟨hP s h, fun s' hs => ?_⟩
        obtain ⟨hc, hmeets⟩ := hm s' hs
        have hinv := hstep s l s' h hl hc hs
        exact (ih hinv hrest).mpr hmeets

/-- Conditions that agree on the steps that can be taken, as long as an
invariant kept by the steps meeting the first holds, are met by the same
runs. -/
theorem meets_iff_meets {I : σ → Prop} {C D : σ → ℓ → Prop}
    (hstep : ∀ s l s', I s → C s l → step s l = some s' → I s')
    (hagree : ∀ s l s', I s → step s l = some s' → (C s l ↔ D s l)) :
    ∀ {ls : List ℓ} {s : σ}, I s → (Meets step C s ls ↔ Meets step D s ls) := by
  intro ls
  induction ls with
  | nil => exact fun _ => Iff.rfl
  | cons l ls ih =>
      intro s h
      constructor
      · intro hm s' hs
        obtain ⟨hc, hrest⟩ := hm s' hs
        exact ⟨(hagree s l s' h hs).mp hc, (ih (hstep s l s' h hc hs)).mp hrest⟩
      · intro hm s' hs
        obtain ⟨hd, hrest⟩ := hm s' hs
        have hc := (hagree s l s' h hs).mpr hd
        exact ⟨hc, (ih (hstep s l s' h hc hs)).mpr hrest⟩

/-- The rule for what a run ends in. Steps meeting `C` keep `I`, a step
that misses `C` leads to `J`, and `J` is never left: the run meets `C`
and ends in `I`, or it does not and ends in `J`. -/
theorem meets_or_ends {I J : σ → Prop} {C : σ → ℓ → Prop}
    (hstep : ∀ s l s', I s → C s l → step s l = some s' → I s')
    (hbad : ∀ s l s', I s → ¬C s l → step s l = some s' → J s')
    (hstay : ∀ s l s', J s → step s l = some s' → J s') :
    ∀ {ls : List ℓ} {s s' : σ}, I s → run step s ls = some s' →
      (Meets step C s ls ∧ I s') ∨ (¬Meets step C s ls ∧ J s') := by
  have hkeep : ∀ {ls : List ℓ} {s s' : σ}, J s → run step s ls = some s' → J s' := by
    intro ls s s' h hrun
    have hmeets : Meets step (fun _ _ => True) s ls := meets_of_forall fun _ _ => trivial
    exact (always_of_meets (fun s l s' h _ hs => hstay s l s' h hs) h hmeets).last hrun
  intro ls
  induction ls with
  | nil =>
      intro s s' h hrun
      obtain rfl := Option.some.inj hrun
      exact .inl ⟨trivial, h⟩
  | cons l ls ih =>
      intro s s' h hrun
      obtain ⟨s₁, hs, hrest⟩ := run_cons_eq_some.mp hrun
      by_cases hok : C s l
      · rcases ih (hstep s l s₁ h hok hs) hrest with ⟨hm, hI⟩ | ⟨hm, hJ⟩
        · refine .inl ⟨fun s₂ hs₂ => ?_, hI⟩
          obtain rfl := Option.some.inj (hs.symm.trans hs₂)
          exact ⟨hok, hm⟩
        · exact .inr ⟨fun hall => hm (hall s₁ hs).2, hJ⟩
      · exact .inr ⟨fun hall => hok (hall s₁ hs).1, hkeep (hbad s l s₁ h hok hs) hrest⟩

/-- Where an invariant kept by the steps that meet `C` makes `D` follow
from `C`, a run that tries only steps meeting `C` tries only steps
meeting `D`. -/
theorem guards_of_guards {I : σ → Prop} {C D : σ → ℓ → Prop}
    (hstep : ∀ s l s', I s → C s l → step s l = some s' → I s')
    (himp : ∀ s l, I s → C s l → D s l) :
    ∀ {ls : List ℓ} {s : σ}, I s → Guards step C s ls → Guards step D s ls := by
  intro ls
  induction ls with
  | nil =>
      intro s _ _
      trivial
  | cons l ls ih =>
      intro s h hg
      exact ⟨himp s l h hg.1, fun s' hs => ih (hstep s l s' h hg.1 hs) (hg.2 s' hs)⟩

/-- Conditions that agree as long as an invariant holds, which steps
meeting the first keep, guard the same runs. -/
theorem guards_iff_guards {I : σ → Prop} {C D : σ → ℓ → Prop}
    (hstep : ∀ s l s', I s → C s l → step s l = some s' → I s')
    (hagree : ∀ s l, I s → (C s l ↔ D s l)) {ls : List ℓ} {s : σ} (h : I s) :
    Guards step C s ls ↔ Guards step D s ls := by
  constructor
  · exact guards_of_guards hstep (fun s l hI hc => (hagree s l hI).mp hc) h
  · refine guards_of_guards (fun s l s' hI hd hs => ?_) (fun s l hI hd => (hagree s l hI).mpr hd) h
    exact hstep s l s' hI ((hagree s l hI).mpr hd) hs

/-! ## Composed runs -/

theorem run_append {s : σ} {ls ls' : List ℓ} :
    run step s (ls ++ ls') = (run step s ls).bind fun s' => run step s' ls' := by
  induction ls generalizing s with
  | nil => rfl
  | cons l ls ih =>
      rw [List.cons_append, run, run, Option.bind_assoc]
      exact congrArg _ (funext fun s' => ih)

/-- Where the steps that meet `C` can be made, so can a run of them. -/
theorem run_of_guards {I : σ → Prop} {C : σ → ℓ → Prop}
    (hstep : ∀ s l, I s → C s l → ∃ s', step s l = some s' ∧ I s') :
    ∀ {ls ls' : List ℓ} {s : σ}, I s → Guards step C s (ls ++ ls') →
      ∃ s', run step s ls = some s' ∧ I s' ∧ Guards step C s' ls' := by
  intro ls ls'
  induction ls with
  | nil => exact fun h hg => ⟨_, rfl, h, hg⟩
  | cons l ls ih =>
      intro s h hg
      obtain ⟨s₁, hs, h₁⟩ := hstep s l h hg.1
      obtain ⟨s', hrun, hrest⟩ := ih h₁ (hg.2 s₁ hs)
      exact ⟨s', run_cons_eq_some.mpr ⟨s₁, hs, hrun⟩, hrest⟩

/-! ## Steps that count -/

/-- Where every step of a kind takes from a measure, a run of them is no
longer than the measure. -/
theorem length_add_le {I : σ → Prop} {K : ℓ → Prop} {m : σ → Nat}
    (hstep : ∀ s l s', I s → K l → step s l = some s' → I s' ∧ m s' + 1 ≤ m s) :
    ∀ {ls : List ℓ} {s s' : σ}, I s → (∀ l ∈ ls, K l) → run step s ls = some s' →
      I s' ∧ m s' + ls.length ≤ m s := by
  intro ls
  induction ls with
  | nil =>
      intro s s' h _ hrun
      obtain rfl := Option.some.inj hrun
      exact ⟨h, Nat.le_refl _⟩
  | cons l ls ih =>
      intro s s' h hls hrun
      obtain ⟨s₁, hs, hrest⟩ := run_cons_eq_some.mp hrun
      obtain ⟨hl, hls⟩ := List.forall_mem_cons.mp hls
      obtain ⟨h₁, hle⟩ := hstep s l s₁ h hl hs
      obtain ⟨h', hsum⟩ := ih h₁ hls hrest
      exact ⟨h', by rw [List.length_cons]; omega⟩

/-! ## Refinement -/

/-- What no step of a kind changes, no run of them does. -/
theorem run_frame {α : Type} {f : σ → α} {K : ℓ → Prop}
    (hstep : ∀ s l s', K l → step s l = some s' → f s' = f s) :
    ∀ {ls : List ℓ} {s s' : σ}, (∀ l ∈ ls, K l) → run step s ls = some s' → f s' = f s := by
  intro ls
  induction ls with
  | nil =>
      intro s s' _ hrun
      obtain rfl := Option.some.inj hrun
      rfl
  | cons l ls ih =>
      intro s s' hls hrun
      obtain ⟨s₁, hs, hrest⟩ := run_cons_eq_some.mp hrun
      obtain ⟨hl, hls⟩ := List.forall_mem_cons.mp hls
      exact (ih hls hrest).trans (hstep s l s₁ hl hs)

end Runs

end MiscTools
