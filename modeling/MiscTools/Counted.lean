/-!
# Counted loops

`for (i = lo; i < n; ++i)` and `for (i = hi; i >= lo; --i)` with a body
that does not touch the counter and may fail: `countUp` and `countDown`.
Each comes with the rule for what is left by a loop that returns, and the
rule for a loop whose body always returns.

In a `while` loop it is the turns that are counted: `whileUpTo` takes as
many as there are, up to a number. With an invariant and a measure the
loop ends (`whileUpTo_ends`), with an invariant that implies its condition
it never does (`whileUpTo_forever`).
-/

namespace MiscTools

namespace Counted

universe u v

variable {ε : Type u} {σ : Type v}

def countUp (body : Int → σ → Except ε σ) (n i : Int) (s : σ) : Except ε σ :=
  if i < n then
    match body i s with
    | .error e => .error e
    | .ok s' => countUp body n (i + 1) s'
  else .ok s
termination_by (n - i).toNat

def countDown (body : Int → σ → Except ε σ) (lo i : Int) (s : σ) : Except ε σ :=
  if lo ≤ i then
    match body i s with
    | .error e => .error e
    | .ok s' => countDown body lo (i - 1) s'
  else .ok s
termination_by (i + 1 - lo).toNat

variable {body : Int → σ → Except ε σ}

theorem countUp_of_le {n i : Int} (h : n ≤ i) (s : σ) : countUp body n i s = .ok s := by
  rw [countUp, if_neg (by omega)]

theorem countUp_succ {n i : Int} {s s' : σ} (h : i < n) (hs : body i s = .ok s') :
    countUp body n i s = countUp body n (i + 1) s' := by
  rw [countUp, if_pos h, hs]

theorem countUp_error {n i : Int} {s : σ} {e : ε} (h : i < n) (hs : body i s = .error e) :
    countUp body n i s = .error e := by
  rw [countUp, if_pos h, hs]

theorem countDown_of_lt {lo i : Int} (h : i < lo) (s : σ) : countDown body lo i s = .ok s := by
  rw [countDown, if_neg (by omega)]

theorem countDown_pred {lo i : Int} {s s' : σ} (h : lo ≤ i) (hs : body i s = .ok s') :
    countDown body lo i s = countDown body lo (i - 1) s' := by
  rw [countDown, if_pos h, hs]

/-- What every turn keeps, if it returns, holds after a loop that
returns. -/
theorem countUp_invariant {I : Int → σ → Prop} {n lo : Int}
    (hbody : ∀ i s s', lo ≤ i → i < n → I i s → body i s = .ok s' → I (i + 1) s') :
    ∀ {s s' : σ}, lo ≤ n → I lo s → countUp body n lo s = .ok s' → I n s' := by
  have hfrom : ∀ (k : Nat) (i : Int) {s s' : σ}, lo ≤ i → i + k = n → I i s →
      countUp body n i s = .ok s' → I n s' := by
    intro k
    induction k with
    | zero =>
        intro i s s' _ hk hI h
        rw [countUp_of_le (by omega)] at h
        obtain rfl := Except.ok.inj h
        have hi : i = n := by omega
        rwa [hi] at hI
    | succ k ih =>
        intro i s s' hlo hk hI h
        have hlt : i < n := by omega
        cases hs : body i s with
        | error e =>
            rw [countUp_error hlt hs] at h
            cases h
        | ok s₁ =>
            rw [countUp_succ hlt hs] at h
            exact ih (i + 1) (by omega) (by omega) (hbody i s s₁ hlo hlt hI hs) h
  intro s s' hle hI h
  exact hfrom (n - lo).toNat lo (by omega) (by omega) hI h

/-- A loop whose turns all return, and keep an invariant, returns. -/
theorem countUp_total {I : Int → σ → Prop} {n lo : Int}
    (hbody : ∀ i s, lo ≤ i → i < n → I i s → ∃ s', body i s = .ok s' ∧ I (i + 1) s') :
    ∀ {s : σ}, lo ≤ n → I lo s → ∃ s', countUp body n lo s = .ok s' ∧ I n s' := by
  have hfrom : ∀ (k : Nat) (i : Int) {s : σ}, lo ≤ i → i + k = n → I i s →
      ∃ s', countUp body n i s = .ok s' ∧ I n s' := by
    intro k
    induction k with
    | zero =>
        intro i s _ hk hI
        have hi : i = n := by omega
        exact ⟨s, countUp_of_le (by omega) s, by rwa [hi] at hI⟩
    | succ k ih =>
        intro i s hlo hk hI
        have hlt : i < n := by omega
        obtain ⟨s₁, hs, hI₁⟩ := hbody i s hlo hlt hI
        rw [countUp_succ hlt hs]
        exact ih (i + 1) (by omega) (by omega) hI₁
  intro s hle hI
  exact hfrom (n - lo).toNat lo (by omega) (by omega) hI

theorem countDown_total {I : Int → σ → Prop} {lo hi : Int}
    (hbody : ∀ i s, lo ≤ i → i ≤ hi → I i s → ∃ s', body i s = .ok s' ∧ I (i - 1) s') :
    ∀ {s : σ}, lo ≤ hi + 1 → I hi s → ∃ s', countDown body lo hi s = .ok s' ∧ I (lo - 1) s' := by
  have hfrom : ∀ (k : Nat) (i : Int) {s : σ}, i ≤ hi → lo + k = i + 1 → I i s →
      ∃ s', countDown body lo i s = .ok s' ∧ I (lo - 1) s' := by
    intro k
    induction k with
    | zero =>
        intro i s _ hk hI
        have hi : i = lo - 1 := by omega
        exact ⟨s, countDown_of_lt (by omega) s, by rwa [hi] at hI⟩
    | succ k ih =>
        intro i s hle hk hI
        have hlo : lo ≤ i := by omega
        obtain ⟨s₁, hs, hI₁⟩ := hbody i s hlo hle hI
        rw [countDown_pred hlo hs]
        exact ih (i - 1) (by omega) (by omega) hI₁
  intro s hle hI
  exact hfrom (hi + 1 - lo).toNat hi (by omega) (by omega) hI

/-! ## Loops on a condition -/

section While

variable {go : σ → Prop} [DecidablePred go] {turn : σ → Except ε σ} {I : σ → Prop}

def whileUpTo (go : σ → Prop) [DecidablePred go] (turn : σ → Except ε σ) : Nat → σ → Except ε σ
  | 0, s => .ok s
  | k + 1, s =>
      if go s then
        match turn s with
        | .error e => .error e
        | .ok s' => whileUpTo go turn k s'
      else .ok s

theorem whileUpTo_stop {s : σ} (h : ¬go s) (k : Nat) : whileUpTo go turn k s = .ok s := by
  cases k with
  | zero => rfl
  | succ k => rw [whileUpTo, if_neg h]

theorem whileUpTo_succ {s s' : σ} (h : go s) (hs : turn s = .ok s') (k : Nat) :
    whileUpTo go turn (k + 1) s = whileUpTo go turn k s' := by
  rw [whileUpTo, if_pos h, hs]

/-- After any number of turns the loop has not failed. -/
theorem whileUpTo_invariant (hturn : ∀ s, I s → go s → ∃ s', turn s = .ok s' ∧ I s') (k : Nat) :
    ∀ {s : σ}, I s → ∃ s', whileUpTo go turn k s = .ok s' ∧ I s' := by
  induction k with
  | zero => exact fun {s} hI => ⟨s, rfl, hI⟩
  | succ k ih =>
      intro s hI
      by_cases hgo : go s
      · obtain ⟨s₁, hs, hI₁⟩ := hturn s hI hgo
        rw [whileUpTo_succ hgo hs]
        exact ih hI₁
      · exact ⟨s, whileUpTo_stop hgo _, hI⟩

/-- A loop in which every turn makes the measure smaller ends, after at
most as many turns as the measure says. -/
theorem whileUpTo_ends (μ : σ → Nat)
    (hturn : ∀ s, I s → go s → ∃ s', turn s = .ok s' ∧ I s' ∧ μ s' < μ s) :
    ∀ {s : σ}, I s → ∃ s', whileUpTo go turn (μ s) s = .ok s' ∧ I s' ∧ ¬go s' := by
  have hfrom : ∀ (k : Nat) {s : σ}, μ s ≤ k → I s →
      ∃ s', whileUpTo go turn k s = .ok s' ∧ I s' ∧ ¬go s' := by
    intro k
    induction k with
    | zero =>
        intro s hk hI
        refine ⟨s, rfl, hI, fun hgo => ?_⟩
        obtain ⟨s₁, -, -, hlt⟩ := hturn s hI hgo
        omega
    | succ k ih =>
        intro s hk hI
        by_cases hgo : go s
        · obtain ⟨s₁, hs, hI₁, hlt⟩ := hturn s hI hgo
          rw [whileUpTo_succ hgo hs]
          exact ih (by omega) hI₁
        · exact ⟨s, whileUpTo_stop hgo _, hI, hgo⟩
  exact fun {s} hI => hfrom (μ s) (Nat.le_refl _) hI

theorem whileUpTo_forever (hgo : ∀ s, I s → go s)
    (hturn : ∀ s, I s → ∃ s', turn s = .ok s' ∧ I s') {s : σ} (hI : I s) (k : Nat) :
    ∃ s', whileUpTo go turn k s = .ok s' ∧ go s' := by
  have hrun : ∃ s', whileUpTo go turn k s = .ok s' ∧ I s' :=
    whileUpTo_invariant (fun s hI _ => hturn s hI) k hI
  obtain ⟨s', hs, hI'⟩ := hrun
  exact ⟨s', hs, hgo s' hI'⟩

end While

end Counted

end MiscTools
