/-!
# Loops that wait for answers

A loop makes one call a turn and goes on with what comes back. `exit`
says whether a state leaves the loop, and with which result; `turn` is
the body, given the answer to its call, and is undefined where the call
cannot be answered like that. `drive` feeds a list of answers to the
loop: the result is there once the loop is left, and the answers it has
not taken come back with it.

`drive_invariant` is the rule for what the loop does, `drive_simulates`
the one for two loops that are given the same answers. Both ask for one
turn and return the whole loop.
-/

namespace MiscTools

universe u v w

structure Loop (σ : Type u) (ℓ : Type v) (ρ : Type w) where
  exit : σ → Option ρ
  turn : σ → ℓ → Option σ

namespace Loop

variable {σ σ' : Type u} {ℓ : Type v} {ρ : Type w}

/-- The result if the loop is left, the state it stopped in, and the
answers that are left. -/
def drive (L : Loop σ ℓ ρ) (s : σ) : List ℓ → Option ρ × σ × List ℓ
  | [] => (L.exit s, s, [])
  | l :: ls =>
      match L.exit s with
      | some r => (some r, s, l :: ls)
      | none =>
          match L.turn s l with
          | none => (none, s, l :: ls)
          | some s' => drive L s' ls

/-- A loop that is not left at once takes an answer. -/
theorem drive_takes {L : Loop σ ℓ ρ} {s s' : σ} {events rest : List ℓ} {r : ρ}
    (hexit : L.exit s = none) (h : L.drive s events = (some r, s', rest)) :
    rest.length < events.length := by
  have hle : ∀ (events : List ℓ) (s : σ), (L.drive s events).2.2.length ≤ events.length := by
    intro events
    induction events with
    | nil =>
        intro s
        exact Nat.le_refl _
    | cons l ls ih =>
        intro s
        rw [drive]
        split
        · exact Nat.le_refl _
        · split
          · exact Nat.le_refl _
          · exact Nat.le_succ_of_le (ih _)
  cases events with
  | nil =>
      rw [drive, hexit] at h
      cases h
  | cons l ls =>
      simp only [drive, hexit] at h
      cases hs : L.turn s l with
      | none =>
          rw [hs] at h
          cases h
      | some s₁ =>
          rw [hs] at h
          dsimp only at h
          have hlen := hle ls s₁
          rw [h] at hlen
          exact Nat.lt_succ_of_le hlen

/-- What holds at the start and is kept by every turn, together with the
answers taken so far, holds where the loop stops. -/
theorem drive_invariant {L : Loop σ ℓ ρ} {I : List ℓ → σ → Prop}
    (hturn : ∀ {used : List ℓ} {s s' : σ} {l : ℓ}, I used s → L.exit s = none →
      L.turn s l = some s' → I (used ++ [l]) s') :
    ∀ {events used : List ℓ} {s s' : σ} {r : Option ρ} {rest : List ℓ}, I used s →
      L.drive s events = (r, s', rest) →
      ∃ taken, events = taken ++ rest ∧ I (used ++ taken) s' ∧ r = L.exit s' := by
  intro events
  induction events with
  | nil =>
      intro used s s' r rest hI h
      cases h
      exact ⟨[], rfl, by rwa [List.append_nil], rfl⟩
  | cons l ls ih =>
      intro used s s' r rest hI h
      rw [drive] at h
      cases hexit : L.exit s with
      | some v =>
          rw [hexit] at h
          cases h
          exact ⟨[], rfl, by rwa [List.append_nil], hexit.symm⟩
      | none =>
          rw [hexit] at h
          cases hs : L.turn s l with
          | none =>
              rw [hs] at h
              cases h
              exact ⟨[], rfl, by rwa [List.append_nil], hexit.symm⟩
          | some s₁ =>
              rw [hs] at h
              obtain ⟨taken, hsplit, hI', hstop⟩ := ih (hturn hI hexit hs) h
              refine ⟨l :: taken, by rw [hsplit, List.cons_append], ?_, hstop⟩
              rwa [List.append_assoc] at hI'

/-- Two loops in related states that leave with related results and stay
related turn by turn stop after the same answers. -/
theorem drive_simulates {ρ' : Type w} {L : Loop σ ℓ ρ} {L' : Loop σ' ℓ ρ'} {R : σ → σ' → Prop}
    {Q : ρ → ρ' → Prop}
    (hexit : ∀ {s : σ} {s' : σ'}, R s s' → Option.Rel Q (L.exit s) (L'.exit s'))
    (hturn : ∀ {s : σ} {s' : σ'} {l : ℓ}, R s s' → L.exit s = none → L'.exit s' = none →
      Option.Rel R (L.turn s l) (L'.turn s' l)) :
    ∀ (events : List ℓ) {s : σ} {s' : σ'}, R s s' →
      Option.Rel Q (L.drive s events).1 (L'.drive s' events).1
        ∧ R (L.drive s events).2.1 (L'.drive s' events).2.1
        ∧ (L.drive s events).2.2 = (L'.drive s' events).2.2 := by
  intro events
  induction events with
  | nil =>
      intro s s' hR
      exact ⟨hexit hR, hR, rfl⟩
  | cons l ls ih =>
      intro s s' hR
      have hout := hexit hR
      simp only [drive]
      cases hs : L.exit s with
      | some r =>
          rw [hs] at hout
          cases hs' : L'.exit s' with
          | none =>
              rw [hs'] at hout
              cases hout
          | some r' =>
              rw [hs'] at hout
              exact ⟨hout, hR, rfl⟩
      | none =>
          rw [hs] at hout
          cases hs' : L'.exit s' with
          | some r' =>
              rw [hs'] at hout
              cases hout
          | none =>
              have hnext := hturn (l := l) hR hs hs'
              cases ht : L.turn s l with
              | none =>
                  rw [ht] at hnext
                  cases ht' : L'.turn s' l with
                  | none => exact ⟨Option.Rel.none, hR, rfl⟩
                  | some t' =>
                      rw [ht'] at hnext
                      cases hnext
              | some t =>
                  rw [ht] at hnext
                  cases ht' : L'.turn s' l with
                  | none =>
                      rw [ht'] at hnext
                      cases hnext
                  | some t' =>
                      rw [ht'] at hnext
                      cases hnext with
                      | some hR' => exact ih hR'

end Loop

/-! ## Answers without end -/

section

variable {ℓ : Type v}

/-- The first `n` answers. -/
def firsts (ans : Nat → ℓ) : Nat → List ℓ
  | 0 => []
  | n + 1 => ans 0 :: firsts (fun i => ans (i + 1)) n

theorem mem_firsts {ans : Nat → ℓ} {a : ℓ} {n : Nat} (h : a ∈ firsts ans n) : ∃ i, a = ans i := by
  induction n generalizing ans with
  | zero => cases h
  | succ n ih =>
      rcases List.mem_cons.mp h with rfl | h
      · exact ⟨0, rfl⟩
      · obtain ⟨i, hi⟩ := ih h
        exact ⟨i + 1, hi⟩

end

end MiscTools
