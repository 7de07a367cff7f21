import MiscTools.Meters
import MiscTools.PrfmOps

/-!
# What a probe accumulates

`prfm_stop` forms the difference of two readings in its local variable and
adds it to the sum where the sum is. Three times and fourteen counters run
side by side, and the flags say which of them run at all. `Selected`
quantifies over those, as meters, so that a fact about one meter is a fact
about every selected metric (`Selected.imp`).

A pair returns exactly if the selected meters do not overflow in it
(`yields_pair`), and so does a run of pairs (`yields_pairs`); where the
readings do not go back this is a condition on the readings alone
(`pairs_return_iff`). The accumulators are then runs of their meters
(`after_accum`), and these are exact.
-/

namespace MiscTools.Prfm

/-! ## The metrics as meters -/

theorem stamp_addFits_iff {base : Int} {s t : Stamp} (hs : s.Normal base) (ht : t.Normal base)
    (hsv : 0 ≤ s.value base) (htv : 0 ≤ t.value base) :
    FitsLong (s.sec + t.sec) ∧ FitsLong (Stamp.add base s t).sec ↔
      s.value base + t.value base < 2 ^ 63 * base := by
  have hsec := hs.sec_nonneg hsv
  have htsec := ht.sec_nonneg htv
  have hle : s.sec + t.sec ≤ (Stamp.add base s t).sec := by
    unfold Stamp.add
    split
    next => exact Int.le_of_lt (Int.lt_succ _)
    next => exact Int.le_refl _
  rw [← Stamp.value_add, (hs.add ht).value_lt_iff]
  constructor
  · exact fun h => h.2.2
  · intro h
    exact ⟨⟨by omega, by omega⟩, by omega, h⟩

/-- A time with `base` fractions to the second. -/
def clock (base : Int) : Meter Stamp where
  value := Stamp.value base
  Good := Stamp.Normal base
  add := Stamp.add base
  sub := Stamp.sub base
  AddFits s t := FitsLong (s.sec + t.sec) ∧ FitsLong (Stamp.add base s t).sec
  SubFits s t := FitsLong (s.sec - t.sec) ∧ FitsLong (Stamp.sub base s t).sec
  limit := 2 ^ 63 * base
  value_add := Stamp.value_add base
  value_sub := Stamp.value_sub base
  good_add := Stamp.Normal.add
  good_sub := Stamp.Normal.sub
  addFits_iff := stamp_addFits_iff

def counter : Meter Int where
  value x := x
  Good _ := True
  add x y := x + y
  sub x y := x - y
  AddFits x y := FitsLong (x + y)
  SubFits x y := FitsLong (x - y)
  limit := 2 ^ 63
  value_add _ _ := rfl
  value_sub _ _ := rfl
  good_add _ _ := trivial
  good_sub _ _ := trivial
  addFits_iff := by
    intro x y _ _ hx hy
    exact ⟨fun h => h.2, fun h => ⟨by omega, h⟩⟩

/-- `φ` holds of every metric that the flags select: of the meter it is
read on and the field it is kept in. -/
def Selected (flags : BitVec 32) (φ : ∀ {α : Type}, Meter α → (Metrics → α) → Prop) : Prop :=
  (flags &&& prfm_TIME ≠ 0 → φ (clock 1000000000) fun t => t.tm) ∧
    (flags &&& prfm_RUSAGE ≠ 0 →
      φ (clock 1000000) (fun t => t.ru.utime) ∧ φ (clock 1000000) (fun t => t.ru.stime) ∧
        ∀ c, φ counter fun t => t.ru.count c)

/-! ## One pair -/

/-- What `capture` leaves in `t` if it reads `s`. -/
def taken (flags : BitVec 32) (t s : Metrics) : Metrics where
  tm := if flags &&& prfm_TIME ≠ 0 then s.tm else t.tm
  ru := if flags &&& prfm_RUSAGE ≠ 0 then s.ru else t.ru

theorem capture_os (t s : Metrics) (flags : BitVec 32) (who : Int) :
    capture t flags who s.os = .ok (taken flags t s) := by
  unfold taken capture
  split <;> split <;> rfl

theorem taken_tm {flags : BitVec 32} (h : flags &&& prfm_TIME ≠ 0) (t s : Metrics) :
    (taken flags t s).tm = s.tm :=
  if_pos h

theorem taken_ru {flags : BitVec 32} (h : flags &&& prfm_RUSAGE ≠ 0) (t s : Metrics) :
    (taken flags t s).ru = s.ru :=
  if_pos h

def timeSpent (start stop : Stamp) : Stamp := Stamp.sub 1000000000 stop start

def usageSpent (start stop : Rusage) : Rusage :=
  usage (Stamp.sub 1000000) (· - ·) stop start

/-- The accumulated time after an interval. -/
def timeAfter (acc start stop : Stamp) : Stamp := Stamp.add 1000000000 (timeSpent start stop) acc

def usageAfter (acc start stop : Rusage) : Rusage :=
  usage (Stamp.add 1000000) (· + ·) (usageSpent start stop) acc

def TimeFits (acc start stop : Stamp) : Prop :=
  (clock 1000000000).SubFits stop start ∧ (clock 1000000000).AddFits (timeSpent start stop) acc

def UsageAfterFits (acc start stop : Rusage) : Prop :=
  UsageFits (clock 1000000).SubFits (· - ·) stop start ∧
    UsageFits (clock 1000000).AddFits (· + ·) (usageSpent start stop) acc

/-- The difference goes to the local variable, and from there into the
sum. -/
theorem yields_time {m : Place → Stamp} (hstart : (m .start).Normal 1000000000)
    (hcurr : (m .curr).Normal 1000000000) (haccum : (m .accum).Normal 1000000000) :
    Yields (do timespecadd .curr .accum .accum (← timespecsub .curr .start .curr m))
      (TimeFits (m .accum) (m .start) (m .curr))
      (Function.update (Function.update m .curr (timeSpent (m .start) (m .curr))) .accum
        (timeAfter (m .accum) (m .start) (m .curr))) :=
  (yields_stampSub (by decide) hcurr hstart).bind fun _ =>
    yields_stampAdd (by decide) (hcurr.sub hstart) haccum

theorem yields_rusage {m : Place → Rusage} (hstart : (m .start).Normal)
    (hcurr : (m .curr).Normal) (haccum : (m .accum).Normal) :
    Yields (do rusageAdd .curr .accum .accum (← rusageSub .curr .start .curr m))
      (UsageAfterFits (m .accum) (m .start) (m .curr))
      (Function.update (Function.update m .curr (usageSpent (m .start) (m .curr))) .accum
        (usageAfter (m .accum) (m .start) (m .curr))) :=
  (yields_rusageSub hcurr hstart).bind fun _ =>
    yields_rusageAdd ⟨hcurr.utime.sub hstart.utime, hcurr.stime.sub hstart.stime⟩ haccum

/-- The accumulated metrics after an interval. -/
def Probe.gained (r : Probe) (start stop : Metrics) : Metrics where
  tm := if r.time then timeAfter r.accum.tm start.tm stop.tm else r.accum.tm
  ru := if r.rusage then usageAfter r.accum.ru start.ru stop.ru else r.accum.ru

/-- Only what the flags select is looked at. -/
theorem gained_congr {r : Probe} {s s' t t' : Metrics}
    (htime : r.time → s.tm = s'.tm ∧ t.tm = t'.tm)
    (husage : r.rusage → s.ru = s'.ru ∧ t.ru = t'.ru) : r.gained s t = r.gained s' t' := by
  unfold Probe.gained
  congr 1
  · exact ite_congr rfl (fun h => by rw [(htime h).1, (htime h).2]) fun _ => rfl
  · exact ite_congr rfl (fun h => by rw [(husage h).1, (husage h).2]) fun _ => rfl

def places (start curr accum : Metrics) : Place → Metrics
  | .start => start
  | .curr => curr
  | .accum => accum

/-- The lines for one field, which run if `b`, change it in the local
variable and in the sum. -/
theorem yields_lines {α : Type} {b : Prop} [Decidable b] {get : Metrics → α}
    {set : Metrics → α → Metrics} {f : (Place → α) → Except Stop (Place → α)}
    {m : Place → Metrics} {p : Prop} {x y : α} (hset : ∀ t, set t (get t) = t)
    (hf : b → Yields (f fun q => get (m q)) p
      (Function.update (Function.update (fun q => get (m q)) .curr x) .accum y)) :
    Yields (if b then onField get set f m else .ok m) (b → p)
      (places (m .start) (set (m .curr) (if b then x else get (m .curr)))
        (set (m .accum) (if b then y else get (m .accum)))) := by
  refine (Yields.ite fun hb : b => yields_onField (hf hb)).congr Iff.rfl (funext fun q => ?_)
  by_cases hb : b
  · simp only [if_pos hb]
    cases q with
    | start => exact hset _
    | curr => rfl
    | accum => rfl
  · simp only [if_neg hb, hset]
    cases q <;> rfl

theorem yields_prfmStop {r : Probe} {junk s : Metrics}
    (htime : r.time → r.start.tm.Normal 1000000000 ∧ s.tm.Normal 1000000000 ∧
      r.accum.tm.Normal 1000000000)
    (husage : r.rusage → r.start.ru.Normal ∧ s.ru.Normal ∧ r.accum.ru.Normal) :
    Yields (prfmStop r junk s.os)
      ((r.time → TimeFits r.accum.tm r.start.tm s.tm) ∧
        (r.rusage → UsageAfterFits r.accum.ru r.start.ru s.ru))
      { r with accum := r.gained r.start s } := by
  have hcurr : Yields (capture junk r.flags r.who s.os) True (taken r.flags junk s) := by
    rw [capture_os]
    exact yields_ok _
  generalize hc : taken r.flags junk s = curr at hcurr
  have htm : r.time → curr.tm = s.tm := fun h => hc ▸ taken_tm h junk s
  have hru : r.rusage → curr.ru = s.ru := fun h => hc ▸ taken_ru h junk s
  have hrun : Yields (prfmStop r junk s.os)
      (True ∧ (r.time → TimeFits r.accum.tm r.start.tm curr.tm) ∧
        (r.rusage → UsageAfterFits r.accum.ru r.start.ru curr.ru) ∧ True)
      { r with accum := r.gained r.start curr } :=
    hcurr.bind fun _ =>
      (yields_lines (fun _ => rfl) fun h =>
        yields_time (htime h).1 (htm h ▸ (htime h).2.1) (htime h).2.2).ite_bind fun _ =>
      (yields_lines (fun _ => rfl) fun h =>
        yields_rusage (husage h).1 (hru h ▸ (husage h).2.1) (husage h).2.2).ite_bind fun _ =>
      yields_ok _
  have hgained : r.gained r.start curr = r.gained r.start s :=
    gained_congr (fun h => ⟨rfl, htm h⟩) fun h => ⟨rfl, hru h⟩
  refine hrun.congr ?_ (by rw [hgained])
  rw [true_and, and_true]
  exact and_congr (forall_congr' fun h => by rw [htm h]) (forall_congr' fun h => by rw [hru h])

/-- The probe after a pair. -/
def Probe.next (r : Probe) (p : Pair) : Probe :=
  { r with start := taken r.flags r.start p.start, accum := r.gained p.start p.stop }

theorem usageAfterFits_iff (acc : Metrics) (p : Pair) :
    UsageAfterFits acc.ru p.start.ru p.stop.ru ↔
      (clock 1000000).AfterFits (fun p : Pair => p.start.ru.utime) (fun p => p.stop.ru.utime)
          acc.ru.utime p ∧
        (clock 1000000).AfterFits (fun p : Pair => p.start.ru.stime) (fun p => p.stop.ru.stime)
            acc.ru.stime p ∧
          ∀ c, counter.AfterFits (fun p : Pair => p.start.ru.count c)
            (fun p => p.stop.ru.count c) (acc.ru.count c) p := by
  constructor
  · rintro ⟨⟨hus, hss, hcs⟩, hua, hsa, hca⟩
    exact ⟨⟨hus, hua⟩, ⟨hss, hsa⟩, fun c => ⟨hcs c, hca c⟩⟩
  · rintro ⟨⟨hus, hua⟩, ⟨hss, hsa⟩, hc⟩
    exact ⟨⟨hus, hss, fun c => (hc c).1⟩, hua, hsa, fun c => (hc c).2⟩

theorem yields_pair {r : Probe} {p : Pair}
    (haccum : Selected r.flags fun M get => M.Good (get r.accum))
    (hreads : Selected r.flags fun M get =>
      M.Reads (fun p : Pair => get p.start) (fun p => get p.stop) p) :
    Yields (prfmStart r p.start.os >>= fun r => prfmStop r p.junk p.stop.os)
      (Selected r.flags fun M get =>
        M.AfterFits (fun p : Pair => get p.start) (fun p => get p.stop) (get r.accum) p)
      (r.next p) := by
  have hstart : prfmStart r p.start.os = .ok { r with start := taken r.flags r.start p.start } := by
    rw [prfmStart, capture_os]
    rfl
  rw [hstart]
  have hstop : Yields
      (prfmStop { r with start := taken r.flags r.start p.start } p.junk p.stop.os) _ _ :=
    yields_prfmStop
      (fun h => by
        rw [taken_tm h]
        exact ⟨(hreads.1 h).good_start, (hreads.1 h).good_stop, haccum.1 h⟩)
      (fun h => by
        obtain ⟨hu, hs, -⟩ := hreads.2 h
        obtain ⟨hua, hsa, -⟩ := haccum.2 h
        rw [taken_ru h]
        exact ⟨⟨hu.good_start, hs.good_start⟩, ⟨hu.good_stop, hs.good_stop⟩, hua, hsa⟩)
  refine hstop.congr ?_ ?_
  · refine and_congr (forall_congr' fun h => ?_) (forall_congr' fun h => ?_)
    · rw [taken_tm h]
      exact Iff.rfl
    · rw [taken_ru h]
      exact usageAfterFits_iff ..
  · have hgained : r.gained (taken r.flags r.start p.start) p.stop = r.gained p.start p.stop :=
      gained_congr (fun h => ⟨taken_tm h .., rfl⟩) fun h => ⟨taken_ru h .., rfl⟩
    rw [Probe.next, ← hgained]
    rfl

/-! ## A run of pairs -/

section Selected

variable {flags : BitVec 32} {φ ψ : ∀ {α : Type}, Meter α → (Metrics → α) → Prop}

theorem Selected.imp (h : Selected flags φ)
    (himp : ∀ {α : Type} (M : Meter α) (get : Metrics → α), φ M get → ψ M get) :
    Selected flags ψ :=
  ⟨fun ht => himp _ _ (h.1 ht), fun hu =>
    ⟨himp _ _ (h.2 hu).1, himp _ _ (h.2 hu).2.1, fun c => himp _ _ ((h.2 hu).2.2 c)⟩⟩

theorem Selected.and (h : Selected flags φ) (h' : Selected flags ψ) :
    Selected flags fun M get => φ M get ∧ ψ M get :=
  ⟨fun ht => ⟨h.1 ht, h'.1 ht⟩, fun hu =>
    ⟨⟨(h.2 hu).1, (h'.2 hu).1⟩, ⟨(h.2 hu).2.1, (h'.2 hu).2.1⟩,
      fun c => ⟨(h.2 hu).2.2 c, (h'.2 hu).2.2 c⟩⟩⟩

theorem Selected.congr (h : Selected flags fun M get => φ M get ↔ ψ M get) :
    Selected flags φ ↔ Selected flags ψ :=
  ⟨fun hφ => (h.and hφ).imp fun _ _ h => h.1.mp h.2,
    fun hψ => (h.and hψ).imp fun _ _ h => h.1.mpr h.2⟩

end Selected

def Probe.after (r : Probe) : List Pair → Probe
  | [] => r
  | p :: ps => (r.next p).after ps

theorem next_accum (r : Probe) (p : Pair) : Selected r.flags fun M get =>
    get (r.next p).accum =
      M.after (fun p : Pair => get p.start) (fun p => get p.stop) (get r.accum) p := by
  refine ⟨fun ht => if_pos ht, fun hu => ?_⟩
  have hru : (r.next p).accum.ru = usageAfter r.accum.ru p.start.ru p.stop.ru := if_pos hu
  exact ⟨congrArg Rusage.utime hru, congrArg Rusage.stime hru,
    fun c => congrFun (congrArg Rusage.count hru) c⟩

/-- Each selected metric runs by itself. -/
theorem after_accum (r : Probe) (ps : List Pair) : Selected r.flags fun M get =>
    get (r.after ps).accum =
      M.run (fun p : Pair => get p.start) (fun p => get p.stop) (get r.accum) ps := by
  induction ps generalizing r with
  | nil => exact ⟨fun _ => rfl, fun _ => ⟨rfl, rfl, fun _ => rfl⟩⟩
  | cons p ps ih =>
    refine ((next_accum r p).and (ih (r.next p))).imp fun M get h => ?_
    rw [Meter.run, ← h.1]
    exact h.2

/-- What is not selected stays as it is. -/
theorem after_unselected (r : Probe) (ps : List Pair) :
    (¬r.time → (r.after ps).accum.tm = r.accum.tm ∧ (r.after ps).start.tm = r.start.tm) ∧
      (¬r.rusage → (r.after ps).accum.ru = r.accum.ru ∧ (r.after ps).start.ru = r.start.ru) := by
  induction ps generalizing r with
  | nil => exact ⟨fun _ => ⟨rfl, rfl⟩, fun _ => ⟨rfl, rfl⟩⟩
  | cons p ps ih =>
    obtain ⟨htime, husage⟩ := ih (r.next p)
    refine ⟨fun h => ?_, fun h => ?_⟩
    · exact ⟨(htime h).1.trans (if_neg h), (htime h).2.trans (if_neg h)⟩
    · exact ⟨(husage h).1.trans (if_neg h), (husage h).2.trans (if_neg h)⟩

theorem pairs_cons (r : Probe) (p : Pair) (ps : List Pair) :
    pairs r (p :: ps) =
      (prfmStart r p.start.os >>= fun r => prfmStop r p.junk p.stop.os) >>=
        fun r => pairs r ps := by
  rw [pairs, bind_assoc]

/-- The pairs return exactly if every selected metric runs without an
overflow. -/
theorem yields_pairs {r : Probe} {ps : List Pair}
    (haccum : Selected r.flags fun M get => M.Good (get r.accum))
    (hreads : Selected r.flags fun M get =>
      ∀ p ∈ ps, M.Reads (fun p : Pair => get p.start) (fun p => get p.stop) p) :
    Yields (pairs r ps)
      (Selected r.flags fun M get =>
        M.RunFits (fun p : Pair => get p.start) (fun p => get p.stop) (get r.accum) ps)
      (r.after ps) := by
  induction ps generalizing r with
  | nil =>
    have hfits : Selected r.flags fun M get =>
        M.RunFits (fun p : Pair => get p.start) (fun p => get p.stop) (get r.accum) [] :=
      ⟨fun _ => trivial, fun _ => ⟨trivial, trivial, fun _ => trivial⟩⟩
    exact (yields_ok r).congr (iff_of_true trivial hfits) rfl
  | cons p ps ih =>
    have hp := hreads.imp fun M get h => h p List.mem_cons_self
    have hps := hreads.imp fun M get h q hq => h q (List.mem_cons_of_mem p hq)
    have hnext : Selected (r.next p).flags fun M get => M.Good (get (r.next p).accum) :=
      ((next_accum r p).and (hp.and haccum)).imp fun M get h => by
        rw [h.1]
        exact Meter.good_after h.2.1 h.2.2
    rw [pairs_cons]
    refine ((yields_pair haccum hp).bind fun _ => ih hnext hps).congr ?_ rfl
    constructor
    · rintro ⟨hpair, hrun⟩
      refine ((next_accum r p).and (hpair.and hrun)).imp fun M get h => ?_
      rw [h.1] at h
      exact h.2
    · intro hrun
      refine ⟨hrun.imp fun M get h => h.1, ((next_accum r p).and hrun).imp fun M get h => ?_⟩
      rw [h.1]
      exact h.2.2

/-! ## From the initialisation on -/

/-- What `reset` makes of the metrics `t`. -/
def Probe.cleared (r : Probe) (t : Metrics) : Metrics where
  tm := if r.time then .zero else t.tm
  ru := if r.rusage then rusageClear t.ru else t.ru

theorem reset_eq (r : Probe) :
    reset r = { r with start := r.cleared r.start, accum := r.cleared r.accum } := by
  unfold reset Probe.cleared
  by_cases ht : r.time
  · by_cases hu : r.rusage
    · simp only [if_pos ht, if_pos hu]
      exact if_pos hu
    · simp only [if_pos ht, if_neg hu]
      exact if_neg hu
  · by_cases hu : r.rusage
    · simp only [if_neg ht, if_pos hu]
    · simp only [if_neg ht, if_neg hu]

theorem prfmXinit_eq (r : Probe) (flags : BitVec 32) (who : Int) :
    prfmXinit r flags who =
      { who := who
        flags := flags
        start := Probe.cleared { r with flags := flags } r.start
        accum := Probe.cleared { r with flags := flags } r.accum } := by
  rw [prfmXinit, reset_eq]

/-- The sums begin with nothing. -/
theorem xinit_accum (r : Probe) (flags : BitVec 32) (who : Int) :
    Selected flags fun M get =>
      M.Good (get (prfmXinit r flags who).accum) ∧
        M.value (get (prfmXinit r flags who).accum) = 0 ∧ 0 < M.limit := by
  rw [prfmXinit_eq]
  refine ⟨fun ht => ?_, fun hu => ?_⟩
  · have htm : (Probe.cleared { r with flags := flags } r.accum).tm = .zero := if_pos ht
    dsimp only
    rw [htm]
    exact ⟨Stamp.normal_zero (by decide), Stamp.value_zero _, by decide⟩
  · have hru : (Probe.cleared { r with flags := flags } r.accum).ru = rusageClear r.accum.ru :=
      if_pos hu
    have hzero : (rusageClear r.accum.ru).utime = .zero ∧ (rusageClear r.accum.ru).stime = .zero :=
      ⟨rfl, rfl⟩
    dsimp only
    rw [hru, hzero.1, hzero.2]
    exact ⟨⟨Stamp.normal_zero (by decide), Stamp.value_zero _, by decide⟩,
      ⟨Stamp.normal_zero (by decide), Stamp.value_zero _, by decide⟩,
      fun c => ⟨trivial, if_pos (mem_counters c), by decide⟩⟩

/-- The readings of each selected metric are normal and do not go back
within a pair. -/
def Reads (flags : BitVec 32) (ps : List Pair) : Prop :=
  Selected flags fun M get =>
    ∀ p ∈ ps, M.Reads (fun p : Pair => get p.start) (fun p => get p.stop) p

/-- Each difference of readings fits, and so does their sum. -/
def Fits (flags : BitVec 32) (ps : List Pair) : Prop :=
  Selected flags fun M get =>
    (∀ p ∈ ps, M.SubFits (get p.stop) (get p.start)) ∧
      total (M.diff (fun p : Pair => get p.start) fun p => get p.stop) ps < M.limit

theorem fits_iff {flags : BitVec 32} {ps : List Pair} (hreads : Reads flags ps) (r : Probe)
    (who : Int) :
    Fits flags ps ↔ Selected flags fun M get =>
      M.RunFits (fun p : Pair => get p.start) (fun p => get p.stop)
        (get (prfmXinit r flags who).accum) ps := by
  refine Selected.congr ((hreads.and (xinit_accum r flags who)).imp fun M get h => ?_)
  obtain ⟨hreads, hgood, hzero, hpos⟩ := h
  rw [Meter.runFits_iff hreads hgood (by omega) (by omega), hzero, Int.zero_add]

theorem yields_from_xinit {flags : BitVec 32} {ps : List Pair} (hreads : Reads flags ps)
    (r : Probe) (who : Int) :
    Yields (pairs (prfmXinit r flags who) ps) (Fits flags ps)
      ((prfmXinit r flags who).after ps) := by
  have hflags : (prfmXinit r flags who).flags = flags := by rw [prfmXinit_eq]
  refine (yields_pairs ?_ ?_).congr ?_ rfl
  · rw [hflags]
    exact (xinit_accum r flags who).imp fun M get h => h.1
  · rw [hflags]
    exact hreads
  · rw [hflags]
    exact (fits_iff hreads r who).symm

/-- `Fits` says exactly that no `long` overflows. -/
theorem pairs_return_iff {flags : BitVec 32} {ps : List Pair} (hreads : Reads flags ps)
    (r : Probe) (who : Int) :
    (∃ r', pairs (prfmXinit r flags who) ps = .ok r') ↔ Fits flags ps := by
  have hrun := yields_from_xinit hreads r who
  constructor
  · rintro ⟨r', hr'⟩
    exact ((hrun r').mp hr').1
  · exact fun hfits => ⟨_, hrun.eq_ok hfits⟩

/-- Every selected sum is the sum of the differences of the readings. -/
theorem after_xinit {flags : BitVec 32} {ps : List Pair} (hreads : Reads flags ps) (r : Probe)
    (who : Int) : Selected flags fun M get =>
      M.value (get ((prfmXinit r flags who).after ps).accum) =
          total (M.diff (fun p : Pair => get p.start) fun p => get p.stop) ps ∧
        M.Good (get ((prfmXinit r flags who).after ps).accum) := by
  have hflags : (prfmXinit r flags who).flags = flags := by rw [prfmXinit_eq]
  have hrun := after_accum (prfmXinit r flags who) ps
  rw [hflags] at hrun
  refine ((hreads.and (xinit_accum r flags who)).and hrun).imp fun M get h => ?_
  obtain ⟨⟨hreads, hgood, hzero, -⟩, hrun⟩ := h
  rw [hrun, Meter.value_run, hzero, Int.zero_add]
  exact ⟨rfl, Meter.good_run hreads hgood⟩

/-- **Accumulation is exact.** From any state of the probe's memory, for
any flags and any pairs of readings that do not go back: the selected
times are normalised and stand for the sums of the differences, the
counters are those sums, and what is not selected stays as it was before
the initialisation. -/
theorem accum_exact (r₀ : Probe) (flags : BitVec 32) (who : Int) (ps : List Pair)
    (hreads : Reads flags ps) (hfits : Fits flags ps) :
    ∃ r, pairs (prfmXinit r₀ flags who) ps = .ok r ∧
      (flags &&& prfm_TIME ≠ 0 →
        r.accum.tm.value 1000000000 =
            total (fun p => p.stop.tm.value 1000000000 - p.start.tm.value 1000000000) ps ∧
          r.accum.tm.Normal 1000000000) ∧
      (flags &&& prfm_RUSAGE ≠ 0 →
        (r.accum.ru.utime.value 1000000 =
            total (fun p => p.stop.ru.utime.value 1000000 - p.start.ru.utime.value 1000000) ps ∧
          r.accum.ru.utime.Normal 1000000) ∧
        (r.accum.ru.stime.value 1000000 =
            total (fun p => p.stop.ru.stime.value 1000000 - p.start.ru.stime.value 1000000) ps ∧
          r.accum.ru.stime.Normal 1000000) ∧
        ∀ c, r.accum.ru.count c = total (fun p => p.stop.ru.count c - p.start.ru.count c) ps) ∧
      (flags &&& prfm_TIME = 0 → r.accum.tm = r₀.accum.tm ∧ r.start.tm = r₀.start.tm) ∧
      (flags &&& prfm_RUSAGE = 0 → r.accum.ru = r₀.accum.ru ∧ r.start.ru = r₀.start.ru) := by
  obtain ⟨htime, husage⟩ := after_xinit hreads r₀ who
  obtain ⟨htime', husage'⟩ := after_unselected (prfmXinit r₀ flags who) ps
  refine ⟨_, (yields_from_xinit hreads r₀ who).eq_ok hfits, htime, fun h => ?_, fun h => ?_,
    fun h => ?_⟩
  · obtain ⟨hutime, hstime, hcount⟩ := husage h
    exact ⟨hutime, hstime, fun c => (hcount c).1⟩
  · rw [prfmXinit_eq] at htime' ⊢
    obtain ⟨haccum, hstart⟩ := htime' fun ht => ht h
    exact ⟨haccum.trans (if_neg fun ht => ht h), hstart.trans (if_neg fun ht => ht h)⟩
  · rw [prfmXinit_eq] at husage' ⊢
    obtain ⟨haccum, hstart⟩ := husage' fun hu => hu h
    exact ⟨haccum.trans (if_neg fun hu => hu h), hstart.trans (if_neg fun hu => hu h)⟩

def reading (tm utime : Stamp) (n : Int) : Metrics :=
  ⟨tm, ⟨utime, .zero, fun _ => n⟩⟩

/-- Differences of 1.2 and 1.9 seconds, each with a borrow, whose sum
carries. -/
def borrowCarry : List Pair :=
  [⟨reading ⟨1, 900000000⟩ ⟨0, 900000⟩ 3, reading ⟨3, 100000000⟩ ⟨1, 100000⟩ 8,
      reading ⟨0, 0⟩ ⟨0, 0⟩ 0⟩,
    ⟨reading ⟨3, 500000000⟩ ⟨1, 500000⟩ 3, reading ⟨5, 400000000⟩ ⟨2, 400000⟩ 8,
      reading ⟨7, 7⟩ ⟨7, 7⟩ 7⟩]

theorem borrowCarry_reads (flags : BitVec 32) : Reads flags borrowCarry := by
  refine ⟨fun _ => ?_, fun _ => ⟨?_, ?_, fun c => ?_⟩⟩
  all_goals
    refine List.forall_mem_cons.mpr ⟨?_, List.forall_mem_cons.mpr ⟨?_, List.forall_mem_nil _⟩⟩
  all_goals first
    | exact ⟨⟨by decide, by decide⟩, ⟨by decide, by decide⟩, by decide⟩
    | exact ⟨trivial, trivial, (by decide : (3 : Int) ≤ 8)⟩

theorem borrowCarry_fits (flags : BitVec 32) : Fits flags borrowCarry := by
  have hcount : (8 - 3 : Int) + (8 - 3 + 0) < 2 ^ 63 := by decide
  refine ⟨fun _ => ⟨?_, by decide⟩,
    fun _ => ⟨⟨?_, by decide⟩, ⟨?_, by decide⟩, fun c => ⟨?_, hcount⟩⟩⟩
  all_goals
    refine List.forall_mem_cons.mpr ⟨?_, List.forall_mem_cons.mpr ⟨?_, List.forall_mem_nil _⟩⟩
  all_goals first
    | exact ⟨⟨by decide, by decide⟩, ⟨by decide, by decide⟩⟩
    | exact (by decide : FitsLong (8 - 3))

theorem accum_exact_borrowCarry : ∃ r,
    pairs (prfmXinit ⟨0, 0, reading ⟨4, 4⟩ ⟨4, 4⟩ 4, reading ⟨5, 5⟩ ⟨5, 5⟩ 5⟩ 3 0) borrowCarry =
        .ok r ∧
      r.accum.tm.value 1000000000 = 3100000000 ∧ r.accum.tm.Normal 1000000000 ∧
      r.accum.ru.utime.value 1000000 = 1100000 ∧ r.accum.ru.count .minflt = 10 := by
  obtain ⟨r, hr, htime, husage, -⟩ :=
    accum_exact ⟨0, 0, reading ⟨4, 4⟩ ⟨4, 4⟩ 4, reading ⟨5, 5⟩ ⟨5, 5⟩ 5⟩ 3 0 borrowCarry
      (borrowCarry_reads 3) (borrowCarry_fits 3)
  obtain ⟨htm, hnormal⟩ := htime (by decide)
  obtain ⟨hutime, -, hcount⟩ := husage (by decide)
  exact ⟨r, hr, htm, hnormal, hutime.1, hcount .minflt⟩

end MiscTools.Prfm
