import MiscTools.EvrdrFollow
import MiscTools.FrelayTurn

/-!
# Whether the reader keeps up

The reader is told of a file that loses its name only while it watches the
file, and it opens a file in one call and watches it from another on. The
runs in which it never sits on the wrong file are those in which nothing
happens to the name in between (`stale_iff`).

In those runs it catches up when the others leave it alone (`catches_up`):
every step of its own takes from `Sys.toDo`, and wherever it can make none it
waits at the end of the file that has the name. `Watching` is what makes the
steps count: the events at hand are still true when they are looked at, so
none of them finds a file with nothing to read.
-/

namespace MiscTools

namespace Evrdr

open Fdio Vnodes Runs

/-! ## Files that have lost their name -/

def Pc.isLeft : Pc → Bool
  | .left _ => true
  | _ => false

/-- The reader has a file open that has lost the name, and nothing will ever
say so. -/
def Stale (o : Cliopt) (s : Sys) : Prop :=
  ∃ fd, s.fd = some fd ∧ s.pc.isLeft = false ∧ fd.noted = false ∧ s.pc.told = false ∧
    s.files.dir o.fpath ≠ some fd.vnode

/-- The call takes the name off the file of the descriptor. -/
def Takes (o : Cliopt) (s : Sys) (fd : Fd) (a : Act CStr UInt8) : Prop :=
  s.files.dir o.fpath = some fd.vnode ∧
    ∀ r ∈ s.files.act a, r.1.dir o.fpath ≠ some fd.vnode

instance (o : Cliopt) (s : Sys) (fd : Fd) (a : Act CStr UInt8) : Decidable (Takes o s fd a) := by
  unfold Takes
  infer_instance

/-- What another process does. -/
def Label.act : Label → Option (Act CStr UInt8)
  | .other a => some a
  | _ => none

/-- A file loses the name only while it is watched. -/
def Watched (o : Cliopt) (s : Sys) (l : Label) : Prop :=
  ∀ a ∈ l.act, ∀ fd ∈ s.fd,
    fd.vnodeFilter.isSome = true ∨ s.pc.told = true ∨ s.pc.isLeft = true ∨ ¬Takes o s fd a

instance (o : Cliopt) (s : Sys) (l : Label) : Decidable (Watched o s l) := by
  unfold Watched
  infer_instance

structure Aware (o : Cliopt) (s : Sys) : Prop where
  aware : ∀ {fd}, s.fd = some fd → s.pc.isLeft = false →
    fd.noted = true ∨ s.pc.told = true ∨ s.files.dir o.fpath = some fd.vnode
  fresh : ∀ {fd reopened}, s.fd = some fd → s.pc = .adding .vnode reopened →
    fd.vnodeFilter = none

theorem noted_of_note {fd : Fd} {notes : List (Nat × Note)}
    (h : fd.noted = true ∨ fd.vnodeFilter ≠ none ∧ ∃ note, (fd.vnode, note) ∈ notes) :
    (fd.note notes).noted = true := by
  cases hf : fd.vnodeFilter with
  | none =>
      rcases h with h | ⟨h, -⟩
      · simp [Fd.noted, hf] at h
      · exact absurd hf h
  | some f =>
      simp only [Fd.noted, Fd.note, hf, Option.map_some, Option.any_some, Bool.or_eq_true,
        List.contains_iff_mem] at h ⊢
      rcases h with (h | h) | ⟨-, note, hnote⟩
      · exact .inl (.inl h)
      · exact .inr (.inl h)
      · cases note with
        | delete => exact .inl (.inr hnote)
        | rename => exact .inr (.inr hnote)

theorem aware_start (o : Cliopt) {files : Files CStr UInt8} {v : Nat}
    (hv : files.dir o.fpath = some v) : Aware o (.start files v) where
  aware hfd _ := by
    cases hfd
    exact .inr (.inr hv)
  fresh hfd _ := by
    cases hfd
    rfl

theorem Aware.not_stale {o : Cliopt} {s : Sys} (h : Aware o s) : ¬Stale o s := by
  rintro ⟨fd, hfd, hleft, hnoted, htold, hdir⟩
  rcases h.aware hfd hleft with h | h | h
  · rw [hnoted] at h
    cases h
  · rw [htold] at h
    cases h
  · exact hdir h

theorem Aware.act {o : Cliopt} {s : Sys} {files : Files CStr UInt8} {a : Act CStr UInt8}
    {notes : List (Nat × Note)} (h : Aware o s) (hwatched : Watched o s (.other a))
    (hact : s.files.act a = some (files, notes)) :
    Aware o { s with files := files, fd := s.fd.map (Fd.note notes) } where
  aware {fd} hfd hleft := by
    obtain ⟨fd₀, hfd₀, rfl⟩ := Option.map_eq_some_iff.mp hfd
    by_cases htold : s.pc.told = true
    · exact .inr (.inl htold)
    rcases h.aware hfd₀ hleft with hnoted | hold | hdir
    · exact .inl (noted_of_note (.inl hnoted))
    · exact absurd hold htold
    rcases Files.noted_of_lost hact hdir with hkept | hnote
    · exact .inr (.inr hkept)
    by_cases hnew : files.dir o.fpath = some fd₀.vnode
    · exact .inr (.inr hnew)
    have htakes : Takes o s fd₀ a := ⟨hdir, fun r hr => by
      cases Option.some.inj (hact.symm.trans hr)
      exact hnew⟩
    rcases hwatched a rfl fd₀ hfd₀ with hfilter | hold | hgone | hnot
    · exact .inl (noted_of_note (.inr ⟨Option.isSome_iff_ne_none.mp hfilter, hnote⟩))
    · exact absurd hold htold
    · exact absurd (hgone.symm.trans hleft) (by simp)
    · exact absurd htakes hnot
  fresh {fd reopened} hfd hpc := by
    obtain ⟨fd₀, hfd₀, rfl⟩ := Option.map_eq_some_iff.mp hfd
    show fd₀.vnodeFilter.map _ = none
    rw [h.fresh hfd₀ hpc, Option.map_none]

theorem next_isLeft (i : Nat) (rest : List Kevent) (flags : Bool) :
    (Sys.next i rest flags).isLeft = false := by
  cases rest <;> cases flags <;> rfl

theorem next_ne_adding (i : Nat) (rest : List Kevent) (flags : Bool) (filter : Filter)
    (reopened : Bool) : Sys.next i rest flags ≠ .adding filter reopened := by
  cases rest <;> cases flags <;> simp [Sys.next]

/-- A step that leaves the files alone and does not forget. -/
theorem Aware.same {o : Cliopt} {s s' : Sys} (h : Aware o s) (hfiles : s'.files = s.files)
    (hleft : s.pc.isLeft = false)
    (hpc : s'.pc.isLeft = true ∨ ∀ fd', s'.fd = some fd' → ∃ fd, s.fd = some fd ∧
      fd.vnode = fd'.vnode ∧ (fd.noted = true → fd'.noted = true ∨ s'.pc.told = true) ∧
      (s.pc.told = true → s'.pc.told = true))
    (hfresh : ∀ reopened, s'.pc ≠ .adding .vnode reopened) : Aware o s' where
  aware {fd'} hfd' hgoing := by
    rcases hpc with hgone | hpc
    · rw [hgone] at hgoing
      cases hgoing
    obtain ⟨fd, hfd, hvnode, hnoted, htold⟩ := hpc fd' hfd'
    rw [hfiles, ← hvnode]
    rcases h.aware hfd hleft with h | h | h
    · exact (hnoted h).imp id .inl
    · exact .inr (.inl (htold h))
    · exact .inr (.inr h)
  fresh hfd hpc := absurd hpc (hfresh _)

theorem Aware.step {o : Cliopt} {s s' : Sys} {l : Label} (h : Aware o s) (hl : Watched o s l)
    (hs : step o s l = some s') : Aware o s' := by
  cases step_cases hs with
  | other hact => exact h.act hl hact
  | @addVnode fd reopened hpc hfd =>
      refine h.same rfl (by rw [hpc]; rfl) (.inr fun fd' hfd' => ?_) (by simp)
      cases hfd'
      refine ⟨fd, hfd, rfl, fun hnoted => ?_, fun htold => ?_⟩
      · rw [Fd.noted, h.fresh hfd hpc] at hnoted
        cases hnoted
      · rw [hpc] at htold
        cases htold
  | @addRead fd reopened _ _ hpc hfd hout =>
      refine h.same rfl (by rw [hpc]; rfl) (.inr fun fd' hfd' => ?_) (by simp)
      cases hfd'
      refine ⟨fd, hfd, rfl, fun hnoted => .inl hnoted, fun htold => ?_⟩
      rw [hpc] at htold
      cases htold
  | @unwatched fd filter _ _ hpc hfd hout =>
      refine h.same rfl (by rw [hpc]; rfl) (.inr fun fd' hfd' => ?_) (by simp)
      refine ⟨fd', hfd', rfl, fun hnoted => .inl hnoted, fun htold => ?_⟩
      rw [hpc] at htold
      cases htold
  | @events fd ev rest hpc hfd hperm =>
      refine h.same rfl (by rw [hpc]; rfl) (.inr fun fd' hfd' => ?_) (by simp)
      cases hfd'
      refine ⟨fd, hfd, rfl, fun hnoted => .inr ?_, fun htold => ?_⟩
      · rw [Pc.told, told_events hperm, hnoted]
        rfl
      · rw [hpc] at htold
        cases htold
  | timeout hpc hfd hnone hout =>
      exact h.same rfl (by rw [hpc]; rfl) (.inl rfl) (by simp)
  | @vnode fd i f rest flags answers _ hpc hfd hout =>
      refine h.same rfl (by rw [hpc]; rfl) (.inr fun fd' hfd' => ?_)
        (fun reopened => next_ne_adding _ _ _ _ _)
      refine ⟨fd', hfd', rfl, fun hnoted => .inl hnoted, fun htold => ?_⟩
      rw [hpc, Pc.told, List.any_cons, ← Bool.or_assoc] at htold
      rw [next_told]
      exact htold
  | @nothing fd i offset rest flags answers hpc hfd hoffset =>
      refine h.same rfl (by rw [hpc]; rfl) (.inr fun fd' hfd' => ?_)
        (fun reopened => next_ne_adding _ _ _ _ _)
      refine ⟨fd', hfd', rfl, fun hnoted => .inl hnoted, fun htold => ?_⟩
      rw [hpc, Pc.told, List.any_cons] at htold
      rw [next_told]
      exact htold
  | @read fd i offset rest flags answers buf _ hpc hfd hgave =>
      refine h.same rfl (by rw [hpc]; rfl) (.inr fun fd' hfd' => ?_)
        (fun reopened => next_ne_adding _ _ _ _ _)
      cases hfd'
      refine ⟨fd, hfd, rfl, fun hnoted => .inl hnoted, fun htold => ?_⟩
      rw [hpc, Pc.told, List.any_cons] at htold
      rw [next_told]
      exact htold
  | readNone hpc hfd hoffset hnone hout =>
      exact h.same rfl (by rw [hpc]; rfl) (.inl rfl) (by simp)
  | close hpc hfd =>
      exact h.same rfl (by rw [hpc]; rfl) (.inr fun fd' hfd' => by cases hfd') (by simp)
  | @open_ files notes v hpc hact hv =>
      refine ⟨fun hfd _ => ?_, fun hfd _ => ?_⟩
      · cases hfd
        exact .inr (.inr hv)
      · cases hfd
        rfl
  | fails hl hpc hout =>
      have hgoing : s.pc.isLeft = false := by
        cases hp : s.pc <;> first | rfl | exact (hpc _ hp).elim
      exact h.same rfl hgoing (.inl rfl) (by simp)

/-- **The reader is told, or there was nobody to tell.** It never sits on a
file that has lost the name without knowing it in exactly those runs in which
no other process takes the name off between the opening of a file and the
call that watches it. -/
theorem stale_iff (o : Cliopt) {files : Files CStr UInt8} {v : Nat}
    (hv : files.dir o.fpath = some v) (ls : List Label) :
    Always (step o) (fun s => ¬Stale o s) (.start files v) ls ↔
      Meets (step o) (Watched o) (.start files v) ls := by
  refine always_iff_meets (I := Aware o) (L := fun _ => True) ?_ (fun s h => h.not_stale) ?_
    (aware_start o hv) (fun _ _ => trivial)
  · exact fun s l s' h _ hl hs => h.step hl hs
  · intro s l s' h _ hl hs hstale
    apply hstale
    simp only [Watched, not_forall, not_or] at hl
    obtain ⟨a, ha, fd, hfd, hfilter, htold, hleft, htakes⟩ := hl
    cases step_cases hs with
    | @other _ files notes hact =>
        cases ha
        rw [Bool.not_eq_true] at htold hleft
        refine ⟨fd.note notes, ?_, hleft, ?_, htold, ?_⟩
        · show s.fd.map _ = _
          rw [Option.mem_def.mp hfd, Option.map_some]
        · simp [Fd.noted, Fd.note, Option.not_isSome_iff_eq_none.mp hfilter]
        · exact (Decidable.not_not.mp htakes).2 _ hact
    | fails hl =>
        cases l with
        | other a => exact absurd trivial hl
        | _ => cases ha
    | _ => cases ha

/-- The reader reads on and the writer makes the next file while the reader
is between the two calls. -/
def traceMissed : List Label :=
  [.other (.rename log log1), .other (.unlink log1), .other (.creat log true), .add true, .add true]

theorem stale_iff_traceMissed :
    Always (step logOpt) (fun s => ¬Stale logOpt s) (.start logFiles 0) traceRoll ∧
      ¬Always (step logOpt) (fun s => ¬Stale logOpt s) (.start logFiles 0) traceMissed :=
  ⟨(stale_iff logOpt rfl traceRoll).mpr (by decide +kernel),
    fun h => absurd ((stale_iff logOpt rfl traceMissed).mp h) (by decide +kernel)⟩

/-! ## The events at hand -/

def Kevent.reads : Kevent → Bool
  | .evfiltRead _ => true
  | .evfiltVnode _ => false

/-- The events that have been fetched and not been looked at. -/
def Pc.batch : Pc → List Kevent
  | .handling _ ev rest _ => ev :: rest
  | _ => []

/-- Both filters are added before the reader waits, and what it has been told
to read is there. -/
structure Watching (s : Sys) : Prop where
  going : s.pc.isLeft = false
  opened : s.pc ≠ .opening → s.fd ≠ none
  reads : ∀ {fd}, s.fd = some fd → s.pc = .waiting ∨ s.pc.batch ≠ [] → fd.readFilter = true
  batch : ∀ {fd} {offset : Int}, s.fd = some fd → .evfiltRead offset ∈ s.pc.batch →
    0 < offset ∧ offset ≤ (fd.unread s.files).length
  once : s.pc.batch.countP Kevent.reads ≤ 1

theorem next_batch (i : Nat) (rest : List Kevent) (flags : Bool) :
    (Sys.next i rest flags).batch = rest := by
  cases rest <;> cases flags <;> rfl

theorem mem_events {fd : Fd} {size : Nat} {offset : Int}
    (h : .evfiltRead offset ∈ fd.events size) :
    fd.readFilter = true ∧ size ≠ fd.pos ∧ offset = size - fd.pos := by
  rcases List.mem_append.mp h with h | h
  · split at h
    · obtain ⟨f, -, heq⟩ := List.mem_map.mp h
      cases heq
    · cases h
  · split at h
    · rename_i hread
      cases List.mem_singleton.mp h
      exact ⟨hread.1, hread.2, rfl⟩
    · cases h

theorem count_events (fd : Fd) (size : Nat) :
    (fd.events size).countP Kevent.reads = if fd.readFilter ∧ size ≠ fd.pos then 1 else 0 := by
  have hvnode : (if fd.noted then fd.vnodeFilter.toList.map Kevent.evfiltVnode
      else []).countP Kevent.reads = 0 := by
    split
    · cases fd.vnodeFilter <;> rfl
    · rfl
  rw [Fd.events, List.countP_append, hvnode]
  split <;> rfl

theorem length_events (fd : Fd) (size : Nat) :
    (fd.events size).length = (if fd.noted then 1 else 0)
      + if fd.readFilter ∧ size ≠ fd.pos then 1 else 0 := by
  have hvnode : (if fd.noted then fd.vnodeFilter.toList.map Kevent.evfiltVnode
      else []).length = if fd.noted then 1 else 0 := by
    cases hf : fd.vnodeFilter with
    | none => simp [Fd.noted, hf]
    | some f => split <;> rfl
  have hread : (if fd.readFilter ∧ size ≠ fd.pos then
      [Kevent.evfiltRead (size - fd.pos)] else []).length
        = if fd.readFilter ∧ size ≠ fd.pos then 1 else 0 := by
    split <;> rfl
  rw [Fd.events, List.length_append, hvnode, hread]

theorem watching_start {files : Files CStr UInt8} (v : Nat) : Watching (.start files v) where
  going := rfl
  opened _ h := by cases h
  reads _ h := by rcases h with h | h <;> exact absurd h (by simp [Sys.start, Pc.batch])
  batch _ h := by cases h
  once := Nat.zero_le _

theorem unread_act {files files' : Files CStr UInt8} {fd : Fd} {a : Act CStr UInt8}
    {notes : List (Nat × Note)} (hkeeps : files.Keeps a)
    (hact : files.act a = some (files', notes)) :
    (fd.unread files).length ≤ ((fd.note notes).unread files').length := by
  have hle := (Files.act_grows hkeeps hact fd.vnode).length_le
  rw [Fd.unread, Fd.unread, List.length_drop, List.length_drop, Fd.note_vnode, Fd.note_pos]
  omega

theorem Watching.act {s : Sys} {files : Files CStr UInt8} {a : Act CStr UInt8}
    {notes : List (Nat × Note)} (h : Watching s) (hkeeps : s.files.Keeps a)
    (hact : s.files.act a = some (files, notes)) :
    Watching { s with files := files, fd := s.fd.map (Fd.note notes) } where
  going := h.going
  opened hpc hnone := h.opened hpc (Option.map_eq_none_iff.mp hnone)
  reads hfd hpc := by
    obtain ⟨fd₀, hfd₀, rfl⟩ := Option.map_eq_some_iff.mp hfd
    exact (h.reads hfd₀ hpc : fd₀.readFilter = true)
  batch {fd offset} hfd hmem := by
    obtain ⟨fd₀, hfd₀, rfl⟩ := Option.map_eq_some_iff.mp hfd
    obtain ⟨hpos, hle⟩ := h.batch hfd₀ hmem
    exact ⟨hpos, Int.le_trans hle (Int.ofNat_le.mpr (unread_act hkeeps hact))⟩
  once := h.once

/-- A step to a place where no event is at hand. -/
theorem Watching.idle {s' : Sys} (hgoing : s'.pc.isLeft = false)
    (hopened : s'.pc ≠ .opening → s'.fd ≠ none) (hbatch : s'.pc.batch = [])
    (hreads : s'.pc = .waiting → ∀ fd, s'.fd = some fd → fd.readFilter = true) : Watching s' where
  going := hgoing
  opened := hopened
  reads hfd h := h.elim (fun hpc => hreads hpc _ hfd) fun hne => absurd hbatch hne
  batch _ h := by rw [hbatch] at h; cases h
  once := by rw [hbatch]; exact Nat.zero_le _

/-- The next turn of the loop over the events. -/
theorem Watching.next {s s' : Sys} {i : Nat} {ev : Kevent} {rest : List Kevent}
    {flags flags' : Bool} {fd fd' : Fd} (h : Watching s) (hpc : s.pc = .handling i ev rest flags)
    (hfd : s.fd = some fd) (hpc' : s'.pc = Sys.next i rest flags') (hfd' : s'.fd = some fd')
    (hread : fd'.readFilter = fd.readFilter)
    (hbatch : ∀ offset : Int, .evfiltRead offset ∈ rest →
      0 < offset ∧ offset ≤ (fd'.unread s'.files).length) : Watching s' where
  going := by rw [hpc']; exact next_isLeft _ _ _
  opened _ := by rw [hfd']; exact Option.some_ne_none _
  reads hs _ := by
    cases hfd'.symm.trans hs
    rw [hread]
    exact h.reads hfd (.inr (by rw [hpc]; exact List.cons_ne_nil _ _))
  batch hs hmem := by
    cases hfd'.symm.trans hs
    rw [hpc', next_batch] at hmem
    exact hbatch _ hmem
  once := by
    have hle := h.once
    rw [hpc, Pc.batch, List.countP_cons] at hle
    rw [hpc', next_batch]
    omega

/-- An event of a read finds something to read. -/
theorem Watching.something {s : Sys} {i : Nat} {offset : Int} {rest : List Kevent} {flags : Bool}
    {fd : Fd} (h : Watching s) (hpc : s.pc = .handling i (.evfiltRead offset) rest flags)
    (hfd : s.fd = some fd) : 0 < offset ∧ fd.unread s.files ≠ [] := by
  have hmem : .evfiltRead offset ∈ s.pc.batch := by rw [hpc]; exact List.mem_cons_self
  obtain ⟨hpos, hle⟩ := h.batch hfd hmem
  refine ⟨hpos, fun hnil => ?_⟩
  rw [hnil] at hle
  exact absurd hpos (Int.not_lt.mpr hle)

theorem Watching.step {o : Cliopt} {s s' : Sys} {l : Label} (h : Watching s) (hread : Reading o s)
    (hl : Grows s l) (hsound : l.Sound) (hs : step o s l = some s') : Watching s' := by
  cases step_cases hs with
  | other hact => exact h.act hl hact
  | addVnode hpc hfd => exact .idle rfl (by simp) rfl (by simp)
  | addRead hpc hfd hout =>
      refine .idle rfl (by simp) rfl fun _ fd' hfd' => ?_
      cases hfd'
      rfl
  | unwatched hpc hfd hout => exact absurd hsound (by simp [Label.Sound])
  | @events fd ev rest hpc hfd hperm =>
      refine ⟨rfl, by simp, fun hfd' _ => ?_, fun {fd' offset} hfd' hmem => ?_, ?_⟩
      · cases hfd'
        exact (h.reads hfd (.inl hpc) : fd.readFilter = true)
      · cases hfd'
        obtain ⟨-, hne, rfl⟩ := mem_events (hperm.mem_iff.mp hmem)
        have hpos := (hread.own fd hfd).pos
        show (0 : Int) < _ ∧ _ ≤ ((((s.files.file fd.vnode).drop fd.pos).length : Nat) : Int)
        rw [List.length_drop]
        omega
      · show (ev :: rest).countP Kevent.reads ≤ 1
        rw [hperm.countP_eq, count_events]
        split <;> omega
  | timeout hpc hfd hnone hout => exact absurd hsound (by simp [Label.Sound])
  | @vnode fd i f rest flags answers _ hpc hfd hout =>
      refine h.next hpc hfd rfl hfd rfl fun offset hmem => ?_
      exact h.batch hfd (by rw [hpc]; exact List.mem_cons_of_mem _ hmem)
  | @nothing fd i offset rest flags answers hpc hfd hoffset =>
      refine h.next hpc hfd rfl hfd rfl fun offset hmem => ?_
      exact h.batch hfd (by rw [hpc]; exact List.mem_cons_of_mem _ hmem)
  | @read fd i offset rest flags answers buf _ hpc hfd hgave =>
      refine h.next hpc hfd rfl rfl rfl fun offset' hmem => ?_
      -- the event at hand was the only one of its kind
      have hle := h.once
      have hcount : 0 < rest.countP Kevent.reads := List.countP_pos_iff.mpr ⟨_, hmem, rfl⟩
      rw [hpc, Pc.batch, List.countP_cons, if_pos (by rfl)] at hle
      omega
  | @readNone fd i offset rest flags answers _ _ hpc hfd hoffset hnone hout =>
      exact absurd (hnone hsound) (h.something hpc hfd).2
  | close hpc hfd => exact .idle rfl (by simp) rfl (by simp)
  | open_ hpc hact hv => exact .idle rfl (by simp) rfl (by simp)
  | fails hl hpc hout => exact absurd hsound hl

/-! ## Catching up -/

/-- How long the file is that has the name. -/
def Sys.ahead (o : Cliopt) (s : Sys) : Nat :=
  match s.files.dir o.fpath with
  | some v => (s.files.file v).length
  | none => 0

/-- The steps of opening the file anew and reading it. -/
def Sys.anew (o : Cliopt) (s : Sys) : Nat := 3 * s.ahead o + 4

/-- The same, with those before it, if there is a note to be fetched first. -/
def Sys.later (o : Cliopt) (s : Sys) (fd : Fd) : Nat := if fd.noted then s.anew o + 3 else 0

/-- A bound on the steps before the reader waits with nothing to do. A byte
may take a call of `kevent` and one of `read`. -/
def Sys.toDo (o : Cliopt) (s : Sys) : Nat :=
  match s.pc, s.fd with
  | .adding .vnode _, some fd => 3 * (fd.unread s.files).length + 2
  | .adding .read _, some fd => 3 * (fd.unread s.files).length + 1 + s.later o fd
  | .waiting, some fd => 3 * (fd.unread s.files).length + s.later o fd
  | .handling _ ev rest flags, some fd =>
      3 * (fd.unread s.files).length + (ev :: rest).length
        - 2 * (ev :: rest).countP Kevent.reads
        + if flags || (ev :: rest).any Kevent.tells then s.anew o else s.later o fd
  | .closing, _ => s.anew o
  | .opening, _ => 3 * s.ahead o + 3
  | _, _ => 0

/-- The reader makes the step, and no call fails. -/
def Label.Own : Label → Prop
  | .other _ => False
  | l => l.Sound

theorem Label.Own.sound {l : Label} (h : l.Own) : l.Sound := by
  cases l with
  | other a => cases h
  | _ => exact h

theorem Label.Own.grows {l : Label} (h : l.Own) (s : Sys) : Grows s l := by
  cases l with
  | other a => cases h
  | _ => trivial

theorem Label.Own.watched {l : Label} (h : l.Own) (o : Cliopt) (s : Sys) : Watched o s l := by
  intro a ha
  cases l with
  | other a => cases h
  | _ => cases ha

theorem ahead_creat {o : Cliopt} {s : Sys} {files : Files CStr UInt8} {notes : List (Nat × Note)}
    {v : Nat} (hact : s.files.act (.creat o.fpath false) = some (files, notes))
    (hv : files.dir o.fpath = some v) : (files.file v).length = s.ahead o := by
  cases Files.act_cases hact with
  | create trunc hnone =>
      have hnew : v = s.files.content.length := by
        simp only [Files.create, Function.update_self] at hv
        exact (Option.some.inj hv).symm
      rw [Sys.ahead, hnone, Files.file_create, hnew]
      simp [Files.file]
  | same => rw [Sys.ahead, hv]

/-- What is left after a turn of the loop over the events. -/
theorem toDo_next {o : Cliopt} {s t : Sys} {i : Nat} {rest : List Kevent} {flags : Bool} {fd : Fd}
    (hpc : t.pc = Sys.next i rest flags) (hfd : t.fd = some fd) (hfiles : t.files = s.files) :
    t.toDo o ≤ 3 * (fd.unread s.files).length + rest.length - 2 * rest.countP Kevent.reads
      + if flags || rest.any Kevent.tells then s.anew o else s.later o fd := by
  have hahead : t.ahead o = s.ahead o := by rw [Sys.ahead, Sys.ahead, hfiles]
  have hanew : t.anew o = s.anew o := by rw [Sys.anew, Sys.anew, hahead]
  have hlater : ∀ fd, t.later o fd = s.later o fd := fun fd => by rw [Sys.later, Sys.later, hanew]
  simp only [Sys.toDo, hpc, hfd, hfiles, hanew, hlater]
  cases rest with
  | nil =>
      cases flags
      · exact Nat.le_refl _
      · exact Nat.le_add_left _ _
  | cons ev rest => exact Nat.le_refl _

theorem toDo_handling {o : Cliopt} {s : Sys} {i : Nat} {ev : Kevent} {rest : List Kevent}
    {flags : Bool} {fd : Fd} (hpc : s.pc = .handling i ev rest flags) (hfd : s.fd = some fd) :
    s.toDo o = 3 * (fd.unread s.files).length + (ev :: rest).length
      - 2 * (ev :: rest).countP Kevent.reads
      + if flags || (ev :: rest).any Kevent.tells then s.anew o else s.later o fd := by
  rw [Sys.toDo, hpc, hfd]

theorem toDo_events {o : Cliopt} {s s' : Sys} {fd : Fd} {ev : Kevent} {rest : List Kevent}
    (hpos : fd.pos ≤ (s.files.file fd.vnode).length) (hpc : s.pc = .waiting) (hfd : s.fd = some fd)
    (hperm : (ev :: rest).Perm (fd.events (s.files.file fd.vnode).length))
    (hpc' : s'.pc = .handling 0 ev rest false) (hfd' : s'.fd = some fd.cleared)
    (hfiles : s'.files = s.files) : s'.toDo o + 1 ≤ s.toDo o := by
  have hunread : (fd.unread s.files).length = (s.files.file fd.vnode).length - fd.pos :=
    List.length_drop
  have hunread' : (fd.cleared.unread s.files).length = (s.files.file fd.vnode).length - fd.pos :=
    List.length_drop
  have hanew : s'.anew o = s.anew o := by rw [Sys.anew, Sys.anew, Sys.ahead, Sys.ahead, hfiles]
  have hwaiting : s.toDo o = 3 * (fd.unread s.files).length + s.later o fd := by
    rw [Sys.toDo, hpc, hfd]
  have hlen := hperm.length_eq
  have hcount := hperm.countP_eq Kevent.reads
  have hsome : 0 < (ev :: rest).length := Nat.succ_pos _
  have hlater : s'.later o fd.cleared = 0 := by rw [Sys.later, noted_cleared]; rfl
  rw [toDo_handling hpc' hfd', hwaiting, told_events hperm, hfiles, hunread, hunread', hlater,
    hanew, Sys.later, Bool.false_or]
  rw [length_events] at hlen
  rw [count_events] at hcount
  rw [hlen] at hsome ⊢
  rw [hcount]
  by_cases hnoted : fd.noted = true
  · rw [if_pos hnoted, if_pos hnoted, if_pos hnoted]
    split <;> omega
  · rw [if_neg hnoted] at hsome
    rw [if_neg hnoted, if_neg hnoted, if_neg hnoted]
    by_cases hread : fd.readFilter = true ∧ (s.files.file fd.vnode).length ≠ fd.pos
    · rw [if_pos hread]
      omega
    · rw [if_neg hread] at hsome
      omega

theorem Gave.unread_lt {files : Files CStr UInt8} {fd : Fd} {offset : Int} {buf : List UInt8}
    (h : Gave files fd offset buf) :
    (Fd.unread files { fd with pos := fd.pos + buf.length, got := fd.got ++ buf }).length + 1 ≤
      (fd.unread files).length := by
  have hsome := List.length_pos_iff.mpr h.ne_nil
  have htake := congrArg List.length h.eq_take
  rw [List.length_take, Fd.unread, List.length_drop] at htake
  rw [Fd.unread, Fd.unread, List.length_drop, List.length_drop]
  show (files.file fd.vnode).length - (fd.pos + buf.length) + 1 ≤ _
  omega

/-- Every event of a read is paid for by a byte. -/
theorem Watching.room {s : Sys} {fd : Fd} (h : Watching s) (hfd : s.fd = some fd) :
    2 * s.pc.batch.countP Kevent.reads ≤ 3 * (fd.unread s.files).length := by
  have honce := h.once
  rcases Nat.eq_zero_or_pos (s.pc.batch.countP Kevent.reads) with hnone | hsome
  · omega
  · obtain ⟨ev, hmem, hreads⟩ := List.countP_pos_iff.mp hsome
    cases ev with
    | evfiltVnode f => cases hreads
    | evfiltRead offset =>
        obtain ⟨hpos, hle⟩ := h.batch hfd hmem
        omega

theorem toDo_step {o : Cliopt} {s s' : Sys} {l : Label} (h : Watching s) (hread : Reading o s)
    (hl : l.Own) (hs : step o s l = some s') : s'.toDo o + 1 ≤ s.toDo o := by
  have hsound := hl.sound
  cases step_cases hs with
  | other hact => cases hl
  | addVnode hpc hfd =>
      rw [Sys.toDo, Sys.toDo, hpc, hfd]
      exact Nat.le_refl _
  | @addRead fd reopened _ _ hpc hfd hout =>
      rw [Sys.toDo, Sys.toDo, hpc, hfd]
      show 3 * (fd.unread s.files).length + s.later o fd + 1 ≤ _
      exact Nat.le_of_eq (Nat.add_right_comm _ _ _)
  | unwatched hpc hfd hout => exact absurd hsound (by simp [Label.Sound])
  | events hpc hfd hperm =>
      exact toDo_events (hread.own _ hfd).pos hpc hfd hperm rfl rfl rfl
  | timeout hpc hfd hnone hout => exact absurd hsound (by simp [Label.Sound])
  | @vnode fd i f rest flags answers stdout hpc hfd hout =>
      have hnext := toDo_next (o := o) (s := s) (t := { s with
        pc := Sys.next i rest (flags || (f.noteDelete || f.noteRename)), stdout := stdout })
        rfl hfd rfl
      have hcount : (Kevent.evfiltVnode f :: rest).countP Kevent.reads = rest.countP Kevent.reads :=
        List.countP_cons_of_neg Bool.false_ne_true
      have htells : (flags || (Kevent.evfiltVnode f :: rest).any Kevent.tells)
          = (flags || (f.noteDelete || f.noteRename) || rest.any Kevent.tells) :=
        (Bool.or_assoc _ _ _).symm
      have hroom := h.room hfd
      rw [hpc, Pc.batch, hcount] at hroom
      rw [toDo_handling hpc hfd, hcount, htells, List.length_cons]
      omega
  | @nothing fd i offset rest flags answers hpc hfd hoffset =>
      exact absurd (h.something hpc hfd).1 (Int.not_lt.mpr hoffset)
  | @read fd i offset rest flags answers buf stderr hpc hfd hgave =>
      have hnext := toDo_next (o := o) (s := s) (t := { s with
        fd := some { fd with pos := fd.pos + buf.length, got := fd.got ++ buf }
        pc := Sys.next i rest flags
        stdout := s.stdout ++ .dot :: if o.print then [.block (buf.takeWhile (· ≠ 0))] else []
        stderr := stderr }) rfl rfl rfl
      have hsome := List.length_pos_iff.mpr hgave.ne_nil
      have hless := hgave.unread_lt
      have hcount : (Kevent.evfiltRead offset :: rest).countP Kevent.reads
          = rest.countP Kevent.reads + 1 := List.countP_cons_of_pos rfl
      have htells : (Kevent.evfiltRead offset :: rest).any Kevent.tells
          = rest.any Kevent.tells := rfl
      have hlater : s.later o { fd with pos := fd.pos + buf.length, got := fd.got ++ buf }
          = s.later o fd := rfl
      have hroom := h.room hfd
      rw [hpc, Pc.batch, hcount] at hroom
      rw [toDo_handling hpc hfd, hcount, htells, List.length_cons]
      rw [hlater] at hnext
      omega
  | @readNone fd i offset rest flags answers _ _ hpc hfd hoffset hnone hout =>
      exact absurd (hnone hsound) (h.something hpc hfd).2
  | close hpc hfd =>
      rw [Sys.toDo, Sys.toDo, hpc]
      exact Nat.le_refl _
  | open_ hpc hact hv =>
      rw [Sys.toDo, Sys.toDo, hpc, ← ahead_creat hact hv]
      exact Nat.le_refl _
  | fails hl hpc hout => exact absurd hsound hl

/-- The reader waits, has read the file that has the name to its end, and will
be told when that changes. -/
structure CaughtUp (o : Cliopt) (s : Sys) (fd : Fd) : Prop where
  hasFd : s.fd = some fd
  waiting : s.pc = .waiting
  name : s.files.dir o.fpath = some fd.vnode
  whole : fd.got = s.files.file fd.vnode

theorem creat_some (files : Files CStr UInt8) (n : CStr) :
    ∃ files' notes v,
      files.act (.creat n false) = some (files', notes) ∧ files'.dir n = some v := by
  cases hn : files.dir n with
  | none =>
      refine ⟨files.create n hn, [], files.content.length, ?_, Function.update_self ..⟩
      simp only [Files.act]
      split
      · rfl
      · rename_i h
        rw [hn] at h
        cases h
  | some v =>
      refine ⟨files, [], v, ?_, hn⟩
      simp only [Files.act]
      split
      · rename_i h
        rw [hn] at h
        cases h
      · rfl

/-- What there is to read is read. -/
theorem process_read (print : Bool) (k : Kernel) {offset : Int} (hpos : 0 < offset)
    (hle : offset ≤ (k.file.drop k.pos).length) :
    ∃ answers p, (Label.process answers).Own ∧
      (processEvent print k answers (.evfiltRead offset)).outcome = .returns p := by
  have hlen := readLen_le hpos
  generalize hn : (if offset.toNat ≥ bufSize then bufSize - 1 else offset.toNat) = n at hlen
  rw [List.length_drop] at hle
  have hwhole := nread_whole (n := n) (c := n) k (by omega) (by omega) []
  have hsound : (Label.process (readAnswers n n ++ [])).Own := by
    intro e hmem
    rw [readAnswers, if_neg (by omega), if_pos rfl, List.append_nil] at hmem
    cases List.mem_singleton.mp hmem
  have hout : ∃ p, (processEvent print k (readAnswers n n ++ []) (.evfiltRead offset)).outcome
      = .returns p := by
    simp only [processEvent, gt_iff_lt, if_pos hpos, hn, hwhole, Ret.andThen]
    rw [if_neg (by omega)]
    exact ⟨_, rfl⟩
  obtain ⟨p, hp⟩ := hout
  exact ⟨_, p, hsound, hp⟩

theorem Watching.goes_on {o : Cliopt} {s : Sys} (h : Watching s) (hread : Reading o s)
    (haware : Aware o s) :
    (∃ l : Label, l.Own ∧ (Evrdr.step o s l).isSome = true) ∨ ∃ fd, CaughtUp o s fd := by
  by_cases hopening : s.pc = .opening
  · obtain ⟨files, notes, v, hact, hv⟩ := creat_some s.files o.fpath
    refine .inl ⟨.open_ true, rfl, ?_⟩
    simp [Evrdr.step, hopening, Sys.open_, hact, hv]
  obtain ⟨fd, hfd⟩ := Option.ne_none_iff_exists'.mp (h.opened hopening)
  cases hpc : s.pc with
  | adding filter reopened =>
      refine .inl ⟨.add true, rfl, ?_⟩
      cases filter <;> simp [Evrdr.step, hpc, Sys.kqAdd, hfd]
  | waiting =>
      cases hevents : fd.events (s.files.file fd.vnode).length with
      | cons ev rest =>
          refine .inl ⟨.kevent (.events (ev :: rest)), by simp [Label.Own, Label.Sound], ?_⟩
          simp [Evrdr.step, hpc, Sys.kevent, hfd, hevents]
      | nil =>
          have hlen := length_events fd (s.files.file fd.vnode).length
          rw [hevents, List.length_nil] at hlen
          have hnoted : ¬fd.noted = true := fun hn => by
            rw [if_pos hn] at hlen
            omega
          have hend : (s.files.file fd.vnode).length = fd.pos := by
            by_contra hne
            have hreads : fd.readFilter = true ∧ (s.files.file fd.vnode).length ≠ fd.pos :=
              ⟨h.reads hfd (.inl hpc), hne⟩
            rw [if_pos hreads] at hlen
            omega
          have hname := (haware.aware hfd h.going).resolve_left hnoted
          refine .inr ⟨fd, ⟨hfd, hpc, hname.resolve_left ?_, ?_⟩⟩
          · rw [hpc]
            exact Bool.false_ne_true
          · rw [(hread.own fd hfd).got, ← hend, List.take_length]
  | handling i ev rest flags =>
      refine .inl ?_
      have hstep : ∀ answers p,
          (processEvent o.print (fd.kernel s.files) answers ev).outcome = .returns p →
          (Evrdr.step o s (.process answers)).isSome = true := by
        intro answers p hp
        simp [Evrdr.step, hpc, Sys.process, hfd, hp]
      cases ev with
      | evfiltVnode f => exact ⟨.process [], fun e hmem => (by cases hmem), hstep [] _ rfl⟩
      | evfiltRead offset =>
          have hmem : .evfiltRead offset ∈ s.pc.batch := by rw [hpc]; exact List.mem_cons_self
          obtain ⟨hpos, hle⟩ := h.batch hfd hmem
          obtain ⟨answers, p, hown, hp⟩ := process_read o.print (fd.kernel s.files) hpos hle
          exact ⟨.process answers, hown, hstep answers p hp⟩
  | closing => exact .inl ⟨.close true, rfl, by simp [Evrdr.step, hpc, Sys.close, hfd]⟩
  | opening => exact absurd hpc hopening
  | left rc =>
      have hgoing := h.going
      rw [hpc] at hgoing
      cases hgoing

/-- **The reader catches up.** After any run in which no call of the reader
fails, no file is cut off and none loses the name without being watched, the
reader alone takes at most `Sys.toDo` steps, whatever the order of the events
and however short the reads. As long as it can take none it has read the file
that has the name to its end. -/
theorem catches_up (o : Cliopt) {files : Files CStr UInt8} {v : Nat}
    (hv : files.dir o.fpath = some v) {ls ls' : List Label} {s s' : Sys}
    (hsound : ∀ l ∈ ls, l.Sound) (hgrows : Meets (step o) Grows (.start files v) ls)
    (hwatched : Meets (step o) (Watched o) (.start files v) ls)
    (hrun : run (step o) (.start files v) ls = some s) (hown : ∀ l ∈ ls', l.Own)
    (hrun' : run (step o) s ls' = some s') :
    s'.toDo o + ls'.length ≤ s.toDo o ∧
      ((∃ l : Label, l.Own ∧ (step o s' l).isSome = true) ∨ ∃ fd, CaughtUp o s' fd) := by
  have hstart : Reading o (.start files v) ∧ Aware o (.start files v) ∧ Watching (.start files v) :=
    ⟨reading_start o hv, aware_start o hv, watching_start v⟩
  have hs : Reading o s ∧ Aware o s ∧ Watching s := by
    refine (always_of_meets (I := fun s => Reading o s ∧ Aware o s ∧ Watching s)
      (C := fun s l => (l.Sound ∧ Grows s l) ∧ Watched o s l) (fun s l s' h hl hs => ?_) hstart
      (((meets_of_forall hsound).and hgrows).and hwatched)).last hrun
    exact ⟨h.1.step hl.1.2 hs, h.2.1.step hl.2 hs, h.2.2.step h.1 hl.1.2 hl.1.1 hs⟩
  obtain ⟨⟨hread, haware, hwatching⟩, hlen⟩ := length_add_le (K := Label.Own) (m := Sys.toDo o)
    (fun s l s' (h : Reading o s ∧ Aware o s ∧ Watching s) hl hs =>
      ⟨⟨h.1.step (hl.grows s) hs, h.2.1.step (hl.watched o s) hs,
        h.2.2.step h.1 (hl.grows s) hl.sound hs⟩, toDo_step h.2.2 h.1 hl hs⟩) hs hown hrun'
  exact ⟨hlen, hwatching.goes_on hread haware⟩

/-- More is written, and the file is followed by another. -/
def traceTold : List Label :=
  [.add true, .add true, .other (.write 0 [33]), .other (.rename log log1),
   .other (.creat log true), .other (.write 1 [33])]

/-- The reader on its own. -/
def traceCatch : List Label :=
  [.kevent (.events [.evfiltVnode ⟨false, true⟩, .evfiltRead 3]), .process [],
   .process [.read (.count 1), .read (.fail .EINTR), .read (.count 2)], .close true, .open_ true,
   .add true, .add true, .kevent (.events [.evfiltRead 1]), .process [.read (.count 1)]]

theorem catches_up_traceCatch :
    ∃ s s', run (step logOpt) (.start logFiles 0) traceTold = some s ∧
      run (step logOpt) s traceCatch = some s' ∧ s'.toDo logOpt + 9 ≤ s.toDo logOpt ∧
      ((∃ l : Label, l.Own ∧ (step logOpt s' l).isSome = true) ∨ ∃ fd, CaughtUp logOpt s' fd) := by
  obtain ⟨s, hs⟩ := Option.isSome_iff_exists.mp
    (show (run (step logOpt) (.start logFiles 0) traceTold).isSome = true by decide +kernel)
  obtain ⟨s', hs'⟩ := Option.isSome_iff_exists.mp
    (show (run (step logOpt) (.start logFiles 0) (traceTold ++ traceCatch)).isSome = true by
      decide +kernel)
  rw [run_append, hs] at hs'
  refine ⟨s, s', hs, hs',
    catches_up logOpt rfl ?_ (by decide +kernel) (by decide +kernel) hs ?_ hs'⟩
  · simp [traceTold, Label.Sound]
  · simp [traceCatch, Label.Own, Label.Sound]

end Evrdr

end MiscTools
