import MiscTools.Evrdr

/-!
# What the reader reads

`step_cases` says what a step can do; what a read does is `nread_spec`. From
it come two invariants of every run beside other processes that do not cut
files off:

- `Reading`: what has been read through a descriptor is the beginning of its
  file up to the position, and what is printed is what has been read;
- `Ordered`: a file of which the reader has been told has lost its name, so
  the file that has the name when it is opened anew is a later one.

`reads_in_order` is both of them for the files the reader has had open.
-/

namespace MiscTools

namespace Evrdr

open Fdio Vnodes Runs

/-! ## What a step can do -/

/-- The bytes among what was printed. -/
def printed (outs : List Out) : List UInt8 :=
  outs.flatMap fun out =>
    match out with
    | .block buf => buf
    | _ => []

theorem printed_append (outs outs' : List Out) :
    printed (outs ++ outs') = printed outs ++ printed outs' :=
  List.flatMap_append

/-- No call of the reader fails, but for interruptions, and no wait is given up. -/
def Label.Sound : Label → Prop
  | .other _ => True
  | .add ok => ok
  | .kevent f => f ≠ .fails ∧ f ≠ .timeout
  | .process answers => ∀ e, .read (.fail e) ∈ answers → e = .EINTR
  | .close ok => ok
  | .open_ ok => ok

/-- What of a file has not been read yet. -/
def Fd.unread (files : Files CStr UInt8) (fd : Fd) : List UInt8 :=
  (files.file fd.vnode).drop fd.pos

/-- What a read has given. -/
structure Gave (files : Files CStr UInt8) (fd : Fd) (offset : Int) (buf : List UInt8) : Prop where
  eq_take : buf = (fd.unread files).take buf.length
  ne_nil : buf ≠ []
  le : (buf.length : Int) ≤ offset

inductive Stepped (o : Cliopt) (s : Sys) : Label → Sys → Prop
  | other {a : Act CStr UInt8} {files : Files CStr UInt8} {notes : List (Nat × Note)}
      (h : s.files.act a = some (files, notes)) :
      Stepped o s (.other a) { s with files := files, fd := s.fd.map (Fd.note notes) }
  | addVnode {fd : Fd} {reopened : Bool} (hpc : s.pc = .adding .vnode reopened)
      (hfd : s.fd = some fd) :
      Stepped o s (.add true) { s with
        fd := some { fd with vnodeFilter := some ⟨false, false⟩ }, pc := .adding .read reopened }
  | addRead {fd : Fd} {reopened : Bool} {stdout : List Out} {stderr : List Diag}
      (hpc : s.pc = .adding .read reopened) (hfd : s.fd = some fd)
      (hout : printed stdout = printed s.stdout) :
      Stepped o s (.add true) { s with
        fd := some { fd with readFilter := true }, pc := .waiting
        stdout := stdout, stderr := stderr }
  | unwatched {fd : Fd} {filter : Filter} {stdout : List Out} {stderr : List Diag}
      (hpc : s.pc = .adding filter false) (hfd : s.fd = some fd)
      (hout : printed stdout = printed s.stdout) :
      Stepped o s (.add false) { s with pc := .waiting, stdout := stdout, stderr := stderr }
  | events {fd : Fd} {ev : Kevent} {rest : List Kevent} (hpc : s.pc = .waiting)
      (hfd : s.fd = some fd)
      (hperm : (ev :: rest).Perm (fd.events (s.files.file fd.vnode).length)) :
      Stepped o s (.kevent (.events (ev :: rest)))
        { s with fd := some fd.cleared, pc := .handling 0 ev rest false }
  | timeout {fd : Fd} {stdout : List Out} {stderr : List Diag} (hpc : s.pc = .waiting)
      (hfd : s.fd = some fd) (hnone : fd.events (s.files.file fd.vnode).length = [])
      (hout : printed stdout = printed s.stdout) :
      Stepped o s (.kevent .timeout) { s with pc := .left 0, stdout := stdout, stderr := stderr }
  | vnode {fd : Fd} {i : Nat} {f : Fflags} {rest : List Kevent} {flags : Bool}
      {answers : List Event} {stdout : List Out}
      (hpc : s.pc = .handling i (.evfiltVnode f) rest flags) (hfd : s.fd = some fd)
      (hout : printed stdout = printed s.stdout) :
      Stepped o s (.process answers) { s with
        pc := Sys.next i rest (flags || (f.noteDelete || f.noteRename)), stdout := stdout }
  | nothing {fd : Fd} {i : Nat} {offset : Int} {rest : List Kevent} {flags : Bool}
      {answers : List Event} (hpc : s.pc = .handling i (.evfiltRead offset) rest flags)
      (hfd : s.fd = some fd) (hoffset : offset ≤ 0) :
      Stepped o s (.process answers) { s with pc := Sys.next i rest flags }
  | read {fd : Fd} {i : Nat} {offset : Int} {rest : List Kevent} {flags : Bool}
      {answers : List Event} {buf : List UInt8} {stderr : List Diag}
      (hpc : s.pc = .handling i (.evfiltRead offset) rest flags) (hfd : s.fd = some fd)
      (hgave : Gave s.files fd offset buf) :
      Stepped o s (.process answers) { s with
        fd := some { fd with pos := fd.pos + buf.length, got := fd.got ++ buf }
        pc := Sys.next i rest flags
        stdout := s.stdout ++ .dot :: if o.print then [.block (buf.takeWhile (· ≠ 0))] else []
        stderr := stderr }
  | readNone {fd : Fd} {i : Nat} {offset : Int} {rest : List Kevent} {flags : Bool}
      {answers : List Event} {stdout : List Out} {stderr : List Diag}
      (hpc : s.pc = .handling i (.evfiltRead offset) rest flags) (hfd : s.fd = some fd)
      (hoffset : 0 < offset) (hnone : (Label.process answers).Sound → fd.unread s.files = [])
      (hout : printed stdout = printed s.stdout) :
      Stepped o s (.process answers)
        { s with pc := .left (-1), stdout := stdout, stderr := stderr }
  | close {fd : Fd} (hpc : s.pc = .closing) (hfd : s.fd = some fd) :
      Stepped o s (.close true)
        { s with fd := none, closed := s.closed ++ [(fd.vnode, fd.got)], pc := .opening }
  | open_ {files : Files CStr UInt8} {notes : List (Nat × Note)} {v : Nat} (hpc : s.pc = .opening)
      (h : s.files.act (.creat o.fpath false) = some (files, notes))
      (hv : files.dir o.fpath = some v) :
      Stepped o s (.open_ true) { s with
        files := files, fd := some ⟨v, 0, [], none, false⟩, pc := .adding .vnode true }
  | fails {l : Label} {rc : Int} {stdout : List Out} {stderr : List Diag} (hl : ¬l.Sound)
      (hpc : ∀ rc, s.pc ≠ .left rc) (hout : printed stdout = printed s.stdout) :
      Stepped o s l { s with pc := .left rc, stdout := stdout, stderr := stderr }

theorem printed_quiet {outs outs' : List Out} (h : printed outs' = []) :
    printed (outs ++ outs') = printed outs := by
  rw [printed_append, h, List.append_nil]

theorem add_cases {o : Cliopt} {s s' : Sys} {ok : Bool} (h : step o s (.add ok) = some s') :
    Stepped o s (.add ok) s' := by
  simp only [step] at h
  split at h
  swap
  · cases h
  rename_i filter reopened hpc
  simp only [Sys.kqAdd, Option.bind_eq_bind, Option.bind_eq_some_iff] at h
  obtain ⟨fd, hfd, h⟩ := h
  cases ok with
  | true =>
      cases filter with
      | vnode =>
          cases h
          exact .addVnode hpc hfd
      | read =>
          cases reopened <;> cases h
          · exact .addRead hpc hfd (printed_quiet rfl)
          · exact .addRead hpc hfd rfl
  | false =>
      cases reopened <;> cases h
      · exact .unwatched hpc hfd (printed_quiet rfl)
      · exact .fails (by simp [Label.Sound]) (by simp [hpc]) (printed_quiet rfl)

theorem kevent_cases {o : Cliopt} {s s' : Sys} {f : Fetched}
    (h : step o s (.kevent f) = some s') : Stepped o s (.kevent f) s' := by
  simp only [step] at h
  split at h
  swap
  · cases h
  rename_i hpc
  simp only [Sys.kevent, Option.bind_eq_bind, Option.bind_eq_some_iff] at h
  obtain ⟨fd, hfd, h⟩ := h
  split at h
  · cases h
    exact .fails (by simp [Label.Sound]) (by simp [hpc]) (printed_quiet rfl)
  · split at h
    · rename_i hnone
      cases h
      exact .timeout hpc hfd hnone.2 (printed_quiet rfl)
    · cases h
  · cases h
  · split at h
    · rename_i hperm
      cases h
      exact .events hpc hfd hperm
    · cases h

theorem close_cases {o : Cliopt} {s s' : Sys} {ok : Bool} (h : step o s (.close ok) = some s') :
    Stepped o s (.close ok) s' := by
  simp only [step] at h
  split at h
  swap
  · cases h
  rename_i hpc
  simp only [Sys.close, Option.bind_eq_bind, Option.bind_eq_some_iff] at h
  obtain ⟨fd, hfd, h⟩ := h
  cases ok <;> cases h
  · exact .fails (by simp [Label.Sound]) (by simp [hpc]) (printed_quiet rfl)
  · exact .close hpc hfd

theorem open_cases {o : Cliopt} {s s' : Sys} {ok : Bool} (h : step o s (.open_ ok) = some s') :
    Stepped o s (.open_ ok) s' := by
  simp only [step] at h
  split at h
  swap
  · cases h
  rename_i hpc
  cases ok with
  | false =>
      cases h
      exact .fails (by simp [Label.Sound]) (by simp [hpc]) (printed_quiet rfl)
  | true =>
      simp only [Sys.open_, if_true, Option.bind_eq_bind, Option.bind_eq_some_iff] at h
      obtain ⟨⟨files, notes⟩, hact, v, hv, h⟩ := h
      cases h
      exact .open_ hpc hact hv

/-- The reader asks for some bytes and for no more than there are. -/
theorem readLen_le {offset : Int} (h : 0 < offset) :
    0 < (if offset.toNat ≥ bufSize then bufSize - 1 else offset.toNat) ∧
      ((if offset.toNat ≥ bufSize then bufSize - 1 else offset.toNat : Nat) : Int) ≤ offset := by
  rw [bufSize]
  split <;> omega

theorem process_cases {o : Cliopt} {s s' : Sys} {answers : List Event}
    (h : step o s (.process answers) = some s') : Stepped o s (.process answers) s' := by
  simp only [step] at h
  split at h
  swap
  · cases h
  rename_i i ev rest flags hpc
  simp only [Sys.process, Option.bind_eq_bind, Option.bind_eq_some_iff] at h
  obtain ⟨fd, hfd, h⟩ := h
  have hfd' : some { fd with got := fd.got ++ [] } = s.fd := by rw [List.append_nil, hfd]
  have herr : s.stderr ++ [] = s.stderr := List.append_nil _
  cases ev with
  | evfiltVnode f =>
      have hout : printed (s.stdout ++ ((if f.noteDelete then [Out.noteDelete] else [])
          ++ (if f.noteRename then [Out.noteRename] else []) ++ [.newline])) = printed s.stdout :=
        printed_quiet (by cases f.noteDelete <;> cases f.noteRename <;> rfl)
      have hvnode : Stepped o s (.process answers) _ := .vnode hpc hfd hout
      cases h
      rw [← hfd', ← herr] at hvnode
      exact hvnode
  | evfiltRead offset =>
      by_cases hoffset : 0 < offset
      swap
      · have hnothing : Stepped o s (.process answers) _ :=
          .nothing hpc hfd (Int.not_lt.mp hoffset)
        have hout : s.stdout ++ [] = s.stdout := List.append_nil _
        simp only [processEvent, gt_iff_lt, if_neg hoffset] at h
        cases h
        rw [← hfd', ← herr, ← hout, ← Bool.or_false flags] at hnothing
        exact hnothing
      simp only [processEvent, gt_iff_lt, if_pos hoffset] at h
      have hlen := readLen_le hoffset
      generalize (if offset.toNat ≥ bufSize then bufSize - 1 else offset.toNat) = len at h hlen
      obtain ⟨used, buf, hsplit, hread⟩ := nread_spec len 0 (fd.kernel s.files) answers
      rcases hread.outcome with hwaits | ⟨hret, hwhy⟩
      · simp only [Ret.andThen, hwaits] at h
        cases h
      obtain ⟨-, -, hpos⟩ := hread.at_
      simp only [Ret.andThen, hret] at h
      have hle := hread.le
      by_cases hnone : buf.length = 0
      · have hnil := List.eq_nil_of_length_eq_zero hnone
        rw [if_pos (by rw [hnone]; exact Int.le_refl 0)] at h
        have hempty : (Label.process answers).Sound → fd.unread s.files = [] := by
          intro hsound
          rcases hwhy with ⟨hfull | heof, -⟩ | ⟨e, hne, hmem, -⟩
          · omega
          · exact List.eq_nil_of_length_eq_zero (heof.symm.trans hnone)
          · exact absurd (hsound e (by rw [hsplit]; exact List.mem_append_left _ hmem)) hne
        have hgot : some { fd with
            pos := (nread len 0 (fd.kernel s.files) answers).kernel.pos, got := fd.got ++ buf }
              = s.fd := by
          rw [hpos, hnil, List.append_nil, hfd]
          rfl
        have hout : printed (s.stdout ++ [] ++ [.exiting (-1)]) = printed s.stdout := by
          rw [List.append_nil]
          exact printed_quiet rfl
        cases h
        have hstep : ∀ stderr, Stepped o s (.process answers)
            { s with pc := .left (-1), stdout := s.stdout ++ [] ++ [.exiting (-1)]
                     stderr := stderr } :=
          fun stderr => .readNone hpc hfd hoffset hempty hout
        rw [← hgot] at hstep
        exact hstep _
      · rw [if_neg (by omega)] at h
        have hgave : Gave s.files fd offset buf :=
          ⟨hread.eq_take, fun hnil => hnone (by rw [hnil]; rfl), by omega⟩
        have hflags : flags = (flags || false) := (Bool.or_false flags).symm
        cases h
        rw [hpos]
        have hstep : ∀ stderr, Stepped o s (.process answers) _ :=
          fun stderr => @Stepped.read o s fd i offset rest flags answers buf stderr hpc hfd hgave
        rw [hflags] at hstep
        exact hstep _

theorem step_cases {o : Cliopt} {s s' : Sys} {l : Label} (h : step o s l = some s') :
    Stepped o s l s' := by
  cases l with
  | other a =>
      simp only [step, Option.bind_eq_bind, Option.bind_eq_some_iff] at h
      obtain ⟨⟨files, notes⟩, hact, h⟩ := h
      cases h
      exact .other hact
  | add ok => exact add_cases h
  | kevent f => exact kevent_cases h
  | process answers => exact process_cases h
  | close ok => exact close_cases h
  | open_ ok => exact open_cases h

/-! ## What has been read -/

/-- The files the reader has had open, each with what it has read. -/
def Sys.sessions (s : Sys) : List (Nat × List UInt8) :=
  s.closed ++ s.fd.toList.map fun fd => (fd.vnode, fd.got)

/-- Nothing is skipped and nothing is read twice. -/
structure Fd.Own (files : Files CStr UInt8) (fd : Fd) : Prop where
  there : fd.vnode < files.content.length
  got : fd.got = (files.file fd.vnode).take fd.pos
  pos : fd.pos ≤ (files.file fd.vnode).length

structure Reading (o : Cliopt) (s : Sys) : Prop where
  own : ∀ fd, s.fd = some fd → fd.Own s.files
  closed : ∀ p ∈ s.closed, p.1 < s.files.content.length ∧ p.2 <+: s.files.file p.1
  shut : s.pc = .opening → s.fd = none
  printed : o.print = true → (∀ v, 0 ∉ s.files.file v) →
    printed s.stdout = s.sessions.flatMap (·.2)

/-- What the others do cuts no file off. -/
def Grows (s : Sys) : Label → Prop
  | .other a => s.files.Keeps a
  | _ => True

instance (s : Sys) (l : Label) : Decidable (Grows s l) := by
  unfold Grows
  split <;> infer_instance

@[simp] theorem Fd.note_vnode (notes : List (Nat × Note)) (fd : Fd) :
    (fd.note notes).vnode = fd.vnode := rfl

@[simp] theorem Fd.note_pos (notes : List (Nat × Note)) (fd : Fd) :
    (fd.note notes).pos = fd.pos := rfl

@[simp] theorem Fd.note_got (notes : List (Nat × Note)) (fd : Fd) :
    (fd.note notes).got = fd.got := rfl

theorem Fd.Own.act {files files' : Files CStr UInt8} {fd : Fd} {a : Act CStr UInt8}
    {notes : List (Nat × Note)} (h : fd.Own files) (hkeeps : files.Keeps a)
    (hact : files.act a = some (files', notes)) : (fd.note notes).Own files' := by
  obtain ⟨bytes, hbytes⟩ := Files.act_grows hkeeps hact fd.vnode
  have hpos := h.pos
  refine ⟨Nat.lt_of_lt_of_le h.there (Files.act_length hact), ?_, ?_⟩
  · rw [Fd.note_got, Fd.note_vnode, Fd.note_pos, h.got, ← hbytes,
      List.take_append_of_le_length hpos]
  · rw [Fd.note_vnode, Fd.note_pos, ← hbytes, List.length_append]
    omega

theorem Fd.Own.read {files : Files CStr UInt8} {fd : Fd} {offset : Int} {buf : List UInt8}
    (h : fd.Own files) (hgave : Gave files fd offset buf) :
    Fd.Own files { fd with pos := fd.pos + buf.length, got := fd.got ++ buf } := by
  have hlen : buf.length ≤ ((files.file fd.vnode).drop fd.pos).length := by
    have htake := congrArg List.length hgave.eq_take
    rw [List.length_take, Fd.unread] at htake
    omega
  refine ⟨h.there, ?_, ?_⟩
  · show fd.got ++ buf = _
    rw [h.got, List.take_add]
    exact congrArg _ hgave.eq_take
  · have hpos := h.pos
    rw [List.length_drop] at hlen
    show fd.pos + buf.length ≤ (files.file fd.vnode).length
    omega

theorem Gave.mem {files : Files CStr UInt8} {fd : Fd} {offset : Int} {buf : List UInt8} {b : UInt8}
    (h : Gave files fd offset buf) (hb : b ∈ buf) : b ∈ files.file fd.vnode := by
  rw [h.eq_take] at hb
  exact List.mem_of_mem_drop (List.mem_of_mem_take hb)

theorem Files.act_nul {files files' : Files CStr UInt8} {a : Act CStr UInt8}
    {notes : List (Nat × Note)} (hkeeps : files.Keeps a)
    (hact : files.act a = some (files', notes)) (h : ∀ v, 0 ∉ files'.file v) (v : Nat) :
    0 ∉ files.file v :=
  fun hmem => h v ((Files.act_grows hkeeps hact v).subset hmem)

theorem Reading.act {o : Cliopt} {s : Sys} {files : Files CStr UInt8} {a : Act CStr UInt8}
    {notes : List (Nat × Note)} (h : Reading o s) (hkeeps : s.files.Keeps a)
    (hact : s.files.act a = some (files, notes)) :
    Reading o { s with files := files, fd := s.fd.map (Fd.note notes) } where
  own fd hfd := by
    obtain ⟨fd₀, hfd₀, rfl⟩ := Option.map_eq_some_iff.mp hfd
    exact (h.own fd₀ hfd₀).act hkeeps hact
  closed p hp :=
    ⟨Nat.lt_of_lt_of_le (h.closed p hp).1 (Files.act_length hact),
      (h.closed p hp).2.trans (Files.act_grows hkeeps hact p.1)⟩
  shut hpc := by rw [h.shut hpc, Option.map_none]
  printed hprint hnul := by
    rw [h.printed hprint (Files.act_nul hkeeps hact hnul)]
    cases hfd : s.fd <;> simp [Sys.sessions, hfd]

/-- What has been taken out of the file. -/
def Fd.taken (fd : Fd) : Nat × Nat × List UInt8 := (fd.vnode, fd.pos, fd.got)

/-- A step that changes neither the files nor what has been read. -/
theorem Reading.same {o : Cliopt} {s s' : Sys} (h : Reading o s) (hfiles : s'.files = s.files)
    (hclosed : s'.closed = s.closed) (hpc : s'.pc ≠ .opening)
    (hout : Evrdr.printed s'.stdout = Evrdr.printed s.stdout)
    (htaken : s'.fd.map Fd.taken = s.fd.map Fd.taken) : Reading o s' where
  own fd' hfd' := by
    rw [hfd', Option.map_some] at htaken
    obtain ⟨fd, hfd, heq⟩ := Option.map_eq_some_iff.mp htaken.symm
    obtain ⟨hvnode, hpos, hgot⟩ : fd.vnode = fd'.vnode ∧ fd.pos = fd'.pos ∧ fd.got = fd'.got := by
      simpa [Fd.taken] using heq
    have hown := h.own fd hfd
    exact ⟨by rw [← hvnode, hfiles]; exact hown.there,
      by rw [← hgot, ← hvnode, ← hpos, hfiles, hown.got],
      by rw [← hpos, ← hvnode, hfiles]; exact hown.pos⟩
  closed p hp := by
    rw [hfiles]
    exact h.closed p (hclosed ▸ hp)
  shut hopening := absurd hopening hpc
  printed hprint hnul := by
    have hsessions : s'.sessions = s.sessions := by
      rw [Sys.sessions, Sys.sessions, hclosed]
      cases h₁ : s.fd <;> cases h₂ : s'.fd <;> simp_all [Fd.taken]
    rw [hout, h.printed hprint (hfiles ▸ hnul), hsessions]

theorem reading_start (o : Cliopt) {files : Files CStr UInt8} {v : Nat}
    (hv : files.dir o.fpath = some v) : Reading o (.start files v) where
  own fd hfd := by
    cases hfd
    exact ⟨files.there hv, rfl, Nat.zero_le _⟩
  closed p hp := by cases hp
  shut hpc := by cases hpc
  printed _ _ := rfl

theorem next_ne_opening (i : Nat) (rest : List Kevent) (flags : Bool) :
    Sys.next i rest flags ≠ .opening := by
  cases rest <;> cases flags <;> simp [Sys.next]

theorem Reading.step {o : Cliopt} {s s' : Sys} {l : Label} (h : Reading o s) (hl : Grows s l)
    (hs : step o s l = some s') : Reading o s' := by
  cases step_cases hs with
  | other hact => exact h.act hl hact
  | addVnode hpc hfd =>
      exact h.same rfl rfl (by simp) rfl (by rw [hfd]; rfl)
  | addRead hpc hfd hout =>
      exact h.same rfl rfl (by simp) hout (by rw [hfd]; rfl)
  | unwatched hpc hfd hout =>
      exact h.same rfl rfl (by simp) hout rfl
  | events hpc hfd hperm =>
      exact h.same rfl rfl (by simp) rfl (by rw [hfd]; rfl)
  | timeout hpc hfd hnone hout =>
      exact h.same rfl rfl (by simp) hout rfl
  | vnode hpc hfd hout =>
      exact h.same rfl rfl (next_ne_opening _ _ _) hout rfl
  | nothing hpc hfd hoffset =>
      exact h.same rfl rfl (next_ne_opening _ _ _) rfl rfl
  | readNone hpc hfd hoffset hnone hout =>
      exact h.same rfl rfl (by simp) hout rfl
  | fails hl hpc hout =>
      exact h.same rfl rfl (by simp) hout rfl
  | @read fd i offset rest flags answers buf stderr hpc hfd hgave =>
      refine ⟨fun fd' hfd' => ?_, h.closed, fun hopening => ?_, fun hprint hnul => ?_⟩
      · cases hfd'
        exact (h.own fd hfd).read hgave
      · exact absurd hopening (next_ne_opening _ _ _)
      · have hall : buf.takeWhile (· ≠ 0) = buf := by
          refine List.takeWhile_eq_self_iff.mpr fun b hb => ?_
          have hne : b ≠ 0 := fun heq => hnul _ (heq ▸ hgave.mem hb)
          exact decide_eq_true hne
        have hdot : Evrdr.printed (.dot :: if o.print then [.block (buf.takeWhile (· ≠ 0))] else [])
            = buf := by
          rw [hprint, hall]
          exact List.append_nil _
        show Evrdr.printed (s.stdout ++ _) = _
        rw [printed_append, hdot, h.printed hprint hnul]
        simp [Sys.sessions, hfd]
  | @close fd hpc hfd =>
      refine ⟨fun fd' hfd' => (by cases hfd'), fun p hp => ?_, fun _ => rfl,
        fun hprint hnul => ?_⟩
      · rcases List.mem_append.mp hp with hp | hp
        · exact h.closed p hp
        · obtain rfl := List.mem_singleton.mp hp
          have hown := h.own fd hfd
          exact ⟨hown.there, hown.got ▸ List.take_prefix _ _⟩
      · show Evrdr.printed s.stdout = _
        rw [h.printed hprint hnul]
        simp [Sys.sessions, hfd]
  | @open_ files notes v hpc hact hv =>
      have hact' := h.act (a := .creat o.fpath false) trivial hact
      have hnone : s.fd = none := h.shut hpc
      refine ⟨fun fd' hfd' => ?_, hact'.closed, fun hopening => (by cases hopening),
        fun hprint hnul => ?_⟩
      · cases hfd'
        exact ⟨files.there hv, rfl, Nat.zero_le _⟩
      · show Evrdr.printed s.stdout = _
        rw [hact'.printed hprint hnul]
        simp [Sys.sessions, hnone]

/-! ## In which order -/

/-- The event says that the file has lost its name. -/
def Kevent.tells : Kevent → Bool
  | .evfiltRead _ => false
  | .evfiltVnode f => f.noteDelete || f.noteRename

/-- The reader has fetched it, and will open the file anew. -/
def Pc.told : Pc → Bool
  | .handling _ ev rest flags => flags || (ev :: rest).any Kevent.tells
  | .closing => true
  | _ => false

theorem next_told (i : Nat) (rest : List Kevent) (flags : Bool) :
    (Sys.next i rest flags).told = (flags || rest.any Kevent.tells) := by
  cases rest <;> cases flags <;> simp [Sys.next, Pc.told]

theorem noted_note {fd : Fd} {notes : List (Nat × Note)} (h : (fd.note notes).noted = true) :
    fd.noted = true ∨ ∃ note, (fd.vnode, note) ∈ notes := by
  cases hf : fd.vnodeFilter with
  | none => simp [Fd.noted, Fd.note, hf] at h
  | some f =>
      simp only [Fd.noted, Fd.note, hf, Option.map_some, Option.any_some, Bool.or_eq_true,
        List.contains_iff_mem] at h ⊢
      rcases h with (h | h) | h | h
      · exact .inl (.inl h)
      · exact .inr ⟨_, h⟩
      · exact .inl (.inr h)
      · exact .inr ⟨_, h⟩

theorem noted_cleared (fd : Fd) : fd.cleared.noted = false := by
  cases hf : fd.vnodeFilter <;> simp [Fd.noted, Fd.cleared, hf]

/-- What is fetched tells what there was to tell. -/
theorem told_events {fd : Fd} {size : Nat} {evs : List Kevent} (h : evs.Perm (fd.events size)) :
    evs.any Kevent.tells = fd.noted := by
  have hread : (if fd.readFilter = true ∧ size ≠ fd.pos then
      [Kevent.evfiltRead (size - fd.pos)] else []).any Kevent.tells = false := by
    split <;> rfl
  rw [h.any_eq, Fd.events, List.any_append, hread, Bool.or_false]
  cases hf : fd.vnodeFilter with
  | none => simp [Fd.noted, hf]
  | some f =>
      cases hn : fd.noted with
      | false => rfl
      | true =>
          simp only [Fd.noted, hf, Option.any_some] at hn
          simpa [Kevent.tells, Option.toList] using hn

/-- The files are opened in the order in which they were made, and a file
that the reader has been told of has lost its name for good. -/
structure Ordered (o : Cliopt) (s : Sys) : Prop where
  sessions : (s.sessions.map (·.1)).Pairwise (· < ·)
  before : ∀ {v}, s.files.dir o.fpath = some v → ∀ p ∈ s.closed, p.1 < v
  atMost : ∀ {v fd}, s.files.dir o.fpath = some v → s.fd = some fd → fd.vnode ≤ v
  told : ∀ {fd}, s.fd = some fd → fd.noted = true ∨ s.pc.told = true →
    s.files.dir o.fpath ≠ some fd.vnode

/-- No other process gives the name to a file that has another. -/
def Renews (o : Cliopt) : Label → Prop
  | .other a => ∀ src, a ≠ .rename src o.fpath
  | _ => True

theorem Ordered.act {o : Cliopt} {s : Sys} {files : Files CStr UInt8} {a : Act CStr UInt8}
    {notes : List (Nat × Note)} (h : Ordered o s) (hread : Reading o s)
    (hdst : ∀ src, a ≠ .rename src o.fpath) (hact : s.files.act a = some (files, notes)) :
    Ordered o { s with files := files, fd := s.fd.map (Fd.note notes) } where
  sessions := by
    have hsame : Sys.sessions { s with files := files, fd := s.fd.map (Fd.note notes) }
        = s.sessions := by
      cases hfd : s.fd <;> simp [Sys.sessions, hfd]
    rw [hsame]
    exact h.sessions
  before {v} hv p hp := by
    rcases Files.dir_of_act hdst hact hv with hold | rfl
    · exact h.before hold p hp
    · exact (hread.closed p hp).1
  atMost {v fd} hv hfd := by
    obtain ⟨fd₀, hfd₀, rfl⟩ := Option.map_eq_some_iff.mp hfd
    rcases Files.dir_of_act hdst hact hv with hold | rfl
    · exact (h.atMost hold hfd₀ : fd₀.vnode ≤ v)
    · exact Nat.le_of_lt (hread.own fd₀ hfd₀).there
  told {fd} hfd htold hv := by
    obtain ⟨fd₀, hfd₀, rfl⟩ := Option.map_eq_some_iff.mp hfd
    have hnew : ∀ htold₀ : fd₀.noted = true ∨ s.pc.told = true, False := fun htold₀ => by
      rcases Files.dir_of_act hdst hact hv with hold | hnew
      · exact h.told hfd₀ htold₀ hold
      · exact absurd hnew (Nat.ne_of_lt (hread.own fd₀ hfd₀).there)
    rcases htold with hnoted | hpc
    · rcases noted_note hnoted with hnoted | ⟨note, hnote⟩
      · exact hnew (.inl hnoted)
      · exact Files.lost_of_noted hdst hact hnote hv
    · exact hnew (.inr hpc)

/-- A step that leaves the files alone and tells the reader nothing new. -/
theorem Ordered.same {o : Cliopt} {s s' : Sys} (h : Ordered o s) (hfiles : s'.files = s.files)
    (hclosed : s'.closed = s.closed)
    (hvnode : s'.fd.map Fd.vnode = s.fd.map Fd.vnode)
    (htold : ∀ fd fd', s.fd = some fd → s'.fd = some fd' → fd'.noted = true ∨ s'.pc.told = true →
      fd.noted = true ∨ s.pc.told = true) : Ordered o s' := by
  have hfd : ∀ {fd'}, s'.fd = some fd' → ∃ fd, s.fd = some fd ∧ fd.vnode = fd'.vnode := by
    intro fd' hfd'
    rw [hfd', Option.map_some] at hvnode
    obtain ⟨fd, hs, heq⟩ := Option.map_eq_some_iff.mp hvnode.symm
    exact ⟨fd, hs, heq⟩
  refine ⟨?_, fun hv => ?_, fun hv hs' => ?_, fun hs' htold' => ?_⟩
  · have hsame : s'.sessions.map (·.1) = s.sessions.map (·.1) := by
      have hlist := congrArg Option.toList hvnode
      rw [Sys.sessions, Sys.sessions, hclosed, List.map_append, List.map_append]
      congr 1
      cases h₁ : s.fd <;> cases h₂ : s'.fd <;> simp_all
    rw [hsame]
    exact h.sessions
  · rw [hclosed]
    exact h.before (hfiles ▸ hv)
  · obtain ⟨fd, hs, heq⟩ := hfd hs'
    exact heq ▸ h.atMost (hfiles ▸ hv) hs
  · obtain ⟨fd, hs, heq⟩ := hfd hs'
    rw [hfiles, ← heq]
    exact h.told hs (htold fd _ hs hs' htold')

theorem Ordered.step {o : Cliopt} {s s' : Sys} {l : Label} (h : Ordered o s) (hread : Reading o s)
    (hl : Renews o l) (hs : step o s l = some s') : Ordered o s' := by
  cases step_cases hs with
  | other hact => exact h.act hread hl hact
  | addVnode hpc hfd =>
      refine h.same rfl rfl (by rw [hfd]; rfl) fun fd₀ fd' _ hfd' htold => ?_
      cases hfd'
      rcases htold with h | h <;> cases h
  | addRead hpc hfd hout =>
      refine h.same rfl rfl (by rw [hfd]; rfl) fun fd₀ fd' hfd₀ hfd' htold => ?_
      cases hfd'
      cases hfd.symm.trans hfd₀
      exact htold.imp id fun h => by cases h
  | unwatched hpc hfd hout =>
      refine h.same rfl rfl rfl fun fd₀ fd' hfd₀ hfd' htold => ?_
      cases hfd'.symm.trans hfd₀
      exact htold.imp id fun h => by cases h
  | events hpc hfd hperm =>
      refine h.same rfl rfl (by rw [hfd]; rfl) fun fd₀ fd' hfd₀ hfd' htold => ?_
      cases hfd'
      cases hfd.symm.trans hfd₀
      rw [noted_cleared, Pc.told, told_events hperm, Bool.false_or] at htold
      exact .inl (htold.resolve_left Bool.false_ne_true)
  | timeout hpc hfd hnone hout =>
      refine h.same rfl rfl rfl fun fd₀ fd' hfd₀ hfd' htold => ?_
      cases hfd'.symm.trans hfd₀
      exact htold.imp id fun h => by cases h
  | vnode hpc hfd hout =>
      refine h.same rfl rfl rfl fun fd₀ fd' hfd₀ hfd' htold => ?_
      cases hfd'.symm.trans hfd₀
      refine htold.imp id fun h => ?_
      rw [next_told] at h
      rw [hpc, Pc.told, List.any_cons, ← Bool.or_assoc]
      exact h
  | nothing hpc hfd hoffset =>
      refine h.same rfl rfl rfl fun fd₀ fd' hfd₀ hfd' htold => ?_
      cases hfd'.symm.trans hfd₀
      refine htold.imp id fun h => ?_
      rw [next_told] at h
      rw [hpc, Pc.told, List.any_cons]
      exact h
  | read hpc hfd hgave =>
      refine h.same rfl rfl (by rw [hfd]; rfl) fun fd₀ fd' hfd₀ hfd' htold => ?_
      cases hfd'
      cases hfd.symm.trans hfd₀
      refine htold.imp id fun h => ?_
      rw [next_told] at h
      rw [hpc, Pc.told, List.any_cons]
      exact h
  | readNone hpc hfd hoffset hnone hout =>
      refine h.same rfl rfl rfl fun fd₀ fd' hfd₀ hfd' htold => ?_
      cases hfd'.symm.trans hfd₀
      exact htold.imp id fun h => by cases h
  | fails hl hpc hout =>
      refine h.same rfl rfl rfl fun fd₀ fd' hfd₀ hfd' htold => ?_
      cases hfd'.symm.trans hfd₀
      exact htold.imp id fun h => by cases h
  | @close fd hpc hfd =>
      refine ⟨?_, fun {v} hv p hp => ?_, fun _ hfd' => (by cases hfd'), fun hfd' => (by cases hfd')⟩
      · have hsame : Sys.sessions { s with
            fd := none, closed := s.closed ++ [(fd.vnode, fd.got)], pc := .opening }
              = s.sessions := by
          simp [Sys.sessions, hfd]
        rw [hsame]
        exact h.sessions
      · rcases List.mem_append.mp hp with hp | hp
        · exact h.before hv p hp
        · obtain rfl := List.mem_singleton.mp hp
          have hne : fd.vnode ≠ v := fun heq =>
            h.told hfd (.inr (by rw [hpc]; rfl)) (heq ▸ hv)
          exact Nat.lt_of_le_of_ne (h.atMost hv hfd) hne
  | @open_ files notes v hpc hact hv =>
      have hact' := h.act (a := .creat o.fpath false) hread (fun src => by simp) hact
      have hnone : s.fd = none := hread.shut hpc
      refine ⟨?_, hact'.before, fun {w fd'} hw hfd' => ?_, fun {fd'} hfd' htold => ?_⟩
      · have hclosed := hact'.sessions
        simp only [Sys.sessions, hnone, Option.map_none, Option.toList_none, List.map_nil,
          List.append_nil] at hclosed
        have hlast : ∀ w ∈ s.closed.map (·.1), w < v := by
          intro w hw
          obtain ⟨p, hp, rfl⟩ := List.mem_map.mp hw
          exact hact'.before hv p hp
        simp only [Sys.sessions, Option.toList_some, List.map_cons, List.map_nil, List.map_append]
        refine List.pairwise_append.mpr ⟨hclosed, List.pairwise_singleton _ _, fun w hw x hx => ?_⟩
        obtain rfl := List.mem_singleton.mp hx
        exact hlast w hw
      · cases hfd'
        cases hv.symm.trans hw
        exact Nat.le_refl _
      · cases hfd'
        rcases htold with h | h <;> cases h

/-! ## Every run -/

/-- `log` -/
def log : CStr := ⟨[108, 111, 103], by decide⟩

/-- `log.1` -/
def log1 : CStr := ⟨[108, 111, 103, 46, 49], by decide⟩

def logOpt : Cliopt := ⟨true, 0, log⟩

/-- One file, with `hi` in it. -/
def logFiles : Files CStr UInt8 where
  content := [[104, 105]]
  dir n := if n = log then some 0 else none
  there h := by
    split at h
    · cases h
      decide
    · cases h
  unique h h' := by
    split at h <;> split at h'
    · rename_i hm hn
      exact hm.trans hn.symm
    · cases h'
    · cases h
    · cases h

/-- The file is read, loses its name, and a new one is made by the reader
before another process writes to it. -/
def traceRoll : List Label :=
  [.add true, .add true, .kevent (.events [.evfiltRead 2]), .process [.read (.count 2)],
   .other (.rename log log1), .kevent (.events [.evfiltVnode ⟨false, true⟩]), .process [],
   .close true, .other (.unlink log1), .open_ true, .other (.creat log true), .add true, .add true,
   .other (.write 1 [33]), .kevent (.events [.evfiltRead 1]), .process [.read (.count 1)]]

end Evrdr

end MiscTools
