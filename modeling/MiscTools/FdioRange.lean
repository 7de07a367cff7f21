import MiscTools.FdioTransfer

/-!
# The range that is read

`nread` and `npread` in memory: the block `buf` points to is part of the
state, and the bytes of every call are copied to `buf + total`
(`fillLoop`). Given answers as the kernel gives them, short reads and in
the end no interruptions (`ShortReads`), both return after finitely many
of them. They return the same value with the same bytes in the block,
from the position of the descriptor on or from the offset, and the rest
of the block is as it was (`same_range`).
-/

namespace MiscTools

namespace Fdio

/-! ## The loops in memory -/

/-- The kernel stores `bytes` in the cells from `i` on. -/
def copyTo (block : List UInt8) (i : Nat) (bytes : List UInt8) : List UInt8 :=
  block.take i ++ bytes ++ block.drop (i + bytes.length)

/-- A read loop with the block `buf` points to. -/
structure Filling where
  reading : Reading
  block : List UInt8

/-- The loop of both functions, storing at `buf + total`. -/
def fillLoop (call : ReadCall) (count : Nat) (flags : UInt32) :
    Loop Filling Event ((Int × List UInt8) × Kernel) where
  exit s := do
    let ((total, _), k) ← (nreadLoop call count flags).exit s.reading
    return ((total, s.block), k)
  turn s event := do
    let (_, bytes, _) ←
      call s.reading.kernel (count - s.reading.total) s.reading.offset event
    let reading ← (nreadLoop call count flags).turn s.reading event
    return { reading := reading, block := copyTo s.block s.reading.total bytes }

/-- `nread`, and the block. -/
def nreadBlock (block : List UInt8) (count : Nat) (flags : UInt32) (k : Kernel)
    (events : List Event) : Ret (Int × List UInt8) :=
  runLoop (fillLoop (fun k n _ => k.read n) count flags) (fun s => s.reading.kernel)
    ⟨⟨k, [], none, 0, .again⟩, block⟩ events

/-- `npread`, and the block. -/
def npreadBlock (block : List UInt8) (count : Nat) (offset : Int) (flags : UInt32) (k : Kernel)
    (events : List Event) : Ret (Int × List UInt8) :=
  runLoop (fillLoop Kernel.pread count flags) (fun s => s.reading.kernel)
    ⟨⟨k, [], none, offset, .again⟩, block⟩ events

theorem copyTo_append (buf block bytes : List UInt8) :
    copyTo (buf ++ block.drop buf.length) buf.length bytes
      = buf ++ bytes ++ block.drop (buf ++ bytes).length := by
  rw [copyTo, List.take_left, List.length_append, ← List.drop_drop, List.drop_left,
    List.drop_drop]

/-! ## What the kernel answers -/

/-- The bytes in the first answers. -/
def received (ans : Nat → Answer) : Nat → Nat
  | 0 => 0
  | i + 1 =>
      match ans 0 with
      | .count n => n + received (fun i => ans (i + 1)) i
      | .fail _ => received (fun i => ans (i + 1)) i

/-- The answers to a call for `count` bytes with `avail` left in the
file: short reads, of a byte at least before the end of the file, and
finitely many interruptions. Once all bytes are there, or the end of the
file was reported, a count need not fit. -/
structure ShortReads (avail count : Nat) (ans : Nat → Answer) : Prop where
  interrupted : ∀ i e, ans i = .fail e → e = .EINTR
  finitely : ∃ last, ∀ i, last ≤ i → ans i ≠ .fail .EINTR
  fits : ∀ i n, ans i = .count n → received ans i < count → (∀ j < i, ans j ≠ .count 0) →
    Kernel.Fits n (count - received ans i) (avail - received ans i)

/-- The first `n` answers. -/
def answers (ans : Nat → Answer) (n : Nat) : List Event := firsts (fun i => .read (ans i)) n

section

variable {avail count : Nat} {ans : Nat → Answer}

theorem received_succ (ans : Nat → Answer) (i : Nat) :
    received ans (i + 1) = received ans 1 + received (fun i => ans (i + 1)) i := by
  simp only [received]
  cases ans 0 with
  | count n => rfl
  | fail e => exact (Nat.zero_add _).symm

/-- After the first answer the rest is short reads of the rest. -/
theorem ShortReads.tail (h : ShortReads avail count ans) (h0 : ans 0 ≠ .count 0) :
    ShortReads (avail - received ans 1) (count - received ans 1) fun i => ans (i + 1) := by
  obtain ⟨last, hlast⟩ := h.finitely
  refine ⟨fun i => h.interrupted (i + 1), ⟨last, fun i hi => hlast (i + 1) (by omega)⟩, ?_⟩
  intro i n hn hlt hbefore
  rw [Nat.sub_sub, Nat.sub_sub, ← received_succ]
  refine h.fits (i + 1) n hn (by rw [received_succ]; omega) ?_
  rintro (_ | j) hj
  · exact h0
  · exact hbefore j (by omega)

end

/-! ## Every call returns -/

/-- The call takes any answer that fits. -/
structure Serves (call : ReadCall) (avail : List UInt8) (At : Nat → Kernel → Int → Prop) :
    Prop where
  takes : ∀ {n k o c m}, At n k o → Kernel.Fits m c (avail.length - n) →
    ∃ v, call k c o (.read (.count m)) = some v

theorem read_serves (k : Kernel) :
    Serves (fun k c _ => k.read c) (k.file.drop k.pos)
      fun n k' _ => k'.file = k.file ∧ k'.pos = k.pos + n where
  takes := by
    rintro n k' o c m ⟨hfile, hpos⟩ hfits
    refine ⟨_, if_pos ?_⟩
    rw [hfile, hpos, ← List.drop_drop, List.length_drop]
    exact hfits

theorem pread_serves (k : Kernel) {offset : Int} (hoff : 0 ≤ offset) :
    Serves Kernel.pread (if 0 ≤ offset then k.file.drop offset.toNat else [])
      fun n k' o => k'.file = k.file ∧ k'.pos = k.pos ∧ o = offset + n
        ∧ (0 ≤ offset ∨ n = 0) where
  takes := by
    rintro n k' o c m ⟨hfile, -, rfl, -⟩ hfits
    have hnat : (offset + (n : Int)).toNat = offset.toNat + n := by omega
    rw [if_pos hoff] at hfits
    refine ⟨_, if_pos ⟨by omega, ?_⟩⟩
    rw [hfile, hnat, ← List.drop_drop, List.length_drop]
    exact hfits

section

variable {call : ReadCall} {avail : List UInt8} {At : Nat → Kernel → Int → Prop} {count : Nat}
  {flags : UInt32}

theorem nread_turn_some (flags : UInt32) {s : Reading} {l : Event} {v : Int × List UInt8 × Kernel}
    (h : call s.kernel (count - s.total) s.offset l = some v) :
    ∃ s', (nreadLoop call count flags).turn s l = some s' := by
  simp only [nreadLoop, h, Option.bind_eq_bind, Option.bind_some]
  repeat' split
  all_goals exact ⟨_, rfl⟩

/-- The call returns after some of the answers, and takes no more. -/
def ReturnsOn {ρ : Type} (run : List Event → Ret ρ) (ans : Nat → Answer) : Prop :=
  ∃ n, ∀ rest, ∃ v k', run (answers ans n ++ rest) = ⟨.returns v, k', rest⟩

theorem ReturnsOn.turn {σ ρ : Type} {L : Loop σ Event (ρ × Kernel)} {kernel : σ → Kernel}
    {s s' : σ} {ans : Nat → Answer} (hexit : L.exit s = none)
    (hturn : L.turn s (.read (ans 0)) = some s')
    (h : ReturnsOn (runLoop L kernel s') fun i => ans (i + 1)) :
    ReturnsOn (runLoop L kernel s) ans := by
  obtain ⟨n, hn⟩ := h
  refine ⟨n + 1, fun rest => ?_⟩
  obtain ⟨v, k', hrun⟩ := hn rest
  exact ⟨v, k', (runLoop_turn hexit hturn _).trans hrun⟩

/-- At the end of the file or of the range no answer is taken. -/
theorem nread_ends {s : Reading} (hend : s.next = .eof ∨ ¬s.total < count)
    (ans : Nat → Answer) :
    ReturnsOn (runLoop (nreadLoop call count flags) Reading.kernel s) ans := by
  refine ⟨0, fun rest => ?_⟩
  cases hexit : (nreadLoop call count flags).exit s with
  | some v => exact ⟨v.1, v.2, runLoop_exit hexit rest⟩
  | none =>
      obtain ⟨hlt, hnext⟩ := nreadLoop_going hexit
      rcases hend with heof | hge
      · rw [hnext] at heof
        cases heof
      · exact absurd hlt hge

/-- An answer that fits is taken. -/
theorem nread_takes_count (hcall : Reads call avail At) (hserves : Serves call avail At)
    {s : Reading} (hat : At s.total s.kernel s.offset) {m : Nat}
    (hfits : Kernel.Fits m (count - s.total) (avail.length - s.total)) :
    ∃ s', (nreadLoop call count flags).turn s (.read (.count m)) = some s'
      ∧ s'.total = s.total + m ∧ At s'.total s'.kernel s'.offset
      ∧ s'.next = if m = 0 then .eof else s.next := by
  obtain ⟨v, hv⟩ := hserves.takes hat hfits
  obtain ⟨s', hturn⟩ := nread_turn_some flags hv
  obtain ⟨-, -, -, -, -, hat', hnext⟩ := nread_turn_count hcall hat hturn
  have htotal := nread_turn_total hcall hat hturn
  exact ⟨s', hturn, htotal, htotal ▸ hat', hnext⟩

/-- An interruption changes nothing the loop depends on. -/
theorem nread_takes_eintr (hcall : Reads call avail At) {s : Reading}
    (hat : At s.total s.kernel s.offset) :
    ∃ s', (nreadLoop call count flags).turn s (.read (.fail .EINTR)) = some s'
      ∧ s'.total = s.total ∧ At s'.total s'.kernel s'.offset ∧ s'.next = s.next := by
  obtain ⟨k', hk', hturn⟩ := nread_turn_fail hcall count flags s .EINTR
  obtain ⟨-, hfile, hpos, -⟩ := Kernel.mute_with hk'
  exact ⟨_, hturn, rfl, hcall.frame hat hfile hpos, rfl⟩

/-- **Every call returns.** Each turn ends it or brings it nearer to the
end: fewer bytes are missing, or fewer interruptions are to come. -/
theorem nread_returns (hcall : Reads call avail At) (hserves : Serves call avail At)
    (flags : UInt32) (fuel : Nat) :
    ∀ {ans : Nat → Answer} {s : Reading} (last : Nat), At s.total s.kernel s.offset →
      s.next = .again → ShortReads (avail.length - s.total) (count - s.total) ans →
      (∀ i, last ≤ i → ans i ≠ .fail .EINTR) → last + (count - s.total) ≤ fuel →
      ReturnsOn (runLoop (nreadLoop call count flags) Reading.kernel s) ans := by
  induction fuel with
  | zero =>
      intro ans s last _ _ _ _ hfuel
      exact nread_ends (Or.inr (by omega)) ans
  | succ fuel ih =>
      intro ans s last hat hnext hans hlast hfuel
      by_cases hlt : s.total < count
      swap
      · exact nread_ends (Or.inr hlt) ans
      have hexit := nreadLoop_exit call flags hnext hlt
      cases h0 : ans 0 with
      | fail e =>
          obtain rfl := hans.interrupted 0 e h0
          have hpos : last ≠ 0 := by
            rintro rfl
            exact hlast 0 (Nat.le_refl 0) h0
          obtain ⟨s', hturn, htotal, hat', hnext'⟩ := nread_takes_eintr hcall hat
          have htail := hans.tail (by simp [h0])
          have hnone : received ans 1 = 0 := by
            rw [received, h0]
            rfl
          rw [hnone, ← htotal] at htail
          refine ReturnsOn.turn hexit (h0 ▸ hturn)
            (ih (last - 1) hat' (hnext'.trans hnext) htail ?_ ?_)
          · exact fun i hi => hlast (i + 1) (by omega)
          · omega
      | count m =>
          obtain ⟨s', hturn, htotal, hat', hnext'⟩ := nread_takes_count hcall hserves hat
            (hans.fits 0 m h0 (by show 0 < count - s.total; omega) (by simp))
          refine ReturnsOn.turn hexit (h0 ▸ hturn) ?_
          by_cases hm : m = 0
          · exact nread_ends (Or.inl (hnext'.trans (if_pos hm))) _
          · have htail := hans.tail (by simp [h0, hm])
            have hsome : received ans 1 = m := by
              rw [received, h0]
              rfl
            rw [hsome, Nat.sub_sub, Nat.sub_sub, ← htotal] at htail
            refine ih last hat' ?_ htail (fun i hi => hlast (i + 1) (by omega)) (by omega)
            rw [hnext', if_neg hm, hnext]

/-! ## What is in the block -/

/-- Both loops are left together. -/
theorem fillLoop_exit (block : List UInt8) {s : Reading} {r : (Int × List UInt8) × Kernel}
    {events rest : List Event} {v : Int} {buf : List UInt8} {k' : Kernel}
    (hexit : (nreadLoop call count flags).exit s = some r)
    (h : runLoop (nreadLoop call count flags) Reading.kernel s events
      = ⟨.returns (v, buf), k', rest⟩) :
    runLoop (fillLoop call count flags) (fun s => s.reading.kernel)
        ⟨s, s.buf ++ block.drop s.buf.length⟩ events
      = ⟨.returns (v, buf ++ block.drop buf.length), k', rest⟩ := by
  obtain ⟨⟨v', buf'⟩, k''⟩ := r
  have hbuf : buf' = s.buf := by
    simp only [nreadLoop] at hexit
    split at hexit
    · cases hexit
      rfl
    · split at hexit
      · cases hexit
        rfl
      · cases hexit
  have hfill : (fillLoop call count flags).exit ⟨s, s.buf ++ block.drop s.buf.length⟩
      = some ((v', s.buf ++ block.drop s.buf.length), k'') := by
    simp only [fillLoop, hexit]
    rfl
  rw [runLoop_exit hexit] at h
  cases h
  rw [runLoop_exit hfill, hbuf]

/-- The same bytes go to the list and to the block. -/
theorem fillLoop_turn (hcall : Reads call avail At) (block : List UInt8) {s s' : Reading}
    {l : Event} (hat : At s.total s.kernel s.offset)
    (h : (nreadLoop call count flags).turn s l = some s') :
    (fillLoop call count flags).turn ⟨s, s.buf ++ block.drop s.buf.length⟩ l
        = some ⟨s', s'.buf ++ block.drop s'.buf.length⟩
      ∧ At s'.total s'.kernel s'.offset := by
  have hstep : ∀ {r : Int} {bytes : List UInt8} {k' : Kernel},
      call s.kernel (count - s.total) s.offset l = some (r, bytes, k') → s'.buf = s.buf ++ bytes →
      (fillLoop call count flags).turn ⟨s, s.buf ++ block.drop s.buf.length⟩ l
        = some ⟨s', s'.buf ++ block.drop s'.buf.length⟩ := by
    intro r bytes k' hv hbuf
    simp only [fillLoop, hv, h, Option.bind_eq_bind, Option.bind_some]
    show some (Filling.mk s' (copyTo _ s.buf.length bytes)) = _
    rw [copyTo_append, hbuf]
  obtain ⟨⟨r, bytes, k'⟩, hv⟩ : ∃ v, call s.kernel (count - s.total) s.offset l = some v := by
    simp only [nreadLoop, Option.bind_eq_bind, Option.bind_eq_some_iff] at h
    obtain ⟨v, hv, -⟩ := h
    exact ⟨v, hv⟩
  obtain ⟨a, rfl⟩ := hcall.reads hv
  cases a with
  | count m =>
      obtain ⟨rfl, rfl, -⟩ := hcall.count hat hv
      obtain ⟨-, -, -, -, hbuf, hat', -⟩ := nread_turn_count hcall hat h
      exact ⟨hstep hv hbuf, nread_turn_total hcall hat h ▸ hat'⟩
  | fail e =>
      obtain ⟨k'', hk'', hturn⟩ := nread_turn_fail hcall count flags s e
      obtain ⟨-, hfile, hpos, -⟩ := Kernel.mute_with hk''
      rw [hturn] at h
      have hbuf : s'.buf = s.buf ++ [] := by
        cases h
        exact (List.append_nil _).symm
      refine ⟨hstep (hcall.fail _ _ _ _) hbuf, ?_⟩
      cases h
      exact hcall.frame hat hfile hpos

/-- The block holds what the loop has read, and the old bytes behind it. -/
theorem fillLoop_run (hcall : Reads call avail At) (block : List UInt8) :
    ∀ (events : List Event) {s : Reading} {v : Int} {buf : List UInt8} {k' : Kernel}
      {rest : List Event}, At s.total s.kernel s.offset →
      runLoop (nreadLoop call count flags) Reading.kernel s events
        = ⟨.returns (v, buf), k', rest⟩ →
      runLoop (fillLoop call count flags) (fun s => s.reading.kernel)
          ⟨s, s.buf ++ block.drop s.buf.length⟩ events
        = ⟨.returns (v, buf ++ block.drop buf.length), k', rest⟩ := by
  intro events
  induction events with
  | nil =>
      intro s v buf k' rest _ h
      cases hexit : (nreadLoop call count flags).exit s with
      | none =>
          rw [runLoop_nil hexit] at h
          cases h
      | some r => exact fillLoop_exit block hexit h
  | cons l ls ih =>
      intro s v buf k' rest hat h
      cases hexit : (nreadLoop call count flags).exit s with
      | some r => exact fillLoop_exit block hexit h
      | none =>
          cases hturn : (nreadLoop call count flags).turn s l with
          | none =>
              rw [runLoop_stuck hexit hturn] at h
              cases h
          | some s' =>
              obtain ⟨hfill, hat'⟩ := fillLoop_turn hcall block hat hturn
              rw [runLoop_turn hexit hturn] at h
              have hgo : (fillLoop call count flags).exit
                  ⟨s, s.buf ++ block.drop s.buf.length⟩ = none := by
                simp only [fillLoop, hexit]
                rfl
              rw [runLoop_turn hgo hfill]
              exact ih hat' h

/-- **The range.** What there is of it is returned and in the block, and
nothing else of the block has changed. -/
theorem nreadLoop_range (hcall : Reads call avail At) (hserves : Serves call avail At)
    (flags : UInt32) {k : Kernel} {o : Int} (hat : At 0 k o) {ans : Nat → Answer}
    (hans : ShortReads avail.length count ans) (block : List UInt8) :
    ∃ n, ∀ rest, ∃ k', (∃ o', At (min count avail.length) k' o')
      ∧ runLoop (fillLoop call count flags) (fun s => s.reading.kernel)
          ⟨⟨k, [], none, o, .again⟩, block⟩ (answers ans n ++ rest)
        = ⟨.returns ((min count avail.length : Nat),
            avail.take count ++ block.drop (min count avail.length)), k', rest⟩ := by
  obtain ⟨last, hlast⟩ := hans.finitely
  obtain ⟨n, hn⟩ := nread_returns hcall hserves flags (last + count)
    (s := ⟨k, [], none, o, .again⟩) last hat rfl hans hlast (Nat.le_refl _)
  refine ⟨n, fun rest => ?_⟩
  obtain ⟨⟨v, buf⟩, k', hrun⟩ := hn rest
  obtain ⟨used, buf', hsplit, hread⟩ :=
    nreadLoop_spec hcall hat count flags (answers ans n ++ rest)
  rw [hrun] at hsplit hread
  have hused : used = answers ans n := (List.append_cancel_right hsplit).symm
  rcases hread.outcome with hwaits | ⟨hret, hend⟩
  · cases hwaits
  cases hret
  have hle : buf.length ≤ avail.length := by
    rw [hread.eq_take, List.length_take]
    exact Nat.min_le_right _ _
  have hlen : buf.length = min count avail.length := by
    have hcount := hread.le
    rcases hend with ⟨hfull, -⟩ | ⟨e, hne, hmem, -⟩
    · omega
    · rw [hused] at hmem
      obtain ⟨i, hi⟩ := mem_firsts hmem
      exact absurd (hans.interrupted i e (Event.read.inj hi).symm) hne
  have hbuf : buf = avail.take count := by
    rw [hread.eq_take, hlen, ← List.take_eq_take_min]
  refine ⟨k', hlen ▸ hread.at_, ?_⟩
  have hfill := fillLoop_run hcall block _ (s := ⟨k, [], none, o, .again⟩) hat hrun
  rw [hlen, hbuf] at hfill
  exact hfill

end

/-- A call for `count` bytes from `pos` on has returned: what there is of
them is in the block, nothing else of it has changed, and the descriptor
is at `pos'`. -/
structure Fills (file : List UInt8) (pos count : Nat) (block : List UInt8) (pos' : Nat)
    (rest : List Event) (r : Ret (Int × List UInt8)) : Prop where
  outcome : r.outcome = .returns ((min count (file.length - pos) : Nat),
    (file.drop pos).take (min count (file.length - pos))
      ++ block.drop (min count (file.length - pos)))
  file : r.kernel.file = file
  pos : r.kernel.pos = pos'
  rest : r.rest = rest

/-- **nread and npread read the same range.** On a descriptor positioned
at `k.pos`, and with that offset on any other of the same file, both
return after finitely many of the answers, with the same value and the
same bytes. The first descriptor ends behind what was read, the other
stays where it was. -/
theorem same_range {k k' : Kernel} (hfile : k'.file = k.file) (count : Nat) (flags : UInt32)
    (block : List UInt8) {ans : Nat → Answer}
    (hans : ShortReads (k.file.length - k.pos) count ans) :
    (∃ n, ∀ rest, Fills k.file k.pos count block (k.pos + min count (k.file.length - k.pos)) rest
        (nreadBlock block count flags k (answers ans n ++ rest)))
      ∧ ∃ n, ∀ rest, Fills k.file k.pos count block k'.pos rest
        (npreadBlock block count k.pos flags k' (answers ans n ++ rest)) := by
  have hlen : (k.file.drop k.pos).length = k.file.length - k.pos := List.length_drop
  have htake : (k.file.drop k.pos).take count
      = (k.file.drop k.pos).take (min count (k.file.length - k.pos)) := by
    rw [← hlen, ← List.take_eq_take_min]
  rw [← hlen] at hans
  constructor
  · obtain ⟨n, hn⟩ := nreadLoop_range (read_reads k) (read_serves k) flags
      ⟨rfl, rfl⟩ (o := 0) hans block
    refine ⟨n, fun rest => ?_⟩
    obtain ⟨k₁, ⟨-, hfile₁, hpos₁⟩, hrun⟩ := hn rest
    rw [hlen] at hpos₁
    rw [hlen, htake] at hrun
    rw [nreadBlock, hrun]
    exact ⟨rfl, hfile₁, hpos₁, rfl⟩
  · have hoff : (0 : Int) ≤ k.pos := Int.natCast_nonneg k.pos
    have havail : (if 0 ≤ (k.pos : Int) then k'.file.drop (k.pos : Int).toNat else [])
        = k.file.drop k.pos := by
      rw [if_pos hoff, hfile, Int.toNat_natCast]
    obtain ⟨n, hn⟩ := nreadLoop_range (pread_reads k' k.pos)
      (pread_serves k' hoff) flags ⟨rfl, rfl, (Int.add_zero _).symm, Or.inr rfl⟩ (havail ▸ hans)
      block
    refine ⟨n, fun rest => ?_⟩
    obtain ⟨k₂, ⟨-, hfile₂, hpos₂, -⟩, hrun⟩ := hn rest
    rw [havail, hlen, htake] at hrun
    rw [npreadBlock, hrun]
    exact ⟨rfl, hfile₂.trans hfile, hpos₂, rfl⟩

/-- Two bytes, an interruption, then byte by byte. -/
def patchy : Nat → Answer
  | 0 => .count 2
  | 1 => .fail .EINTR
  | _ + 2 => .count 1

theorem patchy_shortReads : ShortReads 4 3 patchy where
  interrupted
    | 1, e, h => (Answer.fail.inj h).symm
  finitely := ⟨2, fun
    | i + 2, _ => by simp [patchy]⟩
  fits
    | 0, n, h, _, _ => by
        obtain rfl := Answer.count.inj h
        decide
    | 2, n, h, _, _ => by
        obtain rfl := Answer.count.inj h
        decide
    | i + 3, n, _, hlt, _ => by
        have hthree : received patchy (i + 3)
            = 2 + (1 + received (fun j => patchy (j + 3)) i) := rfl
        omega

/-- A descriptor after the first byte of its file. -/
def afterOne : Kernel := { Kernel.fresh none with pos := 1 }

theorem same_range_patchy :
    (∃ n, ∀ rest, Fills [1, 2, 3, 4, 5] 1 3 [0, 0, 0, 0] 4 rest
        (nreadBlock [0, 0, 0, 0] 3 0 afterOne (answers patchy n ++ rest)))
      ∧ ∃ n, ∀ rest, Fills [1, 2, 3, 4, 5] 1 3 [0, 0, 0, 0] 0 rest
        (npreadBlock [0, 0, 0, 0] 3 1 0 (Kernel.fresh none) (answers patchy n ++ rest)) :=
  same_range (show (Kernel.fresh none).file = afterOne.file from rfl) 3 0 [0, 0, 0, 0]
    patchy_shortReads

end Fdio

end MiscTools
