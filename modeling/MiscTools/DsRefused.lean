import Mathlib.Data.List.Induction
import MiscTools.DsDynNames
import MiscTools.Sinking

/-!
# Allocations refused to ds_add

`ds_add` makes two allocations. It overwrites `ds.point` with what
`realloc` returns before it looks whether that is NULL, and it raises
`ds.count` before it asks for the record. So a refused `realloc` loses
the array that `ds.count` still counts, and a refused `malloc` leaves a
counted NULL, which the next `ds_cmp` follows. Only where there is no
array yet can `ds_add` fail without damage (`refused_intact_iff`), and for
later calls to work the blocks of records have to be larger than what
`ds_add` asks for.

`Lists r pts` is what the functions rely on: the counted elements are
`pts`, each the pointer to a record of its own. The swaps of `ds_add`
keep it (`sink_sunk`), and with it every call returns.
-/

namespace MiscTools.DsRegistry

open Blocks Runs
open Sinking (Sunk)

/-! ## `ds_destroy` -/

/-- `free(p)`, after `freed` has been freed. -/
def free (r : Registry) (freed : List Ptr) : Ptr → Except Fault (List Ptr)
  | .null => return freed
  | .record k =>
      if k < r.heap.length ∧ .record k ∉ freed then return freed ++ [.record k]
      else throw .bounds
  | .elem _ => throw .bounds

/-- The loop of `ds_destroy` from element `i` on, with `n` elements left. -/
def destroyFrom (r : Registry) (i : Nat) (freed : List Ptr) : Nat → Except Fault (List Ptr)
  | 0 => return freed
  | n + 1 => do destroyFrom r (i + 1) (← free r freed (← r.get i)) n

/-- `ds_destroy`, up to `free(ds.point)`: what it has freed. -/
def dsDestroy (r : Registry) : Except Fault (List Ptr) := destroyFrom r 0 [] r.count

/-! ## What a failed call has to leave -/

/-- The counted elements of `ds.point`. -/
def Registry.points (r : Registry) : List Ptr := (r.point.getD []).take r.count

/-- What `ds_set` does to the registry. -/
inductive Op
  | add (pointName : CStr) (env : Env)
  /-- `pt->is_enabled = enable` -/
  | enable (pt : Ptr) (enable : Bool)

def step (room : Nat) (r : Registry) : Op → Option Registry
  | .add pointName env => (dsAdd room r env pointName).toOption.map (·.2)
  | .enable pt enable => (r.setEnabled pt enable).toOption

/-- A call of `ds_add` while there is memory. -/
def Op.served : Op → Bool
  | .add _ env => env.grow && env.record
  | .enable _ _ => false

/-- Nothing has changed from `r` to `r'`, every counted element is a
record, and later calls work: those of `ds_add` while there is memory,
and a `ds_destroy` after them, which frees every record that was there. -/
structure Intact (room : Nat) (r r' : Registry) : Prop where
  count : r'.count = r.count
  capacity : r'.capacity = r.capacity
  points : r'.points = r.points
  heap : r'.heap = r.heap
  valid : ∀ i < r'.count, ∃ p pt, r'.get i = .ok p ∧ r'.deref p = .ok pt
  later : ∀ ops : List Op, (∀ op ∈ ops, op.served = true) →
    ∃ r'' freed, run (step room) r' ops = some r'' ∧ dsDestroy r'' = .ok freed
      ∧ ∀ p ∈ r'.points, p ∈ freed

/-- If it is a `ds_add` and returns NULL, the registry is intact. -/
def FailsIntact (room : Nat) (r : Registry) : Op → Prop
  | .add pointName env => ∀ r', dsAdd room r env pointName = .ok (.null, r') → Intact room r r'
  | .enable _ _ => True

/-- A `ds_add` is refused no allocation it makes, unless that is the
first array, and records fit their blocks. -/
def Granted (room : Nat) (r : Registry) : Op → Prop
  | .add _ env =>
      if r.capacity ≤ r.count ∧ env.grow = false then r.count = 0 ∧ sizeofDsPoint ≤ room
      else env.record = true
  | .enable _ _ => True

/-! ## The elements that count -/

/-- The counted elements are `pts`, pointers to different records. -/
structure Lists (r : Registry) (pts : List Ptr) : Prop where
  count : r.count = pts.length
  cells : ∃ spare, r.point.getD [] = pts ++ spare ∧ pts.length + spare.length = r.capacity
  records : ∀ p ∈ pts, ∃ k, p = .record k ∧ k < r.heap.length
  distinct : pts.Nodup

theorem lists_init : Lists .init [] :=
  ⟨rfl, ⟨[], rfl, rfl⟩, fun _ h => absurd h List.not_mem_nil, List.nodup_nil⟩

section

variable {room : Nat} {r : Registry} {pts : List Ptr}

theorem Lists.points (h : Lists r pts) : r.points = pts := by
  obtain ⟨spare, hcells, -⟩ := h.cells
  rw [Registry.points, hcells, h.count, List.take_left]

/-- An array with elements is there. -/
theorem Lists.point_eq (h : Lists r pts) (hne : pts ≠ []) :
    ∃ spare, r.point = some (pts ++ spare) ∧ pts.length + spare.length = r.capacity := by
  obtain ⟨spare, hcells, hlen⟩ := h.cells
  cases hpoint : r.point with
  | none =>
      rw [hpoint] at hcells
      exact absurd (List.append_eq_nil_iff.mp hcells.symm).1 hne
  | some t =>
      rw [hpoint] at hcells
      exact ⟨spare, congrArg some hcells, hlen⟩

theorem get_of_point {t : List Ptr} (hpoint : r.point = some t) {i : Nat} (hi : i < t.length) :
    r.get i = .ok t[i] := by
  rw [Registry.get, hpoint]
  exact read_of_lt hi

theorem set_of_point {t : List Ptr} (hpoint : r.point = some t) {i : Nat} (hi : i < t.length)
    (p : Ptr) : r.set i p = .ok { r with point := some (t.set i p) } := by
  rw [Registry.set, hpoint]
  show (do return { r with point := some (← write t i p) } : Except Fault Registry) = _
  rw [write_of_lt hi]
  rfl

theorem Lists.get (h : Lists r pts) {i : Nat} (hi : i < pts.length) : r.get i = .ok pts[i] := by
  obtain ⟨spare, hpoint, -⟩ := h.point_eq (List.ne_nil_of_length_pos (by omega))
  rw [get_of_point hpoint (by rw [List.length_append]; omega), List.getElem_append_left hi]

theorem Lists.deref (h : Lists r pts) {p : Ptr} (hp : p ∈ pts) : ∃ pt, r.deref p = .ok pt := by
  obtain ⟨k, rfl, hk⟩ := h.records p hp
  exact ⟨_, read_of_lt hk⟩

/-- The name in the record a pointer points to. -/
def Registry.nameOf (r : Registry) (p : Ptr) : CStr :=
  match r.deref p with
  | .ok pt => pt.name
  | .error _ => CStr.empty

/-- What `strcmp` says of two records. -/
def Registry.order (r : Registry) (p q : Ptr) : Ordering := (r.nameOf p).strcmp (r.nameOf q)

theorem order_congr {r' : Registry} (h : r'.heap = r.heap) : r'.order = r.order := by
  have hderef : r'.deref = r.deref := by
    funext p
    cases p with
    | record k => exact congrArg (read · k) h
    | null => rfl
    | elem i => rfl
  unfold Registry.order Registry.nameOf
  rw [hderef]

/-- A comparison of two elements is one of their records. -/
theorem Lists.cmp (h : Lists r pts) (memory : UInt64 → Option CStr) {i j : Nat}
    (hi : i < pts.length) (hj : j < pts.length) :
    dsCmp r memory (.elem i) (.elem j) = .ok (r.order pts[i] pts[j]) := by
  have hname : ∀ {i : Nat} (hi : i < pts.length),
      nameAt r memory (.elem i) = .ok (r.nameOf pts[i]) := by
    intro i hi
    obtain ⟨pt, hpt⟩ := h.deref (List.getElem_mem hi)
    simp only [nameAt, Registry.nameOf, h.get hi, hpt, bind, Except.bind, pure, Except.pure]
  simp only [dsCmp, hname hi, hname hj, bind, Except.bind, pure, Except.pure, Registry.order]

/-- A swap of two elements only changes their order. -/
theorem Lists.swap (h : Lists r pts) {i j : Nat} (hi : i < pts.length) (hj : j < pts.length) :
    ∃ r', r.swapPoint i j = .ok r' ∧ Lists r' ((pts.set i pts[j]).set j pts[i])
      ∧ r'.heap = r.heap := by
  obtain ⟨spare, hpoint, hlen⟩ := h.point_eq (List.ne_nil_of_length_pos (by omega))
  have hset : ∀ (l : List Ptr) (k : Nat) (p : Ptr), k < l.length →
      (l ++ spare).set k p = l.set k p ++ spare :=
    fun l k p hk => List.set_append_left _ _ hk
  have hlong : ∀ {k : Nat}, k < pts.length → k < (pts ++ spare).length := by
    intro k hk
    rw [List.length_append]
    omega
  have hperm : ((pts.set i pts[j]).set j pts[i]).Perm pts := List.set_set_perm hi hj
  refine ⟨{ r with point := some ((pts.set i pts[j]).set j pts[i] ++ spare) }, ?_,
    ⟨?_, ⟨spare, rfl, ?_⟩, fun p hp => h.records p (hperm.mem_iff.mp hp),
      hperm.nodup_iff.mpr h.distinct⟩, rfl⟩
  · simp only [Registry.swapPoint, h.get hi, h.get hj, bind, Except.bind]
    rw [set_of_point hpoint (hlong hi)]
    dsimp only
    rw [set_of_point rfl (by rw [List.length_set]; exact hlong hj), hset pts i _ hi,
      hset _ j _ (by rwa [List.length_set])]
  · rw [hperm.length_eq]
    exact h.count
  · rw [hperm.length_eq]
    exact hlen

/-- A comparison of neighbours. -/
theorem Lists.cmp_adjacent {x y : Ptr} {post : List Ptr} (h : Lists r (pts ++ y :: x :: post))
    (memory : UInt64 → Option CStr) :
    dsCmp r memory (.elem (pts.length + 1)) (.elem pts.length) = .ok (r.order x y) := by
  have hlen : (pts ++ y :: x :: post).length = pts.length + 2 + post.length := by
    rw [List.length_append, List.length_cons, List.length_cons]
    omega
  have hcmp := h.cmp memory (show pts.length + 1 < _ by omega) (show pts.length < _ by omega)
  rw [List.getElem_append_right (Nat.le_refl _), List.getElem_append_right (Nat.le_succ _)] at hcmp
  simpa using hcmp

/-- A swap of neighbours. -/
theorem Lists.swap_adjacent {x y : Ptr} {post : List Ptr} (h : Lists r (pts ++ y :: x :: post)) :
    ∃ r', r.swapPoint (pts.length + 1) pts.length = .ok r' ∧ Lists r' (pts ++ x :: y :: post)
      ∧ r'.heap = r.heap := by
  have hlen : (pts ++ y :: x :: post).length = pts.length + 2 + post.length := by
    rw [List.length_append, List.length_cons, List.length_cons]
    omega
  obtain ⟨r', hswap, h', hheap⟩ :=
    h.swap (show pts.length + 1 < _ by omega) (show pts.length < _ by omega)
  refine ⟨r', hswap, ?_, hheap⟩
  rw [List.getElem_append_right (Nat.le_refl _), List.getElem_append_right (Nat.le_succ _),
    List.set_append_right _ _ (Nat.le_succ _), List.set_append_right _ _ (Nat.le_refl _)] at h'
  simpa using h'

/-! ## `ds_add` -/

/-- The new record moves down to its place, and all returns. -/
theorem sink_sunk (memory : UInt64 → Option CStr) :
    ∀ {r : Registry} {x : Ptr} {post : List Ptr}, Lists r (pts ++ x :: post) →
      ∃ as bs r', Sunk r.order pts x as bs ∧ sink r memory pts.length = .ok (as.length, r')
        ∧ Lists r' (as ++ x :: (bs ++ post)) ∧ r'.heap = r.heap := by
  induction pts using List.reverseRecOn with
  | nil => exact fun {r x post} h => ⟨[], [], r, Sunk.nil r.order x, rfl, h, rfl⟩
  | append_singleton pts y ih =>
      intro r x post h
      rw [List.append_assoc, List.singleton_append] at h
      have hlen : (pts ++ [y]).length = pts.length + 1 := List.length_append
      rw [hlen, sink, h.cmp_adjacent]
      by_cases hlt : r.order x y = .lt
      · obtain ⟨r₁, hswap, h₁, hheap₁⟩ := h.swap_adjacent
        obtain ⟨as, bs, r', hsunk, hsink, h', hheap⟩ := ih h₁
        rw [order_congr hheap₁] at hsunk
        refine ⟨as, bs ++ [y], r', hsunk.step hlt, ?_, ?_, hheap.trans hheap₁⟩
        · simp only [bind, Except.bind, if_pos hlt, hswap]
          exact hsink
        · rwa [List.append_assoc]
      · refine ⟨pts ++ [y], [], r, Sunk.stay hlt, ?_, ?_, rfl⟩
        · simp only [bind, Except.bind, if_neg hlt]
          rw [hlen]
          rfl
        · rwa [List.append_assoc]

/-- After a successful `realloc`, if one is needed, there is an element
to spare. -/
theorem Lists.grown (h : Lists r pts) (env : Env)
    (hgrow : r.capacity ≤ r.count → env.grow = true) :
    ∃ r' x spare, r.grown env = some r' ∧ Lists r' pts ∧ r'.heap = r.heap
      ∧ r'.point = some (pts ++ x :: spare) := by
  have hcount := h.count
  obtain ⟨spare, hcells, hlen⟩ := h.cells
  by_cases hfull : r.capacity ≤ r.count
  · have hpre : pts <+: resize r.point (DS_EXPAND_BY + r.capacity) env.junk :=
      prefix_resize ⟨spare, hcells.symm⟩ (by omega)
    obtain ⟨rest, hrest⟩ := hpre
    have hsize := congrArg List.length hrest
    rw [length_resize, List.length_append, show DS_EXPAND_BY = 8 from rfl] at hsize
    cases rest with
    | nil =>
        rw [List.length_nil] at hsize
        omega
    | cons x rest =>
        refine ⟨{ r with
            point := some (resize r.point (DS_EXPAND_BY + r.capacity) env.junk)
            capacity := r.capacity + DS_EXPAND_BY }, x, rest, ?_, ?_, rfl, ?_⟩
        · rw [Registry.grown, if_pos hfull, if_pos (hgrow hfull)]
        · refine ⟨hcount, ⟨x :: rest, hrest.symm, ?_⟩, h.records, h.distinct⟩
          show _ = r.capacity + 8
          omega
        · exact congrArg some hrest.symm
  · cases spare with
    | nil =>
        rw [List.length_nil] at hlen
        omega
    | cons x rest =>
        refine ⟨r, x, rest, if_neg hfull, h, rfl, ?_⟩
        cases hpoint : r.point with
        | none =>
            rw [hpoint] at hcells
            simp at hcells
        | some t =>
            rw [hpoint] at hcells
            exact congrArg some hcells

/-- A new record, listed in the first element that is not counted. -/
theorem Lists.append (h : Lists r pts) {x : Ptr} {spare : List Ptr}
    (hpoint : r.point = some (pts ++ x :: spare)) (name : CStr) :
    Lists
      { r with
        point := some (pts ++ .record r.heap.length :: spare)
        count := r.count + 1
        heap := r.heap ++ [.new name] } (pts ++ [.record r.heap.length]) := by
  obtain ⟨spare', hcells, hlen⟩ := h.cells
  have hspare : spare' = x :: spare := by
    rw [hpoint] at hcells
    exact (List.append_cancel_left hcells).symm
  rw [hspare, List.length_cons] at hlen
  refine ⟨?_, ⟨spare, by simp, ?_⟩, ?_, ?_⟩
  · show r.count + 1 = _
    rw [h.count, List.length_append]
    rfl
  · rw [List.length_append, List.length_singleton]
    show _ = r.capacity
    omega
  · intro p hp
    rw [List.length_append, List.length_singleton]
    rcases List.mem_append.mp hp with hold | hnew
    · obtain ⟨k, rfl, hk⟩ := h.records p hold
      exact ⟨k, rfl, by omega⟩
    · exact ⟨_, List.mem_singleton.mp hnew, by omega⟩
  · rw [List.nodup_append]
    refine ⟨h.distinct, List.nodup_singleton _, fun p hp q hq heq => ?_⟩
    obtain ⟨k, rfl, hk⟩ := h.records p hp
    rw [List.mem_singleton.mp hq] at heq
    obtain rfl := Ptr.record.inj heq
    exact absurd hk (Nat.lt_irrefl _)

/-- A call that is granted what it asks for: a new record, put last and
then sunk. -/
theorem Lists.placed (h : Lists r pts) (hroom : sizeofDsPoint ≤ room) {env : Env} (name : CStr)
    (hgrow : r.capacity ≤ r.count → env.grow = true) (hrecord : env.record = true) :
    ∃ (r₁ : Registry) (as bs : List Ptr) (r' : Registry),
      Sunk r₁.order pts (.record r.heap.length) as bs
      ∧ r₁.heap = r.heap ++ [.new name]
      ∧ dsAdd room r env name = .ok (.record r.heap.length, r')
      ∧ Lists r' (as ++ .record r.heap.length :: bs) ∧ r'.heap = r₁.heap := by
  obtain ⟨r₁, x, spare, hgrown, h₁, hheap, hpoint⟩ := h.grown env hgrow
  obtain ⟨as, bs, r', hsunk, hsink, h', hheap'⟩ := sink_sunk env.memory (h₁.append hpoint name)
  rw [List.append_nil] at h'
  have hplace : r₁.count < (pts ++ x :: spare).length := by
    rw [h₁.count, List.length_append, List.length_cons]
    omega
  have hset := @set_of_point { r₁ with count := r₁.count + 1 } _ hpoint _ hplace
    (.record r₁.heap.length)
  have hcell : (pts ++ x :: spare).set r₁.count (.record r₁.heap.length)
      = pts ++ .record r₁.heap.length :: spare := by
    rw [h₁.count, List.set_append_right _ _ (Nat.le_refl _), Nat.sub_self, List.set_cons_zero]
  have hget := h'.get (show as.length < _ by simp)
  rw [List.getElem_append_right (Nat.le_refl _)] at hget
  simp only [Nat.sub_self, List.getElem_cons_zero] at hget
  rw [hcell] at hset
  rw [← h₁.count] at hsink
  rw [← hheap]
  refine ⟨_, as, bs, r', hsunk, rfl, ?_, h', hheap'⟩
  simp only [dsAdd, hgrown, hrecord, if_true, hset, storeNew, if_pos hroom, bind, Except.bind,
    hsink, hget]
  rfl

/-- It registers one more record. -/
theorem Lists.add (h : Lists r pts) (hroom : sizeofDsPoint ≤ room) {env : Env} (name : CStr)
    (hgrow : r.capacity ≤ r.count → env.grow = true) (hrecord : env.record = true) :
    ∃ p r' pts', dsAdd room r env name = .ok (p, r') ∧ p ≠ .null ∧ Lists r' pts'
      ∧ pts'.Perm (pts ++ [.record r.heap.length]) := by
  obtain ⟨r₁, as, bs, r', hsunk, -, hadd, h', -⟩ := h.placed hroom name hgrow hrecord
  exact ⟨_, r', _, hadd, nofun, h', hsunk.perm⟩

/-- Without room for its record no call that is granted one returns. -/
theorem dsAdd_overruns (hroom : ¬sizeofDsPoint ≤ room) {env : Env} {name : CStr}
    (hrecord : env.record = true) {p : Ptr} {r' : Registry}
    (hadd : dsAdd room r env name = .ok (p, r')) : r.grown env = none := by
  cases hgrown : r.grown env with
  | none => rfl
  | some r₁ =>
      rw [dsAdd, hgrown] at hadd
      simp only [hrecord, if_true] at hadd
      obtain ⟨r₂, -, hadd⟩ := bind_eq_ok.mp hadd
      rw [storeNew, if_neg hroom] at hadd
      cases hadd

/-! ## Later calls -/

theorem Lists.setEnabled (h : Lists r pts) {p : Ptr} {enable : Bool} {r' : Registry}
    (hset : r.setEnabled p enable = .ok r') : Lists r' pts := by
  cases p with
  | null => cases hset
  | elem i => cases hset
  | record k =>
      cases hderef : r.deref (.record k) with
      | error e =>
          simp only [Registry.setEnabled, hderef, bind, Except.bind] at hset
          cases hset
      | ok pt =>
          simp only [Registry.setEnabled, hderef, bind, Except.bind] at hset
          obtain rfl := Except.ok.inj hset
          refine ⟨h.count, h.cells, fun p hp => ?_, h.distinct⟩
          rw [List.length_set]
          exact h.records p hp

/-- Every record is freed, each once. -/
theorem Lists.destroy (h : Lists r pts) : dsDestroy r = .ok pts := by
  have hfrom : ∀ n i : Nat, i + n = pts.length →
      destroyFrom r i (pts.take i) n = .ok pts := by
    intro n
    induction n with
    | zero =>
        intro i hi
        rw [destroyFrom, List.take_of_length_le (by omega)]
        rfl
    | succ n ih =>
        intro i hi
        have hlt : i < pts.length := by omega
        have hfresh : pts[i] ∉ pts.take i := by
          have hsplit := h.distinct
          rw [← List.take_append_drop i pts, List.drop_eq_getElem_cons hlt,
            List.nodup_append] at hsplit
          exact fun hmem => hsplit.2.2 _ hmem _ List.mem_cons_self rfl
        obtain ⟨k, hk, hheap⟩ := h.records _ (List.getElem_mem hlt)
        have hfree : free r (pts.take i) pts[i] = .ok (pts.take (i + 1)) := by
          rw [List.take_succ_eq_append_getElem hlt]
          rw [hk] at hfresh ⊢
          exact if_pos ⟨hheap, hfresh⟩
        rw [destroyFrom, h.get hlt]
        show (free r (pts.take i) pts[i] >>= fun freed => destroyFrom r (i + 1) freed n) = _
        rw [hfree]
        exact ih (i + 1) (by omega)
  rw [dsDestroy, h.count]
  exact hfrom pts.length 0 (Nat.zero_add _)

/-- While there is memory, calls of `ds_add` return. -/
theorem Lists.addAll (hroom : sizeofDsPoint ≤ room) {ops : List Op} :
    ∀ {r : Registry} {pts : List Ptr}, Lists r pts → (∀ op ∈ ops, op.served = true) →
      ∃ r' pts', run (step room) r ops = some r' ∧ Lists r' pts' ∧ ∀ p ∈ pts, p ∈ pts' := by
  induction ops with
  | nil => exact fun {r pts} h _ => ⟨r, pts, rfl, h, fun _ hp => hp⟩
  | cons op ops ih =>
      intro r pts h hserved
      cases op with
      | enable p b => exact absurd (hserved _ List.mem_cons_self) (by simp [Op.served])
      | add name env =>
          have hmem := hserved _ List.mem_cons_self
          rw [Op.served, Bool.and_eq_true] at hmem
          obtain ⟨p, r₁, pts₁, hadd, -, h₁, hperm⟩ := h.add hroom _ (fun _ => hmem.1) hmem.2
          obtain ⟨r', pts', hrun, h', hsub⟩ :=
            ih h₁ fun op hop => hserved op (List.mem_cons_of_mem _ hop)
          refine ⟨r', pts', run_cons_eq_some.mpr ⟨r₁, ?_, hrun⟩, h', fun p hp => hsub p ?_⟩
          · rw [step, hadd]
            rfl
          · exact hperm.mem_iff.mpr (List.mem_append_left _ hp)

/-- Later calls do not work without room for their records. -/
theorem Intact.le_room {r' : Registry} (h : Intact room r r') : sizeofDsPoint ≤ room := by
  by_contra hroom
  obtain ⟨r₁, -, hrun, -⟩ := h.later [.add .empty {}] (by simp [Op.served])
  obtain ⟨r₂, hstep, -⟩ := run_cons_eq_some.mp hrun
  cases hadd : dsAdd room r' {} .empty with
  | error e =>
      rw [step, hadd] at hstep
      cases hstep
  | ok out =>
      have hnone := dsAdd_overruns hroom rfl hadd
      simp only [Registry.grown, if_true] at hnone
      split at hnone <;> cases hnone

/-! ## Refused calls -/

/-- A refused first array leaves the empty registry. -/
theorem Lists.refused_first (h : Lists r pts) (hroom : sizeofDsPoint ≤ room) {env : Env}
    (name : CStr) (hfull : r.capacity ≤ r.count) (hgrow : env.grow = false)
    (hempty : r.count = 0) :
    ∃ r', dsAdd room r env name = .ok (.null, r') ∧ Lists r' pts ∧ Intact room r r' := by
  have hnil : pts = [] := List.length_eq_zero_iff.mp (h.count.symm.trans hempty)
  subst hnil
  have hadd : dsAdd room r env name = .ok (.null, { r with point := none }) := by
    rw [dsAdd, Registry.grown, if_pos hfull, hgrow]
    rfl
  have hlists : Lists { r with point := none } [] := by
    refine ⟨h.count, ⟨[], rfl, ?_⟩, h.records, h.distinct⟩
    show 0 = r.capacity
    omega
  refine ⟨_, hadd, hlists, rfl, rfl, ?_, rfl, fun i hi => ?_, fun ops hops => ?_⟩
  · rw [hlists.points, h.points]
  · exact absurd (hempty ▸ hi : i < 0) (Nat.not_lt_zero i)
  · obtain ⟨r'', pts', hrun, h', -⟩ := hlists.addAll hroom hops
    refine ⟨r'', pts', hrun, h'.destroy, ?_⟩
    rw [hlists.points]
    exact fun p hp => absurd hp List.not_mem_nil

/-- Any other refused call harms the registry. -/
theorem Lists.refused (h : Lists r pts) {env : Env} {name : CStr}
    (hno : ¬Granted room r (.add name env)) {p : Ptr} {r' : Registry}
    (hadd : dsAdd room r env name = .ok (p, r')) : p = .null ∧ ¬Intact room r r' := by
  rw [Granted] at hno
  split at hno
  case isTrue hfull =>
      rw [dsAdd, Registry.grown, if_pos hfull.1, hfull.2] at hadd
      obtain ⟨rfl, rfl⟩ := Prod.mk.inj (Except.ok.inj hadd)
      refine ⟨rfl, fun hintact => hno ⟨?_, hintact.le_room⟩⟩
      have hlost : [] = pts := by
        rw [← h.points, ← hintact.points]
        exact List.take_nil.symm
      rw [h.count, ← hlost]
      rfl
  case isFalse hfull =>
      obtain ⟨r₁, x, spare, hgrown, h₁, -, hpoint⟩ := h.grown env fun hle => by
        cases hgrow : env.grow with
        | true => rfl
        | false => exact absurd ⟨hle, hgrow⟩ hfull
      have hplace : r₁.count < (pts ++ x :: spare).length := by
        rw [h₁.count, List.length_append, List.length_cons]
        omega
      have hset := set_of_point (r := { r₁ with count := r₁.count + 1 }) hpoint hplace .null
      simp only [dsAdd, hgrown, Bool.eq_false_iff.mpr hno, Bool.false_eq_true, if_false, hset,
        bind, Except.bind, pure, Except.pure, Except.ok.injEq, Prod.mk.injEq] at hadd
      obtain ⟨rfl, rfl⟩ := hadd
      refine ⟨rfl, fun hintact => ?_⟩
      have hcount : r₁.count + 1 = r.count := hintact.count
      rw [h.count, h₁.count] at hcount
      omega

/-- A call that meets the condition and returns is a refused first array, or
adds its record. -/
theorem Lists.granted (h : Lists r pts) {env : Env} {name : CStr}
    (hgranted : Granted room r (.add name env)) {p : Ptr} {r' : Registry}
    (hadd : dsAdd room r env name = .ok (p, r')) :
    (∃ pts', Lists r' pts') ∧ (p = .null → Intact room r r') := by
  rw [Granted] at hgranted
  split at hgranted
  case isTrue hfull =>
      obtain ⟨r₁, hadd₁, h₁, hintact⟩ :=
        h.refused_first hgranted.2 name hfull.1 hfull.2 hgranted.1
      obtain ⟨rfl, rfl⟩ := Prod.mk.inj (Except.ok.inj (hadd.symm.trans hadd₁))
      exact ⟨⟨pts, h₁⟩, fun _ => hintact⟩
  case isFalse hfull =>
      have hgrow : r.capacity ≤ r.count → env.grow = true :=
        fun hle => Bool.of_not_eq_false fun hno => hfull ⟨hle, hno⟩
      have hroom : sizeofDsPoint ≤ room := by
        by_contra hroom
        obtain ⟨r₁, -, -, hgrown, -⟩ := h.grown env hgrow
        rw [dsAdd_overruns hroom hgranted hadd] at hgrown
        cases hgrown
      obtain ⟨q, r₁, pts₁, hadd₁, hne, h₁, -⟩ := h.add hroom name hgrow hgranted
      obtain ⟨rfl, rfl⟩ := Prod.mk.inj (Except.ok.inj (hadd.symm.trans hadd₁))
      exact ⟨⟨pts₁, h₁⟩, fun hnull => absurd hnull hne⟩

end

/-! ## Runs -/

section

variable {room : Nat} {r r' : Registry} {pts : List Ptr} {op : Op}

theorem step_add_eq_some {name : CStr} {env : Env} :
    step room r (.add name env) = some r' ↔ ∃ p, dsAdd room r env name = .ok (p, r') := by
  rw [step]
  cases hadd : dsAdd room r env name with
  | error e => exact ⟨nofun, fun ⟨p, h⟩ => nomatch h⟩
  | ok out =>
      refine ⟨fun h => ⟨out.1, ?_⟩, fun ⟨p, h⟩ => ?_⟩
      · rw [← Option.some.inj h]
      · rw [Except.ok.inj h]
        rfl

theorem Lists.step (h : Lists r pts) (hgranted : Granted room r op)
    (hs : step room r op = some r') : ∃ pts', Lists r' pts' := by
  cases op with
  | enable p b =>
      cases hset : r.setEnabled p b with
      | error e =>
          rw [DsRegistry.step, hset] at hs
          cases hs
      | ok r₁ =>
          rw [DsRegistry.step, hset] at hs
          obtain rfl := Option.some.inj hs
          exact ⟨pts, h.setEnabled hset⟩
  | add name env =>
      obtain ⟨p, hadd⟩ := step_add_eq_some.mp hs
      exact (h.granted hgranted hadd).1

theorem Lists.failsIntact_iff (h : Lists r pts) (hs : DsRegistry.step room r op = some r') :
    Granted room r op ↔ FailsIntact room r op := by
  cases op with
  | enable p b => exact Iff.rfl
  | add name env =>
      by_cases hgranted : Granted room r (.add name env)
      · exact iff_of_true hgranted fun r₁ hadd => (h.granted hgranted hadd).2 rfl
      · refine iff_of_false hgranted fun hfails => ?_
        obtain ⟨p, hadd⟩ := step_add_eq_some.mp hs
        obtain ⟨rfl, hharm⟩ := h.refused hgranted hadd
        exact hharm (hfails r' hadd)

end

/-- **A failed `ds_add` leaves the registry intact** throughout a run, if
and only if no call of it is refused an allocation, the first array apart
if blocks have room for records. -/
theorem refused_intact_iff (room : Nat) (ops : List Op) :
    Meets (step room) (FailsIntact room) .init ops ↔
      Meets (step room) (Granted room) .init ops :=
  (meets_iff_meets (I := fun r => ∃ pts, Lists r pts)
    (fun _ _ _ h hc hs => h.elim fun _ hl => hl.step hc hs)
    (fun _ _ _ h hs => h.elim fun _ hl => hl.failsIntact_iff hs) ⟨[], lists_init⟩).symm

theorem not_meets_init {room : Nat} {env : Env} {name : CStr} {r : Registry}
    (hadd : dsAdd room .init env name = .ok (.null, r))
    (hno : ¬Granted room .init (.add name env)) :
    ¬Meets (step room) (FailsIntact room) .init [.add name env] := by
  intro hmeets
  obtain ⟨hfails, -⟩ := hmeets r (step_add_eq_some.mpr ⟨_, hadd⟩)
  exact (lists_init.refused hno hadd).2 (hfails r hadd)

/-- The record of the first point is refused: NULL is counted, and the next
`ds_add` follows it. Or the first array is refused, and the next `ds_add`
has a block of 24 bytes for its record. -/
theorem refused_record_harms :
    (∃ r, dsAdd sizeofDsPoint .init { record := false } xName = .ok (.null, r) ∧ r.count = 1
        ∧ dsAdd sizeofDsPoint r {} zName = .error .null
        ∧ ¬Meets (step sizeofDsPoint) (FailsIntact sizeofDsPoint) .init
          [.add xName { record := false }])
      ∧ ∃ r, dsAdd 24 .init { grow := false } xName = .ok (.null, r)
        ∧ dsAdd 24 r {} zName = .error .bounds
        ∧ ¬Meets (step 24) (FailsIntact 24) .init [.add xName { grow := false }] := by
  refine ⟨⟨_, rfl, rfl, rfl, ?_⟩, _, rfl, rfl, ?_⟩
  · exact not_meets_init rfl (by simp [Granted])
  · exact not_meets_init rfl (by simp [Granted, Registry.init])

end MiscTools.DsRegistry
