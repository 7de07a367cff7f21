import MiscTools.DsRefused

/-!
# The order of the point registry

While there is memory, `ds_add` keeps `ds.point` sorted by name. Records are
numbered as they are allocated, so the record of a call is the number of
calls before it, and after `n` calls the elements are the records below `n`
in some order (`InOrder`).

A call adds a record to the heap, which leaves the order of the others as it
was, and sinks its pointer to where the array is sorted again
(`Ordered.add`). That `strcmp` is a total preorder is all there is to use of
it: equal names may be added again and again.
-/

namespace MiscTools.DsRegistry

open Blocks
open DsDyn (DS_MAXLEN)
open Sinking (Sorted transCmp_on)

/-- Calls of `ds_add`, one after the other. -/
def addAll (room : Nat) : Registry → List (CStr × Env) → Except Fault Registry
  | r, [] => return r
  | r, (pointName, env) :: cs => do
      let (_, r) ← dsAdd room r env pointName
      addAll room r cs

/-- What `ds.point` is after `names` have been added: the record of each of
them once, sorted by the names as they are stored. -/
structure InOrder (r : Registry) (names : List CStr) : Prop where
  stored : r.heap.map DsPoint.name = names.map fun name => name.strndup DS_MAXLEN
  count : r.count = names.length
  room : r.count ≤ r.capacity
  records : r.points.Perm ((List.range names.length).map Ptr.record)
  sorted : (r.points.map r.nameOf).Pairwise fun s t => s.strcmp t ≠ .gt

/-! ## `strcmp` -/

/-- Bytes are compared from the first one on. -/
theorem strcmpBytes_eq_compareLex (xs : List UInt8) : ∀ ys,
    CStr.strcmpBytes xs ys = List.compareLex (fun x y => compareOfLessAndEq x y) xs ys := by
  induction xs with
  | nil => exact fun ys => by cases ys <;> rfl
  | cons x xs ih =>
      intro ys
      cases ys with
      | nil => rfl
      | cons y ys =>
          rw [CStr.strcmpBytes, List.compareLex_cons_cons, compareOfLessAndEq, ← ih]
          by_cases hlt : x < y
          · rw [if_pos hlt, if_pos hlt]
            rfl
          · rw [if_neg hlt, if_neg hlt]
            by_cases heq : x = y
            · subst heq
              rw [if_neg hlt, if_pos rfl]
              rfl
            · have hgt : y < x := UInt8.lt_of_le_of_ne (UInt8.not_lt.mp hlt) (Ne.symm heq)
              rw [if_pos hgt, if_neg heq]
              rfl

theorem transCmp_strcmp : Std.TransCmp CStr.strcmp := by
  have hbyte : Std.TransCmp fun x y : UInt8 => compareOfLessAndEq x y :=
    Std.TransOrd.compareOfLessAndEq_of_antisymm_of_trans_of_total_of_not_le
      UInt8.le_antisymm UInt8.le_trans UInt8.le_total UInt8.not_le
  have hlex : CStr.strcmp = fun s t =>
      List.compareLex (fun x y => compareOfLessAndEq x y) s.bytes t.bytes := by
    funext s t
    exact strcmpBytes_eq_compareLex s.bytes t.bytes
  rw [hlex]
  exact transCmp_on CStr.bytes

theorem transCmp_order (r : Registry) : Std.TransCmp r.order :=
  have := transCmp_strcmp
  transCmp_on r.nameOf

/-! ## The invariant -/

theorem nameOf_record {r : Registry} {k : Nat} (hk : k < r.heap.length) :
    r.nameOf (.record k) = r.heap[k].name := by
  have hread : r.deref (.record k) = .ok r.heap[k] := read_of_lt hk
  rw [Registry.nameOf, hread]

/-- `pts` are the counted elements. -/
structure Ordered (r : Registry) (names : List CStr) (pts : List Ptr) : Prop where
  lists : Lists r pts
  stored : r.heap.map DsPoint.name = names.map fun name => name.strndup DS_MAXLEN
  perm : pts.Perm ((List.range names.length).map Ptr.record)
  sorted : Sorted r.order pts

theorem ordered_init : Ordered .init [] [] :=
  ⟨lists_init, rfl, .refl _, List.Pairwise.nil⟩

section

variable {room : Nat} {r : Registry} {names : List CStr} {pts : List Ptr}

theorem Ordered.heap_length (h : Ordered r names pts) : r.heap.length = names.length := by
  have hlen := congrArg List.length h.stored
  rwa [List.length_map, List.length_map] at hlen

theorem Ordered.inOrder (h : Ordered r names pts) : InOrder r names := by
  obtain ⟨spare, -, hcapacity⟩ := h.lists.cells
  have hlen := h.perm.length_eq
  rw [List.length_map, List.length_range] at hlen
  have hcount := h.lists.count
  have hpoints := h.lists.points
  refine ⟨h.stored, by omega, by omega, hpoints ▸ h.perm, ?_⟩
  rw [hpoints, List.pairwise_map]
  exact h.sorted

/-- Every record is at one of the elements. -/
theorem Ordered.holds (h : Ordered r names pts) {k : Nat} (hk : k < names.length) :
    ∃ i, Holds r i (.record k) names[k] := by
  have hmem : Ptr.record k ∈ pts :=
    h.perm.mem_iff.mpr (List.mem_map.mpr ⟨k, List.mem_range.mpr hk, rfl⟩)
  obtain ⟨i, hi, hrecord⟩ := List.getElem_of_mem hmem
  have hheap : k < r.heap.length := h.heap_length ▸ hk
  have hname : r.heap[k].name = names[k].strndup DS_MAXLEN := by
    have hget := congrArg (fun l => l[k]?) h.stored
    simpa [hheap, hk] using hget
  refine ⟨i, by rw [h.lists.count]; exact hi, ?_, r.heap[k], read_of_lt hheap, hname⟩
  rw [h.lists.get hi, hrecord]

/-- A record that is new does not change the order of the others. -/
theorem Ordered.sorted_append (h : Ordered r names pts) {r' : Registry} {pt : DsPoint}
    (hheap : r'.heap = r.heap ++ [pt]) : Sorted r'.order pts := by
  have hname : ∀ p ∈ pts, r'.nameOf p = r.nameOf p := by
    intro p hp
    obtain ⟨k, rfl, hk⟩ := h.lists.records p hp
    have hk' : k < r'.heap.length := by
      rw [hheap, List.length_append]
      omega
    rw [nameOf_record hk, nameOf_record hk']
    simp only [hheap, List.getElem_append_left hk]
  refine h.sorted.congr fun p hp q hq => ?_
  rw [Registry.order, Registry.order, hname p hp, hname q hq]

theorem Ordered.add (h : Ordered r names pts) (hroom : sizeofDsPoint ≤ room) {env : Env}
    (name : CStr) (hgrow : env.grow = true) (hrecord : env.record = true) :
    ∃ r' pts', dsAdd room r env name = .ok (.record names.length, r')
      ∧ Ordered r' (names ++ [name]) pts' := by
  obtain ⟨r₁, as, bs, r', hsunk, hheap₁, hadd, hlists, hheap⟩ :=
    h.lists.placed hroom name (fun _ => hgrow) hrecord
  rw [h.heap_length] at hsunk hadd hlists
  have hcmp := transCmp_order r₁
  refine ⟨r', as ++ .record names.length :: bs, hadd, hlists, ?_, ?_, ?_⟩
  · rw [hheap, hheap₁, List.map_append, List.map_append, h.stored]
    rfl
  · rw [List.length_append, List.length_singleton, List.range_succ, List.map_append]
    exact hsunk.perm.trans (h.perm.append_right _)
  · rw [order_congr hheap]
    exact hsunk.sorted (h.sorted_append hheap₁)

/-! ## Runs -/

theorem Ordered.addAll (hroom : sizeofDsPoint ≤ room) {calls : List (CStr × Env)} :
    ∀ {r : Registry} {names : List CStr} {pts : List Ptr}, Ordered r names pts →
      (∀ c ∈ calls, c.2.grow = true ∧ c.2.record = true) →
        ∃ r' pts', addAll room r calls = .ok r' ∧ Ordered r' (names ++ calls.map (·.1)) pts' := by
  induction calls with
  | nil =>
      intro r names pts h _
      refine ⟨r, pts, rfl, ?_⟩
      rwa [List.map_nil, List.append_nil]
  | cons c calls ih =>
      intro r names pts h hserved
      obtain ⟨hgrow, hrecord⟩ := hserved c List.mem_cons_self
      obtain ⟨r₁, pts₁, hadd, h₁⟩ := h.add hroom c.1 hgrow hrecord
      obtain ⟨r', pts', hrun, h'⟩ := ih h₁ fun d hd => hserved d (List.mem_cons_of_mem c hd)
      rw [List.append_assoc, List.singleton_append] at h'
      refine ⟨r', pts', ?_, h'⟩
      rw [DsRegistry.addAll, hadd]
      exact hrun

end

/-- **The registry is in order after every `ds_add`**, and what the call
returns is the record it has added. -/
theorem dsAdd_in_order {room : Nat} (hroom : sizeofDsPoint ≤ room) (calls : List (CStr × Env))
    (pointName : CStr) (env : Env)
    (hserved : ∀ c ∈ calls ++ [(pointName, env)], c.2.grow = true ∧ c.2.record = true) :
    ∃ r p r', addAll room .init calls = .ok r ∧ dsAdd room r env pointName = .ok (p, r')
      ∧ p = .record calls.length ∧ (∃ i, Holds r' i p pointName)
      ∧ InOrder r' (calls.map (·.1) ++ [pointName]) := by
  obtain ⟨r, pts, hrun, h⟩ :=
    ordered_init.addAll hroom fun c hc => hserved c (List.mem_append_left _ hc)
  obtain ⟨hgrow, hrecord⟩ := hserved (pointName, env) (by simp)
  obtain ⟨r', pts', hadd, h'⟩ := h.add hroom pointName hgrow hrecord
  rw [List.nil_append] at hadd h'
  obtain ⟨i, hholds⟩ := @Ordered.holds _ _ _ h' calls.length (by simp)
  rw [List.length_map] at hadd
  refine ⟨r, .record calls.length, r', hrun, hadd, rfl, ⟨i, ?_⟩, h'.inOrder⟩
  simpa using hholds

/-- "z", then "x" twice. -/
theorem dsAdd_in_order_three :
    ∃ r p r', addAll sizeofDsPoint .init [(zName, {}), (xName, {})] = .ok r
      ∧ dsAdd sizeofDsPoint r {} xName = .ok (p, r')
      ∧ p = .record 2 ∧ (∃ i, Holds r' i p xName) ∧ InOrder r' [zName, xName, xName] :=
  dsAdd_in_order (Nat.le_refl _) [(zName, {}), (xName, {})] xName {} fun c hc => by
    simp only [List.cons_append, List.nil_append, List.mem_cons, List.not_mem_nil, or_false] at hc
    rcases hc with rfl | rfl | rfl <;> exact ⟨rfl, rfl⟩

end MiscTools.DsRegistry
