import Mathlib.Data.Set.Function
import WebTunnel.Server.Sessions

/-! What the session table holds after any allocations and deletions. -/

namespace WebTunnel.Server.Tables
open Library.Slots Library.Run Library.JavaScript Sessions

variable {α : Type} [HasSeq α]

/-- The live ids lead one to one to the used slots, each to its own object, and the others are empty. -/
structure Dense (l : Ledger α) : Prop where
  distinct : (l.live.map HasSeq.seq).Nodup
  slots : Set.BijOn (holeGet l.table.seq2index) {s | ∃ o ∈ l.live, HasSeq.seq o = s} {x | ∃ i < l.table.cnt, x = some i}
  own : ∀ o ∈ l.live, ∃ i, holeGet l.table.seq2index (HasSeq.seq o) = some i ∧ holeGet l.table.index2obj i = some o
  empty : ∀ i, l.table.cnt ≤ i → holeGet l.table.index2obj i = none

/-- Allocations find their cursor free and deletions name a live id. -/
def Named (l : Ledger α) : TableOp α → Prop
  | .newSeq _ => l.CursorFree
  | .delSeq seq => ∃ o ∈ l.live, HasSeq.seq o = seq

theorem good_of_named (l : Ledger α) (op : TableOp α) (named : Named l op) : l.Good op := by
  cases op with
  | newSeq _ => exact named
  | delSeq _ => exact .inl named

section
variable {l : Ledger α} {objs : List α}

theorem index_of_mem (rep : Represents l.table objs) {o : α} (member : o ∈ objs) :
    ∃ i < l.table.cnt, holeGet l.table.seq2index (HasSeq.seq o) = some i ∧ objs[i]? = some o := by
  obtain ⟨i, bound, value⟩ := List.mem_iff_getElem.mp member
  have found : objs[i]? = some o := by rw [List.getElem?_eq_getElem bound, value]
  exact ⟨i, rep.slot_lt found, rep.index i o found, found⟩

theorem dense_of_consistent (consistent : l.Consistent) : Dense l := by
  obtain ⟨objs, rep, perm⟩ := consistent
  refine ⟨(perm.map _).nodup_iff.mp rep.distinct, ⟨?_, ?_, ?_⟩, fun o live => ?_, fun i past => ?_⟩
  · rintro s ⟨o, live, rfl⟩
    obtain ⟨i, low, index, _⟩ := index_of_mem rep (perm.mem_iff.mpr live)
    exact ⟨i, low, index⟩
  · rintro s ⟨o, live, rfl⟩ s' ⟨o', live', rfl⟩ same
    obtain ⟨i, _, index, found⟩ := index_of_mem rep (perm.mem_iff.mpr live)
    obtain ⟨i', _, index', found'⟩ := index_of_mem rep (perm.mem_iff.mpr live')
    rw [index, index'] at same
    cases same
    rw [Option.some.inj (found.symm.trans found')]
  · rintro x ⟨i, low, rfl⟩
    have bound : i < objs.length := rep.count ▸ low
    refine ⟨HasSeq.seq objs[i], ⟨objs[i], perm.mem_iff.mp (List.getElem_mem bound), rfl⟩, ?_⟩
    exact rep.index i _ (List.getElem?_eq_getElem bound)
  · obtain ⟨i, _, index, found⟩ := index_of_mem rep (perm.mem_iff.mpr live)
    exact ⟨i, index, (rep.slots i).trans found⟩
  · rw [rep.slots, List.getElem?_eq_none_iff, ← rep.count]
    exact past

theorem newSeq_none_iff (rep : Represents l.table objs) (objCallback : Nat → α) :
    (newSeq l.table objCallback).1 = none ↔ l.table.cnt = userMgrMax := by
  have bounded : l.table.cnt ≤ userMgrMax := rep.roomy.trans rep.bounded
  rcases Nat.lt_or_ge l.table.cnt userMgrMax with room | full
  · rw [newSeq_fst objCallback room]
    exact iff_of_false (by simp) (Nat.ne_of_lt room)
  · rw [newSeq_full objCallback full]
    exact iff_of_true rfl (Nat.le_antisymm bounded full)

/-- Deleting a live id gives back its object, and the others are found as before. -/
theorem delSeq_apart (rep : Represents l.table objs) {o : α} (member : o ∈ objs) :
    ∃ table, delSeq l.table (HasSeq.seq o) = .ok (some o, table) ∧
      ∀ p ∈ objs, HasSeq.seq p ≠ HasSeq.seq o → getBySeq table (HasSeq.seq p) = getBySeq l.table (HasSeq.seq p) := by
  obtain ⟨i, _, _, found⟩ := index_of_mem rep member
  obtain ⟨table, result, next, _⟩ := rep.delSeq found
  refine ⟨table, result, fun p live other => ?_⟩
  have kept : p ∈ swapRemove objs i := by
    have bound := (List.getElem?_eq_some_iff.mp found).1
    rw [(swapRemove_perm objs bound).mem_iff, ← filter_eq_eraseIdx rep.distinct found]
    exact List.mem_filter.mpr ⟨live, decide_eq_true other⟩
  rw [next.getBySeq kept, rep.getBySeq live]

/-- After every run whose allocations find their cursor free and whose deletions name live ids, the
table is dense, allocation fails exactly when it is full, and a deletion disturbs no other id. -/
theorem table_dense (reached : Reach Ledger.step Named Ledger.Starts l) :
    Dense l ∧
    (∀ objCallback : ObjCallback α, (newSeq l.table objCallback.make).1 = none ↔ l.table.cnt = userMgrMax) ∧
    ∀ o ∈ l.live, ∃ table, delSeq l.table (HasSeq.seq o) = .ok (some o, table) ∧
      ∀ p ∈ l.live, HasSeq.seq p ≠ HasSeq.seq o → getBySeq table (HasSeq.seq p) = getBySeq l.table (HasSeq.seq p) := by
  have consistent := Ledger.consistent_of_reach (reached.mono good_of_named)
  refine ⟨dense_of_consistent consistent, ?_⟩
  obtain ⟨objs, rep, perm⟩ := consistent
  refine ⟨fun objCallback => newSeq_none_iff rep objCallback.make, fun o live => ?_⟩
  obtain ⟨table, result, apart⟩ := delSeq_apart rep (perm.mem_iff.mpr live)
  exact ⟨table, result, fun p other => apart p (perm.mem_iff.mpr other)⟩

end

/-- Two sessions, of which the first was deleted. -/
def afterFirst : Ledger ProcRef :=
  ⟨⟨2, [some ⟨1, 1⟩, none], [some 0, some 0], 1⟩, [⟨1, 1⟩]⟩

theorem reach_afterFirst : Reach Ledger.step Named Ledger.Starts afterFirst := by
  refine .next (a := .delSeq 0) (.next (a := .newSeq (mkRef 1)) (.next (a := .newSeq (mkRef 0)) (.start rfl) ?_ rfl) ?_ rfl) ?_ rfl
  · intro _ o live
    cases live
  · intro _ o live
    cases List.mem_singleton.mp live
    decide
  · have member : (⟨0, 0⟩ : ProcRef) ∈ [⟨0, 0⟩, ⟨1, 1⟩] := List.mem_cons_self
    exact ⟨⟨0, 0⟩, member, rfl⟩

theorem table_dense_afterFirst :
    Dense afterFirst ∧
    (∀ objCallback : ObjCallback ProcRef,
      (newSeq afterFirst.table objCallback.make).1 = none ↔ afterFirst.table.cnt = userMgrMax) ∧
    ∀ o ∈ afterFirst.live, ∃ table, delSeq afterFirst.table (HasSeq.seq o) = .ok (some o, table) ∧
      ∀ p ∈ afterFirst.live, HasSeq.seq p ≠ HasSeq.seq o →
        getBySeq table (HasSeq.seq p) = getBySeq afterFirst.table (HasSeq.seq p) :=
  table_dense reach_afterFirst

/-! Ids that were deleted. -/

/-- A ledger with the ids that were ever allocated. -/
structure History (α : Type) extends Ledger α where
  given : List Nat

def History.Starts (h : History α) : Prop := h = ⟨⟨fresh, []⟩, []⟩

def History.step (h : History α) (op : TableOp α) : Option (History α) :=
  match h.toLedger.step op with
  | none => none
  | some l =>
    match op with
    | .newSeq objCallback =>
      some ⟨l, (newSeq h.table objCallback.make).1.elim h.given fun obj => HasSeq.seq obj :: h.given⟩
    | .delSeq _ => some ⟨l, h.given⟩

/-- The id finds no object, and deleting it gives null and changes neither the count nor what the live
ids lead to. -/
def Gone (l : Ledger α) (seq : Nat) : Prop :=
  getBySeq l.table seq = none ∧ ∃ table, delSeq l.table seq = .ok (none, table) ∧ table.cnt = l.table.cnt ∧
    ∀ o ∈ l.live, getBySeq table (HasSeq.seq o) = getBySeq l.table (HasSeq.seq o)

/-- An id leads somewhere if and only if it was allocated once. -/
structure Recorded (h : History α) : Prop where
  shaped : Shaped h.table
  leads : ∀ s, holeGet h.table.seq2index s ≠ none ↔ s ∈ h.given
  objects : ∀ o, Live h.table o → HasSeq.seq o ∈ h.given

section
variable {h h' : History α}

theorem recorded_start (start : h.Starts) : Recorded h := by
  subst start
  refine ⟨shaped_fresh, fun s => by simp [fresh, holeGet], ?_⟩
  rintro o ⟨i, found⟩
  simp [fresh, holeGet] at found

theorem Recorded.newSeq (recorded : Recorded h) {objCallback : ObjCallback α}
    (moved : h.step (.newSeq objCallback) = some h') : Recorded h' := by
  rw [History.step, Ledger.step] at moved
  rcases Nat.lt_or_ge h.table.cnt userMgrMax with room | full
  · have own := objCallback.own (cursor h.table)
    obtain ⟨shaped, live⟩ := recorded.shaped.newSeq objCallback.make room own
    obtain ⟨table, result, _, _, _, index, _, _⟩ := newSeq_run objCallback.make room recorded.shaped.parallel
    rw [result] at shaped live
    simp only [result, Option.elim_some, Option.some.injEq] at moved
    subst moved
    rw [own]
    refine ⟨shaped, fun s => ?_, fun o now => ?_⟩
    · dsimp only
      rw [index, List.mem_cons]
      by_cases same : s = cursor h.table
      · simp [same]
      · rw [if_neg same, recorded.leads, or_iff_right same]
    · rcases live o now with old | rfl
      · exact List.mem_cons_of_mem _ (recorded.objects o old)
      · rw [own]
        exact List.mem_cons_self
  · simp only [newSeq_full _ full, Option.elim_none, Option.some.injEq] at moved
    subst moved
    exact ⟨recorded.shaped, recorded.leads, recorded.objects⟩

theorem Recorded.delSeq (recorded : Recorded h) {seq : Nat} (moved : h.step (.delSeq seq) = some h') : Recorded h' := by
  rw [History.step, Ledger.step] at moved
  cases result : Sessions.delSeq h.table seq with
  | error e =>
    rw [result] at moved
    cases moved
  | ok pair =>
    obtain ⟨obj, table⟩ := pair
    simp only [result, Option.some.injEq] at moved
    subst moved
    obtain ⟨shaped, live⟩ := recorded.shaped.delSeq result
    refine ⟨shaped, fun s => ?_, fun o now => recorded.objects o (live o now)⟩
    rw [← recorded.leads]
    dsimp only
    cases leads : holeGet h.table.seq2index seq with
    | none =>
      rw [delSeq_of_unset leads] at result
      cases result
      rfl
    | some i =>
      have count := (recorded.shaped.delSeq_ok_iff leads).mp ⟨_, result⟩
      obtain ⟨last, same⟩ : ∃ last, h.table.cnt = last + 1 := ⟨h.table.cnt - 1, by omega⟩
      obtain ⟨other, movedAt⟩ := recorded.shaped.filled last (by omega)
      have inside : seq < h.table.index2obj.length := by
        rw [recorded.shaped.parallel]
        exact lt_of_holeGet leads
      obtain ⟨table', result', _, _, _, index, _, _⟩ :=
        delSeq_run inside leads same movedAt (recorded.shaped.ids other ⟨last, movedAt⟩)
      cases result.symm.trans result'
      rw [index]
      split
      next moves =>
        rw [moves.2, recorded.leads]
        exact iff_of_true (by simp) (recorded.objects other ⟨last, movedAt⟩)
      next => rfl

theorem recorded_of_reach (reached : Reach History.step (fun _ _ => True) History.Starts h) : Recorded h := by
  refine reached.invariant (fun _ => recorded_start) fun h op h' recorded _ moved => ?_
  cases op with
  | newSeq _ => exact recorded.newSeq moved
  | delSeq _ => exact recorded.delSeq moved

theorem Gone.unset (recorded : Recorded h) {seq : Nat} (gone : Gone h.toLedger seq) :
    holeGet h.table.seq2index seq = none := by
  obtain ⟨_, table, deleted, count, _⟩ := gone
  cases leads : holeGet h.table.seq2index seq with
  | none => rfl
  | some i =>
    have positive := (recorded.shaped.delSeq_ok_iff leads).mp ⟨_, deleted⟩
    obtain ⟨last, same⟩ : ∃ last, h.table.cnt = last + 1 := ⟨h.table.cnt - 1, by omega⟩
    obtain ⟨other, movedAt⟩ := recorded.shaped.filled last (by omega)
    have inside : seq < h.table.index2obj.length := by
      rw [recorded.shaped.parallel]
      exact lt_of_holeGet leads
    obtain ⟨table', result', count', _⟩ :=
      delSeq_run inside leads same movedAt (recorded.shaped.ids other ⟨last, movedAt⟩)
    have tables := (Prod.mk.inj (Except.ok.inj (deleted.symm.trans result'))).2
    rw [tables] at count
    omega

/-- After every run, an id is gone if and only if it was never allocated; deleting it does not suffice. -/
theorem gone_iff (reached : Reach History.step (fun _ _ => True) History.Starts h) (seq : Nat) :
    Gone h.toLedger seq ↔ seq ∉ h.given := by
  have recorded := recorded_of_reach reached
  rw [← recorded.leads, not_not]
  refine ⟨fun gone => gone.unset recorded, fun unset => ⟨?_, h.table, delSeq_of_unset unset, rfl, fun _ _ => rfl⟩⟩
  cases found : getBySeq h.table seq with
  | none => rfl
  | some o =>
    obtain ⟨i, leads, _⟩ := getBySeq_eq_some.mp found
    exact absurd (unset.symm.trans leads) (by simp)

end

/-- The same two sessions with the ids they were given. -/
def firstDeleted : History ProcRef := ⟨afterFirst, [1, 0]⟩

theorem reach_firstDeleted : Reach History.step (fun _ _ => True) History.Starts firstDeleted :=
  .next (a := .delSeq 0) (.next (a := .newSeq (mkRef 1)) (.next (a := .newSeq (mkRef 0)) (.start rfl) trivial rfl)
    trivial rfl) trivial rfl

theorem gone_iff_firstDeleted : Gone firstDeleted.toLedger 7 ↔ 7 ∉ firstDeleted.given := gone_iff reach_firstDeleted 7

/-- The id of the first session finds the second one, which has its slot. -/
theorem deleted_not_gone : ¬ ∀ (h : History ProcRef) (seq : Nat),
    Reach History.step (fun _ _ => True) History.Starts h → (∀ o ∈ h.live, HasSeq.seq o ≠ seq) → Gone h.toLedger seq := by
  intro always
  have dead : ∀ o ∈ firstDeleted.live, HasSeq.seq o ≠ 0 := by
    intro o live
    cases List.mem_singleton.mp live
    decide
  have none := (always firstDeleted 0 reach_firstDeleted dead).1
  have found : getBySeq firstDeleted.table 0 = some ⟨1, 1⟩ := rfl
  rw [found] at none
  cases none

end WebTunnel.Server.Tables
