import WebTunnel.Server.Events

namespace WebTunnel.Server.Closing
open Library.Bytes Library.JavaScript Library.Json Library.Program Library.Run Library.Slots Sessions
open Wire Server.Types Framing Events

/-! What closing does to the table: `closeForward` deletes the id of the frame under way. -/

/-- The table after `mgr.delSeq(mgr.curr_seq)`, where deleting a null id does nothing. -/
def deleteCurrent (t : SessionTable ProcRef) (currSeq : Option Nat) :
    Except JsError (SessionTable ProcRef) :=
  match currSeq with
  | none => .ok t
  | some seq => (delSeq t seq).map Prod.snd

/-- Session `seq` is gone and every other one is still found. -/
structure Frees (t t' : SessionTable ProcRef) (seq : Nat) : Prop where
  gone : getBySeq t' seq = none
  count : t'.cnt + 1 = t.cnt
  others : ∀ o, Live t o → o.seq ≠ seq → getBySeq t' o.seq = some o

/-- The id of the frame under way leads to the closing session, which has the last slot. -/
def CurrentIsLast (t : SessionTable ProcRef) (currSeq : Option Nat) (seq : Nat) : Prop :=
  ∃ o, currSeq.bind (getBySeq t) = some o ∧ o.seq = seq ∧ holeGet t.index2obj (t.cnt - 1) = some o

section
variable {t t' : SessionTable ProcRef} {objs : List ProcRef}

/-- Deleting by an id that leads to a used slot frees the object there. -/
theorem frees_of_leads (rep : Represents t objs) {x i seq : Nat} {o : ProcRef}
    (leads : holeGet t.seq2index x = some i) (found : objs[i]? = some o) (deleted : deleteCurrent t (some x) = .ok t') :
    Frees t t' seq ↔ CurrentIsLast t (some x) seq := by
  obtain ⟨table, result, next, _, count, kept⟩ := rep.delSeq_of_leads leads found
  rw [deleteCurrent, result] at deleted
  cases deleted
  have current : getBySeq t x = some o :=
    getBySeq_eq_some.mpr ⟨i, leads, (rep.slots i).trans found⟩
  have size := rep.count
  have slot := rep.slot_lt found
  constructor
  · intro frees
    have same : o.seq = seq := by
      by_contra other
      have still := frees.others o (rep.live_iff.mpr (List.mem_of_getElem? found)) other
      obtain ⟨k, _, at_⟩ := getBySeq_eq_some.mp still
      have member : o ∈ swapRemove objs i := next.live_iff.mp ⟨k, at_⟩
      exact ((mem_swapRemove (rep.nodup) found).mp member).2 rfl
    refine ⟨o, current, same, ?_⟩
    have index : holeGet table.seq2index seq = some i := by
      rw [kept seq (.inr same.symm), ← same]
      exact rep.index i o found
    have empty : (swapRemove objs i)[i]? = none := by
      rw [← next.slots]
      cases at_ : holeGet table.index2obj i with
      | none => rfl
      | some z => exact absurd (getBySeq_eq_some.mpr ⟨i, index, at_⟩) (by rw [frees.gone]; simp)
    have last := List.getElem?_eq_none_iff.mp empty
    rw [swapRemove_length] at last
    rw [rep.slots, show t.cnt - 1 = i by omega]
    exact found
  · rintro ⟨o', current', same, lastSlot⟩
    cases current.symm.trans current'
    have isLast : i = t.cnt - 1 := by
      rw [rep.slots] at lastSlot
      obtain ⟨_, value⟩ := List.getElem?_eq_some_iff.mp lastSlot
      obtain ⟨_, value'⟩ := List.getElem?_eq_some_iff.mp found
      exact (rep.nodup).getElem_inj_iff.mp (value'.trans value.symm)
    refine ⟨?_, count, fun p live other => ?_⟩
    · cases remains : getBySeq table seq with
      | none => rfl
      | some z =>
        obtain ⟨k, index, at_⟩ := getBySeq_eq_some.mp remains
        rw [kept seq (.inr same.symm), ← same] at index
        have here : i = k := Option.some.inj ((rep.index i o found).symm.trans index)
        rw [next.slots, ← here] at at_
        have bound := (List.getElem?_eq_some_iff.mp at_).1
        rw [swapRemove_length] at bound
        omega
    · have apart : p ≠ o := fun equal => other (equal ▸ same)
      exact next.getBySeq ((mem_swapRemove (rep.nodup) found).mpr ⟨rep.live_iff.mp live, apart⟩)

/-- Deleting by an id that leads past the used slots leaves every session in place. -/
theorem not_frees_of_stale (rep : Represents t objs) {x i seq : Nat} {q : ProcRef}
    (leads : holeGet t.seq2index x = some i) (stale : objs[i]? = none) (live : q ∈ objs)
    (own : q.seq = seq) (deleted : deleteCurrent t (some x) = .ok t') : ¬ Frees t t' seq := by
  obtain ⟨k, bound, rfl⟩ := List.mem_iff_getElem.mp live
  have size := rep.count
  have past := List.getElem?_eq_none_iff.mp stale
  obtain ⟨last, count⟩ : ∃ last, t.cnt = last + 1 := ⟨t.cnt - 1, by omega⟩
  have movedAt : objs[last]? = some objs[last] := List.getElem?_eq_getElem (by omega)
  obtain ⟨table, result, _, _, slots, index, _⟩ :=
    delSeq_run (by rw [rep.parallel]; exact lt_of_holeGet leads) leads count
      ((rep.slots last).trans movedAt) (rep.seq_lt (List.getElem_mem (by omega)))
  rw [deleteCurrent, result] at deleted
  cases deleted
  intro frees
  have found := rep.index k _ (List.getElem?_eq_getElem bound)
  have still : ∃ o, getBySeq table seq = some o := by
    by_cases moves : seq = objs[last].seq
    · refine ⟨objs[last], getBySeq_eq_some.mpr ⟨i, ?_, ?_⟩⟩
      · rw [index, if_pos ⟨by omega, moves⟩]
      · rw [slots, if_neg (by omega), if_pos rfl]
    · have other : k ≠ last := by
        intro equal
        subst equal
        exact moves own.symm
      refine ⟨objs[k], getBySeq_eq_some.mpr ⟨k, ?_, ?_⟩⟩
      · rw [index, if_neg (fun both => moves both.2), ← own]
        exact found
      · rw [slots, if_neg other, if_neg (by omega), rep.slots]
        exact List.getElem?_eq_getElem bound
  obtain ⟨o, still⟩ := still
  rw [frees.gone] at still
  cases still

/-- Closing frees exactly the closing session when the frame under way is of that session
and the session has the last slot. -/
theorem frees_iff (rep : Represents t objs) {currSeq : Option Nat} {seq : Nat} {q : ProcRef}
    (live : q ∈ objs) (own : q.seq = seq) (deleted : deleteCurrent t currSeq = .ok t') :
    Frees t t' seq ↔ CurrentIsLast t currSeq seq := by
  have unchanged : ∀ x : Option Nat, t' = t → x.bind (getBySeq t) = none →
      (Frees t t' seq ↔ CurrentIsLast t x seq) := by
    intro x same none
    refine iff_of_false (fun frees => ?_) ?_
    · have := frees.count
      rw [same] at this
      omega
    · rintro ⟨o, current, _⟩
      rw [none] at current
      cases current
  cases currSeq with
  | none =>
    cases deleted
    exact unchanged none rfl rfl
  | some x =>
    cases leads : holeGet t.seq2index x with
    | none =>
      rw [deleteCurrent, delSeq_of_unset leads] at deleted
      cases deleted
      refine unchanged (some x) rfl ?_
      cases current : getBySeq t x with
      | none => exact current
      | some o =>
        obtain ⟨i, index, _⟩ := getBySeq_eq_some.mp current
        rw [leads] at index
        cases index
    | some i =>
      cases found : objs[i]? with
      | some o => exact frees_of_leads rep leads found deleted
      | none =>
        refine iff_of_false (not_frees_of_stale rep leads found live own deleted) ?_
        rintro ⟨o, current, _⟩
        obtain ⟨j, index, at_⟩ := getBySeq_eq_some.mp current
        cases leads.symm.trans index
        rw [rep.slots, found] at at_
        cases at_

end

end WebTunnel.Server.Closing
