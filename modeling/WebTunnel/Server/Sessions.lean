import WebTunnel.Library.Slots
import WebTunnel.Library.Run
import WebTunnel.Library.JavaScript

/-! The session table of a `UserMgmr`. `seq2index` maps a session id to the slot of its
object in `index2obj`; the first `cnt` slots are in use and deletion moves the last
object into the vacated slot. -/

namespace WebTunnel.Server.Sessions
open Library.Slots Library.Run Library.JavaScript

def userMgrMax : Nat := 512

/-- Objects that carry the session id they were created for. -/
class HasSeq (α : Type) where
  seq : α → Nat

structure SessionTable (α : Type) where
  seq : Nat
  index2obj : List (Option α)
  seq2index : List (Option Nat)
  cnt : Nat
deriving DecidableEq

/-- A reference to a processor object: which object it is, and the id it was made for. -/
structure ProcRef where
  id : Nat
  seq : Nat
deriving DecidableEq, Repr

instance : HasSeq ProcRef := ⟨ProcRef.seq⟩

variable {α : Type}

/-- The table a `UserMgmr` is constructed with. -/
def fresh : SessionTable α := ⟨0, [], [], 0⟩

def getBySeq (t : SessionTable α) (seq : Nat) : Option α :=
  if t.seq2index.length ≤ seq then none
  else match holeGet t.seq2index seq with
    | none => none
    | some index => holeGet t.index2obj index

/-- The id the next allocation uses: the cursor, wrapped at `userMgrMax`. -/
def cursor (t : SessionTable α) : Nat := if userMgrMax ≤ t.seq then 0 else t.seq

def newSeq (t : SessionTable α) (objCallback : Nat → α) : Option α × SessionTable α :=
  if userMgrMax ≤ t.cnt then (none, t)
  else
    let seq := cursor t
    let t := if t.index2obj.length ≤ seq then
        { t with index2obj := t.index2obj ++ [none], seq2index := t.seq2index ++ [none] }
      else t
    let obj := objCallback seq
    (some obj, { t with
      seq2index := holeSet t.seq2index seq (some t.cnt)
      index2obj := holeSet t.index2obj t.cnt (some obj)
      cnt := t.cnt + 1
      seq := seq + 1 })

/-- With `cnt` at zero the decrement makes it negative, so the moved object is undefined
and reading its `seq` throws. -/
def delSeq [HasSeq α] (t : SessionTable α) (seq : Nat) :
    Except JsError (Option α × SessionTable α) :=
  if t.index2obj.length ≤ seq then .ok (none, t)
  else match holeGet t.seq2index seq with
    | none => .ok (none, t)
    | some index =>
      let obj := holeGet t.index2obj index
      match t.cnt with
      | 0 => .error .typeError
      | cnt + 1 =>
        if index = cnt then
          .ok (obj, { t with cnt := cnt, index2obj := holeSet t.index2obj index none })
        else match holeGet t.index2obj cnt with
          | none => .error .typeError
          | some moved =>
            .ok (obj, { t with
              cnt := cnt
              index2obj := holeSet (holeSet t.index2obj index (some moved)) cnt none
              seq2index := holeSet t.seq2index (HasSeq.seq moved) (some index) })

/-- Both arrays grow together, by one id at a time until the cursor has wrapped once. -/
structure Layout (t : SessionTable α) : Prop where
  parallel : t.index2obj.length = t.seq2index.length
  roomy : t.cnt ≤ t.index2obj.length
  bounded : t.index2obj.length ≤ userMgrMax
  dense : t.seq = t.index2obj.length ∨ t.index2obj.length = userMgrMax ∧ t.seq ≤ userMgrMax

/-! A table is consistent with the sequence `objs` of live objects when slot `k` holds
the `k`-th of them, reached through its own id, and ids are distinct. -/

structure Represents [HasSeq α] (t : SessionTable α) (objs : List α) : Prop extends Layout t where
  count : t.cnt = objs.length
  slots : ∀ i, holeGet t.index2obj i = objs[i]?
  index : ∀ i o, objs[i]? = some o → holeGet t.seq2index (HasSeq.seq o) = some i
  distinct : (objs.map HasSeq.seq).Nodup

theorem cursor_lt {t : SessionTable α} : cursor t < userMgrMax := by
  unfold cursor userMgrMax
  split <;> omega

theorem layout_fresh : Layout (fresh : SessionTable α) where
  parallel := rfl
  roomy := Nat.le_refl _
  bounded := Nat.zero_le _
  dense := .inl rfl

theorem Layout.cursor_cases {t : SessionTable α} (layout : Layout t) :
    cursor t = t.index2obj.length ∧ t.index2obj.length < userMgrMax ∨
      cursor t < t.index2obj.length ∧ t.index2obj.length = userMgrMax := by
  have dense := layout.dense
  have bounded := layout.bounded
  unfold cursor userMgrMax at *
  split <;> omega

section
variable [HasSeq α] {t : SessionTable α} {objs : List α}

theorem represents_fresh : Represents (fresh : SessionTable α) [] where
  toLayout := layout_fresh
  count := rfl
  slots := by simp [fresh, holeGet]
  index := by simp
  distinct := List.nodup_nil

theorem Represents.slot_lt (rep : Represents t objs) {i : Nat} {o : α} (at_ : objs[i]? = some o) :
    i < t.cnt := by
  rw [rep.count]
  exact (List.getElem?_eq_some_iff.mp at_).1

theorem Represents.seq_lt (rep : Represents t objs) {o : α} (live : o ∈ objs) :
    HasSeq.seq o < t.seq2index.length := by
  obtain ⟨i, bound, rfl⟩ := List.mem_iff_getElem.mp live
  exact lt_of_holeGet (rep.index i _ (List.getElem?_eq_getElem bound))

/-- Every live object is found under its own id. -/
theorem Represents.getBySeq (rep : Represents t objs) {o : α} (live : o ∈ objs) :
    getBySeq t (HasSeq.seq o) = some o := by
  obtain ⟨i, bound, rfl⟩ := List.mem_iff_getElem.mp live
  have found := rep.index i _ (List.getElem?_eq_getElem bound)
  have inside := rep.seq_lt live
  rw [Sessions.getBySeq, if_neg (Nat.not_le.mpr inside)]
  simp only [found, rep.slots, List.getElem?_eq_getElem bound]

/-- An object in one of the slots. -/
def Live (t : SessionTable α) (o : α) : Prop := ∃ i, holeGet t.index2obj i = some o

theorem Represents.live_iff (rep : Represents t objs) {o : α} : Live t o ↔ o ∈ objs := by
  rw [List.mem_iff_getElem?]
  exact exists_congr fun i => by rw [rep.slots]

theorem Represents.nodup (rep : Represents t objs) : objs.Nodup := List.Nodup.of_map _ rep.distinct

/-- Objects with the same id are the same live object. -/
theorem Represents.unique (rep : Represents t objs) {o p : α} (left : o ∈ objs) (right : p ∈ objs)
    (same : HasSeq.seq o = HasSeq.seq p) : o = p := by
  have first := rep.getBySeq left
  rw [same, rep.getBySeq right] at first
  exact (Option.some.inj first).symm

end

section
variable {t : SessionTable α}

/-- The number of ids the arrays have room for once the cursor's id is added. -/
def grownLength (t : SessionTable α) : Nat :=
  if t.index2obj.length ≤ cursor t then t.index2obj.length + 1 else t.index2obj.length

theorem getBySeq_eq_some {seq : Nat} {o : α} :
    getBySeq t seq = some o ↔ ∃ i, holeGet t.seq2index seq = some i ∧ holeGet t.index2obj i = some o := by
  unfold getBySeq
  by_cases outside : t.seq2index.length ≤ seq
  · rw [if_pos outside, holeGet_of_length_le outside]
    simp
  · rw [if_neg outside]
    cases holeGet t.seq2index seq with
    | none => simp
    | some i => simp

/-- What an allocation does: the object goes to slot `cnt` and its id points there. -/
theorem newSeq_run (objCallback : Nat → α) (room : t.cnt < userMgrMax)
    (parallel : t.index2obj.length = t.seq2index.length) :
    ∃ t', newSeq t objCallback = (some (objCallback (cursor t)), t') ∧
      t'.cnt = t.cnt + 1 ∧ t'.seq = cursor t + 1 ∧
      (∀ i, holeGet t'.index2obj i =
        if i = t.cnt then some (objCallback (cursor t)) else holeGet t.index2obj i) ∧
      (∀ s, holeGet t'.seq2index s =
        if s = cursor t then some t.cnt else holeGet t.seq2index s) ∧
      t'.index2obj.length = max (grownLength t) (t.cnt + 1) ∧
      t'.seq2index.length = max (grownLength t) (cursor t + 1) := by
  rw [newSeq, grownLength, if_neg (Nat.not_le.mpr room)]
  by_cases grow : t.index2obj.length ≤ cursor t
  · simp only [if_pos grow]
    refine ⟨_, rfl, rfl, rfl, ?_, ?_, ?_, ?_⟩
    · intro i
      rw [holeGet_holeSet, holeGet_push]
    · intro s
      rw [holeGet_holeSet, holeGet_push]
    · simp
    · simp [parallel]
  · simp only [if_neg grow]
    refine ⟨_, rfl, rfl, rfl, ?_, ?_, ?_, ?_⟩
    · intro i
      rw [holeGet_holeSet]
    · intro s
      rw [holeGet_holeSet]
    · simp
    · simp [parallel]

theorem Layout.newSeq (layout : Layout t) (objCallback : Nat → α) (room : t.cnt < userMgrMax) :
    Layout (newSeq t objCallback).2 := by
  obtain ⟨t', result, count, seq, _, _, slotCount, idCount⟩ := newSeq_run objCallback room layout.parallel
  have roomy := layout.roomy
  have lengths : t'.index2obj.length = t'.seq2index.length ∧
      t'.cnt ≤ t'.index2obj.length ∧ t'.index2obj.length ≤ userMgrMax ∧
      (t'.seq = t'.index2obj.length ∨ t'.index2obj.length = userMgrMax ∧ t'.seq ≤ userMgrMax) := by
    rw [slotCount, idCount, count, seq, grownLength]
    rcases layout.cursor_cases with ⟨grows, small⟩ | ⟨inside, full⟩
    · rw [if_pos (Nat.le_of_eq grows.symm)]
      omega
    · rw [if_neg (Nat.not_le.mpr inside)]
      omega
  rw [result]
  exact ⟨lengths.1, lengths.2.1, lengths.2.2.1, lengths.2.2.2⟩

theorem newSeq_fst (objCallback : Nat → α) (room : t.cnt < userMgrMax) :
    newSeq t objCallback = (some (objCallback (cursor t)), (newSeq t objCallback).2) := by
  rw [newSeq, if_neg (Nat.not_le.mpr room)]

theorem newSeq_full (objCallback : Nat → α) (full : userMgrMax ≤ t.cnt) :
    newSeq t objCallback = (none, t) := if_pos full

end

section
variable [HasSeq α] {t : SessionTable α} {objs : List α}

/-- An allocation whose wrapped cursor is no live id appends the new object. -/
theorem Represents.newSeq (rep : Represents t objs) (objCallback : Nat → α)
    (room : t.cnt < userMgrMax) (own : HasSeq.seq (objCallback (cursor t)) = cursor t)
    (unused : ∀ o ∈ objs, HasSeq.seq o ≠ cursor t) :
    ∃ t', newSeq t objCallback = (some (objCallback (cursor t)), t') ∧
      Represents t' (objs ++ [objCallback (cursor t)]) := by
  have layout := rep.toLayout.newSeq objCallback room
  obtain ⟨t', result, count, _, slots, index, _, _⟩ := newSeq_run objCallback room rep.parallel
  rw [result] at layout
  refine ⟨t', result, layout, ?_, ?_, ?_, ?_⟩
  · rw [count, rep.count, List.length_append, List.length_singleton]
  · intro i
    rw [slots, rep.slots, rep.count]
    rcases Nat.lt_trichotomy i objs.length with low | same | high
    · rw [if_neg (Nat.ne_of_lt low), List.getElem?_append_left low]
    · subst same
      rw [if_pos rfl, List.getElem?_concat_length]
    · rw [if_neg (Nat.ne_of_gt high), List.getElem?_eq_none (Nat.le_of_lt high),
        List.getElem?_eq_none (by simp only [List.length_append, List.length_singleton]; omega)]
  · intro i o found
    rcases Nat.lt_or_ge i objs.length with low | high
    · rw [List.getElem?_append_left low] at found
      have other : HasSeq.seq o ≠ cursor t := unused o (List.mem_of_getElem? found)
      rw [index, if_neg other]
      exact rep.index i o found
    · have last : i = objs.length ∧ objCallback (cursor t) = o := by
        rw [List.getElem?_append_right high] at found
        have zero : i - objs.length = 0 := by
          have := (List.getElem?_eq_some_iff.mp found).1
          simpa using this
        rw [zero] at found
        exact ⟨by omega, by simpa using found⟩
      rw [← last.2, own, index, if_pos rfl, rep.count, last.1]
  · rw [List.map_append, List.map_singleton, own, List.nodup_append]
    refine ⟨rep.distinct, List.nodup_singleton _, ?_⟩
    intro s live s' new same
    obtain ⟨o, member, rfl⟩ := List.mem_map.mp live
    exact unused o member (same.trans (List.mem_singleton.mp new))

/-- What a deletion does: the last object moves to the slot the id leads to, used or not,
and its id follows it. -/
theorem delSeq_run {seq i last : Nat} {moved : α} (inside : seq < t.index2obj.length)
    (leads : holeGet t.seq2index seq = some i) (count : t.cnt = last + 1)
    (movedAt : holeGet t.index2obj last = some moved)
    (known : HasSeq.seq moved < t.seq2index.length) :
    ∃ t', delSeq t seq = .ok (holeGet t.index2obj i, t') ∧ t'.cnt = last ∧ t'.seq = t.seq ∧
      (∀ j, holeGet t'.index2obj j =
        if j = last then none else if j = i then some moved else holeGet t.index2obj j) ∧
      (∀ s, holeGet t'.seq2index s =
        if i ≠ last ∧ s = HasSeq.seq moved then some i else holeGet t.seq2index s) ∧
      t'.index2obj.length = max t.index2obj.length (i + 1) ∧
      t'.seq2index.length = t.seq2index.length := by
  have lastSlot := lt_of_holeGet movedAt
  rw [Sessions.delSeq, if_neg (Nat.not_le.mpr inside), leads]
  simp only [count]
  by_cases same : i = last
  · subst same
    refine ⟨_, if_pos rfl, rfl, rfl, ?_, ?_, ?_, rfl⟩
    · intro j
      rw [holeGet_holeSet]
      by_cases here : j = i
      · rw [if_pos here, if_pos here]
      · rw [if_neg here, if_neg here, if_neg here]
    · intro s
      rw [if_neg (fun moves => moves.1 rfl)]
    · rw [holeSet_length]
  · rw [if_neg same]
    simp only [movedAt]
    refine ⟨_, rfl, rfl, rfl, ?_, ?_, ?_, ?_⟩
    · intro j
      rw [holeGet_holeSet, holeGet_holeSet]
    · intro s
      rw [holeGet_holeSet]
      by_cases here : s = HasSeq.seq moved
      · rw [if_pos here, if_pos ⟨same, here⟩]
      · rw [if_neg here, if_neg (fun moves => here moves.2)]
    · rw [holeSet_length, holeSet_length]
      omega
    · rw [holeSet_length]
      omega

/-- The same in terms of the objects in the slots. -/
theorem Represents.newSeq_live (rep : Represents t objs) (objCallback : Nat → α)
    (room : t.cnt < userMgrMax) (own : HasSeq.seq (objCallback (cursor t)) = cursor t)
    (unused : ∀ o, Live t o → HasSeq.seq o ≠ cursor t) :
    (∃ objs', Represents (Sessions.newSeq t objCallback).2 objs') ∧
      ∀ o, Live (Sessions.newSeq t objCallback).2 o ↔ Live t o ∨ o = objCallback (cursor t) := by
  obtain ⟨t', result, next⟩ := rep.newSeq objCallback room own
    (fun o member => unused o (rep.live_iff.mpr member))
  rw [result]
  refine ⟨⟨_, next⟩, fun o => ?_⟩
  rw [next.live_iff, rep.live_iff, List.mem_append, List.mem_singleton]

theorem delSeq_of_unset {seq : Nat} (unset : holeGet t.seq2index seq = none) :
    delSeq t seq = .ok (none, t) := by
  rw [delSeq]
  simp only [unset, ite_self]

theorem map_swapRemove (objs : List α) (i : Nat) :
    (swapRemove objs i).map HasSeq.seq = swapRemove (objs.map HasSeq.seq) i := by
  apply List.ext_getElem?
  intro j
  simp only [List.getElem?_map, getElem?_swapRemove, List.length_map, List.getLast?_map]
  split
  · split <;> rfl
  · rfl

/-- Deleting by an id that leads to a live object, its own or one it had before, removes
that object and moves the last one into its slot. -/
theorem Represents.delSeq_of_leads (rep : Represents t objs) {seq i : Nat} {o : α}
    (leads : holeGet t.seq2index seq = some i) (found : objs[i]? = some o) :
    ∃ t', delSeq t seq = .ok (some o, t') ∧ Represents t' (swapRemove objs i) ∧ t'.seq = t.seq ∧
      t'.cnt + 1 = t.cnt ∧ ∀ s, (∀ p ∈ objs, HasSeq.seq p ≠ s) ∨ s = HasSeq.seq o →
        holeGet t'.seq2index s = holeGet t.seq2index s := by
  have slot := rep.slot_lt found
  obtain ⟨last, count⟩ : ∃ last, t.cnt = last + 1 := ⟨t.cnt - 1, by omega⟩
  have size : objs.length = last + 1 := rep.count.symm.trans count
  obtain ⟨moved, movedAt⟩ : ∃ moved, objs[last]? = some moved :=
    ⟨objs[last], List.getElem?_eq_getElem (by omega)⟩
  have inside : seq < t.index2obj.length := by
    rw [rep.parallel]
    exact lt_of_holeGet leads
  obtain ⟨t', result, count', seq', slots, index, slotCount, idCount⟩ :=
    delSeq_run inside leads count ((rep.slots last).trans movedAt)
      (rep.seq_lt (List.mem_of_getElem? movedAt))
  have kept : t'.index2obj.length = t.index2obj.length := by
    have roomy := rep.roomy
    rw [slotCount]
    omega
  rw [rep.slots, found] at result
  have apart : ∀ {j : Nat} {p : α}, objs[j]? = some p → j ≠ last → HasSeq.seq p ≠ HasSeq.seq moved := by
    intro j p foundP other same
    have first := rep.index j p foundP
    rw [same, rep.index last moved movedAt] at first
    exact other (Option.some.inj first).symm
  have layout : Layout t' := by
    refine ⟨by rw [kept, idCount, rep.parallel], ?_, by rw [kept]; exact rep.bounded,
      by rw [kept, seq']; exact rep.dense⟩
    have roomy := rep.roomy
    omega
  refine ⟨t', result, ⟨layout, ?_, ?_, ?_, ?_⟩, seq', by omega, ?_⟩
  · rw [swapRemove_length, count', size, Nat.add_sub_cancel]
  · intro j
    rw [slots, getElem?_swapRemove_of_last size movedAt j, rep.slots]
    by_cases vacated : j = i
    · rw [if_pos vacated, if_pos vacated]
      by_cases isLast : j = last
      · rw [if_pos isLast, if_pos isLast]
      · rw [if_neg isLast, if_neg isLast, if_pos (by omega)]
    · rw [if_neg vacated, if_neg vacated]
  · intro j p kept
    rw [getElem?_swapRemove_of_last size movedAt j] at kept
    by_cases isLast : j = last
    · rw [if_pos isLast] at kept
      cases kept
    · rw [if_neg isLast] at kept
      by_cases vacated : j = i
      · rw [if_pos vacated, if_pos (by omega)] at kept
        cases kept
        rw [index, if_pos ⟨by omega, rfl⟩, vacated]
      · rw [if_neg vacated] at kept
        rw [index, if_neg (fun moves => apart kept isLast moves.2)]
        exact rep.index j p kept
  · rw [map_swapRemove]
    exact nodup_swapRemove rep.distinct (by rw [List.length_map]; omega)
  · intro s unmoved
    rw [index, if_neg]
    rintro ⟨other, rfl⟩
    rcases unmoved with absent | same
    · exact absent moved (List.mem_of_getElem? movedAt) rfl
    · exact apart found other same.symm

/-- The same in terms of the objects in the slots. -/
theorem Represents.delSeq_live [DecidableEq α] (rep : Represents t objs) {seq : Nat} {o : α}
    (found : Sessions.getBySeq t seq = some o) :
    ∃ t', delSeq t seq = .ok (some o, t') ∧ (∃ objs', Represents t' objs') ∧
      ∀ p, Live t' p ↔ Live t p ∧ p ≠ o := by
  obtain ⟨i, leads, at_⟩ := getBySeq_eq_some.mp found
  rw [rep.slots] at at_
  obtain ⟨t', result, next, _⟩ := rep.delSeq_of_leads leads at_
  refine ⟨t', result, ⟨_, next⟩, fun p => ?_⟩
  rw [next.live_iff, mem_swapRemove rep.nodup at_, rep.live_iff]

/-- Deleting a live id returns its own object and moves the last object into its slot. -/
theorem Represents.delSeq (rep : Represents t objs) {i : Nat} {o : α} (found : objs[i]? = some o) :
    ∃ t', delSeq t (HasSeq.seq o) = .ok (some o, t') ∧
      Represents t' (swapRemove objs i) ∧ t'.seq = t.seq := by
  obtain ⟨t', result, next, seq, _⟩ := rep.delSeq_of_leads (rep.index i o found) found
  exact ⟨t', result, next, seq⟩

end

/-! What every run keeps, also one that gives out a live id again or deletes through a
stale one: the first `cnt` slots are filled, and no id or slot lies past the arrays. -/

structure Shaped [HasSeq α] (t : SessionTable α) : Prop extends Layout t where
  filled : ∀ i, i < t.cnt → ∃ o, holeGet t.index2obj i = some o
  ids : ∀ o, Live t o → HasSeq.seq o < t.seq2index.length
  inside : ∀ x i, holeGet t.seq2index x = some i → i < t.index2obj.length

section
variable [HasSeq α] {t t' : SessionTable α}

theorem shaped_fresh : Shaped (fresh : SessionTable α) where
  toLayout := layout_fresh
  filled i low := absurd low (Nat.not_lt_zero i)
  ids := by
    rintro o ⟨i, found⟩
    simp [fresh, holeGet] at found
  inside x i found := by simp [fresh, holeGet] at found

theorem Shaped.newSeq (shaped : Shaped t) (objCallback : Nat → α) (room : t.cnt < userMgrMax)
    (own : HasSeq.seq (objCallback (cursor t)) = cursor t) :
    Shaped (newSeq t objCallback).2 ∧
      ∀ o, Live (Sessions.newSeq t objCallback).2 o → Live t o ∨ o = objCallback (cursor t) := by
  have layout := shaped.toLayout.newSeq objCallback room
  obtain ⟨t', result, count, _, slots, index, slotCount, idCount⟩ :=
    newSeq_run objCallback room shaped.parallel
  rw [result] at layout ⊢
  dsimp only at layout ⊢
  have grown : t.index2obj.length ≤ grownLength t := by
    unfold grownLength
    split <;> omega
  have live : ∀ o, Live t' o → Live t o ∨ o = objCallback (cursor t) := by
    rintro o ⟨i, found⟩
    rw [slots] at found
    split at found
    · cases found
      exact .inr rfl
    · exact .inl ⟨i, found⟩
  refine ⟨⟨layout, fun i low => ?_, fun o new => ?_, fun x i found => ?_⟩, live⟩
  · rw [slots]
    split
    · exact ⟨_, rfl⟩
    · exact shaped.filled i (by omega)
  · rw [idCount]
    rcases live o new with old | rfl
    · have inside := shaped.ids o old
      rw [← shaped.parallel] at inside
      omega
    · rw [own]
      omega
  · rw [slotCount]
    rw [index] at found
    split at found
    · cases found
      omega
    · have inside := shaped.inside x i found
      omega

/-- A deletion that does not throw keeps the shape and adds no object. -/
theorem Shaped.delSeq (shaped : Shaped t) {x : Nat} {obj : Option α}
    (deleted : delSeq t x = .ok (obj, t')) : Shaped t' ∧ ∀ o, Live t' o → Live t o := by
  by_cases outside : t.index2obj.length ≤ x
  · rw [Sessions.delSeq, if_pos outside] at deleted
    cases deleted
    exact ⟨shaped, fun _ live => live⟩
  cases leads : holeGet t.seq2index x with
  | none =>
    rw [delSeq_of_unset leads] at deleted
    cases deleted
    exact ⟨shaped, fun _ live => live⟩
  | some i =>
    cases count : t.cnt with
    | zero =>
      rw [Sessions.delSeq, if_neg outside, leads] at deleted
      simp [count] at deleted
    | succ last =>
      obtain ⟨moved, movedAt⟩ := shaped.filled last (by omega)
      obtain ⟨t'', result, count', seq', slots, index, slotCount, idCount⟩ :=
        delSeq_run (Nat.lt_of_not_le outside) leads count movedAt (shaped.ids moved ⟨last, movedAt⟩)
      cases result.symm.trans deleted
      have inside := shaped.inside x i leads
      have sameSlots : t'.index2obj.length = t.index2obj.length := by rw [slotCount]; omega
      have roomy := shaped.roomy
      have live : ∀ o, Live t' o → Live t o := by
        rintro o ⟨j, found⟩
        rw [slots] at found
        split at found
        · cases found
        · split at found
          · cases found
            exact ⟨last, movedAt⟩
          · exact ⟨j, found⟩
      refine ⟨⟨⟨?_, ?_, ?_, ?_⟩, fun j low => ?_, fun o kept => ?_, fun y j found => ?_⟩, live⟩
      · rw [sameSlots, idCount, shaped.parallel]
      · omega
      · rw [sameSlots]
        exact shaped.bounded
      · rw [sameSlots, seq']
        exact shaped.dense
      · rw [slots, if_neg (by omega)]
        split
        · exact ⟨_, rfl⟩
        · exact shaped.filled j (by omega)
      · rw [idCount]
        exact shaped.ids o (live o kept)
      · rw [sameSlots]
        rw [index] at found
        split at found
        · cases found
          exact inside
        · exact shaped.inside y j found

/-- Deleting an id that leads somewhere throws exactly when the count is zero already. -/
theorem Shaped.delSeq_ok_iff (shaped : Shaped t) {x i : Nat} (leads : holeGet t.seq2index x = some i) :
    (∃ result, Sessions.delSeq t x = .ok result) ↔ t.cnt ≠ 0 := by
  have inside : x < t.index2obj.length := by
    rw [shaped.parallel]
    exact lt_of_holeGet leads
  cases count : t.cnt with
  | zero => simp [Sessions.delSeq, if_neg (Nat.not_le.mpr inside), leads, count]
  | succ last =>
    obtain ⟨moved, movedAt⟩ := shaped.filled last (by omega)
    obtain ⟨t', result, _⟩ := delSeq_run inside leads count movedAt (shaped.ids moved ⟨last, movedAt⟩)
    exact iff_of_true ⟨_, result⟩ (by omega)

end

/-! Runs of allocations and deletions, with a ledger of the objects that were allocated
and not deleted since. -/

/-- The callers' constructors store the id they are given. -/
structure ObjCallback (α : Type) [HasSeq α] where
  make : Nat → α
  own : ∀ seq, HasSeq.seq (make seq) = seq

inductive TableOp (α : Type) [HasSeq α] where
  | newSeq (objCallback : ObjCallback α)
  | delSeq (seq : Nat)

structure Ledger (α : Type) where
  table : SessionTable α
  live : List α

section
variable [HasSeq α]

def Ledger.step (l : Ledger α) : TableOp α → Option (Ledger α)
  | .newSeq objCallback =>
    match newSeq l.table objCallback.make with
    | (some obj, table) => some ⟨table, l.live ++ [obj]⟩
    | (none, table) => some ⟨table, l.live⟩
  | .delSeq seq =>
    match delSeq l.table seq with
    | .ok (_, table) => some ⟨table, l.live.filter (fun o => HasSeq.seq o ≠ seq)⟩
    | .error _ => none

def Ledger.Starts (l : Ledger α) : Prop := l = ⟨fresh, []⟩

/-- No live object has the id the next allocation takes. -/
def Ledger.CursorFree (l : Ledger α) : Prop :=
  l.table.cnt < userMgrMax → ∀ o ∈ l.live, HasSeq.seq o ≠ cursor l.table

/-- Allocations find their cursor free; deletions name a live id or one never given out. -/
def Ledger.Good (l : Ledger α) : TableOp α → Prop
  | .newSeq _ => l.CursorFree
  | .delSeq seq => (∃ o ∈ l.live, HasSeq.seq o = seq) ∨ holeGet l.table.seq2index seq = none

/-- A non-null allocation has an id of its own and leaves the live objects reachable. -/
def Ledger.AllocatesApart (l : Ledger α) (objCallback : ObjCallback α) : Prop :=
  ∀ obj table, newSeq l.table objCallback.make = (some obj, table) →
    (∀ o ∈ l.live, HasSeq.seq o ≠ HasSeq.seq obj) ∧
    (∀ o ∈ l.live, getBySeq table (HasSeq.seq o) = some o)

def Ledger.Consistent (l : Ledger α) : Prop :=
  ∃ objs, Represents l.table objs ∧ objs.Perm l.live

theorem filter_eq_eraseIdx {objs : List α} (distinct : (objs.map HasSeq.seq).Nodup) {i : Nat} {o : α}
    (found : objs[i]? = some o) :
    objs.filter (fun p => HasSeq.seq p ≠ HasSeq.seq o) = objs.eraseIdx i := by
  induction objs generalizing i with
  | nil => simp at found
  | cons head tail ih =>
    rw [List.map_cons, List.nodup_cons] at distinct
    cases i with
    | zero =>
      simp only [List.getElem?_cons_zero, Option.some.injEq] at found
      subst found
      rw [List.eraseIdx_cons_zero, List.filter_cons_of_neg (by simp), List.filter_eq_self]
      intro p member
      rw [decide_eq_true_eq]
      intro same
      exact distinct.1 (same ▸ List.mem_map_of_mem member)
    | succ i =>
      rw [List.getElem?_cons_succ] at found
      have other : HasSeq.seq head ≠ HasSeq.seq o := fun same =>
        distinct.1 (same ▸ List.mem_map_of_mem (List.mem_of_getElem? found))
      rw [List.eraseIdx_cons_succ, List.filter_cons_of_pos (by simpa using other),
        ih distinct.2 found]

theorem Ledger.consistent_start {l : Ledger α} (start : l.Starts) : l.Consistent := by
  subst start
  exact ⟨[], represents_fresh, List.Perm.nil⟩

theorem Ledger.consistent_step {l l' : Ledger α} {op : TableOp α} (consistent : l.Consistent)
    (good : l.Good op) (moved : l.step op = some l') : l'.Consistent := by
  obtain ⟨objs, rep, perm⟩ := consistent
  cases op with
  | newSeq objCallback =>
    rcases Nat.lt_or_ge l.table.cnt userMgrMax with room | full
    · obtain ⟨table, result, next⟩ := rep.newSeq objCallback.make room (objCallback.own _)
        (fun o member => good room o (perm.mem_iff.mp member))
      simp only [step, result, Option.some.injEq] at moved
      subst moved
      exact ⟨_, next, perm.append_right _⟩
    · simp only [step, newSeq_full _ full, Option.some.injEq] at moved
      subst moved
      exact ⟨objs, rep, perm⟩
  | delSeq seq =>
    rcases good with ⟨o, live, rfl⟩ | unknown
    · obtain ⟨i, bound, value⟩ := List.mem_iff_getElem.mp (perm.mem_iff.mpr live)
      have found : objs[i]? = some o := by rw [List.getElem?_eq_getElem bound, value]
      obtain ⟨table, result, next, _⟩ := rep.delSeq found
      simp only [step, result, Option.some.injEq] at moved
      subst moved
      refine ⟨_, next, (swapRemove_perm objs bound).trans ?_⟩
      rw [← filter_eq_eraseIdx rep.distinct found]
      exact perm.filter _
    · have absent : ∀ o ∈ l.live, HasSeq.seq o ≠ seq := by
        intro o live same
        obtain ⟨i, bound, value⟩ := List.mem_iff_getElem.mp (perm.mem_iff.mpr live)
        have known := rep.index i o (by rw [List.getElem?_eq_getElem bound, value])
        rw [same, unknown] at known
        cases known
      have kept : l.live.filter (fun o => HasSeq.seq o ≠ seq) = l.live := by
        rw [List.filter_eq_self]
        intro o live
        exact decide_eq_true (absent o live)
      simp only [step, delSeq_of_unset unknown, kept, Option.some.injEq] at moved
      subst moved
      exact ⟨objs, rep, perm⟩

theorem Ledger.consistent_of_reach {l : Ledger α}
    (reached : Reach Ledger.step Ledger.Good Ledger.Starts l) : l.Consistent :=
  reached.invariant (fun _ => Ledger.consistent_start) (fun _ _ _ => Ledger.consistent_step)

theorem Ledger.Consistent.allocatesApart {l : Ledger α} (consistent : l.Consistent)
    (objCallback : ObjCallback α) (free : l.CursorFree) : l.AllocatesApart objCallback := by
  obtain ⟨objs, rep, perm⟩ := consistent
  intro obj table result
  rcases Nat.lt_or_ge l.table.cnt userMgrMax with room | full
  · obtain ⟨table', result', next⟩ := rep.newSeq objCallback.make room (objCallback.own _)
      (fun o member => free room o (perm.mem_iff.mp member))
    rw [result] at result'
    obtain ⟨sameObj, sameTable⟩ := Prod.mk.inj result'
    cases sameTable
    rw [Option.some.inj sameObj, objCallback.own]
    exact ⟨free room, fun o live =>
      next.getBySeq (List.mem_append_left _ (perm.mem_iff.mpr live))⟩
  · rw [newSeq_full _ full] at result
    cases result

/-- In every run whose allocations find their cursor free and whose deletions name live
ids, live ids are distinct and lead to their own objects, and the next allocation keeps
it so exactly when its cursor is free. -/
theorem newSeq_apart_iff {l : Ledger α} (reached : Reach Ledger.step Ledger.Good Ledger.Starts l) :
    (l.live.map HasSeq.seq).Nodup ∧
    (∀ o ∈ l.live, getBySeq l.table (HasSeq.seq o) = some o) ∧
    ∀ objCallback, l.AllocatesApart objCallback ↔ l.CursorFree := by
  obtain ⟨objs, rep, perm⟩ := Ledger.consistent_of_reach reached
  refine ⟨(perm.map _).nodup_iff.mp rep.distinct,
    fun o live => rep.getBySeq (perm.mem_iff.mpr live), fun objCallback => ⟨?_, ?_⟩⟩
  · intro apart room
    obtain ⟨table, result, _⟩ := newSeq_run objCallback.make room rep.parallel
    have ids := (apart _ _ result).1
    rw [objCallback.own] at ids
    exact ids
  · exact Ledger.Consistent.allocatesApart ⟨objs, rep, perm⟩ objCallback

end

def mkRef (id : Nat) : ObjCallback ProcRef := ⟨fun seq => ⟨id, seq⟩, fun _ => rfl⟩

theorem newSeq_apart_third : Ledger.AllocatesApart
    (⟨⟨2, [some ⟨0, 0⟩, some ⟨1, 1⟩], [some 0, some 1], 2⟩, [⟨0, 0⟩, ⟨1, 1⟩]⟩ : Ledger ProcRef)
    (mkRef 2) :=
  ((newSeq_apart_iff (.next (a := .newSeq (mkRef 1)) (.next (a := .newSeq (mkRef 0)) (.start rfl)
    (by intro _ o live; cases live) rfl) (by intro _ o live; simp_all [HasSeq.seq]; decide) rfl)).2.2 _).mpr
    (by intro _ o live; simp at live; rcases live with rfl | rfl <;> decide)

/-! The cursor wraps independently of which ids are free: one session that stays open
while `userMgrMax - 1` others come and go receives a twin. -/

def comeAndGo (id : Nat) : List (TableOp ProcRef) := [.newSeq (mkRef id), .delSeq id]

/-- Session 0 is opened and `n` further sessions come and go. -/
def longLived (n : Nat) : List (TableOp ProcRef) :=
  .newSeq (mkRef 0) :: (List.range n).flatMap (fun k => comeAndGo (k + 1))

/-- The ledger after the long-lived session 0 and `k` short-lived ones. -/
def afterShort (k : Nat) : Ledger ProcRef where
  table :=
    { seq := k + 1
      index2obj := some ⟨0, 0⟩ :: List.replicate k none
      seq2index := some 0 :: List.replicate k (some 1)
      cnt := 1 }
  live := [⟨0, 0⟩]

theorem run_comeAndGo (k : Nat) (low : k < 511) :
    run Ledger.step (afterShort k) (comeAndGo (k + 1)) = some (afterShort (k + 1)) := by
  have opened : (afterShort k).step (.newSeq (mkRef (k + 1))) = some
      ⟨⟨k + 2, some ⟨0, 0⟩ :: some ⟨k + 1, k + 1⟩ :: List.replicate k none,
        some 0 :: List.replicate (k + 1) (some 1), 2⟩, [⟨0, 0⟩, ⟨k + 1, k + 1⟩]⟩ := by
    have at_ : cursor (afterShort k).table = k + 1 := if_neg (by simp [afterShort, userMgrMax]; omega)
    have holes : some (⟨0, 0⟩ : ProcRef) :: List.replicate k none ++ [none] =
        some ⟨0, 0⟩ :: List.replicate (k + 1) none := by
      rw [List.cons_append, List.replicate_succ']
    have ids : holeSet (some 0 :: List.replicate k (some 1) ++ [none]) (k + 1) (some 1) =
        some 0 :: List.replicate (k + 1) (some 1) := by
      rw [holeSet_of_lt (by simp), List.set_append_right _ _ (by simp), List.replicate_succ']
      simp
    have slots : holeSet (some (⟨0, 0⟩ : ProcRef) :: List.replicate k none ++ [none]) 1
        (some ⟨k + 1, k + 1⟩) = some ⟨0, 0⟩ :: some ⟨k + 1, k + 1⟩ :: List.replicate k none := by
      rw [holes, holeSet_of_lt (by simp), List.replicate_succ]
      rfl
    simp only [Ledger.step, newSeq, at_]
    have tight : (afterShort k).table.index2obj.length ≤ k + 1 := by simp [afterShort]
    have room : ¬ userMgrMax ≤ (afterShort k).table.cnt := Nat.not_le.mpr (by decide : 1 < 512)
    rw [if_pos tight, if_neg room]
    simp only [afterShort, mkRef, ids, slots]
    rfl
  have closed : Ledger.step
      (⟨⟨k + 2, some ⟨0, 0⟩ :: some ⟨k + 1, k + 1⟩ :: List.replicate k none,
        some 0 :: List.replicate (k + 1) (some 1), 2⟩, [⟨0, 0⟩, ⟨k + 1, k + 1⟩]⟩ : Ledger ProcRef)
      (.delSeq (k + 1)) = some (afterShort (k + 1)) := by
    have index : holeGet (some 0 :: List.replicate (k + 1) (some 1)) (k + 1) = some 1 := by
      rw [holeGet, List.getElem?_cons_succ, List.getElem?_replicate, if_pos (Nat.lt_succ_self k)]
      rfl
    have live : [(⟨0, 0⟩ : ProcRef), ⟨k + 1, k + 1⟩].filter (fun o => HasSeq.seq o ≠ k + 1) =
        [⟨0, 0⟩] := by
      simp [HasSeq.seq]
    have inside : ¬ (some ⟨0, 0⟩ :: some (⟨k + 1, k + 1⟩ : ProcRef) :: List.replicate k none).length
        ≤ k + 1 := by simp
    simp only [Ledger.step, delSeq, index, live, if_neg inside]
    simp [afterShort, holeSet, List.replicate_succ]
  rw [comeAndGo, run_cons, opened, Option.bind_some, run_cons, closed]
  rfl

theorem run_longLived (n : Nat) (bound : n ≤ 511) :
    run Ledger.step ⟨fresh, []⟩ (longLived n) = some (afterShort n) := by
  have opened : Ledger.step ⟨fresh, []⟩ (.newSeq (mkRef 0)) = some (afterShort 0) := rfl
  rw [longLived, run_cons, opened, Option.bind_some]
  induction n with
  | zero => rfl
  | succ n ih =>
    rw [List.range_succ, List.flatMap_append, run_append, ih (by omega), Option.bind_some,
      List.flatMap_singleton]
    exact run_comeAndGo n (by omega)

theorem afterShort_parallel (n : Nat) :
    (afterShort n).table.index2obj.length = (afterShort n).table.seq2index.length := by
  simp [afterShort]

theorem newSeq_twin : ¬ ∀ (steps : List (TableOp ProcRef)) (l : Ledger ProcRef),
    run Ledger.step ⟨fresh, []⟩ steps = some l → ∀ objCallback, l.AllocatesApart objCallback := by
  intro always
  have wraps : cursor (afterShort 511).table = 0 := if_pos (Nat.le_refl 512)
  obtain ⟨table, result, _⟩ := newSeq_run (t := (afterShort 511).table) (mkRef 512).make
    (by decide : 1 < 512) (afterShort_parallel 511)
  have apart := always (longLived 511) _ (run_longLived 511 (Nat.le_refl _)) (mkRef 512) _ table result
  rw [wraps] at apart
  exact apart.1 ⟨0, 0⟩ (List.mem_singleton_self _) rfl

end WebTunnel.Server.Sessions
