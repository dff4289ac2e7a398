import Mathlib.Data.List.Perm.Basic
import Mathlib.Data.List.Nodup
import Mathlib.Data.Set.Function
import Mathlib.Order.Interval.Finset.Nat

/-! Dense tables whose entries are removed by moving the last entry into the vacated
slot, the same with an index that finds the entry of a key, and lazily grown arrays with holes. -/

namespace WebTunnel.Library.Slots
open Function

variable {α β : Type}

/-- Remove slot `i`: the last entry takes its place. -/
def swapRemove (l : List α) (i : Nat) : List α :=
  match l.getLast? with
  | none => []
  | some last => (l.set i last).dropLast

@[simp] theorem swapRemove_length (l : List α) (i : Nat) :
    (swapRemove l i).length = l.length - 1 := by
  unfold swapRemove
  cases last : l.getLast? with
  | none => simp [List.getLast?_eq_none_iff.mp last]
  | some z => simp

theorem swapRemove_append (l : List α) (z : α) (i : Nat) :
    swapRemove (l ++ [z]) i = l.set i z := by
  have removed : swapRemove (l ++ [z]) i = ((l ++ [z]).set i z).dropLast := by
    rw [swapRemove, List.getLast?_concat]
  rw [removed]
  rcases Nat.lt_or_ge i l.length with low | high
  · simp only [List.set_append_left _ _ low, List.dropLast_concat]
  · rw [List.set_append_right _ _ high, List.set_eq_of_length_le high]
    rcases Nat.eq_or_lt_of_le high with same | far
    · simp [← same]
    · rw [List.set_eq_of_length_le (by simp only [List.length_singleton]; omega), List.dropLast_concat]

theorem getElem?_swapRemove (l : List α) (i j : Nat) :
    (swapRemove l i)[j]? =
      if j < l.length - 1 then (if j = i then l.getLast? else l[j]?) else none := by
  rcases List.eq_nil_or_concat' l with empty | ⟨init, z, rfl⟩
  · simp [empty, swapRemove]
  · rw [swapRemove_append, List.getElem?_set, List.getLast?_concat, List.length_append]
    rcases Nat.lt_or_ge j init.length with low | high
    · have bound : j < init.length + [z].length - 1 := by simpa using low
      rw [if_pos bound, List.getElem?_append_left low]
      by_cases same : i = j
      · rw [if_pos same, if_pos (same ▸ low), if_pos same.symm]
      · rw [if_neg same, if_neg (Ne.symm same)]
    · have bound : ¬ j < init.length + [z].length - 1 := by simpa using high
      rw [if_neg bound]
      by_cases same : i = j
      · rw [if_pos same, if_neg (by omega)]
      · rw [if_neg same, List.getElem?_eq_none high]

/-- The same in terms of the index of the last entry. -/
theorem getElem?_swapRemove_of_last {l : List α} {i last : Nat} {z : α} (size : l.length = last + 1)
    (lastAt : l[last]? = some z) (j : Nat) :
    (swapRemove l i)[j]? =
      if j = last then none else if j = i then (if j < last then some z else none) else l[j]? := by
  have lastEntry : l.getLast? = some z := by
    rw [List.getLast?_eq_getElem?, size, Nat.add_sub_cancel, lastAt]
  rw [getElem?_swapRemove, size, Nat.add_sub_cancel, lastEntry]
  rcases Nat.lt_trichotomy j last with low | equal | high
  · rw [if_pos low, if_neg (Nat.ne_of_lt low), if_pos low]
  · rw [if_neg (by omega), if_pos equal]
  · have past : ¬ j < last := Nat.not_lt.mpr (Nat.le_of_lt high)
    rw [if_neg past, if_neg (Nat.ne_of_gt high), if_neg past, List.getElem?_eq_none (by omega), ite_self]

/-- Up to order, moving the last entry down is plain removal. -/
theorem swapRemove_perm (l : List α) {i : Nat} (bound : i < l.length) :
    (swapRemove l i).Perm (l.eraseIdx i) := by
  rcases List.eq_nil_or_concat' l with empty | ⟨init, z, rfl⟩
  · simp [empty] at bound
  · rw [swapRemove_append]
    rcases Nat.lt_or_ge i init.length with low | high
    · rw [List.eraseIdx_append_of_lt_length low]
      exact (List.set_perm_cons_eraseIdx low z).trans (List.perm_append_singleton _ _).symm
    · rw [List.eraseIdx_append_of_length_le high, List.set_eq_of_length_le high]
      have last : i - init.length = 0 := by
        simp only [List.length_append, List.length_singleton] at bound
        omega
      simp [last]

/-- Removing the entry at `i` takes away exactly that entry when entries are distinct. -/
theorem mem_swapRemove [DecidableEq α] {l : List α} {i : Nat} {x y : α} (nodup : l.Nodup)
    (entry : l[i]? = some x) : y ∈ swapRemove l i ↔ y ∈ l ∧ y ≠ x := by
  obtain ⟨bound, value⟩ := List.getElem?_eq_some_iff.mp entry
  rw [(swapRemove_perm l bound).mem_iff, ← value, ← nodup.erase_getElem i bound]
  exact (nodup.mem_erase_iff).trans and_comm

theorem nodup_swapRemove {l : List α} {i : Nat} (nodup : l.Nodup) (bound : i < l.length) :
    (swapRemove l i).Nodup :=
  (swapRemove_perm l bound).nodup_iff.mpr (nodup.sublist (List.eraseIdx_sublist l i))

/-! Tables with an index. -/

section
variable {κ : Type} {key : β → κ} {count : Nat} {slots slots' : Nat → β} {index : κ → Nat} {keys : Set κ} {k : κ}

/-- The first `count` slots hold one entry for every key of a set, and the index finds it. -/
structure Indexed (key : β → κ) (count : Nat) (slots : Nat → β) (index : κ → Nat) (keys : Set κ) : Prop where
  dense : Set.BijOn (fun i => key (slots i)) (Set.Iio count) keys
  found : ∀ i < count, index (key (slots i)) = i

theorem Indexed.index_of_mem (indexed : Indexed key count slots index keys) (member : k ∈ keys) :
    index k < count ∧ key (slots (index k)) = k := by
  obtain ⟨i, inside, same⟩ := indexed.dense.surjOn member
  have found := indexed.found i inside
  change key (slots i) = k at same
  rw [same] at found
  rw [found]
  exact ⟨inside, same⟩

theorem Indexed.empty : Indexed key 0 slots index ∅ := by
  constructor
  · have none : Set.Iio 0 = (∅ : Set Nat) := Set.Iio_bot
    rw [none]
    exact Set.bijOn_empty _
  · intro i inside
    exact absurd inside (Nat.not_lt_zero i)

/-- What the entries hold beside their keys may change. -/
theorem Indexed.congr (indexed : Indexed key count slots index keys) (same : ∀ i, key (slots' i) = key (slots i)) :
    Indexed key count slots' index keys := by
  have keys' : (fun i => key (slots' i)) = fun i => key (slots i) := funext same
  constructor
  · rw [keys']
    exact indexed.dense
  · intro i inside
    rw [same i]
    exact indexed.found i inside

/-- A table in which every key has its own slot, in terms of the slots alone. -/
theorem Indexed.of_slots (found : ∀ i < count, index (key (slots i)) = i) (members : ∀ i < count, key (slots i) ∈ keys)
    (all : ∀ k ∈ keys, ∃ i < count, key (slots i) = k) : Indexed key count slots index keys := by
  refine ⟨⟨members, ?_, all⟩, found⟩
  intro i inside j inside' same
  calc i = index (key (slots i)) := (found i inside).symm
    _ = index (key (slots j)) := congrArg index same
    _ = j := found j inside'

/-- The only entry leaves an empty table, whatever the index still says. -/
theorem Indexed.removeOnly (indexed : Indexed key 1 slots index keys) (member : k ∈ keys) : keys \ {k} = ∅ := by
  obtain ⟨inside, holds⟩ := indexed.index_of_mem member
  ext k'
  constructor
  · intro remaining
    obtain ⟨inside', holds'⟩ := indexed.index_of_mem remaining.1
    have same : index k' = index k := by omega
    rw [same, holds] at holds'
    exact absurd holds'.symm remaining.2
  · exact False.elim

variable [DecidableEq κ]

/-- A new entry goes behind the others. -/
theorem Indexed.push (indexed : Indexed key count slots index keys) {b : β} (new : key b ∉ keys) :
    Indexed key (count + 1) (update slots count b) (update index (key b) count) (insert (key b) keys) := by
  apply Indexed.of_slots
  · intro i inside
    by_cases last : i = count
    · rw [last, update_self, update_self]
    · have before : i < count := by omega
      have other : key (slots i) ≠ key b := by
        intro same
        exact new (same ▸ indexed.dense.mapsTo before)
      rw [update_of_ne last, update_of_ne other]
      exact indexed.found i before
  · intro i inside
    by_cases last : i = count
    · rw [last, update_self]
      exact Set.mem_insert _ _
    · rw [update_of_ne last]
      have before : i < count := by omega
      exact Set.mem_insert_of_mem _ (indexed.dense.mapsTo before)
  · intro k member
    rcases Set.mem_insert_iff.mp member with same | member
    · exact ⟨count, Nat.lt_succ_self count, by rw [update_self, same]⟩
    · obtain ⟨inside, holds⟩ := indexed.index_of_mem member
      exact ⟨index k, by omega, by rw [update_of_ne (Nat.ne_of_lt inside), holds]⟩

/-- The last entry takes the place of the one that is removed, where others remain. -/
theorem Indexed.swapOut (indexed : Indexed key (count + 1) slots index keys) (member : k ∈ keys) :
    Indexed key count (update slots (index k) (slots count)) (update index (key (slots count)) (index k))
      (keys \ {k}) := by
  obtain ⟨inside, holds⟩ := indexed.index_of_mem member
  have foundLast := indexed.found count (Nat.lt_succ_self count)
  have lastIn : key (slots count) ∈ keys := indexed.dense.mapsTo (Nat.lt_succ_self count)
  apply Indexed.of_slots
  · intro i before
    by_cases vacated : i = index k
    · rw [vacated, update_self, update_self]
    · have found := indexed.found i (by omega)
      have other : key (slots i) ≠ key (slots count) := by
        intro same
        rw [same, foundLast] at found
        omega
      rw [update_of_ne vacated, update_of_ne other, found]
  · intro i before
    by_cases vacated : i = index k
    · rw [vacated, update_self]
      refine ⟨lastIn, ?_⟩
      intro same
      have same' : key (slots count) = k := same
      rw [same'] at foundLast
      omega
    · rw [update_of_ne vacated]
      have found := indexed.found i (by omega)
      refine ⟨indexed.dense.mapsTo (show i < count + 1 by omega), ?_⟩
      intro same
      have same' : key (slots i) = k := same
      rw [same'] at found
      exact vacated found.symm
  · intro k' member'
    obtain ⟨inside', holds'⟩ := indexed.index_of_mem member'.1
    by_cases last : index k' = count
    · have isLast : key (slots count) = k' := last ▸ holds'
      have removed : index k ≠ count := by
        intro same
        have isLast' : key (slots count) = k := same ▸ holds
        exact member'.2 (isLast.symm.trans isLast')
      exact ⟨index k, by omega, by rw [update_self, isLast]⟩
    · have other : index k' ≠ index k := by
        intro same
        rw [same, holds] at holds'
        exact member'.2 holds'.symm
      exact ⟨index k', by omega, by rw [update_of_ne other, holds']⟩

/-- The entries that remain are the same, at the places the index gives them. -/
theorem Indexed.swapOut_at (indexed : Indexed key (count + 1) slots index keys) (member : k ∈ keys) {k' : κ}
    (member' : k' ∈ keys) (other : k' ≠ k) :
    update slots (index k) (slots count) (update index (key (slots count)) (index k) k') = slots (index k') := by
  obtain ⟨_, holds⟩ := indexed.index_of_mem member
  obtain ⟨_, holds'⟩ := indexed.index_of_mem member'
  have foundLast := indexed.found count (Nat.lt_succ_self count)
  by_cases last : k' = key (slots count)
  · rw [last, update_self, update_self, foundLast]
  · have apart : index k' ≠ index k := by
      intro same
      rw [same, holds] at holds'
      exact other holds'.symm
    rw [update_of_ne last, update_of_ne apart]

end

/-- Reading an array with holes: a hole and a position past the end both give nothing. -/
def holeGet (a : List (Option β)) (i : Nat) : Option β :=
  a[i]?.join

/-- Writing an array with holes extends it when the position lies past the end. -/
def holeSet (a : List (Option β)) (i : Nat) (v : Option β) : List (Option β) :=
  if i < a.length then a.set i v else a ++ List.replicate (i - a.length) none ++ [v]

@[simp] theorem holeGet_holeSet (a : List (Option β)) (i j : Nat) (v : Option β) :
    holeGet (holeSet a i v) j = if j = i then v else holeGet a j := by
  unfold holeGet holeSet
  by_cases inside : i < a.length
  · rw [if_pos inside, List.getElem?_set]
    by_cases same : j = i
    · simp [same, inside]
    · simp [same, Ne.symm same]
  · rw [if_neg inside]
    by_cases same : j = i
    · subst same
      rw [if_pos rfl, List.getElem?_append_right (by simp; omega)]
      simp [show j - (a.length + (j - a.length)) = 0 by omega]
    · rw [if_neg same, List.append_assoc]
      rcases Nat.lt_or_ge j a.length with low | high
      · rw [List.getElem?_append_left low]
      · rw [List.getElem?_append_right high, List.getElem?_eq_none high]
        rcases Nat.lt_trichotomy j i with before | equal | after
        · rw [List.getElem?_append_left (by simp; omega)]
          simp [show j - a.length < i - a.length by omega]
        · exact absurd equal same
        · rw [List.getElem?_eq_none (by simp; omega)]

@[simp] theorem holeGet_push (a : List (Option β)) (j : Nat) :
    holeGet (a ++ [none]) j = holeGet a j := by
  unfold holeGet
  rcases Nat.lt_trichotomy j a.length with low | same | high
  · rw [List.getElem?_append_left low]
  · simp [same]
  · rw [List.getElem?_eq_none (by simp; omega), List.getElem?_eq_none (by omega)]

theorem holeGet_of_length_le {a : List (Option β)} {i : Nat} (high : a.length ≤ i) :
    holeGet a i = none := by
  rw [holeGet, List.getElem?_eq_none high, Option.join_none]

theorem lt_of_holeGet {a : List (Option β)} {i : Nat} {v : β} (found : holeGet a i = some v) :
    i < a.length := by
  by_contra high
  rw [holeGet_of_length_le (Nat.le_of_not_lt high)] at found
  cases found

@[simp] theorem holeSet_length {a : List (Option β)} {i : Nat} {v : Option β} :
    (holeSet a i v).length = max a.length (i + 1) := by
  unfold holeSet
  split
  next inside => rw [List.length_set]; omega
  next outside => simp only [List.length_append, List.length_replicate, List.length_singleton]; omega

theorem holeSet_of_lt {a : List (Option β)} {i : Nat} (inside : i < a.length) (v : Option β) :
    holeSet a i v = a.set i v := if_pos inside

end WebTunnel.Library.Slots
