import Mathlib.Data.List.Infix
import Mathlib.Data.List.TakeWhile

/-! Where a sequence occurs in another one. -/

namespace WebTunnel.Library.Occurrences

variable {α : Type} {needle s before after : List α} {p q : Nat}

/-- The sequence stands at this position. -/
def OccursAt (needle s : List α) (p : Nat) : Prop := needle <+: s.drop p

/-- The sequence stands at this position and at none before it. -/
def FirstAt (needle s : List α) (p : Nat) : Prop :=
  p ≤ s.length ∧ OccursAt needle s p ∧ ∀ q < p, ¬ OccursAt needle s q

theorem occursAt_append (needle before after : List α) : OccursAt needle (before ++ needle ++ after) before.length := by
  rw [OccursAt, List.append_assoc, List.drop_left]
  exact List.prefix_append _ _

theorem OccursAt.le (occurs : OccursAt needle s p) (nonempty : needle ≠ []) : p + needle.length ≤ s.length := by
  have length := occurs.length_le
  rw [List.length_drop] at length
  have positive := List.length_pos_iff.mpr nonempty
  omega

/-- Whether it stands at a position is decided by the elements there. -/
theorem occursAt_append_iff (within : p + needle.length ≤ s.length) : OccursAt needle (s ++ after) p ↔ OccursAt needle s p := by
  rw [OccursAt, OccursAt, List.drop_append_of_le_length (by omega)]
  refine ⟨fun longer => ?_, List.prefix_append_of_prefix⟩
  exact List.prefix_of_prefix_length_le longer (List.prefix_append _ _) (by rw [List.length_drop]; omega)

theorem occursAt_map {β : Type} {f : α → β} (injective : Function.Injective f) :
    OccursAt (needle.map f) (s.map f) p ↔ OccursAt needle s p := by
  rw [OccursAt, OccursAt, ← List.map_drop, List.prefix_map_iff_of_injective injective]

theorem FirstAt.unique (first : FirstAt needle s p) (other : FirstAt needle s q) : p = q := by
  rcases lt_trichotomy p q with before | same | behind
  · exact absurd first.2.1 (other.2.2 p before)
  · exact same
  · exact absurd other.2.1 (first.2.2 q behind)

/-- Whether it is the first one is decided by what stands in front of its end. -/
theorem firstAt_append_iff (within : p + needle.length ≤ s.length) : FirstAt needle (s ++ after) p ↔ FirstAt needle s p := by
  constructor
  · rintro ⟨_, occurs, first⟩
    refine ⟨by omega, (occursAt_append_iff within).mp occurs, fun q less now => ?_⟩
    exact first q less ((occursAt_append_iff (by omega)).mpr now)
  · rintro ⟨_, occurs, first⟩
    refine ⟨by rw [List.length_append]; omega, (occursAt_append_iff within).mpr occurs, fun q less now => ?_⟩
    exact first q less ((occursAt_append_iff (by omega)).mp now)

/-- What is found in the beginning of a sequence is found in the sequence. -/
theorem FirstAt.append (first : FirstAt needle s p) (nonempty : needle ≠ []) (after : List α) : FirstAt needle (s ++ after) p :=
  (firstAt_append_iff (first.2.1.le nonempty)).mpr first

theorem firstAt_map {β : Type} {f : α → β} (injective : Function.Injective f) :
    FirstAt (needle.map f) (s.map f) p ↔ FirstAt needle s p := by
  simp only [FirstAt, occursAt_map injective, List.length_map]

/-! Searching from the left. -/

section
variable [DecidableEq α]

def firstOccurrence (needle : List α) : List α → Option Nat
  | [] => if needle = [] then some 0 else none
  | a :: rest =>
    if needle.isPrefixOf (a :: rest) then some 0 else (firstOccurrence needle rest).map (· + 1)

theorem firstAt_of_firstOccurrence (found : firstOccurrence needle s = some p) : FirstAt needle s p := by
  induction s generalizing p with
  | nil =>
    rw [firstOccurrence] at found
    split at found
    next empty =>
      cases found
      exact ⟨le_rfl, empty ▸ List.nil_prefix, by simp⟩
    next => cases found
  | cons a rest ih =>
    rw [firstOccurrence] at found
    split at found
    next here =>
      cases found
      exact ⟨Nat.zero_le _, List.isPrefixOf_iff_prefix.mp here, by simp⟩
    next other =>
      obtain ⟨p', found', rfl⟩ := Option.map_eq_some_iff.mp found
      obtain ⟨within, occurs, before⟩ := ih found'
      refine ⟨Nat.succ_le_succ within, occurs, fun q less now => ?_⟩
      cases q with
      | zero => exact other (List.isPrefixOf_iff_prefix.mpr now)
      | succ q => exact before q (Nat.lt_of_succ_lt_succ less) now

theorem firstOccurrence_ne_none (within : p ≤ s.length) (occurs : OccursAt needle s p) : firstOccurrence needle s ≠ none := by
  induction s generalizing p with
  | nil =>
    have empty : needle = [] := by
      have none : OccursAt needle [] p := occurs
      rw [OccursAt, List.drop_nil] at none
      exact List.prefix_nil.mp none
    rw [firstOccurrence, if_pos empty]
    simp
  | cons a rest ih =>
    rw [firstOccurrence]
    split
    next => simp
    next other =>
      cases p with
      | zero => exact absurd (List.isPrefixOf_iff_prefix.mpr occurs) other
      | succ p =>
        intro none
        exact ih (Nat.le_of_succ_le_succ within) occurs (Option.map_eq_none_iff.mp none)

theorem firstOccurrence_eq_some_iff : firstOccurrence needle s = some p ↔ FirstAt needle s p := by
  refine ⟨firstAt_of_firstOccurrence, fun first => ?_⟩
  obtain ⟨q, found⟩ := Option.ne_none_iff_exists'.mp (firstOccurrence_ne_none first.1 first.2.1)
  rw [found, first.unique (firstAt_of_firstOccurrence found)]

theorem firstOccurrence_eq_none_iff : firstOccurrence needle s = none ↔ ∀ p ≤ s.length, ¬ OccursAt needle s p := by
  refine ⟨fun none p within occurs => firstOccurrence_ne_none within occurs none, fun never => ?_⟩
  by_contra some
  obtain ⟨p, found⟩ := Option.ne_none_iff_exists'.mp some
  have first := firstAt_of_firstOccurrence found
  exact never p first.1 first.2.1

end
end WebTunnel.Library.Occurrences
