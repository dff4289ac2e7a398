import Mathlib.Data.List.Basic
import Mathlib.Tactic.Linarith

/-! Transformations of a list block by block, and iterated rounds with their inverses. -/

namespace WebTunnel.Library.Blocks

variable {α : Type}

/-- Transforms the first `count` blocks of a list and leaves the rest alone. -/
def onBlocks (size : Nat) (f : List α → List α) : Nat → List α → List α
  | 0, l => l
  | count + 1, l => f (l.take size) ++ onBlocks size f count (l.drop size)

variable {size : Nat} {f g : List α → List α}

theorem length_onBlocks (keeps : ∀ block, block.length = size → (f block).length = size) (count : Nat) {l : List α}
    (long : size * count ≤ l.length) : (onBlocks size f count l).length = l.length := by
  induction count generalizing l with
  | zero => rfl
  | succ count ih =>
    rw [Nat.mul_succ] at long
    have first : (l.take size).length = size := by
      rw [List.length_take]
      omega
    have rest : size * count ≤ (l.drop size).length := by
      rw [List.length_drop]
      omega
    calc (onBlocks size f (count + 1) l).length
        = (f (l.take size)).length + (onBlocks size f count (l.drop size)).length := List.length_append
      _ = size + (l.drop size).length := by rw [keeps _ first, ih rest]
      _ = l.length := by
        rw [List.length_drop]
        omega

/-- Blocks and what follows them are transformed apart. -/
theorem onBlocks_append (count more : Nat) {l rest : List α} (whole : l.length = size * count) :
    onBlocks size f (count + more) (l ++ rest) = onBlocks size f count l ++ onBlocks size f more rest := by
  induction count generalizing l with
  | zero =>
    have none : l = [] := List.eq_nil_of_length_eq_zero whole
    rw [none, Nat.zero_add]
    rfl
  | succ count ih =>
    rw [Nat.mul_succ] at whole
    have long : size ≤ l.length := by omega
    have behind : (l.drop size).length = size * count := by
      rw [List.length_drop]
      omega
    rw [Nat.succ_add_eq_add_succ, Nat.add_succ, onBlocks, onBlocks, List.take_append_of_le_length long,
      List.drop_append_of_le_length long, ih behind, List.append_assoc]

/-- A transformation that undoes another on single blocks undoes it on any number of them. -/
theorem onBlocks_onBlocks (keeps : ∀ block, block.length = size → (f block).length = size)
    (undoes : ∀ block, block.length = size → g (f block) = block) (count : Nat) {l : List α}
    (long : size * count ≤ l.length) : onBlocks size g count (onBlocks size f count l) = l := by
  induction count generalizing l with
  | zero => rfl
  | succ count ih =>
    rw [Nat.mul_succ] at long
    have first : (l.take size).length = size := by
      rw [List.length_take]
      omega
    have rest : size * count ≤ (l.drop size).length := by
      rw [List.length_drop]
      omega
    have front : (f (l.take size)).length = size := keeps _ first
    rw [onBlocks, onBlocks, List.take_left' front, List.drop_left' front, undoes _ first, ih rest, List.take_append_drop]

/-! Rounds. -/

variable {β σ : Type}

/-- Rounds under the schedule's values, in their order. -/
def rounds (round : σ → β → β) (schedule : List σ) (b : β) : β := schedule.foldl (fun b s => round s b) b

/-- Taking every round back, the last one first. -/
theorem rounds_reverse {round undo : σ → β → β} (undoes : ∀ s b, undo s (round s b) = b) (schedule : List σ) (b : β) :
    rounds undo schedule.reverse (rounds round schedule b) = b := by
  induction schedule generalizing b with
  | nil => rfl
  | cons s rest ih =>
    calc rounds undo (s :: rest).reverse (rounds round (s :: rest) b)
        = undo s (rounds undo rest.reverse (rounds round rest (round s b))) := by
          rw [rounds, List.reverse_cons, List.foldl_append]
          rfl
      _ = undo s (round s b) := by rw [ih]
      _ = b := undoes s b

end WebTunnel.Library.Blocks
