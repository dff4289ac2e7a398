import Mathlib.Data.List.Nodup
import Mathlib.Data.List.Perm.Basic
import Mathlib.Logic.Function.Basic

/-! Linked lists with an entry embedded in every node, as the code that uses them sees
them: which nodes hang on each head, in which order, and on which head a node hangs. A
node is on one list at a time; an operation that would break this has no result. -/

namespace WebTunnel.Library.Lists
open Function

variable {κ ν : Type}

/-- Lists of nodes `ν` on heads `κ`. A head that is not initialised has no list. -/
@[ext] structure Rings (κ ν : Type) where
  items : κ → Option (List ν)
  home : ν → Option κ
  linked : ∀ n h, home n = some h ↔ ∃ l, items h = some l ∧ n ∈ l
  nodup : ∀ h l, items h = some l → l.Nodup

namespace Rings

theorem mem_of_home {R : Rings κ ν} {n : ν} {h : κ} {l : List ν} (sits : R.home n = some h)
    (found : R.items h = some l) : n ∈ l := by
  obtain ⟨l', found', member⟩ := (R.linked n h).mp sits
  cases found.symm.trans found'
  exact member

theorem home_of_mem {R : Rings κ ν} {n : ν} {h : κ} {l : List ν} (found : R.items h = some l)
    (member : n ∈ l) : R.home n = some h := (R.linked n h).mpr ⟨l, found, member⟩

theorem not_mem_of_home {R : Rings κ ν} {n : ν} {h : κ} {l : List ν} (other : R.home n ≠ some h)
    (found : R.items h = some l) : n ∉ l := fun member => other (home_of_mem found member)

/-- Lists with no nodes, on the heads that satisfy the test. -/
def empty (ready : κ → Bool) : Rings κ ν where
  items h := if ready h then some [] else none
  home _ := none
  linked n h := by
    constructor
    · intro sits
      cases sits
    · rintro ⟨l, found, member⟩
      split at found
      · cases found
        cases member
      · cases found
  nodup h l found := by
    split at found
    · cases found
      exact List.nodup_nil
    · cases found

theorem eq_nil_of_emptied (l : List ν) (same : some [] = some l) : l = [] := (Option.some.inj same).symm

theorem eq_nil_of_unset (l : List ν) (same : none = some l) : l = [] := by cases same

variable [DecidableEq κ]

/-- The new list of one head, after which exactly its nodes are at home there. -/
private theorem linked_update {R : Rings κ ν} {h : κ} {l : Option (List ν)} {home : ν → Option κ}
    (inside : ∀ n, home n = some h ↔ ∃ l', l = some l' ∧ n ∈ l')
    (outside : ∀ n h', h' ≠ h → (home n = some h' ↔ R.home n = some h')) (n : ν) (h' : κ) :
    home n = some h' ↔ ∃ l', update R.items h l h' = some l' ∧ n ∈ l' := by
  by_cases same : h' = h
  · subst same
    rw [update_self]
    exact inside n
  · rw [update_of_ne same, outside n h' same]
    exact R.linked n h'

private theorem nodup_update {R : Rings κ ν} {h : κ} {l : Option (List ν)}
    (inside : ∀ l', l = some l' → l'.Nodup) (h' : κ) (l' : List ν)
    (found : update R.items h l h' = some l') : l'.Nodup := by
  by_cases same : h' = h
  · subst same
    rw [update_self] at found
    exact inside l' found
  · rw [update_of_ne same] at found
    exact R.nodup h' l' found

variable [DecidableEq ν]

/-- A free node takes its place in the list of a head. -/
private def hang (R : Rings κ ν) (n : ν) (h : κ) (l l' : List ν) (found : R.items h = some l)
    (free : R.home n = none) (perm : l'.Perm (n :: l)) : Rings κ ν where
  items := update R.items h (some l')
  home := update R.home n (some h)
  linked := by
    apply linked_update
    · intro m
      by_cases same : m = n
      · subst same
        simp [perm.mem_iff]
      · rw [update_of_ne same, R.linked m h]
        simp [found, perm.mem_iff, same]
    · intro m h' other
      by_cases same : m = n
      · subst same
        simp [free, other.symm]
      · rw [update_of_ne same]
  nodup := by
    apply nodup_update
    rintro _ ⟨⟩
    rw [perm.nodup_iff]
    exact List.nodup_cons.mpr ⟨not_mem_of_home (by simp [free]) found, R.nodup h l found⟩

/-- `list_add`: the node becomes the first of the list. -/
def add (R : Rings κ ν) (n : ν) (h : κ) : Option (Rings κ ν) :=
  match found : R.items h, free : R.home n with
  | some l, none => some (R.hang n h l (n :: l) found free (.refl _))
  | _, _ => none

/-- `list_add_tail`: the node becomes the last of the list. -/
def addTail (R : Rings κ ν) (n : ν) (h : κ) : Option (Rings κ ν) :=
  match found : R.items h, free : R.home n with
  | some l, none => some (R.hang n h l (l ++ [n]) found free (List.perm_append_singleton n l))
  | _, _ => none

/-- `list_del`: the node leaves the list it is on. -/
def del (R : Rings κ ν) (n : ν) : Option (Rings κ ν) :=
  match sits : R.home n with
  | none => none
  | some h =>
    match found : R.items h with
    | none => none
    | some l => some
      { items := update R.items h (some (l.erase n))
        home := update R.home n none
        linked := by
          apply linked_update
          · intro m
            by_cases same : m = n
            · subst same
              simp [(R.nodup h l found).not_mem_erase]
            · rw [update_of_ne same, R.linked m h]
              simp [found, List.mem_erase_of_ne same]
          · intro m h' other
            by_cases same : m = n
            · subst same
              simp [sits, other.symm]
            · rw [update_of_ne same]
        nodup := nodup_update fun l' same => by
          cases same
          exact (R.nodup h l found).erase n }

/-- The nodes of one list join those of another, in front of them or behind them; `after`
is what remains of the first: an empty list, or a head that must not be used any more. -/
private def join (R : Rings κ ν) (a b : κ) (la lb l' : List ν) (after : Option (List ν))
    (foundA : R.items a = some la) (foundB : R.items b = some lb) (other : a ≠ b)
    (perm : l'.Perm (la ++ lb)) (gone : ∀ l, after = some l → l = []) : Rings κ ν where
  items := update (update R.items a after) b (some l')
  home n := if n ∈ la then some b else R.home n
  linked n h := by
    have inA : n ∈ la ↔ R.home n = some a :=
      ⟨home_of_mem foundA, fun sits => mem_of_home sits foundA⟩
    have inB : n ∈ lb ↔ R.home n = some b :=
      ⟨home_of_mem foundB, fun sits => mem_of_home sits foundB⟩
    by_cases atB : h = b
    · subst atB
      rw [update_self]
      simp only [Option.some.injEq, exists_eq_left', perm.mem_iff, List.mem_append, inA, inB]
      by_cases sits : R.home n = some a
      · simp [sits]
      · simp [sits]
    · rw [update_of_ne atB]
      by_cases atA : h = a
      · subst atA
        rw [update_self]
        constructor
        · intro sits
          split at sits
          · cases sits
            exact absurd rfl atB
          next away => exact absurd (inA.mpr sits) away
        · rintro ⟨l, same, member⟩
          rw [gone l same] at member
          cases member
      · rw [update_of_ne atA, ← R.linked n h]
        split
        next member => simp [inA.mp member, Ne.symm atA, Ne.symm atB]
        next => rfl
  nodup h l found := by
    by_cases atB : h = b
    · subst atB
      rw [update_self] at found
      cases found
      rw [perm.nodup_iff]
      refine List.Nodup.append (R.nodup a la foundA) (R.nodup _ lb foundB) fun n first second => ?_
      have sits := (home_of_mem foundA first).symm.trans (home_of_mem foundB second)
      exact other (Option.some.inj sits)
    · rw [update_of_ne atB] at found
      by_cases atA : h = a
      · subst atA
        rw [update_self] at found
        rw [gone l found]
        exact List.nodup_nil
      · rw [update_of_ne atA] at found
        exact R.nodup h l found

/-- `list_splice`: the nodes of list `a` go in front of those of `b`. Unless it was empty,
the head `a` still points at them and must be initialised before its next use. -/
def splice (R : Rings κ ν) (a b : κ) : Option (Rings κ ν) :=
  if other : a = b then none
  else match foundA : R.items a, foundB : R.items b with
    | some [], some _ => some R
    | some (n :: la), some lb =>
      some (R.join a b (n :: la) lb (n :: la ++ lb) none foundA foundB other (.refl _)
        eq_nil_of_unset)
    | _, _ => none

/-- `list_splice_init`: as `list_splice`, and the list `a` is empty afterwards. -/
def spliceInit (R : Rings κ ν) (a b : κ) : Option (Rings κ ν) :=
  if other : a = b then none
  else match foundA : R.items a, foundB : R.items b with
    | some la, some lb =>
      some (R.join a b la lb (la ++ lb) (some []) foundA foundB other (.refl _)
        eq_nil_of_emptied)
    | _, _ => none

/-- `list_splice_tail_init`: the nodes of list `a` go behind those of `b`. -/
def spliceTailInit (R : Rings κ ν) (a b : κ) : Option (Rings κ ν) :=
  if other : a = b then none
  else match foundA : R.items a, foundB : R.items b with
    | some la, some lb =>
      some (R.join a b la lb (lb ++ la) (some []) foundA foundB other List.perm_append_comm
        eq_nil_of_emptied)
    | _, _ => none

/-- Writing over a head that no node hangs on: `INIT_LIST_HEAD` makes it an empty list,
clearing its memory leaves it without one. -/
def reset (R : Rings κ ν) (h : κ) (l : Option (List ν)) (gone : ∀ l', l = some l' → l' = []) :
    Option (Rings κ ν) :=
  if gone' : ∀ l' ∈ R.items h, l' = [] then some
    { items := update R.items h l
      home := R.home
      linked := by
        apply linked_update
        · intro n
          rw [R.linked n h]
          constructor
          · rintro ⟨l', found, member⟩
            rw [gone' l' found] at member
            cases member
          · rintro ⟨l', same, member⟩
            rw [gone l' same] at member
            cases member
        · exact fun _ _ _ => Iff.rfl
      nodup := nodup_update fun l' same => by
        rw [gone l' same]
        exact List.nodup_nil }
  else none

/-! What the operations do, and when they have a result. -/

section
variable {R S : Rings κ ν} {n : ν} {a b h : κ} {l la lb : List ν}

theorem add_of_free (found : R.items h = some l) (free : R.home n = none) :
    ∃ S, R.add n h = some S ∧ S.items = update R.items h (some (n :: l)) ∧
      S.home = update R.home n (some h) := by
  unfold add
  split
  next l' found' _ =>
    cases found.symm.trans found'
    exact ⟨_, rfl, rfl, rfl⟩
  next none => exact (none l found free).elim

theorem add_effect (done : R.add n h = some S) :
    ∃ l, R.items h = some l ∧ R.home n = none ∧ S.items = update R.items h (some (n :: l)) ∧
      S.home = update R.home n (some h) := by
  unfold add at done
  split at done
  next l found free =>
    cases done
    exact ⟨l, found, free, rfl, rfl⟩
  next => cases done

theorem addTail_of_free (found : R.items h = some l) (free : R.home n = none) :
    ∃ S, R.addTail n h = some S ∧ S.items = update R.items h (some (l ++ [n])) ∧
      S.home = update R.home n (some h) := by
  unfold addTail
  split
  next l' found' _ =>
    cases found.symm.trans found'
    exact ⟨_, rfl, rfl, rfl⟩
  next none => exact (none l found free).elim

theorem addTail_effect (done : R.addTail n h = some S) :
    ∃ l, R.items h = some l ∧ R.home n = none ∧ S.items = update R.items h (some (l ++ [n])) ∧
      S.home = update R.home n (some h) := by
  unfold addTail at done
  split at done
  next l found free =>
    cases done
    exact ⟨l, found, free, rfl, rfl⟩
  next => cases done

theorem del_of_home (found : R.items h = some l) (sits : R.home n = some h) :
    ∃ S, R.del n = some S ∧ S.items = update R.items h (some (l.erase n)) ∧
      S.home = update R.home n none := by
  unfold del
  split
  next away => cases sits.symm.trans away
  next h' sits' =>
    cases sits.symm.trans sits'
    split
    next none => cases found.symm.trans none
    next l' found' =>
      cases found.symm.trans found'
      exact ⟨_, rfl, rfl, rfl⟩

theorem del_effect (done : R.del n = some S) :
    ∃ h l, R.home n = some h ∧ R.items h = some l ∧ S.items = update R.items h (some (l.erase n)) ∧
      S.home = update R.home n none := by
  unfold del at done
  split at done
  next => cases done
  next h sits =>
    split at done
    next => cases done
    next l found =>
      cases done
      exact ⟨h, l, sits, found, rfl, rfl⟩

theorem spliceInit_of_found (other : a ≠ b) (foundA : R.items a = some la) (foundB : R.items b = some lb) :
    ∃ S, R.spliceInit a b = some S ∧
      S.items = update (update R.items a (some [])) b (some (la ++ lb)) ∧
      S.home = fun n => if n ∈ la then some b else R.home n := by
  unfold spliceInit
  rw [dif_neg other]
  split
  next la' lb' foundA' foundB' =>
    cases foundA.symm.trans foundA'
    cases foundB.symm.trans foundB'
    exact ⟨_, rfl, rfl, rfl⟩
  next none => exact absurd foundB (none la lb foundA)

theorem spliceInit_effect (done : R.spliceInit a b = some S) :
    ∃ la lb, a ≠ b ∧ R.items a = some la ∧ R.items b = some lb ∧
      S.items = update (update R.items a (some [])) b (some (la ++ lb)) ∧
      S.home = fun n => if n ∈ la then some b else R.home n := by
  unfold spliceInit at done
  split at done
  next => cases done
  next other =>
    split at done
    next la lb foundA foundB =>
      cases done
      exact ⟨la, lb, other, foundA, foundB, rfl, rfl⟩
    next => cases done

theorem spliceTailInit_of_found (other : a ≠ b) (foundA : R.items a = some la)
    (foundB : R.items b = some lb) :
    ∃ S, R.spliceTailInit a b = some S ∧
      S.items = update (update R.items a (some [])) b (some (lb ++ la)) ∧
      S.home = fun n => if n ∈ la then some b else R.home n := by
  unfold spliceTailInit
  rw [dif_neg other]
  split
  next la' lb' foundA' foundB' =>
    cases foundA.symm.trans foundA'
    cases foundB.symm.trans foundB'
    exact ⟨_, rfl, rfl, rfl⟩
  next none => exact absurd foundB (none la lb foundA)

theorem spliceTailInit_effect (done : R.spliceTailInit a b = some S) :
    ∃ la lb, a ≠ b ∧ R.items a = some la ∧ R.items b = some lb ∧
      S.items = update (update R.items a (some [])) b (some (lb ++ la)) ∧
      S.home = fun n => if n ∈ la then some b else R.home n := by
  unfold spliceTailInit at done
  split at done
  next => cases done
  next other =>
    split at done
    next la lb foundA foundB =>
      cases done
      exact ⟨la, lb, other, foundA, foundB, rfl, rfl⟩
    next => cases done

/-- What is left on the head of a list that was spliced without initialising it again. -/
def leftover : List ν → Option (List ν)
  | [] => some []
  | _ :: _ => none

theorem splice_of_found (other : a ≠ b) (foundA : R.items a = some la) (foundB : R.items b = some lb) :
    ∃ S, R.splice a b = some S ∧
      S.items = update (update R.items a (leftover la)) b (some (la ++ lb)) ∧
      S.home = fun n => if n ∈ la then some b else R.home n := by
  unfold splice
  rw [dif_neg other]
  split
  next lb' foundA' foundB' =>
    cases foundA.symm.trans foundA'
    cases foundB.symm.trans foundB'
    refine ⟨_, rfl, ?_, by simp⟩
    rw [leftover, ← foundA, List.nil_append, ← foundB, update_eq_self, update_eq_self]
  next n la' lb' foundA' foundB' =>
    cases foundA.symm.trans foundA'
    cases foundB.symm.trans foundB'
    exact ⟨_, rfl, rfl, rfl⟩
  next none many =>
    cases la with
    | nil => exact absurd foundB (none lb foundA)
    | cons n la => exact absurd foundB (many n la lb foundA)

theorem splice_effect (done : R.splice a b = some S) :
    ∃ la lb, a ≠ b ∧ R.items a = some la ∧ R.items b = some lb ∧
      S.items = update (update R.items a (leftover la)) b (some (la ++ lb)) ∧
      S.home = fun n => if n ∈ la then some b else R.home n := by
  have found : ∃ la lb, a ≠ b ∧ R.items a = some la ∧ R.items b = some lb := by
    unfold splice at done
    split at done
    next => cases done
    next other =>
      split at done
      next lb foundA foundB => exact ⟨_, lb, other, foundA, foundB⟩
      next n la lb foundA foundB => exact ⟨_, lb, other, foundA, foundB⟩
      next => cases done
  obtain ⟨la, lb, other, foundA, foundB⟩ := found
  obtain ⟨S', done', items, home⟩ := splice_of_found other foundA foundB
  cases done.symm.trans done'
  exact ⟨la, lb, other, foundA, foundB, items, home⟩

omit [DecidableEq ν] in
theorem reset_of_bare {l : Option (List ν)} {gone : ∀ l', l = some l' → l' = []}
    (bare : ∀ l' ∈ R.items h, l' = []) :
    ∃ S, R.reset h l gone = some S ∧ S.items = update R.items h l ∧ S.home = R.home := by
  unfold reset
  rw [dif_pos bare]
  exact ⟨_, rfl, rfl, rfl⟩

omit [DecidableEq ν] in
theorem reset_effect {l : Option (List ν)} {gone : ∀ l', l = some l' → l' = []}
    (done : R.reset h l gone = some S) :
    (∀ l' ∈ R.items h, l' = []) ∧ S.items = update R.items h l ∧ S.home = R.home := by
  unfold reset at done
  split at done
  next bare =>
    cases done
    exact ⟨bare, rfl, rfl⟩
  next => cases done

end

end Rings

end WebTunnel.Library.Lists
