import Mathlib.Data.Fintype.Card
import WebTunnel.Library.Chains
import WebTunnel.Library.Routines

/-! Lists of nodes as circular lists of linked cells, and routines over them: what a routine
does with lists, it does with the pointers of the cells. -/

namespace WebTunnel.Library.Linked
open Library.Lists Routines Routines.Routine Chains Function

variable {κ ν σ ε α : Type}

/-- The places that are linked: the heads, and the entries embedded in the nodes. -/
inductive Cell (κ ν : Type) where
  | head (h : κ)
  | node (n : ν)
deriving DecidableEq

/-- The head of a list and its nodes. -/
def cells (h : κ) (l : List ν) : List (Cell κ ν) := .head h :: l.map .node

/-- Linked cells as the memory of lists. A node that is on no list has null pointers; a head
that must not be used has any. -/
structure Represents (m : Links (Cell κ ν)) (R : Rings κ ν) : Prop where
  ring : ∀ h l, R.items h = some l → Ring m (.head h) (l.map .node)
  loose : ∀ n, R.home n = none → m.next (.node n) = none ∧ m.prev (.node n) = none

section
variable {m m' : Links (Cell κ ν)} {R S : Rings κ ν} {n : ν} {a b h : κ} {l la lb : List ν}

theorem node_mem_cells : Cell.node n ∈ cells h l ↔ n ∈ l := by simp [cells]

theorem head_mem_cells : Cell.head b ∈ cells h l ↔ b = h := by simp [cells]

theorem cells_nodup (h : κ) (nodup : l.Nodup) : (cells h l).Nodup := by
  apply List.nodup_cons.mpr
  constructor
  · simp
  · apply nodup.map
    intro x y same
    cases same
    rfl

/-- Different lists have different cells. -/
theorem cells_apart (found : R.items a = some la) (found' : R.items b = some lb) (other : a ≠ b) :
    ∀ c ∈ cells a la, c ∉ cells b lb := by
  intro c member member'
  cases c with
  | head h =>
    rw [head_mem_cells] at member member'
    exact other (member.symm.trans member')
  | node n =>
    have sits := Rings.home_of_mem found (node_mem_cells.mp member)
    have sits' := Rings.home_of_mem found' (node_mem_cells.mp member')
    exact other (Option.some.inj (sits.symm.trans sits'))

theorem loose_not_mem_cells (found : R.items h = some l) (free : R.home n = none) : Cell.node n ∉ cells h l := by
  intro member
  have sits := Rings.home_of_mem found (node_mem_cells.mp member)
  exact absurd (free.symm.trans sits) (by simp)

/-- Where only some cells were changed, the other lists and nodes are as before. -/
theorem Represents.of_agree {T : Set (Cell κ ν)} (represents : Represents m R) (agree : Agree T m m')
    (ring : ∀ h l, S.items h = some l → Ring m' (.head h) (l.map .node) ∨
      R.items h = some l ∧ ∀ c ∈ cells h l, c ∉ T)
    (loose : ∀ n, S.home n = none → m'.next (.node n) = none ∧ m'.prev (.node n) = none ∨
      R.home n = none ∧ Cell.node n ∉ T) : Represents m' S where
  ring h l found := by
    obtain ring | ⟨found', outside⟩ := ring h l found
    · exact ring
    · exact (represents.ring h l found').of_agree agree outside
  loose n free := by
    obtain loose | ⟨free', outside⟩ := loose n free
    · exact loose
    · have same := agree _ outside
      have before := represents.loose n free'
      exact ⟨same.1.trans before.1, same.2.trans before.2⟩

end

variable [DecidableEq κ] [DecidableEq ν]

/-- A list operation on linked cells; it has no result where it follows a null pointer. -/
def apply (m : Links (Cell κ ν)) : ListOp κ ν → Option (Links (Cell κ ν))
  | .add n h => m.listAdd (.node n) (.head h)
  | .addTail n h => m.listAddTail (.node n) (.head h)
  | .del n => m.listDel (.node n)
  | .splice a b => m.listSplice (.head a) (.head b)
  | .spliceInit a b => m.listSpliceInit (.head a) (.head b)
  | .spliceTailInit a b => m.listSpliceTailInit (.head a) (.head b)
  | .init h => some (m.initListHead (.head h))
  | .wipe h => some (m.poison (.head h))

section
variable {m : Links (Cell κ ν)} {R S : Rings κ ν} {n : ν} {a b h : κ} {la lb xs ys : List ν}

/-- The cells between which a node is put or taken out, as they are read from its neighbours. -/
def before (h : κ) (xs : List ν) : Cell κ ν := (xs.map Cell.node).getLastD (.head h)
def behind (h : κ) (ys : List ν) : Cell κ ν := (ys.map Cell.node).headD (.head h)

omit [DecidableEq κ] [DecidableEq ν] in
theorem before_mem (h : κ) (xs ys : List ν) : before h xs ∈ cells h (xs ++ ys) := by
  have inside := getLastD_mem (xs.map Cell.node) (Cell.head h)
  rw [cells, List.map_append, ← List.cons_append]
  exact List.mem_append_left _ inside

omit [DecidableEq κ] [DecidableEq ν] in
theorem behind_mem (h : κ) (xs ys : List ν) : behind h ys ∈ cells h (xs ++ ys) := by
  have inside := headD_mem (ys.map Cell.node) (Cell.head h)
  rw [cells, List.map_append]
  rw [List.mem_cons] at inside ⊢
  exact inside.imp_right (List.mem_append_right _)

/-- A node is put between two neighbours. -/
theorem Represents.insert (xs ys : List ν) (represents : Represents m R) (found : R.items h = some (xs ++ ys))
    (free : R.home n = none) (items : S.items = update R.items h (some (xs ++ n :: ys)))
    (home : S.home = update R.home n (some h)) :
    Represents ((m.join (.node n) (behind h ys)).join (before h xs) (.node n)) S := by
  have agree : Agree {c | c = .node n ∨ c ∈ cells h (xs ++ ys)} m
      ((m.join (.node n) (behind h ys)).join (before h xs) (.node n)) :=
    (agree_join m (.inl rfl) (.inr (behind_mem h xs ys))).trans
      (agree_join _ (.inr (before_mem h xs ys)) (.inl rfl))
  apply represents.of_agree agree
  · intro k l found'
    rw [items] at found'
    by_cases same : k = h
    · subst same
      rw [update_self] at found'
      cases found'
      have ring := represents.ring k _ found
      have nodup := cells_nodup k (R.nodup k _ found)
      have absent := loose_not_mem_cells found free
      rw [cells, List.map_append] at nodup absent
      rw [List.map_append] at ring
      rw [List.map_append, List.map_cons]
      exact .inl (ring.insert nodup absent)
    · rw [update_of_ne same] at found'
      refine .inr ⟨found', ?_⟩
      rintro c member (rfl | inside)
      · exact loose_not_mem_cells found' free member
      · exact cells_apart found' found same c member inside
  · intro k free'
    rw [home] at free'
    by_cases same : k = n
    · subst same
      rw [update_self] at free'
      cases free'
    · rw [update_of_ne same] at free'
      refine .inr ⟨free', ?_⟩
      rintro (other | inside)
      · exact same (Cell.node.inj other)
      · exact loose_not_mem_cells found free' inside

/-- A node is taken out from between its neighbours. -/
theorem Represents.erase (represents : Represents m R) (found : R.items h = some (xs ++ n :: ys))
    (items : S.items = update R.items h (some (xs ++ ys))) (home : S.home = update R.home n none) :
    Represents ((m.join (before h xs) (behind h ys)).poison (.node n)) S := by
  have inside : Cell.node n ∈ cells h (xs ++ n :: ys) := node_mem_cells.mpr (by simp)
  have close : behind h ys ∈ cells h (xs ++ n :: ys) := by
    rw [List.append_cons]
    exact behind_mem h (xs ++ [n]) ys
  have agree : Agree {c | c ∈ cells h (xs ++ n :: ys)} m ((m.join (before h xs) (behind h ys)).poison (.node n)) :=
    (agree_join m (before_mem h xs _) close).trans (agree_poison _ inside)
  apply represents.of_agree agree
  · intro k l found'
    rw [items] at found'
    by_cases same : k = h
    · subst same
      rw [update_self] at found'
      cases found'
      have ring := represents.ring k _ found
      have nodup := cells_nodup k (R.nodup k _ found)
      rw [cells, List.map_append, List.map_cons] at nodup
      rw [List.map_append, List.map_cons] at ring
      rw [List.map_append]
      exact .inl (ring.erase nodup)
    · rw [update_of_ne same] at found'
      exact .inr ⟨found', cells_apart found' found same⟩
  · intro k free'
    rw [home] at free'
    by_cases same : k = n
    · subst same
      exact .inl ⟨update_self _ _ _, update_self _ _ _⟩
    · rw [update_of_ne same] at free'
      exact .inr ⟨free', loose_not_mem_cells found free'⟩

omit [DecidableEq κ] [DecidableEq ν] in
theorem cells_splice : cells h (xs ++ la ++ ys) = (.head h :: (xs.map Cell.node ++ la.map Cell.node ++ ys.map Cell.node)) := by
  simp [cells]

/-- The nodes of one list are put between two neighbours in another; its head must not be used. -/
theorem Represents.splice (represents : Represents m R) (other : a ≠ b) (foundA : R.items a = some la)
    (foundB : R.items b = some (xs ++ ys)) (filled : la ≠ []) (nodup : (xs ++ la ++ ys).Nodup)
    (items : S.items = update (update R.items a none) b (some (xs ++ la ++ ys)))
    (home : S.home = fun n => if n ∈ la then some b else R.home n) :
    Represents ((m.join (before b xs) (behind a la)).join (before a la) (behind b ys)) S := by
  have first : behind a la ∈ cells a la := behind_mem a [] la
  have last : before a la ∈ cells a la := by
    simpa only [List.append_nil] using before_mem a la []
  have agree : Agree {c | c ∈ cells a la ∨ c ∈ cells b (xs ++ ys)} m
      ((m.join (before b xs) (behind a la)).join (before a la) (behind b ys)) :=
    (agree_join m (.inr (before_mem b xs ys)) (.inl first)).trans
      (agree_join _ (.inl last) (.inr (behind_mem b xs ys)))
  apply represents.of_agree agree
  · intro k l found'
    rw [items] at found'
    by_cases same : k = b
    · subst same
      rw [update_self] at found'
      cases found'
      have ring := represents.ring k _ foundB
      have ring' := represents.ring a _ foundA
      have apart := cells_nodup k nodup
      rw [cells_splice] at apart
      rw [List.map_append] at ring
      rw [List.map_append, List.map_append]
      apply Or.inl
      apply ring.splice ring' _ apart
      · simpa using other
      · simpa using filled
    · rw [update_of_ne same] at found'
      by_cases same' : k = a
      · subst same'
        rw [update_self] at found'
        cases found'
      · rw [update_of_ne same'] at found'
        refine .inr ⟨found', ?_⟩
        rintro c member (inside | inside)
        · exact cells_apart found' foundA same' c member inside
        · exact cells_apart found' foundB same c member inside
  · intro k free'
    rw [home] at free'
    obtain ⟨away, free⟩ : k ∉ la ∧ R.home k = none := by
      by_cases member : k ∈ la <;> simp_all
    refine .inr ⟨free, ?_⟩
    rintro (inside | inside)
    · exact away (node_mem_cells.mp inside)
    · exact loose_not_mem_cells foundB free inside

omit [DecidableEq ν] in
/-- A head that no node hangs on is written over. -/
theorem Represents.reset {m' : Links (Cell κ ν)} {l : Option (List ν)} (represents : Represents m R)
    (agree : Agree {.head h} m m') (ring : ∀ l', l = some l' → Ring m' (.head h) (l'.map .node))
    (items : S.items = update R.items h l) (home : S.home = R.home) : Represents m' S := by
  apply represents.of_agree agree
  · intro k l' found'
    rw [items] at found'
    by_cases same : k = h
    · subst same
      rw [update_self] at found'
      exact .inl (ring l' found')
    · rw [update_of_ne same] at found'
      refine .inr ⟨found', ?_⟩
      rintro c member rfl
      exact same (head_mem_cells.mp member).symm
  · intro k free'
    rw [home] at free'
    exact .inr ⟨free', fun same => by cases same⟩

end

/-! The operations, one after the other. -/

section
variable {m : Links (Cell κ ν)} {R S : Rings κ ν} {n : ν} {a b h : κ} {la : List ν}

theorem Represents.listEmpty_iff (represents : Represents m R) (found : R.items a = some la) :
    m.listEmpty (.head a) = true ↔ la = [] := by
  have ring := represents.ring a la found
  rw [ring.listEmpty_iff (by simp), List.map_eq_nil_iff]

omit [DecidableEq κ] [DecidableEq ν] in
theorem Represents.next_head (represents : Represents m R) (found : R.items a = some la) :
    m.next (.head a) = some (behind a la) := (represents.ring a la found).next_head

omit [DecidableEq κ] [DecidableEq ν] in
theorem Represents.prev_head (represents : Represents m R) (found : R.items a = some la) :
    m.prev (.head a) = some (before a la) := (represents.ring a la found).prev_head

theorem perform_add (represents : Represents m R) (done : R.add n h = some S) :
    ∃ m', m.listAdd (.node n) (.head h) = some m' ∧ Represents m' S := by
  obtain ⟨l, found, free, items, home⟩ := Rings.add_effect done
  refine ⟨_, ?_, represents.insert [] l found free items home⟩
  rw [Links.listAdd, represents.next_head found]
  rfl

theorem perform_addTail (represents : Represents m R) (done : R.addTail n h = some S) :
    ∃ m', m.listAddTail (.node n) (.head h) = some m' ∧ Represents m' S := by
  obtain ⟨l, found, free, items, home⟩ := Rings.addTail_effect done
  rw [← List.append_nil l] at found
  refine ⟨_, ?_, represents.insert l [] found free (by simpa using items) home⟩
  rw [Links.listAddTail, represents.prev_head found, List.append_nil]
  rfl

theorem perform_del (represents : Represents m R) (done : R.del n = some S) :
    ∃ m', m.listDel (.node n) = some m' ∧ Represents m' S := by
  obtain ⟨h, l, sits, found, items, home⟩ := Rings.del_effect done
  obtain ⟨xs, ys, away, rfl, erased⟩ := List.exists_erase_eq (Rings.mem_of_home sits found)
  rw [erased] at items
  have ring := represents.ring h _ found
  rw [List.map_append, List.map_cons] at ring
  refine ⟨_, ?_, represents.erase found items home⟩
  rw [Links.listDel, ring.prev_of_mem, ring.next_of_mem]
  rfl

/-- The links that splice a list in between two neighbours. -/
theorem listSpliceRaw_eq (represents : Represents m R) (found : R.items a = some la) (prev next : Cell κ ν) :
    m.listSpliceRaw (.head a) (some prev) (some next) =
      some ((m.join prev (behind a la)).join (before a la) next) :=
  m.listSpliceRaw_some prev next (represents.next_head found) (represents.prev_head found)

omit [DecidableEq ν] in
/-- Nothing changes where an empty list is spliced. -/
theorem eq_of_splice_nil {xs ys : List ν} (foundA : R.items a = some []) (foundB : R.items b = some (xs ++ ys))
    (items : S.items = update (update R.items a (some [])) b (some (xs ++ [] ++ ys))) (home : S.home = R.home) :
    S = R := by
  apply Rings.ext
  · rw [items, ← foundA, update_eq_self, List.append_nil, ← foundB, update_eq_self]
  · exact home

/-- Splicing the nodes of a list in, unless there are none. -/
theorem Represents.splice_of_found (xs ys : List ν) (represents : Represents m R) (other : a ≠ b)
    (foundA : R.items a = some la) (foundB : R.items b = some (xs ++ ys))
    (items : S.items = update (update R.items a (Rings.leftover la)) b (some (xs ++ la ++ ys)))
    (home : S.home = fun n => if n ∈ la then some b else R.home n) :
    ∃ m', (if m.listEmpty (.head a) then some m
        else m.listSpliceRaw (.head a) (some (before b xs)) (some (behind b ys))) = some m' ∧ Represents m' S := by
  cases la with
  | nil =>
    refine ⟨m, if_pos ((represents.listEmpty_iff foundA).mpr rfl), ?_⟩
    rwa [eq_of_splice_nil foundA foundB items (by simpa using home)]
  | cons n la =>
    have filled : m.listEmpty (.head a) ≠ true := fun yes => by cases (represents.listEmpty_iff foundA).mp yes
    refine ⟨_, (if_neg filled).trans (listSpliceRaw_eq represents foundA _ _), ?_⟩
    apply represents.splice other foundA foundB (by simp) _ items home
    exact S.nodup b _ (by rw [items, update_self])

/-- As `splice_of_found`, and the list that was spliced is empty afterwards. -/
theorem Represents.spliceInit_of_found (xs ys : List ν) (represents : Represents m R) (other : a ≠ b)
    (foundA : R.items a = some la) (foundB : R.items b = some (xs ++ ys))
    (items : S.items = update (update R.items a (some [])) b (some (xs ++ la ++ ys)))
    (home : S.home = fun n => if n ∈ la then some b else R.home n) :
    ∃ m', (if m.listEmpty (.head a) then some m
        else (m.listSpliceRaw (.head a) (some (before b xs)) (some (behind b ys))).map
          fun m => m.initListHead (.head a)) = some m' ∧ Represents m' S := by
  cases la with
  | nil =>
    refine ⟨m, if_pos ((represents.listEmpty_iff foundA).mpr rfl), ?_⟩
    rwa [eq_of_splice_nil foundA foundB items (by simpa using home)]
  | cons n la =>
    have bare : S.items a = some [] := by rw [items, update_of_ne other, update_self]
    obtain ⟨R', _, items', home'⟩ := exists_wipe (R := S) (h := a) (by simp [bare])
    have unset : R'.items = update (update R.items a none) b (some (xs ++ n :: la ++ ys)) := by
      rw [items', items, update_comm other, update_idem, update_comm other.symm]
    have reset : S.items = update R'.items a (some []) := by
      rw [items', update_idem, ← bare, update_eq_self]
    obtain ⟨m', ran, represents'⟩ := represents.splice_of_found xs ys other foundA foundB unset (home'.trans home)
    have filled : m.listEmpty (.head a) ≠ true := fun yes => by cases (represents.listEmpty_iff foundA).mp yes
    rw [if_neg filled] at ran
    refine ⟨m'.initListHead (.head a), ?_, ?_⟩
    · rw [if_neg filled, ran]
      rfl
    · apply represents'.reset (agree_initListHead m' rfl) _ reset home'.symm
      intro l' same
      cases same
      exact ring_initListHead m' _

/-- What an operation makes of lists, it makes of their cells, and it follows no null pointer. -/
theorem apply_of_apply {op : ListOp κ ν} (represents : Represents m R) (done : op.apply R = some S) :
    ∃ m', apply m op = some m' ∧ Represents m' S := by
  cases op with
  | add n h => exact perform_add represents done
  | addTail n h => exact perform_addTail represents done
  | del n => exact perform_del represents done
  | splice a b =>
    obtain ⟨la, lb, other, foundA, foundB, items, home⟩ := Rings.splice_effect done
    have spliced := represents.splice_of_found [] lb other foundA foundB items home
    rwa [← represents.next_head foundB] at spliced
  | spliceInit a b =>
    obtain ⟨la, lb, other, foundA, foundB, items, home⟩ := Rings.spliceInit_effect done
    have spliced := represents.spliceInit_of_found [] lb other foundA foundB items home
    rwa [← represents.next_head foundB] at spliced
  | spliceTailInit a b =>
    obtain ⟨la, lb, other, foundA, foundB, items, home⟩ := Rings.spliceTailInit_effect done
    rw [← List.append_nil lb] at foundB
    rw [← List.append_nil (lb ++ la)] at items
    have spliced := represents.spliceInit_of_found lb [] other foundA foundB items home
    rw [List.append_nil] at foundB
    rwa [← represents.prev_head foundB] at spliced
  | init h =>
    obtain ⟨_, items, home⟩ := init_effect done
    refine ⟨_, rfl, ?_⟩
    apply represents.reset (agree_initListHead m rfl) _ items home
    intro l' same
    cases same
    exact ring_initListHead m _
  | wipe h =>
    obtain ⟨_, items, home⟩ := wipe_effect done
    refine ⟨_, rfl, represents.reset (agree_poison m rfl) ?_ items home⟩
    intro l' same
    cases same

/-- Operations one after the other. -/
theorem foldlM_of_foldlM {ops : List (ListOp κ ν)} (represents : Represents m R)
    (done : ops.foldlM ListOp.apply R = some S) : ∃ m', ops.foldlM apply m = some m' ∧ Represents m' S := by
  induction ops generalizing m R with
  | nil =>
    cases done
    exact ⟨m, rfl, represents⟩
  | cons op ops ih =>
    rw [List.foldlM_cons] at done ⊢
    obtain ⟨R', first, rest⟩ := Option.bind_eq_some_iff.mp done
    obtain ⟨m', ran, represents'⟩ := apply_of_apply represents first
    rw [ran]
    exact ih represents' rest

omit [DecidableEq κ] [DecidableEq ν] in
/-- Cleared memory, in which no head is initialised. -/
theorem represents_null : Represents (Links.null : Links (Cell κ ν)) (Rings.empty fun _ => false) where
  ring h l found := by cases found
  loose n free := ⟨rfl, rfl⟩

end

/-! Routines over linked cells. -/

/-- Data and linked cells together. -/
structure Memory (κ ν σ : Type) where
  data : σ
  links : Links (Cell κ ν)

/-- Cells that are not heads, as their nodes. -/
def nodes : List (Cell κ ν) → Option (List ν)
  | [] => some []
  | .node n :: rest => (nodes rest).map (n :: ·)
  | .head _ :: _ => none

omit [DecidableEq κ] [DecidableEq ν] in
theorem nodes_map (l : List ν) : nodes (l.map (Cell.node (κ := κ))) = some l := by
  induction l with
  | nil => rfl
  | cons n l ih =>
    rw [List.map_cons, nodes, ih]
    rfl

/-- `list_first_entry` behind `list_empty`. -/
def first (m : Links (Cell κ ν)) (h : κ) : Option (Option ν) :=
  if m.listEmpty (.head h) then some none
  else match m.next (.head h) with
    | some (.node n) => some (some n)
    | _ => none

/-- The nodes that a loop over a list meets. -/
def walk [Fintype ν] (m : Links (Cell κ ν)) (h : κ) : Option (List ν) :=
  (m.listForEach (.head h) (Fintype.card ν + 1) (m.next (.head h))).bind nodes

section
variable {m : Links (Cell κ ν)} {R : Rings κ ν} {h : κ} {l : List ν}

theorem Represents.first (represents : Represents m R) (found : R.items h = some l) : first m h = some l.head? := by
  have empty := represents.listEmpty_iff found
  have next := represents.next_head found
  unfold Linked.first
  cases l with
  | nil => rw [if_pos (empty.mpr rfl), List.head?_nil]
  | cons n l =>
    rw [if_neg (fun yes => by cases empty.mp yes), next]
    rfl

theorem Represents.walk [Fintype ν] (represents : Represents m R) (found : R.items h = some l) : walk m h = some l := by
  have short : (l.map (Cell.node (κ := κ))).length < Fintype.card ν + 1 := by
    rw [List.length_map]
    exact Nat.lt_succ_of_le (R.nodup h l found).length_le_card
  rw [Linked.walk, (represents.ring h l found).listForEach (by simp) short]
  exact nodes_map l

end

/-- The meaning over linked cells. -/
def run [Misuse ε] [Fintype ν] : Routine κ ν σ ε α → Memory κ ν σ → Except ε (α × Memory κ ν σ)
  | .ret a, w => .ok (a, w)
  | .stop e, _ => .error e
  | .load next, w => run (next w.data) w
  | .store s next, w => run next { w with data := s }
  | .link op next, w =>
    match apply w.links op with
    | some links => run next { w with links }
    | none => .error Misuse.misuse
  | .first h next, w =>
    match first w.links h with
    | some n => run (next n) w
    | none => .error Misuse.misuse
  | .walk h next, w =>
    match walk w.links h with
    | some l => run (next l) w
    | none => .error Misuse.misuse

/-- Linked cells that stand for lists, with the same data. -/
structure Stands (u : Memory κ ν σ) (w : World κ ν σ) : Prop where
  data : u.data = w.data
  represents : Represents u.links w.rings

/-- How a routine over linked cells follows the routine over lists: it returns the same where that
returns, and stops with the same error unless that has broken a list. -/
structure Follows [Misuse ε] (code : Except ε (α × World κ ν σ)) (linked : Except ε (α × Memory κ ν σ)) : Prop where
  returns : ∀ a v, code = .ok (a, v) → ∃ u, linked = .ok (a, u) ∧ Stands u v
  stops : ∀ e, code = .error e → e ≠ Misuse.misuse → linked = .error e

omit [DecidableEq κ] [DecidableEq ν] in
theorem follows_misuse [Misuse ε] (linked : Except ε (α × Memory κ ν σ)) :
    Follows (.error Misuse.misuse : Except ε (α × World κ ν σ)) linked where
  returns a v same := by cases same
  stops e same other := by
    cases same
    exact absurd rfl other

/-- A routine does with linked cells what it does with lists. -/
theorem run_follows [Misuse ε] [Fintype ν] (code : Routine κ ν σ ε α) {u : Memory κ ν σ} {w : World κ ν σ}
    (stands : Stands u w) : Follows (code.run w) (run code u) := by
  induction code generalizing u w with
  | ret a =>
    constructor
    · intro b v same
      cases same
      exact ⟨u, rfl, stands⟩
    · intro e same
      cases same
  | stop e =>
    constructor
    · intro b v same
      cases same
    · intro e' same _
      cases same
      rfl
  | load next ih =>
    rw [Routine.run, run, stands.data]
    exact ih w.data stands
  | store s next ih => exact ih ⟨rfl, stands.represents⟩
  | link op next ih =>
    rw [Routine.run, run]
    cases done : op.apply w.rings with
    | none => exact follows_misuse _
    | some R =>
      obtain ⟨m', ran, represents⟩ := apply_of_apply stands.represents done
      rw [ran]
      exact ih ⟨stands.data, represents⟩
  | first h next ih =>
    rw [Routine.run, run]
    cases found : w.rings.items h with
    | none => exact follows_misuse _
    | some l =>
      rw [stands.represents.first found]
      exact ih _ stands
  | walk h next ih =>
    rw [Routine.run, run]
    cases found : w.rings.items h with
    | none => exact follows_misuse _
    | some l =>
      rw [stands.represents.walk found]
      exact ih _ stands

end WebTunnel.Library.Linked
