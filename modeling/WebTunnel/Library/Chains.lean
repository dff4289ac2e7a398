import Mathlib.Data.List.Chain
import Mathlib.Data.List.Nodup
import Mathlib.Logic.Function.Basic

/-! Cells that point at the next cell and at the previous one, the circular lists that are made
of them, and the functions that change such lists by following and writing pointers. -/

namespace WebTunnel.Library.Chains
open Function

/-- The pointers in all cells; `none` is the null pointer. -/
@[ext] structure Links (ι : Type) where
  next : ι → Option ι
  prev : ι → Option ι

variable {ι : Type} [DecidableEq ι]

namespace Links

/-- No cell points anywhere. -/
def null : Links ι := ⟨fun _ => none, fun _ => none⟩

/-- `p->next = q`, which follows `p`. -/
def setNext (m : Links ι) (p q : Option ι) : Option (Links ι) :=
  p.map fun a => { m with next := update m.next a q }

/-- `p->prev = q`, which follows `p`. -/
def setPrev (m : Links ι) (p q : Option ι) : Option (Links ι) :=
  p.map fun a => { m with prev := update m.prev a q }

/-- Makes two cells point at each other. -/
def join (m : Links ι) (a b : ι) : Links ι := ⟨update m.next a (some b), update m.prev b (some a)⟩

/-- Writes null pointers into a cell. -/
def poison (m : Links ι) (a : ι) : Links ι := ⟨update m.next a none, update m.prev a none⟩

def initListHead (m : Links ι) (list : ι) : Links ι :=
  ⟨update m.next list (some list), update m.prev list (some list)⟩

/-- `__list_add`, between two cells that follow each other. -/
def listAddRaw (m : Links ι) (new prev next : Option ι) : Option (Links ι) := do
  let m ← m.setPrev next new
  let m ← m.setNext new next
  let m ← m.setPrev new prev
  m.setNext prev new

def listAdd (m : Links ι) (new head : ι) : Option (Links ι) :=
  m.listAddRaw (some new) (some head) (m.next head)

def listAddTail (m : Links ι) (new head : ι) : Option (Links ι) :=
  m.listAddRaw (some new) (m.prev head) (some head)

/-- `__list_del`, which links two cells over what lies between them. -/
def listDelRaw (m : Links ι) (prev next : Option ι) : Option (Links ι) := do
  let m ← m.setPrev next prev
  m.setNext prev next

def listDel (m : Links ι) (entry : ι) : Option (Links ι) := do
  let m ← m.listDelRaw (m.prev entry) (m.next entry)
  return m.poison entry

def listEmpty (m : Links ι) (head : ι) : Bool := m.next head = some head

/-- `__list_splice`, between two cells that follow each other. -/
def listSpliceRaw (m : Links ι) (list : ι) (prev next : Option ι) : Option (Links ι) := do
  let first := m.next list
  let last := m.prev list
  let m ← m.setPrev first prev
  let m ← m.setNext prev first
  let m ← m.setNext last next
  m.setPrev next last

def listSplice (m : Links ι) (list head : ι) : Option (Links ι) :=
  if m.listEmpty list then some m else m.listSpliceRaw list (some head) (m.next head)

def listSpliceInit (m : Links ι) (list head : ι) : Option (Links ι) :=
  if m.listEmpty list then some m
  else (m.listSpliceRaw list (some head) (m.next head)).map fun m => m.initListHead list

def listSpliceTailInit (m : Links ι) (list head : ι) : Option (Links ι) :=
  if m.listEmpty list then some m
  else (m.listSpliceRaw list (m.prev head) (some head)).map fun m => m.initListHead list

/-- `list_for_each`: the cells that are met from a pointer on until the head is reached. A
null pointer on the way has no result, and neither has a way longer than the limit. -/
def listForEach (m : Links ι) (head : ι) : Nat → Option ι → Option (List ι)
  | 0, _ => none
  | _ + 1, none => none
  | limit + 1, some pos =>
    if pos = head then some [] else (listForEach m head limit (m.next pos)).map (pos :: ·)

/-! What the functions do where no pointer that is followed is null. -/

theorem listSpliceRaw_some (m : Links ι) {list first last : ι} (prev next : ι) (begins : m.next list = some first)
    (ends : m.prev list = some last) :
    m.listSpliceRaw list (some prev) (some next) = some ((m.join prev first).join last next) := by
  simp only [listSpliceRaw, begins, ends]
  rfl

end Links

/-! Chains. -/

/-- Two cells that point at each other. -/
def Joined (m : Links ι) (a b : ι) : Prop := m.next a = some b ∧ m.prev b = some a

/-- Cells each of which is linked with the one that follows it. -/
def Chain (m : Links ι) (l : List ι) : Prop := l.IsChain (Joined m)

/-- The circular list of a head: its cells lie between the head and the head. -/
def Ring (m : Links ι) (head : ι) (l : List ι) : Prop := Chain m ((head :: l) ++ [head])

section
variable {m m' : Links ι} {l l' : List ι} {a b : ι}

omit [DecidableEq ι] in
/-- A chain depends on the pointers that lie inside it only. -/
theorem Chain.congr (chain : Chain m l) (next : ∀ c ∈ l.dropLast, m'.next c = m.next c)
    (prev : ∀ c ∈ l.tail, m'.prev c = m.prev c) : Chain m' l := by
  induction l with
  | nil => exact .nil
  | cons c l ih =>
    cases l with
    | nil => exact .singleton c
    | cons d l =>
      obtain ⟨⟨forth, back⟩, chain⟩ := List.isChain_cons_cons.mp chain
      apply List.isChain_cons_cons.mpr
      constructor
      · exact ⟨(next c (by simp)).trans forth, (prev d (by simp)).trans back⟩
      · apply ih chain
        · intro e member
          exact next e (List.mem_cons_of_mem c member)
        · intro e member
          exact prev e (List.mem_cons_of_mem d member)

/-- A link somewhere else leaves a chain alone. -/
theorem Chain.apart (chain : Chain m l) (next : a ∉ l.dropLast) (prev : b ∉ l.tail) : Chain (m.join a b) l := by
  apply chain.congr
  · intro c member
    exact update_of_ne (ne_of_mem_of_not_mem member next) _ _
  · intro c member
    exact update_of_ne (ne_of_mem_of_not_mem member prev) _ _

theorem Chain.apart_poison (chain : Chain m l) (free : a ∉ l) : Chain (m.poison a) l := by
  apply chain.congr
  · intro c member
    exact update_of_ne (ne_of_mem_of_not_mem (List.dropLast_subset l member) free) _ _
  · intro c member
    exact update_of_ne (ne_of_mem_of_not_mem (List.mem_of_mem_tail member) free) _ _

omit [DecidableEq ι] in
theorem not_mem_dropLast_of_nodup (nodup : l.Nodup) (last : a ∈ l.getLast?) : a ∉ l.dropLast := by
  rw [← List.dropLast_append_getLast? a last, List.nodup_append] at nodup
  exact fun member => nodup.2.2 a member a (by simp) rfl

omit [DecidableEq ι] in
theorem not_mem_tail_of_nodup (nodup : l.Nodup) (first : a ∈ l.head?) : a ∉ l.tail := by
  rw [← List.cons_head?_tail first] at nodup
  exact (List.nodup_cons.mp nodup).1

/-- Two chains become one where the last cell of the first is linked with the first of the second. -/
theorem Chain.join (chain : Chain m l) (chain' : Chain m l') (last : a ∈ l.getLast?) (first : b ∈ l'.head?)
    (nodup : l.Nodup) (nodup' : l'.Nodup) (away : a ∉ l'.dropLast) (away' : b ∉ l.tail) :
    Chain (m.join a b) (l ++ l') := by
  apply List.isChain_append.mpr
  refine ⟨chain.apart (not_mem_dropLast_of_nodup nodup last) away',
    chain'.apart away (not_mem_tail_of_nodup nodup' first), ?_⟩
  intro x last' y first'
  cases Option.mem_unique last last'
  cases Option.mem_unique first first'
  exact ⟨update_self _ _ _, update_self _ _ _⟩

/-! Rings. -/

section
variable {h n : ι} {xs ys la : List ι}

omit [DecidableEq ι] in
/-- A ring that is cut between two of its cells. -/
theorem ring_append_iff : Ring m h (xs ++ ys) ↔ Chain m (h :: xs ++ (ys ++ [h])) := by
  simp [Ring]

omit [DecidableEq ι] in
theorem getLast?_cons_getLastD (xs : List ι) (h : ι) : (h :: xs).getLast? = some (xs.getLastD h) := by
  induction xs generalizing h with
  | nil => rfl
  | cons x xs ih => rw [List.getLast?_cons_cons, ih x, List.getLastD_cons]

omit [DecidableEq ι] in
theorem head?_append_headD (ys : List ι) (h : ι) : (ys ++ [h]).head? = some (ys.headD h) := by
  cases ys <;> rfl

omit [DecidableEq ι] in
/-- Where a ring is cut, the cells beside the cut point at each other. -/
theorem Ring.joined (ring : Ring m h (xs ++ ys)) : Joined m (xs.getLastD h) (ys.headD h) := by
  have parts := List.isChain_append.mp (ring_append_iff.mp ring)
  exact parts.2.2 _ (getLast?_cons_getLastD xs h) _ (head?_append_headD ys h)

omit [DecidableEq ι] in
theorem Ring.next_head (ring : Ring m h l) : m.next h = some (l.headD h) := by
  have joined : Joined m (([] : List ι).getLastD h) (l.headD h) := Ring.joined ring
  exact joined.1

omit [DecidableEq ι] in
theorem Ring.prev_head (ring : Ring m h l) : m.prev h = some (l.getLastD h) := by
  rw [← List.append_nil l] at ring
  exact ring.joined.2

omit [DecidableEq ι] in
theorem Ring.next_of_mem (ring : Ring m h (xs ++ n :: ys)) : m.next n = some (ys.headD h) := by
  rw [List.append_cons] at ring
  simpa only [List.getLastD_concat] using ring.joined.1

omit [DecidableEq ι] in
theorem Ring.prev_of_mem (ring : Ring m h (xs ++ n :: ys)) : m.prev n = some (xs.getLastD h) :=
  ring.joined.2

theorem Ring.apart_poison (ring : Ring m h l) (free : n ∉ h :: l) : Ring (m.poison n) h l := by
  apply Chain.apart_poison ring
  simp_all

omit [DecidableEq ι] in
theorem getLastD_mem (xs : List ι) (h : ι) : xs.getLastD h ∈ h :: xs :=
  List.mem_of_mem_getLast? (getLast?_cons_getLastD xs h)

omit [DecidableEq ι] in
theorem headD_mem (ys : List ι) (h : ι) : ys.headD h ∈ h :: ys := by
  cases ys <;> simp

/-- A cell is linked in between two neighbours. -/
theorem Ring.insert (ring : Ring m h (xs ++ ys)) (nodup : (h :: (xs ++ ys)).Nodup) (free : n ∉ h :: (xs ++ ys)) :
    Ring ((m.join n (ys.headD h)).join (xs.getLastD h) n) h (xs ++ n :: ys) := by
  rw [ring_append_iff] at ring ⊢
  have front := ring.left_of_append
  have back := ring.right_of_append
  have last := getLastD_mem xs h
  have first := headD_mem ys h
  have joined : Chain (m.join n (ys.headD h)) (n :: (ys ++ [h])) := by
    apply Chain.join (.singleton n) back rfl (head?_append_headD ys h)
    all_goals grind
  have kept : Chain (m.join n (ys.headD h)) (h :: xs) := by
    apply Chain.apart front
    · intro member
      have inside := List.dropLast_subset (h :: xs) member
      grind
    · grind
  apply Chain.join kept joined (getLast?_cons_getLastD xs h) rfl
  all_goals grind [List.dropLast_concat]

/-- A cell is taken out, its neighbours are linked, and the cell points nowhere. -/
theorem Ring.erase (ring : Ring m h (xs ++ n :: ys)) (nodup : (h :: (xs ++ n :: ys)).Nodup) :
    Ring ((m.join (xs.getLastD h) (ys.headD h)).poison n) h (xs ++ ys) := by
  rw [ring_append_iff] at ring
  have front := ring.left_of_append
  have back := ring.right_of_append.tail
  have last := getLastD_mem xs h
  have first := headD_mem ys h
  have joined : Ring (m.join (xs.getLastD h) (ys.headD h)) h (xs ++ ys) := by
    rw [ring_append_iff]
    apply Chain.join front back (getLast?_cons_getLastD xs h) (head?_append_headD ys h)
    all_goals grind [List.dropLast_concat]
  apply joined.apart_poison
  grind

/-- The cells of another ring are linked in between two neighbours. -/
theorem Ring.splice {a : ι} (ring : Ring m h (xs ++ ys)) (other : Ring m a la) (filled : la ≠ [])
    (nodup : (h :: (xs ++ la ++ ys)).Nodup) (away : a ∉ h :: (xs ++ la ++ ys)) :
    Ring ((m.join (xs.getLastD h) (la.headD a)).join (la.getLastD a) (ys.headD h)) h (xs ++ la ++ ys) := by
  rw [ring_append_iff] at ring ⊢
  have front := ring.left_of_append
  have back := ring.right_of_append
  have middle : Chain m la := (List.isChain_append.mp other).1.tail
  have last := getLastD_mem xs h
  have first := headD_mem ys h
  have begins : la.head? = some (la.headD a) := by
    cases la <;> simp_all
  have ends : la.getLast? = some (la.getLastD a) := by
    cases la
    · contradiction
    · rw [getLast?_cons_getLastD, List.getLastD_cons]
  have inside := List.mem_of_mem_head? begins
  have inside' := List.mem_of_mem_getLast? ends
  have joined : Chain (m.join (xs.getLastD h) (la.headD a)) (h :: xs ++ la) := by
    apply Chain.join front middle (getLast?_cons_getLastD xs h) begins
    · grind
    · grind
    · intro member
      have inner := List.dropLast_subset la member
      grind
    · grind
  have kept : Chain (m.join (xs.getLastD h) (la.headD a)) (ys ++ [h]) := by
    apply Chain.apart back
    · grind [List.dropLast_concat]
    · intro member
      have behind := List.mem_of_mem_tail member
      grind
  apply Chain.join joined kept _ (head?_append_headD ys h)
  all_goals grind [List.dropLast_concat, List.getLast?_append]

/-- A cell that is initialised as a head has an empty ring. -/
theorem ring_initListHead (m : Links ι) (h : ι) : Ring (m.initListHead h) h [] :=
  List.isChain_pair.mpr ⟨update_self _ _ _, update_self _ _ _⟩

omit [DecidableEq ι] in
theorem Ring.listEmpty_iff [DecidableEq ι] (ring : Ring m h l) (free : h ∉ l) : m.listEmpty h = true ↔ l = [] := by
  unfold Links.listEmpty
  rw [decide_eq_true_eq, ring.next_head]
  cases l <;> grind

/-- Only cells in a set have other pointers than before. -/
def Agree (T : Set ι) (m m' : Links ι) : Prop := ∀ c ∉ T, m'.next c = m.next c ∧ m'.prev c = m.prev c

section
variable {T : Set ι} {m'' : Links ι}

omit [DecidableEq ι] in
theorem Agree.trans (first : Agree T m m') (second : Agree T m' m'') : Agree T m m'' := by
  intro c outside
  obtain ⟨next, prev⟩ := first c outside
  obtain ⟨next', prev'⟩ := second c outside
  exact ⟨next'.trans next, prev'.trans prev⟩

theorem agree_join (m : Links ι) (inside : a ∈ T) (inside' : b ∈ T) : Agree T m (m.join a b) := by
  intro c outside
  constructor
  · exact update_of_ne (ne_of_mem_of_not_mem inside outside).symm _ _
  · exact update_of_ne (ne_of_mem_of_not_mem inside' outside).symm _ _

theorem agree_poison (m : Links ι) (inside : a ∈ T) : Agree T m (m.poison a) := by
  intro c outside
  have other := (ne_of_mem_of_not_mem inside outside).symm
  exact ⟨update_of_ne other _ _, update_of_ne other _ _⟩

theorem agree_initListHead (m : Links ι) (inside : a ∈ T) : Agree T m (m.initListHead a) :=
  agree_join m inside inside

omit [DecidableEq ι] in
/-- A ring with no cell in the set is as before. -/
theorem Ring.of_agree (ring : Ring m h l) (agree : Agree T m m') (outside : ∀ c ∈ h :: l, c ∉ T) : Ring m' h l := by
  apply Chain.congr ring
  · intro c member
    rw [List.dropLast_concat] at member
    exact (agree c (outside c member)).1
  · intro c member
    apply (agree c (outside c _)).2
    simpa [or_comm] using member

end

/-- A loop over a ring meets its cells, one after the other. -/
theorem Ring.listForEach_from (xs ys : List ι) {limit : Nat} (ring : Ring m h (xs ++ ys)) (free : h ∉ ys) (short : ys.length < limit) :
    m.listForEach h limit (some (ys.headD h)) = some ys := by
  induction ys generalizing xs limit with
  | nil =>
    obtain ⟨limit, rfl⟩ := Nat.exists_eq_add_of_lt short
    exact if_pos rfl
  | cons n ys ih =>
    obtain ⟨limit, rfl⟩ : ∃ l, limit = l + 1 := ⟨limit - 1, by omega⟩
    rw [List.mem_cons, not_or] at free
    have rest : m.listForEach h limit (some (ys.headD h)) = some ys :=
      ih (xs ++ [n]) (by simpa using ring) free.2 (by simpa using short)
    rw [List.headD_cons, Links.listForEach, if_neg (Ne.symm free.1), ring.next_of_mem, rest]
    rfl

/-- `list_for_each` over a whole ring. -/
theorem Ring.listForEach {limit : Nat} (ring : Ring m h l) (free : h ∉ l) (short : l.length < limit) :
    m.listForEach h limit (m.next h) = some l := by
  rw [ring.next_head]
  exact Ring.listForEach_from [] l ring free short

end

end

end WebTunnel.Library.Chains
