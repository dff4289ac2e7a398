import WebTunnel.Device.Chunks
import WebTunnel.Library.Occurrences

/-! Where a text occurs in another one, and what a header block of an HTTP message says about its
body. -/

namespace WebTunnel.Device.Texts
open Library.Bytes Library.Occurrences Device.Types Buffers Parsing Chunks

section
variable {needle s : List Byte} {p : Nat}

theorem strstr_eq (needle s : List Byte) : strstr needle s = firstOccurrence needle s := by
  induction s with
  | nil => rfl
  | cons b rest ih => rw [strstr, firstOccurrence, ih]

/-- `strstr` finds the first occurrence. -/
theorem strstr_eq_some_iff : strstr needle s = some p ↔ FirstAt needle s p := by
  rw [strstr_eq, firstOccurrence_eq_some_iff]

theorem strstr_eq_none_iff : strstr needle s = none ↔ ∀ p ≤ s.length, ¬ OccursAt needle s p := by
  rw [strstr_eq, firstOccurrence_eq_none_iff]

theorem firstAt_of_strstr (found : strstr needle s = some p) : FirstAt needle s p := strstr_eq_some_iff.mp found

theorem strstr_isSome_iff : (strstr needle s).isSome ↔ ∃ p ≤ s.length, OccursAt needle s p := by
  rw [Option.isSome_iff_ne_none, ne_eq, strstr_eq_none_iff]
  simp only [not_forall, not_not, exists_prop]

end

/-! Header blocks. -/

def colon : Byte := 0x3a
def comma : Byte := 0x2c

def isBlank (b : Byte) : Bool := b = 0x20 ∨ b = 0x09

/-- A byte more at the beginning of the first line. -/
def push (b : Byte) : List (List Byte) → List (List Byte)
  | [] => [[b]]
  | l :: others => (b :: l) :: others

/-- The lines of a text, which end with a carriage return and a line feed. What begins with a blank
continues the line before it. -/
def lines : List Byte → List (List Byte)
  | [] => [[]]
  | b :: rest =>
    match b, rest with
    | 0x0d, 0x0a :: rest => if rest.head?.any isBlank then push 0x0d (push 0x0a (lines rest)) else [] :: lines rest
    | b, rest => push b (lines rest)

/-- The name and the value in the line of a field. -/
def field (line : List Byte) : Option (List Byte × List Byte) :=
  if colon ∈ line then some (line.takeWhile (· ≠ colon), (line.dropWhile (· ≠ colon)).drop 1) else none

/-- Blanks and the ends of lines that are continued. -/
def isGap (b : Byte) : Bool := isBlank b ∨ b = cr ∨ b = lf

/-- A text without the blanks around it. -/
def trim (s : List Byte) : List Byte := ((s.dropWhile isGap).reverse.dropWhile isGap).reverse

/-- The coding is among those that the value of a field lists. -/
def hasCoding (coding value : List Byte) : Bool :=
  (value.splitOn comma).any fun element => (trim element).map toLower = coding

def isTransferCoding (coding line : List Byte) : Bool :=
  match field line with
  | none => false
  | some (name, value) => name.map toLower = text "transfer-encoding" && hasCoding coding value

/-- A field of the block, which begins a line behind the first one, has the name
`Transfer-Encoding` and lists the coding `chunked`. -/
def DeclaresChunked (header : List Byte) : Prop :=
  ∃ line ∈ (lines header).tail, isTransferCoding (text "chunked") line = true

instance (header : List Byte) : Decidable (DeclaresChunked header) :=
  inferInstanceAs (Decidable (∃ line ∈ (lines header).tail, isTransferCoding (text "chunked") line = true))

/-- The block ends with its first empty line. -/
def HeaderBlock (header : List Byte) : Prop := lrln.length ≤ header.length ∧ FirstAt lrln header (header.length - lrln.length)

section
variable {s line header element : List Byte}

/-- The first line begins the text, and the others lie in it. -/
def LinesIn (s : List Byte) (ls : List (List Byte)) : Prop :=
  ∃ l others, ls = l :: others ∧ l <+: s ∧ ∀ line ∈ others, line <:+: s

theorem LinesIn.push {ls : List (List Byte)} (within : LinesIn s ls) (b : Byte) : LinesIn (b :: s) (push b ls) := by
  obtain ⟨l, others, rfl, first, inside⟩ := within
  exact ⟨b :: l, others, rfl, List.cons_prefix_cons.mpr ⟨rfl, first⟩, fun line member => List.infix_cons (inside line member)⟩

theorem LinesIn.behind {ls : List (List Byte)} (within : LinesIn s ls) (before : List Byte) : LinesIn (before ++ s) ([] :: ls) := by
  obtain ⟨l, others, rfl, first, inside⟩ := within
  have later {line : List Byte} (within : line <:+: s) : line <:+: before ++ s :=
    within.trans (List.suffix_append before s).isInfix
  refine ⟨[], l :: others, rfl, List.nil_prefix, fun line member => ?_⟩
  rcases List.mem_cons.mp member with rfl | member
  · exact later first.isInfix
  · exact later (inside line member)

theorem linesIn_lines (s : List Byte) : LinesIn s (lines s) := by
  fun_induction lines s with
  | case1 => exact ⟨[], [], rfl, List.nil_prefix, by simp⟩
  | case2 rest _ ih => exact (ih.push 0x0a).push 0x0d
  | case3 rest _ ih => exact ih.behind [0x0d, 0x0a]
  | case4 b rest _ ih => exact ih.push b

theorem infix_of_mem_lines (member : line ∈ (lines s).tail) : line <:+: s := by
  obtain ⟨l, others, same, _, inside⟩ := linesIn_lines s
  rw [same] at member
  exact inside line member

/-- What lies between two separators, before the first one or behind the last. -/
theorem linesIn_splitOn (sep : Byte) (s : List Byte) : LinesIn s (s.splitOn sep) := by
  induction s with
  | nil => exact ⟨[], [], List.splitOn_nil sep, List.nil_prefix, by simp⟩
  | cons b rest ih =>
    obtain ⟨l, others, same, first, inside⟩ := id ih
    rw [List.splitOn_cons_eq_if_modifyHead, same]
    split
    next => exact (same ▸ ih).behind [b]
    next => exact (same ▸ ih).push b

theorem infix_of_mem_splitOn {sep : Byte} (member : element ∈ s.splitOn sep) : element <:+: s := by
  obtain ⟨l, others, same, first, inside⟩ := linesIn_splitOn sep s
  rw [same] at member
  rcases List.mem_cons.mp member with rfl | member
  · exact first.isInfix
  · exact inside element member

theorem trim_inside (s : List Byte) : trim s <:+: s := by
  have inner := (List.dropWhile_suffix isGap (l := (s.dropWhile isGap).reverse)).isInfix
  have turned := List.reverse_infix.mpr inner
  rw [List.reverse_reverse] at turned
  exact turned.trans (List.dropWhile_suffix isGap).isInfix

/-- The line of a field is its name, a colon and its value. -/
theorem field_eq {name value : List Byte} (found : field line = some (name, value)) : line = name ++ colon :: value := by
  unfold field at found
  split at found
  next member =>
    cases found
    have rest : line.dropWhile (· ≠ colon) ≠ [] := fun none => by
      rw [List.dropWhile_eq_nil_iff] at none
      simpa using none colon member
    obtain ⟨b, rest', same⟩ := List.exists_cons_of_ne_nil rest
    have first := List.head_dropWhile_not (· ≠ colon) rest
    simp only [same, List.head_cons] at first
    have same' : b = colon := by simpa using first
    conv_lhs => rw [← List.takeWhile_append_dropWhile (p := (· ≠ colon)) (l := line), same, same']
    rw [same, List.drop_one, List.tail_cons]
  next => cases found

/-- The two texts that the device looks for stand in a block that declares the coding. -/
theorem occurs_of_declares (declares : DeclaresChunked header) : ∃ i j, i ≤ j ∧
    OccursAt (text "transfer-encoding:") (header.map toLower) i ∧ OccursAt (text "chunked") (header.map toLower) j := by
  obtain ⟨line, member, coding⟩ := declares
  unfold isTransferCoding at coding
  split at coding
  next => cases coding
  next name value found =>
    obtain ⟨same, listed⟩ := Bool.and_eq_true_iff.mp coding
    obtain ⟨element, among, trimmed⟩ := List.any_eq_true.mp listed
    have same := of_decide_eq_true same
    have trimmed := of_decide_eq_true trimmed
    have inside : text "chunked" <:+: value.map toLower := by
      rw [← trimmed]
      exact ((trim_inside element).trans (infix_of_mem_splitOn among)).map toLower
    obtain ⟨before, after, whole⟩ := infix_of_mem_lines member
    obtain ⟨front, back, value'⟩ := inside
    have block : header.map toLower = before.map toLower ++ text "transfer-encoding:" ++ (front ++ text "chunked" ++
        (back ++ after.map toLower)) := by
      rw [← whole, field_eq found, List.map_append, List.map_append, List.map_append, List.map_cons, same, ← value']
      simp only [List.append_assoc, List.cons_append]
      rfl
    refine ⟨before.length, before.length + (text "transfer-encoding:").length + front.length, by omega, ?_, ?_⟩
    · rw [block]
      have occurs := occursAt_append (text "transfer-encoding:") (before.map toLower) (front ++ text "chunked" ++ (back ++ after.map toLower))
      rwa [List.length_map] at occurs
    · have occurs := occursAt_append (text "chunked") (before.map toLower ++ text "transfer-encoding:" ++ front) (back ++ after.map toLower)
      rw [List.length_append, List.length_append, List.length_map] at occurs
      rw [block]
      simpa only [List.append_assoc] using occurs

/-- What the device finds: the one text, and the other one anywhere behind it. -/
theorem saysChunked_iff : saysChunked header = true ↔ ∃ i j, i ≤ j ∧
    OccursAt (text "transfer-encoding:") (header.map toLower) i ∧ OccursAt (text "chunked") (header.map toLower) j := by
  have name : (text "Transfer-Encoding:").map toLower = text "transfer-encoding:" := by decide
  have coding : (text "chunked").map toLower = text "chunked" := by decide
  unfold saysChunked strcasestr
  rw [name, coding]
  cases found : strstr (text "transfer-encoding:") (header.map toLower) with
  | none =>
    simp only [Bool.false_eq_true, false_iff, not_exists, not_and]
    intro i j _ occurs
    have within := occurs.le (by decide)
    exact absurd occurs (strstr_eq_none_iff.mp found i (by omega))
  | some p =>
    have first := firstAt_of_strstr found
    dsimp only
    rw [List.map_drop, strstr_isSome_iff]
    constructor
    · rintro ⟨q, _, occurs⟩
      refine ⟨p, p + q, Nat.le_add_right _ _, first.2.1, ?_⟩
      rw [OccursAt, List.drop_drop] at occurs
      exact occurs
    · rintro ⟨i, j, order, name, coding⟩
      have least : p ≤ i := Nat.le_of_not_lt fun less => first.2.2 i less name
      have within := coding.le (by decide)
      refine ⟨j - p, by rw [List.length_drop]; omega, ?_⟩
      rw [OccursAt, List.drop_drop, Nat.add_sub_of_le (least.trans order)]
      exact coding

theorem saysChunked_of_declares (declares : DeclaresChunked header) : saysChunked header = true :=
  saysChunked_iff.mpr (occurs_of_declares declares)

end
end WebTunnel.Device.Texts
