import Mathlib.Data.Int.ModEq
import WebTunnel.Device.Detecting
import WebTunnel.Device.Hosts
import WebTunnel.Server.Rewriting

/-! Where the device sends a browser's request: the address it reads in the header block that the
server has rewritten. -/

namespace WebTunnel.System.Addressing
open Library.Bytes Library.Occurrences Library.JavaScript Function Device.Types
open Device.Buffers hiding decimal
open Device.Parsing Device.Detecting Device.Texts Device.Http Device.Hosts Server.Rewriting

def hostMark : List Byte := text "host:"
def lineEnd : List Byte := text "\r\n"

/-- The first `host:` of a text stands behind `x`, and `line` is the rest of its line. -/
structure Cuts (s x line : List Byte) : Prop where
  host : FirstAt hostMark s x.length
  stands : x ++ hostMark ++ line ++ lineEnd <+: s
  ends : FirstAt lineEnd (line ++ lineEnd) line.length

/-- And there is no zero in front of the end of that line. -/
structure Marks (s x line : List Byte) : Prop extends Cuts s x line where
  nonzero : (0 : Byte) ∉ x ++ line

/-- The line says the host, which stands in front of the first colon among white space, and the port
behind it. Without a colon the port is 80. -/
inductive Names (host : List Byte) (port : Int) : List Byte → Prop
  | address {name number : List Byte} : colon ∉ name → name.filter (¬ Device.Parsing.isSpace ·) = host →
      atoi number ≡ port [ZMOD 2 ^ 16] → Names host port (name ++ colon :: number)
  | plain {line : List Byte} : colon ∉ line → line.filter (¬ Device.Parsing.isSpace ·) = host →
      80 ≡ port [ZMOD 2 ^ 16] → Names host port line

/-- The device reads this host and this port, which it keeps in 16 bits. -/
def Reads (buf host : List Byte) (port : Int) : Prop :=
  ∃ port', getHostFromBuf (cString buf) = .found host port' ∧ port' ≡ port [ZMOD 2 ^ 16]

section
variable {s x y line buf before host : List Byte} {port : Int} {p : Nat}

theorem cString_split (s : List Byte) : ∃ tail, s = cString s ++ tail := (cString_begins s).imp fun _ same => same.symm

/-- What stands in front of the first zero stands in the string. -/
theorem prefix_cString_iff (nonzero : (0 : Byte) ∉ x) : x <+: cString s ↔ x <+: s := by
  constructor
  · exact fun within => within.trans (cString_begins s)
  · rintro ⟨rest, rfl⟩
    rw [cString_append_of_all nonzero]
    exact List.prefix_append x _

theorem marks_cString_iff : Marks (cString s) x line ↔ Marks s x line := by
  have plain : (0 : Byte) ∉ hostMark ∧ (0 : Byte) ∉ lineEnd := by decide
  obtain ⟨tail, whole⟩ := cString_split s
  constructor
  · intro marks
    have within : x.length + hostMark.length ≤ (cString s).length := by
      have length := marks.stands.length_le
      simp only [List.length_append] at length
      omega
    refine ⟨⟨?_, marks.stands.trans (cString_begins s), marks.ends⟩, marks.nonzero⟩
    rw [whole]
    exact (firstAt_append_iff within).mpr marks.host
  · intro marks
    have nonzero : (0 : Byte) ∉ x ++ hostMark ++ line ++ lineEnd := by
      have inside := marks.nonzero
      simp only [List.mem_append, not_or] at inside ⊢
      exact ⟨⟨⟨inside.1, plain.1⟩, inside.2⟩, plain.2⟩
    have stands := (prefix_cString_iff nonzero).mpr marks.stands
    have within : x.length + hostMark.length ≤ (cString s).length := by
      have length := stands.length_le
      simp only [List.length_append] at length
      omega
    have host := marks.host
    rw [whole] at host
    exact ⟨⟨(firstAt_append_iff within).mp host, stands, marks.ends⟩, marks.nonzero⟩

/-- What `strstr` finds cuts a text in three. -/
theorem strstr_cuts {needle : List Byte} (found : strstr needle s = some p) :
    ∃ rest, s = s.take p ++ needle ++ rest ∧ (s.take p).length = p ∧ FirstAt needle (s.take p ++ needle) p := by
  have first := firstAt_of_strstr found
  obtain ⟨rest, behind⟩ := first.2.1
  have length : (s.take p).length = p := List.length_take_of_le first.1
  have cut : s = s.take p ++ needle ++ rest := by
    rw [List.append_assoc, behind, List.take_append_drop]
  refine ⟨rest, cut, length, ?_⟩
  rw [cut] at first
  exact (firstAt_append_iff (by rw [List.length_append, length])).mp first

theorem hostLine_iff (nonzero : (0 : Byte) ∉ s) : hostLine s = some line ↔ ∃ x, Marks s x line := by
  have width : hostMark.length = 5 := rfl
  constructor
  · intro found
    obtain ⟨p, host, found⟩ := Option.bind_eq_some_iff.mp found
    obtain ⟨q, ends, found⟩ := Option.bind_eq_some_iff.mp found
    cases found
    obtain ⟨rest, cut, length, first⟩ := strstr_cuts host
    have behind : s.drop (p + 5) = rest := by
      rw [cut]
      apply List.drop_left'
      rw [List.length_append, length]
      rfl
    rw [behind] at ends ⊢
    obtain ⟨rest', cut', length', first'⟩ := strstr_cuts ends
    have whole : s = s.take p ++ hostMark ++ rest.take q ++ lineEnd ++ rest' := by
      calc s
        _ = s.take p ++ hostMark ++ rest := cut
        _ = s.take p ++ hostMark ++ (rest.take q ++ lineEnd ++ rest') := by rw [lineEnd, ← cut']
        _ = _ := by simp only [List.append_assoc]
    refine ⟨s.take p, ⟨?_, ⟨rest', whole.symm⟩, ?_⟩, ?_⟩
    · rw [length]
      exact firstAt_of_strstr host
    · rw [length']
      exact first'
    · intro member
      apply nonzero
      rw [whole]
      simp only [List.mem_append] at member ⊢
      tauto
  · rintro ⟨x, marks⟩
    obtain ⟨rest, whole⟩ := marks.stands
    have host : strstr (text "host:") s = some x.length := strstr_eq_some_iff.mpr marks.host
    have behind : s.drop (x.length + 5) = line ++ lineEnd ++ rest := by
      rw [← whole]
      simp only [List.append_assoc]
      rw [← List.append_assoc x]
      apply List.drop_left'
      rw [List.length_append]
      rfl
    have ends : strstr (text "\r\n") (line ++ lineEnd ++ rest) = some line.length := by
      apply strstr_eq_some_iff.mpr
      exact FirstAt.append marks.ends (by decide) rest
    have front : (line ++ lineEnd ++ rest).take line.length = line := by
      rw [List.append_assoc]
      exact List.take_left
    rw [hostLine, host]
    simp only [Option.bind_eq_bind, Option.bind_some, behind, ends, front, Option.pure_def]

/-! The address in a line. -/

theorem strstr_colon_of_not_mem (plain : colon ∉ line) : strstr (text ":") line = none := by
  rw [strstr_eq_none_iff]
  intro p _ occurs
  have member : colon ∈ line.drop p := occurs.subset List.mem_cons_self
  exact plain (List.mem_of_mem_drop member)

theorem strstr_colon {name : List Byte} (plain : colon ∉ name) (number : List Byte) :
    strstr (text ":") (name ++ colon :: number) = some name.length := by
  rw [strstr_eq_some_iff]
  refine ⟨by simp, ?_, ?_⟩
  · rw [OccursAt, List.drop_left]
    exact ⟨number, rfl⟩
  · intro q before occurs
    rw [OccursAt, List.drop_append_of_le_length before.le] at occurs
    obtain ⟨rest, same⟩ := occurs
    obtain ⟨b, others, some⟩ := List.exists_cons_of_length_pos (show 0 < (name.drop q).length by rw [List.length_drop]; omega)
    rw [some] at same
    have first : colon = b := (List.cons.inj same).1
    apply plain
    apply List.mem_of_mem_drop (i := q)
    rw [some, first]
    exact List.mem_cons_self

theorem toInt16_modEq (n : Int) : toInt16 n ≡ n [ZMOD 2 ^ 16] := by
  unfold toInt16 Int.ModEq
  omega

/-- What `get_host_from_buf` makes of a line. -/
def address (line : List Byte) : List Byte × Int :=
  match strstr (text ":") line with
  | some r => ((line.take r).filter (¬ Device.Parsing.isSpace ·), toInt16 (atoi (line.drop (r + 1))))
  | none => (line.filter (¬ Device.Parsing.isSpace ·), 80)

theorem getHostFromBuf_eq_found {port' : Int} : getHostFromBuf buf = .found host port' ↔
    ∃ line, hostLine buf = some line ∧ line.length < 128 ∧ address line = (host, port') := by
  rw [getHostFromBuf, hostLine]
  cases strstr (text "host:") buf with
  | none => simp
  | some p =>
    simp only [Option.bind_eq_bind, Option.bind_some]
    cases strstr (text "\r\n") (buf.drop (p + 5)) with
    | none => simp
    | some q =>
      simp only [Option.bind_some, Option.pure_def, Option.some.injEq, exists_eq_left']
      generalize (buf.drop (p + 5)).take q = line
      split
      next long => simp [Nat.not_lt.mpr long]
      next short =>
        rw [address]
        cases strstr (text ":") line <;> simp [Nat.lt_of_not_le short]

theorem address_of_not_mem (plain : colon ∉ line) : address line = (line.filter (¬ Device.Parsing.isSpace ·), 80) := by
  rw [address, strstr_colon_of_not_mem plain]

theorem address_colon {name : List Byte} (plain : colon ∉ name) (number : List Byte) :
    address (name ++ colon :: number) = (name.filter (¬ Device.Parsing.isSpace ·), toInt16 (atoi number)) := by
  have behind : (name ++ colon :: number).drop (name.length + 1) = number := by
    rw [← List.singleton_append, ← List.append_assoc]
    apply List.drop_left'
    rw [List.length_append, List.length_singleton]
  rw [address, strstr_colon plain]
  simp only [List.take_left, behind]

theorem names_iff : Names host port line ↔ (address line).1 = host ∧ (address line).2 ≡ port [ZMOD 2 ^ 16] := by
  constructor
  · intro names
    cases names with
    | address plain name same =>
      rw [address_colon plain]
      exact ⟨name, (toInt16_modEq _).trans same⟩
    | plain plain name same =>
      rw [address_of_not_mem plain]
      exact ⟨name, same⟩
  · rintro ⟨name, same⟩
    by_cases member : colon ∈ line
    · obtain ⟨front, number, rfl, plain⟩ := List.eq_append_cons_of_mem member
      rw [address_colon plain] at name same
      exact .address plain name ((toInt16_modEq _).symm.trans same)
    · rw [address_of_not_mem member] at name same
      exact .plain member name same

/-- A name that fits is read off the line behind the first `host:`. -/
theorem reads_iff : Reads buf host port ↔ ∃ x line, Marks buf x line ∧ line.length < 128 ∧ Names host port line := by
  have nonzero : (0 : Byte) ∉ cString buf := not_mem_cString buf
  constructor
  · rintro ⟨port', found, same⟩
    obtain ⟨line, here, short, reads⟩ := getHostFromBuf_eq_found.mp found
    obtain ⟨x, marks⟩ := (hostLine_iff nonzero).mp here
    refine ⟨x, line, marks_cString_iff.mp marks, short, ?_⟩
    rw [names_iff, reads]
    exact ⟨rfl, same⟩
  · rintro ⟨x, line, marks, short, names⟩
    obtain ⟨name, same⟩ := names_iff.mp names
    have here := (hostLine_iff nonzero).mpr ⟨x, marks_cString_iff.mpr marks⟩
    exact ⟨(address line).2, getHostFromBuf_eq_found.mpr ⟨line, here, short, Prod.ext name rfl⟩, same⟩

/-! Where the first `host:` is found. -/

theorem Cuts.unique {x' line' : List Byte} (cuts : Cuts s x line) (other : Cuts s x' line') : x = x' ∧ line = line' := by
  have same : x.length = x'.length := cuts.host.unique other.host
  obtain ⟨rest, whole⟩ := cuts.stands
  obtain ⟨rest', whole'⟩ := other.stands
  have both : x ++ (hostMark ++ line ++ lineEnd ++ rest) = x' ++ (hostMark ++ line' ++ lineEnd ++ rest') := by
    simp only [List.append_assoc] at whole whole' ⊢
    exact whole.trans whole'.symm
  obtain ⟨front, behind⟩ := List.append_inj both same
  have lines : (line ++ lineEnd) ++ rest = (line' ++ lineEnd) ++ rest' := by
    simp only [List.append_assoc] at behind ⊢
    exact List.append_cancel_left behind
  have first := cuts.ends.append (by decide) rest
  rw [lines] at first
  have length : line.length = line'.length := first.unique (other.ends.append (by decide) rest')
  refine ⟨front, ?_⟩
  rw [List.append_assoc, List.append_assoc] at lines
  exact (List.append_inj lines length).1

theorem Cuts.append (cuts : Cuts s x line) (rest : List Byte) : Cuts (s ++ rest) x line where
  host := cuts.host.append (by decide) rest
  stands := cuts.stands.trans (List.prefix_append s rest)
  ends := cuts.ends

theorem marks_append_iff (cuts : Cuts s x line) {x' line' : List Byte} (rest : List Byte) :
    Marks (s ++ rest) x' line' ↔ Marks s x' line' := by
  constructor
  · intro marks
    obtain ⟨rfl, rfl⟩ := marks.toCuts.unique (cuts.append rest)
    exact ⟨cuts, marks.nonzero⟩
  · intro marks
    exact ⟨marks.toCuts.append rest, marks.nonzero⟩

/-- `host:` does not reach into the end of a line. -/
theorem suffix_of_mark {rest : List Byte} (split : x ++ hostMark ++ rest = s ++ lineEnd) : lineEnd <:+ rest := by
  have within : rest <:+ s ++ lineEnd := ⟨x ++ hostMark, split⟩
  have longer : hostMark ++ rest <:+ s ++ lineEnd := ⟨x, by rw [← List.append_assoc, split]⟩
  have ending : lineEnd <:+ s ++ lineEnd := List.suffix_append s lineEnd
  rcases List.suffix_or_suffix_of_suffix ending within with inside | short
  · exact inside
  · have reaches : lineEnd <:+ hostMark ++ rest := by
      apply List.suffix_of_suffix_length_le ending longer
      rw [List.length_append]
      exact le_add_right (by decide)
    have cases : rest = lineEnd ∨ rest = [0x0a] ∨ rest = [] := by
      simpa [lineEnd, text, List.suffix_cons_iff] using short
    rcases cases with rfl | rfl | rfl
    · exact List.suffix_refl _
    · exact absurd reaches (by decide)
    · exact absurd reaches (by decide)

theorem strstr_ne_none {needle : List Byte} (occurs : needle <:+: s) (some : needle ≠ []) : strstr needle s ≠ none := by
  obtain ⟨before, after, rfl⟩ := occurs
  have here := occursAt_append needle before after
  have within := here.le some
  rw [strstr_eq]
  exact firstOccurrence_ne_none (by omega) here

/-- A text that ends a line is cut where `host:` occurs in it. -/
theorem exists_cuts (occurs : hostMark <:+: s ++ lineEnd) : ∃ x line, Cuts (s ++ lineEnd) x line := by
  obtain ⟨p, host⟩ := Option.ne_none_iff_exists'.mp (strstr_ne_none occurs (by decide))
  obtain ⟨rest, cut, length, first⟩ := strstr_cuts host
  have ending := (suffix_of_mark cut.symm).isInfix
  obtain ⟨q, ends⟩ := Option.ne_none_iff_exists'.mp (strstr_ne_none ending (by decide))
  obtain ⟨rest', cut', length', first'⟩ := strstr_cuts ends
  refine ⟨(s ++ lineEnd).take p, rest.take q, ?_, ⟨rest', ?_⟩, ?_⟩
  · rw [length]
    exact firstAt_of_strstr host
  · rw [List.append_assoc, List.append_assoc, List.append_assoc, ← List.append_assoc (rest.take q), ← cut', ← List.append_assoc,
      ← cut]
  · rw [length']
    exact first'

/-- Behind a text in which `host:` does not occur. -/
theorem cuts_of_absent (absent : ¬ hostMark <:+: s ++ lineEnd) (ends : FirstAt lineEnd (line ++ lineEnd) line.length)
    (rest : List Byte) : Cuts (s ++ lineEnd ++ hostMark ++ line ++ lineEnd ++ rest) (s ++ lineEnd) line := by
  refine ⟨?_, List.prefix_append _ rest, ends⟩
  have here : OccursAt hostMark (s ++ lineEnd ++ hostMark) (s ++ lineEnd).length := by
    simpa using occursAt_append hostMark (s ++ lineEnd) []
  have first : FirstAt hostMark (s ++ lineEnd ++ hostMark) (s ++ lineEnd).length := by
    refine ⟨by simp, here, ?_⟩
    intro q before occurs
    by_cases inside : q + hostMark.length ≤ (s ++ lineEnd).length
    · apply absent
      exact ((occursAt_append_iff inside).mp occurs).isInfix.trans (List.drop_suffix q _).isInfix
    · rw [OccursAt, List.drop_append_of_le_length before.le] at occurs
      have front : (s ++ lineEnd).drop q <+: hostMark := by
        apply List.prefix_of_prefix_length_le (List.prefix_append _ hostMark) occurs
        rw [List.length_drop]
        omega
      have last : (0x0a : Byte) ∈ (s ++ lineEnd).drop q := by
        have apart : s ++ lineEnd = (s ++ [0x0d]) ++ [0x0a] := by
          rw [List.append_assoc]
          rfl
        rw [apart, List.length_append, List.length_singleton] at before
        rw [apart, List.drop_append_of_le_length (by omega)]
        exact List.mem_append_right _ (List.mem_singleton_self _)
      exact absurd (front.subset last) (by decide)
  have whole : s ++ lineEnd ++ hostMark ++ line ++ lineEnd ++ rest = s ++ lineEnd ++ hostMark ++ (line ++ lineEnd ++ rest) := by
    simp only [List.append_assoc]
  rw [whole]
  exact first.append (by decide) _

end

/-! The host that the device has named. -/

/-- A host has no colon and no white space. -/
def PlainHost (host : Text) : Prop := ∀ c ∈ host, c ≠ ':' ∧ c ≠ ' ' ∧ ¬ (0x09 ≤ c.toNat ∧ c.toNat ≤ 0x0d)

instance (host : Text) : Decidable (PlainHost host) :=
  List.decidableBAll (fun c => c ≠ ':' ∧ c ≠ ' ' ∧ ¬ (0x09 ≤ c.toNat ∧ c.toNat ≤ 0x0d)) host

/-- The line of the host, as the server writes it. -/
def hostBytes (conn : Address) : List Byte := 0x20 :: encodeUtf8 (hostField conn)

section
variable {conn : Address} {host first second : Text} {b : Byte} {c : Char}

theorem encodeUtf8_append : encodeUtf8 (first ++ second) = encodeUtf8 first ++ encodeUtf8 second := List.flatMap_append

theorem encodeChar_ascii (ascii : c.toNat < 0x80) : encodeChar c = [BitVec.ofNat 8 c.toNat] := by
  rw [encodeChar, if_pos ascii]

/-- A byte below 128 stands for itself. -/
theorem toNat_of_mem_encodeChar (member : b ∈ encodeChar c) (ascii : b.toNat < 0x80) : c.toNat = b.toNat := by
  have most : c.toNat < 0x110000 := by
    have valid := c.valid
    have same : c.toNat = c.val.toNat := rfl
    rcases valid with low | high
    · omega
    · omega
  rw [encodeChar] at member
  split_ifs at member
  case pos =>
    rw [List.mem_singleton.mp member, BitVec.toNat_ofNat]
    omega
  all_goals
    simp only [List.mem_cons, List.not_mem_nil, or_false] at member
    rcases member with rfl | rfl | rfl | rfl <;> (simp only [BitVec.toNat_ofNat] at ascii; omega)

theorem not_mem_of_plainHost (plain : PlainHost host) : colon ∉ encodeUtf8 host := by
  intro member
  obtain ⟨c, within, inside⟩ := List.mem_flatMap.mp member
  have code := toNat_of_mem_encodeChar inside (by decide)
  apply (plain c within).1
  exact Char.toNat_inj.mp code

theorem filter_of_plainHost (plain : PlainHost host) :
    (encodeUtf8 host).filter (¬ Device.Parsing.isSpace ·) = encodeUtf8 host := by
  rw [List.filter_eq_self]
  intro b member
  obtain ⟨c, within, inside⟩ := List.mem_flatMap.mp member
  obtain ⟨_, blank, control⟩ := plain c within
  rw [decide_eq_true_eq, Device.Parsing.isSpace, decide_eq_true_eq]
  rintro (rfl | range)
  · have code := toNat_of_mem_encodeChar inside (by decide)
    exact blank (Char.toNat_inj.mp code)
  · have range : 0x09 ≤ b.toNat ∧ b.toNat ≤ 0x0d := range
    have code := toNat_of_mem_encodeChar inside (by omega)
    apply control
    rwa [code]

/-! The port, in digits. -/

def digitBytes (digits : List Char) : List Byte := digits.map fun c => BitVec.ofNat 8 c.toNat

theorem toNat_of_isDigit (digit : c.isDigit) : 0x30 ≤ c.toNat ∧ c.toNat ≤ 0x39 := by
  simpa [Char.isDigit, UInt32.le_iff_toNat_le] using digit

theorem encodeUtf8_digits {digits : List Char} (all : ∀ c ∈ digits, c.isDigit) : encodeUtf8 digits = digitBytes digits := by
  rw [encodeUtf8, digitBytes, List.map_eq_flatMap]
  apply List.flatMap_congr
  intro c member
  have range := toNat_of_isDigit (all c member)
  exact encodeChar_ascii (by omega)

theorem foldl_digitBytes {digits : List Char} (all : ∀ c ∈ digits, c.isDigit) (n : Nat) :
    (digitBytes digits).foldl (fun n b => n * 10 + (b.toNat - 0x30)) n = Nat.ofDigitChars 10 digits n := by
  induction digits generalizing n with
  | nil => rfl
  | cons c rest ih =>
    obtain ⟨digit, others⟩ := List.forall_mem_cons.mp all
    have range := toNat_of_isDigit digit
    have code : (BitVec.ofNat 8 c.toNat).toNat = c.toNat := by
      rw [BitVec.toNat_ofNat]
      omega
    have zero : '0'.toNat = 0x30 := rfl
    rw [digitBytes, List.map_cons, List.foldl_cons, ← digitBytes, ih others, Nat.ofDigitChars_cons, code, zero, Nat.mul_comm n]

theorem strtol_digitBytes {digits : List Char} (all : ∀ c ∈ digits, c.isDigit) :
    strtol (digitBytes digits) = min (Nat.ofDigitChars 10 digits 0 : Int) (2 ^ 63 - 1) := by
  have range : ∀ b ∈ digitBytes digits, 0x30 ≤ b ∧ b ≤ 0x39 := by
    intro b member
    obtain ⟨c, within, rfl⟩ := List.mem_map.mp member
    have range := toNat_of_isDigit (all c within)
    have code : (BitVec.ofNat 8 c.toNat).toNat = c.toNat := by
      rw [BitVec.toNat_ofNat]
      omega
    rw [BitVec.le_def, BitVec.le_def, code]
    exact range
  have digits' : (digitBytes digits).takeWhile (fun b => 0x30 ≤ b ∧ b ≤ 0x39) = digitBytes digits := by
    rw [List.takeWhile_eq_self_iff]
    intro b member
    exact decide_eq_true (range b member)
  rw [← foldl_digitBytes all, strtol]
  cases bytes : digitBytes digits with
  | nil => rfl
  | cons b rest =>
    have first : 0x30 ≤ b.toNat ∧ b.toNat ≤ 0x39 := range b (bytes ▸ List.mem_cons_self)
    have solid : Device.Parsing.isSpace b = false := by
      rw [Device.Parsing.isSpace, decide_eq_false_iff_not]
      rintro (rfl | space)
      · exact absurd first.1 (by decide)
      · have space : 0x09 ≤ b.toNat ∧ b.toNat ≤ 0x0d := space
        omega
    rw [List.dropWhile_cons_of_neg (by simp [solid]), ← bytes]
    dsimp only
    split
    next minus =>
      obtain rfl := (List.cons.inj (bytes.symm.trans minus)).1
      exact absurd first.1 (by decide)
    next plus =>
      obtain rfl := (List.cons.inj (bytes.symm.trans plus)).1
      exact absurd first.1 (by decide)
    next => rw [digits', if_neg Bool.false_ne_true]

/-- A number that a `long` holds keeps its last bits. -/
theorem atoi_decimal {n : Nat} (fits : n < 2 ^ 63) : atoi (encodeUtf8 (decimal n)) ≡ n [ZMOD 2 ^ 16] := by
  have read : strtol (encodeUtf8 (decimal n)) = n := by
    rw [encodeUtf8_digits (isDigit_decimal n), strtol_digitBytes (isDigit_decimal n), decimal, Nat.ofDigitChars_ten_toDigits]
    omega
  rw [atoi, read, toInt32, toUnsigned, Int.ModEq]
  split <;> omega

theorem encodeUtf8_hostField (conn : Address) : encodeUtf8 (hostField conn) =
    if conn.port = 80 then encodeUtf8 conn.host else encodeUtf8 conn.host ++ colon :: encodeUtf8 (decimal conn.port) := by
  have mark : encodeUtf8 ":".toList = [colon] := by decide
  rw [hostField]
  split
  · rfl
  · rw [encodeUtf8_append, encodeUtf8_append, mark, List.append_assoc, List.singleton_append]

/-- The line names the device's host and port. -/
theorem names_hostBytes (plain : PlainHost conn.host) (fits : conn.port < 2 ^ 63) : Names (encodeUtf8 conn.host) conn.port (hostBytes conn) := by
  have front : colon ∉ 0x20 :: encodeUtf8 conn.host := by
    rw [List.mem_cons, not_or]
    exact ⟨by decide, not_mem_of_plainHost plain⟩
  have name : (0x20 :: encodeUtf8 conn.host).filter (¬ Device.Parsing.isSpace ·) = encodeUtf8 conn.host := by
    rw [List.filter_cons_of_neg (by decide)]
    exact filter_of_plainHost plain
  rw [hostBytes, encodeUtf8_hostField]
  split
  next eighty =>
    apply Names.plain front name
    rw [eighty]
    rfl
  next =>
    exact .address front name (atoi_decimal fits)

theorem return_not_mem_hostBytes (plain : PlainHost conn.host) : (0x0d : Byte) ∉ hostBytes conn := by
  have host : (0x0d : Byte) ∉ encodeUtf8 conn.host := by
    intro member
    rw [← filter_of_plainHost plain] at member
    have solid := List.of_mem_filter member
    exact absurd solid (by decide)
  have port : (0x0d : Byte) ∉ encodeUtf8 (decimal conn.port) := by
    intro member
    obtain ⟨c, within, inside⟩ := List.mem_flatMap.mp member
    have code := toNat_of_mem_encodeChar inside (by decide)
    have range := toNat_of_isDigit (isDigit_decimal conn.port c within)
    rw [code] at range
    exact absurd range.1 (by decide)
  rw [hostBytes, encodeUtf8_hostField, List.mem_cons, not_or]
  refine ⟨by decide, ?_⟩
  split
  · exact host
  · rw [List.mem_append, List.mem_cons, not_or, not_or]
    exact ⟨host, by decide, port⟩

theorem firstAt_lineEnd {line : List Byte} (plain : (0x0d : Byte) ∉ line) : FirstAt lineEnd (line ++ lineEnd) line.length := by
  refine ⟨by simp, ?_, ?_⟩
  · rw [OccursAt, List.drop_left]
  · intro q before occurs
    rw [OccursAt, List.drop_append_of_le_length before.le] at occurs
    obtain ⟨rest, same⟩ := occurs
    obtain ⟨b, others, some⟩ := List.exists_cons_of_length_pos (show 0 < (line.drop q).length by rw [List.length_drop]; omega)
    rw [some] at same
    have first : 0x0d = b := (List.cons.inj same).1
    apply plain
    apply List.mem_of_mem_drop (i := q)
    rw [some, first]
    exact List.mem_cons_self

end

/-! The block as the device reads it. -/

/-- The bytes in front of the host. -/
def frontBytes (conn : Address) (req : Request) : List Byte := encodeUtf8 (front conn req)

/-- There is no other `host:` in front of the host, and no zero, and its line fits. -/
def Alone (conn : Address) (req : Request) : Prop :=
  ¬ hostMark <:+: frontBytes conn req ∧ (0 : Byte) ∉ frontBytes conn req ++ hostBytes conn ∧ (hostBytes conn).length < 128

/-- Another `host:` in front of the host is followed by the same host and port. -/
def Echoed (conn : Address) (req : Request) : Prop :=
  ∃ x line, Marks (frontBytes conn req) x line ∧ line.length < 128 ∧ Names (encodeUtf8 conn.host) conn.port line

section
variable {conn : Address} {req : Request} {buf : List Byte}

theorem encodeUtf8_strHeader (conn : Address) (req : Request) : ∃ s back, frontBytes conn req = s ++ lineEnd ∧
    encodeUtf8 (strHeader conn req) = s ++ lineEnd ++ hostMark ++ hostBytes conn ++ lineEnd ++ back := by
  obtain ⟨back, block⟩ := strHeader_eq conn req
  obtain ⟨s, ends⟩ := front_ends conn req
  have line : encodeUtf8 "\r\n".toList = lineEnd := by decide
  have mark : encodeUtf8 "host: ".toList = hostMark ++ [0x20] := by decide
  have whole : frontBytes conn req = encodeUtf8 s ++ lineEnd := by rw [frontBytes, ends, encodeUtf8_append, line]
  refine ⟨encodeUtf8 s, encodeUtf8 back, whole, ?_⟩
  rw [← whole, block]
  simp only [encodeUtf8_append, mark, line, frontBytes, hostBytes, List.append_assoc, List.cons_append, List.nil_append]

/-- The device reads the host and the port that it has named itself if and only if no other `host:`
stands in front of the host, nor a zero, and the line fits, or another one is followed by the same. -/
theorem addressed_iff (plain : PlainHost conn.host) (fits : conn.port < 2 ^ 63) (whole : encodeUtf8 (strHeader conn req) <+: buf) :
    Reads buf (encodeUtf8 conn.host) conn.port ↔ Alone conn req ∨ Echoed conn req := by
  obtain ⟨rest, rfl⟩ := whole
  obtain ⟨s, back, front, block⟩ := encodeUtf8_strHeader conn req
  have ends := firstAt_lineEnd (return_not_mem_hostBytes plain)
  rw [reads_iff, block, Alone, Echoed, front]
  by_cases occurs : hostMark <:+: s ++ lineEnd
  · obtain ⟨x, line, cuts⟩ := exists_cuts occurs
    rw [or_iff_right fun alone => alone.1 occurs]
    simp only [List.append_assoc _ _ rest, List.append_assoc (s ++ lineEnd), marks_append_iff cuts]
  · have cuts := cuts_of_absent occurs ends (back ++ rest)
    rw [← List.append_assoc] at cuts
    constructor
    · rintro ⟨x, line, marks, short, _⟩
      obtain ⟨rfl, rfl⟩ := marks.toCuts.unique cuts
      exact .inl ⟨occurs, marks.nonzero, short⟩
    · rintro (⟨_, nonzero, short⟩ | ⟨x, line, marks, _⟩)
      · exact ⟨_, _, ⟨cuts, nonzero⟩, short, names_hostBytes plain fits⟩
      · apply absurd _ occurs
        obtain ⟨tail, stands⟩ := marks.stands
        refine ⟨x, line ++ lineEnd ++ tail, ?_⟩
        rw [← stands]
        simp only [List.append_assoc]

end

/-- A device in a LAN. -/
def camera : Address := ⟨"192.168.1.5".toList, 8080⟩

/-- A request that came through a proxy. -/
def forwarded : Request where
  method := "GET".toList
  url := "/".toList
  headers := [("x-forwarded-host".toList, "10.0.0.9".toList), ("host".toList, "device.example.com".toList)]

theorem addressed_iff_forwarded :
    Reads (encodeUtf8 (strHeader camera forwarded)) (encodeUtf8 camera.host) camera.port ↔
      Alone camera forwarded ∨ Echoed camera forwarded :=
  addressed_iff (by decide) (by decide) (List.prefix_refl _)

deriving instance DecidableEq for HostHeader

/-- The device takes the name of another field for that of the host. -/
theorem forwarded_misread :
    ¬ ∀ (conn : Address) (req : Request) (buf : List Byte), PlainHost conn.host → conn.host.length ≤ 100 →
      1 ≤ conn.port → conn.port ≤ 65535 → encodeUtf8 (strHeader conn req) <+: buf →
      Reads buf (encodeUtf8 conn.host) conn.port := by
  intro always
  obtain ⟨port, found, _⟩ := always camera forwarded _ (by decide) (by decide) (by decide) (by decide) (List.prefix_refl _)
  have other : getHostFromBuf (cString (encodeUtf8 (strHeader camera forwarded))) = .found (text "10.0.0.9") 80 := by
    decide +kernel
  have same : encodeUtf8 camera.host = text "10.0.0.9" := (HostHeader.found.inj (found.symm.trans other)).1
  exact absurd same (by decide)

end WebTunnel.System.Addressing
