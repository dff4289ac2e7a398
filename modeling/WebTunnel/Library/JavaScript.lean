import WebTunnel.Library.Bytes
import WebTunnel.Library.Occurrences

/-! The part of JavaScript's standard library and of Node's `Buffer` that server code
relies on. Texts are sequences of code points. -/

namespace WebTunnel.Library.JavaScript
open Library.Bytes Library.Occurrences

/-- What an uncaught exception was. The last one is none: `Object.prototype` was given a property, which
all objects inherit from then on, those of every library too, and what code does then is not modelled. -/
inductive JsError where
  | typeError
  | referenceError
  | rangeError
  | syntaxError
  | assertionError
  | prototypeChanged
deriving DecidableEq, Repr

abbrev Text := List Char

instance : LawfulBEq Text := inferInstance

/-! UTF-8, with a replacement character for each maximal ill-formed part. -/

def replacement : Char := Char.ofNat 0xFFFD

/-- A character under construction: continuation bytes still due, its bits so far, and
the range the next byte must lie in. -/
structure Pending where
  due : Nat
  code : Nat
  lower : Nat
  upper : Nat

def leadByte (b : Byte) : Text × Option Pending :=
  let n := b.toNat
  if n < 0x80 then ([Char.ofNat n], none)
  else if 0xC2 ≤ n ∧ n ≤ 0xDF then ([], some ⟨1, n % 0x20, 0x80, 0xBF⟩)
  else if 0xE0 ≤ n ∧ n ≤ 0xEF then
    ([], some ⟨2, n % 0x10, if n = 0xE0 then 0xA0 else 0x80, if n = 0xED then 0x9F else 0xBF⟩)
  else if 0xF0 ≤ n ∧ n ≤ 0xF4 then
    ([], some ⟨3, n % 0x08, if n = 0xF0 then 0x90 else 0x80, if n = 0xF4 then 0x8F else 0xBF⟩)
  else ([replacement], none)

def decodeFrom : Option Pending → List Byte → Text
  | none, [] => []
  | some _, [] => [replacement]
  | none, b :: rest => (leadByte b).1 ++ decodeFrom (leadByte b).2 rest
  | some p, b :: rest =>
    if p.lower ≤ b.toNat ∧ b.toNat ≤ p.upper then
      let code := p.code * 0x40 + b.toNat % 0x40
      if p.due ≤ 1 then Char.ofNat code :: decodeFrom none rest
      else decodeFrom (some ⟨p.due - 1, code, 0x80, 0xBF⟩) rest
    else replacement :: ((leadByte b).1 ++ decodeFrom (leadByte b).2 rest)

def decodeUtf8 (bytes : List Byte) : Text := decodeFrom none bytes

def encodeChar (c : Char) : List Byte :=
  let n := c.toNat
  if n < 0x80 then [BitVec.ofNat 8 n]
  else if n < 0x800 then [BitVec.ofNat 8 (0xC0 + n / 0x40), BitVec.ofNat 8 (0x80 + n % 0x40)]
  else if n < 0x10000 then
    [BitVec.ofNat 8 (0xE0 + n / 0x1000), BitVec.ofNat 8 (0x80 + n / 0x40 % 0x40),
      BitVec.ofNat 8 (0x80 + n % 0x40)]
  else
    [BitVec.ofNat 8 (0xF0 + n / 0x40000), BitVec.ofNat 8 (0x80 + n / 0x1000 % 0x40),
      BitVec.ofNat 8 (0x80 + n / 0x40 % 0x40), BitVec.ofNat 8 (0x80 + n % 0x40)]

def encodeUtf8 (text : Text) : List Byte := text.flatMap encodeChar

def byteLength (text : Text) : Nat := (encodeUtf8 text).length

/-! Bytes below 128 stand for themselves. -/

def IsAscii (bytes : List Byte) : Prop := ∀ b ∈ bytes, b.toNat < 0x80

instance (bytes : List Byte) : Decidable (IsAscii bytes) :=
  inferInstanceAs (Decidable (∀ b ∈ bytes, b.toNat < 0x80))

def asciiChar (b : Byte) : Char := Char.ofNat b.toNat

def asciiText (bytes : List Byte) : Text := bytes.map asciiChar

theorem asciiChar_toNat (b : Byte) : (asciiChar b).toNat = b.toNat := by
  have small := b.isLt
  have valid : b.toNat.isValidChar := .inl (by omega)
  rw [asciiChar, Char.toNat, Char.ofNat, dif_pos valid]
  rfl

theorem asciiChar_injective : Function.Injective asciiChar := by
  intro b b' same
  apply BitVec.eq_of_toNat_eq
  rw [← asciiChar_toNat, same, asciiChar_toNat]

theorem IsAscii.append {bytes more : List Byte} : IsAscii (bytes ++ more) ↔ IsAscii bytes ∧ IsAscii more :=
  List.forall_mem_append

theorem asciiText_append (bytes more : List Byte) : asciiText (bytes ++ more) = asciiText bytes ++ asciiText more :=
  List.map_append

theorem asciiText_length (bytes : List Byte) : (asciiText bytes).length = bytes.length := List.length_map ..

theorem decodeUtf8_append {bytes : List Byte} (ascii : IsAscii bytes) (rest : List Byte) :
    decodeUtf8 (bytes ++ rest) = asciiText bytes ++ decodeUtf8 rest := by
  induction bytes with
  | nil => rfl
  | cons b bytes ih =>
    obtain ⟨small, ascii⟩ := List.forall_mem_cons.mp ascii
    have lead : leadByte b = ([asciiChar b], none) := if_pos small
    rw [decodeUtf8, List.cons_append, decodeFrom, lead, ← decodeUtf8, ih ascii]
    rfl

theorem decodeUtf8_ascii {bytes : List Byte} (ascii : IsAscii bytes) : decodeUtf8 bytes = asciiText bytes := by
  have whole := decodeUtf8_append ascii []
  rwa [List.append_nil, decodeUtf8, decodeUtf8, decodeFrom, List.append_nil] at whole

theorem byteLength_asciiText {bytes : List Byte} (ascii : IsAscii bytes) : byteLength (asciiText bytes) = bytes.length := by
  induction bytes with
  | nil => rfl
  | cons b bytes ih =>
    obtain ⟨small, ascii⟩ := List.forall_mem_cons.mp ascii
    have single : encodeChar (asciiChar b) = [BitVec.ofNat 8 b.toNat] := by
      rw [encodeChar, asciiChar_toNat]
      exact if_pos small
    have others := ih ascii
    rw [byteLength, encodeUtf8] at others ⊢
    rw [asciiText, List.map_cons, List.flatMap_cons, single, ← asciiText, List.length_append, others]
    exact Nat.add_comm _ _

/-! Strings. -/

def indexOf (text pattern : Text) : Option Nat :=
  if pattern.isPrefixOf text then some 0
  else match text with
    | [] => none
    | _ :: rest => (indexOf rest pattern).map (· + 1)

theorem indexOf_eq (text pattern : Text) : indexOf text pattern = firstOccurrence pattern text := by
  induction text with
  | nil =>
    rw [indexOf, firstOccurrence]
    exact if_congr (List.isPrefixOf_iff_prefix.trans List.prefix_nil) rfl rfl
  | cons c rest ih => rw [indexOf, firstOccurrence, ih]

/-- `indexOf` finds the first occurrence. -/
theorem indexOf_eq_some_iff {text pattern : Text} {i : Nat} : indexOf text pattern = some i ↔ FirstAt pattern text i := by
  rw [indexOf_eq, firstOccurrence_eq_some_iff]

theorem indexOf_eq_none_iff {text pattern : Text} :
    indexOf text pattern = none ↔ ∀ i ≤ text.length, ¬ OccursAt pattern text i := by
  rw [indexOf_eq, firstOccurrence_eq_none_iff]

def startsWith (text pattern : Text) : Bool := pattern.isPrefixOf text

/-- Pieces between occurrences of `separator`; `skip` characters of the last one are still due. -/
def splitFrom (separator : Text) : Nat → Text → Text → List Text
  | _, piece, [] => [piece.reverse]
  | skip + 1, piece, _ :: rest => splitFrom separator skip piece rest
  | 0, piece, c :: rest =>
    if separator.isPrefixOf (c :: rest) then
      piece.reverse :: splitFrom separator (separator.length - 1) [] rest
    else splitFrom separator 0 (c :: piece) rest

def split (text separator : Text) : List Text := splitFrom separator 0 [] text

/-- The characters a regular expression's `\s` matches. -/
def isSpace (c : Char) : Bool :=
  let n := c.toNat
  (9 ≤ n && n ≤ 13) || n == 0x20 || n == 0xA0 || n == 0x1680 || n == 0x180E ||
    (0x2000 ≤ n && n ≤ 0x200A) || n == 0x2028 || n == 0x2029 || n == 0x202F || n == 0x205F ||
    n == 0x3000 || n == 0xFEFF

def trim (text : Text) : Text :=
  ((text.dropWhile isSpace).reverse.dropWhile isSpace).reverse

def toLowerCase (text : Text) : Text := text.map Char.toLower

def digit (c : Char) : Nat := c.toNat - '0'.toNat

/-- The first match of three digits in a row. -/
def threeDigits : Text → Option Nat
  | a :: b :: c :: rest =>
    if a.isDigit ∧ b.isDigit ∧ c.isDigit then some (digit a * 100 + digit b * 10 + digit c)
    else threeDigits (b :: c :: rest)
  | _ => none

def hexDigit (c : Char) : Option Nat :=
  let n := c.toNat
  if 48 ≤ n ∧ n ≤ 57 then some (n - 48)
  else if 97 ≤ n ∧ n ≤ 102 then some (n - 87)
  else if 65 ≤ n ∧ n ≤ 70 then some (n - 55)
  else none

/-- The longest numeral of the given base the text starts with. -/
def leadingNumeral (base : Nat) : Option Nat → Text → Option Nat
  | acc, [] => acc
  | acc, c :: rest =>
    match hexDigit c with
    | none => acc
    | some d => if d < base then leadingNumeral base (some (acc.getD 0 * base + d)) rest else acc

/-- `parseInt`, where `none` is NaN. -/
def parseInt (text : Text) : Option Int :=
  let body := text.dropWhile isSpace
  let (negative, body) := match body with
    | '-' :: rest => (true, rest)
    | '+' :: rest => (false, rest)
    | _ => (false, body)
  let value := match body with
    | '0' :: 'x' :: rest => leadingNumeral 16 none rest
    | '0' :: 'X' :: rest => leadingNumeral 16 none rest
    | _ => leadingNumeral 10 none body
  value.map fun n => if negative then -(n : Int) else n

def decimal (n : Nat) : Text := Nat.toDigits 10 n

theorem isDigit_decimal (n : Nat) : ∀ c ∈ decimal n, c.isDigit := fun _ member =>
  Nat.isDigit_of_mem_toDigits (by decide) (by decide) member

/-! Base 64. -/

def base64Char (n : Nat) : Char :=
  if n < 26 then Char.ofNat (65 + n)
  else if n < 52 then Char.ofNat (71 + n)
  else if n < 62 then Char.ofNat (n - 4)
  else if n = 62 then '+' else '/'

def encodeBase64 : List Byte → Text
  | a :: b :: c :: rest =>
    let n := a.toNat * 65536 + b.toNat * 256 + c.toNat
    base64Char (n / 262144) :: base64Char (n / 4096 % 64) :: base64Char (n / 64 % 64) ::
      base64Char (n % 64) :: encodeBase64 rest
  | [a, b] =>
    let n := a.toNat * 256 + b.toNat
    [base64Char (n / 1024), base64Char (n / 16 % 64), base64Char (n % 16 * 4), '=']
  | [a] => [base64Char (a.toNat / 4), base64Char (a.toNat % 4 * 16), '=', '=']
  | [] => []

def base64Value (c : Char) : Option Nat :=
  let n := c.toNat
  if 65 ≤ n ∧ n ≤ 90 then some (n - 65)
  else if 97 ≤ n ∧ n ≤ 122 then some (n - 71)
  else if 48 ≤ n ∧ n ≤ 57 then some (n + 4)
  else if c = '+' ∨ c = '-' then some 62
  else if c = '/' ∨ c = '_' then some 63
  else none

def decodeSextets : List Nat → List Byte
  | a :: b :: c :: d :: rest =>
    let n := a * 262144 + b * 4096 + c * 64 + d
    BitVec.ofNat 8 (n / 65536) :: BitVec.ofNat 8 (n / 256) :: BitVec.ofNat 8 n :: decodeSextets rest
  | [a, b, c] =>
    let n := a * 1024 + b * 16 + c / 4
    [BitVec.ofNat 8 (n / 256), BitVec.ofNat 8 n]
  | [a, b] => [BitVec.ofNat 8 (a * 4 + b / 16)]
  | _ => []

/-- Characters outside the alphabet are skipped and `=` ends the data. -/
def decodeBase64 (text : Text) : List Byte :=
  decodeSextets ((text.takeWhile (· ≠ '=')).filterMap base64Value)

theorem base64Value_base64Char : ∀ n < 64, base64Value (base64Char n) = some n := by decide

theorem base64Char_ne_pad : ∀ n < 64, base64Char n ≠ '=' := by decide

/-- The characters of sextets are read back, up to the padding. -/
theorem sextets_base64Char (sextets : List Nat) (small : ∀ n ∈ sextets, n < 64) (rest : Text) :
    ((sextets.map base64Char ++ rest).takeWhile (· ≠ '=')).filterMap base64Value =
      sextets ++ (rest.takeWhile (· ≠ '=')).filterMap base64Value := by
  induction sextets with
  | nil => rfl
  | cons n sextets ih =>
    have bound := small n (by simp)
    rw [List.map_cons, List.cons_append, List.takeWhile_cons_of_pos (by simpa using base64Char_ne_pad n bound),
      List.filterMap_cons_some (base64Value_base64Char n bound), ih fun m member => small m (by simp [member])]
    rfl

theorem ofNat_eq_of_mod {n : Nat} {b : Byte} (same : n % 256 = b.toNat) : BitVec.ofNat 8 n = b := by
  refine BitVec.eq_of_toNat_eq ?_
  rwa [BitVec.toNat_ofNat]

/-- What was encoded is decoded to itself. -/
theorem decodeBase64_encodeBase64 (bytes : List Byte) : decodeBase64 (encodeBase64 bytes) = bytes := by
  fun_induction encodeBase64 bytes with
  | case1 a b c rest n ih =>
    have small : n < 16777216 := by omega
    have read := sextets_base64Char [n / 262144, n / 4096 % 64, n / 64 % 64, n % 64]
      (by simp only [List.mem_cons, List.not_mem_nil, or_false]; omega) (encodeBase64 rest)
    have whole : n / 262144 * 262144 + n / 4096 % 64 * 4096 + n / 64 % 64 * 64 + n % 64 = n := by omega
    rw [decodeBase64] at ih ⊢
    refine (congrArg decodeSextets read).trans ?_
    simp only [List.cons_append, List.nil_append, decodeSextets, ih, whole]
    rw [ofNat_eq_of_mod (b := a) (by omega), ofNat_eq_of_mod (b := b) (by omega), ofNat_eq_of_mod (b := c) (by omega)]
  | case2 a b n =>
    have small : n < 65536 := by omega
    have read := sextets_base64Char [n / 1024, n / 16 % 64, n % 16 * 4]
      (by simp only [List.mem_cons, List.not_mem_nil, or_false]; omega) ['=']
    have whole : n / 1024 * 1024 + n / 16 % 64 * 16 + n % 16 * 4 / 4 = n := by omega
    refine (congrArg decodeSextets read).trans ?_
    simp only [ne_eq, not_true_eq_false, decide_false, Bool.false_eq_true, not_false_eq_true, List.takeWhile_cons_of_neg,
      List.filterMap_nil, List.append_nil, decodeSextets, whole]
    rw [ofNat_eq_of_mod (b := a) (by omega), ofNat_eq_of_mod (b := b) (by omega)]
  | case3 a =>
    have read := sextets_base64Char [a.toNat / 4, a.toNat % 4 * 16]
      (by simp only [List.mem_cons, List.not_mem_nil, or_false]; omega) ['=', '=']
    refine (congrArg decodeSextets read).trans ?_
    simp only [ne_eq, not_true_eq_false, decide_false, Bool.false_eq_true, not_false_eq_true, List.takeWhile_cons_of_neg,
      List.filterMap_nil, List.append_nil, decodeSextets]
    rw [ofNat_eq_of_mod (b := a) (by omega)]
  | case4 => rfl

/-! Buffers. -/

/-- Reading an unsigned big-endian integer; Node asserts that it lies inside the buffer. -/
def readUIntBE (width : Nat) (buffer : List Byte) (offset : Nat) : Except JsError Nat :=
  if offset + width ≤ buffer.length then .ok (natBE ((buffer.drop offset).take width))
  else .error .assertionError

def readUInt8 (buffer : List Byte) (offset : Nat) : Except JsError Nat := readUIntBE 1 buffer offset
def readUInt16BE (buffer : List Byte) (offset : Nat) : Except JsError Nat := readUIntBE 2 buffer offset
def readUInt32BE (buffer : List Byte) (offset : Nat) : Except JsError Nat := readUIntBE 4 buffer offset

/-- Writing an unsigned big-endian integer; Node asserts its range, which NaN fails. -/
def writeUIntBE (width : Nat) (value : Option Int) : Except JsError (List Byte) :=
  match value with
  | none => .error .assertionError
  | some v => if 0 ≤ v ∧ v < 256 ^ width then .ok (bytesBE width v.toNat) else .error .assertionError

def writeUInt8 (value : Option Int) : Except JsError (List Byte) := writeUIntBE 1 value
def writeUInt16BE (value : Option Int) : Except JsError (List Byte) := writeUIntBE 2 value
def writeUInt32BE (value : Option Int) : Except JsError (List Byte) := writeUIntBE 4 value

theorem writeUIntBE_of_lt {k n : Nat} (small : n < 256 ^ k) :
    writeUIntBE k (some n) = .ok (bytesBE k n) := by
  have inRange : (0 : Int) ≤ n ∧ (n : Int) < 256 ^ k := ⟨Int.natCast_nonneg n, by exact_mod_cast small⟩
  rw [writeUIntBE, if_pos inRange, Int.toNat_natCast]

theorem writeUIntBE_of_le {width n : Nat} (large : 256 ^ width ≤ n) :
    writeUIntBE width (some n) = .error .assertionError := by
  have outside : ¬ ((0 : Int) ≤ n ∧ (n : Int) < 256 ^ width) := by
    rintro ⟨_, small⟩
    exact absurd large (Nat.not_le.mpr (by exact_mod_cast small))
  rw [writeUIntBE, if_neg outside]

theorem readUIntBE_of_le {width offset : Nat} {buffer : List Byte}
    (inside : offset + width ≤ buffer.length) :
    readUIntBE width buffer offset = .ok (natBE ((buffer.drop offset).take width)) := if_pos inside

theorem readUIntBE_of_lt {width offset : Nat} {buffer : List Byte}
    (outside : buffer.length < offset + width) :
    readUIntBE width buffer offset = .error .assertionError := if_neg (Nat.not_le.mpr outside)

/-- What was written between `before` and `after` is read back. -/
theorem readUIntBE_bytesBE {k n : Nat} (small : n < 256 ^ k) (before after : List Byte) :
    readUIntBE k (before ++ (bytesBE k n ++ after)) before.length = .ok n := by
  have inside : before.length + k ≤ (before ++ (bytesBE k n ++ after)).length := by
    simp only [List.length_append, bytesBE_length]
    omega
  rw [readUIntBE_of_le inside, List.drop_left, List.take_left' (bytesBE_length k n),
    natBE_bytesBE_of_lt small]

/-- `buffer.slice(start, end)`, both ends clamped to the buffer. -/
def sliceBuffer (buffer : List Byte) (start stop : Nat) : List Byte :=
  (buffer.take stop).drop start

end WebTunnel.Library.JavaScript
