import WebTunnel.Library.Json

/-! `JSON.stringify` of flat objects, and that `JSON.parse` reads back what it writes. -/

namespace WebTunnel.Library.Stringify
open Library.JavaScript Library.Json

/-- How a character stands in a string literal. -/
def escapeChar (c : Char) : Text :=
  if c = '"' then ['\\', '"']
  else if c = '\\' then ['\\', '\\']
  else if c.toNat = 8 then ['\\', 'b']
  else if c.toNat = 9 then ['\\', 't']
  else if c.toNat = 10 then ['\\', 'n']
  else if c.toNat = 12 then ['\\', 'f']
  else if c.toNat = 13 then ['\\', 'r']
  else if c.toNat < 0x20 then ['\\', 'u', '0', '0', Nat.digitChar (c.toNat / 16), Nat.digitChar (c.toNat % 16)]
  else [c]

def quote (text : Text) : Text := '"' :: text.flatMap escapeChar ++ ['"']

/-- A field's value that holds no others. -/
inductive Leaf where
  | num (n : Nat)
  | str (text : Text)

def Leaf.stringify : Leaf → Text
  | .num n => decimal n
  | .str text => quote text

/-- The value that is read. -/
def Leaf.val : Leaf → JsVal
  | .num n => .num ⟨false, n, 0⟩
  | .str text => .str text

def fieldText (field : Text × Leaf) : Text := quote field.1 ++ ':' :: field.2.stringify

def fieldsText : List (Text × Leaf) → Text
  | [] => ['}']
  | [field] => fieldText field ++ ['}']
  | field :: rest => fieldText field ++ ',' :: fieldsText rest

/-- The text of an object with these fields, in the order in which they were set. -/
def stringify (fields : List (Text × Leaf)) : Text := '{' :: fieldsText fields

def jsFields : List (Text × Leaf) → JsFields
  | [] => .nil
  | field :: rest => .cons field.1 field.2.val (jsFields rest)

/-! String literals. -/

section
variable {c : Char} {text rest : Text} {n : Nat}

/-- The character's code is read off its escape. -/
theorem hex4_control : ∀ n < 0x20, hex4 '0' '0' (Nat.digitChar (n / 16)) (Nat.digitChar (n % 16)) = some n := by
  decide

theorem parseUnits_plain (quoted : c ≠ '"') (slashed : c ≠ '\\') (shown : 0x20 ≤ c.toNat) (rest : Text) :
    parseUnits (c :: rest) = (parseUnits rest).map fun (units, rest) => (c.toNat :: units, rest) := by
  have low : ¬ (c.toNat < 0x20 ∨ c = '\\') := by
    rintro (low | slash)
    · omega
    · exact slashed slash
  rw [parseUnits]
  · rw [if_neg low]
    cases parseUnits rest <;> rfl
  · exact fun same => quoted same
  · intro _ _ _ _ _ same
    exact absurd same slashed
  · intro _ _ same
    exact absurd same slashed

/-- One character of a literal. -/
theorem parseUnits_escapeChar (c : Char) (rest : Text) :
    parseUnits (escapeChar c ++ rest) = (parseUnits rest).map fun (units, rest) => (c.toNat :: units, rest) := by
  fun_cases escapeChar c with
  | case1 quoted =>
    subst quoted
    rw [List.cons_append, List.cons_append, List.nil_append, parseUnits]
    cases parseUnits rest <;> rfl
  | case2 _ slashed =>
    subst slashed
    rw [List.cons_append, List.cons_append, List.nil_append, parseUnits]
    cases parseUnits rest <;> rfl
  | case3 _ _ code =>
    rw [code, List.cons_append, List.cons_append, List.nil_append, parseUnits]
    cases parseUnits rest <;> rfl
  | case4 _ _ _ code =>
    rw [code, List.cons_append, List.cons_append, List.nil_append, parseUnits]
    cases parseUnits rest <;> rfl
  | case5 _ _ _ _ code =>
    rw [code, List.cons_append, List.cons_append, List.nil_append, parseUnits]
    cases parseUnits rest <;> rfl
  | case6 _ _ _ _ _ code =>
    rw [code, List.cons_append, List.cons_append, List.nil_append, parseUnits]
    cases parseUnits rest <;> rfl
  | case7 _ _ _ _ _ _ code =>
    rw [code, List.cons_append, List.cons_append, List.nil_append, parseUnits]
    cases parseUnits rest <;> rfl
  | case8 _ _ _ _ _ _ _ control =>
    simp only [List.cons_append, List.nil_append, parseUnits, hex4_control _ control]
    cases parseUnits rest <;> rfl
  | case9 quoted slashed _ _ _ _ _ shown =>
    exact parseUnits_plain quoted slashed (not_lt.mp shown) rest

theorem parseUnits_escaped (text rest : Text) :
    parseUnits (text.flatMap escapeChar ++ '"' :: rest) = some (text.map Char.toNat, rest) := by
  induction text with
  | nil => rfl
  | cons c text ih =>
    rw [List.flatMap_cons, List.append_assoc, parseUnits_escapeChar, ih]
    rfl

/-- No character is a surrogate. -/
theorem not_surrogate (c : Char) : ¬ (0xD800 ≤ c.toNat ∧ c.toNat ≤ 0xDFFF) := by
  rcases c.valid with low | ⟨high, _⟩
  · intro within
    exact absurd low (by rw [← Char.toNat] ; omega)
  · intro within
    exact absurd high (by rw [← Char.toNat]; omega)

theorem joinSurrogates_toNat (text : Text) : joinSurrogates (text.map Char.toNat) = text := by
  induction text with
  | nil => rfl
  | cons c text ih =>
    have single : (if 0xD800 ≤ c.toNat ∧ c.toNat ≤ 0xDFFF then replacement else Char.ofNat c.toNat) = c := by
      rw [if_neg (not_surrogate c), Char.ofNat_toNat]
    cases text with
    | nil => rw [List.map_singleton, joinSurrogates, single]
    | cons d text =>
      rw [List.map_cons, List.map_cons, joinSurrogates, if_neg, single]
      · exact congrArg (c :: ·) ih
      · intro pair
        exact not_surrogate c ⟨pair.1, pair.2.1.trans (by decide)⟩

theorem parseString_escaped (text rest : Text) : parseString (text.flatMap escapeChar ++ '"' :: rest) = some (text, rest) := by
  rw [parseString, parseUnits_escaped]
  exact congrArg (fun text => some (text, rest)) (joinSurrogates_toNat text)

/-! Numerals. -/

theorem natOfDigits_decimal (n : Nat) : natOfDigits (decimal n) = n := by
  have read : natOfDigits (decimal n) = Nat.ofDigitChars 10 (decimal n) 0 := by
    rw [natOfDigits, Nat.ofDigitChars_eq_foldl]
    congr 1
    funext n c
    rw [digit, Nat.mul_comm]
  rw [read, decimal, Nat.ofDigitChars_ten_toDigits]

theorem digitChar_zero : ∀ n < 10, Nat.digitChar n = '0' → n = 0 := by decide

/-- Only the numeral of 0 begins with a zero. -/
theorem decimal_zero_cons (n : Nat) : decimal n = '0' :: rest → n = 0 := by
  induction n using Nat.strong_induction_on generalizing rest with
  | _ n ih =>
    intro begins
    rw [decimal, Nat.toDigits_eq_if (by decide)] at begins
    split at begins
    next small =>
      exact digitChar_zero n small (List.cons.inj begins).1
    next large =>
      cases front : Nat.toDigits 10 (n / 10) with
      | nil => exact absurd front Nat.toDigits_ne_nil
      | cons c more =>
        rw [front] at begins
        obtain rfl := (List.cons.inj begins).1
        have none := ih (n / 10) (by omega) front
        omega

/-- What may stand behind a numeral that ends there. -/
def Ends (rest : Text) : Prop := ∀ c ∈ rest.head?, ¬ c.isDigit ∧ c ≠ '.' ∧ c ≠ 'e' ∧ c ≠ 'E'

theorem parseTail_ends (ends : Ends rest) (whole : Text) (some_ : whole ≠ []) :
    parseTail false false whole rest = some (⟨false, natOfDigits whole, 0⟩, rest) := by
  cases rest with
  | nil => simp [parseTail, some_]
  | cons c more =>
    obtain ⟨_, dot, small, large⟩ := ends c rfl
    simp [parseTail, some_, dot, small, large]

theorem takeWhile_digits {digits : Text} (all : ∀ c ∈ digits, c.isDigit) (ends : Ends rest) :
    (digits ++ rest).takeWhile Char.isDigit = digits ∧ (digits ++ rest).dropWhile Char.isDigit = rest := by
  have behind : rest.takeWhile Char.isDigit = [] ∧ rest.dropWhile Char.isDigit = rest := by
    cases rest with
    | nil => exact ⟨rfl, rfl⟩
    | cons c more =>
      obtain ⟨other, _⟩ := ends c rfl
      exact ⟨List.takeWhile_cons_of_neg other, List.dropWhile_cons_of_neg other⟩
  rw [List.takeWhile_append_of_pos all, List.dropWhile_append_of_pos all, behind.1, behind.2, List.append_nil]
  exact ⟨rfl, rfl⟩

theorem ne_of_isDigit {d : Char} (isDigit : c.isDigit) (other : d.isDigit = false) : c ≠ d := by
  rintro rfl
  rw [other] at isDigit
  cases isDigit

theorem parseNumber_cons (first : c.isDigit) (zero : c ≠ '0') (rest : Text) :
    parseNumber (c :: rest) = parseTail false false ((c :: rest).takeWhile Char.isDigit) ((c :: rest).dropWhile Char.isDigit) := by
  have minus := ne_of_isDigit first (d := '-') (by decide)
  simp [parseNumber, minus, first]

theorem parseNumber_decimal (ends : Ends rest) (n : Nat) : parseNumber (decimal n ++ rest) = some (⟨false, n, 0⟩, rest) := by
  have digits := isDigit_decimal n
  have some_ : decimal n ≠ [] := Nat.toDigits_ne_nil
  have tail := parseTail_ends ends (decimal n) some_
  rw [natOfDigits_decimal] at tail
  obtain ⟨taken, dropped⟩ := takeWhile_digits digits ends
  cases shown : decimal n with
  | nil => exact absurd shown some_
  | cons c more =>
    have first : c.isDigit := digits c (by rw [shown]; exact List.mem_cons_self)
    by_cases zero : c = '0'
    · subst zero
      obtain rfl := decimal_zero_cons n shown
      obtain rfl : more = [] := (List.cons.inj shown).2.symm
      exact tail
    · rw [shown] at tail taken dropped
      rw [List.cons_append] at taken dropped ⊢
      rw [parseNumber_cons first zero, taken, dropped]
      exact tail

/-! Objects. -/

/-- A text that does not begin with white space. -/
theorem skipBlank_cons (shown : ¬ (c = ' ' ∨ c = '\t' ∨ c = '\n' ∨ c = '\r')) (rest : Text) : skipBlank (c :: rest) = c :: rest :=
  List.dropWhile_cons_of_neg (by simpa using shown)

theorem skipBlank_of_isDigit (first : c.isDigit) (rest : Text) : skipBlank (c :: rest) = c :: rest := by
  apply skipBlank_cons
  rintro (rfl | rfl | rfl | rfl) <;> exact absurd first (by decide)

theorem parseValue_digit (first : c.isDigit) (rest : Text) (fuel : Nat) :
    parseValue (fuel + 1) (c :: rest) = (parseNumber (c :: rest)).map fun (value, rest) => (.num value, rest) := by
  have other (d : Char) (none : d.isDigit = false) : c ≠ d := ne_of_isDigit first none
  rw [parseValue, skipBlank_of_isDigit first]
  simp [other]

theorem parseValue_leaf (leaf : Leaf) (ends : Ends rest) (fuel : Nat) :
    parseValue (fuel + 1) (leaf.stringify ++ rest) = some (leaf.val, rest) := by
  cases leaf with
  | str text =>
    have read := parseString_escaped text rest
    rw [Leaf.stringify, quote, List.append_assoc, List.cons_append, List.singleton_append, parseValue,
      skipBlank_cons (by decide)]
    exact congrArg (Option.map fun read : Text × Text => (JsVal.str read.1, read.2)) read
  | num n =>
    have read := parseNumber_decimal ends n
    have digits := isDigit_decimal n
    rw [Leaf.stringify]
    cases shown : decimal n with
    | nil => exact absurd shown Nat.toDigits_ne_nil
    | cons c more =>
      have first : c.isDigit := digits c (by rw [shown]; exact List.mem_cons_self)
      rw [shown, List.cons_append] at read
      rw [List.cons_append, parseValue_digit first, read]
      rfl

theorem fieldText_append (field : Text × Leaf) (rest : Text) :
    fieldText field ++ rest = '"' :: (field.1.flatMap escapeChar ++ '"' :: ':' :: (field.2.stringify ++ rest)) := by
  rw [fieldText, quote, List.cons_append, List.cons_append, List.cons_append, List.append_assoc, List.append_assoc]
  rfl

/-- What is read once a field's name and value are. -/
theorem parseFields_fieldText (field : Text × Leaf) {c : Char} (separates : c = ',' ∨ c = '}') (rest : Text) (fuel : Nat) :
    parseFields (fuel + 2) (fieldText field ++ c :: rest) =
      if c = ',' then (parseFields (fuel + 1) rest).map fun (fields, rest) => (.cons field.1 field.2.val fields, rest)
      else some (.cons field.1 field.2.val .nil, rest) := by
  have ends : Ends (c :: rest) := by
    intro d same
    cases same
    rcases separates with rfl | rfl <;> decide
  have value := parseValue_leaf field.2 ends fuel
  have key := parseString_escaped field.1 (':' :: (field.2.stringify ++ c :: rest))
  rw [fieldText_append, parseFields, skipBlank_cons (by decide)]
  simp only [key, Option.bind_eq_bind, Option.bind_some, skipBlank_cons (c := ':') (by decide), value]
  rcases separates with rfl | rfl
  · rw [skipBlank_cons (by decide), if_pos rfl]
    exact Option.map_eq_bind.symm
  · rw [skipBlank_cons (by decide), if_neg (by decide)]
    rfl

theorem parseFields_fieldsText (field : Text × Leaf) (fields : List (Text × Leaf)) (fuel : Nat) (enough : fields.length + 2 ≤ fuel) (rest : Text) :
    parseFields fuel (fieldsText (field :: fields) ++ rest) = some (jsFields (field :: fields), rest) := by
  obtain ⟨fuel, rfl⟩ := Nat.exists_eq_add_of_le' (Nat.le_of_add_left_le enough)
  induction fields generalizing field fuel with
  | nil =>
    rw [fieldsText, List.append_assoc, List.singleton_append, parseFields_fieldText field (.inr rfl), if_neg (by decide)]
    rfl
  | cons next fields ih =>
    cases fuel with
    | zero => simp at enough
    | succ fuel =>
      have behind := ih next fuel (by simp at enough ⊢; omega)
      rw [fieldsText, List.append_assoc, List.cons_append, parseFields_fieldText field (.inl rfl), if_pos rfl, behind]
      · rfl
      · simp

theorem length_le_fieldsText (fields : List (Text × Leaf)) : fields.length < (fieldsText fields).length := by
  fun_induction fieldsText fields with
  | case1 => decide
  | case2 field => simp [fieldText, quote]
  | case3 field rest _ ih =>
    rw [List.length_cons, List.length_append, List.length_cons]
    omega

theorem parseValue_object (rest : Text) (fuel : Nat) :
    parseValue (fuel + 1) ('{' :: '"' :: rest) = (parseFields fuel ('"' :: rest)).map fun (fields, rest) => (.obj fields, rest) := by
  have quoted : skipBlank ('"' :: rest) = '"' :: rest := skipBlank_cons (by decide) rest
  rw [parseValue, skipBlank_cons (by decide)]
  simp [quoted]

theorem fieldsText_cons (field : Text × Leaf) (fields : List (Text × Leaf)) : ∃ rest, fieldsText (field :: fields) = '"' :: rest := by
  cases fields with
  | nil =>
    rw [fieldsText, fieldText_append]
    exact ⟨_, rfl⟩
  | cons next fields =>
    rw [fieldsText, fieldText_append]
    · exact ⟨_, rfl⟩
    · simp

/-- What is written is read back. -/
theorem parse_stringify (fields : List (Text × Leaf)) : parse (stringify fields) = .ok (.obj (jsFields fields)) := by
  have read : parseValue (2 * (stringify fields).length + 2) (stringify fields) = some (.obj (jsFields fields), []) := by
    cases fields with
    | nil => rfl
    | cons field fields =>
      have enough := length_le_fieldsText (field :: fields)
      have inside := parseFields_fieldsText field fields (2 * (stringify (field :: fields)).length + 1)
        (by rw [stringify]; simp only [List.length_cons] at enough ⊢; omega) []
      obtain ⟨rest, begins⟩ := fieldsText_cons field fields
      rw [List.append_nil] at inside
      rw [stringify, begins] at inside ⊢
      rw [parseValue_object, inside]
      rfl
  rw [parse, parse?, read]
  rfl

end

end WebTunnel.Library.Stringify
