import WebTunnel.Library.JavaScript

/-! JSON texts, the JavaScript values they denote, and the conversions that loose
comparison, string concatenation and `Buffer` apply to such values. -/

namespace WebTunnel.Library.Json
open Library.Bytes Library.JavaScript

/-- A numeral's exact value, `±digits · 10 ^ exp`. -/
structure Decimal where
  negative : Bool
  digits : Nat
  exp : Int
deriving DecidableEq, Repr

mutual
inductive JsVal where
  | undefined
  | null
  | bool (value : Bool)
  | num (value : Decimal)
  | str (value : Text)
  | arr (items : JsItems)
  | obj (fields : JsFields)
inductive JsItems where
  | nil
  | cons (head : JsVal) (tail : JsItems)
inductive JsFields where
  | nil
  | cons (key : Text) (value : JsVal) (rest : JsFields)
end

deriving instance DecidableEq for JsVal, JsItems, JsFields

/-! `JSON.parse`. -/

def skipBlank (text : Text) : Text :=
  text.dropWhile fun c => c = ' ' ∨ c = '\t' ∨ c = '\n' ∨ c = '\r'

def hex4 (a b c d : Char) : Option Nat := do
  let a ← hexDigit a
  let b ← hexDigit b
  let c ← hexDigit c
  let d ← hexDigit d
  pure (a * 4096 + b * 256 + c * 16 + d)

/-- The code units of a string literal up to its closing quote. -/
def parseUnits : Text → Option (List Nat × Text)
  | [] => none
  | '"' :: rest => some ([], rest)
  | '\\' :: 'u' :: a :: b :: c :: d :: rest => do
    let unit ← hex4 a b c d
    let (units, rest) ← parseUnits rest
    pure (unit :: units, rest)
  | '\\' :: c :: rest => do
    let unit ← match c with
      | '"' => some 34
      | '\\' => some 92
      | '/' => some 47
      | 'b' => some 8
      | 'f' => some 12
      | 'n' => some 10
      | 'r' => some 13
      | 't' => some 9
      | _ => none
    let (units, rest) ← parseUnits rest
    pure (unit :: units, rest)
  | c :: rest => do
    if c.toNat < 0x20 ∨ c = '\\' then none
    else
      let (units, rest) ← parseUnits rest
      pure (c.toNat :: units, rest)

/-- Joins surrogate pairs; a lone surrogate becomes the replacement character. -/
def joinSurrogates : List Nat → Text
  | [] => []
  | [u] => [if 0xD800 ≤ u ∧ u ≤ 0xDFFF then replacement else Char.ofNat u]
  | u :: v :: rest =>
    if 0xD800 ≤ u ∧ u ≤ 0xDBFF ∧ 0xDC00 ≤ v ∧ v ≤ 0xDFFF then
      Char.ofNat (0x10000 + (u - 0xD800) * 0x400 + (v - 0xDC00)) :: joinSurrogates rest
    else (if 0xD800 ≤ u ∧ u ≤ 0xDFFF then replacement else Char.ofNat u) :: joinSurrogates (v :: rest)

def parseString (text : Text) : Option (Text × Text) := do
  let (units, rest) ← parseUnits text
  pure (joinSurrogates units, rest)

def natOfDigits (digits : Text) : Nat := digits.foldl (fun n c => n * 10 + digit c) 0

/-- The fraction and the exponent after an integer part, which may be empty only if `bare`. -/
def parseTail (negative bare : Bool) (whole text : Text) : Option (Decimal × Text) :=
  let (fraction, text, dotted) := match text with
    | '.' :: rest => (rest.takeWhile Char.isDigit, rest.dropWhile Char.isDigit, true)
    | _ => ([], text, false)
  if dotted ∧ fraction = [] ∧ (¬ bare ∨ whole = []) then none
  else if whole = [] ∧ fraction = [] then none
  else
    let value (exp : Int) : Decimal :=
      ⟨negative, natOfDigits (whole ++ fraction), exp - fraction.length⟩
    let exponent (negativeExp : Bool) (rest : Text) : Option (Decimal × Text) :=
      let digits := rest.takeWhile Char.isDigit
      if digits = [] then none
      else
        let size : Int := natOfDigits digits
        some (value (if negativeExp then -size else size), rest.dropWhile Char.isDigit)
    match text with
    | 'e' :: '-' :: rest | 'E' :: '-' :: rest => exponent true rest
    | 'e' :: '+' :: rest | 'E' :: '+' :: rest => exponent false rest
    | 'e' :: rest | 'E' :: rest => exponent false rest
    | _ => some (value 0, text)

def parseNumber (text : Text) : Option (Decimal × Text) :=
  let (negative, text) := match text with
    | '-' :: rest => (true, rest)
    | _ => (false, text)
  match text with
  | '0' :: rest => parseTail negative false ['0'] rest
  | c :: _ =>
    if c.isDigit then
      parseTail negative false (text.takeWhile Char.isDigit) (text.dropWhile Char.isDigit)
    else none
  | [] => none

mutual
/-- Every level of nesting consumes a character, so fuel proportional to the text suffices. -/
def parseValue : Nat → Text → Option (JsVal × Text)
  | 0, _ => none
  | fuel + 1, text =>
    match skipBlank text with
    | 'n' :: 'u' :: 'l' :: 'l' :: rest => some (.null, rest)
    | 't' :: 'r' :: 'u' :: 'e' :: rest => some (.bool true, rest)
    | 'f' :: 'a' :: 'l' :: 's' :: 'e' :: rest => some (.bool false, rest)
    | '"' :: rest => (parseString rest).map fun (value, rest) => (.str value, rest)
    | '[' :: rest =>
      match skipBlank rest with
      | ']' :: rest => some (.arr .nil, rest)
      | _ => (parseItems fuel rest).map fun (items, rest) => (.arr items, rest)
    | '{' :: rest =>
      match skipBlank rest with
      | '}' :: rest => some (.obj .nil, rest)
      | _ => (parseFields fuel rest).map fun (fields, rest) => (.obj fields, rest)
    | rest => (parseNumber rest).map fun (value, rest) => (.num value, rest)

def parseItems : Nat → Text → Option (JsItems × Text)
  | 0, _ => none
  | fuel + 1, text => do
    let (head, rest) ← parseValue fuel text
    match skipBlank rest with
    | ',' :: rest =>
      let (tail, rest) ← parseItems fuel rest
      pure (.cons head tail, rest)
    | ']' :: rest => pure (.cons head .nil, rest)
    | _ => none

def parseFields : Nat → Text → Option (JsFields × Text)
  | 0, _ => none
  | fuel + 1, text => do
    match skipBlank text with
    | '"' :: rest =>
      let (key, rest) ← parseString rest
      match skipBlank rest with
      | ':' :: rest =>
        let (value, rest) ← parseValue fuel rest
        match skipBlank rest with
        | ',' :: rest =>
          let (fields, rest) ← parseFields fuel rest
          pure (.cons key value fields, rest)
        | '}' :: rest => pure (.cons key value .nil, rest)
        | _ => none
      | _ => none
    | _ => none
end

/-- `JSON.parse`: `none` where it throws a `SyntaxError`. -/
def parse? (text : Text) : Option JsVal :=
  match parseValue (2 * text.length + 2) text with
  | some (value, rest) => if skipBlank rest = [] then some value else none
  | none => none

def parse (text : Text) : Except JsError JsVal :=
  match parse? text with
  | some value => .ok value
  | none => .error .syntaxError

/-! Property access and conversions. -/

/-- Of several fields with one key the last counts. -/
def JsFields.get (key : Text) : JsFields → JsVal
  | .nil => .undefined
  | .cons name value rest =>
    match JsFields.get key rest with
    | .undefined => if name = key then value else .undefined
    | later => later

/-- `value.key`, for keys that neither strings nor arrays have. -/
def property (value : JsVal) (key : Text) : Except JsError JsVal :=
  match value with
  | .undefined | .null => .error .typeError
  | .obj fields => .ok (fields.get key)
  | _ => .ok .undefined

/-- What an array or object reads as when it is turned into a primitive: a text, the text
of a number, or one of the texts with a comma in them. -/
inductive Joined where
  | text (value : Text)
  | number (value : Decimal)
  | list

mutual
/-- An object with a `toString` field of its own cannot be converted: the field is not callable. -/
def toJoined : JsVal → Except JsError Joined
  | .undefined | .null => .ok (.text [])
  | .bool value => .ok (.text (if value then "true".toList else "false".toList))
  | .num value => .ok (.number value)
  | .str value => .ok (.text value)
  | .arr items => joinItems items
  | .obj fields =>
    if fields.get "toString".toList = .undefined then .ok (.text "[object Object]".toList)
    else .error .typeError

def joinItems : JsItems → Except JsError Joined
  | .nil => .ok (.text [])
  | .cons head .nil => toJoined head
  | .cons head tail => do
    let _ ← toJoined head
    let _ ← joinItems tail
    pure .list
end

/-- Whether concatenating the value to a string returns. -/
def concatenates (value : JsVal) : Except JsError Unit := do
  let _ ← toJoined value

/-- A string as a number, `none` for NaN. Infinity is a number beyond every double. -/
def numberOfText (text : Text) : Option Decimal :=
  let body := trim text
  match body with
  | [] => some ⟨false, 0, 0⟩
  | '0' :: 'x' :: rest | '0' :: 'X' :: rest =>
    if rest ≠ [] ∧ rest.all (fun c => (hexDigit c).isSome) then
      (leadingNumeral 16 none rest).map fun n => ⟨false, n, 0⟩
    else none
  | _ =>
    let (negative, body) := match body with
      | '-' :: rest => (true, rest)
      | '+' :: rest => (false, rest)
      | _ => (false, body)
    if body = "Infinity".toList then some ⟨negative, 1, 400⟩
    else match parseTail negative true (body.takeWhile Char.isDigit) (body.dropWhile Char.isDigit) with
      | some (value, []) => some value
      | _ => none

def numberOfJoined : Joined → Option Decimal
  | .text value => numberOfText value
  | .number value => some value
  | .list => none

def toNumber : JsVal → Except JsError (Option Decimal)
  | .undefined => .ok none
  | .null => .ok (some ⟨false, 0, 0⟩)
  | .bool value => .ok (some ⟨false, if value then 1 else 0, 0⟩)
  | .num value => .ok (some value)
  | .str value => .ok (numberOfText value)
  | value => do
    let joined ← toJoined value
    pure (numberOfJoined joined)

/-- `|x| · 2 ^ shift ≤ bound`, in exact arithmetic. -/
def Decimal.absLe (x : Decimal) (shift bound : Nat) : Bool :=
  if 0 ≤ x.exp then x.digits * 10 ^ x.exp.toNat * 2 ^ shift ≤ bound
  else x.digits * 2 ^ shift ≤ bound * 10 ^ (-x.exp).toNat

def Decimal.absGe (x : Decimal) (shift bound : Nat) : Bool :=
  if 0 ≤ x.exp then bound ≤ x.digits * 10 ^ x.exp.toNat * 2 ^ shift
  else bound * 10 ^ (-x.exp).toNat ≤ x.digits * 2 ^ shift

/-- Whether the double nearest to `x` is the small integer `n`: it is when `x` lies within
half a unit in the last place, which on the lower side of a power of two is halved. -/
def Decimal.equalsNat (x : Decimal) (n : Nat) : Bool :=
  if n = 0 then x.absLe 1075 1
  else
    let unit := 2 ^ (n.log2 + 1)
    let below := if n = 2 ^ n.log2 then unit / 2 else unit
    !x.negative && x.absGe 54 (n * 2 ^ 54 - below) && x.absLe 54 (n * 2 ^ 54 + unit)

/-- `value == n` for a number `n`. -/
def looseEqNat (value : JsVal) (n : Nat) : Except JsError Bool :=
  match value with
  | .undefined | .null => .ok false
  | value => do
    let number ← toNumber value
    pure (match number with
      | some x => x.equalsNat n
      | none => false)

/-- `value == text` for a text that is not a numeral. -/
def looseEqText (value : JsVal) (text : Text) : Except JsError Bool :=
  match value with
  | .undefined | .null | .bool _ | .num _ => .ok false
  | value => do
    let joined ← toJoined value
    pure (match joined with
      | .text read => read = text
      | _ => false)

/-- `Math.ceil` of a positive number, otherwise zero: how `Buffer` reads a length. -/
def Decimal.bufferLength (x : Decimal) : Nat :=
  if x.negative then 0
  else if 0 ≤ x.exp then x.digits * 10 ^ x.exp.toNat
  else (x.digits + 10 ^ (-x.exp).toNat - 1) / 10 ^ (-x.exp).toNat

def Decimal.toByte (x : Decimal) : Byte :=
  let size := if 0 ≤ x.exp then x.digits * 10 ^ x.exp.toNat else x.digits / 10 ^ (-x.exp).toNat
  if x.negative then -BitVec.ofNat 8 size else BitVec.ofNat 8 size

def toByte (value : JsVal) : Except JsError Byte := do
  let number ← toNumber value
  pure (match number with
    | some x => x.toByte
    | none => 0)

def bytesOfItems : JsItems → Except JsError (List Byte)
  | .nil => .ok []
  | .cons head tail => do
    let b ← toByte head
    let rest ← bytesOfItems tail
    pure (b :: rest)

/-- Node's `kMaxLength`. -/
def maxBufferLength : Nat := 0x3FFFFFFF

/-- `new Buffer(value, "base64")`. A number or a length field allocates that many bytes,
which Node leaves uninitialised and which are zero here. -/
def bufferFrom (value : JsVal) : Except JsError (List Byte) :=
  match value with
  | .undefined | .null | .bool _ => .error .typeError
  | .str text => .ok (decodeBase64 text)
  | .num x =>
    if maxBufferLength < x.bufferLength then .error .rangeError
    else .ok (List.replicate x.bufferLength 0)
  | .arr items => bytesOfItems items
  | .obj fields => do
    let number ← toNumber (fields.get "length".toList)
    let size := match number with
      | some x => x.bufferLength
      | none => 0
    if maxBufferLength < size then .error .rangeError
    else (List.range size).mapM fun i => toByte (fields.get (decimal i))

end WebTunnel.Library.Json
