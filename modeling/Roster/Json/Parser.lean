/-!
# Reading JSON

A reader for whole JSON texts. A string may spell a lone half of a surrogate pair, which is no text;
such a string is read as `string none`. Numbers keep their spelling. Members of an object stay in
order, repeated keys included.
-/

namespace Roster

/-- A JSON value. -/
inductive JsonValue where
  | null
  | boolean (value : Bool)
  | number (spelling : String)
  | string (text : Option String)
  | array (items : List JsonValue)
  | object (members : List (Option String × JsonValue))
  deriving Repr

namespace JsonValue

/-- Whether a character may stand between tokens. -/
def isSpace (c : Char) : Bool :=
  c = ' ' || c = '\n' || c = '\r' || c = '\t'

/-- The text behind the space at its start. -/
def skipSpace (cs : List Char) : List Char :=
  cs.dropWhile isSpace

/-! ## Strings -/

/-- The value of a hexadecimal digit. -/
def hexDigit? (c : Char) : Option Nat :=
  if '0' ≤ c ∧ c ≤ '9' then some (c.toNat - '0'.toNat)
  else if 'a' ≤ c ∧ c ≤ 'f' then some (c.toNat - 'a'.toNat + 10)
  else if 'A' ≤ c ∧ c ≤ 'F' then some (c.toNat - 'A'.toNat + 10)
  else none

/-- The value of four hexadecimal digits. -/
def hexUnit? (a b c d : Char) : Option Nat := do
  return (((← hexDigit? a) * 16 + (← hexDigit? b)) * 16 + (← hexDigit? c)) * 16 + (← hexDigit? d)

/-- What a one-letter escape stands for. -/
def escaped? : Char → Option Nat
  | '"' => some 0x22
  | '\\' => some 0x5C
  | '/' => some 0x2F
  | 'b' => some 0x08
  | 'f' => some 0x0C
  | 'n' => some 0x0A
  | 'r' => some 0x0D
  | 't' => some 0x09
  | _ => none

/-- The code points and spelled-out units up to the closing quote, and the text behind it. -/
def stringUnits : List Char → Option (List Nat × List Char)
  | [] => none
  | '"' :: rest => some ([], rest)
  | '\\' :: 'u' :: a :: b :: c :: d :: rest => do
    let unit ← hexUnit? a b c d
    let (units, rest) ← stringUnits rest
    return (unit :: units, rest)
  | '\\' :: c :: rest => do
    let unit ← escaped? c
    let (units, rest) ← stringUnits rest
    return (unit :: units, rest)
  | c :: rest => do
    if c = '\\' || c.toNat < 0x20 then none
    let (units, rest) ← stringUnits rest
    return (c.toNat :: units, rest)

/-- The text of some units, none if a surrogate stands without its other half. -/
def unitsText? : List Nat → Option (List Char)
  | [] => some []
  | high :: low :: rest =>
    if 0xD800 ≤ high ∧ high < 0xDC00 then
      if 0xDC00 ≤ low ∧ low < 0xE000 then
        (unitsText? rest).map
          (Char.ofNat (0x10000 + (high - 0xD800) * 0x400 + (low - 0xDC00)) :: ·)
      else none
    else if 0xDC00 ≤ high ∧ high < 0xE000 then none
    else (unitsText? (low :: rest)).map (Char.ofNat high :: ·)
  | [unit] => if 0xD800 ≤ unit ∧ unit < 0xE000 then none else some [Char.ofNat unit]

/-- A string, from behind its opening quote on. -/
def stringBody (cs : List Char) : Option (Option String × List Char) := do
  let (units, rest) ← stringUnits cs
  return ((unitsText? units).map String.ofList, rest)

/-! ## Numbers -/

/-- One digit or more, and the text behind them. -/
def digits (cs : List Char) : Option (List Char) :=
  match cs.span Char.isDigit with
  | ([], _) => none
  | (_, rest) => some rest

/-- The text behind a whole number without a sign; a leading zero stands alone. -/
def wholeNumber : List Char → Option (List Char)
  | '0' :: c :: rest => if c.isDigit then none else some (c :: rest)
  | cs => digits cs

/-- The text behind a fraction, if there is one. -/
def fraction : List Char → Option (List Char)
  | '.' :: rest => digits rest
  | cs => some cs

/-- The text behind an exponent, if there is one. -/
def exponent : List Char → Option (List Char)
  | 'e' :: rest | 'E' :: rest =>
    match rest with
    | '+' :: rest | '-' :: rest => digits rest
    | rest => digits rest
  | cs => some cs

/-- The text behind a number. -/
def numberEnd (cs : List Char) : Option (List Char) := do
  let unsigned := match cs with
    | '-' :: rest => rest
    | cs => cs
  exponent (← fraction (← wholeNumber unsigned))

/-- A number, with its spelling. -/
def numberToken (cs : List Char) : Option (JsonValue × List Char) := do
  let rest ← numberEnd cs
  return (.number (String.ofList (cs.take (cs.length - rest.length))), rest)

/-! ## Values -/

mutual

/-- A value, and the text behind it. -/
def value : Nat → List Char → Option (JsonValue × List Char)
  | 0, _ => none
  | fuel + 1, cs =>
    match skipSpace cs with
    | 'n' :: 'u' :: 'l' :: 'l' :: rest => some (.null, rest)
    | 't' :: 'r' :: 'u' :: 'e' :: rest => some (.boolean true, rest)
    | 'f' :: 'a' :: 'l' :: 's' :: 'e' :: rest => some (.boolean false, rest)
    | '"' :: rest => (stringBody rest).map fun (text, rest) => (.string text, rest)
    | '[' :: rest =>
      match skipSpace rest with
      | ']' :: rest => some (.array [], rest)
      | rest => (items fuel rest).map fun (items, rest) => (.array items, rest)
    | '\x7b' :: rest =>
      match skipSpace rest with
      | '\x7d' :: rest => some (.object [], rest)
      | rest => (members fuel rest).map fun (members, rest) => (.object members, rest)
    | rest => numberToken rest

/-- The items of an array up to its closing bracket; at least one. -/
def items : Nat → List Char → Option (List JsonValue × List Char)
  | 0, _ => none
  | fuel + 1, cs => do
    let (first, rest) ← value fuel cs
    match skipSpace rest with
    | ']' :: rest => some ([first], rest)
    | ',' :: rest => (items fuel rest).map fun (others, rest) => (first :: others, rest)
    | _ => none

/-- The members of an object up to its closing brace; at least one. -/
def members : Nat → List Char → Option (List (Option String × JsonValue) × List Char)
  | 0, _ => none
  | fuel + 1, cs =>
    match skipSpace cs with
    | '"' :: rest => do
      let (key, rest) ← stringBody rest
      match skipSpace rest with
      | ':' :: rest => do
        let (first, rest) ← value fuel rest
        match skipSpace rest with
        | '\x7d' :: rest => some ([(key, first)], rest)
        | ',' :: rest =>
          (members fuel rest).map fun (others, rest) => ((key, first) :: others, rest)
        | _ => none
      | _ => none
    | _ => none

end

/-- The value of a whole JSON text. Every character is passed by at most two of the nested calls. -/
def parse? (s : String) : Option JsonValue := do
  let (v, rest) ← value (2 * s.length + 2) s.toList
  if (skipSpace rest).isEmpty then some v else none

end JsonValue

end Roster
