/-!
# Escaping of attribute values in names

A value inside a distinguished name is written so that no separator, quote or leading or trailing
space of it can be mistaken for the name's own (`escape`). `unescape` reads such text back, as
octets: besides an escaped character a pair of hexadecimal digits may spell out one octet.
`unescape_plain`, `unescape_escaped` and `unescape_octet` say what each piece of such text stands for.
-/

namespace Roster.Dn

/-- The characters that a backslash precedes wherever they stand in a value. -/
def specials : List Char :=
  [',', '+', '"', '\\', '<', '>', ';', '=']

/-- How a character of a value is written, given whether it is the first or the last one. -/
def escapeChar (first last : Bool) (c : Char) : List Char :=
  if c ∈ specials then ['\\', c]
  else if c = '\x00' then ['\\', '0', '0']
  else if c = ' ' ∧ (first ∨ last) then ['\\', '2', '0']
  else if c = '#' ∧ first then ['\\', '2', '3']
  else [c]

/-- Escapes the rest of a value; `first` tells whether the rest is the whole of it. -/
def escapeFrom (first : Bool) : List Char → List Char
  | [] => []
  | c :: rest => escapeChar first rest.isEmpty c ++ escapeFrom false rest

/-- The text of a value inside a name. -/
def escape (value : List Char) : List Char :=
  escapeFrom true value

/-- The text of a value inside a name. -/
def escapeValue (value : String) : String :=
  String.ofList (escape value.toList)

/-- The value of a hexadecimal digit. -/
def hexDigit? (c : Char) : Option UInt8 :=
  if '0' ≤ c ∧ c ≤ '9' then some (c.toNat - '0'.toNat).toUInt8
  else if 'a' ≤ c ∧ c ≤ 'f' then some (c.toNat - 'a'.toNat + 10).toUInt8
  else if 'A' ≤ c ∧ c ≤ 'F' then some (c.toNat - 'A'.toNat + 10).toUInt8
  else none

/-- The octet that two hexadecimal digits spell. -/
def hexPair? (high low : Char) : Option UInt8 := do
  return (← hexDigit? high) * 16 + (← hexDigit? low)

/-- The octets that the text of a value stands for, none if it ends within an escape. -/
def unescape : List Char → Option (List UInt8)
  | [] => some []
  | '\\' :: [] => none
  | '\\' :: c :: [] => some (String.utf8EncodeChar c)
  | '\\' :: c :: d :: rest =>
    match hexPair? c d with
    | some b => (unescape rest).map (b :: ·)
    | none => (unescape (d :: rest)).map (String.utf8EncodeChar c ++ ·)
  | c :: rest => (unescape rest).map (String.utf8EncodeChar c ++ ·)

/-- Drops the spaces at the head of a reversed text, but none that follows a backslash. -/
def dropSpaces : List Char → List Char
  | ' ' :: '\\' :: rest => ' ' :: '\\' :: rest
  | ' ' :: rest => dropSpaces rest
  | cs => cs

/-- The text without the spaces at its end; a space after a backslash stays. -/
def dropTrailingSpaces (cs : List Char) : List Char :=
  (dropSpaces cs.reverse).reverse

/-- The pieces between the separators that no backslash escapes; at least one piece. -/
def splitUnescaped (separator : Char) : List Char → List (List Char)
  | [] => [[]]
  | '\\' :: [] => [['\\']]
  | '\\' :: c :: rest => (splitUnescaped separator rest).modifyHead fun piece => '\\' :: c :: piece
  | c :: rest =>
    if c = separator then [] :: splitUnescaped separator rest
    else (splitUnescaped separator rest).modifyHead (c :: ·)

/-! ## How reading back proceeds -/

/-- A character that is no backslash stands for itself. -/
theorem unescape_plain {c : Char} (h : c ≠ '\\') (rest : List Char) :
    unescape (c :: rest) = (unescape rest).map (String.utf8EncodeChar c ++ ·) := by
  rw [unescape.eq_def]
  split <;> simp_all

/-- A character behind a backslash stands for itself unless it is a hexadecimal digit. -/
theorem unescape_escaped {c : Char} (h : hexDigit? c = none) (rest : List Char) :
    unescape ('\\' :: c :: rest) = (unescape rest).map (String.utf8EncodeChar c ++ ·) := by
  cases rest with
  | nil => simp [unescape]
  | cons d rest => simp [unescape, hexPair?, h]

/-- Two hexadecimal digits behind a backslash stand for the octet that they spell. -/
theorem unescape_octet {c d : Char} {b : UInt8} (h : hexPair? c d = some b) (rest : List Char) :
    unescape ('\\' :: c :: d :: rest) = (unescape rest).map (b :: ·) := by
  simp [unescape, h]

end Roster.Dn
