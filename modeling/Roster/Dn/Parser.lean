import Roster.Dn.Basic
import Roster.Text.Octets

/-!
# Reading distinguished names

`Dn.parse` reads the text form of a name. Relative names are cut at commas and pairs at plus signs,
unless a backslash escapes them; blanks around types and in front of values do not count. A failure
says which text could not be read and why: the whole text if a relative name is missing, else the
text of the relative name at fault.
-/

namespace Roster.Dn

/-- Why a text is no distinguished name. -/
inductive Fault where
  | emptyRdn
  | missingEquals
  | emptyType
  | danglingEscape
  | invalidUtf8
  deriving DecidableEq, Repr

/-- The wording of a fault. -/
def Fault.message : Fault → String
  | .emptyRdn => "empty RDN"
  | .missingEquals => "RDN is missing '='"
  | .emptyType => "RDN has an empty attribute type"
  | .danglingEscape => "dangling escape"
  | .invalidUtf8 => "value is not valid UTF-8"

/-- A text that could not be read, with the reason. -/
structure ParseError where
  text : String
  fault : Fault
  deriving DecidableEq, Repr

/-- The value that a text after the equals sign stands for. -/
def parseValue (cs : List Char) : Except Fault String :=
  match unescape (dropTrailingSpaces (Text.trimStart cs)) with
  | none => .error .danglingEscape
  | some octets =>
    match Text.ofOctets? octets with
    | none => .error .invalidUtf8
    | some value => .ok value

/-- Reads one pair. -/
def parseAva (cs : List Char) : Except Fault Ava := do
  match cs.dropWhile (· != '=') with
  | [] => throw .missingEquals
  | _ :: value =>
    let type := Text.trim (cs.takeWhile (· != '='))
    if type.isEmpty then throw .emptyType
    return ⟨String.ofList type, ← parseValue value⟩

/-- Reads one relative name from characters. -/
def parseRdn (cs : List Char) : Except ParseError Rdn :=
  match (splitUnescaped '+' cs).mapM parseAva with
  | .error fault => .error ⟨String.ofList cs, fault⟩
  | .ok avas => .ok ⟨avas⟩

/-- Reads a distinguished name; blank text is the root. -/
def parse (s : String) : Except ParseError Dn := do
  let cs := Text.trim s.toList
  if cs.isEmpty then return root
  let rdns ← (splitUnescaped ',' cs).mapM fun part =>
    if part.all Text.isBlank then throw ⟨s, .emptyRdn⟩ else parseRdn part
  return ⟨rdns⟩

end Roster.Dn

namespace Roster

/-- Reads one relative name. -/
def Rdn.parse (s : String) : Except Dn.ParseError Rdn :=
  Dn.parseRdn s.toList

end Roster
