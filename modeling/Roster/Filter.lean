import Roster.Entry

/-!
# Search filters

A filter is a condition on entries, with the text form in which a search request carries it. Values
are compared ignoring ASCII case. Inside the text a value has its special characters spelled out, so
that it can neither close its parenthesis nor turn into a test of presence (`escape_ne_special`).
-/

namespace Roster

/-- A condition on the attributes of an entry. -/
inductive Filter where
  | equals (name value : String)
  | present (name : String)
  | all (parts : List Filter)
  | any (parts : List Filter)
  | not (part : Filter)
  deriving Repr

namespace Filter

/-- The entries with one of some values: a plain comparison for a single value. -/
def anyOf (name : String) : List String → Filter
  | [value] => .equals name value
  | values => .any (values.map (.equals name))

/-! ## Matching -/

mutual

/-- Whether an entry meets a condition. -/
def accepts : Filter → Entry → Bool
  | .equals name value, entry => Text.holds (entry.attributes.values name) value
  | .present name, entry => !(entry.attributes.values name).isEmpty
  | .all parts, entry => acceptsAll parts entry
  | .any parts, entry => acceptsAny parts entry
  | .not part, entry => !accepts part entry

/-- Whether an entry meets all of some conditions. -/
def acceptsAll : List Filter → Entry → Bool
  | [], _ => true
  | part :: rest, entry => accepts part entry && acceptsAll rest entry

/-- Whether an entry meets one of some conditions. -/
def acceptsAny : List Filter → Entry → Bool
  | [], _ => false
  | part :: rest, entry => accepts part entry || acceptsAny rest entry

end

/-! ## Text -/

/-- How a character of a value is written in a filter. -/
def escapeChar (c : Char) : List Char :=
  if c = '\\' then ['\\', '5', 'c']
  else if c = '*' then ['\\', '2', 'a']
  else if c = '(' then ['\\', '2', '8']
  else if c = ')' then ['\\', '2', '9']
  else if c = '\x00' then ['\\', '0', '0']
  else [c]

/-- The text of a value inside a filter. -/
def escape (value : List Char) : List Char :=
  value.flatMap escapeChar

/-- The text of a value inside a filter. -/
def escapeValue (value : String) : String :=
  String.ofList (escape value.toList)

mutual

/-- The text of a filter. -/
def render : Filter → List Char
  | .equals name value => '(' :: name.toList ++ '=' :: escape value.toList ++ [')']
  | .present name => '(' :: name.toList ++ ['=', '*', ')']
  | .all parts => '(' :: '&' :: renderAll parts ++ [')']
  | .any parts => '(' :: '|' :: renderAll parts ++ [')']
  | .not part => '(' :: '!' :: render part ++ [')']

/-- The texts of filters, one behind the other. -/
def renderAll : List Filter → List Char
  | [] => []
  | part :: rest => render part ++ renderAll rest

end

/-- The text of a filter. -/
def text (f : Filter) : String :=
  String.ofList f.render

/-! ## Lemmas -/

theorem acceptsAll_eq_all (parts : List Filter) (entry : Entry) :
    acceptsAll parts entry = parts.all fun part => accepts part entry := by
  induction parts with
  | nil => rfl
  | cons part rest ih => simp [acceptsAll, ih]

theorem acceptsAny_eq_any (parts : List Filter) (entry : Entry) :
    acceptsAny parts entry = parts.any fun part => accepts part entry := by
  induction parts with
  | nil => rfl
  | cons part rest ih => simp [acceptsAny, ih]

/-- A disjunction of comparisons holds if one of the values is there. -/
theorem accepts_anyOf (name : String) (values : List String) (entry : Entry) :
    accepts (anyOf name values) entry =
      values.any fun value => Text.holds (entry.attributes.values name) value := by
  match values with
  | [] => rfl
  | [value] => simp [anyOf, accepts]
  | v :: w :: rest => simp [anyOf, accepts, acceptsAny_eq_any, List.any_map, Function.comp_def]

/-- No special character but the backslash survives escaping. -/
theorem escape_ne_special {c : Char} (hc : c = '*' ∨ c = '(' ∨ c = ')' ∨ c = '\x00')
    (value : List Char) : c ∉ escape value := by
  simp only [escape, List.mem_flatMap, not_exists, not_and]
  intro d _ hd
  unfold escapeChar at hd
  grind

end Filter

end Roster
