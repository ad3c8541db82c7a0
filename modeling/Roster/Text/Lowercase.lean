import Roster.Text.CaseTable

/-!
# Lower case of whole texts

Each letter becomes its lower-case form. One letter needs its surroundings: a capital sigma that
ends a word (`endsWord`) becomes the final form. One letter becomes two characters: the dotted
capital I keeps its dot as a mark of its own.
-/

namespace Roster.Text

/-- The lower-case form of a character that is lowered without its surroundings. -/
def lowerChar (c : Char) : Char :=
  if c.toNat < 0x80 then c.toLower
  else
    match lowercaseRuns.find? fun (first, last, step, _) =>
      first ≤ c.toNat && c.toNat ≤ last && (c.toNat - first) % step == 0 with
    | some (_, _, _, offset) => Char.ofNat (c.toNat + offset).toNat
    | none => c

/-- Whether the first character that is not case-ignorable is cased. -/
def meetsCased (cs : List Char) : Bool :=
  match cs.dropWhile (inRanges ignorableRanges) with
  | c :: _ => inRanges casedRanges c
  | [] => false

/-- Whether a letter between `before` (nearest character first) and `after` is the last of a word. -/
def endsWord (before after : List Char) : Bool :=
  meetsCased before && !meetsCased after

/-- Lower case of the characters that follow `before`, whose nearest character stands first. -/
def lowerAfter (before : List Char) : List Char → List Char
  | [] => []
  | c :: rest =>
    let lowered :=
      if c = 'Σ' then [if endsWord before rest then 'ς' else 'σ']
      else if c = 'İ' then ['i', '\u0307']
      else [lowerChar c]
    lowered ++ lowerAfter (c :: before) rest

/-- The characters in lower case. -/
def lower (cs : List Char) : List Char :=
  lowerAfter [] cs

/-- The text in lower case. -/
def lowercase (s : String) : String :=
  String.ofList (lower s.toList)

/-- Only the sigma and the dotted capital I are more than a matter of their own character. -/
theorem lowerAfter_eq_map {before cs : List Char} (hs : 'Σ' ∉ cs) (hi : 'İ' ∉ cs) :
    lowerAfter before cs = cs.map lowerChar := by
  induction cs generalizing before with
  | nil => rfl
  | cons c rest ih =>
    simp only [List.mem_cons, not_or] at hs hi
    simp [lowerAfter, Ne.symm hs.1, Ne.symm hi.1, ih hs.2 hi.2]

end Roster.Text
