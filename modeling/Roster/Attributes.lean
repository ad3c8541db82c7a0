import Roster.OrderedSet
import Roster.Text.Fold

/-!
# Attributes of an entry

Attributes are a list of names with values, in the order in which the names came. No two names of
one list differ in ASCII case only; a name keeps the spelling under which it came first. Everything
that writes goes through `upsert`, `adjust`, `erase` or `project`, and each of these keeps the names
distinct. `get?_upsert` and `get?_erase` say how a look-up sees a write.
-/

namespace Roster

/-- Names with their values, in order of arrival. -/
abbrev AttributePairs := List (String × List String)

namespace AttributePairs

/-- The names as they compare. -/
def keys (pairs : AttributePairs) : List String :=
  pairs.map fun pair => Text.fold pair.1

/-- The values under a name. -/
def get? (pairs : AttributePairs) (name : String) : Option (List String) :=
  (pairs.find? fun pair => Text.same pair.1 name).map (·.2)

/-- Rewrites the values under a name; an absent name comes last, with the rewritten empty list. -/
def upsert (f : List String → List String) (name : String) : AttributePairs → AttributePairs
  | [] => [(name, f [])]
  | pair :: rest =>
    if Text.same pair.1 name then (pair.1, f pair.2) :: rest else pair :: upsert f name rest

/-- Rewrites the values under a name, if the name is there. -/
def adjust (f : List String → List String) (name : String) (pairs : AttributePairs) :
    AttributePairs :=
  pairs.map fun pair => if Text.same pair.1 name then (pair.1, f pair.2) else pair

@[simp] theorem keys_cons (pair : String × List String) (rest : AttributePairs) :
    keys (pair :: rest) = Text.fold pair.1 :: keys rest :=
  rfl

theorem keys_upsert (f : List String → List String) (name : String) (pairs : AttributePairs) :
    keys (upsert f name pairs) =
      if Text.fold name ∈ keys pairs then keys pairs else keys pairs ++ [Text.fold name] := by
  induction pairs with
  | nil => simp [upsert, keys]
  | cons pair rest ih =>
    rw [upsert]
    split
    · next h => simp [Text.same_iff.1 h]
    · next h =>
      have hne : ¬ Text.fold name = Text.fold pair.1 := fun e => h (Text.same_iff.2 e.symm)
      by_cases hm : Text.fold name ∈ keys rest <;> simp [ih, hne, hm]

theorem keys_adjust (f : List String → List String) (name : String) (pairs : AttributePairs) :
    keys (adjust f name pairs) = keys pairs := by
  simp only [keys, adjust, List.map_map]
  refine List.map_congr_left fun pair _ => ?_
  simp only [Function.comp]
  split <;> rfl

theorem nodup_upsert {pairs : AttributePairs} (h : (keys pairs).Nodup)
    (f : List String → List String) (name : String) : (keys (upsert f name pairs)).Nodup := by
  rw [keys_upsert]
  split
  · exact h
  · next hn =>
    rw [List.nodup_append]
    refine ⟨h, by simp, fun a ha b hb hab => ?_⟩
    rw [List.mem_singleton] at hb
    exact hn (hb ▸ hab ▸ ha)

theorem nodup_filter {pairs : AttributePairs} (h : (keys pairs).Nodup)
    (p : String × List String → Bool) : (keys (pairs.filter p)).Nodup :=
  ((List.filter_sublist).map _).nodup h

end AttributePairs

/-- The attributes of an entry. -/
structure Attributes where
  pairs : AttributePairs
  /-- No two names differ in ASCII case only. -/
  distinct : pairs.keys.Nodup
  deriving DecidableEq, Repr

namespace Attributes

/-- No attributes. -/
def empty : Attributes :=
  ⟨[], List.nodup_nil⟩

/-- The number of attributes. -/
def size (attrs : Attributes) : Nat :=
  attrs.pairs.length

/-- The names, as spelled on arrival. -/
def names (attrs : Attributes) : List String :=
  attrs.pairs.map (·.1)

/-- The values of an attribute, none if it is absent. -/
def get? (attrs : Attributes) (name : String) : Option (List String) :=
  attrs.pairs.get? name

/-- The values of an attribute; an absent one has no values. -/
def values (attrs : Attributes) (name : String) : List String :=
  (attrs.get? name).getD []

/-- The first value of an attribute. -/
def first? (attrs : Attributes) (name : String) : Option String :=
  (attrs.values name).head?

/-- Whether an attribute is there, with values or without. -/
def contains (attrs : Attributes) (name : String) : Bool :=
  (attrs.get? name).isSome

/-- Rewrites the values of an attribute, which comes last if it is new. -/
def upsert (attrs : Attributes) (name : String) (f : List String → List String) : Attributes :=
  ⟨attrs.pairs.upsert f name, AttributePairs.nodup_upsert attrs.distinct f name⟩

/-- Rewrites the values of an attribute, if it is there. -/
def adjust (attrs : Attributes) (name : String) (f : List String → List String) : Attributes :=
  ⟨attrs.pairs.adjust f name, by rw [AttributePairs.keys_adjust]; exact attrs.distinct⟩

/-- Gives an attribute these values in place of the ones it has. -/
def put (attrs : Attributes) (name : String) (values : List String) : Attributes :=
  attrs.upsert name fun _ => values

/-- Adds values to an attribute, which is created if it is new; values already there are not
repeated. -/
def extend (attrs : Attributes) (name : String) (values : List String) : Attributes :=
  attrs.upsert name fun old => OrderedSet.insertAll old values

/-- Removes an attribute. -/
def erase (attrs : Attributes) (name : String) : Attributes :=
  ⟨attrs.pairs.filter fun pair => !Text.same pair.1 name,
    AttributePairs.nodup_filter attrs.distinct _⟩

/-- Keeps the attributes asked for; no names at all, or a star among them, asks for all. -/
def project (attrs : Attributes) (wanted : List String) : Attributes :=
  if wanted.isEmpty || wanted.contains "*" then attrs
  else
    ⟨attrs.pairs.filter fun pair => Text.holds wanted pair.1,
      AttributePairs.nodup_filter attrs.distinct _⟩

/-- The attributes that a list of puts leaves behind. -/
def ofList (pairs : List (String × List String)) : Attributes :=
  pairs.foldl (fun attrs pair => attrs.put pair.1 pair.2) empty

end Attributes

/-! ## How a look-up sees a write -/

namespace AttributePairs

theorem get?_congr {a b : String} (h : Text.fold a = Text.fold b) (pairs : AttributePairs) :
    get? pairs a = get? pairs b := by
  have hs : (fun pair : String × List String => Text.same pair.1 a)
      = fun pair => Text.same pair.1 b := by
    funext pair
    rw [Bool.eq_iff_iff, Text.same_iff, Text.same_iff, h]
  simp only [get?, hs]

theorem get?_cons (pair : String × List String) (rest : AttributePairs) (name : String) :
    get? (pair :: rest) name = if Text.same pair.1 name then some pair.2 else get? rest name := by
  by_cases h : Text.same pair.1 name = true <;> simp only [get?, List.find?_cons, h] <;> simp

theorem get?_upsert (f : List String → List String) (name other : String)
    (pairs : AttributePairs) :
    get? (upsert f name pairs) other =
      if Text.same name other then some (f ((get? pairs name).getD [])) else get? pairs other := by
  induction pairs with
  | nil =>
    rw [upsert, get?_cons]
    simp [get?]
  | cons pair rest ih =>
    rw [upsert]
    by_cases h : Text.same pair.1 name = true
    · have hf := Text.same_iff.1 h
      rw [if_pos h, get?_cons, get?_cons, get?_cons, if_pos h]
      simp only [Text.same_iff, hf]
      split <;> rfl
    · rw [if_neg h, get?_cons, get?_cons, get?_cons, if_neg h, ih]
      by_cases ho : Text.same pair.1 other = true
      · have : ¬ Text.same name other = true := fun hn =>
          h (Text.same_iff.2 ((Text.same_iff.1 ho).trans (Text.same_iff.1 hn).symm))
        rw [if_pos ho, if_neg this, if_pos ho]
      · rw [if_neg ho, if_neg ho]

end AttributePairs

namespace Attributes

/-- A write is seen under every spelling of its name, and under no other name. -/
theorem get?_upsert (attrs : Attributes) (name other : String) (f : List String → List String) :
    (attrs.upsert name f).get? other =
      if Text.same name other then some (f (attrs.values name)) else attrs.get? other :=
  AttributePairs.get?_upsert f name other attrs.pairs

theorem get?_put (attrs : Attributes) (name other : String) (vs : List String) :
    (attrs.put name vs).get? other =
      if Text.same name other then some vs else attrs.get? other :=
  get?_upsert attrs name other _

theorem get?_extend (attrs : Attributes) (name other : String) (vs : List String) :
    (attrs.extend name vs).get? other =
      if Text.same name other then some (OrderedSet.insertAll (attrs.values name) vs)
      else attrs.get? other :=
  get?_upsert attrs name other _

end Attributes

end Roster
