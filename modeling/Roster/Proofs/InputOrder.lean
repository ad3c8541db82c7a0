import Mathlib.Data.List.Induction
import Mathlib.Data.List.Nodup
import Roster.Proofs.InputValues
import Roster.Proofs.ReadingBack

/-!
# Input in another order

What an input leaves under a name is decided by the attributes of this name alone: by the last of
them if the name has a meaning of its own (`eq_of_latest`), and by all that are sent, joined in their
order, if it has none (`pair?_of_partition`). `Sorts` lists the pieces. An order of the attributes that
keeps those of each name in theirs is therefore accepted whenever another one is, and leaves the same
pieces, as `partition_reorders` states.
-/

namespace Roster

/-! ## Names with a meaning of their own -/

namespace InputRole

/-- The name that has a meaning, none for ordinary attributes. -/
def word? : InputRole → Option String
  | .uid => some "__UID__"
  | .name => some "__NAME__"
  | .groups kind => some kind.listAttribute
  | .password => some "__PASSWORD__"
  | .enable => some "__ENABLE__"
  | .resetPassword => some "RESET_PASSWORD"
  | .ordinary => none

theorem ofName_congr {a b : String} (h : Text.same a b = true) : ofName a = ofName b := by
  have hlist : MembershipKind.ofListAttribute? a = MembershipKind.ofListAttribute? b := by
    unfold MembershipKind.ofListAttribute?
    congr 1
    funext kind
    rw [Text.same_right h]
  unfold ofName
  rw [hlist]
  simp only [Text.same_left h]

theorem word?_ofName {name word : String} (h : (ofName name).word? = some word) :
    Text.same name word = true := by
  unfold ofName at h
  split at h
  · next hname => exact Option.some.inj h ▸ hname
  split at h
  · next hname => exact Option.some.inj h ▸ hname
  split at h
  · next kind hkind =>
    have hlist := List.find?_some hkind
    exact Option.some.inj h ▸ Text.same_symm hlist
  split at h
  · next hname => exact Option.some.inj h ▸ hname
  split at h
  · next hname => exact Option.some.inj h ▸ hname
  split at h
  · next hname => exact Option.some.inj h ▸ hname
  · cases h

theorem ofName_word {role : InputRole} {word : String} (h : role.word? = some word) :
    ofName word = role := by
  cases role with
  | groups kind => cases kind <;> cases h <;> decide
  | ordinary => cases h
  | uid | name | password | enable | resetPassword => cases h; decide

/-- A name has a meaning exactly if it spells the word for it. -/
theorem ofName_eq_iff {role : InputRole} {word : String} (h : role.word? = some word)
    {name : String} : ofName name = role ↔ Text.same name word = true := by
  constructor
  · rintro rfl
    exact word?_ofName h
  · intro hname
    rw [ofName_congr hname, ofName_word h]

/-- The names with a meaning of their own. -/
def words : List String :=
  ["__UID__", "__NAME__", "ldapGroups", "posixGroups", "aliasGroups", "__PASSWORD__", "__ENABLE__",
    "RESET_PASSWORD"]

/-- An attribute is ordinary if its name has no meaning of its own. -/
theorem ofName_eq_ordinary_iff {name : String} :
    ofName name = .ordinary ↔ Text.holds words name = false := by
  have hword {role : InputRole} {word : String} (h : role.word? = some word) : word ∈ words := by
    cases role with
    | groups kind => cases kind <;> cases h <;> decide
    | ordinary => cases h
    | uid | name | password | enable | resetPassword => cases h; decide
  have hrole {word : String} (h : word ∈ words) : ofName word ≠ .ordinary := by
    revert word
    decide
  constructor
  · intro hname
    rw [Bool.eq_false_iff]
    intro hholds
    obtain ⟨word, hmem, hfold⟩ := Text.holds_iff.1 hholds
    exact hrole hmem (ofName_congr (Text.same_iff.2 hfold) ▸ hname)
  · intro hnot
    cases hname : (ofName name).word? with
    | none =>
      cases hmeaning : ofName name with
      | ordinary => rfl
      | uid | name | password | enable | resetPassword | groups =>
        rw [hmeaning] at hname
        cases hname
    | some word =>
      have hholds : Text.holds words name = true :=
        Text.holds_iff.2 ⟨word, hword hname, (Text.same_iff.1 (word?_ofName hname)).symm⟩
      rw [hnot] at hholds
      cases hholds

end InputRole

/-! ## Pairs under their names -/

namespace AttributePairs

/-- A name as it is spelled, with its values. -/
def pair? (pairs : AttributePairs) (name : String) : Option (String × List String) :=
  pairs.find? fun pair => Text.same pair.1 name

theorem pair?_cons (pair : String × List String) (rest : AttributePairs) (name : String) :
    pair? (pair :: rest) name = if Text.same pair.1 name then some pair else pair? rest name := by
  by_cases h : Text.same pair.1 name = true <;> simp only [pair?, List.find?_cons, h] <;> simp

/-- A rewritten name keeps its spelling. -/
theorem pair?_upsert (f : List String → List String) (name other : String)
    (pairs : AttributePairs) :
    pair? (upsert f name pairs) other =
      if Text.same name other then
        some ((pair? pairs name).elim (name, f []) fun pair => (pair.1, f pair.2))
      else pair? pairs other := by
  induction pairs with
  | nil =>
    rw [upsert, pair?_cons]
    rfl
  | cons pair rest ih =>
    rw [upsert]
    by_cases h : Text.same pair.1 name = true
    · rw [if_pos h, pair?_cons, pair?_cons, pair?_cons, if_pos h, Text.same_left h]
      split <;> rfl
    · rw [if_neg h, pair?_cons, pair?_cons, pair?_cons, if_neg h, ih]
      by_cases ho : Text.same pair.1 other = true
      · have hnot : ¬ Text.same name other = true := fun hn =>
          h (Text.same_trans ho (Text.same_symm hn))
        rw [if_pos ho, if_neg hnot, if_pos ho]
      · rw [if_neg ho, if_neg ho]

/-- The pairs are those that are found under their own names. -/
theorem mem_iff_pair? {pairs : AttributePairs} (hdistinct : (keys pairs).Nodup)
    {pair : String × List String} : pair ∈ pairs ↔ pair? pairs pair.1 = some pair := by
  constructor
  · intro hmem
    unfold pair?
    cases hfind : pairs.find? fun other => Text.same other.1 pair.1 with
    | none =>
      have hnone := List.find?_eq_none.1 hfind pair hmem
      exact absurd (Text.same_refl pair.1) hnone
    | some other =>
      have hother : other ∈ pairs := List.mem_of_find?_eq_some hfind
      have hsame := List.find?_some hfind
      rw [List.inj_on_of_nodup_map hdistinct hother hmem (Text.same_iff.1 hsame)]
  · exact List.mem_of_find?_eq_some

/-- A name is under at most one spelling. -/
theorem countP_same {pairs : AttributePairs} (hdistinct : (keys pairs).Nodup) (name : String) :
    pairs.countP (fun pair => Text.same pair.1 name) =
      if (pair? pairs name).isSome = true then 1 else 0 := by
  induction pairs with
  | nil => rfl
  | cons pair rest ih =>
    rw [keys_cons, List.nodup_cons] at hdistinct
    rw [List.countP_cons, pair?_cons, ih hdistinct.2]
    by_cases h : Text.same pair.1 name = true
    · have hrest : pair? rest name = none := by
        refine List.find?_eq_none.2 fun other hother hsame => hdistinct.1 ?_
        have hfold : Text.fold other.1 = Text.fold pair.1 :=
          (Text.same_iff.1 hsame).trans (Text.same_iff.1 h).symm
        exact hfold ▸ List.mem_map_of_mem hother
      simp [h, hrest]
    · simp [h]

end AttributePairs

/-! ## What one attribute says -/

namespace InputAttribute

/-- The texts of the values that have one. -/
def texts (a : InputAttribute) : List String :=
  a.values.filterMap InputValue.encode?

/-- The request that a list of groups makes, if it can be read. -/
def request (a : InputAttribute) : GroupRequest :=
  match a.values.mapM a.dnOf with
  | .ok groups => .ofGroups groups
  | .error _ => .untouched

theorem map_encode? (a : InputAttribute) (h : ∀ v ∈ a.values, ∃ text, v.encode? = some text) :
    a.values.map InputValue.encode? = a.texts.map some := by
  unfold texts
  rw [List.map_filterMap, ← List.filterMap_eq_map]
  refine List.filterMap_congr fun v hv => ?_
  obtain ⟨text, htext⟩ := h v hv
  simp [htext]

theorem mapM_encode? {values : List InputValue} {texts : List String}
    (h : values.mapM InputValue.encode? = some texts) :
    texts = values.filterMap InputValue.encode? ∧ ∀ v ∈ values, ∃ text, v.encode? = some text := by
  induction values generalizing texts with
  | nil =>
    cases h
    exact ⟨rfl, nofun⟩
  | cons v values ih =>
    rw [List.mapM_cons] at h
    obtain ⟨text, hv, h⟩ := Option.bind_eq_some_iff.1 h
    obtain ⟨rest, hrest, h⟩ := Option.bind_eq_some_iff.1 h
    cases h
    obtain ⟨rfl, hall⟩ := ih hrest
    rw [List.filterMap_cons_some hv, List.forall_mem_cons]
    exact ⟨rfl, ⟨text, hv⟩, hall⟩

/-- If the values can be sent, none of them is without a text. -/
theorem of_encoded {a : InputAttribute} {values : List String} (h : a.encoded = .ok values) :
    values = a.texts ∧ ∀ v ∈ a.values, ∃ text, v.encode? = some text := by
  unfold encoded at h
  cases hmap : a.values.mapM InputValue.encode? with
  | none =>
    rw [hmap] at h
    cases h
  | some texts =>
    rw [hmap] at h
    cases h
    exact mapM_encode? hmap

end InputAttribute

theorem GroupRequests.eq_of_get {requests other : GroupRequests}
    (h : ∀ kind, requests.get kind = other.get kind) : requests = other := by
  cases requests
  cases other
  congr 1
  · exact h .static
  · exact h .posix
  · exact h .mailAlias

namespace Input

/-- Whether an ordinary attribute is sent: on creation only with values. -/
def isSent (mode : InputMode) (a : InputAttribute) : Bool :=
  !(a.values.isEmpty && mode = .create)

/-- The values that an attribute adds to those that came before under its name. -/
def gather (earlier : Option (String × List String)) (a : InputAttribute) :
    String × List String :=
  earlier.elim (a.name, a.texts) fun pair => (pair.1, OrderedSet.insertAll pair.2 a.texts)

/-- What an attribute changes: the part of the input that its name stands for. -/
structure Step (mode : InputMode) (input : Input) (a : InputAttribute) (next : Input) : Prop where
  name : next.name =
    if InputRole.ofName a.name = .name then a.singleDn.toOption else input.name
  enable : next.enable =
    if InputRole.ofName a.name = .enable then a.boolean.toOption.join else input.enable
  password : next.password =
    if InputRole.ofName a.name = .password then a.password.toOption.join else input.password
  resetPassword : next.resetPassword =
    if InputRole.ofName a.name = .resetPassword then a.boolean.toOption.join.getD false
    else input.resetPassword
  requests (kind : MembershipKind) : next.requests.get kind =
    if InputRole.ofName a.name = .groups kind then a.request else input.requests.get kind
  ordinary : next.ordinary =
    if InputRole.ofName a.name = .ordinary then (input.addOrdinary mode a.name a.texts).ordinary
    else input.ordinary

theorem step_of_take {mode : InputMode} {input next : Input} {a : InputAttribute}
    (h : input.take mode a = .ok next) : Step mode input a next := by
  have htakes := take_ok h
  cases hrole : InputRole.ofName a.name with
  | uid =>
    rw [hrole] at htakes
    cases htakes
  | name =>
    rw [hrole] at htakes
    obtain ⟨-, dn, hdn, rfl⟩ := htakes
    constructor <;> simp [hrole, hdn, Except.toOption]
  | groups kind =>
    rw [hrole] at htakes
    obtain ⟨groups, hgroups, rfl⟩ := htakes
    constructor <;> simp [hrole, GroupRequests.get_set, InputAttribute.request, hgroups]
  | password =>
    rw [hrole] at htakes
    obtain ⟨password, hpassword, rfl⟩ := htakes
    constructor <;> simp [hrole, hpassword, Except.toOption]
  | enable =>
    rw [hrole] at htakes
    obtain ⟨enable, henable, rfl⟩ := htakes
    constructor <;> simp [hrole, henable, Except.toOption]
  | resetPassword =>
    rw [hrole] at htakes
    obtain ⟨asked, hasked, rfl⟩ := htakes
    constructor <;> simp [hrole, hasked, Except.toOption]
  | ordinary =>
    rw [hrole] at htakes
    obtain ⟨values, hvalues, rfl⟩ := htakes
    obtain ⟨rfl, -⟩ := InputAttribute.of_encoded hvalues
    rw [addOrdinary_eq]
    constructor <;> simp [hrole]

/-! ## What is accepted -/

/-- Whether an attribute is accepted does not depend on those before it. -/
theorem isOk_take (mode : InputMode) (input : Input) (a : InputAttribute) :
    (input.take mode a).isOk = (take mode {} a).isOk := by
  unfold take
  cases InputRole.ofName a.name with
  | uid => rfl
  | name =>
    dsimp only
    split
    · rfl
    · cases a.singleDn <;> rfl
  | groups kind => cases a.values.mapM a.dnOf <;> rfl
  | password => cases a.password <;> rfl
  | enable | resetPassword => cases a.boolean <;> rfl
  | ordinary => cases a.encoded <;> rfl

theorem isOk_bind {α β ε : Type} {x : Except ε α} {f : α → Except ε β} :
    (x >>= f).isOk = true ↔ ∃ a, x = .ok a ∧ (f a).isOk = true := by
  cases x with
  | error e => simp [bind, Except.bind, Except.isOk, Except.toBool]
  | ok a => simp [bind, Except.bind]

theorem isOk_iff {α ε : Type} {x : Except ε α} : x.isOk = true ↔ ∃ a, x = .ok a := by
  cases x <;> simp [Except.isOk, Except.toBool]

/-- An input is accepted if each of its attributes is. -/
theorem isOk_foldlM_take {mode : InputMode} {attributes : List InputAttribute} {start : Input} :
    (attributes.foldlM (take mode) start).isOk = true ↔
      ∀ a ∈ attributes, (take mode {} a).isOk = true := by
  induction attributes generalizing start with
  | nil => simp [Except.isOk, Except.toBool, pure, Except.pure]
  | cons a rest ih =>
    rw [List.foldlM_cons, isOk_bind, List.forall_mem_cons, ← isOk_take mode start, isOk_iff]
    simp only [ih]
    exact exists_and_right

/-! ## What the attributes of one name leave -/

/-- The attributes of an input under one name, in their order. -/
def named (attributes : List InputAttribute) (name : String) : List InputAttribute :=
  attributes.filter fun a => Text.same a.name name

/-- The last attribute of an input under a name. -/
def latest? (attributes : List InputAttribute) (name : String) : Option InputAttribute :=
  (named attributes name).getLast?

/-- What an input sends under a name: the texts of the first attribute of this name that is sent, and
those of the later ones that are not there yet. -/
def gathered (mode : InputMode) (attributes : List InputAttribute) (name : String) :
    Option (String × List String) :=
  match (named attributes name).filter (isSent mode) with
  | [] => none
  | first :: rest =>
    some (first.name, rest.foldl (fun old a => OrderedSet.insertAll old a.texts) first.texts)

theorem mem_of_latest? {attributes : List InputAttribute} {name : String} {a : InputAttribute}
    (h : latest? attributes name = some a) : a ∈ attributes ∧ Text.same a.name name = true :=
  List.mem_filter.1 (List.mem_of_getLast? h)

theorem named_append (attributes : List InputAttribute) (a : InputAttribute) (name : String) :
    named (attributes ++ [a]) name =
      if Text.same a.name name then named attributes name ++ [a] else named attributes name := by
  rw [named, List.filter_append, ← named]
  split <;> next h => simp [h]

theorem latest?_append (attributes : List InputAttribute) (a : InputAttribute) (name : String) :
    latest? (attributes ++ [a]) name =
      if Text.same a.name name then some a else latest? attributes name := by
  rw [latest?, named_append]
  split
  · exact List.getLast?_concat
  · rfl

theorem gathered_append (mode : InputMode) (attributes : List InputAttribute) (a : InputAttribute)
    (name : String) :
    gathered mode (attributes ++ [a]) name =
      if Text.same a.name name = true ∧ isSent mode a = true then
        some (gather (gathered mode attributes name) a)
      else gathered mode attributes name := by
  unfold gathered
  rw [named_append]
  by_cases hname : Text.same a.name name = true
  · by_cases hsent : isSent mode a = true
    · rw [if_pos hname, if_pos ⟨hname, hsent⟩, List.filter_append, List.filter_cons_of_pos hsent,
        List.filter_nil]
      cases (named attributes name).filter (isSent mode) with
      | nil => rfl
      | cons first rest => simp [gather]
    · rw [if_pos hname, if_neg fun both => hsent both.2, List.filter_append,
        List.filter_cons_of_neg hsent, List.filter_nil, List.append_nil]
  · rw [if_neg hname, if_neg fun both => hname both.1]

theorem partition_append {mode : InputMode} {attributes : List InputAttribute} {a : InputAttribute}
    {next : Input} (h : partition mode (attributes ++ [a]) = .ok next) :
    ∃ input, partition mode attributes = .ok input ∧ input.take mode a = .ok next := by
  unfold partition at h
  rw [List.foldlM_append] at h
  obtain ⟨input, hinput, hlast⟩ := Dn.bind_ok h
  obtain ⟨next', htake, heq⟩ := Dn.bind_ok hlast
  cases heq
  exact ⟨input, hinput, htake⟩

variable {mode : InputMode} {attributes : List InputAttribute} {input : Input}

/-- A part of the input that the attributes of one name decide is decided by the last of them. -/
theorem eq_of_latest {γ : Type} (part : Input → γ) (role : InputRole) {read : InputAttribute → γ}
    {word : String} (hword : role.word? = some word)
    (hstep : ∀ {input next : Input} {a : InputAttribute}, Step mode input a next →
      part next = if InputRole.ofName a.name = role then read a else part input)
    (h : partition mode attributes = .ok input) :
    part input = (latest? attributes word).elim (part {}) read := by
  induction attributes using List.reverseRecOn generalizing input with
  | nil =>
    cases h
    rfl
  | append_singleton attributes a ih =>
    obtain ⟨before, hbefore, htake⟩ := partition_append h
    rw [hstep (step_of_take htake), ih hbefore, latest?_append]
    simp only [InputRole.ofName_eq_iff hword]
    split <;> rfl

/-- An ordinary attribute that is accepted has no value without a text. -/
theorem encoded_of_take {next : Input} {a : InputAttribute} (h : input.take mode a = .ok next)
    (hrole : InputRole.ofName a.name = .ordinary) :
    ∀ v ∈ a.values, ∃ text, v.encode? = some text := by
  have htakes := take_ok h
  rw [hrole] at htakes
  obtain ⟨values, hvalues, -⟩ := htakes
  exact (InputAttribute.of_encoded hvalues).2

theorem texts_isEmpty {next : Input} {a : InputAttribute} (h : input.take mode a = .ok next)
    (hrole : InputRole.ofName a.name = .ordinary) : a.texts.isEmpty = a.values.isEmpty := by
  have hall := encoded_of_take h hrole
  unfold InputAttribute.texts
  cases hvalues : a.values with
  | nil => rfl
  | cons v rest =>
    obtain ⟨text, hv⟩ := hall v (hvalues ▸ List.mem_cons_self)
    rw [List.filterMap_cons_some hv]
    rfl

/-- The values that an attribute sends join those under its name. -/
theorem pair?_addOrdinary (input : Input) {a : InputAttribute}
    (hempty : a.texts.isEmpty = a.values.isEmpty) (name : String) :
    (input.addOrdinary mode a.name a.texts).ordinary.pairs.pair? name =
      if Text.same a.name name = true ∧ isSent mode a = true then
        some (gather (input.ordinary.pairs.pair? name) a)
      else input.ordinary.pairs.pair? name := by
  have hskip : (a.texts.isEmpty = true ∧ mode = .create) ↔ ¬ isSent mode a = true := by
    simp [isSent, hempty]
  unfold addOrdinary
  by_cases hsent : isSent mode a = true
  · rw [if_neg fun h => hskip.1 h hsent]
    by_cases hname : Text.same a.name name = true
    · have hfound : input.ordinary.pairs.pair? a.name = input.ordinary.pairs.pair? name := by
        simp only [AttributePairs.pair?, Text.same_right hname]
      have hcontains : input.ordinary.contains a.name =
          (input.ordinary.pairs.pair? name).isSome := by
        rw [← hfound]
        exact Option.isSome_map
      rw [hcontains, if_pos (And.intro hname hsent)]
      split
      · next hsome =>
        refine (AttributePairs.pair?_upsert _ _ _ _).trans ?_
        rw [if_pos hname, hfound]
        cases hpair : input.ordinary.pairs.pair? name with
        | none =>
          rw [hpair] at hsome
          cases hsome
        | some pair => rfl
      · next hnone =>
        refine (AttributePairs.pair?_upsert _ _ _ _).trans ?_
        rw [if_pos hname, hfound, Option.not_isSome_iff_eq_none.1 hnone]
        rfl
    · have hother : ¬ (Text.same a.name name = true ∧ isSent mode a = true) := fun both =>
        hname both.1
      rw [if_neg hother]
      split
      · exact (AttributePairs.pair?_upsert _ _ _ _).trans (if_neg hname)
      · exact (AttributePairs.pair?_upsert _ _ _ _).trans (if_neg hname)
  · rw [if_pos (hskip.2 hsent), if_neg fun both => hsent both.2]

/-- The ordinary part holds, under a name without a meaning, what the input sends under it. -/
theorem pair?_of_partition (h : partition mode attributes = .ok input) (name : String) :
    input.ordinary.pairs.pair? name =
      if InputRole.ofName name = .ordinary then gathered mode attributes name else none := by
  -- From the right: an attribute joins what those before it have left, which `gathered` follows.
  induction attributes using List.reverseRecOn generalizing input with
  | nil =>
    cases h
    simp [gathered, named, AttributePairs.pair?, Attributes.empty]
  | append_singleton attributes a ih =>
    obtain ⟨before, hbefore, htake⟩ := partition_append h
    rw [(step_of_take htake).ordinary, gathered_append]
    by_cases hname : Text.same a.name name = true
    · rw [InputRole.ofName_congr hname]
      by_cases hrole : InputRole.ofName name = .ordinary
      · have htexts := texts_isEmpty htake (InputRole.ofName_congr hname ▸ hrole)
        rw [if_pos hrole, if_pos hrole, pair?_addOrdinary before htexts, ih hbefore, if_pos hrole]
      · rw [if_neg hrole, if_neg hrole, ih hbefore, if_neg hrole]
    · have hother : ¬ (Text.same a.name name = true ∧ isSent mode a = true) := fun both =>
        hname both.1
      rw [if_neg hother, ← ih hbefore]
      split
      · next hrole =>
        rw [pair?_addOrdinary before (texts_isEmpty htake hrole), if_neg hother]
      · rfl

/-! ## What a sorted input holds -/

/-- What the attributes of an input leave, each name on its own. -/
structure Sorts (mode : InputMode) (attributes : List InputAttribute) (input : Input) : Prop where
  name : input.name = (latest? attributes "__NAME__").elim none fun a => a.singleDn.toOption
  enable : input.enable = (latest? attributes "__ENABLE__").elim none fun a => a.boolean.toOption.join
  password :
    input.password = (latest? attributes "__PASSWORD__").elim none fun a => a.password.toOption.join
  resetPassword : input.resetPassword =
    (latest? attributes "RESET_PASSWORD").elim false fun a => a.boolean.toOption.join.getD false
  /-- The memberships of a kind that is not listed are left alone. -/
  untouched (kind : MembershipKind) (habsent : latest? attributes kind.listAttribute = none) :
    input.requests.get kind = .untouched
  /-- An empty list ends the memberships of its kind. -/
  removeAll (kind : MembershipKind) {a : InputAttribute}
    (hlast : latest? attributes kind.listAttribute = some a) (hempty : a.values = []) :
    input.requests.get kind = .removeAll
  /-- A list with groups asks for them, in their order. -/
  replace (kind : MembershipKind) {a : InputAttribute}
    (hlast : latest? attributes kind.listAttribute = some a) (hsome : a.values ≠ []) :
    ∃ groups : List Dn, input.requests.get kind = .replace groups ∧
      List.Forall₂ (fun v dn => ∃ raw, v = .text raw ∧ Dn.parse raw = .ok dn ∧ dn.isRoot = false)
        a.values groups
  /-- A name with a meaning is nowhere among the ordinary ones, in whatever case. -/
  proper : ∀ pair ∈ input.ordinary.pairs, Text.holds InputRole.words pair.1 = false
  /-- An ordinary attribute has a text for each of its values, so none of them is a secret. -/
  plain : ∀ a ∈ attributes, Text.holds InputRole.words a.name = false →
    (∀ s, InputValue.secret s ∉ a.values) ∧ a.values.map InputValue.encode? = a.texts.map some
  /-- Each other name is there once, unless none of its attributes is sent. -/
  once (name : String) (hordinary : Text.holds InputRole.words name = false) :
    input.ordinary.pairs.countP (fun pair => Text.same pair.1 name) =
      if ∃ a ∈ attributes, Text.same a.name name = true ∧ isSent mode a = true then 1 else 0
  /-- What is under a name came from the attributes of this name, one after the other. -/
  joined : ∀ pair ∈ input.ordinary.pairs, gathered mode attributes pair.1 = some pair

theorem isSome_gathered {name : String} : (gathered mode attributes name).isSome = true ↔
    ∃ a ∈ attributes, Text.same a.name name = true ∧ isSent mode a = true := by
  unfold gathered
  cases hsent : (named attributes name).filter (isSent mode) with
  | nil =>
    refine ⟨nofun, ?_⟩
    rintro ⟨a, ha, hname, hsends⟩
    exact absurd hsends (List.filter_eq_nil_iff.1 hsent a (List.mem_filter.2 ⟨ha, hname⟩))
  | cons first rest =>
    have hfirst : first ∈ (named attributes name).filter (isSent mode) :=
      hsent ▸ List.mem_cons_self
    obtain ⟨hmem, hsends⟩ := List.mem_filter.1 hfirst
    obtain ⟨hmem, hname⟩ := List.mem_filter.1 hmem
    exact ⟨fun _ => ⟨first, hmem, hname, hsends⟩, fun _ => rfl⟩

/-- An accepted attribute was accepted on its own. -/
theorem exists_take (h : partition mode attributes = .ok input) {a : InputAttribute}
    (ha : a ∈ attributes) : ∃ next, take mode {} a = .ok next :=
  isOk_iff.1 (isOk_foldlM_take.1 (isOk_iff.2 ⟨input, h⟩) a ha)

theorem requests_of_partition (h : partition mode attributes = .ok input) (kind : MembershipKind) :
    input.requests.get kind =
      (latest? attributes kind.listAttribute).elim .untouched InputAttribute.request := by
  have hlatest := eq_of_latest (fun input => input.requests.get kind) (.groups kind) rfl
    (fun hstep => hstep.requests kind) h
  rw [hlatest]
  cases kind <;> rfl

theorem sorts_of_partition (h : partition mode attributes = .ok input) :
    Sorts mode attributes input where
  name := eq_of_latest Input.name .name rfl Step.name h
  enable := eq_of_latest Input.enable .enable rfl Step.enable h
  password := eq_of_latest Input.password .password rfl Step.password h
  resetPassword := eq_of_latest Input.resetPassword .resetPassword rfl Step.resetPassword h
  untouched kind habsent := by
    rw [requests_of_partition h, habsent]
    rfl
  removeAll kind a hlast hempty := by
    rw [requests_of_partition h, hlast, Option.elim_some, InputAttribute.request, hempty]
    rfl
  replace kind a hlast hsome := by
    obtain ⟨ha, hname⟩ := mem_of_latest? hlast
    obtain ⟨next, htake⟩ := exists_take h ha
    have hrole : InputRole.ofName a.name = .groups kind :=
      (InputRole.ofName_eq_iff rfl).2 hname
    have htakes := take_ok htake
    rw [hrole] at htakes
    obtain ⟨groups, hgroups, -⟩ := htakes
    have hall := Dn.mapM_eq_ok_iff.1 hgroups
    refine ⟨groups, ?_, hall.imp fun v dn => a.dnOf_ok⟩
    have hnonempty : groups ≠ [] := by
      rintro rfl
      exact hsome (List.forall₂_nil_right_iff.1 hall)
    rw [requests_of_partition h, hlast, Option.elim_some, InputAttribute.request, hgroups]
    exact if_neg fun hnil => hnonempty (List.isEmpty_iff.1 hnil)
  proper pair hpair := by
    have hfound := (AttributePairs.mem_iff_pair? input.ordinary.distinct).1 hpair
    rw [pair?_of_partition h] at hfound
    split at hfound
    · next hrole => exact InputRole.ofName_eq_ordinary_iff.1 hrole
    · cases hfound
  plain a ha hordinary := by
    obtain ⟨next, htake⟩ := exists_take h ha
    have hall := encoded_of_take htake (InputRole.ofName_eq_ordinary_iff.2 hordinary)
    refine ⟨fun s hs => ?_, ?_⟩
    · obtain ⟨text, htext⟩ := hall _ hs
      cases htext
    · exact a.map_encode? hall
  once name hordinary := by
    rw [AttributePairs.countP_same input.ordinary.distinct, pair?_of_partition h,
      if_pos (InputRole.ofName_eq_ordinary_iff.2 hordinary)]
    simp only [isSome_gathered]
  joined pair hpair := by
    have hfound := (AttributePairs.mem_iff_pair? input.ordinary.distinct).1 hpair
    rw [pair?_of_partition h] at hfound
    split at hfound
    · exact hfound
    · cases hfound

/-! ## Another order -/

/-- A permutation that keeps the order of the attributes under each name. -/
structure Reorders (xs ys : List InputAttribute) : Prop where
  perm : xs.Perm ys
  keeps (name : String) : named xs name = named ys name

/-- Two inputs that are equal apart from the order of the ordinary names. -/
structure Matches (input other : Input) : Prop where
  name : input.name = other.name
  enable : input.enable = other.enable
  requests : input.requests = other.requests
  password : input.password = other.password
  resetPassword : input.resetPassword = other.resetPassword
  ordinary : input.ordinary.pairs.Perm other.ordinary.pairs

/-- Two neighbours with different names may change places. -/
theorem reorders_swap {a b : InputAttribute} (h : Text.same a.name b.name = false)
    (before after : List InputAttribute) :
    Reorders (before ++ a :: b :: after) (before ++ b :: a :: after) where
  perm := (List.Perm.swap b a after).append_left before
  keeps name := by
    have hone : ¬ (Text.same a.name name = true ∧ Text.same b.name name = true) := by
      rintro ⟨ha, hb⟩
      rw [Text.same_trans ha (Text.same_symm hb)] at h
      cases h
    simp only [named, List.filter_append, List.filter_cons]
    by_cases ha : Text.same a.name name = true
    · have hb : ¬ Text.same b.name name = true := fun hb => hone ⟨ha, hb⟩
      rw [if_pos ha, if_neg hb, if_neg hb, if_pos ha]
    · rw [if_neg ha, if_neg ha]

variable {xs ys : List InputAttribute}

theorem Reorders.latest?_eq (h : Reorders xs ys) (name : String) : latest? xs name = latest? ys name := by
  rw [latest?, h.keeps, ← latest?]

theorem Reorders.gathered_eq (h : Reorders xs ys) (name : String) :
    gathered mode xs name = gathered mode ys name := by
  unfold gathered
  rw [h.keeps]

theorem exists_partition_iff :
    (∃ input, partition mode attributes = .ok input) ↔
      ∀ a ∈ attributes, (take mode {} a).isOk = true := by
  rw [← isOk_iff]
  exact isOk_foldlM_take

theorem matches_of_reorders (h : Reorders xs ys) {other : Input}
    (hinput : partition mode xs = .ok input) (hother : partition mode ys = .ok other) :
    Matches input other := by
  have hx := sorts_of_partition hinput
  have hy := sorts_of_partition hother
  refine ⟨?_, ?_, ?_, ?_, ?_, ?_⟩
  · rw [hx.name, hy.name, h.latest?_eq]
  · rw [hx.enable, hy.enable, h.latest?_eq]
  · have hget (kind : MembershipKind) : input.requests.get kind = other.requests.get kind := by
      rw [requests_of_partition hinput, requests_of_partition hother, h.latest?_eq]
    exact GroupRequests.eq_of_get hget
  · rw [hx.password, hy.password, h.latest?_eq]
  · rw [hx.resetPassword, hy.resetPassword, h.latest?_eq]
  · have hnodup (attrs : Attributes) : attrs.pairs.Nodup := attrs.distinct.of_map _
    refine (List.perm_ext_iff_of_nodup (hnodup _) (hnodup _)).2 fun pair => ?_
    rw [AttributePairs.mem_iff_pair? input.ordinary.distinct,
      AttributePairs.mem_iff_pair? other.ordinary.distinct, pair?_of_partition hinput,
      pair?_of_partition hother, h.gathered_eq]

/-- **Input is sorted whatever its order**: with the attributes of each name in their order, another
order of the attributes is accepted if and only if the first is, and leaves the same pieces. What is
under a name comes from the attributes of this name alone. -/
theorem partition_reorders (mode : InputMode) (h : Reorders xs ys) :
    ((∃ input, partition mode xs = .ok input) ↔ ∃ other, partition mode ys = .ok other) ∧
      ∀ input, partition mode xs = .ok input → Sorts mode xs input ∧
        ∀ other, partition mode ys = .ok other → Matches input other := by
  refine ⟨?_, fun input hinput =>
    ⟨sorts_of_partition hinput, fun other hother => matches_of_reorders h hinput hother⟩⟩
  rw [exists_partition_iff, exists_partition_iff]
  exact forall_congr' fun a => imp_congr_left h.perm.mem_iff

end Input

namespace Sample

/-- Attributes of four names; those for `mail` come first and last, in different case. -/
def mailAround : List InputAttribute :=
  [⟨"mail", [.text "a", .text "a"]⟩, ⟨"PosixGroups", []⟩, ⟨"__enable__", [.boolean true]⟩,
    ⟨"Mail", [.text "b", .text "a"]⟩]

/-- The same attributes with those for `mail` together. -/
def mailTogether : List InputAttribute :=
  [⟨"mail", [.text "a", .text "a"]⟩, ⟨"PosixGroups", []⟩, ⟨"Mail", [.text "b", .text "a"]⟩,
    ⟨"__enable__", [.boolean true]⟩]

theorem partition_mailAround :
    Input.Reorders mailAround mailTogether ∧
      ∃ input, Input.partition .update mailAround = .ok input ∧
        input.ordinary.pairs = [("mail", ["a", "a", "b"])] ∧
        input.requests.get .posix = .removeAll ∧ Input.Sorts .update mailAround input ∧
        ∀ other, Input.partition .update mailTogether = .ok other → Input.Matches input other := by
  have hreorders : Input.Reorders mailAround mailTogether :=
    Input.reorders_swap (by decide) [_, _] []
  obtain ⟨hsorts, hmatches⟩ := (Input.partition_reorders .update hreorders).2
    { enable := some true, requests := { posix := .removeAll },
      ordinary := .ofList [("mail", ["a", "a", "b"])] } (by decide +kernel)
  exact ⟨hreorders, _, by decide +kernel, by decide +kernel, rfl, hsorts, hmatches⟩

end Sample

end Roster
