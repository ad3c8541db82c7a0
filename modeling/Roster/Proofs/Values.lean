import Roster.Provision.Values

/-!
# What a modification does to the values of an attribute

Every write is seen through `Attributes.values`, under all spellings of the name that is written and
under no other name. From the single writes follow the items of a modification: `values_apply_of_ne`
is the frame rule, and `mem_values_applyAll_deletions` says which values survive a list of
deletions.
-/

namespace Roster

namespace Text

theorem same_symm {a b : String} (h : same a b = true) : same b a = true :=
  same_comm a b ▸ h

theorem same_trans {a b c : String} (hab : same a b = true) (hbc : same b c = true) :
    same a c = true :=
  same_iff.2 ((same_iff.1 hab).trans (same_iff.1 hbc))

/-- Whether a list holds a text does not depend on how the text is spelled. -/
theorem holds_congr {xs : List String} {x y : String} (h : same x y = true) :
    holds xs x = holds xs y := by
  rw [Bool.eq_iff_iff, holds_iff, holds_iff, same_iff.1 h]

theorem holds_of_mem {xs : List String} {x : String} (h : x ∈ xs) : holds xs x = true :=
  holds_iff.2 ⟨x, h, rfl⟩

theorem same_left {a b c : String} (h : same a b = true) : same a c = same b c := by
  rw [Bool.eq_iff_iff, same_iff, same_iff, same_iff.1 h]

theorem same_right {a b : String} (h : same a b = true) (c : String) : same c a = same c b := by
  rw [same_comm, same_left h, same_comm]

end Text

namespace AttributePairs

theorem get?_of_mem {pairs : AttributePairs} (hdistinct : (keys pairs).Nodup) {name key : String}
    {values : List String} (hmem : (name, values) ∈ pairs) (hname : Text.same name key = true) :
    get? pairs key = some values := by
  induction pairs with
  | nil => cases hmem
  | cons pair rest ih =>
    rw [keys_cons, List.nodup_cons] at hdistinct
    rw [get?_cons]
    rcases List.mem_cons.1 hmem with rfl | hmem
    · rw [if_pos hname]
    · have hother : ¬ Text.same pair.1 key = true := by
        intro hpair
        have hfold : Text.fold pair.1 = Text.fold name :=
          (Text.same_iff.1 hpair).trans (Text.same_iff.1 hname).symm
        refine hdistinct.1 ?_
        rw [hfold]
        exact List.mem_map.2 ⟨_, hmem, rfl⟩
      rw [if_neg hother]
      exact ih hdistinct.2 hmem

theorem mem_of_get? {pairs : AttributePairs} {key : String} {values : List String}
    (h : get? pairs key = some values) :
    ∃ name, (name, values) ∈ pairs ∧ Text.same name key = true := by
  obtain ⟨pair, hfind, rfl⟩ := Option.map_eq_some_iff.1 h
  have hsame := List.find?_some hfind
  exact ⟨pair.1, List.mem_of_find?_eq_some hfind, hsame⟩

theorem get?_of_not_mem {pairs : AttributePairs} {key : String} (h : Text.fold key ∉ keys pairs) :
    get? pairs key = none := by
  refine Option.eq_none_iff_forall_ne_some.2 fun values hget => h ?_
  obtain ⟨name, hmem, hname⟩ := mem_of_get? hget
  exact List.mem_map.2 ⟨_, hmem, Text.same_iff.1 hname⟩

/-- A filter that goes by names as they compare keeps what is under a name, or all of it goes. -/
theorem get?_filter_fold (kept : String → Bool) (pairs : AttributePairs) (name : String) :
    get? (pairs.filter fun pair => kept (Text.fold pair.1)) name =
      if kept (Text.fold name) then get? pairs name else none := by
  induction pairs with
  | nil => split <;> rfl
  | cons pair rest ih =>
    by_cases hpair : Text.same pair.1 name = true
    · rw [List.filter_cons, Text.same_iff.1 hpair, get?_cons, if_pos hpair]
      by_cases hkept : kept (Text.fold name) = true
      · rw [if_pos hkept, if_pos hkept, get?_cons, if_pos hpair]
      · rw [if_neg hkept, ih, if_neg hkept, if_neg hkept]
    · have hrest : get? ((pair :: rest).filter fun pair => kept (Text.fold pair.1)) name =
          get? (rest.filter fun pair => kept (Text.fold pair.1)) name := by
        rw [List.filter_cons]
        split
        · rw [get?_cons, if_neg hpair]
        · rfl
      rw [hrest, ih, get?_cons, if_neg hpair]

theorem get?_filter_not_same (pairs : AttributePairs) (name key : String) :
    get? (pairs.filter fun pair => !Text.same pair.1 name) key =
      if Text.same name key then none else get? pairs key := by
  refine (get?_filter_fold (fun other => !(other == Text.fold name)) pairs key).trans ?_
  rw [Text.same_comm, Text.same]
  cases Text.fold key == Text.fold name <;> rfl

end AttributePairs

/-- The item leaves every attribute with values that has some. -/
def Modification.Retains (item : Modification) : Prop :=
  item.op = .add ∨ item.op = .replace ∧ item.values ≠ []

namespace Attributes

/-! ## Single writes -/

theorem values_congr (attrs : Attributes) {a b : String} (h : Text.same a b = true) :
    attrs.values a = attrs.values b := by
  rw [values, values, get?, get?, AttributePairs.get?_congr (Text.same_iff.1 h)]

theorem values_of_mem {attrs : Attributes} {pair : String × List String} {name : String}
    (hmem : pair ∈ attrs.pairs) (hname : Text.same pair.1 name = true) :
    attrs.values name = pair.2 := by
  rw [values, get?, AttributePairs.get?_of_mem attrs.distinct hmem hname, Option.getD_some]

theorem values_put (attrs : Attributes) (name other : String) (vs : List String) :
    (attrs.put name vs).values other = if Text.same name other then vs else attrs.values other := by
  rw [values, get?_put]
  split <;> rfl

theorem get?_erase (attrs : Attributes) (name other : String) :
    (attrs.erase name).get? other = if Text.same name other then none else attrs.get? other :=
  AttributePairs.get?_filter_not_same attrs.pairs name other

theorem values_erase (attrs : Attributes) (name other : String) :
    (attrs.erase name).values other =
      if Text.same name other then [] else attrs.values other := by
  rw [values, get?_erase]
  split <;> rfl

theorem get?_settle (attrs : Attributes) (name other : String) (vs : List String) :
    (attrs.settle name vs).get? other =
      if Text.same name other then (if vs.isEmpty then none else some vs) else attrs.get? other := by
  unfold settle
  by_cases hvs : vs.isEmpty = true
  · rw [if_pos hvs, if_pos hvs, get?_erase]
  · rw [if_neg hvs, if_neg hvs, get?_put]

theorem values_settle (attrs : Attributes) (name other : String) (vs : List String) :
    (attrs.settle name vs).values other =
      if Text.same name other then vs else attrs.values other := by
  unfold settle
  split
  · next hvs => rw [values_erase, List.isEmpty_iff.1 hvs]
  · exact values_put attrs name other vs

theorem values_extend (attrs : Attributes) (name other : String) (vs : List String) :
    (attrs.extend name vs).values other =
      if Text.same name other then OrderedSet.insertAll (attrs.values name) vs
      else attrs.values other := by
  rw [values, get?_extend]
  split <;> rfl

/-- A value that is added was not there, and comes last. -/
theorem addValue_ok {dn name value : String} {attrs attrs' : Attributes}
    (h : addValue dn name attrs value = .ok attrs') :
    Text.holds (attrs.values name) value = false ∧
      ∀ other, attrs'.values other =
        if Text.same name other then attrs.values name ++ [value] else attrs.values other := by
  unfold addValue at h
  split at h
  · cases h
  · next hnot =>
    cases h
    rw [Bool.not_eq_true] at hnot
    refine ⟨hnot, fun other => ?_⟩
    have hnew : ¬ (attrs.values name).contains value = true := fun hmem => by
      rw [Text.holds_of_mem (List.contains_iff_mem.1 hmem)] at hnot
      cases hnot
    rw [values_extend, OrderedSet.insertAll_cons, OrderedSet.insertAll_nil, OrderedSet.insert,
      if_neg hnew]

/-- A value that is deleted was there, and its first spelling goes. -/
theorem deleteValue_ok {dn name value : String} {attrs attrs' : Attributes}
    (h : deleteValue dn name attrs value = .ok attrs') :
    Text.holds (attrs.values name) value = true ∧
      ∀ other, attrs'.values other =
        if Text.same name other then (attrs.values name).eraseP fun v => Text.same v value
        else attrs.values other := by
  unfold deleteValue at h
  split at h
  · next hholds =>
    cases h
    exact ⟨hholds, fun other => values_settle attrs name other _⟩
  · cases h

/-! ## Items -/

/-- Writes one after the other keep a property of the attributes if each of them does. -/
theorem foldlM_keeps {dn name : String} {P : Attributes → Prop}
    {write : String → String → Attributes → String → Except DirectoryError Attributes}
    {vs : List String}
    (hwrite : ∀ {attrs attrs' : Attributes} {value : String}, value ∈ vs →
      write dn name attrs value = .ok attrs' → P attrs → P attrs')
    {attrs attrs' : Attributes} (h : vs.foldlM (write dn name) attrs = .ok attrs')
    (hattrs : P attrs) : P attrs' := by
  induction vs generalizing attrs with
  | nil =>
    cases h
    exact hattrs
  | cons v vs ih =>
    rw [List.foldlM_cons] at h
    cases hv : write dn name attrs v with
    | error err =>
      rw [hv] at h
      cases h
    | ok mid =>
      rw [hv] at h
      exact ih (fun hmem => hwrite (List.mem_cons_of_mem v hmem)) h
        (hwrite List.mem_cons_self hv hattrs)

/-- An item writes no other attribute than the one that it names. -/
theorem get?_apply_of_ne {dn other : String} {attrs attrs' : Attributes} {item : Modification}
    (h : attrs.apply dn item = .ok attrs') (hne : ¬ Text.same item.name other = true) :
    attrs'.get? other = attrs.get? other := by
  unfold apply at h
  split at h
  · refine foldlM_keeps (P := fun mid => mid.get? other = attrs.get? other) ?_ h rfl
    intro mid mid' value _ hadd hmid
    unfold addValue at hadd
    split at hadd
    · cases hadd
    · cases hadd
      rw [get?_extend, if_neg hne, hmid]
  · split at h
    · split at h
      · cases h
        rw [get?_erase, if_neg hne]
      · cases h
    · refine foldlM_keeps (P := fun mid => mid.get? other = attrs.get? other) ?_ h rfl
      intro mid mid' value _ hdelete hmid
      unfold deleteValue at hdelete
      split at hdelete
      · cases hdelete
        rw [get?_settle, if_neg hne, hmid]
      · cases hdelete
  · cases h
    rw [get?_settle, if_neg hne]

theorem values_apply_of_ne {dn other : String} {attrs attrs' : Attributes} {item : Modification}
    (h : attrs.apply dn item = .ok attrs') (hne : ¬ Text.same item.name other = true) :
    attrs'.values other = attrs.values other := by
  rw [values, get?_apply_of_ne h hne, values]

/-- A modification is carried out item by item. -/
theorem applyAll_cons {dn : String} {attrs attrs' : Attributes} {item : Modification}
    {items : List Modification} :
    attrs.applyAll dn (item :: items) = .ok attrs' ↔
      ∃ mid, attrs.apply dn item = .ok mid ∧ mid.applyAll dn items = .ok attrs' := by
  rw [applyAll, List.foldlM_cons]
  cases attrs.apply dn item with
  | error err => simp [bind, Except.bind]
  | ok mid => simp [bind, Except.bind, applyAll]

/-- A modification leaves the attributes alone that none of its items names. -/
theorem get?_applyAll_of_ne {dn other : String} {items : List Modification}
    {attrs attrs' : Attributes} (h : attrs.applyAll dn items = .ok attrs')
    (hne : ∀ item ∈ items, ¬ Text.same item.name other = true) :
    attrs'.get? other = attrs.get? other := by
  induction items generalizing attrs with
  | nil =>
    cases h
    rfl
  | cons item items ih =>
    obtain ⟨mid, happly, hrest⟩ := applyAll_cons.1 h
    rw [ih hrest fun i hi => hne i (List.mem_cons_of_mem item hi),
      get?_apply_of_ne happly (hne item List.mem_cons_self)]

theorem values_applyAll_of_ne {dn other : String} {items : List Modification}
    {attrs attrs' : Attributes} (h : attrs.applyAll dn items = .ok attrs')
    (hne : ∀ item ∈ items, ¬ Text.same item.name other = true) :
    attrs'.values other = attrs.values other := by
  rw [values, get?_applyAll_of_ne h hne, values]

/-- Only an item that deletes, or that replaces by nothing, can leave an attribute without values. -/
theorem values_apply_ne_nil {dn name : String} {attrs attrs' : Attributes} {item : Modification}
    (h : attrs.apply dn item = .ok attrs') (hitem : item.Retains)
    (hne : attrs.values name ≠ []) : attrs'.values name ≠ [] := by
  by_cases hname : Text.same item.name name = true
  · unfold apply at h
    rcases hitem with hop | ⟨hop, hvalues⟩
    · simp only [hop] at h
      refine foldlM_keeps (P := fun attrs => attrs.values name ≠ []) (fun _ hadd _ => ?_) h hne
      rw [(addValue_ok hadd).2 name, if_pos hname]
      simp
    · simp only [hop] at h
      cases h
      rw [values_settle, if_pos hname]
      exact hvalues
  · rw [values_apply_of_ne h hname]
    exact hne

theorem values_applyAll_ne_nil {dn name : String} {items : List Modification}
    {attrs attrs' : Attributes} (h : attrs.applyAll dn items = .ok attrs')
    (hitems : ∀ item ∈ items, item.Retains) (hne : attrs.values name ≠ []) :
    attrs'.values name ≠ [] := by
  induction items generalizing attrs with
  | nil =>
    cases h
    exact hne
  | cons item items ih =>
    obtain ⟨mid, happly, hrest⟩ := applyAll_cons.1 h
    exact ih hrest (fun i hi => hitems i (List.mem_cons_of_mem item hi))
      (values_apply_ne_nil happly (hitems item List.mem_cons_self) hne)

/-! ## Replacements -/

/-- The items that give attributes new values. -/
def replacements (attrs : Attributes) : List Modification :=
  attrs.pairs.map fun (name, values) => ⟨.replace, name, values⟩

/-- Items that replace values cannot fail. -/
theorem exists_applyAll_replace (dn : String) (attrs : Attributes) {items : List Modification}
    (hitems : ∀ item ∈ items, item.op = .replace) :
    ∃ attrs', attrs.applyAll dn items = .ok attrs' := by
  induction items generalizing attrs with
  | nil => exact ⟨attrs, rfl⟩
  | cons item items ih =>
    have happly : attrs.apply dn item = .ok (attrs.settle item.name item.values) := by
      rw [apply, hitems item List.mem_cons_self]
    obtain ⟨attrs', hrest⟩ := ih (attrs.settle item.name item.values)
      fun i hi => hitems i (List.mem_cons_of_mem item hi)
    exact ⟨attrs', applyAll_cons.2 ⟨_, happly, hrest⟩⟩

/-- **A list of replacements puts its values in place**, and leaves the other attributes alone. An
attribute that gets no values goes. -/
theorem get?_applyAll_replacements {dn : String} {new attrs attrs' : Attributes}
    (h : attrs.applyAll dn new.replacements = .ok attrs') (name : String) :
    attrs'.get? name =
      match new.get? name with
      | some values => if values.isEmpty then none else some values
      | none => attrs.get? name := by
  obtain ⟨pairs, hdistinct⟩ := new
  unfold replacements at h
  show _ = match AttributePairs.get? pairs name with
    | some values => if values.isEmpty then none else some values
    | none => attrs.get? name
  dsimp only at h
  induction pairs generalizing attrs with
  | nil =>
    cases h
    rfl
  | cons pair rest ih =>
    rw [AttributePairs.keys_cons, List.nodup_cons] at hdistinct
    obtain ⟨mid, happly, hrest⟩ := applyAll_cons.1 h
    cases happly
    rw [ih hdistinct.2 hrest, AttributePairs.get?_cons, get?_settle]
    by_cases hname : Text.same pair.1 name = true
    · have hnone : AttributePairs.get? rest name = none :=
        AttributePairs.get?_of_not_mem (Text.same_iff.1 hname ▸ hdistinct.1)
      rw [hnone, if_pos hname, if_pos hname]
    · rw [if_neg hname, if_neg hname]

theorem values_applyAll_replacements {dn : String} {new attrs attrs' : Attributes}
    (h : attrs.applyAll dn new.replacements = .ok attrs') (name : String) :
    attrs'.values name = (new.get? name).getD (attrs.values name) := by
  rw [values, get?_applyAll_replacements h]
  cases new.get? name with
  | none => rfl
  | some values =>
    dsimp only
    split
    · next hempty => rw [List.isEmpty_iff.1 hempty, Option.getD_none, Option.getD_some]
    · rfl

/-! ## Deletions -/

theorem mem_values_deleteValues {dn name : String} {vs : List String} {attrs attrs' : Attributes}
    (h : vs.foldlM (deleteValue dn name) attrs = .ok attrs') {r : String}
    (hr : r ∈ attrs.values name) (hnone : ∀ v ∈ vs, ¬ Text.same v r = true) :
    r ∈ attrs'.values name := by
  refine foldlM_keeps (P := fun attrs => r ∈ attrs.values name) ?_ h hr
  intro attrs attrs' v hv hdelete hr
  rw [(deleteValue_ok hdelete).2 name, if_pos (Text.same_refl name)]
  have hkeep : ¬ Text.same r v = true := fun hsame => hnone v hv (Text.same_symm hsame)
  refine (List.mem_eraseP_of_neg ?_).2 hr
  exact hkeep

/-- The items that delete values of attributes, or whole attributes where no values are listed. -/
def deletions (attrs : Attributes) : List Modification :=
  attrs.pairs.map fun (name, values) => ⟨.delete, name, values⟩

/-- **A value survives a list of deletions** unless its attribute is listed without values, or the
value is listed in one of its spellings. -/
theorem mem_values_applyAll_deletions {dn : String} {removed attrs attrs' : Attributes}
    (h : attrs.applyAll dn removed.deletions = .ok attrs') {name r : String}
    (hr : r ∈ attrs.values name) (hwhole : removed.get? name ≠ some [])
    (hnone : ∀ v ∈ removed.values name, ¬ Text.same v r = true) : r ∈ attrs'.values name := by
  have hitems : ∀ item ∈ removed.deletions, item.op = .delete ∧
      (Text.same item.name name = true →
        item.values ≠ [] ∧ ∀ v ∈ item.values, ¬ Text.same v r = true) := by
    intro item hitem
    obtain ⟨pair, hpair, rfl⟩ := List.mem_map.1 hitem
    refine ⟨rfl, fun hname => ?_⟩
    have hget : removed.get? name = some pair.2 :=
      AttributePairs.get?_of_mem removed.distinct hpair hname
    constructor
    · rintro hempty
      exact hwhole (hget.trans (congrArg some hempty))
    · intro v hv
      refine hnone v ?_
      rw [values, hget]
      exact hv
  generalize removed.deletions = items at h hitems
  induction items generalizing attrs with
  | nil =>
    cases h
    exact hr
  | cons item items ih =>
    obtain ⟨mid, happly, hrest⟩ := applyAll_cons.1 h
    refine ih ?_ hrest fun i hi => hitems i (List.mem_cons_of_mem item hi)
    obtain ⟨hop, hvalues⟩ := hitems item List.mem_cons_self
    by_cases hname : Text.same item.name name = true
    · obtain ⟨hne, hother⟩ := hvalues hname
      unfold apply at happly
      simp only [hop, List.isEmpty_iff, if_neg hne] at happly
      rw [← values_congr _ hname] at hr ⊢
      exact mem_values_deleteValues happly hr hother
    · rw [values_apply_of_ne happly hname]
      exact hr

end Attributes

end Roster
