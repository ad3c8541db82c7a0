import Mathlib.Data.List.Induction
import Mathlib.Data.List.Infix
import Roster.Proofs.Regrouping
import Roster.Proofs.Sessions

/-!
# Values in two spellings

A modification adds no value of which an attribute holds a spelling, and a rename drops the values of
the old name in every spelling. The values of a new name come in differently: only one that is there
letter for letter is left out. A request that gives an entry such a name leaves two spellings of one
value (`Rdn.Respells`), and nothing else does: all along a session every value has one spelling exactly
if no accepted request of it respells one (`session_valuesDistinct_iff`).
-/

namespace Roster

open Directory (stamped renamedDn renamedAttributes moveDescendants exchange)

/-! ## Lists of values -/

namespace Text

/-- Values that come in leave one spelling of each value if every spelling of them that is there, or
comes in too, is letter for letter the same. -/
theorem distinct_insertAll_iff {xs ys : List String} (h : Distinct xs) :
    Distinct (OrderedSet.insertAll xs ys) ↔
      ∀ y ∈ ys, ∀ v ∈ xs ++ ys, same v y = true → v = y := by
  have hxs : xs.Pairwise fun a b => (a == b) = false :=
    (List.Nodup.of_map fold h).imp fun hne => beq_eq_false_iff_ne.2 hne
  have hnodup : (OrderedSet.insertAll xs ys).Nodup :=
    (OrderedSet.pairwise_insertAll hxs ys).imp fun heq => beq_eq_false_iff_ne.1 heq
  unfold Distinct
  rw [List.nodup_map_iff_inj_on hnodup]
  simp only [OrderedSet.mem_insertAll, List.mem_append, same_iff]
  constructor
  · intro hinj y hy v hv hsame
    exact hinj v hv y (.inr hy) hsame
  · intro hnew a ha b hb hsame
    rcases hb with hb | hb
    · rcases ha with ha | ha
      · exact List.inj_on_of_nodup_map h ha hb hsame
      · exact (hnew a ha b (.inl hb) hsame.symm).symm
    · exact hnew b hb a ha hsame

theorem distinct_singleton (value : String) : Distinct [value] :=
  List.nodup_singleton _

end Text

/-! ## Attributes -/

/-- Every value of every attribute has one spelling. -/
def Attributes.ValuesDistinct (attrs : Attributes) : Prop :=
  ∀ pair ∈ attrs.pairs, Text.Distinct pair.2

instance (attrs : Attributes) : Decidable attrs.ValuesDistinct :=
  inferInstanceAs (Decidable (∀ pair ∈ attrs.pairs, _))

/-- The values of the relative name would stand beside other spellings of them in the attributes. What
is overwritten afterwards does not count. -/
def Rdn.Respells (rdn : Rdn) (attrs : Attributes) (overwritten : List String) : Prop :=
  ∃ ava ∈ rdn.avas, ¬ Text.holds overwritten ava.type = true ∧
    ∃ v ∈ attrs.values ava.type ++ rdn.valuesOf ava.type,
      Text.same v ava.value = true ∧ v ≠ ava.value

instance (rdn : Rdn) (attrs : Attributes) (overwritten : List String) :
    Decidable (rdn.Respells attrs overwritten) :=
  inferInstanceAs (Decidable (∃ ava ∈ rdn.avas, _))

theorem Rdn.mem_valuesOf {rdn : Rdn} {type value : String} :
    value ∈ rdn.valuesOf type ↔
      ∃ ava ∈ rdn.avas, Text.same ava.type type = true ∧ ava.value = value := by
  simp only [valuesOf, List.mem_map, List.mem_filter, and_assoc]

theorem Rdn.valuesOf_congr (rdn : Rdn) {a b : String} (h : Text.same a b = true) :
    rdn.valuesOf a = rdn.valuesOf b := by
  have hfold := Text.same_iff.1 h
  simp only [valuesOf, Text.same, hfold]

namespace Attributes

variable {attrs after : Attributes} {rdn : Rdn} {overwritten : List String}

theorem valuesDistinct_iff : attrs.ValuesDistinct ↔ ∀ name, Text.Distinct (attrs.values name) := by
  refine ⟨Text.distinct_values, fun h pair hpair => ?_⟩
  exact values_of_mem hpair (Text.same_refl _) ▸ h pair.1

/-- What the values of a relative name leave. -/
theorem valuesDistinct_named_iff (h : attrs.ValuesDistinct)
    (hover : ∀ name, Text.holds overwritten name = true → Text.Distinct (after.values name))
    (hnamed : ∀ name, ¬ Text.holds overwritten name = true →
      after.values name = OrderedSet.insertAll (attrs.values name) (rdn.valuesOf name)) :
    after.ValuesDistinct ↔ ¬ rdn.Respells attrs overwritten := by
  rw [valuesDistinct_iff] at h ⊢
  constructor
  · rintro hafter ⟨ava, hava, hkept, v, hv, hsame, hne⟩
    have hdistinct := hafter ava.type
    rw [hnamed _ hkept, Text.distinct_insertAll_iff (h _)] at hdistinct
    exact hne (hdistinct ava.value (Rdn.mem_valuesOf.2 ⟨ava, hava, Text.same_refl _, rfl⟩) v hv hsame)
  · intro hnot name
    by_cases hheld : Text.holds overwritten name = true
    · exact hover name hheld
    · rw [hnamed name hheld, Text.distinct_insertAll_iff (h name)]
      intro y hy v hv hsame
      obtain ⟨ava, hava, htype, rfl⟩ := Rdn.mem_valuesOf.1 hy
      refine Classical.byContradiction fun hne => hnot ⟨ava, hava, ?_, v, ?_, hsame, hne⟩
      · rwa [Text.holds_congr htype]
      · rwa [attrs.values_congr htype, rdn.valuesOf_congr htype]

/-- A modification adds no second spelling, if the values that it puts in place of others have one. -/
theorem ValuesDistinct.applyAll (h : attrs.ValuesDistinct) {text : String}
    {items : List Modification} (happly : attrs.applyAll text items = .ok after)
    (hitems : ∀ item ∈ items, item.op = .replace → Text.Distinct item.values) :
    after.ValuesDistinct := by
  induction items generalizing attrs with
  | nil =>
    cases happly
    exact h
  | cons item items ih =>
    obtain ⟨mid, hitem, hrest⟩ := applyAll_cons.1 happly
    refine ih ?_ hrest fun item hmem => hitems item (List.mem_cons_of_mem _ hmem)
    obtain ⟨op, name, values⟩ := item
    rw [valuesDistinct_iff] at h ⊢
    cases op with
    | add =>
      refine foldlM_keeps (P := fun attrs => ∀ other, Text.Distinct (attrs.values other)) ?_ hitem h
      intro attrs attrs' value _ hadd hattrs other
      obtain ⟨hnew, hvalues⟩ := addValue_ok hadd
      rw [hvalues]
      split
      · exact (hattrs name).append hnew
      · exact hattrs other
    | delete =>
      unfold apply at hitem
      dsimp only at hitem
      split at hitem
      · split at hitem
        · cases hitem
          intro other
          rw [values_erase]
          split
          · exact List.nodup_nil
          · exact h other
        · cases hitem
      · refine foldlM_keeps (P := fun attrs => ∀ other, Text.Distinct (attrs.values other)) ?_ hitem h
        intro attrs attrs' value _ hdelete hattrs other
        rw [(deleteValue_ok hdelete).2]
        split
        · exact (hattrs name).eraseP value
        · exact hattrs other
    | replace =>
      cases hitem
      intro other
      rw [values_settle]
      split
      · exact hitems _ List.mem_cons_self rfl
      · exact h other

theorem ValuesDistinct.put (h : attrs.ValuesDistinct) (name value : String) :
    (attrs.put name [value]).ValuesDistinct := by
  rw [valuesDistinct_iff] at h ⊢
  intro other
  rw [values_put]
  split
  · exact Text.distinct_singleton value
  · exact h other

theorem ValuesDistinct.dropRdn (h : attrs.ValuesDistinct) (old : Rdn) :
    (attrs.dropRdn old).ValuesDistinct := by
  rw [valuesDistinct_iff] at h ⊢
  intro name
  rw [values_dropRdn]
  exact (h name).sublist (List.filter_sublist.map Text.fold)

end Attributes

/-! ## Requests -/

/-- The relative name of the leaf, without pairs for the root. -/
def Dn.leafRdn (dn : Dn) : Rdn :=
  dn.leaf?.getD ⟨[]⟩

/-- What the server writes into a new entry whatever it was given. -/
def addedStamps : List String :=
  ["entryUUID", "entryDN", "createTimestamp", "modifyTimestamp"]

/-- What the server writes into a renamed entry. -/
def renamedStamps : List String :=
  ["entryDN", "modifyTimestamp"]

/-- The change would leave two spellings of a value: of one in the name of a new entry, or of one in the
new name of a renamed entry, which has lost those of the old one by then. -/
def Mutation.Respells (entries : Entries) : Mutation → Prop
  | .add dn attrs => dn.leafRdn.Respells attrs addedStamps
  | .modify .. => False
  | .rename dn rdn _ => ∃ e, entries.get? dn = some e ∧
      rdn.Respells (e.attributes.dropRdn dn.leafRdn) renamedStamps

/-- The values that the request hands over have one spelling in each list. -/
def Command.ListsDistinct : Command → Prop
  | .change (.add _ attrs) => attrs.ValuesDistinct
  | .change (.modify _ items) => ∀ item ∈ items, item.op = .replace → Text.Distinct item.values
  | _ => True

instance : DecidablePred Command.ListsDistinct
  | .change (.add _ attrs) => inferInstanceAs (Decidable attrs.ValuesDistinct)
  | .change (.modify _ items) =>
    inferInstanceAs (Decidable (∀ item ∈ items, item.op = .replace → _))
  | .change (.rename ..) | .search .. | .read .. => .isTrue trivial

/-- Every value of every attribute of every entry has one spelling. -/
def Entries.ValuesDistinct (entries : Entries) : Prop :=
  ∀ e ∈ entries.list, e.attributes.ValuesDistinct

instance (entries : Entries) : Decidable entries.ValuesDistinct :=
  inferInstanceAs (Decidable (∀ e ∈ entries.list, _))

theorem Entries.ValuesDistinct.get? {entries : Entries} (h : entries.ValuesDistinct) {dn : Dn}
    {e : Entry} (hentry : entries.get? dn = some e) : e.attributes.ValuesDistinct :=
  h e (entries.get?_eq_some_iff.1 hentry).1

theorem Entries.mem_insert_self (entries : Entries) (e : Entry) : e ∈ (entries.insert e).list :=
  ((entries.insert e).find?_eq_some_iff.1
    ((entries.find?_insert e e.dn.key).trans (if_pos rfl))).1

/-- The server writes one value into an attribute that it maintains, and none into another one. -/
theorem Provisioner.serverValues?_cases (supply : Supply) (tick : Nat) (dn : Dn) (name : String) :
    (∃ value, Text.holds addedStamps name = true ∧
        serverValues? supply tick dn name = some [value]) ∨
      ¬ Text.holds addedStamps name = true ∧
        serverValues? supply tick dn name = none := by
  unfold Text.holds addedStamps serverValues?
  simp only [List.any_cons, List.any_nil, Bool.or_false, Bool.or_eq_true, Text.same_comm name]
  split_ifs with hstamp hdn huuid
  · exact .inl ⟨_, .inr (.inr hstamp.symm), rfl⟩
  · exact .inl ⟨_, .inr (.inl hdn), rfl⟩
  · exact .inl ⟨_, .inl huuid, rfl⟩
  · refine .inr ⟨?_, rfl⟩
    rintro (h | h | h)
    · exact huuid h
    · exact hdn h
    · exact hstamp h.symm

namespace Attributes

variable {attrs : Attributes}

theorem insertAll_leafValues (dn : Dn) (attrs : Attributes) (name : String) :
    OrderedSet.insertAll (attrs.values name) (dn.leafValues name) =
      OrderedSet.insertAll (attrs.values name) (dn.leafRdn.valuesOf name) := by
  unfold Dn.leafRdn Dn.leafValues
  cases dn.leaf? <;> rfl

theorem valuesDistinct_stamped_iff (h : attrs.ValuesDistinct) (supply : Supply) (tick : Nat)
    (dn : Dn) :
    (stamped supply tick dn attrs).ValuesDistinct ↔ ¬ dn.leafRdn.Respells attrs addedStamps := by
  refine valuesDistinct_named_iff h (fun name hover => ?_) fun name hkept => ?_
  · obtain ⟨value, hvalue⟩ := (Provisioner.serverValues?_cases supply tick dn name).resolve_right
      fun hnone => hnone.1 hover
    rw [Provisioner.values_stamped, hvalue.2]
    exact Text.distinct_singleton value
  · have hnone := (Provisioner.serverValues?_cases supply tick dn name).resolve_left
      fun ⟨_, hheld, _⟩ => hkept hheld
    rw [Provisioner.values_stamped, hnone.2, Option.getD_none, insertAll_leafValues]

theorem valuesDistinct_renamed_iff (h : attrs.ValuesDistinct) (supply : Supply) (tick : Nat)
    (dn renamed : Dn) (rdn : Rdn) :
    (renamedAttributes supply tick dn renamed rdn attrs).ValuesDistinct ↔
      ¬ rdn.Respells (attrs.dropRdn dn.leafRdn) renamedStamps := by
  have hform : renamedAttributes supply tick dn renamed rdn attrs =
      (((attrs.dropRdn dn.leafRdn).extendByRdn rdn).put "entryDN" [renamed.text]).put
        "modifyTimestamp" [supply.time tick] := by
    unfold renamedAttributes Dn.leafRdn
    cases dn.leaf? <;> rfl
  rw [hform]
  refine valuesDistinct_named_iff (h.dropRdn _) (fun name hover => ?_) fun name hkept => ?_
  · unfold Text.holds renamedStamps at hover
    simp only [List.any_cons, List.any_nil, Bool.or_false, Bool.or_eq_true,
      Text.same_comm name] at hover
    rw [values_put]
    split
    · exact Text.distinct_singleton _
    · next htime =>
      rw [values_put, if_pos (hover.resolve_right htime)]
      exact Text.distinct_singleton _
  · unfold Text.holds renamedStamps at hkept
    simp only [List.any_cons, List.any_nil, Bool.or_false, Bool.or_eq_true, not_or,
      Text.same_comm name] at hkept
    rw [values_put, if_neg hkept.2, values_put, if_neg hkept.1, values_extendByRdn]

end Attributes

variable {supply : Supply} {dir : Directory} {entries : Entries}

theorem Entries.valuesDistinct_insert_iff (h : entries.ValuesDistinct) (e : Entry) :
    (entries.insert e).ValuesDistinct ↔ e.attributes.ValuesDistinct := by
  refine ⟨fun hall => hall e (entries.mem_insert_self e), fun he x hx => ?_⟩
  rcases Entries.mem_insertInto hx with rfl | hx
  · exact he
  · exact h x hx

/-- Moving along changes only `entryDN`, and the renamed entry is not lost. -/
theorem Directory.valuesDistinct_moveDescendants_iff {dn renamed : Dn} {e : Entry}
    (hrenamed : renamed.rdns ≠ []) (hothers : ∀ x ∈ entries.list, x = e ∨ x.attributes.ValuesDistinct)
    (hfind : entries.find? renamed.key = some e) (hname : Text.Distinct (e.attributes.values "entryDN")) :
    (moveDescendants dn renamed entries).ValuesDistinct ↔ e.attributes.ValuesDistinct := by
  constructor
  · intro h
    obtain ⟨x, hx, hvalues⟩ := exists_renamed_moveDescendants dn hrenamed hfind
    have hdistinct := Attributes.valuesDistinct_iff.1 (h x hx)
    rw [Attributes.valuesDistinct_iff]
    intro name
    by_cases hdn : Text.same "entryDN" name = true
    · rwa [← e.attributes.values_congr hdn]
    · exact hvalues name hdn ▸ hdistinct name
  · intro he
    refine forall_moveDescendants (Q := fun x => x.attributes.ValuesDistinct)
      (fun x hx => hx.put "entryDN" _) ?_
    intro x hx
    rcases hothers x hx with rfl | hdistinct
    · exact he
    · exact hdistinct

/-- **What an accepted change does to the spellings:** it leaves two of a value exactly if it respells
one. -/
theorem Mutation.Effect.valuesDistinct_iff {m : Mutation} (heffect : m.Effect supply dir entries)
    (hm : Command.ListsDistinct (.change m)) (h : dir.entries.ValuesDistinct) :
    entries.ValuesDistinct ↔ ¬ m.Respells dir.entries := by
  cases heffect with
  | added _ =>
    rw [Entries.valuesDistinct_insert_iff h]
    exact Attributes.valuesDistinct_stamped_iff hm _ _ _
  | modified hentry happly =>
    rw [Entries.valuesDistinct_insert_iff h]
    exact iff_of_true (((h.get? hentry).applyAll happly hm).put _ _) id
  | @renamed dn rdn superior e hentry =>
    have hdn : ¬ Text.same "modifyTimestamp" "entryDN" = true := by decide
    have hrenamed : (renamedDn dn rdn superior).rdns ≠ [] := List.cons_ne_nil _ _
    rw [Directory.valuesDistinct_moveDescendants_iff hrenamed ?_
      ((Directory.find?_exchange _ _ _ _).trans (if_pos rfl)),
      Attributes.valuesDistinct_renamed_iff (h.get? hentry)]
    · constructor
      · rintro hnot ⟨e', hentry', hrespells⟩
        cases hentry.symm.trans hentry'
        exact hnot hrespells
      · exact fun hnot hrespells => hnot ⟨e, hentry, hrespells⟩
    · unfold renamedAttributes
      rw [Attributes.values_put, if_neg hdn, Attributes.values_put, if_pos (Text.same_refl _)]
      exact Text.distinct_singleton _
    · intro x hx
      rcases Entries.mem_insertInto hx with rfl | hx
      · exact .inl rfl
      · exact .inr (h x (List.mem_filter.1 hx).1)

/-! ## Sessions -/

/-- The request is accepted and leaves two spellings of a value. -/
def Directory.Respells (supply : Supply) (dir : Directory) (c : Command) : Prop :=
  ∃ m, c = .change m ∧ (dir.run (c.send supply)).1 = .ok () ∧ m.Respells dir.entries

/-- A request keeps one spelling of each value exactly if it does not respell one. -/
theorem Command.valuesDistinct_iff (supply : Supply) {c : Command} (hc : c.ListsDistinct)
    (h : dir.entries.ValuesDistinct) :
    (dir.run (c.send supply)).2.entries.ValuesDistinct ↔ ¬ dir.Respells supply c := by
  rcases c.run_cases supply dir with ⟨hentries, hrefused⟩ | ⟨m, rfl, hok, heffect⟩
  · rw [hentries]
    exact iff_of_true h fun ⟨m, hm, hok, _⟩ => hrefused m hm hok
  · rw [heffect.valuesDistinct_iff hc h]
    refine not_congr ⟨fun hrespells => ⟨m, rfl, hok, hrespells⟩, ?_⟩
    rintro ⟨m', hm', -, hrespells⟩
    cases hm'
    exact hrespells

/-- **When no value is held twice.** All along a session that starts from an empty directory, every
value of every attribute has one spelling, exactly if no accepted request puts an entry under a name
that has a value of which the entry holds another spelling. -/
theorem session_valuesDistinct_iff (supply : Supply) (denied : List Dn) {commands : List Command}
    (h : ∀ c ∈ commands, c.ListsDistinct) :
    (∀ front, front <+: commands →
        ((Directory.fresh denied).session supply front).entries.ValuesDistinct) ↔
      ∀ front c, front ++ [c] <+: commands →
        ¬ ((Directory.fresh denied).session supply front).Respells supply c := by
  have hlists (front : List Command) (c : Command) (hfront : front ++ [c] <+: commands) :
      c.ListsDistinct := h c (hfront.subset (List.mem_append_right _ (List.mem_singleton_self c)))
  constructor
  · intro hall front c hfront
    have hstep := hall _ hfront
    rw [Directory.session_append] at hstep
    exact (Command.valuesDistinct_iff supply (hlists front c hfront)
      (hall front ((List.prefix_append front [c]).trans hfront))).1 hstep
  · intro hnone front
    induction front using List.reverseRecOn with
    | nil => exact fun _ => nofun
    | append_singleton front c ih =>
      intro hfront
      rw [Directory.session_append]
      exact (Command.valuesDistinct_iff supply (hlists front c hfront)
        (ih ((List.prefix_append front [c]).trans hfront))).2 (hnone front c hfront)

namespace Sample

/-- An entry is added, gains a value, and has its name spelled in another way. -/
def respelledAnn : List Command :=
  [.change (.add (name "cn" "ann") (.ofList [("cn", ["ann"]), ("sn", ["Lee", "Ray"])])),
    .change (.modify (name "cn" "ann") [⟨.add, "cn", ["Anna"]⟩]),
    .change (.rename (name "cn" "ann") (.single "cn" "ANN") none)]

/-- The new spelling takes the place of the old one. -/
theorem respelledAnn_valuesDistinct :
    (∀ front c, front ++ [c] <+: respelledAnn →
        ¬ ((Directory.fresh []).session provisioner.supply front).Respells provisioner.supply c) ∧
      ((Directory.fresh []).session provisioner.supply respelledAnn).valuesAt (name "cn" "ann") "cn" =
        ["Anna", "ANN"] := by
  have hall : ∀ front ∈ respelledAnn.inits,
      ((Directory.fresh []).session provisioner.supply front).entries.ValuesDistinct := by
    decide +kernel
  refine ⟨(session_valuesDistinct_iff _ _ (by decide +kernel)).1 fun front hfront => ?_,
    by decide +kernel⟩
  exact hall front ((List.mem_inits _ _).2 hfront)

/-- An entry is added that holds its name in capital letters. -/
def capitalAnn : List Command :=
  [.change (.add (name "cn" "ann") (.ofList [("cn", ["ANN"])]))]

/-- The new entry holds both spellings, although it was given one value. -/
theorem capitalAnn_held_twice :
    (∀ c ∈ capitalAnn, c.ListsDistinct) ∧
      ((Directory.fresh []).session provisioner.supply capitalAnn).valuesAt (name "cn" "ann") "cn" =
        ["ANN", "ann"] ∧
      ¬ ((Directory.fresh []).session provisioner.supply capitalAnn).entries.ValuesDistinct := by
  decide +kernel

end Sample

end Roster
