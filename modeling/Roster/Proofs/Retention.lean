import Roster.Proofs.Operations
import Roster.Proofs.Moves

/-!
# What an update keeps of an attribute after its move

After the move an update sends replacements of naming attributes, memberships and the password. None
of these requests takes the last value of an attribute from an entry, except the end of a membership
of the entry in itself (`keeps_retains_settle`), and an attribute that they do not name stays as it is
(`keeps_spares_settle`).
-/

namespace Roster

open Directory (Unwritten unwritten_frame)

/-! ## Attributes with values and without -/

/-- The entry at a name has values of an attribute. -/
def Entries.HasValues (entries : Entries) (dn : Dn) (name : String) : Prop :=
  ∃ e, entries.get? dn = some e ∧ e.attributes.values name ≠ []

theorem Entries.not_hasValues_iff {entries : Entries} {dn : Dn} {name : String} :
    ¬ entries.HasValues dn name ↔
      ∀ e, entries.get? dn = some e → e.attributes.values name = [] := by
  constructor
  · intro h e he
    exact Classical.byContradiction fun hne => h ⟨e, he, hne⟩
  · rintro h ⟨e, he, hne⟩
    exact hne (h e he)

/-- The entry at a name after a modification at another name or at this one. -/
theorem Entries.get?_insert_stamped {entries : Entries} {group : Dn} {e : Entry}
    (hgroup : entries.get? group = some e) (attrs : Attributes) (dn : Dn) :
    (entries.insert ⟨e.dn, attrs⟩).get? dn =
      if group.key = dn.key then some ⟨e.dn, attrs⟩ else entries.get? dn := by
  have hkey := (entries.get?_eq_some_iff.1 hgroup).2
  rw [get?, find?_insert, hkey]
  rfl

/-- A request that ends a membership by deleting from an attribute of the entry at a name. -/
def Provisioner.EndsMembership (p : Provisioner) (dn : Dn) (name : String) (request : Request) :
    Prop :=
  ∃ kind group reference, group.key = dn.key ∧
    Text.same (p.descriptor kind).memberAttribute name = true ∧
    request = .modify group [⟨.delete, (p.descriptor kind).memberAttribute, [reference]⟩]

/-- The entry at a name keeps some value of an attribute, unless a membership in it is ended. -/
def Provisioner.Retains (p : Provisioner) (dn : Dn) (name : String) (dir after : Directory) : Prop :=
  ∃ requests, after.journal = dir.journal ++ requests ∧
    (dir.entries.HasValues dn name → after.entries.HasValues dn name ∨
      ∃ request ∈ requests, p.EndsMembership dn name request)

/-- The entry at a name does not get values of an attribute. -/
def Lacking (dn : Dn) (name : String) (dir after : Directory) : Prop :=
  ¬ dir.entries.HasValues dn name → ¬ after.entries.HasValues dn name

theorem Provisioner.retains_frame (p : Provisioner) (dn : Dn) (name : String) :
    Frame (p.Retains dn name) where
  refl dir := ⟨[], by simp, .inl⟩
  trans := by
    rintro a b c ⟨rs, hrs, hab⟩ ⟨ts, hts, hbc⟩
    refine ⟨rs ++ ts, by rw [hts, hrs, List.append_assoc], fun ha => ?_⟩
    rcases hab ha with hb | ⟨r, hr, hends⟩
    · rcases hbc hb with hc | ⟨r, hr, hends⟩
      · exact .inl hc
      · exact .inr ⟨r, List.mem_append_right rs hr, hends⟩
    · exact .inr ⟨r, List.mem_append_left ts hr, hends⟩

theorem Directory.Unwritten.retains {dir after : Directory} (h : dir.Unwritten after)
    (p : Provisioner) (dn : Dn) (name : String) : p.Retains dn name dir after := by
  obtain ⟨hentries, -, requests, hjournal, -⟩ := h
  exact ⟨requests, hjournal, fun hvalues => .inl (hentries ▸ hvalues)⟩

/-! ## Single requests -/

/-- Every modification is on record. -/
theorem Directory.journal_modify (dir : Directory) (supply : Supply) (dn : Dn)
    (items : List Modification) :
    (dir.run (modify supply dn items)).2.journal = dir.journal ++ [.modify dn items] := by
  unfold modify
  rw [run_perform]
  split <;> rfl

variable {p : Provisioner} {dn : Dn} {name : String}

/-- A modification keeps a value if its items do, wherever they are carried out on the entry. -/
theorem hasValues_modify {supply : Supply} {group : Dn} {items : List Modification}
    {dir : Directory}
    (hitems : group.key = dn.key → ∀ {text : String} {attrs attrs' : Attributes},
      attrs.applyAll text items = .ok attrs' → attrs.values name ≠ [] → attrs'.values name ≠ [])
    (hvalues : dir.entries.HasValues dn name) :
    (dir.run (Directory.modify supply group items)).2.entries.HasValues dn name := by
  cases hrun : dir.run (Directory.modify supply group items) with
  | mk result after =>
    cases result with
    | error err =>
      rw [Directory.run_perform_error hrun]
      exact hvalues
    | ok _ =>
      obtain ⟨-, e, attrs, hentry, happly, rfl⟩ := Directory.run_modify_ok hrun
      obtain ⟨e', he', hne⟩ := hvalues
      by_cases hkey : group.key = dn.key
      · have hsame : e' = e := Option.some.inj (he'.symm.trans
          ((congrArg dir.entries.find? hkey).symm.trans hentry))
        refine ⟨_, (Entries.get?_insert_stamped hentry _ dn).trans (if_pos hkey), ?_⟩
        rw [Attributes.values_put]
        split
        · exact List.cons_ne_nil _ _
        · exact hitems hkey happly (hsame ▸ hne)
      · exact ⟨e', ((Entries.get?_insert_stamped hentry _ dn).trans (if_neg hkey)).trans he', hne⟩

theorem keeps_retains_modify {supply : Supply} {group : Dn} {items : List Modification}
    (hitems : ∀ item ∈ items, item.Retains) :
    Keeps (p.Retains dn name) (Directory.modify supply group items) := by
  intro dir
  refine ⟨_, dir.journal_modify supply group items, fun hvalues => .inl ?_⟩
  refine hasValues_modify (fun _ => ?_) hvalues
  exact fun happly hne => Attributes.values_applyAll_ne_nil happly hitems hne

/-- The end of a membership is on record as such. -/
theorem keeps_retains_removeMembership {supply : Supply} {kind : MembershipKind}
    {m : GroupMembership} :
    Keeps (p.Retains dn name) ((p.descriptor kind).removeMembership supply m) := by
  intro dir
  refine ⟨_, dir.journal_modify supply m.group _, fun hvalues => ?_⟩
  by_cases hends : m.group.key = dn.key ∧
      Text.same (p.descriptor kind).memberAttribute name = true
  · exact .inr ⟨_, List.mem_cons_self, kind, m.group, m.reference, hends.1, hends.2, rfl⟩
  · refine .inl (hasValues_modify (fun hkey text attrs attrs' happly hne => ?_) hvalues)
    rw [Attributes.values_applyAll_of_ne happly]
    · exact hne
    · intro item hitem hname
      rw [List.mem_singleton.1 hitem] at hname
      exact hends ⟨hkey, hname⟩

/-- An attribute of the entry at a name, if there is one, is left alone, and neither comes nor goes. -/
def Skips (dn : Dn) (name : String) (dir after : Directory) : Prop :=
  (after.entries.get? dn).map (fun e => e.attributes.get? name) =
    (dir.entries.get? dn).map fun e => e.attributes.get? name

theorem skips_frame (dn : Dn) (name : String) : Frame (Skips dn name) where
  refl _ := rfl
  trans hab hbc := hbc.trans hab

/-- A modification skips the attributes that it does not name, but for the time stamp, and other
entries. -/
theorem keeps_skips_modify {supply : Supply} {group : Dn} {items : List Modification}
    (htime : ¬ Text.same "modifyTimestamp" name = true)
    (hitems : group.key = dn.key → ∀ item ∈ items, ¬ Text.same item.name name = true) :
    Keeps (Skips dn name) (Directory.modify supply group items) := by
  intro dir
  cases hrun : dir.run (Directory.modify supply group items) with
  | mk result after =>
    cases result with
    | error err =>
      rw [Directory.run_perform_error hrun]
      rfl
    | ok _ =>
      obtain ⟨-, e, attrs, hentry, happly, rfl⟩ := Directory.run_modify_ok hrun
      have hfound := Entries.get?_insert_stamped hentry
        (attrs.put "modifyTimestamp" [supply.time dir.handled]) dn
      unfold Skips
      dsimp only
      rw [hfound]
      split
      · next hkey =>
        have hold : dir.entries.get? dn = some e :=
          (congrArg dir.entries.find? hkey).symm.trans hentry
        rw [hold, Option.map_some, Option.map_some, Attributes.get?_put, if_neg htime,
          Attributes.get?_applyAll_of_ne happly (hitems hkey)]
      · rfl

/-- The values of an attribute of the entry at a name, if there is one, are left alone. -/
def Spares (dn : Dn) (name : String) (dir after : Directory) : Prop :=
  (after.entries.get? dn).map (fun e => e.attributes.values name) =
    (dir.entries.get? dn).map fun e => e.attributes.values name

theorem Skips.spares {dir after : Directory} (h : Skips dn name dir after) :
    Spares dn name dir after := by
  have hvalues := congrArg (Option.map fun values : Option (List String) => values.getD []) h
  rw [Option.map_map, Option.map_map] at hvalues
  exact hvalues

theorem spares_frame (dn : Dn) (name : String) : Frame (Spares dn name) where
  refl _ := rfl
  trans hab hbc := hbc.trans hab

theorem Directory.Unwritten.spares {dir after : Directory} (h : dir.Unwritten after)
    (dn : Dn) (name : String) : Spares dn name dir after := by
  rw [Spares, h.1]

/-- An entry that is spared is still there, with the same values. -/
theorem Spares.stored {dir after : Directory} (h : Spares dn name dir after) {e : Entry}
    (hstored : dir.entries.get? dn = some e) :
    ∃ e', after.entries.get? dn = some e' ∧ e'.attributes.values name = e.attributes.values name := by
  rw [Spares, hstored] at h
  exact Option.map_eq_some_iff.1 h

theorem Spares.lacking {dir after : Directory} (h : Spares dn name dir after) :
    Lacking dn name dir after := by
  rw [Lacking, Entries.not_hasValues_iff, Entries.not_hasValues_iff]
  intro hlacks e he
  have hback : Spares dn name after dir := h.symm
  obtain ⟨e', he', hvalues⟩ := hback.stored he
  rw [← hvalues]
  exact hlacks e' he'

/-- A modification spares the attributes that it does not name, but for the time stamp, and other
entries. -/
theorem keeps_spares_modify {supply : Supply} {group : Dn} {items : List Modification}
    (htime : ¬ Text.same "modifyTimestamp" name = true)
    (hitems : group.key = dn.key → ∀ item ∈ items, ¬ Text.same item.name name = true) :
    Keeps (Spares dn name) (Directory.modify supply group items) :=
  fun dir => (keeps_skips_modify htime hitems dir).spares

/-- A name without an entry gets none. -/
def Vacant (dn : Dn) (dir after : Directory) : Prop :=
  dir.entries.get? dn = none → after.entries.get? dn = none

theorem vacant_frame (dn : Dn) : Frame (Vacant dn) where
  refl _ h := h
  trans hab hbc h := hbc (hab h)

theorem keeps_vacant_modify {supply : Supply} {group : Dn} {items : List Modification} :
    Keeps (Vacant dn) (Directory.modify supply group items) := by
  intro dir hvacant
  cases hrun : dir.run (Directory.modify supply group items) with
  | mk result after =>
    cases result with
    | error err =>
      rw [Directory.run_perform_error hrun]
      exact hvacant
    | ok _ =>
      obtain ⟨-, e, attrs, hentry, -, rfl⟩ := Directory.run_modify_ok hrun
      have hkey : group.key ≠ dn.key := by
        intro hkey
        rw [Directory.entry?, Entries.get?, hkey] at hentry
        cases hvacant.symm.trans hentry
      exact ((Entries.get?_insert_stamped hentry _ dn).trans (if_neg hkey)).trans hvacant

/-! ## What an update sends after its move -/

theorem vacant_membershipFrame (p : Provisioner) (dn : Dn) : MembershipFrame p (Vacant dn) where
  toFrame := vacant_frame dn
  quiet h hvacant := h.1.symm ▸ hvacant
  remove _ _ := keeps_vacant_modify
  add _ _ := (vacant_frame dn).keeps_addMembership keeps_vacant_modify

theorem retains_membershipFrame (p : Provisioner) (dn : Dn) (name : String) :
    MembershipFrame p (p.Retains dn name) where
  toFrame := p.retains_frame dn name
  quiet h := h.retains p dn name
  remove _ _ := keeps_retains_removeMembership
  add kind m := by
    refine (p.retains_frame dn name).keeps_addMembership (keeps_retains_modify ?_)
    simp [Modification.Retains]

theorem keeps_retains_settle {plan : Provisioner.UpdatePlan} {landed : Dn}
    (hnaming : ∀ item ∈ plan.naming, item.Retains) :
    Keeps (p.Retains dn name) (p.settle plan landed) := by
  refine (retains_membershipFrame p dn name).keeps_settle (keeps_retains_modify hnaming)
    fun value => keeps_retains_modify ?_
  simp [Modification.Retains]

/-- An attribute that only the input of an operation can give values to. -/
structure Provisioner.IsPlain (p : Provisioner) (name : String) : Prop where
  member (kind : MembershipKind) : ¬ Text.same (p.descriptor kind).memberAttribute name = true
  password : ¬ Text.same p.configuration.passwordAttribute name = true
  entryDn : ¬ Text.same "entryDN" name = true
  timeStamp : ¬ Text.same "modifyTimestamp" name = true

/-- Memberships are no business of an attribute that does not hold members. -/
theorem spares_membershipFrame
    (hmember : ∀ kind, ¬ Text.same (p.descriptor kind).memberAttribute name = true)
    (htime : ¬ Text.same "modifyTimestamp" name = true) (dn : Dn) :
    MembershipFrame p (Spares dn name) where
  toFrame := spares_frame dn name
  quiet h := h.spares dn name
  remove kind m := by
    refine keeps_spares_modify htime fun _ item hitem => ?_
    rw [List.mem_singleton.1 hitem]
    exact hmember kind
  add kind m := by
    refine (spares_frame dn name).keeps_addMembership
      (keeps_spares_modify htime fun _ item hitem => ?_)
    rw [List.mem_singleton.1 hitem]
    exact hmember kind

theorem keeps_spares_settle (hplain : p.IsPlain name) {plan : Provisioner.UpdatePlan}
    {landed : Dn} (hnaming : ∀ item ∈ plan.naming, ¬ Text.same item.name name = true) :
    Keeps (Spares dn name) (p.settle plan landed) := by
  refine (spares_membershipFrame hplain.member hplain.timeStamp dn).keeps_settle
    (keeps_spares_modify hplain.timeStamp fun _ => hnaming)
    fun value => keeps_spares_modify hplain.timeStamp fun _ item hitem => ?_
  rw [List.mem_singleton.1 hitem]
  exact hplain.password

theorem keeps_lacking_settle (hplain : p.IsPlain name) {plan : Provisioner.UpdatePlan}
    {landed : Dn} (hnaming : ∀ item ∈ plan.naming, ¬ Text.same item.name name = true) :
    Keeps (Lacking dn name) (p.settle plan landed) :=
  fun dir => (keeps_spares_settle hplain hnaming dir).lacking

end Roster
