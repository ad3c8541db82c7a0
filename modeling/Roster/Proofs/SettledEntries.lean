import Roster.Proofs.Additions
import Roster.Proofs.PlainUpdates

/-!
# Where a plain update leads

Once a plain update has gone through, the attributes of its entry are as they were listed, and below
the base contexts the entry is in the listed groups under its least reference and in no others
(`Settled`). `Repeatable.settled` reads this off the diffs that were carried out. It does not matter
how often a diff finds a membership that is also to be added: what cancels out was there already.
-/

namespace Roster

open Directory (Unwritten)

/-! ## What groups hold after a diff -/

namespace Text

theorem holds_foldl_dropFirst {vs rs : List String} (h : Distinct vs) (v : String) :
    holds (rs.foldl dropFirst vs) v = true ↔
      holds vs v = true ∧ ¬ ∃ r ∈ rs, same r v = true := by
  induction rs generalizing vs with
  | nil => simp
  | cons r rs ih =>
    have hdropped : Distinct (dropFirst vs r) := h.eraseP _
    rw [List.foldl_cons, ih hdropped, dropFirst, h.holds_eraseP]
    simp only [List.mem_cons, exists_eq_or_imp, not_or, and_assoc]

theorem holds_foldl_addNew_iff {vs rs : List String} (v : String) :
    holds (rs.foldl addNew vs) v = true ↔ holds vs v = true ∨ ∃ r ∈ rs, same r v = true := by
  induction rs generalizing vs with
  | nil => simp
  | cons r rs ih =>
    rw [List.foldl_cons, ih, addNew]
    split
    · next hheld =>
      simp only [List.mem_cons, exists_eq_or_imp]
      refine ⟨fun h => h.imp_right .inr, ?_⟩
      rintro (h | h | h)
      · exact .inl h
      · exact .inl (holds_congr h ▸ hheld)
      · exact .inr h
    · rw [holds_append_singleton]
      simp only [List.mem_cons, exists_eq_or_imp, or_assoc]

end Text

theorem exists_referencesIn_iff {memberships : List GroupMembership} {x : Dn} {value : String} :
    (∃ r ∈ referencesIn memberships x, Text.same r value = true) ↔
      ∃ m ∈ memberships, m.Covers x value := by
  unfold referencesIn GroupMembership.Covers
  constructor
  · rintro ⟨r, hr, hsame⟩
    obtain ⟨m, hm, rfl⟩ := List.mem_map.1 hr
    obtain ⟨hm, hkey⟩ := List.mem_filter.1 hm
    exact ⟨m, hm, Dn.same_iff.1 hkey, hsame⟩
  · rintro ⟨m, hm, hkey, hsame⟩
    exact ⟨_, List.mem_map_of_mem (List.mem_filter.2 ⟨hm, Dn.same_iff.2 hkey⟩), hsame⟩

/-- A group to which a membership has been added may be written. -/
theorem KindDescriptor.writable_of_addMembership {d : KindDescriptor} {supply : Supply}
    {m : GroupMembership} {dir after : Directory}
    (hrun : dir.run (d.addMembership supply m) = (.ok (), after)) :
    m.group.isIn dir.denied = false := by
  refine Bool.eq_false_iff.2 fun hdenied => ?_
  unfold addMembership at hrun
  rw [Directory.run_tryCatch] at hrun
  split at hrun
  · next mid hmodify =>
    rw [(Directory.run_modify_ok hmodify).1] at hdenied
    cases hdenied
  · next err mid hmodify =>
    unfold Directory.modify at hmodify
    rw [Directory.run_perform] at hmodify
    unfold Directory.afterModify Directory.checkWritable at hmodify
    rw [hdenied] at hmodify
    cases hmodify
    cases hrun

/-- What a diff does not name stays as it is. -/
theorem KindDescriptor.keeps_skips_applyDiff {d : KindDescriptor} {x : Dn} {name : String}
    (hname : ¬ Text.same d.memberAttribute name = true)
    (hstamp : ¬ Text.same "modifyTimestamp" name = true) (supply : Supply)
    (diff : Diff GroupMembership) : Keeps (Skips x name) (d.applyDiff supply diff) := by
  have hmodify (op : ModifyOp) (m : GroupMembership) : Keeps (Skips x name)
      (Directory.modify supply m.group [⟨op, d.memberAttribute, [m.reference]⟩]) :=
    keeps_skips_modify hstamp fun _ item hitem => List.mem_singleton.1 hitem ▸ hname
  exact (skips_frame x name).keeps_applyDiff (fun m _ => hmodify .delete m) fun m _ =>
    (skips_frame x name).keeps_addMembership (hmodify .add m)

namespace Provisioner

variable {p : Provisioner} {dn : Dn} {e e' : Entry} {dir planned now after : Directory}
  {input : Input} {kind : MembershipKind}

theorem named_membershipFrame (p : Provisioner) : MembershipFrame p Named where
  toFrame := named_frame
  quiet h x := by rw [Directory.storedName, h.1, Directory.storedName]
  add _ _ := named_frame.keeps_addMembership keeps_named_modify
  remove _ _ := keeps_named_modify

/-- A diff that goes through adds to groups that are stored and may be written. -/
theorem stored_of_applyDiff {diff : Diff GroupMembership}
    (hrun : dir.run ((p.descriptor kind).applyDiff p.supply diff) = (.ok (), after))
    {m : GroupMembership} (hm : m ∈ diff.effectiveAdded) :
    dir.Stored m.group ∧ m.group.isIn dir.denied = false := by
  obtain ⟨_, mid, hremove, hadd⟩ := Directory.run_bind_ok.1 hrun
  obtain ⟨front, _, before, _, -, hfront, hturn, -⟩ := Directory.run_forM_ok hadd hm
  have named := named_membershipFrame p
  have logged := logged_membershipFrame p
  have hnamed := named_frame.trans ((named.keeps_removeMemberships kind _).of_run hremove)
    ((named.keeps_forM fun m _ => named.add kind m).of_run hfront)
  have hlogged := Directory.logged_frame.trans
    ((logged.keeps_removeMemberships kind _).of_run hremove)
    ((logged.keeps_forM fun m _ => logged.add kind m).of_run hfront)
  obtain ⟨group, hgroup⟩ := KindDescriptor.stored_of_addMembership hturn
  refine ⟨(Directory.stored_congr (hnamed m.group)).1 (Directory.stored_iff.2 ⟨group, hgroup⟩), ?_⟩
  rw [← hlogged.1]
  exact KindDescriptor.writable_of_addMembership hturn

/-- **What groups hold after a diff that went through.** -/
theorem holdsAt_applyDiff {diff : Diff GroupMembership}
    (hstamp : ¬ Text.same "modifyTimestamp" (p.descriptor kind).memberAttribute = true)
    (hdistinct : ∀ x, Text.Distinct (dir.valuesAt x (p.descriptor kind).memberAttribute))
    (hrun : dir.run ((p.descriptor kind).applyDiff p.supply diff) = (.ok (), after)) (x : Dn)
    (value : String) :
    after.HoldsAt (p.descriptor kind).memberAttribute x value ↔
      (dir.HoldsAt (p.descriptor kind).memberAttribute x value ∧
        ¬ ∃ m ∈ diff.effectiveRemoved, m.Covers x value) ∨
        ∃ m ∈ diff.effectiveAdded, m.Covers x value := by
  have halters : Alters x (p.descriptor kind).memberAttribute _ dir after :=
    KindDescriptor.alters_applyDiff hstamp hrun
  cases hentry : dir.entries.get? x with
  | some group =>
    obtain ⟨group', hentry', hvalues⟩ := halters.stored hentry
    have hbefore := hdistinct x
    rw [Directory.valuesAt_of_entry? hentry] at hbefore
    rw [Directory.holdsAt_iff hentry', hvalues, Text.holds_foldl_addNew_iff,
      Text.holds_foldl_dropFirst hbefore, Directory.holdsAt_iff hentry, exists_referencesIn_iff,
      exists_referencesIn_iff]
  | none =>
    -- There is no group, and none can have been joined.
    have hnone (d : Directory) (hd : d.entries.get? x = none) :
        ¬ d.HoldsAt (p.descriptor kind).memberAttribute x value := fun hheld => by
      obtain ⟨group, hgroup, -⟩ := Directory.exists_entry_of_holdsAt hheld
      cases hd.symm.trans hgroup
    rw [Alters, hentry] at halters
    refine iff_of_false (hnone after (Option.map_eq_none_iff.1 halters)) ?_
    rintro (⟨hheld, -⟩ | ⟨m, hm, hkey, -⟩)
    · exact hnone dir hentry hheld
    · have hstored := (stored_of_applyDiff hrun hm).1
      rw [Directory.Stored, dir.get?_congr hkey, hentry] at hstored
      cases hstored

/-! ## Updates that are worth repeating -/

/-- Every value has its place: no attribute holds two spellings of a value, kinds of groups do not
share a member attribute, the input does not list one, and the server does not stamp one that an
update is to write. -/
structure Repeatable (p : Provisioner) (dir : Directory) (input : Input) : Prop where
  kinds (kind other : MembershipKind) : kind ≠ other →
    ¬ Text.same (p.descriptor kind).memberAttribute (p.descriptor other).memberAttribute = true
  distinct (e : Entry) : e ∈ dir.entries.list → e.attributes.ValuesDistinct
  members (kind : MembershipKind) : input.ordinary.get? (p.descriptor kind).memberAttribute = none
  memberStamp (kind : MembershipKind) : (input.requests.get kind).isUntouched = false →
    ¬ Text.same "modifyTimestamp" (p.descriptor kind).memberAttribute = true

/-- An entry below a base context is stored at a name. -/
def InReach (p : Provisioner) (dir : Directory) (x : Dn) : Prop :=
  ∃ group, dir.entry? x = some group ∧ p.InScope group.dn

/-- A plain update of the entry at a name has nothing left to do. -/
structure Settled (p : Provisioner) (dn : Dn) (e : Entry) (input : Input) (now : Directory) :
    Prop where
  referable : p.Referable dn e input.requests
  writable : input.ordinary.pairs ≠ [] → dn.isIn now.denied = false
  values (pair : String × List String) : pair ∈ input.ordinary.pairs →
    ¬ Text.same "modifyTimestamp" pair.1 = true →
      e.attributes.get? pair.1 = if pair.2.isEmpty then none else some pair.2
  /-- No two references of the entry are spellings of one. -/
  apart (kind : MembershipKind) (r s : String) : (input.requests.get kind).isUntouched = false →
    r ∈ (p.descriptor kind).ownReferences dn e → s ∈ (p.descriptor kind).ownReferences dn e →
      Text.same r s = true → r = s
  /-- Below the base contexts the entry is in listed groups only, under its least reference. -/
  members (kind : MembershipKind) (m : GroupMembership) :
    (input.requests.get kind).isUntouched = false → m ∈ p.membershipsOf kind dn e now.entries →
      m.group.isIn (input.requests.get kind).groups = true ∧
        Text.same (p.ownReference dn e kind) m.reference = true
  /-- The entry is in all listed groups. -/
  listed (kind : MembershipKind) (group : Dn) : group ∈ (input.requests.get kind).groups →
    now.HoldsAt (p.descriptor kind).memberAttribute group (p.ownReference dn e kind)
  unbarred (kind : MembershipKind) (group : Dn) : group ∈ (input.requests.get kind).groups →
    ¬ p.InReach now group → group.isIn now.denied = false

theorem inReach_congr {x y : Dn} (h : x.key = y.key) : p.InReach dir x ↔ p.InReach dir y := by
  unfold InReach Directory.entry?
  rw [dir.get?_congr h]

theorem inReach_iff {x : Dn} :
    p.InReach dir x ↔ ∃ name, dir.storedName x = some name ∧ p.InScope name := by
  simp only [InReach, Directory.storedName, Directory.entry?, Option.map_eq_some_iff,
    exists_exists_and_eq_and]

/-- The groups of an entry are in reach. -/
theorem inReach_of_mem_membershipsOf {m : GroupMembership}
    (hm : m ∈ p.membershipsOf kind dn e dir.entries) : p.InReach dir m.group :=
  ((exists_covers_iff (holdsAt_of_mem_membershipsOf hm)).1
    ⟨m, hm, Eq.refl m.group.key, Text.same_refl _⟩).1

/-- Replacing all memberships adds one for every listed group that is out of reach. -/
theorem Replaces.exists_effectiveAdded {reference : String} {groups : List Dn}
    {diff : Diff GroupMembership} (h : p.Replaces kind dn e dir reference groups diff) {group : Dn}
    (hgroup : group ∈ groups) (hreach : ¬ p.InReach dir group) :
    ∃ m ∈ diff.effectiveAdded, m.group.key = group.key := by
  obtain ⟨m, hm, heq⟩ := h.whole group hgroup
  have hkey : m.group.key = group.key := (GroupMembership.beq_iff.1 heq).2
  refine ⟨m, OrderedSet.mem_difference.2 ⟨hm, fun r hr hsame => hreach ?_⟩, hkey⟩
  have hkey' : r.group.key = group.key := (GroupMembership.beq_iff.1 hsame).2.symm.trans hkey
  exact (inReach_congr hkey').1 (inReach_of_mem_membershipsOf (h.removed r hr))

theorem replaces_regroup (reference : String) {groups : List Dn}
    (hstored : ∀ group ∈ groups, dir.Stored group) :
    p.Replaces kind dn e dir reference groups
      (regroup (p.membershipsOf kind dn e dir.entries) reference groups) := by
  have hnone : ∀ m ∈ ([] : List GroupMembership), m ∈ p.membershipsOf kind dn e dir.entries := nofun
  exact replaces_moveTo reference "" hstored hnone

/-- Replacing all memberships goes through only if the listed groups are stored. -/
theorem stored_of_regroup {reference : String} {groups : List Dn} {before : Directory}
    (hstored : ∀ x, before.Stored x ↔ dir.Stored x)
    (hrun : before.run ((p.descriptor kind).applyDiff p.supply
      (regroup (p.membershipsOf kind dn e dir.entries) reference groups)) = (.ok (), after))
    {group : Dn} (hgroup : group ∈ groups) : dir.Stored group := by
  obtain ⟨m, hm, heq⟩ := OrderedSet.exists_mem_insertAll []
    (List.mem_map.2 ⟨group, hgroup, rfl⟩ : (⟨reference, group⟩ : GroupMembership) ∈ _)
  have hkey : m.group.key = group.key := (GroupMembership.beq_iff.1 heq).2
  unfold Directory.Stored
  rw [← dir.get?_congr hkey]
  by_cases hremoved : ∃ r ∈ p.membershipsOf kind dn e dir.entries, (m == r) = true
  · obtain ⟨r, hr, hsame⟩ := hremoved
    rw [dir.get?_congr (GroupMembership.beq_iff.1 hsame).2]
    exact stored_of_mem_membershipsOf hr
  · refine (hstored m.group).1 (stored_of_applyDiff hrun (OrderedSet.mem_difference.2
      ⟨hm, fun r hr hsame => hremoved ⟨r, ?_, hsame⟩⟩)).1
    exact OrderedSet.mem_of_mem_insertAll_nil hr

/-! ## After a run -/

/-- An update of attributes and memberships is made of one modification and of diffs. -/
theorem keeps_regroupAll {R : Directory → Directory → Prop} (frame : Frame R) {entries : Entries}
    (hmodify : Keeps R (Directory.modify p.supply dn input.ordinary.replacements))
    (hdiff : ∀ kind, Keeps R ((p.descriptor kind).applyDiff p.supply
      (p.plainDiff dn e entries input.requests kind))) :
    Keeps R (p.regroupAll dn e entries input) :=
  frame.keeps_bind (frame.keeps_sendItems hmodify) fun _ =>
    frame.keeps_forM fun kind _ => (hdiff kind).lift

theorem plainDiff_of_supplied {requests : GroupRequests} {entries : Entries}
    (hsupplied : (requests.get kind).isUntouched = false) :
    p.plainDiff dn e entries requests kind = regroup (p.membershipsOf kind dn e entries)
      (p.ownReference dn e kind) (requests.get kind).groups :=
  if_neg (Bool.eq_false_iff.1 hsupplied)

/-- The listed attributes are written, and nothing writes them again. -/
theorem Repeatable.replaced (h : p.Repeatable dir input) {entries : Entries}
    (hrun : planned.run (p.regroupAll dn e entries input) = (.ok (), after))
    (hentry' : after.entry? dn = some e') {pair : String × List String}
    (hpair : pair ∈ input.ordinary.pairs) (hstamp : ¬ Text.same "modifyTimestamp" pair.1 = true) :
    e'.attributes.get? pair.1 = if pair.2.isEmpty then none else some pair.2 := by
  obtain ⟨_, mid, hmodify, hdiffs⟩ := Directory.run_bind_ok.1 hrun
  have hlisted : input.ordinary.get? pair.1 = some pair.2 :=
    AttributePairs.get?_of_mem input.ordinary.distinct hpair (Text.same_refl _)
  have hskips : Skips dn pair.1 mid after := by
    refine ((skips_frame dn _).keeps_forM fun kind _ => Keeps.lift ?_).of_run hdiffs
    refine KindDescriptor.keeps_skips_applyDiff (fun hsame => ?_) hstamp _ _
    have hnone : input.ordinary.get? pair.1 = none :=
      (AttributePairs.get?_congr (Text.same_iff.1 hsame) _).symm.trans (h.members kind)
    cases hnone.symm.trans hlisted
  rcases run_sendItems_ok hmodify with ⟨hnone, -⟩ | hmodify
  · rw [List.map_eq_nil_iff.1 hnone] at hpair
    cases hpair
  · obtain ⟨-, e, attrs, hentry, happly, rfl⟩ := Directory.run_modify_ok hmodify
    have hvalue := Attributes.get?_applyAll_replacements happly pair.1
    rw [hlisted] at hvalue
    unfold Skips at hskips
    unfold Directory.entry? at hentry'
    rw [hentry', Entries.get?_insert_stamped hentry, if_pos rfl] at hskips
    exact (Option.some.inj hskips).trans
      ((Attributes.get?_put attrs _ _ _).trans ((if_neg hstamp).trans hvalue))

section Runs

variable (hquiet : dir.Unwritten planned)
  (hrun : planned.run (p.regroupAll dn e dir.entries input) = (.ok (), after))

include hquiet hrun

/-- No entry comes, goes or changes its name, and nothing more is forbidden. -/
theorem named_of_regroupAll : Named dir after ∧ after.denied = dir.denied := by
  have named := named_membershipFrame p
  have logged := logged_membershipFrame p
  have hnamed := (keeps_regroupAll named_frame keeps_named_modify fun kind =>
    named.keeps_applyDiff kind _).of_run hrun
  have hlogged := (keeps_regroupAll Directory.logged_frame
    (Directory.keeps_logged_modify p.supply dn _) fun kind => logged.keeps_applyDiff kind _).of_run hrun
  exact ⟨named_frame.trans (named.quiet hquiet) hnamed, hlogged.1.trans hquiet.2.1⟩

variable (h : p.Repeatable dir input)

include h

/-- Before and after the turn of a kind its groups are not written. -/
theorem Repeatable.exists_turn (hsupplied : (input.requests.get kind).isUntouched = false) :
    ∃ before next, (∀ x, Spares x (p.descriptor kind).memberAttribute dir before) ∧
      before.denied = dir.denied ∧
      before.run ((p.descriptor kind).applyDiff p.supply
        (p.plainDiff dn e dir.entries input.requests kind)) = (.ok (), next) ∧
      ∀ x, Spares x (p.descriptor kind).memberAttribute next after := by
  have hstamp := h.memberStamp kind hsupplied
  obtain ⟨_, mid, hmodify, hdiffs⟩ := Directory.run_bind_ok.1 hrun
  obtain ⟨front, rest, before, next, hsplit, hfront, hturn, hrest⟩ :=
    Directory.run_forM_ok hdiffs kind.mem_all
  have honce : kind ∉ front ++ rest :=
    (List.nodup_cons.1 (List.nodup_middle.1 (hsplit ▸ by decide))).1
  have hothers (kinds : List MembershipKind) (hkind : kind ∉ kinds) (x : Dn) :
      Keeps (Spares x (p.descriptor kind).memberAttribute) (kinds.forM fun other =>
        (liftM ((p.descriptor other).applyDiff p.supply
          (p.plainDiff dn e dir.entries input.requests other)) : Action Unit)) := by
    refine (spares_frame x _).keeps_forM fun other hother => Keeps.lift fun start => ?_
    have hne : other ≠ kind := fun heq => hkind (heq ▸ hother)
    exact (KindDescriptor.keeps_skips_applyDiff (h.kinds other kind hne) hstamp _ _ start).spares
  have hwrite (x : Dn) : Spares x (p.descriptor kind).memberAttribute planned mid := by
    refine ((spares_frame x _).keeps_sendItems
      (keeps_spares_modify hstamp fun _ item hitem hsame => ?_)).of_run hmodify
    exact Attributes.get?_ne_none_of_item ⟨item, hitem, hsame⟩ (h.members kind)
  have hlogged : Directory.Logged mid before :=
    (Directory.logged_frame.keeps_forM fun other _ =>
      ((logged_membershipFrame p).keeps_applyDiff other _).lift).of_run hfront
  have hlogged' : planned.Logged mid :=
    (Directory.logged_frame.keeps_sendItems
      (Directory.keeps_logged_modify p.supply dn _)).of_run hmodify
  refine ⟨before, next, fun x => ?_, ?_, Directory.run_lift_ok hturn, fun x => ?_⟩
  · refine (spares_frame x _).trans (hquiet.spares x _) ((spares_frame x _).trans (hwrite x) ?_)
    exact (hothers front (fun hmem => honce (List.mem_append_left rest hmem)) x).of_run hfront
  · exact hlogged.1.trans (hlogged'.1.trans hquiet.2.1)
  · exact (hothers rest (fun hmem => honce (List.mem_append_right front hmem)) x).of_run hrest

/-- What the groups of a kind hold in the end. -/
theorem Repeatable.regrouped (hentry : dir.entry? dn = some e)
    (hsupplied : (input.requests.get kind).isUntouched = false) :
    p.Replaces kind dn e dir (p.ownReference dn e kind) (input.requests.get kind).groups
        (p.plainDiff dn e dir.entries input.requests kind) ∧
      (∀ x value, after.HoldsAt (p.descriptor kind).memberAttribute x value ↔
        (p.plainDiff dn e dir.entries input.requests kind).Leaves
          (p.descriptor kind).memberAttribute dir x value) ∧
      ∀ m ∈ (p.plainDiff dn e dir.entries input.requests kind).effectiveAdded,
        m.group.isIn dir.denied = false := by
  obtain ⟨before, next, hbefore, hdenied, hturn, hnext⟩ := h.exists_turn hquiet hrun hsupplied
  have hvalues (x : Dn) := (hbefore x).valuesAt
  have hreplaces : p.Replaces kind dn e dir (p.ownReference dn e kind)
      (input.requests.get kind).groups (p.plainDiff dn e dir.entries input.requests kind) := by
    rw [plainDiff_of_supplied hsupplied] at hturn ⊢
    refine replaces_regroup _ fun group hgroup => stored_of_regroup (fun x => ?_) hturn hgroup
    have hspares := congrArg Option.isSome (hbefore x)
    rw [Option.isSome_map, Option.isSome_map] at hspares
    unfold Directory.Stored
    rw [hspares]
  refine ⟨hreplaces, fun x value => ?_, fun m hm => hdenied ▸ (stored_of_applyDiff hturn hm).2⟩
  have hadmissible := hreplaces.admissible
    (Attributes.valuesDistinct_iff.1 (h.distinct e (dir.entries.get?_eq_some_iff.1 hentry).1))
  have hdistinct (x : Dn) :
      Text.Distinct (before.valuesAt x (p.descriptor kind).memberAttribute) := by
    rw [hvalues x]
    exact dir.distinct_valuesAt h.distinct x _
  have hheld := holdsAt_applyDiff (h.memberStamp kind hsupplied) hdistinct hturn x value
  unfold Directory.HoldsAt at hheld ⊢
  rw [hvalues x] at hheld
  rw [(hnext x).valuesAt, hheld]
  exact hadmissible.effective_iff x value

/-- **Where a plain update leads.** -/
theorem Repeatable.settled (hentry : dir.entry? dn = some e)
    (hreferable : p.Referable dn e input.requests) (hentry' : after.entry? dn = some e')
    (hkept : ∀ kind, (input.requests.get kind).isUntouched = false →
      (p.referencesOf kind dn e').getD [] = (p.referencesOf kind dn e).getD []) :
    p.Settled dn e' input after := by
  obtain ⟨hnamed, hdenied⟩ := named_of_regroupAll hquiet hrun
  have hreach (x : Dn) : p.InReach after x ↔ p.InReach dir x := by
    rw [inReach_iff, inReach_iff, hnamed x]
  have hown (kind : MembershipKind) (hsupplied : (input.requests.get kind).isUntouched = false) :
      p.ownReference dn e' kind = p.ownReference dn e kind := by
    rw [ownReference, hkept kind hsupplied, ownReference]
  have hreferences (kind : MembershipKind)
      (hsupplied : (input.requests.get kind).isUntouched = false) (r : String) :
      r ∈ (p.descriptor kind).ownReferences dn e' ↔ r ∈ (p.descriptor kind).ownReferences dn e := by
    rw [KindDescriptor.mem_ownReferences, KindDescriptor.mem_ownReferences]
    exact iff_of_eq (congrArg (r ∈ ·) (hkept kind hsupplied))
  refine
    { referable := fun kind hgroups => ?_
      writable := fun hpairs => ?_
      values := fun pair hpair hstamp => h.replaced hrun hentry' hpair hstamp
      apart := fun kind r s hsupplied hr hs hsame => ?_
      members := fun kind m hsupplied hm => ?_
      listed := fun kind group hgroup => ?_
      unbarred := fun kind group hgroup hout => ?_ }
  · have hsupplied := GroupRequest.isUntouched_of_groups hgroups
    rw [hkept kind hsupplied, hown kind hsupplied]
    exact hreferable kind hgroups
  · obtain ⟨_, mid, hmodify, -⟩ := Directory.run_bind_ok.1 hrun
    rcases run_sendItems_ok hmodify with ⟨hnone, -⟩ | hmodify
    · exact absurd (List.map_eq_nil_iff.1 hnone) hpairs
    · rw [hdenied, ← hquiet.2.1]
      exact (Directory.run_modify_ok hmodify).1
  · have hdistinct :=
      Attributes.valuesDistinct_iff.1 (h.distinct e (dir.entries.get?_eq_some_iff.1 hentry).1)
    exact KindDescriptor.eq_of_same_references hdistinct
      (KindDescriptor.mem_ownReferences.1 ((hreferences kind hsupplied r).1 hr))
      (KindDescriptor.mem_ownReferences.1 ((hreferences kind hsupplied s).1 hs)) hsame
  · obtain ⟨hreplaces, hholds, -⟩ := h.regrouped hquiet hrun hentry hsupplied
    have hheld := (hholds m.group m.reference).1 (holdsAt_of_mem_membershipsOf hm)
    rcases (hreplaces.leaves_iff m.group m.reference).1 hheld with ⟨-, hnot⟩ | hlisted
    · refine absurd ⟨(hreach m.group).1 (inReach_of_mem_membershipsOf hm), m.reference, ?_,
        Text.same_refl _⟩ hnot
      exact (hreferences kind hsupplied _).1
        (KindDescriptor.mem_ownReferences.2 (reference_of_mem_membershipsOf hm))
    · rw [hown kind hsupplied]
      exact hlisted
  · have hsupplied := GroupRequest.isUntouched_of_groups (List.ne_nil_of_mem hgroup)
    obtain ⟨hreplaces, hholds, -⟩ := h.regrouped hquiet hrun hentry hsupplied
    rw [hown kind hsupplied]
    exact (hholds group _).2 ((hreplaces.leaves_iff group _).2
      (.inr ⟨Dn.isIn_of_mem hgroup, Text.same_refl _⟩))
  · have hsupplied := GroupRequest.isUntouched_of_groups (List.ne_nil_of_mem hgroup)
    obtain ⟨hreplaces, -, hwritable⟩ := h.regrouped hquiet hrun hentry hsupplied
    obtain ⟨m, hm, hkey⟩ :=
      hreplaces.exists_effectiveAdded hgroup fun hin => hout ((hreach group).2 hin)
    rw [hdenied, ← Dn.isIn_congr hkey]
    exact hwritable m hm

end Runs

end Provisioner

end Roster
