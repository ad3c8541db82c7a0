import Roster.Proofs.Creation
import Roster.Proofs.Reachable

/-!
# Sessions of requests

A session makes requests of a directory one after the other, in any order and whatever becomes of each.
A request that is refused leaves the entries alone, and so does one that only asks; what is left are
the three effects of `Mutation.Effect`. A property of the entries that each effect keeps holds all
along (`session_keeps`). The first such property is that keys, names and the attribute `entryDN` agree,
which takes whole subtrees through any sequence of moves (`session_consistent`).
-/

namespace Roster

/-- A request with all that it is made with. -/
inductive Command where
  | change (m : Mutation)
  | search (base : Dn) (scope : Scope) (filter : Filter) (wanted : List String)
  | read (dn : Dn) (wanted : List String)

/-- Makes a request, for its effect only. -/
def Command.send (supply : Supply) : Command → Directory.Action Unit
  | .change m => m.send supply
  | .search base scope filter wanted => do
    let _ ← Directory.search base scope filter wanted
    return ()
  | .read dn wanted => do
    let _ ← Directory.read dn wanted
    return ()

/-- The directory after some requests, each made whatever became of those before. -/
def Directory.session (supply : Supply) (dir : Directory) (commands : List Command) : Directory :=
  commands.foldl (fun dir c => (dir.run (c.send supply)).2) dir

/-- An empty directory in which some names may not be written. -/
def Directory.fresh (denied : List Dn) : Directory :=
  { Directory.empty with denied }

/-! ## Effects -/

open Directory (stamped renamedDn renamedAttributes moveDescendants moveDescendant exchange carried)

/-- What a change that is accepted makes of the entries. -/
inductive Mutation.Effect (supply : Supply) (dir : Directory) : Mutation → Entries → Prop
  | added {dn : Dn} {attrs : Attributes} : dir.entry? dn = none →
      Effect supply dir (.add dn attrs)
        (dir.entries.insert ⟨dn, stamped supply dir.handled dn attrs⟩)
  | modified {dn : Dn} {items : List Modification} {e : Entry} {attrs : Attributes} :
      dir.entry? dn = some e → e.attributes.applyAll dn.text items = .ok attrs →
      Effect supply dir (.modify dn items)
        (dir.entries.insert ⟨e.dn, attrs.put "modifyTimestamp" [supply.time dir.handled]⟩)
  | renamed {dn : Dn} {rdn : Rdn} {superior : Option Dn} {e : Entry} :
      dir.entry? dn = some e →
      Effect supply dir (.rename dn rdn superior)
        (moveDescendants dn (renamedDn dn rdn superior) (exchange dir.entries dn
          ⟨renamedDn dn rdn superior, renamedAttributes supply dir.handled dn
            (renamedDn dn rdn superior) rdn e.attributes⟩))

variable {supply : Supply} {dir after : Directory}

theorem Mutation.effect_of_send {m : Mutation} (h : dir.run (m.send supply) = (.ok (), after)) :
    m.Effect supply dir after.entries := by
  cases m with
  | add dn attrs =>
    rw [Directory.run_add_ok h]
    exact .added (Directory.free_of_add h)
  | modify dn items =>
    obtain ⟨-, e, attrs, hentry, happly, rfl⟩ := Directory.run_modify_ok h
    exact .modified hentry happly
  | rename dn rdn superior =>
    obtain ⟨landed, mid, hrename, hrest⟩ := Directory.run_bind_ok.1 h
    cases hrest
    obtain ⟨rfl, -, e, hentry, -, htable⟩ := Directory.run_rename_table hrename
    rw [htable]
    exact .renamed hentry

theorem Mutation.entries_of_error {m : Mutation} {e : DirectoryError}
    (h : dir.run (m.send supply) = (.error e, after)) : after.entries = dir.entries := by
  cases m with
  | add dn attrs => rw [Directory.run_perform_error h, Directory.record_entries]
  | modify dn items => rw [Directory.run_perform_error h, Directory.record_entries]
  | rename dn rdn superior =>
    rcases Directory.run_bind_error.1 h with hrename | ⟨landed, mid, -, hrest⟩
    · rw [Directory.run_perform_error hrename, Directory.record_entries]
    · cases hrest

/-- **What a request can do to the entries:** nothing, or, if it is an accepted change, its effect. -/
theorem Command.run_cases (supply : Supply) (dir : Directory) (c : Command) :
    (dir.run (c.send supply)).2.entries = dir.entries ∧
        (∀ m, c = .change m → (dir.run (c.send supply)).1 ≠ .ok ()) ∨
      ∃ m, c = .change m ∧ (dir.run (c.send supply)).1 = .ok () ∧
        m.Effect supply dir (dir.run (c.send supply)).2.entries := by
  cases c with
  | change m =>
    show (dir.run (m.send supply)).2.entries = dir.entries ∧
        (∀ m', Command.change m = .change m' → (dir.run (m.send supply)).1 ≠ .ok ()) ∨
      ∃ m', Command.change m = .change m' ∧ (dir.run (m.send supply)).1 = .ok () ∧
        m'.Effect supply dir (dir.run (m.send supply)).2.entries
    cases hrun : dir.run (m.send supply) with
    | mk result after =>
      cases result with
      | error e => exact .inl ⟨Mutation.entries_of_error hrun, fun _ _ => nofun⟩
      | ok _ => exact .inr ⟨m, rfl, rfl, Mutation.effect_of_send hrun⟩
  | search base scope filter wanted => exact .inl ⟨rfl, nofun⟩
  | read dn wanted => exact .inl ⟨rfl, nofun⟩

/-! ## Runs -/

theorem Directory.session_append (supply : Supply) (dir : Directory) (front : List Command)
    (c : Command) : dir.session supply (front ++ [c]) =
      ((dir.session supply front).run (c.send supply)).2 := by
  rw [Directory.session, List.foldl_append]
  rfl

/-- A property of the entries that every accepted change of a session keeps holds at its end. -/
theorem session_keeps {P : Entries → Prop} {commands : List Command}
    (hstep : ∀ (dir : Directory) (m : Mutation) (entries : Entries), .change m ∈ commands →
      m.Effect supply dir entries → P dir.entries → P entries)
    (h : P dir.entries) : P (dir.session supply commands).entries := by
  induction commands generalizing dir with
  | nil => exact h
  | cons c commands ih =>
    refine ih (fun dir m entries hm => hstep dir m entries (List.mem_cons_of_mem c hm)) ?_
    rcases c.run_cases supply dir with ⟨hentries, -⟩ | ⟨m, rfl, -, heffect⟩
    · rw [hentries]
      exact h
    · exact hstep dir m _ List.mem_cons_self heffect h

/-! ## Keys, names and `entryDN` -/

/-- The entry says its own name in the attribute `entryDN`. -/
def Entry.SaysName (e : Entry) : Prop :=
  e.attributes.values "entryDN" = [e.dn.text]

theorem Entry.saysName_carried (dn renamed : Dn) (e : Entry) : (carried dn renamed e).SaysName := by
  unfold SaysName carried
  rw [Attributes.values_put, if_pos (Text.same_refl _)]

theorem Entry.saysName_stamped (supply : Supply) (tick : Nat) (dn : Dn) (attrs : Attributes) :
    Entry.SaysName ⟨dn, stamped supply tick dn attrs⟩ := by
  have hmodified : ¬ Text.same "modifyTimestamp" "entryDN" = true := by decide
  have hcreated : ¬ Text.same "createTimestamp" "entryDN" = true := by decide
  unfold SaysName stamped
  rw [Attributes.values_put, if_neg hmodified, Attributes.values_put, if_neg hcreated,
    Attributes.values_put, if_pos (Text.same_refl _)]

theorem Entry.saysName_renamed (supply : Supply) (tick : Nat) (dn renamed : Dn) (rdn : Rdn)
    (attrs : Attributes) :
    Entry.SaysName ⟨renamed, renamedAttributes supply tick dn renamed rdn attrs⟩ := by
  have hmodified : ¬ Text.same "modifyTimestamp" "entryDN" = true := by decide
  unfold SaysName renamedAttributes
  rw [Attributes.values_put, if_neg hmodified, Attributes.values_put, if_pos (Text.same_refl _)]

/-- A modification that does not name `entryDN` leaves it as it is. -/
theorem Entry.SaysName.modified {e : Entry} (h : e.SaysName) {text : String}
    {items : List Modification} {attrs : Attributes} (happly : e.attributes.applyAll text items = .ok attrs)
    (hitems : ∀ item ∈ items, ¬ Text.same item.name "entryDN" = true) (stamp : String) :
    Entry.SaysName ⟨e.dn, attrs.put "modifyTimestamp" [stamp]⟩ := by
  have hmodified : ¬ Text.same "modifyTimestamp" "entryDN" = true := by decide
  unfold SaysName
  rw [Attributes.values_put, if_neg hmodified, Attributes.values_applyAll_of_ne happly hitems]
  exact h

/-- An item of the request is about the attribute. -/
def Command.Names (name : String) : Command → Prop
  | .change (.modify _ items) => ∃ item ∈ items, Text.same item.name name = true
  | _ => False

instance (name : String) : DecidablePred (Command.Names name)
  | .change (.modify _ items) => inferInstanceAs (Decidable (∃ item ∈ items, _))
  | .change (.add ..) | .change (.rename ..) | .search .. | .read .. => .isFalse id

/-- Every accepted change leaves entries that say their own names, if no item is about `entryDN`. -/
theorem Mutation.Effect.saysName {m : Mutation} {entries : Entries}
    (heffect : m.Effect supply dir entries) (hm : ¬ Command.Names "entryDN" (.change m))
    (h : ∀ e ∈ dir.entries.list, e.SaysName) : ∀ e ∈ entries.list, e.SaysName := by
  cases heffect with
  | added _ =>
    intro x hx
    rcases Entries.mem_insertInto hx with rfl | hx
    · exact Entry.saysName_stamped supply _ _ _
    · exact h x hx
  | modified hentry happly =>
    intro x hx
    rcases Entries.mem_insertInto hx with rfl | hx
    · refine Entry.SaysName.modified (h _ (dir.entries.get?_eq_some_iff.1 hentry).1) happly ?_ _
      exact fun item hitem hsame => hm ⟨item, hitem, hsame⟩
    · exact h x hx
  | renamed _ =>
    refine Directory.forall_moveDescendants (fun e _ => Entry.saysName_carried _ _ e) ?_
    intro x hx
    rcases Entries.mem_insertInto hx with rfl | hx
    · exact Entry.saysName_renamed supply _ _ _ _ _
    · exact h x (List.mem_filter.1 hx).1

/-- Keys, names and attributes of the entries agree. That entries stand in the order of their keys and
that names of attributes are distinct is part of `Entries` and `Attributes`, so `keyed`, `apart` and
`readable` hold in every directory; `named` is what each change of a session has to keep
(`consistent_of_saysName`). -/
structure Directory.Consistent (dir : Directory) : Prop where
  /-- Under a key stands the entry whose name has that key. -/
  keyed (key : String) (e : Entry) :
    dir.entries.find? key = some e ↔ e ∈ dir.entries.list ∧ e.dn.key = key
  /-- The attribute `entryDN` has the name of the entry for its one value. -/
  named (e : Entry) : e ∈ dir.entries.list → e.attributes.get? "entryDN" = some [e.dn.text]
  /-- No two names of attributes are equal ignoring ASCII case. -/
  apart (e : Entry) : e ∈ dir.entries.list →
    e.attributes.names.Pairwise fun a b => ¬ Text.same a b = true
  /-- Whoever reads a spelling of the name of an entry gets the entry, with the attributes asked
  for; the whole of it if none are named. -/
  readable (e : Entry) (dn : Dn) (wanted : List String) : e ∈ dir.entries.list →
    dn.same e.dn = true → (dir.run (Directory.read dn wanted)).1 =
      .ok (some (if wanted.isEmpty then e else ⟨e.dn, e.attributes.project wanted⟩))

theorem Attributes.pairwise_names (attrs : Attributes) :
    attrs.names.Pairwise fun a b => ¬ Text.same a b = true := by
  have hkeys := attrs.distinct
  unfold AttributePairs.keys at hkeys
  unfold names
  rw [List.pairwise_map]
  refine (List.pairwise_map.1 hkeys).imp fun hne hsame => ?_
  exact hne (Text.same_iff.1 hsame)

theorem Directory.read_spelling {e : Entry} {dn : Dn} (wanted : List String)
    (he : e ∈ dir.entries.list) (hdn : dn.same e.dn = true) :
    (dir.run (Directory.read dn wanted)).1 =
      .ok (some (if wanted.isEmpty then e else ⟨e.dn, e.attributes.project wanted⟩)) := by
  have hentry : dir.entry? dn = some e :=
    dir.entries.get?_eq_some_iff.2 ⟨he, (Dn.same_iff.1 hdn).symm⟩
  rw [Directory.run_read, hentry]
  cases wanted <;> rfl

theorem Directory.consistent_of_saysName (h : ∀ e ∈ dir.entries.list, e.SaysName) :
    dir.Consistent where
  keyed key e := dir.entries.find?_eq_some_iff
  named e he := by
    have hvalues := h e he
    unfold Entry.SaysName Attributes.values at hvalues
    cases hget : e.attributes.get? "entryDN" with
    | none =>
      rw [hget] at hvalues
      cases hvalues
    | some values =>
      rw [hget] at hvalues
      exact congrArg some hvalues
  apart e _ := e.attributes.pairwise_names
  readable _ _ wanted := Directory.read_spelling wanted

/-- **Keys, names and `entryDN` agree all along a session** that starts from an empty directory, as
long as no modification is about `entryDN`. -/
theorem session_consistent (supply : Supply) (denied : List Dn) {commands : List Command}
    (h : ∀ c ∈ commands, ¬ c.Names "entryDN") :
    ((Directory.fresh denied).session supply commands).Consistent := by
  refine Directory.consistent_of_saysName ?_
  refine session_keeps (P := fun entries => ∀ e ∈ entries.list, e.SaysName) ?_ nofun
  intro dir m entries hm heffect hdir
  exact heffect.saysName (h _ hm) hdir

namespace Sample

/-- The name of an entry below the one at `above`. -/
def under (above : Dn) (type value : String) : Dn :=
  above.child (.single type value)

/-- An entry with two below it is renamed, spelled in another way and put below itself; the entry in
the middle is modified, and one change is refused. -/
def travels : List Command :=
  [.change (.add (name "ou" "a") .empty),
    .change (.add (under (name "ou" "a") "cn" "b") .empty),
    .change (.add (under (under (name "ou" "a") "cn" "b") "cn" "c") .empty),
    .change (.rename (name "ou" "a") (.single "ou" "z") none),
    .change (.rename (name "ou" "a") (.single "ou" "q") none),
    .change (.modify (under (name "ou" "z") "cn" "b") [⟨.add, "sn", ["Lee"]⟩]),
    .search (name "ou" "z") .subtree (.present "cn") [],
    .change (.rename (name "ou" "z") (.single "OU" "Z") none),
    .read (name "ou" "z") [],
    .change (.rename (name "ou" "z") (.single "ou" "n") (some (name "ou" "z")))]

theorem consistent_after_travels :
    ((Directory.fresh []).session provisioner.supply travels).Consistent ∧
      ((Directory.fresh []).session provisioner.supply travels).entries.names.map Dn.text =
        ["cn=b,ou=n,ou=z,dc=x", "cn=c,cn=b,ou=n,ou=z,dc=x", "ou=n,ou=n,ou=z,dc=x"] := by
  exact ⟨session_consistent _ _ (by decide +kernel), by decide +kernel⟩

end Sample

end Roster
