import Roster.Proofs.Moves
import Roster.Proofs.Retention

/-!
# Where the values of an attribute come from

An attribute `Draws` on some values if all else that the entries hold of it was there before, be it
under another name; moving entries draws on nothing (`keeps_draws_rename`). An entry `Confines`
what happens to an attribute if no other entry has gained anything; a renamed entry that is found
under its new name does (`confines_rename`).
-/

namespace Roster

variable {name : String} {new : List String → Prop} {dir after : Directory}

/-- Where an attribute is spared at every name, each entry holds what it held. -/
theorem exists_source (h : ∀ x, Spares x name dir after) {e : Entry} (he : e ∈ after.entries.list) :
    ∃ old ∈ dir.entries.list, old.dn.key = e.dn.key ∧
      e.attributes.values name = old.attributes.values name := by
  have hback : Spares e.dn name after dir := (h e.dn).symm
  obtain ⟨old, hold, hvalues⟩ := hback.stored (after.entries.get?_eq_some_iff.2 ⟨he, rfl⟩)
  obtain ⟨hmem, hkey⟩ := dir.entries.get?_eq_some_iff.1 hold
  exact ⟨old, hmem, hkey, hvalues.symm⟩

/-- After some requests an entry holds of an attribute some new values, or what an entry held
before. -/
def Draws (name : String) (new : List String → Prop) (dir after : Directory) : Prop :=
  ∀ e ∈ after.entries.list, new (e.attributes.values name) ∨
    ∃ old ∈ dir.entries.list, e.attributes.values name = old.attributes.values name

theorem draws_frame (name : String) (new : List String → Prop) : Frame (Draws name new) where
  refl dir e he := .inr ⟨e, he, rfl⟩
  trans := by
    intro a b c hab hbc e he
    rcases hbc e he with hnew | ⟨old, hold, hvalues⟩
    · exact .inl hnew
    · rw [hvalues]
      exact hab old hold

/-- An attribute that is spared at every name draws on nothing new. -/
theorem draws_of_spares (h : ∀ x, Spares x name dir after) : Draws name new dir after := by
  intro e he
  obtain ⟨old, hold, -, hvalues⟩ := exists_source h he
  exact .inr ⟨old, hold, hvalues⟩

theorem Keeps.draws {ε α : Type} {x : ExceptT ε (StateM Directory) α}
    (h : ∀ dn, Keeps (Spares dn name) x) : Keeps (Draws name new) x :=
  fun dir => draws_of_spares fun dn => h dn dir

theorem Directory.Unwritten.draws (h : dir.Unwritten after) : Draws name new dir after :=
  draws_of_spares fun x => h.spares x name

/-- A modification draws on what its items make of the entry. -/
theorem keeps_draws_modify {supply : Supply} {dn : Dn} {items : List Modification}
    (htime : ¬ Text.same "modifyTimestamp" name = true)
    (hitems : ∀ {text : String} {attrs attrs' : Attributes},
      attrs.applyAll text items = .ok attrs' →
        new (attrs'.values name) ∨ attrs'.values name = attrs.values name) :
    Keeps (Draws name new) (Directory.modify supply dn items) := by
  intro dir
  cases hrun : dir.run (Directory.modify supply dn items) with
  | mk result after =>
    cases result with
    | error err =>
      rw [Directory.run_perform_error hrun]
      exact (draws_frame name new).refl dir
    | ok _ =>
      obtain ⟨-, old, attrs, hentry, happly, rfl⟩ := Directory.run_modify_ok hrun
      intro e he
      rcases Entries.mem_insertInto he with rfl | he
      · dsimp only
        rw [Attributes.values_put, if_neg htime]
        refine (hitems happly).imp_right fun hvalues => ⟨old, ?_, hvalues⟩
        exact (dir.entries.get?_eq_some_iff.1 hentry).1
      · exact .inr ⟨e, he, rfl⟩

/-- What is below a renamed entry moves with its values. -/
theorem exists_source_moveDescendant {dn renamed : Dn} {entries : Entries} {key : String}
    {e : Entry} (hdn : ¬ Text.same "entryDN" name = true)
    (he : e ∈ (Directory.moveDescendant dn renamed entries key).list) :
    ∃ old ∈ entries.list, (old.dn.key = e.dn.key ∨ old.dn.key = key) ∧
      e.attributes.values name = old.attributes.values name := by
  unfold Directory.moveDescendant at he
  split at he
  · exact ⟨e, he, .inl rfl, rfl⟩
  · next old hfind =>
    obtain ⟨hold, hkey⟩ := entries.find?_eq_some_iff.1 hfind
    rcases Entries.mem_insertInto he with rfl | he
    · refine ⟨old, hold, .inr hkey, ?_⟩
      dsimp only
      rw [Attributes.values_put, if_neg hdn]
    · exact ⟨e, (List.mem_filter.1 he).1, .inl rfl, rfl⟩

theorem exists_source_foldl_moveDescendant {dn renamed : Dn}
    (hdn : ¬ Text.same "entryDN" name = true) {keys : List String} {entries : Entries} {e : Entry}
    (he : e ∈ (keys.foldl (Directory.moveDescendant dn renamed) entries).list) :
    ∃ old ∈ entries.list, (old.dn.key = e.dn.key ∨ old.dn.key ∈ keys) ∧
      e.attributes.values name = old.attributes.values name := by
  induction keys generalizing entries with
  | nil => exact ⟨e, he, .inl rfl, rfl⟩
  | cons key keys ih =>
    obtain ⟨mid, hmid, hmidKey, hmidValues⟩ := ih he
    obtain ⟨old, hold, holdKey, holdValues⟩ := exists_source_moveDescendant hdn hmid
    refine ⟨old, hold, ?_, hmidValues.trans holdValues⟩
    rw [List.mem_cons]
    rcases holdKey with hsame | hmoved
    · rw [hsame]
      exact hmidKey.imp_right .inr
    · exact .inr (.inl hmoved)

/-- A rename draws on nothing new if neither the old nor the new relative name has a value of the
attribute. -/
theorem keeps_draws_rename {supply : Supply} {dn : Dn} {rdn : Rdn} {superior : Option Dn}
    (hdn : ¬ Text.same "entryDN" name = true) (htime : ¬ Text.same "modifyTimestamp" name = true)
    (hold : dn.leafValues name = []) (hnew : rdn.valuesOf name = []) :
    Keeps (Draws name new) (Directory.rename supply dn rdn superior) := by
  intro dir
  cases hrun : dir.run (Directory.rename supply dn rdn superior) with
  | mk result after =>
    cases result with
    | error err =>
      rw [Directory.run_perform_error hrun]
      exact (draws_frame name new).refl dir
    | ok landed =>
      obtain ⟨-, -, old, hentry, -, htable⟩ := Directory.run_rename_table hrun
      intro e he
      rw [htable, Directory.moveDescendants_eq] at he
      obtain ⟨mid, hmid, -, hvalues⟩ := exists_source_foldl_moveDescendant hdn he
      rw [hvalues]
      rcases Entries.mem_insertInto hmid with rfl | hmid
      · refine .inr ⟨old, (dir.entries.get?_eq_some_iff.1 hentry).1, ?_⟩
        dsimp only
        rw [Directory.values_renamedAttributes supply dir.handled dn landed rdn old.attributes hdn
          htime, hold, hnew]
        exact List.filter_eq_self.2 fun v _ => rfl
      · exact .inr ⟨mid, (List.mem_filter.1 hmid).1, rfl⟩

/-! ## One entry -/

/-- Apart from the entry that was at one name and is at another one now, entries hold of an attribute
what such entries held before. -/
def Confines (dn target : Dn) (name : String) (dir after : Directory) : Prop :=
  ∀ e ∈ after.entries.list, e.dn.key ≠ target.key → ∃ old ∈ dir.entries.list,
    old.dn.key ≠ dn.key ∧ e.attributes.values name = old.attributes.values name

variable {dn target : Dn}

theorem Confines.trans {landed : Dn} {mid : Directory} (h : Confines dn target name dir mid)
    (h' : Confines target landed name mid after) : Confines dn landed name dir after := by
  intro e he hne
  obtain ⟨old, hold, holdNe, hvalues⟩ := h' e he hne
  rw [hvalues]
  exact h old hold holdNe

theorem confines_frame (dn : Dn) (name : String) : Frame (Confines dn dn name) where
  refl _ e he hne := ⟨e, he, hne, rfl⟩
  trans := Confines.trans

theorem confines_of_spares (h : ∀ x, Spares x name dir after) : Confines dn dn name dir after := by
  intro e he hne
  obtain ⟨old, hold, hkey, hvalues⟩ := exists_source h he
  exact ⟨old, hold, hkey ▸ hne, hvalues⟩

/-- A modification changes one entry. -/
theorem keeps_confines_modify (supply : Supply) (dn : Dn) (items : List Modification) :
    Keeps (Confines dn dn name) (Directory.modify supply dn items) := by
  intro dir
  cases hrun : dir.run (Directory.modify supply dn items) with
  | mk result after =>
    cases result with
    | error err =>
      rw [Directory.run_perform_error hrun]
      exact (confines_frame dn name).refl dir
    | ok _ =>
      obtain ⟨-, old, attrs, hentry, -, rfl⟩ := Directory.run_modify_ok hrun
      have hkey : old.dn.key = dn.key := (dir.entries.get?_eq_some_iff.1 hentry).2
      intro e he hne
      rcases Entries.mem_insertInto he with rfl | he
      · exact absurd hkey hne
      · exact ⟨e, he, hne, rfl⟩

theorem keeps_confines_add (supply : Supply) (dn : Dn) (attrs : Attributes) :
    Keeps (Confines dn dn name) (Directory.add supply dn attrs) := by
  intro dir
  cases hrun : dir.run (Directory.add supply dn attrs) with
  | mk result after =>
    cases result with
    | error err =>
      rw [Directory.run_perform_error hrun]
      exact (confines_frame dn name).refl dir
    | ok _ =>
      intro e he hne
      rw [Directory.run_add_ok hrun] at he
      rcases Entries.mem_insertInto he with rfl | he
      · exact absurd rfl hne
      · exact ⟨e, he, hne, rfl⟩

/-- **What a renamed entry held goes with it**, if it is found under its new name. -/
theorem confines_rename {supply : Supply} {landed : Dn} {rdn : Rdn} {superior : Option Dn}
    {found : Entry} (hdn : ¬ Text.same "entryDN" name = true)
    (hrun : dir.run (Directory.rename supply dn rdn superior) = (.ok landed, after))
    (hfound : after.entries.get? landed = some found) : Confines dn landed name dir after := by
  have hnests : ¬ Directory.NestsItself dn landed := by
    obtain ⟨-, -, -, -, -, hlost⟩ := Directory.run_rename_ok hrun
    intro hnests
    rw [hlost hnests] at hfound
    cases hfound
  obtain ⟨-, -, old, -, -, htable⟩ := Directory.run_rename_table hrun
  intro e he hne
  rw [htable, Directory.moveDescendants_eq] at he
  obtain ⟨mid, hmid, hkey, hvalues⟩ := exists_source_foldl_moveDescendant hdn he
  -- The renamed entry does not move any further, so it is not the source of another one.
  have hmidNe : mid.dn.key ≠ landed.key := by
    rcases hkey with hsame | hmoved
    · rwa [hsame]
    · intro heq
      rw [heq, Directory.renamed_mem_keysBelow rfl
        ((Entries.find?_insert _ _ _).trans (if_pos rfl))] at hmoved
      exact hnests hmoved
  rcases Entries.mem_insertInto hmid with rfl | hmid
  · exact absurd rfl hmidNe
  · obtain ⟨hstored, hother⟩ := List.mem_filter.1 hmid
    exact ⟨mid, hstored, bne_iff_ne.1 hother, hvalues⟩

/-- A value that replaces an attribute is all that the entry holds of it. -/
theorem run_replace_found {supply : Supply} (htime : ¬ Text.same "modifyTimestamp" name = true)
    {value : String}
    (hrun : dir.run (Directory.modify supply target [⟨.replace, name, [value]⟩]) =
      (.ok (), after)) :
    ∃ e, after.entry? target = some e ∧ e.attributes.values name = [value] := by
  obtain ⟨-, old, attrs, hentry, happly, rfl⟩ := Directory.run_modify_ok hrun
  have hkey : old.dn.key = target.key := (dir.entries.get?_eq_some_iff.1 hentry).2
  refine ⟨_, (Entries.find?_insert _ _ _).trans (if_pos hkey), ?_⟩
  dsimp only
  rw [Attributes.values_put, if_neg htime]
  cases happly
  rw [Attributes.values_settle, if_pos (Text.same_refl name)]

end Roster
