import Roster.Proofs.Following
import Roster.Proofs.RequestOrder
import Roster.Proofs.Subtrees

/-!
# Directories that requests lead to

`Directory.Reachable` gathers the directories that come about by requests and by operations, from
the empty one. What holds of all of them is that the relative names of their entries have pairs
(`Reachable.formed`): requests are made with such names, and neither a move nor an operation builds
any other. Such names are not empty texts, and so a name with a given parent can be told by its key
(`Dn.key_child_congr`).
-/

namespace Roster

/-! ## Names that are made of pairs -/

/-- A relative name has at least one pair. -/
def Rdn.Formed (r : Rdn) : Prop :=
  r.avas ≠ []

/-- Every relative name of a name has a pair. -/
def Dn.Formed (d : Dn) : Prop :=
  ∀ r ∈ d.rdns, r.Formed

instance (d : Dn) : Decidable d.Formed :=
  inferInstanceAs (Decidable (∀ r ∈ d.rdns, r.avas ≠ []))

theorem intercalate_ne_empty {separator : String} {parts : List String} (hparts : parts ≠ [])
    (h : ∀ s ∈ parts, s ≠ "") : separator.intercalate parts ≠ "" := by
  obtain ⟨first, rest, rfl⟩ := List.exists_cons_of_ne_nil hparts
  have hfirst := h first List.mem_cons_self
  cases rest with
  | nil => simpa using hfirst
  | cons next rest =>
    rw [← List.singleton_append, String.intercalate_append_of_ne_nil (by simp) (by simp)]
    simp [hfirst]

theorem Rdn.Formed.key_ne_empty {r : Rdn} (h : r.Formed) : r.key ≠ "" := by
  have hperm := Text.sorted_perm (r.avas.map Ava.key)
  refine intercalate_ne_empty (fun hnone => h ?_) fun s hs => ?_
  · rw [hnone] at hperm
    exact List.map_eq_nil_iff.1 hperm.nil_eq.symm
  · obtain ⟨ava, -, rfl⟩ := List.mem_map.1 (hperm.mem_iff.1 hs)
    simp [Ava.key]

namespace Dn

variable {d e above dn renamed : Dn} {r : Rdn}

theorem Spelled.formed (h : d.Spelled) : d.Formed :=
  fun r hr => (h r hr).avas_ne_nil

theorem Formed.parent (h : d.Formed) (habove : d.parent? = some above) : above.Formed := by
  obtain ⟨rdns⟩ := d
  cases rdns with
  | nil => cases habove
  | cons r rest =>
    cases habove
    exact fun s hs => h s (List.mem_cons_of_mem r hs)

theorem exists_child_of_leaf? (h : d.leaf? = some r) :
    ∃ above, d = above.child r ∧ d.parent? = some above := by
  obtain ⟨rdns⟩ := d
  cases rdns with
  | nil => cases h
  | cons leaf rest =>
    cases h
    exact ⟨⟨rest⟩, rfl, rfl⟩

theorem Formed.child (h : d.Formed) (hr : r.Formed) : (d.child r).Formed := by
  intro s hs
  rcases List.mem_cons.1 hs with rfl | hs
  · exact hr
  · exact h s hs

theorem Formed.follow (h : d.Formed) (hrenamed : renamed.Formed) : (d.follow dn renamed).Formed := by
  unfold Dn.follow rebase?
  split
  · intro s hs
    rcases List.mem_append.1 hs with hs | hs
    · exact h s (List.mem_of_mem_take hs)
    · exact hrenamed s hs
  · exact h

/-- Only the root has the empty key. -/
theorem Formed.key_eq_empty (h : d.Formed) : d.key = "" ↔ d.rdns = [] := by
  constructor
  · intro hkey
    refine Classical.byContradiction fun hsome => intercalate_ne_empty (by simpa using hsome) ?_ hkey
    intro s hs
    obtain ⟨r, hr, rfl⟩ := List.mem_map.1 hs
    exact (h r hr).key_ne_empty
  · intro hroot
    rw [key, hroot]
    rfl

/-- Children of one name with one relative name are one name. -/
theorem key_child_congr (hd : d.Formed) (he : e.Formed) (h : d.key = e.key) (r : Rdn) :
    (d.child r).key = (e.child r).key := by
  by_cases hroot : d.rdns = []
  · have hroot' : e.rdns = [] := he.key_eq_empty.1 (h ▸ hd.key_eq_empty.2 hroot)
    rw [child, child, hroot, hroot']
  · have hbelow : e.rdns ≠ [] := fun hroot' =>
      hroot (hd.key_eq_empty.1 (h.trans (he.key_eq_empty.2 hroot')))
    have hkey := key_append (List.cons_ne_nil r []) hroot
    have hkey' := key_append (List.cons_ne_nil r []) hbelow
    rw [List.singleton_append] at hkey hkey'
    rw [child, child, hkey, hkey', h]

end Dn

/-! ## Requests -/

/-- The names in a request for a change are made of pairs. -/
def Mutation.Formed : Mutation → Prop
  | .add dn _ => dn.Formed
  | .modify .. => True
  | .rename dn rdn superior =>
    dn.Formed ∧ rdn.Formed ∧ ∀ above, superior = some above → above.Formed

namespace Directory

/-- The names of all entries are made of pairs. -/
def Formed (dir : Directory) : Prop :=
  ∀ e ∈ dir.entries.list, e.dn.Formed

theorem formed_renamedDn {dn : Dn} {rdn : Rdn} {superior : Option Dn} (hdn : dn.Formed)
    (hrdn : rdn.Formed) (hsuperior : ∀ above, superior = some above → above.Formed) :
    (renamedDn dn rdn superior).Formed := by
  refine Dn.Formed.child ?_ hrdn
  cases superior with
  | some above => exact hsuperior above rfl
  | none =>
    cases hparent : dn.parent? with
    | some above => exact hdn.parent hparent
    | none => exact nofun

theorem formed_moveDescendants {dn renamed : Dn} {table : Entries} (hrenamed : renamed.Formed)
    (h : ∀ e ∈ table.list, e.dn.Formed) :
    ∀ e ∈ (moveDescendants dn renamed table).list, e.dn.Formed :=
  forall_moveDescendants (Q := fun e => e.dn.Formed) (fun _ he => he.follow hrenamed) h

variable {dir after : Directory}

/-- A request with names that are made of pairs leaves such names. -/
theorem Formed.send (h : dir.Formed) (supply : Supply) {m : Mutation} (hm : m.Formed) :
    (dir.run (m.send supply)).2.Formed := by
  cases m with
  | add dn attrs =>
    show (dir.run (add supply dn attrs)).2.Formed
    cases hrun : dir.run (add supply dn attrs) with
    | mk result after =>
      cases result with
      | error e => exact run_perform_error hrun ▸ h
      | ok _ =>
        unfold Formed
        rw [run_add_ok hrun]
        intro x hx
        rcases Entries.mem_insertInto hx with rfl | hx
        · exact hm
        · exact h x hx
  | modify dn items =>
    show (dir.run (modify supply dn items)).2.Formed
    cases hrun : dir.run (modify supply dn items) with
    | mk result after =>
      cases result with
      | error e => exact run_perform_error hrun ▸ h
      | ok _ =>
        obtain ⟨-, e, attrs, hentry, -, rfl⟩ := run_modify_ok hrun
        intro x hx
        rcases Entries.mem_insertInto hx with rfl | hx
        · exact h e (dir.entries.get?_eq_some_iff.1 hentry).1
        · exact h x hx
  | rename dn rdn superior =>
    unfold Mutation.send
    rw [run_bind]
    cases hrun : dir.run (rename supply dn rdn superior) with
    | mk result after =>
      cases result with
      | error e => exact run_perform_error hrun ▸ h
      | ok landed =>
        obtain ⟨rfl, -, e, -, -, htable⟩ := run_rename_table hrun
        have hlanded := formed_renamedDn hm.1 hm.2.1 hm.2.2
        show ∀ x ∈ after.entries.list, x.dn.Formed
        rw [htable]
        refine formed_moveDescendants hlanded fun x hx => ?_
        rcases Entries.mem_insertInto hx with rfl | hx
        · exact hlanded
        · exact h x (List.mem_filter.1 hx).1

/-- Requests with names that are made of pairs leave such names. -/
theorem Formed.course {ε α : Type} {supply : Supply} {raise : DirectoryError → ε}
    {sent : List Errand} {result : Except ε α} (h : dir.Formed)
    (hcourse : Course supply raise dir sent result after)
    (hsent : ∀ errand ∈ sent, errand.mutation.Formed) : after.Formed := by
  have frame : Frame fun dir after : Directory => dir.Formed → after.Formed :=
    ⟨fun _ h => h, fun hab hbc h => hbc (hab h)⟩
  refine hcourse.keeps frame (fun hquiet h => ?_) (fun errand herrand dir h => ?_) h
  · unfold Formed
    rw [hquiet.1]
    exact h
  · exact h.send supply (hsent errand herrand)

end Directory

/-! ## Operations -/

namespace Errand

/-- A request for modifications of one entry. -/
def IsModify (errand : Errand) : Prop :=
  ∃ dn items, errand.mutation = .modify dn items

theorem IsModify.formed {errand : Errand} (h : errand.IsModify) : errand.mutation.Formed := by
  obtain ⟨dn, items, hmutation⟩ := h
  rw [hmutation]
  trivial

end Errand

namespace Provisioner

variable {p : Provisioner} {dn : Dn}

theorem isModify_itemErrands {items : List Modification} :
    ∀ errand ∈ itemErrands dn items, errand.IsModify := by
  unfold itemErrands
  split
  · exact nofun
  · intro errand herrand
    rw [List.mem_singleton.1 herrand]
    exact ⟨dn, items, rfl⟩

theorem isModify_passwordErrands {op : ModifyOp} {stored : Option String} :
    ∀ errand ∈ p.passwordErrands dn op stored, errand.IsModify := by
  unfold passwordErrands
  split
  · intro errand herrand
    rw [List.mem_singleton.1 herrand]
    exact ⟨dn, _, rfl⟩
  · exact nofun

theorem isModify_turns {ended begun : MembershipKind → List GroupMembership} :
    ∀ errand ∈ p.turns ended begun, errand.IsModify := by
  intro errand herrand
  obtain ⟨kind, -, herrand⟩ := List.mem_flatMap.1 herrand
  rcases List.mem_append.1 herrand with herrand | herrand
  all_goals
    obtain ⟨m, -, rfl⟩ := List.mem_map.1 herrand
    exact ⟨m.group, _, rfl⟩

theorem isModify_settledErrands {naming : List Modification}
    {ended begun : MembershipKind → List GroupMembership} {stored : Option String} :
    ∀ errand ∈ p.settledErrands dn naming ended begun stored, errand.IsModify := by
  intro errand herrand
  rcases List.mem_append.1 herrand with herrand | herrand
  · exact isModify_itemErrands errand herrand
  rcases List.mem_append.1 herrand with herrand | herrand
  · exact isModify_turns errand herrand
  · exact isModify_passwordErrands errand herrand

/-- A move of an entry is asked for with names that are made of pairs. -/
theorem formed_renameFor? {asked : Option Dn} {r : Rename}
    (hasked : ∀ target, asked = some target → target.Spelled)
    (h : renameFor? dn asked = some r) :
    r.target.Formed ∧ r.rdn.Formed ∧ ∀ above, r.superior = some above → above.Formed := by
  obtain ⟨rfl, -, hleaf, hsuperior⟩ := renameFor?_eq_some h
  have htarget := (hasked _ rfl).formed
  refine ⟨htarget, htarget _ (List.mem_of_head? hleaf), fun above habove => ?_⟩
  rw [hsuperior] at habove
  exact htarget.parent (Option.filter_eq_some_iff.1 habove).1

/-- **An entry lands where it is asked to go.** -/
theorem landing_same {asked : Option Dn} {r : Rename} (hdn : dn.Formed)
    (hasked : ∀ target, asked = some target → target.Spelled)
    (h : renameFor? dn asked = some r) : (landing dn (some r)).key = r.target.key := by
  have htarget := (formed_renameFor? hasked h).1
  obtain ⟨-, -, hleaf, hsuperior⟩ := renameFor?_eq_some h
  obtain ⟨above, hchild, hparent⟩ := Dn.exists_child_of_leaf? hleaf
  rw [hparent, Option.filter_some] at hsuperior
  rw [landing, Directory.renamedDn, hsuperior, hchild]
  split
  · rfl
  · next hstays =>
    -- The parent stays: the one that is asked for is another spelling of it.
    cases hold : dn.parent? with
    | none =>
      rw [hold] at hstays
      exact absurd rfl hstays
    | some q =>
      rw [hold, Option.any_some, Bool.not_eq_true', Bool.not_eq_false] at hstays
      exact Dn.key_child_congr (hdn.parent hold) (htarget.parent hparent)
        (Dn.same_iff.1 hstays).symm r.rdn

/-- An operation finds its entry under a name that is made of pairs. -/
theorem formed_of_resolve {dir : Directory} {entryClass : EntryClass} {uid : String}
    (hdir : dir.Formed) (h : (dir.run (p.resolve entryClass uid)).1 = .ok dn) : dn.Formed := by
  rcases resolve_ok h with ⟨-, hparse⟩ | ⟨-, e, he, rfl, -⟩
  · exact (Dn.spelled_of_parse hparse).formed
  · exact hdir e he

end Provisioner

namespace Operation

variable {p : Provisioner} {dir : Directory} {dn : Dn} {input : Input}

/-- The requests of an operation are made with names that are made of pairs. -/
theorem formed_order {op : Operation} {full : List Errand} (hdir : dir.Formed)
    (hconcerns : op.Concerns p dir dn input) (h : op.Order p dn input full) :
    ∀ errand ∈ full, errand.mutation.Formed := by
  obtain ⟨ended, begun, stored, -, rfl⟩ := h
  cases op with
  | create entryClass attributes =>
    obtain ⟨hinput, hname⟩ := hconcerns
    intro errand herrand
    rcases List.mem_cons.1 herrand with rfl | herrand
    · exact (Input.name_spelled hinput dn hname).formed
    · exact (Provisioner.isModify_turns errand herrand).formed
  | update entryClass uid attributes =>
    obtain ⟨hresolve, hinput⟩ := hconcerns
    intro errand herrand
    rcases List.mem_append.1 herrand with herrand | herrand
    · exact (Provisioner.isModify_itemErrands errand herrand).formed
    rcases List.mem_append.1 herrand with herrand | herrand
    · cases hrename : Provisioner.renameFor? dn input.name with
      | none =>
        rw [hrename] at herrand
        cases herrand
      | some r =>
        rw [hrename] at herrand
        rw [List.mem_singleton.1 herrand]
        obtain ⟨-, hrdn, hsuperior⟩ :=
          Provisioner.formed_renameFor? (Input.name_spelled hinput) hrename
        exact ⟨Provisioner.formed_of_resolve hdir hresolve, hrdn, hsuperior⟩
    · exact (Provisioner.isModify_settledErrands errand herrand).formed
  | addValues entryClass uid attributes =>
    intro errand herrand
    rcases List.mem_append.1 herrand with herrand | herrand
    · exact (Provisioner.isModify_itemErrands errand herrand).formed
    rcases List.mem_append.1 herrand with herrand | herrand
    · exact (Provisioner.isModify_passwordErrands errand herrand).formed
    · exact (Provisioner.isModify_turns errand herrand).formed
  | removeValues entryClass uid attributes =>
    intro errand herrand
    rcases List.mem_append.1 herrand with herrand | herrand
    · exact (Provisioner.isModify_itemErrands errand herrand).formed
    rcases List.mem_append.1 herrand with herrand | herrand
    · exact (Provisioner.isModify_passwordErrands errand herrand).formed
    · exact (Provisioner.isModify_turns errand herrand).formed

theorem formed_run {op : Operation} (hdir : dir.Formed) : (dir.run (op.run p)).2.Formed := by
  obtain ⟨sent, hcourse, ⟨rfl, -, -⟩ | ⟨dn, input, full, hconcerns, horder, hbegins, -⟩⟩ :=
    op.orderly p dir
  · exact hdir.course hcourse nofun
  · refine hdir.course hcourse fun errand herrand => ?_
    exact formed_order hdir hconcerns horder errand (hbegins.subset herrand)

end Operation

/-! ## Histories of a directory -/

/-- The directories that come about from the empty one: by requests whose names are made of pairs,
and by operations of any provisioner. -/
inductive Directory.Reachable : Directory → Prop
  | empty : Reachable .empty
  | seed {dir : Directory} (e : Entry) : e.dn.Formed → Reachable dir → Reachable (dir.seed e)
  | deny {dir : Directory} (dn : Dn) : Reachable dir → Reachable (dir.deny dn)
  | send {dir : Directory} (supply : Supply) (m : Mutation) : m.Formed → Reachable dir →
      Reachable (dir.run (m.send supply)).2
  | operate {dir : Directory} (p : Provisioner) (op : Operation) : Reachable dir →
      Reachable (dir.run (op.run p)).2

theorem Directory.Reachable.formed {dir : Directory} (h : dir.Reachable) : dir.Formed := by
  induction h with
  | empty => exact nofun
  | seed e he _ ih =>
    intro x hx
    rcases Entries.mem_insertInto hx with rfl | hx
    · exact he
    · exact ih x hx
  | deny dn _ ih => exact ih
  | send supply m hm _ ih => exact ih.send supply hm
  | operate p op _ ih => exact Operation.formed_run ih

namespace Sample

/-- The directory after entries with these names have been added. -/
def grown (names : List Dn) : Directory :=
  names.foldl (fun dir dn => (dir.run (Directory.add provisioner.supply dn .empty)).2) .empty

theorem reachable_grown {names : List Dn} (h : ∀ dn ∈ names, dn.Formed) :
    (grown names).Reachable := by
  have hgrow (dir : Directory) (hdir : dir.Reachable) : (names.foldl (fun dir dn =>
      (dir.run (Directory.add provisioner.supply dn .empty)).2) dir).Reachable := by
    induction names generalizing dir with
    | nil => exact hdir
    | cons dn names ih =>
      rw [List.forall_mem_cons] at h
      exact ih h.2 _ (.send provisioner.supply (.add dn .empty) h.1 hdir)
  exact hgrow .empty .empty

end Sample

end Roster
