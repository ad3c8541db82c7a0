import Mathlib.Data.List.Perm.Basic
import Mathlib.Logic.Function.Basic
import Roster.Proofs.DiffRuns
import Roster.Proofs.LazyDiffs

/-!
# What membership requests see of a directory

A request for a membership changes one entry and looks at no other, and what it does to this entry does
not depend on when it is made, apart from the time stamp that it leaves. So of a directory it is enough
to keep a `DirectoryView`: which names may not be written, and of each entry its name and its attributes
but for the time stamp. On views such a request is a function, `DirectoryView.touch`, and requests for
different entries commute. Hence a list of requests may be made in another order
(`foldlM_of_perm`), and requests that change nothing when they are repeated may be made more or less
often (`foldlM_of_mem_iff`).

`ActsBy` ties computations to functions of views. Two diffs that let one reference join the same groups
(`Diff.Regroups`) end the same memberships and have the same effect (`joinAll_eq`).
-/

namespace Roster

variable {ε ε' α β γ δ : Type}

/-! ## Lists of steps that may fail -/

section Steps

variable {σ : Type} {step : σ → α → Option σ} {xs ys : List α}

/-- Steps that commute may be taken in another order. -/
theorem foldlM_of_perm (hcomm : ∀ s a b, (step s a).bind (step · b) = (step s b).bind (step · a))
    (h : xs.Perm ys) (s : σ) : xs.foldlM step s = ys.foldlM step s := by
  rw [List.foldlM_eq_foldl, List.foldlM_eq_foldl]
  refine h.foldl_eq' (fun a _ b _ state => ?_) _
  cases state with
  | none => rfl
  | some s => exact hcomm s a b

variable (hcomm : ∀ s a b, (step s a).bind (step · b) = (step s b).bind (step · a))
  (hidem : ∀ s a, (step s a).bind (step · a) = step s a)

include hcomm hidem

/-- A step that is taken anyway may be taken once more. -/
theorem foldlM_cons_of_mem [DecidableEq α] {a : α} (ha : a ∈ xs) (s : σ) :
    (a :: xs).foldlM step s = xs.foldlM step s := by
  have hperm := List.perm_cons_erase ha
  rw [foldlM_of_perm hcomm (hperm.cons a), foldlM_of_perm hcomm hperm]
  simp only [List.foldlM_cons, Option.bind_eq_bind]
  rw [← Option.bind_assoc, hidem]

/-- Only which steps are taken counts, if they commute and change nothing when they are repeated. -/
theorem foldlM_of_mem_iff [DecidableEq α] (h : ∀ a, a ∈ xs ↔ a ∈ ys) (s : σ) :
    xs.foldlM step s = ys.foldlM step s := by
  have habsorb {us vs : List α} (hsub : ∀ a ∈ us, a ∈ vs) (s : σ) :
      (us ++ vs).foldlM step s = vs.foldlM step s := by
    induction us generalizing s with
    | nil => rfl
    | cons a us ih =>
      rw [List.forall_mem_cons] at hsub
      rw [List.cons_append, foldlM_cons_of_mem hcomm hidem (List.mem_append_right us hsub.1),
        ih hsub.2]
  rw [← habsorb (fun a ha => (h a).2 ha), foldlM_of_perm hcomm List.perm_append_comm,
    habsorb fun a ha => (h a).1 ha]

end Steps

/-! ## Views -/

/-- An entry but for its time stamp: its name, its other attributes, and whether it has a stamp. -/
@[ext] structure EntryView where
  name : Dn
  get : String → Option (List String)
  stamped : Bool

def Entry.view (e : Entry) : EntryView where
  name := e.dn
  get name := if Text.same "modifyTimestamp" name then none else e.attributes.get? name
  stamped := !(e.attributes.values "modifyTimestamp").isEmpty

/-- What membership requests see of a directory: entries by the keys of their names. -/
@[ext] structure DirectoryView where
  denied : List Dn
  entry : String → Option EntryView

def Directory.view (dir : Directory) : DirectoryView where
  denied := dir.denied
  entry key := (dir.entries.find? key).map Entry.view

namespace EntryView

/-- Whether an attribute has values. -/
def isSet (e : EntryView) (name : String) : Bool :=
  if Text.same "modifyTimestamp" name then e.stamped else !((e.get name).getD []).isEmpty

/-- The entry with a value of an attribute, which is added unless it is there. -/
def join (name value : String) (e : EntryView) : Option EntryView :=
  let values := (e.get name).getD []
  if Text.holds values value then some e
  else some ⟨e.name, fun other => if Text.same name other then
    some (OrderedSet.insertAll values [value]) else e.get other, true⟩

/-- The entry without the first spelling of a value, which must be there. -/
def leave (name value : String) (e : EntryView) : Option EntryView :=
  let values := (e.get name).getD []
  let left := Text.dropFirst values value
  if Text.holds values value then
    some ⟨e.name, fun other => if Text.same name other then
      (if left.isEmpty then none else some left) else e.get other, true⟩
  else none

/-- The entry with one value of an attribute in exchange for all others. -/
def assign (name value : String) (e : EntryView) : Option EntryView :=
  some ⟨e.name, fun other => if Text.same "modifyTimestamp" other then none
    else if Text.same name other then some [value] else e.get other, true⟩

/-- An entry that has joined stays as it is when it joins again. -/
theorem join_join {name value : String} {e e' : EntryView} (h : e.join name value = some e') :
    e'.join name value = some e' := by
  unfold join at h
  dsimp only at h
  split at h
  · next hheld =>
    cases h
    rw [join, if_pos hheld]
  · cases h
    rw [join, if_pos]
    simp only [Text.same_refl, if_true, Option.getD_some]
    exact Text.holds_of_mem (OrderedSet.mem_insertAll.2 (.inr (List.mem_singleton_self value)))

end EntryView

namespace DirectoryView

/-- Changes the entry with a key, if it is there and may be written. -/
def touch (change : EntryView → Option EntryView) (v : DirectoryView) (key : String) :
    Option DirectoryView :=
  if v.denied.any (·.key == key) then none
  else ((v.entry key).bind change).map fun e =>
    { v with entry := Function.update v.entry key (some e) }

variable {change : EntryView → Option EntryView} {v w : DirectoryView} {key key' : String}

theorem touch_eq_some_iff : v.touch change key = some w ↔
    v.denied.any (·.key == key) = false ∧ ∃ e e', v.entry key = some e ∧ change e = some e' ∧
      w = { v with entry := Function.update v.entry key (some e') } := by
  unfold touch
  cases v.denied.any (·.key == key) with
  | true => simp
  | false => simp [Option.bind_eq_some_iff, eq_comm (a := w)]

/-- Changes of different entries may be made in the other order. -/
theorem touch_swap (hne : key ≠ key') (h : (v.touch change key).bind (touch change · key') = some w) :
    (v.touch change key').bind (touch change · key) = some w := by
  obtain ⟨mid, hfirst, hlast⟩ := Option.bind_eq_some_iff.1 h
  obtain ⟨hwritable, e, e', hentry, hchange, rfl⟩ := touch_eq_some_iff.1 hfirst
  obtain ⟨hwritable', x, x', hentry', hchange', rfl⟩ := touch_eq_some_iff.1 hlast
  dsimp only at hwritable' hentry'
  rw [Function.update_of_ne hne.symm] at hentry'
  refine Option.bind_eq_some_iff.2 ⟨_, touch_eq_some_iff.2
    ⟨hwritable', x, x', hentry', hchange', rfl⟩, touch_eq_some_iff.2
    ⟨hwritable, e, e', ?_, hchange, ?_⟩⟩
  · exact (Function.update_of_ne hne _ _).trans hentry
  · dsimp only
    rw [Function.update_comm hne]

theorem touch_comm (v : DirectoryView) (key key' : String) :
    (v.touch change key).bind (touch change · key') =
      (v.touch change key').bind (touch change · key) := by
  by_cases hkey : key = key'
  · rw [hkey]
  · exact Option.ext fun w => ⟨touch_swap hkey, touch_swap (Ne.symm hkey)⟩

/-- A change that leaves what it has changed need not be repeated. -/
theorem touch_touch (hchange : ∀ {e e' : EntryView}, change e = some e' → change e' = some e')
    (v : DirectoryView) (key : String) :
    (v.touch change key).bind (touch change · key) = v.touch change key := by
  cases hfirst : v.touch change key with
  | none => rfl
  | some w =>
    obtain ⟨hwritable, e, e', -, hchanged, rfl⟩ := touch_eq_some_iff.1 hfirst
    refine touch_eq_some_iff.2 ⟨hwritable, e', e', Function.update_self .., hchange hchanged, ?_⟩
    dsimp only
    rw [Function.update_idem]

end DirectoryView

/-! ## What requests do to the view -/

namespace Entry

variable {e : Entry} {name value : String} {vs : Option (List String)}

theorem view_get (hstamp : ¬ Text.same "modifyTimestamp" name = true) :
    (e.view.get name).getD [] = e.attributes.values name := by
  unfold view
  dsimp only
  rw [if_neg hstamp]
  rfl

theorem isSet_view (e : Entry) (name : String) :
    e.view.isSet name = !(e.attributes.values name).isEmpty := by
  unfold EntryView.isSet
  split
  · next hname => rw [← e.attributes.values_congr hname, view]
  · next hname => rw [view_get hname]

theorem view_stamped (dn : Dn) (attrs : Attributes) (stamp : String) :
    Entry.view ⟨dn, attrs.put "modifyTimestamp" [stamp]⟩ = ⟨dn, fun other =>
      if Text.same "modifyTimestamp" other then none else attrs.get? other, true⟩ := by
  refine EntryView.ext rfl (funext fun other => ?_) ?_
  · unfold view
    dsimp only
    rw [Attributes.get?_put]
    split <;> rfl
  · unfold view
    dsimp only
    rw [Attributes.values_put, if_pos (Text.same_refl _)]
    rfl

/-- What is written into an attribute is seen, if it is not the time stamp. -/
theorem view_written (hstamp : ¬ Text.same "modifyTimestamp" name = true) {attrs : Attributes}
    (hattrs : ∀ other, attrs.get? other =
      if Text.same name other then vs else e.attributes.get? other) (stamp : String) :
    Entry.view ⟨e.dn, attrs.put "modifyTimestamp" [stamp]⟩ =
      ⟨e.dn, fun other => if Text.same name other then vs else e.view.get other, true⟩ := by
  rw [view_stamped]
  refine EntryView.ext rfl (funext fun other => ?_) rfl
  dsimp only
  rw [hattrs]
  by_cases hother : Text.same "modifyTimestamp" other = true
  · have hname : ¬ Text.same name other = true := fun h =>
      hstamp (Text.same_trans hother (Text.same_symm h))
    rw [if_pos hother, if_neg hname]
    unfold view
    exact (if_pos hother).symm
  · rw [if_neg hother]
    unfold view
    dsimp only
    rw [if_neg hother]

end Entry

namespace Directory

theorem view_entry (dir : Directory) (dn : Dn) :
    dir.view.entry dn.key = (dir.entry? dn).map Entry.view :=
  rfl

theorem view_denied (dir : Directory) (dn : Dn) :
    dir.view.denied.any (·.key == dn.key) = dn.isIn dir.denied := by
  unfold Dn.isIn Dn.same Directory.view
  congr 1
  funext d
  exact Bool.beq_comm

/-- One entry is stored anew in exchange for itself. -/
theorem view_insert {dir : Directory} {dn : Dn} {e : Entry} (hentry : dir.entry? dn = some e)
    (request : Request) (attrs : Attributes) :
    Directory.view { dir.record request with entries := dir.entries.insert ⟨e.dn, attrs⟩ } =
      { dir.view with
        entry := Function.update dir.view.entry dn.key (some (Entry.view ⟨e.dn, attrs⟩)) } := by
  have hkey : e.dn.key = dn.key := (dir.entries.get?_eq_some_iff.1 hentry).2
  refine DirectoryView.ext rfl (funext fun key => ?_)
  refine (congrArg (Option.map Entry.view) (dir.entries.find?_insert _ key)).trans ?_
  dsimp only
  rw [hkey, Function.update_apply]
  by_cases h : key = dn.key
  · rw [if_pos h.symm, if_pos h]
    rfl
  · rw [if_neg (Ne.symm h), if_neg h]
    rfl

end Directory

/-- The view that a run ends with, if it succeeds. -/
def viewed : Except ε α × Directory → Option DirectoryView
  | (.ok _, dir) => some dir.view
  | (.error _, _) => none

/-- A computation does to directories what a function does to their views. -/
def ActsBy (x : ExceptT ε (StateM Directory) Unit) (f : DirectoryView → Option DirectoryView) :
    Prop :=
  ∀ dir : Directory, viewed (dir.run x) = f dir.view

namespace ActsBy

variable {x y : ExceptT ε (StateM Directory) Unit} {f g : DirectoryView → Option DirectoryView}

theorem bind (hx : ActsBy x f) (hy : ActsBy y g) :
    ActsBy (x >>= fun _ => y) fun v => (f v).bind g := by
  intro dir
  have hfirst := hx dir
  rw [Directory.run_bind]
  cases hrun : dir.run x with
  | mk result after =>
    rw [hrun] at hfirst
    dsimp only
    rw [← hfirst]
    cases result with
    | error e => rfl
    | ok _ => exact hy after

theorem forM {xs : List α} {x : α → ExceptT ε (StateM Directory) Unit}
    {step : DirectoryView → α → Option DirectoryView} (hx : ∀ a, ActsBy (x a) (step · a)) :
    ActsBy (xs.forM x) fun v => xs.foldlM step v := by
  induction xs with
  | nil => exact fun _ => rfl
  | cons a rest ih => exact (hx a).bind ih

end ActsBy

namespace Directory

variable {dir : Directory} {dn : Dn} {items : List Modification}

/-- An entry that is there and may be written. -/
def Offers (dir : Directory) (dn : Dn) (e : Entry) : Prop :=
  dn.isIn dir.denied = false ∧ dir.entry? dn = some e

theorem Offers.touch {e : Entry} (h : dir.Offers dn e) (change : EntryView → Option EntryView) :
    dir.view.touch change dn.key = (change e.view).map fun e' =>
      { dir.view with entry := Function.update dir.view.entry dn.key (some e') } := by
  unfold DirectoryView.touch
  rw [view_denied, view_entry, h.1, h.2]
  rfl

/-- What is not there or may not be written is not changed. -/
theorem refused_of_not_offers (h : ∀ e, ¬ dir.Offers dn e) (supply : Supply)
    (change : EntryView → Option EntryView) :
    (∃ err, dir.run (modify supply dn items) = (.error err, dir.record (.modify dn items)) ∧
      err.isValueExists = false) ∧ dir.view.touch change dn.key = none := by
  unfold DirectoryView.touch modify
  rw [view_denied, view_entry, run_perform]
  unfold afterModify checkWritable
  cases hdenied : dn.isIn dir.denied with
  | true => exact ⟨⟨_, rfl, rfl⟩, rfl⟩
  | false =>
    cases hentry : dir.entry? dn with
    | none => exact ⟨⟨_, rfl, rfl⟩, rfl⟩
    | some e => exact absurd ⟨hdenied, hentry⟩ (h e)

end Directory

/-- A modification touches its entry. -/
theorem actsBy_modify {change : EntryView → Option EntryView} {items : List Modification}
    (hitems : ∀ (text stamp : String) (e : Entry), ((e.attributes.applyAll text items).toOption.map
      fun attrs => Entry.view ⟨e.dn, attrs.put "modifyTimestamp" [stamp]⟩) = change e.view)
    (supply : Supply) (dn : Dn) :
    ActsBy (Directory.modify supply dn items) (·.touch change dn.key) := by
  intro dir
  show viewed _ = dir.view.touch change dn.key
  by_cases hoffers : ∃ e, dir.Offers dn e
  · obtain ⟨e, hoffers⟩ := hoffers
    rw [hoffers.touch, ← hitems dn.text (supply.time dir.handled) e]
    cases happly : e.attributes.applyAll dn.text items with
    | error err =>
      rw [Directory.run_modify_of_error supply hoffers.1 hoffers.2 happly]
      rfl
    | ok attrs =>
      rw [Directory.run_modify_of_applyAll hoffers.1 hoffers.2 happly]
      exact congrArg some (Directory.view_insert hoffers.2 _ _)
  · obtain ⟨⟨err, hrun, -⟩, htouch⟩ :=
      Directory.refused_of_not_offers (not_exists.1 hoffers) supply change
    rw [hrun, htouch]
    rfl

namespace KindDescriptor

variable {d : KindDescriptor} (hstamp : ¬ Text.same "modifyTimestamp" d.memberAttribute = true)
  (supply : Supply) (m : GroupMembership)

include hstamp

theorem actsBy_removeMembership : ActsBy (d.removeMembership supply m)
    (·.touch (EntryView.leave d.memberAttribute m.reference) m.group.key) := by
  refine actsBy_modify (fun text stamp e => ?_) supply m.group
  rw [Attributes.applyAll_delete_one]
  unfold Attributes.deleteValue EntryView.leave
  rw [Entry.view_get hstamp]
  dsimp only
  split
  · exact congrArg some (Entry.view_written hstamp (fun other => Attributes.get?_settle ..) stamp)
  · rfl

theorem actsBy_addMembership : ActsBy (d.addMembership supply m)
    (·.touch (EntryView.join d.memberAttribute m.reference) m.group.key) := by
  intro dir
  show viewed _ = dir.view.touch _ m.group.key
  unfold addMembership
  rw [Directory.run_tryCatch]
  by_cases hoffers : ∃ e, dir.Offers m.group e
  · obtain ⟨e, hoffers⟩ := hoffers
    rw [hoffers.touch]
    unfold EntryView.join
    rw [Entry.view_get hstamp]
    by_cases hheld : Text.holds (e.attributes.values d.memberAttribute) m.reference = true
    · have happly : e.attributes.applyAll m.group.text [⟨.add, d.memberAttribute, [m.reference]⟩] =
          .error (.valueExists m.group.text d.memberAttribute (some m.reference)) := by
        rw [Attributes.applyAll_add_one, Attributes.addValue, if_pos hheld]
      have hsame : Function.update dir.view.entry m.group.key (some e.view) = dir.view.entry := by
        rw [← Option.map_some, ← hoffers.2, ← dir.view_entry, Function.update_eq_self]
      rw [Directory.run_modify_of_error supply hoffers.1 hoffers.2 happly, if_pos hheld,
        Option.map_some, hsame]
      rfl
    · have happly : e.attributes.applyAll m.group.text [⟨.add, d.memberAttribute, [m.reference]⟩] =
          .ok (e.attributes.extend d.memberAttribute [m.reference]) := by
        rw [Attributes.applyAll_add_one, Attributes.addValue, if_neg hheld]
      rw [Directory.run_modify_of_applyAll hoffers.1 hoffers.2 happly, if_neg hheld]
      refine congrArg some ((Directory.view_insert hoffers.2 _ _).trans ?_)
      rw [Entry.view_written hstamp fun other => Attributes.get?_extend ..]
      rfl
  · obtain ⟨⟨err, hrun, herr⟩, htouch⟩ :=
      Directory.refused_of_not_offers (not_exists.1 hoffers) supply _
    rw [hrun, htouch]
    dsimp only
    rw [herr]
    rfl

end KindDescriptor

/-- A password that replaces another one is written into its entry. -/
theorem actsBy_replace (supply : Supply) (dn : Dn) (name value : String) :
    ActsBy (Directory.modify supply dn [⟨.replace, name, [value]⟩])
      (·.touch (EntryView.assign name value) dn.key) := by
  refine actsBy_modify (fun text stamp e => ?_) supply dn
  refine congrArg some ((Entry.view_stamped _ _ stamp).trans ?_)
  refine EntryView.ext rfl (funext fun other => ?_) rfl
  unfold Entry.view
  dsimp only
  rw [Attributes.get?_settle]
  by_cases hother : Text.same "modifyTimestamp" other = true
  · rw [if_pos hother, if_pos hother]
  · rw [if_neg hother, if_neg hother, if_neg hother]
    rfl

/-! ## Lists that name the same groups -/

/-- Two lists of names are spellings of the same groups, however often and in whatever order. -/
def SameGroups (gs hs : List Dn) : Prop :=
  ∀ d : Dn, d.isIn gs = d.isIn hs

theorem SameGroups.refl (gs : List Dn) : SameGroups gs gs :=
  fun _ => rfl

theorem SameGroups.isEmpty_eq {gs hs : List Dn} (h : SameGroups gs hs) : gs.isEmpty = hs.isEmpty := by
  have hnil {gs hs : List Dn} (h : SameGroups gs hs) (hempty : gs = []) : hs = [] := by
    subst hempty
    refine List.eq_nil_iff_forall_not_mem.2 fun d hd => ?_
    have hin : d.isIn hs = true := List.any_eq_true.2 ⟨d, hd, Dn.same_iff.2 rfl⟩
    rw [← h d] at hin
    cases hin
  rw [Bool.eq_iff_iff, List.isEmpty_iff, List.isEmpty_iff]
  exact ⟨hnil h, hnil fun d => (h d).symm⟩

theorem sameGroups_iff {gs hs : List Dn} :
    SameGroups gs hs ↔ (∀ g ∈ gs, g.isIn hs = true) ∧ ∀ d ∈ hs, d.isIn gs = true := by
  have hself {gs : List Dn} {d : Dn} (hd : d ∈ gs) : d.isIn gs = true :=
    List.any_eq_true.2 ⟨d, hd, Dn.same_iff.2 rfl⟩
  have hsub {gs hs : List Dn} (h : ∀ g ∈ gs, g.isIn hs = true) (d : Dn) (hd : d.isIn gs = true) :
      d.isIn hs = true := by
    obtain ⟨g, hg, hdg⟩ := List.any_eq_true.1 hd
    obtain ⟨x, hx, hgx⟩ := List.any_eq_true.1 (h g hg)
    exact List.any_eq_true.2 ⟨x, hx, Dn.same_iff.2 ((Dn.same_iff.1 hdg).trans (Dn.same_iff.1 hgx))⟩
  constructor
  · exact fun h => ⟨fun g hg => h g ▸ hself hg, fun d hd => (h d).symm ▸ hself hd⟩
  · exact fun h d => Bool.eq_iff_iff.2 ⟨hsub h.1 d, hsub h.2 d⟩

instance (gs hs : List Dn) : Decidable (SameGroups gs hs) :=
  decidable_of_iff _ sameGroups_iff.symm

/-- Groups with the same keys, each as often, are the same groups. -/
theorem sameGroups_of_perm {gs hs : List Dn} (h : (gs.map Dn.key).Perm (hs.map Dn.key)) :
    SameGroups gs hs := by
  have hin {gs hs : List Dn} (h : ∀ key ∈ gs.map Dn.key, key ∈ hs.map Dn.key) (g : Dn) (hg : g ∈ gs) :
      g.isIn hs = true := by
    obtain ⟨x, hx, hkey⟩ := List.mem_map.1 (h g.key (List.mem_map_of_mem hg))
    exact List.any_eq_true.2 ⟨x, hx, Dn.same_iff.2 hkey.symm⟩
  exact sameGroups_iff.2 ⟨hin fun _ => h.mem_iff.1, hin fun _ => h.mem_iff.2⟩

namespace GroupMembership

/-- One reference in each of some groups. -/
def inEach (reference : String) (groups : List Dn) : List GroupMembership :=
  groups.map fun group => ⟨reference, group⟩

theorem reference_of_mem_inEach {reference : String} {groups : List Dn} {m : GroupMembership}
    (h : m ∈ inEach reference groups) : m.reference = reference := by
  obtain ⟨g, -, rfl⟩ := List.mem_map.1 h
  rfl

theorem contains_inEach (reference : String) (groups : List Dn) (m : GroupMembership) :
    (inEach reference groups).contains m = (m.reference == reference && m.group.isIn groups) := by
  induction groups with
  | nil => simp [inEach, Dn.isIn]
  | cons g groups ih =>
    have ih : (groups.map fun group => (⟨reference, group⟩ : GroupMembership)).contains m = _ := ih
    rw [inEach, List.map_cons, List.contains_cons, ih, Dn.isIn, Dn.isIn, List.any_cons,
      Bool.and_or_distrib_left]
    rfl

end GroupMembership

namespace DirectoryView

/-- Some memberships end, one after the other. -/
def leaveAll (name : String) (ms : List GroupMembership) (v : DirectoryView) : Option DirectoryView :=
  ms.foldlM (fun v m => v.touch (EntryView.leave name m.reference) m.group.key) v

/-- Some memberships begin, one after the other. -/
def joinAll (name : String) (ms : List GroupMembership) (v : DirectoryView) : Option DirectoryView :=
  ms.foldlM (fun v m => v.touch (EntryView.join name m.reference) m.group.key) v

variable {ms ms' : List GroupMembership} {reference : String}

theorem foldlM_of_reference {change : String → EntryView → Option EntryView}
    (h : ∀ m ∈ ms, m.reference = reference) (v : DirectoryView) :
    ms.foldlM (fun v m => v.touch (change m.reference) m.group.key) v =
      (ms.map fun m => m.group.key).foldlM (touch (change reference)) v := by
  induction ms generalizing v with
  | nil => rfl
  | cons m rest ih =>
    rw [List.forall_mem_cons] at h
    rw [List.foldlM_cons, List.map_cons, List.foldlM_cons, h.1]
    exact congrArg (Option.bind _) (funext fun w => ih h.2 w)

/-- One reference may leave its groups in any order. -/
theorem leaveAll_of_perm {gs hs : List Dn} (h : (gs.map Dn.key).Perm (hs.map Dn.key))
    (name reference : String) (v : DirectoryView) :
    v.leaveAll name (GroupMembership.inEach reference gs) =
      v.leaveAll name (GroupMembership.inEach reference hs) := by
  have hkeys (groups : List Dn) :
      (GroupMembership.inEach reference groups).map (fun m => m.group.key) = groups.map Dn.key := by
    rw [GroupMembership.inEach, List.map_map]
    rfl
  unfold leaveAll
  rw [foldlM_of_reference fun _ => GroupMembership.reference_of_mem_inEach,
    foldlM_of_reference fun _ => GroupMembership.reference_of_mem_inEach, hkeys, hkeys]
  exact foldlM_of_perm touch_comm h v

/-- One reference may join its groups in any order and repeatedly. -/
theorem joinAll_of_contains (h : ∀ m, ms.contains m = ms'.contains m)
    (hms : ∀ m ∈ ms, m.reference = reference) (hms' : ∀ m ∈ ms', m.reference = reference)
    (name : String) (v : DirectoryView) : v.joinAll name ms = v.joinAll name ms' := by
  have hkeys {ms ms' : List GroupMembership} (h : ∀ m, ms.contains m = ms'.contains m) {key : String}
      (hkey : key ∈ ms.map fun m => m.group.key) : key ∈ ms'.map fun m => m.group.key := by
    obtain ⟨m, hm, rfl⟩ := List.mem_map.1 hkey
    have hcontains : ms.contains m = true := List.contains_iff_exists_mem_beq.2 ⟨m, hm, BEq.rfl⟩
    rw [h, List.contains_iff_exists_mem_beq] at hcontains
    obtain ⟨m', hm', hsame⟩ := hcontains
    exact List.mem_map.2 ⟨m', hm', (GroupMembership.beq_iff.1 hsame).2.symm⟩
  unfold joinAll
  rw [foldlM_of_reference hms, foldlM_of_reference hms']
  exact foldlM_of_mem_iff touch_comm (fun v key => touch_touch EntryView.join_join v key)
    (fun key => ⟨hkeys h, hkeys fun m => (h m).symm⟩) v

theorem joinAll_inEach {gs hs : List Dn} (h : SameGroups gs hs) (name reference : String)
    (v : DirectoryView) : v.joinAll name (GroupMembership.inEach reference gs) =
      v.joinAll name (GroupMembership.inEach reference hs) := by
  refine joinAll_of_contains (fun m => ?_) (fun _ => GroupMembership.reference_of_mem_inEach)
    (fun _ => GroupMembership.reference_of_mem_inEach) name v
  rw [GroupMembership.contains_inEach, GroupMembership.contains_inEach, h]

end DirectoryView

/-- Two diffs that end the same memberships, and begin the same but for the order and the spelling of
the groups that one reference joins. -/
inductive Diff.Regroups : Diff GroupMembership → Diff GroupMembership → Prop
  | same (diff : Diff GroupMembership) : Regroups diff diff
  | joining (diff : Diff GroupMembership) (reference : String) {gs hs : List Dn} : SameGroups gs hs →
      Regroups (diff.clearAdded.addAll (GroupMembership.inEach reference gs))
        (diff.clearAdded.addAll (GroupMembership.inEach reference hs))

namespace Diff.Regroups

open GroupMembership (inEach contains_inEach)

variable {diff diff' : Diff GroupMembership}

theorem contains_added (diff : Diff GroupMembership) (reference : String) {gs hs : List Dn}
    (h : SameGroups gs hs) (m : GroupMembership) :
    (diff.clearAdded.addAll (inEach reference gs)).added.contains m =
      (diff.clearAdded.addAll (inEach reference hs)).added.contains m := by
  unfold Diff.addAll Diff.clearAdded
  dsimp only
  rw [OrderedSet.contains_insertAll, OrderedSet.contains_insertAll, contains_inEach, contains_inEach, h]

theorem effectiveRemoved_eq (h : diff.Regroups diff') :
    diff.effectiveRemoved = diff'.effectiveRemoved := by
  cases h with
  | same => rfl
  | joining diff reference hgroups =>
    refine List.filter_congr fun m _ => ?_
    rw [contains_added diff reference hgroups]

/-- Diffs for the same groups do the same. -/
theorem joinAll_eq (h : diff.Regroups diff') (name : String) (v : DirectoryView) :
    v.joinAll name diff.effectiveAdded = v.joinAll name diff'.effectiveAdded := by
  cases h with
  | same => rfl
  | @joining diff reference gs hs hgroups =>
    have hreference (groups : List Dn) :
        ∀ m ∈ (diff.clearAdded.addAll (inEach reference groups)).effectiveAdded,
          m.reference = reference := by
      intro m hm
      exact GroupMembership.reference_of_mem_inEach
        (OrderedSet.mem_of_mem_insertAll_nil (List.mem_filter.1 hm).1)
    refine DirectoryView.joinAll_of_contains (fun m => ?_) (hreference gs) (hreference hs) name v
    unfold Diff.effectiveAdded
    rw [OrderedSet.contains_difference, OrderedSet.contains_difference,
      contains_added diff reference hgroups]
    rfl

end Diff.Regroups

namespace KindDescriptor

variable {d : KindDescriptor} (hstamp : ¬ Text.same "modifyTimestamp" d.memberAttribute = true)
  (supply : Supply)

include hstamp

theorem actsBy_removeMemberships (ms : List GroupMembership) :
    ActsBy (d.removeMemberships supply ms) (·.leaveAll d.memberAttribute ms) :=
  ActsBy.forM fun m => actsBy_removeMembership hstamp supply m

theorem actsBy_addMemberships (reference : String) (groups : List Dn) :
    ActsBy (d.addMemberships supply reference groups)
      (·.joinAll d.memberAttribute (GroupMembership.inEach reference groups)) := by
  have hsame : d.addMemberships supply reference groups =
      (GroupMembership.inEach reference groups).forM (d.addMembership supply) := by
    unfold addMemberships
    induction groups with
    | nil => rfl
    | cons group rest ih =>
      exact congrArg (fun later => d.addMembership supply ⟨reference, group⟩ >>= fun _ => later) ih
  rw [hsame]
  exact ActsBy.forM fun m => actsBy_addMembership hstamp supply m

theorem actsBy_applyDiff (diff : Diff GroupMembership) : ActsBy (d.applyDiff supply diff) fun v =>
    (v.leaveAll d.memberAttribute diff.effectiveRemoved).bind
      (·.joinAll d.memberAttribute diff.effectiveAdded) :=
  (actsBy_removeMemberships hstamp supply _).bind
    (ActsBy.forM fun m => actsBy_addMembership hstamp supply m)

end KindDescriptor

end Roster
