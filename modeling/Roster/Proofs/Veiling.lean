import Roster.Proofs.Operations
import Roster.Proofs.Memberships
import Roster.Proofs.Moves

/-!
# Computations that do not see an attribute

`Directory.veil` takes one attribute away from one entry, and blanks its values in the journal. A
computation `Ignores` the attribute if it does the same with the veiled directory as with the
directory itself; then it cannot make a difference between two directories that differ at most in
the attribute (`EndsAlike.bind`). Changing memberships and identifying an entry ignore every
attribute that they do not name.
-/

namespace Roster

variable {ε α β : Type}

/-! ## Attributes without one of them -/

namespace AttributePairs

theorem filter_upsert_of_ne (f : List String → List String) {name other : String}
    (hne : ¬ Text.same name other = true) (pairs : AttributePairs) :
    (upsert f name pairs).filter (fun pair => !Text.same pair.1 other) =
      upsert f name (pairs.filter fun pair => !Text.same pair.1 other) := by
  rw [Bool.not_eq_true] at hne
  induction pairs with
  | nil => rw [upsert, List.filter_cons_of_pos (by rw [hne, Bool.not_false])]; rfl
  | cons pair rest ih =>
    rw [upsert]
    by_cases hpair : Text.same pair.1 name = true
    · have hkept : Text.same pair.1 other = false := (Text.same_left hpair).trans hne
      rw [if_pos hpair, List.filter_cons_of_pos (by simp [hkept]),
        List.filter_cons_of_pos (by simp [hkept]), upsert, if_pos hpair]
    · rw [if_neg hpair]
      by_cases hgone : Text.same pair.1 other = true
      · rw [List.filter_cons_of_neg (by simp [hgone]), List.filter_cons_of_neg (by simp [hgone]),
          ih]
      · rw [List.filter_cons_of_pos (by simp [hgone]), List.filter_cons_of_pos (by simp [hgone]),
          upsert, if_neg hpair, ih]

theorem filter_upsert_same (f : List String → List String) {name other : String}
    (hsame : Text.same name other = true) (pairs : AttributePairs) :
    (upsert f name pairs).filter (fun pair => !Text.same pair.1 other) =
      pairs.filter fun pair => !Text.same pair.1 other := by
  induction pairs with
  | nil => rw [upsert, List.filter_cons_of_neg (by simp [hsame])]
  | cons pair rest ih =>
    rw [upsert]
    by_cases hpair : Text.same pair.1 name = true
    · have hgone : Text.same pair.1 other = true := Text.same_trans hpair hsame
      rw [if_pos hpair, List.filter_cons_of_neg (by simp [hgone]),
        List.filter_cons_of_neg (by simp [hgone])]
    · rw [if_neg hpair, List.filter_cons, List.filter_cons, ih]

end AttributePairs

namespace Attributes

theorem eq_of_pairs {a b : Attributes} (h : a.pairs = b.pairs) : a = b := by
  cases a
  cases b
  cases h
  rfl

theorem erase_upsert_of_ne (attrs : Attributes) {name other : String}
    (hne : ¬ Text.same name other = true) (f : List String → List String) :
    (attrs.upsert name f).erase other = (attrs.erase other).upsert name f :=
  eq_of_pairs (AttributePairs.filter_upsert_of_ne f hne attrs.pairs)

/-- What is written under a name is gone with the attribute. -/
theorem erase_upsert_same (attrs : Attributes) {name other : String}
    (hsame : Text.same name other = true) (f : List String → List String) :
    (attrs.upsert name f).erase other = attrs.erase other :=
  eq_of_pairs (AttributePairs.filter_upsert_same f hsame attrs.pairs)

theorem erase_erase_comm (attrs : Attributes) (name other : String) :
    (attrs.erase name).erase other = (attrs.erase other).erase name := by
  refine eq_of_pairs ?_
  show (attrs.pairs.filter _).filter _ = (attrs.pairs.filter _).filter _
  rw [List.filter_filter, List.filter_filter]
  exact List.filter_congr fun pair _ => Bool.and_comm _ _

theorem get?_erase_of_ne (attrs : Attributes) {name other : String}
    (hne : ¬ Text.same name other = true) : (attrs.erase other).get? name = attrs.get? name := by
  rw [get?_erase, if_neg fun hsame => hne (Text.same_symm hsame)]

theorem values_erase_of_ne (attrs : Attributes) {name other : String}
    (hne : ¬ Text.same name other = true) :
    (attrs.erase other).values name = attrs.values name := by
  rw [values, get?_erase_of_ne attrs hne, values]

/-- Attributes that agree but for one still do after a write under any name. -/
theorem erase_upsert_congr {a b : Attributes} {other : String} (h : a.erase other = b.erase other)
    (name : String) (f : List String → List String) :
    (a.upsert name f).erase other = (b.upsert name f).erase other := by
  by_cases hsame : Text.same name other = true
  · rw [erase_upsert_same a hsame, erase_upsert_same b hsame, h]
  · rw [erase_upsert_of_ne a hsame, erase_upsert_of_ne b hsame, h]

theorem erase_extendByRdn_congr {a b : Attributes} {other : String}
    (h : a.erase other = b.erase other) (rdn : Rdn) :
    (a.extendByRdn rdn).erase other = (b.extendByRdn rdn).erase other := by
  unfold extendByRdn
  induction rdn.avas generalizing a b with
  | nil => exact h
  | cons ava avas ih => exact ih (erase_upsert_congr h ava.type _)

theorem erase_settle (attrs : Attributes) {name other : String}
    (hne : ¬ Text.same name other = true) (vs : List String) :
    (attrs.settle name vs).erase other = (attrs.erase other).settle name vs := by
  unfold settle
  split
  · exact erase_erase_comm attrs name other
  · exact erase_upsert_of_ne attrs hne _

/-- Steps that commute with a function do so one after the other. -/
theorem foldlM_map {γ σ : Type} (g : σ → σ) {step : σ → γ → Except ε σ} {xs : List γ}
    (hstep : ∀ x ∈ xs, ∀ s, step (g s) x = (step s x).map g) (s : σ) :
    xs.foldlM step (g s) = (xs.foldlM step s).map g := by
  induction xs generalizing s with
  | nil => rfl
  | cons x xs ih =>
    rw [List.foldlM_cons, List.foldlM_cons, hstep x List.mem_cons_self]
    cases step s x with
    | error e => rfl
    | ok s' => exact ih (fun y hy => hstep y (List.mem_cons_of_mem x hy)) s'

/-- An item does the same to the attributes that it does not name, whatever the others are. -/
theorem apply_erase (attrs : Attributes) (dn : String) {item : Modification} {other : String}
    (hne : ¬ Text.same item.name other = true) :
    (attrs.erase other).apply dn item = (attrs.apply dn item).map (·.erase other) := by
  unfold apply
  cases item.op with
  | add =>
    refine foldlM_map (·.erase other) (fun value _ attrs => ?_) attrs
    unfold addValue
    rw [values_erase_of_ne attrs hne]
    split
    · rfl
    · exact congrArg Except.ok (erase_upsert_of_ne attrs hne _).symm
  | delete =>
    dsimp only
    split
    · rw [contains, get?_erase_of_ne attrs hne, contains]
      split
      · exact congrArg Except.ok (erase_erase_comm attrs other item.name)
      · rfl
    · refine foldlM_map (·.erase other) (fun value _ attrs => ?_) attrs
      unfold deleteValue
      rw [values_erase_of_ne attrs hne]
      split
      · exact congrArg Except.ok (erase_settle attrs hne _).symm
      · rfl
  | replace => exact congrArg Except.ok (erase_settle attrs hne _).symm

theorem applyAll_erase (attrs : Attributes) (dn : String) {items : List Modification}
    {other : String} (hne : ∀ item ∈ items, ¬ Text.same item.name other = true) :
    (attrs.erase other).applyAll dn items = (attrs.applyAll dn items).map (·.erase other) := by
  unfold applyAll
  exact foldlM_map (·.erase other)
    (fun item hitem attrs => apply_erase attrs dn (hne item hitem)) attrs

end Attributes

/-! ## Veils -/

variable {dn : Dn} {name : String}

/-- The entry without an attribute, if it has this name. -/
def Entry.veil (dn : Dn) (name : String) (e : Entry) : Entry :=
  if e.dn.key = dn.key then ⟨e.dn, e.attributes.erase name⟩ else e

@[simp] theorem Entry.veil_dn (dn : Dn) (name : String) (e : Entry) :
    (e.veil dn name).dn = e.dn := by
  unfold veil
  split <;> rfl

/-- The entries, with one of them without an attribute. -/
def Entries.veil (dn : Dn) (name : String) (entries : Entries) : Entries :=
  ⟨entries.list.map (Entry.veil dn name),
    List.pairwise_map.2 (by simpa only [Entry.veil_dn] using entries.ordered)⟩

/-- An item of a modification, with its values blanked if it is about an attribute. -/
def Modification.veil (name : String) (item : Modification) : Modification :=
  if Text.same item.name name then ⟨item.op, item.name, item.values.map fun _ => ""⟩ else item

/-- A request with the values of an attribute blanked. -/
def Request.veil (name : String) : Request → Request
  | .modify dn items => .modify dn (items.map (Modification.veil name))
  | request => request

/-- The directory without an attribute of the entry at a name, with its values blanked in the
journal. -/
def Directory.veil (dn : Dn) (name : String) (dir : Directory) : Directory :=
  ⟨dir.entries.veil dn name, dir.journal.map (Request.veil name), dir.denied, dir.handled⟩

theorem Entries.eq_of_list {a b : Entries} (h : a.list = b.list) : a = b := by
  cases a
  cases b
  cases h
  rfl

theorem Entries.get?_veil (entries : Entries) (x : Dn) :
    (entries.veil dn name).get? x = (entries.get? x).map (Entry.veil dn name) := by
  show (entries.list.map (Entry.veil dn name)).find? _ = (entries.list.find? _).map _
  rw [List.find?_map]
  congr 2
  funext e
  exact congrArg (fun d : Dn => d.key == x.key) (e.veil_dn dn name)

theorem Entries.veil_insert (entries : Entries) (e : Entry) :
    (entries.insert e).veil dn name = (entries.veil dn name).insert (e.veil dn name) := by
  refine eq_of_list ?_
  show (insertInto e entries.list).map _ = insertInto _ (entries.list.map _)
  induction entries.list with
  | nil => rfl
  | cons x xs ih =>
    rw [insertInto, List.map_cons, insertInto, Entry.veil_dn, Entry.veil_dn]
    split
    · rw [List.map_cons, ih]
    · split <;> rfl

theorem Directory.entry?_veil (dir : Directory) (x : Dn) :
    Directory.entry? (dir.veil dn name) x = (dir.entry? x).map (Entry.veil dn name) :=
  dir.entries.get?_veil x

theorem Directory.veil_record (dir : Directory) (request : Request) :
    (dir.record request).veil dn name = (dir.veil dn name).record (request.veil name) := by
  unfold Directory.veil Directory.record
  rw [List.map_append, List.map_singleton]

theorem Request.veil_modify {items : List Modification}
    (hne : ∀ item ∈ items, ¬ Text.same item.name name = true) (x : Dn) :
    (Request.modify x items).veil name = .modify x items := by
  have hitems : items.map (Modification.veil name) = items := by
    refine (List.map_congr_left fun item hitem => ?_).trans (List.map_id items)
    exact if_neg (hne item hitem)
  exact congrArg (Request.modify x) hitems

/-! ## Ignoring an attribute -/

/-- A computation does with the veiled directory what it does with the directory. -/
def Ignores (dn : Dn) (name : String) (x : ExceptT ε (StateM Directory) α) : Prop :=
  ∀ dir : Directory, (dir.veil dn name).run x = ((dir.run x).1, (dir.run x).2.veil dn name)

/-- Two runs end with the same result, in directories that differ at most in an attribute of the
entry at a name. -/
structure EndsAlike (dn : Dn) (name : String) (first second : Except ε α × Directory) : Prop where
  result : first.1 = second.1
  veiled : first.2.veil dn name = second.2.veil dn name

theorem EndsAlike.of_eq {first second : Except ε α × Directory} (h : first = second) :
    EndsAlike dn name first second :=
  ⟨congrArg Prod.fst h, congrArg (fun run => run.2.veil dn name) h⟩

theorem Ignores.endsAlike {x : ExceptT ε (StateM Directory) α} (h : Ignores dn name x)
    {dir dir' : Directory} (hveiled : dir.veil dn name = dir'.veil dn name) :
    EndsAlike dn name (dir.run x) (dir'.run x) := by
  have hruns := (h dir).symm.trans ((congrArg (Directory.run · x) hveiled).trans (h dir'))
  exact ⟨(Prod.mk.inj hruns).1, (Prod.mk.inj hruns).2⟩

/-- Computations that end alike do so when they go on with one that ignores the attribute. -/
theorem EndsAlike.bind {x x' : ExceptT ε (StateM Directory) α}
    {f : α → ExceptT ε (StateM Directory) β} {dir dir' : Directory}
    (hx : EndsAlike dn name (dir.run x) (dir'.run x')) (hf : ∀ a, Ignores dn name (f a)) :
    EndsAlike dn name (dir.run (x >>= f)) (dir'.run (x' >>= f)) := by
  rw [Directory.run_bind, Directory.run_bind]
  cases hrun : dir.run x with
  | mk result after =>
    cases hrun' : dir'.run x' with
    | mk result' after' =>
      rw [hrun, hrun'] at hx
      obtain ⟨rfl, hveiled⟩ := hx
      cases result with
      | error e => exact ⟨rfl, hveiled⟩
      | ok a => exact (hf a).endsAlike hveiled

theorem EndsAlike.lift {x x' : Directory.Action α} {dir dir' : Directory}
    (hx : EndsAlike dn name (dir.run x) (dir'.run x')) :
    EndsAlike dn name (dir.run (liftM x : Provisioner.Action α))
      (dir'.run (liftM x' : Provisioner.Action α)) := by
  rw [Directory.run_lift, Directory.run_lift]
  exact ⟨congrArg (Except.mapError ProvisioningError.directory) hx.result, hx.veiled⟩

namespace Ignores

theorem pure (a : α) : Ignores dn name (Pure.pure a : ExceptT ε (StateM Directory) α) :=
  fun _ => rfl

theorem throw (e : ε) : Ignores dn name (MonadExcept.throw e : ExceptT ε (StateM Directory) α) :=
  fun _ => rfl

theorem bind {x : ExceptT ε (StateM Directory) α} {f : α → ExceptT ε (StateM Directory) β}
    (hx : Ignores dn name x) (hf : ∀ a, Ignores dn name (f a)) : Ignores dn name (x >>= f) := by
  intro dir
  rw [Directory.run_bind, Directory.run_bind, hx dir]
  cases dir.run x with
  | mk result after =>
    cases result with
    | error e => rfl
    | ok a => exact hf a after

theorem tryCatch {x : ExceptT ε (StateM Directory) α}
    {handle : ε → ExceptT ε (StateM Directory) α} (hx : Ignores dn name x)
    (hhandle : ∀ e, Ignores dn name (handle e)) :
    Ignores dn name (MonadExcept.tryCatch x handle) := by
  intro dir
  rw [Directory.run_tryCatch, Directory.run_tryCatch, hx dir]
  cases dir.run x with
  | mk result after =>
    cases result with
    | ok a => rfl
    | error e => exact hhandle e after

theorem forM {xs : List α} {f : α → ExceptT ε (StateM Directory) Unit}
    (hf : ∀ x ∈ xs, Ignores dn name (f x)) : Ignores dn name (xs.forM f) := by
  induction xs with
  | nil => exact pure ()
  | cons x xs ih =>
    refine bind (hf x List.mem_cons_self) fun _ => ?_
    exact ih fun y hy => hf y (List.mem_cons_of_mem x hy)

theorem lift {x : Directory.Action α} (hx : Ignores dn name x) :
    Ignores dn name (liftM x : Provisioner.Action α) := by
  intro dir
  rw [Directory.run_lift, Directory.run_lift, hx dir]

end Ignores

/-! ## Requests -/

/-- What a request leads to, with the entries veiled. -/
def veiledOutcome (dn : Dn) (name : String) (outcome : Except DirectoryError (α × Entries)) :
    Except DirectoryError (α × Entries) :=
  outcome.map fun done => (done.1, done.2.veil dn name)

/-- A request ends alike if its veiled outcome is the same. -/
theorem endsAlike_perform {request request' : Request}
    {outcome outcome' : Directory → Except DirectoryError (α × Entries)} {dir : Directory}
    (hrequest : request.veil name = request'.veil name)
    (houtcome : veiledOutcome dn name (outcome dir) = veiledOutcome dn name (outcome' dir)) :
    EndsAlike dn name (dir.run (Directory.perform request outcome))
      (dir.run (Directory.perform request' outcome')) := by
  have hrecord : (dir.record request).veil dn name = (dir.record request').veil dn name := by
    rw [Directory.veil_record, Directory.veil_record, hrequest]
  rw [Directory.run_perform, Directory.run_perform]
  cases hfirst : outcome dir with
  | error e =>
    cases hsecond : outcome' dir with
    | error e' =>
      rw [hfirst, hsecond] at houtcome
      cases houtcome
      exact ⟨rfl, hrecord⟩
    | ok done =>
      rw [hfirst, hsecond] at houtcome
      cases houtcome
  | ok done =>
    cases hsecond : outcome' dir with
    | error e =>
      rw [hfirst, hsecond] at houtcome
      cases houtcome
    | ok done' =>
      rw [hfirst, hsecond] at houtcome
      obtain ⟨hresult, hentries⟩ := Prod.mk.inj (Except.ok.inj houtcome)
      refine ⟨congrArg Except.ok hresult, ?_⟩
      show ({ (dir.record request).veil dn name with entries := done.2.veil dn name } : Directory) =
        { (dir.record request').veil dn name with entries := done'.2.veil dn name }
      rw [hrecord, hentries]

theorem ignores_perform {request : Request}
    {outcome : Directory → Except DirectoryError (α × Entries)}
    (hrequest : request.veil name = request)
    (houtcome : ∀ dir : Directory,
      outcome (dir.veil dn name) = veiledOutcome dn name (outcome dir)) :
    Ignores dn name (Directory.perform request outcome) := by
  intro dir
  rw [Directory.run_perform, Directory.run_perform, houtcome dir]
  have hrecord : (dir.record request).veil dn name = (dir.veil dn name).record request := by
    rw [Directory.veil_record, hrequest]
  cases outcome dir with
  | error e => exact Prod.ext rfl hrecord.symm
  | ok done =>
    exact Prod.ext rfl (congrArg (fun veiled : Directory =>
      { veiled with entries := done.2.veil dn name }) hrecord.symm)

/-- The attributes of a veiled entry change as those of the entry do. -/
theorem Entry.applyAll_veil (e : Entry) (text : String) {items : List Modification}
    (hne : ∀ item ∈ items, ¬ Text.same item.name name = true) :
    (e.veil dn name).attributes.applyAll text items =
      (e.attributes.applyAll text items).map fun attrs =>
        (Entry.veil dn name ⟨e.dn, attrs⟩).attributes := by
  unfold Entry.veil
  split
  · exact e.attributes.applyAll_erase text hne
  · exact (congrFun Except.map_id _).symm

theorem Entry.veil_put (x : Dn) (attrs : Attributes) {other : String}
    (hne : ¬ Text.same other name = true) (vs : List String) :
    Entry.veil dn name ⟨x, attrs.put other vs⟩ =
      ⟨x, (Entry.veil dn name ⟨x, attrs⟩).attributes.put other vs⟩ := by
  unfold Entry.veil
  dsimp only
  split
  · exact congrArg (Entry.mk x) (attrs.erase_upsert_of_ne hne _)
  · rfl

/-- A modification that does not name the attribute ignores it. -/
theorem ignores_modify {supply : Supply} {x : Dn} {items : List Modification}
    (hstamp : ¬ Text.same "modifyTimestamp" name = true)
    (hne : ∀ item ∈ items, ¬ Text.same item.name name = true) :
    Ignores dn name (Directory.modify supply x items) := by
  refine ignores_perform (Request.veil_modify hne x) fun dir => ?_
  unfold Directory.afterModify
  rw [Directory.entry?_veil]
  show (dir.checkWritable "modify" x >>= fun _ => _) = _
  cases dir.checkWritable "modify" x with
  | error e => rfl
  | ok _ =>
    cases dir.entry? x with
    | none => rfl
    | some e =>
      dsimp only [Option.map_some, bind, Except.bind]
      rw [e.applyAll_veil x.text hne]
      cases e.attributes.applyAll x.text items with
      | error err => rfl
      | ok attrs =>
        refine congrArg (fun entries => Except.ok ((), entries)) ?_
        dsimp only
        rw [Entries.veil_insert, Entry.veil_dn, Entry.veil_put e.dn attrs hstamp]
        rfl

theorem Entry.veil_congr {x : Dn} {a b : Attributes} (hkey : x.key = dn.key)
    (h : a.erase name = b.erase name) : Entry.veil dn name ⟨x, a⟩ = Entry.veil dn name ⟨x, b⟩ := by
  unfold Entry.veil
  rw [if_pos hkey, if_pos hkey, h]

/-- Replacing the attribute by one value or another ends alike. -/
theorem endsAlike_replace (supply : Supply) (value value' : String) (dir : Directory) :
    EndsAlike dn name (dir.run (Directory.modify supply dn [⟨.replace, name, [value]⟩]))
      (dir.run (Directory.modify supply dn [⟨.replace, name, [value']⟩])) := by
  refine endsAlike_perform ?_ ?_
  · simp only [Request.veil, List.map_cons, List.map_nil, Modification.veil, Text.same_refl,
      if_true]
  unfold Directory.afterModify
  cases dir.checkWritable "modify" dn with
  | error e => rfl
  | ok _ =>
    cases hentry : dir.entry? dn with
    | none => rfl
    | some e =>
      refine congrArg (fun entries => Except.ok ((), entries)) ?_
      have hkey : e.dn.key = dn.key := (dir.entries.get?_eq_some_iff.1 hentry).2
      have hput (v : String) :
          (e.attributes.settle name [v]).erase name = e.attributes.erase name :=
        e.attributes.erase_upsert_same (Text.same_refl name) _
      dsimp only
      rw [Entries.veil_insert, Entries.veil_insert]
      exact congrArg _ (Entry.veil_congr hkey
        (Attributes.erase_upsert_congr ((hput value).trans (hput value').symm) _ _))

/-- A new entry needs a mandatory member whatever it holds of other attributes. -/
theorem missingMember?_put (attrs : Attributes) (values : List String)
    (hclass : ¬ Text.same name "objectClass" = true)
    (hmember : ∀ member ∈ Directory.mandatoryMembers, ¬ Text.same name member.2 = true) :
    Directory.missingMember? (attrs.put name values) = Directory.missingMember? attrs := by
  unfold Directory.missingMember?
  generalize Directory.mandatoryMembers = members at hmember
  induction members with
  | nil => rfl
  | cons first rest ih =>
    obtain ⟨objectClass, member⟩ := first
    rw [List.forall_mem_cons] at hmember
    rw [List.find?_cons, List.find?_cons, ih hmember.2]
    dsimp only
    rw [Attributes.values_put, if_neg hclass, Attributes.values_put, if_neg hmember.1]

theorem erase_stamped_congr {a b : Attributes} (h : a.erase name = b.erase name) (supply : Supply)
    (tick : Nat) (x : Dn) : (Directory.stamped supply tick x a).erase name =
      (Directory.stamped supply tick x b).erase name := by
  unfold Directory.stamped
  iterate 4 refine Attributes.erase_upsert_congr ?_ _ _
  cases x.leaf? with
  | none => exact h
  | some rdn => exact Attributes.erase_extendByRdn_congr h rdn

/-- Adding an entry with one value of the attribute or another ends alike. -/
theorem endsAlike_add (supply : Supply) (attrs : Attributes) (value value' : String)
    (hclass : ¬ Text.same name "objectClass" = true)
    (hmember : ∀ member ∈ Directory.mandatoryMembers, ¬ Text.same name member.2 = true)
    (dir : Directory) :
    EndsAlike dn name (dir.run (Directory.add supply dn (attrs.put name [value])))
      (dir.run (Directory.add supply dn (attrs.put name [value']))) := by
  refine endsAlike_perform rfl ?_
  have hput (v : String) : (attrs.put name [v]).erase name = attrs.erase name :=
    attrs.erase_upsert_same (Text.same_refl name) _
  have hentry : Entry.veil dn name ⟨dn, Directory.stamped supply dir.handled dn
        (attrs.put name [value])⟩ =
      Entry.veil dn name ⟨dn, Directory.stamped supply dir.handled dn (attrs.put name [value'])⟩ :=
    Entry.veil_congr rfl
      (erase_stamped_congr ((hput value).trans (hput value').symm) supply dir.handled dn)
  unfold Directory.afterAdd
  rw [missingMember?_put attrs _ hclass hmember, missingMember?_put attrs _ hclass hmember]
  have hinsert : (dir.entries.insert ⟨dn, Directory.stamped supply dir.handled dn
        (attrs.put name [value])⟩).veil dn name =
      (dir.entries.insert ⟨dn, Directory.stamped supply dir.handled dn
        (attrs.put name [value'])⟩).veil dn name := by
    rw [Entries.veil_insert, Entries.veil_insert, hentry]
  dsimp only [bind, Except.bind]
  -- Each check fails alike in both runs, or both go on to the next one.
  repeat' split
  all_goals first | rfl | exact congrArg (fun entries => Except.ok ((), entries)) hinsert

/-! ## Memberships and identifiers -/

namespace KindDescriptor

variable {d : KindDescriptor} {supply : Supply}
  (hstamp : ¬ Text.same "modifyTimestamp" name = true)
  (hmember : ¬ Text.same d.memberAttribute name = true)

include hstamp hmember

theorem ignores_addMembership (m : GroupMembership) :
    Ignores dn name (d.addMembership supply m) := by
  refine Ignores.tryCatch (ignores_modify hstamp ?_) fun e => ?_
  · rw [List.forall_mem_singleton]
    exact hmember
  · split
    · exact Ignores.pure _
    · exact Ignores.throw _

theorem ignores_removeMembership (m : GroupMembership) :
    Ignores dn name (d.removeMembership supply m) := by
  refine ignores_modify hstamp ?_
  rw [List.forall_mem_singleton]
  exact hmember

/-- A diff of memberships ignores every attribute but the one that holds them. -/
theorem ignores_applyDiff (diff : Diff GroupMembership) :
    Ignores dn name (d.applyDiff supply diff) :=
  Ignores.bind (Ignores.forM fun m _ => ignores_removeMembership hstamp hmember m) fun _ =>
    Ignores.forM fun m _ => ignores_addMembership hstamp hmember m

end KindDescriptor

/-- The identifier of an entry ignores every attribute but the one that identifies. -/
theorem Provisioner.ignores_identify {p : Provisioner} {entryClass : EntryClass}
    (huid : ¬ Text.same (p.uidAttribute entryClass) name = true) (x : Dn) :
    Ignores dn name (p.identify entryClass x) := by
  unfold identify
  split
  · exact Ignores.pure _
  intro dir
  dsimp only
  have hrecord : (dir.veil dn name).record (.read x) = (dir.record (.read x)).veil dn name :=
    (dir.veil_record (.read x)).symm
  rw [Directory.run_bind, Directory.run_bind, Directory.run_lift, Directory.run_lift,
    Directory.run_read, Directory.run_read, Directory.entry?_veil, hrecord]
  cases dir.entry? x with
  | none => exact Ignores.throw (ProvisioningError.directory _) (dir.record (.read x))
  | some e =>
    have hfirst : ((e.veil dn name).attributes.project [p.uidAttribute entryClass]).first?
        (p.uidAttribute entryClass) = (e.attributes.project [p.uidAttribute entryClass]).first?
          (p.uidAttribute entryClass) := by
      rw [Attributes.first?, Attributes.first?, Attributes.values_project_singleton,
        Attributes.values_project_singleton]
      unfold Entry.veil
      split
      · rw [Attributes.values_erase_of_ne e.attributes huid]
      · rfl
    dsimp only [Option.map_some, Except.mapError]
    rw [hfirst]
    cases (e.attributes.project [p.uidAttribute entryClass]).first? (p.uidAttribute entryClass) with
    | none => exact Ignores.throw (ProvisioningError.directory _) (dir.record (.read x))
    | some uid => exact Ignores.pure uid (dir.record (.read x))

end Roster
