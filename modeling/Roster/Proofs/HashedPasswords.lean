import Roster.Proofs.Creation
import Roster.Proofs.Origins

/-!
# Operations with a hashed password

The password of a creation or an update is hashed before anything is sent, and what is sent depends
on the text that stores it, not on the password (`exists_createStoring`, `exists_updateStoring`).
This text is all that such an operation stores in the password attribute
(`storesOnly_createStoring`, `storesOnly_updateStoring`), unless it fails before and leaves what the
status policy has sent there.
-/

namespace Roster

/-- Two sequences run alike if their second parts do after the common first one. -/
theorem Directory.run_bind_congr {ε α β : Type} {dir : Directory}
    {x : ExceptT ε (StateM Directory) α} {f g : α → ExceptT ε (StateM Directory) β}
    (h : ∀ a mid, dir.run x = (.ok a, mid) → mid.run (f a) = mid.run (g a)) :
    dir.run (x >>= f) = dir.run (x >>= g) := by
  rw [Directory.run_bind, Directory.run_bind]
  split
  · next a mid hrun => exact h a mid hrun
  · rfl

/-- The input as if it gave no password. -/
def Input.withoutPassword (input : Input) : Input :=
  { input with password := none }

namespace Provisioner

/-! ## The stored password -/

/-- The provisioner with other salts. -/
def withSalts (p : Provisioner) (salt : Nat → List UInt8) : Provisioner :=
  { p with supply := { p.supply with salt } }

/-- A text stores a secret with some salt. -/
def IsHashOf (p : Provisioner) (secret : Secret) (text : String) : Prop :=
  ∃ salt, Password.hashWithSalt? p.algorithm secret.octets salt = some text

/-- The input sets a password of its own, which can be stored, and says nothing else about the
attribute; neither does the name that the entry has before or after. -/
structure SetsPassword (p : Provisioner) (dn : Dn) (input : Input) (secret : Secret) : Prop where
  given : input.password = some secret
  chosen : input.resetPassword = false
  hashes : ∃ text, p.IsHashOf secret text
  unsent : input.ordinary.contains p.configuration.passwordAttribute = false
  named : dn.leafValues p.configuration.passwordAttribute = []
  renamed : (landing dn (renameFor? dn input.name)).leafValues
    p.configuration.passwordAttribute = []

variable {p : Provisioner} {dn : Dn} {input : Input} {secret : Secret} {dir after : Directory}

/-- A password that can be stored is stored with the salt of the moment. -/
theorem exists_stored (hsets : p.SetsPassword dn input secret) (dir : Directory) :
    ∃ text, p.IsHashOf secret text ∧
      dir.run (p.choosePassword input >>= p.hashPassword) = (.ok (some text), dir) := by
  have hchoose : dir.run (p.choosePassword input) = (.ok (some secret), dir) := by
    unfold choosePassword
    rw [hsets.chosen, hsets.given]
    rfl
  obtain ⟨_, salt, hsalt⟩ := hsets.hashes
  have hsome : Password.hash? p.algorithm secret.octets (p.supply.salt dir.handled) ≠ none := by
    intro hnone
    -- Whether a password can be stored does not depend on the salt.
    have hnever : Password.hashWithSalt? p.algorithm secret.octets salt = none :=
      Password.hashWithSalt?_eq_none_iff.2 (Password.hashWithSalt?_eq_none_iff.1 hnone)
    rw [hsalt] at hnever
    cases hnever
  obtain ⟨text, htext⟩ := Option.ne_none_iff_exists'.1 hsome
  refine ⟨text, ⟨_, htext⟩, ?_⟩
  rw [Directory.run_bind, hchoose]
  dsimp only
  rw [run_hashPassword, htext]
  rfl

/-! ## Operations with a stored password -/

/-- A creation once its password is hashed. -/
def createStoring (p : Provisioner) (entryClass : EntryClass) (dn : Dn) (input : Input)
    (text : String) : Action String := do
  let (ordinary, requests) := p.applyStatus input
  let attrs := p.newAttributes entryClass ordinary
  let diffs ← MembershipKind.all.mapM fun kind => do
    return (kind, ← p.joining dn attrs requests kind)
  Directory.add p.supply dn (attrs.put p.configuration.passwordAttribute [text])
  diffs.forM fun (kind, diff) => (p.descriptor kind).applyDiff p.supply diff
  p.identify entryClass dn

/-- An update of the entry at a name up to its password. -/
def updateOpening (p : Provisioner) (dn : Dn) (input : Input) : Action Dn := do
  let (plan, _) ← (p.planUpdate dn input).run (p.caches dn)
  p.carryOut { plan with password := none }

/-- An update of the entry at a name once its password is hashed. -/
def updateStoring (p : Provisioner) (entryClass : EntryClass) (dn : Dn) (input : Input)
    (text : String) : Action String := do
  let landed ← p.updateOpening dn input
  p.writePassword landed .replace (some text)
  p.identify entryClass landed

theorem exists_createStoring {entryClass : EntryClass} {attributes : List InputAttribute}
    (hsorted : Input.partition .create attributes = .ok input) (hnamed : input.name = some dn)
    (hsets : p.SetsPassword dn input secret) (dir : Directory) :
    ∃ text, p.IsHashOf secret text ∧ dir.run (p.create entryClass attributes) =
      dir.run (p.createStoring entryClass dn input.withoutPassword text) := by
  obtain ⟨text, hhash, hstored⟩ := exists_stored hsets dir
  refine ⟨text, hhash, ?_⟩
  unfold create createStoring
  rw [hsorted]
  dsimp only [ofInput]
  rw [pure_bind, hnamed]
  dsimp only [ofInput]
  rw [pure_bind]
  refine Directory.run_bind_congr fun diffs mid hdiffs => ?_
  have hmid : mid = dir := (p.keeps_eq_joinings dn _ _).of_run hdiffs
  rw [← bind_assoc, Directory.run_bind, hmid, hstored]
  rfl

/-- A plan hands its caches on while the password is hashed. -/
theorem run_cached_stored {β : Type} {input : Input} {stored : Option String}
    (hstored : dir.run (p.choosePassword input >>= p.hashPassword) = (.ok stored, dir))
    (caches : Caches) (next : Option String × Caches → Action β) :
    dir.run ((liftM (p.choosePassword input) : Cached (Option Secret)).run caches >>= fun chosen =>
      (liftM (p.hashPassword chosen.1) : Cached (Option String)).run chosen.2 >>= next) =
      dir.run (next (stored, caches)) := by
  have hlift {α : Type} (x : Action α) (caches : Caches) :
      (liftM x : Cached α).run caches = x >>= fun a => pure (a, caches) := rfl
  simp only [hlift, bind_assoc, pure_bind]
  rw [← bind_assoc, Directory.run_bind, hstored]

/-- What a plan holds besides its password depends neither on the password nor on the salts. -/
theorem exists_planUpdate (hsets : p.SetsPassword dn input secret) (caches : Caches)
    (dir : Directory) :
    ∃ text, p.IsHashOf secret text ∧
      ∀ (salt : Nat → List UInt8) {β : Type} (next : UpdatePlan × Caches → Action β),
        dir.run ((p.planUpdate dn input).run caches >>= next) =
          dir.run (((p.withSalts salt).planUpdate dn input.withoutPassword).run caches >>=
            fun found => next ({ found.1 with password := some text }, found.2)) := by
  -- The password is hashed once it is clear that no references are given up.
  let refuse (kind : MembershipKind) : Cached Unit :=
    p.refuseOrphans kind (newReferences (p.descriptor kind) (renameFor? dn input.name).isSome
      (targetOf dn (renameFor? dn input.name)) input.ordinary)
  obtain ⟨text, hhash, hstored⟩ := exists_stored hsets
    (dir.run ((refuse .posix).run caches >>= fun found => (refuse .mailAlias).run found.2)).2
  refine ⟨text, hhash, fun salt _ next => ?_⟩
  unfold planUpdate
  simp only [StateT.run_bind, bind_assoc]
  refine Directory.run_bind_congr fun first opened hfirst => ?_
  refine Directory.run_bind_congr fun second mid hsecond => ?_
  have hmid : dir.run ((refuse .posix).run caches >>= fun found =>
      (refuse .mailAlias).run found.2) = (.ok second, mid) :=
    Directory.run_bind_ok.2 ⟨first, opened, hfirst, hsecond⟩
  rw [hmid] at hstored
  have hnone : mid.run ((p.withSalts salt).choosePassword input.withoutPassword >>=
      (p.withSalts salt).hashPassword) = (.ok none, mid) := by
    unfold choosePassword Input.withoutPassword
    rw [hsets.chosen]
    rfl
  rw [run_cached_stored hstored, run_cached_stored hnone]
  rfl

theorem carryOut_password (plan : UpdatePlan) (text : String) :
    p.carryOut { plan with password := some text } = (do
      let landed ← p.carryOut { plan with password := none }
      p.writePassword landed .replace (some text)
      return landed) := by
  unfold carryOut settle
  simp only [bind_assoc, pure_bind, writePassword]
  rfl

theorem exists_updateStoring {entryClass : EntryClass} {uid : String}
    {attributes : List InputAttribute}
    (hsorted : Input.partition .update attributes = .ok input)
    (hresolve : dir.run (p.resolve entryClass uid) = (.ok dn, after))
    (hsets : p.SetsPassword dn input secret) :
    ∃ text, p.IsHashOf secret text ∧ ∀ salt, dir.run (p.update entryClass uid attributes) =
      after.run ((p.withSalts salt).updateStoring entryClass dn input.withoutPassword text) := by
  obtain ⟨text, hhash, hplan⟩ := exists_planUpdate hsets (p.caches dn) after
  refine ⟨text, hhash, fun salt => ?_⟩
  unfold update updateStoring updateOpening
  rw [Directory.run_bind, hresolve, hsorted]
  dsimp only [ofInput]
  rw [pure_bind, hplan salt]
  simp only [carryOut_password, bind_assoc, pure_bind]
  rfl

/-! ## A password attribute of its own -/

/-- The password attribute is none that memberships, identifiers, mandatory members or the server
itself make use of. -/
structure KeepsPasswordApart (p : Provisioner) : Prop where
  member (kind : MembershipKind) :
    ¬ Text.same (p.descriptor kind).memberAttribute p.configuration.passwordAttribute = true
  uid (entryClass : EntryClass) :
    ¬ Text.same (p.uidAttribute entryClass) p.configuration.passwordAttribute = true
  objectClass : ¬ Text.same p.configuration.passwordAttribute "objectClass" = true
  mandatory : ∀ member ∈ Directory.mandatoryMembers,
    ¬ Text.same p.configuration.passwordAttribute member.2 = true
  server : ∀ name ∈ ["entryUUID", "entryDN", "createTimestamp", "modifyTimestamp"],
    ¬ Text.same name p.configuration.passwordAttribute = true

namespace KeepsPasswordApart

theorem entryDn (h : p.KeepsPasswordApart) :
    ¬ Text.same "entryDN" p.configuration.passwordAttribute = true :=
  h.server _ (by simp)

theorem timeStamp (h : p.KeepsPasswordApart) :
    ¬ Text.same "modifyTimestamp" p.configuration.passwordAttribute = true :=
  h.server _ (by simp)

theorem spares (h : p.KeepsPasswordApart) (x : Dn) :
    MembershipFrame p (Spares x p.configuration.passwordAttribute) :=
  spares_membershipFrame h.member h.timeStamp x

end KeepsPasswordApart

/-- The input says whether the entry is enabled, and the status policy has this sent in the password
attribute. -/
def PolicySends (p : Provisioner) (input : Input) (values : List String) : Prop :=
  ∃ enabled, input.enable = some enabled ∧
    (p.status enabled (input.ordinary, input.requests)).1.get? p.configuration.passwordAttribute =
      some values

/-- What is sent in the password attribute, but is not in the input, comes from the policy. -/
theorem policySends_of_sent
    (hunsent : input.ordinary.contains p.configuration.passwordAttribute = false)
    {values : List String}
    (hget : (p.applyStatus input).1.get? p.configuration.passwordAttribute = some values) :
    p.PolicySends input values := by
  unfold applyStatus at hget
  split at hget
  · next enabled henable => exact ⟨enabled, henable, hget⟩
  · rw [Attributes.contains, hget] at hunsent
    cases hunsent

theorem Planned.sent {e : Entry} {entries : Entries} {plan : UpdatePlan}
    (h : Planned p dn e entries input plan) {name : String} {values : List String}
    (hget : plan.ordinary.get? name = some values) :
    (p.applyStatus input).1.get? name = some values := by
  have hordinary : plan.ordinary =
      (splitNaming (renameFor? dn input.name) (p.applyStatus input).1).2 :=
    congrArg Prod.snd h.split_eq
  rw [hordinary] at hget
  unfold splitNaming at hget
  split at hget
  · rw [get?_takeNaming] at hget
    split at hget
    · exact hget
    · cases hget
  · exact hget

theorem Planned.naming {e : Entry} {entries : Entries} {plan : UpdatePlan}
    (h : Planned p dn e entries input plan) {name : String}
    (hrenamed : (landing dn (renameFor? dn input.name)).leafValues name = []) :
    ∀ item ∈ plan.naming, ¬ Text.same item.name name = true := by
  have hnaming : plan.naming =
      (splitNaming (renameFor? dn input.name) (p.applyStatus input).1).1 :=
    congrArg Prod.fst h.split_eq
  rw [hnaming]
  unfold splitNaming
  split
  · next r hrename =>
    intro item hitem
    obtain ⟨-, ava, hava, hname⟩ := mem_takeNaming hitem
    rw [hname]
    rw [hrename] at hrenamed
    exact valuesOf_eq_nil.1 hrenamed ava hava
  · intro item hitem
    cases hitem

/-- What an update asks for after its move spares the password attribute, but for the password. -/
theorem Planned.spares_settle {e : Entry} {entries : Entries} {plan : UpdatePlan}
    (h : Planned p dn e entries input plan) (hapart : p.KeepsPasswordApart)
    (hrenamed : (landing dn (renameFor? dn input.name)).leafValues
      p.configuration.passwordAttribute = []) (landed x : Dn) :
    Keeps (Spares x p.configuration.passwordAttribute)
      (p.settle { plan with password := none } landed) := by
  have hspares := hapart.spares x
  exact hspares.toFrame.keeps_settle
    (hspares.toFrame.keeps_sendItems (keeps_spares_modify hapart.timeStamp fun _ =>
      h.naming hrenamed))
    (hspares.keeps_applyDiff .static _)
    (fun references _ => hspares.toFrame.keeps_applyReferences hspares.quiet
      (hspares.remove references.kind) (hspares.add references.kind))
    (hspares.keeps_pure ())

/-- An update up to its password stores nothing new in the password attribute but what the status
policy sends. -/
theorem keeps_draws_updateOpening (hapart : p.KeepsPasswordApart)
    (hunsent : input.ordinary.contains p.configuration.passwordAttribute = false)
    (hnamed : dn.leafValues p.configuration.passwordAttribute = [])
    (hrenamed : (landing dn (renameFor? dn input.name)).leafValues
      p.configuration.passwordAttribute = []) :
    Keeps (Draws p.configuration.passwordAttribute (p.PolicySends input))
      (p.updateOpening dn input) := by
  have frame := draws_frame p.configuration.passwordAttribute (p.PolicySends input)
  unfold updateOpening
  refine frame.keeps_bind_of_ends
    (fun dir => (p.keeps_unwritten_planUpdate dn input (p.caches dn) dir).draws)
    (p.ends_planUpdate_planned dn input) fun found hfound => ?_
  obtain ⟨e, entries, hfull⟩ := hfound
  have hplan := hfull.toPlanned
  unfold carryOut
  dsimp only
  refine frame.keeps_bind
    (frame.keeps_sendItems (keeps_draws_modify hapart.timeStamp ?_)) fun _ => ?_
  · intro text attrs attrs' happly
    have hvalues := Attributes.values_applyAll_replacements happly p.configuration.passwordAttribute
    cases hget : found.1.ordinary.get? p.configuration.passwordAttribute with
    | none =>
      rw [hget] at hvalues
      exact .inr hvalues
    | some values =>
      rw [hget] at hvalues
      exact .inl (hvalues ▸ policySends_of_sent hunsent (hplan.sent hget))
  refine frame.keeps_bind ?_ fun landed => ?_
  · unfold move
    rw [hplan.rename_eq, hplan.dn_eq]
    cases hrename : renameFor? dn input.name with
    | none => exact frame.keeps_pure _
    | some r =>
      rw [hrename] at hrenamed
      exact (keeps_draws_rename hapart.entryDn hapart.timeStamp hnamed hrenamed).lift
  · exact frame.keeps_bind (Keeps.draws (hplan.spares_settle hapart hrenamed landed))
      fun _ => frame.keeps_pure _

/-- A move that leads to an entry takes its values along. -/
theorem confines_move {rename : Option Rename} {landed : Dn} {found : Entry} {name : String}
    (hdn : ¬ Text.same "entryDN" name = true)
    (hrun : dir.run (p.move dn rename) = (.ok landed, after))
    (hfound : after.entries.get? landed = some found) : Confines dn landed name dir after := by
  unfold move at hrun
  split at hrun
  · exact confines_rename hdn (Directory.run_lift_ok hrun) hfound
  · cases hrun
    exact (confines_frame dn name).refl dir

/-- An update that leads to an entry has given nothing to another one before its password. -/
theorem confines_updateOpening (hapart : p.KeepsPasswordApart)
    (hrenamed : (landing dn (renameFor? dn input.name)).leafValues
      p.configuration.passwordAttribute = []) {landed : Dn} {found : Entry}
    (hrun : dir.run (p.updateOpening dn input) = (.ok landed, after))
    (hfound : after.entries.get? landed = some found) :
    Confines dn landed p.configuration.passwordAttribute dir after := by
  unfold updateOpening at hrun
  obtain ⟨planned, planning, hplanning, hcarried⟩ := Directory.run_bind_ok.1 hrun
  obtain ⟨e, entries, hfull⟩ := (p.ends_planUpdate_planned dn input).of_run_ok hplanning
  have hplan := hfull.toPlanned
  unfold carryOut at hcarried
  obtain ⟨_, sent, hsend, hrest⟩ := Directory.run_bind_ok.1 hcarried
  obtain ⟨_, moved, hmove, hrest⟩ := Directory.run_bind_ok.1 hrest
  obtain ⟨_, settled, hsettle, hpure⟩ := Directory.run_bind_ok.1 hrest
  cases hpure
  have hsettled (x : Dn) :=
    (hplan.spares_settle hapart hrenamed landed x).of_run hsettle
  have hback : Spares landed p.configuration.passwordAttribute after moved := (hsettled landed).symm
  obtain ⟨_, hmoved, -⟩ := hback.stored hfound
  have hsent := ((confines_frame planned.1.dn p.configuration.passwordAttribute).keeps_sendItems
    (keeps_confines_modify p.supply planned.1.dn _)).of_run hsend
  have hplanned : Confines dn dn p.configuration.passwordAttribute dir planning :=
    confines_of_spares fun x =>
      ((p.keeps_unwritten_planUpdate dn input (p.caches dn)).of_run hplanning).spares x _
  rw [hplan.dn_eq] at hsent hmove
  exact hplanned.trans (hsent.trans ((confines_move hapart.entryDn hmove hmoved).trans
    (confines_of_spares hsettled)))

/-- An update leads to the name that it asks for. -/
theorem ends_updateOpening (dn : Dn) (input : Input) :
    Ends (· = landing dn (renameFor? dn input.name)) (fun _ => True)
      (p.updateOpening dn input) := by
  unfold updateOpening
  refine Ends.bind (p.ends_planUpdate_planned dn input) fun found hfound => ?_
  obtain ⟨e, entries, hplan⟩ := hfound
  unfold carryOut
  refine Ends.bind (ends_any _) fun _ _ => ?_
  refine Ends.bind (p.ends_move _ _) fun landed hlanded => ?_
  refine Ends.bind (ends_any _) fun _ _ => Ends.pure ?_
  rw [hlanded]
  dsimp only
  rw [hplan.dn_eq, hplan.rename_eq]

/-! ## What is stored -/

/-- Either the entry holds one text as its password, and no other entry has gained a password; or the
run has failed, and no entry has gained one but what was sent before the text. -/
def StoresOnly (p : Provisioner) (dn target : Dn) (sent : List String → Prop) (text : String)
    (dir : Directory) (run : Except ProvisioningError String × Directory) : Prop :=
  (∃ e, Directory.entry? run.2 target = some e ∧
      e.attributes.values p.configuration.passwordAttribute = [text] ∧
      Confines dn target p.configuration.passwordAttribute dir run.2) ∨
    ∃ err, run.1 = .error err ∧ Draws p.configuration.passwordAttribute sent dir run.2

/-- A text that is written at a name, before requests that spare it, is all that is stored. -/
theorem storesOnly_then {target : Dn} {sent : List String → Prop} {text : String}
    {mid : Directory} (x : Directory.Action Unit) (rest : Unit → Action String)
    (hwritten : ∀ {written : Directory}, mid.run x = (.ok (), written) →
      (∃ e, written.entry? target = some e ∧
        e.attributes.values p.configuration.passwordAttribute = [text]) ∧
      Confines dn target p.configuration.passwordAttribute dir written)
    (hrefused : ∀ {err : DirectoryError} {refused : Directory},
      mid.run x = (.error err, refused) →
        Draws p.configuration.passwordAttribute sent dir refused)
    (hrest : ∀ y, Keeps (Spares y p.configuration.passwordAttribute) (rest ())) :
    p.StoresOnly dn target sent text dir (mid.run ((liftM x : Action Unit) >>= rest)) := by
  rw [Directory.run_bind, Directory.run_lift]
  cases hrun : mid.run x with
  | mk result written =>
    cases result with
    | error err => exact .inr ⟨_, rfl, hrefused hrun⟩
    | ok _ =>
      obtain ⟨⟨e, hentry, hvalues⟩, hconfines⟩ := hwritten hrun
      have hlater (y : Dn) := hrest y written
      obtain ⟨e', hentry', hvalues'⟩ := (hlater target).stored hentry
      exact .inl ⟨e', hentry', hvalues'.trans hvalues,
        hconfines.trans (confines_of_spares hlater)⟩

theorem spares_identify (entryClass : EntryClass) (dn x : Dn) (name : String) :
    Keeps (Spares x name) (p.identify entryClass dn) :=
  fun dir => (p.keeps_unwritten_identify entryClass dn dir).spares x name

/-- **All that an update stores in the password attribute** is the hash, or what the status policy
sends if the update fails before the hash is written. -/
theorem storesOnly_updateStoring (hapart : p.KeepsPasswordApart) (entryClass : EntryClass)
    (input : Input)
    (hunsent : input.ordinary.contains p.configuration.passwordAttribute = false)
    (hnamed : dn.leafValues p.configuration.passwordAttribute = [])
    (hrenamed : (landing dn (renameFor? dn input.name)).leafValues
      p.configuration.passwordAttribute = []) (text : String) (dir : Directory) :
    p.StoresOnly dn (landing dn (renameFor? dn input.name)) (p.PolicySends input) text dir
      (dir.run (p.updateStoring entryClass dn input text)) := by
  have hopening := keeps_draws_updateOpening hapart hunsent hnamed hrenamed dir
  have hends := p.ends_updateOpening dn input dir
  unfold updateStoring
  rw [Directory.run_bind]
  cases hrun : dir.run (p.updateOpening dn input) with
  | mk result mid =>
    rw [hrun] at hopening hends
    cases result with
    | error err => exact .inr ⟨err, rfl, hopening⟩
    | ok landed =>
      cases hends
      refine storesOnly_then
        (Directory.modify p.supply _ [⟨.replace, p.configuration.passwordAttribute, [text]⟩])
        (fun _ => p.identify entryClass (landing dn (renameFor? dn input.name)))
        (fun hwrite => ?_) (fun hrefused => ?_) fun y => spares_identify entryClass _ y _
      · obtain ⟨-, old, -, hfound, -⟩ := Directory.run_modify_ok hwrite
        exact ⟨run_replace_found hapart.timeStamp hwrite,
          (confines_updateOpening hapart hrenamed hrun hfound).trans
            ((keeps_confines_modify p.supply _ _).of_run hwrite)⟩
      · rw [Directory.run_perform_error hrefused]
        exact hopening

/-- A new entry with a stored password holds it alone. -/
theorem values_stamped_password (hapart : p.KeepsPasswordApart)
    (hnamed : dn.leafValues p.configuration.passwordAttribute = []) (tick : Nat)
    (attrs : Attributes) (text : String) :
    (Directory.stamped p.supply tick dn
      (attrs.put p.configuration.passwordAttribute [text])).values
        p.configuration.passwordAttribute = [text] := by
  have hserver : serverValues? p.supply tick dn p.configuration.passwordAttribute = none := by
    unfold serverValues?
    rw [if_neg, if_neg hapart.entryDn, if_neg (hapart.server "entryUUID" (by simp))]
    rw [Bool.or_eq_true, not_or]
    exact ⟨hapart.timeStamp, hapart.server "createTimestamp" (by simp)⟩
  rw [values_stamped, hserver, Option.getD_none, hnamed, Attributes.values_put,
    if_pos (Text.same_refl _)]
  rfl

/-- **All that a creation stores in the password attribute** is the hash. -/
theorem storesOnly_createStoring (hapart : p.KeepsPasswordApart) (entryClass : EntryClass)
    (hnamed : dn.leafValues p.configuration.passwordAttribute = []) (text : String)
    (dir : Directory) :
    p.StoresOnly dn dn (fun _ => False) text dir
      (dir.run (p.createStoring entryClass dn input text)) := by
  unfold createStoring
  dsimp only
  rw [Directory.run_bind]
  split
  · next diffs mid hdiffs =>
    have hmid : mid = dir := (p.keeps_eq_joinings dn _ _).of_run hdiffs
    subst hmid
    refine storesOnly_then (Directory.add p.supply dn
        ((p.newAttributes entryClass (p.applyStatus input).1).put
          p.configuration.passwordAttribute [text]))
      (fun _ => do
        diffs.forM fun (kind, diff) => liftM ((p.descriptor kind).applyDiff p.supply diff)
        p.identify entryClass dn)
      (fun hadd => ⟨⟨_, (Directory.get?_of_add hadd dn).trans (if_pos rfl),
        values_stamped_password hapart hnamed _ _ text⟩,
        (keeps_confines_add p.supply dn _).of_run hadd⟩)
      (fun hrefused => ?_)
      fun y => (spares_frame y _).keeps_bind ((spares_frame y _).keeps_forM fun diff _ =>
        ((hapart.spares y).keeps_applyDiff diff.1 diff.2).lift)
          fun _ => spares_identify entryClass dn y _
    rw [Directory.run_perform_error hrefused]
    exact (draws_frame p.configuration.passwordAttribute fun _ => False).refl mid
  · next err mid hdiffs =>
    have hmid : mid = dir := (p.keeps_eq_joinings dn _ _).of_run hdiffs
    subst hmid
    exact .inr ⟨err, rfl, (draws_frame _ _).refl mid⟩

end Provisioner

end Roster
