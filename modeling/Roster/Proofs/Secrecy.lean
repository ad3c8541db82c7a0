import Roster.Proofs.HashedPasswords
import Roster.Proofs.Veiling

/-!
# Passwords do not leak

Two creations, or two updates, that differ in a password only end with the same result, send the
same requests apart from values of the password attribute, and leave directories that differ at most
in this attribute of their entry, whatever the salts are. What they store of the password is a hash
(`run_conceals_password`). The status policy may have something else stored in the attribute, which
stays there if the update fails before its password (`disabled_ann_keeps_mark`).
-/

namespace Roster

/-! ## Inputs that differ in a password -/

/-- Two attributes are the same, or both of them give a password. -/
def InputAttribute.AlikeButPassword (a b : InputAttribute) : Prop :=
  a = b ∨ ∃ s t, InputRole.ofName a.name = .password ∧ InputRole.ofName b.name = .password ∧
    a.password = .ok (some s) ∧ b.password = .ok (some t)

namespace Input

theorem name_of_withoutPassword {input input' : Input}
    (h : input'.withoutPassword = input.withoutPassword) : input'.name = input.name := by
  have hname := congrArg Input.name h
  exact hname

theorem take_withoutPassword (mode : InputMode) (input : Input) (a : InputAttribute) :
    (take mode input a).map withoutPassword =
      (take mode input.withoutPassword a).map withoutPassword := by
  unfold take
  cases InputRole.ofName a.name with
  | uid => rfl
  | name =>
    dsimp only
    split
    · rfl
    · cases a.singleDn <;> rfl
  | groups kind => cases a.values.mapM a.dnOf <;> rfl
  | password => cases a.password <;> rfl
  | enable => cases a.boolean <;> rfl
  | resetPassword => cases a.boolean <;> rfl
  | ordinary =>
    cases a.encoded with
    | error e => rfl
    | ok values =>
      refine congrArg Except.ok ?_
      show withoutPassword (addOrdinary ..) = withoutPassword (addOrdinary ..)
      unfold addOrdinary withoutPassword
      dsimp only
      split
      · rfl
      · split <;> rfl

theorem take_alike (mode : InputMode) {input input' : Input} {a b : InputAttribute}
    (hinput : input.withoutPassword = input'.withoutPassword) (halike : a.AlikeButPassword b) :
    (take mode input a).map withoutPassword = (take mode input' b).map withoutPassword := by
  rcases halike with rfl | ⟨s, t, ha, hb, hs, ht⟩
  · rw [take_withoutPassword, hinput, ← take_withoutPassword]
  · unfold take
    rw [ha, hb]
    dsimp only
    rw [hs, ht]
    exact congrArg Except.ok hinput

/-- **Inputs that differ in a password only** are sorted alike, or fail alike. -/
theorem partition_alike (mode : InputMode) {as bs : List InputAttribute}
    (halike : List.Forall₂ InputAttribute.AlikeButPassword as bs) :
    (partition mode as).map withoutPassword = (partition mode bs).map withoutPassword := by
  have hfold {input input' : Input} (hinput : input.withoutPassword = input'.withoutPassword) :
      (as.foldlM (take mode) input).map withoutPassword =
        (bs.foldlM (take mode) input').map withoutPassword := by
    induction halike generalizing input input' with
    | nil => exact congrArg Except.ok hinput
    | cons hhead _ ih =>
      have htake := take_alike mode hinput hhead
      rw [List.foldlM_cons, List.foldlM_cons]
      revert htake
      cases take mode input _ with
      | error e =>
        cases take mode input' _ with
        | error e' => exact fun htake => congrArg Except.error (Except.error.inj htake)
        | ok _ => nofun
      | ok next =>
        cases take mode input' _ with
        | error e' => nofun
        | ok next' => exact fun htake => ih (Except.ok.inj htake)
  exact hfold rfl

end Input

namespace Provisioner

variable {p : Provisioner} {dn : Dn} {input : Input} {dir : Directory}

/-! ## Runs that differ in a password -/

theorem endsAlike_createStoring (hapart : p.KeepsPasswordApart) (entryClass : EntryClass)
    (dn : Dn) (input : Input) (text text' : String) (dir : Directory) :
    EndsAlike dn p.configuration.passwordAttribute
      (dir.run (p.createStoring entryClass dn input text))
      (dir.run (p.createStoring entryClass dn input text')) := by
  unfold createStoring
  dsimp only
  rw [Directory.run_bind, Directory.run_bind]
  split
  · next diffs mid hdiffs =>
    refine (endsAlike_add p.supply _ text text' hapart.objectClass hapart.mandatory mid).lift.bind
      fun _ => Ignores.bind (Ignores.forM fun diff _ => ?_) fun _ => ?_
    · exact (KindDescriptor.ignores_applyDiff hapart.timeStamp (hapart.member diff.1) diff.2).lift
    · exact ignores_identify (hapart.uid entryClass) dn
  · exact .of_eq rfl

theorem endsAlike_updateStoring (hapart : p.KeepsPasswordApart) (entryClass : EntryClass)
    (dn : Dn) (input : Input) (text text' : String) (dir : Directory) :
    EndsAlike (landing dn (renameFor? dn input.name)) p.configuration.passwordAttribute
      (dir.run (p.updateStoring entryClass dn input text))
      (dir.run (p.updateStoring entryClass dn input text')) := by
  have hends := p.ends_updateOpening dn input dir
  unfold updateStoring
  rw [Directory.run_bind, Directory.run_bind]
  split
  · next landed mid hopening =>
    rw [hopening] at hends
    cases hends
    exact (endsAlike_replace p.supply text text' mid).lift.bind fun _ =>
      ignores_identify (hapart.uid entryClass) _
  · exact .of_eq rfl

variable {secret : Secret} {salt : Nat → List UInt8}

theorem KeepsPasswordApart.withSalts (h : p.KeepsPasswordApart) (salt : Nat → List UInt8) :
    (p.withSalts salt).KeepsPasswordApart :=
  ⟨h.member, h.uid, h.objectClass, h.mandatory, h.server⟩

theorem SetsPassword.withSalts (h : p.SetsPassword dn input secret) (salt : Nat → List UInt8) :
    (p.withSalts salt).SetsPassword dn input secret :=
  ⟨h.given, h.chosen, h.hashes, h.unsent, h.named, h.renamed⟩

/-- A new entry has the name that it is given. -/
theorem landing_of_named (h : input.name = some dn) :
    landing dn (renameFor? dn input.name) = dn := by
  have hsame : dn.same dn = true := Dn.same_iff.2 rfl
  rw [h]
  unfold renameFor?
  simp only [bind, Option.bind_some, hsame, if_true]
  rfl

theorem StoresOnly.of_entries {target : Dn} {sent : List String → Prop} {text : String}
    {opened : Directory} {run : Except ProvisioningError String × Directory}
    (hentries : opened.entries = dir.entries) (h : p.StoresOnly dn target sent text opened run) :
    p.StoresOnly dn target sent text dir run := by
  unfold StoresOnly Confines Draws at h ⊢
  rwa [hentries] at h

end Provisioner

namespace Operation

/-- Two creations or two updates that differ at most in a password. -/
def AlikeButPassword : Operation → Operation → Prop
  | .create entryClass as, .create entryClass' bs =>
    entryClass = entryClass' ∧ List.Forall₂ InputAttribute.AlikeButPassword as bs
  | .update entryClass uid as, .update entryClass' uid' bs =>
    entryClass = entryClass' ∧ uid = uid' ∧ List.Forall₂ InputAttribute.AlikeButPassword as bs
  | _, _ => False

/-- What an operation sends in the password attribute before the password: an update what comes from
the status policy, a creation nothing. -/
def SendsBefore (p : Provisioner) (input : Input) : Operation → List String → Prop
  | .update .. => p.PolicySends input
  | _ => fun _ => False

/-- The run stores nothing in the password attribute but a hash of the password that is given, or
fails before it does and leaves what the status policy has sent. -/
def StoresHash (p : Provisioner) (dir : Directory) (dn : Dn) (input : Input) (op : Operation) :
    Prop :=
  ∃ secret text, input.password = some secret ∧ p.IsHashOf secret text ∧
    p.StoresOnly dn (Provisioner.landing dn (Provisioner.renameFor? dn input.name))
      (op.SendsBefore p input) text dir (dir.run (op.run p))

end Operation

namespace Provisioner

variable {p : Provisioner} {dn : Dn} {input : Input} {secret : Secret} {dir : Directory}

theorem storesHash_create {entryClass : EntryClass} {attributes : List InputAttribute}
    (hapart : p.KeepsPasswordApart)
    (hconcerns : (Operation.create entryClass attributes).Concerns p dir dn input)
    (hsets : p.SetsPassword dn input secret) :
    (Operation.create entryClass attributes).StoresHash p dir dn input := by
  obtain ⟨hsorted, hnamed⟩ := hconcerns
  obtain ⟨text, hhash, hrun⟩ := exists_createStoring hsorted hnamed hsets dir
  refine ⟨secret, text, hsets.given, hhash, ?_⟩
  rw [landing_of_named hnamed]
  show p.StoresOnly dn dn (fun _ => False) text dir (dir.run (p.create entryClass attributes))
  rw [hrun]
  exact storesOnly_createStoring hapart entryClass hsets.named text dir

theorem storesHash_update {entryClass : EntryClass} {uid : String}
    {attributes : List InputAttribute} (hapart : p.KeepsPasswordApart)
    (hconcerns : (Operation.update entryClass uid attributes).Concerns p dir dn input)
    (hsets : p.SetsPassword dn input secret) :
    (Operation.update entryClass uid attributes).StoresHash p dir dn input := by
  obtain ⟨hresolve, hsorted⟩ := hconcerns
  obtain ⟨text, hhash, hrun⟩ :=
    exists_updateStoring hsorted (Directory.run_of_result hresolve) hsets
  refine ⟨secret, text, hsets.given, hhash, ?_⟩
  show p.StoresOnly _ _ (p.PolicySends input) text dir
    (dir.run (p.update entryClass uid attributes))
  rw [hrun p.supply.salt]
  have hopened := (p.keeps_unwritten_resolve entryClass uid dir).1
  generalize (dir.run (p.resolve entryClass uid)).2 = opened at hopened
  exact (storesOnly_updateStoring hapart entryClass input.withoutPassword hsets.unsent hsets.named
    hsets.renamed text opened).of_entries hopened

end Provisioner

/-- Two runs that differ in a password conceal it: what they show is the same, and what they store
of it is a hash. -/
structure Conceals (p p' : Provisioner) (op op' : Operation) (dir : Directory) : Prop where
  /-- An operation without an entry, or with malformed input, ends in the same way and writes
  nothing. -/
  refused : (∀ dn input, ¬ op.Concerns p dir dn input) →
    dir.run (op.run p) = dir.run (op'.run p') ∧ dir.Unwritten (dir.run (op.run p)).2
  /-- Otherwise both are about the same entry, and ask the same of it besides the password. -/
  concerns (dn : Dn) (input : Input) : op.Concerns p dir dn input →
    ∃ input', op'.Concerns p' dir dn input' ∧ input'.withoutPassword = input.withoutPassword
  /-- They end alike, but for the password attribute of this entry. -/
  alike (dn : Dn) (input : Input) : op.Concerns p dir dn input →
    EndsAlike (Provisioner.landing dn (Provisioner.renameFor? dn input.name))
      p.configuration.passwordAttribute (dir.run (op.run p)) (dir.run (op'.run p'))
  first (dn : Dn) (input : Input) : op.Concerns p dir dn input → op.StoresHash p dir dn input
  second (dn : Dn) (input : Input) : op'.Concerns p' dir dn input → op'.StoresHash p' dir dn input

namespace Provisioner

variable {p : Provisioner} {dir : Directory} {salt : Nat → List UInt8}

theorem sorted_alike {mode : InputMode} {as bs : List InputAttribute} {input : Input}
    (halike : List.Forall₂ InputAttribute.AlikeButPassword as bs)
    (hsorted : Input.partition mode as = .ok input) :
    ∃ input', Input.partition mode bs = .ok input' ∧
      input'.withoutPassword = input.withoutPassword := by
  have hmap := Input.partition_alike mode halike
  rw [hsorted] at hmap
  cases hother : Input.partition mode bs with
  | error e =>
    rw [hother] at hmap
    cases hmap
  | ok input' =>
    rw [hother] at hmap
    exact ⟨input', rfl, (Except.ok.inj hmap).symm⟩

theorem unsorted_alike {mode : InputMode} {as bs : List InputAttribute} {e : ValidationError}
    (halike : List.Forall₂ InputAttribute.AlikeButPassword as bs)
    (hunsorted : Input.partition mode as = .error e) : Input.partition mode bs = .error e := by
  have hmap := Input.partition_alike mode halike
  rw [hunsorted] at hmap
  cases hother : Input.partition mode bs with
  | error e' =>
    rw [hother] at hmap
    exact congrArg Except.error (Except.error.inj hmap).symm
  | ok input' =>
    rw [hother] at hmap
    cases hmap

theorem create_refused {entryClass : EntryClass} {as bs : List InputAttribute}
    (halike : List.Forall₂ InputAttribute.AlikeButPassword as bs)
    (hnone : ∀ dn input, ¬ (Operation.create entryClass as).Concerns p dir dn input) :
    dir.run (p.create entryClass as) = dir.run ((p.withSalts salt).create entryClass bs) ∧
      dir.Unwritten (dir.run (p.create entryClass as)).2 := by
  unfold create
  cases hsorted : Input.partition .create as with
  | error e =>
    rw [unsorted_alike halike hsorted, run_ofInput_error, run_ofInput_error]
    exact ⟨rfl, Directory.unwritten_frame.refl dir⟩
  | ok input =>
    obtain ⟨input', hsorted', hinput⟩ := sorted_alike halike hsorted
    have hname := Input.name_of_withoutPassword hinput
    rw [hsorted', run_ofInput_sorted, run_ofInput_sorted, hname]
    cases hnamed : input.name with
    | none =>
      rw [run_ofInput_error, run_ofInput_error]
      exact ⟨rfl, Directory.unwritten_frame.refl dir⟩
    | some dn => exact absurd ⟨hsorted, hnamed⟩ (hnone dn input)

theorem update_refused {entryClass : EntryClass} {uid : String} {as bs : List InputAttribute}
    (halike : List.Forall₂ InputAttribute.AlikeButPassword as bs)
    (hnone : ∀ dn input, ¬ (Operation.update entryClass uid as).Concerns p dir dn input) :
    dir.run (p.update entryClass uid as) = dir.run ((p.withSalts salt).update entryClass uid bs) ∧
      dir.Unwritten (dir.run (p.update entryClass uid as)).2 := by
  have hquiet := p.keeps_unwritten_resolve entryClass uid dir
  have hresolve : dir.run ((p.withSalts salt).resolve entryClass uid) =
      dir.run (p.resolve entryClass uid) := rfl
  unfold update
  rw [Directory.run_bind, Directory.run_bind, hresolve]
  cases hrun : dir.run (p.resolve entryClass uid) with
  | mk result opened =>
    rw [hrun] at hquiet
    cases result with
    | error e => exact ⟨rfl, hquiet⟩
    | ok dn =>
      cases hsorted : Input.partition .update as with
      | error e =>
        rw [unsorted_alike halike hsorted]
        dsimp only
        rw [run_ofInput_error, run_ofInput_error]
        exact ⟨rfl, hquiet⟩
      | ok input => exact absurd ⟨by rw [hrun], hsorted⟩ (hnone dn input)

/-- What creations do with a password. -/
theorem create_conceals (salt : Nat → List UInt8) (hapart : p.KeepsPasswordApart)
    (entryClass : EntryClass) {as bs : List InputAttribute}
    (halike : List.Forall₂ InputAttribute.AlikeButPassword as bs)
    (hsets : ∀ dn input, (Operation.create entryClass as).Concerns p dir dn input →
      ∃ secret, p.SetsPassword dn input secret)
    (hsets' : ∀ dn input, (Operation.create entryClass bs).Concerns p dir dn input →
      ∃ secret, p.SetsPassword dn input secret) :
    Conceals p (p.withSalts salt) (.create entryClass as) (.create entryClass bs) dir where
  refused := create_refused halike
  concerns dn input hconcerns := by
    obtain ⟨input', hsorted', hinput⟩ := sorted_alike halike hconcerns.1
    have hname := Input.name_of_withoutPassword hinput
    exact ⟨input', ⟨hsorted', hname.trans hconcerns.2⟩, hinput⟩
  alike dn input hconcerns := by
    obtain ⟨input', hsorted', hinput⟩ := sorted_alike halike hconcerns.1
    have hname := Input.name_of_withoutPassword hinput
    have hconcerns' : (Operation.create entryClass bs).Concerns p dir dn input' :=
      ⟨hsorted', hname.trans hconcerns.2⟩
    obtain ⟨secret, hset⟩ := hsets dn input hconcerns
    obtain ⟨secret', hset'⟩ := hsets' dn input' hconcerns'
    obtain ⟨text, -, hrun⟩ := exists_createStoring hconcerns.1 hconcerns.2 hset dir
    obtain ⟨text', -, hrun'⟩ := exists_createStoring hconcerns'.1 hconcerns'.2
      (hset'.withSalts salt) dir
    rw [landing_of_named hconcerns.2]
    show EndsAlike dn _ (dir.run (p.create entryClass as))
      (dir.run ((p.withSalts salt).create entryClass bs))
    rw [hrun, hrun', hinput]
    exact endsAlike_createStoring hapart entryClass dn input.withoutPassword text text' dir
  first dn input hconcerns := by
    obtain ⟨secret, hset⟩ := hsets dn input hconcerns
    exact storesHash_create hapart hconcerns hset
  second dn input hconcerns := by
    obtain ⟨secret, hset⟩ := hsets' dn input hconcerns
    exact storesHash_create (hapart.withSalts salt) hconcerns (hset.withSalts salt)

/-- What updates do with a password. -/
theorem update_conceals (salt : Nat → List UInt8) (hapart : p.KeepsPasswordApart)
    (entryClass : EntryClass) (uid : String) {as bs : List InputAttribute}
    (halike : List.Forall₂ InputAttribute.AlikeButPassword as bs)
    (hsets : ∀ dn input, (Operation.update entryClass uid as).Concerns p dir dn input →
      ∃ secret, p.SetsPassword dn input secret)
    (hsets' : ∀ dn input, (Operation.update entryClass uid bs).Concerns p dir dn input →
      ∃ secret, p.SetsPassword dn input secret) :
    Conceals p (p.withSalts salt) (.update entryClass uid as) (.update entryClass uid bs) dir where
  refused := update_refused halike
  concerns dn input hconcerns := by
    obtain ⟨input', hsorted', hinput⟩ := sorted_alike halike hconcerns.2
    exact ⟨input', ⟨hconcerns.1, hsorted'⟩, hinput⟩
  alike dn input hconcerns := by
    obtain ⟨input', hsorted', hinput⟩ := sorted_alike halike hconcerns.2
    obtain ⟨secret, hset⟩ := hsets dn input hconcerns
    obtain ⟨secret', hset'⟩ := hsets' dn input' ⟨hconcerns.1, hsorted'⟩
    have hresolve := Directory.run_of_result hconcerns.1
    obtain ⟨text, -, hrun⟩ := exists_updateStoring hconcerns.2 hresolve hset
    have hresolve' : dir.run ((p.withSalts salt).resolve entryClass uid) = (.ok dn, _) := hresolve
    obtain ⟨text', -, hrun'⟩ := exists_updateStoring hsorted' hresolve' (hset'.withSalts salt)
    show EndsAlike _ _ (dir.run (p.update entryClass uid as))
      (dir.run ((p.withSalts salt).update entryClass uid bs))
    rw [hrun salt, hrun' salt, hinput]
    exact endsAlike_updateStoring (hapart.withSalts salt) entryClass dn input.withoutPassword text
      text' _
  first dn input hconcerns := by
    obtain ⟨secret, hset⟩ := hsets dn input hconcerns
    exact storesHash_update hapart hconcerns hset
  second dn input hconcerns := by
    obtain ⟨secret, hset⟩ := hsets' dn input hconcerns
    exact storesHash_update (hapart.withSalts salt) hconcerns (hset.withSalts salt)

end Provisioner

/-- **Passwords do not leak.** Creations and updates with passwords that can be stored conceal them,
if the password attribute is used for nothing else. -/
theorem run_conceals_password {p : Provisioner} {op op' : Operation} {dir : Directory}
    (salt : Nat → List UInt8) (hapart : p.KeepsPasswordApart) (halike : op.AlikeButPassword op')
    (hsets : ∀ dn input, op.Concerns p dir dn input → ∃ secret, p.SetsPassword dn input secret)
    (hsets' : ∀ dn input, op'.Concerns p dir dn input → ∃ secret, p.SetsPassword dn input secret) :
    Conceals p (p.withSalts salt) op op' dir := by
  cases op with
  | create entryClass as =>
    cases op' with
    | create entryClass' bs =>
      obtain ⟨rfl, hinputs⟩ := halike
      exact p.create_conceals salt hapart entryClass hinputs hsets hsets'
    | _ => exact halike.elim
  | update entryClass uid as =>
    cases op' with
    | update entryClass' uid' bs =>
      obtain ⟨rfl, rfl, hinputs⟩ := halike
      exact p.update_conceals salt hapart entryClass uid hinputs hsets hsets'
    | _ => exact halike.elim
  | _ => exact halike.elim

namespace Sample

/-- The input that renames the entry, gives it a password and lets it join the group. -/
def annWithPassword (password : String) : List InputAttribute :=
  [⟨"__NAME__", [.text "cn=anna,dc=x"]⟩, ⟨"__PASSWORD__", [.text password]⟩,
    ⟨"ldapGroups", [.text "cn=team,dc=x"]⟩]

/-- The input as it is sorted. -/
def annWithSecret (password : String) : Input :=
  { name := some (name "cn" "anna"), requests := { static := .replace [name "cn" "team"] },
    password := some ⟨Text.octets password⟩ }

theorem provisioner_apart : provisioner.KeepsPasswordApart where
  member kind := by cases kind <;> decide +kernel
  uid entryClass := by
    cases entryClass <;> exact (by decide +kernel : ¬ Text.same "entryDN" "userPassword" = true)
  objectClass := by decide +kernel
  mandatory := by decide +kernel
  server := by decide +kernel

theorem annRenamed_leafValues :
    (Provisioner.landing (name "cn" "ann") (Provisioner.renameFor? (name "cn" "ann")
      (some (name "cn" "anna")))).leafValues "userPassword" = [] := by
  decide +kernel

theorem annWithPassword_sets (password : String)
    (hsorted : Input.partition .update (annWithPassword password) = .ok (annWithSecret password))
    (dn : Dn) (input : Input)
    (hconcerns : (Operation.update .account "cn=ann,dc=x" (annWithPassword password)).Concerns
      provisioner annBesideTeam dn input) :
    ∃ secret, provisioner.SetsPassword dn input secret := by
  have hresolve : (annBesideTeam.run (provisioner.resolve .account "cn=ann,dc=x")).1 =
      .ok (name "cn" "ann") := by decide +kernel
  obtain ⟨hresolve', hsorted'⟩ := hconcerns
  cases hresolve.symm.trans hresolve'
  cases hsorted.symm.trans hsorted'
  exact ⟨⟨Text.octets password⟩,
    { given := rfl
      chosen := rfl
      hashes := ⟨password, [], Text.ofOctets?_octets password⟩
      unsent := rfl
      named := by decide +kernel
      renamed := annRenamed_leafValues }⟩

/-- Two updates with different passwords show the same, and store the one or the other. -/
theorem ann_conceals_password :
    Conceals provisioner (provisioner.withSalts fun _ => [1])
        (.update .account "cn=ann,dc=x" (annWithPassword "secret"))
        (.update .account "cn=ann,dc=x" (annWithPassword "other")) annBesideTeam ∧
      (annBesideTeam.run (provisioner.update .account "cn=ann,dc=x"
        (annWithPassword "secret"))).2.valuesAt (name "cn" "anna") "userPassword" = ["secret"] ∧
      (annBesideTeam.run ((provisioner.withSalts fun _ => [1]).update .account "cn=ann,dc=x"
        (annWithPassword "other"))).2.valuesAt (name "cn" "anna") "userPassword" = ["other"] := by
  refine ⟨?_, by decide +kernel, by decide +kernel⟩
  refine run_conceals_password _ provisioner_apart ⟨rfl, rfl, ?_⟩ ?_ ?_
  · exact .cons (.inl rfl) (.cons (.inr ⟨_, _, by decide +kernel, by decide +kernel, rfl, rfl⟩)
      (.cons (.inl rfl) .nil))
  · exact annWithPassword_sets "secret" (by decide +kernel)
  · exact annWithPassword_sets "other" (by decide +kernel)

/-- The provisioner whose status policy marks disabled entries in the password attribute. -/
def marking : Provisioner :=
  { provisioner with
    status := fun enabled sent =>
      if enabled then sent else (sent.1.put "userPassword" ["!"], sent.2) }

/-- The input that disables the entry, and asks for a password and for a name that is taken. -/
def annDisabled : List InputAttribute :=
  [⟨"__ENABLE__", [.boolean false]⟩, ⟨"__PASSWORD__", [.text "secret"]⟩,
    ⟨"__NAME__", [.text "cn=team,dc=x"]⟩]

/-- The input as it is sorted. -/
def annDisabledSecret : Input :=
  { name := some (name "cn" "team"), enable := some false,
    password := some ⟨Text.octets "secret"⟩ }

theorem annDisabled_sets :
    marking.SetsPassword (name "cn" "ann") annDisabledSecret ⟨Text.octets "secret"⟩ where
  given := rfl
  chosen := rfl
  hashes := ⟨"secret", [], Text.ofOctets?_octets "secret"⟩
  unsent := rfl
  named := by decide +kernel
  renamed := by decide +kernel

/-- An update that fails before its password leaves the mark of the status policy in the password
attribute, which is no hash of the password. -/
theorem disabled_ann_keeps_mark :
    marking.configuration.check = .ok () ∧ marking.KeepsPasswordApart ∧
      (∃ input, (Operation.update .account "cn=ann,dc=x" annDisabled).Concerns marking
        annBesideTeam (name "cn" "ann") input ∧
        marking.SetsPassword (name "cn" "ann") input ⟨Text.octets "secret"⟩) ∧
      annBesideTeam.valuesAt (name "cn" "ann") "userPassword" = [] ∧
      (annBesideTeam.run (marking.update .account "cn=ann,dc=x" annDisabled)).2.valuesAt
        (name "cn" "ann") "userPassword" = ["!"] ∧
      ¬ marking.IsHashOf ⟨Text.octets "secret"⟩ "!" := by
  refine ⟨by decide +kernel, ?_, ⟨annDisabledSecret, ⟨by decide +kernel, by decide +kernel⟩,
    annDisabled_sets⟩, by decide +kernel, by decide +kernel, ?_⟩
  · exact ⟨provisioner_apart.member, provisioner_apart.uid, provisioner_apart.objectClass,
      provisioner_apart.mandatory, provisioner_apart.server⟩
  · rintro ⟨salt, hsalt⟩
    have hplain : Password.hashWithSalt? marking.algorithm (Text.octets "secret") salt =
        Text.ofOctets? (Text.octets "secret") := rfl
    rw [hplain, Text.ofOctets?_octets] at hsalt
    exact absurd (Option.some.inj hsalt) (by decide)

end Sample

end Roster
