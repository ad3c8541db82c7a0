import Roster.Proofs.Refusals
import Mathlib.Control.Monad.Basic

/-!
# Refusals before and after a write

The plan of an update and the checks of a removal come first, so almost every refusal leaves the
directory as it was. The exception is a reference that is looked for only when the operation has
begun to write (`Operation.NoticesLate`): the reference of a renamed entry, or of an entry that just
received values. `refusal_wrote_iff_noticesLate` says that these refusals, and no others, come after
a request for a change.
-/

namespace Roster

open Directory (Unwritten Logged unwritten_frame logged_frame)
open Provisioner (Action)

variable {α : Type}

/-! ## Refusals before and after a write -/

/-- A refusal of the computation leaves the directory unwritten. -/
def RefusesUnwritten (x : Action α) : Prop :=
  ∀ (dir after : Directory) (e : ProvisioningError),
    dir.run x = (.error e, after) → e.isRefusal = true → dir.Unwritten after

/-- A refusal of the computation comes after a request for a change. -/
def RefusesWritten (x : Action α) : Prop :=
  ∀ (dir after : Directory) (e : ProvisioningError),
    dir.run x = (.error e, after) → e.isRefusal = true → dir.Wrote after

theorem NeverRefuses.elim {x : Action α} (h : NeverRefuses x) {dir after : Directory}
    {e : ProvisioningError} (hrun : dir.run x = (.error e, after))
    (hrefusal : e.isRefusal = true) {P : Prop} : P := by
  have hend := h dir
  rw [hrun] at hend
  rw [hend] at hrefusal
  cases hrefusal

theorem NeverRefuses.unwritten {x : Action α} (h : NeverRefuses x) : RefusesUnwritten x :=
  fun _ _ _ hrun hrefusal => h.elim hrun hrefusal

theorem refusesUnwritten_bind {β : Type} {x : Action α} {f : α → Action β}
    (hx : Keeps Unwritten x) (hf : ∀ a, RefusesUnwritten (f a)) : RefusesUnwritten (x >>= f) := by
  intro dir after e hrun hrefusal
  have hfirst := hx dir
  rcases Directory.run_bind_error.1 hrun with h | ⟨a, mid, h, hrest⟩
  · rw [h] at hfirst
    exact hfirst
  · rw [h] at hfirst
    exact unwritten_frame.trans hfirst (hf a mid after e hrest hrefusal)

/-- After a write everything is a late refusal. -/
theorem refusesWritten_of_wrote {x : Action α} (hx : Keeps Directory.Wrote x) :
    RefusesWritten x := by
  intro dir after e hrun _
  have h := hx dir
  rw [hrun] at h
  exact h

theorem refusesWritten_bind {β : Type} {x : Action α} {f : α → Action β}
    (hnever : NeverRefuses x) (hx : Keeps Logged x) (hf : ∀ a, RefusesWritten (f a)) :
    RefusesWritten (x >>= f) := by
  intro dir after e hrun hrefusal
  have hfirst := hx dir
  rcases Directory.run_bind_error.1 hrun with h | ⟨a, mid, h, hrest⟩
  · exact hnever.elim h hrefusal
  · rw [h] at hfirst
    exact hfirst.trans_wrote (hf a mid after e hrest hrefusal)

namespace Provisioner

theorem refusesUnwritten_create (p : Provisioner) (entryClass : EntryClass)
    (attributes : List InputAttribute) : RefusesUnwritten (p.create entryClass attributes) := by
  unfold create
  refine refusesUnwritten_bind (keeps_unwritten_ofInput _) fun input => ?_
  refine refusesUnwritten_bind (keeps_unwritten_ofInput _) fun dn => ?_
  dsimp only
  refine refusesUnwritten_bind (p.keeps_unwritten_joinings dn _ _) fun diffs => ?_
  refine refusesUnwritten_bind (p.keeps_unwritten_choosePassword input) fun _ => ?_
  refine refusesUnwritten_bind (p.keeps_unwritten_hashPassword _) fun stored => ?_
  refine NeverRefuses.unwritten (Ends.bind (neverRefuses_lift _) fun _ _ => ?_)
  refine Ends.bind (Ends.forM fun item _ => neverRefuses_lift _) fun _ _ => ?_
  exact p.neverRefuses_identify entryClass dn

theorem refusesUnwritten_removeValues (p : Provisioner) (entryClass : EntryClass) (uid : String)
    (attributes : List InputAttribute) :
    RefusesUnwritten (p.removeValues entryClass uid attributes) := by
  unfold removeValues
  refine refusesUnwritten_bind (p.keeps_unwritten_resolve entryClass uid) fun dn => ?_
  refine refusesUnwritten_bind (keeps_unwritten_ofInput _) fun input => ?_
  refine refusesUnwritten_bind (p.keeps_unwritten_hashPassword _) fun stored => ?_
  refine refusesUnwritten_bind (p.keeps_unwritten_planLeaving input _) fun ending => ?_
  exact (p.neverRefuses_sendRemoval dn uid input stored ending.1).unwritten

/-- What refuses while an update with a rename is carried out refuses after the rename. -/
theorem refusesWritten_carryOut (p : Provisioner) (plan : UpdatePlan)
    (hrename : plan.rename.isSome = true) : RefusesWritten (p.carryOut plan) := by
  unfold carryOut
  refine refusesWritten_bind (p.neverRefuses_sendItems _ _) (p.keeps_logged_modifyValues _ _ _)
    fun _ => ?_
  obtain ⟨r, hr⟩ := Option.isSome_iff_exists.1 hrename
  rw [hr]
  refine refusesWritten_of_wrote (Directory.keeps_wrote_bind ?_ fun moved =>
    logged_frame.keeps_bind (p.keeps_logged_settle plan _) fun _ => logged_frame.keeps_pure _)
  exact (Directory.keeps_wrote_rename p.supply plan.dn r.rdn r.superior).lift

end Provisioner

/-! ## Writes under a condition -/

theorem keeps_wrote_addMemberships (p : Provisioner) (kind : MembershipKind) (reference : String)
    (group : Dn) (rest : List Dn) :
    Keeps Directory.Wrote
      ((p.descriptor kind).addMemberships p.supply reference (group :: rest)) := by
  refine Directory.keeps_wrote_bind ?_ fun _ =>
    (logged_membershipFrame p).keeps_addMemberships kind reference rest
  refine Directory.keeps_wrote_tryCatch
    (Directory.keeps_wrote_modify p.supply group _) fun e => ?_
  split
  · exact logged_frame.keeps_pure _
  · exact logged_frame.keeps_throw _

namespace Directory

/-- A change was asked for between two moments if the condition holds, and nothing was written if it
does not. -/
def WroteIf (condition : Prop) (dir after : Directory) : Prop :=
  Logged dir after ∧ (condition → Wrote dir after) ∧ (¬ condition → Unwritten dir after)

variable {c d : Prop} {dir mid after : Directory}

theorem Unwritten.wroteIf (h : Unwritten dir after) (hc : ¬ c) : WroteIf c dir after :=
  ⟨h.logged, fun hyes => absurd hyes hc, fun _ => h⟩

theorem WroteIf.of_wrote (h : Wrote dir after) (hlogged : Logged dir after) (hc : c) :
    WroteIf c dir after :=
  ⟨hlogged, fun _ => h, fun hno => absurd hc hno⟩

theorem WroteIf.trans (h : WroteIf c dir mid) (h' : WroteIf d mid after) :
    WroteIf (c ∨ d) dir after := by
  refine ⟨logged_frame.trans h.1 h'.1, ?_, fun hnot => ?_⟩
  · rintro (hc | hd)
    · exact (h.2.1 hc).trans_logged h'.1
    · exact h.1.trans_wrote (h'.2.1 hd)
  · rw [not_or] at hnot
    exact unwritten_frame.trans (h.2.2 hnot.1) (h'.2.2 hnot.2)

theorem WroteIf.congr (h : WroteIf c dir after) (hcd : c ↔ d) : WroteIf d dir after :=
  ⟨h.1, fun hd => h.2.1 (hcd.2 hd), fun hd => h.2.2 fun hc => hd (hcd.1 hc)⟩

theorem Unwritten.trans_wroteIf (h : Unwritten dir mid) (h' : WroteIf c mid after) :
    WroteIf c dir after :=
  ((h.wroteIf not_false).trans h').congr ⟨fun h => h.resolve_left id, .inr⟩

end Directory

open Directory (WroteIf)

namespace Provisioner

/-! ## Updates -/

/-- **An update refuses before it writes, unless a deferred reference turns out to be missing.** -/
theorem update_refusal {p : Provisioner} {entryClass : EntryClass} {uid : String}
    {attributes : List InputAttribute} {dir after : Directory} {e : ProvisioningError}
    (hrun : dir.run (p.update entryClass uid attributes) = (.error e, after))
    (hrefusal : e.isRefusal = true) :
    WroteIf (∃ dn input kind, (dir.run (p.resolve entryClass uid)).1 = .ok dn ∧
      Input.partition .update attributes = .ok input ∧ e.missingKind? = some kind ∧
        p.Defers dn input kind) dir after := by
  unfold update at hrun
  rcases Directory.run_bind_error.1 hrun with h | ⟨dn, found, hresolve, hrest⟩
  · exact (p.neverRefuses_resolve entryClass uid).elim h hrefusal
  have hfound := p.keeps_unwritten_resolve entryClass uid dir
  rw [hresolve] at hfound ⊢
  cases hinput : Input.partition .update attributes with
  | error fault =>
    -- A malformed input is noticed before anything else is asked of the directory.
    rw [hinput] at hrest
    rcases Directory.run_bind_error.1 hrest with h | ⟨input, mid, h, -⟩
    · cases h
      refine hfound.wroteIf ?_
      rintro ⟨_, _, _, _, hin, _⟩
      cases hin
    · cases h
  | ok input =>
    rw [hinput] at hrest
    rcases Directory.run_bind_error.1 hrest with h | ⟨input', mid, h, hrest⟩
    · cases h
    cases h
    have hquiet := p.keeps_unwritten_planUpdate dn input (p.caches dn) found
    have hend := p.ends_planUpdate dn input (p.caches dn) found
    rcases Directory.run_bind_error.1 hrest with hplanned | ⟨plan, planned, hplan, hrest⟩
    · -- The plan itself could not be made.
      rw [hplanned] at hquiet hend
      refine (unwritten_frame.trans hfound hquiet).wroteIf ?_
      rintro ⟨_, _, kind, hdn, hin, hkind, hdefers⟩
      cases hdn
      cases hin
      exact hend kind hkind hdefers
    rcases Directory.run_bind_error.1 hrest with hsent | ⟨updated, mid, -, h⟩
    · have hsentEnd := p.ends_carryOut plan.1 planned
      have hlogged := p.keeps_logged_carryOut plan.1 planned
      rw [hplan] at hend hquiet
      rw [hsent] at hsentEnd hlogged
      obtain ⟨r, hr, hne, hkind⟩ := hsentEnd hrefusal
      obtain ⟨hrename, hdefer⟩ := hend
      have hdefers : p.Defers dn input r.kind := hdefer r hr hne
      have hwrote : planned.Wrote after :=
        p.refusesWritten_carryOut plan.1 (hrename ▸ hdefers.1) _ _ e hsent hrefusal
      exact (unwritten_frame.trans hfound hquiet).trans_wroteIf
        (.of_wrote hwrote hlogged ⟨dn, input, r.kind, rfl, rfl, hkind, hdefers⟩)
    · exact (p.neverRefuses_identify entryClass updated).elim h hrefusal

/-! ## Additions of values -/

/-- An addition of values has sent something when it comes to the groups of a kind: values, a
password or memberships of an earlier kind. -/
def SendsBefore (input : Input) (kind : MembershipKind) : Prop :=
  input.ordinary.pairs ≠ [] ∨ (input.resetPassword = true ∨ input.password.isSome = true) ∨
    ∃ earlier ∈ MembershipKind.all.takeWhile (· ≠ kind), (input.requests.get earlier).groups ≠ []

theorem wroteIf_modifyValues (p : Provisioner) (dn : Dn) (op : ModifyOp) (attrs : Attributes)
    (dir : Directory) :
    WroteIf (attrs.pairs ≠ []) dir (dir.run (p.modifyValues dn op attrs)).2 := by
  unfold modifyValues sendItems
  cases hpairs : attrs.pairs with
  | nil => exact (unwritten_frame.refl dir).wroteIf fun h => h rfl
  | cons pair rest =>
    exact .of_wrote ((Directory.keeps_wrote_modify p.supply dn _).lift dir)
      ((Directory.keeps_logged_modify p.supply dn _).lift dir) (List.cons_ne_nil pair rest)

theorem wroteIf_writePassword (p : Provisioner) (dn : Dn) (op : ModifyOp) (stored : Option String)
    (dir : Directory) :
    WroteIf (stored.isSome = true) dir (dir.run (p.writePassword dn op stored)).2 := by
  unfold writePassword
  cases stored with
  | none => exact (unwritten_frame.refl dir).wroteIf fun h => by cases h
  | some value =>
    exact .of_wrote ((Directory.keeps_wrote_modify p.supply dn _).lift dir)
      ((Directory.keeps_logged_modify p.supply dn _).lift dir) rfl

/-- Joining groups of a kind either refuses before its first request for a change, for want of the
reference, or sends such requests for all groups that are listed. -/
theorem joinGroups_refusal {p : Provisioner} {dn : Dn} {requests : GroupRequests}
    {kind : MembershipKind} {dir after : Directory} {e : ProvisioningError}
    (hrun : dir.run (p.joinGroups dn requests kind) = (.error e, after))
    (hrefusal : e.isRefusal = true) : e.missingKind? = some kind ∧ dir.Unwritten after := by
  unfold joinGroups at hrun
  dsimp only at hrun
  split at hrun
  · cases hrun
  · have hread := ((p.descriptor kind).keeps_unwritten_readReferenceValues dn).lift dir
    rcases Directory.run_bind_error.1 hrun with h | ⟨found, mid, hfound, hrest⟩
    · exact (neverRefuses_lift _).elim h hrefusal
    rw [hfound] at hread
    rcases Directory.run_bind_error.1 hrest with h | ⟨reference, mid', -, h⟩
    · have hend := p.ends_requireCanonical kind dn found mid
      have hquiet := p.keeps_unwritten_requireCanonical kind dn found mid
      rw [h] at hend hquiet
      exact ⟨hend, unwritten_frame.trans hread hquiet⟩
    · exact (neverRefuses_lift _).elim h hrefusal

theorem joinGroups_wroteIf {p : Provisioner} {dn : Dn} {requests : GroupRequests}
    {kind : MembershipKind} {dir after : Directory}
    (hrun : dir.run (p.joinGroups dn requests kind) = (.ok (), after)) :
    WroteIf ((requests.get kind).groups ≠ []) dir after := by
  have hlogged := (p.keeps_logged_joinGroups dn requests kind).of_run hrun
  unfold joinGroups at hrun
  cases hgroups : (requests.get kind).groups with
  | nil =>
    rw [hgroups] at hrun
    cases hrun
    exact (unwritten_frame.refl dir).wroteIf fun h => h rfl
  | cons group rest =>
    rw [hgroups] at hrun
    obtain ⟨found, mid, hfound, hrest⟩ := Directory.run_bind_ok.1 hrun
    obtain ⟨reference, mid', hreference, hjoin⟩ := Directory.run_bind_ok.1 hrest
    have hread := ((p.descriptor kind).keeps_unwritten_readReferenceValues dn).lift.of_run hfound
    have hrequire := (p.keeps_unwritten_requireCanonical kind dn found).of_run hreference
    have hwrote := (keeps_wrote_addMemberships p kind reference group rest).lift.of_run hjoin
    exact .of_wrote ((unwritten_frame.trans hread hrequire).logged.trans_wrote hwrote) hlogged
      (List.cons_ne_nil group rest)

theorem joinAll_wroteIf {p : Provisioner} {dn : Dn} {requests : GroupRequests}
    {kinds : List MembershipKind} {dir after : Directory}
    (hrun : dir.run (kinds.forM (p.joinGroups dn requests)) = (.ok (), after)) :
    WroteIf (∃ kind ∈ kinds, (requests.get kind).groups ≠ []) dir after := by
  induction kinds generalizing dir with
  | nil =>
    cases hrun
    refine (unwritten_frame.refl _).wroteIf ?_
    rintro ⟨_, hmem, _⟩
    cases hmem
  | cons kind kinds ih =>
    obtain ⟨_, mid, hfirst, hrest⟩ := Directory.run_bind_ok.1 hrun
    refine ((joinGroups_wroteIf hfirst).trans (ih hrest)).congr ?_
    simp only [List.mem_cons, exists_eq_or_imp]

theorem joinAll_refusal {p : Provisioner} {dn : Dn} {requests : GroupRequests}
    {dir after : Directory} {e : ProvisioningError}
    (hrun : dir.run (MembershipKind.all.forM (p.joinGroups dn requests)) = (.error e, after))
    (hrefusal : e.isRefusal = true) :
    ∃ kind, e.missingKind? = some kind ∧
      WroteIf (∃ earlier ∈ MembershipKind.all.takeWhile (· ≠ kind),
        (requests.get earlier).groups ≠ []) dir after := by
  obtain ⟨front, kind, rest, mid, hsplit, hfront, hjoin⟩ := Directory.run_forM_error hrun
  obtain ⟨hkind, hquiet⟩ := joinGroups_refusal hjoin hrefusal
  have hnodup : (front ++ kind :: rest).Nodup := hsplit ▸ (by decide)
  have hbefore : MembershipKind.all.takeWhile (· ≠ kind) = front := by
    rw [hsplit, List.takeWhile_append_of_pos, List.takeWhile_cons_of_neg, List.append_nil]
    · simp
    · intro earlier hmem
      have hne : earlier ≠ kind := (List.nodup_append.1 hnodup).2.2 earlier hmem kind
        List.mem_cons_self
      simpa using hne
  refine ⟨kind, hkind, ?_⟩
  rw [hbefore]
  refine ((joinAll_wroteIf hfront).trans (hquiet.wroteIf not_false)).congr ?_
  exact ⟨fun h => h.resolve_right id, .inl⟩

/-- What an addition of values sends is refused at the first kind of groups without a reference. -/
theorem sendValues_refusal {p : Provisioner} {dn : Dn} {input : Input} {stored : Option String}
    {uid : String} {dir after : Directory} {e : ProvisioningError}
    (hrun : dir.run (do
      p.modifyValues dn .add input.ordinary
      p.writePassword dn .add stored
      MembershipKind.all.forM (p.joinGroups dn input.requests)
      return uid) = (.error e, after))
    (hrefusal : e.isRefusal = true) :
    ∃ kind, e.missingKind? = some kind ∧
      WroteIf (input.ordinary.pairs ≠ [] ∨ stored.isSome = true ∨
        ∃ earlier ∈ MembershipKind.all.takeWhile (· ≠ kind),
          (input.requests.get earlier).groups ≠ []) dir after := by
  have hvalues := p.wroteIf_modifyValues dn .add input.ordinary dir
  rcases Directory.run_bind_error.1 hrun with h | ⟨_, sent, hsent, hrest⟩
  · exact (p.neverRefuses_sendItems dn _).elim h hrefusal
  rw [hsent] at hvalues
  have hpassword := p.wroteIf_writePassword dn .add stored sent
  rcases Directory.run_bind_error.1 hrest with h | ⟨_, written, hwritten, hrest⟩
  · exact (p.neverRefuses_writePassword dn _ _).elim h hrefusal
  rw [hwritten] at hpassword
  rcases Directory.run_bind_error.1 hrest with h | ⟨_, _, _, h⟩
  · obtain ⟨kind, hkind, hjoin⟩ := joinAll_refusal h hrefusal
    exact ⟨kind, hkind, hvalues.trans (hpassword.trans hjoin)⟩
  · cases h

/-- **An addition of values refuses before it writes, unless it has already sent something when it
finds a reference missing.** -/
theorem addValues_refusal {p : Provisioner} {entryClass : EntryClass} {uid : String}
    {attributes : List InputAttribute} {dir after : Directory} {e : ProvisioningError}
    (hrun : dir.run (p.addValues entryClass uid attributes) = (.error e, after))
    (hrefusal : e.isRefusal = true) :
    WroteIf (∃ input kind, Input.partition .values attributes = .ok input ∧
      e.missingKind? = some kind ∧ SendsBefore input kind) dir after := by
  unfold addValues at hrun
  rcases Directory.run_bind_error.1 hrun with h | ⟨dn, found, hresolve, hrest⟩
  · exact (p.neverRefuses_resolve entryClass uid).elim h hrefusal
  have hfound := p.keeps_unwritten_resolve entryClass uid dir
  rw [hresolve] at hfound
  refine hfound.trans_wroteIf ?_
  cases hinput : Input.partition .values attributes with
  | error fault =>
    rw [hinput] at hrest
    rcases Directory.run_bind_error.1 hrest with h | ⟨input, mid, h, -⟩
    · cases h
      refine (unwritten_frame.refl _).wroteIf ?_
      rintro ⟨_, _, hin, _⟩
      cases hin
    · cases h
  | ok input =>
    rw [hinput] at hrest
    rcases Directory.run_bind_error.1 hrest with h | ⟨input', mid, h, hrest⟩
    · cases h
    cases h
    -- Until the password is ready there is nothing but reading.
    rcases Directory.run_bind_error.1 hrest with h | ⟨chosen, chose, hchosen, hrest⟩
    · exact absurd (p.ends_choosePassword input _) (by rw [h]; exact id)
    have hchoose := (p.keeps_unwritten_choosePassword input).of_run hchosen
    have hgiven := (p.ends_choosePassword input).of_run_ok hchosen
    refine hchoose.trans_wroteIf ?_
    have hhash := p.keeps_unwritten_hashPassword chosen chose
    have hstored := p.ends_hashPassword chosen chose
    rcases Directory.run_bind_error.1 hrest with h | ⟨stored, hashed, h, hrest⟩
    · rw [h] at hhash hstored
      refine hhash.wroteIf ?_
      rintro ⟨_, kind, -, hkind, -⟩
      cases hstored
      cases hkind
    rw [h] at hhash hstored
    refine hhash.trans_wroteIf ?_
    obtain ⟨kind, hkind, hwrote⟩ := sendValues_refusal hrest hrefusal
    have hsome : stored.isSome = true ↔
        input.resetPassword = true ∨ input.password.isSome = true := by
      rw [show stored.isSome = chosen.isSome from hstored]
      exact hgiven
    refine hwrote.congr ⟨fun hsends => ⟨input, kind, rfl, hkind, ?_⟩, ?_⟩
    · rw [hsome] at hsends
      exact hsends
    · rintro ⟨_, kind', hin, hkind', hsends⟩
      cases hin
      cases hkind.symm.trans hkind'
      rw [hsome]
      exact hsends

end Provisioner

/-! ## All operations -/

/-- A refusal comes too late: the reference that turns out to be missing is that of an entry which
has just been renamed, or which has just received something else. -/
def Operation.NoticesLate (p : Provisioner) (dir : Directory) (e : ProvisioningError) :
    Operation → Prop
  | .create _ _ => False
  | .update entryClass uid attributes =>
    ∃ dn input kind, (dir.run (p.resolve entryClass uid)).1 = .ok dn ∧
      Input.partition .update attributes = .ok input ∧ e.missingKind? = some kind ∧
        p.Defers dn input kind
  | .addValues _ _ attributes =>
    ∃ input kind, Input.partition .values attributes = .ok input ∧
      e.missingKind? = some kind ∧ Provisioner.SendsBefore input kind
  | .removeValues _ _ _ => False

/-- **A refused operation wrote nothing, except when it noticed late, and then it did write.** -/
theorem refusal_wrote_iff_noticesLate (p : Provisioner) (op : Operation) (dir : Directory)
    (e : ProvisioningError) (hrun : (dir.run (op.run p)).1 = .error e)
    (hrefusal : e.isRefusal = true) :
    (¬ op.NoticesLate p dir e → dir.Unwritten (dir.run (op.run p)).2) ∧
      (op.NoticesLate p dir e → dir.Wrote (dir.run (op.run p)).2) := by
  have hpair : dir.run (op.run p) = (.error e, (dir.run (op.run p)).2) := Directory.run_of_result hrun
  suffices h : WroteIf (op.NoticesLate p dir e) dir (dir.run (op.run p)).2 from ⟨h.2.2, h.2.1⟩
  cases op with
  | create entryClass attributes =>
    have hquiet := p.refusesUnwritten_create entryClass attributes dir _ e hpair hrefusal
    exact hquiet.wroteIf id
  | update entryClass uid attributes => exact Provisioner.update_refusal hpair hrefusal
  | addValues entryClass uid attributes => exact Provisioner.addValues_refusal hpair hrefusal
  | removeValues entryClass uid attributes =>
    have hquiet := p.refusesUnwritten_removeValues entryClass uid attributes dir _ e hpair hrefusal
    exact hquiet.wroteIf id

namespace Sample

/-- An update that renames an entry without a `uid` and lists a group to refer to it by one. -/
def renameWithoutReference : Operation :=
  .update .account "cn=ann,dc=x"
    [⟨"__NAME__", [.text "cn=bea,dc=x"]⟩, ⟨"posixGroups", [.text "cn=team,dc=x"]⟩]

/-- The refusal of `renameWithoutReference`. -/
def missingUid : ProvisioningError :=
  .validation (.missingReference .posix "cn=bea,dc=x" "uid")

/-- A directory with an entry and a group. -/
def annAndTeam : Directory :=
  directory [(name "cn" "ann", [("cn", ["ann"])]), (name "cn" "team", [("cn", ["team"])])]

/-- The update is refused, but the entry is no longer where it was. -/
theorem renameWithoutReference_wrote :
    (annAndTeam.run (renameWithoutReference.run provisioner)).1 = .error missingUid ∧
      missingUid.isRefusal = true ∧
      Directory.entry? (annAndTeam.run (renameWithoutReference.run provisioner)).2
        (name "cn" "ann") = none ∧
      ¬ annAndTeam.Unwritten (annAndTeam.run (renameWithoutReference.run provisioner)).2 := by
  refine ⟨by decide +kernel, rfl, by decide +kernel, ?_⟩
  rintro ⟨hentries, -⟩
  exact absurd hentries (by decide +kernel)

/-- The same update without its rename: it is refused in time. -/
def listWithoutReference : Operation :=
  .update .account "cn=ann,dc=x" [⟨"posixGroups", [.text "cn=team,dc=x"]⟩]

/-- With the rename the update notices late, without it in time. -/
theorem withoutReference_wrote_iff_renamed :
    annAndTeam.Wrote (annAndTeam.run (renameWithoutReference.run provisioner)).2 ∧
      annAndTeam.Unwritten (annAndTeam.run (listWithoutReference.run provisioner)).2 := by
  constructor
  · refine (refusal_wrote_iff_noticesLate provisioner renameWithoutReference annAndTeam missingUid
      (by decide +kernel) rfl).2 ?_
    refine ⟨name "cn" "ann",
      { name := some (name "cn" "bea"), requests.posix := .replace [name "cn" "team"] },
      .posix, by decide +kernel, by decide +kernel, rfl, ?_⟩
    exact ⟨by decide +kernel, by decide +kernel, by decide +kernel⟩
  · refine (refusal_wrote_iff_noticesLate provisioner listWithoutReference annAndTeam
      (.validation (.missingReference .posix "cn=ann,dc=x" "uid")) (by decide +kernel) rfl).1 ?_
    rintro ⟨dn, input, kind, -, hinput, -, hrenamed, -⟩
    have hread : Input.partition .update [⟨"posixGroups", [.text "cn=team,dc=x"]⟩] =
        .ok { requests.posix := .replace [name "cn" "team"] } := by decide +kernel
    cases hinput.symm.trans hread
    cases hrenamed

end Sample

end Roster
