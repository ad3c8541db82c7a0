import Mathlib.Data.List.Forall2
import Roster.Proofs.Runs

/-!
# Two runs side by side

Two computations over directories can be compared without a word about what they do in detail: from
directories that are related both fail, or both succeed with related results and leave directories that
are related again (`Tracks`). The relation goes through the sequencing of computations (`Tracks.bind`),
and the relation between the directories may change on the way. `TracksCached` is the same for
computations with caches, which the two runs share.
-/

namespace Roster

variable {ε ε' α β γ δ : Type}

/-! ## Two runs side by side -/

/-- Two results are both failures, or both successes that are related. -/
inductive Agree (R : α → β → Prop) : Except ε α → Except ε' β → Prop
  | ok {a : α} {b : β} : R a b → Agree R (.ok a) (.ok b)
  | error (e : ε) (e' : ε') : Agree R (.error e) (.error e')

theorem Agree.mono {R S : α → β → Prop} {x : Except ε α} {x' : Except ε' β} (h : Agree R x x')
    (hRS : ∀ a b, R a b → S a b) : Agree S x x' := by
  cases h with
  | ok h => exact .ok (hRS _ _ h)
  | error e e' => exact .error e e'

theorem Agree.bind {R : α → β → Prop} {S : γ → δ → Prop} {x : Except ε α} {x' : Except ε' β}
    {f : α → Except ε γ} {f' : β → Except ε' δ} (hx : Agree R x x')
    (hf : ∀ a b, R a b → Agree S (f a) (f' b)) : Agree S (x >>= f) (x' >>= f') := by
  cases hx with
  | ok h => exact hf _ _ h
  | error e e' => exact .error e e'

theorem Agree.of_exists_iff {x : Except ε α} {x' : Except ε' β}
    (h : (∃ a, x = .ok a) ↔ ∃ b, x' = .ok b) : Agree (fun _ _ => True) x x' := by
  cases x with
  | ok a =>
    obtain ⟨b, rfl⟩ := h.1 ⟨a, rfl⟩
    exact .ok trivial
  | error e =>
    cases x' with
    | ok b =>
      obtain ⟨a, ha⟩ := h.2 ⟨b, rfl⟩
      cases ha
    | error e' => exact .error e e'

/-- From directories that are related by `D`, two computations both fail, or both succeed with related
results and leave directories that are related by `D'`. -/
def Tracks (D D' : Directory → Directory → Prop) (R : α → β → Prop)
    (x : ExceptT ε (StateM Directory) α) (x' : ExceptT ε' (StateM Directory) β) : Prop :=
  ∀ ⦃dir dir' : Directory⦄, D dir dir' →
    Agree (fun a b => R a b ∧ D' (dir.run x).2 (dir'.run x').2) (dir.run x).1 (dir'.run x').1

namespace Tracks

variable {D D' D'' : Directory → Directory → Prop} {R : α → β → Prop} {S : γ → δ → Prop}

theorem refl (x : ExceptT ε (StateM Directory) α) : Tracks Eq Eq Eq x x := by
  rintro dir _ rfl
  cases (dir.run x).1 with
  | ok a => exact .ok ⟨rfl, rfl⟩
  | error e => exact .error e e

theorem pure {a : α} {b : β} (h : R a b) :
    Tracks D D R (Pure.pure a : ExceptT ε (StateM Directory) α)
      (Pure.pure b : ExceptT ε' (StateM Directory) β) :=
  fun _ _ hdir => .ok ⟨h, hdir⟩

theorem throw (e : ε) (e' : ε') :
    Tracks D D' R (MonadExcept.throw e : ExceptT ε (StateM Directory) α)
      (MonadExcept.throw e' : ExceptT ε' (StateM Directory) β) :=
  fun _ _ _ => .error e e'

theorem bind {x : ExceptT ε (StateM Directory) α} {x' : ExceptT ε' (StateM Directory) β}
    {f : α → ExceptT ε (StateM Directory) γ} {f' : β → ExceptT ε' (StateM Directory) δ}
    (hx : Tracks D D' R x x') (hf : ∀ a b, R a b → Tracks D' D'' S (f a) (f' b)) :
    Tracks D D'' S (x >>= f) (x' >>= f') := by
  intro dir dir' hdir
  have hfirst := hx hdir
  rw [Directory.run_bind, Directory.run_bind]
  cases hrun : dir.run x with
  | mk result after =>
    cases hrun' : dir'.run x' with
    | mk result' after' =>
      rw [hrun, hrun'] at hfirst
      cases hfirst with
      | ok h => exact hf _ _ h.1 h.2
      | error e e' => exact .error e e'

/-- What comes after a computation that both runs begin with. -/
theorem after (x : ExceptT ε (StateM Directory) α) {f : α → ExceptT ε (StateM Directory) γ}
    {f' : α → ExceptT ε (StateM Directory) δ} (hf : ∀ a, Tracks Eq D' S (f a) (f' a)) :
    Tracks Eq D' S (x >>= f) (x >>= f') :=
  (refl x).bind fun a _ h => h ▸ hf a

theorem mono {D₁ D₂ : Directory → Directory → Prop} {R' : α → β → Prop}
    {x : ExceptT ε (StateM Directory) α} {x' : ExceptT ε' (StateM Directory) β}
    (hx : Tracks D D' R x x') (hD : ∀ {dir dir'}, D₁ dir dir' → D dir dir')
    (hD' : ∀ {dir dir'}, D' dir dir' → D₂ dir dir') (hR : ∀ {a b}, R a b → R' a b) :
    Tracks D₁ D₂ R' x x' :=
  fun _ _ hdir => (hx (hD hdir)).mono fun _ _ h => ⟨hR h.1, hD' h.2⟩

theorem lift {x : Directory.Action α} {x' : Directory.Action β} (hx : Tracks D D' R x x') :
    Tracks D D' R (liftM x : Provisioner.Action α) (liftM x' : Provisioner.Action β) := by
  intro dir dir' hdir
  have h := hx hdir
  rw [Directory.run_lift, Directory.run_lift]
  cases hrun : dir.run x with
  | mk result after =>
    cases hrun' : dir'.run x' with
    | mk result' after' =>
      rw [hrun, hrun'] at h
      cases h with
      | ok h => exact .ok h
      | error e e' => exact .error _ _

variable {xs : List α} {ys : List β}

theorem forM {f : α → ExceptT ε (StateM Directory) Unit} {f' : β → ExceptT ε' (StateM Directory) Unit}
    (hxs : List.Forall₂ R xs ys) (hf : ∀ a b, R a b → Tracks D D Eq (f a) (f' b)) :
    Tracks D D Eq (xs.forM f) (ys.forM f') := by
  induction hxs with
  | nil => exact pure rfl
  | cons h _ ih => exact (hf _ _ h).bind fun _ _ _ => ih

theorem mapM {f : α → ExceptT ε (StateM Directory) γ} {f' : β → ExceptT ε' (StateM Directory) δ}
    (hxs : List.Forall₂ R xs ys) (hf : ∀ a b, R a b → Tracks D D S (f a) (f' b)) :
    Tracks D D (List.Forall₂ S) (xs.mapM f) (ys.mapM f') := by
  induction hxs with
  | nil => exact pure .nil
  | cons h _ ih =>
    rw [List.mapM_cons, List.mapM_cons]
    exact (hf _ _ h).bind fun _ _ hhead => ih.bind fun _ _ htail => pure (.cons hhead htail)

theorem ofInput {checked : Except ValidationError α} {checked' : Except ValidationError β}
    (h : Agree R checked checked') :
    Tracks D D R (Provisioner.ofInput checked) (Provisioner.ofInput checked') := by
  cases h with
  | ok h => exact pure h
  | error e e' => exact throw _ _

end Tracks

/-! ## Computations with caches -/

open Provisioner (Cached Caches)

/-- With the same caches, two computations from one directory both fail, or both succeed with related
results and leave the same directory and the same caches. -/
def TracksCached (R : α → β → Prop) (x : Cached α) (x' : Cached β) : Prop :=
  ∀ caches : Caches, Tracks Eq Eq (fun a b => R a.1 b.1 ∧ a.2 = b.2) (x.run caches) (x'.run caches)

namespace TracksCached

variable {R : α → β → Prop} {S : γ → δ → Prop}

theorem refl (x : Cached α) : TracksCached Eq x x :=
  fun caches => (Tracks.refl (x.run caches)).mono id id fun h => h ▸ ⟨rfl, rfl⟩

theorem pure {a : α} {b : β} (h : R a b) :
    TracksCached R (Pure.pure a : Cached α) (Pure.pure b : Cached β) :=
  fun _ => Tracks.pure ⟨h, rfl⟩

theorem bind {x : Cached α} {x' : Cached β} {f : α → Cached γ} {f' : β → Cached δ}
    (hx : TracksCached R x x') (hf : ∀ a b, R a b → TracksCached S (f a) (f' b)) :
    TracksCached S (x >>= f) (x' >>= f') := by
  intro caches
  rw [StateT.run_bind, StateT.run_bind]
  refine (hx caches).bind ?_
  rintro ⟨a, now⟩ ⟨b, _⟩ ⟨h, rfl⟩
  exact hf a b h now

theorem after (x : Cached α) {f : α → Cached γ} {f' : α → Cached δ}
    (hf : ∀ a, TracksCached S (f a) (f' a)) : TracksCached S (x >>= f) (x >>= f') :=
  (refl x).bind fun a _ h => h ▸ hf a

theorem mapM {xs : List α} {ys : List β} {f : α → Cached γ} {f' : β → Cached δ}
    (hxs : List.Forall₂ R xs ys) (hf : ∀ a b, R a b → TracksCached S (f a) (f' b)) :
    TracksCached (List.Forall₂ S) (xs.mapM f) (ys.mapM f') := by
  induction hxs with
  | nil => exact pure .nil
  | cons h _ ih =>
    rw [List.mapM_cons, List.mapM_cons]
    exact (hf _ _ h).bind fun _ _ hhead => ih.bind fun _ _ htail => pure (.cons hhead htail)

end TracksCached

end Roster
