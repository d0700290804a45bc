import Vizra.Authz.Authz

/-!
# When `Decide` allows

`KindAllows` says for each of the twelve precedence shapes whom it lets in, without the order in which
the source asks. `decide_allow_iff` is the specification of `Decide`: what other modules prove about its
answer they prove from it.
-/

namespace Vizra.Authz

variable {e : Evaluator} {s : Subject} {r : Resource} {a : Action} {vis : Visibility}

/-! ## Recognised strings -/

theorem recognise_iff {α : Type} {text : α → String} {all : List α}
    (h : ∀ a, recognise text all (text a) = some a) {t : String} {a : α} :
    recognise text all t = some a ↔ text a = t := by
  constructor
  · intro ht
    have hfound := List.find?_some (p := fun a => decide (text a = t)) ht
    exact of_decide_eq_true hfound
  · rintro rfl
    exact h a

theorem recognise_eq_none {α : Type} {text : α → String} {all : List α} {t : String}
    (h : t ∉ all.map text) : recognise text all t = none := by
  unfold recognise
  rw [List.find?_eq_none]
  intro a ha htext
  exact h (List.mem_map.mpr ⟨a, ha, of_decide_eq_true htext⟩)

theorem Action.of_iff {t : String} : Action.of t = some a ↔ a.text = t :=
  recognise_iff fun a => by cases a <;> decide

theorem Visibility.of_iff {t : String} : Visibility.of t = some vis ↔ vis.text = t :=
  recognise_iff fun v => by cases v <;> decide

theorem Role.of_iff {t : String} {role : Role} : Role.of t = some role ↔ role.text = t :=
  recognise_iff fun role => by cases role <;> decide

theorem AlbumPrivacy.of_iff {t : String} {privacy : AlbumPrivacy} :
    AlbumPrivacy.of t = some privacy ↔ privacy.text = t :=
  recognise_iff fun privacy => by cases privacy <;> decide

theorem kindOf_album (h : kindOf a = .album) : a = .albumPage := by
  cases a <;> first | rfl | cases h

theorem kindOf_count (h : kindOf a = .count) : a = .countContribution := by
  cases a <;> first | rfl | cases h

theorem kindOf_exports (h : kindOf a = .exports) : a = .exports := by
  cases a <;> first | rfl | cases h

/-! ## The two attributes of a viewer -/

/-- `owner` of `Decide`. -/
def isOwner (s : Subject) (r : Resource) : Bool := r.ownerID ≠ "" && s.userID = r.ownerID

/-- `staff` of `Decide`. -/
def isStaff (s : Subject) : Bool := s.staff && atLeast s.role .manager

/-- The owner and audited staff are let in wherever a shape lets in a viewer at all. -/
def Privileged (s : Subject) (r : Resource) : Prop := isOwner s r = true ∨ isStaff s = true

def AlbumAllows (s : Subject) (r : Resource) : Option AlbumPrivacy → Prop
  | none => False
  | some .pub => True
  | some .priv | some .link | some .password => Privileged s r ∨ s.hasGrant = true

def KindAllows (s : Subject) (a : Action) (r : Resource) (vis : Visibility) : SurfaceKind → Prop
  | .staffOnly => isStaff s = true
  | .ownerScoped => Privileged s r
  | .exports => isOwner s r = true ∨ s.staff = true ∧ Role.of s.role = some .owner
  | .album => AlbumAllows s r (AlbumPrivacy.of r.albumPrivacy)
  | .count => vis = .pub ∨ Privileged s r ∨ s.hasGrant = true
  | .listing | .listingIPFS => vis = .pub ∧ (kindOf a = .listingIPFS → r.ownerAllowsIPFS = true)
  | .search => vis = .pub ∨ isOwner s r = true ∧ r.scope = scopeOwnLibrary
  | .download =>
    downloadSettingPermits s r (isOwner s r) (isStaff s) = true ∧
      (vis ≠ .priv ∨ Privileged s r ∨ s.hasGrant = true ∧ s.grantAllowsDownload = true)
  | .direct => vis ≠ .priv ∨ Privileged s r ∨ s.hasGrant = true
  | .directNoPrivate => vis ≠ .priv
  | .aggregate => vis ≠ .priv ∨ Privileged s r

theorem allow_if {c : Prop} [Decidable c] {yes : Reason} {rest : Decision × Reason} :
    (if c then (Decision.allow, yes) else rest).1 = .allow ↔ c ∨ rest.1 = .allow := by
  by_cases h : c <;> simp [h]

theorem deny_if {c : Prop} [Decidable c] {no : Reason} {rest : Decision × Reason} :
    (if c then (Decision.deny, no) else rest).1 = .allow ↔ ¬ c ∧ rest.1 = .allow := by
  by_cases h : c <;> simp [h]

theorem decideKind_allow_iff (k : SurfaceKind) :
    (decideKind s a r vis (isOwner s r) (isStaff s) k).1 = .allow ↔ KindAllows s a r vis k := by
  cases k with
  | staffOnly | exports => simp [decideKind, KindAllows, allow_if]
  | ownerScoped => simp [decideKind, KindAllows, Privileged, allow_if]
  | album =>
    unfold decideKind KindAllows
    cases AlbumPrivacy.of r.albumPrivacy with
    | none => simp [AlbumAllows]
    | some privacy => cases privacy <;> simp [AlbumAllows, Privileged, allow_if, or_assoc]
  | count => cases vis <;> simp [decideKind, KindAllows, Privileged, allow_if, or_assoc]
  | listing | listingIPFS => cases vis <;> simp [decideKind, KindAllows, deny_if]
  | search => cases vis <;> simp [decideKind, KindAllows, allow_if]
  | download =>
    unfold decideKind KindAllows
    rw [deny_if]
    cases vis with
    | pub | unlisted => simp
    | priv => cases s.hasGrant <;> simp [Privileged, allow_if, deny_if, or_assoc]
  | direct => cases vis <;> simp [decideKind, KindAllows, Privileged, allow_if, or_assoc]
  | directNoPrivate => cases vis <;> simp [decideKind, KindAllows]
  | aggregate => cases vis <;> simp [decideKind, KindAllows, Privileged, allow_if]

theorem decide_allow_iff {action : String} :
    (e.decide s action r).1 = .allow ↔ ¬ (e.sitePrivate = true ∧ s.anonymous = true) ∧
      ∃ a vis, Action.of action = some a ∧ Visibility.of r.visibility = some vis ∧
        KindAllows s a r vis (kindOf a) := by
  unfold Evaluator.decide
  rw [deny_if, Bool.and_eq_true]
  refine and_congr_right fun _ => ?_
  cases Action.of action with
  | none => simp
  | some a =>
    cases Visibility.of r.visibility with
    | none => simp
    | some vis =>
      constructor
      · intro h
        exact ⟨a, vis, rfl, rfl, (decideKind_allow_iff _).mp h⟩
      · rintro ⟨_, _, ha, hv, h⟩
        cases ha
        cases hv
        exact (decideKind_allow_iff _).mpr h

end Vizra.Authz
