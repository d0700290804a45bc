import Vizra.Authz.Matrix
import Vizra.Authz.Proofs.DecideProofs

/-!
# The evaluator is the union of the matrix rows

The twelve precedence shapes of `Decide` each stand for several rows. `kindClasses` lists the viewer
classes a shape allows at a visibility: the rows of the matrix are those of their shapes
(`allows_iff_kind`), and a shape allows exactly the members of its classes (`kindAllows_iff`).
-/

namespace Vizra.Authz

variable {e : Evaluator} {s : Subject} {r : Resource} {a : Action} {vis : Visibility}

def everyone : List ViewerClass := [.anonymous, .member, .grantee, .owner, .staff]

def kindClasses : SurfaceKind → Visibility → List ViewerClass
  | .direct, .priv | .download, .priv => [.grantee, .owner, .staff]
  | .direct, _ | .download, _ | .directNoPrivate, .pub | .directNoPrivate, .unlisted => everyone
  | .directNoPrivate, .priv => []
  | .aggregate, .priv => [.owner, .staff]
  | .aggregate, _ | .listing, .pub | .listingIPFS, .pub | .search, .pub => everyone
  | .listing, _ | .listingIPFS, _ | .search, _ => []
  | .ownerScoped, _ => [.owner, .staff]
  | .staffOnly, _ => [.staff]
  | .exports, _ => [.owner]
  | .album, .pub | .count, .pub => everyone
  | .album, _ | .count, _ => [.grantee, .owner, .staff]

/-- The matrix row of a surface is the row of its shape. -/
theorem allows_iff_kind (a : Action) (v : Visibility) (c : ViewerClass) :
    matrixCell a v c = some .allow ↔ c ∈ kindClasses (kindOf a) v := by
  cases a <;> cases v <;> cases c <;> decide

/-- Some class of the subject is allowed by the row. -/
def AllowedByRow (s : Subject) (r : Resource) (a : Action) (v : Visibility) : Prop :=
  ∃ c : ViewerClass, c.includes s r = true ∧ matrixCell a v c = some .allow

theorem allowedByRow_iff {v : Visibility} :
    AllowedByRow s r a v ↔ ∃ c ∈ kindClasses (kindOf a) v, c.includes s r = true := by
  unfold AllowedByRow
  constructor
  · rintro ⟨c, hc, hcell⟩
    exact ⟨c, (allows_iff_kind a v c).mp hcell, hc⟩
  · rintro ⟨c, hmem, hc⟩
    exact ⟨c, hc, (allows_iff_kind a v c).mpr hmem⟩

/-! ## The shapes -/

theorem exists_everyone : ∃ c ∈ everyone, c.includes s r = true :=
  ⟨.anonymous, by simp [everyone], rfl⟩

theorem permits_of_base (h : BaseConditions s a r) (owner staff : Bool) :
    downloadSettingPermits s r owner staff = true := by
  have hset : DownloadSetting.of r.downloadSetting = some .all := by
    rcases h.download with hd | hd <;> rw [hd] <;> decide
  unfold downloadSettingPermits
  rw [hset]
  split <;> rfl

@[simp] theorem includes_grantee : ViewerClass.grantee.includes s r = s.hasGrant := rfl

@[simp] theorem includes_owner : ViewerClass.owner.includes s r = isOwner s r := rfl

@[simp] theorem includes_staff : ViewerClass.staff.includes s r = isStaff s := rfl

/-- The classes that a shape for private media allows. -/
theorem grantee_privileged : s.hasGrant = true ∨ isOwner s r = true ∨ isStaff s = true ↔
    Privileged s r ∨ s.hasGrant = true := or_comm

theorem kindAllows_iff (h : BaseConditions s a r) (hk : kindOf a ≠ .album) :
    KindAllows s a r vis (kindOf a) ↔ ∃ c ∈ kindClasses (kindOf a) vis, c.includes s r = true := by
  cases hkind : kindOf a with
  | album => exact absurd hkind hk
  | staffOnly => simp [KindAllows, kindClasses]
  | ownerScoped => simp [KindAllows, kindClasses, Privileged]
  | exports =>
    have hsite : ¬ (s.staff = true ∧ Role.of s.role = some .owner) := by
      rintro ⟨hstaff, hrole⟩
      exact h.siteOwner (kindOf_exports hkind) ⟨hstaff, (Role.of_iff.mp hrole).symm⟩
    simp [KindAllows, kindClasses, hsite]
  | count =>
    cases vis with
    | pub => simp [KindAllows, kindClasses, exists_everyone]
    | unlisted | priv => simp [KindAllows, kindClasses, grantee_privileged]
  | listing | listingIPFS =>
    cases vis with
    | pub => simp [KindAllows, kindClasses, exists_everyone, h.ipfs]
    | unlisted | priv => simp [KindAllows, kindClasses]
  | search =>
    cases vis with
    | pub => simp [KindAllows, kindClasses, exists_everyone]
    | unlisted | priv => simp [KindAllows, kindClasses, h.scope]
  | download =>
    have hgrant : s.hasGrant = true ∧ s.grantAllowsDownload = true ↔ s.hasGrant = true :=
      and_iff_left_of_imp h.grant
    cases vis with
    | pub | unlisted => simp [KindAllows, kindClasses, exists_everyone, permits_of_base h]
    | priv => simp [KindAllows, kindClasses, grantee_privileged, permits_of_base h, hgrant]
  | direct =>
    cases vis with
    | pub | unlisted => simp [KindAllows, kindClasses, exists_everyone]
    | priv => simp [KindAllows, kindClasses, grantee_privileged]
  | directNoPrivate =>
    cases vis with
    | pub | unlisted => simp [KindAllows, kindClasses, exists_everyone]
    | priv => simp [KindAllows, kindClasses]
  | aggregate =>
    cases vis with
    | pub | unlisted => simp [KindAllows, kindClasses, exists_everyone]
    | priv => simp [KindAllows, kindClasses, Privileged]

theorem albumAllows_iff {v : Visibility} (hcol : matrixColumn .albumPage r = some v) :
    AlbumAllows s r (AlbumPrivacy.of r.albumPrivacy) ↔
      ∃ c ∈ kindClasses .album v, c.includes s r = true := by
  rw [matrixColumn, if_pos rfl] at hcol
  cases hp : AlbumPrivacy.of r.albumPrivacy with
  | none => simp [hp] at hcol
  | some privacy =>
    rw [hp] at hcol
    cases privacy with
    | pub =>
      cases hcol
      simp [AlbumAllows, kindClasses, exists_everyone]
    | link | priv =>
      cases hcol
      simp [AlbumAllows, kindClasses, grantee_privileged]
    | password => cases hcol

/-! ## Default deny -/

theorem decide_unrecognised {action : String} (h : action ∉ actions.map Action.text ∨
    r.visibility ∉ [Visibility.pub, .unlisted, .priv].map Visibility.text) :
    (e.decide s action r).1 = .deny := by
  cases hd : (e.decide s action r).1 with
  | deny => rfl
  | allow =>
    obtain ⟨-, a, vis, ha, hvis, -⟩ := decide_allow_iff.mp hd
    rcases h with h | h
    · have hnone : Action.of action = none := recognise_eq_none h
      rw [hnone] at ha
      cases ha
    · have hnone : Visibility.of r.visibility = none := recognise_eq_none h
      rw [hnone] at hvis
      cases hvis

/-- On a public site and under the base conditions of the matrix, a frozen surface is allowed exactly to
the members of the classes that its row allows; everything outside the matrix is denied. -/
theorem decide_iff_matrix :
    (∀ (s : Subject) (a : Action) (r : Resource) (v : Visibility), BaseConditions s a r →
      matrixColumn a r = some v →
      ((Evaluator.decide { sitePrivate := false } s a.text r).1 = .allow ↔
        ∃ c : ViewerClass, c.includes s r = true ∧ matrixCell a v c = some .allow)) ∧
    ∀ (e : Evaluator) (s : Subject) (action : String) (r : Resource),
      action ∉ actions.map Action.text ∨
        r.visibility ∉ [Visibility.pub, .unlisted, .priv].map Visibility.text →
      (e.decide s action r).1 = .deny := by
  refine ⟨?_, fun e s action r h => decide_unrecognised h⟩
  intro s a r v hbase hcol
  have hact : Action.of a.text = some a := Action.of_iff.mpr rfl
  obtain ⟨vis, hvis⟩ := Option.ne_none_iff_exists'.mp hbase.visibility
  have hdecide : (Evaluator.decide { sitePrivate := false } s a.text r).1 = .allow ↔
      KindAllows s a r vis (kindOf a) := by
    rw [decide_allow_iff]
    simp [hact, hvis]
  rw [hdecide]
  refine Iff.trans ?_ allowedByRow_iff.symm
  by_cases hk : kindOf a = .album
  · obtain rfl := kindOf_album hk
    exact albumAllows_iff hcol
  · have hne : a ≠ .albumPage := by
      rintro rfl
      exact hk rfl
    rw [matrixColumn, if_neg hne, hvis] at hcol
    cases hcol
    exact kindAllows_iff hbase hk

/-- A manager in an audited context, who also has a grant, on a private original. -/
theorem decide_iff_matrix_mixed :
    (Evaluator.decide { sitePrivate := false }
      { userID := "u2", role := "manager", staff := true, hasGrant := true, grantAllowsDownload := true }
      Action.originalDownload.text
      { ownerID := "u1", visibility := "private", albumPrivacy := "", downloadSetting := "", scope := "site"
        ownerAllowsIPFS := true }).1 = .allow := by
  refine (decide_iff_matrix.1 _ _ _ .priv ⟨?_, ?_, ?_, ?_, ?_, ?_⟩ (by decide)).mpr
    ⟨.grantee, by decide, by decide⟩ <;> decide

end Vizra.Authz
