import Vizra.Authz.Proofs.DecideProofs

/-!
# More authority never loses access, more privacy never grants it

All five parts are read off `decide_allow_iff`: a change of the subject or of the resource acts on
`KindAllows`, shape by shape.
-/

namespace Vizra.Authz

variable {e : Evaluator} {s s' : Subject} {r : Resource} {a : Action} {vis vis' : Visibility}

/-! ## The orders -/

/-- The same user with at least the authority of `s`. -/
structure Subject.Raised (s s' : Subject) : Prop where
  userID : s'.userID = s.userID
  role : roleRank s.role ≤ roleRank s'.role
  staff : s.staff = true → s'.staff = true
  hasGrant : s.hasGrant = true → s'.hasGrant = true
  grantAllowsDownload : s.grantAllowsDownload = true → s'.grantAllowsDownload = true

def Visibility.openness : Visibility → Nat
  | priv => 0
  | unlisted => 1
  | pub => 2

def DownloadSetting.tightness : DownloadSetting → Nat
  | all => 0
  | members => 1
  | nobody => 2

def listingSurfaces : List Action :=
  [.profileGrid, .explore, .tagCategoryListing, .feeds, .sitemap, .federationOutbound,
    .ipfsPublication, .sharedCache]

/-! ## Raising the subject -/

theorem roleRank_owner {role : String} : roleRank role = 5 ↔ Role.of role = some .owner := by
  unfold roleRank
  cases Role.of role with
  | none => simp
  | some role => cases role <;> simp [Role.rank]

theorem roleRank_le (role : String) : roleRank role ≤ 5 := by
  unfold roleRank
  cases Role.of role with
  | none => simp
  | some role => cases role <;> simp [Role.rank]

theorem isStaff_iff : isStaff s = true ↔ s.staff = true ∧ 3 ≤ roleRank s.role := by
  unfold isStaff atLeast
  rw [Bool.and_eq_true, decide_eq_true_iff]
  rfl

theorem Subject.Raised.isOwner (h : s.Raised s') : isOwner s' r = isOwner s r := by
  unfold Authz.isOwner
  rw [h.userID]

theorem Subject.Raised.anonymous (h : s.Raised s') : s'.anonymous = s.anonymous := by
  unfold Subject.anonymous
  rw [h.userID]

theorem Subject.Raised.isStaff (h : s.Raised s') (hs : isStaff s = true) : isStaff s' = true := by
  obtain ⟨hstaff, hrank⟩ := isStaff_iff.mp hs
  exact isStaff_iff.mpr ⟨h.staff hstaff, Nat.le_trans hrank h.role⟩

theorem Subject.Raised.siteOwner (h : s.Raised s') (hs : Role.of s.role = some .owner) :
    Role.of s'.role = some .owner := by
  have hrank := roleRank_owner.mpr hs
  have hle := h.role
  have hmax := roleRank_le s'.role
  exact roleRank_owner.mp (by omega)

theorem Subject.Raised.privileged (h : s.Raised s') (hs : Privileged s r) : Privileged s' r := by
  rcases hs with hs | hs
  · exact .inl (h.isOwner.trans hs)
  · exact .inr (h.isStaff hs)

theorem permits_iff : downloadSettingPermits s r (isOwner s r) (isStaff s) = true ↔
    Privileged s r ∨ DownloadSetting.of r.downloadSetting = some .all ∨
      DownloadSetting.of r.downloadSetting = some .members ∧ s.anonymous = false := by
  unfold downloadSettingPermits Privileged
  by_cases h : isOwner s r = true ∨ isStaff s = true
  · simp [h]
  · have hor : (isOwner s r || isStaff s) = false := by simpa using h
    rw [hor]
    cases DownloadSetting.of r.downloadSetting with
    | none => simp [h]
    | some setting => cases setting <;> simp [h]

theorem Subject.Raised.permits (h : s.Raised s')
    (hs : downloadSettingPermits s r (Authz.isOwner s r) (Authz.isStaff s) = true) :
    downloadSettingPermits s' r (Authz.isOwner s' r) (Authz.isStaff s') = true := by
  rw [permits_iff] at hs ⊢
  rcases hs with hs | hs | ⟨hs, hanon⟩
  · exact .inl (h.privileged hs)
  · exact .inr (.inl hs)
  · exact .inr (.inr ⟨hs, h.anonymous.trans hanon⟩)

theorem AlbumAllows.raised (h : s.Raised s') {privacy : Option AlbumPrivacy}
    (hs : AlbumAllows s r privacy) : AlbumAllows s' r privacy := by
  rcases privacy with - | privacy
  · exact hs
  · cases privacy with
    | pub => exact hs
    | priv | link | password => exact hs.imp h.privileged h.hasGrant

theorem KindAllows.raised (h : s.Raised s') {k : SurfaceKind} (hs : KindAllows s a r vis k) :
    KindAllows s' a r vis k := by
  cases k with
  | staffOnly => exact h.isStaff hs
  | ownerScoped => exact h.privileged hs
  | exports => exact hs.imp h.isOwner.trans (And.imp h.staff h.siteOwner)
  | album => exact AlbumAllows.raised h hs
  | count => exact hs.imp_right (Or.imp h.privileged h.hasGrant)
  | listing | listingIPFS | directNoPrivate => exact hs
  | search => exact hs.imp_right (And.imp_left h.isOwner.trans)
  | download =>
    obtain ⟨hpermits, hs⟩ := hs
    have hgrant := And.imp h.hasGrant h.grantAllowsDownload
    exact ⟨h.permits hpermits, hs.imp_right (Or.imp h.privileged hgrant)⟩
  | direct => exact hs.imp_right (Or.imp h.privileged h.hasGrant)
  | aggregate => exact hs.imp_right h.privileged

theorem allow_of_raised {action : String} (h : s.Raised s')
    (hs : (e.decide s action r).1 = .allow) : (e.decide s' action r).1 = .allow := by
  rw [decide_allow_iff] at hs ⊢
  obtain ⟨hsite, a, vis, ha, hvis, hk⟩ := hs
  rw [h.anonymous]
  exact ⟨hsite, a, vis, ha, hvis, hk.raised h⟩

/-! ## Changing the resource and the site -/

theorem KindAllows.more_open {k : SurfaceKind} (h : vis.openness ≤ vis'.openness)
    (hs : KindAllows s a r vis k) : KindAllows s a r vis' k := by
  have hpub : vis = .pub → vis' = .pub := by
    rintro rfl
    cases vis' <;> simp [Visibility.openness] at h ⊢
  have hpriv : vis ≠ .priv → vis' ≠ .priv := by
    rintro hne rfl
    cases vis <;> simp [Visibility.openness] at h hne
  cases k with
  | staffOnly | ownerScoped | exports | album => exact hs
  | count | search => exact hs.imp_left hpub
  | listing | listingIPFS => exact hs.imp_left hpub
  | download => exact hs.imp_right (Or.imp_left hpriv)
  | direct | aggregate => exact hs.imp_left hpriv
  | directNoPrivate => exact hpriv hs

theorem kindAllows_visibility {t : String} {k : SurfaceKind} :
    KindAllows s a { r with visibility := t } vis k ↔ KindAllows s a r vis k := by
  cases k <;> exact Iff.rfl

theorem allow_of_more_open {action : String} (h : vis.openness ≤ vis'.openness)
    (hs : (e.decide s action { r with visibility := vis.text }).1 = .allow) :
    (e.decide s action { r with visibility := vis'.text }).1 = .allow := by
  rw [decide_allow_iff] at hs ⊢
  obtain ⟨hsite, a, v, ha, hvis, hk⟩ := hs
  have hv : v = vis := by
    have hof : Visibility.of vis.text = some vis := Visibility.of_iff.mpr rfl
    exact Option.some.inj (hvis.symm.trans hof)
  subst hv
  rw [kindAllows_visibility] at hk
  exact ⟨hsite, a, vis', ha, Visibility.of_iff.mpr rfl, kindAllows_visibility.mpr (hk.more_open h)⟩

theorem allow_of_sitePrivate {action : String}
    (hs : (Evaluator.decide { sitePrivate := true } s action r).1 = .allow) :
    (Evaluator.decide { sitePrivate := false } s action r).1 = .allow := by
  rw [decide_allow_iff] at hs ⊢
  obtain ⟨-, hs⟩ := hs
  exact ⟨fun h => Bool.false_ne_true h.1, hs⟩

theorem permits_of_tighter {t t' : String} {d d' : DownloadSetting} (hd : DownloadSetting.of t = some d)
    (hd' : DownloadSetting.of t' = some d') (h : d.tightness ≤ d'.tightness)
    (hs : downloadSettingPermits s { r with downloadSetting := t' } (isOwner s r) (isStaff s) = true) :
    downloadSettingPermits s { r with downloadSetting := t } (isOwner s r) (isStaff s) = true := by
  have hs' := permits_iff.mp hs
  refine permits_iff.mpr ?_
  rw [hd]
  rw [hd'] at hs'
  rcases hs' with hs' | hs' | ⟨hs', hanon⟩
  · exact .inl hs'
  · cases hs'
    cases d <;> simp [DownloadSetting.tightness] at h ⊢
  · cases hs'
    cases d with
    | all => exact .inr (.inl rfl)
    | members => exact .inr (.inr ⟨rfl, hanon⟩)
    | nobody => simp [DownloadSetting.tightness] at h

theorem allow_of_tighter {action t t' : String} {d d' : DownloadSetting}
    (hd : DownloadSetting.of t = some d) (hd' : DownloadSetting.of t' = some d')
    (h : d.tightness ≤ d'.tightness)
    (hs : (e.decide s action { r with downloadSetting := t' }).1 = .allow) :
    (e.decide s action { r with downloadSetting := t }).1 = .allow := by
  rw [decide_allow_iff] at hs ⊢
  obtain ⟨hsite, a, vis, ha, hvis, hk⟩ := hs
  refine ⟨hsite, a, vis, ha, hvis, ?_⟩
  cases hkind : kindOf a with
  | download =>
    rw [hkind] at hk
    exact hk.imp_left (permits_of_tighter hd hd' h)
  | _ =>
    rw [hkind] at hk
    exact hk

/-! ## Leaks -/

theorem public_of_listing {action : String} (ha : Action.of action = some a) (hmem : a ∈ listingSurfaces)
    (hs : (e.decide s action r).1 = .allow) : r.visibility = Visibility.pub.text := by
  obtain ⟨-, b, vis, hb, hvis, hk⟩ := decide_allow_iff.mp hs
  rw [ha] at hb
  cases hb
  have hkind : kindOf a = .listing ∨ kindOf a = .listingIPFS := by
    cases a <;> first | exact .inl rfl | exact .inr rfl | exact absurd hmem (by decide)
  have hpub : vis = .pub := by
    rcases hkind with hkind | hkind
    · rw [hkind] at hk
      exact hk.1
    · rw [hkind] at hk
      exact hk.1
  rw [hpub] at hvis
  exact (Visibility.of_iff.mp hvis).symm

theorem KindAllows.stranger (howner : isOwner s r = false) (hstaff : isStaff s = false)
    (hgrant : s.hasGrant = false) (hk : KindAllows s a r vis (kindOf a)) :
    vis ≠ .priv ∨ a = .albumPage ∧ AlbumPrivacy.of r.albumPrivacy = some .pub := by
  have hpriv : ¬ Privileged s r := by simp [Privileged, howner, hstaff]
  cases hkind : kindOf a with
  | staffOnly => simp [hkind, KindAllows, hstaff] at hk
  | ownerScoped => simp [hkind, KindAllows, hpriv] at hk
  | exports =>
    rw [hkind] at hk
    rcases hk with hk | ⟨hflag, hrole⟩
    · simp [howner] at hk
    · have hrank := roleRank_owner.mpr hrole
      have := isStaff_iff.mpr ⟨hflag, by omega⟩
      simp [hstaff] at this
  | album =>
    refine .inr ⟨kindOf_album hkind, ?_⟩
    rw [hkind] at hk
    unfold KindAllows at hk
    cases hp : AlbumPrivacy.of r.albumPrivacy with
    | none => simp [hp, AlbumAllows] at hk
    | some privacy => cases privacy <;> simp_all [AlbumAllows]
  | count | listing | listingIPFS | search | download | direct | directNoPrivate | aggregate =>
    rw [hkind] at hk
    refine .inl ?_
    rintro rfl
    simp [KindAllows, howner, hgrant, hpriv] at hk

theorem visible_of_stranger {action : String} (howner : isOwner s r = false) (hstaff : isStaff s = false)
    (hgrant : s.hasGrant = false) (hs : (e.decide s action r).1 = .allow) :
    r.visibility = Visibility.pub.text ∨ r.visibility = Visibility.unlisted.text ∨
      action = Action.albumPage.text ∧ r.albumPrivacy = AlbumPrivacy.pub.text := by
  obtain ⟨-, a, vis, ha, hvis, hk⟩ := decide_allow_iff.mp hs
  have hvis := Visibility.of_iff.mp hvis
  rcases hk.stranger howner hstaff hgrant with hne | ⟨rfl, hpub⟩
  · cases vis with
    | pub => exact .inl hvis.symm
    | unlisted => exact .inr (.inl hvis.symm)
    | priv => exact absurd rfl hne
  · exact .inr (.inr ⟨(Action.of_iff.mp ha).symm, (AlbumPrivacy.of_iff.mp hpub).symm⟩)

theorem deny_of_allow_imp {d d' : Decision} (h : d' = .allow → d = .allow) (hd : d = .deny) :
    d' = .deny := by
  cases d' with
  | deny => rfl
  | allow =>
    rw [h rfl] at hd
    cases hd

/-- Raising the subject or opening the resource keeps an allow, closing the site or tightening the download
setting keeps a denial, and neither listings nor strangers reach anything private. -/
theorem decide_monotone_and_leakFree (e : Evaluator) (s : Subject) (action : String) (r : Resource) :
    (∀ s', s.Raised s' → (e.decide s action r).1 = .allow → (e.decide s' action r).1 = .allow) ∧
    (∀ vis vis' : Visibility, vis.openness ≤ vis'.openness →
      (e.decide s action { r with visibility := vis.text }).1 = .allow →
      (e.decide s action { r with visibility := vis'.text }).1 = .allow) ∧
    ((Evaluator.decide { sitePrivate := false } s action r).1 = .deny →
      (Evaluator.decide { sitePrivate := true } s action r).1 = .deny) ∧
    (∀ t t' d d', DownloadSetting.of t = some d → DownloadSetting.of t' = some d' →
      d.tightness ≤ d'.tightness →
      (e.decide s action { r with downloadSetting := t }).1 = .deny →
      (e.decide s action { r with downloadSetting := t' }).1 = .deny) ∧
    (∀ a ∈ listingSurfaces, a.text = action → (e.decide s action r).1 = .allow →
      r.visibility = Visibility.pub.text) ∧
    (isOwner s r = false → isStaff s = false → s.hasGrant = false →
      (e.decide s action r).1 = .allow →
      r.visibility = Visibility.pub.text ∨ r.visibility = Visibility.unlisted.text ∨
        action = Action.albumPage.text ∧ r.albumPrivacy = AlbumPrivacy.pub.text) := by
  refine ⟨?_, ?_, ?_, ?_, ?_, ?_⟩
  · intro s' h hs
    exact allow_of_raised h hs
  · intro vis vis' h hs
    exact allow_of_more_open h hs
  · intro hs
    exact deny_of_allow_imp allow_of_sitePrivate hs
  · intro t t' d d' hd hd' h hs
    exact deny_of_allow_imp (allow_of_tighter hd hd' h) hs
  · intro a hmem ha hs
    exact public_of_listing (Action.of_iff.mpr ha) hmem hs
  · intro howner hstaff hgrant hs
    exact visible_of_stranger howner hstaff hgrant hs

/-- A grantee who becomes a manager in an audited context, on a private original; and an anonymous viewer
of a public item. -/
theorem decide_monotone_and_leakFree_grantee :
    (Evaluator.decide { sitePrivate := true }
      { userID := "u2", role := "manager", staff := true, hasGrant := true, grantAllowsDownload := true }
      "original_download"
      { ownerID := "u1", visibility := "private", albumPrivacy := "", downloadSetting := "", scope := ""
        ownerAllowsIPFS := false }).1 = .allow ∧
    "public" = Visibility.pub.text := by
  constructor
  · refine (decide_monotone_and_leakFree _
      { userID := "u2", role := "member", staff := false, hasGrant := true, grantAllowsDownload := true }
      _ _).1 _ ⟨rfl, by decide, ?_, ?_, ?_⟩ (by decide) <;> decide
  · exact (decide_monotone_and_leakFree { sitePrivate := false }
      { userID := "", role := "", staff := false, hasGrant := false, grantAllowsDownload := false }
      "explore"
      { ownerID := "u1", visibility := "public", albumPrivacy := "", downloadSetting := "", scope := ""
        ownerAllowsIPFS := false }).2.2.2.2.1 .explore (by decide) rfl (by decide)

end Vizra.Authz
