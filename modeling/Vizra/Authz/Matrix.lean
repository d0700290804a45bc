import Vizra.Authz.Authz

/-!
# The frozen surface × visibility matrix (`internal/authz/testdata/adr007_matrix.tsv`)

The matrix has a row for every surface and visibility and a column for every viewer class. A subject can
be in several classes at once: an anonymous viewer may do what everybody may, so everybody is in class A.
Row 4 is about the privacy of the album, whose values `public`, `link` and `private` stand in its three
columns.
-/

namespace Vizra.Authz

inductive ViewerClass where
  | anonymous
  | member
  | grantee
  | owner
  | staff
deriving DecidableEq, Repr

def ViewerClass.includes (s : Subject) (r : Resource) : ViewerClass → Bool
  | anonymous => true
  | member => !s.anonymous
  | grantee => s.hasGrant
  | owner => r.ownerID ≠ "" && s.userID = r.ownerID
  | staff => s.staff && atLeast s.role .manager

structure MatrixRow where
  surface : Action
  visibility : Visibility
  anonymous : Decision
  member : Decision
  grantee : Decision
  owner : Decision
  staff : Decision
deriving DecidableEq, Repr

def MatrixRow.cell (row : MatrixRow) : ViewerClass → Decision
  | .anonymous => row.anonymous
  | .member => row.member
  | .grantee => row.grantee
  | .owner => row.owner
  | .staff => row.staff

section

open Decision

def adr007Matrix : List MatrixRow :=
  [⟨.itemPage, .pub, allow, allow, allow, allow, allow⟩,
   ⟨.itemPage, .unlisted, allow, allow, allow, allow, allow⟩,
   ⟨.itemPage, .priv, deny, deny, allow, allow, allow⟩,
   ⟨.originalDownload, .pub, allow, allow, allow, allow, allow⟩,
   ⟨.originalDownload, .unlisted, allow, allow, allow, allow, allow⟩,
   ⟨.originalDownload, .priv, deny, deny, allow, allow, allow⟩,
   ⟨.derivativeURL, .pub, allow, allow, allow, allow, allow⟩,
   ⟨.derivativeURL, .unlisted, allow, allow, allow, allow, allow⟩,
   ⟨.derivativeURL, .priv, deny, deny, allow, allow, allow⟩,
   ⟨.albumPage, .pub, allow, allow, allow, allow, allow⟩,
   ⟨.albumPage, .unlisted, deny, deny, allow, allow, allow⟩,
   ⟨.albumPage, .priv, deny, deny, allow, allow, allow⟩,
   ⟨.countContribution, .pub, allow, allow, allow, allow, allow⟩,
   ⟨.countContribution, .unlisted, deny, deny, allow, allow, allow⟩,
   ⟨.countContribution, .priv, deny, deny, allow, allow, allow⟩,
   ⟨.ownerLibrary, .pub, deny, deny, deny, allow, allow⟩,
   ⟨.ownerLibrary, .unlisted, deny, deny, deny, allow, allow⟩,
   ⟨.ownerLibrary, .priv, deny, deny, deny, allow, allow⟩,
   ⟨.profileGrid, .pub, allow, allow, allow, allow, allow⟩,
   ⟨.profileGrid, .unlisted, deny, deny, deny, deny, deny⟩,
   ⟨.profileGrid, .priv, deny, deny, deny, deny, deny⟩,
   ⟨.explore, .pub, allow, allow, allow, allow, allow⟩,
   ⟨.explore, .unlisted, deny, deny, deny, deny, deny⟩,
   ⟨.explore, .priv, deny, deny, deny, deny, deny⟩,
   ⟨.search, .pub, allow, allow, allow, allow, allow⟩,
   ⟨.search, .unlisted, deny, deny, deny, deny, deny⟩,
   ⟨.search, .priv, deny, deny, deny, deny, deny⟩,
   ⟨.tagCategoryListing, .pub, allow, allow, allow, allow, allow⟩,
   ⟨.tagCategoryListing, .unlisted, deny, deny, deny, deny, deny⟩,
   ⟨.tagCategoryListing, .priv, deny, deny, deny, deny, deny⟩,
   ⟨.feeds, .pub, allow, allow, allow, allow, allow⟩,
   ⟨.feeds, .unlisted, deny, deny, deny, deny, deny⟩,
   ⟨.feeds, .priv, deny, deny, deny, deny, deny⟩,
   ⟨.notifications, .pub, allow, allow, allow, allow, allow⟩,
   ⟨.notifications, .unlisted, allow, allow, allow, allow, allow⟩,
   ⟨.notifications, .priv, deny, deny, allow, allow, allow⟩,
   ⟨.favoriteRating, .pub, allow, allow, allow, allow, allow⟩,
   ⟨.favoriteRating, .unlisted, allow, allow, allow, allow, allow⟩,
   ⟨.favoriteRating, .priv, deny, deny, deny, allow, allow⟩,
   ⟨.embed, .pub, allow, allow, allow, allow, allow⟩,
   ⟨.embed, .unlisted, allow, allow, allow, allow, allow⟩,
   ⟨.embed, .priv, deny, deny, deny, deny, deny⟩,
   ⟨.sitemap, .pub, allow, allow, allow, allow, allow⟩,
   ⟨.sitemap, .unlisted, deny, deny, deny, deny, deny⟩,
   ⟨.sitemap, .priv, deny, deny, deny, deny, deny⟩,
   ⟨.bulkDownload, .pub, allow, allow, allow, allow, allow⟩,
   ⟨.bulkDownload, .unlisted, allow, allow, allow, allow, allow⟩,
   ⟨.bulkDownload, .priv, deny, deny, allow, allow, allow⟩,
   ⟨.federationOutbound, .pub, allow, allow, allow, allow, allow⟩,
   ⟨.federationOutbound, .unlisted, deny, deny, deny, deny, deny⟩,
   ⟨.federationOutbound, .priv, deny, deny, deny, deny, deny⟩,
   ⟨.ipfsPublication, .pub, allow, allow, allow, allow, allow⟩,
   ⟨.ipfsPublication, .unlisted, deny, deny, deny, deny, deny⟩,
   ⟨.ipfsPublication, .priv, deny, deny, deny, deny, deny⟩,
   ⟨.exports, .pub, deny, deny, deny, allow, deny⟩,
   ⟨.exports, .unlisted, deny, deny, deny, allow, deny⟩,
   ⟨.exports, .priv, deny, deny, deny, allow, deny⟩,
   ⟨.adminConsole, .pub, deny, deny, deny, deny, allow⟩,
   ⟨.adminConsole, .unlisted, deny, deny, deny, deny, allow⟩,
   ⟨.adminConsole, .priv, deny, deny, deny, deny, allow⟩,
   ⟨.sharedCache, .pub, allow, allow, allow, allow, allow⟩,
   ⟨.sharedCache, .unlisted, deny, deny, deny, deny, deny⟩,
   ⟨.sharedCache, .priv, deny, deny, deny, deny, deny⟩]

end

def matrixCell (a : Action) (v : Visibility) (c : ViewerClass) : Option Decision :=
  (adr007Matrix.find? fun row => row.surface = a && row.visibility = v).map fun row => row.cell c

/-- The visibility column a decision is compared with; none on the page of a password album. -/
def matrixColumn (a : Action) (r : Resource) : Option Visibility :=
  if a = .albumPage then
    match AlbumPrivacy.of r.albumPrivacy with
    | some .pub => some .pub
    | some .link => some .unlisted
    | some .priv => some .priv
    | some .password | none => none
  else Visibility.of r.visibility

/-- The base values of the conditions that the matrix does not vary. -/
structure BaseConditions (s : Subject) (a : Action) (r : Resource) : Prop where
  download : r.downloadSetting = "" ∨ r.downloadSetting = DownloadSetting.all.text
  grant : s.hasGrant = true → s.grantAllowsDownload = true
  ipfs : r.ownerAllowsIPFS = true
  scope : r.scope ≠ scopeOwnLibrary
  siteOwner : a = .exports → ¬ (s.staff = true ∧ s.role = Role.owner.text)
  visibility : Visibility.of r.visibility ≠ none

end Vizra.Authz
