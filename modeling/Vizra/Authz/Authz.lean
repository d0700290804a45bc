import Mathlib.Data.Option.Basic

/-!
# The authorization evaluator (`internal/authz/authz.go`)

The fields of a subject and of a resource are the strings they are in the source, with no assumption on
their values; what `Decide` recognises in a string is an enumeration, read by the `of` of its type. A
string that is not recognised is `none`, and every branch of the source that falls through to a default
is a branch on `none` here.
-/

namespace Vizra.Authz

/-- The constant with the given text. -/
def recognise {α : Type} (text : α → String) (all : List α) (s : String) : Option α :=
  all.find? fun a => text a = s

inductive Role where
  | anonymous
  | guest
  | member
  | manager
  | admin
  | owner
deriving DecidableEq, Repr

def Role.text : Role → String
  | anonymous => "anonymous"
  | guest => "guest"
  | member => "member"
  | manager => "manager"
  | admin => "admin"
  | owner => "owner"

def Role.of : String → Option Role := recognise text [anonymous, guest, member, manager, admin, owner]

def Role.rank : Role → Nat
  | anonymous => 0
  | guest => 1
  | member => 2
  | manager => 3
  | admin => 4
  | owner => 5

/-- `roleRank`; a string that is not a role has the rank of no role. -/
def roleRank (role : String) : Nat := (Role.of role).elim 0 Role.rank

def atLeast (role : String) (other : Role) : Bool := other.rank ≤ roleRank role

inductive Visibility where
  | pub
  | unlisted
  | priv
deriving DecidableEq, Repr

def Visibility.text : Visibility → String
  | pub => "public"
  | unlisted => "unlisted"
  | priv => "private"

def Visibility.of : String → Option Visibility := recognise text [pub, unlisted, priv]

inductive AlbumPrivacy where
  | pub
  | priv
  | link
  | password
deriving DecidableEq, Repr

def AlbumPrivacy.text : AlbumPrivacy → String
  | pub => "public"
  | priv => "private"
  | link => "link"
  | password => "password"

def AlbumPrivacy.of : String → Option AlbumPrivacy := recognise text [pub, priv, link, password]

inductive DownloadSetting where
  | all
  | members
  | nobody
deriving DecidableEq, Repr

def DownloadSetting.text : DownloadSetting → String
  | all => "all"
  | members => "members"
  | nobody => "nobody"

/-- An unset setting is `all`. -/
def DownloadSetting.of (s : String) : Option DownloadSetting :=
  if s = "" then some all else recognise text [all, members, nobody] s

def scopeOwnLibrary : String := "own_library"

/-- The read surfaces of the matrix, in the order of its rows. -/
inductive Action where
  | itemPage
  | originalDownload
  | derivativeURL
  | albumPage
  | countContribution
  | ownerLibrary
  | profileGrid
  | explore
  | search
  | tagCategoryListing
  | feeds
  | notifications
  | favoriteRating
  | embed
  | sitemap
  | bulkDownload
  | federationOutbound
  | ipfsPublication
  | exports
  | adminConsole
  | sharedCache
deriving DecidableEq, Repr

def Action.text : Action → String
  | itemPage => "item_page"
  | originalDownload => "original_download"
  | derivativeURL => "derivative_url"
  | albumPage => "album_page"
  | countContribution => "count_contribution"
  | ownerLibrary => "owner_library"
  | profileGrid => "profile_grid"
  | explore => "explore"
  | search => "search"
  | tagCategoryListing => "tag_category_listing"
  | feeds => "feeds"
  | notifications => "notifications"
  | favoriteRating => "favorite_rating"
  | embed => "embed"
  | sitemap => "sitemap"
  | bulkDownload => "bulk_download"
  | federationOutbound => "federation_outbound"
  | ipfsPublication => "ipfs_publication"
  | exports => "export"
  | adminConsole => "admin_console"
  | sharedCache => "shared_cache"

def actions : List Action :=
  [.itemPage, .originalDownload, .derivativeURL, .albumPage, .countContribution, .ownerLibrary,
    .profileGrid, .explore, .search, .tagCategoryListing, .feeds, .notifications, .favoriteRating, .embed,
    .sitemap, .bulkDownload, .federationOutbound, .ipfsPublication, .exports, .adminConsole, .sharedCache]

def Action.of : String → Option Action := recognise text actions

inductive SurfaceKind where
  | direct
  | directNoPrivate
  | aggregate
  | download
  | listing
  | listingIPFS
  | search
  | ownerScoped
  | staffOnly
  | exports
  | album
  | count
deriving DecidableEq, Repr

def kindOf : Action → SurfaceKind
  | .itemPage => .direct
  | .originalDownload => .download
  | .derivativeURL => .direct
  | .albumPage => .album
  | .countContribution => .count
  | .ownerLibrary => .ownerScoped
  | .profileGrid => .listing
  | .explore => .listing
  | .search => .search
  | .tagCategoryListing => .listing
  | .feeds => .listing
  | .notifications => .direct
  | .favoriteRating => .aggregate
  | .embed => .directNoPrivate
  | .sitemap => .listing
  | .bulkDownload => .download
  | .federationOutbound => .listing
  | .ipfsPublication => .listingIPFS
  | .exports => .exports
  | .adminConsole => .staffOnly
  | .sharedCache => .listing

structure Subject where
  userID : String
  role : String
  staff : Bool
  hasGrant : Bool
  grantAllowsDownload : Bool
deriving DecidableEq, Repr

def Subject.anonymous (s : Subject) : Bool := s.userID = ""

structure Resource where
  ownerID : String
  visibility : String
  albumPrivacy : String
  downloadSetting : String
  scope : String
  ownerAllowsIPFS : Bool
deriving DecidableEq, Repr

inductive Decision where
  | deny
  | allow
deriving DecidableEq, Repr

inductive Reason where
  | surfaceNotInMatrix
  | visibilityUnknown
  | sitePrivate
  | pub
  | owner
  | staffAudited
  | grant
  | reachableByLink
  | priv
  | publicOnlySurface
  | downloadDisabled
  | grantLacksDownload
  | ownerOnlySurface
  | staffOnlySurface
  | siteOwnerRequired
  | ipfsNotEligible
  | notSharedCacheable
  | ownLibraryScope
deriving DecidableEq, Repr

/-- What a surface that serves reachable items answers for them. -/
def reasonForReachable : Visibility → Reason
  | .unlisted => .reachableByLink
  | .pub | .priv => .pub

/-- `HideExistence`: whether a denial is rendered as a 404. -/
def hideExistence (r : Resource) : Bool :=
  match Visibility.of r.visibility with
  | some .pub | some .unlisted => false
  | _ => true

def downloadSettingPermits (s : Subject) (r : Resource) (owner staff : Bool) : Bool :=
  if owner || staff then true
  else match DownloadSetting.of r.downloadSetting with
    | some .all => true
    | some .members => !s.anonymous
    | some .nobody => false
    | none => false

/-- The switch of `Decide` over the kind of the surface, for a recognised visibility. -/
def decideKind (s : Subject) (action : Action) (r : Resource) (vis : Visibility) (owner staff : Bool) :
    SurfaceKind → Decision × Reason
  | .staffOnly => if staff then (.allow, .staffAudited) else (.deny, .staffOnlySurface)
  | .ownerScoped =>
    if owner then (.allow, .owner)
    else if staff then (.allow, .staffAudited)
    else (.deny, .ownerOnlySurface)
  | .exports =>
    if owner then (.allow, .owner)
    else if s.staff && Role.of s.role = some .owner then (.allow, .staffAudited)
    else (.deny, .siteOwnerRequired)
  | .album =>
    -- only the album's own setting counts here, not the visibility of the item
    match AlbumPrivacy.of r.albumPrivacy with
    | none => (.deny, .visibilityUnknown)
    | some privacy =>
      if owner then (.allow, .owner)
      else if staff then (.allow, .staffAudited)
      else match privacy with
        | .pub => (.allow, .pub)
        | .link | .password | .priv => if s.hasGrant then (.allow, .grant) else (.deny, .priv)
  | .count =>
    match vis with
    | .pub => (.allow, .pub)
    | .unlisted | .priv =>
      if owner then (.allow, .owner)
      else if staff then (.allow, .staffAudited)
      else if s.hasGrant then (.allow, .grant)
      else (.deny, .priv)
  | .listing | .listingIPFS =>
    if vis ≠ .pub then (.deny, .publicOnlySurface)
    else if kindOf action = .listingIPFS && !r.ownerAllowsIPFS then (.deny, .ipfsNotEligible)
    -- never reached: `vis` is public from here on
    else if action = .sharedCache && vis ≠ .pub then (.deny, .notSharedCacheable)
    else (.allow, .pub)
  | .search =>
    if vis = .pub then (.allow, .pub)
    else if owner && r.scope = scopeOwnLibrary then (.allow, .ownLibraryScope)
    else (.deny, .publicOnlySurface)
  | .download =>
    if !downloadSettingPermits s r owner staff then (.deny, .downloadDisabled)
    else match vis with
      | .pub | .unlisted => (.allow, reasonForReachable vis)
      | .priv =>
        if owner then (.allow, .owner)
        else if staff then (.allow, .staffAudited)
        else if s.hasGrant then
          if !s.grantAllowsDownload then (.deny, .grantLacksDownload) else (.allow, .grant)
        else (.deny, .priv)
  | .direct =>
    match vis with
    | .pub | .unlisted => (.allow, reasonForReachable vis)
    | .priv =>
      if owner then (.allow, .owner)
      else if staff then (.allow, .staffAudited)
      else if s.hasGrant then (.allow, .grant)
      else (.deny, .priv)
  | .directNoPrivate =>
    match vis with
    | .pub | .unlisted => (.allow, reasonForReachable vis)
    | .priv => (.deny, .priv)
  | .aggregate =>
    match vis with
    | .pub | .unlisted => (.allow, reasonForReachable vis)
    | .priv =>
      if owner then (.allow, .owner)
      else if staff then (.allow, .staffAudited)
      else (.deny, .priv)

/-- An evaluator for one site. -/
structure Evaluator where
  sitePrivate : Bool
deriving DecidableEq, Repr

def Evaluator.decide (e : Evaluator) (s : Subject) (action : String) (r : Resource) : Decision × Reason :=
  -- a private site refuses the anonymous before the surface is looked up
  if e.sitePrivate && s.anonymous then (.deny, .sitePrivate)
  else match Action.of action with
    | none => (.deny, .surfaceNotInMatrix)
    | some a =>
      let owner := r.ownerID ≠ "" && s.userID = r.ownerID
      let staff := s.staff && atLeast s.role .manager
      match Visibility.of r.visibility with
      | none => (.deny, .visibilityUnknown)
      | some vis => decideKind s a r vis owner staff (kindOf a)

end Vizra.Authz
