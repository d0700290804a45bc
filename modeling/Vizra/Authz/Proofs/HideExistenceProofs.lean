import Vizra.Authz.Proofs.DecideProofs

/-!
# Which denials hide existence

`HideExistence` reads the visibility of the item. So does `Decide` wherever it denies with
`ReasonPrivate` or `ReasonVisibilityUnknown`, except on the album page, where the privacy of the album
decides; and a count leaves an unlisted item out although its existence is no secret.
-/

namespace Vizra.Authz

variable {e : Evaluator} {s : Subject} {r : Resource} {a : Action} {vis : Visibility}

/-! ## Denials -/

theorem hideExistence_iff : hideExistence r = true ↔
    Visibility.of r.visibility = none ∨ Visibility.of r.visibility = some .priv := by
  unfold hideExistence
  cases Visibility.of r.visibility with
  | none => simp
  | some v => cases v <;> simp

/-- Off the album page a denial as private is about a private item, or about the count of an unlisted
one. -/
theorem decideKind_priv {owner staff : Bool} {k : SurfaceKind} (hk : k ≠ .album)
    (h : decideKind s a r vis owner staff k = (.deny, .priv)) :
    vis = .priv ∨ (k = .count ∧ vis = .unlisted) := by
  cases k with
  | album => exact absurd rfl hk
  | count =>
    cases vis with
    | pub => cases h
    | unlisted => exact Or.inr ⟨rfl, rfl⟩
    | priv => exact Or.inl rfl
  | direct | directNoPrivate | aggregate =>
    cases vis with
    | pub | unlisted => cases h
    | priv => exact Or.inl rfl
  | download =>
    simp only [decideKind] at h
    split at h
    · cases h
    · cases vis with
      | pub | unlisted => cases h
      | priv => exact Or.inl rfl
  | listing | listingIPFS | search | ownerScoped | staffOnly | exports =>
    simp only [decideKind] at h
    repeat' split at h
    all_goals cases h

/-- Off the album page a recognised visibility is never unknown. -/
theorem decideKind_unknown {owner staff : Bool} {k : SurfaceKind} (hk : k ≠ .album) :
    decideKind s a r vis owner staff k ≠ (.deny, .visibilityUnknown) := by
  intro h
  cases k with
  | album => exact hk rfl
  | count | direct | directNoPrivate | aggregate | download | listing | listingIPFS | search | ownerScoped
  | staffOnly | exports =>
    simp only [decideKind] at h
    repeat' split at h
    all_goals cases h

def exampleAnonymous : Subject :=
  { userID := "", role := "anonymous", staff := false, hasGrant := false, grantAllowsDownload := false }

/-- A resource of somebody. -/
def exampleResource (visibility albumPrivacy : String) : Resource :=
  { ownerID := "u1", visibility, albumPrivacy, downloadSetting := "", scope := "site", ownerAllowsIPFS := false }

end Vizra.Authz
