import Mathlib.Data.String.Basic
import Vizra.OwnerClaim.Schema

/-!
# What the validator accepts

`Accepted` lists what `Input.Validate` has checked. The username it accepts is the schema's; the email is
the schema's up to the class of blanks, and `emailPattern` is read here once for both classes.
-/

namespace Vizra.OwnerClaim

open Go Vizra.Pg Regex

variable {env : Env} {i : Input}

structure Accepted (env : Env) (i : Input) : Prop where
  token : tokenShape.accepts (normalize env i.token) = true
  username : usernameShape.accepts i.username.toList = true
  email_size : i.email.utf8ByteSize ≤ maxEmailBytes
  email : emailShape.accepts i.email.toList = true
  password_min : Credential.minPasswordRunes ≤ i.password.toList.length
  password_max : i.password.toList.length ≤ Credential.maxPasswordRunes
  password_size : i.password.utf8ByteSize ≤ Credential.maxPasswordBytes

theorem accepted_of_validate (h : i.validate env = .ok ()) : Accepted env i := by
  unfold Input.validate at h
  split_ifs at h with h1 h2 h3 h4 h5 h6
  simp only [Bool.not_eq_true', Bool.not_eq_false] at h1 h2
  simp only [Bool.or_eq_true, decide_eq_true_iff, Bool.not_eq_true', not_or, Bool.not_eq_false,
    gt_iff_lt, not_lt] at h3
  exact ⟨h1, h2, h3.1, h3.2, not_lt.mp h4, not_lt.mp h5, not_lt.mp h6⟩

theorem Accepted.validate (h : Accepted env i) : i.validate env = .ok () := by
  have hmin := not_lt.mpr h.password_min
  have hmax := not_lt.mpr h.password_max
  have hsize := not_lt.mpr h.password_size
  have hemail := not_lt.mpr h.email_size
  simp [Input.validate, h.token, h.username, h.email, hmin, hmax, hsize, hemail]

/-! ## The username -/

theorem isHandle_ne_zero {c : Char} (h : isHandle c = true) : (c != Char.ofNat 0) = true := by
  have hne : isHandle (Char.ofNat 0) = false := by decide
  rw [bne_iff_ne]
  rintro rfl
  rw [hne] at h
  cases h

/-- A username of the accepted shape can be stored. -/
theorem storable_username {u : String} (h : usernameShape.accepts u.toList = true) :
    storable u = true := by
  have hhandle : (Rx.cls isHandle).Within fun c => (c != Char.ofNat 0) = true :=
    fun c hc => isHandle_ne_zero hc
  have hwithin : usernameShape.Within fun c => (c != Char.ofNat 0) = true := by
    refine ⟨fun c hc => isHandle_ne_zero ?_, hhandle.between 2 29⟩
    rw [isHandle, hc]
    rfl
  rw [storable, List.all_eq_true]
  exact Rx.forall_of_mem_lang hwithin (Rx.accepts_iff.mp h)

/-! ## The email -/

/-- A part of an email address: not empty, without blanks and without `@`. -/
def EmailPart (space : Char → Bool) (w : List Char) : Prop :=
  w ≠ [] ∧ ∀ c ∈ w, space c = false ∧ c ≠ '@'

theorem mem_emailPart {space : Char → Bool} {w : List Char} :
    w ∈ Rx.lang (Rx.plus (.cls fun c => !space c && c != '@')) ↔ EmailPart space w := by
  simp [Rx.mem_lang_plus_cls, EmailPart]

theorem accepts_emailPattern {space : Char → Bool} {w : List Char} :
    (emailPattern space).accepts w = true ↔
      ∃ a b c, w = a ++ '@' :: (b ++ '.' :: c) ∧ EmailPart space a ∧ EmailPart space b ∧
        EmailPart space c := by
  rw [Rx.accepts_iff, emailPattern]
  simp only [Rx.mem_lang_seq, Rx.mem_lang_char, mem_emailPart]
  constructor
  · rintro ⟨a, _, rfl, ha, _, _, rfl, rfl, b, _, rfl, hb, _, c, rfl, rfl, hc⟩
    exact ⟨a, b, c, rfl, ha, hb, hc⟩
  · rintro ⟨a, b, c, rfl, ha, hb, hc⟩
    exact ⟨a, _, rfl, ha, ['@'], _, rfl, rfl, b, _, rfl, hb, ['.'], c, rfl, rfl, hc⟩

/-- No character of an address is a blank of its pattern. -/
theorem space_of_accepts {space : Char → Bool} (hat : space '@' = false) (hdot : space '.' = false)
    {w : List Char} (h : (emailPattern space).accepts w = true) : ∀ c ∈ w, space c = false := by
  obtain ⟨a, b, c, rfl, ha, hb, hc⟩ := accepts_emailPattern.mp h
  intro x hx
  simp only [List.mem_append, List.mem_cons] at hx
  rcases hx with hx | rfl | hx | rfl | hx
  · exact (ha.2 x hx).1
  · exact hat
  · exact (hb.2 x hx).1
  · exact hdot
  · exact (hc.2 x hx).1

/-- An address for one class of blanks is one for every class that none of its characters is in. -/
theorem accepts_of_space {space space' : Char → Bool} {w : List Char}
    (h : (emailPattern space).accepts w = true) (hs : ∀ c ∈ w, space' c = false) :
    (emailPattern space').accepts w = true := by
  obtain ⟨a, b, c, rfl, ha, hb, hc⟩ := accepts_emailPattern.mp h
  refine accepts_emailPattern.mpr ⟨a, b, c, rfl, ⟨ha.1, ?_⟩, ⟨hb.1, ?_⟩, ⟨hc.1, ?_⟩⟩
  · exact fun x hx => ⟨hs x (by simp [hx]), (ha.2 x hx).2⟩
  · exact fun x hx => ⟨hs x (by simp [hx]), (hb.2 x hx).2⟩
  · exact fun x hx => ⟨hs x (by simp [hx]), (hc.2 x hx).2⟩

theorem length_le_utf8Len (cs : List Char) : cs.length ≤ String.utf8Len cs := by
  induction cs with
  | nil => simp
  | cons c cs ih =>
    have hpos := c.utf8Size_pos
    simp only [String.utf8Len_cons, List.length_cons]
    omega

/-- An address has at least three octets. -/
theorem size_of_accepts {space : Char → Bool} {email : String}
    (h : (emailPattern space).accepts email.toList = true) : 3 ≤ email.utf8ByteSize := by
  obtain ⟨a, b, c, hw, ha, hb, hc⟩ := accepts_emailPattern.mp h
  have hlen := length_le_utf8Len email.toList
  rw [← String.utf8ByteSize_ofList, String.ofList_toList] at hlen
  have ha := List.length_pos_iff.mpr ha.1
  have hcount : email.toList.length = a.length + (b.length + (c.length + 1) + 1) := by
    rw [hw]
    simp
  omega

/-- An accepted email meets `users_email_shape` exactly if it has none of the schema's blanks. -/
theorem Accepted.emailCheck_iff (h : Accepted env i) (hat : env.pgSpace '@' = false)
    (hdot : env.pgSpace '.' = false) :
    emailCheck env i.email = true ↔ ∀ c ∈ i.email.toList, env.pgSpace c = false := by
  have hmax : i.email.utf8ByteSize ≤ 254 := h.email_size
  constructor
  · intro hc
    simp only [emailCheck, Bool.and_eq_true] at hc
    exact space_of_accepts hat hdot hc.1.1
  · intro hs
    simp [emailCheck, accepts_of_space h.email hs, size_of_accepts h.email, hmax]

end Vizra.OwnerClaim
