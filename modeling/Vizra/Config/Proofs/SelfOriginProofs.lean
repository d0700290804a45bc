import Vizra.Config.Proofs.ConfigProofs
import Vizra.Config.Proofs.OriginProofs
import Vizra.GoStd.UrlParse

/-!
# Proofs: an origin and its normal form

The normal form of an origin is read again by the comparison of the two origins. It reads as the scheme, the host and
the port it was made of, unless the host contains a percent sign, which now starts an escape, or still ends with a dot.
-/

namespace Vizra.Configuration

open Go

variable {s : String} {c d : Char} {a : List Char} {lib : Lib} {u : URL}

/-! ## ASCII -/

theorem isASCII_iff : isASCII s = true ↔ ∀ c ∈ s.toList, c.toNat < 128 := by
  simp only [isASCII, List.all_eq_true, decide_eq_true_eq, UInt32.lt_iff_toNat_lt]
  rfl

theorem ascii_induction {P : Char → Prop} (h : ∀ n < 128, P (Char.ofNat n)) (hc : c.toNat < 128) : P c := by
  rw [← Char.ofNat_toNat c]
  exact h c.toNat hc

theorem toLower_of_not_letter (hc : c.toNat < 128) (h : isLetter c = false) : c.toLower = c :=
  ascii_induction (P := fun c => isLetter c = false → c.toLower = c) (by decide) hc h

theorem isLetter_toLower (hc : c.toNat < 128) : isLetter c.toLower = isLetter c :=
  ascii_induction (P := fun c => isLetter c.toLower = isLetter c) (by decide) hc

theorem toLower_toLower (hc : c.toNat < 128) : c.toLower.toLower = c.toLower :=
  ascii_induction (P := fun c => c.toLower.toLower = c.toLower) (by decide) hc

/-- What is assumed of `unicode.ToLower`. -/
structure LowerRules (lower : Char → Char) : Prop where
  ascii : ∀ {c}, c.toNat < 128 → lower c = c.toLower
  -- such as U+212A, the Kelvin sign
  other : ∀ {c}, 128 ≤ c.toNat → 128 ≤ (lower c).toNat ∨ ('a' ≤ lower c ∧ lower c ≤ 'z')
  space : ∀ {c}, isSpace c = true → lower c = c

theorem isLetter_of_small (h : 'a' ≤ c ∧ c ≤ 'z') : isLetter c = true := by
  simp [isLetter, h.1, h.2]

theorem toLower_of_gt (h : 90 < c.toNat) : c.toLower = c := by
  have hbig : ¬ (c.val ≥ 'A'.val ∧ c.val ≤ 'Z'.val) := by
    rintro ⟨-, hhi⟩
    have hhi' : c.toNat ≤ 90 := UInt32.le_iff_toNat_le.mp hhi
    omega
  unfold Char.toLower
  rw [dif_neg hbig]

theorem toLower_of_small (h : 'a' ≤ c ∧ c ≤ 'z') : c.toLower = c := by
  have hlo : 97 ≤ c.toNat := UInt32.le_iff_toNat_le.mp (Char.le_def.mp h.1)
  exact toLower_of_gt (by omega)

namespace LowerRules

variable {lower : Char → Char} (hlower : LowerRules lower)

include hlower

/-- Lower case neither makes nor removes a rune of ASCII that is no letter. -/
theorem eq_iff {x : Char} (hx : x.toNat < 128) (hletter : isLetter x = false) (c : Char) : lower c = x ↔ c = x := by
  by_cases hc : c.toNat < 128
  · rw [hlower.ascii hc]
    by_cases hcl : isLetter c = true
    · refine iff_of_false ?_ ?_
      · rintro rfl
        rw [isLetter_toLower hc, hcl] at hletter
        cases hletter
      · rintro rfl
        rw [hcl] at hletter
        cases hletter
    · rw [toLower_of_not_letter hc (Bool.eq_false_of_not_eq_true hcl)]
  · refine iff_of_false ?_ ?_
    · rintro rfl
      rcases hlower.other (not_lt.mp hc) with hbig | hsmall
      · omega
      · rw [isLetter_of_small hsmall] at hletter
        cases hletter
    · rintro rfl
      exact hc hx

/-- The result is in lower case. -/
theorem lower_lower (h : (lower c).toNat < 128) : lower (lower c) = lower c := by
  rw [hlower.ascii h]
  by_cases hc : c.toNat < 128
  · rw [hlower.ascii hc, toLower_toLower hc]
  · rcases hlower.other (not_lt.mp hc) with hbig | hsmall
    · omega
    · exact toLower_of_small hsmall

/-- Lower case keeps the runes of a host. -/
theorem isHostChar (h : (lower c).toNat < 128) (hc : UrlParts.isHostChar c = true ∨ 128 ≤ c.toNat) :
    UrlParts.isHostChar (lower c) = true := by
  by_cases hascii : c.toNat < 128
  · have hkeeps : ∀ d : Char, d.toNat < 128 → UrlParts.isHostChar d = true → UrlParts.isHostChar d.toLower = true :=
      fun d hd => ascii_induction (P := fun d => UrlParts.isHostChar d = true → UrlParts.isHostChar d.toLower = true)
        (by decide +kernel) hd
    rw [hlower.ascii hascii]
    exact hkeeps c hascii (hc.resolve_right (by omega))
  · rcases hlower.other (not_lt.mp hascii) with hbig | hsmall
    · omega
    · simp [UrlParts.isHostChar, isLetter_of_small hsmall]

end LowerRules

theorem toNat_lt_of_isHostChar (h : UrlParts.isHostChar c = true) : c.toNat < 128 := by
  simp only [UrlParts.isHostChar, isLetter, Bool.or_eq_true, Bool.and_eq_true, decide_eq_true_eq] at h
  rcases h with (hletter | hdigit) | hmark
  · have hz : c.val.toNat ≤ 122 := by
      rcases hletter with hc | hc
      · exact UInt32.le_iff_toNat_le.mp (Char.le_def.mp hc.2)
      · exact (UInt32.le_iff_toNat_le.mp (Char.le_def.mp hc.2)).trans (by decide)
    exact Nat.lt_of_le_of_lt hz (by decide)
  · obtain ⟨d, hd⟩ := Option.isSome_iff_exists.mp hdigit
    have hval := digit_eq_some hd
    have heq : c.toNat = c.val.toNat := rfl
    omega
  · have hmarks : ∀ d ∈ "-_.~!$&'()*+,;=:[]<>\"".toList, d.toNat < 128 :=
      List.all_iff_forall_prop.mp (by decide)
    exact hmarks c (List.contains_iff_mem.mp hmark)

/-- What a rune of a host is not. -/
theorem plain_of_isHostChar (h : UrlParts.isHostChar c = true) :
    isCTL c = false ∧ isSpace c = false ∧ c ≠ '?' ∧ c ≠ '#' ∧ c ≠ '/' ∧ c ≠ '@' :=
  ascii_induction (P := fun c => UrlParts.isHostChar c = true →
    isCTL c = false ∧ isSpace c = false ∧ c ≠ '?' ∧ c ≠ '#' ∧ c ≠ '/' ∧ c ≠ '@') (by decide +kernel)
    (toNat_lt_of_isHostChar h) h

/-! ## The host of a URL -/

theorem trimSuffix_cases (s : String) (c : Char) :
    (s.toList.getLast? ≠ some c ∧ trimSuffix s c = s) ∨ s.toList = (trimSuffix s c).toList ++ [c] := by
  unfold trimSuffix
  by_cases hlast : s.toList.getLast? = some c
  · rw [if_pos hlast, String.toList_ofList]
    obtain ⟨init, hinit⟩ := List.getLast?_eq_some_iff.mp hlast
    exact Or.inr (by rw [hinit, List.dropLast_concat])
  · rw [if_neg hlast]
    exact Or.inl ⟨hlast, rfl⟩

theorem mem_of_mem_trimSuffix (h : d ∈ (trimSuffix s c).toList) : d ∈ s.toList := by
  rcases trimSuffix_cases s c with ⟨-, heq⟩ | heq
  · rwa [heq] at h
  · rw [heq]
    exact List.mem_append_left _ h

theorem mem_trimSuffix_of_ne (hne : d ≠ c) : d ∈ (trimSuffix s c).toList ↔ d ∈ s.toList := by
  refine ⟨mem_of_mem_trimSuffix, fun h => ?_⟩
  rcases trimSuffix_cases s c with ⟨-, heq⟩ | heq
  · rwa [heq]
  · rw [heq] at h
    rcases List.mem_append.mp h with h | h
    · exact h
    · exact absurd (List.mem_singleton.mp h) hne

theorem toList_toLower (lower : Char → Char) (s : String) : (toLower lower s).toList = s.toList.map lower := by
  rw [toLower, String.toList_ofList]

section

variable {lib : Lib} {parts : UrlParts} {u : URL}

theorem exists_of_mem_hostOf (h : d ∈ (hostOf lib u).toList) : ∃ c ∈ u.hostname.toList, lib.lower c = d := by
  have hmem := mem_of_mem_trimSuffix h
  rw [toList_toLower] at hmem
  exact List.mem_map.mp hmem

/-- A mark of the host is in its normal form exactly if it was there before. -/
theorem mem_hostOf_iff (hlower : LowerRules lib.lower) {x : Char} (hx : x.toNat < 128) (hletter : isLetter x = false)
    (hdot : x ≠ '.') : x ∈ (hostOf lib u).toList ↔ x ∈ u.hostname.toList := by
  unfold hostOf
  rw [mem_trimSuffix_of_ne hdot, toList_toLower, List.mem_map]
  constructor
  · rintro ⟨c, hc, heq⟩
    rwa [(hlower.eq_iff hx hletter c).mp heq] at hc
  · intro h
    exact ⟨x, h, (hlower.eq_iff hx hletter x).mpr rfl⟩

/-- A host that was parsed is a name or an address in brackets, and an optional port. -/
theorem host_cases (rules : parts.Rules) (h : parts.parseHost a = some u.host) :
    ∃ port, validOptionalPort port = true ∧ u.port.toList = port.tail ∧
      ((':' ∉ u.hostname.toList ∧ '[' ∉ u.hostname.toList ∧ ' ' ∉ u.hostname.toList ∧
          u.host.toList = u.hostname.toList ++ port) ∨
        (UrlParts.IsLiteral u.hostname.toList ∧ u.host.toList = '[' :: (u.hostname.toList ++ [']']) ++ port)) := by
  have hshape := rules.shape h
  unfold URL.hostname URL.port
  rw [← String.ofList_toList (s := u.host)]
  generalize u.host.toList = host at hshape
  cases hshape with
  | @name name port hport hcolon hopen hblank =>
    refine ⟨port, hport, ?_, Or.inl ?_⟩
    · rw [splitHostPort_name hport hcolon hopen, String.toList_ofList]
    · rw [splitHostPort_name hport hcolon hopen, String.toList_ofList, String.toList_ofList]
      exact ⟨hcolon, hopen, hblank, rfl⟩
  | @literal lit port hport hlit =>
    refine ⟨port, hport, ?_, Or.inr ?_⟩
    · rw [splitHostPort_literal hport, String.toList_ofList]
    · rw [splitHostPort_literal hport, String.toList_ofList, String.toList_ofList]
      exact ⟨hlit, rfl⟩

end

/-! ## Reading a normal form -/

theorem trimSpace_eq_self (hfirst : ∀ c ∈ s.toList.head?, isSpace c = false)
    (hlast : ∀ c ∈ s.toList.getLast?, isSpace c = false) : trimSpace s = s := by
  have hdrop : s.toList.dropWhile isSpace = s.toList := by
    cases hs : s.toList with
    | nil => rfl
    | cons c cs =>
      rw [hs] at hfirst
      exact List.dropWhile_cons_of_neg (Bool.eq_false_iff.mp (hfirst c rfl))
  have hrdrop : s.toList.rdropWhile isSpace = s.toList := by
    rw [List.rdropWhile_eq_self_iff]
    intro hne
    exact Bool.eq_false_iff.mp (hlast _ (List.getLast?_eq_some_getLast hne))
  unfold trimSpace trimSpaceRunes
  rw [hdrop, hrdrop, String.ofList_toList]

section

variable {lib : Lib} {parts : UrlParts} {u : URL} (rules : parts.Rules) (hlower : LowerRules lib.lower)

/-- The host and the port as a normal form writes them. -/
def authorityOf (lib : Lib) (u : URL) : List Char :=
  bracketed (hostOf lib u).toList ++ portSuffix (elidedPort lib u).toList

theorem mem_bracketed {host : List Char} (h : d ∈ bracketed host) : d ∈ host ∨ d = '[' ∨ d = ']' := by
  unfold bracketed at h
  split_ifs at h
  · simp only [List.mem_cons, List.mem_append, List.not_mem_nil, or_false] at h
    tauto
  · exact Or.inl h

theorem mem_bracketed_of_mem {host : List Char} (h : d ∈ host) : d ∈ bracketed host := by
  unfold bracketed
  split_ifs
  · exact List.mem_cons_of_mem _ (List.mem_append_left _ h)
  · exact h

theorem mem_portSuffix {port : List Char} (h : d ∈ portSuffix port) : d ∈ port ∨ d = ':' := by
  unfold portSuffix at h
  split_ifs at h
  · exact absurd h List.not_mem_nil
  · exact (List.mem_cons.mp h).symm

theorem isHostChar_of_isDigit (h : isDigit c = true) : UrlParts.isHostChar c = true := by
  unfold isDigit at h
  simp [UrlParts.isHostChar, h]

theorem validOptionalPort_portSuffix {port : List Char} (h : ∀ c ∈ port, isDigit c = true) :
    validOptionalPort (portSuffix port) = true := by
  unfold portSuffix
  split_ifs with hnil
  · rfl
  · exact validOptionalPort_iff.mpr (Or.inr ⟨port, rfl, h⟩)

include rules

theorem mem_hostname_of_parseHost (hhost : parts.parseHost a = some u.host) (hc : c ∈ u.hostname.toList) :
    c ∈ u.host.toList := by
  obtain ⟨port, -, -, ⟨-, -, -, heq⟩ | ⟨-, heq⟩⟩ := host_cases rules hhost
  · rw [heq]
    exact List.mem_append_left _ hc
  · rw [heq]
    exact List.mem_append_left _ (List.mem_cons_of_mem _ (List.mem_append_left _ hc))

include hlower

theorem hostOf_chars (hcomp : Comparable lib u) (hhost : parts.parseHost a = some u.host)
    (hd : d ∈ (hostOf lib u).toList) : UrlParts.isHostChar d = true ∨ d = '%' ∨ d = ' ' := by
  have hascii := isASCII_iff.mp hcomp.ascii d hd
  obtain ⟨c, hc, rfl⟩ := exists_of_mem_hostOf hd
  rcases rules.chars hhost c (mem_hostname_of_parseHost rules hhost hc) with hchar | rfl | rfl | hbig
  · exact Or.inl (hlower.isHostChar hascii (Or.inl hchar))
  · exact Or.inr (Or.inl ((hlower.eq_iff (by decide) (by decide) _).mpr rfl))
  · exact Or.inr (Or.inr ((hlower.eq_iff (by decide) (by decide) _).mpr rfl))
  · exact Or.inl (hlower.isHostChar hascii (Or.inr hbig))

theorem authorityOf_chars (hcomp : Comparable lib u) (hhost : parts.parseHost a = some u.host)
    (hd : d ∈ authorityOf lib u) : UrlParts.isHostChar d = true ∨ d = '%' ∨ d = ' ' := by
  rcases List.mem_append.mp hd with hd | hd
  · rcases mem_bracketed hd with hd | rfl | rfl
    · exact hostOf_chars rules hlower hcomp hhost hd
    · exact Or.inl (by decide)
    · exact Or.inl (by decide)
  · rcases mem_portSuffix hd with hd | rfl
    · exact Or.inl (isHostChar_of_isDigit (isDigit_of_mem_elidedPort d hd))
    · exact Or.inl (by decide)

theorem getLast_authorityOf (hcomp : Comparable lib u) (hhost : parts.parseHost a = some u.host) :
    ∀ c ∈ (authorityOf lib u).getLast?, isSpace c = false := by
  intro c hc
  have hne : (hostOf lib u).toList ≠ [] := fun hnil => hcomp.hostOf_ne (String.toList_eq_nil_iff.mp hnil)
  unfold authorityOf portSuffix at hc
  by_cases hport : (elidedPort lib u).toList = []
  · rw [if_pos hport, List.append_nil] at hc
    unfold bracketed at hc
    by_cases hcolon : ':' ∈ (hostOf lib u).toList
    · rw [if_pos hcolon, ← List.cons_append, List.getLast?_concat] at hc
      rw [← Option.some.inj hc]
      decide
    · rw [if_neg hcolon] at hc
      have hmem := List.mem_of_getLast? (Option.mem_def.mp hc)
      -- a host without a colon is a name, which has no blank
      have hblank : ' ' ∉ (hostOf lib u).toList := by
        rw [mem_hostOf_iff hlower (by decide) (by decide) (by decide)]
        rw [mem_hostOf_iff hlower (by decide) (by decide) (by decide)] at hcolon
        obtain ⟨port, -, -, ⟨-, -, hblank, -⟩ | ⟨hlit, -⟩⟩ := host_cases rules hhost
        · exact hblank
        · exact absurd hlit.colon hcolon
      rcases hostOf_chars rules hlower hcomp hhost hmem with hchar | rfl | rfl
      · exact (plain_of_isHostChar hchar).2.1
      · decide
      · exact absurd hmem hblank
  · rw [if_neg hport, List.getLast?_append_of_ne_nil _ (List.cons_ne_nil _ _), List.getLast?_cons_of_ne_nil hport] at hc
    exact (plain_of_isHostChar (isHostChar_of_isDigit
      (isDigit_of_mem_elidedPort c (List.mem_of_getLast? (Option.mem_def.mp hc))))).2.1

omit rules hlower in
theorem authorityOf_ne_nil (hcomp : Comparable lib u) : authorityOf lib u ≠ [] := by
  unfold authorityOf bracketed
  intro hnil
  have hhostnil := (List.append_eq_nil_iff.mp hnil).1
  split_ifs at hhostnil
  exact hcomp.hostOf_ne (String.toList_eq_nil_iff.mp hhostnil)

omit rules hlower in
/-- The text of a normal form, with a scheme that `Parse` recognises. -/
theorem originText_cons (hcomp : Comparable lib u) :
    ∃ c cs, isSpace c = false ∧ isLetter c = true ∧ (∀ d ∈ c :: cs, isSchemeChar d = true) ∧
      schemeOf lib u = String.ofList ((c :: cs).map Char.toLower) ∧
      originText (schemeOf lib u) (hostOf lib u) (elidedPort lib u) =
        String.ofList (c :: cs ++ ':' :: '/' :: '/' :: authorityOf lib u) := by
  have hslashes : "://".toList = [':', '/', '/'] := rfl
  have htext : ∀ cs, (schemeOf lib u).toList = cs →
      originText (schemeOf lib u) (hostOf lib u) (elidedPort lib u) =
        String.ofList (cs ++ ':' :: '/' :: '/' :: authorityOf lib u) := by
    intro cs hcs
    unfold originText authorityOf
    rw [hcs, hslashes]
    simp only [List.append_assoc, List.cons_append, List.nil_append]
  rcases isHTTP_iff.mp hcomp.http with h | h
  · refine ⟨'h', ['t', 't', 'p'], by decide, by decide, List.all_iff_forall_prop.mp (by decide), ?_,
      htext _ (by rw [h]; rfl)⟩
    rw [h]
    decide
  · refine ⟨'h', ['t', 't', 'p', 's'], by decide, by decide, List.all_iff_forall_prop.mp (by decide), ?_,
      htext _ (by rw [h]; rfl)⟩
    rw [h]
    decide

theorem trimSpace_normalForm (hcomp : Comparable lib u) (hhost : parts.parseHost a = some u.host) :
    trimSpace (originText (schemeOf lib u) (hostOf lib u) (elidedPort lib u)) =
      originText (schemeOf lib u) (hostOf lib u) (elidedPort lib u) := by
  obtain ⟨c, cs, hfirst, -, -, -, htext⟩ := originText_cons hcomp
  rw [htext]
  refine trimSpace_eq_self ?_ ?_
  · rw [String.toList_ofList]
    rintro d ⟨⟩
    exact hfirst
  · rw [String.toList_ofList, List.getLast?_append_of_ne_nil _ (List.cons_ne_nil _ _),
      List.getLast?_cons_of_ne_nil (List.cons_ne_nil _ _), List.getLast?_cons_of_ne_nil (List.cons_ne_nil _ _),
      List.getLast?_cons_of_ne_nil (authorityOf_ne_nil hcomp)]
    exact getLast_authorityOf rules hlower hcomp hhost

/-- A normal form is read as its scheme and what `parseHost` makes of its host and port. -/
theorem parsed_normalForm (hparse : lib.parseURL = parts.parse) (hcomp : Comparable lib u)
    (hhost : parts.parseHost a = some u.host) :
    parsed lib (originText (schemeOf lib u) (hostOf lib u) (elidedPort lib u)) =
      (parts.parseHost (authorityOf lib u)).map fun host =>
        { scheme := schemeOf lib u, user := none, host, path := "", rawQuery := "", fragment := "" } := by
  have hchars : ∀ d ∈ authorityOf lib u, isCTL d = false ∧ d ≠ '?' ∧ d ≠ '#' ∧ d ≠ '/' ∧ d ≠ '@' := by
    intro d hd
    rcases authorityOf_chars rules hlower hcomp hhost hd with hchar | rfl | rfl
    · have hplain := plain_of_isHostChar hchar
      exact ⟨hplain.1, hplain.2.2⟩
    · decide
    · decide
  have hauthority : parts.parseAuthority (authorityOf lib u) =
      (parts.parseHost (authorityOf lib u)).map fun host => (none, host) := by
    unfold UrlParts.parseAuthority
    rw [if_neg fun hat => (hchars '@' hat).2.2.2.2 rfl]
  obtain ⟨c, cs, -, hc, hcs, hscheme, htext⟩ := originText_cons hcomp
  unfold parsed
  rw [trimSpace_normalForm rules hlower hcomp hhost, htext, hparse, hscheme, ← List.append_nil (authorityOf lib u),
    UrlParts.parse_parts parts hc hcs (fun h => (hchars '/' h).2.2.2.1 rfl) (Or.inl rfl), List.append_nil, hauthority,
    rules.path_nil, rules.rawPath_nil]
  · cases parts.parseHost (authorityOf lib u) <;> rfl
  · intro d hd
    rw [List.append_nil] at hd
    have hplain := hchars d hd
    exact ⟨hplain.1, hplain.2.1, hplain.2.2.1⟩

end

/-! ## Fixed points -/

theorem splitHostPort_authority {host port : List Char} (hopen : ':' ∉ host → '[' ∉ host)
    (hport : ∀ c ∈ port, isDigit c = true) :
    splitHostPort (String.ofList (bracketed host ++ portSuffix port)) = (String.ofList host, String.ofList port) := by
  have hvalid := validOptionalPort_portSuffix hport
  have htail : (portSuffix port).tail = port := by
    unfold portSuffix
    split_ifs with hnil
    · exact hnil.symm
    · rfl
  unfold bracketed
  by_cases hcolon : ':' ∈ host
  · rw [if_pos hcolon, splitHostPort_literal hvalid, htail]
  · rw [if_neg hcolon, splitHostPort_name hvalid hcolon (hopen hcolon), htail]

section

variable {lib : Lib} {parts : UrlParts} {u : URL} (hlower : LowerRules lib.lower)

include hlower

theorem toLower_hostOf (hcomp : Comparable lib u) : toLower lib.lower (hostOf lib u) = hostOf lib u := by
  have hfix : ∀ d ∈ (hostOf lib u).toList, lib.lower d = id d := by
    intro d hd
    have hascii := isASCII_iff.mp hcomp.ascii d hd
    obtain ⟨c, -, rfl⟩ := exists_of_mem_hostOf hd
    exact hlower.lower_lower hascii
  rw [← String.toList_inj, toList_toLower, List.map_congr_left hfix, List.map_id]

theorem toLower_of_isHTTP {scheme : String} (h : isHTTP scheme = true) : toLower lib.lower scheme = scheme := by
  have hsmall : ∀ d ∈ scheme.toList, d.toNat < 128 ∧ d.toLower = d := by
    rcases isHTTP_iff.mp h with rfl | rfl
    · exact List.all_iff_forall_prop.mp (by decide)
    · exact List.all_iff_forall_prop.mp (by decide)
  have hfix : ∀ d ∈ scheme.toList, lib.lower d = id d := by
    intro d hd
    rw [hlower.ascii (hsmall d hd).1, (hsmall d hd).2]
    rfl
  rw [← String.toList_inj, toList_toLower, List.map_congr_left hfix, List.map_id]

end

/-- The URL a normal form is read as, if its host and port are read as they are. -/
def normalURL (lib : Lib) (u : URL) : URL where
  scheme := schemeOf lib u
  user := none
  host := String.ofList (authorityOf lib u)
  path := ""
  rawQuery := ""
  fragment := ""

theorem schemeOf_normalURL (hlower : LowerRules lib.lower) (hcomp : Comparable lib u) :
    schemeOf lib (normalURL lib u) = schemeOf lib u :=
  toLower_of_isHTTP hlower hcomp.http

section

variable {lib : Lib} {parts : UrlParts} {u : URL} {a : List Char} (rules : parts.Rules) (hlower : LowerRules lib.lower)
  (hcomp : Comparable lib u) (hhost : parts.parseHost a = some u.host)

include rules hlower hhost

theorem open_notMem_hostOf (hcolon : ':' ∉ (hostOf lib u).toList) : '[' ∉ (hostOf lib u).toList := by
  rw [mem_hostOf_iff hlower (by decide) (by decide) (by decide)] at hcolon ⊢
  obtain ⟨port, -, -, ⟨-, hopen, -, -⟩ | ⟨hlit, -⟩⟩ := host_cases rules hhost
  · exact hopen
  · exact absurd hlit.colon hcolon

theorem splitHostPort_normalURL :
    splitHostPort (normalURL lib u).host = (hostOf lib u, elidedPort lib u) := by
  unfold normalURL authorityOf
  rw [splitHostPort_authority (open_notMem_hostOf rules hlower hhost) isDigit_of_mem_elidedPort, String.ofList_toList,
    String.ofList_toList]

include hcomp

theorem hostOf_normalURL : hostOf lib (normalURL lib u) = trimSuffix (hostOf lib u) '.' := by
  have hname : (normalURL lib u).hostname = hostOf lib u := by
    unfold URL.hostname
    rw [splitHostPort_normalURL rules hlower hhost]
  calc hostOf lib (normalURL lib u) = trimSuffix (toLower lib.lower (normalURL lib u).hostname) '.' := rfl
    _ = trimSuffix (hostOf lib u) '.' := by rw [hname, toLower_hostOf hlower hcomp]

theorem elidedPort_normalURL : elidedPort lib (normalURL lib u) = elidedPort lib u := by
  have hport : (normalURL lib u).port = elidedPort lib u := by
    unfold URL.port
    rw [splitHostPort_normalURL rules hlower hhost]
  have heq : elidedPort lib (normalURL lib u) =
      if elidedPort lib u = defaultPort (schemeOf lib u) then "" else elidedPort lib u := by
    rw [← hport, ← schemeOf_normalURL hlower hcomp]
    rfl
  rw [heq]
  by_cases hdefault : u.port = defaultPort (schemeOf lib u)
  · have helided : elidedPort lib u = "" := if_pos hdefault
    rw [helided, ite_self]
  · have helided : elidedPort lib u = u.port := if_neg hdefault
    rw [helided, if_neg hdefault]

/-- A normal form without a percent sign is read as it is written. -/
theorem parseHost_authorityOf (hpercent : '%' ∉ u.hostname.toList) :
    parts.parseHost (authorityOf lib u) = some (String.ofList (authorityOf lib u)) := by
  have hvalid : validOptionalPort (portSuffix (elidedPort lib u).toList) = true :=
    validOptionalPort_portSuffix isDigit_of_mem_elidedPort
  have hcolon : ':' ∈ (hostOf lib u).toList ↔ ':' ∈ u.hostname.toList :=
    mem_hostOf_iff hlower (by decide) (by decide) (by decide)
  unfold authorityOf bracketed
  obtain ⟨port, hport, -, ⟨hname, -, hblank, -⟩ | ⟨hlit, heq⟩⟩ := host_cases rules hhost
  · have hnot : ':' ∉ (hostOf lib u).toList := fun h => hname (hcolon.mp h)
    rw [if_neg hnot]
    refine rules.name ?_ ?_ hnot (open_notMem_hostOf rules hlower hhost hnot) hvalid
    · exact fun hnil => hcomp.hostOf_ne (String.toList_eq_nil_iff.mp hnil)
    · intro d hd
      rcases hostOf_chars rules hlower hcomp hhost hd with hchar | rfl | rfl
      · exact hchar
      · exact absurd ((mem_hostOf_iff hlower (by decide) (by decide) (by decide)).mp hd) hpercent
      · exact absurd ((mem_hostOf_iff hlower (by decide) (by decide) (by decide)).mp hd) hblank
  · obtain ⟨hascii, -, hlast⟩ := hlit.address hpercent
    have hsmall : (toLower lib.lower u.hostname).toList = u.hostname.toList.map Char.toLower := by
      rw [toList_toLower]
      exact List.map_congr_left fun d hd => hlower.ascii (hascii d hd)
    have hhostOf : (hostOf lib u).toList = u.hostname.toList.map Char.toLower := by
      rw [← hsmall]
      unfold hostOf
      rcases trimSuffix_cases (toLower lib.lower u.hostname) '.' with ⟨-, hsame⟩ | hdot
      · rw [hsame]
      · -- an address does not end with a dot
        have hend := congrArg List.getLast? hdot
        rw [List.getLast?_concat, toList_toLower, List.getLast?_map, Option.map_eq_some_iff] at hend
        obtain ⟨d, hd, hdot'⟩ := hend
        rw [(hlower.eq_iff (by decide) (by decide) d).mp hdot'] at hd
        exact absurd hd hlast
    rw [if_pos (hcolon.mpr hlit.colon), hhostOf]
    exact rules.literal hhost heq hpercent hvalid

end

theorem length_trimSuffix_le (s : String) (c : Char) : (trimSuffix s c).toList.length ≤ s.toList.length := by
  rcases trimSuffix_cases s c with ⟨-, heq⟩ | heq
  · rw [heq]
  · rw [heq, List.length_append]
    omega

/-- A normal form is not longer than the host and the port it was made of. -/
theorem length_authorityOf_le {parts : UrlParts} (rules : parts.Rules) (hlower : LowerRules lib.lower)
    (hhost : parts.parseHost a = some u.host) : (authorityOf lib u).length ≤ u.host.toList.length := by
  obtain ⟨port, hvalid, hport, hcases⟩ := host_cases rules hhost
  have hname : (hostOf lib u).toList.length ≤ u.hostname.toList.length := by
    refine (length_trimSuffix_le _ _).trans ?_
    rw [toList_toLower, List.length_map]
  have hsuffix : (portSuffix (elidedPort lib u).toList).length ≤ port.length := by
    unfold portSuffix
    split_ifs with hnil
    · exact Nat.zero_le _
    · have helided : elidedPort lib u = u.port := by
        unfold elidedPort at hnil ⊢
        split_ifs at hnil ⊢ with hdefault
        · exact absurd rfl hnil
        · rfl
      rw [helided] at hnil ⊢
      rw [hport] at hnil ⊢
      cases port with
      | nil => exact absurd rfl hnil
      | cons c cs => exact le_refl _
  have hcolon : ':' ∈ (hostOf lib u).toList ↔ ':' ∈ u.hostname.toList :=
    mem_hostOf_iff hlower (by decide) (by decide) (by decide)
  unfold authorityOf bracketed
  rw [List.length_append]
  rcases hcases with ⟨hnot, -, -, heq⟩ | ⟨hlit, heq⟩
  · rw [if_neg (fun h => hnot (hcolon.mp h)), heq, List.length_append]
    omega
  · rw [if_pos (hcolon.mpr hlit.colon), heq]
    simp only [List.length_cons, List.length_append, List.length_nil]
    omega

/-- A host that its normal form keeps: no percent sign, and at most one dot at its end. -/
def PlainHost (u : URL) : Prop := '%' ∉ u.hostname.toList ∧ ¬ ['.', '.'] <:+ u.hostname.toList

theorem getLast_hostOf_iff (hlower : LowerRules lib.lower) :
    (hostOf lib u).toList.getLast? = some '.' ↔ ['.', '.'] <:+ u.hostname.toList := by
  have hdot : ∀ c, lib.lower c = '.' ↔ c = '.' := hlower.eq_iff (by decide) (by decide)
  unfold hostOf
  constructor
  · intro hlast
    rcases trimSuffix_cases (toLower lib.lower u.hostname) '.' with ⟨hne, heq⟩ | heq
    · rw [heq] at hlast
      exact absurd hlast hne
    · obtain ⟨init, hinit⟩ := List.getLast?_eq_some_iff.mp hlast
      rw [hinit, toList_toLower, List.append_assoc] at heq
      obtain ⟨x, y, hxy, -, hy⟩ := List.map_eq_append_iff.mp heq
      obtain ⟨c, d, rfl⟩ : ∃ c d, y = [c, d] := by
        rw [← List.length_eq_two, ← List.length_map lib.lower, hy]
        rfl
      obtain ⟨hc, hd⟩ := List.cons.inj hy
      rw [(hdot c).mp hc, (hdot d).mp (List.cons.inj hd).1] at hxy
      exact ⟨x, hxy.symm⟩
  · rintro ⟨x, hx⟩
    have hlower' : (toLower lib.lower u.hostname).toList = x.map lib.lower ++ ['.'] ++ ['.'] := by
      rw [toList_toLower, ← hx, List.map_append]
      simp [(hdot '.').mpr rfl]
    rcases trimSuffix_cases (toLower lib.lower u.hostname) '.' with ⟨hne, -⟩ | heq
    · rw [hlower', List.getLast?_concat] at hne
      exact absurd rfl hne
    · rw [hlower'] at heq
      rw [← List.append_cancel_right heq, List.getLast?_concat]

theorem trimSuffix_eq_self_iff : trimSuffix s c = s ↔ s.toList.getLast? ≠ some c := by
  rcases trimSuffix_cases s c with ⟨hne, heq⟩ | heq
  · exact iff_of_true heq hne
  · refine iff_of_false (fun hself => ?_) (fun hne => hne (by rw [heq, List.getLast?_concat]))
    have hlength := congrArg List.length heq
    rw [hself, List.length_append, List.length_singleton] at hlength
    omega

/-- A normal form that is read as it is written changes only if its host still ends with a dot. -/
theorem normalizeOrigin_normalForm_iff {parts : UrlParts} (rules : parts.Rules) (hlower : LowerRules lib.lower)
    (hcomp : Comparable lib u) (hhost : parts.parseHost a = some u.host)
    (hnormal : parsed lib (originText (schemeOf lib u) (hostOf lib u) (elidedPort lib u)) = some (normalURL lib u)) :
    normalizeOrigin lib (originText (schemeOf lib u) (hostOf lib u) (elidedPort lib u)) =
      originText (schemeOf lib u) (hostOf lib u) (elidedPort lib u) ↔ trimSuffix (hostOf lib u) '.' = hostOf lib u := by
  have hne : originText (schemeOf lib u) (hostOf lib u) (elidedPort lib u) ≠ "" := by
    obtain ⟨c, cs, -, -, -, -, htext⟩ := originText_cons hcomp
    rw [htext]
    intro hempty
    rw [String.ofList_eq_empty_iff] at hempty
    cases hempty
  have htrim := trimSpace_normalForm rules hlower hcomp hhost
  have hscheme := schemeOf_normalURL hlower hcomp
  have hhostOf := hostOf_normalURL rules hlower hcomp hhost
  have hport := elidedPort_normalURL rules hlower hcomp hhost
  constructor
  · intro heq
    obtain ⟨hraw, hcomp'⟩ := comparable_of_ne hnormal (heq.trans_ne hne)
    rw [normalizeOrigin_eq hnormal hraw hcomp', hscheme, hhostOf, hport, originText_inj hcomp.http hcomp.http
      isDigit_of_mem_elidedPort isDigit_of_mem_elidedPort] at heq
    exact heq.2.1
  · intro hsame
    rw [hsame] at hhostOf
    have hcomp' : Comparable lib (normalURL lib u) := by
      refine ⟨?_, ?_, Or.inl rfl, rfl, rfl, rfl, ?_, ?_⟩
      · intro hempty
        exact authorityOf_ne_nil hcomp (String.ofList_eq_empty_iff.mp hempty)
      · rw [hscheme]
        exact hcomp.http
      · rw [hhostOf]
        exact hcomp.hostOf_ne
      · rw [hhostOf]
        exact hcomp.ascii
    rw [normalizeOrigin_eq hnormal (by rw [htrim]; exact hne) hcomp', hscheme, hhostOf, hport]

section

variable {lib : Lib} {parts : UrlParts} (hparse : lib.parseURL = parts.parse) (rules : parts.Rules)
  (hlower : LowerRules lib.lower)

include hparse rules hlower

/-- A normal form is its own normal form exactly if the host it was made of is plain. -/
theorem normalizeOrigin_idem_iff {raw : String} (hparsed : parsed lib raw = some u)
    (hne : normalizeOrigin lib raw ≠ "") :
    normalizeOrigin lib (normalizeOrigin lib raw) = normalizeOrigin lib raw ↔ PlainHost u := by
  obtain ⟨hraw, hcomp⟩ := comparable_of_ne hparsed hne
  have hparsed' : parts.parse (trimSpace raw) = some u := by
    rw [← hparse]
    exact hparsed
  obtain ⟨a, hhost⟩ := UrlParts.parseHost_of_parse hparsed' hcomp.host_ne hcomp.user
  have hread := parsed_normalForm rules hlower hparse hcomp hhost
  rw [normalizeOrigin_eq hparsed hraw hcomp] at hne ⊢
  by_cases hpercent : '%' ∈ u.hostname.toList
  · refine iff_of_false (fun heq => ?_) (fun hplain => hplain.1 hpercent)
    obtain ⟨v, hv⟩ := parsed_of_ne (heq.trans_ne hne)
    obtain ⟨hraw', hcomp'⟩ := comparable_of_ne hv (heq.trans_ne hne)
    rw [normalizeOrigin_eq hv hraw' hcomp', originText_inj hcomp'.http hcomp.http isDigit_of_mem_elidedPort
      isDigit_of_mem_elidedPort] at heq
    rw [hread, Option.map_eq_some_iff] at hv
    obtain ⟨host, hread', hurl⟩ := hv
    have hvhost : host = v.host := congrArg URL.host hurl
    rw [hvhost] at hread'
    have hauthority : authorityOf lib v = authorityOf lib u := by
      unfold authorityOf
      rw [heq.2.1, heq.2.2]
    have hmem : '%' ∈ authorityOf lib u := by
      refine List.mem_append_left _ (mem_bracketed_of_mem ?_)
      exact (mem_hostOf_iff hlower (by decide) (by decide) (by decide)).mpr hpercent
    have hshort := rules.escape hread' hmem
    have hlong : (authorityOf lib v).length ≤ v.host.toList.length := length_authorityOf_le rules hlower hread'
    rw [hauthority] at hlong
    omega
  · rw [parseHost_authorityOf rules hlower hcomp hhost hpercent, Option.map_some] at hread
    have hnormal : parsed lib (originText (schemeOf lib u) (hostOf lib u) (elidedPort lib u)) =
        some (normalURL lib u) := hread
    rw [normalizeOrigin_normalForm_iff rules hlower hcomp hhost hnormal, trimSuffix_eq_self_iff, PlainHost,
      ← getLast_hostOf_iff hlower]
    exact ⟨fun h => ⟨hpercent, h⟩, fun h => h.2⟩

end

end Vizra.Configuration
