import Vizra.Config.Proofs.SelfOriginProofs
import Vizra.HttpApi.ClaimRequest

/-!
# Proofs: the configured origin and the `Origin` header

`LoadFrom` drops all trailing slashes of the public origin before it stores the normal form, and `checkOrigin` brings
the header and the stored value into their normal form once more. The value of the environment then matches itself
exactly if its host is plain and it ends with at most the one slash that `NormalizeOrigin` drops too.
-/

namespace Vizra.HttpApi

open Go Vizra.Configuration

/-! ## Trailing slashes -/

theorem getLast_trimSpace {s : String} {c : Char} (h : c ∈ (trimSpace s).toList.getLast?) : isSpace c = false := by
  rw [trimSpace, String.toList_ofList, Option.mem_def] at h
  unfold trimSpaceRunes at h
  have hne : (s.toList.dropWhile isSpace).rdropWhile isSpace ≠ [] := by
    intro hnil
    rw [hnil] at h
    cases h
  have hlast := List.rdropWhile_last_not isSpace _ hne
  rw [List.getLast?_eq_some_getLast hne] at h
  rw [Option.some.inj h] at hlast
  exact Bool.eq_false_of_not_eq_true hlast

theorem head_trimSpace {s : String} {c : Char} (h : c ∈ (trimSpace s).toList.head?) : isSpace c = false := by
  rw [trimSpace, String.toList_ofList, Option.mem_def] at h
  obtain ⟨tail, htail⟩ : trimSpaceRunes s.toList <+: s.toList.dropWhile isSpace := List.rdropWhile_prefix _ _
  have hhead : (s.toList.dropWhile isSpace).head? = some c := by
    rw [← htail, List.head?_append, h]
    rfl
  have hnot := List.head?_dropWhile_not isSpace s.toList
  rw [hhead] at hnot
  simpa using hnot

theorem trimSpace_trimSpace (s : String) : trimSpace (trimSpace s) = trimSpace s :=
  trimSpace_eq_self (fun _ => head_trimSpace) (fun _ => getLast_trimSpace)

theorem trimRight_append (s : String) :
    ∃ k, s.toList = (trimRight s '/').toList ++ List.replicate k '/' := by
  refine ⟨(s.toList.rtakeWhile (· == '/')).length, ?_⟩
  have htail : s.toList.rtakeWhile (· == '/') = List.replicate (s.toList.rtakeWhile (· == '/')).length '/' := by
    refine List.eq_replicate_of_mem fun c hc => ?_
    simpa using List.mem_rtakeWhile_imp hc
  rw [trimRight, String.toList_ofList, ← htail, List.rdropWhile_append_rtakeWhile]

theorem getLast_trimRight (s : String) : (trimRight s '/').toList.getLast? ≠ some '/' := by
  rw [trimRight, String.toList_ofList]
  intro h
  have hne : s.toList.rdropWhile (· == '/') ≠ [] := by
    intro hnil
    rw [hnil] at h
    cases h
  have hlast := List.rdropWhile_last_not (· == '/') _ hne
  rw [List.getLast?_eq_some_getLast hne] at h
  rw [Option.some.inj h] at hlast
  exact hlast rfl

/-- A text that ends with no slash, or with the one slash that a path may consist of. -/
def FewSlashes (origin : String) : Prop :=
  let base := (trimRight origin '/').toList
  origin.toList = base ∨
    (origin.toList = base ++ ['/'] ∧ (∀ c ∈ base.getLast?, isSpace c = false) ∧ '?' ∉ base ∧ '#' ∉ base)

/-- A URL with another path, and neither query nor fragment. -/
def withPath (parts : UrlParts) (u : URL) (path : List Char) : URL :=
  { scheme := u.scheme, user := u.user, host := u.host, path := String.ofList path, rawQuery := "", fragment := "",
    rawPath := parts.rawPath path }

section

variable {lib : Lib} {parts : UrlParts} (hparse : lib.parseURL = parts.parse) (rules : parts.Rules)
  (hlower : LowerRules lib.lower)

/-- A text whose URL cannot have a normal form has none. -/
theorem normalizeOrigin_eq_empty {origin : String} (h : ∀ u, parsed lib origin = some u → ¬ Comparable lib u) :
    normalizeOrigin lib origin = "" := by
  by_contra hne
  obtain ⟨u, hu⟩ := parsed_of_ne hne
  exact h u hu (comparable_of_ne hu hne).2

include rules in
theorem unescapePath_slashes (k : Nat) :
    parts.unescapePath (List.replicate k '/') = some (String.ofList (List.replicate k '/')) := by
  induction k with
  | zero => exact rules.path_nil
  | succ k ih =>
    rw [List.replicate_succ, rules.path_slash, ih, Option.map_some]
    congr 1
    rw [← String.toList_inj]
    simp only [String.toList_append, String.toList_ofList]
    rfl

include rules in
/-- A path of at most a slash is written as it is. -/
theorem path_eq_of_unescapePath {p : List Char} {q : String} (hp : p = [] ∨ ∃ p', p = '/' :: p')
    (h : parts.unescapePath p = some q) (hq : q = "" ∨ q = "/") : p = [] ∨ p = ['/'] := by
  rcases hp with rfl | ⟨p', rfl⟩
  · exact Or.inl rfl
  · rw [rules.path_slash, Option.map_eq_some_iff] at h
    obtain ⟨q', hq', rfl⟩ := h
    have hlength : q'.toList.length = 0 := by
      have hslash : "/".toList = ['/'] := rfl
      rcases hq with hq | hq
      · have := congrArg (fun s : String => s.toList.length) hq
        simp [String.toList_append, hslash] at this
      · have := congrArg (fun s : String => s.toList.length) hq
        simpa [String.toList_append, hslash] using this
    rw [String.toList_eq_nil_iff.mp (List.length_eq_zero_iff.mp hlength)] at hq'
    rw [rules.path_ne hq']
    exact Or.inr rfl

include rules hlower in
/-- White space at the end of a host is not ASCII, and the host has no normal form. -/
theorem not_comparable_of_space {a : List Char} {c : Char} {u : URL} (hspace : isSpace c = true)
    (hlast : a.getLast? = some c) (hauthority : parts.parseAuthority a = some (u.user, u.host)) : ¬ Comparable lib u := by
  intro hcomp
  have hhost := UrlParts.parseHost_of_parseAuthority hcomp.user hauthority
  obtain ⟨init, rfl⟩ := List.getLast?_eq_some_iff.mp hlast
  obtain ⟨hbig, hend⟩ := rules.space hspace hhost
  obtain ⟨port, hvalid, -, hcases⟩ := host_cases rules hhost
  have hport : port = [] := by
    rcases validOptionalPort_iff.mp hvalid with h | ⟨digits, rfl, hdigits⟩
    · exact h
    · -- the end of the host would be the colon or a digit
      have hmem : c ∈ ':' :: digits := by
        rcases hcases with ⟨-, -, -, heq⟩ | ⟨-, heq⟩
        · rw [heq, List.getLast?_append_of_ne_nil _ (List.cons_ne_nil _ _)] at hend
          exact List.mem_of_getLast? hend
        · rw [heq, List.getLast?_append_of_ne_nil _ (List.cons_ne_nil _ _)] at hend
          exact List.mem_of_getLast? hend
      rcases List.mem_cons.mp hmem with rfl | hmem
      · exact absurd hbig (by decide)
      · have hsmall := toNat_lt_of_isHostChar (isHostChar_of_isDigit (hdigits c hmem))
        omega
  subst hport
  have hname : u.hostname.toList.getLast? = some c := by
    rcases hcases with ⟨-, -, -, heq⟩ | ⟨-, heq⟩
    · rw [heq, List.append_nil] at hend
      exact hend
    · rw [heq, List.append_nil, ← List.cons_append, List.getLast?_concat] at hend
      rw [← Option.some.inj hend] at hbig
      exact absurd hbig (by decide)
  have hlowered : (toLower lib.lower u.hostname).toList.getLast? = some c := by
    rw [toList_toLower, List.getLast?_map, hname, Option.map_some, hlower.space hspace]
  have hascii := isASCII_iff.mp hcomp.ascii c
  unfold hostOf at hascii
  rcases trimSuffix_cases (toLower lib.lower u.hostname) '.' with ⟨-, heq⟩ | heq
  · rw [heq] at hascii
    have hsmall := hascii (List.mem_of_getLast? hlowered)
    omega
  · rw [heq, List.getLast?_concat] at hlowered
    rw [← Option.some.inj hlowered] at hbig
    exact absurd hbig (by decide)

include hparse rules

/-- Slashes behind a query or a fragment are part of it. -/
theorem normalizeOrigin_slashes_query {origin base : String} {k : Nat} (htrim : trimSpace origin = origin)
    (horigin : origin.toList = base.toList ++ List.replicate (k + 1) '/')
    (h : '?' ∈ base.toList ∨ '#' ∈ base.toList) : normalizeOrigin lib origin = "" := by
  have hne : List.replicate (k + 1) '/' ≠ [] := List.cons_ne_nil _ _
  refine normalizeOrigin_eq_empty fun u hu hcomp => ?_
  unfold parsed at hu
  rw [htrim, hparse, ← String.ofList_toList (s := origin), horigin] at hu
  by_cases hhash : '#' ∈ base.toList
  · exact UrlParts.fragment_ne_of_parse rules.fragment_ne hhash hne hu hcomp.fragment
  · have hhash' : '#' ∉ base.toList ++ List.replicate (k + 1) '/' := by
      intro hmem
      rcases List.mem_append.mp hmem with hmem | hmem
      · exact hhash hmem
      · exact absurd (List.eq_of_mem_replicate hmem) (by decide)
    exact UrlParts.rawQuery_ne_of_parse hhash' (h.resolve_right hhash) hne hu hcomp.rawQuery

/-- Slashes behind an origin without query and fragment are its path. -/
theorem parse_slashes {origin base : String} {k : Nat} {u : URL}
    (horigin : origin.toList = base.toList ++ List.replicate (k + 1) '/') (hlast : base.toList.getLast? ≠ some '/')
    (hu : lib.parseURL base = some u) (habs : isAbsolute u = true) (hpath : u.path = "" ∨ u.path = "/")
    (hquery : '?' ∉ base.toList) (hhash : '#' ∉ base.toList) :
    lib.parseURL origin = some (withPath parts u (List.replicate (k + 1) '/')) ∧
      ∃ a, base.toList.getLast? = a.getLast? ∧ parts.parseAuthority a = some (u.user, u.host) := by
  rw [hparse] at hu ⊢
  simp only [isAbsolute, ne_eq, Bool.and_eq_true, decide_eq_true_eq] at habs
  have hscheme : u.scheme ≠ "" := by
    intro hempty
    rw [hempty] at habs
    exact absurd habs.2 (by decide)
  obtain ⟨c, cs, a, p, hc, hcs, hslash, hp, hplain, hbase, hauthority, hpathtext, hlower⟩ :=
    UrlParts.parts_of_parse hu habs.1 hscheme hquery hhash
  have hend : ∀ {x : List Char}, x ≠ [] → (c :: cs ++ ':' :: '/' :: '/' :: x).getLast? = x.getLast? := by
    intro x hx
    rw [List.getLast?_append_of_ne_nil _ (List.cons_ne_nil _ _), List.getLast?_cons_of_ne_nil (List.cons_ne_nil _ _),
      List.getLast?_cons_of_ne_nil (List.cons_ne_nil _ _), List.getLast?_cons_of_ne_nil hx]
  have hnil : p = [] := by
    rcases path_eq_of_unescapePath rules hp hpathtext hpath with h | rfl
    · exact h
    · refine absurd ?_ hlast
      rw [hbase, hend (by simp), List.getLast?_concat]
  subst hnil
  rw [List.append_nil] at hbase
  have ha : a ≠ [] := by
    rintro rfl
    refine hlast ?_
    rw [hbase, List.getLast?_append_of_ne_nil _ (List.cons_ne_nil _ _)]
    rfl
  have htext : origin = String.ofList (c :: cs ++ ':' :: '/' :: '/' :: (a ++ List.replicate (k + 1) '/')) := by
    rw [← String.toList_inj, String.toList_ofList, horigin, hbase]
    simp only [List.append_assoc, List.cons_append]
  refine ⟨?_, a, by rw [hbase, hend ha], hauthority⟩
  have hpaths : List.replicate (k + 1) '/' = [] ∨ ∃ p', List.replicate (k + 1) '/' = '/' :: p' :=
    Or.inr ⟨List.replicate k '/', List.replicate_succ⟩
  rw [htext, UrlParts.parse_parts parts hc hcs hslash hpaths, hauthority, unescapePath_slashes rules, ← hlower]
  · rfl
  · intro d hd
    rcases List.mem_append.mp hd with hd | hd
    · exact hplain d (List.mem_append_left _ hd)
    · rw [List.eq_of_mem_replicate hd]
      decide

include hlower

omit hparse rules hlower in
theorem trimSpace_base {origin base : String} {tail : List Char} (htrim : trimSpace origin = origin)
    (horigin : origin.toList = base.toList ++ tail) (hlast : ∀ c ∈ base.toList.getLast?, isSpace c = false) :
    trimSpace base = base := by
  refine trimSpace_eq_self (fun c hc => ?_) hlast
  have hhead : c ∈ (trimSpace origin).toList.head? := by
    rw [htrim, horigin, List.head?_append, Option.mem_def.mp hc]
    rfl
  exact head_trimSpace hhead

omit hparse rules hlower in
/-- A slash as the path changes nothing. -/
theorem normalizeOrigin_path {origin base : String} {u : URL} (hu : parsed lib base = some u)
    (hv : parsed lib origin = some (withPath parts u ['/'])) (hraw : trimSpace origin ≠ "")
    (hne : normalizeOrigin lib base ≠ "") : normalizeOrigin lib origin = normalizeOrigin lib base := by
  obtain ⟨hraw', hcomp⟩ := comparable_of_ne hu hne
  have hcomp' : Comparable lib (withPath parts u ['/']) :=
    ⟨hcomp.host_ne, hcomp.http, Or.inr rfl, rfl, rfl, hcomp.user, hcomp.hostOf_ne, hcomp.ascii⟩
  rw [normalizeOrigin_eq hv hraw hcomp', normalizeOrigin_eq hu hraw' hcomp]
  rfl

/-- Without its trailing slashes an origin has the same normal form if they are few, and otherwise the text with them
has none. -/
theorem normalizeOrigin_trimRight {origin : String} {u : URL} (htrim : trimSpace origin = origin)
    (hu : lib.parseURL (trimRight origin '/') = some u) (habs : isAbsolute u = true)
    (hpath : u.path = "" ∨ u.path = "/") (hne : normalizeOrigin lib (trimRight origin '/') ≠ "") :
    (FewSlashes origin → normalizeOrigin lib origin = normalizeOrigin lib (trimRight origin '/')) ∧
      (¬ FewSlashes origin → normalizeOrigin lib origin = "") := by
  obtain ⟨k, hk⟩ := trimRight_append origin
  have hlast := getLast_trimRight origin
  unfold FewSlashes
  generalize trimRight origin '/' = base at *
  cases k with
  | zero =>
    rw [List.replicate_zero, List.append_nil, String.toList_inj] at hk
    subst hk
    exact ⟨fun _ => rfl, fun hmany => absurd (Or.inl rfl) hmany⟩
  | succ k =>
    have hlength : origin.toList ≠ base.toList := by
      intro heq
      have := congrArg List.length (heq.symm.trans hk)
      simp at this
    by_cases hquery : '?' ∈ base.toList ∨ '#' ∈ base.toList
    · refine ⟨fun hfew => ?_, fun _ => normalizeOrigin_slashes_query hparse rules htrim hk hquery⟩
      rcases hfew with heq | ⟨-, -, hno, hno'⟩
      · exact absurd heq hlength
      · exact absurd hquery (not_or.mpr ⟨hno, hno'⟩)
    · rw [not_or] at hquery
      obtain ⟨hv, a, ha, hauthority⟩ := parse_slashes hparse rules hk hlast hu habs hpath hquery.1 hquery.2
      have hparsed : parsed lib origin = some (withPath parts u (List.replicate (k + 1) '/')) := by
        unfold parsed
        rw [htrim]
        exact hv
      by_cases hspace : ∀ c ∈ base.toList.getLast?, isSpace c = false
      · have hparsed' : parsed lib base = some u := by
          unfold parsed
          rw [trimSpace_base htrim hk hspace]
          exact hu
        cases k with
        | zero =>
          have hfew : origin.toList = base.toList ++ ['/'] := hk
          refine ⟨fun _ => ?_, fun hmany => absurd (Or.inr ⟨hfew, hspace, hquery⟩) hmany⟩
          refine normalizeOrigin_path hparsed' hparsed ?_ hne
          rw [htrim]
          intro hempty
          rw [hempty] at hk
          exact absurd hk.symm (List.append_ne_nil_of_right_ne_nil _ (List.cons_ne_nil _ _))
        | succ k =>
          constructor
          · rintro (heq | ⟨heq, -⟩)
            · exact absurd heq hlength
            · have := congrArg List.length (heq.symm.trans hk)
              simp at this
          · intro _
            refine normalizeOrigin_eq_empty fun v hv' hcomp' => ?_
            rw [hparsed] at hv'
            cases hv'
            have htext : (withPath parts u (List.replicate (k + 1 + 1) '/')).path.toList.length = k + 1 + 1 := by
              rw [withPath, String.toList_ofList, List.length_replicate]
            rcases hcomp'.path with hp | hp
            · rw [hp] at htext
              cases htext
            · rw [hp] at htext
              exact absurd htext (by simp)
      · constructor
        · rintro (heq | ⟨-, hno, -⟩)
          · exact absurd heq hlength
          · exact absurd hno hspace
        · intro _
          push Not at hspace
          obtain ⟨c, hc, hblank⟩ := hspace
          replace hblank := Bool.eq_true_of_not_eq_false hblank
          refine normalizeOrigin_eq_empty fun v hv' => ?_
          rw [hparsed] at hv'
          cases hv'
          exact not_comparable_of_space rules hlower hblank (ha ▸ hc) hauthority

end

/-! ## The environment and the header -/

/-- An accepted origin is an absolute URL without a path, and is stored in its normal form. -/
theorem publicOriginOf_ok {lib : Lib} {production allowInsecure : Bool} {origin stored : String}
    (h : publicOriginOf lib production allowInsecure origin = .ok stored) :
    origin ≠ "" ∧ stored = normalizeOrigin lib origin ∧ normalizeOrigin lib origin ≠ "" ∧
      ∃ u, lib.parseURL origin = some u ∧ isAbsolute u = true ∧ (u.path = "" ∨ u.path = "/") := by
  unfold publicOriginOf at h
  by_cases hempty : origin = ""
  · rw [if_pos hempty] at h
    cases h
  rw [if_neg hempty] at h
  cases hfilter : (lib.parseURL origin).filter isAbsolute with
  | none =>
    rw [hfilter] at h
    cases h
  | some u =>
    simp only [hfilter] at h
    obtain ⟨hu, habs⟩ := Option.filter_eq_some_iff.mp hfilter
    by_cases hpath : u.path ≠ "" ∧ u.path ≠ "/"
    · rw [if_pos hpath] at h
      cases h
    rw [if_neg hpath] at h
    split_ifs at h with hinsecure hnormal
    rw [not_and_or, not_not, not_not] at hpath
    exact ⟨hempty, (Except.ok.inj h).symm, hnormal, u, hu, habs, hpath⟩

theorem originOf_of_loadFrom {lib : Lib} {lookup : Lookup} {cfg : Config} (h : loadFrom lib lookup = .ok cfg) :
    publicOriginOf lib (isProduction lib lookup) (allowInsecureOriginOf lib lookup)
      (trimRight (get lookup "VIZRA_PUBLIC_ORIGIN") '/') = .ok cfg.publicOrigin := by
  obtain ⟨-, mode, searchMode, announce, origin, -, horigin, hcfg⟩ := loadFrom_ok h
  unfold originOf at horigin
  rw [horigin, hcfg, configOf]

/-- The value of the environment, or the default that stands for it. -/
def rawOrigin (lookup : Lookup) : String :=
  (lookup "VIZRA_PUBLIC_ORIGIN").getD (defaultFor "VIZRA_PUBLIC_ORIGIN")

theorem get_publicOrigin (lookup : Lookup) : get lookup "VIZRA_PUBLIC_ORIGIN" = trimSpace (rawOrigin lookup) := by
  have hdefault : trimSpace (defaultFor "VIZRA_PUBLIC_ORIGIN") = defaultFor "VIZRA_PUBLIC_ORIGIN" := by decide +kernel
  unfold Configuration.get rawOrigin
  cases lookup "VIZRA_PUBLIC_ORIGIN" with
  | some v => rfl
  | none => exact hdefault.symm

theorem normalizeOrigin_trimSpace (lib : Lib) (s : String) : normalizeOrigin lib (trimSpace s) = normalizeOrigin lib s := by
  unfold normalizeOrigin
  rw [trimSpace_trimSpace]

/-- A normal form is a fixed point exactly if its host is plain. In an accepted environment the value of the public
origin and the stored normal form both match as headers exactly if, moreover, the value has at most the one trailing
slash that a path may consist of. -/
theorem origin_matches_itself_iff {lib : Lib} {parts : UrlParts} (hparse : lib.parseURL = parts.parse)
    (rules : parts.Rules) (hlower : LowerRules lib.lower) :
    (∀ raw u, parsed lib raw = some u → normalizeOrigin lib raw ≠ "" →
      (normalizeOrigin lib (normalizeOrigin lib raw) = normalizeOrigin lib raw ↔ PlainHost u)) ∧
    ∀ lookup cfg u, loadFrom lib lookup = .ok cfg →
      parsed lib (trimRight (get lookup "VIZRA_PUBLIC_ORIGIN") '/') = some u →
      ((originComparison lib cfg.publicOrigin (rawOrigin lookup) = none ∧
          originComparison lib cfg.publicOrigin cfg.publicOrigin = none) ↔
        PlainHost u ∧ FewSlashes (get lookup "VIZRA_PUBLIC_ORIGIN")) := by
  refine ⟨fun raw u => normalizeOrigin_idem_iff hparse rules hlower, ?_⟩
  intro lookup cfg u hload hu
  obtain ⟨hbase, hstored, hne, u', hu', habs, hpath⟩ := publicOriginOf_ok (originOf_of_loadFrom hload)
  rw [hstored]
  have htrim : trimSpace (get lookup "VIZRA_PUBLIC_ORIGIN") = get lookup "VIZRA_PUBLIC_ORIGIN" := by
    rw [get_publicOrigin, trimSpace_trimSpace]
  obtain ⟨hfew, hmany⟩ := normalizeOrigin_trimRight hparse rules hlower htrim hu' habs hpath hne
  have hidem := normalizeOrigin_idem_iff hparse rules hlower hu hne
  have hraw : rawOrigin lookup ≠ "" := by
    intro hempty
    refine hbase ?_
    rw [get_publicOrigin, hempty]
    decide +kernel
  have hgot : normalizeOrigin lib (rawOrigin lookup) = normalizeOrigin lib (get lookup "VIZRA_PUBLIC_ORIGIN") := by
    rw [get_publicOrigin, normalizeOrigin_trimSpace]
  rw [originComparison_eq_none hraw, originComparison_eq_none hne, hgot]
  constructor
  · rintro ⟨⟨hnonempty, heq⟩, -⟩
    have hslashes : FewSlashes (get lookup "VIZRA_PUBLIC_ORIGIN") := by
      by_contra h
      exact hnonempty (hmany h)
    rw [hfew hslashes] at heq
    exact ⟨hidem.mp heq.symm, hslashes⟩
  · rintro ⟨hplain, hslashes⟩
    have hfix := hidem.mpr hplain
    rw [hfew hslashes, hfix]
    exact ⟨⟨hne, rfl⟩, hne, rfl⟩

/-! ## A parser without escapes -/

theorem plainParts_parseHost {a : List Char} {h : String} (heq : plainParts.parseHost a = some h) :
    h = String.ofList a ∧ (∀ c ∈ a.takeWhile (· != ':'), UrlParts.isHostChar c = true ∧ c ≠ '[') ∧
      validOptionalPort (a.dropWhile (· != ':')) = true := by
  unfold plainParts at heq
  simp only at heq
  split_ifs at heq with hok
  rw [Bool.and_eq_true, List.all_eq_true] at hok
  refine ⟨(Option.some.inj heq).symm, fun c hc => ?_, hok.2⟩
  have hchar := hok.1 c hc
  rw [Bool.and_eq_true, bne_iff_ne] at hchar
  exact hchar

theorem isHostChar_of_plainParts {a : List Char} {h : String} (heq : plainParts.parseHost a = some h) :
    ∀ c ∈ a, UrlParts.isHostChar c = true := by
  obtain ⟨-, hname, hport⟩ := plainParts_parseHost heq
  intro c hc
  rw [← List.takeWhile_append_dropWhile (p := (· != ':')) (l := a)] at hc
  rcases List.mem_append.mp hc with hc | hc
  · exact (hname c hc).1
  · rcases validOptionalPort_iff.mp hport with hnil | ⟨digits, hdigits, hall⟩
    · rw [hnil] at hc
      exact absurd hc List.not_mem_nil
    · rw [hdigits] at hc
      rcases List.mem_cons.mp hc with rfl | hc
      · decide
      · exact isHostChar_of_isDigit (hall c hc)

theorem plainParts_rules : plainParts.Rules where
  shape := by
    intro a h heq
    obtain ⟨rfl, hname, hport⟩ := plainParts_parseHost heq
    rw [String.toList_ofList, ← List.takeWhile_append_dropWhile (p := (· != ':')) (l := a)]
    refine .name hport (fun hmem => ?_) (fun hmem => (hname _ hmem).2 rfl) (fun hmem => ?_)
    · exact absurd (List.mem_takeWhile_imp hmem) (by decide)
    · exact absurd (hname _ hmem).1 (by decide)
  chars := by
    intro a h heq c hc
    obtain ⟨rfl, -, -⟩ := plainParts_parseHost heq
    rw [String.toList_ofList] at hc
    exact Or.inl (isHostChar_of_plainParts heq c hc)
  name := by
    intro name port _ hname hcolon hopen hport
    have htake : (name ++ port).takeWhile (· != ':') = name ∧ (name ++ port).dropWhile (· != ':') = port := by
      have hall : ∀ c ∈ name, (c != ':') = true := fun c hc => bne_iff_ne.mpr fun heq => hcolon (heq ▸ hc)
      rw [List.takeWhile_append_of_pos hall, List.dropWhile_append_of_pos hall]
      rcases validOptionalPort_iff.mp hport with rfl | ⟨digits, rfl, -⟩
      · simp
      · simp
    have hok : name.all (fun c => UrlParts.isHostChar c && c != '[') = true := by
      rw [List.all_eq_true]
      intro c hc
      rw [Bool.and_eq_true, bne_iff_ne]
      exact ⟨hname c hc, fun heq => hopen (heq ▸ hc)⟩
    unfold plainParts
    simp only [htake, hok, hport, Bool.and_self, if_true]
  literal := by
    intro a h lit port port' heq hliteral _ _
    obtain ⟨rfl, hname, -⟩ := plainParts_parseHost heq
    rw [String.toList_ofList] at hliteral
    exact absurd rfl (hname '[' (by rw [hliteral]; exact List.mem_cons_self ..)).2
  escape := by
    intro a h heq hpercent
    exact absurd (isHostChar_of_plainParts heq '%' hpercent) (by decide)
  space := by
    intro a c h hspace heq
    have hchar := isHostChar_of_plainParts heq c (List.mem_append_right _ (List.mem_singleton_self c))
    rw [(plain_of_isHostChar hchar).2.1] at hspace
    cases hspace
  path_nil := rfl
  path_slash := by
    intro p
    refine congrArg some ?_
    rw [← String.toList_inj]
    simp only [String.toList_append, String.toList_ofList]
    rfl
  path_ne := by
    intro p h
    exact String.ofList_eq_empty_iff.mp (Option.some.inj h)
  rawPath_nil := rfl
  fragment_ne := by
    intro f g hne h hempty
    rw [← Option.some.inj h] at hempty
    exact hne (String.ofList_eq_empty_iff.mp hempty)

theorem toLower_lowerRules : LowerRules Char.toLower where
  ascii := fun _ => rfl
  other := by
    intro c hc
    rw [toLower_of_gt (by omega)]
    exact Or.inl hc
  space := by
    intro c hspace
    by_cases hc : c.toNat < 128
    · exact ascii_induction (P := fun c => isSpace c = true → c.toLower = c) (by decide +kernel) hc hspace
    · exact toLower_of_gt (by omega)

def originLookup (origin : String) : Lookup := fun k =>
  if k = "DATABASE_URL" then some "postgres://db" else if k = "VIZRA_PUBLIC_ORIGIN" then some origin else none

def originConfig (origin stored : String) : Config :=
  configOf plainLib (originLookup origin) .development .off .off stored

theorem origin_matches_itself_iff_slash :
    loadFrom plainLib (originLookup " http://A.example.:80/") =
        .ok (originConfig " http://A.example.:80/" "http://a.example") ∧
      originComparison plainLib "http://a.example" " http://A.example.:80/" = none ∧
      originComparison plainLib "http://a.example" "http://a.example" = none := by
  have hload : loadFrom plainLib (originLookup " http://A.example.:80/") =
      .ok (originConfig " http://A.example.:80/" "http://a.example") := by decide +kernel
  have hparsed : parsed plainLib (trimRight (get (originLookup " http://A.example.:80/") "VIZRA_PUBLIC_ORIGIN") '/') =
      some (sampleURL "A.example.:80") := by decide +kernel
  refine ⟨hload, ?_⟩
  refine ((origin_matches_itself_iff rfl plainParts_rules toLower_lowerRules).2 _ _ _ hload hparsed).mpr ⟨?_, ?_⟩
  · unfold PlainHost
    decide +kernel
  · have horigin : get (originLookup " http://A.example.:80/") "VIZRA_PUBLIC_ORIGIN" = "http://A.example.:80/" := by
      decide +kernel
    have hbase : (trimRight "http://A.example.:80/" '/').toList = "http://A.example.:80".toList := by decide +kernel
    have hlast : "http://A.example.:80".toList.getLast? = some '0' := by decide +kernel
    rw [horigin]
    unfold FewSlashes
    rw [hbase]
    refine Or.inr ⟨by decide +kernel, ?_, by decide +kernel, by decide +kernel⟩
    intro c hc
    rw [hlast] at hc
    cases hc
    rfl

/-- A host with two dots at its end, and a value with two slashes: the server starts, and refuses the value it was
configured with as the header. -/
theorem origin_not_matching_itself :
    loadFrom plainLib (originLookup "http://a.example..") =
        .ok (originConfig "http://a.example.." "http://a.example.") ∧
      normalizeOrigin plainLib "http://a.example." = "http://a.example" ∧
      checkOrigin plainLib "http://a.example." "http://a.example.." "same-origin" =
        some (originMismatch "the request Origin does not match this instance's configured public origin") ∧
    loadFrom plainLib (originLookup "http://a.example//") = .ok (originConfig "http://a.example//" "http://a.example") ∧
      checkOrigin plainLib "http://a.example" "http://a.example//" "same-origin" =
        some (originMismatch "the request Origin does not match this instance's configured public origin") := by
  refine ⟨?_, ?_, ?_, ?_, ?_⟩ <;> decide +kernel

end Vizra.HttpApi
