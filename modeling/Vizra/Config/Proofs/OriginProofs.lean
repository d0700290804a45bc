import Mathlib.Data.Bool.AllAny
import Vizra.Config.Config
import Vizra.GoStd.Scan
import Vizra.GoStd.UrlParse

/-!
# Proofs: the normal form of an origin

A normal form is the text of a scheme, a host and a port that is not the default one. That text determines all three,
so two normal forms are the same exactly if the schemes, the hosts and the spellings of the ports are. A port is a
number with any number of leading zeros: two spellings of one port are two normal forms.
-/

namespace Vizra.Configuration

open Go

/-! ## The text of an origin -/

/-- A host that contains a colon stands in brackets. -/
def bracketed (host : List Char) : List Char := if ':' ∈ host then '[' :: (host ++ [']']) else host

def portSuffix (port : List Char) : List Char := if port = [] then [] else ':' :: port

def originText (scheme host port : String) : String :=
  String.ofList (scheme.toList ++ "://".toList ++ (bracketed host.toList ++ portSuffix port.toList))

theorem colon_mem_bracketed {host : List Char} : ':' ∈ bracketed host ↔ ':' ∈ host := by
  unfold bracketed
  split_ifs with h
  · simp [h]
  · rfl

theorem contains_colon (s : String) : contains s ":" = true ↔ ':' ∈ s.toList := by
  have hcolon : ":".toList = [':'] := rfl
  unfold contains
  rw [List.any_eq_true, hcolon]
  constructor
  · rintro ⟨t, ht, hstarts⟩
    exact ((List.mem_tails _ _).mp ht).subset ((List.isPrefixOf_iff_prefix.mp hstarts).subset (List.mem_singleton_self _))
  · intro hmem
    obtain ⟨before, after, hs⟩ := List.append_of_mem hmem
    refine ⟨':' :: after, (List.mem_tails _ _).mpr ⟨before, hs.symm⟩, ?_⟩
    exact List.isPrefixOf_iff_prefix.mpr ⟨after, rfl⟩

/-- The text as `NormalizeOrigin` puts it together. -/
theorem originText_eq (scheme host port : String) :
    originText scheme host port =
      let host := if contains host ":" then "[" ++ host ++ "]" else host
      if port ≠ "" then scheme ++ "://" ++ host ++ ":" ++ port else scheme ++ "://" ++ host := by
  have hport : port.toList = [] ↔ port = "" := String.toList_eq_nil_iff
  have hopen : "[".toList = ['['] := rfl
  have hclose : "]".toList = [']'] := rfl
  have hcolon : ":".toList = [':'] := rfl
  rw [← String.toList_inj, originText, String.toList_ofList]
  unfold bracketed portSuffix
  simp only [contains_colon, hport]
  by_cases hc : ':' ∈ host.toList <;> by_cases hp : port = "" <;>
    simp [hc, hp, String.toList_append, hopen, hclose, hcolon]

theorem bracketed_inj {h k : List Char} (heq : bracketed h = bracketed k) : h = k := by
  have hcolon : ':' ∈ h ↔ ':' ∈ k := by rw [← colon_mem_bracketed, heq, colon_mem_bracketed]
  unfold bracketed at heq
  by_cases hh : ':' ∈ h
  · rw [if_pos hh, if_pos (hcolon.mp hh)] at heq
    exact List.append_cancel_right (List.cons.inj heq).2
  · rwa [if_neg hh, if_neg (fun hk => hh (hcolon.mpr hk))] at heq

/-- A text is cut at its last `c` in one way. -/
theorem append_cons_inj_of_notMem {c : Char} {xs ys ps qs : List Char} (hp : c ∉ ps) (hq : c ∉ qs)
    (h : xs ++ c :: ps = ys ++ c :: qs) : xs = ys ∧ ps = qs := by
  rcases List.append_eq_append_iff.mp h with ⟨t, rfl, ht⟩ | ⟨t, rfl, ht⟩
  · cases t with
    | nil => exact ⟨(List.append_nil xs).symm, (List.cons.inj ht).2⟩
    | cons d t =>
      have hps := (List.cons.inj ht).2
      exact absurd (hps ▸ List.mem_append_right t (List.mem_cons_self ..)) hp
  · cases t with
    | nil => exact ⟨List.append_nil ys, (List.cons.inj ht).2.symm⟩
    | cons d t =>
      have hqs := (List.cons.inj ht).2
      exact absurd (hqs ▸ List.mem_append_right t (List.mem_cons_self ..)) hq

theorem colon_notMem {port : List Char} (h : ∀ c ∈ port, isDigit c = true) : ':' ∉ port := by
  intro hmem
  exact absurd (h ':' hmem) (by decide)

/-- A host alone does not end like a host with a port. -/
theorem bracketed_ne_append_port {h k p : List Char} (hp : ∀ c ∈ p, isDigit c = true) (hne : p ≠ []) :
    bracketed h ≠ bracketed k ++ ':' :: p := by
  intro heq
  by_cases hh : ':' ∈ h
  · have hlast := congrArg List.getLast? heq
    rw [bracketed, if_pos hh, List.getLast?_append_of_ne_nil _ (List.cons_ne_nil _ _), List.getLast?_cons_of_ne_nil hne,
      ← List.cons_append, List.getLast?_concat] at hlast
    exact absurd (hp _ (List.mem_of_getLast? hlast.symm)) (by decide)
  · rw [bracketed, if_neg hh] at heq
    exact hh (heq ▸ List.mem_append_right _ (List.mem_cons_self ..))

theorem authority_inj {h k p q : List Char} (hp : ∀ c ∈ p, isDigit c = true) (hq : ∀ c ∈ q, isDigit c = true)
    (heq : bracketed h ++ portSuffix p = bracketed k ++ portSuffix q) : h = k ∧ p = q := by
  unfold portSuffix at heq
  by_cases hpnil : p = []
  · by_cases hqnil : q = []
    · rw [if_pos hpnil, if_pos hqnil, List.append_nil, List.append_nil] at heq
      exact ⟨bracketed_inj heq, hpnil.trans hqnil.symm⟩
    · rw [if_pos hpnil, if_neg hqnil, List.append_nil] at heq
      exact absurd heq (bracketed_ne_append_port hq hqnil)
  · by_cases hqnil : q = []
    · rw [if_neg hpnil, if_pos hqnil, List.append_nil] at heq
      exact absurd heq.symm (bracketed_ne_append_port hp hpnil)
    · rw [if_neg hpnil, if_neg hqnil] at heq
      obtain ⟨hhost, hport⟩ := append_cons_inj_of_notMem (colon_notMem hp) (colon_notMem hq) heq
      exact ⟨bracketed_inj hhost, hport⟩

theorem isHTTP_iff {scheme : String} : isHTTP scheme = true ↔ scheme = "http" ∨ scheme = "https" := by
  simp [isHTTP]

/-- The text of an origin determines its scheme, its host and its port. -/
theorem originText_inj {s t h k p q : String} (hs : isHTTP s = true) (ht : isHTTP t = true)
    (hp : ∀ c ∈ p.toList, isDigit c = true) (hq : ∀ c ∈ q.toList, isDigit c = true) :
    originText s h p = originText t k q ↔ s = t ∧ h = k ∧ p = q := by
  constructor
  · intro heq
    have htext := congrArg String.toList heq
    rw [originText, originText, String.toList_ofList, String.toList_ofList] at htext
    have hauthority : s = t ∧ bracketed h.toList ++ portSuffix p.toList = bracketed k.toList ++ portSuffix q.toList := by
      rcases isHTTP_iff.mp hs with rfl | rfl <;> rcases isHTTP_iff.mp ht with rfl | rfl <;> simp_all
    obtain ⟨hhost, hport⟩ := authority_inj hp hq hauthority.2
    exact ⟨hauthority.1, String.toList_inj.mp hhost, String.toList_inj.mp hport⟩
  · rintro ⟨rfl, rfl, rfl⟩
    rfl

/-! ## The parts of a normal form -/

section

variable (lib : Lib)

/-- What `NormalizeOrigin` reads of its input. -/
def parsed (raw : String) : Option URL := lib.parseURL (trimSpace raw)

def schemeOf (u : URL) : String := toLower lib.lower u.scheme

/-- The host in lower case, without one trailing dot. -/
def hostOf (u : URL) : String := trimSuffix (toLower lib.lower u.hostname) '.'

def defaultPort (scheme : String) : String := if scheme = "http" then "80" else "443"

/-- The port as it is written out in a normal form. -/
def elidedPort (u : URL) : String := if u.port = defaultPort (schemeOf lib u) then "" else u.port

/-- A URL that has a normal form. -/
structure Comparable (u : URL) : Prop where
  host_ne : u.host ≠ ""
  http : isHTTP (schemeOf lib u) = true
  path : u.path = "" ∨ u.path = "/"
  rawQuery : u.rawQuery = ""
  fragment : u.fragment = ""
  user : u.user = none
  hostOf_ne : hostOf lib u ≠ ""
  ascii : isASCII (hostOf lib u) = true

variable {lib} {raw : String} {u : URL}

/-- Anything but the empty string is the normal form of a URL that has one. -/
theorem comparable_of_ne (hparsed : parsed lib raw = some u) (h : normalizeOrigin lib raw ≠ "") :
    trimSpace raw ≠ "" ∧ Comparable lib u := by
  unfold normalizeOrigin at h
  unfold parsed at hparsed
  simp only [hparsed] at h
  by_cases hraw : trimSpace raw = ""
  · exact absurd (if_pos hraw) h
  rw [if_neg hraw] at h
  by_cases hhost : u.host = ""
  · exact absurd (if_pos hhost) h
  rw [if_neg hhost] at h
  by_cases hhttp : (!isHTTP (toLower lib.lower u.scheme)) = true
  · exact absurd (if_pos hhttp) h
  rw [if_neg hhttp] at h
  by_cases hpath : u.path ≠ "" ∧ u.path ≠ "/"
  · exact absurd (if_pos hpath) h
  rw [if_neg hpath] at h
  by_cases hrest : u.rawQuery ≠ "" ∨ u.fragment ≠ "" ∨ u.user ≠ none
  · exact absurd (if_pos hrest) h
  rw [if_neg hrest] at h
  by_cases hname : trimSuffix (toLower lib.lower u.hostname) '.' = ""
  · exact absurd (if_pos hname) h
  rw [if_neg hname] at h
  by_cases hascii : (!isASCII (trimSuffix (toLower lib.lower u.hostname) '.')) = true
  · exact absurd (if_pos hascii) h
  simp only [not_and_or, not_or, not_not] at hpath hrest
  refine ⟨hraw, hhost, ?_, hpath, hrest.1, hrest.2.1, hrest.2.2, hname, ?_⟩
  · simpa [schemeOf] using hhttp
  · simpa [hostOf] using hascii

theorem parsed_of_ne (h : normalizeOrigin lib raw ≠ "") : ∃ u, parsed lib raw = some u := by
  cases hparsed : parsed lib raw with
  | some u => exact ⟨u, rfl⟩
  | none =>
    unfold parsed at hparsed
    unfold normalizeOrigin at h
    simp only [hparsed, ite_self] at h
    exact absurd rfl h

theorem normalizeOrigin_eq (hparsed : parsed lib raw = some u) (hraw : trimSpace raw ≠ "") (h : Comparable lib u) :
    normalizeOrigin lib raw = originText (schemeOf lib u) (hostOf lib u) (elidedPort lib u) := by
  unfold normalizeOrigin
  unfold parsed at hparsed
  have hpath : ¬ (u.path ≠ "" ∧ u.path ≠ "/") := fun hother => h.path.elim hother.1 hother.2
  have hrest : ¬ (u.rawQuery ≠ "" ∨ u.fragment ≠ "" ∨ u.user ≠ none) := by simp [h.rawQuery, h.fragment, h.user]
  have hhttp := h.http
  have hname := h.hostOf_ne
  have hascii := h.ascii
  unfold schemeOf at hhttp
  unfold hostOf at hname hascii
  simp only [hparsed, if_neg hraw, if_neg h.host_ne, hhttp, Bool.not_true, Bool.false_eq_true, if_false, if_neg hpath,
    if_neg hrest, if_neg hname, hascii]
  have hdefault : ((toLower lib.lower u.scheme = "http" && u.port = "80") ||
      (toLower lib.lower u.scheme = "https" && u.port = "443")) = true ↔ u.port = defaultPort (schemeOf lib u) := by
    unfold schemeOf defaultPort
    rcases isHTTP_iff.mp hhttp with hscheme | hscheme <;> simp [hscheme]
  simp only [hdefault]
  rw [originText_eq]
  rfl

end

/-! ## Same origin -/

theorem isDigit_of_mem_port (u : URL) : ∀ c ∈ u.port.toList, isDigit c = true := by
  intro c hc
  unfold URL.port splitHostPort at hc
  simp only [String.toList_ofList] at hc
  cases hcolon : lastColon u.host.toList with
  | none =>
    rw [hcolon] at hc
    exact absurd hc List.not_mem_nil
  | some i =>
    simp only [hcolon] at hc
    split_ifs at hc with hvalid
    · rw [← List.tail_drop] at hc
      cases hdrop : u.host.toList.drop i with
      | nil =>
        rw [hdrop] at hc
        exact absurd hc List.not_mem_nil
      | cons d ds =>
        rw [hdrop] at hc hvalid
        rw [validOptionalPort, Bool.and_eq_true, List.all_eq_true] at hvalid
        exact hvalid.2 c hc
    · exact absurd hc List.not_mem_nil

/-- The port a URL addresses, as it is written. -/
def effectivePort (lib : Lib) (u : URL) : String := if u.port = "" then defaultPort (schemeOf lib u) else u.port

/-- An origin as browsers compare it; the port is a number. -/
structure WebOrigin where
  scheme : String
  host : String
  port : Option Nat
deriving DecidableEq, Repr

def webOrigin (lib : Lib) (u : URL) : WebOrigin where
  scheme := schemeOf lib u
  host := hostOf lib u
  port := digitsValue (effectivePort lib u).toList

theorem webOrigin_eq_iff {lib : Lib} {u v : URL} :
    webOrigin lib u = webOrigin lib v ↔ schemeOf lib u = schemeOf lib v ∧ hostOf lib u = hostOf lib v ∧
      digitsValue (effectivePort lib u).toList = digitsValue (effectivePort lib v).toList := by
  unfold webOrigin
  rw [WebOrigin.mk.injEq]

theorem digitsValue_of_isDigit {cs : List Char} (h : ∀ c ∈ cs, isDigit c = true) : (digitsValue cs).isSome = true := by
  induction cs using List.reverseRecOn with
  | nil => rfl
  | append_singleton cs c ih =>
    rw [List.forall_mem_append, List.forall_mem_singleton] at h
    obtain ⟨n, hn⟩ := Option.isSome_iff_exists.mp (ih h.1)
    obtain ⟨d, hd⟩ := Option.isSome_iff_exists.mp h.2
    rw [digitsValue_concat, hn, hd]
    rfl

section

variable {lib : Lib} {u v : URL}

theorem defaultPort_eq (scheme : String) : defaultPort scheme = "80" ∨ defaultPort scheme = "443" :=
  ite_eq_or_eq _ _ _

theorem isDigit_of_mem_effectivePort : ∀ c ∈ (effectivePort lib u).toList, isDigit c = true := by
  unfold effectivePort
  by_cases hport : u.port = ""
  · rw [if_pos hport]
    rcases defaultPort_eq (schemeOf lib u) with h | h
    · rw [h]
      exact List.all_iff_forall_prop.mp (by decide)
    · rw [h]
      exact List.all_iff_forall_prop.mp (by decide)
  · rw [if_neg hport]
    exact isDigit_of_mem_port u

theorem isDigit_of_mem_elidedPort : ∀ c ∈ (elidedPort lib u).toList, isDigit c = true := by
  unfold elidedPort
  by_cases hport : u.port = defaultPort (schemeOf lib u)
  · rw [if_pos hport]
    exact fun c hc => absurd hc List.not_mem_nil
  · rw [if_neg hport]
    exact isDigit_of_mem_port u

/-- Leaving the default port out loses nothing but the difference between it and no port. -/
theorem elidedPort_eq_iff (hscheme : schemeOf lib u = schemeOf lib v) :
    elidedPort lib u = elidedPort lib v ↔ effectivePort lib u = effectivePort lib v := by
  have hne : defaultPort (schemeOf lib v) ≠ "" := by
    rcases defaultPort_eq (schemeOf lib v) with h | h
    · rw [h]
      decide
    · rw [h]
      decide
  unfold elidedPort effectivePort
  rw [hscheme]
  grind

/-- Two spellings of one port are the same exactly if they have the same number of digits. -/
theorem effectivePort_eq_iff
    (hport : digitsValue (effectivePort lib u).toList = digitsValue (effectivePort lib v).toList) :
    effectivePort lib u = effectivePort lib v ↔
      (effectivePort lib u).toList.length = (effectivePort lib v).toList.length := by
  constructor
  · intro h
    rw [h]
  · intro hlength
    have hdigits : ∀ c ∈ (effectivePort lib u).toList, isDigit c = true := isDigit_of_mem_effectivePort
    obtain ⟨n, hn⟩ := Option.isSome_iff_exists.mp (digitsValue_of_isDigit hdigits)
    exact String.toList_inj.mp (digitsValue_inj hlength hn (hport.symm.trans hn))

end

theorem normalizeOrigin_eq_iff {lib : Lib} {a b : String} {u v : URL} (ha : parsed lib a = some u)
    (hb : parsed lib b = some v) (hna : normalizeOrigin lib a ≠ "") (hnb : normalizeOrigin lib b ≠ "") :
    normalizeOrigin lib a = normalizeOrigin lib b ↔
      schemeOf lib u = schemeOf lib v ∧ hostOf lib u = hostOf lib v ∧ effectivePort lib u = effectivePort lib v := by
  obtain ⟨hraw, hu⟩ := comparable_of_ne ha hna
  obtain ⟨hraw', hv⟩ := comparable_of_ne hb hnb
  rw [normalizeOrigin_eq ha hraw hu, normalizeOrigin_eq hb hraw' hv,
    originText_inj hu.http hv.http isDigit_of_mem_elidedPort isDigit_of_mem_elidedPort]
  refine and_congr_right fun hscheme => and_congr_right fun _ => ?_
  exact elidedPort_eq_iff hscheme

/-- Normal forms decide whether two texts name one origin exactly if the ports of one origin are written with the same
number of digits, where the default port counts as written out. -/
theorem normalizeOrigin_decides_iff {lib : Lib} {a b : String} {u v : URL} (ha : parsed lib a = some u)
    (hb : parsed lib b = some v) (hna : normalizeOrigin lib a ≠ "") (hnb : normalizeOrigin lib b ≠ "") :
    (normalizeOrigin lib a = normalizeOrigin lib b ↔ webOrigin lib u = webOrigin lib v) ↔
      (webOrigin lib u = webOrigin lib v →
        (effectivePort lib u).toList.length = (effectivePort lib v).toList.length) := by
  rw [normalizeOrigin_eq_iff ha hb hna hnb, webOrigin_eq_iff]
  constructor
  · intro hdecides hsame
    rw [(hdecides.mpr hsame).2.2]
  · intro hdigits
    refine and_congr_right fun hscheme => and_congr_right fun hhost => ?_
    constructor
    · intro h
      rw [h]
    · intro hport
      exact (effectivePort_eq_iff hport).mpr (hdigits ⟨hscheme, hhost, hport⟩)

/-- A parser that accepts names and ports, and neither addresses in brackets nor escapes. -/
def plainParts : UrlParts where
  parseHost a :=
    if (a.takeWhile (· != ':')).all (fun c => UrlParts.isHostChar c && c != '[') &&
        validOptionalPort (a.dropWhile (· != ':')) then some (String.ofList a)
    else none
  userinfo s := some (String.ofList s)
  unescapePath s := some (String.ofList s)
  unescapeFragment s := some (String.ofList s)
  rawPath _ := ""
  rawFragment _ := ""

def plainLib : Lib where
  lower := Char.toLower
  fraction f scale unit := f * unit / 10 ^ scale
  parseURL := plainParts.parse
  urlString u := u.host

def sampleURL (host : String) : URL :=
  { scheme := "http", user := none, host, path := "", rawQuery := "", fragment := "" }

theorem normalizeOrigin_decides_iff_default :
    normalizeOrigin plainLib "HTTP://A.example.:80" = normalizeOrigin plainLib "http://a.example" ↔
      webOrigin plainLib (sampleURL "A.example.:80") = webOrigin plainLib (sampleURL "a.example") := by
  have ha : parsed plainLib "HTTP://A.example.:80" = some (sampleURL "A.example.:80") := by decide +kernel
  have hb : parsed plainLib "http://a.example" = some (sampleURL "a.example") := by decide +kernel
  refine (normalizeOrigin_decides_iff ha hb (by decide +kernel) (by decide +kernel)).mpr fun _ => ?_
  decide +kernel

/-- One origin with two normal forms: the port is written with a leading zero. -/
theorem normalizeOrigin_leading_zero :
    parsed plainLib "http://a.example:080" = some (sampleURL "a.example:080") ∧
      parsed plainLib "http://a.example" = some (sampleURL "a.example") ∧
      webOrigin plainLib (sampleURL "a.example:080") = webOrigin plainLib (sampleURL "a.example") ∧
      normalizeOrigin plainLib "http://a.example:080" = "http://a.example:080" ∧
      normalizeOrigin plainLib "http://a.example" = "http://a.example" := by
  refine ⟨?_, ?_, ?_, ?_, ?_⟩ <;> decide +kernel

end Vizra.Configuration
