import Vizra.GoStd.Url

/-!
# `url.Parse`

How `Parse` cuts a text into the parts of a URL. What it does to a single part (the percent escapes of a host, of user
information, of a path and of a fragment) stays a parameter, and so does which hosts it accepts.
-/

namespace Go

/-- The functions `Parse` reads the single parts with; an error is `none`. -/
structure UrlParts where
  -- `parseHost`.
  parseHost : List Char → Option String
  -- The check of user information, and the information in its encoded form.
  userinfo : List Char → Option String
  -- `unescape` of a path and of a fragment.
  unescapePath : List Char → Option String
  unescapeFragment : List Char → Option String
  -- The path and the fragment as they are written, unless that is how `String` would write them.
  rawPath : List Char → String
  rawFragment : List Char → String

/-- `strings.Cut` at a rune. -/
def cut (sep : Char) (s : List Char) : List Char × List Char :=
  (s.takeWhile (· != sep), (s.dropWhile (· != sep)).tail)

def isLetter (c : Char) : Bool := ('a' ≤ c && c ≤ 'z') || ('A' ≤ c && c ≤ 'Z')

def isSchemeChar (c : Char) : Bool := isLetter c || (digit c).isSome || c == '+' || c == '-' || c == '.'

/-- `getScheme`: the scheme and what follows its colon; there may be no scheme. -/
def getScheme (s : List Char) : Option (List Char × List Char) :=
  let name := s.takeWhile isSchemeChar
  match s.dropWhile isSchemeChar with
  | ':' :: rest =>
    match name with
    | [] => none
    | c :: _ => if isLetter c then some (name, rest) else some ([], s)
  | _ => some ([], s)

/-- A control character, which `Parse` refuses. -/
def isCTL (c : Char) : Bool := c.val < 0x20 || c.val == 0x7f

namespace UrlParts

variable (parts : UrlParts)

/-- `parseAuthority`: the user information before the last `@`, and the host. -/
def parseAuthority (authority : List Char) : Option (Option String × String) :=
  if '@' ∈ authority then
    (parts.parseHost (authority.reverse.takeWhile (· != '@')).reverse).bind fun host =>
      (parts.userinfo (authority.reverse.dropWhile (· != '@')).tail.reverse).map fun user => (some user, host)
  else (parts.parseHost authority).map fun host => (none, host)

/-- The authority, if there is one, and the path of what follows a scheme. -/
def splitAuthority (scheme rest : List Char) : Option (List Char) × List Char :=
  if ['/', '/'].isPrefixOf rest && (scheme ≠ [] || !(['/', '/', '/'].isPrefixOf rest)) then
    (some ((rest.drop 2).takeWhile (· != '/')), (rest.drop 2).dropWhile (· != '/'))
  else (none, rest)

/-- The part of `parse` behind the checks: `rest` has a path, and perhaps an authority before it. -/
def parseHierarchical (scheme rest query : List Char) (forceQuery : Bool) : Option URL :=
  let split := splitAuthority scheme rest
  ((split.1.map parts.parseAuthority).getD (some (none, ""))).bind fun authority =>
    (parts.unescapePath split.2).map fun path =>
      { scheme := String.ofList (scheme.map Char.toLower), user := authority.1, host := authority.2, path
        rawQuery := String.ofList query, fragment := "", rawPath := parts.rawPath split.2, forceQuery }

/-- `parse`: everything but the fragment. -/
def parseRest (s : List Char) : Option URL :=
  if s.any isCTL then none
  else if s = ['*'] then
    some { scheme := "", user := none, host := "", path := "*", rawQuery := "", fragment := "" }
  else (getScheme s).bind fun found =>
    let scheme := found.1
    let rest := (cut '?' found.2).1
    let query := (cut '?' found.2).2
    let forceQuery := '?' ∈ found.2 && query = []
    if rest.head? = some '/' then parts.parseHierarchical scheme rest query forceQuery
    -- an opaque URL
    else if scheme ≠ [] then
      some { scheme := String.ofList (scheme.map Char.toLower), user := none, host := "", path := ""
             rawQuery := String.ofList query, fragment := "", forceQuery }
    else if ':' ∈ rest.takeWhile (· != '/') then none
    else parts.parseHierarchical scheme rest query forceQuery

/-- `Parse`. -/
def parse (s : String) : Option URL :=
  let halves := cut '#' s.toList
  (parts.parseRest halves.1).bind fun u =>
    if halves.2 = [] then some u
    else (parts.unescapeFragment halves.2).map fun fragment =>
      { u with fragment, rawFragment := parts.rawFragment halves.2 }

/-! ## How a text is cut -/

theorem cut_of_notMem {sep : Char} {s : List Char} (h : sep ∉ s) : cut sep s = (s, []) := by
  have hall : ∀ c ∈ s, (c != sep) = true := fun c hc => bne_iff_ne.mpr fun heq => h (heq ▸ hc)
  unfold cut
  rw [List.takeWhile_eq_self_iff.mpr hall, List.dropWhile_eq_nil_iff.mpr hall]
  rfl

theorem cut_append_cons {sep : Char} {s : List Char} (h : sep ∉ s) (t : List Char) : cut sep (s ++ sep :: t) = (s, t) := by
  have hall : ∀ c ∈ s, (c != sep) = true := fun c hc => bne_iff_ne.mpr fun heq => h (heq ▸ hc)
  unfold cut
  rw [List.takeWhile_append_of_pos hall, List.dropWhile_append_of_pos hall]
  simp

theorem getScheme_append {c : Char} {cs rest : List Char} (hc : isLetter c = true)
    (hcs : ∀ d ∈ c :: cs, isSchemeChar d = true) : getScheme (c :: cs ++ ':' :: rest) = some (c :: cs, rest) := by
  have hcolon : isSchemeChar ':' = false := by decide
  unfold getScheme
  rw [List.takeWhile_append_of_pos hcs, List.dropWhile_append_of_pos hcs, List.takeWhile_cons_of_neg (by simp [hcolon]),
    List.dropWhile_cons_of_neg (by simp [hcolon]), List.append_nil]
  simp only [hc, if_true]

theorem isCTL_of_isSchemeChar {c : Char} (h : isSchemeChar c = true) : isCTL c = false := by
  have hrange : 0x2B ≤ c.toNat ∧ c.toNat ≤ 0x7A := by
    simp only [isSchemeChar, isLetter, digit, Bool.or_eq_true, Bool.and_eq_true, decide_eq_true_eq, beq_iff_eq,
      Option.isSome_iff_exists, Option.ite_none_right_eq_some, Char.le_def, UInt32.le_iff_toNat_le] at h
    rcases h with (((h | ⟨_, h, _⟩) | rfl) | rfl) | rfl
    · simp at h
      omega
    · simp at h
      omega
    · decide
    · decide
    · decide
  simp only [isCTL, Bool.or_eq_false_iff, decide_eq_false_iff_not, beq_eq_false_iff_ne, ne_eq, UInt32.lt_iff_toNat_lt,
    ← UInt32.toNat_inj, UInt32.reduceToNat]
  have hval : c.val.toNat = c.toNat := rfl
  omega

theorem ne_of_isSchemeChar {c d : Char} (hc : isSchemeChar c = true) (hd : isSchemeChar d = false) : c ≠ d := by
  rintro rfl
  rw [hc] at hd
  cases hd

/-- A text of scheme, authority and path is read part by part. -/
theorem parse_parts {c : Char} {cs a p : List Char} (hc : isLetter c = true) (hcs : ∀ d ∈ c :: cs, isSchemeChar d = true)
    (ha : '/' ∉ a) (hp : p = [] ∨ ∃ p', p = '/' :: p')
    (hplain : ∀ d ∈ a ++ p, isCTL d = false ∧ d ≠ '?' ∧ d ≠ '#') :
    parts.parse (String.ofList (c :: cs ++ ':' :: '/' :: '/' :: (a ++ p))) =
      (parts.parseAuthority a).bind fun auth => (parts.unescapePath p).map fun path =>
        { scheme := String.ofList ((c :: cs).map Char.toLower), user := auth.1, host := auth.2, path, rawQuery := "",
          fragment := "", rawPath := parts.rawPath p } := by
  have hhash : '#' ∉ c :: cs ++ ':' :: '/' :: '/' :: (a ++ p) := by
    intro h
    rcases List.mem_append.mp h with h | h
    · exact ne_of_isSchemeChar (hcs '#' h) (by decide) rfl
    · simp only [List.mem_cons, Char.reduceEq, false_or] at h
      exact (hplain '#' h).2.2 rfl
  have hquery : '?' ∉ '/' :: '/' :: (a ++ p) := by
    intro h
    simp only [List.mem_cons, Char.reduceEq, false_or] at h
    exact (hplain '?' h).2.1 rfl
  have hctl : (c :: cs ++ ':' :: '/' :: '/' :: (a ++ p)).any isCTL = false := by
    rw [List.any_eq_false]
    intro d hd
    rcases List.mem_append.mp hd with hd | hd
    · simp [isCTL_of_isSchemeChar (hcs d hd)]
    · simp only [List.mem_cons] at hd
      rcases hd with rfl | rfl | rfl | hd
      · decide
      · decide
      · decide
      · simp [(hplain d hd).1]
  have hauthority : splitAuthority (c :: cs) ('/' :: '/' :: (a ++ p)) = (some a, p) := by
    have hall : ∀ d ∈ a, (d != '/') = true := fun d hd => bne_iff_ne.mpr fun heq => ha (heq ▸ hd)
    have htake : p.takeWhile (· != '/') = [] := by
      rcases hp with rfl | ⟨p', rfl⟩ <;> rfl
    have hdrop : p.dropWhile (· != '/') = p := by
      rcases hp with rfl | ⟨p', rfl⟩ <;> rfl
    unfold splitAuthority
    simp only [List.isPrefixOf, BEq.rfl, Bool.true_and, Bool.and_self, ne_eq, reduceCtorEq, not_false_eq_true,
      decide_true, Bool.true_or, if_true, List.drop_succ_cons, List.drop_zero, List.takeWhile_append_of_pos hall,
      List.dropWhile_append_of_pos hall, htake, hdrop, List.append_nil]
  have hstar : c :: cs ++ ':' :: '/' :: '/' :: (a ++ p) ≠ ['*'] := by
    intro h
    have hlength := congrArg List.length h
    simp at hlength
  have hforce : decide ('?' ∈ '/' :: '/' :: (a ++ p)) = false := decide_eq_false hquery
  unfold parse
  rw [String.toList_ofList, cut_of_notMem hhash]
  unfold parseRest parseHierarchical
  simp only [hctl, getScheme_append hc hcs, if_neg hstar, Bool.false_eq_true, if_false, Option.bind_some,
    cut_of_notMem hquery, List.head?_cons, if_true, hauthority, Option.map_some, Option.getD_some,
    Option.bind_fun_some, hforce, Bool.false_and]

theorem getScheme_eq_some {s scheme rest : List Char} (h : getScheme s = some (scheme, rest)) :
    (scheme = [] ∧ rest = s) ∨
      ∃ c cs, scheme = c :: cs ∧ isLetter c = true ∧ (∀ d ∈ scheme, isSchemeChar d = true) ∧
        s = scheme ++ ':' :: rest := by
  unfold getScheme at h
  simp only at h
  split at h
  · rename_i rest' hdrop
    split at h
    · cases h
    · rename_i c cs hname
      split_ifs at h with hc
      · obtain ⟨rfl, rfl⟩ := Prod.mk.inj (Option.some.inj h)
        refine Or.inr ⟨c, cs, hname, hc, fun d hd => List.mem_takeWhile_imp hd, ?_⟩
        rw [← hdrop, List.takeWhile_append_dropWhile]
      · obtain ⟨rfl, rfl⟩ := Prod.mk.inj (Option.some.inj h)
        exact Or.inl ⟨rfl, rfl⟩
  · obtain ⟨rfl, rfl⟩ := Prod.mk.inj (Option.some.inj h)
    exact Or.inl ⟨rfl, rfl⟩

theorem splitAuthority_eq_some {scheme rest a p : List Char} (h : splitAuthority scheme rest = (some a, p)) :
    rest = '/' :: '/' :: (a ++ p) ∧ '/' ∉ a ∧ (p = [] ∨ ∃ p', p = '/' :: p') := by
  unfold splitAuthority at h
  by_cases hstarts : (['/', '/'].isPrefixOf rest && (scheme ≠ [] || !(['/', '/', '/'].isPrefixOf rest))) = true
  swap
  · rw [if_neg hstarts] at h
    cases h
  rw [if_pos hstarts] at h
  obtain ⟨hsome, hp⟩ := Prod.mk.inj h
  have ha := Option.some.inj hsome
  rw [Bool.and_eq_true] at hstarts
  obtain ⟨tail, rfl⟩ := List.isPrefixOf_iff_prefix.mp hstarts.1
  refine ⟨?_, ?_, ?_⟩
  · rw [← ha, ← hp, List.takeWhile_append_dropWhile]
    rfl
  · intro hmem
    rw [← ha] at hmem
    exact absurd (List.mem_takeWhile_imp hmem) (by decide)
  · rw [← hp]
    cases hdrop : (List.drop 2 (['/', '/'] ++ tail)).dropWhile (· != '/') with
    | nil => exact Or.inl rfl
    | cons d ds =>
      have hnot := List.head?_dropWhile_not (· != '/') (List.drop 2 (['/', '/'] ++ tail))
      rw [hdrop] at hnot
      have hd : d = '/' := by simpa using hnot
      exact Or.inr ⟨ds, by rw [hd]⟩

variable {parts}

theorem parseHierarchical_eq_some {scheme rest query : List Char} {forceQuery : Bool} {u : URL}
    (h : parts.parseHierarchical scheme rest query forceQuery = some u) (hhost : u.host ≠ "") :
    ∃ a p, splitAuthority scheme rest = (some a, p) ∧ parts.parseAuthority a = some (u.user, u.host) ∧
      parts.unescapePath p = some u.path ∧ u.scheme = String.ofList (scheme.map Char.toLower) := by
  obtain ⟨authority, hauthority, hmap⟩ := Option.bind_eq_some_iff.mp h
  obtain ⟨path, hpath, rfl⟩ := Option.map_eq_some_iff.mp hmap
  cases hsplit : (splitAuthority scheme rest).1 with
  | none =>
    rw [hsplit] at hauthority
    cases hauthority
    exact absurd rfl hhost
  | some a =>
    rw [hsplit] at hauthority
    exact ⟨a, _, Prod.ext hsplit rfl, hauthority, hpath, rfl⟩

/-- Where the host of a URL comes from. -/
theorem parseRest_eq_some {s : List Char} {u : URL} (h : parts.parseRest s = some u) (hhost : u.host ≠ "") :
    s.any isCTL = false ∧ ∃ scheme rest a p, getScheme s = some (scheme, rest) ∧
      splitAuthority scheme (cut '?' rest).1 = (some a, p) ∧ parts.parseAuthority a = some (u.user, u.host) ∧
      parts.unescapePath p = some u.path ∧ u.scheme = String.ofList (scheme.map Char.toLower) := by
  unfold parseRest at h
  split_ifs at h with hctl hstar
  · cases h
    exact absurd rfl hhost
  · obtain ⟨⟨scheme, rest⟩, hscheme, h⟩ := Option.bind_eq_some_iff.mp h
    simp only at h
    refine ⟨Bool.eq_false_iff.mpr hctl, scheme, rest, ?_⟩
    split_ifs at h with hslash hopaque hcolon
    · obtain ⟨a, p, hfound⟩ := parseHierarchical_eq_some h hhost
      exact ⟨a, p, hscheme, hfound⟩
    · cases h
      exact absurd rfl hhost
    · obtain ⟨a, p, hfound⟩ := parseHierarchical_eq_some h hhost
      exact ⟨a, p, hscheme, hfound⟩

/-- A fragment changes nothing else. -/
theorem parse_eq_some {s : String} {u : URL} (h : parts.parse s = some u) :
    ∃ u', parts.parseRest (cut '#' s.toList).1 = some u' ∧ u.scheme = u'.scheme ∧ u.user = u'.user ∧ u.host = u'.host ∧
      u.path = u'.path ∧ u.rawQuery = u'.rawQuery := by
  obtain ⟨u', hrest, h⟩ := Option.bind_eq_some_iff.mp h
  refine ⟨u', hrest, ?_⟩
  split_ifs at h with hfragment
  · cases h
    exact ⟨rfl, rfl, rfl, rfl, rfl⟩
  · obtain ⟨fragment, -, rfl⟩ := Option.map_eq_some_iff.mp h
    exact ⟨rfl, rfl, rfl, rfl, rfl⟩

theorem parseHost_of_parseAuthority {a : List Char} {user : Option String} {host : String} (huser : user = none)
    (h : parts.parseAuthority a = some (user, host)) : parts.parseHost a = some host := by
  unfold parseAuthority at h
  split_ifs at h with hat
  · obtain ⟨host', -, hmap⟩ := Option.bind_eq_some_iff.mp h
    obtain ⟨user', -, hpair⟩ := Option.map_eq_some_iff.mp hmap
    have hfst : some user' = user := congrArg Prod.fst hpair
    rw [huser] at hfst
    cases hfst
  · obtain ⟨host', hhost, hpair⟩ := Option.map_eq_some_iff.mp h
    exact hhost.trans (congrArg some (congrArg Prod.snd hpair))

/-- A host without user information is one that `parseHost` accepted. -/
theorem parseHost_of_parse {s : String} {u : URL} (h : parts.parse s = some u) (hhost : u.host ≠ "")
    (huser : u.user = none) : ∃ a, parts.parseHost a = some u.host := by
  obtain ⟨u', hrest, -, hu, hh, -⟩ := parse_eq_some h
  rw [hh] at hhost
  rw [hu] at huser
  obtain ⟨-, scheme, rest, a, p, -, -, hauthority, -⟩ := parseRest_eq_some hrest hhost
  rw [hh]
  exact ⟨a, parseHost_of_parseAuthority huser hauthority⟩

/-- A text with a scheme and a host, and neither query nor fragment, is scheme, authority and path. -/
theorem parts_of_parse {s : String} {u : URL} (h : parts.parse s = some u) (hhost : u.host ≠ "") (hscheme : u.scheme ≠ "")
    (hquery : '?' ∉ s.toList) (hhash : '#' ∉ s.toList) :
    ∃ c cs a p, isLetter c = true ∧ (∀ d ∈ c :: cs, isSchemeChar d = true) ∧ '/' ∉ a ∧ (p = [] ∨ ∃ p', p = '/' :: p') ∧
      (∀ d ∈ a ++ p, isCTL d = false ∧ d ≠ '?' ∧ d ≠ '#') ∧ s.toList = c :: cs ++ ':' :: '/' :: '/' :: (a ++ p) ∧
      parts.parseAuthority a = some (u.user, u.host) ∧ parts.unescapePath p = some u.path ∧
      u.scheme = String.ofList ((c :: cs).map Char.toLower) := by
  obtain ⟨u', hrest, hsc, hus, hho, hpa, -⟩ := parse_eq_some h
  rw [cut_of_notMem hhash] at hrest
  rw [hho] at hhost
  rw [hsc] at hscheme
  rw [hsc, hus, hho, hpa]
  obtain ⟨hctl, scheme, rest, a, p, hget, hsplit, hauthority, hpath, hlower⟩ := parseRest_eq_some hrest hhost
  dsimp only at hctl hget
  rcases getScheme_eq_some hget with ⟨rfl, -⟩ | ⟨c, cs, rfl, hc, hcs, hs⟩
  · exact absurd hlower hscheme
  · have hrestq : '?' ∉ rest := fun hmem => hquery (hs ▸ List.mem_append_right _ (List.mem_cons_of_mem _ hmem))
    rw [cut_of_notMem hrestq] at hsplit
    obtain ⟨rfl, hslash, hp⟩ := splitAuthority_eq_some hsplit
    have hmem : ∀ d ∈ a ++ p, d ∈ s.toList := by
      intro d hd
      rw [hs]
      exact List.mem_append_right _ (List.mem_cons_of_mem _ (List.mem_cons_of_mem _ (List.mem_cons_of_mem _ hd)))
    refine ⟨c, cs, a, p, hc, hcs, hslash, hp, fun d hd => ?_, hs, hauthority, hpath, hlower⟩
    refine ⟨?_, fun heq => hquery (heq ▸ hmem d hd), fun heq => hhash (heq ▸ hmem d hd)⟩
    exact Bool.eq_false_iff.mpr (List.any_eq_false.mp hctl d (hmem d hd))

/-- What is appended behind a `#` is part of the fragment. -/
theorem fragment_ne_of_parse {s t : List Char} {u : URL}
    (hkeeps : ∀ f g, f ≠ [] → parts.unescapeFragment f = some g → g ≠ "") (hhash : '#' ∈ s) (ht : t ≠ [])
    (h : parts.parse (String.ofList (s ++ t)) = some u) : u.fragment ≠ "" := by
  obtain ⟨before, after, rfl, hbefore⟩ := List.eq_append_cons_of_mem hhash
  have hcut : cut '#' (before ++ '#' :: after ++ t) = (before, after ++ t) := by
    rw [List.append_assoc, List.cons_append, cut_append_cons hbefore]
  unfold parse at h
  rw [String.toList_ofList, hcut] at h
  obtain ⟨u', -, h⟩ := Option.bind_eq_some_iff.mp h
  have hne : after ++ t ≠ [] := List.append_ne_nil_of_right_ne_nil _ ht
  rw [if_neg hne] at h
  obtain ⟨fragment, hfragment, rfl⟩ := Option.map_eq_some_iff.mp h
  exact hkeeps _ _ hne hfragment

theorem rawQuery_of_parseRest {s : List Char} {u : URL} (h : parts.parseRest s = some u) (hstar : s ≠ ['*']) :
    ∃ scheme rest, getScheme s = some (scheme, rest) ∧ u.rawQuery = String.ofList (cut '?' rest).2 := by
  unfold parseRest parseHierarchical at h
  split_ifs at h with hctl
  obtain ⟨⟨scheme, rest⟩, hscheme, h⟩ := Option.bind_eq_some_iff.mp h
  simp only at h
  refine ⟨scheme, rest, hscheme, ?_⟩
  split_ifs at h with hslash hopaque hcolon
  · obtain ⟨authority, -, hmap⟩ := Option.bind_eq_some_iff.mp h
    obtain ⟨path, -, rfl⟩ := Option.map_eq_some_iff.mp hmap
    rfl
  · cases h
    rfl
  · obtain ⟨authority, -, hmap⟩ := Option.bind_eq_some_iff.mp h
    obtain ⟨path, -, rfl⟩ := Option.map_eq_some_iff.mp hmap
    rfl

/-- A scheme ends before the first `?`. -/
theorem getScheme_before_query {s t scheme rest : List Char} (hs : '?' ∉ s)
    (h : getScheme (s ++ '?' :: t) = some (scheme, rest)) : ∃ s', '?' ∉ s' ∧ rest = s' ++ '?' :: t := by
  rcases getScheme_eq_some h with ⟨-, rfl⟩ | ⟨c, cs, -, -, hcs, heq⟩
  · exact ⟨s, hs, rfl⟩
  · have hlead : '?' ∉ scheme ++ [':'] := by
      intro hmem
      rcases List.mem_append.mp hmem with hmem | hmem
      · exact ne_of_isSchemeChar (hcs '?' hmem) (by decide) rfl
      · exact absurd hmem (by decide)
    rw [List.append_cons scheme] at heq
    rcases List.append_eq_append_iff.mp heq with ⟨x, hx, ht⟩ | ⟨x, rfl, rfl⟩
    · cases x with
      | nil => exact ⟨[], List.not_mem_nil, ht.symm⟩
      | cons d x =>
        obtain ⟨rfl, -⟩ := List.cons.inj ht
        exact absurd (hx ▸ List.mem_append_right s (List.mem_cons_self ..)) hlead
    · exact ⟨x, fun hmem => hs (List.mem_append_right _ hmem), rfl⟩

/-- What is appended behind a `?` is part of the query. -/
theorem rawQuery_ne_of_parse {s t : List Char} {u : URL} (hhash : '#' ∉ s ++ t) (hquery : '?' ∈ s) (ht : t ≠ [])
    (h : parts.parse (String.ofList (s ++ t)) = some u) : u.rawQuery ≠ "" := by
  obtain ⟨u', hrest, -, -, -, -, hraw⟩ := parse_eq_some h
  rw [String.toList_ofList, cut_of_notMem hhash] at hrest
  have hstar : s ++ t ≠ ['*'] := by
    intro hstar
    have hmem : '?' ∈ ['*'] := hstar ▸ List.mem_append_left t hquery
    exact absurd hmem (by decide)
  obtain ⟨scheme, rest, hscheme, hraw'⟩ := rawQuery_of_parseRest hrest hstar
  obtain ⟨before, after, rfl, hbefore⟩ := List.eq_append_cons_of_mem hquery
  rw [List.append_assoc, List.cons_append] at hscheme
  obtain ⟨s', hs', rfl⟩ := getScheme_before_query hbefore hscheme
  rw [hraw, hraw', cut_append_cons hs']
  intro hnil
  rw [String.ofList_eq_empty_iff] at hnil
  exact List.append_ne_nil_of_right_ne_nil _ ht hnil

/-! ## Hosts -/

/-- The runes of ASCII that a host may contain as they are. -/
def isHostChar (c : Char) : Bool := isLetter c || (digit c).isSome || "-_.~!$&'()*+,;=:[]<>\"".toList.contains c

/-- The inside of a bracketed host: an IPv6 address, perhaps with a zone behind a percent sign. -/
structure IsLiteral (lit : List Char) : Prop where
  colon : ':' ∈ lit
  address : '%' ∉ lit → (∀ c ∈ lit, c.toNat < 128) ∧ ' ' ∉ lit ∧ lit.getLast? ≠ some '.'

/-- A name or a bracketed address, and an optional port. -/
inductive HostShape : List Char → Prop
  | name {name port : List Char} (hport : validOptionalPort port = true) (hcolon : ':' ∉ name) (hopen : '[' ∉ name)
    (hblank : ' ' ∉ name) : HostShape (name ++ port)
  | literal {lit port : List Char} (hport : validOptionalPort port = true) (hlit : IsLiteral lit) :
    HostShape ('[' :: (lit ++ [']']) ++ port)

variable (parts) in
/-- What `parseHost` and `unescape` do, as `net/url` documents it. A percent sign and a blank in a result come from
escapes, so a text with a percent sign is read as something shorter. -/
structure Rules : Prop where
  shape : ∀ {a h}, parts.parseHost a = some h → HostShape h.toList
  chars : ∀ {a h}, parts.parseHost a = some h →
    ∀ c ∈ h.toList, isHostChar c = true ∨ c = '%' ∨ c = ' ' ∨ 128 ≤ c.toNat
  -- a name and an address without escapes are read as they are, an address also in lower case
  name : ∀ {name port}, name ≠ [] → (∀ c ∈ name, isHostChar c = true) → ':' ∉ name → '[' ∉ name →
    validOptionalPort port = true → parts.parseHost (name ++ port) = some (String.ofList (name ++ port))
  literal : ∀ {a h lit port port'}, parts.parseHost a = some h → h.toList = '[' :: (lit ++ [']']) ++ port → '%' ∉ lit →
    validOptionalPort port' = true →
      parts.parseHost ('[' :: (lit.map Char.toLower ++ [']']) ++ port') =
        some (String.ofList ('[' :: (lit.map Char.toLower ++ [']']) ++ port'))
  escape : ∀ {a h}, parts.parseHost a = some h → '%' ∈ a → h.toList.length < a.length
  -- white space of ASCII is refused
  space : ∀ {a c h}, isSpace c = true → parts.parseHost (a ++ [c]) = some h → 128 ≤ c.toNat ∧ h.toList.getLast? = some c
  path_nil : parts.unescapePath [] = some ""
  path_slash : ∀ p, parts.unescapePath ('/' :: p) = (parts.unescapePath p).map fun q => "/" ++ q
  path_ne : ∀ {p}, parts.unescapePath p = some "" → p = []
  rawPath_nil : parts.rawPath [] = ""
  fragment_ne : ∀ f g, f ≠ [] → parts.unescapeFragment f = some g → g ≠ ""

end UrlParts

/-! ## The parts of a host -/

theorem lastColon_of_notMem {h : List Char} (hcolon : ':' ∉ h) : lastColon h = none := by
  unfold lastColon
  rw [List.findIdx?_eq_none_iff.mpr]
  · rfl
  · intro c hc
    exact beq_eq_false_iff_ne.mpr fun heq => hcolon (heq ▸ List.mem_reverse.mp hc)

theorem lastColon_append {x y : List Char} (hy : ':' ∉ y) : lastColon (x ++ ':' :: y) = some x.length := by
  have hidx : (x ++ ':' :: y).reverse.findIdx? (· == ':') = some y.length := by
    have hnone : y.reverse.findIdx? (· == ':') = none := by
      rw [List.findIdx?_eq_none_iff]
      intro c hc
      exact beq_eq_false_iff_ne.mpr fun heq => hy (heq ▸ List.mem_reverse.mp hc)
    rw [List.reverse_append, List.reverse_cons, List.append_assoc, List.findIdx?_append, hnone]
    simp [List.findIdx?_cons]
  unfold lastColon
  rw [hidx, Option.map_some, List.length_append, List.length_cons]
  congr 1
  omega

theorem validOptionalPort_iff {port : List Char} :
    validOptionalPort port = true ↔ port = [] ∨ ∃ digits, port = ':' :: digits ∧ ∀ c ∈ digits, (digit c).isSome = true := by
  cases port with
  | nil => simp [validOptionalPort]
  | cons c cs => simp [validOptionalPort]

theorem colon_notMem_digits {digits : List Char} (h : ∀ c ∈ digits, (digit c).isSome = true) : ':' ∉ digits := by
  intro hmem
  exact absurd (h ':' hmem) (by decide)

/-- The colon before a port is the last one. -/
theorem splitHostPort_port {host digits : List Char} (hdigits : ∀ c ∈ digits, (digit c).isSome = true) :
    splitHostPort (String.ofList (host ++ ':' :: digits)) =
      (String.ofList (if host.head? = some '[' ∧ host.getLast? = some ']' then host.tail.dropLast else host),
        String.ofList digits) := by
  have hvalid : validOptionalPort (':' :: digits) = true := validOptionalPort_iff.mpr (Or.inr ⟨digits, rfl, hdigits⟩)
  have hdrop : (host ++ ':' :: digits).drop (host.length + 1) = digits := by
    rw [List.append_cons, ← List.length_singleton, ← List.length_append, List.drop_left]
  unfold splitHostPort
  simp only [String.toList_ofList, lastColon_append (colon_notMem_digits hdigits), List.drop_left, List.take_left, hvalid,
    if_true, hdrop]

theorem splitHostPort_noPort {host : List Char} (h : ∀ x y, host = x ++ ':' :: y → validOptionalPort (':' :: y) = false) :
    splitHostPort (String.ofList host) =
      (String.ofList (if host.head? = some '[' ∧ host.getLast? = some ']' then host.tail.dropLast else host), "") := by
  unfold splitHostPort
  by_cases hcolon : ':' ∈ host
  · obtain ⟨y, x, hsplit, hy⟩ := List.eq_append_cons_of_mem (List.mem_reverse.mpr hcolon)
    have hhost : host = x.reverse ++ ':' :: y.reverse := by
      rw [← List.reverse_reverse host, hsplit]
      simp
    have hlast : lastColon host = some x.reverse.length := by
      conv_lhs => rw [hhost]
      exact lastColon_append fun hmem => hy (List.mem_reverse.mp hmem)
    have hdrop : host.drop x.reverse.length = ':' :: y.reverse := by
      conv_lhs => rw [hhost]
      exact List.drop_left
    simp only [String.toList_ofList, hlast, hdrop, h _ _ hhost, Bool.false_eq_true, if_false]
  · simp only [String.toList_ofList, lastColon_of_notMem hcolon]

theorem splitHostPort_name {name port : List Char} (hport : validOptionalPort port = true) (hcolon : ':' ∉ name)
    (hopen : '[' ∉ name) : splitHostPort (String.ofList (name ++ port)) = (String.ofList name, String.ofList port.tail) := by
  have hhead : ¬ (name.head? = some '[' ∧ name.getLast? = some ']') := fun h => hopen (List.mem_of_head? h.1)
  rcases validOptionalPort_iff.mp hport with rfl | ⟨digits, rfl, hdigits⟩
  · rw [List.append_nil, splitHostPort_noPort, if_neg hhead]
    · rfl
    · rintro x y rfl
      exact absurd (List.mem_append_right x (List.mem_cons_self ..)) hcolon
  · rw [splitHostPort_port hdigits, if_neg hhead]
    rfl

theorem splitHostPort_literal {lit port : List Char} (hport : validOptionalPort port = true) :
    splitHostPort (String.ofList ('[' :: (lit ++ [']']) ++ port)) = (String.ofList lit, String.ofList port.tail) := by
  have hbrackets : ('[' :: (lit ++ [']'])).head? = some '[' ∧ ('[' :: (lit ++ [']'])).getLast? = some ']' := by
    refine ⟨rfl, ?_⟩
    rw [← List.cons_append, List.getLast?_concat]
  have hinside : ('[' :: (lit ++ [']'])).tail.dropLast = lit := by
    rw [List.tail_cons, List.dropLast_concat]
  rcases validOptionalPort_iff.mp hport with rfl | ⟨digits, rfl, hdigits⟩
  · rw [List.append_nil, splitHostPort_noPort, if_pos hbrackets, hinside]
    · rfl
    · intro x y heq
      -- the text ends with the bracket, which is no digit
      have hlast := congrArg List.getLast? heq
      rw [hbrackets.2, List.getLast?_append_of_ne_nil _ (List.cons_ne_nil _ _)] at hlast
      rw [Bool.eq_false_iff]
      intro hvalid
      rcases validOptionalPort_iff.mp hvalid with hnil | ⟨digits, heq', hdigits⟩
      · cases hnil
      · obtain ⟨-, rfl⟩ := List.cons.inj heq'
        rcases List.mem_cons.mp (List.mem_of_getLast? hlast.symm) with hbracket | hbracket
        · exact absurd hbracket (by decide)
        · exact absurd (hdigits _ hbracket) (by decide)
  · rw [splitHostPort_port hdigits, if_pos hbrackets, hinside]
    rfl

end Go
