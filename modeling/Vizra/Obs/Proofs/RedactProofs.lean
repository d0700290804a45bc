import Mathlib.Data.Bool.AllAny
import Vizra.Obs.Redact

/-!
# What `Redact` leaves of a credential pair

`decode_redact` moves `Redact` to runes: every pass writes the runes of some string, because it keeps parts of
what it reads and puts ASCII between them. `Scrubbed` says what follows the `key=` of a credential; the third
pass establishes it, and the two passes behind it keep it.
-/

namespace Vizra.Obs

open Go Regex

variable {c : Char} {prev prev' : Option Rune} {text w k rest v v' y x : List Rune} {m : Match Rune} {e : Rune}

def Redaction.pass (p : Redaction) (text : List Rune) : List Rune := replaceAll p.re p.repl text

/-- The runes of "[redacted]". -/
def redactedRunes : List Rune := asciiRunes redacted

/-! ## Passes over runes -/

theorem canonical_of_pass {r : Pat Rune} {template : List (Regex.Part Rune)} {cs : List Char}
    (hc : ∀ x ∈ c :: cs, x.toNat < 0x80) (hm : Marking r template ((c :: cs).map Rune.ofAscii)) {out : List Rune}
    (hp : Pass r template prev text out prev' []) :
    ∀ before, Canonical (before ++ text) → Canonical (before ++ out) := by
  generalize hend : ([] : List Rune) = text' at hp
  induction hp with
  | refl =>
    subst hend
    exact fun _ h => h
  | @keep prev prev' a text out text' h hp ih =>
    intro before hcan
    have hstep := ih hend (before ++ [a])
    simp only [List.append_assoc, List.singleton_append] at hstep
    exact hstep hcan
  | @hit prev prev' text out text' m h hp ih =>
    intro before hcan
    obtain ⟨front, back, hword, hexp⟩ := hm _ _ _ h
    have hrest := ih hend []
    rw [Pat.text_of_first h, hword, ← List.append_assoc, ← List.append_assoc] at hcan
    have hleft := hcan.left.left
    have hright := hcan.right
    rw [hexp, ← List.append_assoc, ← List.append_assoc]
    rw [← hword] at hright
    exact hleft.insert hc (hrest hright)

theorem Redaction.exists_pass (p : Redaction) (x : List Rune) :
    ∃ prev', Pass p.re p.repl none x (p.pass x) prev' [] := Pass.of_replaceFrom none x

/-- A redaction that keeps the front of its match and puts the ASCII text `mark` in place of the rest. -/
def Redaction.Marks (p : Redaction) (mark : String) : Prop :=
  Marking p.re p.repl (asciiRunes mark) ∧ mark ≠ "" ∧ ∀ x ∈ mark.toList, x.toNat < 0x80

theorem Redaction.Marks.decode {p : Redaction} {mark : String} (h : p.Marks mark) (s : Bytes) :
    decode (p.replaceAllString s) = p.pass (decode s) := by
  obtain ⟨hm, hne, hascii⟩ := h
  have hlist : mark.toList ≠ [] := fun hnil => hne (String.toList_eq_nil_iff.mp hnil)
  obtain ⟨c, cs, hcs⟩ := List.exists_cons_of_ne_nil hlist
  rw [asciiRunes, hcs] at hm
  rw [hcs] at hascii
  obtain ⟨prev', hp⟩ := p.exists_pass (Go.decode s)
  exact canonical_of_pass hascii hm hp [] (canonical_decode s)

/-! ## The fronts of the five matches -/

section Groups

variable {r s : Pat Rune} {prev : Option Rune} {text : List Rune} {m : Match Rune}

theorem group_append_left {n : Nat} (m m' : Match Rune) (w : List Rune) :
    (Match.append ⟨m.word, (n, w) :: m.groups⟩ m').group n = w := by
  simp [Match.append, Match.group]

/-- A match of a group and of what follows it. -/
theorem group_of_mem {n : Nat} (h : m ∈ (Pat.seq (.group n r) s).runs prev text) :
    ∃ w w', m.word = w ++ w' ∧ m.group n = w ∧ r.Denotes w ∧ s.Denotes w' := by
  obtain ⟨m1, h1, m2, h2, rfl⟩ := Pat.mem_runs_seq.mp h
  obtain ⟨m0, h0, rfl⟩ := Pat.mem_runs_group.mp h1
  exact ⟨m0.word, m2.word, rfl, group_append_left _ _ _, Pat.denotes_of_mem h0, Pat.denotes_of_mem h2⟩

end Groups

theorem denotes_exactly {s : String} : (exactly s).Denotes w ↔ w.map Rune.char = s.toList :=
  Pat.denotes_word_beq

theorem denotes_anyCase {s : String} : (anyCase s).Denotes w ↔ w.map (fun r => folded r.char) = s.toList :=
  Pat.denotes_word_beq

theorem userinfo_marks : userinfo.Marks "[redacted]@" := by
  refine ⟨?_, by decide, List.all_iff_forall_prop.mp (by decide)⟩
  intro prev text m h
  obtain ⟨w, w', hword, hgroup, -, -⟩ := group_of_mem (Pat.mem_of_first h).1
  refine ⟨w, w', hword, ?_⟩
  simp only [userinfo, expand, List.flatMap_cons, List.flatMap_nil, List.append_nil, hgroup]
  rfl

/-- `(?:set-)?cookie` -/
def cookieName : Pat Rune := .seq (.opt (anyCase "set-")) (anyCase "cookie")

theorem cookieHeader_match (h : cookieHeader.re.first prev text = some m) :
    ∃ k e value, m.word = k ++ e :: value ∧ expand cookieHeader.repl m = k ++ asciiRunes ": [redacted]" ∧
      cookieName.Denotes k ∧ e.char = ':' ∧ value ≠ [] ∧
      (∀ r ∈ value, (r.char == '\r' || r.char == '\n') = false) ∧
      (prev.any (fun r => isWord r.char) != text.head?.any fun r => isWord r.char) = true := by
  obtain ⟨m1, h1, m2, h2, rfl⟩ := Pat.mem_runs_seq.mp (Pat.mem_of_first h).1
  have hnil : m1 = .empty ∧ (prev.any (fun r => isWord r.char) != text.head?.any fun r => isWord r.char) = true := by
    simp only [wordBoundary, Pat.runs] at h1
    split at h1
    · rename_i hb
      exact ⟨List.mem_singleton.mp h1, hb⟩
    · cases h1
  obtain ⟨rfl, hboundary⟩ := hnil
  obtain ⟨k, w', hword, hgroup, hk, hrest⟩ := group_of_mem h2
  obtain ⟨w, value, rfl, hcolon, hvalue⟩ := hrest
  obtain ⟨e, rfl, he⟩ := List.map_eq_singleton_iff.mp (denotes_exactly.mp hcolon)
  have hgroup' : (Match.empty.append m2).group 1 = k := hgroup
  refine ⟨k, e, value, hword, ?_, hk, he, Pat.ne_nil_of_denotes (by decide) hvalue, ?_, hboundary⟩
  · simp only [cookieHeader, expand, List.flatMap_cons, List.flatMap_nil, List.append_nil, hgroup']
    rfl
  · have hover : (Pat.seq (many fun c => c == ' ' || c == '\t')
        (plus fun c => !(c == '\r' || c == '\n' || c == '"'))).Over fun r => !(r.char == '\r' || r.char == '\n') := by
      have hline : ∀ r : Rune, (!(r.char == '\r' || r.char == '\n' || r.char == '"')) = true →
          (!(r.char == '\r' || r.char == '\n')) = true := by
        intro r hr
        simp only [Bool.not_eq_true', Bool.or_eq_false_iff] at hr ⊢
        exact hr.1
      have hblank : ∀ r : Rune, (r.char == ' ' || r.char == '\t') = true →
          (!(r.char == '\r' || r.char == '\n')) = true := by
        intro r hr
        simp only [Bool.or_eq_true, beq_iff_eq] at hr
        rcases hr with hr | hr
        · rw [hr]
          decide
        · rw [hr]
          decide
      exact ⟨hblank, hline, hline⟩
    intro r hr
    have hr' := Pat.all_of_denotes hover hvalue r hr
    rwa [Bool.not_eq_true'] at hr'

theorem cookieHeader_marks : cookieHeader.Marks ": [redacted]" := by
  refine ⟨?_, by decide, List.all_iff_forall_prop.mp (by decide)⟩
  intro prev text m h
  obtain ⟨k, e, value, hword, hexp, -⟩ := cookieHeader_match h
  exact ⟨k, e :: value, hword, hexp⟩

/-- At a word boundary a header with a value is found. -/
theorem cookieHeader_found {a : Rune}
    (hb : (prev.any (fun r => isWord r.char) != (k ++ e :: a :: rest).head?.any fun r => isWord r.char) = true)
    (hk : cookieName.Denotes k) (he : e.char = ':')
    (ha : (!(a.char == '\r' || a.char == '\n' || a.char == '"')) = true) :
    cookieHeader.re.first prev (k ++ e :: a :: rest) ≠ none := by
  have hfree : (Pat.seq (.group 1 cookieName) (.seq (exactly ":") (.seq (many fun c => c == ' ' || c == '\t')
      (plus fun c => !(c == '\r' || c == '\n' || c == '"'))))).Free := by
    simp [cookieName, Pat.opt, anyCase, exactly, many, plus, Pat.plus, Pat.Free, Pat.word]
  have hline : (plus fun c => !(c == '\r' || c == '\n' || c == '"')).Denotes [a] :=
    ⟨[a], [], rfl, ⟨a, ha, rfl⟩, by simp [Pat.Denotes]⟩
  have hdenotes : (Pat.seq (.group 1 cookieName) (.seq (exactly ":") (.seq (many fun c => c == ' ' || c == '\t')
      (plus fun c => !(c == '\r' || c == '\n' || c == '"'))))).Denotes (k ++ [e, a]) :=
    ⟨k, [e, a], rfl, hk, [e], [a], rfl, denotes_exactly.mpr (by rw [List.map_singleton, he]; rfl), [], [a], rfl,
      by simp [many, Pat.Denotes], hline⟩
  obtain ⟨m, hm, -⟩ := Pat.exists_mem_of_denotes hfree hdenotes (lastOr prev Match.empty.word) rest
  have htext : k ++ [e, a] ++ rest = k ++ e :: a :: rest := by
    rw [List.append_assoc]
    rfl
  rw [htext] at hm
  refine Pat.first_ne_none (m := Match.empty.append m) (Pat.mem_runs_seq.mpr ⟨.empty, ?_, m, hm, rfl⟩) fun m' hm' => ?_
  · rw [wordBoundary, Pat.runs, if_pos hb]
    exact List.mem_cons_self
  · exact Pat.ne_nil_of_denotes (by decide) (Pat.denotes_of_mem hm')

/-- The boundary that a credential pair starts with: nothing at the start, or a rune outside `[a-z0-9_-]`. -/
def Opens (prev : Option Rune) (g : List Rune) : Prop :=
  g = [] ∧ prev = none ∨ ∃ b, g = [b] ∧ isKeyRune b.char = false

theorem credentialPair_match (h : credentialPair.re.first prev text = some m) :
    ∃ g k e value, m.word = g ++ (k ++ [e]) ++ value ∧
      expand credentialPair.repl m = g ++ (k ++ [e]) ++ redactedRunes ∧ Opens prev g ∧
      credentialKey.Denotes k ∧ e.char = '=' ∧ credentialValue.Denotes value := by
  obtain ⟨m1, h1, m23, h23, rfl⟩ := Pat.mem_runs_seq.mp (Pat.mem_of_first h).1
  obtain ⟨m2, h2, m3, h3, rfl⟩ := Pat.mem_runs_seq.mp h23
  obtain ⟨n1, hn1, rfl⟩ := Pat.mem_runs_group.mp h1
  obtain ⟨n2, hn2, rfl⟩ := Pat.mem_runs_group.mp h2
  obtain ⟨n3, hn3, rfl⟩ := Pat.mem_runs_group.mp h3
  obtain ⟨k, eq, hke, hk, heq⟩ := Pat.denotes_of_mem hn2
  obtain ⟨e, rfl, he⟩ := List.map_eq_singleton_iff.mp (denotes_exactly.mp heq)
  have hg1 : n1.groups = [] := by
    refine Pat.groups_eq_nil ?_ hn1
    exact ⟨trivial, trivial⟩
  refine ⟨n1.word, k, e, n3.word, ?_, ?_, ?_, hk, he, Pat.denotes_of_mem hn3⟩
  · simp only [Match.append, List.append_assoc, hke]
  · simp [credentialPair, expand, Match.append, Match.group, hg1, hke, redactedRunes, List.lookup_cons]
  · rcases Pat.mem_runs_alt.mp hn1 with hs | hc
    · simp only [Pat.runs] at hs
      split at hs
      · rename_i hnone
        obtain rfl := List.mem_singleton.mp hs
        exact Or.inl ⟨rfl, Option.isNone_iff_eq_none.mp hnone⟩
      · cases hs
    · obtain ⟨b, rest, -, hb, rfl⟩ := Pat.mem_runs_cls.mp hc
      exact Or.inr ⟨b, rfl, by simpa using hb⟩

theorem credentialPair_marks : credentialPair.Marks redacted := by
  refine ⟨?_, by decide, List.all_iff_forall_prop.mp (by decide)⟩
  intro prev text m h
  obtain ⟨g, k, e, value, hword, hexp, -⟩ := credentialPair_match h
  exact ⟨_, value, hword, hexp⟩

/-- The mark of the last three passes, by its first rune. -/
theorem redactedRunes_cons : redactedRunes = Rune.ofAscii '[' :: redactedRunes.tail := rfl

theorem bearerToken_marks : bearerToken.Marks redacted := by
  refine ⟨?_, by decide, List.all_iff_forall_prop.mp (by decide)⟩
  intro prev text m _
  exact ⟨[], m.word, rfl, by simp [bearerToken, expand]⟩

theorem apiKey_marks : apiKey.Marks redacted := by
  refine ⟨?_, by decide, List.all_iff_forall_prop.mp (by decide)⟩
  intro prev text m _
  exact ⟨[], m.word, rfl, by simp [apiKey, expand]⟩

theorem decode_redact (s : Bytes) :
    decode (redact s) =
      apiKey.pass (bearerToken.pass (credentialPair.pass (cookieHeader.pass (userinfo.pass (decode s))))) := by
  simp only [redact, valuePatterns, List.foldl_cons, List.foldl_nil]
  rw [apiKey_marks.decode, bearerToken_marks.decode, credentialPair_marks.decode, cookieHeader_marks.decode,
    userinfo_marks.decode]

/-! ## Keys and values -/

theorem toNat_of_isUpper (h : isUpper c = true) : 65 ≤ c.toNat ∧ c.toNat ≤ 90 := by
  simp only [isUpper, Bool.and_eq_true, decide_eq_true_iff, Char.le_def] at h
  exact h

theorem isKeyRune_of_folded (h : isLower (folded c) = true ∨ folded c = '-') : isKeyRune c = true := by
  rcases h with h | h
  · simp [isKeyRune, h]
  · unfold folded at h
    split_ifs at h with hu
    · -- a capital letter does not fold to the hyphen
      obtain ⟨hlo, hhi⟩ := toNat_of_isUpper hu
      have hnat := congrArg Char.toNat h
      rw [Char.ofNat, dif_pos (by left; omega)] at hnat
      have hval : c.toNat + 32 = 45 := hnat
      omega
    · cases h
    · cases h
    · rw [h]
      decide

theorem over_anyCase {s : String} (h : ∀ c ∈ s.toList, isLower c = true ∨ c = '-') :
    (anyCase s).Over fun r => isKeyRune r.char := by
  unfold anyCase
  generalize s.toList = cs at h
  induction cs with
  | nil => trivial
  | cons c cs ih =>
    rw [List.forall_mem_cons] at h
    refine ⟨fun r hr => isKeyRune_of_folded ?_, ih h.2⟩
    have hfold : folded r.char = c := by simpa using hr
    rw [hfold]
    exact h.1

theorem over_keys : credentialKey.Over fun r => isKeyRune r.char := by
  have hmany : (many isKeyRune).Over fun r => isKeyRune r.char := fun _ h => h
  have hsep : (cls fun c => c == '_' || c == '-').Over fun r => isKeyRune r.char := by
    intro r hr
    simp only [Bool.or_eq_true, beq_iff_eq] at hr
    simp only [isKeyRune, Bool.or_eq_true, beq_iff_eq]
    rcases hr with hr | hr
    · exact Or.inl (Or.inr hr)
    · exact Or.inr hr
  have hword : ∀ s ∈ ["password", "passwd", "secret", "token", "session", "credential", "api", "key", "sig",
      "signature", "awsaccesskeyid", "x-", "amz", "goog", "-signature"],
      (anyCase s).Over fun r => isKeyRune r.char := by
    intro s hs
    refine over_anyCase (List.all_iff_forall_prop.mp ?_)
    revert s
    decide
  simp only [List.forall_mem_cons, List.not_mem_nil, false_imp_iff, implies_true, and_true] at hword
  obtain ⟨h1, h2, h3, h4, h5, h6, h7, h8, h9, h10, h11, h12, h13, h14, h15⟩ := hword
  simp only [credentialKey, Pat.oneOf, Pat.opt, Pat.Over]
  exact ⟨⟨hmany, ⟨h1, h2, h3, h4, h5, h6, h7, ⟨hsep, trivial⟩, h8⟩, hmany⟩, h8, h9, h10, h11, h12, ⟨h13, h14⟩, h15⟩

theorem over_cookieName : cookieName.Over fun r => isKeyRune r.char :=
  ⟨⟨over_anyCase (List.all_iff_forall_prop.mp (by decide)), trivial⟩,
    over_anyCase (List.all_iff_forall_prop.mp (by decide))⟩

theorem isKeyRune_of_mem (h : credentialKey.Denotes k) {r : Rune} (hr : r ∈ k) : isKeyRune r.char = true :=
  Pat.all_of_denotes over_keys h r hr

theorem key_ne_nil (h : credentialKey.Denotes k) : k ≠ [] := Pat.ne_nil_of_denotes (by decide) h

/-- What ends an unquoted value. -/
def isStop (c : Char) : Bool := c == '&' || isSpace c || c == '<' || c == '>'

def isQuote (c : Char) : Bool := c == '"' || c == '\''

theorem denotes_value_of_plain {r : Rune} (hs : isStop r.char = false) (hq : isQuote r.char = false) :
    credentialValue.Denotes [r] := by
  refine Or.inr (Or.inr ⟨[r], [], rfl, ⟨r, ?_, rfl⟩, by simp [Pat.Denotes]⟩)
  simp only [isStop, isQuote, Bool.or_eq_false_iff] at hs hq
  simp [hs, hq]

theorem denotes_value_of_quoted {q q' : Rune} (hq : isQuote q.char = true) (hq' : q'.char = q.char)
    (hw : ∀ r ∈ w, r.char ≠ q.char) : credentialValue.Denotes (q :: (w ++ [q'])) := by
  simp only [isQuote, Bool.or_eq_true, beq_iff_eq] at hq
  rcases hq with hq | hq
  · refine Or.inr (Or.inl ⟨[q], w ++ [q'], rfl, denotes_exactly.mpr ?_, w, [q'], rfl, fun r hr => ?_,
      denotes_exactly.mpr ?_⟩)
    · rw [List.map_singleton, hq]
      rfl
    · rw [hq] at hw
      simpa using hw r hr
    · rw [List.map_singleton, hq', hq]
      rfl
  · refine Or.inl ⟨[q], w ++ [q'], rfl, denotes_exactly.mpr ?_, w, [q'], rfl, fun r hr => ?_,
      denotes_exactly.mpr ?_⟩
    · rw [List.map_singleton, hq]
      rfl
    · rw [hq] at hw
      simpa using hw r hr
    · rw [List.map_singleton, hq', hq]
      rfl

theorem isStop_of_key (h : isKeyRune c = true) : isStop c = false := by
  rw [Bool.eq_false_iff]
  intro hs
  simp only [isStop, isSpace, Bool.or_eq_true, beq_iff_eq] at hs
  rcases hs with ((rfl | (((rfl | rfl) | rfl) | rfl) | rfl) | rfl) | rfl <;> revert h <;> decide

theorem isQuote_of_key (h : isKeyRune c = true) : isQuote c = false := by
  rw [Bool.eq_false_iff]
  intro hq
  simp only [isQuote, Bool.or_eq_true, beq_iff_eq] at hq
  rcases hq with rfl | rfl <;> revert h <;> decide

/-- Nothing, or a stop: no value follows. -/
def NoValue (v : List Rune) : Prop := ∀ r, v.head? = some r → isStop r.char = true

/-- A quote that is not closed. -/
def OpenQuote (v : List Rune) : Prop := ∃ q w, v = q :: w ∧ isQuote q.char = true ∧ ∀ r ∈ w, r.char ≠ q.char

/-- A text without a value at its start is empty, starts with a stop, or with a quote that is not closed. -/
theorem noValue_or_openQuote (h : ∀ value, value <+: v → ¬ credentialValue.Denotes value) :
    NoValue v ∨ OpenQuote v := by
  cases v with
  | nil => exact Or.inl nofun
  | cons q w =>
    by_cases hs : isStop q.char = true
    · left
      intro r hr
      rw [← Option.some.inj hr]
      exact hs
    · by_cases hq : isQuote q.char = true
      · refine Or.inr ⟨q, w, rfl, hq, fun r hr hrq => ?_⟩
        have hmem : q.char ∈ w.map Rune.char := List.mem_map.mpr ⟨r, hr, hrq⟩
        obtain ⟨cs, cs', hsplit, hfirst⟩ := List.eq_append_cons_of_mem hmem
        obtain ⟨w1, w2, rfl, rfl, hw2⟩ := List.map_eq_append_iff.mp hsplit
        obtain ⟨q', w3, rfl, hq', -⟩ := List.map_eq_cons_iff.mp hw2
        have hw1 : ∀ r ∈ w1, r.char ≠ q.char := fun r hr hrq => hfirst (List.mem_map.mpr ⟨r, hr, hrq⟩)
        exact h _ ⟨w3, by simp⟩ (denotes_value_of_quoted hq hq' hw1)
      · have hs' : isStop q.char = false := by simpa using hs
        have hq' : isQuote q.char = false := by simpa using hq
        exact absurd (denotes_value_of_plain hs' hq') (h [q] ⟨w, rfl⟩)

/-! ## Scrubbed texts -/

/-- A credential pair may start behind `u`. -/
def Starts (u : List Rune) : Prop := ∀ b, u.getLast? = some b → isKeyRune b.char = false

/-- Behind the `key=` of a credential stands "[redacted]" or no value; or an open quote, or the key stands right
behind a "[redacted]". -/
def Scrubbed (text : List Rune) : Prop :=
  ∀ u k e v, text = u ++ (k ++ e :: v) → Starts u → credentialKey.Denotes k → e.char = '=' →
    redactedRunes <+: v ∨ NoValue v ∨ OpenQuote v ∨ redactedRunes <:+ u

theorem not_isKeyRune_eq (he : e.char = '=') : ¬ isKeyRune e.char = true := by
  rw [he]
  decide

/-- A key ends at its `=`. -/
theorem key_unique {p : Rune → Bool} {k' : List Rune} {e' : Rune} (h : k ++ e :: v = k' ++ e' :: v')
    (hk : ∀ r ∈ k, p r = true) (hk' : ∀ r ∈ k', p r = true) (he : ¬ p e = true) (he' : ¬ p e' = true) :
    k = k' ∧ e = e' ∧ v = v' := by
  have htake := congrArg (List.takeWhile p) h
  rw [List.takeWhile_append_of_pos hk, List.takeWhile_append_of_pos hk', List.takeWhile_cons_of_neg he,
    List.takeWhile_cons_of_neg he', List.append_nil, List.append_nil] at htake
  subst htake
  obtain ⟨rfl, rfl⟩ := List.cons.inj (List.append_cancel_left h)
  exact ⟨rfl, rfl, rfl⟩

theorem suffix_redactedRunes (h : y <:+ redactedRunes) (hne : y ≠ []) :
    y.head? = some (Rune.ofAscii '[') ∨
      (∀ r ∈ y.dropLast, isKeyRune r.char = true) ∧ y.getLast? = some (Rune.ofAscii ']') := by
  rw [← List.mem_tails] at h
  revert y
  decide

/-- No word of key runes starts inside "[redacted]". -/
theorem word_not_in_mark {k v y rest : List Rune} {e : Rune} (hne : k ≠ []) (hk : ∀ r ∈ k, isKeyRune r.char = true)
    (he : ¬ isKeyRune e.char = true) (he' : e ≠ Rune.ofAscii ']') (hy : y <:+ redactedRunes) (hy' : y ≠ []) :
    k ++ e :: v ≠ y ++ rest := by
  intro h
  rcases suffix_redactedRunes hy hy' with hopen | ⟨hkeys, hlast⟩
  · obtain ⟨r, k', rfl⟩ := List.exists_cons_of_ne_nil hne
    obtain ⟨r', y', rfl⟩ := List.exists_cons_of_ne_nil hy'
    obtain ⟨rfl, -⟩ := List.cons.inj h
    have hkey := hk r List.mem_cons_self
    rw [Option.some.inj hopen] at hkey
    cases hkey
  · obtain ⟨y', rfl⟩ := List.getLast?_eq_some_iff.mp hlast
    rw [List.dropLast_concat] at hkeys
    rw [List.append_assoc, List.singleton_append] at h
    obtain ⟨-, heq, -⟩ := key_unique (p := fun r => isKeyRune r.char) h hk hkeys he (by decide)
    exact he' heq

theorem key_not_in_mark (hk : credentialKey.Denotes k) (he : e.char = '=') (hy : y <:+ redactedRunes) (hne : y ≠ []) :
    k ++ e :: v ≠ y ++ rest := by
  refine word_not_in_mark (key_ne_nil hk) (fun r hr => isKeyRune_of_mem hk hr) (not_isKeyRune_eq he) ?_ hy hne
  rintro rfl
  cases he

/-! ## The third pass -/

theorem credentialPair_first_ne_none {g value : List Rune} (hg : Opens prev g) (hk : credentialKey.Denotes k)
    (he : e.char = '=') (hv : credentialValue.Denotes value) :
    credentialPair.re.first prev (g ++ (k ++ e :: (value ++ rest))) ≠ none := by
  have hpair : (Pat.seq (.group 2 (.seq credentialKey (exactly "="))) (.group 3 credentialValue)).Denotes
      ((k ++ [e]) ++ value) :=
    ⟨k ++ [e], value, rfl, ⟨k, [e], rfl, hk, denotes_exactly.mpr (by rw [List.map_singleton, he]; rfl)⟩, hv⟩
  have hopen : ∃ m ∈ (Pat.group 1 (.alt .start (cls fun c => !isKeyRune c))).runs prev
      (g ++ (k ++ e :: (value ++ rest))), m.word = g := by
    rcases hg with ⟨rfl, rfl⟩ | ⟨b, rfl, hb⟩
    · exact ⟨_, Pat.mem_runs_group.mpr ⟨.empty, Pat.mem_runs_alt.mpr (Or.inl List.mem_cons_self), rfl⟩, rfl⟩
    · refine ⟨_, Pat.mem_runs_group.mpr ⟨⟨[b], []⟩, Pat.mem_runs_alt.mpr (Or.inr ?_), rfl⟩, rfl⟩
      exact Pat.mem_runs_cls.mpr ⟨b, _, rfl, by simp [hb], rfl⟩
  obtain ⟨m1, hm1, rfl⟩ := hopen
  have hfree : (Pat.seq (.group 2 (.seq credentialKey (exactly "="))) (.group 3 credentialValue)).Free := by
    simp [credentialKey, credentialValue, Pat.oneOf, Pat.opt, anyCase, exactly, cls, many, plus, Pat.plus, Pat.Free,
      Pat.word]
  obtain ⟨m2, hm2, -⟩ := Pat.exists_mem_of_denotes hfree hpair (lastOr prev m1.word) rest
  refine Pat.first_ne_none (m := m1.append m2) (Pat.mem_runs_seq.mpr ⟨m1, hm1, m2, ?_, rfl⟩) fun m hm => ?_
  · rw [List.drop_left]
    simpa using hm2
  · exact Pat.ne_nil_of_denotes (by decide) (Pat.denotes_of_mem hm)

theorem bracket_notMem {k : List Rune} {e : Rune} (hk : ∀ r ∈ k, isKeyRune r.char = true) (he : e ≠ Rune.ofAscii '[') :
    Rune.ofAscii '[' ∉ k ++ [e] := by
  intro hmem
  rcases List.mem_append.mp hmem with hmem | hmem
  · have hkey := hk _ hmem
    cases hkey
  · exact he (List.mem_singleton.mp hmem).symm

/-- The third pass writes the rune it reads first, and behind it what it reads behind it. -/
theorem credentialPair_head {out : List Rune} (hp : Pass credentialPair.re credentialPair.repl prev text out prev' []) :
    out.head? = text.head? ∧ ∀ r ∈ out.tail, r ∈ text.tail ∨ r ∈ redactedRunes := by
  cases hp with
  | refl => exact ⟨rfl, nofun⟩
  | keep _ hp => exact ⟨rfl, fun r hr => hp.mem_out credentialPair_marks.1 hr⟩
  | hit h hp =>
    obtain ⟨g, k, e, value, hword, hexp, -⟩ := credentialPair_match h
    have htext := Pat.text_of_first h
    obtain ⟨a, t, hfront⟩ := List.exists_cons_of_ne_nil (l := g ++ (k ++ [e])) (by simp)
    rw [hfront] at hword hexp
    rw [hexp, htext, hword]
    refine ⟨rfl, fun r hr => ?_⟩
    rcases List.mem_append.mp hr with hr | hr
    · rcases List.mem_append.mp hr with hr | hr
      · exact Or.inl (List.mem_append_left _ (List.mem_append_left _ hr))
      · exact Or.inr hr
    · rw [hword] at hp
      rcases hp.mem_out credentialPair_marks.1 hr with hr | hr
      · exact Or.inl (List.mem_append_right _ hr)
      · exact Or.inr hr

/-- A match that starts with the rune of a key stands at the start of the text. -/
theorem prev_of_key {r : Rune} {out : List Rune} (h : credentialPair.re.first prev text = some m)
    (hr : isKeyRune r.char = true) (hout : r :: out = expand credentialPair.repl m ++ rest) : prev = none := by
  obtain ⟨g, k, e, value, -, hexp, hg, -⟩ := credentialPair_match h
  rcases hg with ⟨-, hnone⟩ | ⟨b, rfl, hb⟩
  · exact hnone
  · rw [hexp] at hout
    obtain ⟨rfl, -⟩ := List.cons.inj hout
    rw [hr] at hb
    cases hb

/-- The runes of a key are copied where no match starts with them. -/
theorem key_copied (hk : ∀ r ∈ k, isKeyRune r.char = true)
    (hp : Pass credentialPair.re credentialPair.repl prev x (k ++ rest) prev' [])
    (hfirst : prev = none → credentialPair.re.first prev x = none) :
    ∃ x', x = k ++ x' ∧ Pass credentialPair.re credentialPair.repl (lastOr prev k) x' rest prev' [] := by
  induction k generalizing prev x with
  | nil => exact ⟨x, rfl, hp⟩
  | cons r k ih =>
    rw [List.forall_mem_cons] at hk
    have hnone : credentialPair.re.first prev x = none := by
      cases hf : credentialPair.re.first prev x with
      | none => rfl
      | some m =>
        obtain ⟨out, hout, -⟩ := hp.of_some hf
        rw [hfirst (prev_of_key hf hk.1 hout)] at hf
        cases hf
    obtain ⟨x1, rfl, hp1⟩ := hp.of_none hnone
    obtain ⟨x', rfl, hp'⟩ := ih hk.2 hp1 nofun
    refine ⟨x', rfl, ?_⟩
    rwa [lastOr_cons]

/-- The third pass, from a place where the credential pair may start: it copies the key, which no value follows,
or it replaces the value. -/
theorem pair_at {g : List Rune} (hp : Pass credentialPair.re credentialPair.repl prev x (g ++ (k ++ e :: v)) prev' [])
    (hg : Opens prev g) (hk : credentialKey.Denotes k) (he : e.char = '=') :
    (∃ v', x = g ++ (k ++ e :: v') ∧ (∀ value, value <+: v' → ¬ credentialValue.Denotes value) ∧
      Pass credentialPair.re credentialPair.repl (some e) v' v prev' []) ∨
    ∃ m out, credentialPair.re.first prev x = some m ∧ v = redactedRunes ++ out ∧
      Pass credentialPair.re credentialPair.repl (lastOr prev m.word) (x.drop m.word.length) out prev' [] := by
  have hkeys : ∀ r ∈ k, isKeyRune r.char = true := fun r hr => isKeyRune_of_mem hk hr
  cases hfirst : credentialPair.re.first prev x with
  | some m =>
    -- a match starts here, and its key is `k`
    obtain ⟨g', k', e', value, hword, hexp, hg', hk', he', -⟩ := credentialPair_match hfirst
    obtain ⟨out, hout, hp'⟩ := hp.of_some hfirst
    rw [hexp, List.append_assoc, List.append_assoc, List.append_assoc, List.singleton_append] at hout
    have hkeys' : ∀ r ∈ k', isKeyRune r.char = true := fun r hr => isKeyRune_of_mem hk' hr
    have hsame : k ++ e :: v = k' ++ e' :: (redactedRunes ++ out) := by
      obtain ⟨r, t, rfl⟩ := List.exists_cons_of_ne_nil (key_ne_nil hk)
      obtain ⟨r', t', rfl⟩ := List.exists_cons_of_ne_nil (key_ne_nil hk')
      rcases hg with ⟨rfl, rfl⟩ | ⟨b, rfl, hb⟩
      · rcases hg' with ⟨rfl, -⟩ | ⟨b', rfl, hb'⟩
        · exact hout
        · obtain ⟨rfl, -⟩ := List.cons.inj hout
          rw [hkeys r List.mem_cons_self] at hb'
          cases hb'
      · rcases hg' with ⟨rfl, -⟩ | ⟨b', rfl, hb'⟩
        · obtain ⟨rfl, -⟩ := List.cons.inj hout
          rw [hkeys' b List.mem_cons_self] at hb
          cases hb
        · exact (List.cons.inj hout).2
    obtain ⟨-, -, rfl⟩ := key_unique (p := fun r => isKeyRune r.char) hsame hkeys hkeys' (not_isKeyRune_eq he)
      (not_isKeyRune_eq he')
    exact Or.inr ⟨m, out, rfl, rfl, hp'⟩
  | none =>
    have hread : ∃ prev2 x', x = g ++ (k ++ x') ∧
        Pass credentialPair.re credentialPair.repl prev2 x' (e :: v) prev' [] := by
      rcases hg with ⟨rfl, rfl⟩ | ⟨b, rfl, hb⟩
      · obtain ⟨x', rfl, hp'⟩ := key_copied hkeys hp fun _ => hfirst
        exact ⟨_, x', rfl, hp'⟩
      · obtain ⟨x1, rfl, hp1⟩ := Pass.of_none (a := b) hp hfirst
        obtain ⟨x', rfl, hp'⟩ := key_copied hkeys hp1 nofun
        exact ⟨_, x', rfl, hp'⟩
    obtain ⟨prev2, x', rfl, hp2⟩ := hread
    have hvalue : ∀ v' value, x' = e :: v' → value <+: v' → ¬ credentialValue.Denotes value := by
      rintro v' value rfl ⟨rest, rfl⟩ hdenotes
      exact credentialPair_first_ne_none hg hk he hdenotes hfirst
    cases hfirst2 : credentialPair.re.first prev2 x' with
    | none =>
      obtain ⟨v', rfl, hp3⟩ := hp2.of_none hfirst2
      exact Or.inl ⟨v', rfl, fun value => hvalue v' value rfl, hp3⟩
    | some m =>
      -- a match with `=` for its boundary: its key would be a value
      exfalso
      obtain ⟨g', k', e', value, hword, hexp, hg', hk', -⟩ := credentialPair_match hfirst2
      obtain ⟨out, hout, -⟩ := hp2.of_some hfirst2
      have htext := Pat.text_of_first hfirst2
      rw [hexp] at hout
      obtain ⟨r, t, rfl⟩ := List.exists_cons_of_ne_nil (key_ne_nil hk')
      have hr := isKeyRune_of_mem hk' (List.mem_cons_self (a := r))
      rcases hg' with ⟨rfl, -⟩ | ⟨b', rfl, -⟩
      · obtain ⟨rfl, -⟩ := List.cons.inj hout
        exact not_isKeyRune_eq he hr
      · obtain ⟨rfl, -⟩ := List.cons.inj hout
        rw [hword] at htext
        refine hvalue _ [r] htext ⟨_, rfl⟩ (denotes_value_of_plain ?_ ?_)
        · exact isStop_of_key hr
        · exact isQuote_of_key hr

/-- Inside what replaces a match a credential pair can start behind its mark only. -/
theorem inside_eq_nil {g k' : List Rune} {b e' : Rune} (hg : Opens prev g) (hk : credentialKey.Denotes k)
    (hexp : g ++ (k ++ [e]) ++ redactedRunes = x ++ b :: y) (hx : x ≠ []) (hb : isKeyRune b.char = false)
    (hk' : credentialKey.Denotes k') (he' : e'.char = '=') (hrest : k' ++ e' :: v = y ++ rest) : y = [] := by
  by_contra hy
  rcases List.append_eq_append_iff.mp hexp with ⟨z, hz, hmark⟩ | ⟨z, hz, hmark⟩
  · -- in the mark
    have hsuffix : y <:+ redactedRunes := by
      rw [hmark]
      exact (List.suffix_cons b y).trans (List.suffix_append z _)
    exact key_not_in_mark hk' he' hsuffix hy hrest
  · cases z with
    | nil =>
      have hsuffix : y <:+ redactedRunes := by
        rw [← List.nil_append redactedRunes, ← hmark]
        exact List.suffix_cons b y
      exact key_not_in_mark hk' he' hsuffix hy hrest
    | cons b' z =>
      obtain ⟨rfl, hy'⟩ := List.cons.inj hmark
      -- in the front, behind its first rune: at its `=`, or in the key
      have htail : ∃ x', k ++ [e] = x' ++ b :: z := by
        rcases hg with ⟨rfl, -⟩ | ⟨b', rfl, -⟩
        · exact ⟨x, hz⟩
        · obtain ⟨r, x', rfl⟩ := List.exists_cons_of_ne_nil hx
          exact ⟨x', (List.cons.inj hz).2⟩
      obtain ⟨x', hx'⟩ := htail
      rcases List.eq_nil_or_concat z with rfl | ⟨z', r, rfl⟩
      · have hmark' : y = redactedRunes := hy'
        exact key_not_in_mark hk' he' (hmark' ▸ List.suffix_refl y) hy hrest
      · rw [List.concat_eq_append, ← List.cons_append, ← List.append_assoc] at hx'
        have hkey := (List.append_inj' hx' rfl).1
        have hmem : b ∈ k := by
          rw [hkey]
          exact List.mem_append_right _ List.mem_cons_self
        rw [isKeyRune_of_mem hk hmem] at hb
        cases hb

/-- Where the third pass stands when it has written what a credential pair may follow: before the pair, or right
behind a match. -/
theorem pair_in {u : List Rune} (hp : Pass credentialPair.re credentialPair.repl none x (u ++ (k ++ e :: v)) prev' [])
    (hu : Starts u) (hk : credentialKey.Denotes k) (he : e.char = '=') :
    (∃ g prev1 x1, Opens prev1 g ∧ x1 <:+ x ∧
      Pass credentialPair.re credentialPair.repl prev1 x1 (g ++ (k ++ e :: v)) prev' []) ∨
    redactedRunes <:+ u ∧ ∃ prev1 x1, Behind credentialPair.re x prev1 x1 ∧
      Pass credentialPair.re credentialPair.repl prev1 x1 (k ++ e :: v) prev' [] := by
  rcases List.eq_nil_or_concat u with rfl | ⟨u, b, rfl⟩
  · exact Or.inl ⟨[], none, x, Or.inl ⟨rfl, rfl⟩, List.suffix_refl x, hp⟩
  · rw [List.concat_eq_append] at hu hp ⊢
    have hb : isKeyRune b.char = false := hu b (by simp)
    rw [List.append_assoc] at hp
    rcases hp.split with
      ⟨prev1, x1, hp1, hp2⟩ | ⟨u1, x', y, rest, m, prev1, x1, hp1, hm, hp2, hexp, hx, hy, rfl, hv⟩
    · obtain ⟨t, rfl, -⟩ := hp1.read
      exact Or.inl ⟨[b], prev1, x1, Or.inr ⟨b, rfl, hb⟩, List.suffix_append _ _, hp2⟩
    · obtain ⟨g, k', e', value, -, hexp', hg, hk', -⟩ := credentialPair_match hm
      obtain ⟨b', y, rfl⟩ := List.exists_cons_of_ne_nil hy
      obtain ⟨rfl, hrest⟩ := List.cons.inj hv
      have hexp2 := hexp'.symm.trans hexp
      obtain rfl := inside_eq_nil hg hk' hexp2 hx hb hk he hrest
      obtain ⟨t, rfl, -⟩ := hp1.read
      right
      refine ⟨?_, _, _, ⟨prev1, x1, m, List.suffix_append _ _, hm, rfl, rfl⟩, ?_⟩
      · rw [List.append_assoc, ← hexp2]
        exact (List.suffix_append _ _).trans (List.suffix_append _ _)
      · have hrest' : k ++ e :: v = rest := hrest
        rw [hrest']
        exact hp2

theorem quote_notMem_mark : ∀ r ∈ redactedRunes, isQuote r.char = false := by decide

/-- What follows a `key=` has an open quote or no value if what was read there has, the first rune being
the same and the others read too. -/
theorem answered_of_read (h : NoValue v' ∨ OpenQuote v') (hhead : v.head? = v'.head?)
    (hmem : ∀ r ∈ v.tail, r ∈ v'.tail ∨ r ∈ redactedRunes) : NoValue v ∨ OpenQuote v := by
  rcases h with hno | ⟨q, w, rfl, hq, hw⟩
  · left
    intro r hr
    exact hno r (hhead ▸ hr)
  · right
    obtain ⟨t, rfl⟩ := List.head?_eq_some_iff.mp hhead
    refine ⟨q, t, rfl, hq, fun r hr hrq => ?_⟩
    rcases hmem r hr with hr | hr
    · exact hw r hr hrq
    · have hnot := quote_notMem_mark r hr
      rw [hrq, hq] at hnot
      cases hnot

theorem scrubbed_credentialPair (x : List Rune) : Scrubbed (credentialPair.pass x) := by
  intro u k e v hout hu hk he
  obtain ⟨prev', hp⟩ := credentialPair.exists_pass x
  rw [hout] at hp
  rcases pair_in hp hu hk he with ⟨g, prev1, x1, hg, -, hp1⟩ | ⟨hsuffix, -⟩
  · rcases pair_at hp1 hg hk he with ⟨v', -, hno, hp2⟩ | ⟨m, out, -, rfl, -⟩
    · obtain ⟨hhead, htail⟩ := credentialPair_head hp2
      rcases answered_of_read (noValue_or_openQuote hno) hhead htail with h | h
      · exact Or.inr (Or.inl h)
      · exact Or.inr (Or.inr (Or.inl h))
    · exact Or.inl (List.prefix_append _ _)
  · exact Or.inr (Or.inr (Or.inr hsuffix))

/-! ## The last two passes -/

/-- What the last two passes have in common: a match is replaced as a whole, none starts at a rune of
"[redacted]" or at one outside `[a-z0-9_-]`, and none reaches over a bracket. -/
structure Redaction.Token (p : Redaction) : Prop where
  expand_eq : ∀ m, expand p.repl m = redactedRunes
  start : ∀ a, isKeyRune a.char = false ∨ a ∈ redactedRunes → ∀ prev text, p.re.first prev (a :: text) = none
  bracket : ∀ prev text m, p.re.first prev text = some m → Rune.ofAscii '[' ∉ m.word

namespace Redaction.Token

variable {p : Redaction} {prev prev' : Option Rune}

theorem marking (h : p.Token) : Marking p.re p.repl (Rune.ofAscii '[' :: redactedRunes.tail) :=
  fun _ _ m _ => ⟨[], m.word, rfl, h.expand_eq m⟩

/-- Runes at which no match starts are copied. -/
theorem copied (h : p.Token) (hw : ∀ a ∈ w, isKeyRune a.char = false ∨ a ∈ redactedRunes)
    (hp : Pass p.re p.repl prev (w ++ v') v prev' []) :
    ∃ out, v = w ++ out ∧ Pass p.re p.repl (lastOr prev w) v' out prev' [] := by
  rw [← List.append_nil v'] at hp ⊢
  exact Pass.keeps (fun a ha => h.start a (hw a ha)) hp

/-- A "[redacted]" that such a pass reads is copied. -/
theorem suffix_copied (h : p.Token) {t u text' : List Rune}
    (hp : Pass p.re p.repl prev (t ++ redactedRunes ++ text') u prev' text') : redactedRunes <:+ u := by
  rw [redactedRunes_cons, List.append_assoc, List.cons_append] at hp
  obtain ⟨out1, out2, rfl, -, hp2⟩ := hp.at_symbol h.bracket
  have hkeep : ∀ a ∈ redactedRunes.tail, ∀ prev text, p.re.first prev (a :: text) = none :=
    fun a ha => h.start a (Or.inr (List.mem_of_mem_tail ha))
  obtain ⟨out3, rfl, hp3⟩ := Pass.keeps (c := []) hkeep hp2
  rcases hp3.progress with ⟨rfl, -⟩ | hlt
  · rw [List.append_nil]
    exact List.suffix_append _ _
  · exact absurd hlt (lt_irrefl _)

/-- A word without a bracket that such a pass writes, and that does not start inside a "[redacted]", is copied,
with the rune before it unless it stands behind a match. -/
theorem transfer (h : p.Token) {x u w v : List Rune} (hp : Pass p.re p.repl none x (u ++ (w ++ v)) prev' [])
    (hw : Rune.ofAscii '[' ∉ w)
    (hmark : ∀ y rest, y <:+ redactedRunes → y ≠ [] → w ++ v ≠ y ++ rest) :
    ∃ u' v', x = u' ++ (w ++ v') ∧ Pass p.re p.repl none x u (lastOr none u') (w ++ v') ∧
      Pass p.re p.repl (lastOr none u') (w ++ v') (w ++ v) prev' [] ∧
      Pass p.re p.repl (lastOr (lastOr none u') w) v' v prev' [] ∧
      (lastOr none u' = lastOr none u ∨
        redactedRunes <:+ u ∧ Behind p.re x (lastOr none u') (w ++ v')) := by
  rcases hp.split with ⟨prev1, x1, hp1, hp2⟩ | ⟨u1, x', y, rest, m, prev1, text1, -, -, -, hexp, -, hy, rfl, hv⟩
  · have hcopy : ∃ v', x1 = w ++ v' ∧ Pass p.re p.repl (lastOr prev1 w) v' v prev' [] := by
      rcases hp2.split with ⟨prev2, x2, hp3, hp4⟩ | ⟨u1, x', y, rest, m, -, -, -, -, -, hexp, hx', -, hwu, -⟩
      · obtain ⟨rfl, rfl⟩ := hp3.verbatim h.marking hw
        exact ⟨x2, rfl, hp4⟩
      · exfalso
        obtain ⟨r, t, rfl⟩ := List.exists_cons_of_ne_nil hx'
        rw [h.expand_eq, redactedRunes_cons] at hexp
        obtain ⟨rfl, -⟩ := List.cons.inj hexp
        refine hw ?_
        rw [hwu]
        exact List.mem_append_right _ List.mem_cons_self
    obtain ⟨v', rfl, hp4⟩ := hcopy
    obtain ⟨u', rfl, rfl⟩ := hp1.read
    refine ⟨u', v', rfl, hp1, hp2, hp4, ?_⟩
    rcases hp1.last_written h.marking with ⟨rfl, -, hnone⟩ | ⟨out', a, rfl, hsome⟩ | ⟨hsuffix, hbehind⟩
    · exact Or.inl hnone
    · left
      rw [hsome]
      simp [lastOr]
    · exact Or.inr ⟨redactedRunes_cons ▸ hsuffix, hbehind⟩
  · rw [h.expand_eq] at hexp
    exact absurd hv (hmark y rest (hexp ▸ List.suffix_append _ _) hy)

/-- What such a pass writes behind the `=` of a key. -/
theorem answered (h : p.Token) (hp : Pass p.re p.repl prev v' v prev' [])
    (hv : redactedRunes <+: v' ∨ NoValue v' ∨ OpenQuote v') : redactedRunes <+: v ∨ NoValue v ∨ OpenQuote v := by
  rcases hv with ⟨t, rfl⟩ | hv
  · obtain ⟨out, rfl, -⟩ := h.copied (fun a ha => Or.inr ha) hp
    exact Or.inl (List.prefix_append _ _)
  · right
    cases v' with
    | nil =>
      rcases hp.progress with ⟨rfl, -⟩ | hlt
      · exact Or.inl nofun
      · exact absurd hlt (lt_irrefl _)
    | cons a t =>
      have ha : isKeyRune a.char = false := by
        rw [Bool.eq_false_iff]
        intro hkey
        rcases hv with hno | ⟨q, w, hqw, hq, -⟩
        · have hstop := hno a rfl
          rw [isStop_of_key hkey] at hstop
          cases hstop
        · obtain ⟨rfl, -⟩ := List.cons.inj hqw
          rw [isQuote_of_key hkey] at hq
          cases hq
      obtain ⟨out, rfl, hp'⟩ := h.copied (w := [a]) (fun b hb => Or.inl (List.mem_singleton.mp hb ▸ ha)) hp
      exact answered_of_read hv rfl fun r hr => hp'.mem_out h.marking hr

theorem scrubbed (h : p.Token) (hx : Scrubbed x) : Scrubbed (p.pass x) := by
  intro u k e v hout hu hk he
  obtain ⟨prev', hp⟩ := p.exists_pass x
  rw [hout, List.append_cons k e v] at hp
  have hbracket : Rune.ofAscii '[' ∉ k ++ [e] := by
    refine bracket_notMem (fun r hr => isKeyRune_of_mem hk hr) ?_
    rintro rfl
    cases he
  obtain ⟨u', v', rfl, hp1, -, hp2, hprev⟩ := h.transfer hp hbracket fun y rest hy hne => by
    rw [← List.append_cons]
    exact key_not_in_mark hk he hy hne
  rcases hprev with hprev | ⟨hsuffix, -⟩
  · have hstarts : Starts u' := by
      intro b hb
      refine hu b ?_
      rw [← hb]
      simpa [lastOr] using hprev.symm
    rcases hx u' k e v' (by rw [List.append_cons k e v']) hstarts hk he with hans | hans | hans | ⟨t, rfl⟩
    · exact (h.answered hp2 (Or.inl hans)).imp_right fun h' => h'.imp_right Or.inl
    · exact (h.answered hp2 (Or.inr (Or.inl hans))).imp_right fun h' => h'.imp_right Or.inl
    · exact (h.answered hp2 (Or.inr (Or.inr hans))).imp_right fun h' => h'.imp_right Or.inl
    · exact Or.inr (Or.inr (Or.inr (h.suffix_copied hp1)))
  · exact Or.inr (Or.inr (Or.inr hsuffix))

end Redaction.Token

/-- A word boundary, a spelled-out text and more: the first rune of a match is the first of the text. -/
theorem head_of_spelled {f : Rune → Char} {cs : List Char} {w : Rune → Bool} {rest : Pat Rune} {word : List Rune}
    (h : (Pat.seq (.boundary w) (.seq (.word ((c :: cs).map fun c r => f r == c)) rest)).Denotes word) :
    ∃ r t, word = r :: t ∧ f r = c := by
  obtain ⟨_, _, rfl, rfl, v, w', rfl, hv, -⟩ := h
  obtain ⟨r, t, rfl, hr, -⟩ := List.map_eq_cons_iff.mp (Pat.denotes_word_beq.mp hv)
  exact ⟨r, t ++ w', rfl, hr⟩

/-- A pattern that starts with the character `c`, up to `f`, finds nothing at other runes. -/
theorem first_eq_none_of_head {re : Pat Rune} {f : Rune → Char} (h : ∀ w, re.Denotes w → ∃ r t, w = r :: t ∧ f r = c)
    {a : Rune} (ha : f a ≠ c) (prev : Option Rune) (text : List Rune) : re.first prev (a :: text) = none := by
  cases hfirst : re.first prev (a :: text) with
  | none => rfl
  | some m =>
    have htext := Pat.text_of_first hfirst
    obtain ⟨r, t, hword, hr⟩ := h _ (Pat.denotes_of_mem (Pat.mem_of_first hfirst).1)
    rw [hword, List.cons_append] at htext
    obtain ⟨rfl, -⟩ := List.cons.inj htext
    exact absurd hr ha

/-- The runes other than the bracket. -/
def notBracket (r : Rune) : Bool := r.char != '['

theorem notMem_of_over {re : Pat Rune} (h : re.Over notBracket) (hm : re.first prev text = some m) :
    Rune.ofAscii '[' ∉ m.word := by
  intro hmem
  have hnot := Pat.all_of_denotes h (Pat.denotes_of_mem (Pat.mem_of_first hm).1) _ hmem
  cases hnot

theorem over_word {f : Rune → Char} (hf : ∀ r, f r ≠ '[' → r.char ≠ '[') {cs : List Char} (h : '[' ∉ cs) :
    (Pat.word (cs.map fun c r => f r == c)).Over notBracket := by
  induction cs with
  | nil => trivial
  | cons c cs ih =>
    rw [List.mem_cons, not_or] at h
    refine ⟨fun r hr => ?_, ih h.2⟩
    have hc : f r = c := eq_of_beq hr
    have hne := hf r (by rw [hc]; exact fun heq => h.1 heq.symm)
    simpa [notBracket] using hne

theorem over_atLeast {p q : Rune → Bool} (h : ∀ r, p r = true → q r = true) (n : Nat) :
    (Pat.atLeast p n).Over q := by
  induction n with
  | zero => exact h
  | succ n ih => exact ⟨h, ih⟩

/-- A class without the bracket. -/
theorem notBracket_of_class {p : Char → Bool} (hp : p '[' = false) (r : Rune) (h : p r.char = true) :
    notBracket r = true := by
  rw [notBracket, bne_iff_ne]
  intro hr
  rw [hr, hp] at h
  cases h

theorem bearerToken_token : bearerToken.Token where
  expand_eq m := by simp [bearerToken, expand, redactedRunes]
  start := by
    have hhead : ∀ w, bearerToken.re.Denotes w → ∃ r t, w = r :: t ∧ folded r.char = 'b' :=
      fun w hw => head_of_spelled hw
    have hnot : ∀ a ∈ redactedRunes, folded a.char ≠ 'b' := by decide
    intro a ha
    refine first_eq_none_of_head hhead ?_
    rcases ha with ha | ha
    · intro hb
      rw [isKeyRune, hb] at ha
      cases ha
    · exact hnot a ha
  bracket prev text m hm := by
    have hover : bearerToken.re.Over notBracket := by
      refine ⟨trivial, ?_, ⟨notBracket_of_class rfl, notBracket_of_class rfl⟩, ?_⟩
      · refine over_word (fun r hr hbracket => ?_) (by decide)
        rw [hbracket] at hr
        exact hr rfl
      · exact over_atLeast (fun r h => notBracket_of_class (p := fun c => isTokenRune (folded c)) rfl r h) 8
    exact notMem_of_over hover hm

theorem apiKey_token : apiKey.Token where
  expand_eq m := by simp [apiKey, expand, redactedRunes]
  start := by
    have hhead : ∀ w, apiKey.re.Denotes w → ∃ r t, w = r :: t ∧ r.char = 'v' := fun w hw => head_of_spelled hw
    have hnot : ∀ a ∈ redactedRunes, a.char ≠ 'v' := by decide
    intro a ha
    refine first_eq_none_of_head hhead ?_
    rcases ha with ha | ha
    · intro hv
      rw [hv] at ha
      cases ha
    · exact hnot a ha
  bracket prev text m hm := by
    have hover : apiKey.re.Over notBracket := by
      refine ⟨trivial, over_word (fun r hr => hr) (by decide), ?_⟩
      exact over_atLeast (fun r h => notBracket_of_class (p := isTokenRune) rfl r h) 8
    exact notMem_of_over hover hm

theorem redact_scrubbed (s : Bytes) : Scrubbed (decode (redact s)) := by
  rw [decode_redact]
  exact apiKey_token.scrubbed (bearerToken_token.scrubbed (scrubbed_credentialPair _))

end Vizra.Obs
