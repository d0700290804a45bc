import Vizra.Obs.Proofs.RedactProofs

/-!
# When a second `Redact` changes nothing

A slot is what the second and the third pattern look for: a name, a separator, and a value up to a stop. A text
is settled for a slot when each value that stands there is the "[redacted]" that the pass would write. The pass
of a slot settles it, the passes behind it keep it settled, and on a settled text the pass changes nothing. All
of this is over plain runes: a quote, an `@`, the long s and the Kelvin sign each break it.
-/

namespace Vizra.Obs

open Go Regex

variable {v x w k : List Rune} {c : Char} {p : Redaction} {prev prev' : Option Rune} {e : Rune}

/-! ## Plain runes -/

def isPlain (c : Char) : Bool :=
  !(isQuote c || c == '@' || c == Char.ofNat 0x17F || c == Char.ofNat 0x212A)

/-- A plain rune, which is its own byte if it is ASCII. -/
def plainRune (r : Rune) : Bool := isPlain r.char && (decide (0x80 ≤ r.char.toNat) || r == Rune.ofAscii r.char)

def Plain (text : List Rune) : Prop := ∀ r ∈ text, plainRune r = true

instance (text : List Rune) : Decidable (Plain text) := inferInstanceAs (Decidable (∀ r ∈ text, plainRune r = true))

theorem plain_append {u : List Rune} : Plain (u ++ v) ↔ Plain u ∧ Plain v := List.forall_mem_append

theorem Plain.of_suffix {u : List Rune} (h : Plain v) (hs : u <:+ v) : Plain u := fun r hr => h r (hs.subset hr)

theorem isPlain_of_plain {r : Rune} (h : plainRune r = true) : isPlain r.char = true := (Bool.and_eq_true_iff.mp h).1

theorem not_quote_of_plain {r : Rune} (h : plainRune r = true) : isQuote r.char = false := by
  have hp := isPlain_of_plain h
  rw [isPlain, Bool.not_eq_true', Bool.or_eq_false_iff, Bool.or_eq_false_iff, Bool.or_eq_false_iff] at hp
  exact hp.1.1.1

theorem eq_ofAscii_of_plain {r : Rune} (h : plainRune r = true) (hr : r.char = c) (hc : c.toNat < 0x80) :
    r = Rune.ofAscii c := by
  rw [plainRune, Bool.and_eq_true_iff, Bool.or_eq_true, decide_eq_true_iff, beq_iff_eq, hr] at h
  rcases h.2 with hle | heq
  · omega
  · exact heq

theorem plain_decode {s : Bytes} (h : ∀ r ∈ decode s, isPlain r.char = true) : Plain (decode s) := by
  intro r hr
  rw [plainRune, h r hr, Bool.true_and, Bool.or_eq_true, decide_eq_true_iff, beq_iff_eq]
  by_cases hlt : r.char.toNat < 0x80
  · exact Or.inr (eq_ofAscii_of_mem hr hlt)
  · exact Or.inl (by omega)

/-- A pass with a plain mark keeps a text plain. -/
theorem Redaction.Marks.plain {mark : String} (h : p.Marks mark) (hm : Plain (asciiRunes mark)) (hx : Plain x) :
    Plain (p.pass x) := by
  obtain ⟨prev', hp⟩ := p.exists_pass x
  intro r hr
  rcases hp.mem_out h.1 hr with hr | hr
  · exact hx r hr
  · exact hm r hr

/-- A plain rune that folds to a letter is one. -/
theorem isLetter_of_folded (hp : isPlain c = true) (h : isLower (folded c) = true) :
    isLower c = true ∨ isUpper c = true := by
  rw [isPlain, Bool.not_eq_true', Bool.or_eq_false_iff, Bool.or_eq_false_iff] at hp
  unfold folded at h
  split_ifs at h with hu hs hk
  · exact Or.inr hu
  · rw [hp.1.2] at hs
    cases hs
  · rw [hp.2] at hk
    cases hk
  · exact Or.inl h

theorem isTokenRune_of_key (hp : isPlain c = true) (h : isKeyRune c = true) : isTokenRune c = true := by
  simp only [isKeyRune, Bool.or_eq_true, beq_iff_eq] at h
  simp only [isTokenRune, Bool.or_eq_true]
  rcases h with ((h | h) | rfl) | rfl
  · exact Or.inl (Or.inl (isLetter_of_folded hp h))
  · exact Or.inl (Or.inr h)
  · exact Or.inr (by decide)
  · exact Or.inr (by decide)

theorem isTokenRune_folded (h : isTokenRune c = true) : isTokenRune (folded c) = true := by
  by_cases hu : isUpper c = true
  · have hlower : isLower (folded c) = true := by
      rw [folded, if_pos hu]
      obtain ⟨hlo, hhi⟩ := toNat_of_isUpper hu
      simp only [isLower, Bool.and_eq_true, decide_eq_true_iff, Char.le_def, UInt32.le_iff_toNat_le]
      have hval : (Char.ofNat (c.toNat + 32)).val.toNat = c.toNat + 32 := toNat_ofNat (by omega)
      rw [hval]
      constructor
      · have ha : 'a'.val.toNat = 97 := rfl
        omega
      · have hz : 'z'.val.toNat = 122 := rfl
        omega
    simp [isTokenRune, hlower]
  · unfold folded
    rw [if_neg hu]
    split_ifs
    · decide
    · decide
    · exact h

/-! ## Slots -/

/-- The text is at its end or at a stop. -/
def EndsAt (stop : Char → Bool) (v : List Rune) : Prop := ∀ r, v.head? = some r → stop r.char = true

theorem EndsAt.of_head? {stop : Char → Bool} (h : EndsAt stop v) (hw : w.head? = v.head?) : EndsAt stop w := by
  rw [EndsAt, hw]
  exact h

/-- A name that stands behind no `inner` rune, a separator, and a value up to a stop; the value that is written
there is "[redacted]" behind `pad`. -/
structure Slot where
  name : Pat Rune
  sep : Char
  inner : Char → Bool
  pad : List Rune
  stop : Char → Bool
  name_key : ∀ k, name.Denotes k → k ≠ [] ∧ ∀ r ∈ k, isKeyRune r.char = true
  sep_key : isKeyRune sep = false
  sep_mark : sep ≠ '[' ∧ sep ≠ ']'
  pad_key : ∀ r ∈ pad, isKeyRune r.char = false
  stop_key : ∀ c, stop c = true → isKeyRune c = false
  mark_stop : ∀ r ∈ pad ++ redactedRunes, stop r.char = false

def Slot.Settled (σ : Slot) (text : List Rune) : Prop :=
  ∀ u k e v, text = u ++ (k ++ e :: v) → (∀ b, lastOr none u = some b → σ.inner b.char = false) →
    σ.name.Denotes k → e.char = σ.sep →
    EndsAt σ.stop v ∨ ∃ w, v = σ.pad ++ redactedRunes ++ w ∧ EndsAt σ.stop w

/-- The pass replaces the values of the slot, each up to its stop. -/
def Redaction.Fills (p : Redaction) (σ : Slot) : Prop :=
  ∀ prev text m, Plain text → p.re.first prev text = some m →
    ∃ g k e value, m.word = g ++ (k ++ e :: value) ∧
      expand p.repl m = g ++ (k ++ e :: (σ.pad ++ redactedRunes)) ∧ σ.name.Denotes k ∧ e.char = σ.sep ∧
      (∀ b, lastOr prev g = some b → σ.inner b.char = false) ∧ value ≠ [] ∧
      (∀ r ∈ value, σ.stop r.char = false) ∧ EndsAt σ.stop (text.drop m.word.length)

/-- No match of the pass is followed by a key rune. -/
def Redaction.Closes (p : Redaction) : Prop :=
  ∀ prev text m a, Plain text → p.re.first prev text = some m → (text.drop m.word.length).head? = some a →
    isKeyRune a.char = false

theorem Redaction.Fills.ends {σ : Slot} (h : p.Fills σ) {text : List Rune} {m : Match Rune} (hx : Plain text)
    (hm : p.re.first prev text = some m) : EndsAt σ.stop (text.drop m.word.length) := by
  obtain ⟨-, -, -, -, -, -, -, -, -, -, -, hend⟩ := h prev text m hx hm
  exact hend

theorem Redaction.Fills.closes {σ : Slot} (h : p.Fills σ) : p.Closes :=
  fun _ _ _ a hx hm ha => σ.stop_key _ (h.ends hx hm a ha)

theorem Redaction.Closes.behind (h : p.Closes) {text : List Rune} (hx : Plain x) (hb : Behind p.re x prev text)
    {a : Rune} (ha : text.head? = some a) : ¬ isKeyRune a.char = true := by
  obtain ⟨prev0, text0, m, hsuffix, hm, -, rfl⟩ := hb
  rw [h prev0 text0 m a (hx.of_suffix hsuffix) hm ha]
  exact Bool.false_ne_true

/-- A value ends at the first stop. -/
theorem value_unique {stop : Char → Bool} {value value' rest rest' : List Rune}
    (h : value ++ rest = value' ++ rest') (hv : ∀ r ∈ value, stop r.char = false)
    (hv' : ∀ r ∈ value', stop r.char = false) (hr : EndsAt stop rest) (hr' : EndsAt stop rest') : value = value' := by
  have htake : ∀ {v w : List Rune}, (∀ r ∈ v, stop r.char = false) → EndsAt stop w →
      (v ++ w).takeWhile (fun r => !stop r.char) = v := by
    intro v w hv hw
    rw [List.takeWhile_append_of_pos (by simpa using hv)]
    cases w with
    | nil => exact List.append_nil v
    | cons a w => simp [hw a rfl]
  rw [← htake hv hr, h, htake hv' hr']

/-- The pass of a slot changes nothing in a text that is settled for it. -/
theorem Redaction.Fills.fixed {σ : Slot} (h : p.Fills σ) (hx : Plain x) (hs : σ.Settled x) : p.pass x = x := by
  have hpass : ∃ prev', Pass p.re p.repl (lastOr none []) x (p.pass x) prev' [] := p.exists_pass x
  obtain ⟨prev', hp⟩ := hpass
  refine hp.eq_of_fixed fun u v m huv hm => ?_
  rw [List.nil_append] at huv
  subst huv
  obtain ⟨g, k, e, value, hword, hexp, hk, he, hinner, hne, hvalue, hend⟩ := h _ v m (plain_append.mp hx).2 hm
  have hv := Pat.text_of_first hm
  generalize v.drop m.word.length = rest at hv hend
  rw [hword] at hv
  have hlast : lastOr none (u ++ g) = lastOr (lastOr none u) g := by
    simp only [lastOr, List.getLast?_append, Option.or_assoc]
  rcases hs (u ++ g) k e (value ++ rest) (by rw [hv]; simp only [List.append_assoc, List.cons_append])
      (by rwa [hlast]) hk he with hstop | ⟨w, hw, hwend⟩
  · -- the first rune of a value is no stop
    obtain ⟨a, t, rfl⟩ := List.exists_cons_of_ne_nil hne
    have ha := hstop a rfl
    rw [hvalue a List.mem_cons_self] at ha
    cases ha
  · rw [hexp, hword, value_unique hw hvalue σ.mark_stop hend hwend]

/-! ## The last two passes -/

namespace Redaction.Token

variable {p q : Redaction} {prev prev' : Option Rune}

theorem ends_kept (h : p.Token) (σ : Slot) {v' : List Rune} (hp : Pass p.re p.repl prev v' v prev' [])
    (hv : EndsAt σ.stop v') : EndsAt σ.stop v := by
  cases v' with
  | nil =>
    rcases hp.progress with ⟨rfl, -⟩ | hlt
    · exact nofun
    · exact absurd hlt (lt_irrefl _)
  | cons a t =>
    have ha := σ.stop_key _ (hv a rfl)
    obtain ⟨out, rfl, -⟩ := h.copied (w := [a]) (fun b hb => Or.inl (List.mem_singleton.mp hb ▸ ha)) hp
    exact hv.of_head? rfl

/-- Such a pass keeps a text settled. -/
theorem settled (h : p.Token) (hc : p.Closes) {σ : Slot} (hx : Plain x) (hs : σ.Settled x) : σ.Settled (p.pass x) := by
  intro u k e v hout hu hk he
  obtain ⟨prev', hp⟩ := p.exists_pass x
  obtain ⟨hne, hkeys⟩ := σ.name_key k hk
  have hsep : ¬ isKeyRune e.char = true := by
    rw [he, σ.sep_key]
    exact Bool.false_ne_true
  have hopen : e ≠ Rune.ofAscii '[' := by
    rintro rfl
    exact σ.sep_mark.1 he.symm
  have hclose : e ≠ Rune.ofAscii ']' := by
    rintro rfl
    exact σ.sep_mark.2 he.symm
  rw [hout, List.append_cons k e v] at hp
  obtain ⟨u', v', rfl, -, -, hp2, hprev⟩ := h.transfer hp (bracket_notMem hkeys hopen) fun y rest hy hy' => by
    rw [← List.append_cons]
    exact word_not_in_mark hne hkeys hsep hclose hy hy'
  obtain ⟨a, k', rfl⟩ := List.exists_cons_of_ne_nil hne
  rcases hprev with hprev | ⟨-, hbehind⟩
  · rw [← hprev] at hu
    rcases hs u' (a :: k') e v' (by rw [List.append_cons (a :: k') e v']) hu hk he with hend | ⟨w, rfl, hw⟩
    · exact Or.inl (h.ends_kept σ hp2 hend)
    · have hcopy : ∀ r ∈ σ.pad ++ redactedRunes, isKeyRune r.char = false ∨ r ∈ redactedRunes := by
        intro r hr
        rcases List.mem_append.mp hr with hr | hr
        · exact Or.inl (σ.pad_key r hr)
        · exact Or.inr hr
      obtain ⟨out, rfl, hp3⟩ := h.copied hcopy hp2
      exact Or.inr ⟨out, rfl, h.ends_kept σ hp3 hw⟩
  · -- the name cannot stand behind a match
    exact absurd (hkeys a List.mem_cons_self) (hc.behind hx hbehind rfl)

end Redaction.Token

/-- The pattern finds nothing in the text. -/
def Redaction.Clear (p : Redaction) (text : List Rune) : Prop :=
  ∀ u v, text = u ++ v → p.re.first (lastOr none u) v = none

theorem Redaction.Clear.fixed (h : p.Clear x) : p.pass x = x := by
  have hpass : ∃ prev', Pass p.re p.repl (lastOr none []) x (p.pass x) prev' [] := p.exists_pass x
  obtain ⟨prev', hp⟩ := hpass
  refine hp.eq_of_fixed fun u v m huv hm => ?_
  rw [h u v huv] at hm
  cases hm

/-- What a match has read is matched again when other runes follow it. -/
def Redaction.Again (p : Redaction) : Prop :=
  ∀ prev text m rest, p.re.first prev text = some m → p.re.first prev (m.word ++ rest) ≠ none

namespace Redaction.Token

variable {p q : Redaction}

/-- A match of `q` in what `p` writes is read there, too. -/
theorem match_read (hp : p.Token) (hc : p.Closes) (hq : q.Token) {u : List Rune} (hx : Plain x)
    (hout : p.pass x = u ++ v) {m : Match Rune} (hm : q.re.first (lastOr none u) v = some m) :
    ∃ u' v' rest prev', x = u' ++ (m.word ++ v') ∧ lastOr none u' = lastOr none u ∧
      Pass p.re p.repl (lastOr none u') (m.word ++ v') (m.word ++ rest) prev' [] := by
  obtain ⟨prev', hpx⟩ := p.exists_pass x
  have hv := Pat.text_of_first hm
  rw [hout, hv] at hpx
  obtain ⟨a, w, hw⟩ := List.exists_cons_of_ne_nil (Pat.mem_of_first hm).2
  rw [hw, List.cons_append] at hv
  have ha : isKeyRune a.char = true ∧ a ∉ redactedRunes := by
    by_contra hnot
    have hstart : isKeyRune a.char = false ∨ a ∈ redactedRunes := by
      by_cases hkey : isKeyRune a.char = true
      · right
        by_contra hmem
        exact hnot ⟨hkey, hmem⟩
      · exact Or.inl (by simpa using hkey)
    rw [hv, hq.start a hstart] at hm
    cases hm
  obtain ⟨u', v', rfl, -, hp1, -, hprev⟩ := hp.transfer hpx (hq.bracket _ _ _ hm) fun y rest hy hy' heq => by
    obtain ⟨b, y', rfl⟩ := List.exists_cons_of_ne_nil hy'
    rw [hw] at heq
    obtain ⟨rfl, -⟩ := List.cons.inj heq
    exact ha.2 (hy.subset List.mem_cons_self)
  rcases hprev with hprev | ⟨-, hbehind⟩
  · exact ⟨u', v', _, prev', rfl, hprev, hp1⟩
  · exact absurd ha.1 (hc.behind hx hbehind (by rw [hw]; rfl))

theorem clears (hp : p.Token) (hc : p.Closes) (hagain : p.Again) (hx : Plain x) : p.Clear (p.pass x) := by
  intro u v hout
  cases hm : p.re.first (lastOr none u) v with
  | none => rfl
  | some m =>
    exfalso
    obtain ⟨u', v', rest, prev', -, hprev, hp1⟩ := hp.match_read hc hp hx hout hm
    cases hm' : p.re.first (lastOr none u') (m.word ++ v') with
    | none =>
      rw [hprev] at hm'
      exact hagain _ _ _ v' hm hm'
    | some m' =>
      -- the pass would have written its mark there
      obtain ⟨out, heq, -⟩ := hp1.of_some hm'
      rw [hp.expand_eq, redactedRunes_cons] at heq
      obtain ⟨a, w, hw⟩ := List.exists_cons_of_ne_nil (Pat.mem_of_first hm).2
      rw [hw] at heq
      obtain ⟨rfl, -⟩ := List.cons.inj heq
      exact hp.bracket _ _ _ hm (hw ▸ List.mem_cons_self)

theorem clear_kept (hp : p.Token) (hc : p.Closes) (hq : q.Token) (hagain : q.Again) (hx : Plain x)
    (hclear : q.Clear x) : q.Clear (p.pass x) := by
  intro u v hout
  cases hm : q.re.first (lastOr none u) v with
  | none => rfl
  | some m =>
    exfalso
    obtain ⟨u', v', rest, prev', rfl, hprev, -⟩ := hp.match_read hc hq hx hout hm
    refine hagain _ _ _ v' hm ?_
    rw [← hprev]
    exact hclear u' _ rfl

end Redaction.Token

/-- A match that takes all token runes it can ends where no key rune follows. -/
theorem Redaction.closes_of_follows {inside : Rune → Bool} (hfollows : p.re.Follows (fun _ => true) inside)
    (hinside : ∀ r : Rune, isTokenRune r.char = true → inside r = true) : p.Closes := by
  intro prev text m a hx hm ha
  have hnot := hfollows.of_first (fun _ _ => rfl) hm ha
  rw [Bool.eq_false_iff]
  intro hkey
  have hplain := isPlain_of_plain (hx a (List.mem_of_mem_drop (List.mem_of_mem_head? ha)))
  rw [hinside a (isTokenRune_of_key hplain hkey)] at hnot
  cases hnot

theorem bearerToken_closes : bearerToken.Closes := by
  have hfollows : bearerToken.re.Follows (fun _ => true) fun r => isTokenRune (folded r.char) :=
    (((Pat.Follows.atLeast _ _ 8).seq _).seq _).seq _
  exact Redaction.closes_of_follows hfollows fun _ htoken => isTokenRune_folded htoken

theorem apiKey_closes : apiKey.Closes := by
  have hfollows : apiKey.re.Follows (fun _ => true) fun r => isTokenRune r.char :=
    ((Pat.Follows.atLeast _ _ 8).seq _).seq _
  exact Redaction.closes_of_follows hfollows fun _ htoken => htoken

theorem bearerToken_again : bearerToken.Again := by
  intro prev text m rest hm
  refine Pat.first_again ?_ (by decide) hm rest
  simp [anyCase, plus, Pat.plus, Pat.Free, Pat.word, Pat.atLeast]

theorem apiKey_again : apiKey.Again := by
  intro prev text m rest hm
  refine Pat.first_again ?_ (by decide) hm rest
  simp [exactly, Pat.Free, Pat.word, Pat.atLeast]

/-! ## Credential pairs -/

def credentialSlot : Slot where
  name := credentialKey
  sep := '='
  inner := isKeyRune
  pad := []
  stop := isStop
  name_key _ hk := ⟨key_ne_nil hk, fun _ hr => isKeyRune_of_mem hk hr⟩
  sep_key := by decide
  sep_mark := by decide
  pad_key := nofun
  stop_key c hc := by
    rw [Bool.eq_false_iff]
    intro hkey
    rw [isStop_of_key hkey] at hc
    cases hc
  mark_stop := by decide

/-- A plain text does not start with a quote. -/
theorem not_quoted_of_plain (hc : isQuote c = true) {s : Pat Rune} (hw : Plain w) :
    ¬ (Pat.seq (exactly (String.ofList [c])) s).Denotes w := by
  rintro ⟨w1, w2, rfl, h1, -⟩
  have hchars := denotes_exactly.mp h1
  rw [String.toList_ofList] at hchars
  obtain ⟨r, rfl, hr⟩ := List.map_eq_singleton_iff.mp hchars
  have hplain := not_quote_of_plain (hw r List.mem_cons_self)
  rw [hr, hc] at hplain
  cases hplain

/-- A value without quotes runs over its class. -/
theorem value_of_plain {value : List Rune} (hv : credentialValue.Denotes value) (hx : Plain value) :
    value ≠ [] ∧ ∀ r ∈ value, isStop r.char = false := by
  refine ⟨Pat.ne_nil_of_denotes (by decide) hv, ?_⟩
  rcases hv with hv | hv | hv
  · exact absurd hv (not_quoted_of_plain (c := '\'') rfl hx)
  · exact absurd hv (not_quoted_of_plain (c := '"') rfl hx)
  · have hover : (plus fun c => !(c == '&' || isSpace c || c == '"' || c == '\'' || c == '<' || c == '>')).Over
        fun r => !isStop r.char := by
      have hclass : ∀ r : Rune, (!(r.char == '&' || isSpace r.char || r.char == '"' || r.char == '\'' ||
          r.char == '<' || r.char == '>')) = true → (!isStop r.char) = true := by
        intro r hr
        simp only [Bool.not_eq_true', Bool.or_eq_false_iff] at hr
        simp only [isStop, Bool.not_eq_true', Bool.or_eq_false_iff]
        exact ⟨⟨hr.1.1.1.1, hr.1.2⟩, hr.2⟩
      exact ⟨hclass, hclass⟩
    intro r hr
    simpa using Pat.all_of_denotes hover hv r hr

theorem credentialValue_follows :
    credentialValue.Follows plainRune
      fun r => !(r.char == '&' || isSpace r.char || r.char == '"' || r.char == '\'' || r.char == '<' || r.char == '>') := by
  have hquote : ∀ c, isQuote c = true → ∀ (s : Pat Rune) (q : Rune → Bool),
      (Pat.seq (exactly (String.ofList [c])) s).Follows plainRune q :=
    fun c hc s q => Pat.Follows.of_not_denotes fun w hw => not_quoted_of_plain hc hw
  refine .alt (hquote '\'' rfl _ _) (.alt (hquote '"' rfl _ _) ?_)
  exact (Pat.Follows.many _ _).seq _

theorem credentialPair_fills : credentialPair.Fills credentialSlot := by
  intro prev text m hx hm
  obtain ⟨g, k, e, value, hword, hexp, hg, hk, he, hvalue⟩ := credentialPair_match hm
  have hword' : m.word = g ++ (k ++ e :: value) := by
    rw [hword]
    simp only [List.append_assoc, List.singleton_append]
  have hplain : Plain value := by
    intro r hr
    refine hx r ?_
    rw [Pat.text_of_first hm, hword]
    exact List.mem_append_left _ (List.mem_append_right _ hr)
  obtain ⟨hne, hstop⟩ := value_of_plain hvalue hplain
  refine ⟨g, k, e, value, hword', ?_, hk, he, ?_, hne, hstop, ?_⟩
  · rw [hexp]
    simp only [List.append_assoc, List.singleton_append]
    rfl
  · intro b hb
    rcases hg with ⟨rfl, rfl⟩ | ⟨b', rfl, hb'⟩
    · cases hb
    · rw [← Option.some.inj hb]
      exact hb'
  · intro a ha
    have hfollows := ((credentialValue_follows.group 3).seq (.group 2 (.seq credentialKey (exactly "=")))).seq
      (.group 1 (.alt .start (cls fun c => !isKeyRune c)))
    have hclass := hfollows.of_first hx hm ha
    have hquote := not_quote_of_plain (hx a (List.mem_of_mem_drop (List.mem_of_mem_head? ha)))
    simp only [isQuote, Bool.or_eq_false_iff] at hquote
    simp only [Bool.not_eq_false', hquote.1, hquote.2, Bool.or_false] at hclass
    exact hclass

theorem credentialPair_settled (hx : Plain x) : credentialSlot.Settled (credentialPair.pass x) := by
  intro u k e v hout hu hk he
  obtain ⟨prev', hp⟩ := credentialPair.exists_pass x
  rw [hout] at hp
  have hstarts : Starts u := by
    intro b hb
    exact hu b (by simpa [lastOr] using hb)
  rcases pair_in hp hstarts hk he with ⟨g, prev1, x1, hg, hsuffix, hp1⟩ | ⟨-, prev1, x1, hbehind, hp1⟩
  · have hx1 := hx.of_suffix hsuffix
    rcases pair_at hp1 hg hk he with ⟨v', rfl, hno, hp2⟩ | ⟨m, out, hm, rfl, hp2⟩
    · left
      rcases noValue_or_openQuote hno with hno | ⟨q, w, rfl, hq, -⟩
      · exact EndsAt.of_head? hno (credentialPair_head hp2).1
      · -- a plain text has no quote
        have hplain := not_quote_of_plain (hx1 q (by simp))
        rw [hq] at hplain
        cases hplain
    · exact Or.inr ⟨out, rfl, (credentialPair_fills.ends hx1 hm).of_head? (credentialPair_head hp2).1⟩
  · obtain ⟨a, k', rfl⟩ := List.exists_cons_of_ne_nil (key_ne_nil hk)
    exact absurd (isKeyRune_of_mem hk List.mem_cons_self)
      (credentialPair_fills.closes.behind hx hbehind (credentialPair_head hp1).1.symm)

/-! ## Cookie headers -/

def cookieSlot : Slot where
  name := cookieName
  sep := ':'
  inner := isWord
  pad := [Rune.ofAscii ' ']
  stop c := c == '\r' || c == '\n'
  name_key k hk := ⟨Pat.ne_nil_of_denotes (by decide) hk, Pat.all_of_denotes over_cookieName hk⟩
  sep_key := by decide
  sep_mark := by decide
  pad_key := by decide
  stop_key c hc := by
    simp only [Bool.or_eq_true, beq_iff_eq] at hc
    rcases hc with rfl | rfl
    · decide
    · decide
  mark_stop := by decide

/-- A plain header name starts with a word rune. -/
theorem isWord_of_cookieName (hk : cookieName.Denotes k) (hx : Plain k) : ∃ a t, k = a :: t ∧ isWord a.char = true := by
  have hhead : ∃ a t, k = a :: t ∧ isLower (folded a.char) = true := by
    obtain ⟨w, w', rfl, hw, hw'⟩ := hk
    rcases hw with hw | rfl
    · obtain ⟨a, t, rfl, ha, -⟩ := List.map_eq_cons_iff.mp (denotes_anyCase.mp hw)
      exact ⟨a, t ++ w', rfl, by rw [ha]; rfl⟩
    · obtain ⟨a, t, rfl, ha, -⟩ := List.map_eq_cons_iff.mp (denotes_anyCase.mp hw')
      exact ⟨a, t, rfl, by rw [ha]; rfl⟩
  obtain ⟨a, t, rfl, ha⟩ := hhead
  refine ⟨a, t, rfl, ?_⟩
  simp only [isWord, Bool.or_eq_true]
  exact Or.inl (Or.inl (isLetter_of_folded (isPlain_of_plain (hx a List.mem_cons_self)) ha))

theorem cookieHeader_fills : cookieHeader.Fills cookieSlot := by
  intro prev text m hx hm
  obtain ⟨k, e, value, hword, hexp, hk, he, hne, hvalue, hboundary⟩ := cookieHeader_match hm
  have htext := Pat.text_of_first hm
  have hxword : Plain (k ++ e :: value) := by
    rw [htext, hword] at hx
    exact (plain_append.mp hx).1
  have hcolon : e = Rune.ofAscii ':' := eq_ofAscii_of_plain (hxword e (by simp)) he (by decide)
  refine ⟨[], k, e, value, hword, ?_, hk, he, ?_, hne, hvalue, ?_⟩
  · rw [hexp, hcolon]
    rfl
  · intro b hb
    obtain ⟨a, t, rfl, ha⟩ := isWord_of_cookieName hk (plain_append.mp hxword).1
    have hprev : prev = some b := hb
    have hhead : text.head? = some a := by
      rw [htext, hword]
      rfl
    rw [hprev, hhead, Option.any_some, Option.any_some, ha] at hboundary
    have hword : isWord b.char = false := by simpa using hboundary
    exact hword
  · intro a ha
    have hfollows : cookieHeader.re.Follows plainRune fun r => !(r.char == '\r' || r.char == '\n' || r.char == '"') :=
      (((((Pat.Follows.many _ _).seq _).seq _).seq _).seq _).seq _
    have hclass := hfollows.of_first hx hm ha
    have hquote := not_quote_of_plain (hx a (List.mem_of_mem_drop (List.mem_of_mem_head? ha)))
    simp only [isQuote, Bool.or_eq_false_iff] at hquote
    simp only [Bool.not_eq_false', hquote.1, Bool.or_false] at hclass
    exact hclass

/-- Where a header name starts and a value follows, the second pass finds a match. -/
theorem cookieHeader_first_ne_none (hprev : ∀ b, prev = some b → isWord b.char = false) (hk : cookieName.Denotes k)
    (he : e.char = ':') (hx : Plain (k ++ e :: v)) (hv : ¬ EndsAt cookieSlot.stop v) :
    cookieHeader.re.first prev (k ++ e :: v) ≠ none := by
  have hvalue : ∃ a t, v = a :: t ∧ cookieSlot.stop a.char = false := by
    cases v with
    | nil => exact absurd nofun hv
    | cons a t =>
      refine ⟨a, t, rfl, ?_⟩
      rw [Bool.eq_false_iff]
      intro hstop
      refine hv fun r hr => ?_
      rw [← Option.some.inj hr]
      exact hstop
  obtain ⟨a, t, rfl, ha⟩ := hvalue
  have hquote := not_quote_of_plain (hx a (by simp))
  obtain ⟨a0, t0, rfl, ha0⟩ := isWord_of_cookieName hk (plain_append.mp hx).1
  have hboundary : (prev.any (fun r => isWord r.char) !=
      (a0 :: t0 ++ e :: a :: t).head?.any fun r => isWord r.char) = true := by
    rw [List.cons_append, List.head?_cons, Option.any_some, ha0]
    cases prev with
    | none => rfl
    | some b => simp [hprev b rfl]
  refine cookieHeader_found ?_ hk he ?_
  · exact hboundary
  · simp only [isQuote, Bool.or_eq_false_iff] at hquote
    simp only [Bool.not_eq_true', Bool.or_eq_false_iff]
    simp only [cookieSlot, Bool.or_eq_false_iff] at ha
    exact ⟨ha, hquote.1⟩

theorem cookieHeader_head {text out : List Rune} (hp : Pass cookieHeader.re cookieHeader.repl prev text out prev' []) :
    out.head? = text.head? := by
  refine hp.head?_eq fun prev text m hm => ?_
  obtain ⟨k, e, value, hword, hexp, hk, -⟩ := cookieHeader_match hm
  obtain ⟨a, t, rfl⟩ := List.exists_cons_of_ne_nil (cookieSlot.name_key k hk).1
  rw [hword, hexp]
  rfl

theorem not_isKeyRune_colon (he : e.char = ':') : ¬ isKeyRune e.char = true := by
  rw [he]
  decide

/-- A header name that the second pass writes from a place where it finds nothing is copied with its colon. -/
theorem header_copied (hp : Pass cookieHeader.re cookieHeader.repl prev x (k ++ e :: v) prev' [])
    (hfirst : cookieHeader.re.first prev x = none) (hprev : ∀ b, prev = some b → isWord b.char = false)
    (hk : cookieName.Denotes k) (he : e.char = ':') (hx : Plain x) :
    ∃ v', x = k ++ e :: v' ∧ Pass cookieHeader.re cookieHeader.repl (some e) v' v prev' [] := by
  have hkeys := (cookieSlot.name_key k hk).2
  have hmarking : Marking cookieHeader.re cookieHeader.repl (Rune.ofAscii ':' :: (asciiRunes ": [redacted]").tail) :=
    cookieHeader_marks.1
  have hcolon : Rune.ofAscii ':' ∉ k := by
    intro hmem
    have hkey := hkeys _ hmem
    cases hkey
  rcases hp.split with ⟨prev2, x2, hp3, hp4⟩ | ⟨u1, x', y, rest, m, prev2, x2, hp3, hm, -, hexp, -, hy, hku, hev⟩
  · obtain ⟨rfl, rfl⟩ := hp3.verbatim hmarking hcolon
    have hnone : cookieHeader.re.first (lastOr prev k) x2 = none := by
      cases hm : cookieHeader.re.first (lastOr prev k) x2 with
      | none => rfl
      | some m =>
        -- a match starts with the rune of a name
        obtain ⟨k', e', value, -, hexp, hk', -⟩ := cookieHeader_match hm
        obtain ⟨out, hout, -⟩ := hp4.of_some hm
        obtain ⟨hne, hkeys'⟩ := cookieSlot.name_key k' hk'
        obtain ⟨a, t, rfl⟩ := List.exists_cons_of_ne_nil hne
        rw [hexp] at hout
        obtain ⟨rfl, -⟩ := List.cons.inj hout
        exact absurd (hkeys' e List.mem_cons_self) (not_isKeyRune_colon he)
    obtain ⟨v', rfl, hp5⟩ := hp4.of_none hnone
    exact ⟨v', rfl, hp5⟩
  · -- a match inside the name would have its colon for its own
    exfalso
    subst hku
    obtain ⟨rfl, -⟩ := hp3.verbatim hmarking fun hmem => hcolon (List.mem_append_left _ hmem)
    obtain ⟨k', e', value, hword, hexp', hk', he', hne, hvalue, -⟩ := cookieHeader_match hm
    obtain ⟨a, y', rfl⟩ := List.exists_cons_of_ne_nil hy
    obtain ⟨rfl, -⟩ := List.cons.inj hev
    have hcut : x' ++ e :: y' = k' ++ Rune.ofAscii ':' :: (asciiRunes ": [redacted]").tail := hexp.symm.trans hexp'
    obtain ⟨rfl, -, -⟩ := key_unique (p := fun r => isKeyRune r.char) hcut
      (fun r hr => hkeys r (List.mem_append_right _ hr)) (cookieSlot.name_key k' hk').2 (not_isKeyRune_colon he)
      (by decide)
    have htext : u1 ++ x2 = u1 ++ x' ++ e' :: (value ++ x2.drop m.word.length) := by
      nth_rewrite 1 [Pat.text_of_first hm]
      rw [hword]
      simp only [List.append_assoc, List.cons_append]
    rw [htext] at hfirst hx
    refine cookieHeader_first_ne_none hprev hk he' hx ?_ hfirst
    intro hend
    obtain ⟨a, t, rfl⟩ := List.exists_cons_of_ne_nil hne
    have hstop := hend a rfl
    have hnot : cookieSlot.stop a.char = false := hvalue a List.mem_cons_self
    rw [hnot] at hstop
    cases hstop

theorem cookieHeader_settled (hx : Plain x) : cookieSlot.Settled (cookieHeader.pass x) := by
  intro u k e v hout hu hk he
  obtain ⟨prev', hp⟩ := cookieHeader.exists_pass x
  rw [hout] at hp
  obtain ⟨hne, hkeys⟩ := cookieSlot.name_key k hk
  -- what follows a replaced value
  have hends : ∀ {prev1 x1 m out}, Plain x1 → cookieHeader.re.first prev1 x1 = some m →
      Pass cookieHeader.re cookieHeader.repl (lastOr prev1 m.word) (x1.drop m.word.length) out prev' [] →
      EndsAt cookieSlot.stop out :=
    fun hx1 hm hp1 => (cookieHeader_fills.ends hx1 hm).of_head? (cookieHeader_head hp1)
  rcases hp.split with ⟨prev1, x1, hp1, hp2⟩ | ⟨u1, x', y, rest, m, prev1, x1, hp1, hm, hp2, hexp, hx', hy, rfl, hv⟩
  · obtain ⟨t, rfl, -⟩ := hp1.read
    have hx1 := (plain_append.mp hx).2
    cases hfirst : cookieHeader.re.first prev1 x1 with
    | some m =>
      obtain ⟨k', e', value, -, hexp, hk', -⟩ := cookieHeader_match hfirst
      obtain ⟨out, heq, hp3⟩ := hp2.of_some hfirst
      rw [hexp, List.append_assoc] at heq
      obtain ⟨-, -, rfl⟩ := key_unique (p := fun r => isKeyRune r.char) heq hkeys (cookieSlot.name_key k' hk').2
        (not_isKeyRune_colon he) (by decide)
      exact Or.inr ⟨out, rfl, hends hx1 hfirst hp3⟩
    | none =>
      have hprev : ∀ b, prev1 = some b → isWord b.char = false := by
        rcases hp1.last_written cookieHeader_marks.1 with ⟨-, -, rfl⟩ | ⟨out', a, rfl, hsome⟩ | ⟨-, hbehind⟩
        · exact nofun
        · intro b hb
          rw [hsome] at hb
          refine hu b ?_
          simpa [lastOr] using hb
        · obtain ⟨a, k', rfl⟩ := List.exists_cons_of_ne_nil hne
          exact absurd (hkeys a List.mem_cons_self)
            (cookieHeader_fills.closes.behind hx hbehind (cookieHeader_head hp2).symm)
      obtain ⟨v', rfl, hp3⟩ := header_copied hp2 hfirst hprev hk he hx1
      left
      have hend : EndsAt cookieSlot.stop v' := by
        by_contra hnot
        exact cookieHeader_first_ne_none hprev hk he hx1 hnot hfirst
      exact hend.of_head? (cookieHeader_head hp3)
  · -- the name stands inside a replaced match: the "cookie" of a "set-cookie"
    obtain ⟨t, rfl, -⟩ := hp1.read
    obtain ⟨k', e', value, -, hexp', hk', -⟩ := cookieHeader_match hm
    have hclose : e ≠ Rune.ofAscii ']' := by
      rintro rfl
      cases he
    obtain ⟨a, k0, rfl⟩ := List.exists_cons_of_ne_nil hne
    have hcolon : ∀ z, y ≠ Rune.ofAscii ':' :: z := by
      rintro z rfl
      obtain ⟨rfl, -⟩ := List.cons.inj hv
      have hkey := hkeys _ List.mem_cons_self
      cases hkey
    rcases List.append_eq_append_iff.mp (hexp'.symm.trans hexp) with ⟨z, rfl, hmark⟩ | ⟨z, rfl, hmark⟩
    · exfalso
      have hsuffix : y <:+ Rune.ofAscii ':' :: Rune.ofAscii ' ' :: redactedRunes := ⟨z, hmark.symm⟩
      rcases List.suffix_cons_iff.mp hsuffix with rfl | hsuffix
      · exact hcolon _ rfl
      · rcases List.suffix_cons_iff.mp hsuffix with rfl | hsuffix
        · obtain ⟨rfl, -⟩ := List.cons.inj hv
          have hkey := hkeys _ List.mem_cons_self
          cases hkey
        · exact word_not_in_mark hne hkeys (not_isKeyRune_colon he) hclose hsuffix hy hv
    · have hcut : a :: k0 ++ e :: v = z ++ Rune.ofAscii ':' :: ((asciiRunes ": [redacted]").tail ++ rest) := by
        rw [hv, hmark, List.append_assoc]
        rfl
      obtain ⟨-, -, rfl⟩ := key_unique (p := fun r => isKeyRune r.char) hcut hkeys
        (fun r hr => (cookieSlot.name_key _ hk').2 r (List.mem_append_right _ hr)) (not_isKeyRune_colon he) (by decide)
      exact Or.inr ⟨rest, rfl, hends (plain_append.mp hx).2 hm hp2⟩

/-! ## The third pass on cookie headers -/

/-- No match of the third pass starts inside the padded mark of a header. -/
theorem credentialPair_first_mark {b a : Rune} {y : List Rune} (hy : y <:+ redactedRunes)
    (hw : ∀ r, w.head? = some r → isKeyRune r.char = false) :
    credentialPair.re.first (some b) (a :: (y ++ w)) = none := by
  cases hm : credentialPair.re.first (some b) (a :: (y ++ w)) with
  | none => rfl
  | some m =>
    exfalso
    obtain ⟨g, k, e, value, hword, -, hg, hk, he, -⟩ := credentialPair_match hm
    rcases hg with ⟨-, hnone⟩ | ⟨b', rfl, -⟩
    · cases hnone
    · have htext := Pat.text_of_first hm
      rw [hword] at htext
      generalize List.drop _ _ = rest at htext
      have htail : y ++ w = k ++ e :: (value ++ rest) := by
        rw [List.append_assoc, List.append_assoc, List.append_assoc] at htext
        exact (List.cons.inj htext).2
      by_cases hnil : y = []
      · subst hnil
        obtain ⟨r, t, rfl⟩ := List.exists_cons_of_ne_nil (key_ne_nil hk)
        have hkey := hw r (by rw [List.nil_append] at htail; rw [htail]; rfl)
        rw [isKeyRune_of_mem hk List.mem_cons_self] at hkey
        cases hkey
      · exact key_not_in_mark hk he hy hnil htail.symm

theorem mark_copied {b : Rune} {y : List Rune} (hy : y <:+ Rune.ofAscii ' ' :: redactedRunes)
    (hw : ∀ r, w.head? = some r → isKeyRune r.char = false)
    (hp : Pass credentialPair.re credentialPair.repl (some b) (y ++ w) v prev' []) :
    ∃ b' out, v = y ++ out ∧ Pass credentialPair.re credentialPair.repl (some b') w out prev' [] := by
  induction y generalizing b v with
  | nil => exact ⟨b, v, rfl, hp⟩
  | cons a y ih =>
    have hsuffix : y <:+ redactedRunes := by
      rcases List.suffix_cons_iff.mp hy with heq | hsuffix
      · rw [(List.cons.inj heq).2]
      · exact (List.suffix_cons a y).trans hsuffix
    obtain ⟨out', rfl, hp'⟩ := Pass.of_cons_none hp (credentialPair_first_mark hsuffix hw)
    obtain ⟨b', out, rfl, hp''⟩ := ih (hsuffix.trans (List.suffix_cons _ _)) hp'
    exact ⟨b', out, rfl, hp''⟩

/-- No header name starts inside what replaces a credential pair. -/
theorem header_not_inside {g k' x' y rest : List Rune} {e' : Rune} (hg : Opens prev g)
    (hk' : credentialKey.Denotes k') (he' : e'.char = '=') (hexp : g ++ (k' ++ [e']) ++ redactedRunes = x' ++ y)
    (hx' : x' ≠ []) (hy : y ≠ []) (hk : cookieName.Denotes k) (he : e.char = ':') : k ++ e :: v ≠ y ++ rest := by
  obtain ⟨hne, hkeys⟩ := cookieSlot.name_key k hk
  have hclose : e ≠ Rune.ofAscii ']' := by
    rintro rfl
    cases he
  intro hv
  rcases List.append_eq_append_iff.mp hexp with ⟨z, rfl, hmark⟩ | ⟨z, hz, hmark⟩
  · exact word_not_in_mark hne hkeys (not_isKeyRune_colon he) hclose ⟨z, hmark.symm⟩ hy hv
  · rcases List.eq_nil_or_concat z with rfl | ⟨z', r, rfl⟩
    · have hyred : y <:+ redactedRunes := ⟨[], hmark⟩
      exact word_not_in_mark hne hkeys (not_isKeyRune_colon he) hclose hyred hy hv
    · -- it would end at the `=`
      rw [List.concat_eq_append] at hz hmark
      have hfront : g ++ k' = x' ++ z' ∧ e' = r := by
        rw [← List.append_assoc, ← List.append_assoc] at hz
        obtain ⟨hleft, hright⟩ := List.append_inj' hz rfl
        exact ⟨hleft, List.singleton_injective hright⟩
      obtain ⟨hfront, rfl⟩ := hfront
      have hz' : ∀ r ∈ z', isKeyRune r.char = true := by
        intro r hr
        rcases hg with ⟨rfl, -⟩ | ⟨b, rfl, -⟩
        · refine isKeyRune_of_mem hk' ?_
          rw [List.nil_append] at hfront
          rw [hfront]
          exact List.mem_append_right _ hr
        · obtain ⟨b', x'', rfl⟩ := List.exists_cons_of_ne_nil hx'
          have htail : k' = x'' ++ z' := (List.cons.inj hfront).2
          refine isKeyRune_of_mem hk' ?_
          rw [htail]
          exact List.mem_append_right _ hr
      have hcut : k ++ e :: v = z' ++ e' :: (redactedRunes ++ rest) := by
        rw [hv, hmark]
        simp only [List.append_assoc, List.cons_append, List.nil_append]
      obtain ⟨-, rfl, -⟩ := key_unique (p := fun r => isKeyRune r.char) hcut hkeys hz' (not_isKeyRune_colon he)
        (not_isKeyRune_eq he')
      rw [he] at he'
      cases he'

/-- A header name that the third pass writes is copied with its colon. -/
theorem header_kept (hp : Pass credentialPair.re credentialPair.repl prev x (k ++ e :: v) prev' [])
    (hk : cookieName.Denotes k) (he : e.char = ':') :
    ∃ v', x = k ++ e :: v' ∧
      (Pass credentialPair.re credentialPair.repl (some e) v' v prev' [] ∨
        ∃ r, v'.head? = some r ∧ isKeyRune r.char = true) := by
  obtain ⟨hne, hkeys⟩ := cookieSlot.name_key k hk
  have hfirst : credentialPair.re.first prev x = none := by
    cases hm : credentialPair.re.first prev x with
    | none => rfl
    | some m =>
      exfalso
      obtain ⟨g, k', e', value, -, hexp, hg, hk', he', -⟩ := credentialPair_match hm
      obtain ⟨out, hout, -⟩ := hp.of_some hm
      rw [hexp] at hout
      rcases hg with ⟨rfl, -⟩ | ⟨b, rfl, hb⟩
      · simp only [List.nil_append, List.append_assoc, List.singleton_append] at hout
        obtain ⟨-, rfl, -⟩ := key_unique (p := fun r => isKeyRune r.char) hout hkeys
          (fun r hr => isKeyRune_of_mem hk' hr) (not_isKeyRune_colon he) (not_isKeyRune_eq he')
        rw [he] at he'
        cases he'
      · obtain ⟨a, t, rfl⟩ := List.exists_cons_of_ne_nil hne
        obtain ⟨rfl, -⟩ := List.cons.inj hout
        rw [hkeys a List.mem_cons_self] at hb
        cases hb
  obtain ⟨x', rfl, hp'⟩ := key_copied hkeys hp fun _ => hfirst
  cases hm : credentialPair.re.first (lastOr prev k) x' with
  | none =>
    obtain ⟨v', rfl, hp''⟩ := hp'.of_none hm
    exact ⟨v', rfl, Or.inl hp''⟩
  | some m =>
    -- a pair whose boundary is the colon: its key follows
    obtain ⟨g, k', e', value, hword, hexp, hg, hk', -⟩ := credentialPair_match hm
    obtain ⟨out, hout, -⟩ := hp'.of_some hm
    have htext := Pat.text_of_first hm
    rw [hexp] at hout
    rw [hword] at htext
    obtain ⟨r, t, rfl⟩ := List.exists_cons_of_ne_nil (key_ne_nil hk')
    have hr := isKeyRune_of_mem hk' (List.mem_cons_self (a := r))
    rcases hg with ⟨rfl, -⟩ | ⟨b, rfl, -⟩
    · obtain ⟨rfl, -⟩ := List.cons.inj hout
      exact absurd hr (not_isKeyRune_colon he)
    · obtain ⟨rfl, -⟩ := List.cons.inj hout
      exact ⟨_, by rw [htext]; rfl, Or.inr ⟨r, rfl, hr⟩⟩

theorem credentialPair_keeps_headers (hx : Plain x) (hs : cookieSlot.Settled x) :
    cookieSlot.Settled (credentialPair.pass x) := by
  intro u k e v hout hu hk he
  obtain ⟨prev', hp⟩ := credentialPair.exists_pass x
  rw [hout] at hp
  rcases hp.split with ⟨prev1, x1, hp1, hp2⟩ | ⟨u1, x', y, rest, m, prev1, x1, -, hm, -, hexp, hx', hy, rfl, hv⟩
  · obtain ⟨v', rfl, hkept⟩ := header_kept hp2 hk he
    obtain ⟨t, rfl, rfl⟩ := hp1.read
    have hlast : lastOr none t = lastOr none u := by
      rcases hp1.last_written credentialPair_marks.1 with ⟨rfl, -, hnone⟩ | ⟨out', a, rfl, hsome⟩ | ⟨-, hbehind⟩
      · exact hnone
      · rw [hsome]
        simp [lastOr]
      · obtain ⟨hne, hkeys⟩ := cookieSlot.name_key k hk
        obtain ⟨a, k', rfl⟩ := List.exists_cons_of_ne_nil hne
        exact absurd (hkeys a List.mem_cons_self) (credentialPair_fills.closes.behind hx hbehind rfl)
    rw [← hlast] at hu
    rcases hs t k e v' rfl hu hk he with hend | ⟨w, rfl, hend⟩
    · rcases hkept with hp3 | ⟨r, hr, hkey⟩
      · exact Or.inl (hend.of_head? (credentialPair_head hp3).1)
      · rw [cookieSlot.stop_key _ (hend r hr)] at hkey
        cases hkey
    · rcases hkept with hp3 | ⟨r, hr, hkey⟩
      · obtain ⟨b', out, rfl, hp4⟩ := mark_copied (List.suffix_refl _)
          (fun r hr => cookieSlot.stop_key _ (hend r hr)) hp3
        exact Or.inr ⟨out, rfl, hend.of_head? (credentialPair_head hp4).1⟩
      · rw [← Option.some.inj hr] at hkey
        cases hkey
  · obtain ⟨g, k', e', value, -, hexp', hg, hk', he', -⟩ := credentialPair_match hm
    exact absurd hv (header_not_inside hg hk' he' (hexp'.symm.trans hexp) hx' hy hk he)

/-! ## All five passes -/

theorem userinfo_clear (hx : Plain x) : userinfo.Clear x := by
  intro u v huv
  cases hm : userinfo.re.first (lastOr none u) v with
  | none => rfl
  | some m =>
    exfalso
    obtain ⟨w1, w2, hword, -, w3, w4, rfl, -, w5, w6, rfl, -, w7, w8, rfl, -, hat⟩ :=
      Pat.denotes_of_mem (Pat.mem_of_first hm).1
    obtain ⟨r, rfl, hr⟩ := List.map_eq_singleton_iff.mp (denotes_exactly.mp hat)
    have hmem : r ∈ x := by
      rw [huv, Pat.text_of_first hm, hword]
      simp
    have hplain := isPlain_of_plain (hx r hmem)
    rw [hr] at hplain
    cases hplain

/-- A text in which no pattern finds anything new. -/
structure Stable (text : List Rune) : Prop where
  plain : Plain text
  headers : cookieSlot.Settled text
  pairs : credentialSlot.Settled text
  bearers : bearerToken.Clear text
  keys : apiKey.Clear text

theorem stable_passes (hx : Plain x) :
    Stable (apiKey.pass (bearerToken.pass (credentialPair.pass (cookieHeader.pass x)))) := by
  have hx2 := cookieHeader_marks.plain (by decide) hx
  have hx3 := credentialPair_marks.plain (by decide) hx2
  have hx4 := bearerToken_marks.plain (by decide) hx3
  have hheaders := credentialPair_keeps_headers hx2 (cookieHeader_settled hx)
  have hheaders4 := bearerToken_token.settled bearerToken_closes hx3 hheaders
  have hpairs4 := bearerToken_token.settled bearerToken_closes hx3 (credentialPair_settled hx2)
  have hbearers := bearerToken_token.clears bearerToken_closes bearerToken_again hx3
  exact {
    plain := apiKey_marks.plain (by decide) hx4
    headers := apiKey_token.settled apiKey_closes hx4 hheaders4
    pairs := apiKey_token.settled apiKey_closes hx4 hpairs4
    bearers := apiKey_token.clear_kept apiKey_closes bearerToken_token bearerToken_again hx4 hbearers
    keys := apiKey_token.clears apiKey_closes apiKey_again hx4 }

theorem Stable.fixed (h : Stable x) :
    apiKey.pass (bearerToken.pass (credentialPair.pass (cookieHeader.pass (userinfo.pass x)))) = x := by
  rw [(userinfo_clear h.plain).fixed, cookieHeader_fills.fixed h.plain h.headers,
    credentialPair_fills.fixed h.plain h.pairs, h.bearers.fixed, h.keys.fixed]

theorem redact_redact {s : Bytes} (h : ∀ r ∈ decode s, isPlain r.char = true) : redact (redact s) = redact s := by
  have hx := plain_decode h
  have hstable : Stable (decode (redact s)) := by
    rw [decode_redact, (userinfo_clear hx).fixed]
    exact stable_passes hx
  have hdecode : decode (redact (redact s)) = decode (redact s) := by
    rw [decode_redact (redact s), hstable.fixed]
  rw [← encode_decode (redact (redact s)), hdecode, encode_decode]

end Vizra.Obs
