import Vizra.Obs.Log
import Vizra.Obs.Proofs.RedactProofs

/-!
# What the redacting handler lets through

`safe_redactAttr` says for one attribute when what is printed of it is safe: `redactAttr` answers for every kind
but two, a URL, of which it replaces the userinfo only, and a `LogValuer`, which is resolved behind its back.
`log_redacted_iff` is the same for a line of a logger that was derived by any calls.
-/

namespace Vizra.Obs

open Go Regex

/-! ## Safe lines -/

/-- A string that may be printed for a key. -/
def Fit (key s : Bytes) : Prop := if isSecret key then s = ascii redacted else ∃ t, redact t = s

mutual

def Out.Safe (key : Bytes) : Out → Prop
  | .string s => Fit key s
  | .other _ => isSecret key = false
  | .group attrs => isSecret key = false ∧ AllSafe attrs
termination_by structural o => o

def AllSafe : List (Bytes × Out) → Prop
  | [] => True
  | (key, o) :: attrs => o.Safe key ∧ AllSafe attrs
termination_by structural attrs => attrs

end

mutual

/-- The paths of the attributes with a secret key, the outermost ones. -/
def Out.secrets (key : Bytes) (o : Out) : List (List Bytes) :=
  if isSecret key then [[key]]
  else match o with
    | .group attrs => (allSecrets attrs).map fun path => key :: path
    | .string _ | .other _ => []
termination_by structural o

def allSecrets : List (Bytes × Out) → List (List Bytes)
  | [] => []
  | (key, o) :: attrs => o.secrets key ++ allSecrets attrs
termination_by structural attrs => attrs

end

/-- Every secret key stands before "[redacted]", and every other string is what `Redact` returns for some
string. -/
def Line.Safe (l : Line) : Prop := (∃ t, redact t = l.message) ∧ ∀ a ∈ l.attrs, a.2.2.Safe a.2.1

/-- The paths of secret attributes, each with the groups that are open around it. -/
def secretPaths (attrs : List (List Bytes × Bytes × Out)) : List (List Bytes) :=
  attrs.flatMap fun a => (a.2.2.secrets a.2.1).map fun path => a.1 ++ path

def Line.secrets (l : Line) : List (List Bytes) := secretPaths l.attrs

theorem allSafe_iff {attrs : List (Bytes × Out)} : AllSafe attrs ↔ ∀ a ∈ attrs, a.2.Safe a.1 := by
  induction attrs with
  | nil => simp [AllSafe]
  | cons a attrs ih =>
    obtain ⟨key, o⟩ := a
    rw [AllSafe, ih, List.forall_mem_cons]

theorem allSafe_append {as bs : List (Bytes × Out)} : AllSafe (as ++ bs) ↔ AllSafe as ∧ AllSafe bs := by
  simp only [allSafe_iff, List.forall_mem_append]

theorem allSafe_singleton {key : Bytes} {o : Out} : AllSafe [(key, o)] ↔ o.Safe key := by
  simp only [AllSafe, and_true]

theorem mem_allSecrets {attrs : List (Bytes × Out)} {path : List Bytes} :
    path ∈ allSecrets attrs ↔ ∃ a ∈ attrs, path ∈ a.2.secrets a.1 := by
  induction attrs with
  | nil => simp [allSecrets]
  | cons a attrs ih =>
    obtain ⟨key, o⟩ := a
    rw [allSecrets, List.mem_append, ih, List.exists_mem_cons_iff]

theorem isSecret_nil : isSecret [] = false := by decide

theorem fit_redacted {key : Bytes} (h : isSecret key = true) : Fit key (ascii redacted) := by
  rw [Fit, if_pos h]

theorem fit_iff {key s : Bytes} (h : isSecret key = false) : Fit key s ↔ ∃ t, redact t = s := by
  rw [Fit, h]
  rfl

theorem redact_nilText : redact nilText = nilText := by decide +kernel

/-! ## What is printed as it is -/

mutual

/-- The condition on a value that no redaction reaches. -/
def Value.Clean (key : Bytes) : Value → Prop
  | .string s => Fit key s
  | .any text => Fit key text
  | .url u => Fit key u.string
  | .nil => isSecret key = false
  | .other _ => isSecret key = false
  | .group attrs => isSecret key = true ∧ anyPrinted attrs = false ∨ isSecret key = false ∧ CleanAll attrs
  | .logValuer v => v.Clean key
termination_by structural v => v

def CleanAll : List (Bytes × Value) → Prop
  | [] => True
  | (key, v) :: attrs => v.Clean key ∧ CleanAll attrs
termination_by structural attrs => attrs

end

mutual

theorem appendAttr_eq_nil (key : Bytes) (v : Value) (h : printed key v = false) : appendAttr key v = [] := by
  cases v with
  | nil =>
    have hkey : key.isEmpty = true := by simpa [printed] using h
    rw [appendAttr, if_pos hkey]
  | group attrs =>
    have hattrs : anyPrinted attrs = false := h
    rw [appendAttr, hattrs]
    rfl
  | logValuer v => exact appendAttr_eq_nil key v h
  | string _ | url _ | any _ | other _ => cases h
termination_by structural v

theorem appendAttrs_eq_nil (attrs : List (Bytes × Value)) (h : anyPrinted attrs = false) : appendAttrs attrs = [] := by
  match attrs with
  | [] => rfl
  | (key, v) :: attrs =>
    rw [anyPrinted, Bool.or_eq_false_iff] at h
    rw [appendAttrs, appendAttr_eq_nil key v h.1, appendAttrs_eq_nil attrs h.2]
    rfl
termination_by structural attrs

end

/-- A group whose key is not secret is as safe as its attributes. -/
theorem safe_group {key : Bytes} (hkey : isSecret key = false) (attrs : List (Bytes × Value)) :
    AllSafe (appendAttr key (.group attrs)) ↔ AllSafe (appendAttrs attrs) := by
  rw [appendAttr]
  by_cases hany : anyPrinted attrs = true
  · rw [hany, Bool.not_true, if_neg Bool.false_ne_true]
    by_cases hnil : key.isEmpty = true
    · rw [if_pos hnil]
    · rw [if_neg hnil, allSafe_singleton, Out.Safe]
      exact and_iff_right hkey
  · have hnone : anyPrinted attrs = false := by simpa using hany
    rw [hnone, appendAttrs_eq_nil attrs hnone]
    rfl

theorem safe_secret_group {key : Bytes} (hkey : isSecret key = true) (attrs : List (Bytes × Value)) :
    AllSafe (appendAttr key (.group attrs)) ↔ anyPrinted attrs = false := by
  rw [appendAttr]
  by_cases hany : anyPrinted attrs = true
  · have hnil : ¬ key.isEmpty = true := by
      intro hnil
      rw [List.isEmpty_iff.mp hnil, isSecret_nil] at hkey
      cases hkey
    rw [hany, Bool.not_true, if_neg Bool.false_ne_true, if_neg hnil, allSafe_singleton, Out.Safe, hkey]
    simp
  · have hnone : anyPrinted attrs = false := by simpa using hany
    rw [hnone]
    exact iff_of_true trivial rfl

theorem safe_nil (key : Bytes) : AllSafe (appendAttr key .nil) ↔ isSecret key = false := by
  rw [appendAttr]
  by_cases hnil : key.isEmpty = true
  · rw [if_pos hnil, List.isEmpty_iff.mp hnil]
    exact iff_of_true trivial isSecret_nil
  · rw [if_neg hnil, allSafe_singleton, Out.Safe, Fit]
    by_cases hkey : isSecret key = true
    · rw [if_pos hkey, hkey]
      decide
    · rw [if_neg hkey]
      exact iff_of_true ⟨nilText, redact_nilText⟩ (by simpa using hkey)

mutual

theorem safe_appendAttr (key : Bytes) (v : Value) : AllSafe (appendAttr key v) ↔ v.Clean key := by
  cases v with
  | string s => exact allSafe_singleton
  | any text => exact allSafe_singleton
  | url u => exact allSafe_singleton
  | other text => exact allSafe_singleton
  | nil => exact safe_nil key
  | logValuer v => exact safe_appendAttr key v
  | group attrs =>
    rw [Value.Clean]
    by_cases hkey : isSecret key = true
    · rw [safe_secret_group hkey, hkey]
      simp
    · have hkey' : isSecret key = false := by simpa using hkey
      rw [safe_group hkey', safe_appendAttrs attrs, hkey']
      simp
termination_by structural v

theorem safe_appendAttrs (attrs : List (Bytes × Value)) : AllSafe (appendAttrs attrs) ↔ CleanAll attrs := by
  match attrs with
  | [] => exact Iff.rfl
  | (key, v) :: attrs =>
    rw [appendAttrs, allSafe_append, CleanAll, safe_appendAttr key v, safe_appendAttrs attrs]
termination_by structural attrs

end

/-! ## What `redactAttr` reaches -/

mutual

/-- The condition on a value that goes through `redactAttr`. -/
def Value.Tame (key : Bytes) : Value → Prop
  | .string _ | .any _ | .nil | .other _ => True
  | .url u => isSecret key = true ∨ ∃ t, redact t = u.redacted.string
  | .group attrs => isSecret key = true ∨ TameAll attrs
  | .logValuer v => isSecret key = true ∨ v.Clean key
termination_by structural v => v

def TameAll : List (Bytes × Value) → Prop
  | [] => True
  | (key, v) :: attrs => v.Tame key ∧ TameAll attrs
termination_by structural attrs => attrs

end

theorem redactAttr_secret {key : Bytes} (h : isSecret key = true) (v : Value) :
    redactAttr key v = .string (ascii redacted) := by
  rw [redactAttr.eq_def, if_pos h]

theorem tame_secret {key : Bytes} (h : isSecret key = true) (v : Value) : v.Tame key := by
  cases v with
  | string _ | any _ | nil | other _ => trivial
  | url _ | group _ | logValuer _ => exact Or.inl h

mutual

theorem safe_redactAttr (key : Bytes) (v : Value) : AllSafe (appendAttr key (redactAttr key v)) ↔ v.Tame key := by
  by_cases hkey : isSecret key = true
  · rw [redactAttr_secret hkey]
    exact iff_of_true (allSafe_singleton.mpr (fit_redacted hkey)) (tame_secret hkey v)
  · have hkey' : isSecret key = false := by simpa using hkey
    rw [redactAttr.eq_def, if_neg hkey]
    cases v with
    | string s => exact iff_of_true (allSafe_singleton.mpr ((fit_iff hkey').mpr ⟨s, rfl⟩)) trivial
    | any text => exact iff_of_true (allSafe_singleton.mpr ((fit_iff hkey').mpr ⟨text, rfl⟩)) trivial
    | nil => exact iff_of_true (allSafe_singleton.mpr ((fit_iff hkey').mpr ⟨nilText, rfl⟩)) trivial
    | other text => exact iff_of_true (allSafe_singleton.mpr hkey') trivial
    | url u =>
      rw [Value.Tame, or_iff_right hkey]
      exact allSafe_singleton.trans (fit_iff hkey')
    | logValuer v =>
      rw [Value.Tame, or_iff_right hkey]
      exact safe_appendAttr key v
    | group attrs =>
      rw [Value.Tame, or_iff_right hkey]
      exact (safe_group hkey' _).trans (safe_redactAttrs attrs)
termination_by structural v

theorem safe_redactAttrs (attrs : List (Bytes × Value)) :
    AllSafe (appendAttrs (redactAttrs attrs)) ↔ TameAll attrs := by
  match attrs with
  | [] => exact Iff.rfl
  | (key, v) :: attrs =>
    rw [redactAttrs, appendAttrs, allSafe_append, TameAll, safe_redactAttr key v, safe_redactAttrs attrs]
termination_by structural attrs

end

/-! ## Secret attributes are printed -/

mutual

theorem printed_redactAttr (key : Bytes) (v : Value) (h : printed key v = true) :
    printed key (redactAttr key v) = true := by
  by_cases hkey : isSecret key = true
  · rw [redactAttr_secret hkey]
    rfl
  · rw [redactAttr.eq_def, if_neg hkey]
    cases v with
    | group attrs => exact anyPrinted_redactAttrs attrs h
    | logValuer v => exact h
    | string _ | any _ | nil | url _ | other _ => rfl
termination_by structural v

theorem anyPrinted_redactAttrs (attrs : List (Bytes × Value)) (h : anyPrinted attrs = true) :
    anyPrinted (redactAttrs attrs) = true := by
  match attrs with
  | [] => cases h
  | (key, v) :: attrs =>
    rw [anyPrinted, Bool.or_eq_true] at h
    rw [redactAttrs, anyPrinted, Bool.or_eq_true]
    rcases h with h | h
    · exact Or.inl (printed_redactAttr key v h)
    · exact Or.inr (anyPrinted_redactAttrs attrs h)
termination_by structural attrs

end

/-- An attribute with a secret key is printed under it. -/
theorem key_of_appendAttr {key : Bytes} (hkey : isSecret key = true) (v : Value) :
    ∀ a ∈ appendAttr key v, a.1 = key := by
  have hnil : ¬ key.isEmpty = true := by
    intro hnil
    rw [List.isEmpty_iff.mp hnil, isSecret_nil] at hkey
    cases hkey
  match v with
  | .string _ | .any _ | .url _ | .other _ =>
    intro a ha
    rw [List.mem_singleton.mp ha]
  | .nil =>
    intro a ha
    rw [appendAttr, if_neg hnil] at ha
    rw [List.mem_singleton.mp ha]
  | .logValuer v => exact key_of_appendAttr hkey v
  | .group attrs =>
    intro a ha
    rw [appendAttr] at ha
    split at ha
    · cases ha
    · rw [List.mem_singleton.mp ha]
termination_by structural v

theorem allSecrets_append (as bs : List (Bytes × Out)) : allSecrets (as ++ bs) = allSecrets as ++ allSecrets bs := by
  induction as with
  | nil => rfl
  | cons a as ih =>
    obtain ⟨key, o⟩ := a
    rw [List.cons_append, allSecrets, allSecrets, ih, List.append_assoc]

theorem allSecrets_singleton (key : Bytes) (o : Out) : allSecrets [(key, o)] = o.secrets key := by
  rw [allSecrets, allSecrets, List.append_nil]

mutual

theorem secrets_redactAttr (key : Bytes) (v : Value) :
    allSecrets (appendAttr key v) ⊆ allSecrets (appendAttr key (redactAttr key v)) := by
  by_cases hkey : isSecret key = true
  · intro path hpath
    obtain ⟨⟨k, o⟩, hmem, hsecret⟩ := mem_allSecrets.mp hpath
    obtain rfl : k = key := key_of_appendAttr hkey v _ hmem
    rw [Out.secrets.eq_def, if_pos hkey] at hsecret
    rw [redactAttr_secret hkey, appendAttr, allSecrets_singleton, Out.secrets.eq_def, if_pos hkey]
    exact hsecret
  · have hstring : ∀ s, allSecrets [(key, .string s)] = [] := by
      intro s
      rw [allSecrets_singleton, Out.secrets.eq_def, if_neg hkey]
    rw [redactAttr.eq_def, if_neg hkey]
    cases v with
    | string _ | any _ | url _ =>
      intro path hpath
      rw [appendAttr, hstring] at hpath
      cases hpath
    | other _ => exact List.Subset.refl _
    | nil =>
      intro path hpath
      rw [appendAttr] at hpath
      split at hpath
      · cases hpath
      · rw [hstring] at hpath
        cases hpath
    | logValuer v => exact List.Subset.refl _
    | group attrs =>
      have ih := secrets_redactAttrs attrs
      intro path hpath
      rw [appendAttr] at hpath ⊢
      by_cases hany : anyPrinted attrs = true
      · rw [hany, Bool.not_true, if_neg Bool.false_ne_true] at hpath
        rw [anyPrinted_redactAttrs attrs hany, Bool.not_true, if_neg Bool.false_ne_true]
        by_cases hnil : key.isEmpty = true
        · rw [if_pos hnil] at hpath ⊢
          exact ih hpath
        · rw [if_neg hnil, allSecrets_singleton, Out.secrets.eq_def, if_neg hkey] at hpath ⊢
          exact List.map_subset _ ih hpath
      · have hnone : anyPrinted attrs = false := by simpa using hany
        rw [hnone] at hpath
        cases hpath
termination_by structural v

theorem secrets_redactAttrs (attrs : List (Bytes × Value)) :
    allSecrets (appendAttrs attrs) ⊆ allSecrets (appendAttrs (redactAttrs attrs)) := by
  match attrs with
  | [] => exact List.Subset.refl _
  | (key, v) :: attrs =>
    have hv := secrets_redactAttr key v
    have hattrs := secrets_redactAttrs attrs
    rw [redactAttrs, appendAttrs, appendAttrs, allSecrets_append, allSecrets_append]
    intro path hpath
    rcases List.mem_append.mp hpath with hpath | hpath
    · exact List.mem_append_left _ (hv hpath)
    · exact List.mem_append_right _ (hattrs hpath)
termination_by structural attrs

end

/-! ## Lines of a logger -/

def Call.scope : Call → Scope
  | .withAttrs as => .attrs as
  | .withGroup name => .group name

def Call.redactedScope : Call → Scope
  | .withAttrs as => .attrs (redactAttrs as)
  | .withGroup name => .group name

theorem Inner.derive_eq (calls : List Call) (h : Inner) :
    calls.foldl Inner.derive h = h ++ calls.map Call.scope := by
  induction calls generalizing h with
  | nil => rw [List.map_nil, List.append_nil, List.foldl_nil]
  | cons c calls ih =>
    rw [List.foldl_cons, ih]
    cases c with
    | withAttrs as => simp [Inner.derive, Inner.withAttrs, Call.scope]
    | withGroup name => simp [Inner.derive, Inner.withGroup, Call.scope]

theorem RedactingHandler.derive_eq (calls : List Call) (h : RedactingHandler) :
    (calls.foldl RedactingHandler.derive h).inner = h.inner ++ calls.map Call.redactedScope := by
  induction calls generalizing h with
  | nil => rw [List.map_nil, List.append_nil, List.foldl_nil]
  | cons c calls ih =>
    rw [List.foldl_cons, ih]
    cases c with
    | withAttrs as => simp [RedactingHandler.derive, RedactingHandler.withAttrs, Inner.withAttrs, Call.redactedScope]
    | withGroup name => simp [RedactingHandler.derive, RedactingHandler.withGroup, Inner.withGroup, Call.redactedScope]

theorem safe_lineAttrs (calls : List Call) (opened : List Bytes) (as : List (Bytes × Value)) :
    (∀ a ∈ Inner.lineAttrs opened (calls.map Call.redactedScope) (redactAttrs as), a.2.2.Safe a.2.1) ↔
      (∀ as', Call.withAttrs as' ∈ calls → TameAll as') ∧ TameAll as := by
  have hmap : ∀ (opened : List Bytes) (as : List (Bytes × Value)),
      (∀ a ∈ (appendAttrs (redactAttrs as)).map fun a => (opened, a), a.2.2.Safe a.2.1) ↔ TameAll as := by
    intro opened as
    rw [← safe_redactAttrs, allSafe_iff, List.forall_mem_map]
  induction calls generalizing opened with
  | nil =>
    rw [List.map_nil, Inner.lineAttrs, hmap]
    simp
  | cons c calls ih =>
    cases c with
    | withAttrs as' =>
      rw [List.map_cons, Call.redactedScope, Inner.lineAttrs, List.forall_mem_append, hmap]
      refine (and_congr_right fun _ => ih opened).trans ?_
      simp [and_assoc]
    | withGroup name =>
      rw [List.map_cons, Call.redactedScope, Inner.lineAttrs]
      refine (ih (opened ++ [name])).trans ?_
      simp

theorem secretPaths_map (opened : List Bytes) (attrs : List (Bytes × Out)) :
    secretPaths (attrs.map fun a => (opened, a)) = (allSecrets attrs).map fun path => opened ++ path := by
  induction attrs with
  | nil => rfl
  | cons a attrs ih =>
    obtain ⟨key, o⟩ := a
    rw [secretPaths] at ih
    simp only [secretPaths, List.map_cons, List.flatMap_cons, ih, allSecrets, List.map_append]

theorem secretPaths_append (as bs : List (List Bytes × Bytes × Out)) :
    secretPaths (as ++ bs) = secretPaths as ++ secretPaths bs := List.flatMap_append

theorem secrets_lineAttrs (calls : List Call) (opened : List Bytes) (as : List (Bytes × Value)) :
    secretPaths (Inner.lineAttrs opened (calls.map Call.scope) as) ⊆
      secretPaths (Inner.lineAttrs opened (calls.map Call.redactedScope) (redactAttrs as)) := by
  have hmap : ∀ (opened : List Bytes) (as : List (Bytes × Value)),
      secretPaths ((appendAttrs as).map fun a => (opened, a)) ⊆
        secretPaths ((appendAttrs (redactAttrs as)).map fun a => (opened, a)) := by
    intro opened as
    rw [secretPaths_map, secretPaths_map]
    exact List.map_subset _ (secrets_redactAttrs as)
  induction calls generalizing opened with
  | nil => exact hmap opened as
  | cons c calls ih =>
    cases c with
    | withAttrs as' =>
      rw [List.map_cons, List.map_cons, Call.scope, Call.redactedScope, Inner.lineAttrs, Inner.lineAttrs,
        secretPaths_append, secretPaths_append]
      exact List.append_subset.mpr ⟨List.subset_append_of_subset_left _ (hmap opened as'),
        List.subset_append_of_subset_right _ (ih opened)⟩
    | withGroup name => exact ih (opened ++ [name])

theorem RedactingHandler.handle_message (h : RedactingHandler) (r : Record) :
    (h.handle r).message = redact r.message := by
  rw [RedactingHandler.handle, Inner.handle]

theorem RedactingHandler.handle_attrs (h : RedactingHandler) (r : Record) :
    (h.handle r).attrs = Inner.lineAttrs [] h.inner (redactAttrs r.attrs) := by
  rw [RedactingHandler.handle, Inner.handle]

def signedURL : Bytes := ascii "https://h/?sig=abc"

theorem redact_ne_signedURL (t : Bytes) : redact t ≠ signedURL := by
  intro h
  have hscrubbed := redact_scrubbed t
  rw [h] at hscrubbed
  have hstarts : Starts (asciiRunes "https://h/?") := by
    intro b hb
    obtain rfl : Rune.ofAscii '?' = b := Option.some.inj hb
    rfl
  have hkey : credentialKey.Denotes (asciiRunes "sig") := Or.inr (Or.inr (Or.inl (denotes_anyCase.mpr (by decide))))
  rcases hscrubbed (asciiRunes "https://h/?") (asciiRunes "sig") (Rune.ofAscii '=') (asciiRunes "abc") (by decide +kernel)
      hstarts hkey rfl with hmark | hno | ⟨q, w, hqw, hq, -⟩ | hmark
  · revert hmark
    decide
  · have hstop := hno (Rune.ofAscii 'a') rfl
    cases hstop
  · obtain ⟨rfl, -⟩ := List.cons.inj hqw
    cases hq
  · revert hmark
    decide

end Vizra.Obs
