import Vizra.GoStd.Json

/-!
# `json.Decoder`

`Decode` reads one value from a stream and leaves the rest of it buffered; `More` looks at the next byte that is not a
space. Both are compared with `parse`, which reads a whole text: a beginning of the stream that is a JSON text is what
`Decode` reads, and the stream is one JSON text exactly if only spaces are left.
-/

namespace Go

namespace Json

variable {s s' : Scanner} {rest runes : List Char} {v : Json} {c : Char}

/-- What a read behind the last byte returns: `io.EOF`, or `http.MaxBytesError` when the body goes on. -/
inductive ReadEnd where
  | eof
  | tooLarge
deriving DecidableEq, Repr

/-- Why `Decode` fails; `invalid` is a text that is not JSON, and `value` a value that cannot be stored. -/
inductive DecodeError where
  | eof
  | unexpectedEOF
  | tooLarge
  | invalid
  | value
deriving DecidableEq, Repr

/-- `scanEnd`: the value at the top that is complete before the rune is read. -/
def Scanner.ended (s : Scanner) (c : Char) : Option Json :=
  match s.mode, s.stack with
  | .endTop v, _ => some v
  | .inNumber st literal, [] => if (st.next c).isNone && st.complete then some (.num literal) else none
  | _, _ => none

/-- `readValue`: the first value and the runes behind it. -/
def readValue (atEnd : ReadEnd) : Scanner → List Char → Except DecodeError (Json × List Char)
  | s, [] =>
    match atEnd, s.ended ' ' with
    | .tooLarge, _ => .error .tooLarge
    | .eof, some v => .ok (v, [])
    | .eof, none => .error .unexpectedEOF
  | s, c :: cs =>
    match s.ended c with
    | some v => .ok (v, c :: cs)
    | none =>
      match s.step c with
      | some s' => readValue atEnd s' cs
      | none => .error .invalid

variable {α : Type}

/-- A struct after `DisallowUnknownFields`. -/
def strictStruct (fields : List (Field α)) : Decoder α
  | old, .null => some old
  | old, .obj members =>
    members.foldlM (fun acc m => (findField fields m.1).bind fun f => f.store acc m.2) old
  | _, _ => none

/-- `Decode` into a variable that holds `zero`: what it holds then, and the runes that stay buffered. -/
def decode (atEnd : ReadEnd) (zero : α) (d : Decoder α) (runes : List Char) : Except DecodeError (α × List Char) :=
  match readValue atEnd Scanner.start runes with
  -- a stream of spaces has no value at all
  | .error .unexpectedEOF => .error (if runes.all isSpace then .eof else .unexpectedEOF)
  | .error e => .error e
  | .ok (v, rest) =>
    match d zero v with
    | some x => .ok (x, rest)
    | none => .error .value

/-- The next byte that is not a space, as `peek` finds it. -/
def nextByte (rest : List Char) : Option Char := (rest.dropWhile isSpace).head?

/-- `More`. -/
def more (rest : List Char) : Bool :=
  match nextByte rest with
  | some c => c != ']' && c != '\x7d'
  | none => false

/-! ## Reading on behind a value -/

/-- The value of a text given by its runes. -/
def document (runes : List Char) : Option Json :=
  ((runes ++ [' ']).foldlM Scanner.step Scanner.start).bind fun s =>
    match s.mode with
    | .endTop v => some v
    | _ => none

theorem parse_eq_document (bytes : List UInt8) : parse bytes = document (Utf8.runes bytes) := rfl

namespace Scanner

/-- What a mode promises: behind the value at the top no frame is open, and a word waits for letters. -/
structure WellFormed (s : Scanner) : Prop where
  top : ∀ v, s.mode = .endTop v → s.stack = []
  word : ∀ rest v, s.mode = .inWord rest v → ' ' ∉ rest

/-- A mode that promises nothing. -/
def plain : Mode → Bool
  | .endTop _ | .inWord _ _ => false
  | _ => true

theorem wellFormed_of_plain (h : plain s.mode = true) : s.WellFormed := by
  refine ⟨?_, ?_⟩
  · intro v hmode
    rw [hmode] at h
    cases h
  · intro rest v hmode
    rw [hmode] at h
    cases h

theorem wellFormed_start : start.WellFormed := wellFormed_of_plain rfl

theorem wellFormed_word {stack : List Frame} (h : ' ' ∉ rest) : WellFormed { stack, mode := .inWord rest v } := by
  refine ⟨?_, ?_⟩
  · rintro w ⟨⟩
  · rintro rest' w ⟨⟩
    exact h

theorem wellFormed_some (hs : s.WellFormed) (h : some s = some s') : s'.WellFormed := by
  rw [← Option.some.inj h]
  exact hs

theorem wellFormed_top (v : Json) : WellFormed { stack := [], mode := .endTop v } := by
  refine ⟨fun _ _ => rfl, ?_⟩
  rintro rest w ⟨⟩

theorem wellFormed_close {stack : List Frame} (h : close v stack = some s) : s.WellFormed := by
  unfold close at h
  split at h
  · exact wellFormed_some (wellFormed_top v) h
  · exact wellFormed_some (wellFormed_of_plain rfl) h
  · exact wellFormed_some (wellFormed_of_plain rfl) h
  · cases h

theorem close_eq_endTop {w : Json} {stack : List Frame} (h : close v stack = some s) (hw : s.mode = .endTop w) :
    stack = [] ∧ v = w := by
  unfold close at h
  split at h
  · cases h
    cases hw
    exact ⟨rfl, rfl⟩
  · cases h
    cases hw
  · cases h
    cases hw
  · cases h

theorem wellFormed_push {frame : Frame} {mode : Mode} (hmode : plain mode = true) (h : s.push frame mode = some s') :
    s'.WellFormed := by
  unfold push at h
  split at h
  · exact wellFormed_some (wellFormed_of_plain hmode) h
  · cases h

theorem wellFormed_beginValue (h : s.beginValue c = some s') : s'.WellFormed := by
  unfold beginValue at h
  repeat' split at h
  · exact wellFormed_push rfl h
  · exact wellFormed_push rfl h
  · exact wellFormed_some (wellFormed_of_plain rfl) h
  · exact wellFormed_some (wellFormed_of_plain rfl) h
  · exact wellFormed_some (wellFormed_of_plain rfl) h
  · exact wellFormed_some (wellFormed_of_plain rfl) h
  · exact wellFormed_some (wellFormed_word (by decide)) h
  · exact wellFormed_some (wellFormed_word (by decide)) h
  · exact wellFormed_some (wellFormed_word (by decide)) h
  · cases h

theorem wellFormed_endValue (hs : s.WellFormed) (h : s.endValue c = some s') : s'.WellFormed := by
  unfold endValue at h
  repeat' split at h
  · exact wellFormed_some hs h
  · exact wellFormed_some (wellFormed_of_plain rfl) h
  · exact wellFormed_close h
  · cases h
  · exact wellFormed_some (wellFormed_of_plain rfl) h
  · exact wellFormed_close h
  · cases h
  · cases h

theorem wellFormed_closeString {name : Bool} {raw : List Char} (h : s.closeString name raw = some s') :
    s'.WellFormed := by
  unfold closeString at h
  split at h
  · exact wellFormed_close h
  · exact wellFormed_some (wellFormed_of_plain rfl) h
  · cases h

theorem wellFormed_inString {name : Bool} {raw : List Char} {st : StrState} (h : s.inString name raw st c = some s') :
    s'.WellFormed := by
  unfold inString at h
  repeat' split at h
  · exact wellFormed_closeString h
  · exact wellFormed_some (wellFormed_of_plain rfl) h
  · cases h
  · exact wellFormed_some (wellFormed_of_plain rfl) h
  · exact wellFormed_some (wellFormed_of_plain rfl) h
  · exact wellFormed_some (wellFormed_of_plain rfl) h
  · cases h
  · cases h
  · exact wellFormed_some (wellFormed_of_plain rfl) h
  · exact wellFormed_some (wellFormed_of_plain rfl) h

theorem wellFormed_beginName (h : s.beginName c = some s') : s'.WellFormed := by
  unfold beginName at h
  split at h
  · exact wellFormed_some (wellFormed_of_plain rfl) h
  · cases h

theorem wellFormed_step (hs : s.WellFormed) (h : s.step c = some s') : s'.WellFormed := by
  unfold step at h
  split at h
  case h_1 =>
    split at h
    · exact wellFormed_some hs h
    · exact wellFormed_beginValue h
  case h_2 =>
    repeat' split at h
    · exact wellFormed_some hs h
    · exact wellFormed_endValue hs h
    · exact wellFormed_beginValue h
  case h_3 =>
    repeat' split at h
    · exact wellFormed_some hs h
    · exact wellFormed_endValue hs h
    · exact wellFormed_beginName h
  case h_4 =>
    split at h
    · exact wellFormed_some hs h
    · exact wellFormed_beginName h
  case h_5 =>
    repeat' split at h
    · exact wellFormed_some hs h
    · exact wellFormed_some (wellFormed_of_plain rfl) h
    · cases h
  case h_6 => exact wellFormed_endValue hs h
  case h_7 => exact wellFormed_endValue hs h
  case h_8 => exact wellFormed_inString h
  case h_9 =>
    repeat' split at h
    · exact wellFormed_some (wellFormed_of_plain rfl) h
    · obtain ⟨t, ht, ht'⟩ := Option.bind_eq_some_iff.mp h
      exact wellFormed_endValue (wellFormed_close ht) ht'
    · cases h
  case h_10 => cases h
  case h_11 =>
    split at h
    · exact wellFormed_close h
    · cases h
  case h_12 d rest v _ hmode =>
    split at h
    · have hword := hs.word _ _ hmode
      exact wellFormed_some (wellFormed_word fun hmem => hword (List.mem_cons_of_mem d hmem)) h
    · cases h

theorem wellFormed_run (hs : s.WellFormed) (h : runes.foldlM step s = some s') : s'.WellFormed := by
  induction runes generalizing s with
  | nil => exact wellFormed_some hs h
  | cons c cs ih =>
    rw [List.foldlM_cons] at h
    obtain ⟨t, ht, htail⟩ := Option.bind_eq_some_iff.mp h
    exact ih (wellFormed_step hs ht) htail

/-! A value at the top has ended: spaces may follow, anything else is an error. -/

theorem next_eq_none {c : Char} (hc : isSpace c = true ∨ c = ']' ∨ c = '\x7d') (st : NumState) : st.next c = none := by
  simp only [isSpace, Bool.or_eq_true, beq_iff_eq] at hc
  rcases hc with (((rfl | rfl) | rfl) | rfl) | rfl | rfl <;> cases st <;> rfl

theorem ended_eq_some :
    s.ended c = some v ↔
      s.mode = .endTop v ∨
        ∃ st literal, s.mode = .inNumber st literal ∧ s.stack = [] ∧ v = .num literal ∧ st.next c = none ∧
          st.complete = true := by
  unfold ended
  constructor
  · intro h
    split at h
    case h_1 hmode =>
      cases h
      exact .inl hmode
    case h_2 st literal hmode hstack =>
      split at h
      · rename_i hdone
        rw [Bool.and_eq_true, Option.isNone_iff_eq_none] at hdone
        cases h
        exact .inr ⟨st, literal, hmode, hstack, rfl, hdone.1, hdone.2⟩
      · cases h
    case h_3 => cases h
  · rintro (hmode | ⟨st, literal, hmode, hstack, rfl, hnext, hcomplete⟩)
    · simp only [hmode]
    · simp only [hmode, hstack, hnext, hcomplete]
      rfl

/-- A value that has ended before some rune has ended before a space or a closing bracket. -/
theorem ended_of_ended {s : Scanner} {c d : Char} {v : Json} (h : s.ended c = some v)
    (hd : isSpace d = true ∨ d = ']' ∨ d = '\x7d') : s.ended d = some v := by
  rw [ended_eq_some] at h ⊢
  rcases h with hmode | ⟨st, literal, hmode, hstack, hv, -, hcomplete⟩
  · exact .inl hmode
  · exact .inr ⟨st, literal, hmode, hstack, hv, next_eq_none hd st, hcomplete⟩

/-- A rune behind a value at the top is read as behind any value. -/
theorem step_of_ended (hs : s.WellFormed) (h : s.ended c = some v) :
    s.step c = if isSpace c then some { stack := [], mode := .endTop v } else none := by
  rcases ended_eq_some.mp h with hmode | ⟨st, literal, hmode, hstack, rfl, hnext, hcomplete⟩
  · have hstack : s.stack = [] := hs.top v hmode
    have hs' : s = { stack := [], mode := .endTop v } := by
      cases s
      cases hmode
      cases hstack
      rfl
    rw [hs']
    rfl
  · unfold step
    simp only [hmode, hnext, hstack, hcomplete, if_true, close, Option.bind_some, endValue]

/-- The text goes on to the end exactly if only spaces follow. -/
theorem run_of_ended (hs : s.WellFormed) (h : s.ended (rest.headD ' ') = some v) :
    (rest ++ [' ']).foldlM step s = if rest.all isSpace then some { stack := [], mode := .endTop v } else none := by
  induction rest generalizing s with
  | nil =>
    rw [List.headD_nil] at h
    rw [List.nil_append, List.foldlM_cons, step_of_ended hs h]
    rfl
  | cons c cs ih =>
    rw [List.headD_cons] at h
    rw [List.cons_append, List.foldlM_cons, step_of_ended hs h, List.all_cons]
    by_cases hc : isSpace c = true
    · rw [if_pos hc, hc, Bool.true_and]
      exact ih (s := { stack := [], mode := .endTop v }) (wellFormed_top v) rfl
    · rw [if_neg hc, Bool.eq_false_of_not_eq_true hc]
      rfl

/-- A space completes a value at the top only if the value has ended before it. -/
theorem ended_of_step_space (hs : s.WellFormed) (h : s.step ' ' = some s') (hv : s'.mode = .endTop v) :
    s.ended ' ' = some v := by
  have hsame : some s = some s' → s.ended ' ' = some v := by
    intro heq
    rw [Option.some.inj heq]
    exact ended_eq_some.mpr (.inl hv)
  unfold step at h
  split at h
  case h_1 => exact hsame h
  case h_2 => exact hsame h
  case h_3 => exact hsame h
  case h_4 => exact hsame h
  case h_5 => exact hsame h
  case h_6 => exact hsame h
  case h_7 => exact hsame h
  case h_8 name raw st _ =>
    cases st with
    | plain =>
      cases h
      cases hv
    | escape => cases h
    | hex left => cases h
  case h_9 st literal hmode =>
    rw [next_eq_none (.inl rfl)] at h
    dsimp only at h
    by_cases hcomplete : st.complete = true
    · rw [if_pos hcomplete] at h
      obtain ⟨t, ht, ht'⟩ := Option.bind_eq_some_iff.mp h
      have htop : t.mode = .endTop v := by
        rw [Option.some.inj (show some t = some s' from ht')]
        exact hv
      obtain ⟨hstack, hnum⟩ := close_eq_endTop ht htop
      exact ended_eq_some.mpr (.inr ⟨st, literal, hmode, hstack, hnum.symm, next_eq_none (.inl rfl) st, hcomplete⟩)
    · rw [if_neg hcomplete] at h
      cases h
  case h_10 => cases h
  case h_11 d w hmode =>
    have hd : ' ' ≠ d := fun heq => hs.word _ _ hmode (heq ▸ List.mem_cons_self)
    rw [if_neg (by simpa using hd)] at h
    cases h
  case h_12 d rest w _ hmode =>
    have hd : ' ' ≠ d := fun heq => hs.word _ _ hmode (heq ▸ List.mem_cons_self)
    rw [if_neg (by simpa using hd)] at h
    cases h

end Scanner

theorem document_eq_some {text : List Char} :
    document text = some v ↔ ∃ s, text.foldlM Scanner.step Scanner.start = some s ∧ s.ended ' ' = some v := by
  unfold document
  rw [List.foldlM_append]
  constructor
  · intro h
    obtain ⟨s', hrun, hv⟩ := Option.bind_eq_some_iff.mp h
    obtain ⟨s, hs, hspace⟩ := Option.bind_eq_some_iff.mp hrun
    rw [List.foldlM_cons] at hspace
    obtain ⟨t, ht, hnil⟩ := Option.bind_eq_some_iff.mp hspace
    cases hnil
    refine ⟨s, hs, Scanner.ended_of_step_space (Scanner.wellFormed_run Scanner.wellFormed_start hs) ht ?_⟩
    split at hv
    · rename_i hmode
      cases hv
      exact hmode
    · cases hv
  · rintro ⟨s, hs, hended⟩
    have hspace : ([] ++ [' ']).foldlM Scanner.step s = some { stack := [], mode := .endTop v } :=
      Scanner.run_of_ended (Scanner.wellFormed_run Scanner.wellFormed_start hs) hended
    rw [hs]
    exact congrArg (Option.bind · _) hspace

/-- Behind a text whose value has ended, the whole is a JSON text exactly if only spaces follow. -/
theorem document_append {text : List Char} (hs : text.foldlM Scanner.step Scanner.start = some s)
    (h : s.ended (rest.headD ' ') = some v) : document (text ++ rest) = if rest.all isSpace then some v else none := by
  have hrun := Scanner.run_of_ended (Scanner.wellFormed_run Scanner.wellFormed_start hs) h
  unfold document
  rw [List.append_assoc, List.foldlM_append, hs]
  by_cases hrest : rest.all isSpace = true
  · rw [if_pos hrest] at hrun ⊢
    exact congrArg (Option.bind · _) hrun
  · rw [if_neg hrest] at hrun ⊢
    exact congrArg (Option.bind · _) hrun

/-- What `Decode` reads is a beginning of the stream that is a JSON text, and the value has ended there. -/
theorem readValue_eq_ok {atEnd : ReadEnd} (h : readValue atEnd s runes = .ok (v, rest)) :
    ∃ text s', runes = text ++ rest ∧ text.foldlM Scanner.step s = some s' ∧ s'.ended (rest.headD ' ') = some v := by
  induction runes generalizing s with
  | nil =>
    unfold readValue at h
    split at h
    · cases h
    · rename_i hended
      cases h
      exact ⟨[], s, rfl, rfl, hended⟩
    · cases h
  | cons c cs ih =>
    unfold readValue at h
    split at h
    · rename_i hended
      cases h
      exact ⟨[], s, rfl, rfl, hended⟩
    · split at h
      · rename_i t ht
        obtain ⟨text, s', hcs, hrun, hended⟩ := ih h
        refine ⟨c :: text, s', by rw [hcs, List.cons_append], ?_, hended⟩
        rw [List.foldlM_cons, ht]
        exact hrun
      · cases h

theorem nextByte_eq_none : nextByte rest = none ↔ rest.all isSpace = true := by
  unfold nextByte
  rw [List.head?_eq_none_iff, List.dropWhile_eq_nil_iff, List.all_eq_true]

/-- The first rune of a stream whose next byte is a closing bracket is that bracket or a space. -/
theorem headD_of_nextByte (h : nextByte rest = some c) : rest.headD ' ' = c ∨ isSpace (rest.headD ' ') = true := by
  cases rest with
  | nil => cases h
  | cons d ds =>
    rw [List.headD_cons]
    by_cases hd : isSpace d = true
    · exact .inr hd
    · unfold nextByte at h
      rw [List.dropWhile_cons_of_neg hd] at h
      exact .inl (Option.some.inj h)

theorem nextByte_of_not_more (h : more rest = false) :
    nextByte rest = none ∨ nextByte rest = some ']' ∨ nextByte rest = some '\x7d' := by
  unfold more at h
  split at h
  · rename_i c hc
    rw [hc, Option.some_inj, Option.some_inj]
    right
    by_cases hbracket : c = ']'
    · exact .inl hbracket
    · simpa [hbracket] using h
  · rename_i hnone
    exact .inl hnone

/-- No beginning of the stream that is a JSON text is `null` or goes on with a closing bracket. -/
def EndsCleanly (runes : List Char) : Prop :=
  ∀ text rest v, runes = text ++ rest → document text = some v →
    v ≠ .null ∧ nextByte rest ≠ some ']' ∧ nextByte rest ≠ some '\x7d'

/-- A JSON text other than `null` ends cleanly. -/
theorem endsCleanly_of_document (h : document runes = some v) (hv : v ≠ .null) : EndsCleanly runes := by
  rintro text rest w rfl hw
  obtain ⟨s, hs, hended⟩ := document_eq_some.mp hw
  have hbracket : ∀ c, c = ']' ∨ c = '\x7d' → nextByte rest ≠ some c := by
    intro c hc hnext
    have hhead : isSpace (rest.headD ' ') = true ∨ rest.headD ' ' = ']' ∨ rest.headD ' ' = '\x7d' := by
      rcases headD_of_nextByte hnext with heq | hspace
      · rw [heq]
        exact .inr hc
      · exact .inl hspace
    rw [document_append hs (Scanner.ended_of_ended hended hhead)] at h
    by_cases hrest : rest.all isSpace = true
    · rw [nextByte_eq_none.mpr hrest] at hnext
      cases hnext
    · rw [if_neg hrest] at h
      cases h
  refine ⟨?_, hbracket ']' (.inl rfl), hbracket _ (.inr rfl)⟩
  rintro rfl
  have htop : s.mode = .endTop .null := by
    rcases Scanner.ended_eq_some.mp hended with hmode | ⟨_, _, _, _, hnum, _⟩
    · exact hmode
    · cases hnum
  rw [document_append hs (Scanner.ended_eq_some.mpr (.inl htop))] at h
  by_cases hrest : rest.all isSpace = true
  · rw [if_pos hrest] at h
    exact hv (Option.some.inj h).symm
  · rw [if_neg hrest] at h
    cases h

/-- A stream that ends cleanly, and in which `More` finds nothing behind the first value, is that value. -/
theorem document_of_endsCleanly {atEnd : ReadEnd} (h : readValue atEnd Scanner.start runes = .ok (v, rest))
    (hmore : more rest = false) (hclean : EndsCleanly runes) : document runes = some v ∧ v ≠ .null := by
  obtain ⟨text, s, rfl, hs, hended⟩ := readValue_eq_ok h
  have htext : document text = some v := document_eq_some.mpr ⟨s, hs, Scanner.ended_of_ended hended (.inl rfl)⟩
  obtain ⟨hnull, hsquare, hcurly⟩ := hclean text rest v rfl htext
  have hnone : nextByte rest = none := by
    rcases nextByte_of_not_more hmore with hnone | hnext | hnext
    · exact hnone
    · exact absurd hnext hsquare
    · exact absurd hnext hcurly
  rw [document_append hs hended, if_pos (nextByte_eq_none.mp hnone)]
  exact ⟨rfl, hnull⟩

/-- A struct is stored from `null`, or from an object with known fields only. -/
theorem strictStruct_eq_some {fields : List (Field α)} {old new : α} (h : strictStruct fields old v = some new) :
    v = .null ∨ ∃ members, v = .obj members ∧ ∀ m ∈ members, (findField fields m.1).isSome = true := by
  cases v with
  | null => exact .inl rfl
  | obj members =>
    refine .inr ⟨members, rfl, ?_⟩
    unfold strictStruct at h
    dsimp only at h
    induction members generalizing old with
    | nil => exact fun m hm => absurd hm List.not_mem_nil
    | cons m ms ih =>
      rw [List.foldlM_cons] at h
      obtain ⟨acc, hacc, hms⟩ := Option.bind_eq_some_iff.mp h
      obtain ⟨f, hf, -⟩ := Option.bind_eq_some_iff.mp hacc
      intro m' hm'
      rcases List.mem_cons.mp hm' with rfl | hm'
      · rw [hf]
        rfl
      · exact ih hms m' hm'
  | bool b => cases h
  | num literal => cases h
  | str s => cases h
  | arr items => cases h

theorem decode_eq_ok {atEnd : ReadEnd} {zero x : α} {d : Decoder α} (h : decode atEnd zero d runes = .ok (x, rest)) :
    ∃ v, readValue atEnd Scanner.start runes = .ok (v, rest) ∧ d zero v = some x := by
  unfold decode at h
  split at h
  · cases h
  · cases h
  · rename_i v rest' hread
    split at h
    · rename_i y hy
      cases h
      exact ⟨v, hread, hy⟩
    · cases h

end Json

end Go
