import Vizra.Cache.Proofs.RateLimitProofs
import Mathlib.Data.Finset.Card

/-!
# How many windows the in-process limiter holds

`Allow` purges only windows that have expired, and only when it holds more than `maxWindows`. What is left is the
windows that were opened within one window length, so the map stays bounded exactly if the keys used within one window
length do. The two bounds follow from the calls that opened a window: each entry of the map comes from one, and one
whose window has not expired still has its entry.
-/

namespace Vizra.Cache.MemoryLimiter

open Go

variable {window : Duration} {calls : List Call} {k : String} {now : Instant} {w : MemWindow} {m : MemoryLimiter}

/-- The limiter after calls. -/
def after (m : MemoryLimiter) (calls : List Call) : MemoryLimiter := (Lts.replay allow m calls).1

/-- How many windows are stored after calls. -/
def stored (calls : List Call) : Nat := (fresh.after calls).windows.entries.length

/-- The keys that are used within one window length before `t`. -/
def recentKeys (window : Duration) (t : Instant) (calls : List Call) : Finset String :=
  ((calls.filter fun c => t - window ≤ c.now ∧ c.now ≤ t).map FixedWindow.Call.key).toFinset

/-- Calls with one window length, at nondecreasing times. -/
structure Timed (window : Duration) (calls : List Call) : Prop where
  window : ∀ c ∈ calls, c.window = window
  sorted : calls.Pairwise fun c d => c.now ≤ d.now

theorem mem_recentKeys {t : Instant} :
    k ∈ recentKeys window t calls ↔ ∃ c ∈ calls, (t - window ≤ c.now ∧ c.now ≤ t) ∧ c.key = k := by
  unfold recentKeys
  rw [List.mem_toFinset, List.mem_map]
  simp only [List.mem_filter, decide_eq_true_eq, and_assoc]

theorem after_append (m : MemoryLimiter) (calls rest : List Call) :
    m.after (calls ++ rest) = (m.after calls).after rest := by
  unfold after
  rw [Lts.replay_append]

theorem after_concat (m : MemoryLimiter) (calls : List Call) (c : Call) :
    m.after (calls ++ [c]) = ((m.after calls).allow c).1 := by
  rw [after_append]
  rfl

/-! ## One call -/

/-- The map after the purge. -/
def kept (m : MemoryLimiter) (now : Instant) : AList fun _ : String => MemWindow :=
  if maxWindows < m.windows.entries.length then purge now m.windows else m.windows

theorem lookup_purge {windows : AList fun _ : String => MemWindow} :
    (purge now windows).lookup k = some w ↔ windows.lookup k = some w ∧ now ≤ w.expires := by
  unfold purge
  rw [lookup_foldl_erase]
  by_cases hexpired : ∃ e ∈ windows.entries, e.2.expires < now ∧ e.1 = k
  · rw [if_pos hexpired]
    obtain ⟨⟨k', w'⟩, hmem, hlt, rfl⟩ := hexpired
    have hlookup : windows.lookup k' = some w' := AList.mem_lookup_iff.mpr hmem
    constructor
    · intro h
      cases h
    · rintro ⟨hw, hle⟩
      rw [hlookup] at hw
      cases hw
      exact absurd hle (Int.not_le.mpr hlt)
  · rw [if_neg hexpired]
    constructor
    · intro hw
      refine ⟨hw, ?_⟩
      by_contra hlt
      exact hexpired ⟨⟨k, w⟩, AList.mem_lookup_iff.mp hw, Int.not_le.mp hlt, rfl⟩
    · exact And.left

theorem lookup_of_kept (h : (m.kept now).lookup k = some w) : m.windows.lookup k = some w := by
  unfold kept at h
  split_ifs at h
  · exact (lookup_purge.mp h).1
  · exact h

theorem lookup_kept (h : m.windows.lookup k = some w) (hopen : now ≤ w.expires) : (m.kept now).lookup k = some w := by
  unfold kept
  split_ifs
  · exact lookup_purge.mpr ⟨h, hopen⟩
  · exact h

theorem lookup_allow_other (m : MemoryLimiter) {c : Call} (hk : k ≠ c.key) :
    (m.allow c).1.windows.lookup k = (m.kept c.now).lookup k := AList.lookup_insert_ne hk

/-- The window of the key is opened, or stays as it is up to its count. -/
theorem lookup_allow_self (m : MemoryLimiter) (c : Call) :
    ∃ w, (m.allow c).1.windows.lookup c.key = some w ∧
      ((∀ v, m.windows.lookup c.key = some v → v.expires < c.now) ∧ w.expires = c.now + c.window ∨
        ∃ v, m.windows.lookup c.key = some v ∧ c.now ≤ v.expires ∧ w.expires = v.expires) := by
  refine ⟨_, AList.lookup_insert _, ?_⟩
  cases hkept : (m.kept c.now).lookup c.key with
  | none =>
    left
    unfold kept at hkept
    simp only [hkept, and_true]
    intro v hv
    by_contra hopen
    have hsome := lookup_kept hv (Int.not_lt.mp hopen)
    unfold kept at hsome
    rw [hkept] at hsome
    cases hsome
  | some v =>
    have hv := lookup_of_kept hkept
    unfold kept at hkept
    simp only [hkept]
    by_cases hexpired : v.expires < c.now
    · left
      simp only [if_pos hexpired, and_true]
      intro v' hv'
      rw [hv] at hv'
      cases hv'
      exact hexpired
    · right
      refine ⟨v, hv, Int.not_lt.mp hexpired, ?_⟩
      simp only [if_neg hexpired]

/-! ## The calls that open a window -/

/-- The call finds no window of its key, or one that has expired. -/
def opens (m : MemoryLimiter) (c : Call) : Bool := (m.windows.lookup c.key).all fun w => w.expires < c.now

/-- The calls of a run that open a window. -/
def openings (m : MemoryLimiter) : List Call → List Call
  | [] => []
  | c :: calls => (if m.opens c then [c] else []) ++ openings (m.allow c).1 calls

theorem openings_append (m : MemoryLimiter) (calls rest : List Call) :
    m.openings (calls ++ rest) = m.openings calls ++ (m.after calls).openings rest := by
  induction calls generalizing m with
  | nil => rfl
  | cons c calls ih =>
    rw [List.cons_append, openings, openings, ih, List.append_assoc]
    rfl

theorem opens_iff {c : Call} : m.opens c = true ↔ ∀ w, m.windows.lookup c.key = some w → w.expires < c.now := by
  unfold opens
  cases m.windows.lookup c.key with
  | none => simp
  | some w => simp

theorem mem_of_mem_openings {o : Call} (h : o ∈ m.openings calls) : o ∈ calls := by
  induction calls generalizing m with
  | nil => cases h
  | cons c calls ih =>
    rw [openings] at h
    rcases List.mem_append.mp h with h | h
    · split_ifs at h
      · rw [List.mem_singleton.mp h]
        exact List.mem_cons_self
      · cases h
    · exact List.mem_cons_of_mem c (ih h)

/-- The entries of the map and the openings of the calls before. -/
structure Tracks (window : Duration) (m : MemoryLimiter) (calls openings : List Call) : Prop where
  entry : ∀ k w, m.windows.lookup k = some w → ∃ o ∈ openings, o.key = k ∧ w.expires = o.now + window
  entry_of_open : ∀ o ∈ openings, (∀ c ∈ calls, c.now ≤ o.now + window) →
    ∃ w, m.windows.lookup o.key = some w ∧ w.expires = o.now + window
  opened : 0 ≤ window → ∀ c ∈ calls, ∃ o ∈ openings, o.key = c.key ∧ o.now ≤ c.now ∧ c.now ≤ o.now + window

theorem Tracks.fresh (window : Duration) : Tracks window fresh [] [] := by
  refine ⟨fun k w h => ?_, fun o ho => ?_, fun _ c hc => ?_⟩
  · cases h
  · cases ho
  · cases hc

theorem Tracks.allow {openings : List Call} (h : Tracks window m calls openings) {c : Call}
    (hwindow : c.window = window) (hlast : ∀ o ∈ openings, o.now ≤ c.now) :
    Tracks window (m.allow c).1 (calls ++ [c]) (openings ++ if m.opens c then [c] else []) := by
  obtain ⟨w, hw, hcase⟩ := lookup_allow_self m c
  rw [hwindow, ← opens_iff] at hcase
  have hself : ∀ o ∈ if m.opens c then [c] else [], m.opens c = true ∧ o = c := by
    intro o ho
    split_ifs at ho with hopens
    · exact ⟨hopens, List.mem_singleton.mp ho⟩
    · cases ho
  have hc : m.opens c = true → c ∈ openings ++ if m.opens c then [c] else [] := by
    intro hopens
    rw [if_pos hopens]
    exact List.mem_append_right _ (List.mem_singleton_self c)
  refine ⟨fun k v hv => ?_, fun o ho hall => ?_, fun hpos d hd => ?_⟩
  · by_cases hk : k = c.key
    · subst hk
      rw [hw] at hv
      cases hv
      rcases hcase with ⟨hopens, hexp⟩ | ⟨v, hv, -, hexp⟩
      · exact ⟨c, hc hopens, rfl, hexp⟩
      · obtain ⟨o, ho, hkey, hov⟩ := h.entry _ _ hv
        exact ⟨o, List.mem_append_left _ ho, hkey, hexp.trans hov⟩
    · rw [lookup_allow_other m hk] at hv
      obtain ⟨o, ho, hkey, hov⟩ := h.entry _ _ (lookup_of_kept hv)
      exact ⟨o, List.mem_append_left _ ho, hkey, hov⟩
  · have hcnow := hall c (List.mem_append_right _ (List.mem_singleton_self c))
    rcases List.mem_append.mp ho with ho | ho
    · obtain ⟨v, hv, hexp⟩ := h.entry_of_open o ho fun d hd => hall d (List.mem_append_left _ hd)
      have hopen : c.now ≤ v.expires := hcnow.trans_eq hexp.symm
      by_cases hk : o.key = c.key
      · rw [hk] at hv ⊢
        refine ⟨w, hw, ?_⟩
        rcases hcase with ⟨hopens, -⟩ | ⟨v', hv', -, hexp'⟩
        · exact absurd (opens_iff.mp hopens v hv) (Int.not_lt.mpr hopen)
        · rw [hv] at hv'
          cases hv'
          exact hexp'.trans hexp
      · refine ⟨v, ?_, hexp⟩
        rw [lookup_allow_other m hk]
        exact lookup_kept hv hopen
    · obtain ⟨hopens, rfl⟩ := hself o ho
      refine ⟨w, hw, ?_⟩
      rcases hcase with ⟨-, hexp⟩ | ⟨v, hv, hle, -⟩
      · exact hexp
      · exact absurd (opens_iff.mp hopens v hv) (Int.not_lt.mpr hle)
  · rcases List.mem_append.mp hd with hd | hd
    · obtain ⟨o, ho, hkey, hle, hge⟩ := h.opened hpos d hd
      exact ⟨o, List.mem_append_left _ ho, hkey, hle, hge⟩
    · rw [List.mem_singleton.mp hd]
      rcases hcase with ⟨hopens, -⟩ | ⟨v, hv, hle, -⟩
      · exact ⟨c, hc hopens, rfl, le_refl _, le_add_of_nonneg_right hpos⟩
      · obtain ⟨o, ho, hkey, hov⟩ := h.entry _ _ hv
        exact ⟨o, List.mem_append_left _ ho, hkey, hlast o ho, hle.trans_eq hov⟩

theorem tracks_after (h : Timed window calls) : Tracks window (fresh.after calls) calls (fresh.openings calls) := by
  induction calls using List.reverseRecOn with
  | nil => exact Tracks.fresh window
  | append_singleton calls c ih =>
    obtain ⟨hsorted, -, hlast⟩ := List.pairwise_append.mp h.sorted
    have hbefore : Timed window calls := ⟨fun d hd => h.window d (List.mem_append_left _ hd), hsorted⟩
    have hc : c ∈ calls ++ [c] := List.mem_append_right _ (List.mem_singleton_self c)
    have hstep := (ih hbefore).allow (h.window c hc) fun o ho =>
      hlast o (mem_of_mem_openings ho) c (List.mem_singleton_self c)
    rw [after_concat, openings_append]
    have hopenings : (fresh.after calls).openings [c] = if (fresh.after calls).opens c then [c] else [] := by
      rw [openings, openings, List.append_nil]
    rw [hopenings]
    exact hstep

/-! ## The bounds -/

theorem Timed.of_append {rest : List Call} (h : Timed window (calls ++ rest)) : Timed window calls :=
  ⟨fun c hc => h.window c (List.mem_append_left _ hc), (List.pairwise_append.mp h.sorted).1⟩

theorem recentKeys_subset {t : Instant} {calls' : List Call} (h : ∀ c ∈ calls, c ∈ calls') :
    recentKeys window t calls ⊆ recentKeys window t calls' := by
  intro k hk
  obtain ⟨c, hc, hrecent, hkey⟩ := mem_recentKeys.mp hk
  exact mem_recentKeys.mpr ⟨c, h c hc, hrecent, hkey⟩

theorem card_keys (windows : AList fun _ : String => MemWindow) :
    windows.keys.toFinset.card = windows.entries.length := by
  rw [List.toFinset_card_of_nodup windows.keys_nodup]
  exact List.length_map _

/-- A map whose keys are among some holds at most as many windows. -/
theorem length_entries_le {windows : AList fun _ : String => MemWindow} {keys : Finset String}
    (h : ∀ k w, windows.lookup k = some w → k ∈ keys) : windows.entries.length ≤ keys.card := by
  rw [← card_keys]
  refine Finset.card_le_card fun k hk => ?_
  have hmem : k ∈ windows := List.mem_toFinset.mp hk
  obtain ⟨w, hw⟩ := Option.isSome_iff_exists.mp (AList.lookup_isSome.mpr hmem)
  exact h k w hw

theorem length_entries_insert_le (windows : AList fun _ : String => MemWindow) (k : String) (w : MemWindow) :
    (windows.insert k w).entries.length ≤ windows.entries.length + 1 := by
  rw [AList.entries_insert, List.length_cons]
  have hkerase : (List.kerase k windows.entries).length ≤ windows.entries.length := (List.kerase_sublist k _).length_le
  omega

/-- After the purge only keys that were used within one window length are left. -/
theorem mem_recentKeys_of_kept (h : Timed window calls) (hlast : ∀ d ∈ calls, d.now ≤ now)
    (hpurge : maxWindows < (fresh.after calls).windows.entries.length)
    (hw : ((fresh.after calls).kept now).lookup k = some w) : k ∈ recentKeys window now calls := by
  unfold kept at hw
  rw [if_pos hpurge] at hw
  obtain ⟨hlookup, hopen⟩ := lookup_purge.mp hw
  obtain ⟨o, ho, hkey, hexp⟩ := (tracks_after h).entry k w hlookup
  have hmem := mem_of_mem_openings ho
  refine mem_recentKeys.mpr ⟨o, hmem, ⟨?_, hlast o hmem⟩, hkey⟩
  rw [hexp] at hopen
  exact sub_le_iff_le_add.mpr hopen

/-- If at most `r` keys are used within a window length, then at most `r + 1` windows are stored, or as many as there
can be without a purge. -/
theorem stored_le (h : Timed window calls) {r : Nat} (hr : ∀ t, (recentKeys window t calls).card ≤ r) :
    stored calls ≤ max (maxWindows + 1) (r + 1) := by
  induction calls using List.reverseRecOn with
  | nil => exact Nat.zero_le _
  | append_singleton calls c ih =>
    have hlast : ∀ d ∈ calls, d.now ≤ c.now := fun d hd =>
      (List.pairwise_append.mp h.sorted).2.2 d hd c (List.mem_singleton_self c)
    unfold stored
    rw [after_concat]
    have hinsert : ((fresh.after calls).allow c).1.windows.entries.length ≤
        ((fresh.after calls).kept c.now).entries.length + 1 := length_entries_insert_le _ _ _
    by_cases hpurge : maxWindows < (fresh.after calls).windows.entries.length
    · have hkept := length_entries_le fun k w hw => mem_recentKeys_of_kept h.of_append hlast hpurge hw
      have hsubset : recentKeys window c.now calls ⊆ recentKeys window c.now (calls ++ [c]) :=
        recentKeys_subset fun d hd => List.mem_append_left _ hd
      have hcard := Finset.card_le_card hsubset
      have hrecent := hr c.now
      omega
    · have hkept : ((fresh.after calls).kept c.now).entries.length = (fresh.after calls).windows.entries.length := by
        unfold kept
        rw [if_neg hpurge]
      omega

/-- The keys that are stored after calls. -/
def storedKeys (calls : List Call) : Finset String := (fresh.after calls).windows.keys.toFinset

theorem card_storedKeys (calls : List Call) : (storedKeys calls).card = stored calls :=
  card_keys (fresh.after calls).windows

theorem mem_storedKeys (h : (fresh.after calls).windows.lookup k = some w) : k ∈ storedKeys calls := by
  have hmem : k ∈ (fresh.after calls).windows := AList.lookup_isSome.mp (Option.isSome_iff_exists.mpr ⟨w, h⟩)
  exact List.mem_toFinset.mpr hmem

/-- The calls at `t` or before, and the rest. -/
theorem exists_split (h : calls.Pairwise fun c d => c.now ≤ d.now) (t : Instant) :
    ∃ before rest, calls = before ++ rest ∧ (∀ c ∈ before, c.now ≤ t) ∧ ∀ c ∈ rest, t < c.now := by
  induction calls with
  | nil => exact ⟨[], [], rfl, fun c hc => (List.not_mem_nil hc).elim, fun c hc => (List.not_mem_nil hc).elim⟩
  | cons c calls ih =>
    obtain ⟨hc, hcalls⟩ := List.pairwise_cons.mp h
    by_cases hle : c.now ≤ t
    · obtain ⟨before, rest, rfl, hbefore, hrest⟩ := ih hcalls
      refine ⟨c :: before, rest, rfl, fun d hd => ?_, hrest⟩
      rcases List.mem_cons.mp hd with rfl | hd
      · exact hle
      · exact hbefore d hd
    · refine ⟨[], c :: calls, rfl, fun d hd => (List.not_mem_nil hd).elim, fun d hd => ?_⟩
      have hlt : t < c.now := Int.not_le.mp hle
      rcases List.mem_cons.mp hd with rfl | hd
      · exact hlt
      · exact lt_of_lt_of_le hlt (hc d hd)

/-- The keys used within a window length before `t` are stored at its start or at its end. -/
theorem recentKeys_le (h : Timed window calls) {n : Nat} (hn : ∀ before, before <+: calls → stored before ≤ n)
    (t : Instant) : (recentKeys window t calls).card ≤ 2 * n := by
  obtain ⟨before, rest, rfl, hbefore, hrest⟩ := exists_split h.sorted t
  have htimed := h.of_append
  obtain ⟨first, last, rfl, hfirst, hlast⟩ := exists_split htimed.sorted (t - window)
  have htracks := tracks_after htimed
  have htracksFirst := tracks_after htimed.of_append
  have hsubset : recentKeys window t (first ++ last ++ rest) ⊆ storedKeys (first ++ last) ∪ storedKeys first := by
    intro k hk
    obtain ⟨c, hc, ⟨hge, hle⟩, rfl⟩ := mem_recentKeys.mp hk
    have hcbefore : c ∈ first ++ last := by
      rcases List.mem_append.mp hc with hc | hc
      · exact hc
      · exact absurd hle (Int.not_le.mpr (hrest c hc))
    have hpos : 0 ≤ window := by
      have hle' : t - window ≤ t := hge.trans hle
      exact sub_le_self_iff t |>.mp hle'
    obtain ⟨o, ho, hkey, hole, hoge⟩ := htracks.opened hpos c hcbefore
    rw [← hkey]
    by_cases hopen : t ≤ o.now + window
    · obtain ⟨w, hw, -⟩ := htracks.entry_of_open o ho fun d hd => (hbefore d hd).trans hopen
      exact Finset.mem_union_left _ (mem_storedKeys hw)
    · have holt : o.now < t - window := lt_sub_iff_add_lt.mpr (Int.not_le.mp hopen)
      rw [openings_append] at ho
      have hofirst : o ∈ fresh.openings first := by
        rcases List.mem_append.mp ho with ho | ho
        · exact ho
        · exact absurd (hlast o (mem_of_mem_openings ho)) (Int.not_lt.mpr (Int.le_of_lt holt))
      obtain ⟨w, hw, -⟩ := htracksFirst.entry_of_open o hofirst fun d hd =>
        ((hfirst d hd).trans hge).trans hoge
      exact Finset.mem_union_right _ (mem_storedKeys hw)
  have hcard := (Finset.card_le_card hsubset).trans (Finset.card_union_le _ _)
  rw [card_storedKeys, card_storedKeys] at hcard
  have hn1 := hn (first ++ last) (List.prefix_append _ _)
  have hn2 := hn first ⟨last ++ rest, by rw [List.append_assoc]⟩
  omega

/-- Over any set of runs with one window length, the number of stored windows is bounded exactly if the number of keys
used within one window length is. -/
theorem stored_bounded_iff {window : Duration} {runs : Set (List Call)} (h : ∀ calls ∈ runs, Timed window calls) :
    (∃ n, ∀ calls ∈ runs, ∀ before, before <+: calls → stored before ≤ n) ↔
      ∃ r, ∀ calls ∈ runs, ∀ t, (recentKeys window t calls).card ≤ r := by
  constructor
  · rintro ⟨n, hn⟩
    exact ⟨2 * n, fun calls hcalls => recentKeys_le (h calls hcalls) (hn calls hcalls)⟩
  · rintro ⟨r, hr⟩
    refine ⟨max (maxWindows + 1) (r + 1), fun calls hcalls before hbefore => ?_⟩
    obtain ⟨rest, rfl⟩ := hbefore
    refine stored_le (h _ hcalls).of_append fun t => ?_
    have hsubset : recentKeys window t before ⊆ recentKeys window t (before ++ rest) :=
      recentKeys_subset fun c hc => List.mem_append_left _ hc
    exact (Finset.card_le_card hsubset).trans (hr _ hcalls t)

theorem stored_bounded_iff_one_key :
    ∃ n, ∀ calls ∈ {calls : List Call | Timed minute calls ∧ ∀ c ∈ calls, c.key = "k"},
      ∀ before, before <+: calls → stored before ≤ n := by
  refine (stored_bounded_iff fun calls hcalls => hcalls.1).mpr ⟨1, fun calls hcalls t => ?_⟩
  have hsubset : recentKeys minute t calls ⊆ {"k"} := by
    intro k hk
    obtain ⟨c, hc, -, hkey⟩ := mem_recentKeys.mp hk
    rw [Finset.mem_singleton, ← hkey]
    exact hcalls.2 c hc
  exact Finset.card_le_card hsubset

/-- One call each on `n` keys, all at time zero. -/
def flood (n : Nat) : List Call :=
  (List.range n).map fun i => { key := String.ofList (List.replicate i 'k'), limit := 10, window := minute, now := 0 }

theorem timed_flood (n : Nat) : Timed minute (flood n) := by
  refine ⟨fun c hc => ?_, ?_⟩
  · obtain ⟨i, -, rfl⟩ := List.mem_map.mp hc
    rfl
  · rw [flood, List.pairwise_map]
    exact List.pairwise_of_forall fun i j => Int.le_refl 0

theorem card_recentKeys_flood (n : Nat) : (recentKeys minute 0 (flood n)).card = n := by
  have hkeys : recentKeys minute 0 (flood n) =
      (Finset.range n).image fun i => String.ofList (List.replicate i 'k') := by
    ext k
    rw [mem_recentKeys, Finset.mem_image]
    constructor
    · rintro ⟨c, hc, -, hkey⟩
      obtain ⟨i, hi, rfl⟩ := List.mem_map.mp hc
      exact ⟨i, Finset.mem_range.mpr (List.mem_range.mp hi), hkey⟩
    · rintro ⟨i, hi, hkey⟩
      have hnow : (0 : Int) - minute ≤ 0 ∧ (0 : Int) ≤ 0 := by decide
      exact ⟨_, List.mem_map.mpr ⟨i, List.mem_range.mpr (Finset.mem_range.mp hi), rfl⟩, hnow, hkey⟩
  rw [hkeys, Finset.card_image_of_injective, Finset.card_range]
  intro i j h
  have hlength := congrArg (fun s : String => s.toList.length) h
  simpa using hlength

/-- No constant bounds the windows that are stored: the keys of a flood have not expired, so no purge removes them. -/
theorem stored_unbounded : ¬ ∃ n, ∀ calls, Timed minute calls → stored calls ≤ n := by
  rintro ⟨n, hn⟩
  have htimed : ∀ before, before <+: flood (2 * n + 1) → stored before ≤ n := by
    rintro before ⟨rest, hrest⟩
    have hflood := timed_flood (2 * n + 1)
    rw [← hrest] at hflood
    exact hn before hflood.of_append
  have hcard := recentKeys_le (timed_flood (2 * n + 1)) htimed 0
  rw [card_recentKeys_flood] at hcard
  omega

end Vizra.Cache.MemoryLimiter
