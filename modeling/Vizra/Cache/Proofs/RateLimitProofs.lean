import Vizra.Cache.RateLimit

/-!
# The in-process limiter refines the cache limiter

Both refine one table of fixed windows. The map of the in-process limiter also holds closed windows until it
purges them, and a window of it that is closed is replaced when its key is used; the cache has dropped the
key by then, and `EXPIRE NX` after `INCR` gives an expiry to a key that was just created and to no other.
-/

namespace Vizra.Cache

open Go FixedWindow

/-! ## The in-process limiter -/

namespace MemoryLimiter

def windowsView (windows : AList fun _ : String => MemWindow) : Table String :=
  fun k => (windows.lookup k).map fun w => { count := w.count, expires := w.expires }

def view (m : MemoryLimiter) : Table String := windowsView m.windows

theorem lookup_foldl_erase (p : (Σ _ : String, MemWindow) → Prop) [DecidablePred p]
    (l : List (Σ _ : String, MemWindow)) (acc : AList fun _ : String => MemWindow) (k : String) :
    (l.foldl (fun acc e => if p e then acc.erase e.1 else acc) acc).lookup k =
      if ∃ e ∈ l, p e ∧ e.1 = k then none else acc.lookup k := by
  induction l generalizing acc with
  | nil => simp
  | cons e l ih =>
    rw [List.foldl_cons, ih]
    by_cases hl : ∃ e ∈ l, p e ∧ e.1 = k
    · have hcons : ∃ e' ∈ e :: l, p e' ∧ e'.1 = k := by
        obtain ⟨e', he', hp⟩ := hl
        exact ⟨e', List.mem_cons_of_mem _ he', hp⟩
      rw [if_pos hl, if_pos hcons]
    · rw [if_neg hl]
      by_cases hp : p e
      · rw [if_pos hp]
        by_cases hk : e.1 = k
        · rw [if_pos ⟨e, List.mem_cons_self, hp, hk⟩, hk, AList.lookup_erase]
        · rw [AList.lookup_erase_ne (Ne.symm hk), if_neg]
          rintro ⟨e', he', hp', hk'⟩
          rcases List.mem_cons.mp he' with rfl | he'
          · exact hk hk'
          · exact hl ⟨e', he', hp', hk'⟩
      · rw [if_neg hp, if_neg]
        rintro ⟨e', he', hp', hk'⟩
        rcases List.mem_cons.mp he' with rfl | he'
        · exact hp hp'
        · exact hl ⟨e', he', hp', hk'⟩

/-- The purge deletes nothing that is open. -/
theorem purge_agree (now : Instant) (windows : AList fun _ : String => MemWindow) :
    Agree now (windowsView (purge now windows)) (windowsView windows) := by
  intro k
  unfold windowsView purge
  rw [lookup_foldl_erase]
  by_cases h : ∃ e ∈ windows.entries, e.2.expires < now ∧ e.1 = k
  · rw [if_pos h]
    obtain ⟨⟨k', w⟩, hmem, hexp, rfl⟩ := h
    have hlook : windows.lookup k' = some w := AList.mem_lookup_iff.mpr hmem
    have hclosed : ¬ now ≤ w.expires := Int.not_le.mpr hexp
    simp [hlook, live, hclosed]
  · rw [if_neg h]

theorem windowsView_insert (windows : AList fun _ : String => MemWindow) (k : String) (w : MemWindow) :
    windowsView (windows.insert k w) =
      Function.update (windowsView windows) k (some { count := w.count, expires := w.expires }) := by
  funext k'
  by_cases hk : k' = k
  · subst hk
    simp [windowsView]
  · simp [windowsView, hk, AList.lookup_insert_ne hk]

/-- `Allow` after the purge is a call on the table. -/
theorem allow_eq (m : MemoryLimiter) (c : Call) :
    ∃ windows, Agree c.now (windowsView windows) m.view ∧
      (m.allow c).1.view = ((windowsView windows).step c).1 ∧ (m.allow c).2 = ((windowsView windows).step c).2 := by
  refine ⟨if maxWindows < m.windows.entries.length then purge c.now m.windows else m.windows, ?_, ?_⟩
  · split
    · exact purge_agree c.now m.windows
    · intro k
      rfl
  · generalize hws : (if maxWindows < m.windows.entries.length then purge c.now m.windows else m.windows) = windows
    unfold allow view
    simp only [hws, windowsView_insert, Table.step, answer]
    cases hlook : windows.lookup c.key with
    | none => simp [windowsView, hlook, hit, live]
    | some w =>
      by_cases hexp : w.expires < c.now
      · have hclosed : ¬ c.now ≤ w.expires := Int.not_le.mpr hexp
        simp [windowsView, hlook, hit, live, hexp, hclosed]
      · have hopen : c.now ≤ w.expires := Int.not_lt.mp hexp
        simp [windowsView, hlook, hit, live, hexp, hopen]

theorem refines : Refines allow view (fun _ => True) (fun _ => True) where
  keep _ _ _ _ := trivial
  reply m c _ _ := by
    obtain ⟨windows, hag, -, hreply⟩ := allow_eq m c
    rw [hreply, hag.step.1]
  agree m c _ _ := by
    obtain ⟨windows, hag, hview, -⟩ := allow_eq m c
    rw [hview]
    exact hag.step.2

end MemoryLimiter

/-! ## The cache path -/

/-- `Allow` with a live context on a cache that executes the commands. -/
def cacheAllow (st : FallbackLimiter × Store) (c : Call) : (FallbackLimiter × Store) × Answer :=
  st.1.allow st.2 false .ok c

def cacheView (client : Client) (st : FallbackLimiter × Store) : Table String := fun k =>
  (st.2 (client.rateKey k)).bind fun e => e.expiry.map fun d => { count := e.value, expires := d }

/-- The limiter has its client, and every counter of the cache has an expiry. -/
structure CacheInv (client : Client) (st : FallbackLimiter × Store) : Prop where
  client : st.1.client = some client
  expiry : ∀ k e, st.2 k = some e → e.expiry ≠ none

def WholeSeconds (c : Call) : Prop := ∃ n : Nat, 1 ≤ n ∧ c.window = n * second

theorem rateKey_injective (client : Client) {k k' : String} (h : client.rateKey k = client.rateKey k') :
    k = k' := by
  unfold Client.rateKey at h
  have := congrArg String.toList h
  simp only [String.toList_append, List.append_cancel_left_eq] at this
  exact String.toList_injective this

theorem formatSec_of_whole {d : Duration} {n : Nat} (hn : 1 ≤ n) (hd : d = n * second) : formatSec d = n := by
  have hsecond : second = 1000000000 := rfl
  unfold formatSec
  rw [hd, if_neg]
  · exact Int.mul_tdiv_cancel _ (by decide)
  · rintro ⟨-, hlt⟩
    rw [hsecond] at hlt
    have hlt' : (n : Int) * 1000000000 < 1000000000 := hlt
    omega

theorem get_update (s : Store) (t : Instant) (k : String) (e : Entry) (h : e.expiry.all (t ≤ ·) = true) :
    Store.get (Function.update s k (some e)) t k = some e := by
  simp [Store.get, h]

/-- `INCR` followed by `EXPIRE NX` on a key that does not exist opens a window. -/
theorem incr_expireNX_new {s : Store} {t : Instant} {k : String} {d : Duration} {n : Nat} (hn : 1 ≤ n)
    (hd : d = n * second) (hget : s.get t k = none) :
    (s.incr t k).2 = 1 ∧ (s.incr t k).1.expireNX t k (formatSec d) =
      Function.update s k (some { value := 1, expiry := some (t + d) }) := by
  have hincr : s.incr t k = (Function.update s k (some { value := 1, expiry := none }), 1) := by
    simp [Store.incr, hget]
  have hcreated := get_update s t k { value := 1, expiry := none } rfl
  have hpos : ¬ (n : Int) ≤ 0 := by omega
  rw [hincr, formatSec_of_whole hn hd]
  simp only [Store.expireNX, hcreated, if_neg hpos, ← hd, Function.update_idem, and_self]

/-- On a key that exists they count, and leave its expiry. -/
theorem incr_expireNX_open {s : Store} {t e : Instant} {k : String} {value : Nat} {seconds : Int}
    (hget : s.get t k = some { value, expiry := some e }) (hopen : t ≤ e) :
    (s.incr t k).2 = value + 1 ∧ (s.incr t k).1.expireNX t k seconds =
      Function.update s k (some { value := value + 1, expiry := some e }) := by
  have hincr : s.incr t k =
      (Function.update s k (some { value := value + 1, expiry := some e }), value + 1) := by
    simp [Store.incr, hget]
  have hcounted := get_update s t k { value := value + 1, expiry := some e } (by simp [hopen])
  rw [hincr]
  simp only [Store.expireNX, hcounted, and_self]

/-- After both commands the entry of the key is its window after the call. -/
theorem incr_expireNX {client : Client} {st : FallbackLimiter × Store} (hinv : CacheInv client st) {c : Call}
    (hwhole : WholeSeconds c) :
    let w := hit c.now c.window (cacheView client st c.key)
    let incremented := st.2.incr c.now (client.rateKey c.key)
    incremented.2 = w.count ∧
      incremented.1.expireNX c.now (client.rateKey c.key) (formatSec c.window) =
        Function.update st.2 (client.rateKey c.key) (some { value := w.count, expiry := some w.expires }) := by
  obtain ⟨n, hn, hwin⟩ := hwhole
  cases hs : st.2 (client.rateKey c.key) with
  | none =>
    have hget : st.2.get c.now (client.rateKey c.key) = none := by simp [Store.get, hs]
    have hhit : hit c.now c.window (cacheView client st c.key) =
        { count := 1, expires := c.now + c.window } := by
      simp [cacheView, hs, hit, live]
    rw [hhit]
    exact incr_expireNX_new hn hwin hget
  | some e =>
    obtain ⟨value, expiry⟩ := e
    obtain ⟨d, rfl⟩ := Option.ne_none_iff_exists'.mp (hinv.expiry _ _ hs)
    by_cases hopen : c.now ≤ d
    · have hget : st.2.get c.now (client.rateKey c.key) = some { value, expiry := some d } := by
        simp [Store.get, hs, hopen]
      have hhit : hit c.now c.window (cacheView client st c.key) = { count := value + 1, expires := d } := by
        simp [cacheView, hs, hit, live, hopen]
      rw [hhit]
      exact incr_expireNX_open hget hopen
    -- the key has expired, as if it had never been there
    · have hget : st.2.get c.now (client.rateKey c.key) = none := by simp [Store.get, hs, hopen]
      have hhit : hit c.now c.window (cacheView client st c.key) =
          { count := 1, expires := c.now + c.window } := by
        simp [cacheView, hs, hit, live, hopen]
      rw [hhit]
      exact incr_expireNX_new hn hwin hget

theorem cacheAllow_eq {client : Client} {st : FallbackLimiter × Store} (hinv : CacheInv client st) {c : Call}
    (hwhole : WholeSeconds c) :
    (cacheAllow st c).1.1.client = some client ∧
      (cacheAllow st c).1.2 = Function.update st.2 (client.rateKey c.key)
        (some { value := (hit c.now c.window (cacheView client st c.key)).count
                expiry := some (hit c.now c.window (cacheView client st c.key)).expires }) ∧
      (cacheAllow st c).2 = ((cacheView client st).step c).2 := by
  obtain ⟨hcount, hstore⟩ := incr_expireNX hinv hwhole
  have hallow : cacheAllow st c = (({ st.1 with degraded := false },
      (st.2.incr c.now (client.rateKey c.key)).1.expireNX c.now (client.rateKey c.key) (formatSec c.window)),
      answer c.limit (st.2.incr c.now (client.rateKey c.key)).2) := by
    simp only [cacheAllow, FallbackLimiter.allow, hinv.client]
    rfl
  rw [hallow, hstore, hcount]
  exact ⟨hinv.client, rfl, rfl⟩

theorem cacheAllow_refines (client : Client) :
    Refines cacheAllow (cacheView client) (CacheInv client) WholeSeconds where
  keep st c hinv hwhole := by
    obtain ⟨hclient, hstore, -⟩ := cacheAllow_eq hinv hwhole
    refine ⟨hclient, ?_⟩
    intro k e he
    rw [hstore] at he
    by_cases hk : k = client.rateKey c.key
    · subst hk
      rw [Function.update_self] at he
      cases he
      simp
    · rw [Function.update_of_ne hk] at he
      exact hinv.expiry k e he
  reply st c hinv hwhole := (cacheAllow_eq hinv hwhole).2.2
  agree st c hinv hwhole := by
    obtain ⟨-, hstore, -⟩ := cacheAllow_eq hinv hwhole
    intro k
    by_cases hk : k = c.key
    · subst hk
      simp [cacheView, hstore, Table.step]
    · have hne : client.rateKey k ≠ client.rateKey c.key := fun h => hk (rateKey_injective client h)
      simp [cacheView, hstore, Table.step, hk, hne]

/-- On every sequence of calls at nondecreasing times, with windows of whole seconds, the in-process limiter
answers every call as the cache path does. -/
theorem memory_refines_cache (client : Client) (calls : List Call)
    (hsorted : calls.Pairwise (fun c d => c.now ≤ d.now))
    (hwhole : ∀ c ∈ calls, ∃ n : Nat, 1 ≤ n ∧ c.window = n * second) :
    (Lts.replay MemoryLimiter.allow .fresh calls).2 =
      (Lts.replay cacheAllow (.fresh (some client), .empty) calls).2 := by
  have hinv : CacheInv client (.fresh (some client), .empty) := ⟨rfl, by simp [Store.empty]⟩
  have hmemory := MemoryLimiter.refines.replay_eq_of_empty (s := .fresh) trivial
    (by funext k; rfl) (fun _ _ => trivial) hsorted
  have hcache := (cacheAllow_refines client).replay_eq_of_empty hinv (by funext k; rfl) hwhole hsorted
  rw [hmemory, hcache]

/-- A call at the instant at which its window ends still counts into it, one a nanosecond later does not. -/
theorem memory_refines_cache_boundary :
    (Lts.replay MemoryLimiter.allow .fresh
      [⟨"k", 1, second, 0⟩, ⟨"k", 1, second, second⟩, ⟨"k", 1, second, second + 1⟩]).2.map Prod.snd =
      [(true, 0), (false, 0), (true, 0)] := by
  rw [memory_refines_cache { cacheNamespace := "vizra" } _ (by decide) (by
    intro c hc
    refine ⟨1, Nat.le_refl 1, ?_⟩
    revert c
    decide)]
  decide

end Vizra.Cache
