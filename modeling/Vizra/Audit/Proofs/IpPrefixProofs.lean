import Vizra.Audit.Audit

/-!
# Proofs: the address prefix of an audit row

`IPPrefix` checks what it has made against the grammar of the column, so the column takes every result. The text of a
masked address passes that check for every IPv4 address and for every IPv6 address with a group left, and it is
canonical: addresses share it exactly if they share the network.
-/

namespace Vizra.Audit

open Netip Regex

/-- An address, already unmapped, that has a prefix. -/
def Groupable : Addr → Prop
  | .v4 bits => bits >>> 24 ≠ 127#32 ∧ bits ≠ 0
  | .v6 bits _ => bits >>> 64 ≠ 0

/-- One family, and the same `/24` or `/64`. -/
def SameNetwork : Addr → Addr → Prop
  | .v4 x, .v4 y => x >>> 8 = y >>> 8
  | .v6 x _, .v6 y _ => x >>> 64 = y >>> 64
  | _, _ => False

/-! ## The grammar -/

theorem octet_accepts : ∀ n < 256, octet.accepts (Nat.toDigits 10 n) = true := by decide +kernel

theorem ipv4PrefixRe_accepts (bits : BitVec 32) :
    ipv4PrefixRe.accepts ((Addr.v4 bits).prefixText 24).toList = true := by
  have hlt := bits.isLt
  have hoctet : ∀ n < 256, Nat.toDigits 10 n ++ ['.'] ∈ (octet.seq (.char '.')).lang := by
    intro n hn
    exact Rx.mem_lang_seq.mpr ⟨_, _, rfl, Rx.accepts_iff.mp (octet_accepts n hn), Rx.mem_lang_char.mpr rfl⟩
  have hoctets := Rx.flatten_mem_lang_pow (List.forall_mem_cons.mpr ⟨hoctet (bits.toNat / 2 ^ 24) (by omega),
    List.forall_mem_cons.mpr ⟨hoctet (bits.toNat / 2 ^ 16 % 2 ^ 8) (by omega),
      List.forall_mem_singleton.mpr (hoctet (bits.toNat / 2 ^ 8 % 2 ^ 8) (by omega))⟩⟩)
  have hend : "0/24".toList ∈ ((Rx.char '0').seq (.opt (.text "/24".toList))).lang :=
    Rx.accepts_iff.mp (by decide +kernel)
  rw [Rx.accepts_iff, Addr.toList_prefixText, Addr.text_masked_v4]
  refine Rx.mem_lang_seq.mpr ⟨_, _, ?_, hoctets, hend⟩
  have hzero : Nat.toDigits 10 0 = ['0'] := rfl
  have hwidth : Nat.toDigits 10 24 = "24".toList := rfl
  simp [List.intercalate, List.intersperse, hzero, hwidth]

theorem group_mem {n : Nat} (h : n < 2 ^ 16) : Nat.toDigits 16 n ∈ (Rx.between (.cls isHexDigit) 1 4).lang := by
  have hhex : ∀ d < 16, isHexDigit d.digitChar = true := by decide
  refine Rx.mem_lang_between_cls ?_ Nat.length_toDigits_pos ?_
  · intro c hc
    obtain ⟨d, hd, rfl⟩ := Addr.mem_toDigits (by decide) hc
    exact hhex d hd
  · exact (Nat.length_toDigits_le_iff (by decide) (by decide)).mpr h

theorem colons_cons (g : Nat) (gs : List Nat) :
    Addr.colons (g :: gs) = Nat.toDigits 16 g ++ (gs.map fun n => ':' :: Nat.toDigits 16 n).flatten := by
  unfold Addr.colons
  induction gs generalizing g with
  | nil => simp [List.intercalate]
  | cons g' gs ih =>
    have htail := ih g'
    simp only [List.intercalate, List.map_cons, List.intersperse_cons_cons, List.flatten_cons] at htail ⊢
    rw [htail]
    simp

theorem lt_of_mem_upper (bits : BitVec 128) : ∀ g ∈ Addr.upper bits, g < 2 ^ 16 := by
  have hlt := bits.isLt
  simp only [Addr.upper, List.forall_mem_cons, List.not_mem_nil, false_imp_iff, implies_true, and_true]
  omega

theorem ipv6PrefixRe_accepts_iff (bits : BitVec 128) (zone : String) :
    ipv6PrefixRe.accepts ((Addr.v6 bits zone).prefixText 64).toList = true ↔
      (Addr.upper bits).rdropWhile (· == 0) ≠ [] := by
  rw [Addr.toList_prefixText, Addr.text_masked_v6]
  have hwithin : ∀ g ∈ (Addr.upper bits).rdropWhile (· == 0), g < 2 ^ 16 := fun g hg =>
    lt_of_mem_upper bits g ((List.rdropWhile_prefix _ _).subset hg)
  have hlength : ((Addr.upper bits).rdropWhile (· == 0)).length ≤ 4 := (List.rdropWhile_prefix _ _).length_le
  cases hgroups : (Addr.upper bits).rdropWhile (· == 0) with
  | nil =>
    have hrefused : ipv6PrefixRe.accepts "::/64".toList = false := by decide +kernel
    refine iff_of_false ?_ (fun h => h rfl)
    intro haccepts
    exact absurd (hrefused.symm.trans haccepts) (by decide)
  | cons g gs =>
    rw [hgroups] at hwithin hlength
    rw [List.forall_mem_cons] at hwithin
    have hmore : ∀ w ∈ gs.map fun n => ':' :: Nat.toDigits 16 n,
        w ∈ ((Rx.char ':').seq (.between (.cls isHexDigit) 1 4)).lang := by
      intro w hw
      obtain ⟨n, hn, rfl⟩ := List.mem_map.mp hw
      exact Rx.mem_lang_seq.mpr ⟨[':'], _, rfl, Rx.mem_lang_char.mpr rfl, group_mem (hwithin.2 n hn)⟩
    have hcount : (gs.map fun n => ':' :: Nat.toDigits 16 n).length ≤ 3 := by
      rw [List.length_cons] at hlength
      rw [List.length_map]
      omega
    have hrest := Rx.flatten_mem_lang_upTo hmore hcount
    have hend : "::/64".toList ∈ ((Rx.text "::".toList).seq (.opt ((Rx.char '/').seq
        (.alt (.text "48".toList) (.text "64".toList))))).lang := Rx.accepts_iff.mp (by decide +kernel)
    refine iff_of_true ?_ (List.cons_ne_nil _ _)
    rw [Rx.accepts_iff, colons_cons]
    refine Rx.mem_lang_seq.mpr ⟨_, _, ?_, group_mem hwithin.1, Rx.mem_lang_seq.mpr ⟨_, _, rfl, hrest, hend⟩⟩
    have hwidth : Nat.toDigits 10 64 = "64".toList := rfl
    simp [hwidth]

theorem rdropWhile_upper_ne_nil {bits : BitVec 128} :
    (Addr.upper bits).rdropWhile (· == 0) ≠ [] ↔ bits >>> 64 ≠ 0 := by
  refine not_congr ?_
  have hzero : (0 : BitVec 128) >>> 64 = 0 := rfl
  rw [List.rdropWhile_eq_nil_iff, ← hzero, ← Addr.upper_inj]
  constructor
  · intro hnil
    have hall : ∀ g ∈ Addr.upper bits, g = 0 := fun g hg => by simpa using hnil g hg
    exact List.eq_replicate_of_mem hall
  · intro hupper g hg
    rw [hupper] at hg
    simp_all [Addr.upper]

/-! ## Results -/

section

variable {net : Parsers} {s : String} {addr : Addr}

theorem zone_of_ipPrefix {text : String} (haddr : addrOf net s = some addr) (h : ipPrefix net s = some text) :
    addr.zone = "" := by
  by_contra hzone
  rw [ipPrefix, haddr, Option.bind_some, if_pos hzone] at h
  cases h

theorem ipPrefix_v4 {bits : BitVec 32} (haddr : addrOf net s = some addr) (hzone : addr.zone = "")
    (hunmap : addr.unmap = .v4 bits) :
    ipPrefix net s =
      if bits >>> 24 ≠ 127#32 ∧ bits ≠ 0 then some ((Addr.v4 bits).prefixText 24) else none := by
  have hloop : (Addr.v4 bits).isLoopback = (bits >>> 24 == 127#32) := rfl
  have hzero : (Addr.v4 bits).isUnspecified = (bits == 0) := by
    rw [Bool.eq_iff_iff]
    simp [Addr.isUnspecified]
  unfold ipPrefix
  rw [haddr, Option.bind_some, if_neg (not_not.mpr hzone), hunmap]
  simp only [Addr.is4, if_true, hloop, hzero, ipv4PrefixRe_accepts]
  by_cases h127 : bits >>> 24 = 127#32 <;> by_cases h0 : bits = 0 <;> simp [h127, h0]

theorem ipPrefix_v6 {bits : BitVec 128} {zone : String} (haddr : addrOf net s = some addr) (hzone : addr.zone = "")
    (hunmap : addr.unmap = .v6 bits zone) :
    ipPrefix net s = if bits >>> 64 ≠ 0 then some ((Addr.v6 bits zone).prefixText 64) else none := by
  have hmapped : (Addr.v6 bits zone).is4In6 = false := by
    cases addr with
    | v4 x => cases hunmap
    | v6 x z =>
      unfold Addr.unmap at hunmap
      split_ifs at hunmap with hmapped
      cases hunmap
      exact Bool.eq_false_of_not_eq_true hmapped
  have hloop : (Addr.v6 bits zone).isLoopback = (bits == 1#128) := by
    simp [Addr.isLoopback, Addr.unmap, hmapped]
  have hzero : (Addr.v6 bits zone).isUnspecified = true → bits = 0 := by
    intro h
    simp only [Addr.isUnspecified, Bool.or_eq_true, beq_iff_eq, reduceCtorEq, false_or, Addr.v6.injEq] at h
    exact h.1
  unfold ipPrefix
  rw [haddr, Option.bind_some, if_neg (not_not.mpr hzone), hunmap]
  simp only [Addr.is4, Bool.false_eq_true, if_false, ipv6PrefixRe_accepts_iff, rdropWhile_upper_ne_nil, hloop]
  by_cases hupper : bits >>> 64 ≠ 0
  · have hone : bits ≠ 1#128 := by
      rintro rfl
      exact hupper rfl
    have hspecified : (Addr.v6 bits zone).isUnspecified = false := by
      refine Bool.eq_false_of_not_eq_true fun h => hupper ?_
      rw [hzero h]
      rfl
    simp [hone, hspecified]
  · rw [if_neg hupper, ite_self]

/-- A result comes from an address that has a prefix, and is the text of that prefix. -/
theorem ipPrefix_eq_some {text : String} (haddr : addrOf net s = some addr) (h : ipPrefix net s = some text) :
    Groupable addr.unmap ∧ text = addr.unmap.prefixText (if addr.unmap.is4 then 24 else 64) := by
  have hzone := zone_of_ipPrefix haddr h
  cases hunmap : addr.unmap with
  | v4 bits =>
    rw [ipPrefix_v4 haddr hzone hunmap, Option.ite_none_right_eq_some] at h
    exact ⟨h.1, (Option.some.inj h.2).symm⟩
  | v6 bits zone =>
    rw [ipPrefix_v6 haddr hzone hunmap, Option.ite_none_right_eq_some] at h
    exact ⟨h.1, (Option.some.inj h.2).symm⟩

theorem valid_of_ipPrefix {text : String} (h : ipPrefix net s = some text) : valid text = true := by
  obtain ⟨addr, haddr, -⟩ := Option.bind_eq_some_iff.mp h
  obtain ⟨hgroupable, rfl⟩ := ipPrefix_eq_some haddr h
  unfold valid
  rw [Bool.or_eq_true]
  cases hunmap : addr.unmap with
  | v4 bits => exact Or.inl (ipv4PrefixRe_accepts bits)
  | v6 bits zone =>
    rw [hunmap] at hgroupable
    exact Or.inr ((ipv6PrefixRe_accepts_iff bits zone).mpr (rdropWhile_upper_ne_nil.mpr hgroupable))

theorem isSome_ipPrefix (haddr : addrOf net s = some addr) (hzone : addr.zone = "")
    (hgroupable : Groupable addr.unmap) : (ipPrefix net s).isSome = true := by
  cases hunmap : addr.unmap with
  | v4 bits =>
    rw [hunmap] at hgroupable
    unfold Groupable at hgroupable
    rw [ipPrefix_v4 haddr hzone hunmap, if_pos hgroupable, Option.isSome_some]
  | v6 bits zone =>
    rw [hunmap] at hgroupable
    unfold Groupable at hgroupable
    rw [ipPrefix_v6 haddr hzone hunmap, if_pos hgroupable, Option.isSome_some]

theorem prefixText_eq_iff {a b : Addr} (ha : Groupable a) (hb : Groupable b) :
    a.prefixText (if a.is4 then 24 else 64) = b.prefixText (if b.is4 then 24 else 64) ↔ SameNetwork a b := by
  cases a with
  | v4 x =>
    cases b with
    | v4 y => exact Addr.prefixText_v4_inj
    | v6 y z => exact iff_of_false (Addr.prefixText_ne _ _) id
  | v6 x z =>
    cases b with
    | v4 y => exact iff_of_false (Addr.prefixText_ne _ _).symm id
    | v6 y z' => exact Addr.prefixText_v6_inj (rdropWhile_upper_ne_nil.mpr ha) (rdropWhile_upper_ne_nil.mpr hb)

end

/-- What `IPPrefix` returns for a remote address always passes the constraint of the column. It is a text for every
unzoned address that has a prefix, and two texts are the same exactly for addresses of one network. -/
theorem ipPrefix_exact (net : Parsers) :
    (∀ (s : String) (e : Event), Constraint.audit_events_ip_prefix_shape.holds { e with ipPrefix := ipPrefix net s } = true) ∧
      (∀ s addr, addrOf net s = some addr → addr.zone = "" → Groupable addr.unmap →
        (ipPrefix net s).isSome = true) ∧
      ∀ s t a b x y, addrOf net s = some a → addrOf net t = some b → ipPrefix net s = some x →
        ipPrefix net t = some y → (x = y ↔ SameNetwork a.unmap b.unmap) := by
  refine ⟨?_, fun s addr => isSome_ipPrefix, ?_⟩
  · intro s e
    unfold Constraint.holds
    dsimp only
    rw [Option.all_eq_true]
    exact fun text => valid_of_ipPrefix
  · intro s t a b x y ha hb hx hy
    obtain ⟨hga, rfl⟩ := ipPrefix_eq_some ha hx
    obtain ⟨hgb, rfl⟩ := ipPrefix_eq_some hb hy
    exact prefixText_eq_iff hga hgb

/-- Parsers that know a host, and the same network written as IPv6. -/
def sampleParsers : Parsers where
  splitHostPort s := if s = "203.0.113.42:51000" then some "203.0.113.42" else none
  parseAddr s :=
    if s = "203.0.113.42" then some (.v4 0xCB00712A#32)
    else if s = "::ffff:203.0.113.9" then some (.v6 0xFFFFCB007109#128 "")
    else none

theorem ipPrefix_exact_mapped :
    (ipPrefix sampleParsers "203.0.113.42:51000").isSome = true ∧
      ("203.0.113.0/24" = "203.0.113.0/24" ↔ SameNetwork (.v4 0xCB00712A#32) (.v4 0xCB007109#32)) := by
  obtain ⟨-, hsome, hsame⟩ := ipPrefix_exact sampleParsers
  refine ⟨hsome _ (.v4 0xCB00712A#32) (by decide) rfl ⟨by decide, by decide⟩, ?_⟩
  exact hsame "203.0.113.42:51000" "::ffff:203.0.113.9" (.v4 0xCB00712A#32) (.v6 0xFFFFCB007109#128 "") _ _
    (by decide) (by decide) (by decide +kernel) (by decide +kernel)

end Vizra.Audit
