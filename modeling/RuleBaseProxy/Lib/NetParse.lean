import RuleBaseProxy.Lib.HostPort

/-! # Parsing what was printed

The parser of `netip` reads every address back that `IP.String` writes, and takes
no text with a byte that belongs to no address. For dotted decimals the converse
holds as well: what the parser takes is what would be printed.
-/

namespace Go.Net

theorem mem_split {s : Str} {sep c : UInt8} (hc : c ∈ s) (hne : c ≠ sep) :
    ∃ p ∈ split s sep, c ∈ p := by
  have hjoin : join (split s sep) sep = s := List.intercalate_splitOn sep
  rw [← hjoin] at hc
  rcases mem_join hc with heq | hpart
  · exact absurd heq hne
  · exact hpart

section MapM

variable {α : Type u} {β : Type v} {f : α → Option β} {l : List α} {bs : List β}

theorem isSome_of_mapM (h : l.mapM f = some bs) : ∀ a ∈ l, (f a).isSome := by
  induction l generalizing bs with
  | nil => simp
  | cons a l ih =>
      rw [List.mapM_cons] at h
      rcases Option.bind_eq_some_iff.mp h with ⟨b, hb, h⟩
      rcases Option.bind_eq_some_iff.mp h with ⟨bs', hbs', -⟩
      intro a' ha'
      rcases List.mem_cons.mp ha' with rfl | ha'
      · rw [hb]
        rfl
      · exact ih hbs' a' ha'

theorem eq_map_of_mapM {g : β → α} (hg : ∀ a b, f a = some b → a = g b) (h : l.mapM f = some bs) :
    l = bs.map g := by
  induction l generalizing bs with
  | nil =>
      cases h
      rfl
  | cons a l ih =>
      rw [List.mapM_cons] at h
      rcases Option.bind_eq_some_iff.mp h with ⟨b, hb, h⟩
      rcases Option.bind_eq_some_iff.mp h with ⟨bs', hbs', h⟩
      cases h
      rw [List.map_cons, ← hg a b hb, ← ih hbs']

theorem mapM_map {g : β → α} (hg : ∀ b ∈ bs, f (g b) = some b) : (bs.map g).mapM f = some bs := by
  induction bs with
  | nil => rfl
  | cons b bs ih =>
      have hb := hg b List.mem_cons_self
      have hbs := ih fun b' hb' => hg b' (List.mem_cons_of_mem b hb')
      rw [List.map_cons, List.mapM_cons, hb, hbs]
      rfl

end MapM

/-! ## Texts that are no addresses -/

theorem cutGap_eq_some {s left right : Str} (h : cutGap s = some (left, right)) :
    s = left ++ 58 :: 58 :: right := by
  fun_induction cutGap s generalizing left with
  | case1 rest =>
      cases h
      rfl
  | case2 b rest hne ih =>
      rcases Option.map_eq_some_iff.mp h with ⟨⟨left', right'⟩, hcut, ⟨⟩⟩
      rw [ih hcut]
      rfl
  | case3 => cases h

/-- The groups on one side of the gap, of which there may be none. -/
def parseSide (v4 : Bool) (s : Str) : Option (List UInt8) :=
  if s = [] then some [] else parseGroups v4 (split s 58)

theorem parseIPv6_of_cutGap {s left right : Str} (h : cutGap s = some (left, right)) :
    parseIPv6 s =
      (parseSide false left).bind fun ls =>
        (parseSide true right).bind fun rs =>
          if ls.length + rs.length < 16 then
            some (ls ++ List.replicate (16 - ls.length - rs.length) 0 ++ rs)
          else none := by
  unfold parseIPv6 parseSide
  rw [h]
  by_cases hleft : left = [] <;> by_cases hright : right = [] <;> simp [hleft, hright]

theorem eq_of_span {s addr mask : Str} {b : UInt8} (h : s.span (· ≠ 47) = (addr, b :: mask)) :
    s = addr ++ 47 :: mask ∧ 47 ∉ addr := by
  rw [List.span_eq_takeWhile_dropWhile] at h
  have haddr := (Prod.mk.inj h).1
  have hmask := (Prod.mk.inj h).2
  have hb : b = 47 := by
    have hhead := List.head?_dropWhile_not (fun x : UInt8 => decide (x ≠ 47)) s
    rw [hmask] at hhead
    simpa using hhead
  have hsplit : s.takeWhile (fun x => decide (x ≠ 47)) ++ s.dropWhile (fun x => decide (x ≠ 47)) = s :=
    List.takeWhile_append_dropWhile
  rw [haddr, hmask, hb] at hsplit
  refine ⟨hsplit.symm, fun hmem => ?_⟩
  rw [← haddr] at hmem
  simpa using List.mem_takeWhile_imp hmem

section Foreign

variable {c : UInt8} (hc : digit? c = none)

include hc

theorem not_mem_of_parseOctet {s : Str} (h : (parseOctet s).isSome) : c ∉ s := by
  unfold parseOctet at h
  split at h
  · cases h
  · exact not_mem_of_parseUint (Option.isSome_of_isSome_bind h) hc

theorem not_mem_of_parseGroup {s : Str} (h : (parseGroup s).isSome) : c ∉ s := by
  unfold parseGroup at h
  split at h
  · exact not_mem_of_parseUint (Option.isSome_map.symm.trans h) hc
  · cases h

variable (hdot : c ≠ 46)

include hdot

theorem not_mem_of_parseIPv4 {s : Str} (h : (parseIPv4 s).isSome) : c ∉ s := by
  intro hmem
  rcases Option.isSome_iff_exists.mp h with ⟨bs, hbs⟩
  simp only [parseIPv4] at hbs
  split at hbs
  · rcases mem_split hmem hdot with ⟨p, hp, hcp⟩
    exact not_mem_of_parseOctet hc (isSome_of_mapM hbs p hp) hcp
  · cases hbs

theorem not_mem_of_parseGroups {v4 : Bool} {parts : List Str} (h : (parseGroups v4 parts).isSome) :
    ∀ p ∈ parts, c ∉ p := by
  induction parts with
  | nil => simp
  | cons part rest ih =>
      cases rest with
      | nil =>
          intro p hp
          rw [List.mem_singleton.mp hp]
          simp only [parseGroups] at h
          split at h
          · exact not_mem_of_parseIPv4 hc hdot h
          · exact not_mem_of_parseGroup hc h
      | cons next rest =>
          rcases Option.isSome_iff_exists.mp h with ⟨bs, hbs⟩
          rcases Option.bind_eq_some_iff.mp hbs with ⟨first, hfirst, hbs⟩
          rcases Option.bind_eq_some_iff.mp hbs with ⟨others, hothers, -⟩
          intro p hp
          rcases List.mem_cons.mp hp with rfl | hp
          · exact not_mem_of_parseGroup hc (by rw [hfirst]; rfl)
          · exact ih (by rw [hothers]; rfl) p hp

variable (hcolon : c ≠ 58)

include hcolon

theorem not_mem_of_split_groups {v4 : Bool} {s : Str}
    (h : (parseGroups v4 (split s 58)).isSome) : c ∉ s := by
  intro hmem
  rcases mem_split hmem hcolon with ⟨p, hp, hcp⟩
  exact not_mem_of_parseGroups hc hdot h p hp hcp

theorem not_mem_of_parseSide {v4 : Bool} {s : Str} {bs : List UInt8}
    (h : parseSide v4 s = some bs) : c ∉ s := by
  unfold parseSide at h
  split at h
  · rename_i hnil
    rw [hnil]
    exact List.not_mem_nil
  · exact not_mem_of_split_groups hc hdot hcolon (by rw [h]; rfl)

theorem not_mem_of_parseIPv6 {s : Str} (h : (parseIPv6 s).isSome) : c ∉ s := by
  rcases Option.isSome_iff_exists.mp h with ⟨bs, hbs⟩
  cases hcut : cutGap s with
  | none =>
      simp only [parseIPv6, hcut] at hbs
      rcases Option.bind_eq_some_iff.mp hbs with ⟨gs, hgs, -⟩
      exact not_mem_of_split_groups hc hdot hcolon (by rw [hgs]; rfl)
  | some sides =>
      obtain ⟨left, right⟩ := sides
      rw [parseIPv6_of_cutGap hcut] at hbs
      rcases Option.bind_eq_some_iff.mp hbs with ⟨ls, hls, hbs⟩
      rcases Option.bind_eq_some_iff.mp hbs with ⟨rs, hrs, -⟩
      have hleft := not_mem_of_parseSide hc hdot hcolon hls
      have hright := not_mem_of_parseSide hc hdot hcolon hrs
      rw [cutGap_eq_some hcut]
      simp [hleft, hright, hcolon]

theorem parseAddr_eq_none_of_mem {s : Str} (h : c ∈ s) : parseAddr s = none := by
  have hv4 : parseIPv4 s = none := by
    by_contra hne
    exact not_mem_of_parseIPv4 hc hdot (Option.isSome_iff_ne_none.mpr hne) h
  have hv6 : parseIPv6 s = none := by
    by_contra hne
    exact not_mem_of_parseIPv6 hc hdot hcolon (Option.isSome_iff_ne_none.mpr hne) h
  simp only [parseAddr, hv4, hv6, Option.bind_none]
  split <;> rfl

theorem parseCIDR_eq_none_of_mem (hslash : c ≠ 47) {s : Str} (h : c ∈ s) : parseCIDR s = none := by
  by_contra hne
  rcases Option.ne_none_iff_exists'.mp hne with ⟨n, hn⟩
  unfold parseCIDR at hn
  split at hn
  · rename_i addr b mask hspan
    rcases Option.bind_eq_some_iff.mp hn with ⟨ip, hip, hn⟩
    rcases Option.bind_eq_some_iff.mp hn with ⟨ones, hones, -⟩
    have haddr : c ∉ addr := by
      intro hmem
      rw [parseAddr_eq_none_of_mem hc hdot hcolon hmem] at hip
      cases hip
    have hmask : c ∉ mask := not_mem_of_parseUint (by rw [hones]; rfl) hc
    rw [(eq_of_span hspan).1] at h
    simp [haddr, hmask, hslash] at h
  · cases hn

end Foreign

/-! ## Dotted decimals -/

theorem parseOctet_formatUint (x : UInt8) : parseOctet (formatUint 10 x.toNat) = some x := by
  have hall : ∀ n < 256, parseOctet (formatUint 10 n) = some (UInt8.ofNat n) := by decide +kernel
  rw [hall x.toNat x.toNat_lt, UInt8.ofNat_toNat]

theorem parseIPv4_string4 {b : List UInt8} (h : b.length = 4) : parseIPv4 (string4 b) = some b := by
  have hsplit : split (string4 b) 46 = b.map fun x => formatUint 10 x.toNat := by
    apply split_join (not_mem_decimals b (by decide))
    intro hnil
    rw [List.map_eq_nil_iff.mp hnil] at h
    cases h
  simp only [parseIPv4, hsplit, List.length_map, if_pos h]
  exact mapM_map fun x _ => parseOctet_formatUint x

/-! ## Decimals without leading zeros -/

theorem formatUint_of_lt {n : Nat} (h : n < 10) :
    formatUint 10 n = [UInt8.ofNat (Nat.digitChar n).toNat] := by
  rw [formatUint, Nat.toDigits_eq_if (by decide), if_pos h]
  rfl

theorem formatUint_append_digit {n d : Nat} (hn : 0 < n) (hd : d < 10) :
    formatUint 10 (10 * n + d) = formatUint 10 n ++ [UInt8.ofNat (Nat.digitChar d).toNat] := by
  have hdiv : (10 * n + d) / 10 = n := by omega
  have hmod : (10 * n + d) % 10 = d := by omega
  rw [formatUint, Nat.toDigits_eq_if (by decide), if_neg (by omega), hdiv, hmod, List.map_append]
  rfl

theorem eq_digitChar {b : UInt8} {d : Nat} (h : digit? b = some d) (hd : d < 10) :
    b = UInt8.ofNat (Nat.digitChar d).toNat := by
  have hchar : ∀ d < 10, (Nat.digitChar d).toNat = d + 48 := by decide
  have hb : b.toNat = d + 48 := by
    unfold digit? at h
    split_ifs at h with hdigit hlower hupper
    · have := Option.some.inj h
      omega
    · have := Option.some.inj h
      omega
    · have := Option.some.inj h
      omega
  rw [hchar d hd, ← hb, UInt8.ofNat_toNat]

theorem digits?_singleton {b : UInt8} {acc n : Nat} (h : digits? 10 [b] acc = some n) :
    ∃ d, digit? b = some d ∧ d < 10 ∧ n = 10 * acc + d := by
  unfold digits? at h
  split at h
  · cases h
  · rename_i d hd
    split at h
    · rename_i hlt
      exact ⟨d, hd, hlt, (Option.some.inj h).symm⟩
    · cases h

/-- A decimal without leading zeros is the one that is printed. -/
theorem eq_formatUint_of_digits? {s : Str} {n : Nat} (hne : s ≠ []) (h : digits? 10 s 0 = some n)
    (hzero : 1 < s.length → s.head? ≠ some 48) : s = formatUint 10 n := by
  induction s using List.reverseRecOn generalizing n with
  | nil => exact absurd rfl hne
  | append_singleton t b ih =>
      rw [digits?_append] at h
      rcases Option.bind_eq_some_iff.mp h with ⟨m, hm, hb⟩
      rcases digits?_singleton hb with ⟨d, hd, hlt, rfl⟩
      by_cases ht : t = []
      · subst ht
        cases hm
        rw [Nat.mul_zero, Nat.zero_add, formatUint_of_lt hlt, List.nil_append, eq_digitChar hd hlt]
      · have hhead : t.head? ≠ some 48 := by
          have hlen := List.length_pos_of_ne_nil ht
          have hfirst := hzero (by rw [List.length_append, List.length_singleton]; omega)
          rwa [List.head?_append_of_ne_nil t ht] at hfirst
        have hformat := ih ht hm fun _ => hhead
        have hpos : 0 < m := by
          rcases Nat.eq_zero_or_pos m with hm0 | hm0
          · subst hm0
            rw [hformat] at hhead
            exact absurd rfl hhead
          · exact hm0
        rw [formatUint_append_digit hpos hlt, ← hformat, eq_digitChar hd hlt]

theorem eq_formatUint_of_parseOctet {s : Str} {x : UInt8} (h : parseOctet s = some x) :
    s = formatUint 10 x.toNat := by
  unfold parseOctet at h
  split at h
  · cases h
  rename_i hzero
  rcases Option.bind_eq_some_iff.mp h with ⟨n, hn, hx⟩
  rcases Option.ite_none_right_eq_some.mp hx with ⟨hlt, ⟨⟩⟩
  unfold parseUint at hn
  rcases Option.ite_none_left_eq_some.mp hn with ⟨hne, hdigits⟩
  have hnat : (UInt8.ofNat n).toNat = n := by simpa using Nat.mod_eq_of_lt hlt
  rw [hnat]
  exact eq_formatUint_of_digits? hne hdigits fun hlen hhead => hzero ⟨hlen, hhead⟩

/-- The parser takes a dotted decimal only as it is printed. -/
theorem eq_string4_of_parseIPv4 {s : Str} {b : List UInt8} (h : parseIPv4 s = some b) :
    s = string4 b := by
  simp only [parseIPv4] at h
  split at h
  · have hparts : split s 46 = b.map fun x => formatUint 10 x.toNat :=
      eq_map_of_mapM (fun _ _ => eq_formatUint_of_parseOctet) h
    have hjoin : join (split s 46) 46 = s := List.intercalate_splitOn 46
    rw [string4, ← hparts, hjoin]
  · cases h

theorem length_of_parseIPv4 {s : Str} {b : List UInt8} (h : parseIPv4 s = some b) : b.length = 4 := by
  simp only [parseIPv4] at h
  split at h
  · rename_i hparts
    rw [eq_map_of_mapM (fun _ _ => eq_formatUint_of_parseOctet) h, List.length_map] at hparts
    exact hparts
  · cases h

/-! ## Groups of hexadecimals -/

def groupBytes (g : Nat) : List UInt8 := [UInt8.ofNat (g / 256), UInt8.ofNat (g % 256)]

theorem parseGroup_formatUint {g : Nat} (h : g < 2 ^ 16) :
    parseGroup (formatUint 16 g) = some (groupBytes g) := by
  have hlen : (formatUint 16 g).length ≤ 4 := by
    rw [formatUint, List.length_map]
    exact (Nat.length_toDigits_le_iff (by decide) (by decide)).mpr (by omega)
  rw [parseGroup, if_pos hlen, parseUint_formatUint (by decide) (by decide)]
  rfl

theorem parseGroups_hexes (v4 : Bool) {gs : List Nat} (h : ∀ g ∈ gs, g < 2 ^ 16) :
    parseGroups v4 (gs.map fun g => formatUint 16 g) = some (gs.flatMap groupBytes) := by
  induction gs with
  | nil => rfl
  | cons g gs ih =>
      have hg := parseGroup_formatUint (h g List.mem_cons_self)
      have hgs := ih fun g' hg' => h g' (List.mem_cons_of_mem g hg')
      cases gs with
      | nil =>
          have hdot : (46 : UInt8) ∉ formatUint 16 g :=
            not_mem_formatUint (by decide) (by decide) g (by decide)
          simp [parseGroups, hdot, hg]
      | cons g' gs =>
          rw [List.map_cons, List.map_cons, parseGroups, hg, ← List.map_cons, hgs]
          · rfl
          · simp

theorem groups_lt (bs : List UInt8) : ∀ g ∈ groups bs, g < 2 ^ 16 := by
  fun_induction groups bs with
  | case1 hi lo rest ih =>
      intro g hg
      rcases List.mem_cons.mp hg with rfl | hg
      · have := hi.toNat_lt
        have := lo.toNat_lt
        omega
      · exact ih g hg
  | case2 => simp

theorem flatMap_groups {bs : List UInt8} (h : bs.length % 2 = 0) :
    (groups bs).flatMap groupBytes = bs := by
  fun_induction groups bs with
  | case1 hi lo rest ih =>
      have hlo := lo.toNat_lt
      have hdiv : (256 * hi.toNat + lo.toNat) / 256 = hi.toNat := by omega
      have hmod : (256 * hi.toNat + lo.toNat) % 256 = lo.toNat := by omega
      have hrest := ih (by simp only [List.length_cons] at h; omega)
      rw [List.flatMap_cons, hrest, groupBytes, hdiv, hmod, UInt8.ofNat_toNat, UInt8.ofNat_toNat]
      rfl
  | case2 bs hshort =>
      match bs with
      | [] => rfl
      | [b] => simp at h
      | b :: b' :: rest => exact absurd rfl (hshort b b' rest)

theorem length_flatMap_groupBytes (gs : List Nat) :
    (gs.flatMap groupBytes).length = 2 * gs.length := by
  induction gs with
  | nil => rfl
  | cons g gs ih =>
      simp only [List.flatMap_cons, List.length_append, List.length_cons, ih, groupBytes,
        List.length_nil]
      omega

theorem flatMap_replicate_zero (n : Nat) :
    (List.replicate n 0).flatMap groupBytes = List.replicate (2 * n) 0 := by
  induction n with
  | zero => rfl
  | succ n ih =>
      rw [List.replicate_succ, List.flatMap_cons, ih, Nat.mul_succ, Nat.add_comm (2 * n) 2,
        ← List.replicate_append_replicate]
      rfl

/-! ## The gap -/

theorem cutGap_append {p : Str} (h : 58 ∉ p) (s : Str) :
    cutGap (p ++ s) = (cutGap s).map fun sides => (p ++ sides.1, sides.2) := by
  induction p with
  | nil => simp
  | cons b p ih =>
      have hb : b ≠ 58 := fun heq => h (heq ▸ List.mem_cons_self)
      have hp : 58 ∉ p := fun hmem => h (List.mem_cons_of_mem b hmem)
      rw [List.cons_append, cutGap, ih hp, Option.map_map]
      · rfl
      · exact fun _ heq _ => hb heq

theorem cutGap_colon {b : UInt8} (h : b ≠ 58) (s : Str) :
    cutGap (58 :: b :: s) = (cutGap (b :: s)).map fun sides => (58 :: sides.1, sides.2) := by
  rw [cutGap]
  exact fun _ _ heq => h (List.cons.inj heq).1

/-- There is no gap in parts joined by colons, if none of them is empty. -/
theorem cutGap_join {parts : List Str} (hne : ∀ p ∈ parts, p ≠ []) (hcolon : ∀ p ∈ parts, 58 ∉ p)
    (s : Str) :
    cutGap (join parts 58 ++ s) =
      (cutGap s).map fun sides => (join parts 58 ++ sides.1, sides.2) := by
  induction parts with
  | nil => simp [join]
  | cons p parts ih =>
      have hp := hcolon p List.mem_cons_self
      have hrest := ih (fun q hq => hne q (List.mem_cons_of_mem p hq))
        fun q hq => hcolon q (List.mem_cons_of_mem p hq)
      cases parts with
      | nil => simpa [join] using cutGap_append hp s
      | cons q parts =>
          obtain ⟨b, q', rfl⟩ := List.exists_cons_of_ne_nil (hne q (by simp))
          have hb : b ≠ 58 := fun heq => hcolon (b :: q') (by simp) (heq ▸ List.mem_cons_self)
          have hjoin : join (p :: (b :: q') :: parts) 58 = p ++ 58 :: join ((b :: q') :: parts) 58 := by
            rw [join, List.intercalate_cons_of_ne_nil (by simp)]
            simp [join]
          obtain ⟨t, ht⟩ : ∃ t, join ((b :: q') :: parts) 58 = b :: t := by
            cases parts with
            | nil => exact ⟨q', by simp [join]⟩
            | cons r parts => exact ⟨_, by rw [join, List.intercalate_cons_of_ne_nil (by simp)]; rfl⟩
          rw [hjoin, List.append_assoc, cutGap_append hp, List.cons_append, ht, List.cons_append,
            cutGap_colon hb, ← List.cons_append, ← ht, hrest, Option.map_map, Option.map_map]
          simp [Function.comp_def]

theorem cutGap_hexes (gs : List Nat) (s : Str) :
    cutGap (join (gs.map fun g => formatUint 16 g) 58 ++ s) =
      (cutGap s).map fun sides => (join (gs.map fun g => formatUint 16 g) 58 ++ sides.1, sides.2) := by
  refine cutGap_join ?_ (not_mem_hexes gs (by decide)) s
  intro p hp
  rcases List.mem_map.mp hp with ⟨g, -, rfl⟩
  exact formatUint_ne_nil 16 g

theorem parseSide_hexes (v4 : Bool) {gs : List Nat} (h : ∀ g ∈ gs, g < 2 ^ 16) :
    parseSide v4 (join (gs.map fun g => formatUint 16 g) 58) = some (gs.flatMap groupBytes) := by
  unfold parseSide
  rw [split_join_hexes]
  by_cases hnil : gs = []
  · subst hnil
    rfl
  · have hne : join (gs.map fun g => formatUint 16 g) 58 ≠ [] := by
      intro hjoin
      have hsplit := split_join_hexes gs
      rw [hjoin, if_neg hnil] at hsplit
      have hmem : ([] : Str) ∈ gs.map fun g => formatUint 16 g := by
        rw [← hsplit]
        exact List.mem_singleton.mpr rfl
      rcases List.mem_map.mp hmem with ⟨g, -, hg⟩
      exact formatUint_ne_nil 16 g hg
    rw [if_neg hne, if_neg hnil, parseGroups_hexes v4 h]

theorem parseIPv6_string6 {bs : List UInt8} (h : bs.length = 16) :
    parseIPv6 (string6 (groups bs)) = some bs := by
  have hlen : (groups bs).length = 8 := by rw [length_groups, h]
  have hbytes : (groups bs).flatMap groupBytes = bs := flatMap_groups (by omega)
  have hlt := groups_lt bs
  rcases zeroRun_spec (groups bs) with ⟨hsplit, hle⟩
  unfold string6
  split
  · have hcut : cutGap (join ((groups bs).map fun g => formatUint 16 g) 58) = none := by
      have hgap := cutGap_hexes (groups bs) []
      rwa [List.append_nil] at hgap
    have hne : groups bs ≠ [] := by
      intro hnil
      rw [hnil] at hlen
      cases hlen
    simp only [parseIPv6, hcut]
    rw [split_join_hexes, if_neg hne, parseGroups_hexes true hlt, hbytes]
    exact if_pos h
  · rename_i i l hrun
    rw [hrun] at hsplit hle
    have hcut := cutGap_hexes ((groups bs).take i)
      (58 :: 58 :: join (((groups bs).drop (i + (l + 1))).map fun g => formatUint 16 g) 58)
    have hleft := parseSide_hexes false fun g (hg : g ∈ (groups bs).take i) =>
      hlt g (List.mem_of_mem_take hg)
    have hright := parseSide_hexes true fun g (hg : g ∈ (groups bs).drop (i + (l + 1))) =>
      hlt g (List.mem_of_mem_drop hg)
    rw [cutGap, Option.map_some, List.append_nil] at hcut
    rw [parseIPv6_of_cutGap hcut, hleft, Option.bind_some, hright, Option.bind_some,
      length_flatMap_groupBytes, length_flatMap_groupBytes, List.length_take, List.length_drop]
    have hzeros : 16 - 2 * min i (groups bs).length - 2 * ((groups bs).length - (i + (l + 1))) =
        2 * (l + 1) := by omega
    rw [if_pos (by omega), hzeros, ← flatMap_replicate_zero, ← List.flatMap_append,
      ← List.flatMap_append, ← hsplit, hbytes]

/-! ## Addresses -/

theorem find_separator {s : Str} {c : UInt8} (hc : c = 46 ∨ c = 58) (hmem : c ∈ s)
    (hother : ∀ b ∈ s, b = 46 ∨ b = 58 → b = c) :
    s.find? (fun b => b == 46 || b == 58) = some c := by
  cases hfind : s.find? (fun b => b == 46 || b == 58) with
  | none =>
      have hnone := List.find?_eq_none.mp hfind c hmem
      simp [hc] at hnone
  | some b =>
      have hb : b = 46 ∨ b = 58 := by simpa using List.find?_some hfind
      rw [hother b (List.mem_of_find?_eq_some hfind) hb]

theorem IP.length_canon (ip : IP) : ip.canon.length = 4 ∨ ip.canon.length = 16 := by
  unfold IP.canon
  cases h : ip.to4 with
  | some b => exact Or.inl (IP.length_of_to4 h)
  | none => exact Or.inr (IP.length_of_to4_eq_none h)

/-- What is printed is read back, in the shorter of its two forms. -/
theorem parseAddr_string (ip : IP) : parseAddr ip.string = some ⟨ip.canon, ip.length_canon⟩ := by
  cases h : ip.to4 with
  | some b =>
      have hlen := IP.length_of_to4 h
      have hstring : ip.string = string4 b := by simp only [IP.string, h]
      have hcanon : ip.canon = b := by simp only [IP.canon, h, Option.getD_some]
      have hdot : 46 ∈ string4 b := by
        rcases b with - | ⟨w, - | ⟨x, rest⟩⟩
        · cases hlen
        · cases hlen
        · exact sep_mem_join 46
      have hfind := find_separator (Or.inl rfl) hdot fun c hc hsep => by
        refine hsep.resolve_right fun hcolon => ?_
        exact not_mem_string4 b (by decide) (by decide) (hcolon ▸ hc)
      simp only [parseAddr, hstring, hfind, parseIPv4_string4 hlen, Option.bind_some, hlen, hcanon,
        true_or, dite_true]
  | none =>
      have hlen := IP.length_of_to4_eq_none h
      have hstring : ip.string = string6 (groups ip.bytes) := by simp only [IP.string, h]
      have hcanon : ip.canon = ip.bytes := by simp only [IP.canon, h, Option.getD_none]
      have hcolon : 58 ∈ string6 (groups ip.bytes) :=
        colon_mem_string6 (by rw [length_groups, hlen])
      have hfind := find_separator (Or.inr rfl) hcolon fun c hc hsep => by
        refine hsep.resolve_left fun hdot => ?_
        exact not_mem_string6 _ (by decide) (by decide) (hdot ▸ hc)
      simp only [parseAddr, hstring, hfind, parseIPv6_string6 hlen, Option.bind_some, hlen, hcanon,
        or_true, dite_true]
      rfl

theorem IP.to4_to16 (ip : IP) : ip.to16.to4 = ip.to4 := by
  unfold IP.to16
  split
  · rename_i h
    have hlen : (v4InV6Prefix ++ ip.bytes).length = 16 := by
      rw [List.length_append, h]
      rfl
    have htake : (v4InV6Prefix ++ ip.bytes).take 12 = v4InV6Prefix := rfl
    have hdrop : (v4InV6Prefix ++ ip.bytes).drop 12 = ip.bytes := rfl
    simp only [IP.to4, hlen, htake, hdrop, h, if_true]
    rfl
  · rfl

theorem IP.to4_canon (ip : IP) : IP.to4 ⟨ip.canon, ip.length_canon⟩ = ip.to4 := by
  cases h : ip.to4 with
  | some b =>
      have hcanon : ip.canon = b := by simp only [IP.canon, h, Option.getD_some]
      simp only [hcanon, IP.to4, IP.length_of_to4 h, if_true]
  | none =>
      have hcanon : ip.canon = ip.bytes := by simp only [IP.canon, h, Option.getD_none]
      simp only [hcanon, h]

/-- `net.ParseIP` reads the printed address as one with the same IPv4 form. -/
theorem parseIP_string (ip : IP) :
    ∃ ip', parseIP ip.string = some ip' ∧ ip'.to4 = ip.to4 ∧ (ip.to4 = none → ip'.bytes = ip.bytes) := by
  refine ⟨_, by rw [parseIP, parseAddr_string]; rfl, ?_, fun h => ?_⟩
  · rw [IP.to4_to16, IP.to4_canon]
  · have hcanon : ip.canon = ip.bytes := by simp only [IP.canon, h, Option.getD_none]
    have hlen : ¬ ip.bytes.length = 4 := by
      rw [IP.length_of_to4_eq_none h]
      decide
    simp only [IP.to16, hcanon, hlen, dite_false]

/-! ## Networks -/

theorem drop_maskBytes (n k : Nat) (bs : List UInt8) :
    (maskBytes n bs).drop k = maskBytes (n - 8 * k) (bs.drop k) := by
  induction k generalizing n bs with
  | zero => rfl
  | succ k ih =>
      cases bs with
      | nil => rfl
      | cons b bs =>
          rw [maskBytes, List.drop_succ_cons, List.drop_succ_cons, ih]
          congr 1
          omega

theorem parseCIDR_eq_some {s : Str} {n : IPNet} (h : parseCIDR s = some n) :
    ∃ bs : List UInt8, n.ip.bytes = maskBytes n.ones bs ∧ n.ones ≤ 8 * n.ip.bytes.length := by
  unfold parseCIDR at h
  split at h
  · rcases Option.bind_eq_some_iff.mp h with ⟨ip, -, h⟩
    rcases Option.bind_eq_some_iff.mp h with ⟨ones, -, h⟩
    rcases Option.ite_none_right_eq_some.mp h with ⟨hle, ⟨⟩⟩
    exact ⟨ip.bytes, rfl, by rw [length_maskBytes]; exact hle⟩
  · cases h

theorem IPNet.numberAndMask_of_to4 {n : IPNet} {b : List UInt8} (h : n.ip.to4 = some b) :
    n.numberAndMask =
      (⟨b, Or.inl (IP.length_of_to4 h)⟩, if n.ip.bytes.length = 4 then n.ones else n.ones - 96) := by
  unfold IPNet.numberAndMask
  split
  · rename_i b' h'
    cases h'.symm.trans h
    rfl
  · rename_i h'
    cases h'.symm.trans h

def IPNet.ones4 (n : IPNet) : Nat := if n.ip.bytes.length = 4 then n.ones else n.ones - 96

/-- The number is masked already, in both forms of an IPv4 network. -/
theorem IPNet.masked_of_to4 {s : Str} {n : IPNet} {b : List UInt8} (h : parseCIDR s = some n)
    (hb : n.ip.to4 = some b) : maskBytes n.ones4 b = b ∧ n.ones4 ≤ 8 * 4 := by
  rcases parseCIDR_eq_some h with ⟨bs, hbytes, hle⟩
  unfold IP.to4 at hb
  unfold IPNet.ones4
  split at hb
  · rename_i h4
    cases hb
    rw [if_pos h4]
    refine ⟨?_, by omega⟩
    conv_lhs => rw [hbytes]
    rw [maskBytes_maskBytes, hbytes]
  · rename_i h4
    have h16 := n.ip.length_bytes.resolve_left h4
    split at hb
    · cases hb
      rw [if_neg h4]
      refine ⟨?_, by omega⟩
      rw [hbytes, drop_maskBytes, maskBytes_maskBytes]
    · cases hb

theorem span_slash {addr : Str} (h : 47 ∉ addr) (mask : Str) :
    (addr ++ 47 :: mask).span (· ≠ 47) = (addr, 47 :: mask) := by
  have hkeep : ∀ c ∈ addr, decide (c ≠ 47) = true := fun c hc => by
    simpa using fun heq : c = 47 => h (heq ▸ hc)
  rw [List.span_eq_takeWhile_dropWhile, List.takeWhile_append_of_pos hkeep,
    List.dropWhile_append_of_pos hkeep]
  simp

/-- A network of IPv4 addresses is printed as one, whichever way it was written, and read back. -/
theorem parseCIDR_string {s : Str} {n : IPNet} (h : parseCIDR s = some n) (hv4 : n.ip.to4.isSome) :
    ∃ n', parseCIDR n.string = some n' ∧ n'.string = n.string := by
  rcases Option.isSome_iff_exists.mp hv4 with ⟨b, hb⟩
  have hlen := IP.length_of_to4 hb
  have hmask := IPNet.masked_of_to4 h hb
  have hto4 : IP.to4 ⟨b, Or.inl hlen⟩ = some b := by simp only [IP.to4, hlen, if_true]
  have hcanon : IP.canon ⟨b, Or.inl hlen⟩ = b := by simp only [IP.canon, hto4, Option.getD_some]
  have hstring : n.string = IP.string ⟨b, Or.inl hlen⟩ ++ 47 :: formatUint 10 n.ones4 := by
    simp only [IPNet.string, IPNet.numberAndMask_of_to4 hb]
    rfl
  have hslash : (47 : UInt8) ∉ IP.string ⟨b, Or.inl hlen⟩ :=
    IP.not_mem_string _ (by decide) (by decide) (by decide)
  refine ⟨⟨⟨b, Or.inl hlen⟩, n.ones4⟩, ?_, ?_⟩
  · unfold parseCIDR
    rw [hstring, span_slash hslash]
    simp only [parseAddr_string, hcanon, parseUint_formatUint (by decide : 1 < 10) (by decide : 10 ≤ 16),
      Option.bind_eq_bind, Option.bind_some, hlen, hmask.2, if_true, hmask.1]
  · have hnumber : IPNet.numberAndMask ⟨⟨b, Or.inl hlen⟩, n.ones4⟩ = (⟨b, Or.inl hlen⟩, n.ones4) :=
      (IPNet.numberAndMask_of_to4 (n := ⟨⟨b, Or.inl hlen⟩, n.ones4⟩) hto4).trans (by rw [if_pos hlen])
    rw [hstring]
    simp only [IPNet.string, hnumber]

/-! ## Colons -/

theorem IPNet.string_of_to4 {n : IPNet} {b : List UInt8} (h : n.ip.to4 = some b) :
    n.string = string4 b ++ 47 :: formatUint 10 n.ones4 := by
  have hlen := IP.length_of_to4 h
  have hstring : IP.string ⟨b, Or.inl hlen⟩ = string4 b := by
    rw [IP.string, IP.to4, if_pos hlen]
  simp only [IPNet.string, IPNet.numberAndMask_of_to4 h, hstring]
  rfl

/-- The networks that are printed with colons are those of IPv6. -/
theorem IPNet.colon_mem_string_iff (n : IPNet) : 58 ∈ n.string ↔ n.ip.to4 = none := by
  cases h : n.ip.to4 with
  | some b =>
      refine iff_of_false (fun hmem => ?_) nofun
      rw [IPNet.string_of_to4 h] at hmem
      rcases List.mem_append.mp hmem with hmem | hmem
      · exact not_mem_string4 b (by decide) (by decide) hmem
      · rcases List.mem_cons.mp hmem with hmem | hmem
        · cases hmem
        · exact not_mem_formatUint (by decide) (by decide) _ (by decide) hmem
  | none =>
      refine iff_of_true ?_ rfl
      have hgroups : (groups n.ip.bytes).length = 8 := by
        rw [length_groups, IP.length_of_to4_eq_none h]
      have hnumber : n.numberAndMask = (n.ip, n.ones) := by
        unfold IPNet.numberAndMask
        split
        · rename_i b hb
          rw [h] at hb
          cases hb
        · rfl
      have hstring : n.ip.string = string6 (groups n.ip.bytes) := by rw [IP.string, h]
      simp only [IPNet.string, hnumber, hstring]
      exact List.mem_append_left _ (colon_mem_string6 hgroups)

theorem length_of_parseAddr {s : Str} {ip : IP} (h : parseAddr s = some ip) (hcolon : 58 ∉ s) :
    ip.bytes.length = 4 := by
  unfold parseAddr at h
  split at h
  · rcases Option.bind_eq_some_iff.mp h with ⟨bs, hbs, hip⟩
    split at hip
    · cases hip
      exact length_of_parseIPv4 hbs
    · cases hip
  · rename_i c hdot hfind
    have hc := List.find?_some hfind
    have hmem := List.mem_of_find?_eq_some hfind
    have hsep : c = 46 ∨ c = 58 := by simpa using hc
    rcases hsep with rfl | rfl
    · exact (hdot rfl).elim
    · exact absurd hmem hcolon
  · cases h

/-- What is read from a text without colons is printed without colons. -/
theorem parseCIDR_not_mem_colon {s : Str} {n : IPNet} (h : parseCIDR s = some n) (hcolon : 58 ∉ s) :
    58 ∉ n.string := by
  rw [IPNet.colon_mem_string_iff]
  intro hto4
  have hlen := IP.length_of_to4_eq_none hto4
  unfold parseCIDR at h
  split at h
  · rename_i addr b mask hspan
    rcases Option.bind_eq_some_iff.mp h with ⟨ip, hip, h⟩
    rcases Option.bind_eq_some_iff.mp h with ⟨ones, -, h⟩
    rcases Option.ite_none_right_eq_some.mp h with ⟨-, ⟨⟩⟩
    have haddr : 58 ∉ addr := by
      intro hmem
      rw [(eq_of_span hspan).1] at hcolon
      exact hcolon (List.mem_append_left _ hmem)
    rw [length_maskBytes, length_of_parseAddr hip haddr] at hlen
    cases hlen
  · cases h

end Go.Net
