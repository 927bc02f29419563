import RuleBaseProxy.Lib.GoString

/-! # IP addresses of the Go `net` package

Addresses are byte slices of length four or sixteen; a nil slice is `none` of
`Option IP`. An IPv4 address and its IPv4-mapped form are one address to every
function of the package: all of them look at the canonical bytes first. The
text form is proved to determine those bytes, so two addresses that print alike
cannot be told apart.
-/

namespace Go.Net

/-- A `net.IP` that is not nil. -/
structure IP where
  bytes : List UInt8
  length_bytes : bytes.length = 4 ∨ bytes.length = 16
deriving DecidableEq

theorem IP.length_of_four {b : List UInt8} (h : b.length = 4) : b.length = 4 ∨ b.length = 16 :=
  Or.inl h

theorem IP.length_of_sixteen {b : List UInt8} (h : b.length = 16) : b.length = 4 ∨ b.length = 16 :=
  Or.inr h

def IP.v4 (a b c d : UInt8) : IP := ⟨[a, b, c, d], Or.inl rfl⟩

@[simp] theorem IP.bytes_v4 (a b c d : UInt8) : (IP.v4 a b c d).bytes = [a, b, c, d] := rfl

theorem IP.eq_of_bytes_eq {a b : IP} (h : a.bytes = b.bytes) : a = b := by
  cases a
  cases b
  cases h
  rfl

def v4InV6Prefix : List UInt8 := [0, 0, 0, 0, 0, 0, 0, 0, 0, 0, 0xff, 0xff]

def IP.to4 (ip : IP) : Option (List UInt8) :=
  if ip.bytes.length = 4 then some ip.bytes
  else if ip.bytes.take 12 = v4InV6Prefix then some (ip.bytes.drop 12)
  else none

/-- Four bytes for an IPv4 address in either form, sixteen otherwise. `IP.Equal`
compares these. -/
def IP.canon (ip : IP) : List UInt8 := ip.to4.getD ip.bytes

theorem IP.length_of_to4 {ip : IP} {b : List UInt8} (h : ip.to4 = some b) : b.length = 4 := by
  unfold IP.to4 at h
  split at h
  · cases h
    assumption
  · rename_i hne
    have hlen : ip.bytes.length = 16 := ip.length_bytes.resolve_left hne
    split at h
    · cases h
      simp [hlen]
    · cases h

theorem IP.length_of_to4_eq_none {ip : IP} (h : ip.to4 = none) : ip.bytes.length = 16 := by
  refine ip.length_bytes.resolve_left fun h4 => ?_
  simp [IP.to4, h4] at h

/-! ## Text form -/

def string4 (b : List UInt8) : Str := join (b.map fun x => formatUint 10 x.toNat) 46

def groups : List UInt8 → List Nat
  | hi :: lo :: rest => (256 * hi.toNat + lo.toNat) :: groups rest
  | _ => []

/-- Start and length of the first longest run of at least two zero groups;
length zero where there is none. -/
def zeroRun (gs : List Nat) : Nat × Nat :=
  (List.range gs.length).foldl (fun best i =>
    let l := ((gs.drop i).takeWhile (· == 0)).length
    if 2 ≤ l ∧ best.2 < l then (i, l) else best) (0, 0)

/-- Hexadecimal groups with the chosen run of zeros written as two colons. -/
def string6 (gs : List Nat) : Str :=
  let hex := fun g => formatUint 16 g
  match zeroRun gs with
  | (_, 0) => join (gs.map hex) 58
  | (i, l + 1) =>
      join ((gs.take i).map hex) 58 ++ 58 :: 58 :: join ((gs.drop (i + (l + 1))).map hex) 58

def IP.string (ip : IP) : Str :=
  match ip.to4 with
  | some b => string4 b
  | none => string6 (groups ip.bytes)

/-- `IP.String` on a slice that may be nil. -/
def ipString : Option IP → Str
  | none => str "<nil>"
  | some ip => ip.string

/-! ## The text form determines the address -/

theorem mem_join {parts : List Str} {sep b : UInt8} (h : b ∈ join parts sep) :
    b = sep ∨ ∃ p ∈ parts, b ∈ p := by
  induction parts with
  | nil => simp [join] at h
  | cons p ps ih =>
      cases ps with
      | nil =>
          simp only [join, List.intercalate_singleton] at h
          exact Or.inr ⟨p, List.mem_cons_self, h⟩
      | cons q qs =>
          unfold join at h
          rw [List.intercalate_cons_of_ne_nil (by simp)] at h
          simp only [List.mem_append, List.mem_singleton] at h
          rcases h with (h | h) | h
          · exact Or.inr ⟨p, List.mem_cons_self, h⟩
          · exact Or.inl h
          · rcases ih h with h | ⟨r, hr, hb⟩
            · exact Or.inl h
            · exact Or.inr ⟨r, List.mem_cons_of_mem p hr, hb⟩

theorem sep_mem_join {p q : Str} {ps : List Str} (sep : UInt8) : sep ∈ join (p :: q :: ps) sep := by
  unfold join
  rw [List.intercalate_cons_of_ne_nil (by simp)]
  simp

theorem not_mem_decimals (b : List UInt8) {c : UInt8} (hc : digit? c = none) :
    ∀ p ∈ b.map (fun x => formatUint 10 x.toNat), c ∉ p := by
  intro p hp
  obtain ⟨x, _, rfl⟩ := List.mem_map.mp hp
  exact not_mem_formatUint (by decide) (by decide) x.toNat hc

theorem not_mem_hexes (gs : List Nat) {c : UInt8} (hc : digit? c = none) :
    ∀ p ∈ gs.map (fun g => formatUint 16 g), c ∉ p := by
  intro p hp
  obtain ⟨g, _, rfl⟩ := List.mem_map.mp hp
  exact not_mem_formatUint (by decide) (by decide) g hc

theorem not_mem_string4 (b : List UInt8) {c : UInt8} (hc : digit? c = none) (hdot : c ≠ 46) :
    c ∉ string4 b := by
  intro h
  rcases mem_join h with h | ⟨p, hp, hb⟩
  · exact hdot h
  · exact not_mem_decimals b hc p hp hb

theorem not_mem_string6 (gs : List Nat) {c : UInt8} (hc : digit? c = none) (hcolon : c ≠ 58) :
    c ∉ string6 gs := by
  have hjoin : ∀ hs : List Nat, c ∉ join (hs.map fun g => formatUint 16 g) 58 := by
    intro hs h
    rcases mem_join h with h | ⟨p, hp, hb⟩
    · exact hcolon h
    · exact not_mem_hexes hs hc p hp hb
  unfold string6
  split
  · exact hjoin gs
  · simp only [List.mem_append, List.mem_cons, not_or]
    exact ⟨hjoin _, hcolon, hcolon, hjoin _⟩

theorem string4_injective {b b' : List UInt8} (hb : b ≠ []) (hb' : b' ≠ [])
    (h : string4 b = string4 b') : b = b' := by
  have hsplit : ∀ c : List UInt8, c ≠ [] →
      split (string4 c) 46 = c.map fun x => formatUint 10 x.toNat := by
    intro c hc
    exact split_join (not_mem_decimals c (by decide)) (by simpa using hc)
  have hmap := (hsplit b hb).symm.trans ((congrArg (split · 46) h).trans (hsplit b' hb'))
  refine List.map_injective_iff.mpr ?_ hmap
  intro x y hxy
  exact UInt8.toNat_inj.mp (formatUint_injective (by decide) (by decide) hxy)

/-- The run found by the scan consists of zeros and lies inside the groups. -/
theorem zeroRun_spec (gs : List Nat) :
    gs = gs.take (zeroRun gs).1 ++ List.replicate (zeroRun gs).2 0 ++
      gs.drop ((zeroRun gs).1 + (zeroRun gs).2) ∧
    (zeroRun gs).1 + (zeroRun gs).2 ≤ gs.length := by
  have hfold : ∀ (is : List Nat) (best : Nat × Nat), (∀ i ∈ is, i < gs.length) →
      ((gs.drop best.1).take best.2 = List.replicate best.2 0 ∧ best.1 + best.2 ≤ gs.length) →
      let r := is.foldl (fun best i =>
        let l := ((gs.drop i).takeWhile (· == 0)).length
        if 2 ≤ l ∧ best.2 < l then (i, l) else best) best
      (gs.drop r.1).take r.2 = List.replicate r.2 0 ∧ r.1 + r.2 ≤ gs.length := by
    intro is
    induction is with
    | nil => intro best _ h; exact h
    | cons i is ih =>
        intro best his h
        simp only [List.foldl_cons]
        apply ih _ (fun j hj => his j (List.mem_cons_of_mem i hj))
        split
        · have hpre : (gs.drop i).takeWhile (· == 0) <+: gs.drop i := List.takeWhile_prefix _
          have hle := hpre.length_le
          rw [List.length_drop] at hle
          have hi := his i List.mem_cons_self
          refine ⟨?_, by simp only; omega⟩
          rw [← List.prefix_iff_eq_take.mp hpre]
          apply List.eq_replicate_of_mem
          intro g hg
          simpa using List.mem_takeWhile_imp hg
        · exact h
  obtain ⟨hzero, hle⟩ := hfold (List.range gs.length) (0, 0)
    (fun i hi => List.mem_range.mp hi) (by simp)
  refine ⟨?_, hle⟩
  have hz : (gs.drop (zeroRun gs).1).take (zeroRun gs).2 = List.replicate (zeroRun gs).2 0 := hzero
  rw [← hz, List.append_assoc, ← List.drop_drop, List.take_append_drop, List.take_append_drop]

/-- Read the groups back: those before the gap, the zeros it stands for, those
after it. -/
private def readGroups (s : Str) : List Nat :=
  let val := fun p => (parseUint 16 p).getD 0
  let parts := split s 58
  let left := parts.takeWhile (· ≠ [])
  let right := (parts.dropWhile (· ≠ [])).filter (· ≠ [])
  left.map val ++ List.replicate (8 - left.length - right.length) 0 ++ right.map val

private theorem map_val_hex (gs : List Nat) :
    (gs.map fun g => formatUint 16 g).map (fun p => (parseUint 16 p).getD 0) = gs := by
  rw [List.map_map]
  conv_rhs => rw [← List.map_id gs]
  apply List.map_congr_left
  intro g _
  simp [parseUint_formatUint]

private theorem hexes_ne_nil (gs : List Nat) :
    ∀ p ∈ gs.map (fun g => formatUint 16 g), decide (p ≠ []) = true := by
  intro p hp
  obtain ⟨g, _, rfl⟩ := List.mem_map.mp hp
  simp [formatUint_ne_nil]

/-- Splitting one side of the gap: an empty side still gives one empty part. -/
theorem split_join_hexes (gs : List Nat) :
    split (join (gs.map fun g => formatUint 16 g) 58) 58 =
      if gs = [] then [[]] else gs.map fun g => formatUint 16 g := by
  by_cases h : gs = []
  · subst h
    rfl
  · rw [if_neg h]
    exact split_join (not_mem_hexes gs (by decide)) (by simpa using h)

private theorem readGroups_gap (left right : List Nat) :
    readGroups (join (left.map fun g => formatUint 16 g) 58 ++
      58 :: 58 :: join (right.map fun g => formatUint 16 g) 58) =
      left ++ List.replicate (8 - left.length - right.length) 0 ++ right := by
  let hex := fun g => formatUint 16 g
  have hparts : split (join (left.map hex) 58 ++ 58 :: 58 :: join (right.map hex) 58) 58 =
      split (join (left.map hex) 58) 58 ++ [] :: split (join (right.map hex) 58) 58 := by
    rw [split_append_sep]
    exact congrArg _ (split_append_sep [] (join (right.map hex) 58) 58)
  have hright : (split (join (right.map hex) 58) 58).filter (· ≠ []) = right.map hex := by
    rw [split_join_hexes]
    split
    · rename_i h
      subst h
      rfl
    · exact List.filter_eq_self.mpr (hexes_ne_nil right)
  have hleft : (split (join (left.map hex) 58 ++ 58 :: 58 :: join (right.map hex) 58) 58).takeWhile
        (· ≠ []) = left.map hex ∧
      ((split (join (left.map hex) 58 ++ 58 :: 58 :: join (right.map hex) 58) 58).dropWhile
        (· ≠ [])).filter (· ≠ []) = right.map hex := by
    rw [hparts, split_join_hexes left]
    split
    · rename_i h
      subst h
      simpa using hright
    · rw [List.takeWhile_append_of_pos (hexes_ne_nil left),
        List.dropWhile_append_of_pos (hexes_ne_nil left)]
      exact ⟨by simp [hex], by simpa using hright⟩
  simp only [readGroups]
  rw [hleft.1, hleft.2, map_val_hex, map_val_hex]
  simp [hex]

private theorem readGroups_string6 {gs : List Nat} (h : gs.length = 8) :
    readGroups (string6 gs) = gs := by
  obtain ⟨hsplit, hle⟩ := zeroRun_spec gs
  unfold string6
  split
  · have hne : gs ≠ [] := by
      intro hnil
      simp [hnil] at h
    simp only [readGroups, split_join_hexes, if_neg hne]
    rw [List.takeWhile_eq_self_iff.mpr (hexes_ne_nil gs),
      List.dropWhile_eq_nil_iff.mpr (hexes_ne_nil gs), map_val_hex]
    simp [h]
  · rename_i i l hrun
    rw [hrun] at hsplit hle
    rw [readGroups_gap]
    conv_rhs => rw [hsplit]
    have hcount : 8 - (gs.take i).length - (gs.drop (i + (l + 1))).length = l + 1 := by
      simp only [List.length_take, List.length_drop]
      omega
    rw [hcount]

theorem length_groups : ∀ bs : List UInt8, (groups bs).length = bs.length / 2
  | [] => rfl
  | [_] => by simp [groups]
  | _ :: _ :: rest => by
      simp only [groups, List.length_cons, length_groups rest]
      omega

private theorem groups_injective : ∀ {a b : List UInt8}, a.length = b.length →
    a.length % 2 = 0 → groups a = groups b → a = b
  | [], [], _, _, _ => rfl
  | [_], _, _, heven, _ => by simp at heven
  | hi :: lo :: rest, hi' :: lo' :: rest', hlen, heven, h => by
      simp only [groups, List.cons.injEq] at h
      have hlo := lo.toNat_lt
      have hlo' := lo'.toNat_lt
      have h1 : hi = hi' := UInt8.toNat_inj.mp (by omega)
      have h2 : lo = lo' := UInt8.toNat_inj.mp (by omega)
      have htail : rest = rest' := by
        apply groups_injective _ _ h.2
        · simpa using hlen
        · simp only [List.length_cons] at heven
          omega
      rw [h1, h2, htail]

theorem colon_mem_string6 {gs : List Nat} (h : gs.length = 8) : 58 ∈ string6 gs := by
  unfold string6
  split
  · obtain ⟨a, gs, rfl⟩ := List.exists_cons_of_length_eq_add_one h
    obtain ⟨b, gs, rfl⟩ := List.exists_cons_of_length_eq_add_one (by simpa using h)
    exact sep_mem_join 58
  · simp

theorem IP.canon_eq_of_string_eq {a b : IP} (h : a.string = b.string) : a.canon = b.canon := by
  have hne : ∀ {l : List UInt8}, l.length = 4 → l ≠ [] := by
    rintro l hl rfl
    simp at hl
  have hgroups : ∀ {ip : IP}, ip.to4 = none → (groups ip.bytes).length = 8 := by
    intro ip hip
    rw [length_groups, IP.length_of_to4_eq_none hip]
  have hcross : ∀ {ip : IP} (c : List UInt8), ip.to4 = none → string4 c ≠ string6 (groups ip.bytes) := by
    intro ip c hip heq
    have hcolon := colon_mem_string6 (hgroups hip)
    rw [← heq] at hcolon
    exact not_mem_string4 c (by decide) (by decide) hcolon
  unfold IP.string at h
  unfold IP.canon
  cases ha : a.to4 with
  | some x =>
      cases hb : b.to4 with
      | some y =>
          simp only [ha, hb] at h
          exact string4_injective (hne (IP.length_of_to4 ha)) (hne (IP.length_of_to4 hb)) h
      | none =>
          simp only [ha, hb] at h
          exact (hcross x hb h).elim
  | none =>
      cases hb : b.to4 with
      | some y =>
          simp only [ha, hb] at h
          exact (hcross y ha h.symm).elim
      | none =>
          simp only [ha, hb] at h
          have hgs : groups a.bytes = groups b.bytes := by
            rw [← readGroups_string6 (hgroups ha), h, readGroups_string6 (hgroups hb)]
          have hla := IP.length_of_to4_eq_none ha
          have hlb := IP.length_of_to4_eq_none hb
          exact groups_injective (hla.trans hlb.symm) (by simp [hla]) hgs

theorem IP.not_mem_string (ip : IP) {c : UInt8} (hc : digit? c = none) (hdot : c ≠ 46)
    (hcolon : c ≠ 58) : c ∉ ip.string := by
  unfold IP.string
  split
  · exact not_mem_string4 _ hc hdot
  · exact not_mem_string6 _ hc hcolon

theorem canon_eq_of_ipString_eq {a b : Option IP} (h : ipString a = ipString b) :
    a.map IP.canon = b.map IP.canon := by
  have hnil : ∀ ip : IP, str "<nil>" ≠ ip.string := by
    intro ip heq
    have hmem : (60 : UInt8) ∈ ip.string := by
      rw [← heq]
      decide
    exact IP.not_mem_string ip (by decide) (by decide) (by decide) hmem
  cases a with
  | none =>
      cases b with
      | none => rfl
      | some y => exact (hnil y h).elim
  | some x =>
      cases b with
      | none => exact (hnil x h.symm).elim
      | some y => exact congrArg some (IP.canon_eq_of_string_eq h)

end Go.Net
