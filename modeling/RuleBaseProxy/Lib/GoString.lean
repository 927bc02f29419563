import Mathlib.Algebra.GroupWithZero.Nat
import Mathlib.Algebra.Group.Int.Defs
import Mathlib.Data.List.Infix
import Mathlib.Data.List.DropRight
import Mathlib.Data.List.Lex

/-! # Go strings as byte lists

A Go `string` is an immutable sequence of bytes, not necessarily valid UTF-8,
and `len`, indexing and comparison work on bytes. The functions of `strings`
and `strconv` are defined here on byte lists, with the facts that let a
formatted string be taken apart again.
-/

namespace Go

abbrev Str := List UInt8

def str (s : String) : Str := s.toUTF8.data.toList

/-! ## Searching, splitting and trimming -/

/-- `strings.Split(s, sep)` for a separator of one byte. -/
def split (s : Str) (sep : UInt8) : List Str := s.splitOn sep

/-- `strings.Trim(s, cut)` for a cutset of one byte. -/
def trim (s : Str) (cut : UInt8) : Str :=
  (s.dropWhile (· == cut)).rdropWhile (· == cut)

/-- The characters of `unicode.IsSpace`, in UTF-8. -/
def spaces : List Str :=
  [[9], [10], [11], [12], [13], [32], [0xc2, 0x85], [0xc2, 0xa0], [0xe1, 0x9a, 0x80],
    [0xe2, 0x80, 0xa8], [0xe2, 0x80, 0xa9], [0xe2, 0x80, 0xaf], [0xe2, 0x81, 0x9f],
    [0xe3, 0x80, 0x80]] ++ (List.range 11).map fun i => [0xe2, 0x80, UInt8.ofNat (0x80 + i)]

/-- Take any of the units off the front, at most so often. -/
def trimUnits (units : List Str) : Nat → Str → Str
  | 0, s => s
  | n + 1, s =>
      match units.find? (·.isPrefixOf s) with
      | none => s
      | some u => trimUnits units n (s.drop u.length)

def trimSpace (s : Str) : Str :=
  let left := trimUnits spaces s.length s
  (trimUnits (spaces.map List.reverse) left.length left.reverse).reverse

def hasSuffix (s suffix : Str) : Bool := decide (suffix <:+ s)

def contains (s sub : Str) : Bool := decide (sub <:+: s)

/-- `strings.Join(parts, sep)` for a separator of one byte. -/
def join (parts : List Str) (sep : UInt8) : Str := [sep].intercalate parts

theorem split_of_not_mem {s : Str} {sep : UInt8} (h : sep ∉ s) : split s sep = [s] :=
  List.splitOn_eq_singleton h

theorem split_append_sep (s t : Str) (sep : UInt8) :
    split (s ++ sep :: t) sep = split s sep ++ split t sep :=
  List.splitOn_append_cons_self s t

theorem split_ne_nil (s : Str) (sep : UInt8) : split s sep ≠ [] := List.splitOn_ne_nil sep s

theorem one_le_length_split (s : Str) (sep : UInt8) : 1 ≤ (split s sep).length :=
  List.length_pos_of_ne_nil (split_ne_nil s sep)

theorem two_le_length_split {s : Str} {sep : UInt8} (h : sep ∈ s) : 2 ≤ (split s sep).length := by
  rcases List.append_of_mem h with ⟨a, b, rfl⟩
  rw [split_append_sep, List.length_append]
  have ha := one_le_length_split a sep
  have hb := one_le_length_split b sep
  omega

theorem split_join {parts : List Str} {sep : UInt8} (h : ∀ p ∈ parts, sep ∉ p)
    (hne : parts ≠ []) : split (join parts sep) sep = parts :=
  List.splitOn_intercalate sep h hne

theorem append_sep_left_inj {a a' b b' : Str} {c : UInt8} (ha : c ∉ a) (ha' : c ∉ a')
    (h : a ++ c :: b = a' ++ c :: b') : a = a' ∧ b = b' := by
  induction a generalizing a' with
  | nil =>
      cases a' with
      | nil => simpa using h
      | cons x a' =>
          simp only [List.nil_append, List.cons_append, List.cons.injEq] at h
          exact (ha' (h.1 ▸ List.mem_cons_self)).elim
  | cons x a ih =>
      cases a' with
      | nil =>
          simp only [List.nil_append, List.cons_append, List.cons.injEq] at h
          exact (ha (h.1 ▸ List.mem_cons_self)).elim
      | cons y a' =>
          simp only [List.cons_append, List.cons.injEq] at h
          have hx : c ∉ a := fun hm => ha (List.mem_cons_of_mem x hm)
          have hy : c ∉ a' := fun hm => ha' (List.mem_cons_of_mem y hm)
          obtain ⟨htail, hb⟩ := ih hx hy h.2
          exact ⟨by rw [h.1, htail], hb⟩

theorem append_sep_right_inj {a a' b b' : Str} {c : UInt8} (hb : c ∉ b) (hb' : c ∉ b')
    (h : a ++ c :: b = a' ++ c :: b') : a = a' ∧ b = b' := by
  have hrev : b.reverse ++ c :: a.reverse = b'.reverse ++ c :: a'.reverse := by
    simpa using congrArg List.reverse h
  obtain ⟨hbs, has⟩ := append_sep_left_inj (by simpa using hb) (by simpa using hb') hrev
  exact ⟨List.reverse_injective has, List.reverse_injective hbs⟩

/-! ## Numbers -/

/-- The digits of `n` in a base up to sixteen, as `strconv.FormatUint` writes them. -/
def formatUint (base n : Nat) : Str := (Nat.toDigits base n).map fun c => UInt8.ofNat c.toNat

/-- `strconv.Itoa`, also what `%v` prints for an `int`. -/
def itoa : Int → Str
  | .ofNat n => formatUint 10 n
  | .negSucc n => 45 :: formatUint 10 (n + 1)

/-- The value of a digit, letters of either case standing for ten to fifteen. -/
def digit? (b : UInt8) : Option Nat :=
  if 48 ≤ b.toNat ∧ b.toNat ≤ 57 then some (b.toNat - 48)
  else if 97 ≤ b.toNat ∧ b.toNat ≤ 102 then some (b.toNat - 87)
  else if 65 ≤ b.toNat ∧ b.toNat ≤ 70 then some (b.toNat - 55)
  else none

/-- Read the digits of a number onto `acc`; `none` at the first byte that is not
a digit of the base. -/
def digits? (base : Nat) : Str → Nat → Option Nat
  | [], acc => some acc
  | b :: bs, acc =>
      match digit? b with
      | none => none
      | some d => if d < base then digits? base bs (base * acc + d) else none

/-- A number without sign: at least one digit, leading zeros allowed. -/
def parseUint (base : Nat) (s : Str) : Option Nat :=
  if s = [] then none else digits? base s 0

/-- `strconv.Atoi` on a 64-bit platform: an optional sign, at least one decimal
digit and nothing else, in the range of `int`. -/
def atoi : Str → Option Int
  | 45 :: s => (parseUint 10 s).bind fun n => if n ≤ 2 ^ 63 then some (-(n : Int)) else none
  | 43 :: s => (parseUint 10 s).bind fun n => if n < 2 ^ 63 then some (n : Int) else none
  | s => (parseUint 10 s).bind fun n => if n < 2 ^ 63 then some (n : Int) else none

/-- The number that `strconv.ParseUint` returns beside its error: zero for a text
that is no number, the largest one from the digit on that leaves 64 bits. -/
def parseUintValue : Str → Nat → Nat
  | [], n => n
  | b :: s, n =>
      match digit? b with
      | none => 0
      | some d =>
          if 10 ≤ d then 0
          else if 2 ^ 64 ≤ n * 10 + d then 2 ^ 64 - 1
          else parseUintValue s (n * 10 + d)

/-- The number that `strconv.Atoi` returns, whether or not with an error. -/
def atoiValue : Str → Int
  | 45 :: s => -(min (parseUintValue s 0) (2 ^ 63) : Nat)
  | 43 :: s => (min (parseUintValue s 0) (2 ^ 63 - 1) : Nat)
  | s => (min (parseUintValue s 0) (2 ^ 63 - 1) : Nat)

theorem digits?_append (base : Nat) (s t : Str) (acc : Nat) :
    digits? base (s ++ t) acc = (digits? base s acc).bind (digits? base t) := by
  induction s generalizing acc with
  | nil => rfl
  | cons b s ih =>
      cases hd : digit? b with
      | none => simp [digits?, hd]
      | some d =>
          by_cases hlt : d < base
          · simp [digits?, hd, hlt, ih]
          · simp [digits?, hd, hlt]

theorem digit?_isSome_of_mem {base : Nat} {s : Str} {acc n : Nat}
    (h : digits? base s acc = some n) {b : UInt8} (hb : b ∈ s) : (digit? b).isSome := by
  induction s generalizing acc with
  | nil => cases hb
  | cons x s ih =>
      cases hd : digit? x with
      | none => simp [digits?, hd] at h
      | some d =>
          by_cases hlt : d < base
          · simp only [digits?, hd, hlt, ↓reduceIte] at h
            rcases List.mem_cons.mp hb with rfl | hb
            · simp [hd]
            · exact ih h hb
          · simp [digits?, hd, hlt] at h

private theorem digit?_digitChar :
    ∀ d < 16, digit? (UInt8.ofNat (Nat.digitChar d).toNat) = some d := by
  decide

theorem formatUint_ne_nil (base n : Nat) : formatUint base n ≠ [] := by
  simp [formatUint, Nat.toDigits_ne_nil]

theorem digits?_formatUint {base : Nat} (h2 : 1 < base) (h16 : base ≤ 16) (n : Nat) :
    digits? base (formatUint base n) 0 = some n := by
  induction n using Nat.strong_induction_on with
  | _ n ih =>
      have hread : ∀ d < base, ∀ acc,
          digits? base [UInt8.ofNat (Nat.digitChar d).toNat] acc = some (base * acc + d) := by
        intro d hd acc
        simp [digits?, digit?_digitChar d (by omega), hd]
      unfold formatUint
      rw [Nat.toDigits_eq_if h2]
      by_cases hn : n < base
      · rw [if_pos hn]
        simpa using hread n hn 0
      · have hdiv : n / base < n := Nat.div_lt_self (by omega) h2
        have hmod : n % base < base := Nat.mod_lt n (by omega)
        rw [if_neg hn, List.map_append, digits?_append]
        have hq := ih (n / base) hdiv
        unfold formatUint at hq
        rw [hq]
        simp only [Option.bind_some, List.map_cons, List.map_nil]
        rw [hread (n % base) hmod, Nat.div_add_mod]

theorem parseUint_formatUint {base : Nat} (h2 : 1 < base) (h16 : base ≤ 16) (n : Nat) :
    parseUint base (formatUint base n) = some n := by
  rw [parseUint, if_neg (formatUint_ne_nil base n), digits?_formatUint h2 h16]

theorem formatUint_injective {base : Nat} (h2 : 1 < base) (h16 : base ≤ 16) {n m : Nat}
    (h : formatUint base n = formatUint base m) : n = m := by
  have hn := parseUint_formatUint h2 h16 n
  rw [h, parseUint_formatUint h2 h16 m] at hn
  exact (Option.some.inj hn).symm

theorem not_mem_formatUint {base : Nat} (h2 : 1 < base) (h16 : base ≤ 16) (n : Nat) {b : UInt8}
    (hb : digit? b = none) : b ∉ formatUint base n := by
  intro hmem
  have hsome := digit?_isSome_of_mem (digits?_formatUint h2 h16 n) hmem
  simp [hb] at hsome

theorem not_mem_of_parseUint {base : Nat} {s : Str} (h : (parseUint base s).isSome) {b : UInt8}
    (hb : digit? b = none) : b ∉ s := by
  intro hmem
  unfold parseUint at h
  split at h
  · cases h
  · obtain ⟨n, hn⟩ := Option.isSome_iff_exists.mp h
    have hsome := digit?_isSome_of_mem hn hmem
    simp [hb] at hsome

theorem not_mem_of_atoi {s : Str} (h : (atoi s).isSome) {b : UInt8} (hb : digit? b = none)
    (hminus : b ≠ 45) (hplus : b ≠ 43) : b ∉ s := by
  have hdigits : ∀ {t : Str} {f : Nat → Option Int}, ((parseUint 10 t).bind f).isSome → b ∉ t :=
    fun ht => not_mem_of_parseUint (Option.isSome_of_isSome_bind ht) hb
  unfold atoi at h
  split at h
  · simpa [hminus] using hdigits h
  · simpa [hplus] using hdigits h
  · exact hdigits h

theorem itoa_injective {i j : Int} (h : itoa i = itoa j) : i = j := by
  have hdash : ∀ n, (45 : UInt8) ∉ formatUint 10 n := fun n =>
    not_mem_formatUint (by decide) (by decide) n (by decide)
  match i, j with
  | .ofNat n, .ofNat m =>
      exact congrArg Int.ofNat (formatUint_injective (by decide) (by decide) h)
  | .ofNat n, .negSucc m =>
      simp only [itoa] at h
      exact (hdash n (by rw [h]; exact List.mem_cons_self)).elim
  | .negSucc n, .ofNat m =>
      simp only [itoa] at h
      exact (hdash m (by rw [← h]; exact List.mem_cons_self)).elim
  | .negSucc n, .negSucc m =>
      simp only [itoa, List.cons.injEq, true_and] at h
      have hnm : n + 1 = m + 1 := formatUint_injective (by decide) (by decide) h
      rw [Nat.succ.inj hnm]

theorem not_mem_itoa {b : UInt8} (hb : digit? b = none) (hdash : b ≠ 45) (i : Int) :
    b ∉ itoa i := by
  cases i with
  | ofNat n => exact not_mem_formatUint (by decide) (by decide) n hb
  | negSucc n =>
      simp only [itoa, List.mem_cons, not_or]
      exact ⟨hdash, not_mem_formatUint (by decide) (by decide) (n + 1) hb⟩

theorem toNat_ofNat_bytes {n : Nat} (h : n < 2 ^ 16) :
    256 * (UInt8.ofNat (n / 256)).toNat + (UInt8.ofNat n).toNat = n := by
  rw [UInt8.toNat_ofNat', UInt8.toNat_ofNat']
  omega

/-! ## Byte order -/

/-- With this the strings are ordered byte by byte, as `bytes.Compare` does. -/
instance byteOrder : LinearOrder UInt8 where
  le_refl := UInt8.le_refl
  le_trans := fun _ _ _ => UInt8.le_trans
  le_antisymm := fun _ _ => UInt8.le_antisymm
  le_total := UInt8.le_total
  lt_iff_le_not_ge := fun _ _ => by
    rw [UInt8.not_le]
    exact ⟨fun h => ⟨UInt8.le_of_lt h, h⟩, And.right⟩
  toDecidableLE := inferInstance

/-! ## Letter case -/

def isUpper (b : UInt8) : Bool := 65 ≤ b && b ≤ 90

def isASCII (s : Str) : Bool := s.all (· < 128)

def lowerByte (b : UInt8) : UInt8 := if isUpper b then b + 32 else b

theorem isUpper_lowerByte (b : UInt8) : isUpper (lowerByte b) = false := by
  unfold lowerByte
  split
  · rename_i h
    simp only [isUpper, Bool.and_eq_true, decide_eq_true_eq, UInt8.le_iff_toNat_le] at h
    have hadd : (b + 32).toNat = b.toNat + 32 := by
      rw [UInt8.toNat_add]
      exact Nat.mod_eq_of_lt (by have := h.2; simp at this ⊢; omega)
    simp only [isUpper, Bool.and_eq_false_iff, decide_eq_false_iff_not, UInt8.le_iff_toNat_le, hadd]
    right
    have := h.1
    simp at this ⊢
    omega
  · rename_i h
    exact Bool.eq_false_iff.mpr h

theorem lowerByte_of_not_upper {b : UInt8} (h : isUpper b = false) : lowerByte b = b := by
  rw [lowerByte, h]
  rfl

theorem map_lowerByte_of_not_upper {s : Str} (h : ∀ b ∈ s, isUpper b = false) :
    s.map lowerByte = s :=
  (List.map_congr_left fun b hb => lowerByte_of_not_upper (h b hb)).trans (List.map_id' s)

/-- The Unicode case tables of the Go distribution, as far as `strings` applies
them to strings that are not plain ASCII. -/
structure Unicode where
  /-- `strings.Map(unicode.ToLower, s)`. -/
  mapLower : Str → Str
  /-- No letter has an upper-case ASCII letter as its lower case. -/
  not_upper_mapLower : ∀ s, ∀ b ∈ mapLower s, isUpper b = false
  /-- `strings.EqualFold` where one side is not ASCII. -/
  foldEq : Str → Str → Bool

def Unicode.ascii : Unicode where
  mapLower := fun s => s.map lowerByte
  not_upper_mapLower := by simp [isUpper_lowerByte]
  foldEq := fun s t => s.map lowerByte == t.map lowerByte

/-- `strings.ToLower`, with its separate path for ASCII strings. -/
def toLower (u : Unicode) (s : Str) : Str :=
  if isASCII s then s.map lowerByte else u.mapLower s

theorem not_upper_toLower (u : Unicode) (s : Str) : ∀ b ∈ toLower u s, isUpper b = false := by
  unfold toLower
  split
  · simp [isUpper_lowerByte]
  · exact u.not_upper_mapLower s

def equalFold (u : Unicode) (s t : Str) : Bool :=
  if isASCII s && isASCII t then s.map lowerByte == t.map lowerByte else u.foldEq s t

end Go
