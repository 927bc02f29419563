import RuleBaseProxy.Lib.GoString

/-! # `encoding/base64`, the standard encoding

`DecodeString` passes over line breaks, wants the padding and accepts nothing
after it. What `EncodeToString` writes is read back.
-/

namespace Go.Base64

open Go

def alphabet : Str := str "ABCDEFGHIJKLMNOPQRSTUVWXYZabcdefghijklmnopqrstuvwxyz0123456789+/"

def pad : UInt8 := 61

def encodeDigit (n : Nat) : UInt8 := alphabet.getD n pad

def decodeDigit (b : UInt8) : Option Nat := alphabet.findIdx? (· == b)

/-- `EncodeToString`: three bytes to four digits, the last group padded. -/
def encodeToString : Str → Str
  | [] => []
  | [a] => [encodeDigit (a.toNat / 4), encodeDigit (a.toNat % 4 * 16), pad, pad]
  | [a, b] =>
      [encodeDigit (a.toNat / 4), encodeDigit (a.toNat % 4 * 16 + b.toNat / 16),
        encodeDigit (b.toNat % 16 * 4), pad]
  | a :: b :: c :: rest =>
      encodeDigit (a.toNat / 4) :: encodeDigit (a.toNat % 4 * 16 + b.toNat / 16) ::
        encodeDigit (b.toNat % 16 * 4 + c.toNat / 64) :: encodeDigit (c.toNat % 64) ::
          encodeToString rest

/-- The loop of `DecodeString`, one `decodeQuantum` after another. The bits that
padding leaves over are not looked at. -/
def decodeQuanta : Str → Option Str
  | [] => some []
  | a :: b :: c :: d :: rest =>
      (decodeDigit a).bind fun x₀ =>
        (decodeDigit b).bind fun x₁ =>
          let first := UInt8.ofNat (x₀ * 4 + x₁ / 16)
          if d = pad then
            if rest ≠ [] then none
            else if c = pad then some [first]
            else (decodeDigit c).map fun x₂ => [first, UInt8.ofNat (x₁ % 16 * 16 + x₂ / 4)]
          else
            (decodeDigit c).bind fun x₂ =>
              (decodeDigit d).bind fun x₃ =>
                (decodeQuanta rest).map fun s =>
                  first :: UInt8.ofNat (x₁ % 16 * 16 + x₂ / 4) :: UInt8.ofNat (x₂ % 4 * 64 + x₃) :: s
  | _ => none

def decodeString (s : Str) : Option Str := decodeQuanta (s.filter fun b => b ≠ 10 ∧ b ≠ 13)

/-! ## Round trip -/

theorem digit_facts : ∀ n ∈ List.range 64, decodeDigit (encodeDigit n) = some n ∧
    encodeDigit n ≠ pad ∧ encodeDigit n ≠ 10 ∧ encodeDigit n ≠ 13 := by
  decide +kernel

theorem decodeDigit_encodeDigit {n : Nat} (h : n < 64) : decodeDigit (encodeDigit n) = some n :=
  (digit_facts n (List.mem_range.mpr h)).1

theorem encodeDigit_ne_pad {n : Nat} (h : n < 64) : encodeDigit n ≠ pad :=
  (digit_facts n (List.mem_range.mpr h)).2.1

theorem encodeDigit_kept {n : Nat} (h : n < 64) :
    decide (encodeDigit n ≠ 10 ∧ encodeDigit n ≠ 13) = true :=
  decide_eq_true (digit_facts n (List.mem_range.mpr h)).2.2

theorem ofNat_eq_of_toNat {a : UInt8} {n : Nat} (h : n = a.toNat) : UInt8.ofNat n = a := by
  rw [h, UInt8.ofNat_toNat]

theorem filter_encodeToString (s : Str) :
    (encodeToString s).filter (fun b => b ≠ 10 ∧ b ≠ 13) = encodeToString s := by
  induction s using encodeToString.induct with
  | case1 => rfl
  | case2 a =>
      have ha := a.toNat_lt
      simp only [encodeToString, List.filter_cons, encodeDigit_kept (show a.toNat / 4 < 64 by omega),
        encodeDigit_kept (show a.toNat % 4 * 16 < 64 by omega), if_true]
      rfl
  | case3 a b =>
      have ha := a.toNat_lt
      have hb := b.toNat_lt
      simp only [encodeToString, List.filter_cons, encodeDigit_kept (show a.toNat / 4 < 64 by omega),
        encodeDigit_kept (show a.toNat % 4 * 16 + b.toNat / 16 < 64 by omega),
        encodeDigit_kept (show b.toNat % 16 * 4 < 64 by omega), if_true]
      rfl
  | case4 a b c rest ih =>
      have ha := a.toNat_lt
      have hb := b.toNat_lt
      have hc := c.toNat_lt
      simp only [encodeToString, List.filter_cons, encodeDigit_kept (show a.toNat / 4 < 64 by omega),
        encodeDigit_kept (show a.toNat % 4 * 16 + b.toNat / 16 < 64 by omega),
        encodeDigit_kept (show b.toNat % 16 * 4 + c.toNat / 64 < 64 by omega),
        encodeDigit_kept (show c.toNat % 64 < 64 by omega), if_true, ih]

theorem decodeQuanta_encodeToString (s : Str) : decodeQuanta (encodeToString s) = some s := by
  induction s using encodeToString.induct with
  | case1 => rfl
  | case2 a =>
      have ha := a.toNat_lt
      simp only [encodeToString, decodeQuanta,
        decodeDigit_encodeDigit (show a.toNat / 4 < 64 by omega),
        decodeDigit_encodeDigit (show a.toNat % 4 * 16 < 64 by omega), Option.bind_some, if_true,
        ne_eq, not_true_eq_false, if_false]
      rw [ofNat_eq_of_toNat (show _ = a.toNat by omega)]
  | case3 a b =>
      have ha := a.toNat_lt
      have hb := b.toNat_lt
      have hlast : b.toNat % 16 * 4 < 64 := by omega
      simp only [encodeToString, decodeQuanta,
        decodeDigit_encodeDigit (show a.toNat / 4 < 64 by omega),
        decodeDigit_encodeDigit (show a.toNat % 4 * 16 + b.toNat / 16 < 64 by omega),
        decodeDigit_encodeDigit hlast, encodeDigit_ne_pad hlast, Option.bind_some, Option.map_some,
        if_true, ne_eq, not_true_eq_false, if_false]
      rw [ofNat_eq_of_toNat (show _ = a.toNat by omega), ofNat_eq_of_toNat (show _ = b.toNat by omega)]
  | case4 a b c rest ih =>
      have ha := a.toNat_lt
      have hb := b.toNat_lt
      have hc := c.toNat_lt
      have hlast : c.toNat % 64 < 64 := by omega
      simp only [encodeToString, decodeQuanta,
        decodeDigit_encodeDigit (show a.toNat / 4 < 64 by omega),
        decodeDigit_encodeDigit (show a.toNat % 4 * 16 + b.toNat / 16 < 64 by omega),
        decodeDigit_encodeDigit (show b.toNat % 16 * 4 + c.toNat / 64 < 64 by omega),
        decodeDigit_encodeDigit hlast, encodeDigit_ne_pad hlast, Option.bind_some, Option.map_some,
        if_false, ih]
      rw [ofNat_eq_of_toNat (show _ = a.toNat by omega), ofNat_eq_of_toNat (show _ = b.toNat by omega),
        ofNat_eq_of_toNat (show _ = c.toNat by omega)]

theorem decodeString_encodeToString (s : Str) : decodeString (encodeToString s) = some s := by
  rw [decodeString, filter_encodeToString, decodeQuanta_encodeToString]

theorem encodeToString_ne_nil {s : Str} (h : s ≠ []) : encodeToString s ≠ [] := by
  intro hnil
  have hround := decodeString_encodeToString s
  rw [hnil] at hround
  cases hround
  exact h rfl

end Go.Base64
