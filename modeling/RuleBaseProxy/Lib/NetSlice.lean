import RuleBaseProxy.Lib.NetIP

/-! # Addresses as byte slices

`net.IP` as its type has it: a slice of any length, nil and empty alike. Slices
that are no address have a text form as well; two slices with one text form are
equal in the sense of `IP.Equal`.
-/

namespace Go.Net

/-- `net.IP`. The empty list stands for nil and for an empty slice. -/
abbrev IPSlice := List UInt8

namespace IPSlice

def hexDigit (n : Nat) : UInt8 := UInt8.ofNat (if n < 10 then 48 + n else 87 + n)

def hexString : IPSlice → Str
  | [] => []
  | b :: bs => hexDigit (b.toNat / 16) :: hexDigit (b.toNat % 16) :: hexString bs

def string (s : IPSlice) : Str :=
  if s = [] then str "<nil>"
  else if h : s.length = 4 ∨ s.length = 16 then (IP.mk s h).string
  else 63 :: hexString s

def equal (a b : IPSlice) : Bool :=
  if a.length = b.length then a == b
  else if a.length = 4 ∧ b.length = 16 then b.take 12 == v4InV6Prefix && a == b.drop 12
  else if a.length = 16 ∧ b.length = 4 then a.take 12 == v4InV6Prefix && a.drop 12 == b
  else false

/-! ## The three kinds of slices -/

theorem string_cases (s : IPSlice) :
    s = [] ∧ s.string = str "<nil>" ∨ (∃ ip : IP, ip.bytes = s ∧ s.string = ip.string) ∨
      s.string = 63 :: hexString s := by
  unfold string
  by_cases hnil : s = []
  · exact Or.inl ⟨hnil, if_pos hnil⟩
  · rw [if_neg hnil]
    by_cases hlen : s.length = 4 ∨ s.length = 16
    · exact Or.inr (Or.inl ⟨⟨s, hlen⟩, rfl, dif_pos hlen⟩)
    · exact Or.inr (Or.inr (dif_neg hlen))

theorem string_ip (ip : IP) : string ip.bytes = ip.string := by
  have hnil : ip.bytes ≠ [] := by
    intro h
    have hlen := ip.length_bytes
    simp [h] at hlen
  rw [string, if_neg hnil, dif_pos ip.length_bytes]

theorem digit?_hexDigit : ∀ n < 16, digit? (hexDigit n) = some n := by
  decide

theorem hexDigit_inj {n n' : Nat} (hn : n < 16) (hn' : n' < 16) (h : hexDigit n = hexDigit n') :
    n = n' := by
  have hdigit := congrArg digit? h
  rw [digit?_hexDigit n hn, digit?_hexDigit n' hn'] at hdigit
  exact Option.some.inj hdigit

theorem hexString_inj : ∀ {a b : IPSlice}, hexString a = hexString b → a = b
  | [], [], _ => rfl
  | x :: a, y :: b, h => by
      simp only [hexString, List.cons.injEq] at h
      have hx := x.toNat_lt
      have hy := y.toNat_lt
      have hhigh : x.toNat / 16 = y.toNat / 16 := hexDigit_inj (by omega) (by omega) h.1
      have hlow : x.toNat % 16 = y.toNat % 16 := hexDigit_inj (by omega) (by omega) h.2.1
      have hxy : x = y := UInt8.toNat_inj.mp (by omega)
      rw [hxy, hexString_inj h.2.2]

theorem not_mem_hexString {c : UInt8} (hc : digit? c = none) : ∀ s : IPSlice, c ∉ hexString s
  | [] => List.not_mem_nil
  | b :: bs => by
      have hdigit : ∀ n < 16, c ≠ hexDigit n := by
        intro n hn heq
        rw [heq, digit?_hexDigit n hn] at hc
        cases hc
      have hb := b.toNat_lt
      have hhigh := hdigit (b.toNat / 16) (by omega)
      have hlow := hdigit (b.toNat % 16) (by omega)
      simp [hexString, hhigh, hlow, not_mem_hexString hc bs]

theorem not_mem_string (s : IPSlice) {c : UInt8} (hc : digit? c = none) (hdot : c ≠ 46)
    (hcolon : c ≠ 58) (hmark : c ≠ 63) (hnil : c ∉ str "<nil>") : c ∉ s.string := by
  rcases string_cases s with ⟨-, hs⟩ | ⟨ip, -, hs⟩ | hs
  · rw [hs]
    exact hnil
  · rw [hs]
    exact IP.not_mem_string ip hc hdot hcolon
  · rw [hs]
    simp [hmark, not_mem_hexString hc s]

/-! ## The text form determines the slice -/

theorem equal_self (s : IPSlice) : equal s s = true := by
  simp [equal]

theorem canon_of_four {ip : IP} (h : ip.bytes.length = 4) : ip.canon = ip.bytes := by
  rw [IP.canon, IP.to4, if_pos h, Option.getD_some]

theorem canon_of_sixteen {ip : IP} (h : ip.bytes.length = 16) :
    ip.bytes.take 12 = v4InV6Prefix ∧ ip.canon = ip.bytes.drop 12 ∨ ip.canon = ip.bytes := by
  rw [IP.canon, IP.to4, if_neg (by omega)]
  by_cases hpre : ip.bytes.take 12 = v4InV6Prefix
  · exact Or.inl ⟨hpre, by rw [if_pos hpre, Option.getD_some]⟩
  · exact Or.inr (by rw [if_neg hpre, Option.getD_none])

theorem equal_of_canon_eq {a b : IP} (h : a.canon = b.canon) : equal a.bytes b.bytes = true := by
  have hlen := congrArg List.length h
  rcases a.length_bytes with ha | ha
  · rcases b.length_bytes with hb | hb
    · rw [canon_of_four ha, canon_of_four hb] at h
      rw [h]
      exact equal_self _
    · rcases canon_of_sixteen hb with ⟨hpre, hcanon⟩ | hcanon
      · rw [canon_of_four ha, hcanon] at h
        simp [equal, hb, hpre, h]
      · rw [canon_of_four ha, hcanon] at hlen
        omega
  · rcases b.length_bytes with hb | hb
    · rcases canon_of_sixteen ha with ⟨hpre, hcanon⟩ | hcanon
      · rw [canon_of_four hb, hcanon] at h
        simp [equal, ha, hpre, ← h]
      · rw [canon_of_four hb, hcanon] at hlen
        omega
    · have hbytes : a.bytes = b.bytes := by
        rcases canon_of_sixteen ha with ⟨hpre, hcanon⟩ | hcanon <;>
          rcases canon_of_sixteen hb with ⟨hpre', hcanon'⟩ | hcanon' <;> rw [hcanon, hcanon'] at h hlen
        · rw [← List.take_append_drop 12 a.bytes, hpre, h, ← hpre', List.take_append_drop]
        · rw [List.length_drop] at hlen
          omega
        · rw [List.length_drop] at hlen
          omega
        · exact h
      rw [hbytes]
      exact equal_self _

theorem equal_of_string_eq {a b : IPSlice} (h : a.string = b.string) : equal a b = true := by
  have hmark : ∀ ip : IP, (63 : UInt8) ∉ ip.string := fun ip =>
    IP.not_mem_string ip (by decide) (by decide) (by decide)
  have hangle : ∀ ip : IP, (60 : UInt8) ∉ ip.string := fun ip =>
    IP.not_mem_string ip (by decide) (by decide) (by decide)
  have hnil : str "<nil>" = 60 :: str "nil>" := by decide
  rcases string_cases a with ⟨ha, hsa⟩ | ⟨ip, ha, hsa⟩ | hsa <;>
    rcases string_cases b with ⟨hb, hsb⟩ | ⟨ip', hb, hsb⟩ | hsb <;> rw [hsa, hsb] at h
  · rw [ha, hb]
    exact equal_self _
  · exact absurd (by rw [← h, hnil]; exact List.mem_cons_self) (hangle ip')
  · cases hnil.symm.trans h
  · exact absurd (by rw [h, hnil]; exact List.mem_cons_self) (hangle ip)
  · rw [← ha, ← hb]
    exact equal_of_canon_eq (IP.canon_eq_of_string_eq h)
  · exact absurd (by rw [h]; exact List.mem_cons_self) (hmark ip)
  · cases h.trans hnil
  · exact absurd (by rw [← h]; exact List.mem_cons_self) (hmark ip')
  · rw [hexString_inj (List.cons.inj h).2]
    exact equal_self _

end IPSlice

end Go.Net
