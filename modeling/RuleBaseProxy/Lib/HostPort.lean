import RuleBaseProxy.Lib.NetCIDR

/-! # Host and port in one string

`net.JoinHostPort` and `net.SplitHostPort`, with what becomes of a host that
goes through both, and `net.ParseIP`.
-/

namespace Go.Net

def IP.to16 (ip : IP) : IP :=
  if h : ip.bytes.length = 4 then
    ⟨v4InV6Prefix ++ ip.bytes, Or.inr (by rw [List.length_append, h]; rfl)⟩
  else ip

/-- `net.ParseIP`, which returns IPv4 addresses in their mapped form. -/
def parseIP (s : Str) : Option IP := (parseAddr s).map IP.to16

def indexByte (s : Str) (b : UInt8) : Option Nat := s.idxOf? b

def lastIndexByte (s : Str) (b : UInt8) : Option Nat :=
  (s.reverse.idxOf? b).map (s.length - 1 - ·)

def joinHostPort (host port : Str) : Str :=
  if 58 ∈ host then 91 :: host ++ 93 :: 58 :: port else host ++ 58 :: port

/-- The port is what follows the last colon. A host in brackets ends at the first
`]`, which must stand right before that colon; one without may hold no colon.
Beyond that there is no bracket. -/
def splitHostPort (hostport : Str) : Option (Str × Str) :=
  (lastIndexByte hostport 58).bind fun i =>
    if hostport.head? = some 91 then
      (indexByte hostport 93).bind fun e =>
        if e + 1 ≠ i then none
        else if 91 ∈ hostport.drop 1 ∨ 93 ∈ hostport.drop (e + 1) then none
        else some ((hostport.take e).drop 1, hostport.drop (i + 1))
    else if 58 ∈ hostport.take i then none
    else if 91 ∈ hostport ∨ 93 ∈ hostport then none
    else some (hostport.take i, hostport.drop (i + 1))

/-- The host that `splitHostPort` finds where `joinHostPort` was given `host`: the
same if it has no brackets. One that is itself in brackets loses them, unless
`joinHostPort` has put it in brackets again. -/
def rejoinedHost (host : Str) : Option Str :=
  if 91 ∉ host ∧ 93 ∉ host then some host
  else if 58 ∉ host ∧ host.head? = some 91 ∧ 91 ∉ host.drop 1 ∧
      indexByte host 93 = some (host.length - 1) then
    some (host.dropLast.drop 1)
  else none

/-! ## Positions -/

theorem indexByte_append_of_not_mem {a : Str} {b : UInt8} (h : b ∉ a) (c : Str) :
    indexByte (a ++ b :: c) b = some a.length := by
  induction a with
  | nil => simp [indexByte, List.idxOf?_cons]
  | cons x a ih =>
      have hx : (x == b) = false := by
        simpa using fun heq : x = b => h (heq ▸ List.mem_cons_self)
      have ih := ih fun hm => h (List.mem_cons_of_mem x hm)
      unfold indexByte at ih ⊢
      simp [List.idxOf?_cons, hx, ih]

theorem indexByte_append_of_mem {a : Str} {b : UInt8} (h : b ∈ a) (c : Str) :
    indexByte (a ++ c) b = indexByte a b := by
  induction a with
  | nil => cases h
  | cons x a ih =>
      unfold indexByte at ih ⊢
      by_cases hx : x = b
      · simp [List.idxOf?_cons, hx]
      · have hmem : b ∈ a := (List.mem_cons.mp h).resolve_left (Ne.symm hx)
        simp [List.idxOf?_cons, hx, ih hmem]

theorem indexByte_lt {s : Str} {b : UInt8} {i : Nat} (h : indexByte s b = some i) :
    i < s.length :=
  (List.findIdx?_eq_some_iff_getElem.mp h).1

theorem indexByte_eq_none {s : Str} {b : UInt8} (h : b ∉ s) : indexByte s b = none :=
  List.idxOf?_eq_none_iff.mpr h

theorem lastIndexByte_append {a c : Str} {b : UInt8} (h : b ∉ c) :
    lastIndexByte (a ++ b :: c) b = some a.length := by
  have hrev : (a ++ b :: c).reverse = c.reverse ++ b :: a.reverse := by simp
  have hidx := indexByte_append_of_not_mem (a := c.reverse) (by simpa using h) a.reverse
  unfold lastIndexByte
  unfold indexByte at hidx
  rw [hrev, hidx]
  simp only [Option.map_some, List.length_append, List.length_cons, List.length_reverse,
    Option.some.injEq]
  omega

/-! ## Splitting what was joined -/

section SplitJoin

variable {host port : Str}

private theorem split_bracketed (hcolon : 58 ∉ port) (hclose : 93 ∉ port) (hopen : 91 ∉ port) :
    splitHostPort (91 :: host ++ 93 :: 58 :: port) =
      if 91 ∉ host ∧ 93 ∉ host then some (host, port) else none := by
  have hlast : lastIndexByte (91 :: host ++ 93 :: 58 :: port) 58 = some (host.length + 2) := by
    have hs : 91 :: host ++ 93 :: 58 :: port = (91 :: host ++ [93]) ++ 58 :: port := by simp
    rw [hs, lastIndexByte_append hcolon]
    simp
  unfold splitHostPort
  rw [hlast]
  simp only [Option.bind_some, List.cons_append, List.head?_cons, if_true]
  by_cases hmem : 93 ∈ host
  · have hindex : indexByte (91 :: (host ++ 93 :: 58 :: port)) 93 = indexByte (91 :: host) 93 :=
      indexByte_append_of_mem (List.mem_cons_of_mem _ hmem) _
    rw [hindex, if_neg (fun h => h.2 hmem)]
    cases he : indexByte (91 :: host) 93 with
    | none => rfl
    | some e =>
        have hlt := indexByte_lt he
        simp only [List.length_cons] at hlt
        exact if_pos (by omega)
  · have hnot : (93 : UInt8) ∉ 91 :: host := by simpa using hmem
    have hindex : indexByte (91 :: (host ++ 93 :: 58 :: port)) 93 = some (host.length + 1) :=
      indexByte_append_of_not_mem hnot _
    rw [hindex]
    have htake : (host ++ 93 :: 58 :: port).take host.length = host := List.take_left
    have hdrop : (host ++ 93 :: 58 :: port).drop (host.length + 1) = 58 :: port := by simp
    have hdrop' : (host ++ 93 :: 58 :: port).drop (host.length + 2) = port := by simp
    by_cases hmem' : 91 ∈ host
    · simp [hmem']
    · simp [hmem, hmem', hopen, hclose, hdrop, htake, hdrop']

private theorem split_opened {rest : Str} (hcolon : 58 ∉ port) (hclose : 93 ∉ port)
    (hopen : 91 ∉ port) (hhost : 58 ∉ 91 :: rest) :
    splitHostPort (91 :: rest ++ 58 :: port) = (rejoinedHost (91 :: rest)).map (·, port) := by
  have hsplit : splitHostPort (91 :: rest ++ 58 :: port) =
      (indexByte (91 :: rest ++ 58 :: port) 93).bind fun e =>
        if e + 1 ≠ (91 :: rest).length then none
        else if 91 ∈ rest ++ 58 :: port ∨ 93 ∈ (91 :: rest ++ 58 :: port).drop (e + 1) then none
        else some (((91 :: rest ++ 58 :: port).take e).drop 1,
          (91 :: rest ++ 58 :: port).drop ((91 :: rest).length + 1)) := by
    unfold splitHostPort
    rw [lastIndexByte_append hcolon]
    rfl
  unfold rejoinedHost
  rw [hsplit, if_neg (fun h => h.1 List.mem_cons_self)]
  by_cases hmem : 93 ∈ 91 :: rest
  · rw [indexByte_append_of_mem hmem]
    cases he : indexByte (91 :: rest) 93 with
    | none => simp
    | some e =>
        have hlt := indexByte_lt he
        by_cases hend : e + 1 = (91 :: rest).length
        · have hlast : e = (91 :: rest).length - 1 := by omega
          have htail : (91 :: rest ++ 58 :: port).drop (e + 1) = 58 :: port := by
            rw [hend]
            exact List.drop_left
          have hbody : (91 :: rest ++ 58 :: port).take e = (91 :: rest).dropLast := by
            rw [List.take_append_of_le_length (by omega), List.dropLast_eq_take, hlast]
          have hport : (91 :: rest ++ 58 :: port).drop ((91 :: rest).length + 1) = port := by
            simp
          rw [Option.bind_some, if_neg (not_not.mpr hend), htail, hbody, hport]
          by_cases hmem' : 91 ∈ rest
          · simp [hmem']
          · rw [if_neg (by simp [hmem', hopen, hclose]),
              if_pos ⟨hhost, rfl, hmem', by rw [hlast]⟩]
            rfl
        · rw [Option.bind_some, if_pos hend, if_neg]
          · rfl
          · intro h
            have hindex := Option.some.inj h.2.2.2
            omega
  · have hnone : indexByte (91 :: rest ++ 58 :: port) 93 = none := by
      apply indexByte_eq_none
      simp only [List.mem_append, List.mem_cons, not_or] at hmem ⊢
      exact ⟨hmem, by decide, hclose⟩
    rw [hnone, indexByte_eq_none hmem]
    simp

private theorem split_plain (hcolon : 58 ∉ port) (hclose : 93 ∉ port) (hopen : 91 ∉ port)
    (hhost : 58 ∉ host) (hhead : host.head? ≠ some 91) :
    splitHostPort (host ++ 58 :: port) = (rejoinedHost host).map (·, port) := by
  have hhead' : (host ++ 58 :: port).head? ≠ some 91 := by
    cases host with
    | nil => simp
    | cons x host => simpa using hhead
  have htake : (host ++ 58 :: port).take host.length = host := List.take_left
  have hdrop : (host ++ 58 :: port).drop (host.length + 1) = port := by simp
  unfold splitHostPort rejoinedHost
  rw [lastIndexByte_append hcolon, Option.bind_some, if_neg hhead', htake, if_neg hhost, hdrop]
  by_cases hplain : 91 ∉ host ∧ 93 ∉ host
  · simp [hplain.1, hplain.2, hopen, hclose]
  · have hbracket : 91 ∈ host ++ 58 :: port ∨ 93 ∈ host ++ 58 :: port := by
      rcases not_and_or.mp hplain with h | h
      · exact Or.inl (List.mem_append_left _ (not_not.mp h))
      · exact Or.inr (List.mem_append_left _ (not_not.mp h))
    rw [if_pos hbracket, if_neg hplain, if_neg fun h => hhead h.2.1]
    rfl

theorem splitHostPort_joinHostPort (hcolon : 58 ∉ port) (hclose : 93 ∉ port) (hopen : 91 ∉ port) :
    splitHostPort (joinHostPort host port) = (rejoinedHost host).map (·, port) := by
  unfold joinHostPort
  by_cases hhost : 58 ∈ host
  · rw [if_pos hhost, split_bracketed hcolon hclose hopen, rejoinedHost]
    by_cases hplain : 91 ∉ host ∧ 93 ∉ host
    · simp [hplain]
    · rw [if_neg hplain, if_neg hplain, if_neg fun h => h.1 hhost]
      rfl
  · rw [if_neg hhost]
    by_cases hhead : host.head? = some 91
    · obtain ⟨rest, rfl⟩ := List.head?_eq_some_iff.mp hhead
      exact split_opened hcolon hclose hopen hhost
    · exact split_plain hcolon hclose hopen hhost hhead

end SplitJoin

theorem splitHostPort_itoa (host : Str) (i : Int) :
    splitHostPort (joinHostPort host (itoa i)) =
      (rejoinedHost host).map fun host => (host, itoa i) := by
  have hnot : ∀ {b : UInt8}, digit? b = none → b ≠ 45 → b ∉ itoa i := fun hb hdash =>
    not_mem_itoa hb hdash i
  exact splitHostPort_joinHostPort (hnot (by decide) (by decide)) (hnot (by decide) (by decide))
    (hnot (by decide) (by decide))

theorem rejoinedHost_string (ip : IP) : rejoinedHost ip.string = some ip.string := by
  have hnot : ∀ {b : UInt8}, digit? b = none → b ≠ 46 → b ≠ 58 → b ∉ ip.string := fun hb hdot hcolon =>
    IP.not_mem_string ip hb hdot hcolon
  exact if_pos ⟨hnot (by decide) (by decide) (by decide), hnot (by decide) (by decide) (by decide)⟩

end Go.Net
