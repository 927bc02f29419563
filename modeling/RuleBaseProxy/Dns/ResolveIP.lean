import RuleBaseProxy.Lib.NetParse

/-! # Addresses of one family

`resolveIP` asks for A or for AAAA records and picks one of the addresses it finds
in the answer. It finds the addresses of both types, and a server may put both into
one answer, as `dualQuery` does.
-/

namespace RuleBaseProxy.Dns

open Go Go.Net

def typeA : UInt16 := 1
def typeAAAA : UInt16 := 28
def rcodeSuccess : Nat := 0

/-- A record of the answer; its address is nil if the record came without data. -/
inductive Answer where
  | a (ip : Option IP) (h : ∀ x ∈ ip, x.bytes.length = 4)
  | aaaa (ip : Option IP) (h : ∀ x ∈ ip, x.bytes.length = 16)
  | other

structure Response where
  /-- The type of the first question. -/
  qtype : Option UInt16
  rcode : Nat
  answer : List Answer

/-! ## dualQuery -/

structure DualResults where
  aResult : Option Response
  aaaaResult : Option Response

/-- The results as they arrive; nil for a query that failed. -/
def collect (results : List (Option Response)) : DualResults :=
  results.foldl (fun s res =>
    match res with
    | none => s
    | some msg =>
        match msg.qtype with
        | none => s
        | some qtype =>
            if qtype = typeA then { s with aResult := some msg }
            else { s with aaaaResult := some msg }) ⟨none, none⟩

/-- `dualQuery` for an A query, with the results of its two queries as they arrive. -/
def dualQuery (results : List (Option Response)) : Response :=
  let s := collect results
  let finalMsg :=
    match s.aResult, s.aaaaResult with
    | some a, aaaa =>
        if a.rcode = rcodeSuccess then
          some { a with answer := a.answer ++ (aaaa.map Response.answer).getD [] }
        else
          match aaaa with
          | some aaaa => if aaaa.rcode = rcodeSuccess then some aaaa else some a
          | none => some a
    | none, some aaaa => if aaaa.rcode = rcodeSuccess then some aaaa else none
    | none, none => none
  -- `SetRcode` takes the question over from the request
  match finalMsg with
  | none => ⟨some typeA, rcodeSuccess, []⟩
  | some msg => { msg with qtype := some typeA }

/-! ## resolveIP -/

inductive ResolveError where
  /-- `resolver.ErrIPVersion` -/
  | ipVersion
  /-- `resolver.ErrIPNotFound` -/
  | ipNotFound
  | exchange
deriving DecidableEq

def msgToIP (msg : Response) : List (Option IP) :=
  msg.answer.filterMap fun ans =>
    match ans with
    | .aaaa ip _ => some ip
    | .a ip _ => some ip
    | .other => none

section Resolve

/- What `r.Exchange` returns for a host and a type, and the draw of `rand.Intn`. -/
variable (exchange : Str → UInt16 → Option Response) (draw : Nat)

def resolveIP (host : Str) (dnsType : UInt16) : Except ResolveError (Option IP) :=
  match parseIP host with
  | some ip =>
      let isIPv4 := ip.to4.isSome
      if dnsType = typeAAAA ∧ !isIPv4 then .ok (some ip)
      else if dnsType = typeA ∧ isIPv4 then .ok (some ip)
      else .error .ipVersion
  | none =>
      match exchange host dnsType with
      | none => .error .exchange
      | some msg =>
          let ips := msgToIP msg
          match ips[draw % ips.length]? with
          | none => .error .ipNotFound
          | some ip => .ok ip

def resolveIPv4 (host : Str) : Except ResolveError (Option IP) :=
  resolveIP exchange draw host typeA

def resolveIPv6 (host : Str) : Except ResolveError (Option IP) :=
  resolveIP exchange draw host typeAAAA

end Resolve

/-! ## What is promised -/

/-- Whatever is drawn: `ResolveIPv4` returns IPv4 addresses, `ResolveIPv6` returns addresses that
are not. -/
structure RespectsFamily (exchange : Str → UInt16 → Option Response) (host : Str) : Prop where
  v4 : ∀ draw ip, resolveIPv4 exchange draw host = .ok (some ip) → ip.to4.isSome
  v6 : ∀ draw ip, resolveIPv6 exchange draw host = .ok (some ip) → ip.to4 = none

/-- An IPv4 address in an AAAA record is a mapped one. -/
def Answer.IsIPv4 : Answer → Prop
  | .a ip _ => ip.isSome
  | .aaaa ip _ => ∃ x ∈ ip, x.bytes.take 12 = v4InV6Prefix
  | .other => False

def Answer.IsIPv6 : Answer → Prop
  | .a _ _ => False
  | .aaaa ip _ => ∃ x ∈ ip, x.bytes.take 12 ≠ v4InV6Prefix
  | .other => False

theorem mem_msgToIP {msg : Response} {ip : IP} :
    some ip ∈ msgToIP msg ↔
      (∃ h, Answer.a (some ip) h ∈ msg.answer) ∨ ∃ h, Answer.aaaa (some ip) h ∈ msg.answer := by
  rw [msgToIP, List.mem_filterMap]
  constructor
  · rintro ⟨ans, hmem, hip⟩
    cases ans with
    | a ip' h =>
        cases hip
        exact Or.inl ⟨h, hmem⟩
    | aaaa ip' h =>
        cases hip
        exact Or.inr ⟨h, hmem⟩
    | other => cases hip
  · rintro (⟨h, hmem⟩ | ⟨h, hmem⟩)
    · exact ⟨_, hmem, rfl⟩
    · exact ⟨_, hmem, rfl⟩

theorem isSome_to4_of_length_four {ip : IP} (h : ip.bytes.length = 4) : ip.to4.isSome := by
  simp [IP.to4, h]

theorem to4_eq_none_iff {ip : IP} (h : ip.bytes.length = 16) :
    ip.to4 = none ↔ ip.bytes.take 12 ≠ v4InV6Prefix := by
  simp [IP.to4, h]

/-- The addresses of an answer that are IPv4, and those that are not, by the records. -/
theorem all_to4_isSome_iff (msg : Response) :
    (∀ ip, some ip ∈ msgToIP msg → ip.to4.isSome) ↔ ∀ ans ∈ msg.answer, ¬ ans.IsIPv6 := by
  constructor
  · intro h ans hans hv6
    cases ans with
    | a ip hlen => exact hv6
    | other => exact hv6
    | aaaa ip hlen =>
        rcases hv6 with ⟨x, hx, hmapped⟩
        cases hx
        have hsome := h x (mem_msgToIP.mpr (Or.inr ⟨hlen, hans⟩))
        rw [(to4_eq_none_iff (hlen x rfl)).mpr hmapped] at hsome
        cases hsome
  · intro h ip hip
    rcases mem_msgToIP.mp hip with ⟨hlen, -⟩ | ⟨hlen, hmem⟩
    · exact isSome_to4_of_length_four (hlen ip rfl)
    · apply Option.isSome_iff_ne_none.mpr
      intro hnone
      exact h _ hmem ⟨ip, rfl, (to4_eq_none_iff (hlen ip rfl)).mp hnone⟩

theorem all_to4_eq_none_iff (msg : Response) :
    (∀ ip, some ip ∈ msgToIP msg → ip.to4 = none) ↔ ∀ ans ∈ msg.answer, ¬ ans.IsIPv4 := by
  constructor
  · intro h ans hans hv4
    cases ans with
    | a ip hlen =>
        rcases Option.isSome_iff_exists.mp hv4 with ⟨x, rfl⟩
        have hnone := h x (mem_msgToIP.mpr (Or.inl ⟨hlen, hans⟩))
        have hsome := isSome_to4_of_length_four (hlen x rfl)
        rw [hnone] at hsome
        cases hsome
    | other => exact hv4
    | aaaa ip hlen =>
        rcases hv4 with ⟨x, hx, hmapped⟩
        cases hx
        have hnone := h x (mem_msgToIP.mpr (Or.inr ⟨hlen, hans⟩))
        exact (to4_eq_none_iff (hlen x rfl)).mp hnone hmapped
  · intro h ip hip
    rcases mem_msgToIP.mp hip with ⟨hlen, hmem⟩ | ⟨hlen, hmem⟩
    · exact absurd (rfl : (some ip).isSome) (h _ hmem)
    · apply (to4_eq_none_iff (hlen ip rfl)).mpr
      exact fun hmapped => h _ hmem ⟨ip, rfl, hmapped⟩

/-- Every address of the answer may be drawn, and no other. -/
theorem resolveIP_eq_ok_iff {exchange : Str → UInt16 → Option Response} {host : Str} {t : UInt16}
    {ip : IP} (hhost : parseIP host = none) :
    (∃ draw, resolveIP exchange draw host t = .ok (some ip)) ↔
      ∃ msg, exchange host t = some msg ∧ some ip ∈ msgToIP msg := by
  simp only [resolveIP, hhost]
  cases hexchange : exchange host t with
  | none => simp
  | some msg =>
      simp only [Option.some.injEq, exists_eq_left']
      constructor
      · rintro ⟨draw, hdraw⟩
        split at hdraw
        · cases hdraw
        · rename_i x hx
          cases hdraw
          exact List.mem_of_getElem? hx
      · intro hmem
        rcases List.getElem?_of_mem hmem with ⟨i, hi⟩
        have hlt : i < (msgToIP msg).length := (List.getElem?_eq_some_iff.mp hi).1
        refine ⟨i, ?_⟩
        rw [Nat.mod_eq_of_lt hlt, hi]

theorem resolveIP_literal {exchange : Str → UInt16 → Option Response} {host : Str} {ip : IP}
    (hhost : parseIP host = some ip) : RespectsFamily exchange host := by
  constructor
  · intro draw ip' h
    simp only [resolveIPv4, resolveIP, hhost] at h
    rw [if_neg fun hand => absurd hand.1 (by decide)] at h
    split at h
    · rename_i hv4
      cases h
      exact hv4.2
    · cases h
  · intro draw ip' h
    simp only [resolveIPv6, resolveIP, hhost] at h
    split at h
    · rename_i hv6
      cases h
      simpa using hv6.2
    · rw [if_neg fun hand => absurd hand.1 (by decide)] at h
      cases h

/-- The families are kept apart exactly if the host is an address itself, or neither answer has
an address of the other family. -/
theorem respectsFamily_iff (exchange : Str → UInt16 → Option Response) (host : Str) :
    RespectsFamily exchange host ↔
      (parseIP host = none →
        (∀ msg, exchange host typeA = some msg → ∀ ans ∈ msg.answer, ¬ ans.IsIPv6) ∧
        ∀ msg, exchange host typeAAAA = some msg → ∀ ans ∈ msg.answer, ¬ ans.IsIPv4) := by
  constructor
  · intro h hhost
    constructor
    · intro msg hmsg
      apply (all_to4_isSome_iff msg).mp
      intro ip hip
      rcases (resolveIP_eq_ok_iff hhost).mpr ⟨msg, hmsg, hip⟩ with ⟨draw, hdraw⟩
      exact h.v4 draw ip hdraw
    · intro msg hmsg
      apply (all_to4_eq_none_iff msg).mp
      intro ip hip
      rcases (resolveIP_eq_ok_iff hhost).mpr ⟨msg, hmsg, hip⟩ with ⟨draw, hdraw⟩
      exact h.v6 draw ip hdraw
  · intro h
    cases hhost : parseIP host with
    | some ip => exact resolveIP_literal hhost
    | none =>
        have hanswers := h hhost
        constructor
        · intro draw ip hdraw
          rcases (resolveIP_eq_ok_iff hhost).mp ⟨draw, hdraw⟩ with ⟨msg, hmsg, hip⟩
          exact (all_to4_isSome_iff msg).mpr (hanswers.1 msg hmsg) ip hip
        · intro draw ip hdraw
          rcases (resolveIP_eq_ok_iff hhost).mp ⟨draw, hdraw⟩ with ⟨msg, hmsg, hip⟩
          exact (all_to4_eq_none_iff msg).mpr (hanswers.2 msg hmsg) ip hip

/-- 1.2.3.4 -/
def answerA : Answer := .a (some ⟨[1, 2, 3, 4], Or.inl rfl⟩) (by simp)

def documentationIP : IP := ⟨[0x20, 1, 0xd, 0xb8, 0, 0, 0, 0, 0, 0, 0, 0, 0, 0, 0, 1], Or.inr rfl⟩

/-- 2001:db8::1 -/
def answerAAAA : Answer := .aaaa (some documentationIP) (by simp [documentationIP])

def dualServer (_ : Str) (_ : UInt16) : Option Response :=
  some (dualQuery [some ⟨some typeA, 0, [answerA]⟩, some ⟨some typeAAAA, 0, [answerAAAA]⟩])

theorem dualServer_breaks_family :
    resolveIPv4 dualServer 1 (str "a.com") = .ok (some documentationIP) ∧
      ¬ RespectsFamily dualServer (str "a.com") := by
  have hdraw : resolveIPv4 dualServer 1 (str "a.com") = .ok (some documentationIP) := by rfl
  refine ⟨hdraw, fun h => ?_⟩
  have hv4 := h.v4 1 documentationIP hdraw
  exact absurd hv4 (by decide)

end RuleBaseProxy.Dns
