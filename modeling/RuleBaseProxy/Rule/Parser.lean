import RuleBaseProxy.Rule.Basic

/-! # `ParseRule`

The parser as the source has it, with the two ways in which it goes wrong
besides an error: a nil `*DomainAndPort` that passes for a rule, and an index
into empty parameters. What it accepts is well formed, and for well-formed
rules the database key `RuleType().String() + Payload()` determines what the
rule matches.
-/

namespace RuleBaseProxy

open Go Go.Net

inductive ParseResult where
  | parsed (r : Rule)
  /-- A nil `*DomainAndPort` in a non-nil interface, with a nil error. Every
  method that looks at its receiver panics. -/
  | nilRule
  | failed (msg : Str)
  /-- `params[0]` of an empty slice. -/
  | panicked
deriving DecidableEq

def errPayload : Str := str "payload error"

def hasNoResolve (params : List Str) : Bool := params.any (· == str "no-resolve")

def hasMultiDomainDailIP (params : List Str) : Bool := params.any (· == str "dial-ip")

/-- `NewIPCIDR`, its options written out. -/
def newIPCIDR (s adapter : Str) (multiDomainDialip isSourceIP noResolveIP : Bool)
    (withPort : Option Str) : ParseResult :=
  match parseCIDR s with
  | none => .failed errPayload
  | some ipnet => .parsed (.ipcidr ipnet adapter isSourceIP noResolveIP withPort multiDomainDialip)

def newPort (port adapter : Str) (isSource multiDomainDialip : Bool) : ParseResult :=
  match atoi port with
  | none => .failed errPayload
  | some _ => .parsed (.port port adapter isSource multiDomainDialip)

def newDomainAndPort (u : Unicode) (domain adapter port : Str) (isSource multiDomainDialip : Bool) :
    ParseResult :=
  match atoi port with
  | none => .nilRule
  | some _ => .parsed (.domainAndPort (toLower u domain) adapter port isSource multiDomainDialip)

/-- The cases of the switch in `ParseRule`. -/
inductive RuleCase where
  | domain
  | domainSuffix
  | domainKeyword
  | geoip
  | ipCIDR
  | srcIPCIDR
  | dstIPPort
  | srcPort
  | dstPort
  | processName
  | final
  | allip
  | domainSrcPort
  | domainDstPort
deriving DecidableEq

def ruleCases : List (Str × RuleCase) :=
  [(str "DOMAIN", .domain), (str "DOMAIN-SUFFIX", .domainSuffix),
    (str "DOMAIN-KEYWORD", .domainKeyword), (str "GEOIP", .geoip), (str "IP-CIDR", .ipCIDR),
    (str "IP-CIDR6", .ipCIDR), (str "SRC-IP-CIDR", .srcIPCIDR), (str "DST-IP-PORT", .dstIPPort),
    (str "SRC-PORT", .srcPort), (str "DST-PORT", .dstPort), (str "PROCESS-NAME", .processName),
    (str "MATCH", .final), (str "ALLIP", .allip), (str "DOMAIN-SRC-PORT", .domainSrcPort),
    (str "DOMAIN-DST-PORT", .domainDstPort)]

def RuleCase.parse (u : Unicode) (payload target : Str) (params : List Str) : RuleCase → ParseResult
  | .domain => .parsed (.domain (toLower u payload) target (hasMultiDomainDailIP params))
  | .domainSuffix => .parsed (.domainSuffix (toLower u payload) target (hasMultiDomainDailIP params))
  | .domainKeyword =>
      .parsed (.domainKeyword (toLower u payload) target (hasMultiDomainDailIP params))
  | .geoip => .parsed (.geoip payload target (hasNoResolve params) (hasMultiDomainDailIP params))
  | .ipCIDR =>
      newIPCIDR payload target (hasMultiDomainDailIP params) false (hasNoResolve params) none
  | .srcIPCIDR => newIPCIDR payload target (hasMultiDomainDailIP params) true true none
  | .dstIPPort =>
      match params.head? with
      | none => .panicked
      | some port => newIPCIDR payload target (hasMultiDomainDailIP params) false true (some port)
  | .srcPort => newPort payload target true (hasMultiDomainDailIP params)
  | .dstPort => newPort payload target false (hasMultiDomainDailIP params)
  | .processName => .parsed (.process payload target (hasMultiDomainDailIP params))
  | .final => .parsed (.final target (hasMultiDomainDailIP params))
  | .allip => .parsed (.allip target (hasMultiDomainDailIP params))
  | .domainSrcPort =>
      match params.head? with
      | none => .panicked
      | some port => newDomainAndPort u payload target port true (hasMultiDomainDailIP params)
  | .domainDstPort =>
      match params.head? with
      | none => .panicked
      | some port => newDomainAndPort u payload target port false (hasMultiDomainDailIP params)

def parseRule (u : Unicode) (tp payload target : Str) (params : List Str) : ParseResult :=
  match ruleCases.lookup tp with
  | some c => c.parse u payload target params
  | none => .failed (str "unsupported rule type " ++ tp)

/-! ## What it accepts -/

def LowerCase (s : Str) : Prop := ∀ b ∈ s, isUpper b = false

def Rule.WellFormed : Rule → Prop
  | .domain name _ _ => LowerCase name
  | .domainSuffix suffix _ _ => LowerCase suffix
  | .domainKeyword keyword _ _ => LowerCase keyword
  | .ipcidr _ _ isSourceIP _ withPort _ => withPort.isSome → isSourceIP = false
  | .port num _ _ _ => (atoi num).isSome
  | .domainAndPort name _ num _ _ => LowerCase name ∧ (atoi num).isSome
  | _ => True

theorem newIPCIDR_parsed {s adapter : Str} {multi isSourceIP noResolveIP : Bool}
    {withPort : Option Str} {r : Rule}
    (h : newIPCIDR s adapter multi isSourceIP noResolveIP withPort = .parsed r) :
    ∃ ipnet, parseCIDR s = some ipnet ∧
      r = .ipcidr ipnet adapter isSourceIP noResolveIP withPort multi := by
  unfold newIPCIDR at h
  split at h
  · cases h
  · rename_i ipnet hnet
    cases h
    exact ⟨ipnet, hnet, rfl⟩

theorem newIPCIDR_of_some {s : Str} {ipnet : IPNet} (h : parseCIDR s = some ipnet) (adapter : Str)
    (multi isSourceIP noResolveIP : Bool) (withPort : Option Str) :
    newIPCIDR s adapter multi isSourceIP noResolveIP withPort =
      .parsed (.ipcidr ipnet adapter isSourceIP noResolveIP withPort multi) := by
  rw [newIPCIDR, h]

theorem newPort_of_isSome {num : Str} (h : (atoi num).isSome) (adapter : Str)
    (isSource multi : Bool) :
    newPort num adapter isSource multi = .parsed (.port num adapter isSource multi) := by
  rcases Option.isSome_iff_exists.mp h with ⟨n, hn⟩
  rw [newPort, hn]

theorem newPort_parsed {num adapter : Str} {isSource multi : Bool} {r : Rule}
    (h : newPort num adapter isSource multi = .parsed r) :
    (atoi num).isSome ∧ r = .port num adapter isSource multi := by
  unfold newPort at h
  split at h
  · cases h
  · rename_i n hn
    cases h
    simp [hn]

theorem newDomainAndPort_parsed {u : Unicode} {name adapter num : Str} {isSource multi : Bool}
    {r : Rule} (h : newDomainAndPort u name adapter num isSource multi = .parsed r) :
    (atoi num).isSome ∧ r = .domainAndPort (toLower u name) adapter num isSource multi := by
  unfold newDomainAndPort at h
  split at h
  · cases h
  · rename_i n hn
    cases h
    simp [hn]

theorem RuleCase.parse_parsed {u : Unicode} {payload target : Str} {params : List Str}
    {c : RuleCase} {r : Rule} (h : c.parse u payload target params = .parsed r) :
    r.WellFormed ∧ r.adapter = target := by
  cases c with
  | domain | domainSuffix | domainKeyword =>
      cases h
      exact ⟨not_upper_toLower u payload, rfl⟩
  | geoip | processName | final | allip =>
      cases h
      exact ⟨trivial, rfl⟩
  | ipCIDR =>
      obtain ⟨_, -, rfl⟩ := newIPCIDR_parsed h
      exact ⟨fun _ => rfl, rfl⟩
  | srcIPCIDR =>
      obtain ⟨_, -, rfl⟩ := newIPCIDR_parsed h
      exact ⟨nofun, rfl⟩
  | dstIPPort =>
      simp only [RuleCase.parse] at h
      split at h
      · cases h
      · obtain ⟨_, -, rfl⟩ := newIPCIDR_parsed h
        exact ⟨fun _ => rfl, rfl⟩
  | srcPort | dstPort =>
      obtain ⟨hnum, rfl⟩ := newPort_parsed h
      exact ⟨hnum, rfl⟩
  | domainSrcPort | domainDstPort =>
      simp only [RuleCase.parse] at h
      split at h
      · cases h
      · obtain ⟨hnum, rfl⟩ := newDomainAndPort_parsed h
        exact ⟨⟨not_upper_toLower u payload, hnum⟩, rfl⟩

/-- An accepted rule is well formed and carries the target. -/
theorem parseRule_parsed {u : Unicode} {tp payload target : Str} {params : List Str} {r : Rule}
    (h : parseRule u tp payload target params = .parsed r) : r.WellFormed ∧ r.adapter = target := by
  unfold parseRule at h
  split at h
  · exact RuleCase.parse_parsed h
  · cases h

/-! ## The database key -/

/-- `rule.RuleType().String() + rule.Payload()`. -/
def Rule.dbKey (r : Rule) : Str := r.ruleType.string ++ r.payload

/-- `DOMAIN` begins the names of the other domain types, which go on in upper
case; no other name begins another. -/
theorem RuleType.string_isPrefix (t t' : RuleType) : t.string <+: t'.string →
    t = t' ∨ t = .Domain ∧ ∃ b ∈ t'.string.drop t.string.length, isUpper b = true := by
  cases t <;> cases t' <;> decide +kernel

theorem lowerCase_payload_of_domain {r : Rule} (hr : r.WellFormed) (ht : r.ruleType = .Domain) :
    LowerCase r.payload := by
  cases r with
  | domain => exact hr
  | ipcidr _ _ isSourceIP _ withPort =>
      cases withPort <;> cases isSourceIP <;> cases ht
  | port _ _ isSource => cases isSource <;> cases ht
  | domainAndPort _ _ _ isSource => cases isSource <;> cases ht
  | _ => cases ht

private theorem ruleType_eq_of_isPrefix {r r' : Rule} (hr : r.WellFormed) (h : r.dbKey = r'.dbKey)
    (hpre : r.ruleType.string <+: r'.ruleType.string) : r.ruleType = r'.ruleType := by
  rcases RuleType.string_isPrefix _ _ hpre with heq | ⟨hdom, b, hb, hup⟩
  · exact heq
  · obtain ⟨rest, hrest⟩ := hpre
    have hpay : r.payload = rest ++ r'.payload := by
      rw [Rule.dbKey, Rule.dbKey, ← hrest, List.append_assoc] at h
      exact List.append_cancel_left h
    have hmem : b ∈ r.payload := by
      rw [← hrest, List.drop_left] at hb
      rw [hpay]
      exact List.mem_append_left _ hb
    rw [lowerCase_payload_of_domain hr hdom b hmem] at hup
    cases hup

theorem Rule.dbKey_inj {r r' : Rule} (hr : r.WellFormed) (hr' : r'.WellFormed)
    (h : r.dbKey = r'.dbKey) : r.ruleType = r'.ruleType ∧ r.payload = r'.payload := by
  have htype : r.ruleType = r'.ruleType := by
    have hle : r.ruleType.string <+: r'.dbKey := h ▸ List.prefix_append _ _
    rcases List.prefix_or_prefix_of_prefix hle (List.prefix_append _ _) with hpre | hpre
    · exact ruleType_eq_of_isPrefix hr h hpre
    · exact (ruleType_eq_of_isPrefix hr' h.symm hpre).symm
  rw [Rule.dbKey, Rule.dbKey, htype] at h
  exact ⟨htype, List.append_cancel_left h⟩

def RuleType.ctor : RuleType → Nat
  | .Domain => 0
  | .DomainSuffix => 1
  | .DomainKeyword => 2
  | .GEOIP => 3
  | .IPCIDR | .SrcIPCIDR | .DstIPPort => 4
  | .SrcPort | .DstPort => 5
  | .Process => 6
  | .MATCH => 7
  | .ALLIP => 8
  | .DomainDstPort | .DomainSrcPort => 9

theorem Rule.ctorIdx_eq (r : Rule) : r.ctorIdx = r.ruleType.ctor := by
  cases r with
  | ipcidr _ _ isSourceIP _ withPort => cases withPort <;> cases isSourceIP <;> rfl
  | port _ _ isSource => cases isSource <;> rfl
  | domainAndPort _ _ _ isSource => cases isSource <;> rfl
  | _ => rfl

/-- The port of a payload is what stands behind its last comma. -/
private theorem domainPort_inj {name name' num num' : Str} (hnum : (atoi num).isSome)
    (hnum' : (atoi num').isSome) (h : name ++ str "," ++ num = name' ++ str "," ++ num') :
    name = name' ∧ num = num' := by
  have hsep : str "," = [44] := by decide
  have hcomma : ∀ {s : Str}, (atoi s).isSome → (44 : UInt8) ∉ s := fun hs =>
    not_mem_of_atoi hs (by decide) (by decide) (by decide)
  exact append_sep_right_inj (hcomma hnum) (hcomma hnum') (by simpa [hsep] using h)

/-- A network has no blank in it, so the first one ends it. -/
private theorem ipPort_inj {net net' : IPNet} {num num' : Str}
    (h : net.string ++ str " port: " ++ num = net'.string ++ str " port: " ++ num') :
    net.string = net'.string ∧ num = num' := by
  have hsep : str " port: " = 32 :: str "port: " := by decide
  have hblank : ∀ n : IPNet, (32 : UInt8) ∉ n.string := fun n =>
    n.not_mem_string (by decide) (by decide) (by decide) (by decide)
  obtain ⟨hnet, hnum⟩ := append_sep_left_inj (hblank net) (hblank net')
    (by simpa only [hsep, List.append_assoc, List.cons_append] using h)
  exact ⟨hnet, List.append_cancel_left hnum⟩

theorem Rule.isMatch_of_dbKey_eq {r r' : Rule} (hr : r.WellFormed) (hr' : r'.WellFormed)
    (h : r.dbKey = r'.dbKey) (env : Env) (m : Metadata) : r.isMatch env m = r'.isMatch env m := by
  obtain ⟨htype, hpay⟩ := Rule.dbKey_inj hr hr' h
  have hctor : r.ctorIdx = r'.ctorIdx := by rw [ctorIdx_eq, ctorIdx_eq, htype]
  cases r <;> cases r' <;> cases hctor
  case domain | domainSuffix | domainKeyword | geoip | process =>
    cases hpay
    rfl
  case final | allip => rfl
  case port num _ isSource _ num' _ isSource' _ =>
    cases hpay
    cases isSource <;> cases isSource' <;> cases htype <;> rfl
  case domainAndPort name _ num isSource _ name' _ num' isSource' _ =>
    obtain ⟨hname, hnum⟩ : name = name' ∧ num = num' := domainPort_inj hr.2 hr'.2 hpay
    subst hname hnum
    cases isSource <;> cases isSource' <;> cases htype <;> rfl
  case ipcidr net _ isSourceIP _ withPort _ net' _ isSourceIP' _ withPort' _ =>
    have hport : withPort.isSome = withPort'.isSome := by
      cases withPort <;> cases withPort' <;> cases isSourceIP <;> cases isSourceIP' <;>
        first | rfl | cases htype
    cases withPort with
    | none =>
        cases withPort' with
        | some _ => cases hport
        | none =>
            have hsource : isSourceIP = isSourceIP' := by
              cases isSourceIP <;> cases isSourceIP' <;> first | rfl | cases htype
            subst hsource
            simp only [Rule.isMatch, IPNet.contains_of_string_eq hpay]
    | some num =>
        cases withPort' with
        | none => cases hport
        | some num' =>
            cases hr rfl
            cases hr' rfl
            obtain ⟨hnet, hnum⟩ : net.string = net'.string ∧ num = num' := ipPort_inj hpay
            rw [hnum]
            simp only [Rule.isMatch, IPNet.contains_of_string_eq hnet]

end RuleBaseProxy
