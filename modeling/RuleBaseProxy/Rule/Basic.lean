import RuleBaseProxy.Constant.Metadata
import RuleBaseProxy.Lib.NetCIDR

/-! # Rules and what they match

One constructor for each concrete rule of the `rules` package. The GeoIP
database and the process table are outside the program and enter as functions.
-/

namespace RuleBaseProxy

open Go Go.Net

inductive RuleType where
  | Domain
  | DomainSuffix
  | DomainKeyword
  | GEOIP
  | IPCIDR
  | SrcIPCIDR
  | SrcPort
  | DstPort
  | Process
  | MATCH
  | ALLIP
  | DomainDstPort
  | DomainSrcPort
  | DstIPPort
deriving DecidableEq

/-- `RuleType.String`. The two domain-and-port types print each other's name. -/
def RuleType.string : RuleType → Str
  | .Domain => str "DOMAIN"
  | .DomainSuffix => str "DOMAIN-SUFFIX"
  | .DomainKeyword => str "DOMAIN-KEYWORD"
  | .GEOIP => str "GEOIP"
  | .IPCIDR => str "IP-CIDR"
  | .SrcIPCIDR => str "SRC-IP-CIDR"
  | .SrcPort => str "SRC-PORT"
  | .DstPort => str "DST-PORT"
  | .Process => str "PROCESS-NAME"
  | .MATCH => str "MATCH"
  | .ALLIP => str "ALLIP"
  | .DomainDstPort => str "DOMAIN-SRC-PORT"
  | .DomainSrcPort => str "DOMAIN-DST-PORT"
  | .DstIPPort => str "DST-IP-PORT"

structure Env where
  unicode : Unicode
  /-- `mmdb.Instance().Country(ip)`, its ISO code. -/
  country : IP → Str
  /-- The database looks an IPv4 address up in either form. -/
  country_congr : ∀ a b : IP, a.canon = b.canon → country a = country b
  /-- `process.FindProcessName` behind its cache; `none` where the port is not a number. -/
  processName : NetWork → Option IP → Str → Option Str

/-- A machine without country database and without processes. -/
def Env.bare : Env := ⟨Unicode.ascii, fun _ => [], fun _ _ _ => rfl, fun _ _ _ => none⟩

inductive Rule where
  | domain (domain adapter : Str) (multiDomainDialip : Bool)
  | domainSuffix (suffix adapter : Str) (multiDomainDialip : Bool)
  | domainKeyword (keyword adapter : Str) (multiDomainDialip : Bool)
  | geoip (country adapter : Str) (noResolveIP multiDomainDialip : Bool)
  | ipcidr (ipnet : IPNet) (adapter : Str) (isSourceIP noResolveIP : Bool) (withPort : Option Str)
      (multiDomainDialip : Bool)
  | port (port adapter : Str) (isSource multiDomainDialip : Bool)
  | process (process adapter : Str) (multiDomainDialip : Bool)
  | final (adapter : Str) (multiDomainDialip : Bool)
  | allip (adapter : Str) (multiDomainDialip : Bool)
  | domainAndPort (domain adapter port : Str) (isSource multiDomainDialip : Bool)
deriving DecidableEq

def Rule.ruleType : Rule → RuleType
  | .domain .. => .Domain
  | .domainSuffix .. => .DomainSuffix
  | .domainKeyword .. => .DomainKeyword
  | .geoip .. => .GEOIP
  | .ipcidr _ _ isSourceIP _ withPort _ =>
      if withPort.isSome then .DstIPPort else if isSourceIP then .SrcIPCIDR else .IPCIDR
  | .port _ _ isSource _ => if isSource then .SrcPort else .DstPort
  | .process .. => .Process
  | .final .. => .MATCH
  | .allip .. => .ALLIP
  | .domainAndPort _ _ _ isSource _ => if isSource then .DomainSrcPort else .DomainDstPort

def Rule.adapter : Rule → Str
  | .domain _ adapter _ => adapter
  | .domainSuffix _ adapter _ => adapter
  | .domainKeyword _ adapter _ => adapter
  | .geoip _ adapter _ _ => adapter
  | .ipcidr _ adapter _ _ _ _ => adapter
  | .port _ adapter _ _ => adapter
  | .process _ adapter _ => adapter
  | .final adapter _ => adapter
  | .allip adapter _ => adapter
  | .domainAndPort _ adapter _ _ _ => adapter

def Rule.payload : Rule → Str
  | .domain name _ _ => name
  | .domainSuffix suffix _ _ => suffix
  | .domainKeyword keyword _ _ => keyword
  | .geoip country _ _ _ => country
  | .ipcidr ipnet _ _ _ (some num) _ => ipnet.string ++ str " port: " ++ num
  | .ipcidr ipnet _ _ _ none _ => ipnet.string
  | .port num _ _ _ => num
  | .process name _ _ => name
  | .final .. => []
  | .allip .. => []
  | .domainAndPort name _ num _ _ => name ++ str "," ++ num

def Rule.shouldResolveIP : Rule → Bool
  | .geoip _ _ noResolveIP _ => !noResolveIP
  | .ipcidr _ _ _ noResolveIP _ _ => !noResolveIP
  | _ => false

def Rule.multiDomainDialIP : Rule → Bool
  | .domain _ _ multiDomainDialip => multiDomainDialip
  | .domainSuffix _ _ multiDomainDialip => multiDomainDialip
  | .domainKeyword _ _ multiDomainDialip => multiDomainDialip
  | .geoip _ _ _ multiDomainDialip => multiDomainDialip
  | .ipcidr _ _ _ _ _ multiDomainDialip => multiDomainDialip
  | .port _ _ _ multiDomainDialip => multiDomainDialip
  | .process _ _ multiDomainDialip => multiDomainDialip
  | .final _ multiDomainDialip => multiDomainDialip
  | .allip _ multiDomainDialip => multiDomainDialip
  | .domainAndPort _ _ _ _ multiDomainDialip => multiDomainDialip

/-- A host equal to `suffix` or below it, as `DomainSuffix.Match` and
`DomainAndPort.MatchDomain` test it. -/
def hostUnder (suffix : Str) (m : Metadata) : Bool :=
  m.addrType == atypDomainName && (hasSuffix m.host (46 :: suffix) || m.host == suffix)

/-- `Rule.Match`. -/
def Rule.isMatch (env : Env) (m : Metadata) : Rule → Bool
  | .domain name _ _ => m.addrType == atypDomainName && m.host == name
  | .domainSuffix suffix _ _ => hostUnder suffix m
  | .domainKeyword keyword _ _ => m.addrType == atypDomainName && contains m.host keyword
  | .geoip country _ _ _ =>
      m.dstIP.any fun ip =>
        if equalFold env.unicode country (str "LAN") then ip.isPrivate
        else equalFold env.unicode (env.country ip) country
  | .ipcidr ipnet _ isSourceIP _ withPort _ =>
      (if isSourceIP then m.srcIP else m.dstIP).any fun ip =>
        ipnet.contains ip && withPort.all (m.dstPort == ·)
  | .port num _ isSource _ => if isSource then m.srcPort == num else m.dstPort == num
  | .process name _ _ =>
      (env.processName m.netWork m.srcIP m.srcPort).any fun found =>
        equalFold env.unicode found name
  | .final .. => true
  | .allip .. => if 1 < m.host.length then false else m.dstIP.isSome || m.srcIP.isSome
  | .domainAndPort name _ num isSource _ =>
      (if isSource then m.srcPort == num else m.dstPort == num) && hostUnder name m

def Rule.readsSourcePort : Rule → Bool
  | .port _ _ isSource _ => isSource
  | .process .. => true
  | .domainAndPort _ _ _ isSource _ => isSource
  | _ => false

/-! ## What a match depends on -/

private theorem isSome_congr {a b : Option IP} (h : a.map IP.canon = b.map IP.canon) :
    a.isSome = b.isSome := by
  rw [← Option.isSome_map (f := IP.canon), h, Option.isSome_map]

private theorem any_congr {a b : Option IP} (h : a.map IP.canon = b.map IP.canon)
    {f g : IP → Bool} (hfg : ∀ x y : IP, x.canon = y.canon → f x = g y) : a.any f = b.any g := by
  cases a with
  | none =>
      cases b with
      | none => rfl
      | some y => cases h
  | some x =>
      cases b with
      | none => cases h
      | some y => exact hfg x y (Option.some.inj h)

theorem hostUnder_congr (suffix : Str) {m m' : Metadata} (h : m.SameInfo m') :
    hostUnder suffix m = hostUnder suffix m' := by
  simp only [hostUnder, h.addrType, h.host]

/-- Rules that do not look at the source port cannot tell apart two connections
that differ only there. -/
theorem Rule.isMatch_congr (env : Env) {m m' : Metadata} (h : m.SameInfo m') {r : Rule}
    (hr : r.readsSourcePort = false) : r.isMatch env m = r.isMatch env m' := by
  cases r with
  | domain => simp only [Rule.isMatch, h.addrType, h.host]
  | domainSuffix suffix => exact hostUnder_congr suffix h
  | domainKeyword => simp only [Rule.isMatch, h.addrType, h.host]
  | geoip country =>
      apply any_congr h.dstIP
      intro x y hxy
      simp only [IP.isPrivate_congr hxy, env.country_congr x y hxy]
  | ipcidr ipnet _ isSourceIP _ port =>
      have hip : (if isSourceIP then m.srcIP else m.dstIP).map IP.canon =
          (if isSourceIP then m'.srcIP else m'.dstIP).map IP.canon := by
        split
        · exact h.srcIP
        · exact h.dstIP
      apply any_congr hip
      intro x y hxy
      simp only [IPNet.contains_congr ipnet hxy, h.dstPort]
  | port port _ isSource =>
      simp only [Rule.readsSourcePort] at hr
      simp [Rule.isMatch, hr, h.dstPort]
  | process => simp [Rule.readsSourcePort] at hr
  | final => rfl
  | allip =>
      simp only [Rule.isMatch, h.host, isSome_congr h.dstIP, isSome_congr h.srcIP]
  | domainAndPort domain _ port isSource =>
      simp only [Rule.readsSourcePort] at hr
      simp [Rule.isMatch, hr, h.dstPort, hostUnder_congr domain h]

theorem Rule.isMatch_dstIP_of_readsSourcePort (env : Env) (m : Metadata) (ip : Option IP) {r : Rule}
    (hr : r.readsSourcePort = true) : r.isMatch env { m with dstIP := ip } = r.isMatch env m := by
  cases r <;> simp_all [Rule.readsSourcePort, Rule.isMatch, hostUnder]

theorem Rule.isMatch_of_dstIP_none (env : Env) {m : Metadata} (hm : m.dstIP = none) (ip : Option IP)
    {r : Rule} (h : r.isMatch env m = true) : r.isMatch env { m with dstIP := ip } = true := by
  cases r with
  | geoip => simp [Rule.isMatch, hm] at h
  | ipcidr ipnet _ isSourceIP _ port =>
      cases isSourceIP with
      | false => simp [Rule.isMatch, hm] at h
      | true => exact h
  | allip =>
      simp only [Rule.isMatch, hm, Option.isSome_none, Bool.false_or] at h ⊢
      split at h
      · cases h
      · rename_i hlen
        simp [hlen, h]
  | domain | domainSuffix | domainKeyword | port | process | final | domainAndPort => exact h

end RuleBaseProxy
