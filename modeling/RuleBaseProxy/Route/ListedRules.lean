import RuleBaseProxy.Route.Persist

/-! # Deleting what is listed

`getRules` reports a rule by the name of its type and by its payload, and a
`DELETE` request takes a type and a key. But the key is split at its colons, the
ports of the domain rules are listed behind a comma, and their two types have each
other's name: what is listed does not always name the rule to `updateHashMap`.
-/

namespace RuleBaseProxy

open Go Go.Net

/-- The case of `ParseRule` that the name of a type selects. -/
def RuleType.named : RuleType → RuleCase
  | .Domain => .domain
  | .DomainSuffix => .domainSuffix
  | .DomainKeyword => .domainKeyword
  | .GEOIP => .geoip
  | .IPCIDR => .ipCIDR
  | .SrcIPCIDR => .srcIPCIDR
  | .SrcPort => .srcPort
  | .DstPort => .dstPort
  | .Process => .processName
  | .MATCH => .final
  | .ALLIP => .allip
  | .DomainDstPort => .domainSrcPort
  | .DomainSrcPort => .domainDstPort
  | .DstIPPort => .dstIPPort

theorem RuleType.lookup_string (t : RuleType) : ruleCases.lookup t.string = some t.named := by
  cases t <;> decide +kernel

theorem parseRule_string (u : Unicode) (t : RuleType) (payload target : Str) (params : List Str) :
    parseRule u t.string payload target params = t.named.parse u payload target params := by
  rw [parseRule, t.lookup_string]

namespace Route

structure Listed where
  type : Str
  payload : Str
  proxy : Str
deriving DecidableEq

def getRules (s : State) : List Listed :=
  s.rules.map fun rule => ⟨rule.ruleType.string, rule.payload, rule.adapter⟩

def Listed.delete (item : Listed) : HashMap := ⟨item.type, item.payload, str "DELETE"⟩

/-- The request is processed, and no rule with the type and payload of `r` is left. -/
def Deletes (u : Unicode) (s : State) (req : HashMap) (r : Rule) : Prop :=
  (updateHashMap u s (some req)).1 = .noContent ∧
    ∀ r' ∈ (updateHashMap u s (some req)).2.1.rules,
      ¬ (r'.ruleType = r.ruleType ∧ r'.payload = r.payload)

/-- A rule of the list is deleted exactly if the request is parsed to a rule of its payload. -/
theorem deletes_iff {u : Unicode} {s : State} {req : HashMap} {r : Rule} (hdel : req.IsDelete)
    (hr : r ∈ s.rules) :
    Deletes u s req r ↔ ∃ newRule, req.parse u = .parsed newRule ∧ newRule.payload = r.payload := by
  constructor
  · rintro ⟨hresponse, hgone⟩
    cases hparse : req.parse u with
    | failed msg => simp [updateHashMap, hparse] at hresponse
    | nilRule => simp [updateHashMap, hparse] at hresponse
    | panicked => simp [updateHashMap, hparse] at hresponse
    | parsed newRule =>
        refine ⟨newRule, rfl, ?_⟩
        by_contra hne
        have hstays : r ∈ (updateHashMap u s (some req)).2.1.rules := by
          rw [updateHashMap_of_parsed s hparse]
          simp only [HashMap.newRules, hdel, if_true, List.mem_filter]
          exact ⟨hr, by simpa using Ne.symm hne⟩
        exact hgone r hstays ⟨rfl, rfl⟩
  · rintro ⟨newRule, hparse, hpay⟩
    unfold Deletes
    rw [updateHashMap_of_parsed s hparse]
    refine ⟨rfl, fun r' hr' heq => ?_⟩
    simp only [HashMap.newRules, hdel, if_true, List.mem_filter] at hr'
    simp [heq.2, hpay] at hr'

/-! ## Colons -/

theorem HashMap.colon_not_mem_payloadParams {req : HashMap} (h : 58 ∈ req.key) :
    58 ∉ req.payloadParams.1 ∧ ∀ param ∈ req.payloadParams.2, 58 ∉ param := by
  have hpieces : ∀ piece ∈ trimArr (split req.key 58), 58 ∉ piece := by
    intro piece hpiece
    rcases List.mem_map.mp hpiece with ⟨p, hp, rfl⟩
    rw [mem_trim (by decide)]
    exact not_mem_of_mem_split hp
  have hlen : 2 ≤ (trimArr (split req.key 58)).length := by
    rw [trimArr, List.length_map]
    exact two_le_length_split h
  unfold HashMap.payloadParams
  split
  · rename_i payload param params hsplit
    rw [hsplit] at hpieces
    exact ⟨hpieces payload List.mem_cons_self, fun p hp => hpieces p (List.mem_cons_of_mem _ hp)⟩
  · rename_i hshort
    generalize trimArr (split req.key 58) = pieces at hlen hshort
    rcases pieces with - | ⟨payload, - | ⟨param, params⟩⟩
    · cases hlen
    · exact absurd hlen (by simp)
    · exact absurd rfl (hshort payload param params)

theorem HashMap.payloadParams_of_not_mem {req : HashMap} (h : 58 ∉ req.key) :
    req.payloadParams = (req.key, [str "no-resolve"]) := by
  rw [← entryPayload_eq]
  exact HashMap.entryPayload_of_not_mem h

section Payload

variable (t : CaseTables) {c : RuleCase} {payload target : Str} {params : List Str} {r : Rule}

theorem colon_not_mem_toLower {s : Str} (h : 58 ∉ s) : 58 ∉ toLower t.toUnicode s := by
  apply List.count_eq_zero.mp
  rw [t.count_toLower (by decide) (by decide)]
  exact List.count_eq_zero.mpr h

/-- Only `DST-IP-PORT` puts a colon into the payload that was not there. -/
theorem colon_not_mem_payload (hc : c ≠ .dstIPPort)
    (h : c.parse t.toUnicode payload target params = .parsed r) (hpay : 58 ∉ payload)
    (hparams : ∀ param ∈ params, 58 ∉ param) : 58 ∉ r.payload := by
  cases c with
  | domain | domainSuffix | domainKeyword =>
      cases h
      exact colon_not_mem_toLower t hpay
  | geoip | processName =>
      cases h
      exact hpay
  | final | allip =>
      cases h
      exact List.not_mem_nil
  | ipCIDR | srcIPCIDR =>
      rcases newIPCIDR_parsed h with ⟨ipnet, hnet, rfl⟩
      exact parseCIDR_not_mem_colon hnet hpay
  | dstIPPort => exact absurd rfl hc
  | srcPort | dstPort =>
      rcases newPort_parsed h with ⟨-, rfl⟩
      exact hpay
  | domainSrcPort | domainDstPort =>
      cases params with
      | nil => cases h
      | cons port params =>
          rcases newDomainAndPort_parsed h with ⟨-, rfl⟩
          have hname := colon_not_mem_toLower t hpay
          have hport := hparams port List.mem_cons_self
          have hcomma : (58 : UInt8) ∉ str "," := by decide
          simp only [Rule.payload, List.mem_append, not_or]
          exact ⟨⟨hname, hcomma⟩, hport⟩

end Payload

/-! ## `DST-IP-PORT` -/

theorem payload_of_dstIPPort {r : Rule} (h : r.ruleType = .DstIPPort) :
    ∃ (ipnet : IPNet) (port : Str), r.payload = ipnet.string ++ str " port: " ++ port := by
  cases r with
  | ipcidr ipnet _ isSourceIP _ withPort =>
      cases withPort with
      | none => cases isSourceIP <;> cases h
      | some port => exact ⟨ipnet, port, rfl⟩
  | port _ _ isSource => cases isSource <;> cases h
  | domainAndPort _ _ _ isSource => cases isSource <;> cases h
  | _ => cases h

/-- What comes before the colon of the payload is no network, or not the one of the rule. -/
theorem dstIPPort_payload_ne {u : Unicode} {req : HashMap} {r newRule : Rule}
    (htype : r.ruleType = .DstIPPort) (hkey : req.key = r.payload)
    (h : RuleCase.parse u req.payloadParams.1 req.value req.payloadParams.2 .dstIPPort =
      .parsed newRule) : newRule.payload ≠ r.payload := by
  rcases payload_of_dstIPPort htype with ⟨ipnet, port, hpay⟩
  have hsep : str " port: " = 32 :: (str "port" ++ 58 :: str " ") := by decide
  have hcolon : 58 ∈ req.key := by
    rw [hkey, hpay, hsep]
    simp
  rcases HashMap.colon_not_mem_payloadParams hcolon with ⟨hfirst, -⟩
  intro heq
  simp only [RuleCase.parse] at h
  split at h
  · cases h
  rcases newIPCIDR_parsed h with ⟨ipnet', hnet', rfl⟩
  have hblank : ∀ n : IPNet, (32 : UInt8) ∉ n.string := fun n =>
    n.not_mem_string (by decide) (by decide) (by decide) (by decide)
  have hstring : ipnet'.string = ipnet.string := by
    rw [hpay] at heq
    simp only [Rule.payload, hsep, List.append_assoc, List.cons_append] at heq
    exact (append_sep_left_inj (hblank ipnet') (hblank ipnet) heq).1
  have hnot : 58 ∉ ipnet.string ++ 32 :: str "port" := by
    rw [← hstring, List.mem_append, not_or]
    exact ⟨parseCIDR_not_mem_colon hnet' hfirst, by decide⟩
  have hpiece : req.payloadParams.1 = trim (ipnet.string ++ 32 :: str "port") 32 := by
    have hsplit : split req.key 58 =
        [ipnet.string ++ 32 :: str "port"] ++ split (str " " ++ port) 58 := by
      rw [hkey, hpay, ← split_of_not_mem hnot, ← split_append_sep, hsep]
      simp
    rcases List.exists_cons_of_ne_nil (split_ne_nil (str " " ++ port) 58) with ⟨q, qs, hq⟩
    simp [HashMap.payloadParams, hsplit, hq, trimArr]
  have hp : (112 : UInt8) ∈ req.payloadParams.1 := by
    rw [hpiece, mem_trim (by decide)]
    exact List.mem_append_right _ (by decide)
  rw [parseCIDR_eq_none_of_mem (by decide) (by decide) (by decide) (by decide) hp] at hnet'
  cases hnet'

/-! ## Listed and deleted -/

/-- A rule without colons that is not of the domain-and-port types is parsed from its payload. -/
theorem reparse (t : CaseTables) {c : RuleCase} {payload target : Str} {params : List Str} {r : Rule}
    (h : c.parse t.toUnicode payload target params = .parsed r) (hcolon : 58 ∉ r.payload)
    (hsrc : r.ruleType ≠ .DomainSrcPort) (hdst : r.ruleType ≠ .DomainDstPort) (target' : Str)
    (params' : List Str) :
    ∃ newRule, r.ruleType.named.parse t.toUnicode r.payload target' params' = .parsed newRule ∧
      newRule.payload = r.payload := by
  have hcidr : ∀ {s : Str} {n : IPNet}, parseCIDR s = some n → 58 ∉ n.string →
      ∃ n', parseCIDR n.string = some n' ∧ n'.string = n.string := by
    intro s n hn hnot
    rw [IPNet.colon_mem_string_iff] at hnot
    exact parseCIDR_string hn (Option.isSome_iff_ne_none.mpr hnot)
  cases c with
  | domain | domainSuffix | domainKeyword =>
      cases h
      exact ⟨_, rfl, t.toLower_toLower payload⟩
  | geoip | processName | final | allip =>
      cases h
      exact ⟨_, rfl, rfl⟩
  | ipCIDR | srcIPCIDR =>
      rcases newIPCIDR_parsed h with ⟨n, hn, rfl⟩
      rcases hcidr hn hcolon with ⟨n', hn', hstring⟩
      exact ⟨_, newIPCIDR_of_some hn' .., hstring⟩
  | dstIPPort =>
      simp only [RuleCase.parse] at h
      split at h
      · cases h
      · rcases newIPCIDR_parsed h with ⟨n, -, rfl⟩
        refine absurd ?_ hcolon
        simp only [Rule.payload, List.mem_append]
        exact Or.inl (Or.inr (by decide))
  | srcPort | dstPort =>
      rcases newPort_parsed h with ⟨hnum, rfl⟩
      exact ⟨_, newPort_of_isSome hnum .., rfl⟩
  | domainSrcPort =>
      cases params with
      | nil => cases h
      | cons port params =>
          rcases newDomainAndPort_parsed h with ⟨-, rfl⟩
          exact absurd rfl hsrc
  | domainDstPort =>
      cases params with
      | nil => cases h
      | cons port params =>
          rcases newDomainAndPort_parsed h with ⟨-, rfl⟩
          exact absurd rfl hdst

/-- The name of a domain-and-port type needs a port among the parameters. -/
theorem parse_portless {u : Unicode} {type : RuleType} (h : type = .DomainSrcPort ∨ type = .DomainDstPort)
    (payload target : Str) :
    type.named.parse u payload target [str "no-resolve"] = .nilRule := by
  have hatoi : atoi (str "no-resolve") = none := by decide +kernel
  rcases h with rfl | rfl
  · simp only [RuleType.named, RuleCase.parse, List.head?_cons, newDomainAndPort, hatoi]
  · simp only [RuleType.named, RuleCase.parse, List.head?_cons, newDomainAndPort, hatoi]

/-- What is listed can be deleted exactly if its payload has no colon and it is not one of
the domain-and-port rules. -/
theorem deletes_listed_iff (t : CaseTables) {s : State} {tp payload target : Str} {params : List Str}
    {r : Rule} (hparsed : parseRule t.toUnicode tp payload target params = .parsed r) {i : Nat}
    (hr : s.rules[i]? = some r) {item : Listed} (hitem : (getRules s)[i]? = some item) :
    Deletes t.toUnicode s item.delete r ↔
      58 ∉ r.payload ∧ r.ruleType ≠ .DomainSrcPort ∧ r.ruleType ≠ .DomainDstPort := by
  have hmem : r ∈ s.rules := List.mem_of_getElem? hr
  have hreq : item.delete = ⟨r.ruleType.string, r.payload, str "DELETE"⟩ := by
    rw [getRules, List.getElem?_map, hr] at hitem
    cases hitem
    rfl
  have hdel : item.delete.IsDelete := rfl
  have htype : item.delete.type = r.ruleType.string := by rw [hreq]
  have hkey : item.delete.key = r.payload := by rw [hreq]
  rw [deletes_iff hdel hmem, HashMap.parse, htype, parseRule_string]
  constructor
  · rintro ⟨newRule, hnew, hpay⟩
    have hcolon : 58 ∉ r.payload := by
      intro hcolon
      rcases HashMap.colon_not_mem_payloadParams (hkey ▸ hcolon) with ⟨hfirst, hrest⟩
      by_cases htype : r.ruleType = .DstIPPort
      · rw [htype] at hnew
        exact dstIPPort_payload_ne htype hkey hnew hpay
      · have hnamed : r.ruleType.named ≠ .dstIPPort := by
          revert htype
          cases r.ruleType <;> decide
        rw [← hpay] at hcolon
        exact colon_not_mem_payload t hnamed hnew hfirst hrest hcolon
    rw [HashMap.payloadParams_of_not_mem (hkey ▸ hcolon)] at hnew
    refine ⟨hcolon, fun htype => ?_, fun htype => ?_⟩
    · rw [parse_portless (Or.inl htype)] at hnew
      cases hnew
    · rw [parse_portless (Or.inr htype)] at hnew
      cases hnew
  · rintro ⟨hcolon, hsrc, hdst⟩
    rw [HashMap.payloadParams_of_not_mem (hkey ▸ hcolon), hkey]
    unfold parseRule at hparsed
    split at hparsed
    · exact reparse t hparsed hcolon hsrc hdst _ _
    · cases hparsed

/-- A `DOMAIN-SUFFIX` rule in front of a final `MATCH`. -/
theorem deletes_listed_suffix :
    Deletes Unicode.ascii
      ⟨[.domainSuffix (str "com") (str "A") false, .final (str "B") false], Cache.empty, .empty⟩
      ⟨str "DOMAIN-SUFFIX", str "com", str "DELETE"⟩ (.domainSuffix (str "com") (str "A") false) := by
  have hparsed : parseRule Unicode.ascii (str "DOMAIN-SUFFIX") (str "COM") (str "A") [] =
      .parsed (.domainSuffix (str "com") (str "A") false) := by decide +kernel
  have hitem : (getRules ⟨[.domainSuffix (str "com") (str "A") false, .final (str "B") false],
      Cache.empty, .empty⟩)[0]? = some ⟨str "DOMAIN-SUFFIX", str "com", str "A"⟩ := rfl
  exact (deletes_listed_iff CaseTables.ascii hparsed rfl hitem).mpr (by decide)

/-- A rule for port 443 of `a.com` is listed under the name of the source port, with its port
behind a comma; the request to delete it panics. -/
theorem delete_listed_panics :
    parseRule Unicode.ascii (str "DOMAIN-DST-PORT") (str "a.com") (str "A") [str "443"] =
      .parsed (.domainAndPort (str "a.com") (str "A") (str "443") false false) ∧
    getRules ⟨[.domainAndPort (str "a.com") (str "A") (str "443") false false], Cache.empty, .empty⟩ =
      [⟨str "DOMAIN-SRC-PORT", str "a.com,443", str "A"⟩] ∧
    (updateHashMap Unicode.ascii
      ⟨[.domainAndPort (str "a.com") (str "A") (str "443") false false], Cache.empty, .empty⟩
      (some ⟨str "DOMAIN-SRC-PORT", str "a.com,443", str "DELETE"⟩)).1 = .panicked := by
  decide +kernel

end Route

end RuleBaseProxy
