import RuleBaseProxy.Lib.GoText
import RuleBaseProxy.Lib.NetParse
import RuleBaseProxy.Route.HashMap
import RuleBaseProxy.Rule.Usable
import RuleBaseProxy.Tunnel.RuleRepair

/-! # One rule through the database

An added rule is stored as `type,key,value`. The handler takes the key as it is
unless it has a colon, and the value as it is; loading splits at every comma and
trims all three fields. This module says for which requests the rule read back is
the one that was installed.
-/

namespace RuleBaseProxy.Route

open Go Go.Net

/-- The types whose rules have no payload. -/
def payloadless : List Str := [str "MATCH", str "ALLIP"]

/-- No commas, no blanks around the value, and none around the key unless it has a colon or
is not read. -/
structure HashMap.Plain (req : HashMap) : Prop where
  key : 44 ∉ req.key
  value : 44 ∉ req.value
  trim_value : trim req.value 32 = req.value
  trim_key : 58 ∈ req.key ∨ req.type ∈ payloadless ∨ trim req.key 32 = req.key

/-- Loading the database yields one rule, which can stand in for `newRule`, and keeps the entry. -/
def ReloadsAs (u : Unicode) (db : RuleDB) (entry : Str × Str) (newRule : Rule) : Prop :=
  ∃ r db', loadStrRule u db = some ([r], db') ∧ r.Agrees newRule ∧ entry ∈ db'.entries

/-! ## The fields of an entry -/

theorem entryPayload_eq (req : HashMap) : entryPayload req.key = req.payloadParams := by
  unfold entryPayload HashMap.payloadParams
  by_cases hcolon : 58 ∈ req.key
  · obtain ⟨a, b, hab⟩ := List.append_of_mem hcolon
    rw [if_pos (List.count_pos_iff.mpr hcolon), hab, split_append_sep]
    obtain ⟨p, ps, hp⟩ := List.exists_cons_of_ne_nil (split_ne_nil a 58)
    obtain ⟨q, qs, hq⟩ := List.exists_cons_of_ne_nil (split_ne_nil b 58)
    cases ps <;> simp [trimArr, hp, hq]
  · rw [if_neg (by simpa using hcolon), split_of_not_mem hcolon]
    rfl

theorem ruleCases_plain : ∀ c ∈ ruleCases, 44 ∉ c.1 ∧ trim c.1 32 = c.1 := by
  decide +kernel

theorem type_plain {u : Unicode} {req : HashMap} {newRule : Rule}
    (h : req.parse u = .parsed newRule) : 44 ∉ req.type ∧ trim req.type 32 = req.type := by
  unfold HashMap.parse parseRule at h
  split at h
  · rename_i c hc
    obtain ⟨pre, post, hcases, -⟩ := List.lookup_eq_some_iff.mp hc
    exact ruleCases_plain (req.type, c) (by simp [hcases])
  · cases h

namespace HashMap

variable {req : HashMap}

/-- A request without commas of its own is read as its three fields, trimmed. -/
theorem fields_text (htype : 44 ∉ req.type ∧ trim req.type 32 = req.type) (hkey : 44 ∉ req.key)
    (hvalue : 44 ∉ req.value) :
    trimArr (split req.text 44) = [req.type, trim req.key 32, trim req.value 32] := by
  rw [text, split_append_sep, split_append_sep, split_of_not_mem htype.1, split_of_not_mem hkey,
    split_of_not_mem hvalue]
  simp [trimArr, htype.2]

theorem not_mem_of_fields {tp field target : Str}
    (h : trimArr (split req.text 44) = [tp, field, target]) : 44 ∉ req.key ∧ 44 ∉ req.value := by
  have hlen := congrArg List.length h
  rw [trimArr, List.length_map, text, split_append_sep, split_append_sep, List.length_append,
    List.length_append] at hlen
  simp only [List.length_cons, List.length_nil] at hlen
  have htype := one_le_length_split req.type 44
  have hkey := one_le_length_split req.key 44
  have hvalue := one_le_length_split req.value 44
  constructor
  · intro hmem
    have htwo := two_le_length_split hmem
    omega
  · intro hmem
    have htwo := two_le_length_split hmem
    omega

/-! ## Trimming the key -/

/-- A key with a colon is trimmed piece by piece on either side. -/
theorem entryPayload_trim {key : Str} (h : 58 ∈ key) :
    entryPayload (trim key 32) = entryPayload key := by
  have hpieces : trimArr (split (trim key 32) 58) = trimArr (split key 58) :=
    map_trim_split_trim (by decide) h
  have hcount : 0 < (trim key 32).count 58 :=
    List.count_pos_iff.mpr ((mem_trim (by decide)).mpr h)
  have hcount' : 0 < key.count 58 := List.count_pos_iff.mpr h
  have hne : trimArr (split key 58) ≠ [] := fun hnil => split_ne_nil key 58 (List.map_eq_nil_iff.mp hnil)
  unfold entryPayload
  rw [if_pos hcount, if_pos hcount', hpieces]
  cases hsplit : trimArr (split key 58) with
  | nil => exact absurd hsplit hne
  | cons payload param => rfl

theorem entryPayload_of_not_mem {key : Str} (h : 58 ∉ key) :
    entryPayload key = (key, [str "no-resolve"]) :=
  if_neg (by simpa using h)

end HashMap

theorem trim_eq_of_toLower_eq (t : CaseTables) {payload : Str}
    (h : toLower t.toUnicode (trim payload 32) = toLower t.toUnicode payload) :
    trim payload 32 = payload := by
  apply trim_eq_self_of_count
  have hcount := t.count_toLower (b := 32) (by decide) (by decide)
  rw [← hcount, h, hcount]

theorem trim_eq_of_parseCIDR {payload : Str} {ipnet : IPNet} (h : parseCIDR payload = some ipnet) :
    trim payload 32 = payload := by
  apply trim_of_not_mem
  intro hmem
  rw [parseCIDR_eq_none_of_mem (by decide) (by decide) (by decide) (by decide) hmem] at h
  cases h

/-- Where a payload and its trimmed form are parsed to rules of one payload, there was nothing
to trim. -/
theorem trim_eq_of_payload_eq (t : CaseTables) {c : RuleCase} {payload target target' : Str}
    {params : List Str} {r r' : Rule} (hfinal : c ≠ .final) (hallip : c ≠ .allip)
    (h : c.parse t.toUnicode payload target params = .parsed r)
    (h' : c.parse t.toUnicode (trim payload 32) target' params = .parsed r')
    (hpay : r'.payload = r.payload) : trim payload 32 = payload := by
  cases c with
  | domain | domainSuffix | domainKeyword =>
      cases h
      cases h'
      exact trim_eq_of_toLower_eq t hpay
  | geoip | processName =>
      cases h
      cases h'
      exact hpay
  | ipCIDR | srcIPCIDR =>
      rcases newIPCIDR_parsed h with ⟨ipnet, hnet, -⟩
      exact trim_eq_of_parseCIDR hnet
  | dstIPPort =>
      simp only [RuleCase.parse] at h
      split at h
      · cases h
      · rcases newIPCIDR_parsed h with ⟨ipnet, hnet, -⟩
        exact trim_eq_of_parseCIDR hnet
  | srcPort | dstPort =>
      rcases newPort_parsed h with ⟨hnum, -⟩
      exact trim_of_not_mem (not_mem_of_atoi hnum (by decide) (by decide) (by decide))
  | final => exact absurd rfl hfinal
  | allip => exact absurd rfl hallip
  | domainSrcPort | domainDstPort =>
      cases params with
      | nil => cases h
      | cons port params =>
          rcases newDomainAndPort_parsed h with ⟨-, rfl⟩
          rcases newDomainAndPort_parsed h' with ⟨-, rfl⟩
          exact trim_eq_of_toLower_eq t (List.append_cancel_right (List.append_cancel_right hpay))

/-! ## Types without a payload -/

theorem ruleCases_payloadless :
    ∀ c ∈ ruleCases, c.1 ∈ payloadless ↔ c.2 = .final ∨ c.2 = .allip := by
  decide +kernel

theorem payloadless_iff {tp : Str} {c : RuleCase} (h : ruleCases.lookup tp = some c) :
    tp ∈ payloadless ↔ c = .final ∨ c = .allip := by
  rcases List.lookup_eq_some_iff.mp h with ⟨pre, post, hcases, -⟩
  exact ruleCases_payloadless (tp, c) (by simp [hcases])

theorem parseRule_payloadless {tp : Str} (h : tp ∈ payloadless) (u : Unicode)
    (payload payload' target : Str) (params : List Str) :
    parseRule u tp payload target params = parseRule u tp payload' target params := by
  unfold parseRule
  cases hcase : ruleCases.lookup tp with
  | none => rfl
  | some c =>
      rcases (payloadless_iff hcase).mp h with rfl | rfl
      · rfl
      · rfl

/-! ## The round trip -/

theorem reloadsAs_iff_readEntry {u : Unicode} {newRule : Rule} {value : Str} :
    ReloadsAs u (addStrRule .empty newRule.dbKey value) (newRule.dbKey, value) newRule ↔
      ∃ r, readEntry u value = .rule r ∧ r.Agrees newRule := by
  have hentries : (addStrRule .empty newRule.dbKey value).entries = [(newRule.dbKey, value)] := rfl
  constructor
  · rintro ⟨r, db', hload, hagrees, -⟩
    have hrules := (loadStrRule_eq_some_iff.mp hload).2.1
    rw [hentries] at hrules
    have hmem : r ∈ [(newRule.dbKey, value)].filterMap (ruleOf u) := by
      rw [← hrules]
      exact List.mem_cons_self
    rcases List.mem_filterMap.mp hmem with ⟨e, he, hr⟩
    rw [List.mem_singleton.mp he, ruleOf_eq_some] at hr
    exact ⟨r, hr, hagrees⟩
  · rintro ⟨r, hread, hagrees⟩
    have hr : ruleOf u (newRule.dbKey, value) = some r := ruleOf_eq_some.mpr hread
    have hkey : newRule.dbKey = r.dbKey := by
      rw [Rule.dbKey, Rule.dbKey, hagrees.ruleType, hagrees.payload]
    have hdropped : dropped u (newRule.dbKey, value) = false :=
      Bool.eq_false_iff.mpr fun hdrop => (dropped_of_ruleOf hr).mp hdrop hkey
    have hrenamed : renamed u (newRule.dbKey, value) = none := by
      rw [renamed, hr, Option.bind_some, if_neg (not_not.mpr hkey)]
    have hrepaired : repaired u (addStrRule .empty newRule.dbKey value) =
        addStrRule .empty newRule.dbKey value := by
      rw [repaired, hentries]
      simp [hdropped, hrenamed]
    refine ⟨r, _, loadStrRule_eq_some_iff.mpr ⟨fun e he => ?_, ?_, rfl⟩, hagrees, ?_⟩
    · rw [hentries] at he
      rw [List.mem_singleton.mp he, hread]
      intro hpanics
      cases hpanics
    · rw [hentries]
      simp [hr]
    · rw [hrepaired, hentries]
      exact List.mem_cons_self

theorem readEntry_of_plain {u : Unicode} {req : HashMap} {newRule : Rule}
    (hparse : req.parse u = .parsed newRule) (hplain : req.Plain) :
    readEntry u req.text = .rule newRule := by
  have hreload : parseRule u req.type (entryPayload (trim req.key 32)).1 req.value
      (entryPayload (trim req.key 32)).2 = .parsed newRule := by
    rw [HashMap.parse, ← entryPayload_eq] at hparse
    by_cases hcolon : 58 ∈ req.key
    · rw [HashMap.entryPayload_trim hcolon]
      exact hparse
    have hcolon' : 58 ∉ trim req.key 32 := fun h => hcolon ((mem_trim (by decide)).mp h)
    rw [HashMap.entryPayload_of_not_mem hcolon] at hparse
    rw [HashMap.entryPayload_of_not_mem hcolon']
    rcases hplain.trim_key.resolve_left hcolon with hless | htrim
    · rw [parseRule_payloadless hless _ (trim req.key 32) req.key]
      exact hparse
    · rw [htrim]
      exact hparse
  rw [readEntry_of_fields _ (HashMap.fields_text (type_plain hparse) hplain.key hplain.value),
    hplain.trim_value, hreload]

theorem plain_of_readEntry (t : CaseTables) {req : HashMap} {newRule r : Rule}
    (hparse : req.parse t.toUnicode = .parsed newRule) (hread : readEntry t.toUnicode req.text = .rule r)
    (hagrees : r.Agrees newRule) : req.Plain := by
  have hfields : ∃ tp field target, trimArr (split req.text 44) = [tp, field, target] := by
    by_contra hnot
    push Not at hnot
    rw [readEntry_malformed t.toUnicode hnot] at hread
    cases hread
  rcases hfields with ⟨tp, field, target, hfields⟩
  rcases HashMap.not_mem_of_fields hfields with ⟨hkey, hvalue⟩
  rw [readEntry_of_fields _ (HashMap.fields_text (type_plain hparse) hkey hvalue)] at hread
  cases hreload : parseRule t.toUnicode req.type (entryPayload (trim req.key 32)).1
      (trim req.value 32) (entryPayload (trim req.key 32)).2 with
  | nilRule => rw [hreload] at hread; cases hread
  | failed msg => rw [hreload] at hread; cases hread
  | panicked => rw [hreload] at hread; cases hread
  | parsed r' =>
      rw [hreload] at hread
      cases hread
      have hadapter : trim req.value 32 = req.value := by
        rw [← (parseRule_parsed hreload).2, hagrees.adapter, (parseRule_parsed hparse).2]
      refine ⟨hkey, hvalue, hadapter, ?_⟩
      by_cases hcolon : 58 ∈ req.key
      · exact Or.inl hcolon
      by_cases hless : req.type ∈ payloadless
      · exact Or.inr (Or.inl hless)
      have hcolon' : 58 ∉ trim req.key 32 := fun h => hcolon ((mem_trim (by decide)).mp h)
      rw [HashMap.parse, ← entryPayload_eq, HashMap.entryPayload_of_not_mem hcolon] at hparse
      rw [HashMap.entryPayload_of_not_mem hcolon'] at hreload
      unfold parseRule at hparse hreload
      cases hcase : ruleCases.lookup req.type with
      | none =>
          rw [hcase] at hparse
          cases hparse
      | some c =>
          rw [hcase] at hparse hreload
          have hc := mt (payloadless_iff hcase).mpr hless
          rw [not_or] at hc
          exact Or.inr (Or.inr (trim_eq_of_payload_eq t hc.1 hc.2 hparse hreload hagrees.payload))

/-- An added rule reloads as itself exactly if there is a rule, and the request is plain. -/
theorem reloadsAs_iff (t : CaseTables) {req : HashMap} (hadd : ¬ req.IsDelete)
    (hok : ∀ msg, req.parse t.toUnicode ≠ .failed msg) (s : State) :
    (∃ newRule, req.parse t.toUnicode = .parsed newRule ∧
      ReloadsAs t.toUnicode (updateHashMap t.toUnicode { s with db := .empty } (some req)).2.1.db
        (newRule.dbKey, req.text) newRule) ↔
      PortGiven req.type req.payloadParams.2 ∧ req.Plain := by
  have hdb : ∀ {newRule : Rule}, req.parse t.toUnicode = .parsed newRule →
      (updateHashMap t.toUnicode { s with db := .empty } (some req)).2.1.db =
        addStrRule .empty newRule.dbKey req.text := by
    intro newRule hparse
    rw [updateHashMap_of_parsed _ hparse]
    exact if_neg hadd
  rw [portGiven_iff_parsed hok]
  constructor
  · rintro ⟨newRule, hparse, hreloads⟩
    rw [hdb hparse, reloadsAs_iff_readEntry] at hreloads
    rcases hreloads with ⟨r, hread, hagrees⟩
    exact ⟨⟨newRule, hparse⟩, plain_of_readEntry t hparse hread hagrees⟩
  · rintro ⟨⟨newRule, hparse⟩, hplain⟩
    refine ⟨newRule, hparse, ?_⟩
    rw [hdb hparse, reloadsAs_iff_readEntry]
    exact ⟨newRule, readEntry_of_plain hparse hplain, Rule.Agrees.refl newRule⟩

/-- `IP-CIDR` with the key ` 10.0.0.0/8 : dial-ip `, whose blanks are trimmed on both paths. -/
theorem reloadsAs_padded_cidr :
    ∃ newRule, HashMap.parse Unicode.ascii ⟨str "IP-CIDR", str " 10.0.0.0/8 : dial-ip ", str "A"⟩ =
        .parsed newRule ∧
      ReloadsAs Unicode.ascii
        (updateHashMap Unicode.ascii ⟨[], Cache.empty, .empty⟩
          (some ⟨str "IP-CIDR", str " 10.0.0.0/8 : dial-ip ", str "A"⟩)).2.1.db
        (newRule.dbKey, str "IP-CIDR, 10.0.0.0/8 : dial-ip ,A") newRule := by
  have hparse : HashMap.parse Unicode.ascii ⟨str "IP-CIDR", str " 10.0.0.0/8 : dial-ip ", str "A"⟩ =
      .parsed (.ipcidr ⟨⟨[10, 0, 0, 0], Or.inl rfl⟩, 8⟩ (str "A") false false none true) := by
    decide +kernel
  refine (reloadsAs_iff CaseTables.ascii (by decide) (fun msg hfailed => ?_)
    ⟨[], Cache.empty, .empty⟩).mpr ⟨fun c hc => ?_, ?_⟩
  · cases hparse.symm.trans hfailed
  · cases hc
    trivial
  · exact ⟨by decide, by decide, by decide, Or.inl (by decide)⟩

/-- A blank before the key is part of the live rule and not of the reloaded one; a comma in
it loses the rule. -/
theorem reload_changes_rule :
    HashMap.parse Unicode.ascii ⟨str "DOMAIN", str " a.com", str "A"⟩ =
      .parsed (.domain (str " a.com") (str "A") false) ∧
    (loadStrRule Unicode.ascii (updateHashMap Unicode.ascii ⟨[], Cache.empty, .empty⟩
        (some ⟨str "DOMAIN", str " a.com", str "A"⟩)).2.1.db).map Prod.fst =
      some [.domain (str "a.com") (str "A") false] ∧
    HashMap.parse Unicode.ascii ⟨str "PROCESS-NAME", str "a,b", str "A"⟩ =
      .parsed (.process (str "a,b") (str "A") false) ∧
    (loadStrRule Unicode.ascii (updateHashMap Unicode.ascii ⟨[], Cache.empty, .empty⟩
        (some ⟨str "PROCESS-NAME", str "a,b", str "A"⟩)).2.1.db).map Prod.fst = some [] := by
  decide +kernel

end RuleBaseProxy.Route
