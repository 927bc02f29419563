import RuleBaseProxy.Route.Restart

/-! # One entry for one type and payload

The database key is the name of the type and the payload with nothing between
them, and `DOMAIN` begins four other names. What `ParseRule` accepts keeps the
keys apart all the same, so a request works on the entry of its own type and
payload, and the entries of other rules outlast every run of requests.
-/

namespace RuleBaseProxy.Route

open Go TransitionSystem

def SameEntry (r r' : Rule) : Prop := r.ruleType = r'.ruleType ∧ r.payload = r'.payload

instance (r r' : Rule) : Decidable (SameEntry r r') :=
  inferInstanceAs (Decidable (r.ruleType = r'.ruleType ∧ r.payload = r'.payload))

/-- The body asks for a change of another entry than that of `r`, or of none. -/
def SparesEntry (u : Unicode) (r : Rule) (body : Option HashMap) : Prop :=
  ∀ req newRule, body = some req → req.parse u = .parsed newRule → ¬ SameEntry newRule r

variable {u : Unicode} {r r' : Rule}

theorem dbKey_ne_of_not_sameEntry (hr : r.WellFormed) (hr' : r'.WellFormed)
    (h : ¬ SameEntry r r') : r'.dbKey ≠ r.dbKey :=
  fun heq => h (Rule.dbKey_inj hr hr' heq.symm)

theorem mem_addStrRule_of_ne {db : RuleDB} {key key' value text : Str} (h : key' ≠ key) :
    (key', text) ∈ (addStrRule db key value).entries ↔ (key', text) ∈ db.entries := by
  rw [addStrRule, OrderedMap.mem_put]
  constructor
  · rintro (heq | ⟨hmem, -⟩)
    · cases heq
      exact absurd rfl h
    · exact hmem
  · intro hmem
    exact Or.inr ⟨hmem, h⟩

theorem mem_deleteStrRule_of_ne {db : RuleDB} {key key' text : Str} (h : key' ≠ key) :
    (key', text) ∈ (deleteStrRule db key).entries ↔ (key', text) ∈ db.entries := by
  rw [deleteStrRule, OrderedMap.mem_delete]
  exact and_iff_left h

/-- One request: whatever it does to the database, it does under its own key. -/
theorem mem_updateHashMap_of_spares (s : State) {body : Option HashMap} (hr : r.WellFormed)
    (h : SparesEntry u r body) (text : Str) :
    (r.dbKey, text) ∈ (updateHashMap u s body).2.1.db.entries ↔
      (r.dbKey, text) ∈ s.db.entries := by
  by_cases hok : (updateHashMap u s body).1 = .noContent
  · cases body with
    | none => cases hok
    | some req =>
        cases hparse : req.parse u with
        | parsed newRule =>
            have hne : r.dbKey ≠ newRule.dbKey :=
              dbKey_ne_of_not_sameEntry (parseRule_parsed hparse).1 hr (h req newRule rfl hparse)
            rw [updateHashMap_of_parsed s hparse]
            by_cases hdel : req.IsDelete
            · simp only [if_pos hdel]
              exact mem_deleteStrRule_of_ne hne
            · simp only [if_neg hdel]
              exact mem_addStrRule_of_ne hne
        | failed msg => simp [updateHashMap, hparse] at hok
        | nilRule => simp [updateHashMap, hparse] at hok
        | panicked => simp [updateHashMap, hparse] at hok
  · rw [updateHashMap_of_rejected hok]

theorem mem_run_of_spares (hr : r.WellFormed) (bodies : List (Option HashMap))
    (h : ∀ body ∈ bodies, SparesEntry u r body) {s t : State}
    (hrun : (requests u).run s bodies = some t) (text : Str) :
    (r.dbKey, text) ∈ t.db.entries ↔ (r.dbKey, text) ∈ s.db.entries := by
  induction bodies generalizing s with
  | nil =>
      cases hrun
      rfl
  | cons body bodies ih =>
      rw [ih (fun b hb => h b (List.mem_cons_of_mem body hb)) hrun]
      exact mem_updateHashMap_of_spares s hr (h body List.mem_cons_self) text

/-- Rules with one key have one type and one payload. So adding or deleting a rule leaves
the entries of all others as they are, and so does every run of requests for other rules. -/
theorem ruleEntries_separate {tp payload target : Str} {params : List Str}
    (hr : parseRule u tp payload target params = .parsed r) :
    (∀ (tp' payload' target' : Str) (params' : List Str) (r' : Rule),
      parseRule u tp' payload' target' params' = .parsed r' →
        (r'.dbKey = r.dbKey → r'.ruleType = r.ruleType ∧ r'.payload = r.payload) ∧
        (¬ (r'.ruleType = r.ruleType ∧ r'.payload = r.payload) →
          ∀ (db : RuleDB) (value text : Str),
            ((r.dbKey, text) ∈ (addStrRule db r'.dbKey value).entries ↔
              (r.dbKey, text) ∈ db.entries) ∧
            ((r.dbKey, text) ∈ (deleteStrRule db r'.dbKey).entries ↔
              (r.dbKey, text) ∈ db.entries))) ∧
    ∀ (s t : State) (bodies : List (Option HashMap)), (∀ body ∈ bodies, SparesEntry u r body) →
      (requests u).run s bodies = some t →
        ∀ text, (r.dbKey, text) ∈ t.db.entries ↔ (r.dbKey, text) ∈ s.db.entries := by
  have hwell : r.WellFormed := (parseRule_parsed hr).1
  constructor
  · intro tp' payload' target' params' r' hr'
    have hwell' : r'.WellFormed := (parseRule_parsed hr').1
    constructor
    · exact Rule.dbKey_inj hwell' hwell
    · intro hother db value text
      have hne : r.dbKey ≠ r'.dbKey := dbKey_ne_of_not_sameEntry hwell' hwell hother
      exact ⟨mem_addStrRule_of_ne hne, mem_deleteStrRule_of_ne hne⟩
  · intro s t bodies hspares hrun text
    exact mem_run_of_spares hwell bodies hspares hrun text

/-- The domain `-SUFFIXa.com` is stored in lower case, beside the suffix `a.com`. -/
theorem ruleEntries_separate_suffix :
    parseRule Unicode.ascii (str "DOMAIN") (str "-SUFFIXa.com") (str "P") [] =
      .parsed (.domain (str "-suffixa.com") (str "P") false) ∧
    ∀ (db : RuleDB) (value text : Str),
      (str "DOMAIN-SUFFIXa.com", text) ∈
          (addStrRule db (str "DOMAIN-suffixa.com") value).entries ↔
        (str "DOMAIN-SUFFIXa.com", text) ∈ db.entries := by
  have hsuffix : parseRule Unicode.ascii (str "DOMAIN-SUFFIX") (str "a.com") (str "P") [] =
      .parsed (.domainSuffix (str "a.com") (str "P") false) := rfl
  refine ⟨rfl, fun db value text => ?_⟩
  exact (((ruleEntries_separate hsuffix).1 (str "DOMAIN") (str "-SUFFIXa.com") (str "P") []
    (.domain (str "-suffixa.com") (str "P") false) rfl).2 (by decide) db value text).1

end RuleBaseProxy.Route
