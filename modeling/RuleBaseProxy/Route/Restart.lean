import RuleBaseProxy.Route.Persist

/-! # Restarting from the rule database

The live rule list is newest first and loses rules by payload; the database has
one entry per type and payload, is read in key order and loses entries by key.
This module says under which requests the list rebuilt at the next start routes
as the live one did.
-/

namespace RuleBaseProxy.Route

open Go TransitionSystem

def requests (u : Unicode) : System State (Option HashMap) :=
  ⟨fun s body => some (updateHashMap u s body).2.1⟩

/-- The state after a start from the configuration file with an empty database. -/
def State.init (config : List Rule) : State := ⟨config, Cache.empty, .empty⟩

def describe (r : Rule) : RuleType × Str × Str := (r.ruleType, r.payload, r.adapter)

/-- A restart succeeds and every connection finds the same first matching rule. -/
def RestartPreserves (env : Env) (config : List Rule) (s : State) : Prop :=
  ∃ rebuilt db, loadRule env.unicode s.db config = some (rebuilt, db) ∧
    ∀ m, (rebuilt.find? (Rule.isMatch env m)).map describe =
      (s.rules.find? (Rule.isMatch env m)).map describe

/-- What an accepted request must meet. An added rule must survive its text
form, and no stored rule with a smaller key may match a connection that it
matches. A delete must remove rules of one type only, and none that the
configuration file brings back. -/
def Durable (env : Env) (config : List Rule) (s : State) (body : Option HashMap) : Prop :=
  ∀ req newRule, body = some req → req.parse env.unicode = .parsed newRule →
    if req.IsDelete then
      (∀ r ∈ s.rules, r.payload = newRule.payload → r.ruleType = newRule.ruleType) ∧
        ∀ r ∈ config, r.payload ≠ newRule.payload
    else
      (44 ∉ req.key ∧ 44 ∉ req.value ∧ trim req.key 32 = req.key ∧ trim req.value 32 = req.value) ∧
        ∀ r ∈ s.rules, r.dbKey ∈ s.db.entries.map Prod.fst → r.dbKey < newRule.dbKey →
          ∀ m, ¬ (newRule.isMatch env m = true ∧ r.isMatch env m = true)

/-! ## The text form -/

/-- The entry is read back as the rule, and its key needs no repair. -/
def Reloads (u : Unicode) (entry : Str × Str) (r : Rule) : Prop :=
  ∀ l : Load, l.turn u entry = some { l with rules := l.rules ++ [r] }

theorem reloads_text {u : Unicode} {req : HashMap} {newRule : Rule}
    (hparse : req.parse u = .parsed newRule) (hkey : 44 ∉ req.key) (hvalue : 44 ∉ req.value)
    (htrimKey : trim req.key 32 = req.key) (htrimValue : trim req.value 32 = req.value) :
    Reloads u (newRule.dbKey, req.text) newRule := by
  have hread := readEntry_of_plain hparse ⟨hkey, hvalue, htrimValue, Or.inr (Or.inr htrimKey)⟩
  intro l
  rw [Load.turn_eq, hread]
  exact if_neg (not_not.mpr rfl)

/-- Loading a bucket whose entries all reload reads the rules and repairs nothing. -/
theorem entries_of_reloads {u : Unicode} {g : Str × Str → Option Rule} {es : List (Str × Str)}
    (h : ∀ e ∈ es, ∃ r, g e = some r ∧ Reloads u e r) (l : Load) :
    l.entries u es = some { l with rules := l.rules ++ es.filterMap g } := by
  induction es generalizing l with
  | nil => simp [Load.entries]
  | cons e es ih =>
      obtain ⟨r, hr, hreload⟩ := h e List.mem_cons_self
      rw [Load.entries, hreload l, Option.bind_some,
        ih (fun e he => h e (List.mem_cons_of_mem _ he))]
      simp [hr]

/-! ## What ties the list to the database -/

/-- The rule of `added` that a key stands for: the newest one. -/
def newest (added : List Rule) (key : Str) : Option Rule := added.find? (·.dbKey = key)

/-- The live list is the rules added at run time, newest first, and the
configuration; the database holds the newest rule for every key. -/
structure InStep (env : Env) (config added : List Rule) (s : State) : Prop where
  rules : s.rules = added ++ config
  wellFormed : ∀ r ∈ added, r.WellFormed
  stored : ∀ e ∈ s.db.entries, ∃ r, newest added e.1 = some r ∧ Reloads env.unicode e r
  complete : ∀ r ∈ added, r.dbKey ∈ s.db.entries.map Prod.fst
  ranked : added.Pairwise fun a b => b.dbKey < a.dbKey →
    ∀ m, ¬ (a.isMatch env m = true ∧ b.isMatch env m = true)

variable {env : Env} {config added : List Rule} {s : State}

theorem InStep.restartPreserves (h : InStep env config added s) : RestartPreserves env config s := by
  have hload := entries_of_reloads (g := fun e => newest added e.1) h.stored .init
  refine ⟨s.db.entries.filterMap (fun e => newest added e.1) ++ config, s.db, ?_, fun m => ?_⟩
  · rw [loadRule, loadStrRule, hload]
    simp [Load.init, Load.repair]
  · have hsorted : (s.db.entries.map Prod.fst).Pairwise (· < ·) :=
      List.pairwise_map.mpr s.db.sorted
    have hindex : (s.db.entries.filterMap fun e => newest added e.1).find? (Rule.isMatch env m) =
        added.find? (Rule.isMatch env m) := by
      rw [← List.find?_index Rule.dbKey hsorted h.complete
        (fun a ha b hb hkey =>
          Rule.isMatch_of_dbKey_eq (h.wellFormed a ha) (h.wellFormed b hb) hkey env m)
        (h.ranked.imp fun hab hlt => hab hlt m), List.filterMap_map]
      rfl
    rw [h.rules, List.find?_append, List.find?_append, hindex]

theorem inStep_init (env : Env) (config : List Rule) :
    InStep env config [] (State.init config) where
  rules := rfl
  wellFormed := by simp
  stored := by simp [State.init, OrderedMap.empty]
  complete := by simp
  ranked := List.Pairwise.nil

theorem newest_cons_self (r : Rule) (added : List Rule) : newest (r :: added) r.dbKey = some r := by
  simp [newest]

theorem newest_cons_of_ne {r : Rule} {key : Str} (h : key ≠ r.dbKey) (added : List Rule) :
    newest (r :: added) key = newest added key := by
  simp [newest, Ne.symm h]

theorem InStep.add (h : InStep env config added s) {req : HashMap} {newRule : Rule}
    (hparse : req.parse env.unicode = .parsed newRule) (hadd : ¬ req.IsDelete)
    (hdurable : Durable env config s (some req)) :
    InStep env config (newRule :: added) (updateHashMap env.unicode s (some req)).2.1 := by
  have hcond := hdurable req newRule rfl hparse
  rw [if_neg hadd] at hcond
  obtain ⟨⟨hkey, hvalue, htrimKey, htrimValue⟩, hrank⟩ := hcond
  rw [updateHashMap_of_parsed s hparse]
  simp only [hadd, ↓reduceIte, HashMap.newRules, addStrRule]
  exact {
    rules := by simp [h.rules]
    wellFormed := by
      intro r hr
      rcases List.mem_cons.mp hr with rfl | hr
      · exact (parseRule_parsed hparse).1
      · exact h.wellFormed r hr
    stored := by
      intro e he
      rcases OrderedMap.mem_put.mp he with rfl | ⟨he, hne⟩
      · exact ⟨newRule, newest_cons_self newRule added,
          reloads_text hparse hkey hvalue htrimKey htrimValue⟩
      · rw [newest_cons_of_ne hne]
        exact h.stored e he
    complete := by
      intro r hr
      by_cases hk : r.dbKey = newRule.dbKey
      · exact List.mem_map.mpr ⟨(newRule.dbKey, req.text), by simp, hk.symm⟩
      · rcases List.mem_cons.mp hr with rfl | hr
        · exact absurd rfl hk
        · obtain ⟨e, he, hek⟩ := List.mem_map.mp (h.complete r hr)
          exact List.mem_map.mpr ⟨e, OrderedMap.mem_put.mpr (Or.inr ⟨he, hek ▸ hk⟩), hek⟩
    ranked := by
      refine List.pairwise_cons.mpr ⟨fun b hb hlt => ?_, h.ranked⟩
      exact hrank b (by simp [h.rules, hb]) (h.complete b hb) hlt }

theorem newest_filter_of_ne {k key : Str} (h : key ≠ k) (added : List Rule) :
    newest (added.filter (·.dbKey ≠ k)) key = newest added key := by
  rw [newest, newest, List.find?_filter]
  congr 1
  funext r
  by_cases hr : r.dbKey = key <;> simp [hr, h]

theorem filter_payload_eq (h : InStep env config added s) {newRule : Rule}
    (hwf : newRule.WellFormed)
    (htype : ∀ r ∈ s.rules, r.payload = newRule.payload → r.ruleType = newRule.ruleType) :
    added.filter (·.payload ≠ newRule.payload) = added.filter (·.dbKey ≠ newRule.dbKey) := by
  apply List.filter_congr
  intro r hr
  have hiff : r.payload = newRule.payload ↔ r.dbKey = newRule.dbKey := by
    constructor
    · intro hpay
      rw [Rule.dbKey, Rule.dbKey, htype r (by simp [h.rules, hr]) hpay, hpay]
    · exact fun hkey => (Rule.dbKey_inj (h.wellFormed r hr) hwf hkey).2
  simp only [ne_eq, hiff]

theorem InStep.delete (h : InStep env config added s) {req : HashMap} {newRule : Rule}
    (hparse : req.parse env.unicode = .parsed newRule) (hdel : req.IsDelete)
    (hdurable : Durable env config s (some req)) :
    InStep env config (added.filter (·.dbKey ≠ newRule.dbKey))
      (updateHashMap env.unicode s (some req)).2.1 := by
  have hcond := hdurable req newRule rfl hparse
  rw [if_pos hdel] at hcond
  obtain ⟨htype, hconfig⟩ := hcond
  rw [updateHashMap_of_parsed s hparse]
  simp only [hdel, ↓reduceIte, HashMap.newRules, deleteStrRule]
  exact {
    rules := by
      have hkeep : config.filter (·.payload ≠ newRule.payload) = config :=
        List.filter_eq_self.mpr fun r hr => by simpa using hconfig r hr
      simp only [h.rules, List.filter_append, hkeep,
        filter_payload_eq h (parseRule_parsed hparse).1 htype]
    wellFormed := fun r hr => h.wellFormed r (List.mem_filter.mp hr).1
    stored := by
      intro e he
      obtain ⟨he, hne⟩ := OrderedMap.mem_delete.mp he
      rw [newest_filter_of_ne hne]
      exact h.stored e he
    complete := by
      intro r hr
      obtain ⟨hr, hne⟩ := List.mem_filter.mp hr
      obtain ⟨e, he, hek⟩ := List.mem_map.mp (h.complete r hr)
      refine List.mem_map.mpr ⟨e, OrderedMap.mem_delete.mpr ⟨he, ?_⟩, hek⟩
      rw [hek]
      simpa using hne
    ranked := h.ranked.filter _ }

theorem InStep.step (h : ∃ added, InStep env config added s) {body : Option HashMap}
    (hdurable : Durable env config s body) {s' : State}
    (hs : (requests env.unicode).step s body = some s') : ∃ added, InStep env config added s' := by
  obtain ⟨added, h⟩ := h
  cases hs
  by_cases hok : (updateHashMap env.unicode s body).1 = .noContent
  · cases body with
    | none => cases hok
    | some req =>
        cases hparse : req.parse env.unicode with
        | parsed newRule =>
            by_cases hdel : req.IsDelete
            · exact ⟨_, h.delete hparse hdel hdurable⟩
            · exact ⟨_, h.add hparse hdel hdurable⟩
        | failed msg => simp [updateHashMap, hparse] at hok
        | nilRule => simp [updateHashMap, hparse] at hok
        | panicked => simp [updateHashMap, hparse] at hok
  · rw [updateHashMap_of_rejected hok]
    exact ⟨added, h⟩

/-- In a run of durable requests a restart preserves routing at every point. -/
theorem restart_preserves_routing (env : Env) (config : List Rule) (bodies : List (Option HashMap))
    (hdurable : (requests env.unicode).Guarded (Durable env config) (State.init config) bodies) :
    (requests env.unicode).Always (RestartPreserves env config) (State.init config) bodies := by
  have hinStep : (requests env.unicode).Always (fun s => ∃ added, InStep env config added s)
      (State.init config) bodies :=
    System.always_of_guarded _ (fun _ _ _ h hd hs => InStep.step h hd hs)
      ⟨[], inStep_init env config⟩ hdurable
  exact System.Always.mono _ (fun _ ⟨_, h⟩ => h.restartPreserves) hinStep

/-- Add `DOMAIN,a.com,A` to a configuration with a final `MATCH`, and delete it again. -/
theorem restart_after_add_and_delete :
    (requests Unicode.ascii).Always (RestartPreserves Env.bare [.final (str "B") false])
      (State.init [.final (str "B") false])
      [some ⟨str "DOMAIN", str "a.com", str "A"⟩, some ⟨str "DOMAIN", str "a.com", str "DELETE"⟩] := by
  refine restart_preserves_routing Env.bare [.final (str "B") false] _ ?_
  rintro s₁ ⟨⟩
  refine ⟨?_, ?_⟩
  · rintro req newRule ⟨⟩ ⟨⟩
    rw [if_neg (by decide)]
    exact ⟨by decide, fun r _ hkey => nomatch hkey⟩
  rintro s₂ ⟨⟩
  refine ⟨?_, trivial⟩
  rintro req newRule ⟨⟩ ⟨⟩
  rw [if_pos (by decide)]
  decide

def toDomain : Metadata :=
  ⟨.TCP, .SOCKS5, none, none, str "1234", str "443", atypDomainName, str "a.com"⟩

/-- The newer `DOMAIN` rule is asked first while the program runs; after a
restart the key order puts `DOMAIN-SUFFIX` before it. -/
theorem restart_changes_route :
    ((requests Unicode.ascii).run (State.init [])
        [some ⟨str "DOMAIN-SUFFIX", str "com", str "B"⟩,
          some ⟨str "DOMAIN", str "a.com", str "A"⟩]).map
      (fun s => ((s.rules.find? (Rule.isMatch Env.bare toDomain)).map describe,
        (loadRule Unicode.ascii s.db []).map fun r =>
          (r.1.find? (Rule.isMatch Env.bare toDomain)).map describe)) =
    some (some (.Domain, str "a.com", str "A"),
      some (some (.DomainSuffix, str "com", str "B"))) := by
  rfl

end RuleBaseProxy.Route
