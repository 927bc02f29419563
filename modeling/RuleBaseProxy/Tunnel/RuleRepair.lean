import Mathlib.Data.List.Pairwise
import RuleBaseProxy.Tunnel.RulesSaveDB

/-! # What loading does to the rule database

`LoadStrRule` collects the entries whose key is not that of their rule, stores
them again under the key of the rule and then deletes the old keys. Two entries
may ask for one key, and a key that is stored may be among those that are deleted
afterwards; where neither happens, nothing is lost and a second call changes nothing.
-/

namespace RuleBaseProxy

open Go

structure Rule.Agrees (r r' : Rule) : Prop where
  ruleType : r.ruleType = r'.ruleType
  payload : r.payload = r'.payload
  adapter : r.adapter = r'.adapter
  shouldResolveIP : r.shouldResolveIP = r'.shouldResolveIP
  multiDomainDialIP : r.multiDomainDialIP = r'.multiDomainDialIP
  isMatch : ∀ env m, r.isMatch env m = r'.isMatch env m

theorem Rule.Agrees.refl (r : Rule) : r.Agrees r := ⟨rfl, rfl, rfl, rfl, rfl, fun _ _ => rfl⟩

/-! ## Entries -/

/-- What `LoadStrRule` makes of a value. -/
inductive Reading where
  /-- Not three fields: the key is deleted. -/
  | malformed
  /-- A parse error: the entry stays as it is. -/
  | rejected
  | panics
  | rule (r : Rule)

def readEntry (u : Unicode) (value : Str) : Reading :=
  match trimArr (split value 44) with
  | [tp, field, target] =>
      match parseRule u tp (entryPayload field).1 target (entryPayload field).2 with
      | .parsed r => .rule r
      | .failed _ => .rejected
      | .nilRule => .panics
      | .panicked => .panics
  | _ => .malformed

theorem readEntry_of_fields (u : Unicode) {value tp field target : Str}
    (h : trimArr (split value 44) = [tp, field, target]) :
    readEntry u value =
      match parseRule u tp (entryPayload field).1 target (entryPayload field).2 with
      | .parsed r => .rule r
      | .failed _ => .rejected
      | .nilRule => .panics
      | .panicked => .panics := by
  rw [readEntry, h]

theorem readEntry_malformed (u : Unicode) {value : Str}
    (h : ∀ tp field target, trimArr (split value 44) ≠ [tp, field, target]) :
    readEntry u value = .malformed := by
  unfold readEntry
  split
  · rename_i heq
    exact absurd heq (h _ _ _)
  · rfl

def Reading.rule? : Reading → Option Rule
  | .rule r => some r
  | _ => none

section Entries

variable (u : Unicode)

def ruleOf (e : Str × Str) : Option Rule := (readEntry u e.2).rule?

def renamed (e : Str × Str) : Option (Str × Str) :=
  (ruleOf u e).bind fun r => if e.1 ≠ r.dbKey then some (r.dbKey, e.2) else none

def dropped (e : Str × Str) : Bool :=
  match readEntry u e.2 with
  | .malformed => true
  | .rule r => e.1 ≠ r.dbKey
  | _ => false

end Entries

variable {u : Unicode}

theorem ruleOf_eq_some {e : Str × Str} {r : Rule} : ruleOf u e = some r ↔ readEntry u e.2 = .rule r := by
  unfold ruleOf
  cases readEntry u e.2 with
  | malformed => exact iff_of_false nofun nofun
  | rejected => exact iff_of_false nofun nofun
  | panics => exact iff_of_false nofun nofun
  | rule r' =>
      constructor
      · rintro ⟨⟩
        rfl
      · rintro ⟨⟩
        rfl

theorem renamed_eq_some {e kv : Str × Str} :
    renamed u e = some kv ↔ ∃ r, ruleOf u e = some r ∧ e.1 ≠ r.dbKey ∧ kv = (r.dbKey, e.2) := by
  unfold renamed
  constructor
  · intro h
    rcases Option.bind_eq_some_iff.mp h with ⟨r, hr, hkey⟩
    rcases Option.ite_none_right_eq_some.mp hkey with ⟨hne, hkv⟩
    exact ⟨r, hr, hne, (Option.some.inj hkv).symm⟩
  · rintro ⟨r, hr, hne, rfl⟩
    rw [hr, Option.bind_some, if_pos hne]

theorem dropped_of_ruleOf {e : Str × Str} {r : Rule} (h : ruleOf u e = some r) :
    dropped u e = true ↔ e.1 ≠ r.dbKey := by
  rw [dropped, ruleOf_eq_some.mp h]
  exact decide_eq_true_iff

theorem Load.turn_eq (l : Load) (e : Str × Str) :
    l.turn u e =
      match readEntry u e.2 with
      | .malformed => some { l with deleteKey := l.deleteKey ++ [e.1] }
      | .rejected => some l
      | .panics => none
      | .rule r =>
          if e.1 ≠ r.dbKey then
            some ⟨l.rules ++ [r], l.needReSetKey ++ [(r.dbKey, e.2)], l.deleteKey ++ [e.1]⟩
          else some { l with rules := l.rules ++ [r] } := by
  unfold Load.turn
  split
  · rename_i tp field target hfields
    rw [readEntry_of_fields u hfields]
    cases parseRule u tp (entryPayload field).1 target (entryPayload field).2 with
    | parsed r => rfl
    | failed msg => rfl
    | nilRule => rfl
    | panicked => rfl
  · rename_i hshape
    rw [readEntry_malformed u hshape]

theorem Load.turn_of_not_panics {e : Str × Str} (h : readEntry u e.2 ≠ .panics) (l : Load) :
    l.turn u e = some ⟨l.rules ++ (ruleOf u e).toList, l.needReSetKey ++ (renamed u e).toList,
      l.deleteKey ++ if dropped u e then [e.1] else []⟩ := by
  rw [Load.turn_eq]
  cases hread : readEntry u e.2 with
  | malformed => simp [ruleOf, renamed, dropped, hread, Reading.rule?]
  | rejected => simp [ruleOf, renamed, dropped, hread, Reading.rule?]
  | panics => exact absurd hread h
  | rule r =>
      by_cases hkey : e.1 = r.dbKey
      · simp [ruleOf, renamed, dropped, hread, Reading.rule?, hkey]
      · simp [ruleOf, renamed, dropped, hread, Reading.rule?, hkey]

/-! ## The load -/

theorem filterMap_cons_toList {α β : Type} (f : α → Option β) (a : α) (l : List α) :
    (a :: l).filterMap f = (f a).toList ++ l.filterMap f := by
  cases h : f a with
  | none => simp [h]
  | some b => simp [h]

theorem Load.entries_of_not_panics {es : List (Str × Str)} (h : ∀ e ∈ es, readEntry u e.2 ≠ .panics)
    (l : Load) :
    l.entries u es = some ⟨l.rules ++ es.filterMap (ruleOf u),
      l.needReSetKey ++ es.filterMap (renamed u),
      l.deleteKey ++ (es.filter (dropped u)).map Prod.fst⟩ := by
  induction es generalizing l with
  | nil => simp [Load.entries]
  | cons e es ih =>
      rw [Load.entries, Load.turn_of_not_panics (h e List.mem_cons_self), Option.bind_some,
        ih fun e he => h e (List.mem_cons_of_mem _ he)]
      have hkeys : ((e :: es).filter (dropped u)).map Prod.fst =
          (if dropped u e then [e.1] else []) ++ (es.filter (dropped u)).map Prod.fst := by
        cases hdrop : dropped u e with
        | true => simp [hdrop]
        | false => simp [hdrop]
      rw [filterMap_cons_toList, filterMap_cons_toList, hkeys]
      simp only [List.append_assoc]

theorem Load.not_panics_of_entries {es : List (Str × Str)} {l l' : Load}
    (h : l.entries u es = some l') : ∀ e ∈ es, readEntry u e.2 ≠ .panics := by
  induction es generalizing l with
  | nil => nofun
  | cons e es ih =>
      rcases Option.bind_eq_some_iff.mp h with ⟨l₁, hturn, hrest⟩
      intro e' he'
      rcases List.mem_cons.mp he' with rfl | he'
      · intro hpanics
        rw [Load.turn_eq, hpanics] at hturn
        cases hturn
      · exact ih hrest e' he'

/-- The keys that are to be stored again, and the keys to be deleted. -/
def repaired (u : Unicode) (db : RuleDB) : RuleDB :=
  ((db.entries.filter (dropped u)).map Prod.fst).foldl deleteStrRule
    ((db.entries.filterMap (renamed u)).foldl (fun db e => addStrRule db e.1 e.2) db)

/-- The load returns the rules of all entries, unless one of them panics. -/
theorem loadStrRule_eq_some_iff {db db' : RuleDB} {rules : List Rule} :
    loadStrRule u db = some (rules, db') ↔
      (∀ e ∈ db.entries, readEntry u e.2 ≠ .panics) ∧
        rules = db.entries.filterMap (ruleOf u) ∧ db' = repaired u db := by
  constructor
  · intro h
    rcases Option.map_eq_some_iff.mp h with ⟨l, hl, heq⟩
    have hnot := Load.not_panics_of_entries hl
    rw [Load.entries_of_not_panics hnot] at hl
    cases hl
    cases heq
    exact ⟨hnot, rfl, rfl⟩
  · rintro ⟨hnot, rfl, rfl⟩
    rw [loadStrRule, Load.entries_of_not_panics hnot]
    rfl

theorem not_mem_repaired {db : RuleDB} {e : Str × Str} (he : e ∈ db.entries)
    (hdrop : dropped u e = true) {value : Str} : (e.1, value) ∉ (repaired u db).entries := by
  intro hmem
  have hkey := ((OrderedMap.mem_foldl_delete _ _).mp hmem).2
  exact hkey (List.mem_map.mpr ⟨e, List.mem_filter.mpr ⟨he, hdrop⟩, rfl⟩)

/-! ## Repair that loses nothing -/

/-- Every rule that is returned is found under its key, and a second load returns the same
rules and leaves the database alone. -/
def RepairSound (u : Unicode) (db : RuleDB) : Prop :=
  ∃ rules db', loadStrRule u db = some (rules, db') ∧
    (∀ r ∈ rules, ∃ value r', (r.dbKey, value) ∈ db'.entries ∧ readEntry u value = .rule r' ∧
      r'.Agrees r) ∧
    ∃ rules', loadStrRule u db' = some (rules', db') ∧ rules'.Perm rules

/-- No entry panics, no two rules have one key, and a key to which an entry moves is free but
for an entry that does not parse. -/
structure Repairable (u : Unicode) (db : RuleDB) : Prop where
  returns : ∀ e ∈ db.entries, readEntry u e.2 ≠ .panics
  distinct : ∀ e ∈ db.entries, ∀ e' ∈ db.entries, ∀ r r', ruleOf u e = some r →
    ruleOf u e' = some r' → r.dbKey = r'.dbKey → e = e'
  free : ∀ e ∈ db.entries, ∀ r, ruleOf u e = some r → e.1 ≠ r.dbKey →
    ∀ e' ∈ db.entries, e'.1 = r.dbKey → readEntry u e'.2 = .rejected

variable {db : RuleDB}

theorem nodup_dbKeys_iff :
    ((db.entries.filterMap (ruleOf u)).map Rule.dbKey).Nodup ↔
      ∀ e ∈ db.entries, ∀ e' ∈ db.entries, ∀ r r', ruleOf u e = some r → ruleOf u e' = some r' →
        r.dbKey = r'.dbKey → e = e' := by
  rw [List.Nodup, List.pairwise_map, List.pairwise_filterMap]
  constructor
  · intro h e he e' he' r r' hr hr' hkey
    by_contra hne
    have hsymm : Std.Symm fun e e' : Str × Str => ∀ r, ruleOf u e = some r →
        ∀ r', ruleOf u e' = some r' → r.dbKey ≠ r'.dbKey :=
      ⟨fun _ _ h r hr r' hr' heq => h r' hr' r hr heq.symm⟩
    exact h.forall he he' hne r hr r' hr' hkey
  · intro h
    refine db.sorted.imp_of_mem fun he he' hlt r hr r' hr' hkey => ?_
    rw [h _ he _ he' r r' hr hr' hkey] at hlt
    exact lt_irrefl _ hlt

/-! ### Necessity -/

/-- A load that leaves the database as it is has found every rule under its key. -/
theorem key_of_repaired_eq (h : repaired u db = db) {e : Str × Str} (he : e ∈ db.entries) {r : Rule}
    (hr : ruleOf u e = some r) : e.1 = r.dbKey := by
  by_contra hne
  have hnot : (e.1, e.2) ∉ (repaired u db).entries :=
    not_mem_repaired he ((dropped_of_ruleOf hr).mpr hne)
  rw [h] at hnot
  exact hnot he

theorem nodup_dbKeys_of_repaired_eq (h : repaired u db = db) :
    ((db.entries.filterMap (ruleOf u)).map Rule.dbKey).Nodup := by
  rw [nodup_dbKeys_iff]
  intro e he e' he' r r' hr hr' hkey
  apply db.eq_of_key_eq he he'
  rw [key_of_repaired_eq h he hr, key_of_repaired_eq h he' hr', hkey]

theorem RepairSound.repairable (h : RepairSound u db) : Repairable u db := by
  rcases h with ⟨rules, db', hload, hstored, rules', hload', hperm⟩
  rcases loadStrRule_eq_some_iff.mp hload with ⟨hreturns, rfl, rfl⟩
  rcases loadStrRule_eq_some_iff.mp hload' with ⟨-, rfl, hsame⟩
  have hdistinct := nodup_dbKeys_iff.mp
    ((hperm.map Rule.dbKey).nodup_iff.mp (nodup_dbKeys_of_repaired_eq hsame.symm))
  refine ⟨hreturns, hdistinct, fun e he r hr hne e' he' hkey => ?_⟩
  have hkept : dropped u e' = false := by
    by_contra hdrop
    rcases hstored r (List.mem_filterMap.mpr ⟨e, he, hr⟩) with ⟨value, -, hmem, -⟩
    rw [← hkey] at hmem
    exact not_mem_repaired he' ((Bool.not_eq_false _).mp hdrop) hmem
  cases hread : readEntry u e'.2 with
  | malformed => simp [dropped, hread] at hkept
  | rejected => rfl
  | panics => exact absurd hread (hreturns e' he')
  | rule r' =>
      have hr' : ruleOf u e' = some r' := ruleOf_eq_some.mpr hread
      have hplace : e'.1 = r'.dbKey := by simpa [dropped, hread] using hkept
      have heq := hdistinct e he e' he' r r' hr hr' (hkey.symm.trans hplace)
      rw [heq] at hne
      exact absurd hkey hne

/-! ### Sufficiency -/

section Sufficient

variable (h : Repairable u db)
include h

theorem Repairable.nodup_renamed : ((db.entries.filterMap (renamed u)).map Prod.fst).Nodup := by
  rw [List.Nodup, List.pairwise_map, List.pairwise_filterMap]
  refine db.sorted.imp_of_mem fun he he' hlt kv hkv kv' hkv' hkey => ?_
  rcases renamed_eq_some.mp hkv with ⟨r, hr, -, rfl⟩
  rcases renamed_eq_some.mp hkv' with ⟨r', hr', -, rfl⟩
  rw [h.distinct _ he _ he' r r' hr hr' hkey] at hlt
  exact lt_irrefl _ hlt

theorem Repairable.mem_repaired {e : Str × Str} :
    e ∈ (repaired u db).entries ↔
      (e ∈ db.entries.filterMap (renamed u) ∨
        e ∈ db.entries ∧ e.1 ∉ (db.entries.filterMap (renamed u)).map Prod.fst) ∧
      e.1 ∉ (db.entries.filter (dropped u)).map Prod.fst := by
  unfold repaired deleteStrRule addStrRule
  rw [OrderedMap.mem_foldl_delete, OrderedMap.mem_foldl_put h.nodup_renamed]

/-- A key to which an entry moves is not deleted afterwards. -/
theorem Repairable.not_dropped_of_renamed {kv : Str × Str} (hkv : kv ∈ db.entries.filterMap (renamed u)) :
    kv.1 ∉ (db.entries.filter (dropped u)).map Prod.fst := by
  intro hmem
  rcases List.mem_filterMap.mp hkv with ⟨e, he, hrenamed⟩
  rcases renamed_eq_some.mp hrenamed with ⟨r, hr, hne, rfl⟩
  rcases List.mem_map.mp hmem with ⟨e', hfilter, hkey⟩
  rcases List.mem_filter.mp hfilter with ⟨he', hdrop⟩
  rw [dropped, h.free e he r hr hne e' he' hkey] at hdrop
  cases hdrop

/-- Every rule is stored under its key, with the value it was read from. -/
theorem Repairable.stored {e : Str × Str} (he : e ∈ db.entries) {r : Rule} (hr : ruleOf u e = some r) :
    (r.dbKey, e.2) ∈ (repaired u db).entries := by
  rw [h.mem_repaired]
  by_cases hkey : e.1 = r.dbKey
  · refine ⟨Or.inr ⟨by rw [← hkey]; exact he, fun hmem => ?_⟩, fun hmem => ?_⟩
    · rcases List.mem_map.mp hmem with ⟨kv, hkv, hkvkey⟩
      rcases List.mem_filterMap.mp hkv with ⟨e', he', hrenamed⟩
      rcases renamed_eq_some.mp hrenamed with ⟨r', hr', hne, rfl⟩
      have heq := h.distinct e he e' he' r r' hr hr' hkvkey.symm
      rw [← heq] at hne
      exact hne (hkey.trans hkvkey.symm)
    · rcases List.mem_map.mp hmem with ⟨e', hfilter, hkey'⟩
      rcases List.mem_filter.mp hfilter with ⟨he', hdrop⟩
      have heq := db.eq_of_key_eq he' he (hkey'.trans hkey.symm)
      rw [heq, dropped_of_ruleOf hr] at hdrop
      exact hdrop hkey
  · have hkv : (r.dbKey, e.2) ∈ db.entries.filterMap (renamed u) :=
      List.mem_filterMap.mpr ⟨e, he, renamed_eq_some.mpr ⟨r, hr, hkey, rfl⟩⟩
    exact ⟨Or.inl hkv, h.not_dropped_of_renamed hkv⟩

/-- What the repair leaves is one of the values there were, and none that is dropped. -/
theorem Repairable.of_mem_repaired {e : Str × Str} (he : e ∈ (repaired u db).entries) :
    (∃ e' ∈ db.entries, e'.2 = e.2) ∧ dropped u e = false := by
  rcases h.mem_repaired.mp he with ⟨hrenamed | ⟨hmem, -⟩, hnot⟩
  · rcases List.mem_filterMap.mp hrenamed with ⟨e', he', hkv⟩
    rcases renamed_eq_some.mp hkv with ⟨r, hr, -, rfl⟩
    refine ⟨⟨e', he', rfl⟩, ?_⟩
    have hr' : ruleOf u (r.dbKey, e'.2) = some r := hr
    exact Bool.eq_false_iff.mpr fun hdrop => (dropped_of_ruleOf hr').mp hdrop rfl
  · refine ⟨⟨e, hmem, rfl⟩, Bool.eq_false_iff.mpr fun hdrop => hnot ?_⟩
    exact List.mem_map_of_mem (List.mem_filter.mpr ⟨hmem, hdrop⟩)

theorem Repairable.repaired_repaired : repaired u (repaired u db) = repaired u db := by
  have hdropped : (repaired u db).entries.filter (dropped u) = [] :=
    List.filter_eq_nil_iff.mpr fun e he => by simp [(h.of_mem_repaired he).2]
  have hrenamed : (repaired u db).entries.filterMap (renamed u) = [] := by
    refine List.filterMap_eq_nil_iff.mpr fun e he => ?_
    by_contra hsome
    rcases Option.ne_none_iff_exists'.mp hsome with ⟨kv, hkv⟩
    rcases renamed_eq_some.mp hkv with ⟨r, hr, hne, -⟩
    have hdrop := (dropped_of_ruleOf hr).mpr hne
    rw [(h.of_mem_repaired he).2] at hdrop
    cases hdrop
  rw [repaired, hdropped, hrenamed]
  rfl

theorem Repairable.perm :
    ((repaired u db).entries.filterMap (ruleOf u)).Perm (db.entries.filterMap (ruleOf u)) := by
  have hnodup := (nodup_dbKeys_iff.mpr h.distinct).of_map
  have hnodup' := (nodup_dbKeys_of_repaired_eq h.repaired_repaired).of_map
  refine (List.perm_ext_iff_of_nodup hnodup' hnodup).mpr fun r => ?_
  constructor
  · intro hr
    rcases List.mem_filterMap.mp hr with ⟨e, he, hread⟩
    rcases (h.of_mem_repaired he).1 with ⟨e', he', hvalue⟩
    refine List.mem_filterMap.mpr ⟨e', he', ?_⟩
    rw [ruleOf, hvalue]
    exact hread
  · intro hr
    rcases List.mem_filterMap.mp hr with ⟨e, he, hread⟩
    exact List.mem_filterMap.mpr ⟨(r.dbKey, e.2), h.stored he hread, hread⟩

theorem Repairable.repairSound : RepairSound u db := by
  refine ⟨_, _, loadStrRule_eq_some_iff.mpr ⟨h.returns, rfl, rfl⟩, fun r hr => ?_, _,
    loadStrRule_eq_some_iff.mpr ⟨fun e he => ?_, rfl, h.repaired_repaired.symm⟩, h.perm⟩
  · rcases List.mem_filterMap.mp hr with ⟨e, he, hread⟩
    exact ⟨e.2, r, h.stored he hread, ruleOf_eq_some.mp hread, Rule.Agrees.refl r⟩
  · rcases (h.of_mem_repaired he).1 with ⟨e', he', hvalue⟩
    rw [← hvalue]
    exact h.returns e' he'

end Sufficient

/-- The repair loses nothing and is idempotent exactly on the databases in which the keys of
the rules do not collide. -/
theorem repairSound_iff (u : Unicode) (db : RuleDB) : RepairSound u db ↔ Repairable u db :=
  ⟨RepairSound.repairable, Repairable.repairSound⟩

/-- Two rules added by requests with the keys ` a.com` and `a.com`. -/
def paddedTwice : RuleDB :=
  (OrderedMap.empty.put (str "DOMAIN a.com") (str "DOMAIN, a.com,A")).put (str "DOMAINa.com")
    (str "DOMAIN,a.com,B")

/-- The first load returns both, and moves the first over the second. -/
theorem paddedTwice_not_repairSound : ¬ RepairSound Unicode.ascii paddedTwice := by
  rintro ⟨rules, db', hload, -, rules', hload', hperm⟩
  have hrun : ((loadStrRule Unicode.ascii paddedTwice).bind fun first =>
      (loadStrRule Unicode.ascii first.2).map fun second => (first.1.length, second.1.length)) =
      some (2, 1) := by
    decide +kernel
  rw [hload, Option.bind_some, hload'] at hrun
  have hlengths := Option.some.inj hrun
  have hlen := hperm.length_eq
  simp only [Prod.mk.injEq] at hlengths
  omega

end RuleBaseProxy
