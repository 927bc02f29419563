import RuleBaseProxy.Lib.OrderedMap
import RuleBaseProxy.Rule.Parser

/-! # The rule database

Rules added at run time are kept as text under `RuleType().String() + Payload()`
in one bucket. Loading reads the bucket in key order, parses every entry and
repairs the keys that do not fit.
-/

namespace RuleBaseProxy

open Go

def trimArr (arr : List Str) : List Str := arr.map (trim · 32)

/-- The bucket `map-string-rule`. -/
abbrev RuleDB := OrderedMap Str Str

def addStrRule (db : RuleDB) (key value : Str) : RuleDB := db.put key value

/-- `DeleteStrRule`. An absent key is only logged. -/
def deleteStrRule (db : RuleDB) (key : Str) : RuleDB := db.delete key

/-- The local variables of `LoadStrRule`, and the package-level `rules` it
appends to. -/
structure Load where
  rules : List Rule
  needReSetKey : List (Str × Str)
  deleteKey : List Str

def Load.init : Load := ⟨[], [], []⟩

/-- Payload and parameters as `LoadStrRule` reads them off the second field. -/
def entryPayload (field : Str) : Str × List Str :=
  if 0 < field.count 58 then
    match trimArr (split field 58) with
    | payload :: param => (payload, param)
    | [] => (field, [str "no-resolve"])
  else (field, [str "no-resolve"])

/-- One turn of the loop of `LoadStrRule`; `none` for a panic. -/
def Load.turn (u : Unicode) (l : Load) (entry : Str × Str) : Option Load :=
  match trimArr (split entry.2 44) with
  | [tp, field, target] =>
      match parseRule u tp (entryPayload field).1 target (entryPayload field).2 with
      | .parsed r =>
          if entry.1 ≠ r.dbKey then
            some ⟨l.rules ++ [r], l.needReSetKey ++ [(r.dbKey, entry.2)], l.deleteKey ++ [entry.1]⟩
          else some { l with rules := l.rules ++ [r] }
      | .failed _ => some l
      | .nilRule => none
      | .panicked => none
  | _ => some { l with deleteKey := l.deleteKey ++ [entry.1] }

def Load.entries (u : Unicode) : Load → List (Str × Str) → Option Load
  | l, [] => some l
  | l, e :: es => (l.turn u e).bind fun l => l.entries u es

def Load.repair (l : Load) (db : RuleDB) : RuleDB :=
  l.deleteKey.foldl deleteStrRule (l.needReSetKey.foldl (fun db e => addStrRule db e.1 e.2) db)

/-- `LoadStrRule`, with the database as it leaves it; `none` for a panic. -/
def loadStrRule (u : Unicode) (db : RuleDB) : Option (List Rule × RuleDB) :=
  (Load.init.entries u db.entries).map fun l => (l.rules, l.repair db)

def loadRule (u : Unicode) (db : RuleDB) (rules : List Rule) : Option (List Rule × RuleDB) :=
  (loadStrRule u db).map fun r => (r.1 ++ rules, r.2)

theorem Load.rules_turn {u : Unicode} {l l' : Load} {entry : Str × Str}
    (h : l.turn u entry = some l') : l.rules <+: l'.rules := by
  unfold Load.turn at h
  split at h
  · split at h
    · split at h <;> cases h <;> exact List.prefix_append _ _
    · cases h
      exact List.prefix_refl _
    · cases h
    · cases h
  · cases h
    exact List.prefix_refl _

theorem Load.rules_entries {u : Unicode} {l l' : Load} {es : List (Str × Str)}
    (h : l.entries u es = some l') : l.rules <+: l'.rules := by
  induction es generalizing l with
  | nil =>
      cases h
      exact List.prefix_refl _
  | cons e es ih =>
      obtain ⟨l₁, hturn, hrest⟩ := Option.bind_eq_some_iff.mp h
      exact (Load.rules_turn hturn).trans (ih hrest)

end RuleBaseProxy
