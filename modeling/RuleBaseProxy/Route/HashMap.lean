import RuleBaseProxy.Lib.SharedUpdate
import RuleBaseProxy.Tunnel.MatchCache
import RuleBaseProxy.Tunnel.RulesSaveDB

/-! # The rule update handler

`updateHashMap` adds a rule in front of the list or deletes rules by payload,
and keeps the rule database in step. It reads the list without a lock and
replaces it afterwards, so two requests may overwrite each other.
-/

namespace RuleBaseProxy.Route

open Go TransitionSystem

structure HashMap where
  type : Str
  key : Str
  value : Str
deriving DecidableEq

structure State where
  rules : List Rule
  cm : Cache
  db : RuleDB

inductive Response where
  | badRequest
  /-- The handler returns without writing anything. -/
  | empty
  | noContent
  | panicked
deriving DecidableEq

def updateRules (s : State) (newRules : List Rule) : State :=
  { s with rules := newRules, cm := Cache.empty }

namespace HashMap

/-- Payload and parameters as the handler reads them off the key. -/
def payloadParams (req : HashMap) : Str × List Str :=
  match trimArr (split req.key 58) with
  | payload :: param :: params => (payload, param :: params)
  | _ => (req.key, [str "no-resolve"])

def parse (u : Unicode) (req : HashMap) : ParseResult :=
  parseRule u req.type req.payloadParams.1 req.value req.payloadParams.2

def IsDelete (req : HashMap) : Prop := req.value = str "DELETE"

instance (req : HashMap) : Decidable req.IsDelete :=
  inferInstanceAs (Decidable (req.value = str "DELETE"))

def text (req : HashMap) : Str := req.type ++ 44 :: (req.key ++ 44 :: req.value)

def newRules (req : HashMap) (newRule : Rule) (rules : List Rule) : List Rule :=
  if req.IsDelete then rules.filter (·.payload ≠ newRule.payload) else newRule :: rules

def closed (req : HashMap) (newRule : Rule) (rules : List Rule) : List Rule :=
  if req.IsDelete then rules.filter (·.payload = newRule.payload) else [newRule]

end HashMap

/-- `updateHashMap`: the response, the state it leaves, and the rules on which
`CloseRuleMatchCon` is called. `none` stands for a body that is not JSON. -/
def updateHashMap (u : Unicode) (s : State) (body : Option HashMap) :
    Response × State × List Rule :=
  match body with
  | none => (.badRequest, s, [])
  | some req =>
      match req.parse u with
      | .failed _ => (.empty, s, [])
      | .nilRule => (.panicked, s, [])
      | .panicked => (.panicked, s, [])
      | .parsed newRule =>
          let s' := updateRules s (req.newRules newRule s.rules)
          (.noContent,
            { s' with
              db := if req.IsDelete then deleteStrRule s.db newRule.dbKey
                else addStrRule s.db newRule.dbKey req.text },
            req.closed newRule s.rules)

theorem updateHashMap_of_rejected {u : Unicode} {s : State} {body : Option HashMap}
    (h : (updateHashMap u s body).1 ≠ .noContent) : (updateHashMap u s body).2 = (s, []) := by
  cases body with
  | none => rfl
  | some req =>
      cases hparse : req.parse u with
      | parsed newRule => simp [updateHashMap, hparse] at h
      | failed msg => simp [updateHashMap, hparse]
      | nilRule => simp [updateHashMap, hparse]
      | panicked => simp [updateHashMap, hparse]

theorem updateHashMap_of_parsed {u : Unicode} (s : State) {req : HashMap} {newRule : Rule}
    (h : req.parse u = .parsed newRule) :
    updateHashMap u s (some req) =
      (.noContent,
        ⟨req.newRules newRule s.rules, Cache.empty,
          if req.IsDelete then deleteStrRule s.db newRule.dbKey
          else addStrRule s.db newRule.dbKey req.text⟩,
        req.closed newRule s.rules) := by
  simp only [updateHashMap, h, updateRules]

/-! ## Deleting -/

/-- A delete removes exactly the rules of the given type and payload if and only
if no rule of another type has that payload. -/
theorem delete_removes_type_and_payload_iff (u : Unicode) (s : State) (req : HashMap)
    (newRule : Rule) (hdel : req.IsDelete) (hparse : req.parse u = .parsed newRule) :
    (updateHashMap u s (some req)).2.1.rules =
        s.rules.filter (fun r => ¬ (r.ruleType = newRule.ruleType ∧ r.payload = newRule.payload)) ↔
      ∀ r ∈ s.rules, r.payload = newRule.payload → r.ruleType = newRule.ruleType := by
  rw [updateHashMap_of_parsed s hparse]
  simp only [HashMap.newRules, hdel, ↓reduceIte]
  constructor
  · intro h r hr hpay
    by_contra htype
    have hmem : r ∈ s.rules.filter
        (fun r => ¬ (r.ruleType = newRule.ruleType ∧ r.payload = newRule.payload)) := by
      simp [hr, htype]
    rw [← h] at hmem
    simp [hpay] at hmem
  · intro h
    apply List.filter_congr
    intro r hr
    simp only [ne_eq, decide_not, Bool.not_eq_eq_eq_not, Bool.not_not, decide_eq_decide]
    exact ⟨fun hpay => ⟨h r hr hpay, hpay⟩, And.right⟩

/-- `DELETE` of `DOMAIN,a.com` from a list in which `a.com` occurs once. -/
theorem delete_domain_removes_domain :
    (updateHashMap Unicode.ascii
        ⟨[.domain (str "a.com") (str "A") false, .final (str "B") false], Cache.empty, .empty⟩
        (some ⟨str "DOMAIN", str "a.com", str "DELETE"⟩)).2.1.rules =
      [.final (str "B") false] :=
  (delete_removes_type_and_payload_iff Unicode.ascii
    ⟨[.domain (str "a.com") (str "A") false, .final (str "B") false], Cache.empty, .empty⟩
    ⟨str "DOMAIN", str "a.com", str "DELETE"⟩ (.domain (str "a.com") (str "DELETE") false)
    rfl rfl).mpr (by decide)

/-- `DELETE` of `ALLIP` takes the final `MATCH` with it. -/
theorem delete_allip_removes_final :
    HashMap.parse Unicode.ascii ⟨str "ALLIP", [], str "DELETE"⟩ =
      .parsed (.allip (str "DELETE") false) ∧
    (updateHashMap Unicode.ascii
        ⟨[.allip (str "A") false, .final (str "B") false], Cache.empty, .empty⟩
        (some ⟨str "ALLIP", [], str "DELETE"⟩)).2.1.rules = [] ∧
    [.allip (str "A") false, .final (str "B") false].filter
        (fun r : Rule => ¬ (r.ruleType = .ALLIP ∧ r.payload = [])) = [.final (str "B") false] := by
  decide +kernel

/-! ## Concurrent requests -/

structure Request (u : Unicode) where
  req : HashMap
  newRule : Rule
  parsed : req.parse u = .parsed newRule

variable {u : Unicode}

def Request.apply (q : Request u) (rules : List Rule) : List Rule :=
  q.req.newRules q.newRule rules

/-- A request that is not interrupted has the effect of the handler. -/
theorem Request.run_handler {ι : Type} [DecidableEq ι] (reqs : ι → Request u) (i : ι) (s : State)
    {t : SharedUpdate.State ι (List Rule)} (hshared : t.shared = s.rules)
    (hi : t.phase i = .idle) :
    ((SharedUpdate.system fun i => (reqs i).apply).run t [.read i, .write i]).map (·.shared) =
      some (updateHashMap u s (some (reqs i).req)).2.1.rules := by
  rw [SharedUpdate.run_read_write _ hi, updateHashMap_of_parsed s (reqs i).parsed, hshared]
  rfl

theorem Request.mem_apply {q : Request u} {rules : List Rule} {r : Rule} (hr : r ∈ rules)
    (hpay : r.payload ≠ q.newRule.payload) : r ∈ q.apply rules := by
  unfold Request.apply HashMap.newRules
  split
  · simp [hr, hpay]
  · exact List.mem_cons_of_mem _ hr

theorem Request.payload_of_mem_apply {q : Request u} {rules : List Rule} {p : Str}
    (hrules : ∀ r ∈ rules, r.payload ≠ p) (hq : q.newRule.payload ≠ p) :
    ∀ r ∈ q.apply rules, r.payload ≠ p := by
  unfold Request.apply HashMap.newRules
  split
  · exact fun r hr => hrules r (List.mem_filter.mp hr).1
  · intro r hr
    rcases List.mem_cons.mp hr with rfl | hr
    · exact hq
    · exact hrules r hr

section Serial

variable {ι : Type} {reqs : ι → Request u}

theorem mem_serial {order : List ι} {rules : List Rule} {r : Rule} (hr : r ∈ rules)
    (hpay : ∀ j ∈ order, r.payload ≠ (reqs j).newRule.payload) :
    r ∈ SharedUpdate.serial (fun i => (reqs i).apply) rules order := by
  induction order generalizing rules with
  | nil => exact hr
  | cons j order ih =>
      exact ih (Request.mem_apply hr (hpay j List.mem_cons_self))
        fun k hk => hpay k (List.mem_cons_of_mem j hk)

theorem payload_of_mem_serial {order : List ι} {rules : List Rule} {p : Str}
    (hrules : ∀ r ∈ rules, r.payload ≠ p) (hpay : ∀ j ∈ order, (reqs j).newRule.payload ≠ p) :
    ∀ r ∈ SharedUpdate.serial (fun i => (reqs i).apply) rules order, r.payload ≠ p := by
  induction order generalizing rules with
  | nil => exact hrules
  | cons j order ih =>
      exact ih (Request.payload_of_mem_apply hrules (hpay j List.mem_cons_self))
        fun k hk => hpay k (List.mem_cons_of_mem j hk)

variable (hdistinct : ∀ i j, i ≠ j → (reqs i).newRule.payload ≠ (reqs j).newRule.payload)

include hdistinct

theorem added_mem_serial {order : List ι} (hnodup : order.Nodup) (rules : List Rule) {i : ι}
    (hi : i ∈ order) (hadd : ¬ (reqs i).req.IsDelete) :
    (reqs i).newRule ∈ SharedUpdate.serial (fun i => (reqs i).apply) rules order := by
  obtain ⟨pre, post, rfl⟩ := List.append_of_mem hi
  have hpost : i ∉ post := (List.nodup_cons.mp (List.nodup_append.mp hnodup).2.1).1
  rw [SharedUpdate.serial, List.foldl_append, List.foldl_cons]
  refine mem_serial ?_ fun j hj => hdistinct i j fun h => hpost (h ▸ hj)
  simp [Request.apply, HashMap.newRules, hadd]

theorem deleted_not_mem_serial {order : List ι} (hnodup : order.Nodup) (rules : List Rule) {i : ι}
    (hi : i ∈ order) (hdel : (reqs i).req.IsDelete) :
    ∀ r ∈ SharedUpdate.serial (fun i => (reqs i).apply) rules order,
      r.payload ≠ (reqs i).newRule.payload := by
  obtain ⟨pre, post, rfl⟩ := List.append_of_mem hi
  have hpost : i ∉ post := (List.nodup_cons.mp (List.nodup_append.mp hnodup).2.1).1
  rw [SharedUpdate.serial, List.foldl_append, List.foldl_cons]
  refine payload_of_mem_serial ?_ fun j hj => hdistinct j i fun h => hpost (h ▸ hj)
  simp [Request.apply, HashMap.newRules, hdel]

end Serial

/-- No update is lost in a run in which every `UpdateRules` still finds the list
its request has read: when all requests have finished, the list is that of a
serial execution, with every added rule and without the deleted payloads. -/
theorem no_update_lost {ι : Type} [DecidableEq ι] (u : Unicode) (reqs : ι → Request u)
    (hdistinct : ∀ i j, i ≠ j → (reqs i).newRule.payload ≠ (reqs j).newRule.payload)
    (rules : List Rule) (as : List (SharedUpdate.Action ι))
    (hguard : (SharedUpdate.system fun i => (reqs i).apply).Guarded SharedUpdate.Undisturbed
      (.init rules) as)
    (t : SharedUpdate.State ι (List Rule))
    (hrun : (SharedUpdate.system fun i => (reqs i).apply).run (.init rules) as = some t)
    (hdone : ∀ i, t.phase i = .done) :
    (∃ order : List ι, order.Nodup ∧ (∀ i, i ∈ order) ∧
      t.shared = SharedUpdate.serial (fun i => (reqs i).apply) rules order) ∧
    (∀ i, ¬ (reqs i).req.IsDelete → (reqs i).newRule ∈ t.shared) ∧
    ∀ i, (reqs i).req.IsDelete → ∀ r ∈ t.shared, r.payload ≠ (reqs i).newRule.payload := by
  have hnodup := SharedUpdate.nodup_writes hrun
  have hall : ∀ i, i ∈ SharedUpdate.writes as := fun i =>
    (SharedUpdate.mem_writes_of_done hrun (hdone i)).resolve_left (by simp [SharedUpdate.State.init])
  have hserial := SharedUpdate.shared_of_run hguard hrun
  refine ⟨⟨_, hnodup, hall, hserial⟩, fun i hadd => ?_, fun i hdel => ?_⟩
  · rw [hserial]
    exact added_mem_serial hdistinct hnodup rules (hall i) hadd
  · rw [hserial]
    exact deleted_not_mem_serial hdistinct hnodup rules (hall i) hdel

/-- Add `DOMAIN,a.com,A`; delete `DOMAIN,b.com`. -/
def addAndDelete : Bool → Request Unicode.ascii
  | true => ⟨⟨str "DOMAIN", str "a.com", str "A"⟩, .domain (str "a.com") (str "A") false, rfl⟩
  | false =>
      ⟨⟨str "DOMAIN", str "b.com", str "DELETE"⟩, .domain (str "b.com") (str "DELETE") false, rfl⟩

theorem no_update_lost_add_delete :
    .domain (str "a.com") (str "A") false ∈
        (addAndDelete false).apply ((addAndDelete true).apply [.domain (str "b.com") (str "B") false]) ∧
      ∀ r ∈ (addAndDelete false).apply
          ((addAndDelete true).apply [.domain (str "b.com") (str "B") false]),
        r.payload ≠ str "b.com" :=
  have h := no_update_lost Unicode.ascii addAndDelete (by decide)
    [.domain (str "b.com") (str "B") false] [.read true, .write true, .read false, .write false]
    (by
      rintro s₁ ⟨⟩
      refine ⟨nofun, ?_⟩
      rintro s₂ ⟨⟩
      refine ⟨?_, ?_⟩
      · rintro i v ⟨⟩ ⟨⟩
        rfl
      rintro s₃ ⟨⟩
      refine ⟨nofun, ?_⟩
      rintro s₄ ⟨⟩
      refine ⟨?_, trivial⟩
      rintro i v ⟨⟩ ⟨⟩
      rfl)
    _ rfl (by decide)
  ⟨h.2.1 true (by decide), h.2.2 false rfl⟩

/-- Two requests that add `DOMAIN,a.com,A` and `DOMAIN,b.com,A`. -/
def twoAdds : Bool → Request Unicode.ascii
  | true => ⟨⟨str "DOMAIN", str "a.com", str "A"⟩, .domain (str "a.com") (str "A") false, rfl⟩
  | false => ⟨⟨str "DOMAIN", str "b.com", str "A"⟩, .domain (str "b.com") (str "A") false, rfl⟩

/-- Both read before either writes: `a.com` is lost. -/
theorem overlapping_adds_lose_one :
    ((SharedUpdate.system fun i => (twoAdds i).apply).run (.init [])
        [.read true, .read false, .write true, .write false]).map
      (fun t => (t.shared, t.phase true, t.phase false)) =
      some ([.domain (str "b.com") (str "A") false], .done, .done) ∧
    ¬ .domain (str "a.com") (str "A") false ∈ ([.domain (str "b.com") (str "A") false] : List Rule) := by
  decide +kernel

end RuleBaseProxy.Route
