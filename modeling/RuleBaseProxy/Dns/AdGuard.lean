import RuleBaseProxy.Lib.Transition
import RuleBaseProxy.Rule.Parser
import Mathlib.Logic.Function.Basic

/-! # Blocked domains

`updateDNS` clears the rules, purges the cache of decisions and then appends the
rules of the files line by line, while queries go on. A query looks into the cache,
ranges over the slice it finds and stores its decision. Each of these is one step,
and a run is any interleaving. A query that ranges over the rules before the last
one is there can leave a decision behind that the rules do not support.
-/

namespace RuleBaseProxy.Dns.AdGuard

open Go TransitionSystem

/-! ## Rules from a file -/

/-- `DomainSuffix`, the only type of rule that is loaded. -/
structure DomainSuffix where
  suffix : Str
  adapter : Str
  multiDomainDialip : Bool
deriving DecidableEq

def DomainSuffix.toRule (r : DomainSuffix) : Rule :=
  .domainSuffix r.suffix r.adapter r.multiDomainDialip

def DomainSuffix.isMatch (r : DomainSuffix) (domain : Str) : Bool :=
  hasSuffix domain (46 :: r.suffix) || domain == r.suffix

/-- The fields that `ADGurdMatch` leaves unset are not looked at. -/
theorem DomainSuffix.isMatch_toRule (r : DomainSuffix) (env : Env) {m : Metadata}
    (h : m.addrType = atypDomainName) : r.toRule.isMatch env m = r.isMatch m.host := by
  rw [toRule, Rule.isMatch, hostUnder, h, isMatch, beq_self_eq_true, Bool.true_and]

def newDomainSuffix (u : Unicode) (suffix adapter : Str) (params : List Str) : DomainSuffix :=
  ⟨toLower u suffix, adapter, hasMultiDomainDailIP params⟩

theorem parseRule_domainSuffix (u : Unicode) (payload target : Str) (params : List Str) :
    parseRule u (str "DOMAIN-SUFFIX") payload target params =
      .parsed (newDomainSuffix u payload target params).toRule := by
  have hcase : ruleCases.lookup (str "DOMAIN-SUFFIX") = some .domainSuffix := rfl
  rw [parseRule, hcase]
  rfl

/-- The text up to the last `^`. -/
def upToCaret (s : Str) : Str := s.rdropWhile (· ≠ 94)

/-- `FindString` of the expression `\|\|.+\^`: the first `||` with something and a `^`
after it, up to the last `^` of the line. -/
def findString : Str → Option Str
  | [] => none
  | b :: s =>
      if b = 124 ∧ s.head? = some 124 ∧ 2 ≤ (upToCaret s.tail).length then
        some (124 :: 124 :: upToCaret s.tail)
      else findString s

/-- `strings.Replace(st, "||", "", -1)`. -/
def dropBars : Str → Str
  | 124 :: 124 :: s => dropBars s
  | b :: s => b :: dropBars s
  | [] => []

/-- `strings.Replace(st, "^", "", -1)`. -/
def dropCarets (s : Str) : Str := s.filter (· ≠ 94)

/-- What `AdgurdFile2Rule` makes of a line. -/
def lineRule (u : Unicode) (line : Str) : Option DomainSuffix :=
  if contains line (str "@@||") then none
  else (findString line).map fun st =>
    newDomainSuffix u (dropCarets (dropBars st)) (str "ADGURD_MATCH") [[]]

example : (lineRule Unicode.ascii (str "||ads.Example.com^$third-party")).map (·.suffix) =
    some (str "ads.example.com") := by decide +kernel

example : lineRule Unicode.ascii (str "@@||example.com^") = none := by decide +kernel

/-! ## Queries -/

def blocks (rules : List DomainSuffix) (domain : Str) : Bool := rules.any (·.isMatch domain)

abbrev Cache := Str → Option Bool

def adGurdMatch (rules : List DomainSuffix) (cache : Cache) (domain : Str) : Bool × Cache :=
  match cache domain with
  | some value => (value, cache)
  | none => (blocks rules domain, Function.update cache domain (some (blocks rules domain)))

inductive Query where
  | missed (domain : Str)
  /-- The loop runs over the slice that was there when it began. -/
  | ranging (domain : Str) (rules : List DomainSuffix)
deriving DecidableEq

/-! ## The system -/

/-- How far `updateDNS` is. A file is the lines its scanner yields; one that cannot be
opened has none. -/
inductive Phase where
  | idle
  /-- The rules are cleared, the cache is not yet purged. -/
  | cleared (files : List (List Str))
  | loading (files : List (List Str))
deriving DecidableEq

structure State where
  rules : List DomainSuffix
  cache : Cache
  queries : Nat → Option Query
  phase : Phase

def State.init : State := ⟨[], fun _ => none, fun _ => none, .idle⟩

def State.setQuery (s : State) (i : Nat) (q : Option Query) : State :=
  { s with queries := Function.update s.queries i q }

inductive Action where
  | clear (files : List (List Str))
  | purge
  | line
  | nextFile
  | finish
  | lookup (i : Nat) (domain : Str)
  | range (i : Nat)
  | store (i : Nat)
  /-- The cache drops an entry when it is full. -/
  | evict (domain : Str)

def step (u : Unicode) (s : State) : Action → Option State
  | .clear files =>
      -- `ApplyConfig` holds a lock, so there is one update at a time
      match s.phase with
      | .idle => some { s with rules := [], phase := .cleared files }
      | _ => none
  | .purge =>
      match s.phase with
      | .cleared files => some { s with cache := fun _ => none, phase := .loading files }
      | _ => none
  | .line =>
      match s.phase with
      | .loading ((line :: rest) :: files) =>
          some { s with
            rules := s.rules ++ (lineRule u line).toList
            phase := .loading (rest :: files) }
      | _ => none
  | .nextFile =>
      match s.phase with
      | .loading ([] :: files) => some { s with phase := .loading files }
      | _ => none
  | .finish =>
      match s.phase with
      | .loading [] => some { s with phase := .idle }
      | _ => none
  | .lookup i domain =>
      match s.queries i, s.cache domain with
      | none, none => some (s.setQuery i (some (.missed domain)))
      | none, some _ => some s
      | some _, _ => none
  | .range i =>
      match s.queries i with
      | some (.missed domain) => some (s.setQuery i (some (.ranging domain s.rules)))
      | _ => none
  | .store i =>
      match s.queries i with
      | some (.ranging domain rules) =>
          some ({ s with cache := Function.update s.cache domain (some (blocks rules domain)) }.setQuery
            i none)
      | _ => none
  | .evict domain => some { s with cache := Function.update s.cache domain none }

def system (u : Unicode) : System State Action := ⟨step u⟩

/-- Without an interruption the steps of a query are `ADGurdMatch`. -/
theorem run_query {u : Unicode} {s : State} {i : Nat} (hfree : s.queries i = none) (domain : Str) :
    ∃ as, as <+: [.lookup i domain, .range i, .store i] ∧
      (system u).run s as = some { s with cache := (adGurdMatch s.rules s.cache domain).2 } := by
  cases hcache : s.cache domain with
  | some value =>
      refine ⟨[.lookup i domain], by simp, ?_⟩
      simp [System.run, system, step, hfree, hcache, adGurdMatch]
  | none =>
      refine ⟨_, List.prefix_refl _, ?_⟩
      have hback : Function.update s.queries i none = s.queries :=
        Function.update_eq_self_iff.mpr hfree.symm
      simp [System.run, system, step, hfree, hcache, adGurdMatch, State.setQuery, hback]

/-! ## What has to hold -/

def Follows (s : State) : Prop :=
  s.phase = .idle → ∀ domain, (adGurdMatch s.rules s.cache domain).1 = blocks s.rules domain

def Phase.coming (u : Unicode) : Phase → List DomainSuffix
  | .idle => []
  | .cleared files => files.flatMap (·.filterMap (lineRule u))
  | .loading files => files.flatMap (·.filterMap (lineRule u))

def State.final (u : Unicode) (s : State) : List DomainSuffix := s.rules ++ s.phase.coming u

def Phase.Purged : Phase → Prop
  | .cleared _ => False
  | _ => True

/-- From the purge on, the cached decisions are those of the rules the update ends with. -/
def CacheFinal (u : Unicode) (s : State) : Prop :=
  s.phase.Purged → ∀ domain value, s.cache domain = some value → value = blocks (s.final u) domain

/-- A decision that survives is taken from rules that agree, for its domain, with the ones
the update ends with. -/
def ScansAgree (u : Unicode) (s : State) : Action → Prop
  | .store i =>
      s.phase.Purged → ∀ domain rules, s.queries i = some (.ranging domain rules) →
        blocks rules domain = blocks (s.final u) domain
  | _ => True

/-! ## Runs -/

section Steps

variable {u : Unicode} {s t : State}

theorem step_clear {files : List (List Str)} (h : step u s (.clear files) = some t) :
    t = { s with rules := [], phase := .cleared files } := by
  simp only [step] at h
  split at h <;> cases h
  rfl

theorem step_purge (h : step u s .purge = some t) :
    ∃ files, s.phase = .cleared files ∧
      t = { s with cache := fun _ => none, phase := .loading files } := by
  simp only [step] at h
  split at h
  · rename_i files hphase
    cases h
    exact ⟨files, hphase, rfl⟩
  · cases h

theorem step_line (h : step u s .line = some t) :
    ∃ line rest files, s.phase = .loading ((line :: rest) :: files) ∧
      t = { s with
        rules := s.rules ++ (lineRule u line).toList
        phase := .loading (rest :: files) } := by
  simp only [step] at h
  split at h
  · rename_i line rest files hphase
    cases h
    exact ⟨line, rest, files, hphase, rfl⟩
  · cases h

theorem step_nextFile (h : step u s .nextFile = some t) :
    ∃ files, s.phase = .loading ([] :: files) ∧ t = { s with phase := .loading files } := by
  simp only [step] at h
  split at h
  · rename_i files hphase
    cases h
    exact ⟨files, hphase, rfl⟩
  · cases h

theorem step_finish (h : step u s .finish = some t) :
    s.phase = .loading [] ∧ t = { s with phase := .idle } := by
  simp only [step] at h
  split at h
  · rename_i hphase
    cases h
    exact ⟨hphase, rfl⟩
  · cases h

/-- Looking up and ranging leave rules, cache and update alone. -/
theorem step_lookup {i : Nat} {domain : Str} (h : step u s (.lookup i domain) = some t) :
    ∃ queries, t = { s with queries := queries } := by
  simp only [step] at h
  split at h <;> cases h
  · exact ⟨_, rfl⟩
  · exact ⟨s.queries, rfl⟩

theorem step_range {i : Nat} (h : step u s (.range i) = some t) :
    ∃ queries, t = { s with queries := queries } := by
  simp only [step] at h
  split at h <;> cases h
  exact ⟨_, rfl⟩

theorem step_store {i : Nat} (h : step u s (.store i) = some t) :
    ∃ domain rules, s.queries i = some (.ranging domain rules) ∧
      t = { s with cache := Function.update s.cache domain (some (blocks rules domain)) }.setQuery
        i none := by
  simp only [step] at h
  split at h
  · rename_i domain rules hquery
    cases h
    exact ⟨domain, rules, hquery, rfl⟩
  · cases h

theorem final_line {line : Str} {rest : List Str} {files : List (List Str)}
    (hphase : s.phase = .loading ((line :: rest) :: files)) :
    State.final u { s with
      rules := s.rules ++ (lineRule u line).toList
      phase := .loading (rest :: files) } = s.final u := by
  have hcons : (line :: rest).filterMap (lineRule u) =
      (lineRule u line).toList ++ rest.filterMap (lineRule u) := by
    cases h : lineRule u line <;> simp [h]
  simp only [State.final, hphase, Phase.coming, List.flatMap_cons, hcons, List.append_assoc]

theorem final_nextFile {files : List (List Str)} (hphase : s.phase = .loading ([] :: files)) :
    State.final u { s with phase := .loading files } = s.final u := by
  simp only [State.final, hphase, Phase.coming, List.flatMap_cons, List.filterMap_nil,
    List.nil_append]

theorem final_finish (hphase : s.phase = .loading []) :
    State.final u { s with phase := .idle } = s.final u := by
  simp only [State.final, hphase, Phase.coming, List.flatMap_nil]

/-- A step that ends the update with the same rules and keeps or drops decisions. -/
theorem CacheFinal.of_final_eq (h : CacheFinal u s) (hpurged : s.phase.Purged)
    (hfinal : t.final u = s.final u)
    (hcache : ∀ domain value, t.cache domain = some value → s.cache domain = some value) :
    CacheFinal u t := by
  intro _ domain value hvalue
  rw [hfinal]
  exact h hpurged domain value (hcache domain value hvalue)

theorem cacheFinal_store_iff (h : CacheFinal u s) {i : Nat} {domain : Str}
    {rules : List DomainSuffix} (hquery : s.queries i = some (.ranging domain rules)) :
    CacheFinal u ({ s with
        cache := Function.update s.cache domain (some (blocks rules domain)) }.setQuery i none) ↔
      ScansAgree u s (.store i) := by
  constructor
  · intro ht hpurged domain' rules' hquery'
    cases hquery.symm.trans hquery'
    exact ht hpurged domain _ (Function.update_self ..)
  · intro hagree hpurged domain' value hvalue
    by_cases hd : domain' = domain
    · subst hd
      cases (Function.update_self ..).symm.trans hvalue
      exact hagree hpurged domain' rules hquery
    · exact h hpurged domain' value ((Function.update_of_ne hd ..).symm.trans hvalue)

theorem cacheFinal_step_iff {a : Action} (h : CacheFinal u s) (hs : step u s a = some t) :
    CacheFinal u t ↔ ScansAgree u s a := by
  cases a with
  | clear files =>
      rw [step_clear hs]
      exact iff_of_true (fun hpurged => hpurged.elim) trivial
  | purge =>
      obtain ⟨files, -, rfl⟩ := step_purge hs
      exact iff_of_true (fun _ _ _ hvalue => nomatch hvalue) trivial
  | line =>
      obtain ⟨line, rest, files, hphase, rfl⟩ := step_line hs
      refine iff_of_true (h.of_final_eq ?_ (final_line hphase) fun _ _ hvalue => hvalue) trivial
      rw [hphase]
      trivial
  | nextFile =>
      obtain ⟨files, hphase, rfl⟩ := step_nextFile hs
      refine iff_of_true (h.of_final_eq ?_ (final_nextFile hphase) fun _ _ hvalue => hvalue) trivial
      rw [hphase]
      trivial
  | finish =>
      obtain ⟨hphase, rfl⟩ := step_finish hs
      refine iff_of_true (h.of_final_eq ?_ (final_finish hphase) fun _ _ hvalue => hvalue) trivial
      rw [hphase]
      trivial
  | lookup i domain =>
      obtain ⟨queries, rfl⟩ := step_lookup hs
      exact iff_of_true h trivial
  | range i =>
      obtain ⟨queries, rfl⟩ := step_range hs
      exact iff_of_true h trivial
  | store i =>
      obtain ⟨domain, rules, hquery, rfl⟩ := step_store hs
      exact cacheFinal_store_iff h hquery
  | evict domain =>
      cases hs
      refine iff_of_true (fun hpurged domain' value hvalue => ?_) trivial
      by_cases hd : domain' = domain
      · subst hd
        cases (Function.update_self ..).symm.trans hvalue
      · exact h hpurged domain' value ((Function.update_of_ne hd ..).symm.trans hvalue)

/-- A cache that agrees with the rules decides as they do. -/
theorem CacheFinal.follows (h : CacheFinal u s) : Follows s := by
  intro hphase domain
  have hpurged : s.phase.Purged := by
    rw [hphase]
    trivial
  have hfinal : s.final u = s.rules := by
    rw [State.final, hphase, Phase.coming, List.append_nil]
  unfold adGurdMatch
  cases hcache : s.cache domain with
  | none => rfl
  | some value => exact (h hpurged domain value hcache).trans (by rw [hfinal])

end Steps

/-- From the purge on the cache agrees with the final rules exactly in the runs in which
every stored decision was scanned from rules that do. -/
theorem cacheFinal_always_iff (u : Unicode) (as : List Action) :
    (system u).Always (CacheFinal u) State.init as ↔
      (system u).Guarded (ScansAgree u) State.init as := by
  have hstep : ∀ s a t, True → CacheFinal u s → (system u).step s a = some t →
      (CacheFinal u t ↔ ScansAgree u s a) :=
    fun s a t _ hs ht => cacheFinal_step_iff hs ht
  have hinit : CacheFinal u State.init := fun _ _ _ hvalue => nomatch hvalue
  exact System.always_iff_guarded _ (fun _ _ _ _ _ _ _ => trivial) hstep as trivial hinit

/-- In such a run every query after an update is answered as the rules say. -/
theorem follows_of_scansAgree (u : Unicode) (as : List Action)
    (h : (system u).Guarded (ScansAgree u) State.init as) :
    (system u).Always Follows State.init as := by
  have hcache := (cacheFinal_always_iff u as).mpr h
  exact hcache.mono _ fun _ hs => hs.follows

/-- A query that comes when the update is over. -/
theorem follows_of_scansAgree_afterUpdate :
    (system Unicode.ascii).Always Follows State.init
      [.clear [[str "||ads.com^"]], .purge, .line, .nextFile, .finish,
        .lookup 0 (str "ads.com"), .range 0, .store 0] := by
  refine follows_of_scansAgree Unicode.ascii _ ?_
  refine System.Guarded.cons _ rfl trivial (System.Guarded.cons _ rfl trivial ?_)
  refine System.Guarded.cons _ rfl trivial (System.Guarded.cons _ rfl trivial ?_)
  refine System.Guarded.cons _ rfl trivial (System.Guarded.cons _ rfl trivial ?_)
  refine System.Guarded.cons _ rfl trivial (System.Guarded.cons _ rfl ?_ trivial)
  intro _ domain rules hquery
  cases hquery
  rw [State.final]
  exact congrArg (blocks · _) (List.append_nil _).symm

/-- A query during the second load finds the cache empty and no rule yet. Its decision
stays: the domain is let through although the one rule there is matches it. -/
theorem query_during_load_lets_through :
    ¬ (system Unicode.ascii).Always Follows State.init
      [.clear [[str "||ads.com^"]], .purge, .line, .nextFile, .finish,
        .clear [[str "||ads.com^"]], .purge, .lookup 0 (str "ads.com"), .range 0, .store 0,
        .line, .nextFile, .finish] := by
  refine System.not_always_of_run _ ⟨_, rfl, fun h => ?_⟩
  exact absurd (h rfl (str "ads.com")) (by decide +kernel)

end RuleBaseProxy.Dns.AdGuard
