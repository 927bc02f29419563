import RuleBaseProxy.Lib.Transition
import RuleBaseProxy.Tunnel.Match
import RuleBaseProxy.Tunnel.RulesSaveDB

/-! # Reloading the configuration

`ApplyConfig` swaps the proxies, loads the rule database into the package-level
rule list entry by entry, and swaps the rules. A `match` may fall between any
two of these steps. What it sees there is determined for every point, and the
connections for which every point gives the old or the new result are
described.
-/

namespace RuleBaseProxy.Reload

open Go TransitionSystem

structure Config where
  rules : List Rule
  proxies : Proxies

inductive Stage where
  | start
  | proxiesUpdated
  | loading (l : Load) (rest : List (Str × Str))
  | finished

structure State where
  tunnel : Tunnel
  stage : Stage

inductive Action where
  | updateProxies
  /-- `rules = []C.Rule{}` at the head of `LoadStrRule`. -/
  | resetRules
  | loadEntry
  | updateRules

variable (cfg : Config) (db : RuleDB)

def step (s : State) : Action → Option State
  | .updateProxies =>
      match s.stage with
      | .start => some ⟨{ s.tunnel with proxies := cfg.proxies }, .proxiesUpdated⟩
      | _ => none
  | .resetRules =>
      match s.stage with
      | .proxiesUpdated => some ⟨{ s.tunnel with rules := [] }, .loading .init db.entries⟩
      | _ => none
  | .loadEntry =>
      match s.stage with
      | .loading l (e :: rest) =>
          (l.turn s.tunnel.env.unicode e).map fun l' =>
            ⟨{ s.tunnel with rules := l'.rules }, .loading l' rest⟩
      | _ => none
  | .updateRules =>
      match s.stage with
      | .loading l [] => some ⟨{ s.tunnel with rules := l.rules ++ cfg.rules }, .finished⟩
      | _ => none

def system : System State Action := ⟨step cfg db⟩

/-- Old rules with new proxies, as they stand after the first step. -/
def mixed (old : Tunnel) : Tunnel := { old with proxies := cfg.proxies }

def renewed (old : Tunnel) (loaded : List Rule) : Tunnel :=
  { old with rules := loaded ++ cfg.rules, proxies := cfg.proxies }

/-! ## What a `match` may see -/

/-- The tunnel at every stage; `loaded` is what the database holds. -/
def Seen (old : Tunnel) (loaded : List Rule) (s : State) : Prop :=
  match s.stage with
  | .start => s.tunnel = old
  | .proxiesUpdated => s.tunnel = mixed cfg old
  | .loading l rest => s.tunnel = { mixed cfg old with rules := l.rules } ∧
      ∃ l', l.entries old.env.unicode rest = some l' ∧ l'.rules = loaded
  | .finished => s.tunnel = renewed cfg old loaded

variable {cfg db}

theorem seen_step {old : Tunnel} {loaded : List Rule} {db' : RuleDB}
    (hload : loadStrRule old.env.unicode db = some (loaded, db')) (s : State) (a : Action)
    (s' : State) (h : Seen cfg old loaded s) (hs : step cfg db s a = some s') :
    Seen cfg old loaded s' := by
  obtain ⟨tun, stage⟩ := s
  cases a with
  | updateProxies =>
      cases stage <;> cases hs
      cases h
      rfl
  | resetRules =>
      cases stage <;> cases hs
      cases h
      obtain ⟨l, hl, hpair⟩ := Option.map_eq_some_iff.mp hload
      cases hpair
      exact ⟨rfl, l, hl, rfl⟩
  | loadEntry =>
      cases stage with
      | loading l rest =>
          cases rest with
          | nil => cases hs
          | cons e rest =>
              obtain ⟨rfl, l', hl', rfl⟩ := h
              obtain ⟨l₁, hturn, rfl⟩ := Option.map_eq_some_iff.mp hs
              obtain ⟨l₂, hturn', hrest⟩ := Option.bind_eq_some_iff.mp hl'
              cases hturn.symm.trans hturn'
              exact ⟨rfl, l', hrest, rfl⟩
      | _ => cases hs
  | updateRules =>
      cases stage with
      | loading l rest =>
          cases rest with
          | cons e rest => cases hs
          | nil =>
              obtain ⟨rfl, l', hl', rfl⟩ := h
              cases hl'
              cases hs
              rfl
      | _ => cases hs

/-! ## Comparing two points -/

/-- Two tunnels send a connection the same way: both by no rule and with one
`DIRECT`, or both by the same rule and the same adapter. -/
def SameRoute (t t' : Tunnel) (m : Metadata) : Prop :=
  (t.Unrouted m ∧ t'.Unrouted m ∧ t.proxies.direct = t'.proxies.direct) ∨
    ∃ r, t.RoutedBy r m ∧ t'.RoutedBy r m ∧
      t.proxies.get r.adapter = t'.proxies.get r.adapter

def result (t : Tunnel) (m : Metadata) : Option MatchResult := (t.doMatch m).map Prod.fst

theorem result_of_panic {t : Tunnel} {m : Metadata} (h : t.applyHosts m = none) :
    result t m = none := by
  simp [result, Tunnel.doMatch, h]

theorem result_eq_iff {t t' : Tunnel} {m : Metadata} {s s' : Scan}
    (hs : t.applyHosts m = some s) (hs' : t'.applyHosts m = some s') :
    result t m = result t' m ↔ SameRoute t t' m := by
  unfold result
  constructor
  · intro h
    rcases Tunnel.unrouted_or_routedBy hs with hun | ⟨r, hr⟩
    · rcases Tunnel.unrouted_or_routedBy hs' with hun' | ⟨r', hr'⟩
      · rw [hun.result hs, hun'.result hs'] at h
        exact Or.inl ⟨hun, hun', by simpa using h⟩
      · obtain ⟨p', -, hres'⟩ := hr'.result
        rw [hun.result hs, hres'] at h
        simp at h
    · obtain ⟨p, hget, hres⟩ := hr.result
      rcases Tunnel.unrouted_or_routedBy hs' with hun' | ⟨r', hr'⟩
      · rw [hres, hun'.result hs'] at h
        simp at h
      · obtain ⟨p', hget', hres'⟩ := hr'.result
        rw [hres, hres'] at h
        obtain ⟨rfl, rfl⟩ : p = p' ∧ r = r' := by simpa using h
        exact Or.inr ⟨r, hr, hr', hget.trans hget'.symm⟩
  · rintro (⟨hun, hun', hdirect⟩ | ⟨r, hr, hr', hget⟩)
    · rw [hun.result hs, hun'.result hs', hdirect]
    · obtain ⟨p, hp, hres⟩ := hr.result
      obtain ⟨p', hp', hres'⟩ := hr'.result
      rw [hp, hp'] at hget
      rw [hres, hres', Option.some.inj hget]

theorem unrouted_of_panic {t : Tunnel} {m : Metadata} (h : t.applyHosts m = none) :
    t.Unrouted m := by
  rintro a q b - ⟨s, hs, -⟩
  rw [h] at hs
  cases hs

/-- More rules behind do not change by which rule a connection is routed. -/
theorem routedBy_of_isPrefix {t : Tunnel} {rs rs' : List Rule} {r : Rule} {m : Metadata}
    (hpre : rs <+: rs') (h : Tunnel.RoutedBy { t with rules := rs } r m) :
    Tunnel.RoutedBy { t with rules := rs' } r m := by
  obtain ⟨rest, rfl⟩ := hpre
  obtain ⟨pre, post, hrules, happ, hfirst⟩ := h
  refine ⟨pre, post ++ rest, ?_, happ, hfirst⟩
  change rs = pre ++ r :: post at hrules
  simp [hrules]

/-! ## When a reload is atomic -/

variable (cfg db) in
/-- At every point of the reload `match` gives the result under the complete old
or under the complete new configuration. -/
def Atomic (old : Tunnel) (loaded : List Rule) (m : Metadata) : Prop :=
  ∀ as, (system cfg db).Always
    (fun s => result s.tunnel m = result old m ∨
      result s.tunnel m = result (renewed cfg old loaded) m)
    ⟨old, .start⟩ as

variable (cfg) in
/-- The connection is routed by no rule of the new list, or by none of the old
one with the same `DIRECT`, so that an empty list is not noticed; and the old
rules choose for it under the new proxies what they choose under the old ones,
or what the new rules choose. -/
def Undisturbed (old : Tunnel) (loaded : List Rule) (m : Metadata) : Prop :=
  ((renewed cfg old loaded).Unrouted m ∨
      old.Unrouted m ∧ old.proxies.direct = cfg.proxies.direct) ∧
    (SameRoute old (mixed cfg old) m ∨ SameRoute (mixed cfg old) (renewed cfg old loaded) m)

section Iff

variable {old : Tunnel} {loaded : List Rule} {m : Metadata}

theorem undisturbed_of_panic (h : old.applyHosts m = none) : Undisturbed cfg old loaded m :=
  have hun : (renewed cfg old loaded).Unrouted m := unrouted_of_panic h
  ⟨Or.inl hun, Or.inr (Or.inl ⟨unrouted_of_panic h, hun, rfl⟩)⟩

/-- The two points that decide: the mixed configuration and the empty list. -/
theorem undisturbed_of_atomic (h : Atomic cfg db old loaded m) : Undisturbed cfg old loaded m := by
  cases hs : old.applyHosts m with
  | none => exact undisturbed_of_panic hs
  | some s =>
      have hs₁ : (mixed cfg old).applyHosts m = some s := hs
      have hs₂ : (renewed cfg old loaded).applyHosts m = some s := hs
      have hs₃ : Tunnel.applyHosts { mixed cfg old with rules := [] } m = some s := hs
      have hrun := h [.updateProxies, .resetRules]
      have hmixed := (hrun.2 _ rfl).1
      have hempty := (hrun.2 _ rfl).2 _ rfl
      constructor
      · rcases hempty with heq | heq
        · rcases (result_eq_iff hs₃ hs).mp heq with ⟨-, hun, hdirect⟩ | ⟨r, ⟨pre, post, hrules, -⟩, -⟩
          · exact Or.inr ⟨hun, hdirect.symm⟩
          · simp at hrules
        · rcases (result_eq_iff hs₃ hs₂).mp heq with ⟨-, hun, -⟩ | ⟨r, ⟨pre, post, hrules, -⟩, -⟩
          · exact Or.inl hun
          · simp at hrules
      · rcases hmixed with heq | heq
        · exact Or.inl ((result_eq_iff hs hs₁).mp heq.symm)
        · exact Or.inr ((result_eq_iff hs₁ hs₂).mp heq)

/-- A prefix of the loaded rules routes as the complete list does, or not at all. -/
theorem result_loading {rs : List Rule} (hpre : rs <+: loaded)
    (hempty : (renewed cfg old loaded).Unrouted m ∨
      old.Unrouted m ∧ old.proxies.direct = cfg.proxies.direct)
    {s : Scan} (hs : old.applyHosts m = some s) :
    result { mixed cfg old with rules := rs } m = result old m ∨
      result { mixed cfg old with rules := rs } m = result (renewed cfg old loaded) m := by
  have hs₁ : Tunnel.applyHosts { mixed cfg old with rules := rs } m = some s := hs
  have hs₂ : (renewed cfg old loaded).applyHosts m = some s := hs
  rcases Tunnel.unrouted_or_routedBy hs₁ with hun | ⟨r, hr⟩
  · rcases hempty with hnew | ⟨hold, hdirect⟩
    · exact Or.inr ((result_eq_iff hs₁ hs₂).mpr (Or.inl ⟨hun, hnew, rfl⟩))
    · exact Or.inl ((result_eq_iff hs₁ hs).mpr (Or.inl ⟨hun, hold, hdirect.symm⟩))
  · have hr' : (renewed cfg old loaded).RoutedBy r m :=
      routedBy_of_isPrefix (t := mixed cfg old) (hpre.trans (List.prefix_append _ _)) hr
    exact Or.inr ((result_eq_iff hs₁ hs₂).mpr (Or.inr ⟨r, hr, hr', rfl⟩))

theorem atomic_of_undisturbed {db' : RuleDB}
    (hload : loadStrRule old.env.unicode db = some (loaded, db'))
    (h : Undisturbed cfg old loaded m) : Atomic cfg db old loaded m := by
  intro as
  have hseen : (system cfg db).Always (Seen cfg old loaded) ⟨old, .start⟩ as :=
    System.always_of_step _ (seen_step hload) as rfl
  refine System.Always.mono _ (fun s hs => ?_) hseen
  obtain ⟨tun, stage⟩ := s
  cases hhosts : old.applyHosts m with
  | none =>
      left
      have hnone : tun.applyHosts m = none := by
        cases stage with
        | start | proxiesUpdated | finished => cases hs; exact hhosts
        | loading l rest => cases hs.1; exact hhosts
      rw [result_of_panic hhosts, result_of_panic hnone]
  | some sc =>
      cases stage with
      | start =>
          cases hs
          exact Or.inl rfl
      | finished =>
          cases hs
          exact Or.inr rfl
      | proxiesUpdated =>
          cases hs
          have hs₁ : (mixed cfg old).applyHosts m = some sc := hhosts
          have hs₂ : (renewed cfg old loaded).applyHosts m = some sc := hhosts
          exact h.2.imp (fun heq => ((result_eq_iff hhosts hs₁).mpr heq).symm)
            (result_eq_iff hs₁ hs₂).mpr
      | loading l rest =>
          obtain ⟨rfl, l', hl', rfl⟩ := hs
          exact result_loading (Load.rules_entries hl') h.1 hhosts

end Iff

/-- A reload whose database loads is atomic for exactly the connections it does
not disturb. -/
theorem atomic_iff_undisturbed (old : Tunnel) (cfg : Config) (db db' : RuleDB)
    (loaded : List Rule) (hload : loadStrRule old.env.unicode db = some (loaded, db'))
    (m : Metadata) : Atomic cfg db old loaded m ↔ Undisturbed cfg old loaded m :=
  ⟨undisturbed_of_atomic, atomic_of_undisturbed hload⟩

def oneRuleDB : RuleDB := addStrRule .empty (str "DOMAINa.com") (str "DOMAIN,a.com,B")

theorem atomic_iff_undisturbed_oneRuleDB :
    loadStrRule Unicode.ascii oneRuleDB = some ([.domain (str "a.com") (str "B") false], oneRuleDB) ∧
      (Atomic ⟨[.final (str "B") false], Tunnel.finalTunnel.proxies⟩ oneRuleDB Tunnel.finalTunnel
          [.domain (str "a.com") (str "B") false] (Tunnel.connFrom (str "1234")) ↔
        Undisturbed ⟨[.final (str "B") false], Tunnel.finalTunnel.proxies⟩ Tunnel.finalTunnel
          [.domain (str "a.com") (str "B") false] (Tunnel.connFrom (str "1234"))) :=
  have hload : loadStrRule Unicode.ascii oneRuleDB =
      some ([.domain (str "a.com") (str "B") false], oneRuleDB) := by rfl
  ⟨hload, atomic_iff_undisturbed _ _ _ _ _ hload _⟩

/-- The configuration is reloaded unchanged. While the database is read, the
connection is sent to `DIRECT`; before and after, to `B`. -/
theorem reload_sends_direct :
    ((system ⟨[.final (str "B") false], Tunnel.finalTunnel.proxies⟩ .empty).run
        ⟨Tunnel.finalTunnel, .start⟩ [.updateProxies, .resetRules]).map
      (fun s => result s.tunnel (Tunnel.connFrom (str "1234"))) =
        some (some ⟨some ⟨0, str "DIRECT", true⟩, none⟩) ∧
    result Tunnel.finalTunnel (Tunnel.connFrom (str "1234")) =
        some ⟨some ⟨2, str "B", true⟩, some (.final (str "B") false)⟩ ∧
    ((system ⟨[.final (str "B") false], Tunnel.finalTunnel.proxies⟩ .empty).run
        ⟨Tunnel.finalTunnel, .start⟩ [.updateProxies, .resetRules, .updateRules]).map
      (fun s => result s.tunnel (Tunnel.connFrom (str "1234"))) =
        some (some ⟨some ⟨2, str "B", true⟩, some (.final (str "B") false)⟩) := by
  decide +kernel

end RuleBaseProxy.Reload
