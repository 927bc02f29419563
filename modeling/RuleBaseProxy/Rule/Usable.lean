import RuleBaseProxy.Rule.Parser

/-! # Calling what `ParseRule` returns

`ParseRule` returns a value of the interface `constant.Rule`. Behind it may stand
a nil `*DomainAndPort`: then neither the interface nor the error tells, and the
first method that looks at its receiver panics.
-/

namespace RuleBaseProxy

open Go Go.Net

/-- The values of the interface that come with a nil error. -/
inductive RuleValue where
  | pointer (r : Rule)
  | nilDomainAndPort

namespace RuleValue

/-- A method that reads a field of its receiver; `none` for the nil dereference. -/
def call {α : Type} (method : Rule → α) : RuleValue → Option α
  | .pointer r => some (method r)
  | .nilDomainAndPort => none

def ruleType (v : RuleValue) : Option RuleType := v.call Rule.ruleType

def payload (v : RuleValue) : Option Str := v.call Rule.payload

def adapter (v : RuleValue) : Option Str := v.call Rule.adapter

def isMatch (env : Env) (m : Metadata) (v : RuleValue) : Option Bool := v.call (Rule.isMatch env m)

/-- `DomainAndPort.ShouldResolveIP` is the method that does not look at its receiver. -/
def shouldResolveIP : RuleValue → Option Bool
  | .pointer r => some r.shouldResolveIP
  | .nilDomainAndPort => some false

structure Usable (env : Env) (v : RuleValue) : Prop where
  ruleType : v.ruleType.isSome
  payload : v.payload.isSome
  adapter : v.adapter.isSome
  shouldResolveIP : v.shouldResolveIP.isSome
  isMatch : ∀ m, (v.isMatch env m).isSome

theorem usable_pointer (env : Env) (r : Rule) : Usable env (.pointer r) :=
  ⟨rfl, rfl, rfl, rfl, fun _ => rfl⟩

theorem not_usable_nil (env : Env) : ¬ Usable env .nilDomainAndPort :=
  fun h => nomatch h.ruleType

end RuleValue

/-- The call has returned, and with a nil error it has returned a rule one can use. -/
def ParseResult.Honest (env : Env) : ParseResult → Prop
  | .parsed r => (RuleValue.pointer r).Usable env
  | .nilRule => RuleValue.nilDomainAndPort.Usable env
  | .failed _ => True
  | .panicked => False

/-- The parameters a case of the switch indexes are there, and a port that is
given to `NewDomainAndPort` is a number. -/
def RuleCase.PortGiven (params : List Str) : RuleCase → Prop
  | .dstIPPort => params ≠ []
  | .domainSrcPort | .domainDstPort => ∃ port, params.head? = some port ∧ (atoi port).isSome
  | _ => True

/-- `DST-IP-PORT` comes with a parameter, `DOMAIN-SRC-PORT` and `DOMAIN-DST-PORT`
with one that is a number. -/
def PortGiven (tp : Str) (params : List Str) : Prop :=
  ∀ c, ruleCases.lookup tp = some c → c.PortGiven params

section Constructors

variable (env : Env)

theorem honest_newIPCIDR (s adapter : Str) (multi isSourceIP noResolveIP : Bool)
    (withPort : Option Str) :
    (newIPCIDR s adapter multi isSourceIP noResolveIP withPort).Honest env := by
  unfold newIPCIDR
  split
  · trivial
  · exact RuleValue.usable_pointer env _

theorem honest_newPort (port adapter : Str) (isSource multi : Bool) :
    (newPort port adapter isSource multi).Honest env := by
  unfold newPort
  split
  · trivial
  · exact RuleValue.usable_pointer env _

/-- The one constructor that reports an error by a nil pointer. -/
theorem honest_newDomainAndPort_iff (u : Unicode) (domain adapter port : Str)
    (isSource multi : Bool) :
    (newDomainAndPort u domain adapter port isSource multi).Honest env ↔ (atoi port).isSome := by
  unfold newDomainAndPort
  cases hport : atoi port with
  | none => exact iff_of_false (RuleValue.not_usable_nil env) (by simp)
  | some n => exact iff_of_true (RuleValue.usable_pointer env _) rfl

end Constructors

theorem RuleCase.honest_parse_iff (env : Env) (payload target : Str) (params : List Str)
    (c : RuleCase) :
    (c.parse env.unicode payload target params).Honest env ↔ c.PortGiven params := by
  cases c with
  | domain | domainSuffix | domainKeyword | geoip | processName | final | allip =>
      exact iff_of_true (RuleValue.usable_pointer env _) trivial
  | ipCIDR | srcIPCIDR => exact iff_of_true (honest_newIPCIDR env ..) trivial
  | srcPort | dstPort => exact iff_of_true (honest_newPort env ..) trivial
  | dstIPPort =>
      cases params with
      | nil => exact iff_of_false not_false (not_not.mpr rfl)
      | cons port params => exact iff_of_true (honest_newIPCIDR env ..) (List.cons_ne_nil port params)
  | domainSrcPort | domainDstPort =>
      cases params with
      | nil => exact iff_of_false not_false (by simp [RuleCase.PortGiven])
      | cons port params =>
          have hport : RuleCase.PortGiven (port :: params) .domainSrcPort ↔ (atoi port).isSome := by
            simp [RuleCase.PortGiven]
          exact (honest_newDomainAndPort_iff env ..).trans hport.symm

/-- Where there is no error, there is a rule exactly if the types with a port are given one. -/
theorem portGiven_iff_parsed {u : Unicode} {tp payload target : Str} {params : List Str}
    (h : ∀ msg, parseRule u tp payload target params ≠ .failed msg) :
    PortGiven tp params ↔ ∃ r, parseRule u tp payload target params = .parsed r := by
  unfold parseRule PortGiven at *
  cases hcase : ruleCases.lookup tp with
  | none =>
      rw [hcase] at h
      exact absurd rfl (h _)
  | some c =>
      rw [hcase] at h
      have hhonest := RuleCase.honest_parse_iff { Env.bare with unicode := u } payload target params c
      simp only [Option.some.injEq, forall_eq']
      rw [← hhonest]
      cases hparse : c.parse u payload target params with
      | parsed r => exact iff_of_true (RuleValue.usable_pointer _ r) ⟨r, rfl⟩
      | nilRule => exact iff_of_false (RuleValue.not_usable_nil _) nofun
      | failed msg => exact absurd hparse (h msg)
      | panicked => exact iff_of_false not_false nofun

/-- `ParseRule` returns, and what it returns with a nil error can be used, exactly if the
types with a port are given one. -/
theorem parseRule_honest_iff (env : Env) (tp payload target : Str) (params : List Str) :
    (parseRule env.unicode tp payload target params).Honest env ↔ PortGiven tp params := by
  unfold parseRule PortGiven
  cases hcase : ruleCases.lookup tp with
  | none => exact iff_of_true trivial nofun
  | some c =>
      rw [RuleCase.honest_parse_iff]
      constructor
      · rintro h _ ⟨⟩
        exact h
      · exact fun h => h c rfl

/-- A line of three fields in the configuration file reaches `params[0]` of an empty
slice; with `no-resolve` as its parameter the rule is a nil pointer. -/
theorem parseRule_portless_not_honest :
    ¬ (parseRule Env.bare.unicode (str "DOMAIN-DST-PORT") (str "a.com") (str "REJECT") []).Honest
        Env.bare ∧
      ¬ (parseRule Env.bare.unicode (str "DOMAIN-DST-PORT") (str "a.com") (str "REJECT")
        [str "no-resolve"]).Honest Env.bare := by
  have hpanic : parseRule Env.bare.unicode (str "DOMAIN-DST-PORT") (str "a.com") (str "REJECT") [] =
      .panicked := by decide +kernel
  have hnil : parseRule Env.bare.unicode (str "DOMAIN-DST-PORT") (str "a.com") (str "REJECT")
      [str "no-resolve"] = .nilRule := by decide +kernel
  rw [hpanic, hnil]
  exact ⟨not_false, RuleValue.not_usable_nil Env.bare⟩

end RuleBaseProxy
