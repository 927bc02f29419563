import RuleBaseProxy.Rule.Parser

/-! # Letter case of host names

The constructors of the domain rules bring the text of the rule to lower case;
`Match` takes the host as the client wrote it, and no listener changes its
letters. A host with a capital letter misses the rules for its own name.
-/

namespace RuleBaseProxy

open Go

/-- The rule types whose payload is a domain or a part of one. -/
def domainTypes : List Str :=
  [str "DOMAIN", str "DOMAIN-SUFFIX", str "DOMAIN-KEYWORD", str "DOMAIN-SRC-PORT",
    str "DOMAIN-DST-PORT"]

def Metadata.lowerHost (u : Unicode) (m : Metadata) : Metadata :=
  { m with host := toLower u m.host }

/-- The rules treat a host and its lower-case form alike exactly if the host is
in lower case: otherwise the `DOMAIN` rule for that very host tells them apart. -/
theorem domainRules_ignoreCase_iff (u : Unicode) (env : Env) (m : Metadata)
    (hm : m.addrType = atypDomainName) :
    (∀ tp ∈ domainTypes, ∀ payload target params r,
      parseRule u tp payload target params = .parsed r →
        r.isMatch env m = r.isMatch env (m.lowerHost u)) ↔ toLower u m.host = m.host := by
  constructor
  · intro hall
    have hparse : parseRule u (str "DOMAIN") m.host [] [] =
        .parsed (.domain (toLower u m.host) [] false) := rfl
    have heq := hall _ (by simp [domainTypes]) _ _ _ _ hparse
    simp only [Rule.isMatch, Metadata.lowerHost, hm, beq_self_eq_true, Bool.true_and] at heq
    exact (beq_iff_eq.mp heq).symm
  · intro hlow tp _ payload target params r _
    rw [Metadata.lowerHost, hlow]

def upperCaseRequest : Metadata :=
  { netWork := .TCP, type := .SOCKS5, srcIP := none, dstIP := none, srcPort := str "5000",
    dstPort := str "443", addrType := atypDomainName, host := str "A.com" }

theorem domainRules_ignoreCase_lower :
    (upperCaseRequest.lowerHost Unicode.ascii).addrType = atypDomainName ∧
      ∀ tp ∈ domainTypes, ∀ payload target params r,
        parseRule Unicode.ascii tp payload target params = .parsed r →
          r.isMatch Env.bare (upperCaseRequest.lowerHost Unicode.ascii) =
            r.isMatch Env.bare
              ((upperCaseRequest.lowerHost Unicode.ascii).lowerHost Unicode.ascii) :=
  ⟨rfl, (domainRules_ignoreCase_iff Unicode.ascii Env.bare
    (upperCaseRequest.lowerHost Unicode.ascii) rfl).mpr (by decide +kernel)⟩

/-- `DOMAIN,a.com` and a client that asks for `A.com`. -/
theorem domainRule_misses_upperCase :
    ¬ ∀ tp ∈ domainTypes, ∀ payload target params r,
      parseRule Unicode.ascii tp payload target params = .parsed r →
        ∀ m : Metadata, m.addrType = atypDomainName →
          r.isMatch Env.bare m = r.isMatch Env.bare (m.lowerHost Unicode.ascii) := by
  intro hall
  have hparse : parseRule Unicode.ascii (str "DOMAIN") (str "a.com") (str "REJECT") [] =
      .parsed (.domain (str "a.com") (str "REJECT") false) := by decide +kernel
  have heq := hall _ (by simp [domainTypes]) _ _ _ _ hparse upperCaseRequest rfl
  revert heq
  decide +kernel

end RuleBaseProxy
