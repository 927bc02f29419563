import RuleBaseProxy.Lib.Base64
import RuleBaseProxy.Transport.Socks5Handshake

/-! # Authentication of HTTP clients

`authenticate` looks a credential up in the cache of its listener and asks the
authenticator only if the cache has no decision younger than a minute. The
credential is decoded with a split at every colon, where the configuration cuts
at the first one; the cache is not told of a new authenticator.
-/

namespace RuleBaseProxy.HttpAuth

open Go TransitionSystem Auth

/-! ## Credentials -/

def basic : Str := str "Basic "

/-- `ParseBasicProxyAuthorization` of the value of `Proxy-Authorization`. -/
def parseBasicProxyAuthorization (value : Str) : Str :=
  if basic <+: value then value.drop 6 else []

/-- `DecodeBasicProxyAuthorization`, with `none` for its errors. -/
def decodeBasicProxyAuthorization (credential : Str) : Option (Str × Str) :=
  (Base64.decodeString credential).bind fun plain =>
    match split plain colon with
    | [user, pass] => some (user, pass)
    | _ => none

/-- `err == nil && authenticator.Verify(user, pass)`. -/
def verdict (authenticator : Authenticator) (credential : Str) : Bool :=
  match decodeBasicProxyAuthorization credential with
  | some (user, pass) => authenticator user pass
  | none => false

/-! ## The cache of a listener -/

structure Element where
  payload : Bool
  expired : Int

/-- `cache.Cache` with credentials for keys. Times are nanoseconds. -/
abbrev CredentialCache := Str → Option Element

namespace CredentialCache

def put (c : CredentialCache) (key : Str) (payload : Bool) (ttl now : Int) : CredentialCache :=
  Function.update c key (some ⟨payload, now + ttl⟩)

/-- `cache.Get`, which drops an element it finds expired. -/
def get (c : CredentialCache) (key : Str) (now : Int) : Option Bool × CredentialCache :=
  match c key with
  | none => (none, c)
  | some elm =>
      if 0 < now - elm.expired then (none, Function.update c key none) else (some elm.payload, c)

def cleanup (c : CredentialCache) (now : Int) : CredentialCache := fun key =>
  (c key).filter fun elm => !decide (0 < now - elm.expired)

end CredentialCache

def minute : Int := 60 * 10 ^ 9

/-- The responses of `authenticate`: 407 and 403. -/
inductive Response where
  | proxyAuthRequired
  | forbidden
deriving DecidableEq

/-- `authenticate`: nil lets the request pass. The clock is read for the lookup
and again when a decision is stored. -/
def authenticate (authenticator : Option Authenticator) (cache : CredentialCache) (value : Str)
    (now later : Int) : Option Response × CredentialCache :=
  match authenticator with
  | none => (none, cache)
  | some au =>
      let credential := parseBasicProxyAuthorization value
      if credential = [] then (some .proxyAuthRequired, cache)
      else
        match cache.get credential now with
        | (some authed, cache) => (if authed then none else some .forbidden, cache)
        | (none, cache) =>
            let authed := verdict au credential
            (if authed then none else some .forbidden, cache.put credential authed minute later)

/-! ## Logins and reloads -/

/-- What a request got, and what the authenticator in force says to it. -/
structure Answer where
  passed : Bool
  allowed : Bool
deriving DecidableEq

structure State where
  authenticator : Option Authenticator
  cache : CredentialCache
  clock : Int
  /-- The authenticator that was asked for the cached decision. -/
  decidedBy : Str → Option Authenticator
  answers : List Answer

inductive Action where
  | setAuthenticator (authenticator : Option Authenticator)
  | authenticate (value : Str) (now later : Int)
  /-- The janitor. -/
  | cleanup (now : Int)

/-- A request is allowed if nobody is asked, or if the authenticator verifies it. -/
def allowed (authenticator : Option Authenticator) (value : Str) : Bool :=
  match authenticator with
  | none => true
  | some au => verdict au (parseBasicProxyAuthorization value)

def decider (s : State) (value : Str) (now : Int) : Str → Option Authenticator :=
  let credential := parseBasicProxyAuthorization value
  if s.authenticator.isSome ∧ credential ≠ [] ∧ (s.cache.get credential now).1 = none then
    Function.update s.decidedBy credential s.authenticator
  else s.decidedBy

def system : System State Action where
  step s
    | .setAuthenticator authenticator => some { s with authenticator := authenticator }
    | .authenticate value now later =>
        if s.clock ≤ now ∧ now ≤ later then
          let (response, cache) := authenticate s.authenticator s.cache value now later
          some { s with
            cache := cache
            clock := later
            decidedBy := decider s value now
            answers := s.answers ++ [⟨response.isNone, allowed s.authenticator value⟩] }
        else none
    | .cleanup now =>
        if s.clock ≤ now then some { s with cache := s.cache.cleanup now, clock := now } else none

def start (authenticator : Option Authenticator) (clock : Int) : State :=
  ⟨authenticator, fun _ => none, clock, fun _ => none, []⟩

/-- Every request so far got what the authenticator then in force says. -/
def AnswersCurrent (s : State) : Prop := ∀ a ∈ s.answers, a.passed = a.allowed

/-- Where the cache has a decision for the request, the authenticator that made
it and the one in force agree on the credential. -/
def DeciderAgrees (s : State) : Action → Prop
  | .authenticate value now _ =>
      let credential := parseBasicProxyAuthorization value
      ∀ au au', s.authenticator = some au → s.decidedBy credential = some au' →
        (s.cache.get credential now).1.isSome → verdict au' credential = verdict au credential
  | _ => True

def DecisionsKept (s : State) : Prop :=
  ∀ credential elm, s.cache credential = some elm →
    ∃ au, s.decidedBy credential = some au ∧ elm.payload = verdict au credential

/-! ## What a step does -/

theorem CredentialCache.get_cases (c : CredentialCache) (key : Str) (now : Int) :
    (∃ elm, c key = some elm ∧ c.get key now = (some elm.payload, c)) ∨
      ∃ c', c.get key now = (none, c') ∧ ∀ k, k ≠ key → c' k = c k := by
  unfold CredentialCache.get
  split
  · exact Or.inr ⟨c, rfl, fun _ _ => rfl⟩
  · rename_i elm helm
    split
    · exact Or.inr ⟨_, rfl, fun k hk => Function.update_of_ne hk _ _⟩
    · exact Or.inl ⟨elm, helm, rfl⟩

theorem isNone_response (authed : Bool) :
    (if authed then none else some Response.forbidden).isNone = authed := by
  cases authed <;> rfl

variable {s t : State}

theorem step_authenticate {value : Str} {now later : Int}
    (h : system.step s (.authenticate value now later) = some t) :
    (s.authenticator = none ∧
      t = { s with clock := later, answers := s.answers ++ [⟨true, true⟩] }) ∨
    ∃ au credential, s.authenticator = some au ∧
      credential = parseBasicProxyAuthorization value ∧
      (credential = [] ∧
          t = { s with
            clock := later
            answers := s.answers ++ [⟨false, verdict au credential⟩] } ∨
        (∃ elm, s.cache credential = some elm ∧ (s.cache.get credential now).1.isSome ∧
          t = { s with
            clock := later
            answers := s.answers ++ [⟨elm.payload, verdict au credential⟩] }) ∨
        ∃ cache : CredentialCache, (s.cache.get credential now).1 = none ∧
          (∀ k, k ≠ credential → cache k = s.cache k) ∧
          t = { s with
            cache := cache.put credential (verdict au credential) minute later
            clock := later
            decidedBy := Function.update s.decidedBy credential (some au)
            answers := s.answers ++ [⟨verdict au credential, verdict au credential⟩] }) := by
  simp only [system] at h
  split at h
  · cases h
    cases hau : s.authenticator with
    | none => exact Or.inl ⟨rfl, by simp [authenticate, allowed, decider, hau]⟩
    | some au =>
        refine Or.inr ⟨au, _, rfl, rfl, ?_⟩
        by_cases hcred : parseBasicProxyAuthorization value = []
        · exact Or.inl ⟨hcred, by simp [authenticate, allowed, decider, hau, hcred]⟩
        · obtain ⟨elm, helm, hget⟩ | ⟨cache, hget, hsame⟩ :=
            s.cache.get_cases (parseBasicProxyAuthorization value) now
          · refine Or.inr (Or.inl ⟨elm, helm, by rw [hget]; rfl, ?_⟩)
            simp only [authenticate, allowed, decider, hau, hcred, hget, if_false, isNone_response]
            simp
          · refine Or.inr (Or.inr ⟨cache, by rw [hget], hsame, ?_⟩)
            simp only [authenticate, allowed, decider, hau, hcred, hget, if_false, isNone_response]
            simp [hcred]
  · cases h

theorem step_setAuthenticator {authenticator : Option Authenticator}
    (h : system.step s (.setAuthenticator authenticator) = some t) :
    t = { s with authenticator := authenticator } := by
  cases h
  rfl

theorem step_cleanup {now : Int} (h : system.step s (.cleanup now) = some t) :
    t = { s with cache := s.cache.cleanup now, clock := now } := by
  simp only [system] at h
  split at h
  · cases h
    rfl
  · cases h

/-! ## Which histories answer by the authenticator in force -/

theorem decisionsKept_step {a : Action} (hs : DecisionsKept s) (h : system.step s a = some t) :
    DecisionsKept t := by
  cases a with
  | setAuthenticator authenticator =>
      rw [step_setAuthenticator h]
      exact hs
  | cleanup now =>
      rw [step_cleanup h]
      intro credential elm helm
      exact hs credential elm (Option.filter_eq_some_iff.mp helm).1
  | authenticate value now later =>
      obtain ⟨-, rfl⟩ | ⟨au, credential, -, -, ⟨-, rfl⟩ | ⟨elm, -, -, rfl⟩ | ⟨cache, -, hsame, rfl⟩⟩ :=
        step_authenticate h
      · exact hs
      · exact hs
      · exact hs
      · intro k elm helm
        obtain ⟨rfl, hput⟩ | ⟨hne, hold⟩ := eq_or_of_update helm
        · cases hput
          exact ⟨au, Function.update_self .., rfl⟩
        · obtain ⟨au', hau', hpayload⟩ := hs k elm ((hsame k hne).symm.trans hold)
          exact ⟨au', (Function.update_of_ne hne _ _).trans hau', hpayload⟩

theorem answersCurrent_append {b c : Bool} (hp : AnswersCurrent s) {t : State}
    (ht : t.answers = s.answers ++ [⟨b, c⟩]) : AnswersCurrent t ↔ b = c := by
  rw [AnswersCurrent, ht]
  constructor
  · intro h
    exact h ⟨b, c⟩ (by simp)
  · intro heq a ha
    obtain ha | ha := List.mem_append.mp ha
    · exact hp a ha
    · rw [List.mem_singleton.mp ha]
      exact heq

theorem verdict_nil (au : Authenticator) : verdict au [] = false := rfl

theorem answersCurrent_step_iff {a : Action} (hs : DecisionsKept s) (hp : AnswersCurrent s)
    (h : system.step s a = some t) : AnswersCurrent t ↔ DeciderAgrees s a := by
  cases a with
  | setAuthenticator authenticator =>
      rw [step_setAuthenticator h]
      exact ⟨fun _ => trivial, fun _ => hp⟩
  | cleanup now =>
      rw [step_cleanup h]
      exact ⟨fun _ => trivial, fun _ => hp⟩
  | authenticate value now later =>
      obtain ⟨hau, rfl⟩ | ⟨au, credential, hau, hcred, hcase⟩ := step_authenticate h
      · rw [answersCurrent_append hp rfl]
        refine ⟨fun _ au au' hsome => ?_, fun _ => rfl⟩
        rw [hau] at hsome
        cases hsome
      · have hguard : DeciderAgrees s (.authenticate value now later) ↔
            ∀ au', s.decidedBy credential = some au' → (s.cache.get credential now).1.isSome →
              verdict au' credential = verdict au credential := by
          simp only [DeciderAgrees, hau, ← hcred, Option.some.injEq]
          exact ⟨fun h au' => h au au' rfl, fun h _ au' heq => heq ▸ h au'⟩
        rw [hguard]
        obtain ⟨rfl, rfl⟩ | ⟨elm, helm, hfound, rfl⟩ | ⟨cache, hnone, -, rfl⟩ := hcase
        · rw [answersCurrent_append hp rfl, verdict_nil]
          exact ⟨fun _ au' _ _ => rfl, fun _ => rfl⟩
        · rw [answersCurrent_append hp rfl]
          obtain ⟨au', hau', hpayload⟩ := hs credential elm helm
          rw [hpayload]
          refine ⟨fun heq au'' hau'' _ => ?_, fun hagree => hagree au' hau' hfound⟩
          cases hau'.symm.trans hau''
          exact heq
        · rw [answersCurrent_append hp rfl]
          refine ⟨fun _ _ _ hsome => ?_, fun _ => rfl⟩
          rw [hnone] at hsome
          cases hsome

/-- A history of logins and reloads is answered by the authenticator in force
exactly if no request meets a cached decision of one that saw it otherwise. -/
theorem authenticate_current_iff (authenticator : Option Authenticator) (clock : Int)
    (as : List Action) :
    system.Always AnswersCurrent (start authenticator clock) as ↔
      system.Guarded DeciderAgrees (start authenticator clock) as := by
  have hInv : ∀ s a t, DecisionsKept s → AnswersCurrent s → system.step s a = some t →
      DeciderAgrees s a → DecisionsKept t := fun _ _ _ hs _ hstep _ => decisionsKept_step hs hstep
  have hP : ∀ s a t, DecisionsKept s → AnswersCurrent s → system.step s a = some t →
      (AnswersCurrent t ↔ DeciderAgrees s a) :=
    fun _ _ _ hs hp hstep => answersCurrent_step_iff hs hp hstep
  exact system.always_iff_guarded hInv hP as (fun _ _ h => nomatch h) fun _ h => nomatch h

def configured (lines : List Str) : Option Authenticator :=
  newAuthenticator (parseAuthentication lines)

def basicHeader (user pass : Str) : Str :=
  basic ++ Base64.encodeToString (user ++ colon :: pass)

/-- `bob` logs in, the configuration without `bob` is loaded, and ten seconds
after the first login `bob` is still let in. -/
theorem revoked_user_passes :
    ¬ ∀ (authenticator : Option Authenticator) (clock : Int) (as : List Action),
      system.Always AnswersCurrent (start authenticator clock) as := by
  intro hall
  have halways := hall (configured [str "bob:pw"]) 0
    [.authenticate (basicHeader (str "bob") (str "pw")) 0 0,
      .setAuthenticator (configured [str "eve:pw"]),
      .authenticate (basicHeader (str "bob") (str "pw")) (10 * 10 ^ 9) (10 * 10 ^ 9)]
  refine system.not_always_of_run ⟨_, rfl, fun hbad => ?_⟩ halways
  have hanswer := hbad ⟨true, false⟩ (by decide +kernel)
  cases hanswer

/-! ## One user, two front ends -/

theorem parse_basicHeader (user pass : Str) :
    parseBasicProxyAuthorization (basicHeader user pass) =
      Base64.encodeToString (user ++ colon :: pass) := by
  rw [parseBasicProxyAuthorization, basicHeader, if_pos (List.prefix_append _ _)]
  rfl

/-- A colon in the password makes a third part, and the login invalid. -/
theorem decode_basicHeader {user : Str} (huser : colon ∉ user) (pass : Str) :
    decodeBasicProxyAuthorization (parseBasicProxyAuthorization (basicHeader user pass)) =
      if colon ∈ pass then none else some (user, pass) := by
  rw [parse_basicHeader, decodeBasicProxyAuthorization, Base64.decodeString_encodeToString,
    Option.bind_some, split_append_sep, split_of_not_mem huser]
  by_cases hpass : colon ∈ pass
  · rw [if_pos hpass]
    obtain ⟨a, b, rfl⟩ := List.append_of_mem hpass
    obtain ⟨x, xs, hx⟩ := List.exists_cons_of_ne_nil (split_ne_nil a colon)
    obtain ⟨y, ys, hy⟩ := List.exists_cons_of_ne_nil (split_ne_nil b colon)
    rw [split_append_sep, hx, hy]
    cases xs with
    | nil => rfl
    | cons z zs => rfl
  · rw [if_neg hpass, split_of_not_mem hpass]
    rfl

/-- A request with the login on a listener that has decided nothing yet. -/
def httpPasses (au : Authenticator) (user pass : Str) (now later : Int) : Prop :=
  (authenticate (some au) (fun _ => none) (basicHeader user pass) now later).1 = none

/-- A SOCKS5 client with the login gets its request through `ServerHandshake`. -/
def socksPasses (au : Authenticator) (user pass : Str) : Prop :=
  ∀ (target : Socks5.Target) (command : Socks5.Command) (localAddr : Str) (a : Socks5.Addr),
    Socks5.parseAddr localAddr = some a →
      (Socks5.serverHandshake (some au) localAddr).exec
        ([5, 1, 2] ++ (Socks5.authMsg user pass ++ Socks5.request target.encode command)) =
          ⟨.done (.ok target.encode command.byte (some (user, pass))), [],
            [5, 2] ++ ([1, 0] ++ ([5, 0, 0] ++ a))⟩

theorem httpPasses_iff {au : Authenticator} {user pass : Str} (huser : colon ∉ user)
    (hau : au user pass = true) (now later : Int) :
    httpPasses au user pass now later ↔ colon ∉ pass := by
  have hcred : parseBasicProxyAuthorization (basicHeader user pass) ≠ [] := by
    rw [parse_basicHeader]
    exact Base64.encodeToString_ne_nil (by simp)
  have hverdict : verdict au (parseBasicProxyAuthorization (basicHeader user pass)) =
      decide (colon ∉ pass) := by
    rw [verdict, decode_basicHeader huser]
    by_cases hpass : colon ∈ pass
    · simp [hpass]
    · simp [hpass, hau]
  have hpasses : (authenticate (some au) (fun _ => none) (basicHeader user pass) now later).1.isNone =
      decide (colon ∉ pass) := by
    simp only [authenticate, if_neg hcred, CredentialCache.get]
    rw [isNone_response, hverdict]
  rw [httpPasses, ← Option.isNone_iff_eq_none, hpasses, decide_eq_true_eq]

theorem socksPasses_of_verify {au : Authenticator} {user pass : Str} (hau : au user pass = true)
    (huser : Socks5.FitsByte user) (hpass : Socks5.FitsByte pass) : socksPasses au user pass := by
  intro target command localAddr a hlocal
  have hmsg : Socks5.authMsg user pass ++ Socks5.request target.encode command =
      [1, UInt8.ofNat user.length] ++ (user ++ ([UInt8.ofNat pass.length] ++
        (pass ++ ([5, command.byte, 0] ++ (target.encode ++ []))))) := by
    simp [Socks5.authMsg, Socks5.request]
  rw [Socks5.exec_serverHandshake_some, Duplex.exec_write, hmsg,
    Socks5.exec_serverAuth huser hpass hau, Socks5.exec_serverRequest hlocal _ command.supported]
  rfl

/-- Both front ends let a configured user in exactly if the password has no colon;
SOCKS5 does so in any case. -/
theorem frontEnds_accept_iff {lines : List Str} {au : Authenticator} {user pass : Str}
    (hau : configured lines = some au) (hverify : au user pass = true) (now later : Int) :
    (httpPasses au user pass now later ∧
      (Socks5.FitsByte user → Socks5.FitsByte pass → socksPasses au user pass)) ↔
      colon ∉ pass := by
  have huser : colon ∉ user := colon_not_mem_user hau hverify
  rw [httpPasses_iff huser hverify]
  exact and_iff_left fun hu hp => socksPasses_of_verify hverify hu hp

theorem frontEnds_accept_plain :
    ∃ au, configured [str "bob:pw"] = some au ∧ au (str "bob") (str "pw") = true ∧
      httpPasses au (str "bob") (str "pw") 0 0 := by
  have hau : configured [str "bob:pw"] = some _ := rfl
  refine ⟨_, hau, by decide +kernel, ?_⟩
  exact ((frontEnds_accept_iff hau (by decide +kernel) 0 0).mpr (by decide +kernel)).1

/-- The line `bob:a:b` gives `bob` the password `a:b`, which SOCKS5 takes and HTTP refuses. -/
theorem httpRejects_colon_password :
    ¬ ∀ (lines : List Str) (au : Authenticator) (user pass : Str), configured lines = some au →
      au user pass = true → ∀ now later, httpPasses au user pass now later := by
  intro hall
  have hpasses := hall [str "bob:a:b"] _ (str "bob") (str "a:b") rfl (by decide +kernel) 0 0
  revert hpasses
  rw [httpPasses]
  decide +kernel

end RuleBaseProxy.HttpAuth
