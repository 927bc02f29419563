import RuleBaseProxy.Listener.HttpAuth
import RuleBaseProxy.Lib.GoText
import RuleBaseProxy.Lib.HostPort
import Mathlib.Data.List.Forall2

/-! # Connections of HTTP clients

`HandleConn` reads one request after another from a connection. As long as the connection is
not trusted it authenticates; then a CONNECT hands the connection to the tunnel, and any other
request is sent on without its hop-by-hop headers. The connections of a listener share the
cache of credentials.
-/

namespace RuleBaseProxy.HttpProxy

open Go Go.Net TransitionSystem Auth
open HttpAuth (parseBasicProxyAuthorization verdict authenticate)

/-! ## Headers -/

def isTokenByte (b : UInt8) : Bool :=
  isLetter b || (48 ≤ b && b ≤ 57) ||
    [33, 35, 36, 37, 38, 39, 42, 43, 45, 46, 94, 95, 96, 124, 126].contains b

def upperByte (b : UInt8) : UInt8 := if 97 ≤ b && b ≤ 122 then b - 32 else b

/-- Upper case at the start and after a hyphen, lower case elsewhere. -/
def canonicalBytes : Bool → Str → Str
  | _, [] => []
  | upper, b :: bs =>
      let c := if upper then upperByte b else lowerByte b
      c :: canonicalBytes (c == 45) bs

/-- `textproto.CanonicalMIMEHeaderKey`. -/
def canonicalKey (s : Str) : Str := if s.all isTokenByte then canonicalBytes true s else s

/-- `http.Header`, with no values for a key that is not there. -/
abbrev Header := Str → List Str

namespace Header

def empty : Header := fun _ => []

def get (h : Header) (key : Str) : Str := ((h (canonicalKey key)).head?).getD []

def del (h : Header) (key : Str) : Header := Function.update h (canonicalKey key) []

def set (h : Header) (key value : Str) : Header := Function.update h (canonicalKey key) [value]

end Header

/-- The names that `RemoveHopByHopHeaders` deletes in any case, `Connection` apart. -/
def hopByHop : List Str :=
  [str "Proxy-Connection", str "Proxy-Authenticate", str "Proxy-Authorization", str "TE",
    str "Trailers", str "Transfer-Encoding", str "Upgrade"]

/-- The names listed in the first value of `Connection`. -/
def connectionNames (connections : Str) : List Str :=
  if connections = [] then [] else (split connections 44).map trimSpace

def removeHopByHopHeaders (h : Header) : Header :=
  let h := hopByHop.foldl Header.del h
  let connections := h.get (str "Connection")
  let h := h.del (str "Connection")
  (connectionNames connections).foldl Header.del h

/-! ## Requests -/

structure URL where
  scheme : Str
  host : Str

structure Request where
  method : Str
  protoMajor : Nat
  protoMinor : Nat
  header : Header
  host : Str
  url : URL

structure Response where
  statusCode : Nat
  header : Header

def responseWith (statusCode : Nat) : Response := ⟨statusCode, Header.empty⟩

/-- The response of `authenticate`. -/
def refused : HttpAuth.Response → Response
  | .proxyAuthRequired =>
      ⟨407, Header.empty.set (str "Proxy-Authenticate") (str "Basic")⟩
  | .forbidden => responseWith 403

def removeExtraHTTPHostPort (r : Request) : Request :=
  let host := if r.host = [] then r.url.host else r.host
  let host :=
    match splitHostPort host with
    | some (pHost, port) => if port = str "80" then pHost else host
    | none => host
  { r with host, url := { r.url with host } }

/-- What is sent on of a request that is not a CONNECT. -/
def outgoing (r : Request) : Request :=
  let host := r.header.get (str "Host")
  let r := if host = [] then r else { r with host }
  removeExtraHTTPHostPort { r with header := removeHopByHopHeaders r.header }

def keepAlive (u : Unicode) (r : Request) : Bool :=
  decide (trimSpace (toLower u (r.header.get (str "Proxy-Connection"))) = str "keep-alive")

def finish (keepAlive : Bool) (resp : Response) : Response :=
  let header := removeHopByHopHeaders resp.header
  if keepAlive then
    { resp with
      header := ((header.set (str "Proxy-Connection") (str "keep-alive")).set
        (str "Connection") (str "keep-alive")).set (str "Keep-Alive") (str "timeout=4") }
  else { resp with header }

inductive Effect where
  /-- The line for a CONNECT; the tunnel gets the connection if it could be written. -/
  | connect (r : Request) (written : Bool)
  | answered (sent : Option Request) (resp : Response) (close : Bool)

def Effect.forwards : Effect → Bool
  | .connect _ _ => true
  | .answered sent _ _ => sent.isSome

/-- One turn of the loop in `HandleConn`, after `authenticate`. The reply is that of `client.Do`,
with `none` for an error. -/
def effect (u : Unicode) (r : Request) (refusal : Option HttpAuth.Response)
    (reply : Option Response) (written : Bool) : Effect :=
  let alive := keepAlive u r
  match refusal with
  | some resp => .answered none (finish alive (refused resp)) (!alive)
  | none =>
      if r.method = str "CONNECT" then .connect r written
      else
        let q := outgoing r
        if q.url.scheme = [] ∨ q.url.host = [] then
          .answered none (finish alive (responseWith 400)) (!alive)
        else .answered (some q) (finish alive (reply.getD (responseWith 502))) (!alive)

/-! ## Connections -/

inductive Phase where
  | serving
  | hijacked
  | closed
deriving DecidableEq

structure Conn where
  trusted : Bool
  phase : Phase
  effects : List Effect

def Effect.phase (written : Bool) : Effect → Phase
  | .connect _ written => if written then .hijacked else .closed
  | .answered _ _ close => if written && !close then .serving else .closed

def Conn.serve (u : Unicode) (c : Conn) (r : Request) (refusal : Option HttpAuth.Response)
    (reply : Option Response) (written : Bool) : Conn :=
  let e := effect u r refusal reply written
  ⟨refusal.isNone, e.phase written, c.effects ++ [e]⟩

structure State where
  auth : HttpAuth.State
  conns : List Conn

inductive Event where
  | accept
  | request (i : Nat) (r : Request) (now later : Int) (reply : Option Response) (written : Bool)
  /-- No further request can be read. -/
  | broken (i : Nat)
  | setAuthenticator (authenticator : Option Authenticator)
  | cleanup (now : Int)

def authorization (r : Request) : Str := r.header.get (str "Proxy-Authorization")

/-- `authenticated` is false for a listener without a cache. -/
def step (u : Unicode) (authenticated : Bool) (s : State) : Event → Option State
  | .accept => some { s with conns := s.conns ++ [⟨!authenticated, .serving, []⟩] }
  | .request i r now later reply written =>
      (s.conns[i]?).bind fun c =>
        if c.phase ≠ .serving then none
        else if c.trusted then
          some { s with conns := s.conns.set i (c.serve u r none reply written) }
        else
          let refusal := (authenticate s.auth.authenticator s.auth.cache (authorization r) now later).1
          (HttpAuth.system.step s.auth (.authenticate (authorization r) now later)).map fun auth =>
            ⟨auth, s.conns.set i (c.serve u r refusal reply written)⟩
  | .broken i =>
      (s.conns[i]?).bind fun c =>
        if c.phase ≠ .serving then none
        else some { s with conns := s.conns.set i { c with phase := .closed } }
  | .setAuthenticator authenticator =>
      (HttpAuth.system.step s.auth (.setAuthenticator authenticator)).map fun auth =>
        { s with auth }
  | .cleanup now => (HttpAuth.system.step s.auth (.cleanup now)).map fun auth => { s with auth }

def system (u : Unicode) (authenticated : Bool) : System State Event := ⟨step u authenticated⟩

def start (authenticator : Option Authenticator) (clock : Int) : State :=
  ⟨HttpAuth.start authenticator clock, []⟩

/-! ## Which headers are left -/

/-- The keys that `RemoveHopByHopHeaders` deletes. -/
def hopKeys (h : Header) : List Str :=
  (hopByHop ++ str "Connection" :: connectionNames (h.get (str "Connection"))).map canonicalKey

theorem foldl_del (names : List Str) (h : Header) (key : Str) :
    names.foldl Header.del h key = if key ∈ names.map canonicalKey then [] else h key := by
  induction names generalizing h with
  | nil => simp
  | cons name names ih =>
      rw [List.foldl_cons, ih, Header.del]
      by_cases hmem : key ∈ names.map canonicalKey
      · rw [if_pos hmem, if_pos]
        exact List.mem_cons_of_mem _ hmem
      · rw [if_neg hmem, Function.update_apply]
        by_cases heq : key = canonicalKey name
        · rw [if_pos heq, if_pos]
          rw [heq]
          exact List.mem_cons_self
        · rw [if_neg heq, if_neg]
          rw [List.map_cons, List.mem_cons]
          exact fun h => h.elim heq hmem

theorem removeHopByHopHeaders_apply (h : Header) (key : Str) :
    removeHopByHopHeaders h key = if key ∈ hopKeys h then [] else h key := by
  have hget : (hopByHop.foldl Header.del h).get (str "Connection") = h.get (str "Connection") := by
    rw [Header.get, foldl_del, if_neg (by decide), Header.get]
  rw [hopKeys, ← foldl_del, List.foldl_append, List.foldl_cons, removeHopByHopHeaders]
  simp only [hget]

theorem outgoing_header (r : Request) : (outgoing r).header = removeHopByHopHeaders r.header := by
  unfold outgoing removeExtraHTTPHostPort
  simp only
  split <;> rfl

def ownHeader (close : Bool) : Header :=
  if close then Header.empty
  else ((Header.empty.set (str "Proxy-Connection") (str "keep-alive")).set
    (str "Connection") (str "keep-alive")).set (str "Keep-Alive") (str "timeout=4")

/-- The headers of the server's reply, where a request was sent on and answered. -/
def serverHeader (sent : Option Request) (reply : Option Response) : Header :=
  match sent, reply with
  | some _, some answer => answer.header
  | _, _ => Header.empty

/-- What comes of a request. The server gets its headers without those for the proxy and those
that the first line of `Connection` names. The client gets the server's reply in the same way,
or no header at all, and what the proxy itself sets. -/
def Serves (u : Unicode) (r : Request) (reply : Option Response) : Effect → Prop
  | .connect q _ => q = r
  | .answered sent resp close =>
      close = !keepAlive u r ∧
        (∀ q, sent = some q → ∀ key,
          q.header key = if key ∈ hopKeys r.header then [] else r.header key) ∧
        (∀ q answer, sent = some q → reply = some answer → resp.statusCode = answer.statusCode) ∧
        ∀ key, resp.header key =
          if ownHeader close key ≠ [] then ownHeader close key
          else if key ∈ hopKeys (serverHeader sent reply) then []
          else serverHeader sent reply key

theorem finish_header (alive : Bool) (resp : Response) (key : Str) :
    (finish alive resp).header key =
      if ownHeader (!alive) key ≠ [] then ownHeader (!alive) key
      else if key ∈ hopKeys resp.header then [] else resp.header key := by
  rw [← removeHopByHopHeaders_apply]
  cases alive with
  | false => rfl
  | true =>
      have hown : ownHeader (!true) = ((Header.empty.set (str "Proxy-Connection")
          (str "keep-alive")).set (str "Connection") (str "keep-alive")).set (str "Keep-Alive")
          (str "timeout=4") := rfl
      have hfinish : (finish true resp).header = (((removeHopByHopHeaders resp.header).set
          (str "Proxy-Connection") (str "keep-alive")).set (str "Connection")
          (str "keep-alive")).set (str "Keep-Alive") (str "timeout=4") := rfl
      rw [hown, hfinish]
      simp only [Header.set, Function.update_apply, Header.empty]
      repeat' split
      all_goals simp_all

theorem statusCode_finish (alive : Bool) (resp : Response) :
    (finish alive resp).statusCode = resp.statusCode := by
  unfold finish
  split <;> rfl

/-- The challenge that `authenticate` sets is among the headers that are removed. -/
theorem removeHopByHopHeaders_refused (resp : HttpAuth.Response) (key : Str) :
    removeHopByHopHeaders (refused resp).header key = [] := by
  rw [removeHopByHopHeaders_apply]
  split
  case isTrue => rfl
  case isFalse hkey =>
    cases resp with
    | forbidden => rfl
    | proxyAuthRequired =>
        refine Function.update_of_ne ?_ _ _
        rintro rfl
        exact hkey (List.mem_map_of_mem (by decide))

theorem removeHopByHopHeaders_empty (key : Str) : removeHopByHopHeaders Header.empty key = [] := by
  rw [removeHopByHopHeaders_apply]
  split <;> rfl

theorem serves_effect (u : Unicode) (r : Request) (refusal : Option HttpAuth.Response)
    (reply : Option Response) (written : Bool) :
    Serves u r reply (effect u r refusal reply written) := by
  have hown : ∀ resp : Response, (∀ key, removeHopByHopHeaders resp.header key = []) →
      Serves u r reply (.answered none (finish (keepAlive u r) resp) (!keepAlive u r)) := by
    intro resp hresp
    refine ⟨rfl, by rintro q ⟨⟩, by rintro q answer ⟨⟩, fun key => ?_⟩
    rw [finish_header, ← removeHopByHopHeaders_apply, hresp, ← removeHopByHopHeaders_apply]
    exact congrArg _ (removeHopByHopHeaders_empty key).symm
  unfold effect
  cases refusal with
  | some resp => exact hown _ (removeHopByHopHeaders_refused resp)
  | none =>
      simp only
      split
      case isTrue => rfl
      case isFalse =>
        split
        case isTrue => exact hown _ removeHopByHopHeaders_empty
        case isFalse =>
          refine ⟨rfl, ?_, ?_, fun key => ?_⟩
          · rintro q ⟨⟩ key
            rw [outgoing_header, removeHopByHopHeaders_apply]
          · rintro q answer ⟨⟩ rfl
            rw [statusCode_finish, Option.getD_some]
          · rw [finish_header]
            cases reply <;> rfl

/-! ## Who is trusted -/

variable {u : Unicode} {authenticated : Bool} {s t : State}

theorem step_request {i : Nat} {r : Request} {now later : Int} {reply : Option Response}
    {written : Bool} (h : step u authenticated s (.request i r now later reply written) = some t) :
    ∃ c refusal, s.conns[i]? = some c ∧
      t.conns = s.conns.set i (c.serve u r refusal reply written) ∧
      (c.trusted = true ∧ refusal = none ∧ t.auth = s.auth ∨
        refusal = (authenticate s.auth.authenticator s.auth.cache (authorization r) now later).1 ∧
          HttpAuth.system.step s.auth (.authenticate (authorization r) now later) = some t.auth) := by
  obtain ⟨c, hc, h⟩ := Option.bind_eq_some_iff.mp h
  obtain ⟨-, h⟩ := Option.ite_none_left_eq_some.mp h
  split at h
  case isTrue htrusted =>
    cases h
    exact ⟨c, none, hc, rfl, Or.inl ⟨htrusted, rfl, rfl⟩⟩
  case isFalse =>
    obtain ⟨auth, hauth, rfl⟩ := Option.map_eq_some_iff.mp h
    exact ⟨c, _, hc, rfl, Or.inr ⟨rfl, hauth⟩⟩

def Installed (authenticator : Option Authenticator) (events : List Event)
    (au : Authenticator) : Prop :=
  authenticator = some au ∨ .setAuthenticator (some au) ∈ events

/-- The request passes where nobody is asked, or with a login that an authenticator has
verified which is or was in force. -/
def Passes (authenticator : Option Authenticator) (events : List Event) (s : State)
    (r : Request) : Prop :=
  s.auth.authenticator = none ∨
    ∃ au, Installed authenticator events au ∧
      verdict au (parseBasicProxyAuthorization (authorization r)) = true

def Vouched (u : Unicode) (authenticator : Option Authenticator) (clock : Int)
    (events : List Event) (i : Nat) : Prop :=
  ∃ before s r now later reply written,
    before ++ [.request i r now later reply written] <+: events ∧
      (system u true).run (start authenticator clock) before = some s ∧
      Passes authenticator before s r

structure Sound (u : Unicode) (authenticator : Option Authenticator) (clock : Int)
    (events : List Event) (s : State) : Prop where
  kept : HttpAuth.DecisionsKept s.auth
  current : ∀ au, s.auth.authenticator = some au → Installed authenticator events au
  decided : ∀ credential au, s.auth.decidedBy credential = some au →
    Installed authenticator events au
  trusted : ∀ i c, s.conns[i]? = some c → c.trusted = true →
    Vouched u authenticator clock events i

theorem Installed.append {authenticator : Option Authenticator} {events : List Event}
    {au : Authenticator} (h : Installed authenticator events au) (more : List Event) :
    Installed authenticator (events ++ more) au :=
  h.imp id (List.mem_append_left _)

theorem Vouched.append {authenticator : Option Authenticator} {clock : Int} {events : List Event}
    {i : Nat} (h : Vouched u authenticator clock events i) (more : List Event) :
    Vouched u authenticator clock (events ++ more) i := by
  obtain ⟨before, s, r, now, later, reply, written, hbefore, hrun, hpasses⟩ := h
  exact ⟨before, s, r, now, later, reply, written, hbefore.trans (List.prefix_append _ _), hrun,
    hpasses⟩

theorem decidedBy_authenticate {a b : HttpAuth.State} {value : Str} {now later : Int}
    (h : HttpAuth.system.step a (.authenticate value now later) = some b) :
    b.authenticator = a.authenticator ∧
      ∀ credential au, b.decidedBy credential = some au →
        a.decidedBy credential = some au ∨ a.authenticator = some au := by
  obtain ⟨-, rfl⟩ | ⟨au, credential, hau, -, ⟨-, rfl⟩ | ⟨elm, -, -, rfl⟩ | ⟨cache, -, -, rfl⟩⟩ :=
    HttpAuth.step_authenticate h
  · exact ⟨rfl, fun _ _ h => Or.inl h⟩
  · exact ⟨rfl, fun _ _ h => Or.inl h⟩
  · exact ⟨rfl, fun _ _ h => Or.inl h⟩
  · refine ⟨rfl, fun k au' hdecided => ?_⟩
    obtain ⟨rfl, hput⟩ | ⟨-, hold⟩ := eq_or_of_update hdecided
    · cases hput
      exact Or.inr hau
    · exact Or.inl hold

theorem verdict_of_authenticate {a : HttpAuth.State} (hkept : HttpAuth.DecisionsKept a)
    {value : Str} {now later : Int}
    (h : (authenticate a.authenticator a.cache value now later).1 = none) :
    a.authenticator = none ∨
      ∃ au, (a.authenticator = some au ∨ ∃ credential, a.decidedBy credential = some au) ∧
        verdict au (parseBasicProxyAuthorization value) = true := by
  cases hau : a.authenticator with
  | none => exact Or.inl rfl
  | some au =>
      right
      rw [hau] at h
      simp only [authenticate] at h
      split at h
      case isTrue => cases h
      case isFalse =>
        rcases a.cache.get_cases (parseBasicProxyAuthorization value) now with
          ⟨elm, helm, hget⟩ | ⟨cache, hget, -⟩
        · rw [hget] at h
          have hpayload : elm.payload = true := by
            rw [← HttpAuth.isNone_response elm.payload]
            exact Option.isNone_iff_eq_none.mpr h
          obtain ⟨au', hau', heq⟩ := hkept _ elm helm
          exact ⟨au', Or.inr ⟨_, hau'⟩, heq.symm.trans hpayload⟩
        · rw [hget] at h
          refine ⟨au, Or.inl rfl, ?_⟩
          rw [← HttpAuth.isNone_response (verdict au _)]
          exact Option.isNone_iff_eq_none.mpr h

variable {authenticator : Option Authenticator} {clock : Int} {events : List Event}

theorem Sound.passes (hs : Sound u authenticator clock events s) {r : Request} {now later : Int}
    (h : (authenticate s.auth.authenticator s.auth.cache (authorization r) now later).1 = none) :
    Passes authenticator events s r := by
  rcases verdict_of_authenticate hs.kept h with hnone | ⟨au, hau | ⟨credential, hau⟩, hverdict⟩
  · exact Or.inl hnone
  · exact Or.inr ⟨au, hs.current au hau, hverdict⟩
  · exact Or.inr ⟨au, hs.decided credential au hau, hverdict⟩

/-- A connection is trusted after a turn of the loop only if it was before, or the request
passes. -/
theorem Sound.request (hrun : (system u true).run (start authenticator clock) events = some s)
    (hs : Sound u authenticator clock events s) {i : Nat} {r : Request} {now later : Int}
    {reply : Option Response} {written : Bool}
    (h : step u true s (.request i r now later reply written) = some t) :
    Sound u authenticator clock (events ++ [.request i r now later reply written]) t := by
  obtain ⟨c, refusal, hc, hconns, hcase⟩ := step_request h
  have htrusted : refusal = none →
      Vouched u authenticator clock (events ++ [.request i r now later reply written]) i := by
    intro hrefusal
    rcases hcase with ⟨hold, -, -⟩ | ⟨hauth, -⟩
    · exact (hs.trusted i c hc hold).append _
    · exact ⟨events, s, r, now, later, reply, written, List.prefix_refl _, hrun,
        hs.passes (hauth.symm.trans hrefusal)⟩
  have hconn : ∀ j d, t.conns[j]? = some d → d.trusted = true →
      Vouched u authenticator clock (events ++ [.request i r now later reply written]) j := by
    intro j d hd hdtrusted
    rw [hconns, List.getElem?_set] at hd
    split at hd
    case isTrue heq =>
      subst heq
      obtain ⟨-, ⟨⟩⟩ := Option.ite_none_right_eq_some.mp hd
      exact htrusted (Option.isNone_iff_eq_none.mp hdtrusted)
    case isFalse => exact (hs.trusted j d hd hdtrusted).append _
  rcases hcase with ⟨-, -, hauth⟩ | ⟨-, hauth⟩
  · refine ⟨?_, ?_, ?_, hconn⟩
    · rw [hauth]
      exact hs.kept
    · rw [hauth]
      exact fun au hau => (hs.current au hau).append _
    · rw [hauth]
      exact fun k au hau => (hs.decided k au hau).append _
  · obtain ⟨hsame, hdecided⟩ := decidedBy_authenticate hauth
    refine ⟨HttpAuth.decisionsKept_step hs.kept hauth, ?_, ?_, hconn⟩
    · rw [hsame]
      exact fun au hau => (hs.current au hau).append _
    · intro k au hau
      rcases hdecided k au hau with hau | hau
      · exact (hs.decided k au hau).append _
      · exact (hs.current au hau).append _

theorem Sound.step (hrun : (system u true).run (start authenticator clock) events = some s)
    (hs : Sound u authenticator clock events s) {e : Event} (h : step u true s e = some t) :
    Sound u authenticator clock (events ++ [e]) t := by
  have hcurrent : ∀ au, s.auth.authenticator = some au → Installed authenticator (events ++ [e]) au :=
    fun au hau => (hs.current au hau).append _
  have hdecided : ∀ credential au, s.auth.decidedBy credential = some au →
      Installed authenticator (events ++ [e]) au := fun k au hau => (hs.decided k au hau).append _
  have htrusted : ∀ i c, s.conns[i]? = some c → c.trusted = true →
      Vouched u authenticator clock (events ++ [e]) i :=
    fun i c hc htrue => (hs.trusted i c hc htrue).append _
  cases e with
  | accept =>
      cases h
      refine ⟨hs.kept, hcurrent, hdecided, fun i c hc htrue => ?_⟩
      rw [List.getElem?_append] at hc
      split at hc
      case isTrue => exact htrusted i c hc htrue
      case isFalse =>
        rw [List.mem_singleton.mp (List.mem_of_getElem? hc)] at htrue
        cases htrue
  | request i r now later reply written => exact hs.request hrun h
  | broken i =>
      obtain ⟨c, hc, h⟩ := Option.bind_eq_some_iff.mp h
      obtain ⟨-, ⟨⟩⟩ := Option.ite_none_left_eq_some.mp h
      refine ⟨hs.kept, hcurrent, hdecided, fun j d hd htrue => ?_⟩
      rw [List.getElem?_set] at hd
      split at hd
      case isTrue heq =>
        subst heq
        obtain ⟨-, ⟨⟩⟩ := Option.ite_none_right_eq_some.mp hd
        exact htrusted i c hc htrue
      case isFalse => exact htrusted j d hd htrue
  | setAuthenticator new =>
      cases h
      refine ⟨HttpAuth.decisionsKept_step (a := .setAuthenticator new) hs.kept rfl, ?_, hdecided,
        htrusted⟩
      rintro au ⟨⟩
      exact Or.inr (List.mem_append_right _ List.mem_cons_self)
  | cleanup now =>
      obtain ⟨auth, hauth, rfl⟩ := Option.map_eq_some_iff.mp h
      refine ⟨HttpAuth.decisionsKept_step hs.kept hauth, ?_, ?_, htrusted⟩
      · rw [HttpAuth.step_cleanup hauth]
        exact hcurrent
      · rw [HttpAuth.step_cleanup hauth]
        exact hdecided

theorem sound_of_run (hrun : (system u true).run (start authenticator clock) events = some s) :
    Sound u authenticator clock events s := by
  induction events using List.reverseRecOn generalizing s with
  | nil =>
      cases hrun
      refine ⟨?_, ?_, ?_, ?_⟩
      · rintro credential elm ⟨⟩
      · exact fun au hau => Or.inl hau
      · rintro credential au ⟨⟩
      · rintro i c ⟨⟩
  | append_singleton events e ih =>
      rw [System.run_append] at hrun
      obtain ⟨s', hrun', hlast⟩ := Option.bind_eq_some_iff.mp hrun
      obtain ⟨s'', hstep, hnil⟩ := Option.bind_eq_some_iff.mp hlast
      cases hnil
      exact (ih hrun').step hrun' hstep

/-- A turn of the loop that sends something on leaves the connection trusted. -/
theorem trusted_of_forwards {c : Conn} {r : Request} {refusal : Option HttpAuth.Response}
    {reply : Option Response} {written : Bool}
    (h : (effect u r refusal reply written).forwards = true) :
    (c.serve u r refusal reply written).trusted = true := by
  cases refusal with
  | none => rfl
  | some resp => cases h

theorem exists_effect {i : Nat} {r : Request} {now later : Int} {reply : Option Response}
    {written : Bool} (h : step u authenticated s (.request i r now later reply written) = some t)
    {c : Conn} (hc : t.conns[i]? = some c) :
    ∃ old refusal, c = Conn.serve u old r refusal reply written := by
  obtain ⟨old, refusal, hold, hconns, -⟩ := step_request h
  obtain ⟨hlt, -⟩ := List.getElem?_eq_some_iff.mp hold
  rw [hconns, List.getElem?_set_self hlt] at hc
  cases hc
  exact ⟨old, refusal, rfl⟩

/-- Over every interleaving of the connections of a listener, reloads and cleanups: a request
is sent on, or a connection handed to the tunnel, only if on that connection this or an earlier
request came when there was no authenticator, or with a login verified by an authenticator that
was in force by then. -/
theorem forwarded_vouched (u : Unicode) (authenticator : Option Authenticator) (clock : Int)
    (events : List Event) (s t : State)
    (hrun : (system u true).run (start authenticator clock) events = some s) (i : Nat)
    (r : Request) (now later : Int) (reply : Option Response) (written : Bool)
    (hstep : step u true s (.request i r now later reply written) = some t) (c : Conn)
    (hc : t.conns[i]? = some c) (e : Effect) (he : c.effects.getLast? = some e)
    (hforwards : e.forwards = true) :
    Vouched u authenticator clock (events ++ [.request i r now later reply written]) i := by
  have hsound := (sound_of_run hrun).step hrun hstep
  obtain ⟨old, refusal, rfl⟩ := exists_effect hstep hc
  have heffect : e = effect u r refusal reply written := by
    rw [Conn.serve, List.getLast?_concat] at he
    cases he
    rfl
  rw [heffect] at hforwards
  exact hsound.trusted i _ hc (trusted_of_forwards hforwards)

/-- `bob` logs in with a request and sends another one without the login. -/
def login : Request :=
  { method := str "GET"
    protoMajor := 1
    protoMinor := 1
    header := (Header.empty.set (str "Proxy-Authorization")
      (HttpAuth.basicHeader (str "bob") (str "pw"))).set (str "Proxy-Connection") (str "keep-alive")
    host := str "example.com"
    url := ⟨str "http", str "example.com:80"⟩ }

theorem forwarded_vouched_second :
    Vouched Unicode.ascii (HttpAuth.configured [str "bob:pw"]) 0
      ([.accept, .request 0 login 0 0 none true] ++
        [.request 0 { login with header := Header.empty } 1 1 none true]) 0 := by
  refine forwarded_vouched Unicode.ascii (HttpAuth.configured [str "bob:pw"]) 0
    [.accept, .request 0 login 0 0 none true] _ _ rfl 0 { login with header := Header.empty } 1 1
    none true rfl _ rfl _ rfl ?_
  decide +kernel

/-! ## What each request gets -/

/-- The requests that came on a connection, with the replies of the servers. -/
def turnsOn (i : Nat) (events : List Event) : List (Request × Option Response) :=
  events.filterMap fun e =>
    match e with
    | .request j r _ _ reply _ => if j = i then some (r, reply) else none
    | _ => none

theorem turnsOn_append (i : Nat) (events : List Event) (e : Event) :
    turnsOn i (events ++ [e]) = turnsOn i events ++ turnsOn i [e] :=
  List.filterMap_append

theorem turnsOn_other {i j : Nat} (hne : i ≠ j) {r : Request} {now later : Int}
    {reply : Option Response} {written : Bool} :
    turnsOn j [.request i r now later reply written] = [] := by
  simp [turnsOn, hne]

structure Answered (u : Unicode) (events : List Event) (s : State) : Prop where
  serves : ∀ i c, s.conns[i]? = some c → List.Forall₂ (fun turn => Serves u turn.1 turn.2) (turnsOn i events)
    c.effects
  none_before : ∀ i, s.conns.length ≤ i → turnsOn i events = []

theorem Answered.of_silent (hs : Answered u events s) {e : Event}
    (he : ∀ i, turnsOn i [e] = [])
    (hold : ∀ (i : Nat) (c : Conn), t.conns[i]? = some c →
      ∃ old : Conn, s.conns[i]? = some old ∧ c.effects = old.effects)
    (hlength : t.conns.length = s.conns.length) : Answered u (events ++ [e]) t := by
  refine ⟨fun i c hc => ?_, fun i hi => ?_⟩
  · obtain ⟨old, hget, heffects⟩ := hold i c hc
    rw [turnsOn_append, he, List.append_nil, heffects]
    exact hs.serves i old hget
  · rw [turnsOn_append, he, List.append_nil]
    exact hs.none_before i (hlength ▸ hi)

theorem Answered.accept (hs : Answered u events s) {c : Conn} (hc : c.effects = []) :
    Answered u (events ++ [.accept]) { s with conns := s.conns ++ [c] } := by
  have hsilent : ∀ i, turnsOn i (events ++ [.accept]) = turnsOn i events := by
    intro i
    rw [turnsOn_append]
    exact List.append_nil _
  refine ⟨fun i d hd => ?_, fun i hi => ?_⟩
  · rw [hsilent]
    rw [List.getElem?_append] at hd
    split at hd
    case isTrue => exact hs.serves i d hd
    case isFalse hlt =>
      rw [List.mem_singleton.mp (List.mem_of_getElem? hd), hs.none_before i (Nat.le_of_not_lt hlt),
        hc]
      exact .nil
  · rw [hsilent]
    rw [List.length_append] at hi
    exact hs.none_before i (Nat.le_of_succ_le hi)

theorem Answered.request (hs : Answered u events s) {i : Nat} {r : Request} {now later : Int}
    {reply : Option Response} {written : Bool}
    (h : step u authenticated s (.request i r now later reply written) = some t) :
    Answered u (events ++ [.request i r now later reply written]) t := by
  obtain ⟨c, refusal, hc, hconns, -⟩ := step_request h
  obtain ⟨hlt, -⟩ := List.getElem?_eq_some_iff.mp hc
  refine ⟨fun j d hd => ?_, fun j hj => ?_⟩
  · rw [turnsOn_append]
    rw [hconns, List.getElem?_set] at hd
    split at hd
    case isTrue heq =>
      subst heq
      cases hd
      have hone : turnsOn i [.request i r now later reply written] = [(r, reply)] := by
        simp [turnsOn]
      rw [hone]
      exact List.rel_append (hs.serves i c hc) (.cons (serves_effect u r refusal reply written) .nil)
    case isFalse hne =>
      rw [turnsOn_other hne, List.append_nil]
      exact hs.serves j d hd
  · rw [hconns, List.length_set] at hj
    have hne : i ≠ j := by omega
    rw [turnsOn_append, turnsOn_other hne, List.append_nil]
    exact hs.none_before j hj

theorem Answered.step (hs : Answered u events s) {e : Event}
    (h : step u authenticated s e = some t) : Answered u (events ++ [e]) t := by
  cases e with
  | accept =>
      cases h
      exact hs.accept rfl
  | request i r now later reply written => exact hs.request h
  | broken i =>
      obtain ⟨c, hc, h⟩ := Option.bind_eq_some_iff.mp h
      obtain ⟨-, ⟨⟩⟩ := Option.ite_none_left_eq_some.mp h
      refine hs.of_silent (fun _ => rfl) (fun j d hd => ?_) List.length_set
      rw [List.getElem?_set] at hd
      split at hd
      case isTrue heq =>
        subst heq
        obtain ⟨-, ⟨⟩⟩ := Option.ite_none_right_eq_some.mp hd
        exact ⟨c, hc, rfl⟩
      case isFalse => exact ⟨d, hd, rfl⟩
  | setAuthenticator new =>
      cases h
      exact hs.of_silent (fun _ => rfl) (fun i c hc => ⟨c, hc, rfl⟩) rfl
  | cleanup now =>
      obtain ⟨auth, -, rfl⟩ := Option.map_eq_some_iff.mp h
      exact hs.of_silent (fun _ => rfl) (fun i c hc => ⟨c, hc, rfl⟩) rfl

/-- Over every interleaving: each connection has an effect for each of its requests, in their
order. A request is sent on without the headers for the proxy and those that the first line of its
`Connection` names, and with all others. The response has the headers of the server's reply in the
same way, and those that the proxy sets to keep the connection. The challenge that `authenticate`
has set on a 407 does not reach the client. -/
theorem requests_served (u : Unicode) (authenticated : Bool) (authenticator : Option Authenticator)
    (clock : Int) (events : List Event) (s : State)
    (hrun : (system u authenticated).run (start authenticator clock) events = some s) (i : Nat)
    (c : Conn) (hc : s.conns[i]? = some c) :
    List.Forall₂ (fun turn => Serves u turn.1 turn.2) (turnsOn i events) c.effects := by
  have hanswered : Answered u events s := by
    clear hc
    induction events using List.reverseRecOn generalizing s with
    | nil =>
        cases hrun
        exact ⟨by rintro i c ⟨⟩, fun _ _ => rfl⟩
    | append_singleton events e ih =>
        rw [System.run_append] at hrun
        obtain ⟨s', hrun', hlast⟩ := Option.bind_eq_some_iff.mp hrun
        obtain ⟨s'', hstep, hnil⟩ := Option.bind_eq_some_iff.mp hlast
        cases hnil
        exact (ih s' hrun').step hstep
  exact hanswered.serves i c hc

/-- A request without login, and one with it, whose reply names a header in `Connection`. -/
theorem requests_served_challenge :
    let alive := Header.empty.set (str "Proxy-Connection") (str "keep-alive")
    let first : Request := { login with header := alive }
    let reply : Response := ⟨200, (Header.empty.set (str "Connection") (str "X-Hop")).set
      (str "X-Hop") (str "1")⟩
    ∃ s c, (system Unicode.ascii true).run (start (HttpAuth.configured [str "bob:pw"]) 0)
        [.accept, .request 0 first 0 0 none true, .request 0 login 1 1 (some reply) true] = some s ∧
      s.conns[0]? = some c ∧ List.Forall₂ (fun turn => Serves Unicode.ascii turn.1 turn.2)
        [(first, none), (login, some reply)] c.effects := by
  intro alive first reply
  have hrun : (system Unicode.ascii true).run (start (HttpAuth.configured [str "bob:pw"]) 0)
      [.accept, .request 0 first 0 0 none true, .request 0 login 1 1 (some reply) true] = some _ :=
    rfl
  exact ⟨_, _, hrun, rfl, requests_served _ _ _ _ _ _ hrun 0 _ rfl⟩

end RuleBaseProxy.HttpProxy
