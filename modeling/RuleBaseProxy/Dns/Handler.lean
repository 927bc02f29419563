import RuleBaseProxy.Config.Hosts
import RuleBaseProxy.Dns.Enhancer
import RuleBaseProxy.Dns.Exchange
import RuleBaseProxy.Dns.MsgCache

/-! # The DNS server

A request passes through the middlewares of `newHandler` until one of them answers it; the
last one asks the resolver. `verdict` says in one place what comes of a request; each middleware
is shown to do its part of it. The functions of the library that write the header of a reply are
parameters, with what is assumed of them in `Library.Lawful`.
-/

namespace RuleBaseProxy.Dns.Server

open Go Go.Net Trie Exchange Enhancer

/-! ## Messages -/

structure Record where
  name : Str
  rrtype : UInt16
  rclass : UInt16
  ttl : UInt32
  data : Answer

/-- `dns.Msg`, without the header bits that nothing here sets. -/
structure Message where
  id : UInt16
  response : Bool
  opcode : Nat
  authoritative : Bool
  recursionDesired : Bool
  recursionAvailable : Bool
  checkingDisabled : Bool
  rcode : Nat
  question : List Question
  answer : List Record
  ns : List Record
  extra : List Record

namespace Message

/-- `&dns.Msg{}`. -/
def zero : Message := ⟨0, false, 0, false, false, false, false, 0, [], [], [], []⟩

def toResponse (msg : Message) : Response :=
  ⟨msg.question.head?.map (·.qtype), msg.rcode, msg.answer.map (·.data)⟩

end Message

/-- `Msg.SetRcode` of the library, and the message that its `HandleFailed` writes. -/
structure Library where
  setRcode : Message → Message → Nat → Message
  handleFailed : Message → Message

/-- `SetRcode`, and the two bits that every answer of the server has. -/
def Library.finish (lib : Library) (dns request : Message) (rcode : Nat) : Message :=
  { lib.setRcode dns request rcode with authoritative := true, recursionAvailable := true }

def Library.handleMsgWithEmptyAnswer (lib : Library) (r : Message) : Message :=
  lib.finish Message.zero r rcodeSuccess

/-! ## The middlewares -/

structure Write where
  ip : Option IP
  ttl : UInt32
  host : Str

/-- What a handler returns, and what `withMapping` goes through on the way. -/
structure Outcome where
  out : Except Str Message
  mapped : List Write

/-- From `ctx.Host` and the request; `none` is a panic. -/
abbrev Handler := Str → Message → Option Outcome

abbrev Middleware := Handler → Handler

def withPreHandle : Middleware := fun next _ r =>
  r.question.head?.bind fun q => next (msgToDomain q) r

def dnsDefaultTTL : UInt32 := 600

theorem forall_mem_some {n : Nat} {ip : IP} (h : ip.bytes.length = n) :
    ∀ x ∈ some ip, x.bytes.length = n := by
  rintro x ⟨⟩
  exact h

def hostRecord (q : Question) (ipv6 : Bool) (ip : Option IP) : Option Record :=
  ip.bind fun ip =>
    match h4 : ip.to4 with
    | some v4 =>
        if q.qtype = typeA then
          some ⟨q.name, typeA, classINET, dnsDefaultTTL,
            .a (some ⟨v4, IP.length_of_four (IP.length_of_to4 h4)⟩)
              (forall_mem_some (IP.length_of_to4 h4))⟩
        else none
    | none =>
        if h16 : ip.bytes.length = 16 then
          if ipv6 ∧ q.qtype = typeAAAA then
            some ⟨q.name, typeAAAA, classINET, dnsDefaultTTL,
              .aaaa (some ip) (forall_mem_some h16)⟩
          else none
        else none

/-- A bare address in the hosts fails the type assertion. -/
def withHosts (lib : Library) (hosts : DomainTrie HostData) (ipv6 : Bool) : Middleware :=
  fun next host r =>
  r.question.head?.bind fun q =>
    if !isIPRequest q then next host r
    else
      match hosts.search (msgToDomain q) with
      | none => next host r
      | some (.ip _) => none
      | some (.ips ips) =>
          let answer := ips.filterMap (hostRecord q ipv6)
          some ⟨.ok (lib.finish { r with answer := answer } r rcodeSuccess), []⟩

/-- A name that the filter blocks gets its own request back. -/
def withADGurd (adGurdMatch : Str → Bool) : Middleware := fun next host r =>
  if adGurdMatch host then some ⟨.ok r, []⟩ else next host r

def typeSVCB : UInt16 := 64
def typeHTTPS : UInt16 := 65

def fakeRecord (q : Question) (ttl : UInt32) (ip : { ip : IP // ip.bytes.length = 4 }) : Record :=
  ⟨q.name, typeA, classINET, ttl, .a (some ip.1) (forall_mem_some ip.2)⟩

def setMsgTTL (msg : Message) (ttl : UInt32) : Message :=
  let setTTL := List.map fun rr : Record => { rr with ttl }
  { msg with answer := setTTL msg.answer, ns := setTTL msg.ns, extra := setTTL msg.extra }

/-- The message as the cache has it. -/
def Message.toMsg (msg : Message) : Msg :=
  let toRR := List.map fun rr : Record => (⟨rr.rrtype, rr.ttl⟩ : RR)
  ⟨toRR msg.answer, toRR msg.ns, toRR msg.extra⟩

theorem toMsg_setMsgTTL (msg : Message) (ttl : UInt32) :
    (setMsgTTL msg ttl).toMsg = Dns.setMsgTTL msg.toMsg ttl := by
  simp [Message.toMsg, setMsgTTL, Dns.setMsgTTL, RR.setTtl]

/-- `withFakeIP`, with the answers of the pool. -/
def withFakeIP (lib : Library) (lookupHost : Str → Bool)
    (lookup : Str → { ip : IP // ip.bytes.length = 4 }) : Middleware := fun next host r =>
  r.question.head?.bind fun q =>
    if lookupHost host then next host r
    else if q.qtype = typeAAAA ∨ q.qtype = typeSVCB ∨ q.qtype = typeHTTPS then
      some ⟨.ok (lib.handleMsgWithEmptyAnswer r), []⟩
    else if q.qtype ≠ typeA then next host r
    else
      let msg := setMsgTTL { r with answer := [fakeRecord q dnsDefaultTTL (lookup host)] } 1
      some ⟨.ok (lib.finish msg r rcodeSuccess), []⟩

/-- The address of a record that `withMapping` does not skip. -/
def Record.write (host : Str) (rr : Record) : Option Write :=
  match rr.data with
  | .a ip _ => some ⟨ip, rr.ttl, host⟩
  | .aaaa ip _ => some ⟨ip, rr.ttl, host⟩
  | .other => none

def withMapping : Middleware := fun next host r =>
  r.question.head?.bind fun q =>
    if !isIPRequest q then next host r
    else
      (next host r).map fun o =>
        match o.out with
        | .error _ => o
        | .ok msg => ⟨.ok msg, o.mapped ++ msg.answer.filterMap (Record.write host)⟩

/-! ## The resolver at the end -/

structure DualMessages where
  aResult : Option Message
  aaaaResult : Option Message

def collectMessages (results : List (Option Message)) : DualMessages :=
  results.foldl (fun s res =>
    match res with
    | none => s
    | some msg =>
        match msg.question with
        | [] => s
        | q :: _ =>
            if q.qtype = typeA then { s with aResult := some msg }
            else { s with aaaaResult := some msg }) ⟨none, none⟩

/-- `finalMsg`, nil if there is nothing to return. -/
def merge (s : DualMessages) : Option Message :=
  match s.aResult, s.aaaaResult with
  | some a, aaaa =>
      if a.rcode = rcodeSuccess then
        match aaaa with
        | none => some a
        | some aaaa =>
            if 0 < aaaa.answer.length then
              some { a with
                answer := a.answer ++ aaaa.answer
                ns := a.ns ++ aaaa.ns
                extra := a.extra ++ aaaa.extra }
            else some a
      else
        match aaaa with
        | some aaaa => if aaaa.rcode = rcodeSuccess then some aaaa else some a
        | none => some a
  | none, some aaaa => if aaaa.rcode = rcodeSuccess then some aaaa else none
  | none, none => none

/-- The results as they arrive; `none` is a query that failed. -/
def dualQuery (lib : Library) (r : Message) (results : List (Option Message)) : Message :=
  match merge (collectMessages results) with
  | none => lib.handleMsgWithEmptyAnswer r
  | some finalMsg => lib.finish finalMsg r finalMsg.rcode

/-- `r.Copy()` with the type of its first question changed. -/
def aaaaRequest (r : Message) : Message :=
  match r.question with
  | [] => r
  | q :: rest => { r with question := { q with qtype := typeAAAA } :: rest }

/-- What a request meets: `resolver.Exchange`, which of the two answers of `dualQuery` is
first, the filter and the pool. -/
structure World where
  exchange : Message → Except Str Message
  aaaaFirst : Bool
  adGurdMatch : Str → Bool
  lookupHost : Str → Bool
  lookup : Str → { ip : IP // ip.bytes.length = 4 }

def reply? : Except Str Message → Option Message
  | .ok msg => some msg
  | .error _ => none

def World.arrivals (w : World) (r : Message) : List (Option Message) :=
  let a := reply? (w.exchange r)
  let aaaa := reply? (w.exchange (aaaaRequest r))
  if w.aaaaFirst then [aaaa, a] else [a, aaaa]

def withResolver (lib : Library) (ipv6 : Bool) (w : World) : Handler := fun _ r =>
  r.question.head?.bind fun q =>
    if !ipv6 ∧ q.qtype = typeAAAA then some ⟨.ok (lib.handleMsgWithEmptyAnswer r), []⟩
    else if ipv6 ∧ q.qtype = typeA then some ⟨.ok (dualQuery lib r (w.arrivals r)), []⟩
    else
      match w.exchange r with
      | .error err => some ⟨.error err, []⟩
      | .ok msg => some ⟨.ok (lib.finish msg r msg.rcode), []⟩

def compose (middlewares : List Middleware) (endpoint : Handler) : Handler :=
  middlewares.foldr (fun middleware h => middleware h) endpoint

/-- What `newHandler` reads when it is called, and the library. -/
structure Setup where
  library : Library
  /-- `none` is nil. -/
  hosts : Option (DomainTrie HostData)
  ipv6 : Bool
  /-- `len(ADGurdRules) > 0` -/
  filtered : Bool
  mode : EnhancedMode

def newHandler (s : Setup) (w : World) : Handler :=
  let middlewares := [withPreHandle] ++
    (match s.hosts with
      | some hosts => [withHosts s.library hosts s.ipv6]
      | none => []) ++
    (if s.filtered then [withADGurd w.adGurdMatch] else []) ++
    (if s.mode = .fakeip then [withFakeIP s.library w.lookupHost w.lookup] else []) ++
    (if s.mode ≠ .normal then [withMapping] else [])
  compose middlewares (withResolver s.library s.ipv6 w)

def handlerWithContext (handler : Handler) (msg : Message) : Option Outcome :=
  if msg.question = [] then some ⟨.error (str "at least one question is required"), []⟩
  else handler [] msg

/-- The message that `ServeDNS` writes. -/
def serveDNS (s : Setup) (w : World) (r : Message) : Option Message :=
  (handlerWithContext (newHandler s w) r).map fun o =>
    match o.out with
    | .error _ => s.library.handleFailed r
    | .ok msg => msg

/-! ## The library -/

/-- The message is a reply to the request. -/
structure Answers (r msg : Message) : Prop where
  id : msg.id = r.id
  response : msg.response = true
  opcode : msg.opcode = r.opcode
  question : msg.question = r.question.take 1

/-- What is assumed of the library: `SetRcode` makes the message a reply with the code and leaves
its records, and `HandleFailed` writes a reply without records. -/
structure Library.Lawful (lib : Library) : Prop where
  answers : ∀ dns r rcode, r.question ≠ [] → Answers r (lib.setRcode dns r rcode)
  rcode : ∀ dns r rcode, (lib.setRcode dns r rcode).rcode = rcode
  answer : ∀ dns r rcode, (lib.setRcode dns r rcode).answer = dns.answer
  failed : ∀ r, Answers r (lib.handleFailed r)
  failed_rcode : ∀ r, (lib.handleFailed r).rcode = rcodeServerFailure
  failed_answer : ∀ r, (lib.handleFailed r).answer = []

def Library.plain : Library :=
  let setRcode := fun dns r rcode =>
    { dns with
      id := r.id, response := true, opcode := r.opcode, question := r.question.take 1, rcode }
  ⟨setRcode, fun r => setRcode Message.zero r rcodeServerFailure⟩

theorem Library.lawful_plain : Library.plain.Lawful :=
  ⟨fun _ _ _ _ => ⟨rfl, rfl, rfl, rfl⟩, fun _ _ _ => rfl, fun _ _ _ => rfl,
    fun _ => ⟨rfl, rfl, rfl, rfl⟩, fun _ => rfl, fun _ => rfl⟩

section Lawful

variable {lib : Library} (hlib : lib.Lawful) {r : Message}
include hlib

theorem Library.Lawful.answers_finish (dns : Message) (rcode : Nat) (hr : r.question ≠ []) :
    Answers r (lib.finish dns r rcode) :=
  have h := hlib.answers dns r rcode hr
  ⟨h.id, h.response, h.opcode, h.question⟩

end Lawful

/-! ## The level below

`Dns.dualQuery` is this one as far as it looks at the messages. -/

theorem toResponse_finish {lib : Library} (hlib : lib.Lawful) (dns r : Message) (rcode : Nat)
    {q : Question} (hq : r.question.head? = some q) :
    (lib.finish dns r rcode).toResponse =
      { dns.toResponse with qtype := some q.qtype, rcode := rcode } := by
  have hr : r.question ≠ [] := by
    rintro hnil
    rw [hnil] at hq
    cases hq
  have hquestion : (lib.finish dns r rcode).question.head? = some q := by
    rw [(hlib.answers_finish dns rcode hr).question, List.head?_take, if_neg (by decide), hq]
  have hrcode : (lib.finish dns r rcode).rcode = rcode := hlib.rcode dns r rcode
  have hanswer : (lib.finish dns r rcode).answer = dns.answer := hlib.answer dns r rcode
  rw [Message.toResponse, hquestion, hrcode, hanswer]
  rfl

def DualMessages.toResults (s : DualMessages) : DualResults :=
  ⟨s.aResult.map Message.toResponse, s.aaaaResult.map Message.toResponse⟩

theorem toResults_collectMessages (results : List (Option Message)) :
    (collectMessages results).toResults = collect (results.map (·.map Message.toResponse)) := by
  unfold collectMessages collect
  generalize hs : (⟨none, none⟩ : DualMessages) = s
  have hstart : (⟨none, none⟩ : DualResults) = s.toResults := by rw [← hs]; rfl
  rw [hstart]
  clear hs hstart
  induction results generalizing s with
  | nil => rfl
  | cons res results ih =>
      rw [List.map_cons, List.foldl_cons, List.foldl_cons, ih]
      congr 1
      cases res with
      | none => rfl
      | some msg =>
          cases hq : msg.question with
          | nil => simp [Message.toResponse, hq]
          | cons q rest =>
              by_cases hA : q.qtype = typeA
              · simp [DualMessages.toResults, Message.toResponse, hq, hA]
              · simp [DualMessages.toResults, Message.toResponse, hq, hA]

@[simp] theorem rcode_toResponse (msg : Message) : msg.toResponse.rcode = msg.rcode := rfl

@[simp] theorem answer_toResponse (msg : Message) :
    msg.toResponse.answer = msg.answer.map (·.data) := rfl

theorem toResponse_dualQuery {lib : Library} (hlib : lib.Lawful) (r : Message)
    (results : List (Option Message)) {q : Question} (hq : r.question.head? = some q)
    (hA : q.qtype = typeA) :
    (dualQuery lib r results).toResponse =
      Dns.dualQuery (results.map (·.map Message.toResponse)) := by
  rw [Dns.dualQuery, ← toResults_collectMessages, dualQuery]
  generalize collectMessages results = s
  obtain ⟨a, aaaa⟩ := s
  have hfinal : ∀ (msg : Message) (rcode : Nat), (lib.finish msg r rcode).toResponse =
      ⟨some typeA, rcode, msg.answer.map (·.data)⟩ := by
    intro msg rcode
    rw [toResponse_finish hlib _ _ _ hq, hA]
    rfl
  have hempty : (lib.handleMsgWithEmptyAnswer r).toResponse = ⟨some typeA, rcodeSuccess, []⟩ :=
    hfinal _ _
  cases a with
  | none =>
      cases aaaa with
      | none => exact hempty
      | some aaaa =>
          by_cases hcode : aaaa.rcode = rcodeSuccess
          · simp [merge, DualMessages.toResults, hcode, hfinal]
          · simp [merge, DualMessages.toResults, hcode, hempty]
  | some a =>
      by_cases hcode : a.rcode = rcodeSuccess
      · cases aaaa with
        | none => simp [merge, DualMessages.toResults, hcode, hfinal]
        | some aaaa =>
            cases hanswer : aaaa.answer with
            | nil => simp [merge, DualMessages.toResults, hcode, hfinal, hanswer]
            | cons rr rest => simp [merge, DualMessages.toResults, hcode, hfinal, hanswer]
      · cases aaaa with
        | none => simp [merge, DualMessages.toResults, hcode, hfinal]
        | some aaaa =>
            by_cases hcode' : aaaa.rcode = rcodeSuccess
            · simp [merge, DualMessages.toResults, hcode, hcode', hfinal]
            · simp [merge, DualMessages.toResults, hcode, hcode', hfinal]

/-! ## What is mapped -/

def Keeps (P : Str → Message → Outcome → Prop) (h : Handler) : Prop :=
  ∀ host r o, h host r = some o → P host r o

/-- The mapping gets the addresses of the answer, under the host. -/
def Mapped (host : Str) (_ : Message) (o : Outcome) : Prop :=
  ∀ wr ∈ o.mapped, ∃ msg, o.out = .ok msg ∧ ∃ rr ∈ msg.answer, rr.write host = some wr

section Mapped

variable {lib : Library} {w : World} {next : Handler}

theorem mapped_nil (host : Str) (r : Message) (out : Except Str Message) :
    Mapped host r ⟨out, []⟩ := by
  rintro wr ⟨⟩

theorem keeps_withResolver (ipv6 : Bool) : Keeps Mapped (withResolver lib ipv6 w) := by
  intro host r o h
  obtain ⟨q, -, h⟩ := Option.bind_eq_some_iff.mp h
  split at h
  · cases h
    exact mapped_nil host r _
  split at h
  · cases h
    exact mapped_nil host r _
  · split at h
    · cases h
      exact mapped_nil host r _
    · cases h
      exact mapped_nil host r _

theorem keeps_withHosts (hosts : DomainTrie HostData) (ipv6 : Bool) (hnext : Keeps Mapped next) :
    Keeps Mapped (withHosts lib hosts ipv6 next) := by
  intro host r o h
  obtain ⟨q, -, h⟩ := Option.bind_eq_some_iff.mp h
  split at h
  · exact hnext host r o h
  · split at h
    · exact hnext host r o h
    · cases h
    · cases h
      exact mapped_nil host r _

theorem keeps_withFakeIP (hnext : Keeps Mapped next) :
    Keeps Mapped (withFakeIP lib w.lookupHost w.lookup next) := by
  intro host r o h
  obtain ⟨q, -, h⟩ := Option.bind_eq_some_iff.mp h
  split at h
  · exact hnext host r o h
  split at h
  · cases h
    exact mapped_nil host r _
  split at h
  · exact hnext host r o h
  · cases h
    exact mapped_nil host r _

theorem keeps_withADGurd (hnext : Keeps Mapped next) :
    Keeps Mapped (withADGurd w.adGurdMatch next) := by
  intro host r o h
  unfold withADGurd at h
  split at h
  · cases h
    exact mapped_nil host r _
  · exact hnext host r o h

theorem keeps_withMapping (hnext : Keeps Mapped next) : Keeps Mapped (withMapping next) := by
  intro host r o h
  obtain ⟨q, -, h⟩ := Option.bind_eq_some_iff.mp h
  split at h
  · exact hnext host r o h
  · obtain ⟨o', ho', rfl⟩ := Option.map_eq_some_iff.mp h
    have hmapped := hnext host r o' ho'
    cases hout : o'.out with
    | error err => exact hmapped
    | ok msg =>
        intro wr hwr
        rcases List.mem_append.mp hwr with hwr | hwr
        · obtain ⟨msg', hmsg', hrr⟩ := hmapped wr hwr
          cases hout.symm.trans hmsg'
          exact ⟨msg, rfl, hrr⟩
        · obtain ⟨rr, hrr, hwrite⟩ := List.mem_filterMap.mp hwr
          exact ⟨msg, rfl, rr, hrr, hwrite⟩

end Mapped

/-! ## The middlewares in their order -/

def optional (there : Bool) (m : Middleware) : Middleware := fun next =>
  if there then m next else next

def inner (s : Setup) (w : World) : Handler :=
  optional s.filtered (withADGurd w.adGurdMatch)
    (optional (s.mode = .fakeip) (withFakeIP s.library w.lookupHost w.lookup)
      (optional (s.mode ≠ .normal) withMapping (withResolver s.library s.ipv6 w)))

theorem newHandler_of_hosts {s : Setup} {hosts : DomainTrie HostData} (h : s.hosts = some hosts)
    (w : World) :
    newHandler s w = withPreHandle (withHosts s.library hosts s.ipv6 (inner s w)) := by
  unfold newHandler inner optional
  rw [h]
  cases s.filtered <;> cases s.mode <;> rfl

theorem newHandler_of_no_hosts {s : Setup} (h : s.hosts = none) (w : World) :
    newHandler s w = withPreHandle (inner s w) := by
  unfold newHandler inner optional
  rw [h]
  cases s.filtered <;> cases s.mode <;> rfl

/-- A property that a middleware keeps is kept where it is missing. -/
theorem Keeps.optional {P : Str → Message → Outcome → Prop} {m : Middleware} {next : Handler}
    (hnext : Keeps P next) (hm : Keeps P (m next)) (there : Bool) :
    Keeps P (optional there m next) := by
  cases there with
  | false => exact hnext
  | true => exact hm

theorem keeps_inner (s : Setup) (w : World) : Keeps Mapped (inner s w) := by
  have hresolver : Keeps Mapped (withResolver s.library s.ipv6 w) := keeps_withResolver s.ipv6
  have hmapping := hresolver.optional (keeps_withMapping hresolver) (s.mode ≠ .normal)
  have hfake : Keeps Mapped (optional (s.mode = .fakeip)
      (withFakeIP s.library w.lookupHost w.lookup) _) :=
    hmapping.optional (keeps_withFakeIP hmapping) _
  exact hfake.optional (keeps_withADGurd hfake) s.filtered

/-- Through all the middlewares, with the host of the first question. -/
theorem mapped_newHandler {s : Setup} {w : World} {host : Str} {r : Message} {o : Outcome}
    (h : newHandler s w host r = some o) :
    ∃ q, r.question.head? = some q ∧ Mapped (msgToDomain q) r o := by
  cases hhosts : s.hosts with
  | none =>
      rw [newHandler_of_no_hosts hhosts] at h
      obtain ⟨q, hq, h⟩ := Option.bind_eq_some_iff.mp h
      exact ⟨q, hq, keeps_inner s w _ r o h⟩
  | some hosts =>
      rw [newHandler_of_hosts hhosts] at h
      obtain ⟨q, hq, h⟩ := Option.bind_eq_some_iff.mp h
      exact ⟨q, hq, keeps_withHosts hosts s.ipv6 (keeps_inner s w) _ r o h⟩

/-! ## What comes of a request -/

structure Content where
  rcode : Nat
  answer : List Record

def Message.content (msg : Message) : Content := ⟨msg.rcode, msg.answer⟩

def Content.empty : Content := ⟨rcodeSuccess, []⟩

def Content.failure : Content := ⟨rcodeServerFailure, []⟩

inductive Verdict where
  | panics
  /-- The request itself is sent back. -/
  | echoed
  | replied (c : Content)

def resolved (ipv6 : Bool) (w : World) (r : Message) (q : Question) : Content :=
  if !ipv6 ∧ q.qtype = typeAAAA then .empty
  else if ipv6 ∧ q.qtype = typeA then
    ((merge (collectMessages (w.arrivals r))).map Message.content).getD .empty
  else
    match w.exchange r with
    | .error _ => .failure
    | .ok msg => msg.content

def Setup.hostData (s : Setup) (q : Question) : Option HostData :=
  if isIPRequest q then s.hosts.bind fun hosts => hosts.search (msgToDomain q) else none

/-- The pool has an address for a question of type A, and nothing for three other types. -/
def fakeVerdict (w : World) (q : Question) (otherwise : Verdict) : Verdict :=
  if w.lookupHost (msgToDomain q) then otherwise
  else if q.qtype ∈ [typeAAAA, typeSVCB, typeHTTPS] then .replied .empty
  else if q.qtype = typeA then
    .replied ⟨rcodeSuccess, [fakeRecord q 1 (w.lookup (msgToDomain q))]⟩
  else otherwise

/-- The filter comes first, then the pool of fake addresses, and last the resolver. -/
def innerVerdict (s : Setup) (w : World) (r : Message) (q : Question) : Verdict :=
  if s.filtered ∧ w.adGurdMatch (msgToDomain q) then .echoed
  else if s.mode = .fakeip then fakeVerdict w q (.replied (resolved s.ipv6 w r q))
  else .replied (resolved s.ipv6 w r q)

/-- Before them come the hosts. -/
def verdict (s : Setup) (w : World) (r : Message) : Verdict :=
  match r.question.head? with
  | none => .replied .failure
  | some q =>
      match s.hostData q with
      | some (.ip _) => .panics
      | some (.ips ips) => .replied ⟨rcodeSuccess, ips.filterMap (hostRecord q s.ipv6)⟩
      | none => innerVerdict s w r q

def Meets (r : Message) : Verdict → Option (Except Str Message) → Prop
  | .panics, out => out = none
  | .echoed, out => out = some (.ok r)
  | .replied c, out =>
      (∃ msg, out = some (.ok msg) ∧ Answers r msg ∧ msg.content = c) ∨
        ∃ err, out = some (.error err) ∧ c = .failure

section Meets

variable {lib : Library} {w : World} {next : Handler} {host : Str} {r : Message} {q : Question}
  {v : Verdict}

theorem question_ne_nil_of_head? (h : r.question.head? = some q) : r.question ≠ [] := by
  intro hnil
  rw [hnil] at h
  cases h

theorem meets_finish (hlib : lib.Lawful) (hq : r.question.head? = some q) (dns : Message)
    (rcode : Nat) :
    Meets r (.replied ⟨rcode, dns.answer⟩) (some (.ok (lib.finish dns r rcode))) := by
  refine Or.inl ⟨_, rfl, hlib.answers_finish dns rcode (question_ne_nil_of_head? hq), ?_⟩
  have hrcode : (lib.finish dns r rcode).rcode = rcode := hlib.rcode dns r rcode
  have hanswer : (lib.finish dns r rcode).answer = dns.answer := hlib.answer dns r rcode
  rw [Message.content, hrcode, hanswer]

theorem meets_withResolver (hlib : lib.Lawful) (hq : r.question.head? = some q) (ipv6 : Bool) :
    Meets r (.replied (resolved ipv6 w r q))
      ((withResolver lib ipv6 w host r).map Outcome.out) := by
  rw [withResolver, hq, Option.bind_some, resolved]
  split
  case isTrue => exact meets_finish hlib hq Message.zero rcodeSuccess
  case isFalse =>
    split
    case isTrue =>
      rw [dualQuery]
      cases merge (collectMessages (w.arrivals r)) with
      | none => exact meets_finish hlib hq Message.zero rcodeSuccess
      | some msg => exact meets_finish hlib hq msg msg.rcode
    case isFalse =>
      cases w.exchange r with
      | error err => exact Or.inr ⟨err, rfl, rfl⟩
      | ok msg => exact meets_finish hlib hq msg msg.rcode

theorem out_withMapping (hq : r.question.head? = some q) :
    (withMapping next host r).map Outcome.out = (next host r).map Outcome.out := by
  rw [withMapping, hq, Option.bind_some]
  split
  case isTrue => rfl
  case isFalse =>
    cases next host r with
    | none => rfl
    | some o =>
        obtain ⟨out, mapped⟩ := o
        cases out <;> rfl

theorem meets_withFakeIP (hlib : lib.Lawful) (hq : r.question.head? = some q)
    (hnext : Meets r v ((next (msgToDomain q) r).map Outcome.out)) :
    Meets r (fakeVerdict w q v)
      ((withFakeIP lib w.lookupHost w.lookup next (msgToDomain q) r).map Outcome.out) := by
  rw [withFakeIP, hq, Option.bind_some, fakeVerdict]
  split
  case isTrue => exact hnext
  case isFalse =>
    have hmem : q.qtype ∈ [typeAAAA, typeSVCB, typeHTTPS] ↔
        q.qtype = typeAAAA ∨ q.qtype = typeSVCB ∨ q.qtype = typeHTTPS := by simp
    simp only [hmem]
    split
    case isTrue => exact meets_finish hlib hq Message.zero rcodeSuccess
    case isFalse =>
      by_cases hA : q.qtype = typeA
      · rw [if_pos hA, if_neg (not_not_intro hA)]
        exact meets_finish hlib hq _ rcodeSuccess
      · rw [if_neg hA, if_pos hA]
        exact hnext

theorem meets_withADGurd (hnext : Meets r v ((next host r).map Outcome.out)) :
    Meets r (if w.adGurdMatch host then .echoed else v)
      ((withADGurd w.adGurdMatch next host r).map Outcome.out) := by
  unfold withADGurd
  split
  case isTrue => rfl
  case isFalse => exact hnext

theorem meets_optional {v' : Verdict} {m : Middleware}
    (hnext : Meets r v ((next host r).map Outcome.out))
    (hm : Meets r v' ((m next host r).map Outcome.out)) (there : Bool) :
    Meets r (if there then v' else v) ((optional there m next host r).map Outcome.out) := by
  cases there with
  | false => exact hnext
  | true => exact hm

theorem meets_inner {s : Setup} (hlib : s.library.Lawful) (hq : r.question.head? = some q) :
    Meets r (innerVerdict s w r q) ((inner s w (msgToDomain q) r).map Outcome.out) := by
  have hresolver : Meets r (.replied (resolved s.ipv6 w r q))
      ((withResolver s.library s.ipv6 w (msgToDomain q) r).map Outcome.out) :=
    meets_withResolver hlib hq s.ipv6
  have hmapping := meets_optional hresolver (by rwa [out_withMapping hq]) (s.mode ≠ .normal)
  rw [ite_self] at hmapping
  have hfake := meets_optional hmapping (meets_withFakeIP (w := w) hlib hq hmapping)
    (s.mode = .fakeip)
  have hfilter := meets_optional hfake (meets_withADGurd (w := w) hfake) s.filtered
  have hsame : innerVerdict s w r q = if s.filtered then
      if w.adGurdMatch (msgToDomain q) then .echoed
      else if decide (s.mode = .fakeip) = true then
        fakeVerdict w q (.replied (resolved s.ipv6 w r q))
      else .replied (resolved s.ipv6 w r q)
    else if decide (s.mode = .fakeip) = true then
      fakeVerdict w q (.replied (resolved s.ipv6 w r q))
    else .replied (resolved s.ipv6 w r q) := by
    unfold innerVerdict
    cases s.filtered <;> simp
  rw [hsame]
  exact hfilter

theorem meets_newHandler {s : Setup} (hlib : s.library.Lawful) (hq : r.question.head? = some q) :
    Meets r (verdict s w r) ((newHandler s w host r).map Outcome.out) := by
  have hinner := meets_inner (w := w) hlib hq
  simp only [verdict, hq, Setup.hostData]
  cases hhosts : s.hosts with
  | none =>
      rw [newHandler_of_no_hosts hhosts, withPreHandle, hq, Option.bind_some]
      simpa using hinner
  | some hosts =>
      simp only [newHandler_of_hosts hhosts, withPreHandle, withHosts, hq, Option.bind_some]
      cases hip : isIPRequest q with
      | false => exact hinner
      | true =>
          simp only [Bool.not_true, Bool.false_eq_true, if_false, if_true]
          cases hosts.search (msgToDomain q) with
          | none => exact hinner
          | some data =>
              cases data with
              | ip ip => rfl
              | ips ips => exact meets_finish hlib hq _ rcodeSuccess

end Meets

/-- The hosts have a bare address for the name, and the request asks for addresses. -/
def BareHost (s : Setup) (r : Message) : Prop :=
  ∃ q ip, r.question.head? = some q ∧ s.hostData q = some (.ip ip)

theorem verdict_eq_panics_iff (s : Setup) (w : World) (r : Message) :
    verdict s w r = .panics ↔ BareHost s r := by
  have hinner : ∀ q, innerVerdict s w r q ≠ .panics := by
    intro q
    unfold innerVerdict fakeVerdict
    repeat' split
    all_goals simp
  constructor
  · intro h
    unfold verdict at h
    cases hq : r.question.head? with
    | none =>
        rw [hq] at h
        cases h
    | some q =>
        rw [hq] at h
        cases hdata : s.hostData q with
        | none =>
            simp only [hdata] at h
            exact absurd h (hinner q)
        | some data =>
            simp only [hdata] at h
            cases data with
            | ips ips => cases h
            | ip ip => exact ⟨q, ip, hq, hdata⟩
  · rintro ⟨q, ip, hq, hdata⟩
    simp only [verdict, hq, hdata]

end RuleBaseProxy.Dns.Server
