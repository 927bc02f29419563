import RuleBaseProxy.Lib.Duplex
import RuleBaseProxy.Lib.NetParse
import RuleBaseProxy.Listener.Socks4

/-! # SOCKS4 from the client to the server

`socks4.ClientHandshake` sends an IPv4 address as it is and a name behind the
reserved address `0.0.0.1`; where the address is itself reserved, its text goes
the way of a name. The server reads both NUL-terminated fields byte by byte, and
so nothing of what comes after the request.
-/

namespace RuleBaseProxy.Socks4

open Go Go.Net Duplex

def requestGranted : UInt8 := 90

def requestRejected : UInt8 := 91

def requestIdentdFailed : UInt8 := 92

def requestIdentdMismatched : UInt8 := 93

/-! ## The server and its stream -/

def readNamesRest (dstIP : IP) (r : Str) : Option ((Str × Str) × Str) :=
  (readUntilNull r).bind fun (userID, r) =>
    (readHost dstIP r).map fun (host, rest) => ((userID, host), rest)

structure Served where
  result : Except HandshakeError (Str × UInt8)
  /-- What the server has not read. -/
  rest : Str
  reply : Str

/-- `ServerHandshake` with its reply and with what it leaves unread. -/
def serve (authenticator : Option (Str → Str → Bool)) (written : Bool) : Str → Served
  | v :: command :: p1 :: p2 :: a :: b :: c :: d :: r =>
      if v ≠ version then ⟨.error .versionMismatched, r, []⟩
      else if command ≠ cmdConnect then ⟨.error .commandNotSupported, r, []⟩
      else
        let dstIP := IP.v4 a b c d
        match readNamesRest dstIP r with
        | none => ⟨.error .eof, [], []⟩
        | some ((userID, host), rest) =>
            let addr := joinTarget host dstIP p1 p2
            if authenticator.all fun verify => verify userID [] then
              let reply := [0, requestGranted, p1, p2, a, b, c, d]
              if written then ⟨.ok (addr, command), rest, reply⟩ else ⟨.error .write, rest, []⟩
            else
              let reply := [0, requestIdentdMismatched, p1, p2, a, b, c, d]
              ⟨.error .requestIdentdMismatched, rest, if written then reply else []⟩
  | _ => ⟨.error .eof, [], []⟩

theorem map_readNamesRest (dstIP : IP) (r : Str) :
    (readNamesRest dstIP r).map Prod.fst = readNames dstIP r := by
  unfold readNamesRest readNames
  rw [Option.map_bind]
  congr 1
  funext ⟨userID, r⟩
  rw [Function.comp_apply, Option.map_map]
  rfl

/-- It returns what the model without the stream returns. -/
theorem serve_result (authenticator : Option (Str → Str → Bool)) (written : Bool) (r : Str) :
    (serve authenticator written r).result = serverHandshake authenticator written r := by
  by_cases hshape : ∃ v command p1 p2 a b c d rest, r = v :: command :: p1 :: p2 :: a :: b :: c :: d :: rest
  · rcases hshape with ⟨v, command, p1, p2, a, b, c, d, rest, rfl⟩
    by_cases hv : v = version
    · by_cases hcommand : command = cmdConnect
      · simp only [serve, serverHandshake, hv, hcommand, ne_eq, not_true_eq_false, if_false,
          ← map_readNamesRest]
        cases readNamesRest (IP.v4 a b c d) rest with
        | none => rfl
        | some names =>
            dsimp only [Option.map_some]
            split
            · cases written with
              | true => rfl
              | false => rfl
            · rfl
      · simp [serve, serverHandshake, hv, hcommand]
    · simp [serve, serverHandshake, hv]
  · have hserve : serve authenticator written r = ⟨.error .eof, [], []⟩ := by
      unfold serve
      split
      · exact absurd ⟨_, _, _, _, _, _, _, _, _, rfl⟩ hshape
      · rfl
    have hserver : serverHandshake authenticator written r = .error .eof := by
      unfold serverHandshake
      split
      · exact absurd ⟨_, _, _, _, _, _, _, _, _, rfl⟩ hshape
      · rfl
    rw [hserve, hserver]

theorem readUntilNull_append {s : Str} (h : 0 ∉ s) (rest : Str) :
    readUntilNull (s ++ 0 :: rest) = some (s, rest) := by
  induction s with
  | nil => rfl
  | cons b s ih =>
      have hb : b ≠ 0 := fun hb => h (hb ▸ List.mem_cons_self)
      have hs : 0 ∉ s := fun hs => h (List.mem_cons_of_mem b hs)
      rw [List.cons_append, readUntilNull, if_neg hb, ih hs]
      rfl

theorem Request.readNamesRest_eq (q : Request) (more : Str) :
    readNamesRest q.dstIP
      (q.userID ++ [0] ++ (if isReservedIP q.dstIP then q.host ++ [0] else []) ++ more) =
      some ((q.userID, q.host), more) := by
  unfold readNamesRest readHost
  cases hreserved : isReservedIP q.dstIP with
  | true =>
      have hhost := readUntilNull_append q.host_ne more
      simp [readUntilNull_append q.userID_ne, hhost]
  | false => simp [readUntilNull_append q.userID_ne, q.unreserved hreserved]

/-- A request is served, its target returned, and what comes after it left alone. -/
theorem Request.serve_encode (q : Request) (more : Str) :
    serve none true (q.encode ++ more) =
      ⟨.ok (q.addr, cmdConnect), more, [0, requestGranted, q.p1, q.p2] ++ q.dstIP.bytes⟩ := by
  have hnames := q.readNamesRest_eq more
  obtain ⟨p1, p2, ⟨bytes, hbytes⟩, userID, host, hfour, huserID, hhost, hunreserved⟩ := q
  match bytes, hbytes, hfour, hunreserved, hnames with
  | [a, b, c, d], _, _, _, hnames =>
      simp only [List.append_assoc, List.cons_append, List.nil_append] at hnames
      simp only [Request.encode, List.append_assoc, List.cons_append, List.nil_append, serve,
        IP.v4, ne_eq, not_true_eq_false, if_false, if_true, Option.all_none, hnames]
      rfl

/-! ## The client -/

inductive ClientError where
  | splitHostPort
  | parseUint
  | ipv6NotSupported
  | versionMismatched
  | requestRejected
  | requestIdentdFailed
  | requestIdentdMismatched
  | requestUnknownCode
deriving DecidableEq

def to4 (ip : IP) : Option IP :=
  ip.to4.bind fun b => if h : b.length = 4 then some ⟨b, IP.length_of_four h⟩ else none

/-- The address of the request: `0.0.0.1` for a name. -/
def requestIP (host : Str) : Except ClientError IP :=
  match parseIP host with
  | none => .ok ⟨[0, 0, 0, 1], Or.inl rfl⟩
  | some ip =>
      match to4 ip with
      | none => .error .ipv6NotSupported
      | some dstIP => .ok dstIP

def request (command : UInt8) (port : Nat) (dstIP : IP) (userID host : Str) : Str :=
  [version, command, UInt8.ofNat (port / 256), UInt8.ofNat port] ++ dstIP.bytes ++ userID ++ [0] ++
    if isReservedIP dstIP then host ++ [0] else []

def checkReply (resp : Str) : Except ClientError Unit :=
  let code := resp.getD 1 0
  if resp.getD 0 0 ≠ 0 then .error .versionMismatched
  else if code = requestGranted then .ok ()
  else if code = requestRejected then .error .requestRejected
  else if code = requestIdentdFailed then .error .requestIdentdFailed
  else if code = requestIdentdMismatched then .error .requestIdentdMismatched
  else .error .requestUnknownCode

def clientHandshake (addr : Str) (command : UInt8) (userID : Str) :
    Prog UInt8 (Except ClientError Unit) :=
  match splitHostPort addr with
  | none => .done (.error .splitHostPort)
  | some (host, portStr) =>
      match Socks5.parsePort portStr with
      | none => .done (.error .parseUint)
      | some port =>
          match requestIP host with
          | .error e => .done (.error e)
          | .ok dstIP =>
              .write (request command port dstIP userID host)
                (.read 8 fun resp => .done (checkReply resp))

theorem to4_eq_some {ip : IP} {b : List UInt8} (h : ip.to4 = some b) :
    to4 ip = some ⟨b, Or.inl (IP.length_of_to4 h)⟩ := by
  rw [to4, h, Option.bind_some, dif_pos (IP.length_of_to4 h)]

section Hosts

variable {host : Str}

theorem requestIP_name (h : parseIP host = none) :
    requestIP host = .ok ⟨[0, 0, 0, 1], Or.inl rfl⟩ := by
  rw [requestIP, h]

theorem requestIP_ipv4 {ip : IP} {b : List UInt8} (h : parseIP host = some ip)
    (hb : ip.to4 = some b) : requestIP host = .ok ⟨b, Or.inl (IP.length_of_to4 hb)⟩ := by
  simp only [requestIP, h, to4_eq_some hb]

theorem length_requestIP {dstIP : IP} (h : requestIP host = .ok dstIP) : dstIP.bytes.length = 4 := by
  unfold requestIP at h
  split at h
  · cases h
    rfl
  · split at h
    · cases h
    · rename_i hto4
      cases h
      rcases Option.bind_eq_some_iff.mp hto4 with ⟨b, -, hb⟩
      split at hb
      · cases hb
        assumption
      · cases hb

theorem zero_not_mem_of_parseIP {ip : IP} (h : parseIP host = some ip) : 0 ∉ host := by
  intro hmem
  rw [parseIP, parseAddr_eq_none_of_mem (by decide) (by decide) (by decide) hmem] at h
  cases h

/-- What the client writes, and that it is served: the server takes the text of the host
where the address is reserved, and the address otherwise. -/
theorem serve_request {addr portStr userID : Str} {port : Nat} {dstIP : IP}
    (haddr : splitHostPort addr = some (host, portStr)) (hport : Socks5.parsePort portStr = some port)
    (hdst : requestIP host = .ok dstIP) (huserID : 0 ∉ userID) (hhost : 0 ∉ host) (more : Str) :
    serve none true (((clientHandshake addr cmdConnect userID).exec []).output ++ more) =
      ⟨.ok (joinTarget (if isReservedIP dstIP then host else []) dstIP (UInt8.ofNat (port / 256))
          (UInt8.ofNat port), cmdConnect), more,
        [0, requestGranted, UInt8.ofNat (port / 256), UInt8.ofNat port] ++ dstIP.bytes⟩ := by
  have hname : 0 ∉ if isReservedIP dstIP then host else [] := by
    split
    · exact hhost
    · exact List.not_mem_nil
  have hunreserved : isReservedIP dstIP = false → (if isReservedIP dstIP then host else []) = [] := by
    intro hfalse
    rw [hfalse]
    rfl
  let q : Request := ⟨UInt8.ofNat (port / 256), UInt8.ofNat port, dstIP, userID, _,
    length_requestIP hdst, huserID, hname, hunreserved⟩
  have houtput : ((clientHandshake addr cmdConnect userID).exec []).output = q.encode := by
    have hexec : ((clientHandshake addr cmdConnect userID).exec []).output =
        request cmdConnect port dstIP userID host ++ [] := by
      simp only [clientHandshake, haddr, hport, hdst]
      rfl
    rw [hexec, List.append_nil]
    unfold Request.encode request
    cases hreserved : isReservedIP dstIP with
    | true => simp [q, hreserved]
    | false => simp [q]
  rw [houtput]
  exact q.serve_encode more

/-- The reply to it is success to the client, which reads no further. -/
theorem clientHandshake_served {addr portStr userID : Str} {port : Nat} {dstIP : IP}
    (haddr : splitHostPort addr = some (host, portStr)) (hport : Socks5.parsePort portStr = some port)
    (hdst : requestIP host = .ok dstIP) (huserID : 0 ∉ userID) (hhost : 0 ∉ host) (more input : Str) :
    ((clientHandshake addr cmdConnect userID).exec
      ((serve none true (((clientHandshake addr cmdConnect userID).exec []).output ++ more)).reply ++
        input)) = ⟨.done (.ok ()), input, request cmdConnect port dstIP userID host⟩ := by
  rw [serve_request haddr hport hdst huserID hhost more]
  have hlen : ([0, requestGranted, UInt8.ofNat (port / 256), UInt8.ofNat port] ++
      dstIP.bytes).length = 8 := by
    rw [List.length_append, length_requestIP hdst]
    rfl
  simp only [clientHandshake, haddr, hport, hdst]
  rw [exec_write, exec_read_append _ hlen, exec_done, Standing.emit, List.append_nil]
  rfl

end Hosts

/-! ## The round trip -/

theorem joinTarget_port (host : Str) (dstIP : IP) {n : Nat} (h : n < 2 ^ 16) :
    joinTarget host dstIP (UInt8.ofNat (n / 256)) (UInt8.ofNat n) =
      if host ≠ [] then joinHostPort host (itoa n) else joinHostPort dstIP.string (itoa n) := by
  rw [joinTarget, toNat_ofNat_bytes h]

section

variable {host addr portStr userID : Str} {port : Nat} {dstIP : IP}
  (haddr : splitHostPort addr = some (host, portStr)) (hport : Socks5.parsePort portStr = some port)
  (hdst : requestIP host = .ok dstIP) (huserID : 0 ∉ userID) (hhost : 0 ∉ host) (more : Str)
include haddr hport hdst huserID hhost

/-- An address that is not reserved comes back as it is printed, whatever its text was. -/
theorem serve_unreserved (hreserved : isReservedIP dstIP = false) :
    (serve none true (((clientHandshake addr cmdConnect userID).exec []).output ++ more)).result =
        .ok (joinHostPort dstIP.string (itoa port), cmdConnect) ∧
      (serve none true (((clientHandshake addr cmdConnect userID).exec []).output ++ more)).rest =
        more := by
  rw [serve_request haddr hport hdst huserID hhost more, hreserved,
    joinTarget_port _ _ (Socks5.parsePort_lt hport)]
  exact ⟨rfl, rfl⟩

/-- Behind a reserved address the text itself comes back. -/
theorem serve_reserved (hreserved : isReservedIP dstIP = true) (hne : host ≠ []) :
    (serve none true (((clientHandshake addr cmdConnect userID).exec []).output ++ more)).result =
        .ok (joinHostPort host (itoa port), cmdConnect) ∧
      (serve none true (((clientHandshake addr cmdConnect userID).exec []).output ++ more)).rest =
        more := by
  rw [serve_request haddr hport hdst huserID hhost more, hreserved,
    joinTarget_port _ _ (Socks5.parsePort_lt hport), if_pos rfl, if_pos hne]
  exact ⟨rfl, rfl⟩

end

def Requestable (host : Str) : Prop :=
  (parseIPv4 host).isSome ∨ parseIP host = none ∧ host ≠ [] ∧ 0 ∉ host

def canonicalHost (host : Str) : Str :=
  match (parseIP host).bind IP.to4 with
  | some b => string4 b
  | none => host

/-- A dotted address is in canonical form, and `ParseIP` reads it. -/
theorem parseIP_of_parseIPv4 {host : Str} {b : List UInt8} (h : parseIPv4 host = some b) :
    host = string4 b ∧ ∃ ip, parseIP host = some ip ∧ ip.to4 = some b := by
  have hhost := eq_string4_of_parseIPv4 h
  have hlen : b.length = 4 := length_of_parseIPv4 h
  have hto4 : IP.to4 ⟨b, Or.inl hlen⟩ = some b := if_pos hlen
  have hstring : IP.string ⟨b, Or.inl hlen⟩ = string4 b := by
    rw [IP.string, hto4]
  rcases parseIP_string ⟨b, Or.inl hlen⟩ with ⟨ip, hip, hip4, -⟩
  rw [hstring, ← hhost] at hip
  exact ⟨hhost, ip, hip, hip4.trans hto4⟩

/-- What the client sends for `host:port` makes the server return that address, and leaves
the server's stream at the byte after the request. -/
theorem serve_clientHandshake {addr host portStr userID : Str} {port : Nat}
    (haddr : splitHostPort addr = some (host, portStr)) (hport : Socks5.parsePort portStr = some port)
    (hhost : Requestable host) (huserID : 0 ∉ userID) (more : Str) :
    (serve none true (((clientHandshake addr cmdConnect userID).exec []).output ++ more)).result =
        .ok (joinHostPort (canonicalHost host) (itoa port), cmdConnect) ∧
      (serve none true (((clientHandshake addr cmdConnect userID).exec []).output ++ more)).rest =
        more := by
  rcases hhost with hv4 | ⟨hname, hne, hzero⟩
  · rcases Option.isSome_iff_exists.mp hv4 with ⟨b, hb⟩
    rcases parseIP_of_parseIPv4 hb with ⟨htext, ip, hip, hto4⟩
    have hdst := requestIP_ipv4 hip hto4
    have hzero := zero_not_mem_of_parseIP hip
    have hlen := IP.length_of_to4 hto4
    have hcanonical : canonicalHost host = string4 b := by
      rw [canonicalHost, hip, Option.bind_some, hto4]
    have hstring : IP.string ⟨b, Or.inl hlen⟩ = string4 b := by
      rw [IP.string, IP.to4, if_pos hlen]
    rw [hcanonical]
    cases hreserved : isReservedIP ⟨b, Or.inl hlen⟩ with
    | true =>
        have hne : host ≠ [] := by
          rintro rfl
          cases hb
        rw [← htext]
        exact serve_reserved haddr hport hdst huserID hzero more hreserved hne
    | false =>
        rw [← hstring]
        exact serve_unreserved haddr hport hdst huserID hzero more hreserved
  · have hcanonical : canonicalHost host = host := by
      rw [canonicalHost, hname]
      rfl
    rw [hcanonical]
    exact serve_reserved haddr hport (requestIP_name hname) huserID hzero more (by decide +kernel) hne

/-- `0.0.0.7:80` with the user id `me`: the address is reserved and goes as a name. -/
theorem serve_clientHandshake_reserved :
    (serve none true (((clientHandshake (str "0.0.0.7:80") cmdConnect (str "me")).exec []).output ++
        str "GET")).result = .ok (str "0.0.0.7:80", cmdConnect) ∧
      (serve none true (((clientHandshake (str "0.0.0.7:80") cmdConnect (str "me")).exec []).output ++
        str "GET")).rest = str "GET" := by
  have haddr : splitHostPort (str "0.0.0.7:80") = some (str "0.0.0.7", str "80") := by decide +kernel
  have hport : Socks5.parsePort (str "80") = some 80 := by decide +kernel
  have htext : joinHostPort (canonicalHost (str "0.0.0.7")) (itoa (80 : Nat)) = str "0.0.0.7:80" := by
    decide +kernel
  rw [← htext]
  exact serve_clientHandshake haddr hport (Or.inl (by decide +kernel)) (by decide) (str "GET")

/-- A name with a bracket: the client sends nothing, so the server has nothing to return. -/
theorem clientHandshake_bracket :
    Requestable (str "a]") ∧ joinHostPort (str "a]") (str "80") = str "a]:80" ∧
      (clientHandshake (str "a]:80") cmdConnect (str "me")).exec [] =
        ⟨.done (.error .splitHostPort), [], []⟩ ∧
      (serve none true (((clientHandshake (str "a]:80") cmdConnect (str "me")).exec []).output ++
        str "GET")).result ≠ .ok (str "a]:80", cmdConnect) := by
  have haddr : splitHostPort (str "a]:80") = none := by decide +kernel
  have hexec : (clientHandshake (str "a]:80") cmdConnect (str "me")).exec [] =
      ⟨.done (.error .splitHostPort), [], []⟩ := by
    rw [clientHandshake, haddr]
    rfl
  refine ⟨Or.inr ?_, by decide +kernel, hexec, ?_⟩
  · decide +kernel
  · rw [hexec]
    decide +kernel

end RuleBaseProxy.Socks4
