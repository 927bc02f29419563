import RuleBaseProxy.Inbound.Util

/-! # The SOCKS4 listener

`socks4.ServerHandshake` reads a request and returns its target as text;
`HandleSocks4` turns the text into a SOCKS address with `socks5.ParseAddr` and
hands that to `NewSocket` without looking whether it is nil.
-/

namespace RuleBaseProxy.Socks4

open Go Go.Net Inbound

def version : UInt8 := 4

def cmdConnect : UInt8 := 1

inductive HandshakeError where
  | eof
  | versionMismatched
  | commandNotSupported
  | requestIdentdMismatched
  /-- The reply could not be written. -/
  | write
deriving DecidableEq

def isUnspecified (ip : IP) : Bool :=
  ip.canon == [0, 0, 0, 0] || ip.canon == List.replicate 16 0

/-- `0.0.0.x` with `x` nonzero: the client sends the name of its target. -/
def isReservedIP (ip : IP) : Bool :=
  let subnet : IPNet := ⟨⟨[0, 0, 0, 0], Or.inl rfl⟩, 24⟩
  !isUnspecified ip && subnet.contains ip

def readUntilNull : Str → Option (Str × Str)
  | [] => none
  | b :: r => if b = 0 then some ([], r) else (readUntilNull r).map fun (s, r) => (b :: s, r)

/-- The name after the user id, or none where the address is not reserved. -/
def readHost (dstIP : IP) (r : Str) : Option (Str × Str) :=
  if isReservedIP dstIP then readUntilNull r else some ([], r)

def readNames (dstIP : IP) (r : Str) : Option (Str × Str) :=
  (readUntilNull r).bind fun (userID, r) =>
    (readHost dstIP r).map fun (host, _) => (userID, host)

def joinTarget (host : Str) (dstIP : IP) (p1 p2 : UInt8) : Str :=
  let port := itoa (256 * p1.toNat + p2.toNat : Nat)
  if host ≠ [] then joinHostPort host port else joinHostPort dstIP.string port

/-- `ServerHandshake` on what the client sends; `written` says whether the reply
goes through. -/
def serverHandshake (authenticator : Option (Str → Str → Bool)) (written : Bool) :
    Str → Except HandshakeError (Str × UInt8)
  | v :: command :: p1 :: p2 :: a :: b :: c :: d :: r =>
      if v ≠ version then .error .versionMismatched
      else if command ≠ cmdConnect then .error .commandNotSupported
      else
        let dstIP := IP.v4 a b c d
        match readNames dstIP r with
        | none => .error .eof
        | some (userID, host) =>
            let addr := joinTarget host dstIP p1 p2
            if authenticator.all fun verify => verify userID [] then
              if written then .ok (addr, command) else .error .write
            else .error .requestIdentdMismatched
  | _ => .error .eof

inductive Outcome where
  | closed
  | panics
  | accepted (m : Metadata)
deriving DecidableEq

/-- `HandleSocks4`. A nil address is an empty slice to `parseSocksAddr`. -/
def handleSocks4 (authenticator : Option (Str → Str → Bool)) (written : Bool) (remoteAddr r : Str) :
    Outcome :=
  match serverHandshake authenticator written r with
  | .error _ => .closed
  | .ok (addr, _) =>
      match newSocket ((Socks5.parseAddr addr).getD []) remoteAddr .SOCKS4 with
      | none => .panics
      | some m => .accepted m

/-! ## Requests -/

/-- A request to connect, with the name that goes with a reserved address. -/
structure Request where
  p1 : UInt8
  p2 : UInt8
  dstIP : IP
  userID : Str
  host : Str
  four : dstIP.bytes.length = 4
  userID_ne : 0 ∉ userID
  host_ne : 0 ∉ host
  unreserved : isReservedIP dstIP = false → host = []

def Request.encode (q : Request) : Str :=
  [version, cmdConnect, q.p1, q.p2] ++ q.dstIP.bytes ++ q.userID ++ [0] ++
    if isReservedIP q.dstIP then q.host ++ [0] else []

def Request.addr (q : Request) : Str := joinTarget q.host q.dstIP q.p1 q.p2

/-- Without a name, or with one that survives `JoinHostPort` and `SplitHostPort`
and is short enough for a SOCKS5 address. -/
def Request.Addressable (q : Request) : Prop :=
  q.host = [] ∨ ∃ host, rejoinedHost q.host = some host ∧
    (host.length ≤ 255 ∨ (parseIP host).isSome)

theorem readUntilNull_eq_some {r s rest : Str} (h : readUntilNull r = some (s, rest)) :
    r = s ++ 0 :: rest ∧ 0 ∉ s := by
  induction r generalizing s with
  | nil => cases h
  | cons b r ih =>
      unfold readUntilNull at h
      split at h
      · rename_i hb
        cases h
        exact ⟨by rw [hb]; rfl, List.not_mem_nil⟩
      · rename_i hb
        obtain ⟨⟨s', rest'⟩, hrec, ⟨⟩⟩ := Option.map_eq_some_iff.mp h
        obtain ⟨rfl, hnot⟩ := ih hrec
        exact ⟨rfl, List.not_mem_cons_of_ne_of_not_mem (Ne.symm hb) hnot⟩

theorem readNames_eq_some {dstIP : IP} {r userID host : Str}
    (h : readNames dstIP r = some (userID, host)) :
    0 ∉ userID ∧ 0 ∉ host ∧ (isReservedIP dstIP = false → host = []) ∧
      ∃ rest, r = userID ++ [0] ++ (if isReservedIP dstIP then host ++ [0] else []) ++ rest := by
  obtain ⟨⟨userID', r'⟩, huser, h⟩ := Option.bind_eq_some_iff.mp h
  obtain ⟨⟨host', rest⟩, hhost, ⟨⟩⟩ := Option.map_eq_some_iff.mp h
  obtain ⟨rfl, huserID⟩ := readUntilNull_eq_some huser
  unfold readHost at hhost
  split at hhost
  · rename_i hreserved
    obtain ⟨rfl, hne⟩ := readUntilNull_eq_some hhost
    refine ⟨huserID, hne, fun hfalse => ?_, rest, by simp [hreserved]⟩
    rw [hreserved] at hfalse
    cases hfalse
  · rename_i hreserved
    cases hhost
    exact ⟨huserID, List.not_mem_nil, fun _ => rfl, r', by simp [hreserved]⟩

/-- A handshake that succeeds has read a request, and returns its target. -/
theorem serverHandshake_ok {authenticator : Option (Str → Str → Bool)} {written : Bool}
    {r addr : Str} {command : UInt8}
    (h : serverHandshake authenticator written r = .ok (addr, command)) :
    ∃ (q : Request) (rest : Str), r = q.encode ++ rest ∧ addr = q.addr := by
  unfold serverHandshake at h
  split at h
  · rename_i v command' p1 p2 a b c d r
    by_cases hv : v = version
    · by_cases hcommand : command' = cmdConnect
      · subst hv hcommand
        simp only [ne_eq, not_true_eq_false, if_false] at h
        cases hnames : readNames (IP.v4 a b c d) r with
        | none =>
            rw [hnames] at h
            cases h
        | some names =>
            obtain ⟨userID, host⟩ := names
            rw [hnames] at h
            obtain ⟨huserID, hhost, hnone, rest, rfl⟩ := readNames_eq_some hnames
            refine ⟨⟨p1, p2, IP.v4 a b c d, userID, host, rfl, huserID, hhost, hnone⟩,
              rest, by simp [Request.encode], ?_⟩
            dsimp only at h
            split at h
            · split at h
              · cases h
                rfl
              · cases h
            · cases h
      · simp [hv, hcommand] at h
    · simp [hv] at h
  · cases h

/-! ## The target as a SOCKS5 address -/

theorem isSome_parseAddr_joinHostPort (host : Str) {n : Nat} (h : n < 2 ^ 16) :
    (Socks5.parseAddr (joinHostPort host (itoa n))).isSome ↔
      ∃ host', rejoinedHost host = some host' ∧ (host'.length ≤ 255 ∨ (parseIP host').isSome) := by
  rw [Socks5.parseAddr_joinHostPort host h]
  cases hrejoin : rejoinedHost host with
  | none => simp
  | some host' =>
      simp only [Option.bind_some, Option.some.injEq, exists_eq_left']
      cases hip : parseIP host' with
      | some ip => cases hto4 : ip.to4 <;> simp [hto4]
      | none =>
          by_cases hlen : 255 < host'.length
          · simp [hlen]
          · simp [hlen, Nat.not_lt.mp hlen]

private theorem length_octet : ∀ n < 256, (formatUint 10 n).length ≤ 3 := by
  decide +kernel

theorem length_string4 {b : List UInt8} (h : b.length = 4) : (string4 b).length ≤ 15 := by
  match b, h with
  | [w, x, y, z], _ =>
      have hlen : ∀ u : UInt8, (formatUint 10 u.toNat).length ≤ 3 := fun u =>
        length_octet u.toNat u.toNat_lt
      have hw := hlen w
      have hx := hlen x
      have hy := hlen y
      have hz := hlen z
      simp only [string4, join, List.map_cons, List.map_nil, List.intercalate_cons_cons,
        List.intercalate_singleton, List.length_append, List.length_cons, List.length_nil]
      omega

theorem Request.isSome_parseAddr_iff (q : Request) :
    (Socks5.parseAddr q.addr).isSome ↔ q.Addressable := by
  have hport : 256 * q.p1.toNat + q.p2.toNat < 2 ^ 16 := by
    have := q.p1.toNat_lt
    have := q.p2.toNat_lt
    omega
  unfold Request.addr joinTarget Request.Addressable
  by_cases hhost : q.host = []
  · have hstring : q.dstIP.string = string4 q.dstIP.bytes := by
      simp [IP.string, IP.to4, q.four]
    have hlen : q.dstIP.string.length ≤ 255 := by
      have := length_string4 q.four
      rw [hstring]
      omega
    refine iff_of_true ?_ (Or.inl hhost)
    rw [if_neg (not_not.mpr hhost)]
    exact (isSome_parseAddr_joinHostPort _ hport).mpr
      ⟨_, rejoinedHost_string q.dstIP, Or.inl hlen⟩
  · rw [if_pos hhost, isSome_parseAddr_joinHostPort _ hport, or_iff_right hhost]

/-- The nil address of a request that is not addressable is indexed. -/
theorem Request.handleSocks4_panics {q : Request} (hq : ¬ q.Addressable)
    {authenticator : Option (Str → Str → Bool)} {written : Bool} {r : Str} {command : UInt8}
    (h : serverHandshake authenticator written r = .ok (q.addr, command)) (remoteAddr : Str) :
    handleSocks4 authenticator written remoteAddr r = .panics := by
  have hnil : Socks5.parseAddr q.addr = none := by
    rw [← q.isSome_parseAddr_iff] at hq
    simpa using hq
  simp only [handleSocks4, h, hnil]
  rfl

/-- Where the handshake succeeds, `ParseAddr` accepts what it returns exactly if
the request is addressable. -/
theorem parseAddr_isSome_iff_addressable {authenticator : Option (Str → Str → Bool)}
    {written : Bool} {r addr : Str} {command : UInt8}
    (h : serverHandshake authenticator written r = .ok (addr, command)) :
    ∃ (q : Request) (rest : Str), r = q.encode ++ rest ∧ addr = q.addr ∧
      ((Socks5.parseAddr addr).isSome ↔ q.Addressable) := by
  obtain ⟨q, rest, hr, rfl⟩ := serverHandshake_ok h
  exact ⟨q, rest, hr, rfl, q.isSome_parseAddr_iff⟩

/-- A request for port 80 of `1.2.3.4`. -/
theorem parseAddr_isSome_iff_addressable_ip :
    ∃ (q : Request) (rest : Str), [4, 1, 0, 80, 1, 2, 3, 4, 0] = q.encode ++ rest ∧
      str "1.2.3.4:80" = q.addr ∧ ((Socks5.parseAddr (str "1.2.3.4:80")).isSome ↔ q.Addressable) := by
  have h : serverHandshake none true [4, 1, 0, 80, 1, 2, 3, 4, 0] = .ok (str "1.2.3.4:80", 1) := by
    decide +kernel
  exact parseAddr_isSome_iff_addressable h

/-- The name `a]` comes back from the handshake, and `ParseAddr` returns nil. -/
theorem name_with_bracket_not_accepted :
    ¬ ∀ (authenticator : Option (Str → Str → Bool)) (written : Bool) (r addr : Str) (command : UInt8),
      serverHandshake authenticator written r = .ok (addr, command) →
      (Socks5.parseAddr addr).isSome := by
  intro h
  have hsome := h none true [4, 1, 0, 80, 0, 0, 0, 1, 0, 97, 93, 0] (str "a]:80") 1
    (by decide +kernel)
  revert hsome
  decide +kernel

end RuleBaseProxy.Socks4
