import RuleBaseProxy.Lib.Bufio

/-! # CONNECT through an HTTP proxy

`Http.StreamConn` writes a CONNECT request and reads the response through a `bufio.Reader` of
its own. It returns the connection and drops the reader, and with it what the reader has taken
from the connection behind the header of the response.
-/

namespace RuleBaseProxy.HttpConnect

open Go Go.Bufio

/-! ## The response -/

structure Response where
  statusCode : Nat
  status : Str
  deriving DecidableEq

def cutSpace (s : Str) : Option (Str × Str) :=
  if 32 ∈ s then some (s.takeWhile (· != 32), (s.dropWhile (· != 32)).tail) else none

def isDigit (b : UInt8) : Bool := 48 ≤ b && b ≤ 57

def parseHTTPVersion (vers : Str) : Bool :=
  match vers with
  | [72, 84, 84, 80, 47, major, 46, minor] => isDigit major && isDigit minor
  | _ => false

/-- The status line as `http.ReadResponse` takes it apart. -/
def parseStatusLine (line : Str) : Option Response := do
  let (proto, status) ← cutSpace line
  let status := status.dropWhile (· == 32)
  let statusCode := ((cutSpace status).map Prod.fst).getD status
  if statusCode.length ≠ 3 then none
  let code ← atoi statusCode
  if code < 0 then none
  if !parseHTTPVersion proto then none
  return ⟨code.toNat, status⟩

inductive ShakeError (ε : Type) where
  /-- The TLS handshake. -/
  | connect (err : ε)
  | write (err : ε)
  | read (stop : Stop)
  | malformed
  /-- `HTTP need auth` -/
  | needAuth
  /-- `CONNECT method not allowed by proxy` -/
  | notAllowed
  /-- The status as it is. -/
  | status (status : Str)
  /-- `can not connect remote err code: %d` -/
  | code (code : Nat)

section Handshake

-- `accepts` stands for the checks of `ReadMIMEHeader` and `readTransfer` on the fields, which
-- read nothing behind the empty line.
variable (accepts : List Str → Bool) {ε : Type}

def readResponse (r : Reader) : Except (ShakeError ε) (Response × Reader) :=
  match r.readLine [] with
  | .error stop => .error (.read stop)
  | .ok (line, r) =>
      match parseStatusLine line with
      | none => .error .malformed
      | some resp =>
          match r.readFields with
          | .error stop => .error (.read stop)
          | .ok (fields, r) => if accepts fields then .ok (resp, r) else .error .malformed

/-- The connection after the handshake, by what its next reads give. -/
def shakeHand (write : Option ε) (conn : List Str) : Except (ShakeError ε) (List Str) :=
  match write with
  | some err => .error (.write err)
  | none =>
      match readResponse accepts (newReader conn) with
      | .error err => .error err
      | .ok (resp, r) =>
          if resp.statusCode = 200 then .ok r.segs
          else if resp.statusCode = 407 then .error .needAuth
          else if resp.statusCode = 405 then .error .notAllowed
          else if 500 ≤ resp.statusCode then .error (.status resp.status)
          else .error (.code resp.statusCode)

/-- `tls` is nil without TLS, and else the error of the handshake; over TLS the segments are
those of the TLS connection. -/
def streamConn (tls : Option (Option ε)) (write : Option ε) (conn : List Str) :
    Except (ShakeError ε) (List Str) :=
  match tls with
  | some (some err) => .error (.connect err)
  | _ => shakeHand accepts write conn

end Handshake

/-! ## The tunnel -/

structure OkHeader (accepts : List Str → Bool) where
  statusLine : Str
  noNewline : 10 ∉ statusLine
  response : Response
  parses : parseStatusLine (dropCR statusLine) = some response
  ok : response.statusCode = 200
  fields : Fields
  accepted : accepts (fields.lines.map dropCR) = true

variable {accepts : List Str → Bool} {ε : Type}

def OkHeader.text (H : OkHeader accepts) : Str := (H.statusLine ++ [10]) ++ H.fields.text

/-- If the handshake succeeds, the connection it returns gives `D` and then ends. -/
def HandsOver (ε : Type) (accepts : List Str → Bool) (segs : List Str) (D : Str) : Prop :=
  ∀ (tls : Option (Option ε)) (write : Option ε) (conn : List Str),
    streamConn accepts tls write segs = .ok conn → conn.flatten = D

def CutAt (segs : List Str) (t : Str) : Prop :=
  ∃ used rest, segs = used ++ rest ∧ used.flatten = t

/-- The response of a header is read up to the end of the header. -/
theorem readResponse_after {H : OkHeader accepts} {D : Str} {r r' : Reader} {resp : Response}
    (hr : r.bytes = H.text ++ D)
    (h : (readResponse accepts r : Except (ShakeError ε) _) = .ok (resp, r')) :
    r.After r' H.text := by
  unfold readResponse at h
  split at h
  · cases h
  · rename_i line r₁ hline
    have hr' : r.bytes = (H.statusLine ++ [10]) ++ (H.fields.text ++ D) := by
      rw [hr, OkHeader.text, List.append_assoc]
    obtain ⟨-, hrest, hafter⟩ := Reader.readLine_after H.noNewline hr' hline
    split at h
    · cases h
    · split at h
      · cases h
      · rename_i fields r₂ hfields
        split at h
        · cases h
          have hafter' := (Reader.readFields_after H.fields.noNewline H.fields.notEmpty
            H.fields.not_mem_last H.fields.dropCR_last hrest hfields).2
          exact hafter.trans hafter'
        · cases h

theorem streamConn_eq_ok {tls : Option (Option ε)} {write : Option ε} {segs conn : List Str}
    (h : streamConn accepts tls write segs = .ok conn) :
    ∃ resp r, (readResponse accepts (newReader segs) : Except (ShakeError ε) _) = .ok (resp, r) ∧
      conn = r.segs := by
  have hshake : shakeHand accepts write segs = .ok conn := by
    unfold streamConn at h
    split at h
    · cases h
    · exact h
  unfold shakeHand at hshake
  split at hshake
  · cases hshake
  · split at hshake
    · cases hshake
    · rename_i resp r hresp
      refine ⟨resp, r, hresp, ?_⟩
      split at hshake
      · exact (Except.ok.inj hshake).symm
      · split at hshake
        · cases hshake
        · split at hshake
          · cases hshake
          · split at hshake <;> cases hshake

/-- A handshake that succeeds leaves in its reader the beginning of the tunnel, and nothing of
it exactly when its reads end with the header. -/
theorem streamConn_after {H : OkHeader accepts} {D : Str} {tls : Option (Option ε)}
    {write : Option ε} {segs conn : List Str} (hsegs : segs.flatten = H.text ++ D)
    (h : streamConn accepts tls write segs = .ok conn) :
    ∃ r, (newReader segs).After r H.text ∧ r.buf ++ conn.flatten = D := by
  obtain ⟨resp, r, hresp, rfl⟩ := streamConn_eq_ok h
  have hafter : (newReader segs).After r H.text := readResponse_after hsegs hresp
  refine ⟨r, hafter, ?_⟩
  have hbytes : H.text ++ D = H.text ++ r.bytes := hsegs.symm.trans hafter.bytes
  exact (List.append_cancel_left hbytes).symm

/-- The tunnel is handed over exactly when the reader is left empty. -/
theorem flatten_eq_iff {buf D : Str} {conn : List Str} (h : buf ++ conn.flatten = D) :
    conn.flatten = D ↔ buf = [] := by
  constructor
  · intro heq
    have hlen := congrArg List.length (h.trans heq.symm)
    rw [List.length_append] at hlen
    exact List.length_eq_zero_iff.mp (by omega)
  · intro hbuf
    rw [← h, hbuf, List.nil_append]

theorem flatten_eq_of_cutAt {H : OkHeader accepts} {D : Str} {tls : Option (Option ε)}
    {write : Option ε} {segs conn : List Str} (hsegs : segs.flatten = H.text ++ D)
    (h : streamConn accepts tls write segs = .ok conn) (hcut : CutAt segs H.text) :
    conn.flatten = D := by
  obtain ⟨r, hafter, hD⟩ := streamConn_after hsegs h
  rw [flatten_eq_iff hD]
  have hends : (newReader segs).EndsAt (H.text ++ []) := by
    rw [List.append_nil]
    exact hcut
  exact Reader.endsAt_nil.mp (hafter.endsAt [] hends)

theorem cutAt_of_flatten_eq {H : OkHeader accepts} {D : Str} {tls : Option (Option ε)}
    {write : Option ε} {segs conn : List Str} (hsize : H.text.length < size)
    (hsegs : segs.flatten = H.text ++ D) (h : streamConn accepts tls write segs = .ok conn)
    (heq : conn.flatten = D) : CutAt segs H.text := by
  obtain ⟨r, hafter, hD⟩ := streamConn_after hsegs h
  have hbuf : r.buf = [] := (flatten_eq_iff hD).mp heq
  have hends := hafter.exact [] (by simpa using hsize) (Reader.endsAt_nil.mpr hbuf)
  rw [List.append_nil] at hends
  exact hends

/-- The header line by line, and the tunnel in one read with its last line. -/
def lineByLine (H : OkHeader accepts) (D : Str) : List Str :=
  (H.statusLine ++ [10]) ::
    (H.fields.lines.map (· ++ [10]) ++ [H.fields.last ++ 10 :: D])

theorem flatten_lineByLine (H : OkHeader accepts) (D : Str) :
    (lineByLine H D).flatten = H.text ++ D := by
  simp [lineByLine, OkHeader.text, Fields.text, fieldsText]

/-- The handshake succeeds on it, with some of the tunnel in its reader. -/
theorem streamConn_lineByLine (H : OkHeader accepts) {D : Str} (hD : D ≠ []) :
    ∃ conn, streamConn accepts none (none : Option ε) (lineByLine H D) = .ok conn ∧
      conn.flatten ≠ D := by
  have hshort : H.fields.last.length + 1 < size := by
    rcases H.fields.last_eq with h | h <;> rw [h] <;> decide
  obtain ⟨r, hfields, hbuf⟩ := Reader.readFields_overruns H.fields.noNewline H.fields.notEmpty
    H.fields.not_mem_last H.fields.dropCR_last hshort hD
  have hline : (newReader (lineByLine H D)).readLine [] = .ok (dropCR H.statusLine,
      ⟨[], H.fields.lines.map (· ++ [10]) ++ [H.fields.last ++ 10 :: D]⟩) :=
    Reader.readLine_segment H.noNewline (by decide) List.not_mem_nil rfl
  have hresp : (readResponse accepts (newReader (lineByLine H D)) :
      Except (ShakeError ε) (Response × Reader)) = .ok (H.response, r) := by
    simp only [readResponse, hline, H.parses, hfields, H.accepted, if_true]
  have hconn : streamConn accepts none (none : Option ε) (lineByLine H D) = .ok r.segs := by
    simp only [streamConn, shakeHand, hresp, H.ok, if_true]
  refine ⟨r.segs, hconn, fun heq => hbuf ?_⟩
  have hafter : (newReader (lineByLine H D)).After r H.text :=
    readResponse_after (flatten_lineByLine H D) hresp
  have hbytes : H.text ++ D = H.text ++ r.bytes :=
    (flatten_lineByLine H D).symm.trans hafter.bytes
  exact (flatten_eq_iff (List.append_cancel_left hbytes).symm).mp heq

/-- A tunnel is handed over whole, however the stream is cut into reads, exactly if there is
nothing in it. For a header shorter than the buffer, a handshake hands the tunnel over exactly
if one of the reads ends with the header. -/
theorem handsOver_iff (ε : Type) (H : OkHeader accepts) (D : Str) :
    ((∀ segs, segs.flatten = H.text ++ D → HandsOver ε accepts segs D) ↔ D = []) ∧
      ∀ (tls : Option (Option ε)) (write : Option ε) (segs conn : List Str),
        segs.flatten = H.text ++ D → streamConn accepts tls write segs = .ok conn →
          H.text.length < size → (conn.flatten = D ↔ CutAt segs H.text) := by
  constructor
  · constructor
    · intro h
      by_contra hD
      have hlost : ∃ conn, streamConn accepts none (none : Option ε) (lineByLine H D) = .ok conn ∧
          conn.flatten ≠ D := streamConn_lineByLine H hD
      obtain ⟨conn, hconn, hne⟩ := hlost
      exact hne (h _ (flatten_lineByLine H D) none none conn hconn)
    · intro hD segs hsegs tls write conn hconn
      have hcut : CutAt segs H.text := ⟨segs, [], by simp, by rw [hsegs, hD, List.append_nil]⟩
      exact flatten_eq_of_cutAt hsegs hconn hcut
  · intro tls write segs conn hsegs hconn hsize
    exact ⟨cutAt_of_flatten_eq hsize hsegs hconn, flatten_eq_of_cutAt hsegs hconn⟩

/-! ### A server that speaks first -/

/-- The response and the greeting of the server behind the tunnel, in one read. -/
def greeting : List Str := [str "HTTP/1.1 200 OK\r\n\r\nSSH-2.0"]

theorem readLine_greeting : (newReader greeting).readLine [] =
    .ok (str "HTTP/1.1 200 OK", ⟨str "\r\nSSH-2.0", []⟩) := by
  have hfill : (newReader greeting).fill = .ok ⟨str "HTTP/1.1 200 OK\r\n\r\nSSH-2.0", []⟩ :=
    Reader.fill_whole (by decide) (by decide)
  have hline : (10 : UInt8) ∉ str "HTTP/1.1 200 OK\r" := by decide
  rw [Reader.readLine_of_fill List.not_mem_nil (by decide) hfill]
  exact Reader.readLine_of_mem hline []

theorem readFields_greeting :
    Reader.readFields ⟨str "\r\nSSH-2.0", []⟩ = .ok ([], ⟨str "SSH-2.0", []⟩) := by
  have hline : (10 : UInt8) ∉ str "\r" := by decide
  exact Reader.readFields_of_empty (Reader.readLine_of_mem hline [])

/-- The handshake succeeds, and the connection it returns has nothing more to give. -/
theorem greeting_lost :
    streamConn (fun _ => true) none (none : Option Unit) greeting = .ok [] ∧
      ¬ HandsOver Unit (fun _ => true) greeting (str "SSH-2.0") := by
  have hstatus : parseStatusLine (str "HTTP/1.1 200 OK") = some ⟨200, str "200 OK"⟩ := by
    decide +kernel
  have hconn : streamConn (fun _ => true) none (none : Option Unit) greeting = .ok [] := by
    simp only [streamConn, shakeHand, readResponse, readLine_greeting, hstatus,
      readFields_greeting, if_true]
  refine ⟨hconn, fun h => ?_⟩
  have hflat : ([] : Str) = str "SSH-2.0" := h none none [] hconn
  exact absurd hflat (by decide)

end RuleBaseProxy.HttpConnect
