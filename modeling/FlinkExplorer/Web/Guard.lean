import FlinkExplorer.Web.Url

namespace FlinkExplorer.Web

open Lib

/-!
# `web/mod.rs` — the guards of a request

`App::handle` answers a request.  Before the routes are asked it looks at the method, the `Host`
header, the token and the session cookie, in this order.  The routes are a parameter: whatever they
read of the savepoint, they are asked only with a session.

* `constantTimeEq_iff`, `hasSession_iff` — a session is the token, in the cookie of this server;
* `securityHeaders_mem_handle` — every response carries the security headers;
* `handle_without_session` — without one, two servers with the same token and address answer alike,
  and neither is touched.
-/

/-! ### Addresses, as `std::net` reads them -/

inductive IpAddr
  | v4 (a b c d : UInt8)
  | v6 (segments : Vector UInt16 8)
  deriving DecidableEq

structure SocketAddr where
  ip : IpAddr
  port : UInt16

namespace IpAddr

def isLoopback : IpAddr → Bool
  | .v4 a _ _ _ => a = 127
  | .v6 s => s = #v[0, 0, 0, 0, 0, 0, 0, 1]

def isUnspecified : IpAddr → Bool
  | .v4 a b c d => a = 0 && b = 0 && c = 0 && d = 0
  | .v6 s => s = #v[0, 0, 0, 0, 0, 0, 0, 0]

/-- A number of at most `maxDigits` digits, and what follows it. -/
def readNumber (isDigit : Char → Bool) (radix maxDigits : Nat) (allowZeroPrefix : Bool) (t : Text) :
    Option (Nat × Text) :=
  let ds := t.takeWhile isDigit
  if ds.isEmpty || maxDigits < ds.length
    || (!allowZeroPrefix && ds.head? = some '0' && 1 < ds.length) then none
  else some (ds.foldl (fun n c => n * radix + hexValue c) 0, t.dropWhile isDigit)

/-- One given character. -/
def readChar (c : Char) : Text → Option Text
  | [] => none
  | d :: rest => if d = c then some rest else none

/-- Before every item but the first stands a separator. -/
def readSeparator {α : Type} (sep : Char) (index : Nat) (inner : Text → Option (α × Text))
    (t : Text) : Option (α × Text) :=
  if index = 0 then inner t else (readChar sep t).bind inner

/-- A decimal byte, without leading zeros. -/
def readOctet (index : Nat) (t : Text) : Option (UInt8 × Text) := do
  let (n, rest) ← readSeparator '.' index (readNumber Char.isDigit 10 3 false) t
  if n ≤ 255 then some (UInt8.ofNat n, rest) else none

def readV4 (t : Text) : Option ((UInt8 × UInt8 × UInt8 × UInt8) × Text) := do
  let (a, t) ← readOctet 0 t
  let (b, t) ← readOctet 1 t
  let (c, t) ← readOctet 2 t
  let (d, t) ← readOctet 3 t
  some ((a, b, c, d), t)

/-- Two bytes as one segment. -/
def segment (a b : UInt8) : UInt16 := UInt16.ofNat (a.toNat * 256 + b.toNat)

/-- The segments at the front of a text, at most `room` more after the `index` already read;
    whether they end in an IPv4 address; and what follows. -/
def readGroups : Nat → Nat → Text → List UInt16 × Bool × Text
  | 0, _, t => ([], false, t)
  | room + 1, index, t =>
    match if room = 0 then none else readSeparator ':' index readV4 t with
    | some ((a, b, c, d), rest) => ([segment a b, segment c d], true, rest)
    | none =>
      match readSeparator ':' index (readNumber isHexDigit 16 4 true) t with
      | none => ([], false, t)
      | some (n, rest) =>
        let (groups, ipv4, rest) := readGroups room (index + 1) rest
        (UInt16.ofNat n :: groups, ipv4, rest)

/-- The segments of an address, zeros between its head and its tail. -/
def ofGroups (head tail : List UInt16) : IpAddr :=
  .v6 (Vector.ofFn fun i =>
    (head ++ List.replicate (8 - head.length - tail.length) 0 ++ tail).getD i 0)

def readV6 (t : Text) : Option (IpAddr × Text) := do
  let (head, ipv4, t) := readGroups 8 0 t
  if head.length = 8 then some (ofGroups head [], t)
  -- An IPv4 part does not stand before `::`.
  else if ipv4 then none
  else
    let t ← readChar ':' (← readChar ':' t)
    let (tail, _, t) := readGroups (8 - (head.length + 1)) 0 t
    some (ofGroups head tail, t)

/-- `str::parse` of an address. -/
def parse (t : Text) : Option IpAddr :=
  match (match readV4 t with
    | some ((a, b, c, d), rest) => some (IpAddr.v4 a b c d, rest)
    | none => readV6 t) with
  | some (ip, []) => some ip
  | _ => none

example : parse "127.0.0.1".toList = some (.v4 127 0 0 1) := by decide
example : parse "::ffff:10.0.0.1".toList = some (.v6 #v[0, 0, 0, 0, 0, 0xFFFF, 0xA00, 1]) := by
  decide +kernel

end IpAddr

/-! ### Requests and responses -/

/-- What the server needs to know about one request. -/
structure Request where
  method : Text
  path : Text
  query : Text
  host : Option Text
  cookie : Option Text

/-- A complete response; `π` is what produces a streamed body. -/
structure Response (π : Type) where
  status : Nat
  contentType : Text
  headers : List (Text × Text)
  body : Bytes
  stream : Option π

def Response.new {π : Type} (status : Nat) (contentType : Text) (body : Bytes) : Response π :=
  ⟨status, contentType, [], body, none⟩

def Response.text {π : Type} (status : Nat) (body : Text) : Response π :=
  .new status "text/plain; charset=utf-8".toList (encodeUtf8 body)

/-- `SECURITY_HEADERS`. -/
def securityHeaders : List (Text × Text) :=
  [("Content-Security-Policy".toList,
      "default-src 'none'; script-src 'self'; style-src 'self'; img-src 'self'; ".toList
        ++ "connect-src 'self'; base-uri 'none'; form-action 'self'; ".toList
        ++ "frame-ancestors 'none'".toList),
    ("X-Content-Type-Options".toList, "nosniff".toList),
    ("Referrer-Policy".toList, "no-referrer".toList),
    ("Cache-Control".toList, "no-store".toList),
    ("X-Frame-Options".toList, "DENY".toList),
    ("Cross-Origin-Resource-Policy".toList, "same-origin".toList),
    ("Cross-Origin-Opener-Policy".toList, "same-origin".toList)]

def withSecurityHeaders {π : Type} (resp : Response π) : Response π :=
  { resp with headers := resp.headers ++ securityHeaders }

/-- What is left of a response to a `HEAD`: no body, and its length where it is known. -/
def withoutBody {π : Type} (resp : Response π) : Response π :=
  { resp with
    headers := if resp.stream.isNone
      then resp.headers ++ [("Content-Length".toList, natText resp.body.length)] else resp.headers
    body := []
    stream := none }

/-- Tunables of the server that are not per request; a duration is in nanoseconds. -/
structure WebOptions where
  countStepBytes : Nat
  countStepPause : Nat
  maxRunningCounts : Nat
  maxDownloads : Nat
  downloadStall : Nat

/-- `WebOptions::default`. -/
def WebOptions.default : WebOptions := ⟨4 * 2 ^ 20, 0, 2, 2, 45 * 10 ^ 9⟩

/-- The web application: the reader (`ρ`) and the count jobs (`κ`) with all they hold inside. -/
structure App (ρ κ : Type) where
  reader : ρ
  token : Text
  bound : SocketAddr
  title : Text
  options : WebOptions
  counts : κ

/-! ### The checks -/

/-- `str::to_ascii_lowercase`. -/
def toAsciiLowercase (t : Text) : Text :=
  t.map fun c => if 'A' ≤ c ∧ c ≤ 'Z' then Char.ofNat (c.toNat + 32) else c

/-- What comes before and after the last `sep`, if there is one. -/
def rsplitOnce (sep : Char) (t : Text) : Option (Text × Text) :=
  (splitOnce sep t.reverse).map fun (after, before) => (before.reverse, after.reverse)

/-- The host without its port: `[v6]:port`, `name:port`, or none. -/
def hostName (host : Text) : Option Text :=
  match host with
  | '[' :: rest =>
    match splitOnce ']' rest with
    | some (inside, after) =>
      if after.isEmpty || after.head? = some ':' then some inside else none
    | none => none
  | _ =>
    match rsplitOnce ':' host with
    | some (name, port) => if port.all Char.isDigit then some name else none
    | none => some host

/-- Whether the `Host` header names this server. -/
def hostAllowed (host : Option Text) (bound : SocketAddr) : Bool :=
  match host with
  | none => false
  | some host =>
    match hostName (toAsciiLowercase (trim host)) with
    | none => false
    | some name =>
      if name = "localhost".toList then true
      else
        match IpAddr.parse name with
        | none => false
        | some ip => ip.isLoopback || ip = bound.ip || bound.ip.isUnspecified

def constantTimeEq (a b : Bytes) : Bool :=
  if a.length ≠ b.length then false
  else (a.zip b).foldl (fun acc p => acc ||| (p.1 ^^^ p.2)) (0 : UInt8) = 0

/-- The session cookie's name. -/
def cookieName (bound : SocketAddr) : Text :=
  "flink_explorer_".toList ++ natText bound.port.toNat

/-- Whether a `Cookie` header holds the token under the session cookie's name. -/
def hasSession (token : Text) (bound : SocketAddr) (cookie : Option Text) : Bool :=
  cookie.any fun c => (c.splitOn ';').any fun pair =>
    let (k, v) := (splitOnce '=' (trim pair)).getD (trim pair, [])
    k = cookieName bound && constantTimeEq (encodeUtf8 v) (encodeUtf8 token)

/-! ### The page that sets the cookie -/

/-- Text, escaped for element content and for a quoted attribute. -/
def escapeHtml (t : Text) : Text :=
  t.flatMap fun c =>
    if c = '&' then "&amp;".toList
    else if c = '<' then "&lt;".toList
    else if c = '>' then "&gt;".toList
    else if c = '"' then "&quot;".toList
    else if c = '\'' then "&#39;".toList
    else [c]

/-- The page answering the token, which moves on to `location`. -/
def loginPage (location : Text) : Text :=
  "<!doctype html>\n<html lang=\"en\"><head><meta charset=\"utf-8\">".toList
    ++ "<meta name=\"referrer\" content=\"no-referrer\">".toList
    ++ "<meta http-equiv=\"refresh\" content=\"0;url=".toList
    ++ escapeHtml location
    ++ "\"><title>Signed in · flink-explorer</title></head><body><p>Signed in. <a href=\"".toList
    ++ escapeHtml location
    ++ "\">Continue</a></p></body></html>\n".toList

/-- The path to go on to: `//host` and `/\host` are other origins to a browser. -/
def samePath (path : Text) : Text :=
  if "/".toList.isPrefixOf path && !"//".toList.isPrefixOf path && !"/\\".toList.isPrefixOf path
  then path else "/".toList

/-- The same URL, without the token. -/
def locationOf (path : Text) (query : List (Text × Text)) : Text :=
  let rest := (query.filter fun p => p.1 ≠ "token".toList).map fun p =>
    urlEncode p.1 ++ '=' :: urlEncode p.2
  if rest.isEmpty then samePath path else samePath path ++ '?' :: ['&'].intercalate rest

/-! ### `App::handle` -/

section Handle

variable {ρ κ π : Type}
  (route : App ρ κ → Text → List (Text × Text) → Bool → Response π × ρ × κ)

/-- The guards, then the routes. -/
def App.guarded (app : App ρ κ) (req : Request) : Response π × App ρ κ :=
  if req.method ≠ "GET".toList ∧ req.method ≠ "HEAD".toList then
    let r := Response.text 405 "Method Not Allowed: this server is read-only.\n".toList
    ({ r with headers := [("Allow".toList, "GET, HEAD".toList)] }, app)
  else if !hostAllowed req.host app.bound then
    (.text 403 ("Forbidden: unexpected Host header. ".toList
      ++ "Open the URL printed in the terminal.\n".toList), app)
  else
    let query := parseQuery req.query
    match query.find? fun p => p.1 = "token".toList with
    | some (_, token) =>
      if !constantTimeEq (encodeUtf8 token) (encodeUtf8 app.token) then
        (.text 403 "Forbidden: wrong token.\n".toList, app)
      else
        let r := Response.new 200 "text/html; charset=utf-8".toList
          (encodeUtf8 (loginPage (locationOf req.path query)))
        ({ r with headers := [("Set-Cookie".toList, cookieName app.bound ++ '=' :: app.token
          ++ "; HttpOnly; SameSite=Strict; Path=/".toList)] }, app)
    | none =>
      if !hasSession app.token app.bound req.cookie then
        (.text 403 ("Forbidden: no session. Open the URL with the token, as printed in the ".toList
          ++ "terminal where flink-explorer runs.\n".toList), app)
      else
        let (resp, reader, counts) := route app req.path query (req.method = "GET".toList)
        (resp, { app with reader := reader, counts := counts })

/-- `App::handle`. -/
def App.handle (app : App ρ κ) (req : Request) : Response π × App ρ κ :=
  let (resp, app) := app.guarded route req
  let resp := withSecurityHeaders resp
  (if req.method = "HEAD".toList then withoutBody resp else resp, app)

end Handle

/-! ### What the checks accept -/

theorem foldl_or_xor_eq_zero (ps : List (UInt8 × UInt8)) (acc : UInt8) :
    ps.foldl (fun acc p => acc ||| (p.1 ^^^ p.2)) acc = 0 ↔ acc = 0 ∧ ∀ p ∈ ps, p.1 = p.2 := by
  induction ps generalizing acc with
  | nil => simp
  | cons p ps ih =>
    rw [List.foldl_cons, ih, UInt8.or_eq_zero_iff, UInt8.xor_eq_zero_iff, List.forall_mem_cons,
      and_assoc]

/-- **`constant_time_eq`** accepts equal byte strings, and no others. -/
theorem constantTimeEq_iff {a b : Bytes} : constantTimeEq a b = true ↔ a = b := by
  unfold constantTimeEq
  by_cases hlen : a.length = b.length
  · rw [if_neg (not_not.mpr hlen), decide_eq_true_eq, foldl_or_xor_eq_zero]
    constructor
    · rintro ⟨-, hall⟩
      refine List.ext_getElem hlen fun i ha hb => ?_
      exact hall (a[i], b[i]) (List.mem_iff_getElem.mpr
        ⟨i, by rw [List.length_zip]; exact lt_min ha hb, List.getElem_zip⟩)
    · rintro rfl
      refine ⟨rfl, fun p hp => ?_⟩
      obtain ⟨i, hi, rfl⟩ := List.mem_iff_getElem.mp hp
      rw [List.getElem_zip]
  · rw [if_pos hlen]
    exact iff_of_false (by decide) fun h => hlen (congrArg List.length h)

/-- **A session is the token**, in a cookie under this server's name. -/
theorem hasSession_iff {token : Text} {bound : SocketAddr} {cookie : Option Text} :
    hasSession token bound cookie = true ↔
      ∃ c, cookie = some c ∧ ∃ pair ∈ c.splitOn ';',
        (splitOnce '=' (trim pair)).getD (trim pair, []) = (cookieName bound, token) := by
  unfold hasSession
  rw [Option.any_eq_true]
  refine exists_congr fun c => and_congr Iff.rfl ?_
  rw [List.any_eq_true]
  refine exists_congr fun pair => and_congr Iff.rfl ?_
  dsimp only
  rw [Bool.and_eq_true, decide_eq_true_eq, constantTimeEq_iff, Prod.ext_iff]
  -- text survives UTF-8, so tokens of the same bytes are the same
  refine and_congr Iff.rfl ⟨fun h => ?_, fun h => congrArg encodeUtf8 h⟩
  rw [← decodeUtf8Lossy_encodeUtf8 token, ← h, decodeUtf8Lossy_encodeUtf8]

section Handled

variable {ρ κ ρ' κ' π : Type}
  {route : App ρ κ → Text → List (Text × Text) → Bool → Response π × ρ × κ}
  {route' : App ρ' κ' → Text → List (Text × Text) → Bool → Response π × ρ' × κ'}

/-- Without a session the guards answer from the token, the address and the request. -/
theorem guarded_without_session
    (route : App ρ κ → Text → List (Text × Text) → Bool → Response π × ρ × κ)
    (route' : App ρ' κ' → Text → List (Text × Text) → Bool → Response π × ρ' × κ')
    {app : App ρ κ} {app' : App ρ' κ'} (htoken : app.token = app'.token)
    (hbound : app.bound = app'.bound) {req : Request}
    (hno : hasSession app.token app.bound req.cookie = false) :
    (app.guarded route req).1 = (app'.guarded route' req).1
      ∧ (app.guarded route req).2 = app := by
  unfold App.guarded
  rw [← htoken, ← hbound]
  dsimp only
  -- The order of the checks: the method, the host, the token, the session.
  by_cases hmethod : req.method ≠ "GET".toList ∧ req.method ≠ "HEAD".toList
  · rw [if_pos hmethod, if_pos hmethod]
    exact ⟨rfl, rfl⟩
  rw [if_neg hmethod, if_neg hmethod]
  by_cases hhost : (!hostAllowed req.host app.bound) = true
  · rw [if_pos hhost, if_pos hhost]
    exact ⟨rfl, rfl⟩
  rw [if_neg hhost, if_neg hhost]
  cases (parseQuery req.query).find? fun p => p.1 = "token".toList with
  | none =>
    rw [hno]
    exact ⟨rfl, rfl⟩
  | some p =>
    obtain ⟨-, token⟩ := p
    dsimp only
    by_cases hwrong : (!constantTimeEq (encodeUtf8 token) (encodeUtf8 app.token)) = true
    · rw [if_pos hwrong, if_pos hwrong]
      exact ⟨rfl, rfl⟩
    · rw [if_neg hwrong, if_neg hwrong]
      exact ⟨rfl, rfl⟩

theorem handle_fst (app : App ρ κ) (req : Request) :
    (app.handle route req).1
      = if req.method = "HEAD".toList
        then withoutBody (withSecurityHeaders (app.guarded route req).1)
        else withSecurityHeaders (app.guarded route req).1 := rfl

theorem handle_snd (app : App ρ κ) (req : Request) :
    (app.handle route req).2 = (app.guarded route req).2 := rfl

/-- Every response carries the security headers. -/
theorem securityHeaders_mem_handle (app : App ρ κ) (req : Request) {h : Text × Text}
    (hmem : h ∈ securityHeaders) : h ∈ (app.handle route req).1.headers := by
  have hadded : h ∈ (withSecurityHeaders (app.guarded route req).1).headers :=
    List.mem_append_right _ hmem
  rw [handle_fst]
  by_cases hhead : req.method = "HEAD".toList
  · rw [if_pos hhead]
    unfold withoutBody
    dsimp only
    by_cases hlength : (withSecurityHeaders (app.guarded route req).1).stream.isNone = true
    · rw [if_pos hlength]
      exact List.mem_append_left _ hadded
    · rw [if_neg hlength]
      exact hadded
  · rw [if_neg hhead]
    exact hadded

/-- **Nothing about the savepoint reaches a client without a session.**  Two servers with the same
    token and address, whatever their savepoints, titles, options, jobs and routes, give it the same
    response, and stay as they are. -/
theorem handle_without_session (route : App ρ κ → Text → List (Text × Text) → Bool → Response π × ρ × κ)
    (route' : App ρ' κ' → Text → List (Text × Text) → Bool → Response π × ρ' × κ')
    (app : App ρ κ) (app' : App ρ' κ') (htoken : app.token = app'.token)
    (hbound : app.bound = app'.bound) (req : Request)
    (hno : hasSession app.token app.bound req.cookie = false) :
    (app.handle route req).1 = (app'.handle route' req).1
      ∧ (app.handle route req).2 = app ∧ (app'.handle route' req).2 = app' := by
  have hno' : hasSession app'.token app'.bound req.cookie = false := by rw [← htoken, ← hbound, hno]
  obtain ⟨halike, hsame⟩ :=
    guarded_without_session route route' htoken hbound hno
  obtain ⟨-, hsame'⟩ :=
    guarded_without_session route' route htoken.symm hbound.symm hno'
  refine ⟨?_, (handle_snd app req).trans hsame, (handle_snd app' req).trans hsame'⟩
  rw [handle_fst, handle_fst, halike]

/-- A server of one of many savepoints. -/
def sampleApp (savepoint : Nat) : App Nat Nat :=
  ⟨savepoint, "5e".toList, ⟨.v4 127 0 0 1, 8080⟩, List.replicate savepoint 's', .default, 0⟩

/-- Routes that tell what they were asked for, and note it. -/
def sampleRoute (app : App Nat Nat) (path : Text) (_ : List (Text × Text)) (_ : Bool) :
    Response Unit × Nat × Nat :=
  (.text 200 (app.title ++ path), app.reader + 1, app.counts)

/-- A request without a cookie. -/
def sampleRequest : Request :=
  ⟨"GET".toList, "/".toList, [], some "localhost:8080".toList, none⟩

/-- It is answered alike for two savepoints. -/
theorem handle_without_session_sample :
    ((sampleApp 1).handle sampleRoute sampleRequest).1
        = ((sampleApp 2).handle sampleRoute sampleRequest).1
      ∧ ((sampleApp 1).handle sampleRoute sampleRequest).2 = sampleApp 1
      ∧ ((sampleApp 2).handle sampleRoute sampleRequest).2 = sampleApp 2 :=
  handle_without_session sampleRoute sampleRoute (sampleApp 1) (sampleApp 2) rfl rfl sampleRequest
    rfl

end Handled

end FlinkExplorer.Web
