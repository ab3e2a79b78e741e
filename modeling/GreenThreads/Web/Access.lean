import GreenThreads.Web.Control
import GreenThreads.Web.RateLimit

/-!
# GreenThreads — who may control the runtime (`web/server.go`)

A WebSocket request is checked for its token and its origin before it gets a slot, and the handler
remembers the token and the role that goes with it. Every message then passes the revalidation of
the token, the rate limit and the deny list of read-only connections on its way to the handlers of
`Web.Control`.

* `AccessConfig.authorized`, `AccessConfig.allowedOrigin` — the checks of the handshake;
* `Session` — what a handler keeps of its request, with the checks it has passed;
* `Gateway` — requests and messages of any number of connections, in any order;
* `commands_replay` — the runtimes are what the commands of full-access connections made of them;
* `revalidation_never_closes` — as nothing changes the configuration, no token is ever rotated.

`url.Parse` and `strings.EqualFold` are parameters. Left out: the steps inside of one message
(`Web.Swap`), the steps of the slot counter (`Web.Clients`) and what is written to a connection
(`Web.Pump`).
-/

namespace GreenThreads.Web

open Trans (Reach anyStep exec)

/-! ## The checks of the handshake -/

/-- The fields of `ServerConfig` that decide about access. -/
structure AccessConfig extends ServerConfig where
  allowedOrigins : List String
  authToken : String
  allowTokenInQuery : Bool
  tokenRevalidationInterval : Int
  maxClients : Int
  messagesPerSecond : Int

/-- What the checks read of a request. -/
structure HTTPRequest where
  authorization : String := ""
  queryToken : String := ""
  host : String := ""
  origin : String := ""
  deriving DecidableEq, Repr

/-- The part of a `url.URL` that is looked at. -/
structure URL where
  scheme : String
  host : String
  deriving DecidableEq, Repr

/-- The functions of the standard library that `allowedOrigin` calls. -/
structure URLFunctions where
  parse : String → Option URL
  equalFold : String → String → Bool

/-- `strings.TrimPrefix(s, "Bearer ")`. -/
def trimBearer (s : String) : String :=
  if "Bearer ".toList.isPrefixOf s.toList then String.ofList (s.toList.drop 7) else s

/-- `len(a) == len(b) && subtle.ConstantTimeCompare(a, b) == 1`. -/
def sameToken (a b : String) : Bool := a.utf8ByteSize = b.utf8ByteSize && a = b

namespace AccessConfig

variable (cfg : AccessConfig) (U : URLFunctions)

/-- `tokenFromRequest`. -/
def tokenFromRequest (r : HTTPRequest) : String :=
  let token := trimBearer r.authorization
  if token = "" && cfg.allowTokenInQuery then r.queryToken else token

/-- `tokenMatches`. -/
def tokenMatches (presented : String) : Bool :=
  if cfg.authToken = "" then true
  else if sameToken presented cfg.authToken then true
  else cfg.readOnlyToken ≠ "" && sameToken presented cfg.readOnlyToken

/-- `authorized`. -/
def authorized (r : HTTPRequest) : Bool :=
  if cfg.authToken = "" then true
  else
    let token := trimBearer r.authorization
    let token := if token = "" && cfg.allowTokenInQuery then r.queryToken else token
    if token = "" then false else cfg.tokenMatches token

/-- `allowedOrigin`. -/
def allowedOrigin (r : HTTPRequest) : Bool :=
  if r.host.toList.any fun ch => ch = '\r' || ch = '\n' || ch.toNat = 0 then false
  -- a client that is not a browser sends no origin
  else if r.origin = "" then cfg.allowedOrigins.isEmpty
  else if cfg.allowedOrigins.contains r.origin then true
  else
    match U.parse r.origin with
    | none => false
    | some u =>
      u.host ≠ "" && U.equalFold u.host r.host && (u.scheme = "http" || u.scheme = "https")

/-- The token of a request gives full access. -/
def FullAccess (r : HTTPRequest) : Prop :=
  (cfg.authToken ≠ "" → cfg.tokenFromRequest r = cfg.authToken)
    ∧ (cfg.readOnlyToken ≠ "" → cfg.tokenFromRequest r ≠ cfg.readOnlyToken)

theorem authorized_eq (r : HTTPRequest) (h : cfg.authToken ≠ "") :
    cfg.authorized r
      = (cfg.tokenFromRequest r ≠ "" && cfg.tokenMatches (cfg.tokenFromRequest r)) := by
  unfold authorized tokenFromRequest
  rw [if_neg h]
  dsimp only
  generalize (if trimBearer r.authorization = "" && cfg.allowTokenInQuery then r.queryToken
    else trimBearer r.authorization) = token
  by_cases htoken : token = "" <;> simp [htoken]

theorem tokenMatches_of_authorized {r : HTTPRequest} (h : cfg.authorized r = true) :
    cfg.tokenMatches (cfg.tokenFromRequest r) = true := by
  by_cases hauth : cfg.authToken = ""
  · simp [tokenMatches, hauth]
  · rw [cfg.authorized_eq r hauth, Bool.and_eq_true] at h
    exact h.2

theorem sameToken_iff {a b : String} : sameToken a b = true ↔ a = b := by
  unfold sameToken
  constructor
  · intro h
    exact of_decide_eq_true (Bool.and_eq_true_iff.mp h).2
  · rintro rfl
    simp

/-- An authorized request that is not read-only has presented the full-access token. -/
theorem fullAccess_of_authorized {r : HTTPRequest} (h : cfg.authorized r = true)
    (hrole : cfg.readOnly (cfg.tokenFromRequest r) = false) : cfg.FullAccess r := by
  have hmatch := cfg.tokenMatches_of_authorized h
  have hnot : cfg.readOnlyToken ≠ "" → cfg.tokenFromRequest r ≠ cfg.readOnlyToken := by
    simpa [ServerConfig.readOnly] using hrole
  refine ⟨fun hauth => ?_, hnot⟩
  unfold tokenMatches at hmatch
  rw [if_neg hauth] at hmatch
  split_ifs at hmatch with hfull
  · exact sameToken_iff.mp hfull
  · obtain ⟨hne, hro⟩ := Bool.and_eq_true_iff.mp hmatch
    exact absurd (sameToken_iff.mp hro) (hnot (by simpa using hne))

end AccessConfig

/-! ## Connections -/

/-- What a handler keeps of its request: the token it presented and the role that goes with it.
A session is only made for a request that has passed both checks. -/
structure Session (cfg : AccessConfig) (U : URLFunctions) where
  request : HTTPRequest
  presentedToken : String
  readOnly : Bool
  authorized : cfg.authorized request = true
  allowedOrigin : cfg.allowedOrigin U request = true
  token : presentedToken = cfg.tokenFromRequest request
  role : readOnly = cfg.readOnly presentedToken

/-- Where a call of `handleWebSocket` is. -/
inductive Conn (cfg : AccessConfig) (U : URLFunctions) where
  /-- The request was answered with an error. -/
  | refused (status : Nat) (text : String)
  /-- The slot is reserved, `Upgrade` is running. -/
  | upgrading (session : Session cfg U)
  /-- The read loop. -/
  | serving (session : Session cfg U) (client : Client)
  | ended

/-- The session of a handler, from its admission until it returns. -/
def Conn.session? {cfg : AccessConfig} {U : URLFunctions} : Conn cfg U → Option (Session cfg U)
  | .upgrading session | .serving session _ => some session
  | .refused _ _ | .ended => none

def Conn.isServing {cfg : AccessConfig} {U : URLFunctions} : Conn cfg U → Bool
  | .serving _ _ => true
  | .refused _ _ | .upgrading _ | .ended => false

/-- A message that has got to a handler of `Web.Control`. -/
structure Command (cfg : AccessConfig) (U : URLFunctions) where
  session : Session cfg U
  msg : Message
  now : Int

/-- The server with its connections. `requests` lists the requests that came in and `commands` the
messages of full-access connections that were handled; nothing reads them. -/
structure Gateway (cfg : AccessConfig) (U : URLFunctions) (κ : Type*) where
  server : Server κ
  clientCount : Int := 0
  conns : List (Conn cfg U) := []
  requests : List HTTPRequest := []
  commands : List (Command cfg U) := []

namespace Gateway

variable {κ : Type*} {cfg : AccessConfig} {U : URLFunctions}

inductive Label where
  | request (r : HTTPRequest)
  /-- `Upgrade` returns, and the client is registered at time `now`. -/
  | upgrade (i : ConnID) (ok : Bool) (now : Int)
  /-- One round of the read loop. `tick` tells whether the revalidation ticker has fired; `data` is
  `none` if `ReadMessage` fails and `some none` if what it reads is not a message. -/
  | read (i : ConnID) (tick : Bool) (data : Option (Option Message)) (now : Int)
  /-- The write pump takes a message from the send queue. -/
  | pump (i : ConnID)
  | closeClients

section

variable (M : RuntimeMethods κ) (g : Gateway cfg U κ)

/-- The first part of `handleWebSocket`, up to `reserveClient`. -/
def letIn (U : URLFunctions) (clientCount : Int) (r : HTTPRequest) : Conn cfg U :=
  if hauth : cfg.authorized r = true then
    if horigin : cfg.allowedOrigin U r = true then
      if clientCount < effectiveMaxClients cfg.maxClients then
        let presentedToken := cfg.tokenFromRequest r
        .upgrading ⟨r, presentedToken, cfg.readOnly presentedToken, hauth, horigin, rfl, rfl⟩
      else .refused 503 "too many clients"
    else .refused 403 "origin not allowed"
  else .refused 403 "forbidden"

def setConn (i : ConnID) (c : Conn cfg U) : Gateway cfg U κ := { g with conns := g.conns.set i c }

/-- A server before its first request. -/
def new (control : Control κ) : Gateway cfg U κ :=
  { server := { control := control, sendQueues := fun _ => none, broadcastDropped := 0 } }

/-- `sendInitialState`. -/
def sendInitialState (s : Server κ) (i : ConnID) (now : Int) : Server κ :=
  match s.control.runtime with
  | none => s
  | some _ => s.sendJSON i (s.control.handleGetState now).2

/-- `unregister`, as far as the map and the counter go. -/
def unregister (i : ConnID) : Gateway cfg U κ :=
  match g.server.sendQueues i with
  | none => g
  | some _ =>
    { g with
      server := { g.server with
        sendQueues := fun j => if j = i then none else g.server.sendQueues j }
      clientCount := g.clientCount - 1 }

/-- The revalidation branch of the read loop is taken and closes the connection. -/
def rotated (session : Session cfg U) (tick : Bool) : Bool :=
  tick && 0 < cfg.tokenRevalidationInterval && cfg.authToken ≠ ""
    && !cfg.tokenMatches session.presentedToken

/-- `allowMessage`: whether the message is let through, and the client. -/
def allow (i : ConnID) (client : Client) (now : Int) : Bool × Client :=
  match g.server.sendQueues i with
  -- the client is not in the map any more
  | none => (false, client)
  | some _ => client.allowMessage (effectiveMessagesPerSecond cfg.messagesPerSecond) now

/-- What the read loop does with what it has read. -/
def handle (i : ConnID) (session : Session cfg U) (now : Int) : Option Message → Gateway cfg U κ
  | none => { g with server := g.server.sendJSON i (.error "invalid JSON message") }
  | some msg =>
    { g with
      server := g.server.handleMessage M cfg.toServerConfig i msg session.readOnly now
      commands := if session.readOnly then g.commands else g.commands ++ [⟨session, msg, now⟩] }

/-- One round of the read loop of handler `i`. -/
def readStep (i : ConnID) (session : Session cfg U) (client : Client) (tick : Bool)
    (data : Option (Option Message)) (now : Int) : Gateway cfg U κ :=
  if rotated session tick then (g.unregister i).setConn i .ended
  else
    match data with
    | none => (g.unregister i).setConn i .ended
    | some data =>
      let (ok, client) := g.allow i client now
      let g := g.setConn i (.serving session client)
      if ok then g.handle M i session now data
      else { g with server := g.server.sendJSON i (.error "message rate limit exceeded") }

/-- One step. -/
def step : Label → Option (Gateway cfg U κ)
  | .request r =>
    let conn := letIn U g.clientCount r
    some { g with
      conns := g.conns ++ [conn]
      requests := g.requests ++ [r]
      clientCount := match conn with
        | .upgrading _ => g.clientCount + 1
        | _ => g.clientCount }
  | .upgrade i ok now =>
    match g.conns[i]? with
    | some (.upgrading session) =>
      if ok then
        let server := { g.server with
          sendQueues := fun j => if j = i then some [] else g.server.sendQueues j }
        some ({ g with server := sendInitialState server i now }.setConn i
          (.serving session (newClient now)))
      else some ({ g with clientCount := g.clientCount - 1 }.setConn i .ended)
    | _ => none
  | .read i tick data now =>
    match g.conns[i]? with
    | some (.serving session client) => some (g.readStep M i session client tick data now)
    | _ => none
  | .pump i =>
    match g.server.sendQueues i with
    | some (_ :: rest) =>
      some { g with server := { g.server with
        sendQueues := fun j => if j = i then some rest else g.server.sendQueues j } }
    | _ => none
  | .closeClients =>
    some { g with
      server := { g.server with sendQueues := fun _ => none }
      clientCount := g.clientCount
        - ((List.range g.conns.length).countP fun i => (g.server.sendQueues i).isSome) }

end

/-! ## What a step leaves alone -/

section

variable {M : RuntimeMethods κ} {g g' : Gateway cfg U κ} {l : Label} {i : ConnID}

theorem unregister_frame (g : Gateway cfg U κ) (i : ConnID) :
    (g.unregister i).server.control = g.server.control ∧ (g.unregister i).conns = g.conns
      ∧ (g.unregister i).requests = g.requests ∧ (g.unregister i).commands = g.commands := by
  unfold unregister
  split <;> exact ⟨rfl, rfl, rfl, rfl⟩

theorem sendInitialState_control (s : Server κ) (i : ConnID) (now : Int) :
    (sendInitialState s i now).control = s.control := by
  unfold sendInitialState
  split
  · rfl
  · exact Server.sendJSON_control ..

/-- A message is a command of a full-access connection, or changes no runtime. -/
inductive Handled (M : RuntimeMethods κ) (g g' : Gateway cfg U κ) (session : Session cfg U) :
    Prop where
  | command (msg : Message) (now : Int) (hrole : session.readOnly = false)
      (hcontrol : g'.server.control
        = (g.server.control.dispatch M cfg.toServerConfig msg now).1)
      (hcommands : g'.commands = g.commands ++ [⟨session, msg, now⟩]) : Handled M g g' session
  | quiet (hcontrol : g'.server.control = g.server.control)
      (hcommands : g'.commands = g.commands) : Handled M g g' session

theorem handle_handled (g : Gateway cfg U κ) (session : Session cfg U) (now : Int)
    (data : Option Message) : Handled M g (g.handle M i session now data) session := by
  cases data with
  | none => exact .quiet (Server.sendJSON_control ..) rfl
  | some msg =>
    have hcontrol := g.server.handleMessage_control M cfg.toServerConfig i msg session.readOnly now
    cases hrole : session.readOnly with
    | true =>
      rw [hrole, if_pos rfl] at hcontrol
      exact .quiet (by simpa [handle, hrole] using hcontrol) (by simp [handle, hrole])
    | false =>
      rw [hrole, if_neg (by simp)] at hcontrol
      exact .command msg now hrole (by simpa [handle, hrole] using hcontrol)
        (by simp [handle, hrole])

/-- What a step does: it takes a request, moves one handler on, or leaves all handlers alone. -/
inductive Moves (M : RuntimeMethods κ) (g g' : Gateway cfg U κ) : Label → Prop where
  | request (r : HTTPRequest) (hconns : g'.conns = g.conns ++ [letIn U g.clientCount r])
      (hrequests : g'.requests = g.requests ++ [r])
      (hcontrol : g'.server.control = g.server.control) (hcommands : g'.commands = g.commands) :
      Moves M g g' (.request r)
  | upgrade {i : ConnID} {ok : Bool} {now : Int} (session : Session cfg U) (c : Conn cfg U)
      (hconn : g.conns[i]? = some (.upgrading session)) (hconns : g'.conns = g.conns.set i c)
      (hc : c = .serving session (newClient now) ∨ c = .ended)
      (hrequests : g'.requests = g.requests)
      (hcontrol : g'.server.control = g.server.control) (hcommands : g'.commands = g.commands) :
      Moves M g g' (.upgrade i ok now)
  | leave {i : ConnID} {tick : Bool} {now : Int} (session : Session cfg U) (client : Client)
      (hconn : g.conns[i]? = some (.serving session client))
      (hconns : g'.conns = g.conns.set i .ended) (hrequests : g'.requests = g.requests)
      (hcontrol : g'.server.control = g.server.control) (hcommands : g'.commands = g.commands) :
      Moves M g g' (.read i tick none now)
  | message {i : ConnID} {tick : Bool} {data : Option Message} {now : Int}
      (session : Session cfg U) (client client' : Client)
      (hconn : g.conns[i]? = some (.serving session client))
      (hconns : g'.conns = g.conns.set i (.serving session client'))
      (hrequests : g'.requests = g.requests) (hhandled : Handled M g g' session) :
      Moves M g g' (.read i tick (some data) now)
  | rest {l : Label} (hconns : g'.conns = g.conns) (hrequests : g'.requests = g.requests)
      (hcontrol : g'.server.control = g.server.control) (hcommands : g'.commands = g.commands) :
      Moves M g g' l

/-- The configuration is the one the token was checked against. -/
theorem rotated_eq_false (session : Session cfg U) (tick : Bool) :
    rotated session tick = false := by
  have hmatch := cfg.tokenMatches_of_authorized session.authorized
  rw [← session.token] at hmatch
  simp [rotated, hmatch]

theorem readStep_moves {session : Session cfg U} {client : Client} {tick : Bool} {now : Int}
    (hconn : g.conns[i]? = some (.serving session client)) (data : Option (Option Message)) :
    Moves M g (g.readStep M i session client tick data now) (.read i tick data now) := by
  unfold readStep
  rw [rotated_eq_false, if_neg (by simp)]
  obtain ⟨hcontrol, hconns, hrequests, hcommands⟩ := g.unregister_frame i
  cases data with
  | none =>
    exact .leave session client hconn (by rw [setConn, hconns]) hrequests hcontrol hcommands
  | some data =>
    dsimp only
    generalize hallow : g.allow i client now = answer
    obtain ⟨ok, client'⟩ := answer
    cases ok with
    | true =>
      have hh := handle_handled (M := M) (i := i) (g.setConn i (.serving session client')) session
        now data
      refine .message session client client' hconn ?_ ?_ ?_
      · cases data <;> rfl
      · cases data <;> rfl
      · cases hh with
        | command msg now hrole hcontrol hcommands =>
          exact .command msg now hrole hcontrol hcommands
        | quiet hcontrol hcommands => exact .quiet hcontrol hcommands
    | false =>
      exact .message session client client' hconn rfl rfl
        (.quiet (Server.sendJSON_control ..) rfl)

theorem step_moves (h : g.step M l = some g') : Moves M g g' l := by
  cases l with
  | request r =>
    cases h
    exact .request r rfl rfl rfl rfl
  | upgrade i ok now =>
    simp only [step] at h
    split at h
    next session hconn =>
      split_ifs at h <;> cases h
      · exact .upgrade session _ hconn rfl (.inl rfl) rfl (sendInitialState_control ..) rfl
      · exact .upgrade session _ hconn rfl (.inr rfl) rfl rfl rfl
    next => cases h
  | read i tick data now =>
    simp only [step] at h
    split at h
    next session client hconn =>
      cases h
      exact readStep_moves hconn data
    next => cases h
  | pump i =>
    simp only [step] at h
    split at h <;> cases h
    exact .rest rfl rfl rfl rfl
  | closeClients =>
    cases h
    exact .rest rfl rfl rfl rfl

/-! ## The commands -/

/-- What the commands make of the runtimes. -/
def replay (M : RuntimeMethods κ) (control : Control κ) (commands : List (Command cfg U)) :
    Control κ :=
  commands.foldl (fun c cmd => (c.dispatch M cfg.toServerConfig cmd.msg cmd.now).1) control

/-- The runtimes are the result of the commands, and every session goes back to a request. -/
structure Inv (M : RuntimeMethods κ) (control : Control κ) (g : Gateway cfg U κ) : Prop where
  replay : g.server.control = replay M control g.commands
  full : ∀ cmd ∈ g.commands, cmd.session.readOnly = false ∧ cmd.session.request ∈ g.requests
  sessions : ∀ c ∈ g.conns, ∀ session ∈ c.session?, session.request ∈ g.requests

variable {control : Control κ}

theorem letIn_session {count : Int} {r : HTTPRequest} {session : Session cfg U}
    (h : session ∈ (letIn U count r : Conn cfg U).session?) : session.request = r := by
  unfold letIn at h
  split_ifs at h <;> simp only [Conn.session?, Option.mem_def, Option.some.injEq, reduceCtorEq] at h
  rw [← h]

/-- A handler that moves on keeps its session. -/
theorem Inv.set_conn {c c' : Conn cfg U} (hg : g.Inv M control) (hconn : g.conns[i]? = some c)
    (hc : ∀ session ∈ c'.session?, session ∈ c.session?) :
    ∀ d ∈ g.conns.set i c', ∀ session ∈ d.session?, session.request ∈ g.requests := by
  intro d hd session hs
  rcases List.mem_or_eq_of_mem_set hd with hd | rfl
  · exact hg.sessions d hd session hs
  · exact hg.sessions c (List.mem_of_getElem? hconn) session (hc session hs)

theorem Inv.step (hg : g.Inv M control) (h : g.step M l = some g') : g'.Inv M control := by
  cases step_moves h with
  | request r hconns hrequests hcontrol hcommands =>
    refine ⟨by rw [hcontrol, hcommands]; exact hg.replay, fun cmd hcmd => ?_,
      fun c hc session hs => ?_⟩
    · rw [hcommands] at hcmd
      rw [hrequests]
      exact ⟨(hg.full cmd hcmd).1, List.mem_append_left _ (hg.full cmd hcmd).2⟩
    · rw [hconns] at hc
      rw [hrequests]
      rcases List.mem_append.mp hc with hc | hc
      · exact List.mem_append_left _ (hg.sessions c hc session hs)
      · rw [List.mem_singleton.mp hc] at hs
        rw [letIn_session hs]
        simp
  | upgrade session c hconn hconns hc hrequests hcontrol hcommands =>
    refine ⟨by rw [hcontrol, hcommands]; exact hg.replay, ?_, ?_⟩
    · rw [hcommands, hrequests]
      exact hg.full
    · rw [hconns, hrequests]
      refine hg.set_conn hconn ?_
      rcases hc with rfl | rfl <;> simp [Conn.session?]
  | leave session client hconn hconns hrequests hcontrol hcommands =>
    refine ⟨by rw [hcontrol, hcommands]; exact hg.replay, ?_, ?_⟩
    · rw [hcommands, hrequests]
      exact hg.full
    · rw [hconns, hrequests]
      exact hg.set_conn hconn (by simp [Conn.session?])
  | message session client client' hconn hconns hrequests hhandled =>
    have hsessions : ∀ d ∈ g'.conns, ∀ session ∈ d.session?, session.request ∈ g'.requests := by
      rw [hconns, hrequests]
      exact hg.set_conn hconn (by simp [Conn.session?])
    cases hhandled with
    | command msg now hrole hcontrol hcommands =>
      refine ⟨?_, fun cmd hcmd => ?_, hsessions⟩
      · rw [hcontrol, hcommands, hg.replay, Gateway.replay, Gateway.replay, List.foldl_concat]
      · rw [hcommands] at hcmd
        rw [hrequests]
        rcases List.mem_append.mp hcmd with hcmd | hcmd
        · exact hg.full cmd hcmd
        · rw [List.mem_singleton.mp hcmd]
          exact ⟨hrole, hg.sessions _ (List.mem_of_getElem? hconn) session rfl⟩
    | quiet hcontrol hcommands =>
      refine ⟨by rw [hcontrol, hcommands]; exact hg.replay, ?_, hsessions⟩
      rw [hcommands, hrequests]
      exact hg.full
  | rest hconns hrequests hcontrol hcommands =>
    refine ⟨by rw [hcontrol, hcommands]; exact hg.replay, ?_, ?_⟩
    · rw [hcommands, hrequests]
      exact hg.full
    · rw [hconns, hrequests]
      exact hg.sessions

/-! ## Results -/

/-- After any run the runtime pointer and all runtimes are what the commands of full-access
connections made of them, in the order in which they were handled. Each command came in on a
connection whose request passed the check of its origin and presented the full-access token, if
there is one, and not the read-only token. If the two tokens are the same, nobody has full access
and nothing ever changes a runtime. -/
theorem commands_replay (h : Reach (step M) anyStep (new control : Gateway cfg U κ) g) :
    g.server.control = replay M control g.commands
      ∧ (∀ cmd ∈ g.commands, cmd.session.request ∈ g.requests
        ∧ cfg.allowedOrigin U cmd.session.request = true ∧ cfg.FullAccess cmd.session.request)
      ∧ (cfg.authToken ≠ "" → cfg.readOnlyToken = cfg.authToken →
        g.server.control = control) := by
  have hg : g.Inv M control := h.invariant (P := Inv M control)
    ⟨rfl, by simp [new], by simp [new]⟩ fun _ _ _ hg _ hst => hg.step hst
  have hfull : ∀ cmd ∈ g.commands, cmd.session.request ∈ g.requests
      ∧ cfg.allowedOrigin U cmd.session.request = true ∧ cfg.FullAccess cmd.session.request := by
    intro cmd hcmd
    obtain ⟨hrole, hrequest⟩ := hg.full cmd hcmd
    refine ⟨hrequest, cmd.session.allowedOrigin,
      cfg.fullAccess_of_authorized cmd.session.authorized ?_⟩
    rw [← cmd.session.token, ← cmd.session.role]
    exact hrole
  refine ⟨hg.replay, hfull, fun hauth hsame => ?_⟩
  have hnone : g.commands = [] := by
    refine List.eq_nil_iff_forall_not_mem.mpr fun cmd hcmd => ?_
    obtain ⟨-, -, htoken, hnot⟩ := hfull cmd hcmd
    exact hnot (hsame ▸ hauth) ((htoken hauth).trans hsame.symm)
  rw [hg.replay, hnone]
  rfl

end

/-! A server for the two examples below: full access with "secret", read-only with "view". -/

section

/-- Methods that only start and stop. -/
def switchMethods : RuntimeMethods Unit where
  newRuntimeWithOptions t _ _ := ⟨0, true, t, (0, 0), [], {}, .new 10, 0, ()⟩
  start rt := ({ rt with epoch := rt.epoch + 1, stopped := false }, none)
  stop _ rt := ({ rt with stopped := true }, none)
  reset rt := (rt, none)
  spawn _ _ rt := (rt, .ok 1)
  updatePriority _ _ rt := (rt, none)

def twoTokens : AccessConfig where
  maxFibersPerRuntime := 10
  stopTimeout := 0
  readOnlyToken := "view"
  allowedOrigins := []
  authToken := "secret"
  allowTokenInQuery := false
  tokenRevalidationInterval := 1
  maxClients := 2
  messagesPerSecond := 5

def noURLs : URLFunctions := ⟨fun _ => none, fun _ _ => false⟩

def noRuntime : Control Unit :=
  ⟨none, fun _ => switchMethods.newRuntimeWithOptions .fifo 1 1, 0, false, 0⟩

end

/-- A stranger is refused, a full-access connection gets its command through, and a read-only
connection is denied the same. -/
theorem commands_replay_roles :
    ∃ g : Gateway twoTokens noURLs Unit,
      Reach (step switchMethods) anyStep (new noRuntime) g
        ∧ g.requests.length = 3 ∧ g.clientCount = 2
        ∧ g.commands.map (fun cmd => (cmd.session.presentedToken, cmd.msg.type))
          = [("secret", "stop")]
        ∧ g.server.control = replay switchMethods noRuntime g.commands := by
  obtain ⟨g, hg, htest⟩ := Trans.exists_reach_of_exec (step switchMethods)
    (new noRuntime : Gateway twoTokens noURLs Unit)
    [.request {}, .request { authorization := "Bearer secret" },
      .request { authorization := "Bearer view" }, .upgrade 1 true 0, .upgrade 2 true 0,
      .read 1 true (some (some ⟨"stop", fun _ => none⟩)) 0,
      .read 2 true (some (some ⟨"stop", fun _ => none⟩)) 0]
    (fun g => decide (g.requests.length = 3 ∧ g.clientCount = 2
      ∧ g.commands.map (fun cmd => (cmd.session.presentedToken, cmd.msg.type))
        = [("secret", "stop")]))
    (by decide +kernel)
  obtain ⟨hrequests, hcount, hcommands⟩ := of_decide_eq_true htest
  exact ⟨g, hg, hrequests, hcount, hcommands, (commands_replay hg).1⟩

section

variable {M : RuntimeMethods κ} {g g' : Gateway cfg U κ} {i : ConnID}

/-- A connection that is served is served for as long as it can be read from: in no run does the
revalidation of its token close it. -/
theorem revalidation_never_closes {session : Session cfg U} {client : Client}
    (hconn : g.conns[i]? = some (.serving session client))
    (h : Reach (step M) (fun _ l => ∀ tick now, l ≠ .read i tick none now) g g') :
    ∃ client', g'.conns[i]? = some (.serving session client') := by
  refine h.invariant (P := fun t : Gateway cfg U κ => ∃ client', t.conns[i]?
    = some (.serving session client')) ⟨client, hconn⟩ ?_
  rintro t l t' ⟨client₁, ht⟩ hl hst
  have hlt : i < t.conns.length := (List.getElem?_eq_some_iff.mp ht).1
  cases step_moves hst with
  | request r hconns =>
    rw [hconns, List.getElem?_append_left hlt]
    exact ⟨client₁, ht⟩
  | @upgrade j _ _ _ c hj hconns =>
    have hne : j ≠ i := by
      rintro rfl
      rw [ht] at hj
      cases hj
    rw [hconns, List.getElem?_set_ne hne]
    exact ⟨client₁, ht⟩
  | @leave j tick now _ _ _ hconns =>
    have hne : j ≠ i := by
      rintro rfl
      exact hl tick now rfl
    rw [hconns, List.getElem?_set_ne hne]
    exact ⟨client₁, ht⟩
  | @message j _ _ _ session' _ client' hj hconns =>
    by_cases hne : j = i
    · subst hne
      rw [ht] at hj
      cases hj
      rw [hconns, List.getElem?_set_self hlt]
      exact ⟨client', rfl⟩
    · rw [hconns, List.getElem?_set_ne hne]
      exact ⟨client₁, ht⟩
  | rest hconns =>
    rw [hconns]
    exact ⟨client₁, ht⟩

end

/-- The revalidation ticker fires, and the connection goes on. -/
theorem revalidation_never_closes_tick :
    ∃ (g g' : Gateway twoTokens noURLs Unit) (session : Session twoTokens noURLs)
      (client client' : Client), Reach (step switchMethods) anyStep (new noRuntime) g
        ∧ g.step switchMethods (.read 0 true (some none) 0) = some g'
        ∧ g.conns[0]? = some (.serving session client)
        ∧ g'.conns[0]? = some (.serving session client') := by
  obtain ⟨g, hg, htest⟩ := Trans.exists_reach_of_exec (step switchMethods)
    (new noRuntime : Gateway twoTokens noURLs Unit)
    [.request { authorization := "Bearer secret" }, .upgrade 0 true 0]
    (fun g => g.conns[0]?.any Conn.isServing)
    (by decide +kernel)
  obtain ⟨conn, hconn, hserving⟩ := (Option.any_eq_true _ _).mp htest
  cases conn with
  | serving session client =>
    have hstep : g.step switchMethods (.read 0 true (some none) 0)
        = some (g.readStep switchMethods 0 session client true (some none) 0) := by
      simp only [step, hconn]
    obtain ⟨client', hconn'⟩ := revalidation_never_closes hconn
      (.tail .refl (by simp) hstep)
    exact ⟨g, _, session, client, client', hg, hstep, hconn, hconn'⟩
  | _ => cases hserving

end Gateway

end GreenThreads.Web
