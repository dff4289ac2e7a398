import WebTunnel.Device.Keeping
import WebTunnel.Device.Replying
import WebTunnel.Device.Requests

/-! The numbers that requests of tunnel clients are sent on under, and the responses they bring back,
over any order of requests and responses. -/

namespace WebTunnel.Device.Routing
set_option synthInstance.maxSize 10000
open Library.Bytes Library.Lists Library.Routines Library.Routines.Routine Library.Run Function Device.Types Buffers Pool Tunnel Http
open Manager hiding step
open Frames Footprints Keeping Ciphering Writing Requests

/-! What responses are routed by. -/

/-- The connected clients, the numbers of their requests, and the device's counter. -/
structure RoutingTable where
  listClient : List ClientId
  reqSeq : ClientId → Int
  seq : Nat

def routing (w : DevState) : RoutingTable :=
  ⟨w.data.listClient, fun k => (w.data.clients k).reqSeq, w.data.tcpServer.seq⟩

/-- Any state, but with the routing of another. -/
def rerouted (w v : DevState) : DevState :=
  { v with data :=
    { v.data with
      listClient := w.data.listClient
      clients := fun k => { v.data.clients k with reqSeq := (w.data.clients k).reqSeq }
      tcpServer := { v.data.tcpServer with seq := w.data.tcpServer.seq } } }

theorem routing_rerouted (w v : DevState) : routing (rerouted w v) = routing w := rfl

theorem rerouted_of_routing {w v : DevState} (same : routing v = routing w) : rerouted w v = v := by
  obtain ⟨list, numbers, counter⟩ := RoutingTable.mk.inj same
  have clients : (fun k => { v.data.clients k with reqSeq := (w.data.clients k).reqSeq }) = v.data.clients := by
    funext k
    rw [← congrFun numbers k]
  rw [rerouted, clients, ← list, ← counter]

/-! What leaves it as it is. -/

def Routes (r : RoutingTable) (w : DevState) : Prop := routing w = r

/-- A client with this number. -/
class Numbered (number : Int) (client : TcpClientContext) : Prop where
  same : client.reqSeq = number

def aside : Set Part := {part | part ≠ .server ∧ part ≠ .clientList ∧ ∀ k, part ≠ .client k}

section
variable {α : Type} {r : RoutingTable} {k : ClientId} {n : Int} {b : BufId}

instance (client : {client : TcpClientContext // client.reqSeq = n}) :
    Numbered n ⟨line, status, funcRun, pfd, clientFd, bufRead, bufWrite, client.val.reqSeq, idle, headerParsed⟩ :=
  ⟨client.property⟩

theorem Routes.reqSeq {w : DevState} (routes : Routes r w) (k : ClientId) : (w.data.clients k).reqSeq = r.reqSeq k :=
  congrFun (congrArg RoutingTable.reqSeq routes) k

/-- Whatever follows the reading of a client has its number. -/
theorem keeps_routes_next {next : TcpClientContext → DevM α}
    (second : ∀ client : {client : TcpClientContext // client.reqSeq = r.reqSeq k}, Keeps (Routes r) (next client)) :
    Keeps (Routes r) (getClient k >>= next) := by
  refine ⟨fun w routes => ?_⟩
  rw [wp_bind, wp_getClient]
  exact (second ⟨_, routes.reqSeq k⟩).kept w routes

instance (priority := high) keeps_routes_get {next : TcpClientContext → DevM α}
    [second : ∀ client : {client : TcpClientContext // client.reqSeq = r.reqSeq k}, Keeps (Routes r) (next client)] :
    Keeps (Routes r) (getClient k >>= next) := keeps_routes_next second

instance keeps_routes_set (client : TcpClientContext) [own : Numbered (r.reqSeq k) client] :
    Keeps (Routes r) (setClient k client) := by
  refine ⟨fun w routes => ?_⟩
  rw [wp_setClient]
  have numbers : (fun k' => (update w.data.clients k client k').reqSeq) = r.reqSeq := by
    funext k'
    by_cases same : k' = k
    · subst same
      rw [update_self]
      exact own.same
    · rw [update_of_ne same]
      exact routes.reqSeq k'
  rw [Routes, routing] at routes ⊢
  simp only [HttpMgmt.setClient, numbers, ← routes]

instance : Allows aside .prepare := ⟨by simp [aside]⟩
instance : Allows aside .queue := ⟨by simp [aside]⟩
instance : Allows aside .polls := ⟨by simp [aside]⟩
instance (h : BufHead) : Allows aside (.fill h) := ⟨by simp [aside]⟩

instance (priority := low) keeps_routes_aside (code : DevM α) [within : Within aside Set.univ code] :
    Keeps (Routes r) code := by
  refine keeps_of_within within fun w v frame routes => ?_
  have numbers : (fun k => (v.data.clients k).reqSeq) = fun k => (w.data.clients k).reqSeq := by
    funext k
    rw [frame.client k fun member => member.2.2 k rfl]
  rw [Routes, routing, frame.clientList fun member => member.2.1 rfl, numbers, frame.server fun member => member.1 rfl]
  exact routes

instance : Keeps (Routes r) (setClientLine k line) := by
  unfold setClientLine
  infer_instance

instance : Keeps (Routes r) (setClientCurr k curr) := by
  unfold setClientCurr
  infer_instance

instance : Keeps (Routes r) (clientToWrite k) := by
  unfold clientToWrite
  infer_instance

instance : Keeps (Routes r) processTunnelResp := by
  unfold processTunnelResp
  refine keeps_next fun d => ?_
  split <;> infer_instance

instance : Keeps (Routes r) (tcpClientSaveRead k b) := by
  unfold tcpClientSaveRead
  infer_instance

instance : Keeps (Routes r) (clientRequest k) := by
  unfold clientRequest
  infer_instance

instance : Keeps (Routes r) (clientRest k) := by
  unfold clientRest
  infer_instance

instance : Keeps (Routes r) (clientReadBuf k) := by
  unfold clientReadBuf
  refine keeps_routes_next fun client => ?_
  split <;> infer_instance

instance : Keeps (Routes r) (clientLastRead k b) := by
  unfold clientLastRead
  infer_instance

instance : Keeps (Routes r) (clientWritten k) := by
  unfold clientWritten
  infer_instance

instance : Keeps (Routes r) (clientWrote k b n) := by
  unfold clientWrote
  infer_instance

instance : Keeps (Routes r) (clientWriteLoop k count) := by
  induction count with
  | zero => exact keeps_stop _
  | succ count ih =>
    unfold clientWriteLoop
    refine keeps_routes_next fun client => ?_
    split
    · infer_instance
    · refine keeps_next fun info => keeps_next fun _ => keeps_next fun _ => keeps_next fun bytes => keeps_next fun written =>
        keeps_next fun _ => ?_
      split
      · infer_instance
      · refine keeps_next fun status => ?_
        cases status <;> infer_instance

instance : Keeps (Routes r) (tcpClientWrite k) := by
  unfold tcpClientWrite
  refine keeps_routes_next fun client => keeps_next fun _ => ?_
  split
  case h_3 | h_4 =>
    refine keeps_next fun b => keeps_next fun status => ?_
    cases status <;> infer_instance
  all_goals infer_instance

instance (bufInfo : Option BufId) : Keeps (Routes r) (sendEvent bufInfo k) := by
  unfold sendEvent
  infer_instance

instance : Keeps (Routes r) processTunnelReq := by
  unfold processTunnelReq
  infer_instance

end

/-- The number that a request is sent on under, as it lies in its buffer. -/
def wireOf (w : DevState) (b : BufId) : Nat := natBE ((w.data.bufs b).buf.slice 6 2)

/-! A call of a client's coroutine accepts at most one request. -/

/-- The routing is what it was, or what it is after one request more. -/
def Passed (k : ClientId) (r : RoutingTable) (w : DevState) : Prop :=
  Routes r w ∨ ∃ u b, Routes r u ∧ Routes (routing (accept k b u)) w

/-- Code that accepts at most one request of the client. -/
structure AcceptsOnce {α : Type} (k : ClientId) (r : RoutingTable) (code : DevM α) : Prop where
  passed : ∀ w, Routes r w → Wp code (fun _ v => Passed k r v) (fun _ => True) w

section
variable {α β : Type} {r : RoutingTable} {k : ClientId}

theorem acceptsOnce_of_keeps {code : DevM α} (keeps : Keeps (Routes r) code) : AcceptsOnce k r code :=
  ⟨fun w routes => wp_post (keeps.kept w routes) fun _ _ => .inl⟩

theorem acceptsOnce_next {code : DevM α} {next : α → DevM β} [first : Keeps (Routes r) code]
    (second : ∀ a, AcceptsOnce k r (next a)) : AcceptsOnce k r (code >>= next) := by
  refine ⟨fun w routes => ?_⟩
  rw [wp_bind]
  exact wp_post (first.kept w routes) fun a v routes => (second a).passed v routes

theorem acceptsOnce_get {next : TcpClientContext → DevM α}
    (second : ∀ client : {client : TcpClientContext // client.reqSeq = r.reqSeq k}, AcceptsOnce k r (next client)) :
    AcceptsOnce k r (getClient k >>= next) := by
  refine ⟨fun w routes => ?_⟩
  rw [wp_bind, wp_getClient]
  exact (second ⟨_, routes.reqSeq k⟩).passed w routes

/-- What comes behind an accepted request must leave the routing. -/
theorem acceptsOnce_then {code : DevM α} {next : α → DevM β} (first : AcceptsOnce k r code)
    [second : ∀ r a, Keeps (Routes r) (next a)] : AcceptsOnce k r (code >>= next) := by
  refine ⟨fun w routes => ?_⟩
  rw [wp_bind]
  refine wp_post (first.passed w routes) fun a v passed => ?_
  rcases passed with same | ⟨u, b, before, after⟩
  · exact wp_post ((second r a).kept v same) fun _ _ => .inl
  · exact wp_post ((second _ a).kept v after) fun _ _ after => .inr ⟨u, b, before, after⟩

theorem acceptsOnce_parseHeader (b : BufId) : AcceptsOnce k r (clientParseHeader k b) := by
  refine ⟨fun w routes => ?_⟩
  rw [wp_clientParseHeader]
  exact .inr ⟨w, b, routes, rfl⟩

theorem acceptsOnce_received : AcceptsOnce k r (clientReceived k) := by
  rw [clientReceived_eq]
  refine acceptsOnce_next fun client => acceptsOnce_then ?_
  rw [when]
  split
  · refine acceptsOnce_next fun b => acceptsOnce_next fun info => ?_
    rw [when]
    split
    · exact acceptsOnce_parseHeader b
    · exact acceptsOnce_of_keeps inferInstance
  · exact acceptsOnce_of_keeps inferInstance

theorem acceptsOnce_readOnce : AcceptsOnce k r (clientReadOnce k) := by
  rw [clientReadOnce]
  refine acceptsOnce_next fun b => acceptsOnce_next fun info => acceptsOnce_next fun _ => acceptsOnce_next fun got => ?_
  split
  · refine acceptsOnce_next fun _ => acceptsOnce_next fun info => acceptsOnce_next fun _ => acceptsOnce_next fun _ => ?_
    exact acceptsOnce_then acceptsOnce_received
  · exact acceptsOnce_of_keeps inferInstance

theorem acceptsOnce_read : AcceptsOnce k r (tcpClientRead k) := by
  rw [tcpClientRead]
  refine acceptsOnce_get fun client => acceptsOnce_next fun _ => ?_
  split
  · exact acceptsOnce_readOnce
  · exact acceptsOnce_readOnce
  · exact acceptsOnce_of_keeps inferInstance
  · exact acceptsOnce_of_keeps inferInstance

theorem acceptsOnce_runClient : AcceptsOnce k r (runClient k) := by
  rw [runClient]
  refine acceptsOnce_get fun client => ?_
  split
  · exact acceptsOnce_of_keeps inferInstance
  · exact acceptsOnce_read

end

/-! Requests and responses in turn. -/

/-- A request that was sent on: who sent it, the number it had and the one it was given, and how many
were accepted before it. -/
structure Request where
  client : ClientId
  seq : Nat
  wire : Nat
  number : Nat
deriving DecidableEq

/-- The device, and the requests that the server has not answered. -/
structure Track where
  world : DevState
  unanswered : List Request
  accepted : Nat

/-- A client's request was read so far that its header is there, the server's response to a request
was collected, or something happened that is neither. -/
inductive Input
  | request (k : ClientId) (b : BufId)
  | respond (r : Request)
  | elsewhere (v : DevState)

def Track.step (t : Track) : Input → Option Track
  | .request k b =>
    ((clientParseHeader k b).run t.world).toOption.map fun ran =>
      ⟨ran.2, ⟨k, seqOf (plainHeader t.world b), wireOf ran.2 b, t.accepted⟩ :: t.unanswered, t.accepted + 1⟩
  | .respond r =>
    if r ∈ t.unanswered ∧ t.world.data.bufPrepare.seq = r.wire then
      (processTunnelResp.run t.world).toOption.map fun ran => ⟨ran.2, t.unanswered.erase r, t.accepted⟩
    else none
  | .elsewhere v => some { t with world := rerouted t.world v }

def Track.Starts (t : Track) : Prop := t.unanswered = [] ∧ t.accepted = 0

/-- The client is connected, and fewer than 256 requests were accepted since any unanswered one. -/
def Recent (t : Track) : Input → Prop
  | .request k _ => k ∈ t.world.data.listClient ∧ ∀ r ∈ t.unanswered, t.accepted < r.number + 256
  | _ => True

/-- The client's number has eight bits, the client waits for no other response, and no client in front of
it that waits for none still has the number that the request is given. -/
def Fresh (t : Track) : Input → Prop
  | .request k b =>
    seqOf (plainHeader t.world b) < 256 ∧ (∀ r ∈ t.unanswered, r.client ≠ k) ∧
      ∀ k' ∈ t.world.data.listClient.takeWhile (· ≠ k), (∀ r ∈ t.unanswered, r.client ≠ k') →
        (t.world.data.clients k').reqSeq ≠ numbered t.world b
  | _ => True

/-- A response to the request was collected, and there is a buffer for its header. -/
structure Responds (r : Request) (pool pre l : List BufId) (w : DevState) : Prop where
  seq : w.data.bufPrepare.seq = r.wire
  prepare : w.rings.items .prepare = some l
  queue : w.rings.items (.clientWrite r.client) = some pre
  pool : w.rings.items .caches = some pool
  pfd : (w.data.clients r.client).pfd ≠ none

/-- The response is queued for the client of its request alone, behind a header with the client's own number. -/
def Reaches (r : Request) (b : BufId) (free pre l : List BufId) (w : DevState) : Prop :=
  ∃ v, processTunnelResp.run w = .ok (0, v) ∧ Replying.Replied r.client b free pre l w v ∧ wireOf v b = r.seq

/-- The clients that wait for a response have numbers of their own, and every response reaches its client. -/
structure Routed (t : Track) : Prop where
  apart : ∀ r ∈ t.unanswered, ∀ r' ∈ t.unanswered, r.client ≠ r'.client →
    (t.world.data.clients r.client).reqSeq ≠ (t.world.data.clients r'.client).reqSeq
  reaches : ∀ r ∈ t.unanswered, ∀ w b free pre l, routing w = routing t.world → Responds r (b :: free) pre l w →
    Reaches r b free pre l w

/-! Numbers. -/

/-- The client of a number, as responses are routed. -/
def clientOf (w : DevState) (number : Int) : Option ClientId :=
  w.data.listClient.find? fun k => (w.data.clients k).reqSeq = number

section
variable {k : ClientId} {b : BufId} {w v : DevState} {r : Request} {number : Int}

theorem clientOf_of_routing (same : routing v = routing w) (number : Int) : clientOf v number = clientOf w number := by
  obtain ⟨list, numbers, _⟩ := RoutingTable.mk.inj same
  have number' (k : ClientId) : (v.data.clients k).reqSeq = (w.data.clients k).reqSeq := congrFun numbers k
  simp only [clientOf, list, number']

theorem reqSeq_of_clientOf (found : clientOf w number = some k) : (w.data.clients k).reqSeq = number := by
  simpa using List.find?_some found

theorem accept_clients (k : ClientId) (b : BufId) (w : DevState) :
    (fun k' => ((accept k b w).data.clients k').reqSeq) =
      update (fun k' => (w.data.clients k').reqSeq) k (numbered w b : Int) := by
  funext k'
  by_cases same : k' = k
  · subst same
    rw [update_self, accept]
    simp only [HttpMgmt.setClient, update_self]
  · rw [update_of_ne same]
    exact congrArg TcpClientContext.reqSeq (update_of_ne same _ _)

/-- A client that is given another number stays the client of no number but that. -/
theorem clientOf_accept (found : clientOf w number = some k) {k' : ClientId} (other : k ≠ k')
    (apart : (numbered w b : Int) ≠ number) : clientOf (accept k' b w) number = some k := by
  have numbers := congrFun (accept_clients k' b w)
  have still : ((accept k' b w).data.clients k).reqSeq = number := by
    rw [numbers, update_of_ne other, reqSeq_of_clientOf found]
  obtain ⟨front, behind, list, before⟩ := List.find?_eq_some_iff_append.mp found |>.2
  refine List.find?_eq_some_iff_append.mpr ⟨decide_eq_true still, front, behind, list, fun k'' member => ?_⟩
  have unlike := before k'' member
  simp only [Bool.not_eq_eq_eq_not, Bool.not_true, decide_eq_false_iff_not] at unlike ⊢
  rw [numbers]
  by_cases same : k'' = k'
  · rwa [same, update_self]
  · rwa [update_of_ne same]

/-- The new number leads to the client where no one in front of it has that number. -/
theorem clientOf_accept_self (connected : k ∈ w.data.listClient)
    (front : ∀ k' ∈ w.data.listClient.takeWhile (· ≠ k), (w.data.clients k').reqSeq ≠ numbered w b) :
    clientOf (accept k b w) (numbered w b) = some k := by
  have numbers := congrFun (accept_clients k b w)
  have own : ((accept k b w).data.clients k).reqSeq = numbered w b := by rw [numbers, update_self]
  obtain ⟨first, behind, list, before⟩ := List.eq_append_cons_of_mem connected
  have ahead : w.data.listClient.takeWhile (· ≠ k) = first := by
    have others : ∀ k' ∈ first, decide (k' ≠ k) = true := by
      intro k' member
      exact decide_eq_true fun same => before (same ▸ member)
    rw [list, List.takeWhile_append_of_pos others]
    simp
  rw [ahead] at front
  refine List.find?_eq_some_iff_append.mpr ⟨decide_eq_true own, first, behind, list, fun k' member => ?_⟩
  have other : k' ≠ k := fun same => before (same ▸ member)
  simp only [Bool.not_eq_eq_eq_not, Bool.not_true, decide_eq_false_iff_not]
  rw [numbers, update_of_ne other]
  exact front k' member

theorem numbered_eq (small : seqOf (plainHeader w b) < 256) :
    numbered w b = seqOf (plainHeader w b) + 256 * nextTurn w := by
  have byte : seqOf (plainHeader w b) < 2 ^ 8 := small
  have joined := Nat.shiftLeft_add_eq_or_of_lt byte (nextTurn w)
  rw [numbered, Nat.or_comm, ← joined, Nat.shiftLeft_eq]
  omega

theorem nextTurn_lt (w : DevState) : nextTurn w < 256 := Nat.mod_lt _ (by decide)

/-- The buffer holds the number that the request is known by. -/
theorem wireOf_accept (small : seqOf (plainHeader w b) < 256) : wireOf (accept k b w) b = numbered w b := by
  have turn := nextTurn_lt w
  have number := numbered_eq small
  have width : numbered w b < 256 ^ 2 := by omega
  have number16 : numbered w b % 2 ^ 16 = numbered w b := Nat.mod_eq_of_lt width
  have buf : ((accept k b w).data.bufs b).buf = stampedBuf w b := by simp [accept]
  have laid := Mem.slice_write (((w.data.bufs b).buf.write 0 (plainHeader w b)).write 5 (bytesLE 1 httpCTunnelReq)) 6
    (bytesBE 2 (numbered w b % 2 ^ 16))
  rw [bytesBE_length] at laid
  rw [wireOf, buf, stampedBuf, laid, number16, natBE_bytesBE_of_lt width]

/-- The header of a response has the low byte of the request's number. -/
theorem clientHeader_seq {seq turn : Nat} (small : seq < 256) (byte : turn < 256) (len : Int) (type : Nat) :
    natBE (((clientHeader ((seq + 256 * turn : Nat) : Int) len type).drop 6).take 2) = seq := by
  have most : 256 * turn < 256 * 256 := (Nat.mul_lt_mul_left (by decide)).mpr byte
  have low : toUnsigned 32 ((seq + 256 * turn : Nat) : Int) % 256 = seq := by
    unfold toUnsigned
    omega
  have front (magic version type' number : List Byte) (rest : List Byte) (six : (magic ++ version ++ type').length = 6)
      (two : number.length = 2) : ((magic ++ version ++ type' ++ number ++ rest).drop 6).take 2 = number := by
    rw [List.append_assoc _ number, List.drop_left' six, List.take_left' two]
  have width : seq < 256 ^ 2 := by omega
  rw [clientHeader, headerMem, low, List.append_assoc _ (bytesLE 4 _), front _ _ _ _ _ (by simp) (by simp), bytesLE_htons,
    natBE_bytesBE_of_lt width]

end

/-! The steps. -/

section
variable {k : ClientId} {b : BufId} {t u : Track} {r : Request} {first : Nat}

/-- A routine that ends in one state alone has run there. -/
theorem run_of_wp {α : Type} {code : DevM α} {a : α} {v w : DevState}
    (ends : Wp code (fun a' v' => a' = a ∧ v' = v) (fun _ => False) w) : code.run w = .ok (a, v) := by
  obtain ⟨_, _, ran, rfl, rfl⟩ := wp_total.mp ends
  exact ran

theorem run_clientParseHeader (k : ClientId) (b : BufId) (w : DevState) :
    (clientParseHeader k b).run w = .ok ((), accept k b w) := by
  apply run_of_wp
  rw [wp_clientParseHeader]
  exact ⟨rfl, rfl⟩

/-- After one request more. -/
def Track.asked (t : Track) (k : ClientId) (b : BufId) : Track where
  world := accept k b t.world
  unanswered := ⟨k, seqOf (plainHeader t.world b), wireOf (accept k b t.world) b, t.accepted⟩ :: t.unanswered
  accepted := t.accepted + 1

theorem step_request (t : Track) (k : ClientId) (b : BufId) : t.step (.request k b) = some (t.asked k b) := by
  rw [Track.step, run_clientParseHeader]
  rfl

theorem step_elsewhere {v : DevState} (same : routing v = routing t.world) :
    t.step (.elsewhere v) = some { t with world := v } := by
  rw [Track.step, rerouted_of_routing same]

theorem step_respond (moved : t.step (.respond r) = some u) :
    routing u.world = routing t.world ∧ u.unanswered = t.unanswered.erase r ∧ u.accepted = t.accepted := by
  rw [Track.step] at moved
  obtain ⟨_, moved⟩ := Option.ite_none_right_eq_some.mp moved
  have kept : Wp processTunnelResp (fun _ v => routing v = routing t.world) (fun _ => True) t.world :=
    (inferInstance : Keeps (Routes (routing t.world)) processTunnelResp).kept t.world rfl
  cases ran : processTunnelResp.run t.world with
  | error e =>
    rw [ran] at moved
    cases moved
  | ok result =>
    rw [ran] at moved
    cases moved
    exact ⟨wp_of_run ran kept, rfl, rfl⟩

/-! The invariant. -/

/-- `first` is the counter at the start. Every unanswered request has a turn of the counter in its number,
and its number leads to its client. -/
structure Tracked (first : Nat) (t : Track) : Prop where
  counter : t.world.data.tcpServer.seq % 256 = (first + t.accepted) % 256
  older : ∀ r ∈ t.unanswered, r.number < t.accepted
  small : ∀ r ∈ t.unanswered, r.seq < 256
  wire : ∀ r ∈ t.unanswered, r.wire = r.seq + 256 * ((first + 1 + r.number) % 256)
  found : ∀ r ∈ t.unanswered, clientOf t.world r.wire = some r.client

theorem tracked_of_starts (starts : t.Starts) : Tracked t.world.data.tcpServer.seq t := by
  obtain ⟨none, zero⟩ := starts
  constructor
  case counter => rw [zero, Nat.add_zero]
  all_goals
    intro r member
    rw [none] at member
    cases member

/-- Where the routing stays and requests are answered only, so does all that is known. -/
theorem Tracked.of_fewer (tracked : Tracked first t) (same : routing u.world = routing t.world)
    (fewer : ∀ r ∈ u.unanswered, r ∈ t.unanswered) (accepted : u.accepted = t.accepted) : Tracked first u := by
  have counter : u.world.data.tcpServer.seq = t.world.data.tcpServer.seq := congrArg RoutingTable.seq same
  constructor
  case counter =>
    rw [counter, accepted]
    exact tracked.counter
  case older =>
    rw [accepted]
    exact fun r member => tracked.older r (fewer r member)
  case small => exact fun r member => tracked.small r (fewer r member)
  case wire => exact fun r member => tracked.wire r (fewer r member)
  case found =>
    intro r member
    rw [clientOf_of_routing same]
    exact tracked.found r (fewer r member)

theorem Tracked.turn (tracked : Tracked first t) : nextTurn t.world = (first + 1 + t.accepted) % 256 := by
  have counter := tracked.counter
  rw [nextTurn]
  omega

/-- The new number is none that a client waits with. -/
theorem Tracked.unlike (tracked : Tracked first t) (recent : ∀ r ∈ t.unanswered, t.accepted < r.number + 256)
    (small : seqOf (plainHeader t.world b) < 256) (member : r ∈ t.unanswered) : numbered t.world b ≠ r.wire := by
  have number := numbered_eq small
  have turn := tracked.turn
  have wire := tracked.wire r member
  have byte := tracked.small r member
  have older := tracked.older r member
  have near := recent r member
  omega

theorem Tracked.request (tracked : Tracked first t) (recent : Recent t (.request k b)) (fresh : Fresh t (.request k b)) :
    Tracked first (t.asked k b) := by
  obtain ⟨connected, near⟩ := recent
  obtain ⟨small, waits, vacant⟩ := fresh
  have number := numbered_eq small
  have turn := tracked.turn
  constructor
  case counter =>
    change nextTurn t.world % 256 = (first + (t.accepted + 1)) % 256
    omega
  case older =>
    intro r member
    rcases List.mem_cons.mp member with rfl | member
    · exact Nat.lt_succ_self _
    · exact Nat.lt_succ_of_lt (tracked.older r member)
  case small =>
    intro r member
    rcases List.mem_cons.mp member with rfl | member
    · exact small
    · exact tracked.small r member
  case wire =>
    intro r member
    rcases List.mem_cons.mp member with rfl | member
    · simp only
      rw [wireOf_accept small, number, turn]
    · exact tracked.wire r member
  case found =>
    intro r member
    rcases List.mem_cons.mp member with rfl | member
    · simp only
      rw [wireOf_accept small]
      refine clientOf_accept_self connected fun k' ahead => ?_
      by_cases idle : ∀ r ∈ t.unanswered, r.client ≠ k'
      · exact vacant k' ahead idle
      · obtain ⟨r, member, own⟩ : ∃ r ∈ t.unanswered, r.client = k' := by simpa using idle
        have unlike := tracked.unlike near small member
        rw [← own, reqSeq_of_clientOf (tracked.found r member)]
        exact fun same => unlike (Int.ofNat_inj.mp same).symm
    · have unlike := tracked.unlike near small member
      exact clientOf_accept (tracked.found r member) (waits r member) fun same => unlike (Int.ofNat_inj.mp same)

theorem Tracked.step (tracked : Tracked first t) {input : Input} (good : Recent t input ∧ Fresh t input)
    (moved : t.step input = some u) : Tracked first u := by
  cases input with
  | request k b =>
    rw [step_request] at moved
    cases moved
    exact tracked.request good.1 good.2
  | respond r =>
    obtain ⟨same, answered, accepted⟩ := step_respond moved
    refine tracked.of_fewer same (fun r' member => ?_) accepted
    rw [answered] at member
    exact List.mem_of_mem_erase member
  | elsewhere v =>
    cases moved
    exact tracked.of_fewer (routing_rerouted t.world v) (fun _ member => member) rfl

theorem Tracked.reaches (tracked : Tracked first t) (member : r ∈ t.unanswered) {w : DevState} {free pre l : List BufId}
    (same : routing w = routing t.world) (responds : Responds r (b :: free) pre l w) : Reaches r b free pre l w := by
  have found := tracked.found r member
  have byte := tracked.small r member
  have turn : (first + 1 + r.number) % 256 < 256 := Nat.mod_lt _ (by decide)
  rw [← clientOf_of_routing same] at found
  have prepared : Replying.Prepared r.client (b :: free) pre l w := by
    refine ⟨?_, responds.prepare, responds.queue, responds.pool, responds.pfd⟩
    rw [Replying.target, responds.seq]
    exact found
  have wp : Wp processTunnelResp (fun rc v => rc = 0 ∧ Replying.Replied r.client b free pre l w v) (fun _ => False) w :=
    Replying.wp_processTunnelResp prepared fun v replied _ _ _ => ⟨rfl, replied⟩
  obtain ⟨_, v, ran, rfl, replied⟩ := wp_total.mp wp
  refine ⟨v, ran, replied, ?_⟩
  have laid : (v.data.bufs b).buf.slice 0 16 = Replying.header r.client w := by
    rw [replied.header]
    have same := Mem.slice_write (w.data.bufs b).buf 0 (Replying.header r.client w)
    rwa [Replying.header, Replying.clientHeader_length] at same
  have cut : (v.data.bufs b).buf.slice 6 2 = ((Replying.header r.client w).drop 6).take 2 := by
    rw [← laid, slice_drop _ _ (by decide), slice_take _ _ (by decide)]
  rw [wireOf, cut, Replying.header, reqSeq_of_clientOf found, tracked.wire r member]
  exact clientHeader_seq byte turn _ _

theorem Tracked.routed (tracked : Tracked first t) : Routed t := by
  constructor
  case apart =>
    intro r member r' member' other same
    have found := tracked.found r member
    have found' := tracked.found r' member'
    rw [reqSeq_of_clientOf found, reqSeq_of_clientOf found'] at same
    rw [same] at found
    exact other (Option.some.inj (found.symm.trans found'))
  case reaches => exact fun r member w b free pre l same responds => tracked.reaches member same responds

/-- Responses reach their requester in every run in which each client that sends a request has a number of
eight bits, waits for no other response, and has no client in front of it that still has the new number. -/
theorem responses_routed (reached : Reach Track.step (fun t input => Recent t input ∧ Fresh t input) Track.Starts t) :
    Routed t := by
  have start (s : Track) (starts : s.Starts) : ∃ first, Tracked first s := ⟨_, tracked_of_starts starts⟩
  have preserved (s : Track) (input : Input) (u : Track) (tracked : ∃ first, Tracked first s)
      (good : Recent s input ∧ Fresh s input) (moved : s.step input = some u) : ∃ first, Tracked first u := by
    obtain ⟨first, tracked⟩ := tracked
    exact ⟨first, tracked.step good moved⟩
  obtain ⟨first, tracked⟩ : ∃ first, Tracked first t := reached.invariant start preserved
  exact tracked.routed

/-- Whatever a call of a client's coroutine does is made of the steps. -/
theorem steps_of_runClient {status : CallerStatus} {v : DevState} (ran : (runClient k).run t.world = .ok (status, v)) :
    ∃ inputs u, run Track.step t inputs = some u ∧ u.world = v ∧
      (inputs = [.elsewhere v] ∨ ∃ w b, inputs = [.elsewhere w, .request k b, .elsewhere v]) := by
  rcases wp_of_run ran (acceptsOnce_runClient.passed t.world rfl) with same | ⟨w, b, before, after⟩
  · refine ⟨[.elsewhere v], { t with world := v }, ?_, rfl, .inl rfl⟩
    rw [run_cons, step_elsewhere same]
    rfl
  · have first : t.step (.elsewhere w) = some { t with world := w } := step_elsewhere before
    have second := step_request { t with world := w } k b
    have third : (Track.asked { t with world := w } k b).step (.elsewhere v) =
        some { Track.asked { t with world := w } k b with world := v } := step_elsewhere after
    refine ⟨[.elsewhere w, .request k b, .elsewhere v], { Track.asked { t with world := w } k b with world := v }, ?_, rfl,
      .inr ⟨w, b, rfl⟩⟩
    rw [run_cons, first, Option.bind_some, run_cons, second, Option.bind_some, run_cons, third]
    rfl

end

/-! Two clients, with two requests. -/

def chosen (seq : Nat) : List Byte := List.replicate 6 0 ++ bytesBE 2 seq ++ bytesBE 4 16 ++ List.replicate 4 0

/-- A buffer with the header of a request, as it was read. -/
def came (seq : Nat) : BufInfo :=
  ⟨Mem.write (fun _ => 0) 0 (cipherWords (encry (generateKey 0)) 2 (chosen seq)), 16, 0, 0⟩

def twoRequests (first second : Nat) : Track where
  world :=
    ⟨{ ((initData [] [] 80 1024 3 0).setBuf Replying.firstBuf (came first)).setBuf Replying.secondBuf (came second) with
        listClient := [0, 1] }, initRings⟩
  unanswered := []
  accepted := 0

section
variable {first second : Nat}

theorem chosen_length (seq : Nat) : (chosen seq).length = 16 := by simp [chosen]

theorem seqOf_chosen {seq : Nat} (small : seq < 65536) : seqOf (chosen seq) = seq := by
  have front : ((chosen seq).drop 6).take 2 = bytesBE 2 seq := by
    rw [chosen, List.append_assoc, List.append_assoc, List.drop_left' (by simp), List.take_left' (by simp)]
  rw [seqOf, front, natBE_bytesBE_of_lt small]

theorem plainHeader_came {w : DevState} {b : BufId} {seq : Nat} (buf : (w.data.bufs b) = came seq) (minute : w.data.now = 0) :
    plainHeader w b = chosen seq := by
  have length : (cipherWords (encry (generateKey 0)) 2 (chosen seq)).length = 16 := by
    rw [cipherWords_length 2 (chosen_length seq).ge, chosen_length]
  have laid := Mem.slice_write (fun _ => 0) 0 (cipherWords (encry (generateKey 0)) 2 (chosen seq))
  rw [length] at laid
  rw [plainHeader, buf, minute, came, laid]
  exact decry_encryWords _ _ (chosen_length seq).ge

theorem accept_bufs_of_ne {k : ClientId} {b b' : BufId} (w : DevState) (other : b' ≠ b) :
    (accept k b w).data.bufs b' = w.data.bufs b' := by
  rw [accept]
  simp only [setClient_bufs]
  exact setBuf_bufs_of_ne _ _ other

theorem nextTurn_accept (k : ClientId) (b : BufId) (w : DevState) : nextTurn (accept k b w) = (nextTurn w + 1) % 256 := rfl

theorem twoRequests_first (first second : Nat) :
    plainHeader (twoRequests first second).world Replying.firstBuf = chosen first := by
  apply plainHeader_came
  · rfl
  · rfl

/-- The other buffer is as it was. -/
theorem twoRequests_second (first second : Nat) :
    plainHeader ((twoRequests first second).asked 0 Replying.firstBuf).world Replying.secondBuf = chosen second := by
  apply plainHeader_came
  · exact accept_bufs_of_ne _ (by decide)
  · rfl

theorem numbered_first (small : first < 65536) : numbered (twoRequests first second).world Replying.firstBuf = first ||| 1 <<< 8 := by
  have turn : nextTurn (twoRequests first second).world = 1 := rfl
  rw [numbered, twoRequests_first, seqOf_chosen small, turn]

theorem numbered_second (small : second < 65536) :
    numbered ((twoRequests first second).asked 0 Replying.firstBuf).world Replying.secondBuf = second ||| 2 <<< 8 := by
  have turn : nextTurn ((twoRequests first second).asked 0 Replying.firstBuf).world = 2 := nextTurn_accept _ _ _
  rw [numbered, twoRequests_second, seqOf_chosen small, turn]

def bothAsked (first second : Nat) : Track :=
  ((twoRequests first second).asked 0 Replying.firstBuf).asked 1 Replying.secondBuf

theorem recent_first (first second : Nat) : Recent (twoRequests first second) (.request 0 Replying.firstBuf) :=
  ⟨List.mem_cons_self, by simp [twoRequests]⟩

theorem recent_second (first second : Nat) :
    Recent ((twoRequests first second).asked 0 Replying.firstBuf) (.request 1 Replying.secondBuf) := by
  refine ⟨List.mem_cons_of_mem 0 List.mem_cons_self, fun r member => ?_⟩
  obtain rfl := List.mem_singleton.mp member
  exact (by decide : 1 < 0 + 256)

theorem reach_bothAsked {good : Track → Input → Prop} (one : good (twoRequests first second) (.request 0 Replying.firstBuf))
    (two : good ((twoRequests first second).asked 0 Replying.firstBuf) (.request 1 Replying.secondBuf)) :
    Reach Track.step good Track.Starts (bothAsked first second) :=
  .next (.next (.start ⟨rfl, rfl⟩) one (step_request _ _ _)) two (step_request _ _ _)

end

theorem responses_routed_both : Routed (bothAsked 5 5) := by
  apply responses_routed
  apply reach_bothAsked
  · refine ⟨recent_first 5 5, ?_, by simp [twoRequests], ?_⟩
    · rw [twoRequests_first, seqOf_chosen (by decide)]
      decide
    · intro k' ahead
      have list : (twoRequests 5 5).world.data.listClient = [0, 1] := rfl
      rw [list] at ahead
      simp at ahead
  · refine ⟨recent_second 5 5, ?_, fun r member => ?_, fun k' ahead idle => ?_⟩
    · rw [twoRequests_second, seqOf_chosen (by decide)]
      decide
    · obtain rfl := List.mem_singleton.mp member
      decide
    · have list : ((twoRequests 5 5).asked 0 Replying.firstBuf).world.data.listClient = [0, 1] := rfl
      rw [list] at ahead
      have other : k' = 0 := by simpa using ahead
      exact absurd other.symm (idle _ List.mem_cons_self)

/-- Clients that choose 0x300 and 0x100 get the same number. -/
theorem number_given_twice : ¬ ∀ t, Reach Track.step Recent Track.Starts t → Routed t := by
  intro all
  have routed := all _ (reach_bothAsked (recent_first 768 256) (recent_second 768 256))
  have numbers (k : ClientId) :=
    congrFun (accept_clients 1 Replying.secondBuf ((twoRequests 768 256).asked 0 Replying.firstBuf).world) k
  have numbers' (k : ClientId) := congrFun (accept_clients 0 Replying.firstBuf (twoRequests 768 256).world) k
  refine routed.apart _ List.mem_cons_self _ (List.mem_cons_of_mem _ List.mem_cons_self) (by decide) ?_
  have second : ((bothAsked 768 256).world.data.clients 1).reqSeq = 768 := by
    refine (numbers 1).trans ?_
    rw [update_self, numbered_second (by decide)]
    decide
  have first : ((bothAsked 768 256).world.data.clients 0).reqSeq = 768 := by
    refine (numbers 0).trans ?_
    rw [update_of_ne (by decide)]
    refine (numbers' 0).trans ?_
    rw [update_self, numbered_first (by decide)]
    decide
  exact second.trans first.symm

end WebTunnel.Device.Routing
