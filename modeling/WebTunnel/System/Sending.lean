import WebTunnel.Device.Feeding
import WebTunnel.Library.Stringify
import WebTunnel.System.Relaying

/-! What the local socket sends to a host of the LAN, over the local proxy, the server and the
device. -/

namespace WebTunnel.System.Sending
open Library.Bytes Library.JavaScript Library.Json Library.Program Library.Stringify Library.Run Device.Types Device.Buffers Device.Manager
open Device.Keeping Device.Receiving Device.Writing Device.Resuming Device.Feeding Server.Wire Server.Types Server.Sessions Server.Events Proxy.Service
open Device.Stranding (AllServed served_at_start)
open Forwarding (openZero)
open Relaying (router openServer)

/-- The proxy of a local connection, the server and the device, with what is on the way between them,
and all that came from the local socket. -/
structure Tunnel where
  proxy : ProxyService
  texts : List Text
  server : ServerState
  frames : List (List Byte)
  device : DevState
  received : List Byte

/-- The proxy takes bytes of the local socket, or a message of the server; the server takes a text, or
something else happens there; the device takes the next bytes of a frame, or does anything else. -/
inductive Move where
  | socket (bytes : List Byte)
  | message (seq : Nat) (type message : Text)
  | deliver
  | happen (e : Server.Events.Event)
  | fragment (size : Nat) (now : Int) (replies : List Reply)
  | work (o : Occasion)

/-- The text that is sent for a message of the proxy. -/
def objectText (seq : Nat) (type message : Text) : Text :=
  stringify [("seq".toList, .num seq), ("type".toList, .str type), ("message".toList, .str message)]

def textOf : Proxy.Service.Output → Option Text
  | .send (.object seq type message) => some (objectText seq type message)
  | .send (.text message) => some message
  | _ => none

/-- The frames that the server sent to a device between two states. -/
def framesTo (c : ConnId) (s t : ServerState) : List (List Byte) :=
  (sentSince s t).filterMap fun
    | .sendBytes c' bytes => if c' = c then some bytes else none
    | _ => none

section
variable (f : FwdId) (seq : Nat) (c browser : ConnId) (args : Args)

def Tunnel.pass (x : Tunnel) (p : ProxyService) : Tunnel :=
  { x with proxy := p, texts := x.texts ++ (p.out.drop x.proxy.out.length).filterMap textOf }

def Tunnel.serve (x : Tunnel) (e : Server.Events.Event) (texts : List Text) : Option Tunnel :=
  (Server.Events.step x.server e).map fun t =>
    { x with server := t, texts := texts, frames := x.frames ++ framesTo c x.server t }

/-- What is left of the frames when some bytes of the first were taken. -/
def leftover (frame : List Byte) (rest : List (List Byte)) : List (List Byte) := if frame = [] then rest else frame :: rest

def move (x : Tunnel) : Move → Option Tunnel
  | .socket bytes => some { x.pass (x.proxy.onData bytes) with received := x.received ++ bytes }
  | .message seq type message => some (x.pass (x.proxy.onMessage args seq type message))
  | .deliver =>
    match x.texts with
    | [] => none
    | text :: rest => x.serve c (.utf8 browser text) rest
  | .happen e => x.serve c e x.texts
  | .fragment size now replies =>
    match x.frames with
    | [] => none
    | frame :: rest =>
      (Device.Manager.step x.device ⟨.receive (frame.take size), now, replies⟩).map fun v =>
        { x with device := v, frames := leftover (frame.drop size) rest }
  | .work o => (Device.Manager.step x.device o).map fun v => { x with device := v }

end

/-- A frame with a payload that the device takes. -/
structure Message where
  type : Nat
  seq : Nat
  payload : List Byte
  byte : type < 256
  short : seq < 65536
  full : payload ≠ []
  allowed : payload.length + httpCHeaderLen ≤ httpInMax

def Message.bytes (m : Message) : List Byte := headerBytes m.type m.seq (m.payload.length + httpCHeaderLen) ++ m.payload

/-- The frame has data for the session's forward. -/
def Message.Own (seq : Nat) (m : Message) : Prop := m.type = httpCForwardReq ∧ m.seq = seq

instance (seq : Nat) (m : Message) : Decidable (m.Own seq) := inferInstanceAs (Decidable (_ ∧ _))

/-- The bytes for the session's forward. -/
def Message.data (seq : Nat) (m : Message) : List Byte := if m.Own seq then m.payload else []

/-- The browser's connection is open, its session is that of the forward, and the user's current device
is the one with the forward. -/
structure Speaks (seq : Nat) (c browser : ConnId) (s : ServerState) : Prop where
  speaks : ∃ conn username device mgr, s.conns browser = some conn ∧ conn.isOpen = true ∧ conn.url ≠ wscam ∧
    conn.sessUsername = some username ∧ conn.sessDevicename = some device ∧ s.userMap (.str username) = some mgr ∧
    conn.seq = some seq ∧ mgr.getCurrConn = some (.conn c)

/-- The buffers that the parser has saved are read from their beginning. -/
def Unread (w : DevState) : Prop := ∃ saved, w.rings.items .prepare = some saved ∧ ∀ b ∈ saved, (w.data.bufs b).start = 0

/-- What the device does for others leaves the forward as it is, and nothing half read with the parser. -/
structure Spares (f : FwdId) (seq : Nat) (w v : DevState) : Prop where
  kept : Kept f w v
  serves : Serves f seq w.data → Serves f seq v.data
  unread : Unread w → Unread v

/-- The forward is called by the event loop to write, and its socket takes bytes or is to be asked again. -/
def Writes (f : FwdId) (w : DevState) (o : Occasion) : Prop :=
  ∃ slot, o.event = .service slot ∧ Turn f slot w ∧
    ∀ l, w.rings.items (.fwdWrite f) = some l → Fair (offered (.forward f) w.data l) o.replies

/-- The session stays open, requests are not too long, and others leave the forward alone. -/
def Good (f : FwdId) (seq : Nat) (c browser : ConnId) (x : Tunnel) : Move → Prop
  | .socket bytes => bytes ≠ [] ∧ bytes.length + httpCHeaderLen ≤ httpInMax
  | .message _ type _ => type ≠ handshake ∧ x.proxy.buffers.flatten.length + httpCHeaderLen ≤ httpInMax
  | .deliver => Speaks seq c browser x.server
  | .happen e => ∀ t, Server.Events.step x.server e = some t →
      ∃ others : List Message, framesTo c x.server t = others.map Message.bytes ∧ ∀ m ∈ others, ¬ m.Own seq
  | .fragment size now replies => 0 < size ∧ size < httpBufSize ∧ (x.device.data.syncPrepare = false → httpCHeaderLen ≤ size) ∧
      Provided x.device ∧ ∀ frame ∈ x.frames.head?, frame.length ≤ size → heading x.device frame ≠ some (httpCForwardReq, seq) →
        ∀ v, Device.Manager.step x.device ⟨.receive (frame.take size), now, replies⟩ = some v → Spares f seq x.device v
  | .work o => Writes f x.device o ∨ ∀ v, Device.Manager.step x.device o = some v → Spares f seq x.device v ∧ Parked x.device v

/-- A move on the way from the local socket to the host. -/
def Onward (f : FwdId) (seq : Nat) (x : Tunnel) : Move → Prop
  | .socket _ | .message _ _ _ => True
  | .deliver => x.texts ≠ []
  | .happen _ => False
  | .fragment size _ _ => ∃ frame ∈ x.frames.head?, frame.length ≤ size → heading x.device frame = some (httpCForwardReq, seq)
  | .work o => Writes f x.device o

/-- The session is open, its forward is connected, and nothing has come from the local socket. -/
structure Begins (f : FwdId) (seq : Nat) (x : Tunnel) : Prop where
  device : Reach Device.Manager.step (fun _ _ => True) Device.Manager.Starts x.device
  serves : Serves f seq x.device.data
  resting : Resting f x.device
  idle : Idle x.device
  saved : x.device.rings.items .prepare = some []
  unwritten : written (.forward f) x.device.data.acts = []
  short : seq < 65536
  opened : x.proxy.theSeq = seq
  buffers : x.proxy.buffers = []
  texts : x.texts = []
  frames : x.frames = []
  received : x.received = []

/-- Nothing is kept by the proxy, sent to the server or the device, or queued for the forward. -/
structure Through (f : FwdId) (x : Tunnel) : Prop where
  buffers : x.proxy.buffers = []
  texts : x.texts = []
  frames : x.frames = []
  queue : x.device.rings.items (.fwdWrite f) = some []

/-! One request on the server. -/

section
variable {seq : Nat} {c browser : ConnId} {s t : ServerState} {d : List Byte}

def requestText (seq : Nat) (d : List Byte) : Text := objectText seq request (encodeBase64 d)

theorem parse_objectText (seq : Nat) (type message : Text) : ∃ obj, parse (objectText seq type message) = .ok obj ∧
    property obj "seq".toList = .ok (.num ⟨false, seq, 0⟩) ∧ property obj "type".toList = .ok (.str type) ∧
    property obj "message".toList = .ok (.str message) := by
  refine ⟨_, parse_stringify _, ?_, ?_, ?_⟩ <;> rfl

theorem createReq_request (short : seq < 65536) (fits : d.length + httpCHeaderLen < 2 ^ 32) :
    createReq [d] httpCForwardReq seq = .ok (headerBytes httpCForwardReq seq (d.length + httpCHeaderLen) ++ d) := by
  have length : frameLength [d] = d.length + httpCHeaderLen := by
    rw [frameLength, List.map_singleton, List.sum_singleton]
    exact Nat.add_comm _ _
  rw [createReq_of_lt (by decide) short (by rwa [length]), length, List.flatten_singleton]

theorem bind_of_ok {ε α β : Type} {x : Except ε α} {a : α} (returns : x = .ok a) (f : α → Except ε β) : (x >>= f) = f a := by
  rw [returns]
  rfl

/-- A message that does not open a forward is sent as the bytes it has. -/
theorem forwardRequest_data {obj type message : JsVal} (read : property obj "type".toList = .ok type)
    (other : looseEqText type "openning".toList = .ok false) (found : property obj "message".toList = .ok message)
    (bytes : bufferFrom message = .ok d) : forwardRequest seq obj = createReq [d] httpCForwardReq seq := by
  rw [forwardRequest, bind_of_ok read, bind_of_ok other, bind_of_ok found, if_neg (by decide), bind_of_ok bytes]
  rfl

/-- A whole number is equal to itself. -/
theorem equalsNat_self (n : Nat) : Decimal.equalsNat ⟨false, n, 0⟩ n = true := by
  have whole : n * 10 ^ (0 : Int).toNat = n := Nat.mul_one n
  have least (shift bound : Nat) : Decimal.absGe ⟨false, n, 0⟩ shift bound = decide (bound ≤ n * 2 ^ shift) := by
    rw [Decimal.absGe, if_pos le_rfl, whole]
  have most (shift bound : Nat) : Decimal.absLe ⟨false, n, 0⟩ shift bound = decide (n * 2 ^ shift ≤ bound) := by
    rw [Decimal.absLe, if_pos le_rfl, whole]
  simp only [Decimal.equalsNat, least, most]
  split
  next zero => rw [zero, Nat.zero_mul, decide_eq_true (Nat.zero_le 1)]
  next =>
    rw [decide_eq_true (Nat.sub_le _ _), decide_eq_true (Nat.le_add_right _ _)]
    rfl

theorem looseEqNat_seq (seq : Nat) : looseEqNat (.num ⟨false, seq, 0⟩) seq = .ok true :=
  congrArg Except.ok (equalsNat_self seq)

/-- The server sends the data of a request to the user's current device. -/
theorem step_requestText (speaks : Speaks seq c browser s) (short : seq < 65536) (fits : d.length + httpCHeaderLen < 2 ^ 32) :
    ∃ t, Server.Events.step s (.utf8 browser (requestText seq d)) = some t ∧
      framesTo c s t = [headerBytes httpCForwardReq seq (d.length + httpCHeaderLen) ++ d] := by
  obtain ⟨conn, username, device, mgr, found, isOpen, isText, session, selected, known, opened, current⟩ := speaks
  obtain ⟨obj, parsed, named, type, message⟩ := parse_objectText seq request (encodeBase64 d)
  have other : looseEqText (.str request) "openning".toList = .ok false := by decide
  have data : bufferFrom (.str (encodeBase64 d)) = .ok d := congrArg Except.ok (decodeBase64_encodeBase64 d)
  have built := (forwardRequest_data type other message data).trans (createReq_request short fits)
  have sends : Wp (textProcess browser (requestText seq d))
      (fun _ t => t = s.write [.sendBytes c (headerBytes httpCForwardReq seq (d.length + httpCHeaderLen) ++ d)]) (fun _ => False) s := by
    rw [textProcess, wp_bind, wp_getConn_of_found found]
    simp only [session, selected, opened, wp_bind, wp_get, known]
    rw [requestText, wp_liftJs_of_ok parsed, wp_liftJs_of_ok named, wp_liftJs_of_ok (looseEqNat_seq seq)]
    simp only [not_true_eq_false, if_false, current, wp_bind]
    rw [wp_liftJs_of_ok built]
    simp
  obtain ⟨t, took, rfl⟩ := step_of_wp (e := .utf8 browser (requestText seq d)) ((wp_onUtf8_text found isText).mpr sends)
  refine ⟨_, took, ?_⟩
  rw [framesTo, sentSince_append, List.filterMap_cons]
  simp

end

/-! The frames on the way to the device. -/

/-- The first frame may have been begun. -/
inductive Flying : List Message → List (List Byte) → DevState → Prop
  | none {w : DevState} : Idle w → Flying [] [] w
  | some {m : Message} {rest : List Message} {left : List Byte} {w : DevState} : Awaits m.type m.seq m.payload left w →
      Flying (m :: rest) (left :: rest.map Message.bytes) w

section
variable {ms : List Message} {frames : List (List Byte)} {w v : DevState}

theorem flying_of_idle (idle : Idle w) (ms : List Message) : Flying ms (ms.map Message.bytes) w := by
  cases ms with
  | nil => exact .none idle
  | cons m rest => exact .some (.whole idle)

theorem Flying.parked (flying : Flying ms frames w) (parked : Parked w v) : Flying ms frames v := by
  cases flying with
  | none idle => exact .none (parked.idle idle)
  | some awaits => exact .some (parked.awaits awaits)

theorem Flying.awaits (flying : Flying ms frames w) : ∃ type seq payload rest, Awaits type seq payload rest w := by
  cases flying with
  | none idle => exact ⟨0, 0, [], _, .whole idle⟩
  | some awaits => exact ⟨_, _, _, _, awaits⟩

theorem Flying.append (flying : Flying ms frames w) (more : List Message) :
    Flying (ms ++ more) (frames ++ more.map Message.bytes) w := by
  cases flying with
  | none idle => exact flying_of_idle idle more
  | @some m rest left _ awaits =>
    rw [List.cons_append, List.cons_append, ← List.map_append]
    exact .some awaits

end

/-! The way from the local socket to the host. -/

/-- What came from the local socket was written by the forward, or is on its way, in order. -/
structure Passing (f : FwdId) (seq : Nat) (queue : List Byte) (ms : List Message) (requests : List (List Byte)) (x : Tunnel) : Prop where
  short : seq < 65536
  upstream : Upstream f seq queue x.device
  flying : Flying ms x.frames x.device
  texts : x.texts = requests.map (requestText seq)
  fits : ∀ d ∈ requests, d ≠ [] ∧ d.length + httpCHeaderLen ≤ httpInMax
  opened : x.proxy.theSeq = seq
  kept : ∀ d ∈ x.proxy.buffers, d ≠ []
  flushed : x.proxy.connected = true → x.proxy.buffers = []
  whole : written (.forward f) x.device.data.acts ++ (queue ++ (ms.flatMap (Message.data seq) ++
    (requests.flatten ++ x.proxy.buffers.flatten))) = x.received

/-- Some of it may be anywhere on the way. -/
def Passes (f : FwdId) (seq : Nat) (x : Tunnel) : Prop := ∃ queue ms requests, Passing f seq queue ms requests x

section
variable {f : FwdId} {seq : Nat} {c browser : ConnId} {args : Args} {x y : Tunnel} {queue d bytes received : List Byte} {m : Message}
  {ms rest : List Message} {requests : List (List Byte)} {p : ProxyService} {outputs : List Proxy.Service.Output}

/-- What the proxy does with what it has. -/
theorem Passing.pass (more : List (List Byte)) (passing : Passing f seq queue ms requests x)
    (out : p.out = x.proxy.out ++ outputs) (sent : outputs.filterMap textOf = more.map (requestText seq))
    (fits : ∀ d ∈ more, d ≠ [] ∧ d.length + httpCHeaderLen ≤ httpInMax) (opened : p.theSeq = x.proxy.theSeq)
    (kept : ∀ d ∈ p.buffers, d ≠ []) (flushed : p.connected = true → p.buffers = [])
    (same : more.flatten ++ p.buffers.flatten = x.proxy.buffers.flatten ++ bytes) (all : x.received ++ bytes = received) :
    Passing f seq queue ms (requests ++ more) { x.pass p with received := received } := by
  constructor
  case short => exact passing.short
  case upstream => exact passing.upstream
  case flying => exact passing.flying
  case texts =>
    rw [Tunnel.pass, out, List.drop_left, passing.texts, sent, List.map_append]
  case fits =>
    intro d member
    rcases List.mem_append.mp member with before | new
    · exact passing.fits d before
    · exact fits d new
  case opened => exact opened.trans passing.opened
  case kept => exact kept
  case flushed => exact flushed
  case whole =>
    have moved : requests.flatten ++ x.proxy.buffers.flatten ++ bytes = (requests ++ more).flatten ++ p.buffers.flatten := by
      rw [List.append_assoc, ← same, List.flatten_append, List.append_assoc]
    calc written (.forward f) x.device.data.acts ++ (queue ++ (ms.flatMap (Message.data seq) ++
          ((requests ++ more).flatten ++ p.buffers.flatten)))
      _ = (written (.forward f) x.device.data.acts ++ (queue ++ (ms.flatMap (Message.data seq) ++
          (requests.flatten ++ x.proxy.buffers.flatten)))) ++ bytes := by
        rw [← moved]
        simp only [List.append_assoc]
      _ = received := by rw [passing.whole, all]

theorem textOf_sendRequest (seq : Nat) (bytes : List Byte) : textOf (sendRequest seq bytes) = some (requestText seq bytes) := rfl

theorem Passing.onData (passing : Passing f seq queue ms requests x) (some_ : d ≠ []) (fits : d.length + httpCHeaderLen ≤ httpInMax) :
    Passes f seq { x.pass (x.proxy.onData d) with received := x.received ++ d } := by
  rw [ProxyService.onData]
  split
  next connected =>
    have empty := passing.flushed connected
    refine ⟨queue, ms, _, passing.pass [d] rfl ?_ (by simp [some_, fits]) rfl passing.kept passing.flushed ?_ rfl⟩
    · rw [passing.opened, List.filterMap_cons_some (textOf_sendRequest seq d)]
      rfl
    · change _ ++ x.proxy.buffers.flatten = _
      rw [empty]
      simp
  next waiting =>
    refine ⟨queue, ms, _, passing.pass [] (List.append_nil _).symm rfl (by simp) rfl ?_ ?_ ?_ rfl⟩
    · intro l member
      rcases List.mem_append.mp member with before | new
      · exact passing.kept l before
      · rwa [List.mem_singleton.mp new]
    · exact fun connected => absurd connected waiting
    · simp

/-- With a message of the server, what was kept is sent. -/
theorem Passing.flush (passing : Passing f seq queue ms requests x)
    (fits : x.proxy.buffers.flatten.length + httpCHeaderLen ≤ httpInMax) (quiet : outputs.filterMap textOf = []) :
    Passes f seq (x.pass (x.proxy.flush.emit outputs)) := by
  have none : ∀ d ∈ ([] : List (List Byte)), d ≠ [] ∧ d.length + httpCHeaderLen ≤ httpInMax := by simp
  have came := List.append_nil x.received
  rw [ProxyService.flush]
  split
  next connected =>
    exact ⟨queue, ms, _, passing.pass (p := x.proxy.emit outputs) [] rfl quiet none rfl passing.kept passing.flushed
      (List.append_nil _).symm came⟩
  next waiting =>
    split
    next some_ =>
      have full : x.proxy.buffers.flatten ≠ [] := by
        obtain ⟨d, member⟩ := List.exists_mem_of_ne_nil _ some_
        exact fun empty => passing.kept d member (List.flatten_eq_nil_iff.mp empty d member)
      let p : ProxyService := { x.proxy.emit [sendRequest x.proxy.theSeq x.proxy.buffers.flatten] with buffers := [], connected := true }
      have sent : (sendRequest x.proxy.theSeq x.proxy.buffers.flatten :: outputs).filterMap textOf =
          [x.proxy.buffers.flatten].map (requestText seq) := by
        rw [passing.opened, List.filterMap_cons_some (textOf_sendRequest seq _), quiet]
        rfl
      have fits' : ∀ d ∈ [x.proxy.buffers.flatten], d ≠ [] ∧ d.length + httpCHeaderLen ≤ httpInMax := by
        intro d member
        rw [List.mem_singleton.mp member]
        exact ⟨full, fits⟩
      exact ⟨queue, ms, _, passing.pass (p := p.emit outputs) [x.proxy.buffers.flatten] (List.append_assoc _ _ _) sent fits' rfl (List.forall_mem_nil _)
        (fun _ => rfl) (by rw [List.flatten_singleton]; rfl) came⟩
    next empty =>
      let p : ProxyService := { x.proxy with connected := true }
      exact ⟨queue, ms, _, passing.pass (p := p.emit outputs) [] rfl quiet none rfl passing.kept (fun _ => not_not.mp empty)
        (List.append_nil _).symm came⟩

theorem Passing.onMessage {type message : Text} {used : Nat} (passing : Passing f seq queue ms requests x) (other : type ≠ handshake)
    (fits : x.proxy.buffers.flatten.length + httpCHeaderLen ≤ httpInMax) :
    Passes f seq (x.pass (x.proxy.onMessage args used type message)) := by
  rw [ProxyService.onMessage, if_neg other]
  simp only
  split
  · exact passing.flush fits rfl
  · exact passing.flush fits rfl

/-- What happens on the server may send frames for others. -/
theorem Passing.serve {t : ServerState} {others : List Message} {texts : List Text} (more : List (List Byte)) {left : List (List Byte)}
    (passing : Passing f seq queue ms requests x) (frames : framesTo c x.server t = others.map Message.bytes)
    (split : requests = more ++ left) (remain : texts = left.map (requestText seq))
    (same : others.flatMap (Message.data seq) = more.flatten) :
    Passing f seq queue (ms ++ others) left
      { x with server := t, texts := texts, frames := x.frames ++ framesTo c x.server t } := by
  constructor
  case short => exact passing.short
  case upstream => exact passing.upstream
  case flying =>
    rw [frames]
    exact passing.flying.append others
  case texts => exact remain
  case fits =>
    intro d member
    exact passing.fits d (split ▸ List.mem_append_right _ member)
  case opened => exact passing.opened
  case kept => exact passing.kept
  case flushed => exact passing.flushed
  case whole =>
    change _ = x.received
    rw [← passing.whole, split, List.flatMap_append, same, List.flatten_append]
    simp only [List.append_assoc]

/-- What the device does with what it has. -/
theorem Passing.device {v : DevState} {queue' : List Byte} {ms' : List Message} {frames : List (List Byte)}
    (passing : Passing f seq queue ms requests x) (upstream : Upstream f seq queue' v) (flying : Flying ms' frames v)
    (same : written (.forward f) v.data.acts ++ (queue' ++ ms'.flatMap (Message.data seq)) =
      written (.forward f) x.device.data.acts ++ (queue ++ ms.flatMap (Message.data seq))) :
    Passing f seq queue' ms' requests { x with device := v, frames := frames } := by
  refine ⟨passing.short, upstream, flying, passing.texts, passing.fits, passing.opened, passing.kept, passing.flushed, ?_⟩
  have whole := congrArg (· ++ (requests.flatten ++ x.proxy.buffers.flatten)) same
  simp only [List.append_assoc] at whole
  exact whole.trans passing.whole

theorem upstream_of_spares {v : DevState} (upstream : Upstream f seq queue x.device) {o : Occasion}
    (spares : Spares f seq x.device v) (moved : Device.Manager.step x.device o = some v) : Upstream f seq queue v :=
  ⟨step_keeps upstream.all (allowed_always x.device o) moved, spares.serves upstream.serves, upstream.feeds.kept spares.kept,
    spares.unread upstream.zeroed⟩

theorem data_of_own (own : m.Own seq) : m.data seq = m.payload := if_pos own

theorem data_of_other (other : ¬ m.Own seq) : m.data seq = [] := if_neg other

/-- The next bytes of a frame come, and they do not end a frame of others. -/
theorem Passing.fragment {left : List Byte} {frames : List (List Byte)} {size : Nat} (now : Int) (replies : List Reply)
    (passing : Passing f seq queue ms requests x) (next : x.frames = left :: frames) (some_ : 0 < size) (small : size < httpBufSize)
    (begins : x.device.data.syncPrepare = false → httpCHeaderLen ≤ size) (provided : Provided x.device)
    (onward : left.length ≤ size → heading x.device left = some (httpCForwardReq, seq)) :
    ∃ v, Device.Manager.step x.device ⟨.receive (left.take size), now, replies⟩ = some v ∧
      Passes f seq { x with device := v, frames := leftover (left.drop size) frames } := by
  have flying := passing.flying
  rw [next] at flying
  cases flying with
  | @some m rest _ _ awaits =>
    obtain ⟨more, long⟩ := awaits.some_left
    have taken : left.take size ≠ [] := by
      intro none
      rcases List.take_eq_nil_iff.mp none with zero | empty
      · omega
      · exact more empty
    have length := List.length_take (i := size) (l := left)
    have begins' : x.device.data.syncPrepare = false → httpCHeaderLen ≤ (left.take size).length := by
      intro sync
      rw [length]
      exact Nat.le_min.mpr ⟨begins sync, long sync⟩
    have small' : (left.take size).length < httpBufSize := by omega
    by_cases last : left.length ≤ size
    · have own := onward last
      rw [awaits.heading m.byte m.short m.allowed, Option.some.injEq, Prod.mk.injEq] at own
      have all := List.take_of_length_le last
      rw [all] at taken small' begins' ⊢
      obtain ⟨v, moved, upstream, idle, same⟩ := step_receive_last now replies passing.upstream
        (own.2 ▸ m.short) m.full m.allowed (own.1 ▸ own.2 ▸ awaits) provided taken small' begins'
      rw [List.drop_of_length_le last, leftover, if_pos rfl]
      refine ⟨v, moved, _, rest, requests, passing.device upstream (flying_of_idle idle rest) ?_⟩
      rw [same, List.flatMap_cons, data_of_own own, List.append_assoc]
    · have rest_ : left.drop size ≠ [] := fun none => last (List.drop_eq_nil_iff.mp none)
      have cut : Awaits m.type m.seq m.payload (left.take size ++ left.drop size) x.device := by
        rwa [List.take_append_drop]
      obtain ⟨v, moved, upstream, awaits', same⟩ := step_receive_part now replies passing.upstream m.byte m.short
        m.full m.allowed cut provided taken small' begins' rest_
      rw [leftover, if_neg rest_]
      refine ⟨v, moved, queue, m :: rest, requests, passing.device upstream (.some awaits') ?_⟩
      rw [same]

/-- The last bytes of a frame for others come. -/
theorem Passing.other {left : List Byte} {frames : List (List Byte)} {size : Nat} {now : Int} {replies : List Reply} {v : DevState}
    (passing : Passing f seq queue ms requests x) (next : x.frames = left :: frames) (small : size < httpBufSize)
    (provided : Provided x.device) (last : left.length ≤ size)
    (other : heading x.device left ≠ some (httpCForwardReq, seq))
    (moved : Device.Manager.step x.device ⟨.receive (left.take size), now, replies⟩ = some v) (spares : Spares f seq x.device v) :
    Passes f seq { x with device := v, frames := leftover (left.drop size) frames } := by
  have flying := passing.flying
  rw [next] at flying
  cases flying with
  | @some m rest _ _ awaits =>
    have upstream := upstream_of_spares passing.upstream spares moved
    obtain ⟨more, long⟩ := awaits.some_left
    rw [awaits.heading m.byte m.short m.allowed] at other
    have foreign : ¬ m.Own seq := by
      rintro ⟨type, own⟩
      rw [type, own] at other
      exact other rfl
    rw [List.take_of_length_le last] at moved
    obtain ⟨sync, curr⟩ := step_receive_end passing.upstream m.byte m.short m.full m.allowed awaits provided more (by omega) long moved
    obtain ⟨saved, hangs, _⟩ := upstream.zeroed
    have idle : Idle v := ⟨sync, curr, ⟨saved, hangs⟩, spares.kept.pool⟩
    rw [List.drop_of_length_le last, leftover, if_pos rfl]
    refine ⟨queue, rest, requests, passing.device upstream (flying_of_idle idle rest) ?_⟩
    rw [spares.kept.written, List.flatMap_cons, data_of_other foreign, List.nil_append]

/-- The forward is called to write. -/
theorem Passing.writes {o : Occasion} (passing : Passing f seq queue ms requests x) (writes : Writes f x.device o) :
    ∃ v, Device.Manager.step x.device o = some v ∧ Passes f seq { x with device := v } := by
  obtain ⟨event, now, replies⟩ := o
  obtain ⟨slot, rfl, turn, fair⟩ := writes
  obtain ⟨type, other, payload, rest, awaits⟩ := passing.flying.awaits
  obtain ⟨v, moved, parked, sent, left, split, upstream, written⟩ :=
    step_service now passing.upstream awaits turn fair
  refine ⟨v, moved, left, ms, requests, passing.device upstream (passing.flying.parked parked) ?_⟩
  rw [written, ← split]
  simp only [List.append_assoc]

/-- A request comes to the server. -/
theorem Passing.deliver {text : Text} {texts : List Text} (passing : Passing f seq queue ms requests x) (next : x.texts = text :: texts)
    (speaks : Speaks seq c browser x.server) :
    ∃ y, x.serve c (.utf8 browser text) texts = some y ∧ Passes f seq y := by
  have listed := passing.texts
  rw [next] at listed
  cases requests with
  | nil => cases listed
  | cons d left =>
    obtain ⟨rfl, remain⟩ := List.cons.inj (List.map_cons ▸ listed)
    obtain ⟨some_, allowed⟩ := passing.fits d List.mem_cons_self
    obtain ⟨t, took, sent⟩ := step_requestText speaks passing.short (lt_of_le_of_lt allowed (by decide))
    let m : Message := ⟨httpCForwardReq, seq, d, by decide, passing.short, some_, allowed⟩
    refine ⟨_, congrArg (Option.map _) took, queue, ms ++ [m], left, ?_⟩
    apply passing.serve [d] sent rfl remain
    rw [List.flatMap_singleton, List.flatten_singleton]
    exact data_of_own ⟨rfl, rfl⟩

/-- A move on the way is possible, and nothing is lost by it. -/
theorem Passing.onward (args : Args) {a : Move} (passing : Passing f seq queue ms requests x) (good : Good f seq c browser x a)
    (onward : Onward f seq x a) : ∃ y, move c browser args x a = some y ∧ Passes f seq y := by
  cases a with
  | socket bytes => exact ⟨_, rfl, passing.onData good.1 good.2⟩
  | message used type message => exact ⟨_, rfl, passing.onMessage good.1 good.2⟩
  | deliver =>
    rw [move]
    split
    next none => exact absurd none onward
    next text rest next => exact passing.deliver next good
  | happen e => exact onward.elim
  | fragment size now replies =>
    obtain ⟨frame, found, ends⟩ := onward
    obtain ⟨frames, next⟩ := List.head?_eq_some_iff.mp found
    obtain ⟨some_, small, begins, provided, _⟩ := good
    obtain ⟨v, moved, passes⟩ := passing.fragment now replies next some_ small begins provided ends
    rw [move, next]
    simp only [moved]
    exact ⟨_, rfl, passes⟩
  | work o =>
    obtain ⟨v, moved, passes⟩ := passing.writes onward
    rw [move, moved]
    exact ⟨_, rfl, passes⟩

/-- Any other move leaves what is on the way where it is. -/
theorem Passing.aside {a : Move} (passing : Passing f seq queue ms requests x) (good : Good f seq c browser x a)
    (aside : ¬ Onward f seq x a) (moved : move c browser args x a = some y) : Passes f seq y := by
  cases a with
  | socket | message => exact absurd trivial aside
  | deliver =>
    rw [move, not_not.mp aside] at moved
    cases moved
  | happen e =>
    obtain ⟨t, took, rfl⟩ := Option.map_eq_some_iff.mp moved
    obtain ⟨others, frames, foreign⟩ := good t took
    refine ⟨queue, ms ++ others, requests, passing.serve [] frames rfl passing.texts ?_⟩
    exact List.flatMap_eq_nil_iff.mpr fun m member => data_of_other (foreign m member)
  | fragment size now replies =>
    obtain ⟨_, small, _, provided, spares⟩ := good
    rw [move] at moved
    split at moved
    next => cases moved
    next frame frames next =>
      obtain ⟨v, took, rfl⟩ := Option.map_eq_some_iff.mp moved
      have first : frame ∈ x.frames.head? := by rw [next]; rfl
      have ends : frame.length ≤ size ∧ heading x.device frame ≠ some (httpCForwardReq, seq) := by
        by_contra goes
        exact aside ⟨frame, first, fun last => not_not.mp fun other => goes ⟨last, other⟩⟩
      exact passing.other next small provided ends.1 ends.2 took (spares frame first ends.1 ends.2 v took)
  | work o =>
    obtain ⟨v, took, rfl⟩ := Option.map_eq_some_iff.mp moved
    obtain ⟨spares, parked⟩ := (good.resolve_left aside) v took
    refine ⟨queue, ms, requests, passing.device (upstream_of_spares passing.upstream spares took) (passing.flying.parked parked) ?_⟩
    rw [spares.kept.written]

theorem passes_of_begins (begins : Begins f seq x) : Passes f seq x := by
  have all : AllServed x.device := reach_keeps_always (P := AllServed) (fun _ => served_at_start) begins.device
  refine ⟨[], [], [], ?_⟩
  constructor
  case short => exact begins.short
  case upstream => exact ⟨all, begins.serves, .resting begins.resting, [], begins.saved, List.forall_mem_nil _⟩
  case flying => exact begins.frames ▸ .none begins.idle
  case texts => exact begins.texts
  case fits => exact List.forall_mem_nil _
  case opened => exact begins.opened
  case kept => exact begins.buffers ▸ List.forall_mem_nil _
  case flushed => exact fun _ => begins.buffers
  case whole =>
    rw [begins.unwritten, begins.buffers, begins.received]
    rfl

theorem passes_of_reach (reached : Reach (move c browser args) (Good f seq c browser) (Begins f seq) x) :
    Passes f seq x := by
  apply reached.invariant
  · exact fun _ => passes_of_begins
  · intro x a y passes good moved
    obtain ⟨queue, ms, requests, passing⟩ := passes
    by_cases onward : Onward f seq x a
    · obtain ⟨z, same, passes⟩ := passing.onward args good onward
      cases same.symm.trans moved
      exact passes
    · exact passing.aside good onward moved

/-- The host is given what came from the local socket, in order; nothing is lost, and a move on the way
is always possible. -/
theorem sent_in_order (reached : Reach (move c browser args) (Good f seq c browser) (Begins f seq) x) :
    (∃ way, written (.forward f) x.device.data.acts ++ way = x.received ∧ (Through f x → way = [])) ∧
      ∀ a, Good f seq c browser x a → Onward f seq x a → ∃ y, move c browser args x a = some y := by
  obtain ⟨queue, ms, requests, passing⟩ := passes_of_reach reached
  constructor
  · refine ⟨_, passing.whole, fun through => ?_⟩
    have noQueue : queue = [] := by
      obtain ⟨l, list, all, _⟩ := feeds_list passing.upstream.feeds
      cases through.queue.symm.trans list
      exact all
    have noFrame : ms = [] := by
      have flying := passing.flying
      rw [through.frames] at flying
      cases flying
      rfl
    have noText : requests = [] := List.map_eq_nil_iff.mp (passing.texts.symm.trans through.texts)
    rw [noQueue, noFrame, noText, through.buffers]
    rfl
  · intro a good onward
    obtain ⟨y, moved, _⟩ := passing.onward args good onward
    exact ⟨y, moved⟩

/-- What the poll reports is noted. -/
theorem spares_of_poll {w v : DevState} {revents : Nat → PollEvents} {now : Int} {replies : List Reply}
    (pool : ∃ free, w.rings.items .caches = some free) (moved : Device.Manager.step w ⟨.poll revents, now, replies⟩ = some v) :
    Spares f seq w v ∧ Parked w v := by
  cases moved
  refine ⟨⟨⟨rfl, fun _ _ _ _ => rfl, pool, ⟨_, rfl⟩, rfl⟩, fun serves => serves, fun unread => unread⟩, ?_⟩
  exact ⟨rfl, rfl, rfl, fun _ _ _ _ => rfl, fun _ _ => ⟨rfl, rfl⟩, pool⟩

end

/-! Two bytes from the local socket before the connection is up. -/

/-- The device has connected the forward, the browser's session is open on the server, and the proxy has
asked for it. -/
def connected : List Occasion :=
  [⟨.receive openZero, 1, [.value 5, .value 0x0a000001]⟩, ⟨.poll fun _ => pollOut, 1, []⟩, ⟨.service 1, 1, []⟩]

def openTunnel (w : DevState) (s : ServerState) : Tunnel := ⟨.run router .init [.message 0 handshake []], [], s, [], w, []⟩

theorem fair_of_count {replies : List Reply} {size : Nat} (some_ : 0 < size) (whole : replies.map Reply.count = [size]) :
    Fair [size] replies := by
  obtain ⟨r, rfl, count⟩ := List.map_eq_singleton_iff.mp whole
  refine ⟨?_, fun _ => trivial⟩
  cases r with
  | fail e => exact absurd some_ (by rw [← count]; exact Nat.lt_irrefl 0)
  | value n => exact ⟨count ▸ some_, some_⟩
  | data bytes => exact ⟨count ▸ some_, some_⟩

/-- Bytes of the local socket, their way through the server, and the writes of the device. -/
def sendingOn : Test (Good 0 0 0 1) where
  passes
    | _, .socket bytes => decide (bytes ≠ [] ∧ bytes.length + httpCHeaderLen ≤ httpInMax)
    | x, .message _ type _ => decide (type ≠ handshake ∧ x.proxy.buffers.flatten.length + httpCHeaderLen ≤ httpInMax)
    | x, .deliver => decide ((x.server.conns 1).map (fun conn => (conn.isOpen, conn.url, conn.sessUsername, conn.sessDevicename.isSome, conn.seq)) =
        some (true, [], some Server.Freeing.user, true, some 0)) &&
      decide ((x.server.userMap (.str Server.Freeing.user)).map UserMgmr.getCurrConn = some (some (.conn 0)))
    | x, .fragment size _ _ => decide (0 < size ∧ size < httpBufSize ∧ httpCHeaderLen ≤ size) &&
      decide ((x.device.rings.items .prepare).isSome ∧ ∃ free ∈ x.device.rings.items .caches, frameBufs ≤ free.length) &&
      decide (∀ frame ∈ x.frames.head?, heading x.device frame = some (httpCForwardReq, 0))
    | x, .work ⟨.poll _, _, _⟩ => (x.device.rings.items .caches).isSome
    | x, .work ⟨.service slot, _, replies⟩ => decide ((x.device.data.pollfds slot).revents ≠ 0 ∧
        x.device.data.httpLookup (x.device.data.pollfds slot).fd = some (.forward 0) ∧ (x.device.data.forwards 0).funcRun = .write ∧
        ∀ l ∈ x.device.rings.items (.fwdWrite 0), offered (.forward 0) x.device.data l = [2] ∧ replies.map Reply.count = [2])
    | _, _ => false
  sound x a passes := by
    cases a with
    | socket | message => simpa only [Good, decide_eq_true_eq] using passes
    | happen e => cases passes
    | deliver =>
      simp only [Bool.and_eq_true, decide_eq_true_eq, Option.map_eq_some_iff] at passes
      obtain ⟨⟨conn, found, views⟩, mgr, known, current⟩ := passes
      simp only [Prod.mk.injEq] at views
      obtain ⟨isOpen, url, session, selected, opened⟩ := views
      obtain ⟨device, selected⟩ := Option.isSome_iff_exists.mp selected
      have isText : conn.url ≠ wscam := by
        rw [url]
        decide
      exact ⟨conn, _, device, mgr, found, isOpen, isText, session, selected, known, opened, current⟩
    | fragment size now replies =>
      simp only [Bool.and_eq_true, decide_eq_true_eq] at passes
      obtain ⟨⟨⟨some_, small, long⟩, hangs, free, pool, enough⟩, own⟩ := passes
      obtain ⟨saved, hangs⟩ := Option.isSome_iff_exists.mp hangs
      refine ⟨some_, small, fun _ => long, ⟨saved, free, hangs, pool, by omega⟩, ?_⟩
      exact fun frame first _ other => absurd (own frame first) other
    | work o =>
      obtain ⟨event, now, replies⟩ := o
      cases event with
      | poll revents => exact .inr fun v moved => spares_of_poll (Option.isSome_iff_exists.mp passes) moved
      | service slot =>
        obtain ⟨revents, owner, write, offers⟩ := of_decide_eq_true passes
        refine .inl ⟨slot, rfl, ⟨revents, owner, write⟩, fun l list => ?_⟩
        obtain ⟨sizes, counts⟩ := offers l list
        rw [sizes]
        exact fair_of_count (by decide) counts
      | _ => cases passes

def moves : List Move :=
  [.socket (text "hi"), .message 0 "response".toList [], .deliver, .fragment 2047 2 [], .work ⟨.poll fun _ => pollOut, 2, []⟩,
    .work ⟨.service 1, 2, [.value 2]⟩]

def through (x : Tunnel) : Bool :=
  decide (x.proxy.buffers = [] ∧ x.texts = [] ∧ x.frames = [] ∧ x.device.rings.items (.fwdWrite 0) = some [] ∧ x.received = text "hi")

def sendOn : Option Tunnel :=
  (Library.Run.run Device.Manager.step Device.Reassembly.device connected).bind fun w => openServer.bind fun s =>
    sendingOn.run (move 0 1 router) (openTunnel w s) moves

theorem sendOn_through : sendOn.map through = some true := by decide +kernel

/-- The forward is connected and has nothing to write, and the parser is between two frames. -/
def ready (w : DevState) : Bool :=
  decide (w.data.listForward.find? (fun g => (w.data.forwards g).seq = 0) = some 0 ∧ w.rings.items (.fwdWrite 0) = some [] ∧
    (w.rings.items .caches).isSome ∧ (w.data.forwards 0).pfd ≠ none ∧ (w.data.forwards 0).funcRun = .read ∧
    w.data.syncPrepare = false ∧ w.data.bufPrepare.curr = none ∧ w.rings.items .prepare = some [] ∧
    written (.forward 0) w.data.acts = [])

theorem connected_ready : (Library.Run.run Device.Manager.step Device.Reassembly.device connected).map ready = some true := by
  decide +kernel

theorem begins_openTunnel {w : DevState} {s : ServerState}
    (ran : Library.Run.run Device.Manager.step Device.Reassembly.device connected = some w) : Begins 0 0 (openTunnel w s) := by
  obtain ⟨v, same, isReady⟩ := Option.map_eq_some_iff.mp connected_ready
  cases same.symm.trans ran
  obtain ⟨serves, list, pool, pfd, read, sync, curr, saved, unwritten⟩ := of_decide_eq_true isReady
  obtain pool := Option.isSome_iff_exists.mp pool
  have reached : Reach Device.Manager.step (fun _ _ => True) Device.Manager.Starts w :=
    reach_of_free_run Device.Reassembly.device_starts ran
  have asked : (ProxyService.run router .init [.message 0 handshake []]).theSeq = 0 ∧
      (ProxyService.run router .init [.message 0 handshake []]).buffers = [] := by decide +kernel
  exact ⟨reached, serves, ⟨list, pool, pfd, read⟩, ⟨sync, curr, ⟨[], saved⟩, pool⟩, saved, unwritten, by decide, asked.1, asked.2,
    rfl, rfl, rfl⟩

theorem sent_in_order_hi : ∃ x, Reach (move 0 1 router) (Good 0 0 0 1) (Begins 0 0) x ∧ x.received = text "hi" ∧
    written (.forward 0) x.device.data.acts = text "hi" := by
  obtain ⟨x, ran, here⟩ := Option.map_eq_some_iff.mp sendOn_through
  obtain ⟨buffers, texts, frames, queue, received⟩ := of_decide_eq_true here
  rw [sendOn, Option.bind_eq_some_iff] at ran
  obtain ⟨w, connects, ran⟩ := ran
  rw [Option.bind_eq_some_iff] at ran
  obtain ⟨s, _, ran⟩ := ran
  have reached := Test.reach (begins_openTunnel connects) ran
  obtain ⟨⟨way, whole, none⟩, _⟩ := sent_in_order reached
  rw [none ⟨buffers, texts, frames, queue⟩, List.append_nil, received] at whole
  exact ⟨x, reached, received, whole⟩

end WebTunnel.System.Sending
