import WebTunnel.Device.Greeting
import WebTunnel.Server.Separating
import WebTunnel.System.Addressing
import WebTunnel.System.Sending

/-! The handshake of a device with the server: when the device holds it for done, the server knows the
connection under the names that the device has. -/

namespace WebTunnel.System.Registering
open Library.Bytes Library.JavaScript Library.Json Library.Program Library.Stringify Library.Run Device.Types Device.Buffers Device.Manager
open Device.Greeting Device.Feeding Device.Receiving Device.Shaking Server.Wire Server.Types Server.Framing Server.Events Server.Separating
open Sending (framesTo leftover)

/-! What the device says of itself, and what the server reads. -/

/-- A byte that stands for itself in a string literal. -/
def Plain (b : Byte) : Prop := 0x20 ≤ b.toNat ∧ b.toNat < 0x80 ∧ b ≠ 0x22 ∧ b ≠ 0x5c

instance (b : Byte) : Decidable (Plain b) := inferInstanceAs (Decidable (_ ∧ _))

/-- The device writes its names into the handshake as they are. -/
structure PlainNames (d : HttpMgmt) : Prop where
  username : ∀ b ∈ d.username, Plain b
  localHost : ∀ b ∈ d.localHost, Plain b
  localPort : 0 ≤ d.localPort

def shakeFields (d : HttpMgmt) : List (Text × Leaf) :=
  [("username".toList, .str (asciiText d.username)), ("host".toList, .str (asciiText d.localHost)),
    ("port".toList, .num d.localPort.toNat)]

section
variable {b : Byte} {bytes : List Byte} {d : HttpMgmt}

theorem isAscii_of_plain (plain : ∀ b ∈ bytes, Plain b) : IsAscii bytes := fun b member => (plain b member).2.1

theorem escapeChar_plain (plain : Plain b) : escapeChar (asciiChar b) = [asciiChar b] := by
  obtain ⟨shown, _, quote, slash⟩ := plain
  have code := asciiChar_toNat b
  have other (c : Char) (n : Byte) (same : c.toNat = n.toNat) (apart : b ≠ n) : asciiChar b ≠ c := by
    rintro rfl
    exact apart (BitVec.eq_of_toNat_eq (code.symm.trans same))
  have above (n : Nat) (low : n < 0x20) : (asciiChar b).toNat ≠ n := by omega
  rw [escapeChar, if_neg (other '"' 0x22 rfl quote), if_neg (other '\\' 0x5c rfl slash), if_neg (above 8 (by decide)),
    if_neg (above 9 (by decide)), if_neg (above 10 (by decide)), if_neg (above 12 (by decide)), if_neg (above 13 (by decide)),
    if_neg (by omega)]

theorem quote_plain (plain : ∀ b ∈ bytes, Plain b) : quote (asciiText bytes) = '"' :: asciiText bytes ++ ['"'] := by
  have escaped : (asciiText bytes).flatMap escapeChar = asciiText bytes := by
    induction bytes with
    | nil => rfl
    | cons b bytes ih =>
      obtain ⟨first, rest⟩ := List.forall_mem_cons.mp plain
      calc (asciiText (b :: bytes)).flatMap escapeChar
        _ = escapeChar (asciiChar b) ++ (asciiText bytes).flatMap escapeChar := List.flatMap_cons
        _ = asciiText (b :: bytes) := by
          rw [escapeChar_plain first, ih rest]
          rfl
  rw [quote, escaped]

/-- The digits of the port. -/
theorem asciiText_decimal {port : Int} (positive : 0 ≤ port) : IsAscii (Device.Buffers.decimal port) ∧
    asciiText (Device.Buffers.decimal port) = Library.JavaScript.decimal port.toNat := by
  have size : port.natAbs = port.toNat := by omega
  rw [Device.Buffers.decimal, if_neg (by omega), digits, size]
  have digit : ∀ c ∈ Nat.toDigits 10 port.toNat, (BitVec.ofNat 8 c.toNat).toNat < 0x80 ∧ asciiChar (BitVec.ofNat 8 c.toNat) = c := by
    intro c member
    have range := Addressing.toNat_of_isDigit (Nat.isDigit_of_mem_toDigits (by decide) (by decide) member)
    have code : (BitVec.ofNat 8 c.toNat).toNat = c.toNat := by
      rw [BitVec.toNat_ofNat]
      omega
    refine ⟨by omega, Char.toNat_inj.mp ?_⟩
    rw [asciiChar_toNat, code]
  constructor
  · intro b member
    obtain ⟨c, within, rfl⟩ := List.mem_map.mp member
    exact (digit c within).1
  · rw [asciiText, List.map_map, Library.JavaScript.decimal]
    calc (Nat.toDigits 10 port.toNat).map (asciiChar ∘ fun c => BitVec.ofNat 8 c.toNat)
      _ = (Nat.toDigits 10 port.toNat).map id := List.map_congr_left fun c member => (digit c member).2
      _ = Nat.toDigits 10 port.toNat := List.map_id _

theorem decodeUtf8_shakeText (names : PlainNames d) : decodeUtf8 (shakeText d) = stringify (shakeFields d) := by
  obtain ⟨ascii, shown⟩ := asciiText_decimal names.localPort
  have ascii : IsAscii (shakeText d) := by
    simp only [shakeText, IsAscii.append]
    refine ⟨⟨⟨⟨⟨⟨?_, isAscii_of_plain names.username⟩, ?_⟩, isAscii_of_plain names.localHost⟩, ?_⟩, ascii⟩, ?_⟩ <;> decide
  rw [decodeUtf8_ascii ascii, shakeText]
  simp only [asciiText_append, shown]
  have written : stringify (shakeFields d) = '{' :: (quote "username".toList ++ ':' :: quote (asciiText d.username) ++
      ',' :: (quote "host".toList ++ ':' :: quote (asciiText d.localHost) ++
        ',' :: (quote "port".toList ++ ':' :: Library.JavaScript.decimal d.localPort.toNat ++ ['}']))) := rfl
  rw [written, quote_plain names.username, quote_plain names.localHost]
  have keys : asciiText (Device.Buffers.text "\x7b\"username\":\"") = '{' :: quote "username".toList ++ [':', '"'] ∧
      asciiText (Device.Buffers.text "\",\"host\":\"") = '"' :: ',' :: quote "host".toList ++ [':', '"'] ∧
      asciiText (Device.Buffers.text "\",\"port\":") = '"' :: ',' :: quote "port".toList ++ [':'] ∧
      asciiText (Device.Buffers.text "\x7d") = ['}'] := by decide
  rw [keys.1, keys.2.1, keys.2.2.1, keys.2.2.2]
  simp only [List.append_assoc, List.cons_append, List.nil_append]

end

/-! The server takes the handshake. -/

/-- The server knows the connection under the names of the device. -/
def Registered (c : ConnId) (d : HttpMgmt) (s : ServerState) : Prop :=
  ∃ conn, s.conns c = some conn ∧ conn.user = .str (asciiText d.username) ∧ conn.host = .str (asciiText d.localHost) ∧
    conn.port = .num ⟨false, d.localPort.toNat, 0⟩

/-- The connection is open, and the server has not heard of it. -/
def Unheard (c : ConnId) (s : ServerState) : Prop :=
  ∃ conn, s.conns c = some conn ∧ conn.isOpen = true ∧ conn.user = .undefined ∧ conn.sessUsername = none

section
variable {c : ConnId} {d : HttpMgmt} {s t : ServerState} {e : Server.Events.Event}

theorem createReq_reply : createReq [bytesBE 4 0x1234] 0x3 0x0 = .ok handshakeReply := by
  have length : frameLength [bytesBE 4 0x1234] = 20 := by decide
  rw [createReq_of_lt (by decide) (by decide) (by rw [length]; decide), length, List.flatten_singleton]
  rfl

theorem parseHeaderMessage_shakeMessage (short : (shakeText d).length < 512) : parseHeaderMessage (shakeMessage d) =
    .ok ⟨protocolMagic, protocolVersion, 3, 0, (shakeText d).length + httpCHeaderLen⟩ := by
  rw [shakeMessage_eq]
  exact parseHeaderMessage_headerBytes (by decide) (by decide) (by rw [httpCHeaderLen]; omega) _

theorem parse_shakeMessage (names : PlainNames d) :
    parse (decodeUtf8 ((shakeMessage d).drop protocolHeaderLen)) = .ok (.obj (jsFields (shakeFields d))) := by
  have text : decodeUtf8 ((shakeMessage d).drop protocolHeaderLen) = stringify (shakeFields d) := by
    rw [shakeMessage_eq, List.drop_left' (headerBytes_length _ _ _), decodeUtf8_shakeText names]
  rw [text, parse_stringify]

theorem property_username : property (.obj (jsFields (shakeFields d))) "username".toList = .ok (.str (asciiText d.username)) := rfl

theorem property_host : property (.obj (jsFields (shakeFields d))) "host".toList = .ok (.str (asciiText d.localHost)) := rfl

theorem property_port : property (.obj (jsFields (shakeFields d))) "port".toList = .ok (.num ⟨false, d.localPort.toNat, 0⟩) := rfl

/-- The server registers the connection, and replies. -/
theorem step_shakeMessage (unheard : Unheard c s) (names : PlainNames d) (short : (shakeText d).length < 512) (draw : Fin 100000) :
    ∃ t, Server.Events.step s (.binary c (shakeMessage d) draw) = some t ∧ Registered c d t ∧ framesTo c s t = [handshakeReply] := by
  obtain ⟨conn, found, _, isNew, _⟩ := unheard
  have joined (text : Text) : concatenates (.str text) = .ok () := rfl
  have joined' (n : Nat) : concatenates (.num ⟨false, n, 0⟩) = .ok () := rfl
  have sent : framesTo c s (s.write [.sendBytes c handshakeReply]) = [handshakeReply] := by
    rw [framesTo, sentSince_append, List.filterMap_cons]
    simp
  apply Server.Events.step_of_wp
  rw [Server.Events.handle, wp_connectionParse_new found isNew]
  -- The steps of `parseHandshake` in order.
  rw [parseHandshake, wp_bind, wp_liftJs_of_ok (parseHeaderMessage_shakeMessage short), wp_ite, if_neg (by simp)]
  rw [wp_bind, wp_liftJs_of_ok (parse_shakeMessage names)]
  rw [wp_bind, wp_liftJs_of_ok property_username, wp_bind, wp_liftJs_of_ok property_host, wp_bind, wp_liftJs_of_ok property_port]
  rw [wp_bind, wp_liftJs_of_ok (joined _), wp_bind, wp_liftJs_of_ok (joined _), wp_bind, wp_liftJs_of_ok (joined' _)]
  rw [wp_bind, wp_liftJs_of_ok createReq_reply, wp_bind, wp_emit, wp_bind, wp_get, wp_bind, wp_setConn, wp_setMgr]
  constructor
  · exact ⟨_, setConn_conns_self _ _ _, rfl, rfl, rfl⟩
  · exact sent

/-- Who is registered stays so. -/
theorem Registered.kept (registered : Registered c d s) (separated : Separated s e t) : Registered c d t := by
  obtain ⟨conn, found, user, host, port⟩ := registered
  have whose := separated.whose c conn found (by rw [user]; simp)
  obtain ⟨conn', found', same⟩ := Option.map_eq_some_iff.mp whose
  exact ⟨conn', found', (congrArg Identity.user same).trans user, (congrArg Identity.host same).trans host,
    (congrArg Identity.port same).trans port⟩

/-- What happens elsewhere leaves a connection alone that is not known yet, and nothing is sent on it. -/
theorem Unheard.kept (unheard : Unheard c s) (separated : Separated s e t) (other : speaker e ≠ some c) :
    Unheard c t ∧ framesTo c s t = [] := by
  obtain ⟨conn, found, isOpen, isNew, noSession⟩ := unheard
  have strange (user : JsVal) : ¬ (DeviceOf s c user ∨ BrowserOf s c user) := by
    rintro (⟨isUser, conn', found', same⟩ | ⟨conn', username, found', session, _⟩)
    · cases found.symm.trans found'
      exact isUser (same.symm.trans isNew)
    · cases found.symm.trans found'
      cases noSession.symm.trans session
  have same : t.conns c = s.conns c := by
    by_contra changed
    rcases separated.conns c changed with speaks | ⟨user, _, own⟩
    · exact other speaks
    · exact strange user own
  refine ⟨⟨conn, same.trans found, isOpen, isNew, noSession⟩, List.filterMap_eq_nil_iff.mpr fun output member => ?_⟩
  cases output with
  | sendBytes c' bytes =>
    simp only [ite_eq_right_iff, reduceCtorEq, imp_false]
    rintro rfl
    rcases separated.sent _ member with addressed | ⟨user, _, isUser, device⟩
    · exact other addressed
    · rw [same] at device
      exact strange user (.inl ⟨isUser, device⟩)
  | _ => rfl

end

/-! The device and the server, with what is on the way between them. -/

/-- The device, all messages that it has written on the connection and those of them that are on the way; the server, and
the frames on the way to the device. -/
structure Link where
  device : DevState
  sent : List (List Byte)
  up : List (List Byte)
  server : ServerState
  down : List (List Byte)

/-- The device does something of its own, or takes bytes of the next frame; the server takes the next message, or
something else happens there. -/
inductive Move where
  | work (o : Occasion)
  | take (size : Nat) (now : Int) (replies : List Reply)
  | deliver (draw : Fin 100000)
  | happen (e : Server.Events.Event)

def Link.wrote (x : Link) (v : DevState) : Link :=
  { x with
    device := v
    sent := x.sent ++ (messagesSince x.device v).reverse
    up := x.up ++ (messagesSince x.device v).reverse }

section
variable (c : ConnId)

def Link.serve (x : Link) (e : Server.Events.Event) (up : List (List Byte)) : Option Link :=
  (Server.Events.step x.server e).map fun t => { x with up := up, server := t, down := x.down ++ framesTo c x.server t }

def move (x : Link) : Move → Option Link
  | .work o => (Device.Manager.step x.device o).map x.wrote
  | .take size now replies =>
    match x.down with
    | [] => none
    | frame :: rest =>
      (Device.Manager.step x.device ⟨.receive (frame.take size), now, replies⟩).map fun v =>
        { x.wrote v with down := leftover (frame.drop size) rest }
  | .deliver draw =>
    match x.up with
    | [] => none
    | message :: rest => x.serve c (.binary c message draw) rest
  | .happen e => x.serve c e x.up

/-- The connection is not lost, the device writes once before the reply, which comes in one piece and finds a buffer in
the device's pool, and what else happens at the server happens on other connections. -/
def Good (x : Link) : Move → Prop
  | .work o => Event.own o.event ∧ (o.event = .writable → x.device.data.shakehand = true ∨ x.sent = [])
  | .take size _ _ => x.device.data.shakehand = false → OneFree x.device ∧ ∀ frame ∈ x.down.head?, frame.length ≤ size
  | .deliver draw => ∀ message ∈ x.up.head?, Enabled x.server (.binary c message draw)
  | .happen e => Enabled x.server e ∧ speaker e ≠ some c

/-- The connection was just made. -/
structure Begins (x : Link) : Prop where
  names : PlainNames x.device.data
  waiting : Waiting x.device
  unshaken : x.device.data.shakehand = false
  served : Reach Server.Events.step Enabled Server.Events.Starts x.server
  unheard : Unheard c x.server
  sent : x.sent = []
  up : x.up = []
  down : x.down = []

/-- How far the handshake is. -/
inductive Phase (x : Link) : Prop
  | silent (unshaken : x.device.data.shakehand = false) (waiting : Waiting x.device) (sent : x.sent = []) (up : x.up = [])
      (down : x.down = []) (unheard : Unheard c x.server)
  | asked (unshaken : x.device.data.shakehand = false) (waiting : Waiting x.device) (sent : x.sent ≠ [])
      (up : x.up = [shakeMessage x.device.data]) (short : (shakeText x.device.data).length < 512) (down : x.down = [])
      (unheard : Unheard c x.server)
  | answered {rest : List (List Byte)} (unshaken : x.device.data.shakehand = false) (waiting : Waiting x.device) (sent : x.sent ≠ [])
      (up : x.up = []) (down : x.down = handshakeReply :: rest) (registered : Registered c x.device.data x.server)
  | agreed (shaken : x.device.data.shakehand = true) (registered : Registered c x.device.data x.server)

structure Shakes (x : Link) : Prop where
  names : PlainNames x.device.data
  separate : Separate x.server
  phase : Phase c x

end

section
variable {c : ConnId} {x y : Link} {v : DevState} {t : ServerState} {o : Occasion} {e : Server.Events.Event} {draw : Fin 100000}

theorem PlainNames.same (names : PlainNames x.device.data) (same : SameNames x.device v) : PlainNames v.data :=
  ⟨same.username ▸ names.username, same.localHost ▸ names.localHost, same.localPort ▸ names.localPort⟩

theorem Registered.same {s : ServerState} (registered : Registered c x.device.data s) (same : SameNames x.device v) : Registered c v.data s := by
  rw [Registered, same.username, same.localHost, same.localPort]
  exact registered

theorem wrote_of_silent (none : messagesSince x.device v = []) : x.wrote v = { x with device := v } := by
  rw [Link.wrote, none, List.reverse_nil, List.append_nil, List.append_nil]

/-- The device does something of its own. -/
theorem Phase.work (phase : Phase c x) (own : Event.own o.event)
    (once : o.event = .writable → x.device.data.shakehand = true ∨ x.sent = []) (moved : Device.Manager.step x.device o = some v) :
    Phase c (x.wrote v) := by
  have continues := continues_of_step own moved
  have hello : [shakeMessage x.device.data] = [shakeMessage v.data] := by rw [shakeMessage_of_sameNames continues.names]
  have text := shakeText_of_sameNames continues.names
  have quiet (unshaken : x.device.data.shakehand = false) (sent : x.sent ≠ []) : x.wrote v = { x with device := v } := by
    apply wrote_of_silent
    apply continues.silent
    intro writes
    rcases once writes with shaken | none
    · rw [unshaken] at shaken
      cases shaken
    · exact sent none
  cases phase with
  | silent unshaken waiting sent up down unheard =>
    have waiting := waiting_of_step waiting own moved
    have unshaken' := continues.shakehand.trans unshaken
    by_cases writes : o.event = .writable
    · obtain ⟨wrote, short⟩ := messagesSince_of_unshaken writes unshaken moved
      have wrote : x.wrote v = { x with device := v, sent := [shakeMessage x.device.data], up := [shakeMessage x.device.data] } := by
        rw [Link.wrote, wrote, sent, up]
        rfl
      rw [wrote]
      exact .asked unshaken' waiting (List.cons_ne_nil _ _) hello (text ▸ short) down unheard
    · rw [wrote_of_silent (continues.silent writes)]
      exact .silent unshaken' waiting sent up down unheard
  | asked unshaken waiting sent up short down unheard =>
    rw [quiet unshaken sent]
    exact .asked (continues.shakehand.trans unshaken) (waiting_of_step waiting own moved) sent (up.trans hello) (text ▸ short) down unheard
  | answered unshaken waiting sent up down registered =>
    rw [quiet unshaken sent]
    exact .answered (continues.shakehand.trans unshaken) (waiting_of_step waiting own moved) sent up down
      (registered.same continues.names)
  | agreed shaken registered =>
    exact .agreed (continues.shakehand.trans shaken) (registered.same continues.names)

/-- The device takes bytes of the next frame. -/
theorem Phase.take {frame : List Byte} {frames : List (List Byte)} {size : Nat} {now : Int} {replies : List Reply} (phase : Phase c x)
    (next : x.down = frame :: frames) (whole : x.device.data.shakehand = false → OneFree x.device ∧ frame.length ≤ size)
    (moved : Device.Manager.step x.device ⟨.receive (frame.take size), now, replies⟩ = some v) :
    Phase c { x.wrote v with down := leftover (frame.drop size) frames } := by
  obtain ⟨names, silent, stays⟩ := received_of_step rfl moved
  rw [wrote_of_silent silent]
  cases phase with
  | silent _ _ _ _ down => cases next.symm.trans down
  | asked _ _ _ _ _ down => cases next.symm.trans down
  | answered unshaken waiting sent up down registered =>
    obtain ⟨rfl, rfl⟩ := List.cons.inj (next.symm.trans down)
    obtain ⟨oneFree, all⟩ := whole unshaken
    rw [List.take_of_length_le all] at moved
    obtain ⟨v', took, shaken⟩ := step_reply now replies waiting oneFree
    cases took.symm.trans moved
    exact .agreed shaken (registered.same names)
  | agreed shaken registered => exact .agreed (stays shaken) (registered.same names)

/-- The server takes the next message. -/
theorem Phase.deliver {message : List Byte} {messages : List (List Byte)} (phase : Phase c x) (names : PlainNames x.device.data)
    (next : x.up = message :: messages) (separated : Separated x.server (.binary c message draw) t)
    (moved : Server.Events.step x.server (.binary c message draw) = some t) :
    Phase c { x with up := messages, server := t, down := x.down ++ framesTo c x.server t } := by
  cases phase with
  | silent _ _ _ up => cases next.symm.trans up
  | asked unshaken waiting sent up short down unheard =>
    obtain ⟨rfl, rfl⟩ := List.cons.inj (next.symm.trans up)
    obtain ⟨t', took, registered, replies⟩ := step_shakeMessage unheard names short draw
    cases took.symm.trans moved
    rw [down, replies]
    exact .answered unshaken waiting sent rfl rfl registered
  | answered _ _ _ up => cases next.symm.trans up
  | agreed shaken registered => exact .agreed shaken (registered.kept separated)

/-- Something else happens at the server. -/
theorem Phase.happen (phase : Phase c x) (other : speaker e ≠ some c) (separated : Separated x.server e t) :
    Phase c { x with server := t, down := x.down ++ framesTo c x.server t } := by
  cases phase with
  | silent unshaken waiting sent up down unheard =>
    obtain ⟨unheard, none⟩ := unheard.kept separated other
    rw [none, List.append_nil]
    exact .silent unshaken waiting sent up down unheard
  | asked unshaken waiting sent up short down unheard =>
    obtain ⟨unheard, none⟩ := unheard.kept separated other
    rw [none, List.append_nil]
    exact .asked unshaken waiting sent up short down unheard
  | answered unshaken waiting sent up down registered =>
    rw [down, List.cons_append]
    exact .answered unshaken waiting sent up rfl (registered.kept separated)
  | agreed shaken registered => exact .agreed shaken (registered.kept separated)

theorem Shakes.move {a : Move} (shakes : Shakes c x) (good : Good c x a) (moved : move c x a = some y) : Shakes c y := by
  obtain ⟨names, separate, phase⟩ := shakes
  cases a with
  | work o =>
    obtain ⟨v, took, rfl⟩ := Option.map_eq_some_iff.mp moved
    exact ⟨names.same (continues_of_step good.1 took).names, separate, phase.work good.1 good.2 took⟩
  | take size now replies =>
    rw [Registering.move] at moved
    split at moved
    next => cases moved
    next frame frames next =>
      obtain ⟨v, took, rfl⟩ := Option.map_eq_some_iff.mp moved
      have whole (unshaken : x.device.data.shakehand = false) : OneFree x.device ∧ frame.length ≤ size :=
        ⟨(good unshaken).1, (good unshaken).2 frame (by rw [next]; rfl)⟩
      exact ⟨names.same (received_of_step rfl took).1, separate, phase.take next whole took⟩
  | deliver draw =>
    rw [Registering.move] at moved
    split at moved
    next => cases moved
    next message messages next =>
      obtain ⟨t, took, rfl⟩ := Option.map_eq_some_iff.mp moved
      obtain ⟨separated, separate⟩ := separate.step (good message (by rw [next]; rfl)) took
      exact ⟨names, separate, phase.deliver names next separated took⟩
  | happen e =>
    obtain ⟨t, took, rfl⟩ := Option.map_eq_some_iff.mp moved
    obtain ⟨separated, separate⟩ := separate.step good.1 took
    exact ⟨names, separate, phase.happen good.2 separated⟩

theorem shakes_of_reach (reached : Reach (move c) (Good c) (Begins c) x) : Shakes c x := by
  apply reached.invariant
  · intro x begins
    exact ⟨begins.names, separate_of_reach begins.served,
      .silent begins.unshaken begins.waiting begins.sent begins.up begins.down begins.unheard⟩
  · exact fun _ _ _ shakes good moved => shakes.move good moved

/-- While the handshake is not done, whatever is on the way can be taken, and ends it. -/
structure Completes (c : ConnId) (x : Link) : Prop where
  deliver : x.up ≠ [] → ∀ draw, ∃ y, move c x (.deliver draw) = some y ∧ Registered c y.device.data y.server ∧ y.down = [handshakeReply]
  take : x.down ≠ [] → ∀ size now replies, Good c x (.take size now replies) →
    ∃ y, move c x (.take size now replies) = some y ∧ y.device.data.shakehand = true

theorem completes_of_phase (phase : Phase c x) (names : PlainNames x.device.data) (unshaken : x.device.data.shakehand = false) :
    Completes c x := by
  constructor
  · intro some_ draw
    cases phase with
    | silent _ _ _ up => exact absurd up some_
    | asked _ _ _ up short down unheard =>
      obtain ⟨t, took, registered, replies⟩ := step_shakeMessage unheard names short draw
      refine ⟨{ x with up := [], server := t, down := x.down ++ framesTo c x.server t }, ?_, registered, ?_⟩
      · rw [move, up]
        simp only [Link.serve, took, Option.map_some]
      · rw [down, replies]
        rfl
    | answered _ _ _ up => exact absurd up some_
    | agreed shaken => rw [unshaken] at shaken; cases shaken
  · intro some_ size now replies good
    cases phase with
    | silent _ _ _ _ down => exact absurd down some_
    | asked _ _ _ _ _ down => exact absurd down some_
    | @answered rest _ waiting _ _ down =>
      obtain ⟨oneFree, all⟩ := good unshaken
      have all := all handshakeReply (by rw [down]; rfl)
      obtain ⟨v, took, shaken⟩ := step_reply now replies waiting oneFree
      refine ⟨{ x.wrote v with down := leftover (handshakeReply.drop size) rest }, ?_, shaken⟩
      rw [move, down]
      simp only [List.take_of_length_le all, took, Option.map_some]
    | agreed shaken => rw [unshaken] at shaken; cases shaken

/-- When the device holds the handshake for done, the server knows the connection under the device's names; it sends nothing on a
connection before. The handshake never gets stuck: what is on the way can be taken, and when nothing is, it is done. -/
theorem registered_when_shaken (reached : Reach (move c) (Good c) (Begins c) x) :
    (x.device.data.shakehand = true → Registered c x.device.data x.server) ∧
    (¬ Registered c x.device.data x.server → x.down = []) ∧
    (x.device.data.shakehand = false → Completes c x) ∧
    (x.sent ≠ [] → x.up = [] → x.down = [] → x.device.data.shakehand = true) := by
  obtain ⟨names, _, phase⟩ := shakes_of_reach reached
  refine ⟨?_, ?_, completes_of_phase phase names, ?_⟩
  · intro shaken
    cases phase with
    | silent unshaken => rw [shaken] at unshaken; cases unshaken
    | asked unshaken => rw [shaken] at unshaken; cases unshaken
    | answered _ _ _ _ _ registered => exact registered
    | agreed _ registered => exact registered
  · intro unknown
    cases phase with
    | silent _ _ _ _ down => exact down
    | asked _ _ _ _ _ down => exact down
    | answered _ _ _ _ _ registered => exact absurd registered unknown
    | agreed _ registered => exact absurd registered unknown
  · intro sent up down
    cases phase with
    | silent _ _ none => exact absurd none sent
    | asked _ _ _ waits => cases up.symm.trans waits
    | answered _ _ _ _ waits => cases down.symm.trans waits
    | agreed shaken => exact shaken

end

/-! A device that connects. -/

def device : DevState := ⟨initData (Device.Buffers.text "u") (Device.Buffers.text "host") 80 1024 3 0, initRings⟩

theorem device_names : PlainNames device.data := ⟨by decide, by decide, by decide⟩

def connecting : List Server.Events.Event := [.connect 0 [] none]

def linkOf (s : ServerState) : Link := ⟨device, [], [], s, []⟩

/-- The device writes the handshake, the server takes it, and the device takes the reply. -/
def greeting : List Move := [.work ⟨.writable, 1, [.value 512]⟩, .deliver 0, .take 20 1 []]

/-- A write of the device, the taking of the reply, and their way between device and server. -/
def shaking : Test (Good 0) where
  passes
    | x, .work o => match o.event with
      | .writable => x.device.data.shakehand || x.sent.isEmpty
      | _ => false
    | x, .take size _ _ => decide ((x.device.rings.items .prepare).isSome ∧ ∃ free ∈ x.device.rings.items .caches, free ≠ []) &&
      decide (∀ frame ∈ x.down.head?, frame.length ≤ size)
    | x, .deliver _ => decide (∃ conn ∈ x.server.conns 0, conn.isOpen)
    | _, .happen _ => false
  sound x a passes := by
    cases a with
    | work o =>
      obtain ⟨event, now, replies⟩ := o
      cases event with
      | writable =>
        refine ⟨trivial, fun _ => ?_⟩
        simpa using passes
      | _ => cases passes
    | take size now replies =>
      simp only [Bool.and_eq_true, decide_eq_true_eq] at passes
      obtain ⟨⟨hangs, free, pool, some_⟩, whole⟩ := passes
      obtain ⟨saved, hangs⟩ := Option.isSome_iff_exists.mp hangs
      exact fun _ => ⟨⟨saved, free, hangs, pool, List.append_ne_nil_of_right_ne_nil saved some_⟩, whole⟩
    | deliver draw =>
      have accepted : ∃ conn ∈ x.server.conns 0, conn.isOpen := of_decide_eq_true passes
      exact fun _ _ => accepted
    | happen e => cases passes

def greeted : Option Link :=
  (runEnabled connecting).bind fun s => shaking.run (move 0) (linkOf s) greeting

theorem greeted_shaken : greeted.map (fun x => x.device.data.shakehand) = some true := by decide +kernel

/-- The server that has accepted the connection. -/
theorem connecting_unheard : (run Server.Events.step .init connecting).map
    (fun s => (s.conns 0).map fun conn => (conn.isOpen, decide (conn.user = .undefined), conn.sessUsername)) =
      some (some (true, true, none)) := by decide +kernel

theorem begins_linkOf {s : ServerState} (ran : runEnabled connecting = some s) : Begins 0 (linkOf s) := by
  have reached := reach_of_runEnabled ran
  obtain ⟨t, accepted, views⟩ := Option.map_eq_some_iff.mp connecting_unheard
  cases accepted.symm.trans (Test.ran ran)
  obtain ⟨conn, found, views⟩ := Option.map_eq_some_iff.mp views
  simp only [Prod.mk.injEq, decide_eq_true_eq] at views
  exact ⟨device_names, ⟨rfl, rfl⟩, rfl, reached, ⟨conn, found, views⟩, rfl, rfl, rfl⟩

theorem registered_when_shaken_greeting : ∃ x : Link, x.device.data.shakehand = true ∧ Registered 0 x.device.data x.server := by
  obtain ⟨x, ran, shaken⟩ := Option.map_eq_some_iff.mp greeted_shaken
  obtain ⟨s, accepted, ran⟩ := Option.bind_eq_some_iff.mp ran
  have reached := Test.reach (begins_linkOf accepted) ran
  exact ⟨x, shaken, (registered_when_shaken reached).1 shaken⟩

end WebTunnel.System.Registering
