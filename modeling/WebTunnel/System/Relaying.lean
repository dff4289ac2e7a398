import WebTunnel.System.Forwarding
import WebTunnel.Proxy.Service

/-! What a host of the LAN sends on a forwarded connection, over the device, the server and the local
proxy. -/

namespace WebTunnel.System.Relaying
open Library.Bytes Library.JavaScript Library.Json Library.Routines Library.Routines.Routine Library.Run Device.Types Device.Buffers
open Device.Forward Server.Sessions Server.Types Server.Framing Server.Events Server.Messages Proxy.Service Forwarding

/-- What a forward hands to the server: the bytes of one read, or that it is closed. -/
inductive Handed where
  | bytes (d : List Byte)
  | closed
deriving DecidableEq

def Handed.data : Handed → List Byte
  | .bytes d => d
  | .closed => closedNotice

/-- The device, the server and the proxy of a local connection, with what is on the way between them,
and all that the forward has handed out. -/
structure Tunnel where
  device : DevState
  frames : List (List Byte)
  server : ServerState
  messages : List UtfMessage
  proxy : ProxyService
  handed : List Handed

/-- The device reads from the forward's socket, closes the forward, or does anything else; the server takes
a frame, or something else happens there; the proxy takes a message, or bytes from the local socket. -/
inductive Move where
  | read (d : List Byte)
  | close
  | work (w : DevState)
  | deliver (random : Fin 100000)
  | happen (e : Server.Events.Event)
  | receive
  | socket (bytes : List Byte)

/-- The frames that were queued between two states, each in the messages it is sent in. -/
def queuedSince (w v : DevState) : List (List Byte) :=
  ((queuedFrames v).take ((queuedFrames v).length - (queuedFrames w).length)).reverse.flatten

/-- What the server sent to a browser between two states. -/
def sentTo (browser : ConnId) (s t : ServerState) : List UtfMessage :=
  ((sentTexts (sentSince s t)).filter (·.1 = browser)).map Prod.snd

section
variable (f : FwdId) (seq : Nat) (c browser : ConnId) (args : Args)

def Tunnel.serve (x : Tunnel) (e : Server.Events.Event) (frames : List (List Byte)) : Option Tunnel :=
  (Server.Events.step x.server e).map fun t =>
    { x with server := t, frames := frames, messages := x.messages ++ sentTo browser x.server t }

def Tunnel.run (x : Tunnel) {α : Type} (code : DevM α) (w : DevState) (handed : Handed) : Option Tunnel :=
  match code.run w with
  | .ok (_, v) => some { x with device := v, frames := x.frames ++ queuedSince w v, handed := x.handed ++ [handed] }
  | .error _ => none

/-- `read` returns the bytes that the host has sent. -/
def arrives (w : DevState) (d : List Byte) : DevState :=
  ⟨{ w.data with replies := .data d :: w.data.replies }, w.rings⟩

def move (x : Tunnel) : Move → Option Tunnel
  | .read d => x.run (tcpForwardRead f) (arrives x.device d) (.bytes d)
  | .close => x.run (tcpForwardClosing f) x.device .closed
  | .work w => some { x with device := w }
  | .deliver random =>
    match x.frames with
    | [] => none
    | frame :: rest => x.serve browser (.binary c frame random) rest
  | .happen e => x.serve browser e x.frames
  | .receive =>
    match x.messages with
    | .object seq type message :: rest => some { x with messages := rest, proxy := x.proxy.onMessage args seq type message }
    | _ => none
  | .socket bytes => some { x with proxy := x.proxy.onData bytes }

/-- The forward of the session has a buffer for what it hands out. -/
def Ready (w : DevState) : Prop := (w.data.forwards f).seq = seq ∧ ∃ b free, w.rings.items .caches = some (b :: free)

/-- The device's connection is open, no frame of its user is under way, and the session is the browser's. -/
structure Listens (s : ServerState) (conn : Conn) (mgr : UserMgmr) (ref : ProcRef) (p : ForwardProcessor) : Prop where
  found : s.conns c = some conn
  isOpen : conn.isOpen = true
  isDevice : conn.user ≠ .undefined
  known : s.userMap conn.user = some mgr
  idle : mgr.currSeq = none
  live : getBySeq mgr.toSessionTable seq = some ref
  isForward : s.procs ref.id = some (.forward p)
  own : p.conn = browser

/-- The session stays open, and its messages are those for the forward. -/
def Good (x : Tunnel) : Move → Prop
  | .read d => Ready f seq x.device ∧ d ≠ [] ∧ d.length ≤ httpBufSize - (httpCHeaderLen + 4)
  | .close => Ready f seq x.device
  | .deliver _ => ∃ conn mgr ref p, Listens seq c browser x.server conn mgr ref p
  | .happen e => Enabled x.server e ∧ ∀ t, Server.Events.step x.server e = some t → sentTo browser x.server t = []
  | _ => True

/-- Nothing was handed out, and the proxy has done nothing to the local socket. -/
structure Begins (x : Tunnel) : Prop where
  reached : Reach Server.Events.step Enabled Server.Events.Starts x.server
  frames : x.frames = []
  messages : x.messages = []
  handed : x.handed = []
  untouched : ∀ output ∈ x.proxy.out, other output = false

end

def writtenOf : Proxy.Service.Output → Option (List Byte)
  | .write bytes => some bytes
  | _ => none

/-- The bytes that were written to the local socket. -/
def written (outputs : List Proxy.Service.Output) : List Byte := (outputs.filterMap writtenOf).flatten

def bytesOf : Handed → Option (List Byte)
  | .bytes d => some d
  | .closed => none

/-- The bytes that were read from the host. -/
def fromHost (handed : List Handed) : List Byte := (handed.filterMap bytesOf).flatten

/-- The local socket was given what the host sent, and ended only for a forward that was closed. -/
structure Transparent (x : Tunnel) : Prop where
  bytes : written x.proxy.out = fromHost x.handed
  ends : .endSocket ∈ x.proxy.out → .closed ∈ x.handed

/-- What the proxy does to the local socket for what a forward handed out. -/
def passed (h : Handed) : List Proxy.Service.Output :=
  if BeginsClosed h.data then [.endSocket, .close] else [.write h.data]

def response (seq : Nat) (h : Handed) : UtfMessage := .object seq "response".toList (encodeBase64 h.data)

/-- All that was handed out is on its way or has reached the local socket, in order. -/
structure Relayed (seq : Nat) (x : Tunnel) (done way rest : List Handed) : Prop where
  reached : Reach Server.Events.step Enabled Server.Events.Starts x.server
  handed : x.handed = done ++ (way ++ rest)
  frames : x.frames = rest.map fun h => forwardFrame seq h.data
  messages : x.messages = way.map (response seq)
  outputs : x.proxy.out.filter other = done.flatMap passed
  fits : ∀ h ∈ rest, h.data.length ≤ httpBufSize - (httpCHeaderLen + 4)

section
variable {f : FwdId} {seq : Nat} {c browser : ConnId} {args : Args} {x y : Tunnel} {done way rest : List Handed} {w v : DevState}
  {h : Handed} {b : BufId}

theorem wp_arrives {free : List BufId} {d : List Byte} (pool : w.rings.items .caches = some (b :: free)) (got : d ≠ [])
    (fits : d.length ≤ httpBufSize - (httpCHeaderLen + 4)) :
    Wp (tcpForwardRead f) (fun _ v => Queued (forwardFrame (w.data.forwards f).seq d) (queuedFrames (arrives w d)) b v)
      (fun _ => True) (arrives w d) := by
  have given : (arrives w d).data.replies.head? = some (.data d) := rfl
  have stocked : (arrives w d).rings.items .caches = some (b :: free) := pool
  exact wp_tcpForwardRead stocked given got fits

theorem queuedSince_of_queued {frame : List Byte} (queued : Queued frame (queuedFrames w) b v) : queuedSince w v = [frame] := by
  rw [queuedSince, queued.frames, List.length_cons, Nat.add_sub_cancel_left]
  rfl

/-- What the forward hands out is on its way to the server. -/
theorem Relayed.run {α : Type} {code : DevM α} (relayed : Relayed seq x done way rest)
    (runs : Wp code (fun _ v => Queued (forwardFrame seq h.data) (queuedFrames w) b v) (fun _ => True) w)
    (fits : h.data.length ≤ httpBufSize - (httpCHeaderLen + 4)) (moved : x.run code w h = some y) :
    Relayed seq y done way (rest ++ [h]) := by
  rw [Tunnel.run] at moved
  split at moved
  next result v ran =>
    cases moved
    have queued := wp_of_run ran runs
    refine ⟨relayed.reached, ?_, ?_, relayed.messages, relayed.outputs, ?_⟩
    · rw [relayed.handed, List.append_assoc, List.append_assoc]
    · rw [queuedSince_of_queued queued, relayed.frames, List.map_append, List.map_singleton]
    · intro h' member
      rcases List.mem_append.mp member with before | here
      · exact relayed.fits h' before
      · cases List.mem_singleton.mp here
        exact fits
  next => cases moved

/-- What happens on the server beside the session is not seen by the browser. -/
theorem Relayed.beside (relayed : Relayed seq x done way rest) {e : Server.Events.Event} (enabled : Enabled x.server e)
    (quiet : ∀ t, Server.Events.step x.server e = some t → sentTo browser x.server t = [])
    (moved : x.serve browser e x.frames = some y) : Relayed seq y done way rest := by
  obtain ⟨t, took, rfl⟩ := Option.map_eq_some_iff.mp moved
  refine ⟨.next relayed.reached enabled took, relayed.handed, relayed.frames, ?_, relayed.outputs, relayed.fits⟩
  rw [quiet t took, List.append_nil]
  exact relayed.messages

/-- The server turns the oldest frame into a message to the browser. -/
theorem Relayed.deliver (relayed : Relayed seq x done way (h :: rest)) {conn : Conn} {mgr : UserMgmr} {ref : ProcRef}
    {p : ForwardProcessor} (listens : Listens seq c browser x.server conn mgr ref p) {random : Fin 100000}
    (moved : x.serve browser (.binary c (forwardFrame seq h.data) random) (rest.map fun h => forwardFrame seq h.data) = some y) :
    Relayed seq y done (way ++ [h]) rest := by
  obtain ⟨t, took, rfl⟩ := Option.map_eq_some_iff.mp moved
  have parsed := wp_parse_forwardFrame (relayed.fits h List.mem_cons_self) relayed.reached listens.known listens.idle listens.live
    listens.isForward c
  have sent : sentTexts (sentSince x.server t) = [(p.conn, .object seq "response".toList (encodeBase64 h.data))] := by
    apply of_step took
    rw [handle, wp_connectionParse_device listens.found listens.isDevice]
    exact Library.Program.wp_mono parsed (fun _ _ out => out.1) fun _ => False.elim
  have enabled : Enabled x.server (.binary c (forwardFrame seq h.data) random) := ⟨conn, listens.found, listens.isOpen⟩
  refine ⟨.next relayed.reached enabled took, ?_, rfl, ?_, relayed.outputs, ?_⟩
  · rw [relayed.handed, List.append_assoc, List.singleton_append]
  · rw [relayed.messages, sentTo, sent, List.filter_cons_of_pos (by simpa using listens.own), List.map_append]
    rfl
  · exact fun h' member => relayed.fits h' (List.mem_cons_of_mem _ member)

theorem filter_flush (p : ProxyService) : p.flush.out.filter other = p.out.filter other := by
  rw [ProxyService.flush]
  split
  · rfl
  · split
    · rw [ProxyService.emit, List.filter_append]
      exact List.append_nil _
    · rfl

/-- The proxy takes a closing notice for what it is, and for what it is not. -/
theorem filter_onMessage (p : ProxyService) (args : Args) (seq : Nat) (h : Handed) :
    (p.onMessage args seq "response".toList (encodeBase64 h.data)).out.filter other = p.out.filter other ++ passed h := by
  have long : startsWith (encodeBase64 h.data) bufFailed → bufFailed.length ≤ (encodeBase64 h.data).length := by
    intro begins
    exact (List.isPrefixOf_iff_prefix.mp begins).length_le
  rw [ProxyService.onMessage, if_neg (by decide)]
  by_cases begins : BeginsClosed h.data
  · have starts := (startsWith_encodeBase64 _).mpr begins
    rw [if_pos ⟨long starts, starts⟩, ProxyService.emit, List.filter_append, filter_flush, passed, if_pos begins]
    rfl
  · rw [if_neg fun starts => begins ((startsWith_encodeBase64 _).mp starts.2), decodeBase64_encodeBase64, ProxyService.emit,
      List.filter_append, filter_flush, passed, if_neg begins]
    rfl

theorem filter_onData (p : ProxyService) (bytes : List Byte) : (p.onData bytes).out.filter other = p.out.filter other := by
  rw [ProxyService.onData]
  split
  · rw [ProxyService.emit, List.filter_append]
    exact List.append_nil _
  · rfl

/-- The proxy takes the oldest message. -/
theorem Relayed.receive (relayed : Relayed seq x done (h :: way) rest)
    (moved : move f c browser args x .receive = some y) : Relayed seq y (done ++ [h]) way rest := by
  rw [move, relayed.messages, List.map_cons] at moved
  cases moved
  refine ⟨relayed.reached, ?_, relayed.frames, rfl, ?_, relayed.fits⟩
  · rw [relayed.handed, List.append_assoc]
    rfl
  · rw [filter_onMessage, relayed.outputs, List.flatMap_append, List.flatMap_singleton]

/-- One move. -/
theorem Relayed.move (relayed : Relayed seq x done way rest) {a : Move} (good : Good f seq c browser x a)
    (moved : Relaying.move f c browser args x a = some y) : ∃ done way rest, Relayed seq y done way rest := by
  cases a with
  | read d =>
    obtain ⟨⟨own, b, free, pool⟩, got, fits⟩ := good
    have reads := wp_arrives (f := f) pool got fits
    rw [own] at reads
    exact ⟨done, way, _, relayed.run (h := .bytes d) reads fits moved⟩
  | close =>
    obtain ⟨own, b, free, pool⟩ := good
    have closes := wp_tcpForwardClosing (f := f) pool
    rw [own] at closes
    exact ⟨done, way, _, relayed.run (h := .closed) closes (by decide) moved⟩
  | work w =>
    cases moved
    exact ⟨done, way, rest, relayed.reached, relayed.handed, relayed.frames, relayed.messages, relayed.outputs, relayed.fits⟩
  | deliver random =>
    obtain ⟨conn, mgr, ref, p, listens⟩ := good
    cases rest with
    | nil =>
      rw [Relaying.move, relayed.frames] at moved
      cases moved
    | cons h rest =>
      rw [Relaying.move, relayed.frames, List.map_cons] at moved
      exact ⟨done, _, rest, relayed.deliver listens moved⟩
  | happen e => exact ⟨done, way, rest, relayed.beside good.1 good.2 moved⟩
  | receive =>
    cases way with
    | nil =>
      rw [Relaying.move, relayed.messages] at moved
      cases moved
    | cons h way => exact ⟨_, way, rest, relayed.receive moved⟩
  | socket bytes =>
    cases moved
    refine ⟨done, way, rest, relayed.reached, relayed.handed, relayed.frames, relayed.messages, ?_, relayed.fits⟩
    rw [filter_onData]
    exact relayed.outputs

theorem relayed_of_reach (reached : Reach (move f c browser args) (Good f seq c browser) Begins x) :
    ∃ done way rest, Relayed seq x done way rest := by
  apply reached.invariant
  · intro x begins
    refine ⟨[], [], [], begins.reached, begins.handed, begins.frames, begins.messages, ?_, by simp⟩
    rw [List.flatMap_nil, List.filter_eq_nil_iff]
    intro output member
    simp [begins.untouched output member]
  · intro x a y relayed good moved
    obtain ⟨_, _, _, relayed⟩ := relayed
    exact relayed.move good moved

/-! What has reached the local socket when nothing is on its way. -/

/-- Of the pieces, those that have the property make up the whole only if all have it. -/
theorem flatten_filter_eq_iff {α : Type} {p : List α → Prop} [DecidablePred p] (pieces : List (List α))
    (some_ : ∀ l, ¬ p l → l ≠ []) : (pieces.filter p).flatten = pieces.flatten ↔ ∀ l ∈ pieces, p l := by
  have shorter : ∀ pieces : List (List α), (pieces.filter p).flatten.length ≤ pieces.flatten.length :=
    fun pieces => List.Sublist.length_le (List.Sublist.flatten List.filter_sublist)
  constructor
  · intro whole
    induction pieces with
    | nil => simp
    | cons l rest ih =>
      by_cases holds : p l
      · rw [List.filter_cons_of_pos (by simpa using holds), List.flatten_cons, List.flatten_cons, List.append_cancel_left_eq] at whole
        exact List.forall_mem_cons.mpr ⟨holds, ih whole⟩
      · have missing := congrArg List.length whole
        rw [List.filter_cons_of_neg (by simpa using holds), List.flatten_cons, List.length_append] at missing
        have left := shorter rest
        have positive := List.length_pos_iff.mpr (some_ l holds)
        omega
  · intro all
    rw [List.filter_eq_self.mpr (by simpa using all)]

theorem ne_nil_of_beginsClosed {d : List Byte} (begins : BeginsClosed d) : d ≠ [] := by
  rintro rfl
  exact absurd (List.prefix_nil.mp begins.1) (by decide)

theorem beginsClosed_closed : BeginsClosed Handed.closed.data := by decide +kernel

/-- The reads that are taken for a notice are not written. -/
theorem written_passed (handed : List Handed) :
    written (handed.flatMap passed) = ((handed.filterMap bytesOf).filter fun d => ¬ BeginsClosed d).flatten := by
  induction handed with
  | nil => rfl
  | cons h rest ih =>
    have front : written (passed h ++ rest.flatMap passed) = written (passed h) ++ written (rest.flatMap passed) := by
      rw [written, List.filterMap_append, List.flatten_append]
      rfl
    rw [List.flatMap_cons, front, ih, passed]
    cases h with
    | closed =>
      rw [if_pos beginsClosed_closed]
      rfl
    | bytes d =>
      rw [show (Handed.bytes d :: rest).filterMap bytesOf = d :: rest.filterMap bytesOf from rfl, Handed.data]
      by_cases begins : BeginsClosed d
      · rw [if_pos begins, List.filter_cons_of_neg (by simpa using begins)]
        rfl
      · rw [if_neg begins, List.filter_cons_of_pos (by simpa using begins)]
        exact congrArg (· ++ _) (List.append_nil d)

theorem endSocket_mem_passed (handed : List Handed) :
    .endSocket ∈ handed.flatMap passed ↔ ∃ h ∈ handed, BeginsClosed h.data := by
  rw [List.mem_flatMap]
  apply exists_congr
  intro h
  apply and_congr_right'
  rw [passed]
  split
  next begins => simp [begins]
  next goesOn => simp [goesOn]

/-- What is written to the socket and whether it is ended is settled by the outputs for it. -/
theorem written_filter (outputs : List Proxy.Service.Output) : written (outputs.filter other) = written outputs := by
  rw [written, List.filterMap_filter, written]
  apply congrArg List.flatten
  apply List.filterMap_congr
  intro output _
  cases output <;> rfl

/-- When nothing is on its way, the local socket was given what the host sent, and was ended only for a
closed forward, exactly if no read begins like a closing notice. -/
theorem transparent_iff (reached : Reach (move f c browser args) (Good f seq c browser) Begins x) (noFrame : x.frames = [])
    (noMessage : x.messages = []) : Transparent x ↔ ∀ d, .bytes d ∈ x.handed → ¬ BeginsClosed d := by
  obtain ⟨done, way, rest, relayed⟩ := relayed_of_reach reached
  obtain rfl : rest = [] := List.map_eq_nil_iff.mp (relayed.frames.symm.trans noFrame)
  obtain rfl : way = [] := List.map_eq_nil_iff.mp (relayed.messages.symm.trans noMessage)
  have all : x.handed = done := by simpa using relayed.handed
  have listed : ∀ d, d ∈ x.handed.filterMap bytesOf ↔ .bytes d ∈ x.handed := by
    intro d
    rw [List.mem_filterMap]
    constructor
    · rintro ⟨h, member, same⟩
      cases h <;> cases same
      exact member
    · exact fun member => ⟨_, member, rfl⟩
  have bytes : written x.proxy.out = ((x.handed.filterMap bytesOf).filter fun d => ¬ BeginsClosed d).flatten := by
    rw [← written_filter, relayed.outputs, written_passed, all]
  have whole : written x.proxy.out = fromHost x.handed ↔ ∀ d, .bytes d ∈ x.handed → ¬ BeginsClosed d := by
    rw [bytes, fromHost, flatten_filter_eq_iff _ fun d begins => ne_nil_of_beginsClosed (not_not.mp begins)]
    exact forall_congr' fun d => imp_congr_left (listed d)
  have ended : .endSocket ∈ x.proxy.out ↔ ∃ h ∈ x.handed, BeginsClosed h.data := by
    rw [all, ← endSocket_mem_passed, ← relayed.outputs, List.mem_filter]
    exact (and_iff_left rfl).symm
  constructor
  · exact fun transparent => whole.mp transparent.bytes
  · intro none
    refine ⟨whole.mpr none, fun ends => ?_⟩
    obtain ⟨h, member, begins⟩ := ended.mp ends
    cases h with
    | bytes d => exact absurd begins (none d member)
    | closed => exact member

end

/-! Two reads of an open forward: bytes like any others, and the text of a closing notice. -/

def router : Args := ⟨"router".toList, 80⟩

/-- The forward is open on the device and on the server, and the local proxy has asked for it. -/
def openTunnel (w : DevState) (s : ServerState) : Tunnel :=
  ⟨w, [], s, [], .run router .init [.message 0 handshake []], []⟩

def openServer : Option ServerState := runEnabled Server.Freeing.oneForward

/-- A read of an open forward, its way through the server and its arrival at the proxy. -/
def passingOn : Test (Good 0 0 0 1) where
  passes
    | x, .read d => decide ((x.device.data.forwards 0).seq = 0) && ((x.device.rings.items .caches).any fun l => !l.isEmpty) &&
      decide (d ≠ []) && decide (d.length ≤ httpBufSize - (httpCHeaderLen + 4))
    | x, .deliver _ => browserOpen x.server &&
      (x.server.conns 0).any fun conn => conn.isOpen && decide (conn.user = .str Server.Freeing.user)
    | _, .receive => true
    | _, _ => false
  sound x a passes := by
    cases a with
    | read d =>
      simp only [Bool.and_eq_true, decide_eq_true_eq, Option.any_eq_true] at passes
      obtain ⟨⟨⟨own, l, pool, some_⟩, got⟩, fits⟩ := passes
      cases l with
      | nil => cases some_
      | cons b free => exact ⟨⟨own, b, free, pool⟩, got, fits⟩
    | deliver random =>
      simp only [browserOpen, Bool.and_eq_true, decide_eq_true_eq, Option.any_eq_true] at passes
      obtain ⟨⟨manager, isForward⟩, conn, found, isOpen, user⟩ := passes
      obtain ⟨mgr, known, table⟩ := Option.map_eq_some_iff.mp manager
      obtain ⟨idle, live⟩ := Prod.mk.injEq _ _ _ _ ▸ table
      have isDevice : conn.user ≠ .undefined := by
        rw [user]
        simp
      exact ⟨conn, mgr, ⟨0, 0⟩, ⟨1, 0, 0⟩, found, isOpen, isDevice, user ▸ known, idle, live, isForward, rfl⟩
    | receive => trivial
    | close | work | happen | socket => cases passes

/-- The tunnel once one read has reached the proxy. -/
def passOn (d : List Byte) : Option Tunnel :=
  forwarding.bind fun w => openServer.bind fun s =>
    passingOn.run (move 0 0 1 router) (openTunnel w s) [.read d, .deliver 0, .receive]

theorem untouched_asked : ∀ output ∈ (ProxyService.run router .init [.message 0 handshake []]).out, other output = false := by
  decide +kernel

theorem begins_openTunnel (w : DevState) {s : ServerState} (reached : Reach Server.Events.step Enabled Server.Events.Starts s) :
    Begins (openTunnel w s) := ⟨reached, rfl, rfl, rfl, untouched_asked⟩

theorem reached_of_passOn {d : List Byte} {x : Tunnel} (ran : passOn d = some x) :
    Reach (move 0 0 1 router) (Good 0 0 0 1) Begins x := by
  rw [passOn, Option.bind_eq_some_iff] at ran
  obtain ⟨w, _, ran⟩ := ran
  rw [Option.bind_eq_some_iff] at ran
  obtain ⟨s, served, ran⟩ := ran
  exact Test.reach (begins_openTunnel w (reach_of_runEnabled served)) ran

def arrived (d : List Byte) (x : Tunnel) : Bool :=
  decide (x.frames = []) && decide (x.messages = []) && decide (x.handed = [.bytes d])

theorem passOn_hi : (passOn (text "hi")).map (arrived (text "hi")) = some true := by
  decide +kernel

theorem transparent_hi : ∃ x, Reach (move 0 0 1 router) (Good 0 0 0 1) Begins x ∧ x.handed = [.bytes (text "hi")] ∧
    Transparent x := by
  obtain ⟨x, ran, here⟩ := Option.map_eq_some_iff.mp passOn_hi
  simp only [arrived, Bool.and_eq_true, decide_eq_true_eq] at here
  obtain ⟨⟨noFrame, noMessage⟩, handed⟩ := here
  have reached := reached_of_passOn ran
  refine ⟨x, reached, handed, (transparent_iff reached noFrame noMessage).mpr fun d member => ?_⟩
  rw [handed, List.mem_singleton] at member
  cases member
  decide +kernel

theorem passOn_notice : (passOn (text "CLOSED!")).map (fun x => arrived (text "CLOSED!") x && decide (.endSocket ∈ x.proxy.out)) =
    some true := by
  decide +kernel

/-- The host's own bytes end the local socket. -/
theorem not_always_transparent : ¬ ∀ (f : FwdId) (seq : Nat) (c browser : ConnId) (args : Args) (x : Tunnel),
    Reach (move f c browser args) (Good f seq c browser) Begins x → x.frames = [] → x.messages = [] → Transparent x := by
  intro always
  obtain ⟨x, ran, here⟩ := Option.map_eq_some_iff.mp passOn_notice
  simp only [arrived, Bool.and_eq_true, decide_eq_true_eq] at here
  obtain ⟨⟨⟨noFrame, noMessage⟩, handed⟩, ended⟩ := here
  have closed := (always 0 0 0 1 router x (reached_of_passOn ran) noFrame noMessage).ends ended
  rw [handed, List.mem_singleton] at closed
  cases closed

end WebTunnel.System.Relaying
