import WebTunnel.Device.Tunnel
import WebTunnel.Library.Run

/-! The manager as a whole: frames from the server, its event loop, and the device as a
transition system. -/

namespace WebTunnel.Device.Manager
open Library.Bytes Library.Lists Library.Routines Library.Routines.Routine Function Device.Types Buffers Http
open Forward Tunnel

def setSync (sync : Bool) : DevM Unit :=
  modify fun d => { d with syncPrepare := sync, syncTime := d.now }

/-- What is done with a frame that is complete. -/
def dispatch (type : Nat) : DevM Unit := do
  if type = httpCHand then
    match ← nextBufInfo .prepare with
    | none => return
    | some b =>
      let bytes ← bytesAt b 0 4
      modify fun d => { d with clientId := natBE bytes, shakehand := true }
      releasePrepare
  else if type = httpCTunnelReq then
    when ((← processTunnelReq) ≠ 0) do releasePrepare
  else if type = httpCTunnelResp then
    when ((← processTunnelResp) ≠ 0) do releasePrepare
  else if type = httpCReq then
    when ((← httpContextCreate 10) ≠ 0) do releasePrepare
  else if type = httpCForward then
    when ((← processTcpForward) ≠ 0) do releasePrepare
  else
    when (type = httpCForwardReq) do
      when ((← processTcpForwardresp) ≠ 0) do releasePrepare
    -- There is no `break` behind the data of forwards.
    releasePrepare

def prepareProcess : DevM Unit := do
  let d ← data
  dispatch d.bufPrepare.type
  setPrepare fun pbuf => { pbuf with len := 0, totalLen := 0, type := 0 }
  setSync false

/-- The header in front of a frame from the server. -/
structure FrameHeader where
  type : Nat
  seq : Nat
  length : Nat

/-- The header of a fragment that begins with the protocol's magic and version. -/
def readHeader (buf : List Byte) : Option FrameHeader :=
  if natLE (buf.take 4) = htonl httpCMagic ∧ natBE ((buf.drop 4).take 1) = httpCVersion then
    some ⟨natBE ((buf.drop 5).take 1), htons (natLE ((buf.drop 6).take 2)), htonl (natLE ((buf.drop 8).take 4))⟩
  else none

/-- How the reception of a fragment ends: with a value that is returned, or with a frame
that is complete. -/
inductive Received where
  | returned (rc : Int)
  | complete

/-- Looks for a header, unless a frame is under way, and leaves the payload. -/
def prepareHeader (buf : List Byte) : DevM (Except Int (List Byte)) := do
  if (← data).syncPrepare then
    return .ok buf
  else if buf.length < httpCHeaderLen then
    return .error 10
  else
    match readHeader buf with
    | none => return .error 11
    | some header =>
      releasePrepare
      if httpInMax < header.length then
        return .error 12
      else
        setSync true
        let totalLen := toInt32 (toUnsigned 32 ((header.length : Int) - httpCHeaderLen))
        setPrepare fun pbuf => { pbuf with totalLen, type := header.type, seq := header.seq }
        return .ok (buf.drop httpCHeaderLen)

/-- The current buffer, or a new one. -/
def prepareBuf : Option BufId → DevM (Option BufId)
  | some b => return some b
  | none => do
    match ← allocBuf with
    | none =>
      releasePrepare
      return none
    | some b =>
      setPrepare fun pbuf => { pbuf with curr := some b }
      return some b

/-- Puts bytes behind those the buffer holds and sees whether the frame is complete. -/
def prepareFill (b : BufId) (buf : List Byte) : DevM Received := do
  let info ← getBuf b
  memcpy b info.start buf
  let info ← getBuf b
  let start := info.start + buf.length
  setBuf b { info with start }
  let pbuf := (← data).bufPrepare
  let tmpLen := start + pbuf.len
  if pbuf.totalLen ≤ tmpLen then
    let info ← getBuf b
    setBuf b { info with start := start - (tmpLen - pbuf.totalLen) }
    savePrepare b
    return .complete
  else
    return .returned 0

/-- Stores a part of the payload. A buffer with no room for the bytes is saved, and a new
one has room for them. -/
def prepareStore (bufInfo : Option BufId) (payload : List Byte) : DevM Received := do
  match ← prepareBuf bufInfo with
  | none => return .returned 4
  | some b =>
    if (httpBufSize : Int) < (← getBuf b).start + payload.length then
      savePrepare b
      match ← prepareBuf none with
      | none => return .returned 4
      | some b => prepareFill b payload
    else
      prepareFill b payload

/-- What `http_mgmt_prepare` does with a fragment before it processes the frame. -/
def collect (buf : List Byte) : DevM Received := do
  let bufInfo := (← data).bufPrepare.curr
  assert (buf.length < httpBufSize)
  match ← prepareHeader buf with
  | .error rc => return .returned rc
  | .ok payload =>
    if payload = [] then
      return .returned 0
    else
      prepareStore bufInfo payload

def httpMgmtPrepare (buf : List Byte) : DevM Int := do
  match ← collect buf with
  | .returned rc => return rc
  | .complete =>
    prepareProcess
    return 0

/-! The event loop. -/

def httpMgmtParamInit : DevM Unit :=
  modify fun d =>
    { d with
      bufPrepare := { d.bufPrepare with curr := none, len := 0, totalLen := 0 }
      bufToserver := { d.bufToserver with curr := none, len := 0, totalLen := 0 }
      syncPrepare := false
      toserver := false
      shakehand := false
      totalProcess := 0
      clientId := 0
      lastAliveTime := d.now }

def clearRevents (slot : Nat) : DevM Unit := do
  setPollFd slot { ← getPollFd slot with revents := 0 }

def serviceHttp (c : CtxId) (revents : PollEvents) : DevM Unit := do
  if revents &&& (pollErr ||| pollHup) ≠ 0 then
    when ((← getCtx c).status = .ready) do unready c
    when ((← getCtx c).state = .read) do
      let _ ← httpContextFinish c
    httpContextRelease c
  else
    httpContextExecute c

def serviceClient (k : ClientId) (revents : PollEvents) : DevM Unit := do
  if revents &&& (pollErr ||| pollHup) ≠ 0 then
    tcpClientRelease k
  else
    match ← runClient k with
    | .finish => tcpClientRelease k
    | status => setClient k { ← getClient k with status := statusAfter status }

def serviceForward (f : FwdId) : DevM Unit := do
  match ← runForward f with
  | .finish => tcpForwardRelease f
  | status => setForward f { ← getForward f with status := statusAfter status }

def serviceServer : DevM Unit := do
  let status ← tcpServerCallback
  setServer fun server => { server with status := statusAfter status }

/-- A client or forward that was released may still be found, but its memory was freed. -/
def serviceOwner (owner : Owner) (revents : PollEvents) : DevM Unit := do
  match owner with
  | .server => serviceServer
  | .http c => serviceHttp c revents
  | .client k =>
    demand (k ∈ (← data).listClient) .freed
    serviceClient k revents
  | .forward f =>
    demand (f ∈ (← data).listForward) .freed
    serviceForward f

def httpMgmtService (slot : Nat) : DevM Int := do
  let pfd ← getPollFd slot
  if pfd.revents = 0 then
    return -1
  else
    match (← data).httpLookup pfd.fd with
    | none => return 0
    | some owner =>
      serviceOwner owner pfd.revents
      clearRevents slot
      return 0

/-- Releases a context whatever it is doing. -/
def forceRelease (c : CtxId) : DevM Unit := do
  when ((← getCtx c).status = .ready) do unready c
  httpContextRelease c

def releaseExpired : List CtxId → DevM Unit
  | [] => pure ()
  | c :: rest => do
    let d ← data
    when ((d.ctxs c).timeout ≤ d.now) do
      forceRelease c
      releaseExpired rest

def httpMgmtRunTimeout : DevM Unit := do
  releaseExpired (← data).listTimeout

def httpMgmtReleaseAll : DevM Unit := do
  releasePrepare
  (← data).listTimeout.forM forceRelease

def httpMgmtRun : DevM Unit := do
  let d ← data
  modify fun d => { d with
    running := d.listReady 0 ++ d.listReady 1
    listReady := update (update d.listReady 0 []) 1 [] }
  (d.listReady 0 ++ d.listReady 1).forM httpContextExecute
  demand ((← data).running = []) .list
  tcpServerRun
  let d ← data
  when (d.syncPrepare ∧ httpTimeoutSecs < d.now - d.syncTime) do
    modify fun d => { d with syncPrepare := false }
  when (4 * httpTimeoutSecs < d.now - d.lastAliveTime) websocketClosed

/-! The device as a transition system. -/

/-- What happens to the device: the callbacks of the WebSocket library, the rounds of the
main loop, and the loss of the connection, after which it makes a new one. -/
inductive Event where
  | established
  | receive (buf : List Byte)
  | writable
  | addPollFd (fd : Int) (events : PollEvents)
  | delPollFd (fd : Int)
  | changeModePollFd (fd : Int) (events : PollEvents)
  | poll (revents : Nat → PollEvents)
  | service (slot : Nat)
  | run
  | runTimeout
  | reconnect

def callbackWriteable : DevM Int := do
  when (¬ (← data).shakehand) httpMgmtHandshake
  httpMgmtWritable

def handle : Event → DevM Unit
  | .established => websocketWriteAgain
  | .receive buf => do
    let _ ← httpMgmtPrepare buf
  | .writable => do
    let _ ← callbackWriteable
  | .addPollFd fd events => do
    let _ ← mgmtAddFd fd events
  | .delPollFd fd => do
    let _ ← mgmtDelFd fd
  | .changeModePollFd fd events => do
    let slot := (← data).fdLookup fd
    setPollFd slot { ← getPollFd slot with events }
  | .poll revents =>
    modify fun d => { d with
      pollfds := fun slot =>
        if slot < d.countPollfds then { d.pollfds slot with revents := revents slot } else d.pollfds slot }
  | .service slot => do
    -- The main loop notes the time; what the library does with the descriptor in between does not read it.
    when ((← getPollFd slot).revents ≠ 0) do
      modify fun d => { d with lastAliveTime := d.now }
    let _ ← httpMgmtService slot
  | .run => httpMgmtRun
  | .runTimeout => httpMgmtRunTimeout
  | .reconnect => do
    httpMgmtReleaseAll
    httpMgmtParamInit

/-- An event at a time, with the answers the system gives to the calls made for it. -/
structure Occasion where
  event : Event
  now : Int
  replies : List Reply

def step (w : DevState) (o : Occasion) : Option DevState :=
  match (handle o.event).run { w with data := { w.data with now := o.now, replies := o.replies } } with
  | .ok (_, v) => some v
  | .error _ => none

/-! The manager after `http_mgmt_init` and `http_mgmt_param_init`. -/

def initData (username localHost : List Byte) (localPort maxFds servFd now : Int) : HttpMgmt where
  bufs _ := ⟨fun _ => 0, 0, 0, 0⟩
  ctxs _ := .zero
  clients _ := ⟨.start, .pending, .read, none, 0, .zero, .zero, 0, false, false⟩
  forwards _ := ⟨.start, .pending, .connect, .zero, true, none, 0, 0, 0, 0⟩
  listReady _ := []
  running := []
  readyLen := 0
  listTimeout := []
  totalAdd := 0
  totalProcess := 0
  maxFds := maxFds
  pollfds _ := ⟨servFd, pollIn ||| pollErr ||| pollHup, 0⟩
  fdLookup _ := 0
  countPollfds := 1
  httpLookup fd := if fd = servFd then some .server else none
  bufPrepare := .zero
  syncPrepare := false
  syncTime := 0
  lastAliveTime := now
  bufToserver := .zero
  toserver := false
  shakehand := false
  clientId := 0
  username := username
  localHost := localHost
  localPort := localPort
  tcpServer := ⟨.start, .pending, 0, servFd, 0⟩
  listClient := []
  nextClient := 0
  listForward := []
  lenForward := 0
  nextForward := 0
  ctxCaches := (List.finRange callerCaches).reverse
  now := now
  errno := .other
  replies := []
  acts := []

/-- The buffers hang in the pool, the one added last in front. -/
def initRings : Rings BufHead BufId where
  items
    | .caches => some (List.finRange httpBufCaches).reverse
    | .prepare => some []
    | .toserver => some []
    | _ => none
  home _ := some .caches
  linked b h := by
    cases h <;> simp
  nodup h l found := by
    cases h
    case caches =>
      cases found
      exact List.nodup_reverse.mpr (List.nodup_finRange _)
    case prepare | toserver =>
      cases found
      exact List.nodup_nil
    all_goals cases found

def Starts (w : DevState) : Prop :=
  ∃ username localHost localPort maxFds servFd now,
    w = ⟨initData username localHost localPort maxFds servFd now, initRings⟩

end WebTunnel.Device.Manager
