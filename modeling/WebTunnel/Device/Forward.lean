import WebTunnel.Device.Http

/-! Forwards: connections into the LAN whose bytes are passed on in both directions. -/

namespace WebTunnel.Device.Forward
open Library.Bytes Library.Lists Library.Routines Library.Routines.Routine Function Device.Types Buffers Parsing

def setForwardLine (f : FwdId) (line : CcrLine) : DevM Unit := do
  setForward f { ← getForward f with line }

def setForwardCurr (f : FwdId) (curr : Option BufId) : DevM Unit := do
  let fwd ← getForward f
  setForward f { fwd with bufWrite := { fwd.bufWrite with curr } }

/-- Waits for the socket to take bytes, and starts the coroutine that writes them. -/
def forwardToWrite (f : FwdId) : DevM Unit := do
  let fwd ← getForward f
  setForward f { fwd with funcRun := .write }
  setEvents (.forward f) fwd.pfd fun events => (events ||| pollOut) &&& ~~~pollIn
  setForwardLine f .start

/-- Waits for bytes from the socket, and lets the forward read them. -/
def forwardToRead (f : FwdId) : DevM Unit := do
  let fwd ← getForward f
  setEvents (.forward f) fwd.pfd fun events => events &&& ~~~pollOut ||| pollIn
  setForward f { ← getForward f with funcRun := .read, line := .start, idle := true }

def tcpForwardClosing (f : FwdId) : DevM Int := do
  match ← allocBuf with
  | none => return -1
  | some b =>
    let info ← getBuf b
    setBuf b { info with start := 0, len := websockMinPackSize, totalLen := websockMinPackSize }
    let fwd ← getForward f
    memcpy b 0 (headerMem httpCForwardResp (htons fwd.seq) (htonl websockMinPackSize))
    memcpy b (httpCHeaderLen + 4) (List.replicate (websockMinPackSize - (httpCHeaderLen + 4)) 0)
    memcpy b (httpCHeaderLen + 4) (text "CLOSED!" ++ [0])
    memcpy b httpCHeaderLen (bytesLE 4 (htonl ((text "CLOSED!").length + 1)))
    listAddTail b .toserver
    note (.queue (some (.forward f)) httpCForwardResp fwd.seq [← bytesAt b 0 websockMinPackSize])
    httpMgmtToserver
    return 0

def tcpForwardRelease (f : FwdId) : DevM Unit := do
  note (.release (.forward f))
  let _ ← tcpForwardClosing f
  setForward f { ← getForward f with status := .finish }
  let d ← data
  demand (f ∈ d.listForward) .list
  modify fun d => { d with listForward := d.listForward.erase f }
  let fwd ← getForward f
  when (0 < fwd.fwdFd) do dropFd fwd.fwdFd
  freeBuf fwd.bufWrite.curr
  listSplice (.fwdWrite f) .caches
  modify fun d => { d with lenForward := d.lenForward - 1 }

def tcpForwardConnect (f : FwdId) : DevM CallerStatus := do
  let fwd ← getForward f
  match fwd.line with
  | .start | .inProgress | .failed =>
    let pfd ← getPollFd (← deref fwd.pfd)
    let rc ← (if pfd.revents = pollOut then pure 0 else sysConnect (.forward f) fwd.host fwd.port)
    let d ← data
    if 0 ≤ rc then
      forwardToRead f
      return .pending
    else if d.errno = .already ∨ d.errno = .inProgress then
      setEvents (.forward f) fwd.pfd fun events => events &&& ~~~pollIn ||| pollOut
      setForwardLine f .inProgress
      return .continue
    else
      setForwardLine f .failed
      return .finish
  | _ =>
    setForwardLine f .start
    return .pending

/-- Accounts for the bytes the socket took; `none` when the buffer is done and the next one
is current, otherwise the coroutine gives way. -/
def forwardWrote (f : FwdId) (b : BufId) (n : Int) : DevM (Option CallerStatus) := do
  let info ← getBuf b
  setBuf b { info with len := info.len - n }
  if 0 < info.len - n then
    let info ← getBuf b
    setBuf b { info with start := info.start + n }
    setForwardLine f .partly
    return some .pending
  else
    listDel b
    freeBuf (some b)
    setForwardCurr f (← nextBufInfo (.fwdWrite f))
    return none

/-- The loop over the queued buffers, of which there cannot be more than the pool has. -/
def forwardWriteLoop (f : FwdId) : Nat → DevM CallerStatus
  | 0 => .stop .endless
  | count + 1 => do
    match (← getForward f).bufWrite.curr with
    | none =>
      forwardToRead f
      return .pending
    | some b =>
      let info ← getBuf b
      let n ← sysWrite (.forward f) (← bytesAt b info.start info.len)
      let d ← data
      if n < 0 then
        if d.errno = .intr ∨ d.errno = .again then
          setForwardLine f .again
          return .pending
        else
          setForwardLine f .broken
          return .finish
      else if n = 0 ∧ d.errno ≠ .intr ∧ d.errno ≠ .again then
        setForwardLine f .broken
        return .finish
      else
        match ← forwardWrote f b n with
        | some status => return status
        | none => forwardWriteLoop f count

def tcpForwardWrite (f : FwdId) : DevM CallerStatus := do
  let fwd ← getForward f
  setForward f { fwd with idle := false }
  match fwd.line with
  | .start =>
    assert (fwd.bufWrite.curr = none)
    setForwardCurr f (← nextBufInfo (.fwdWrite f))
    forwardWriteLoop f (httpBufCaches + 1)
  | .partly => forwardWriteLoop f (httpBufCaches + 1)
  | .again | .broken =>
    -- The coroutine comes back behind the call of `write`, with nothing written.
    let b ← deref fwd.bufWrite.curr
    match ← forwardWrote f b 0 with
    | some status => return status
    | none => forwardWriteLoop f (httpBufCaches + 1)
  | _ =>
    setForwardLine f .start
    return .pending

/-- Lays out the frame that carries bytes from the LAN, padded to the least size of a message. -/
def layForward (b : BufId) (seq : Nat) (bytes : List Byte) : DevM Nat := do
  let headerLen := httpCHeaderLen + 4
  memcpy b headerLen bytes
  memcpy b httpCHeaderLen (bytesLE 4 (htonl bytes.length))
  let len := bytes.length + headerLen
  when (len < websockMinPackSize) do
    memcpy b len (List.replicate (websockMinPackSize - len) 0)
  let len := max len websockMinPackSize
  let info ← getBuf b
  setBuf b { info with start := 0, len, totalLen := len }
  memcpy b 0 (headerMem httpCForwardResp (htons seq) (htonl len))
  return len

def tcpForwardRead (f : FwdId) : DevM CallerStatus := do
  let fwd ← getForward f
  setForward f { fwd with idle := false }
  match ← allocBuf with
  | none =>
    setForward f { ← getForward f with idle := true }
    return .pending
  | some b =>
    let got ← sysRead (.forward f) (httpBufSize - (httpCHeaderLen + 4 : Nat))
    match got with
    | some (byte :: rest) =>
      let len ← layForward b fwd.seq (byte :: rest)
      listAddTail b .toserver
      note (.queue (some (.forward f)) httpCForwardResp fwd.seq [← bytesAt b 0 len])
      httpMgmtToserver
      when (¬ (← listEmpty (.fwdWrite f))) do forwardToWrite f
      setForward f { ← getForward f with idle := true }
      return .pending
    | _ =>
      let d ← data
      freeBuf (some b)
      setForward f { ← getForward f with idle := true }
      if got.isSome ∨ (d.errno ≠ .intr ∧ d.errno ≠ .again) then
        return .finish
      else
        return .pending

def runForward (f : FwdId) : DevM CallerStatus := do
  match (← getForward f).funcRun with
  | .connect => tcpForwardConnect f
  | .write => tcpForwardWrite f
  | .read => tcpForwardRead f

/-- A new forward, which is going to connect. -/
def forwardOpen (sockfd : Int) (address port seq : Nat) : DevM Unit := do
  let d ← data
  let f := d.nextForward
  modify fun d => { d with nextForward := f + 1 }
  note (.socket (.forward f) sockfd)
  initListHead (.fwdWrite f)
  let pfd ← mgmtAddFd sockfd (pollIn ||| pollErr ||| pollHup)
  setLookup sockfd (some (.forward f))
  setForward f
    { line := .start
      status := .ready
      funcRun := .connect
      bufWrite := .zero
      idle := true
      pfd
      fwdFd := sockfd
      host := address
      port
      seq }
  modify fun d => { d with listForward := f :: d.listForward, lenForward := d.lenForward + 1 }

def tcpForwardCreate (seq : Nat) (host : List Byte) (port : Nat) : DevM Int := do
  let sockfd ← sysSocket
  if sockfd = -1 then
    return -1
  else
    let address ← nameResolve host
    forwardOpen sockfd address port seq
    return 0

/-- The forward of a session: the one opened last, if there are more. -/
def findForward (seq : Nat) : DevM (Option FwdId) := do
  let d ← data
  return d.listForward.find? fun f => (d.forwards f).seq = seq

/-- Opens a forward or closes one, as the first buffer of the frame says. -/
def forwardCommand : DevM Int := do
  let d ← data
  let b ← deref (← nextBufInfo .prepare)
  let seq := natBE (← bytesAt b 0 2)
  let port := natBE (← bytesAt b 2 2)
  let type := natBE (← bytesAt b 4 4)
  if type = 1 then
    match ← findForward d.bufPrepare.seq with
    | none => return -1
    | some f =>
      tcpForwardRelease f
      releasePrepare
      return 0
  else
    let info ← getBuf b
    -- The host name and two zeros behind it have room for 128 bytes.
    demand (info.len - 8 + 2 ≤ 128) .outOfBounds
    let host := cString (← bytesAt b 8 (info.len - 8))
    let _ ← tcpForwardCreate seq host port
    releasePrepare
    return 0

/-- A request of the server to open a forward or to close one. -/
def processTcpForward : DevM Int := do
  let d ← data
  if d.bufPrepare.len < 8 then
    return -1
  else
    forwardCommand

/-- Data from the server for a forward. -/
def processTcpForwardresp : DevM Int := do
  let d ← data
  match ← findForward d.bufPrepare.seq with
  | none => return -1
  | some f =>
    listSpliceTailInit .prepare (.fwdWrite f)
    assert ((← data).bufPrepare.curr = none)
    releasePrepare
    when (← getForward f).idle do forwardToWrite f
    return 0

end WebTunnel.Device.Forward
