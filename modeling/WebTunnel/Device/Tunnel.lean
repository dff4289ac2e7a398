import WebTunnel.Device.Forward

/-! Tunnel clients: programs on the device that send requests to the server and are sent its
answers and events, all of it enciphered. -/

namespace WebTunnel.Device.Tunnel
open Library.Bytes Library.Lists Library.Routines Library.Routines.Routine Function Device.Types Buffers

abbrev Word := BitVec 32

def hash (x : Word) : Word :=
  let x := ((x >>> 16) ^^^ x) * 0x45d9f3b
  let x := ((x >>> 16) ^^^ x) * 0x45d9f3b
  (x >>> 16) ^^^ x

structure Key where
  k0 : Word
  k1 : Word
  k2 : Word
  k3 : Word

/-- The key of the minute the clock shows. -/
def generateKey (now : Int) : Key :=
  let t := BitVec.ofInt 32 now
  ⟨0x53726438, 0x89742910, 0x47492018, hash ((t + 59) / 60)⟩

def delta : Word := 0x9e3779b9

def encryRound (k : Key) (sum : Word) (v : Word × Word) : Word × Word :=
  let v0 := v.1 + (((v.2 <<< 4) + k.k0) ^^^ (v.2 + sum) ^^^ ((v.2 >>> 5) + k.k1))
  let v1 := v.2 + (((v0 <<< 4) + k.k2) ^^^ (v0 + sum) ^^^ ((v0 >>> 5) + k.k3))
  (v0, v1)

def decryRound (k : Key) (sum : Word) (v : Word × Word) : Word × Word :=
  let v1 := v.2 - (((v.1 <<< 4) + k.k2) ^^^ (v.1 + sum) ^^^ ((v.1 >>> 5) + k.k3))
  let v0 := v.1 - (((v1 <<< 4) + k.k0) ^^^ (v1 + sum) ^^^ ((v1 >>> 5) + k.k1))
  (v0, v1)

def encryRounds (k : Key) : Nat → Word → Word × Word → Word × Word
  | 0, _, v => v
  | rounds + 1, sum, v => encryRounds k rounds (sum + delta) (encryRound k (sum + delta) v)

def decryRounds (k : Key) : Nat → Word → Word × Word → Word × Word
  | 0, _, v => v
  | rounds + 1, sum, v => decryRounds k rounds (sum - delta) (decryRound k sum v)

def encry (k : Key) (v : Word × Word) : Word × Word := encryRounds k 32 0 v
def decry (k : Key) (v : Word × Word) : Word × Word := decryRounds k 32 0xC6EF3720 v

/-- A cipher applied to the words at the beginning of some bytes, two at a time. -/
def cipherWords (cipher : Word × Word → Word × Word) : Nat → List Byte → List Byte
  | 0, bytes => bytes
  | blocks + 1, bytes =>
    let word (i : Nat) : Word := BitVec.ofNat 32 (natLE ((bytes.drop i).take 4))
    let v := cipher (word 0, word 4)
    bytesLE 4 v.1.toNat ++ bytesLE 4 v.2.toNat ++ cipherWords cipher blocks (bytes.drop 8)

/-- Enciphers or deciphers words in a buffer; their number must be even. -/
def cipherBuf (cipher : Key → Word × Word → Word × Word) (b : BufId) (offset words : Int) : DevM Unit := do
  assert (words % 2 = 0)
  let d ← data
  when (0 < words) do
    let bytes ← bytesAt b offset (4 * words)
    memcpy b offset (cipherWords (cipher (generateKey d.now)) (words / 2).toNat bytes)

def encry2 (b : BufId) (offset words : Int) : DevM Unit := cipherBuf encry b offset words
def decry2 (b : BufId) (offset words : Int) : DevM Unit := cipherBuf decry b offset words

/-! Frames from the server. -/

/-- Lets an idle client write what is queued for it. -/
def clientToWrite (k : ClientId) : DevM Unit := do
  let client ← getClient k
  when client.idle do
    setEvents (.client k) client.pfd fun events => (events ||| pollOut) &&& ~~~pollIn
    setClient k { client with line := .start, funcRun := .write, status := .ready, idle := false }

/-- The header in front of what is sent to a client; the low byte of `seq` is the client's own. -/
def clientHeader (reqSeq len : Int) (type : Nat) : List Byte :=
  headerMem type (htons (toUnsigned 32 reqSeq % 256)) (htonl (toUnsigned 32 (len + httpCHeaderLen)))

/-- Queues an event for one client. -/
def sendEvent (bufInfo : Option BufId) (k : ClientId) : DevM Unit := do
  let d ← data
  let client ← getClient k
  let new ← deref (← allocBuf)
  memcpy new 0 (clientHeader client.reqSeq d.bufPrepare.len httpCReq)
  let b ← deref bufInfo
  let info ← getBuf b
  memcpy new httpCHeaderLen (← bytesAt b 0 info.len)
  let newInfo ← getBuf new
  setBuf new { newInfo with start := 0, len := info.len + httpCHeaderLen, totalLen := info.len + httpCHeaderLen }
  listAdd new (.clientWrite k)
  clientToWrite k

def processTunnelReq : DevM Int := do
  let d ← data
  -- The comparison is one of unsigned numbers, so a negative length is too big as well.
  if d.bufPrepare.len < 0 ∨ (httpBufSize : Int) - httpCHeaderLen < d.bufPrepare.len then
    return -1
  else
    let bufInfo ← nextBufInfo .prepare
    d.listClient.forM (sendEvent bufInfo)
    releasePrepare
    return 0

def processTunnelResp : DevM Int := do
  let d ← data
  match d.listClient.find? fun k => (d.clients k).reqSeq = d.bufPrepare.seq with
  | none => return -1
  | some k =>
    let client ← getClient k
    let b ← deref (← allocBuf)
    fillBuf b (clientHeader client.reqSeq d.bufPrepare.len httpCResp) httpCHeaderLen
    listAdd b .prepare
    listSpliceTailInit .prepare (.clientWrite k)
    clientToWrite k
    return 0

/-! Requests of the clients. -/

def tcpClientSaveRead (k : ClientId) (b : BufId) : DevM Unit := do
  let info ← getBuf b
  setBuf b { info with len := info.start, totalLen := info.start, start := 0 }
  let client ← getClient k
  setClient k { client with bufRead := { client.bufRead with len := client.bufRead.len + info.start } }
  listAddTail b (.clientRead k)
  let client ← getClient k
  setClient k { client with bufRead := { client.bufRead with curr := none } }

def setClientLine (k : ClientId) (line : CcrLine) : DevM Unit := do
  setClient k { ← getClient k with line }

/-- Deciphers the header of a request and gives the request a number of its own. -/
def clientParseHeader (k : ClientId) (b : BufId) : DevM Unit := do
  decry2 b 0 (httpCHeaderLen / 4 : Nat)
  let bytes ← bytesAt b 0 httpCHeaderLen
  let d ← data
  let seq := (d.tcpServer.seq + 1) % 256
  modify fun d => { d with tcpServer := { d.tcpServer with seq } }
  let reqSeq := natBE ((bytes.drop 6).take 2) ||| (seq <<< 8)
  memcpy b 5 (bytesLE 1 httpCTunnelReq)
  memcpy b 6 (bytesLE 2 (htons (reqSeq % 2 ^ 16)))
  let client ← getClient k
  setClient k
    { client with
      reqSeq
      bufRead := { client.bufRead with totalLen := toInt32 (natBE ((bytes.drop 8).take 4)) }
      headerParsed := true }

/-- Puts the request that was read into the queue to the server. -/
def clientRequest (k : ClientId) : DevM Unit := do
  let client ← getClient k
  note (.queue (some (.client k)) httpCTunnelReq (toUnsigned 16 client.reqSeq)
    (Http.contents (← data) (← items (.clientRead k))))
  listSpliceTailInit (.clientRead k) .toserver
  setClient k { client with bufRead := { client.bufRead with len := 0, totalLen := 0 }, headerParsed := false }
  httpMgmtToserver
  setClient k { ← getClient k with idle := true }

def clientReadBuf (k : ClientId) : DevM BufId := do
  let client ← getClient k
  match client.bufRead.curr with
  | some b => return b
  | none =>
    let curr ← allocBuf
    setClient k { client with bufRead := { client.bufRead with curr } }
    deref curr

/-- Looks whether the header of a request has come, and then whether all of it has. -/
def clientReceived (k : ClientId) : DevM Unit := do
  let client ← getClient k
  when (¬ client.headerParsed) do
    let b ← deref client.bufRead.curr
    when ((httpCHeaderLen : Int) ≤ (← getBuf b).start) do clientParseHeader k b
  let client ← getClient k
  assert (client.bufRead.totalLen % 8 = 0)
  let b ← deref client.bufRead.curr
  when (client.bufRead.totalLen ≤ client.bufRead.len + (← getBuf b).start) do
    decry2 b httpCHeaderLen ((client.bufRead.totalLen - httpCHeaderLen) / 4)
    tcpClientSaveRead k b
    clientRequest k

def clientLastRead (k : ClientId) (b : BufId) : DevM Unit := do
  if (← getBuf b).start = 0 then
    freeBuf (some b)
    let client ← getClient k
    setClient k { client with bufRead := { client.bufRead with curr := none } }
  else
    tcpClientSaveRead k b

def tcpClientRead (k : ClientId) : DevM CallerStatus := do
  let client ← getClient k
  setClient k { client with idle := false }
  match client.line with
  | .start | .pending =>
    let b ← clientReadBuf k
    let info ← getBuf b
    let left := (httpBufSize : Int) - info.start
    assert (0 < left)
    let got ← sysRead (.client k) left
    match got with
    | some (byte :: rest) =>
      memcpy b info.start (byte :: rest)
      let info ← getBuf b
      setBuf b { info with start := info.start + (byte :: rest).length }
      when ((httpBufSize : Int) ≤ info.start + (byte :: rest).length) do tcpClientSaveRead k b
      clientReceived k
      setClientLine k .pending
      return .pending
    | _ =>
      let d ← data
      if got.isSome ∨ (d.errno ≠ .intr ∧ d.errno ≠ .again) then
        clientLastRead k b
        setClientLine k .finished
        return .finish
      else
        setClientLine k .pending
        return .pending
  | .finished =>
    setClientLine k .pending
    return .pending
  | _ =>
    setClientLine k .start
    return .pending

/-! What is sent to the clients. -/

def setClientCurr (k : ClientId) (curr : Option BufId) : DevM Unit := do
  let client ← getClient k
  setClient k { client with bufWrite := { client.bufWrite with curr } }

def clientWritten (k : ClientId) : DevM CallerStatus := do
  let client ← getClient k
  setEvents (.client k) client.pfd fun events => events &&& ~~~pollOut ||| pollIn
  setClient k { client with funcRun := .read, line := .start, idle := true }
  return .pending

def clientWrote (k : ClientId) (b : BufId) (n : Int) : DevM (Option CallerStatus) := do
  let info ← getBuf b
  setBuf b { info with len := info.len - n }
  if 0 < info.len - n then
    let info ← getBuf b
    setBuf b { info with start := info.start + n }
    setClientLine k .partly
    return some .pending
  else
    listDel b
    freeBuf (some b)
    setClientCurr k (← nextBufInfo (.clientWrite k))
    return none

/-- Every round enciphers the current buffer and asserts that all of it is written. -/
def clientWriteLoop (k : ClientId) : Nat → DevM CallerStatus
  | 0 => .stop .endless
  | count + 1 => do
    match (← getClient k).bufWrite.curr with
    | none => clientWritten k
    | some b =>
      let info ← getBuf b
      let len := Int.tdiv (info.len + 7) 8 * 8
      setBuf b { info with len }
      encry2 b 0 (Int.tdiv len 4)
      let n ← sysWrite (.client k) (← bytesAt b info.start len)
      assert (n = len ∧ info.start = 0)
      if n < 0 then
        let d ← data
        if d.errno = .intr ∨ d.errno = .again then
          setClientLine k .again
          return .pending
        else
          setClientLine k .broken
          return .finish
      else
        match ← clientWrote k b n with
        | some status => return status
        | none => clientWriteLoop k count

def tcpClientWrite (k : ClientId) : DevM CallerStatus := do
  let client ← getClient k
  setClient k { client with idle := false }
  match client.line with
  | .start =>
    assert (client.bufWrite.curr = none)
    setClientCurr k (← nextBufInfo (.clientWrite k))
    clientWriteLoop k (httpBufCaches + 1)
  | .partly => clientWriteLoop k (httpBufCaches + 1)
  | .again | .broken =>
    let b ← deref client.bufWrite.curr
    match ← clientWrote k b 0 with
    | some status => return status
    | none => clientWriteLoop k (httpBufCaches + 1)
  | _ =>
    setClientLine k .start
    return .pending

def runClient (k : ClientId) : DevM CallerStatus := do
  match (← getClient k).funcRun with
  | .write => tcpClientWrite k
  | _ => tcpClientRead k

def tcpClientRelease (k : ClientId) : DevM Unit := do
  note (.release (.client k))
  let d ← data
  demand (k ∈ d.listClient) .list
  modify fun d => { d with listClient := d.listClient.erase k }
  let client ← getClient k
  when (0 < client.clientFd) do dropFd client.clientFd
  freeBuf client.bufRead.curr
  listSplice (.clientRead k) .caches
  freeBuf client.bufWrite.curr
  listSplice (.clientWrite k) .caches
  modify fun d => { d with tcpServer := { d.tcpServer with clientLen := d.tcpServer.clientLen - 1 } }

/-! The listening socket. -/

def setServer (f : TcpServerContext → TcpServerContext) : DevM Unit :=
  modify fun d => { d with tcpServer := f d.tcpServer }

def tcpClientCreate (clientfd : Int) : DevM Unit := do
  let d ← data
  let k := d.nextClient
  modify fun d => { d with nextClient := k + 1 }
  note (.socket (.client k) clientfd)
  initListHead (.clientRead k)
  initListHead (.clientWrite k)
  modify fun d => { d with listClient := k :: d.listClient }
  let pfd ← mgmtAddFd clientfd (pollIn ||| pollErr ||| pollHup)
  setClient k
    { line := .start
      status := .pending
      funcRun := .read
      pfd
      clientFd := clientfd
      bufRead := .zero
      bufWrite := .zero
      reqSeq := 0
      idle := true
      headerParsed := false }
  setServer fun server => { server with clientLen := server.clientLen + 1 }
  setLookup clientfd (some (.client k))

/-- A failed `accept` is not seen: behind its own return, the coroutine goes on with a
descriptor of -1. -/
def tcpServerCallback : DevM CallerStatus := do
  let d ← data
  match d.tcpServer.line with
  | .start | .pending =>
    let clientfd ← sysSocket
    let d ← data
    if clientfd < 0 ∧ (d.errno = .intr ∨ d.errno = .again) then
      setServer fun server => { server with line := .accepting }
      return .continue
    else
      tcpClientCreate clientfd
      setServer fun server => { server with line := .pending }
      return .pending
  | .accepting =>
    tcpClientCreate (-1)
    setServer fun server => { server with line := .pending }
    return .pending
  | _ =>
    setServer fun server => { server with line := .start }
    return .pending

def statusAfter (status : CallerStatus) : CallingStatus :=
  if status = .continue then .ready else .pending

def runReadyClient (k : ClientId) : DevM Unit := do
  when ((← getClient k).status = .ready) do
    let status ← runClient k
    setClient k { ← getClient k with status := statusAfter status }

def tcpServerRun : DevM Unit := do
  let d ← data
  d.listClient.forM runReadyClient
  let d ← data
  when (d.tcpServer.status = .ready) do
    let status ← tcpServerCallback
    setServer fun server => { server with status := statusAfter status }

end WebTunnel.Device.Tunnel
