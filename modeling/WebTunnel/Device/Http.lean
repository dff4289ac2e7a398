import WebTunnel.Device.Parsing

/-! HTTP contexts: their creation, the coroutines that connect, write the request and read
the response, and their end. -/

namespace WebTunnel.Device.Http
open Library.Bytes Library.Lists Library.Routines Library.Routines.Routine Function Device.Types Buffers Parsing

def allocContext : DevM (Option CtxId) := do
  let d ← data
  match d.ctxCaches with
  | [] => return none
  | c :: rest =>
    modify fun d => { d with ctxCaches := rest }
    return some c

/-- The context's node must not be on a list. -/
def freeContext (c : CtxId) : DevM Unit := do
  let d ← data
  demand (c ∉ d.ctxCaches ∧ c ∉ d.running ∧ c ∉ d.listReady 0 ∧ c ∉ d.listReady 1) .list
  modify fun d => { d with ctxCaches := c :: d.ctxCaches }

/-- Takes a context out of the one list it is ready in. -/
def unready (c : CtxId) : DevM Unit := do
  let d ← data
  demand (c ∈ d.running ∨ c ∈ d.listReady 0 ∨ c ∈ d.listReady 1) .list
  modify fun d => { d with
    running := d.running.erase c
    listReady := fun prio => (d.listReady prio).erase c
    readyLen := d.readyLen - 1 }

/-- Where a context with this deadline belongs in the list ordered by deadlines. -/
def insertByTimeout (timeout : CtxId → Int) (c : CtxId) : List CtxId → List CtxId
  | [] => [c]
  | entry :: rest =>
    if timeout c < timeout entry then c :: entry :: rest
    else entry :: insertByTimeout timeout c rest

theorem insertByTimeout_perm (timeout : CtxId → Int) (c : CtxId) (l : List CtxId) :
    (insertByTimeout timeout c l).Perm (c :: l) := by
  induction l with
  | nil => exact .refl _
  | cons entry rest ih =>
    rw [insertByTimeout]
    split
    · exact .refl _
    · exact (ih.cons entry).trans (.swap c entry rest)

def insertTimeout (c : CtxId) : DevM Unit := do
  let d ← data
  demand (c ∉ d.listTimeout) .list
  modify fun d => { d with listTimeout := insertByTimeout (fun c => (d.ctxs c).timeout) c d.listTimeout }

def insertReadyPrio (c : CtxId) : DevM Unit := do
  let ctx ← getCtx c
  let prio := if ctx.prio < 0 ∨ 2 ≤ ctx.prio then 1 else ctx.prio
  setCtx c { ctx with prio }
  let d ← data
  demand (c ∉ d.running ∧ c ∉ d.listReady 0 ∧ c ∉ d.listReady 1 ∧ c ∉ d.ctxCaches) .list
  modify fun d => { d with listReady := update d.listReady prio (c :: d.listReady prio), readyLen := d.readyLen + 1 }

def errorText : List Byte :=
  text "HTTP/1.1 404 Not Found\r\nContent-Length: 1635\r\nContent-Type: text/html\r\nConnection: Close\r\n"

def generateError (c : CtxId) : DevM Unit := do
  match ← allocBuf with
  | none => return
  | some b =>
    let ctx ← getCtx c
    let tmpLen := (errorText.length + httpCHeaderLen) % 2 ^ 16
    memcpy b httpCHeaderLen (errorText ++ [0])
    fillBuf b (headerMem httpCResp (htons ctx.seq) (htons tmpLen)) tmpLen
    listAddTail b .toserver
    note (.queue (some (.http c)) httpCResp ctx.seq [← bytesAt b 0 tmpLen])
    httpMgmtToserver

/-! Connecting and writing the request. -/

def httpContextConnect (c : CtxId) : DevM CallerStatus := do
  let ctx ← getCtx c
  match ctx.line with
  | .start | .inProgress | .failed =>
    let pfd ← getPollFd (← deref ctx.pfd)
    let rc ← (if pfd.revents = pollOut then pure 0 else do
      let host ← nameResolve ctx.hostname
      sysConnect (.http c) host (toUnsigned 16 ctx.port))
    let d ← data
    if 0 ≤ rc then
      setCtx c { ctx with state := .write, funcRun := .write, line := .start }
      return .continue
    else if d.errno = .already ∨ d.errno = .inProgress then
      setEvents (.http c) ctx.pfd fun events => events &&& ~~~pollIn ||| pollOut
      setCtx c { ctx with line := .inProgress }
      return .continue
    else
      setCtx c { ctx with errcode := 3, line := .failed }
      return .finish
  | _ =>
    setCtx c { ctx with line := .start }
    return .continue

/-- Everything is written: the context goes on with reading. -/
def httpContextWritten (c : CtxId) : DevM CallerStatus := do
  let ctx ← getCtx c
  setEvents (.http c) ctx.pfd fun events => events &&& ~~~pollOut ||| pollIn
  setCtx c { ctx with state := .read, line := .start, funcRun := .read }
  listSpliceInit (.writeTodo c) .caches
  return .pending

def setWriteCurr (c : CtxId) (curr : Option BufId) : DevM Unit := do
  let ctx ← getCtx c
  setCtx c { ctx with bufWrite := { ctx.bufWrite with curr } }

def setCtxLine (c : CtxId) (line : CcrLine) : DevM Unit := do
  setCtx c { ← getCtx c with line }

/-- Accounts for the bytes the socket took; `none` when the buffer is done and the next one
is current, otherwise the coroutine gives way. -/
def wroteBytes (c : CtxId) (b : BufId) (n : Int) : DevM (Option CallerStatus) := do
  let info ← getBuf b
  setBuf b { info with len := info.len - n }
  if 0 < info.len - n then
    let info ← getBuf b
    setBuf b { info with start := info.start + n }
    setCtxLine c .partly
    return some .pending
  else
    listDel b
    freeBuf (some b)
    setWriteCurr c (← nextBufInfo (.writeTodo c))
    return none

/-- The loop over the buffers of the request, of which there cannot be more than the pool has. -/
def writeLoop (c : CtxId) : Nat → DevM CallerStatus
  | 0 => .stop .endless
  | count + 1 => do
    let ctx ← getCtx c
    match ctx.bufWrite.curr with
    | none => httpContextWritten c
    | some b =>
      let info ← getBuf b
      let n ← sysWrite (.http c) (← bytesAt b info.start info.len)
      if n < 0 then
        let d ← data
        if d.errno = .intr ∨ d.errno = .again then
          setCtxLine c .again
          return .pending
        else
          setCtxLine c .broken
          return .finish
      else
        match ← wroteBytes c b n with
        | some status => return status
        | none => writeLoop c count

def httpContextWrite (c : CtxId) : DevM CallerStatus := do
  let ctx ← getCtx c
  match ctx.line with
  | .start =>
    setWriteCurr c (← nextBufInfo (.writeTodo c))
    match (← getCtx c).bufWrite.curr with
    | none =>
      setCtx c { ← getCtx c with errcode := 4, line := .noBuf }
      return .finish
    | some _ => writeLoop c (httpBufCaches + 1)
  | .noBuf | .partly => writeLoop c (httpBufCaches + 1)
  | .again | .broken =>
    -- The coroutine comes back behind the call of `write`, with nothing written.
    let b ← deref ctx.bufWrite.curr
    match ← wroteBytes c b 0 with
    | some status => return status
    | none => writeLoop c (httpBufCaches + 1)
  | _ =>
    setCtxLine c .start
    return .pending

/-! Reading the response. -/

def contextSaveRead (c : CtxId) (b : BufId) : DevM Unit := do
  let info ← getBuf b
  setBuf b { info with len := info.start, totalLen := info.start, start := 0 }
  let ctx ← getCtx c
  setCtx c { ctx with bufRead := { ctx.bufRead with len := ctx.bufRead.len + info.start } }
  listAddTail b (.readTodo c)
  let ctx ← getCtx c
  setCtx c { ctx with bufRead := { ctx.bufRead with curr := none } }

/-- The contents of the buffers that hang on a list. -/
def contents (d : HttpMgmt) (l : List BufId) : List (List Byte) :=
  l.map fun b => (d.bufs b).buf.slice 0 (d.bufs b).len.toNat

/-- Puts what was read into the queue to the server, as one frame. -/
def queueResponse (c : CtxId) : DevM Unit := do
  let ctx ← getCtx c
  let ctx := { ctx with bufRead := { ctx.bufRead with len := ctx.bufRead.len + httpCHeaderLen } }
  setCtx c ctx
  let b ← deref (← allocBuf)
  fillBuf b (headerMem httpCResp (htons ctx.seq) (htonl (toUnsigned 32 ctx.bufRead.len))) httpCHeaderLen
  listAdd b (.readTodo c)
  note (.queue (some (.http c)) httpCResp ctx.seq (contents (← data) (← items (.readTodo c))))
  listSpliceTailInit (.readTodo c) .toserver
  setCtx c { ← getCtx c with bufRead := { (← getCtx c).bufRead with len := 0 } }
  httpMgmtToserver

/-- Reports the response to the server; -1 if there is none. -/
def httpContextFinish (c : CtxId) : DevM Int := do
  if (← httpParse c) ≠ 0 then
    return -1
  else
    queueResponse c
    return 0

/-- The buffer to read into, which is not on a list. -/
def readBuf (c : CtxId) : DevM BufId := do
  let ctx ← getCtx c
  match ctx.bufRead.curr with
  | some b => return b
  | none =>
    let curr ← allocBuf
    setCtx c { ctx with bufRead := { ctx.bufRead with curr } }
    deref curr

/-- The stream has ended: what was read last is saved too. -/
def lastRead (c : CtxId) (b : BufId) : DevM Unit := do
  if (← getBuf b).start = 0 then
    freeBuf (some b)
    let ctx ← getCtx c
    setCtx c { ctx with bufRead := { ctx.bufRead with curr := none } }
  else
    contextSaveRead c b

def httpContextRead (c : CtxId) : DevM CallerStatus := do
  let ctx ← getCtx c
  match ctx.line with
  | .start | .pending =>
    let b ← readBuf c
    let info ← getBuf b
    let left := (httpBufSize : Int) - info.start
    assert (0 < left)
    let got ← sysRead (.http c) left
    match got with
    | some (byte :: rest) =>
      memcpy b info.start (byte :: rest)
      let info ← getBuf b
      setBuf b { info with start := info.start + (byte :: rest).length }
      when ((httpBufSize : Int) ≤ info.start + (byte :: rest).length) do contextSaveRead c b
      setCtxLine c .pending
      return .pending
    | _ =>
      let d ← data
      if got.isSome ∨ (d.errno ≠ .intr ∧ d.errno ≠ .again) then
        lastRead c b
        let _ ← httpContextFinish c
        setCtxLine c .finished
        return .finish
      else
        setCtxLine c .pending
        return .pending
  | .finished =>
    setCtxLine c .pending
    return .pending
  | _ =>
    setCtxLine c .start
    return .finish

/-! The end of a context, and its beginning. -/

/-- The context has left the ready list but is still in the list of deadlines. -/
def httpContextRelease (c : CtxId) : DevM Unit := do
  note (.release (.http c))
  let ctx ← getCtx c
  setCtx c { ctx with status := .finish }
  when (0 < ctx.sockfd) do
    dropFd ctx.sockfd
    setCtx c { ← getCtx c with sockfd := -1 }
  let ctx ← getCtx c
  when ctx.bufRead.curr.isSome do
    freeBuf ctx.bufRead.curr
    setCtx c { ctx with bufRead := { ctx.bufRead with curr := none } }
  freeBuf ctx.bufWrite.curr
  listSpliceInit (.writeTodo c) .caches
  listSpliceInit (.readTodo c) .caches
  let d ← data
  demand (c ∈ d.listTimeout) .list
  modify fun d => { d with listTimeout := d.listTimeout.erase c }
  freeContext c
  modify fun d => { d with totalProcess := d.totalProcess + 1 }

def runHttp (c : CtxId) : DevM CallerStatus := do
  match (← getCtx c).funcRun with
  | .connect => httpContextConnect c
  | .write => httpContextWrite c
  | .read => httpContextRead c

def httpContextExecute (c : CtxId) : DevM Unit := do
  when ((← getCtx c).status = .ready) do unready c
  match ← runHttp c with
  | .finish =>
    when ((← getCtx c).errcode ≠ 0) do generateError c
    httpContextRelease c
  | .continue => insertReadyPrio c
  | .pending => setCtx c { ← getCtx c with status := .pending }

def httpContextInit (c : CtxId) : DevM Unit := do
  let ctx ← getCtx c
  setCtx c { ctx with errcode := 0, state := .connect, funcRun := .connect, status := .ready, line := .start }
  insertReadyPrio c
  insertTimeout c
  modify fun d => { d with totalAdd := d.totalAdd + 1 }
  let pfd ← mgmtAddFd ctx.sockfd (pollIn ||| pollErr ||| pollHup)
  setCtx c { ← getCtx c with pfd }
  setLookup ctx.sockfd (some (.http c))

/-- `strtol` to the base 10: an optional sign and digits behind white space. What a `long` of 64 bits
cannot hold becomes the greatest or least that it can. -/
def strtol (s : List Byte) : Int :=
  let s := s.dropWhile isSpace
  let (negative, s) := match s with
    | 0x2d :: rest => (true, rest)
    | 0x2b :: rest => (false, rest)
    | _ => (false, s)
  let n : Nat := (s.takeWhile fun b => 0x30 ≤ b ∧ b ≤ 0x39).foldl (fun n b => n * 10 + (b.toNat - 0x30)) 0
  if negative then max (-(n : Int)) (-2 ^ 63) else min n (2 ^ 63 - 1)

/-- `atoi` stores in an `int` what `strtol` reads. -/
def atoi (s : List Byte) : Int := toInt32 (toUnsigned 32 (strtol s))

/-- Storing an `int` in a `short`. -/
def toInt16 (n : Int) : Int := (n + (2 : Int) ^ 15) % (2 : Int) ^ 16 - (2 : Int) ^ 15

/-- The host and port named in the request; there may be none, or one that is too long for
the place it is copied to. -/
inductive HostHeader where
  | absent
  | overflow
  | found (hostname : List Byte) (port : Int)

def getHostFromBuf (buf : List Byte) : HostHeader :=
  match strstr (text "host:") buf with
  | none => .absent
  | some p =>
    let rest := buf.drop (p + 5)
    match strstr (text "\r\n") rest with
    | none => .absent
    | some q =>
      let hostname := rest.take q
      if 128 ≤ hostname.length then .overflow
      else
        match strstr (text ":") hostname with
        | some r => .found ((hostname.take r).filter (¬ isSpace ·)) (toInt16 (atoi (hostname.drop (r + 1))))
        | none => .found (hostname.filter (¬ isSpace ·)) 80

/-- Looks for the host in the first buffer of the request. What lies behind its bytes is
read too, up to a zero. -/
def hostInit (c : CtxId) : DevM Int := do
  let b ← deref (← nextBufInfo .prepare)
  let bytes ← bytesAt b 0 bufRoom
  demand ((0 : Byte) ∈ bytes) .outOfBounds
  match getHostFromBuf (cString bytes) with
  | .absent => return 1
  | .overflow => .stop .outOfBounds
  | .found hostname port =>
    setCtx c { ← getCtx c with hostname, port }
    return 0

/-- The context takes over the request. -/
def contextOpen (c : CtxId) (sockfd timeout : Int) : DevM Unit := do
  note (.socket (.http c) sockfd)
  initListHead (.readTodo c)
  initListHead (.writeTodo c)
  let d ← data
  setCtx c { ← getCtx c with sockfd, timeout := d.now + timeout, seq := d.bufPrepare.seq }
  listSpliceInit .prepare (.writeTodo c)
  httpContextInit c

/-- A context that could not be given a host or a socket is not put back. -/
def httpContextCreate (timeout : Int) : DevM Int := do
  match ← allocContext with
  | none => return 0
  | some c =>
    setCtx c .zero
    perform (.wipe (.readTodo c))
    perform (.wipe (.writeTodo c))
    let rc ← hostInit c
    if rc ≠ 0 then
      return rc
    else
      let sockfd ← sysSocket
      if sockfd = -1 then
        return -1
      else
        contextOpen c sockfd timeout
        return 0

end WebTunnel.Device.Http
