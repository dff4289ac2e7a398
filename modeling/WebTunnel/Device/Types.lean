import Mathlib.Data.Fintype.Basic
import WebTunnel.Library.Bytes
import WebTunnel.Library.Routines

/-! The device's manager: its buffers, HTTP contexts, tunnel clients and forwards, the table
of polled descriptors, and the system it runs on. -/

namespace WebTunnel.Device.Types
open Library.Bytes Library.Lists Library.Routines Library.Routines.Routine Function

def callerCaches : Nat := 256
def httpBufCaches : Nat := 256
def httpBufSize : Nat := 2048
def httpChunkMax : Nat := 32
def httpInMax : Nat := 20480
def httpCMagic : Nat := 0x10293874
def httpCVersion : Nat := 0x1
def httpCHeaderLen : Nat := 16
def websockMinPackSize : Nat := 40
def httpTimeoutSecs : Int := 8

def httpCReq : Nat := 0x1
def httpCResp : Nat := 0x2
def httpCHand : Nat := 0x3
def httpCTunnelReq : Nat := 0x5
def httpCTunnelResp : Nat := 0x6
def httpCForward : Nat := 0x10
def httpCForwardReq : Nat := 0x11
def httpCForwardResp : Nat := 0x12

/-- The bytes of a buffer that may be used: its size and the padding behind it. -/
def bufRoom : Nat := httpBufSize + 4

abbrev BufId := Fin httpBufCaches
abbrev CtxId := Fin callerCaches
abbrev ClientId := Nat
abbrev FwdId := Nat

instance : LawfulBEq CtxId := inferInstance

/-- The heads of the lists that buffers hang on. -/
inductive BufHead where
  | caches
  | prepare
  | toserver
  | readTodo (c : CtxId)
  | writeTodo (c : CtxId)
  | clientRead (k : ClientId)
  | clientWrite (k : ClientId)
  | fwdWrite (f : FwdId)
  | chunk
deriving DecidableEq

/-- Ways in which the process ends by itself or its behaviour is no longer defined. -/
inductive Fault where
  | assertion
  | nullPointer
  | list
  | outOfBounds
  | uninitialised
  | endless
  | freed
deriving DecidableEq

instance : Misuse Fault := ⟨.list⟩

abbrev PollEvents := BitVec 16
def pollIn : PollEvents := 0x1
def pollOut : PollEvents := 0x4
def pollErr : PollEvents := 0x8
def pollHup : PollEvents := 0x10

structure PollFd where
  fd : Int
  events : PollEvents
  revents : PollEvents

inductive Errno where
  | intr
  | again
  | inProgress
  | already
  | other
deriving DecidableEq

/-- What a system call is going to answer: a number, bytes, or an error. -/
inductive Reply where
  | value (n : Nat)
  | data (bytes : List Byte)
  | fail (e : Errno)

inductive CallingStatus where
  | ready
  | pending
  | finish
deriving DecidableEq

inductive CallerStatus where
  | finish
  | pending
  | continue
deriving DecidableEq

inductive CallerState where
  | connect
  | write
  | read
deriving DecidableEq

/-- The functions a context or forward can be set to run. -/
inductive FuncRun where
  | connect
  | write
  | read
deriving DecidableEq

/-- Where a coroutine goes on when it is called again. -/
inductive CcrLine where
  | start
  | inProgress
  | failed
  | noBuf
  | again
  | broken
  | partly
  | pending
  | finished
  | accepting
deriving DecidableEq

structure BufInfo where
  buf : Mem
  start : Int
  len : Int
  totalLen : Int

structure HttpBuf where
  curr : Option BufId
  len : Int
  totalLen : Int
  type : Nat
  seq : Nat

def HttpBuf.zero : HttpBuf := ⟨none, 0, 0, 0, 0⟩

structure HttpContext where
  line : CcrLine
  status : CallingStatus
  state : CallerState
  funcRun : FuncRun
  prio : Int
  timeout : Int
  errcode : Int
  isChunk : Bool
  pfd : Option Nat
  sockfd : Int
  hostname : List Byte
  port : Int
  seq : Nat
  bufRead : HttpBuf
  bufWrite : HttpBuf

def HttpContext.zero : HttpContext where
  line := .start
  status := .ready
  state := .connect
  funcRun := .connect
  prio := 0
  timeout := 0
  errcode := 0
  isChunk := false
  pfd := none
  sockfd := 0
  hostname := []
  port := 0
  seq := 0
  bufRead := .zero
  bufWrite := .zero

structure TcpClientContext where
  line : CcrLine
  status : CallingStatus
  funcRun : FuncRun
  pfd : Option Nat
  clientFd : Int
  bufRead : HttpBuf
  bufWrite : HttpBuf
  reqSeq : Int
  idle : Bool
  headerParsed : Bool

structure TcpServerContext where
  line : CcrLine
  status : CallingStatus
  clientLen : Int
  servFd : Int
  seq : Nat

structure TcpForwardContext where
  line : CcrLine
  status : CallingStatus
  funcRun : FuncRun
  bufWrite : HttpBuf
  idle : Bool
  pfd : Option Nat
  fwdFd : Int
  host : Nat
  port : Nat
  seq : Nat

/-- The contexts a descriptor can belong to. -/
inductive Owner where
  | server
  | http (c : CtxId)
  | client (k : ClientId)
  | forward (f : FwdId)
deriving DecidableEq

/-- What the manager has done: its system calls, the calls of the WebSocket library, and the
frames it has put into the queue to the server, buffer by buffer. -/
inductive Act where
  | socket (o : Owner) (fd : Int)
  | connect (o : Owner) (host port : Nat)
  | read (o : Owner) (bytes : List Byte)
  | write (o : Owner) (bytes : List Byte)
  | interest (o : Owner) (events : PollEvents)
  | release (o : Owner)
  | queue (o : Option Owner) (type seq : Nat) (bufs : List (List Byte))
  | goWritable
  | writeAgain
  | websocketWrite (bytes : List Byte)
  | closed

/-- The manager. The forwards and tunnel clients are allocated one after the other. `now` is
the clock, `replies` are the answers the system has ready for the step under way, and `acts`
is what was done so far, the last first. -/
structure HttpMgmt where
  bufs : BufId → BufInfo
  ctxs : CtxId → HttpContext
  clients : ClientId → TcpClientContext
  forwards : FwdId → TcpForwardContext
  listReady : Int → List CtxId
  running : List CtxId
  readyLen : Int
  listTimeout : List CtxId
  totalAdd : Int
  totalProcess : Int
  maxFds : Int
  pollfds : Nat → PollFd
  fdLookup : Int → Nat
  countPollfds : Nat
  httpLookup : Int → Option Owner
  bufPrepare : HttpBuf
  syncPrepare : Bool
  syncTime : Int
  lastAliveTime : Int
  bufToserver : HttpBuf
  toserver : Bool
  shakehand : Bool
  clientId : Nat
  username : List Byte
  localHost : List Byte
  localPort : Int
  tcpServer : TcpServerContext
  listClient : List ClientId
  nextClient : ClientId
  listForward : List FwdId
  lenForward : Int
  nextForward : FwdId
  ctxCaches : List CtxId
  now : Int
  errno : Errno
  replies : List Reply
  acts : List Act

abbrev DevState := World BufHead BufId HttpMgmt
abbrev DevM := Routine BufHead BufId HttpMgmt Fault

namespace HttpMgmt
variable (d : HttpMgmt)

def setBuf (b : BufId) (info : BufInfo) : HttpMgmt := { d with bufs := update d.bufs b info }
def setCtx (c : CtxId) (ctx : HttpContext) : HttpMgmt := { d with ctxs := update d.ctxs c ctx }
def setClient (k : ClientId) (client : TcpClientContext) : HttpMgmt :=
  { d with clients := update d.clients k client }
def setForward (f : FwdId) (forward : TcpForwardContext) : HttpMgmt :=
  { d with forwards := update d.forwards f forward }
def note (act : Act) : HttpMgmt := { d with acts := act :: d.acts }

end HttpMgmt

/-! Reading and changing the manager. -/

def getBuf (b : BufId) : DevM BufInfo := do return (← data).bufs b
def getCtx (c : CtxId) : DevM HttpContext := do return (← data).ctxs c
def getClient (k : ClientId) : DevM TcpClientContext := do return (← data).clients k
def getForward (f : FwdId) : DevM TcpForwardContext := do return (← data).forwards f
def setBuf (b : BufId) (info : BufInfo) : DevM Unit := modify fun d => d.setBuf b info
def setCtx (c : CtxId) (ctx : HttpContext) : DevM Unit := modify fun d => d.setCtx c ctx
def setClient (k : ClientId) (client : TcpClientContext) : DevM Unit := modify fun d => d.setClient k client
def setForward (f : FwdId) (forward : TcpForwardContext) : DevM Unit :=
  modify fun d => d.setForward f forward
def note (act : Act) : DevM Unit := modify fun d => d.note act

def assert (p : Prop) [Decidable p] : DevM Unit := demand p .assertion

/-- Following a pointer. -/
def deref {α : Type} : Option α → DevM α
  | some a => pure a
  | none => .stop .nullPointer

/-- The bytes that lie in a buffer from an offset on. -/
def bytesAt (b : BufId) (offset len : Int) : DevM (List Byte) := do
  if 0 ≤ offset ∧ 0 ≤ len ∧ offset + len ≤ bufRoom then
    return (← getBuf b).buf.slice offset.toNat len.toNat
  else
    .stop .outOfBounds

/-- Copies bytes into a buffer. -/
def memcpy (b : BufId) (offset : Int) (bytes : List Byte) : DevM Unit := do
  if 0 ≤ offset ∧ offset + bytes.length ≤ bufRoom then
    let info ← getBuf b
    setBuf b { info with buf := info.buf.write offset.toNat bytes }
  else
    .stop .outOfBounds

section
variable {post : Unit → DevState → Prop} {err : Fault → Prop} {w : DevState}

@[simp] theorem wp_getBuf (b : BufId) (post : BufInfo → DevState → Prop) :
    Wp (getBuf b) post err w ↔ post (w.data.bufs b) w := Iff.rfl

@[simp] theorem wp_getCtx (c : CtxId) (post : HttpContext → DevState → Prop) :
    Wp (getCtx c) post err w ↔ post (w.data.ctxs c) w := Iff.rfl

@[simp] theorem wp_getClient (k : ClientId) (post : TcpClientContext → DevState → Prop) :
    Wp (getClient k) post err w ↔ post (w.data.clients k) w := Iff.rfl

@[simp] theorem wp_getForward (f : FwdId) (post : TcpForwardContext → DevState → Prop) :
    Wp (getForward f) post err w ↔ post (w.data.forwards f) w := Iff.rfl

@[simp] theorem wp_setBuf (b : BufId) (info : BufInfo) :
    Wp (setBuf b info) post err w ↔ post () { w with data := w.data.setBuf b info } := Iff.rfl

@[simp] theorem wp_setCtx (c : CtxId) (ctx : HttpContext) :
    Wp (setCtx c ctx) post err w ↔ post () { w with data := w.data.setCtx c ctx } := Iff.rfl

@[simp] theorem wp_setClient (k : ClientId) (client : TcpClientContext) :
    Wp (setClient k client) post err w ↔ post () { w with data := w.data.setClient k client } := Iff.rfl

@[simp] theorem wp_setForward (f : FwdId) (forward : TcpForwardContext) :
    Wp (setForward f forward) post err w ↔ post () { w with data := w.data.setForward f forward } := Iff.rfl

@[simp] theorem wp_note (act : Act) :
    Wp (note act) post err w ↔ post () { w with data := w.data.note act } := Iff.rfl

@[simp] theorem wp_assert (p : Prop) [Decidable p] :
    Wp (assert p) post err w ↔ (p → post () w) ∧ (¬ p → err .assertion) := wp_demand

@[simp] theorem wp_deref {α : Type} (pointer : Option α) (post : α → DevState → Prop) :
    Wp (deref pointer) post err w ↔
      (∀ a, pointer = some a → post a w) ∧ (pointer = none → err .nullPointer) := by
  cases pointer <;> simp [deref]

theorem wp_bytesAt (b : BufId) (offset len : Int) (post : List Byte → DevState → Prop) :
    Wp (bytesAt b offset len) post err w ↔
      (0 ≤ offset ∧ 0 ≤ len ∧ offset + len ≤ bufRoom →
        post ((w.data.bufs b).buf.slice offset.toNat len.toNat) w) ∧
      (¬ (0 ≤ offset ∧ 0 ≤ len ∧ offset + len ≤ bufRoom) → err .outOfBounds) := by
  unfold bytesAt
  split
  next inside => simp [inside]
  next outside => simp [outside]

theorem wp_memcpy (b : BufId) (offset : Int) (bytes : List Byte) :
    Wp (memcpy b offset bytes) post err w ↔
      (0 ≤ offset ∧ offset + bytes.length ≤ bufRoom →
        post () { w with data := w.data.setBuf b (BufInfo.mk ((w.data.bufs b).buf.write offset.toNat bytes)
          (w.data.bufs b).start (w.data.bufs b).len (w.data.bufs b).totalLen) }) ∧
      (¬ (0 ≤ offset ∧ offset + bytes.length ≤ bufRoom) → err .outOfBounds) := by
  unfold memcpy
  split
  next inside => simp [inside]
  next outside => simp [outside]

end

/-! System calls. -/

/-- The next answer; without one the call is told to come again. -/
def reply : DevM Reply := do
  let d ← data
  modify fun d => { d with replies := d.replies.tail }
  return d.replies.headD (.fail .again)

def Reply.count : Reply → Nat
  | .value n => n
  | .data bytes => bytes.length
  | .fail _ => 0

/-- The result of a call that returns a number: -1 and an error number where it fails. -/
def number : Reply → DevM Int
  | .fail e => do
    modify fun d => { d with errno := e }
    return -1
  | r => return r.count

/-- `read` returns the bytes it has put in place, none at the end of the stream. -/
def sysRead (o : Owner) (room : Int) : DevM (Option (List Byte)) := do
  match ← reply with
  | .fail e =>
    modify fun d => { d with errno := e }
    return none
  | .value _ => return some []
  | .data bytes =>
    note (.read o (bytes.take room.toNat))
    return some (bytes.take room.toNat)

/-- `write` takes some of the bytes and returns their number. -/
def sysWrite (o : Owner) (bytes : List Byte) : DevM Int := do
  match ← reply with
  | .fail e =>
    modify fun d => { d with errno := e }
    return -1
  | r =>
    note (.write o (bytes.take r.count))
    return min r.count bytes.length

def sysConnect (o : Owner) (host port : Nat) : DevM Int := do
  note (.connect o host port)
  number (← reply)

/-- A new descriptor, from `socket` or `accept`. -/
def sysSocket : DevM Int := do number (← reply)

/-- The address of a host name, all ones where it is not known. -/
def nameResolve (_host : List Byte) : DevM Nat := do
  match ← reply with
  | .value address => return address % 2 ^ 32
  | _ => return 2 ^ 32 - 1

def websocketGoWritable : DevM Unit := note .goWritable
def websocketWriteAgain : DevM Unit := note .writeAgain
def websocketClosed : DevM Unit := note .closed

def websocketWrite (bytes : List Byte) : DevM Int := do
  note (.websocketWrite bytes)
  number (← reply)

/-! Conversions. -/

/-- Reading a 32-bit pattern as an `int`. -/
def toInt32 (n : Nat) : Int := if n < 2 ^ 31 then n else (n : Int) - 2 ^ 32

/-- Storing a number in an unsigned type of the given width. -/
def toUnsigned (width : Nat) (n : Int) : Nat := (n % 2 ^ width).toNat

/-- The header as it lies in the memory of a little-endian host, with its fields as they
were assigned. -/
def headerMem (type seq length : Nat) : List Byte :=
  bytesLE 4 (htonl httpCMagic) ++ bytesLE 1 httpCVersion ++ bytesLE 1 type ++ bytesLE 2 seq ++
    bytesLE 4 length ++ bytesLE 4 0

end WebTunnel.Device.Types
