import WebTunnel.Server.Processors

/-! Cameras: the manager of a camera's viewers fetches one snapshot after the other, each
over a session of its own. -/

namespace WebTunnel.Server.Webcam
open Library.Bytes Library.JavaScript Library.Json Library.Program Library.Slots Sessions Wire Server.Types
open Processors

def getCam (user : JsVal) (hostUrl : Text) : Js CamManager := do
  let mgr ← getMgr user
  defined (mgr.cams.lookup hostUrl)

def setCam (user : JsVal) (hostUrl : Text) (cam : CamManager) : Js Unit := do
  let mgr ← getMgr user
  setMgr user { mgr with cams := (hostUrl, cam) :: mgr.cams.filter (·.1 ≠ hostUrl) }

def CamManager.new (hostUrl : Text) : CamManager where
  hostUrl := hostUrl
  host := (split hostUrl ":".toList).headD []
  port := (split hostUrl ":".toList)[1]?.bind parseInt
  isOpen := false
  isReady := false
  doReqListeners := 0
  timers := 0
  conns := []
  connCount := 0
  connIndex := 0
  headerOk := false
  headerStr := []
  currSeq := none
  totalLen := some 0
  currLen := 0
  bufs := []

/-- The snapshot request; a processor has neither host nor port of its own. -/
def snapshotRequest (seq : Nat) : Text :=
  "GET /?action=snapshot&n=".toList ++ decimal seq ++ "HTTP/1.1\r\nHost:".toList ++
    "undefined:undefined\r\n".toList ++
    "User-Agent: Mozilla/5.0 (X11; Linux x86_64; rv:24.0) Gecko/20100101 Firefox/24.0\r\n".toList ++
    "Accept: image/png,image/*;q=0.8,*/*;q=0.5\r\n".toList ++
    "Accept-Language: zh-cn,zh;q=0.8,en-us;q=0.5,en;q=0.3\r\n".toList ++
    "Connection: Close\r\n\r\n".toList

/-- Opens the forward and sends the request through it. -/
def WebcamProcessor.doConn (user : JsVal) (p : WebcamProcessor) : Js Bool := do
  let cam ← getCam user p.camMgr
  let mgr ← getMgr user
  match mgr.getCurrConn with
  | none => pure false
  | some clientConn =>
    let id ← liftJs (writeUInt16BE (some p.seq))
    let port ← liftJs (writeUInt16BE cam.port)
    let opening ← liftJs (createReq [id ++ port ++ bytesBE 4 2 ++ encodeUtf8 cam.host] 0x10 p.seq)
    sendBytes clientConn opening
    let request ← liftJs (createReq [encodeUtf8 (snapshotRequest p.seq)] 0x11 p.seq)
    sendBytes clientConn request
    pure true

/-- A full table gives no processor to call. -/
def CamManager.doConn (user : JsVal) (hostUrl : Text) : Js Unit := do
  let processor ← mgrNewSeq user fun seq => .webcam ⟨hostUrl, seq, 0⟩
  let processor ← defined processor
  let _ ← WebcamProcessor.doConn user ⟨hostUrl, processor.seq, 0⟩

/-- What the listener that `openConn` registers does on "doReq". -/
def CamManager.onDoReq (user : JsVal) (hostUrl : Text) : Js Unit := do
  let cam ← getCam user hostUrl
  if cam.isOpen then
    setCam user hostUrl { cam with isReady := false }
    CamManager.doConn user hostUrl
    let cam ← getCam user hostUrl
    setCam user hostUrl { cam with timers := cam.timers + 1 }

def repeatDoReq (user : JsVal) (hostUrl : Text) : Nat → Js Unit
  | 0 => pure ()
  | listeners + 1 => do
    CamManager.onDoReq user hostUrl
    repeatDoReq user hostUrl listeners

def CamManager.emitDoReq (user : JsVal) (hostUrl : Text) : Js Unit := do
  let cam ← getCam user hostUrl
  repeatDoReq user hostUrl cam.doReqListeners

/-- Every opening registers one more listener. -/
def CamManager.openConn (user : JsVal) (hostUrl : Text) : Js Unit := do
  let cam ← getCam user hostUrl
  if ¬ cam.isOpen then
    setCam user hostUrl { cam with isOpen := true, doReqListeners := cam.doReqListeners + 1 }
    CamManager.emitDoReq user hostUrl

/-- The viewer's index is not returned. -/
def CamManager.addConn (user : JsVal) (hostUrl : Text) (conn : ConnId) : Js (Option Nat) := do
  let cam ← getCam user hostUrl
  setCam user hostUrl { cam with
    conns := cam.conns ++ [(cam.connIndex, conn)]
    connCount := cam.connCount + 1
    connIndex := cam.connIndex + 1 }
  if ¬ cam.isOpen then
    CamManager.openConn user hostUrl
  pure none

def CamManager.delConn (user : JsVal) (hostUrl : Text) (ind : Nat) : Js Unit := do
  let cam ← getCam user hostUrl
  let connCount := cam.connCount - 1
  setCam user hostUrl { cam with
    conns := cam.conns.filter (·.1 ≠ ind)
    connCount := connCount
    isOpen := if connCount = 0 then false else cam.isOpen }

def CamManager.readyForNew (user : JsVal) (hostUrl : Text) : Js Unit := do
  let cam ← getCam user hostUrl
  setCam user hostUrl { cam with isReady := true }
  if cam.isReady then
    CamManager.emitDoReq user hostUrl

def closeText : Text := "CLOSED!".toList

/-- A snapshot goes to every viewer, followed by the end mark. -/
def CamManager.snapshotOutputs (cam : CamManager) : List Output :=
  cam.conns.flatMap fun viewer =>
    [.sendUTF viewer.2 (.text (encodeBase64 cam.bufs.flatten)),
      .sendUTF viewer.2 (.text "!!!END!!!".toList)]

def CamManager.innerProcessBuffer (user : JsVal) (hostUrl : Text) (buffer : List Byte)
    (seq : Option Nat) : Js Unit := do
  let cam ← getCam user hostUrl
  if buffer.length ≤ 40 ∧ startsWith (decodeUtf8 buffer) closeText then
    mgrDelSeq user seq
    emitAll (CamManager.snapshotOutputs cam)
    setCam user hostUrl { cam with bufs := [], totalLen := some 0, currLen := 0, currSeq := none }
    CamManager.readyForNew user hostUrl
  else
    setCam user hostUrl { cam with
      bufs := cam.bufs ++ [buffer]
      currLen := cam.currLen + buffer.length }

/-- The first field line of two parts whose name is Content-Length. -/
def contentLength (lines : List Text) : Option (Option Int) :=
  lines.findSome? fun line =>
    match split line ":".toList with
    | [name, value] =>
      if toLowerCase name = "content-length".toList then some (parseInt (trim value)) else none
    | _ => none

/-- Collects the header block and returns what follows it; the header is never marked as
complete. -/
def CamManager.scanHeader (cam : CamManager) (buffer : List Byte) : CamManager × Option (List Byte) :=
  let oldLen := byteLength cam.headerStr
  let headerStr := cam.headerStr ++ decodeUtf8 buffer
  match indexOf headerStr headerEnd with
  | none => ({ cam with headerStr := headerStr }, none)
  | some i =>
    let headerStr := headerStr.take (i + headerEnd.length)
    let offset := byteLength headerStr - oldLen
    match split headerStr "\r\n".toList with
    | status :: line :: lines =>
      match threeDigits status with
      | none => ({ cam with headerStr := headerStr }, none)
      | some _ =>
        let totalLen := (contentLength (line :: lines)).getD cam.totalLen
        ({ cam with headerStr := headerStr, totalLen := totalLen },
          if offset < buffer.length then some (sliceBuffer buffer offset buffer.length) else none)
    | _ => ({ cam with headerStr := headerStr }, none)

/-- The session is not passed on with the body. -/
def CamManager.processHeader (user : JsVal) (hostUrl : Text) (buffer : List Byte) : Js Unit := do
  let cam ← getCam user hostUrl
  let (cam, rest) := CamManager.scanHeader cam buffer
  setCam user hostUrl cam
  match rest with
  | none => pure ()
  | some buf2 => CamManager.innerProcessBuffer user hostUrl buf2 none

/-- Whether the buffer belongs to the session under way. -/
def CamManager.processBuffer (user : JsVal) (hostUrl : Text) (buffer : List Byte) (seq : Nat) :
    Js Bool := do
  let cam ← getCam user hostUrl
  if cam.currSeq = none ∨ cam.currSeq = some seq then
    setCam user hostUrl { cam with currSeq := some seq }
    if cam.headerOk then
      CamManager.innerProcessBuffer user hostUrl buffer (some seq)
    else
      CamManager.processHeader user hostUrl buffer
    pure true
  else
    pure false

def WebcamProcessor.processBuffer (user : JsVal) (id : ProcId) (p : WebcamProcessor)
    (buf : List Byte) : Js Unit := do
  let p := { p with start := p.start + buf.length }
  setProc id (.webcam p)
  let len ← liftJs (readUInt32BE buf 0)
  let processed ← CamManager.processBuffer user p.camMgr (sliceBuffer buf 4 (len + 4)) p.seq
  let mgr ← getMgr user
  if mgr.currTotal ≤ p.start then
    setProc id (.webcam { p with start := 0 })
    if ¬ processed then
      mgrDelSeq user mgr.currSeq
    resetParser user

end WebTunnel.Server.Webcam
