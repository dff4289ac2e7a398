import WebTunnel.Server.Webcam

/-! Binary messages: the handshake of a device, and the reassembly of the frames of all
devices of a user. -/

namespace WebTunnel.Server.Framing
open Library.Bytes Library.JavaScript Library.Json Library.Program Library.Slots Sessions Wire Server.Types
open Processors Webcam

def processBuffer (user : JsVal) (id : ProcId) (buffer : List Byte) : Js Unit := do
  let s ← get
  match s.procs id with
  | some (.http p) => HttpProcessor.processBuffer user id p buffer
  | some (.forward p) => ForwardProcessor.processBuffer user id p buffer
  | some (.webcam p) => WebcamProcessor.processBuffer user id p buffer
  | none => throw .typeError

def httpNormalParse (user : JsVal) (buf : List Byte) : Js Unit := do
  let mgr ← getMgr user
  match mgr.currSeq, mgr.getCurrent with
  | some seq, some processor =>
    emit (.processBuffer seq mgr.currTotal processor.id buf)
    processBuffer user processor.id buf
  | _, _ => setMgr user (mgr.setParser { mgr.toFrameParser with currSeq := none, currTotal := 0 })

/-- The configuration file is read and sent later. -/
def parseTunnelReq (c : ConnId) (buffer : List Byte) (protoHeader : ProtoHeader) : Js Unit := do
  let _ ← liftJs (readUInt32BE buffer 16)
  emit (.readConfig c protoHeader.seq)

/-- A message that starts with a whole header, while no frame is under way. -/
def parseFirstMessage (user : JsVal) (c : ConnId) (buffer : List Byte) : Js Unit := do
  let mgr ← getMgr user
  setMgr user (mgr.setParser { mgr.toFrameParser with tmpBufs := some [], tmpBufsLen := 0 })
  let protoHeader ← liftJs (parseHeaderMessage buffer)
  if protoHeader.magic ≠ protocolMagic ∨ protoHeader.ver ≠ protocolVersion then
    pure ()
  else if protoHeader.type = 0x5 then
    parseTunnelReq c buffer protoHeader
  else
    let mgr ← getMgr user
    setMgr user (mgr.setParser { mgr.toFrameParser with
      currSeq := some protoHeader.seq
      currTotal := (protoHeader.length : Int) - protocolHeaderLen })
    if protocolHeaderLen < buffer.length then
      httpNormalParse user (sliceBuffer buffer protocolHeaderLen buffer.length)

/-- What follows a good header: the payload it came with is parsed. -/
def afterHeader (user : JsVal) (buffer : List Byte) : Js Unit :=
  if protocolHeaderLen < buffer.length then
    httpNormalParse user (sliceBuffer buffer protocolHeaderLen buffer.length)
  else pure ()

def headerBad (protoHeader : ProtoHeader) : Prop :=
  protoHeader.magic ≠ protocolMagic ∨ protoHeader.ver ≠ protocolVersion

instance (protoHeader : ProtoHeader) : Decidable (headerBad protoHeader) := by
  unfold headerBad
  infer_instance

/-- The parser once the header of a frame was read. -/
def beginFrame (protoHeader : ProtoHeader) : FrameParser :=
  ⟨some protoHeader.seq, (protoHeader.length : Int) - protocolHeaderLen, some [], 0⟩

/-- The parser once the collected bytes are dropped. -/
def dropCollected (p : FrameParser) : FrameParser := ⟨p.currSeq, p.currTotal, some [], 0⟩

/-- The parser once a message too short for a header was collected. -/
def collect (p : FrameParser) (bufs : List (List Byte)) (buffer : List Byte) : FrameParser :=
  ⟨p.currSeq, p.currTotal, some (bufs ++ [buffer]), p.tmpBufsLen + buffer.length⟩

theorem wp_parseFirstMessage {s : ServerState} {user : JsVal} {c : ConnId} {buffer : List Byte}
    {mgr : UserMgmr} {post : Unit → ServerState → Prop} {err : JsError → Prop}
    (known : s.userMap user = some mgr) :
    Wp (parseFirstMessage user c buffer) post err s ↔
      (∀ e, parseHeaderMessage buffer = .error e → err e) ∧
      ∀ protoHeader, parseHeaderMessage buffer = .ok protoHeader →
        if headerBad protoHeader then post () (s.setMgr user (mgr.setParser (dropCollected mgr.toFrameParser)))
        else if protoHeader.type = 0x5 then
          Wp (parseTunnelReq c buffer protoHeader) post err (s.setMgr user (mgr.setParser (dropCollected mgr.toFrameParser)))
        else Wp (afterHeader user buffer) post err (s.setMgr user (mgr.setParser (beginFrame protoHeader))) := by
  rw [parseFirstMessage, wp_bind, wp_getMgr_of_known known, wp_bind, wp_setMgr, wp_bind, wp_liftJs, and_comm]
  refine and_congr_right' (forall₂_congr fun protoHeader _ => ?_)
  by_cases bad : protoHeader.magic ≠ protocolMagic ∨ protoHeader.ver ≠ protocolVersion
  · rw [if_pos (show headerBad protoHeader from bad), wp_ite, if_pos bad, wp_pure]
    rfl
  rw [if_neg (show ¬ headerBad protoHeader from bad), wp_ite, if_neg bad, wp_ite]
  by_cases isTunnelReq : protoHeader.type = 0x5
  · rw [if_pos isTunnelReq, if_pos isTunnelReq]
    rfl
  · rw [if_neg isTunnelReq, if_neg isTunnelReq, wp_bind, wp_getMgr_of_known (setMgr_userMap_self _ _ _),
      wp_bind, wp_setMgr, setMgr_setMgr]
    rfl

/-- Short messages are collected; their concatenation has `tmp_bufs_len` bytes and is parsed
like a first message once it holds a header. -/
def parseNormalMessage (user : JsVal) (c : ConnId) (buffer : List Byte) : Js Unit := do
  let mgr ← getMgr user
  match mgr.currSeq with
  | none =>
    if buffer.length < protocolHeaderLen then
      let tmpBufs ← defined mgr.tmpBufs
      let tmpBufs := tmpBufs ++ [buffer]
      let tmpBufsLen := mgr.tmpBufsLen + buffer.length
      setMgr user (mgr.setParser
        { mgr.toFrameParser with tmpBufs := some tmpBufs, tmpBufsLen := tmpBufsLen })
      if protocolHeaderLen ≤ tmpBufsLen then
        parseFirstMessage user c tmpBufs.flatten
    else
      parseFirstMessage user c buffer
  | some _ => httpNormalParse user buffer

theorem wp_parseNormalMessage_idle {s : ServerState} {user : JsVal} {c : ConnId} {buffer : List Byte}
    {mgr : UserMgmr} {post : Unit → ServerState → Prop} {err : JsError → Prop}
    (known : s.userMap user = some mgr) (idle : mgr.currSeq = none) :
    Wp (parseNormalMessage user c buffer) post err s ↔
      if buffer.length < protocolHeaderLen then
        (∀ bufs, mgr.tmpBufs = some bufs →
          if protocolHeaderLen ≤ mgr.tmpBufsLen + buffer.length then
            Wp (parseFirstMessage user c (bufs ++ [buffer]).flatten) post err
              (s.setMgr user (mgr.setParser (collect mgr.toFrameParser bufs buffer)))
          else post () (s.setMgr user (mgr.setParser (collect mgr.toFrameParser bufs buffer)))) ∧
        (mgr.tmpBufs = none → err .typeError)
      else Wp (parseFirstMessage user c buffer) post err s := by
  rw [parseNormalMessage, wp_bind, wp_getMgr_of_known known]
  simp only [idle]
  rw [wp_ite]
  by_cases short : buffer.length < protocolHeaderLen
  · rw [if_pos short, if_pos short, wp_bind, wp_defined]
    refine and_congr_left' (forall₂_congr fun bufs _ => ?_)
    rw [wp_bind, wp_setMgr, wp_ite]
    simp only [collect, idle, wp_pure]
  · rw [if_neg short, if_neg short]

theorem wp_parseNormalMessage_busy {s : ServerState} {user : JsVal} {c : ConnId} {buffer : List Byte}
    {mgr : UserMgmr} {post : Unit → ServerState → Prop} {err : JsError → Prop}
    (known : s.userMap user = some mgr) (busy : mgr.currSeq ≠ none) :
    Wp (parseNormalMessage user c buffer) post err s ↔ Wp (httpNormalParse user buffer) post err s := by
  rw [parseNormalMessage, wp_bind, wp_getMgr_of_known known]
  split
  next idle => exact (busy idle).elim
  next => rfl

/-- The first message of a device. The log line of the error branch names a variable that
does not exist, and the log line of the other one concatenates what the peer sent. -/
def parseHandshake (c : ConnId) (conn : Conn) (buffer : List Byte) (random : Nat) : Js Unit := do
  let protoHeader ← liftJs (parseHeaderMessage buffer)
  if protoHeader.magic ≠ protocolMagic ∨ protoHeader.ver ≠ protocolVersion ∨
      protoHeader.type ≠ 0x3 then
    throw .referenceError
  else
    let o ← liftJs (parse (decodeUtf8 (buffer.drop protocolHeaderLen)))
    let username ← liftJs (property o "username".toList)
    let host ← liftJs (property o "host".toList)
    let port ← liftJs (property o "port".toList)
    liftJs (concatenates username)
    liftJs (concatenates host)
    liftJs (concatenates port)
    let reply ← liftJs (createReq [bytesBE 4 0x1234] 0x3 0x0)
    emit (.sendBytes c reply)
    let s ← get
    let mgr := (s.userMap username).getD (UserMgmr.new username)
    let devicename := decimal (random + 1)
    setConn c { conn with user := username, host := host, port := port, devicename := some devicename }
    setMgr username (mgr.addConnByName c devicename)

/-- `random` is the draw `Math.floor(Math.random() * 100000)`. -/
def connectionParse (c : ConnId) (buffer : List Byte) (random : Nat) : Js Unit := do
  let conn ← getConn c
  match conn.user with
  | .undefined => parseHandshake c conn buffer random
  | user => parseNormalMessage user c buffer

section
variable {s : ServerState} {c : ConnId} {conn : Conn} {post : Unit → ServerState → Prop}
  {err : JsError → Prop}

theorem wp_connectionParse_new (found : s.conns c = some conn) (isNew : conn.user = .undefined)
    (buffer : List Byte) (random : Nat) :
    Wp (connectionParse c buffer random) post err s ↔ Wp (parseHandshake c conn buffer random) post err s := by
  rw [connectionParse, wp_bind, wp_getConn_of_found found]
  simp only [isNew]

theorem wp_connectionParse_device (found : s.conns c = some conn) (isDevice : conn.user ≠ .undefined)
    (buffer : List Byte) (random : Nat) :
    Wp (connectionParse c buffer random) post err s ↔
      Wp (parseNormalMessage conn.user c buffer) post err s := by
  rw [connectionParse, wp_bind, wp_getConn_of_found found]
  split
  next isNew => exact (isDevice isNew).elim
  next => rfl

end

/-- The handshake of a device that names its user only. -/
def handshakeOf (username : Text) : List Byte :=
  headerBytes 3 0 0 ++ encodeUtf8 ("\x7b\"username\":\"".toList ++ username ++ "\"\x7d".toList)

end WebTunnel.Server.Framing
