import WebTunnel.Server.Events

/-! Frames that arrive as one message each, while no other frame is under way. -/

namespace WebTunnel.Server.Messages
open Library.Bytes Library.JavaScript Library.Json Library.Program Library.Slots Sessions Wire Server.Types
open Processors Webcam Framing Events

/-- A frame with its header. -/
def frameOf (type seq : Nat) (payload : List Byte) : List Byte :=
  headerBytes type seq (protocolHeaderLen + payload.length) ++ payload

/-- Data for a forward session: its length, the data and what the frame is padded with. -/
def packed (data padding : List Byte) : List Byte := bytesBE 4 data.length ++ (data ++ padding)

/-- What is sent to browsers. -/
def sentTexts (outputs : List Output) : List (ConnId × UtfMessage) :=
  outputs.filterMap fun
    | .sendUTF c message => some (c, message)
    | _ => none

section
variable {s : ServerState} {user : JsVal} {mgr : UserMgmr} {c : ConnId} {type seq : Nat} {payload data padding : List Byte}
  {ref : ProcRef} {post : Unit → ServerState → Prop} {err : JsError → Prop}

@[simp] theorem frameOf_length : (frameOf type seq payload).length = protocolHeaderLen + payload.length := by
  simp [frameOf]

@[simp] theorem packed_length : (packed data padding).length = 4 + (data.length + padding.length) := by
  simp [packed]

theorem readUInt32BE_packed (fits : data.length < 2 ^ 32) : readUInt32BE (packed data padding) 0 = .ok data.length :=
  readUIntBE_bytesBE (k := 4) fits [] (data ++ padding)

theorem sliceBuffer_packed : sliceBuffer (packed data padding) 4 (data.length + 4) = data := by
  have inside : (packed data padding).take (data.length + 4) = bytesBE 4 data.length ++ data := by
    rw [packed, ← List.append_assoc]
    exact List.take_left' (by simp [Nat.add_comm])
  rw [sliceBuffer, inside]
  exact List.drop_left' (bytesBE_length 4 _)

/-- The manager while a frame of a session is read. -/
def reading (mgr : UserMgmr) (seq total : Nat) : UserMgmr := mgr.setParser ⟨some seq, total, some [], 0⟩

/-- The whole frame goes to its session's processor. -/
theorem wp_parseNormalMessage_frame (known : s.userMap user = some mgr) (idle : mgr.currSeq = none) (byte : type < 256)
    (isData : type ≠ 0x5) (short : seq < 65536) (some_ : payload ≠ []) (fits : protocolHeaderLen + payload.length < 2 ^ 32)
    (live : getBySeq mgr.toSessionTable seq = some ref) :
    Wp (parseNormalMessage user c (frameOf type seq payload)) post err s ↔
      Wp (processBuffer user ref.id payload) post err
        ((s.setMgr user (reading mgr seq payload.length)).write [.processBuffer seq payload.length ref.id payload]) := by
  have long : protocolHeaderLen < (frameOf type seq payload).length := by
    rw [frameOf_length]
    exact Nat.lt_add_of_pos_right (List.length_pos_iff.mpr some_)
  have header := parseHeaderMessage_headerBytes byte short fits payload
  rw [wp_parseNormalMessage_idle known idle, if_neg (Nat.not_lt.mpr long.le), wp_parseFirstMessage known]
  rw [show parseHeaderMessage (frameOf type seq payload) = _ from header]
  simp only [reduceCtorEq, false_implies, implies_true, true_and, Except.ok.injEq, forall_eq']
  rw [if_neg (by simp [headerBad]), if_neg isData, afterHeader, if_pos long]
  have rest : sliceBuffer (frameOf type seq payload) protocolHeaderLen (frameOf type seq payload).length = payload := by
    rw [sliceBuffer, List.take_length]
    exact List.drop_left' (headerBytes_length _ _ _)
  have begun : beginFrame ⟨protocolMagic, protocolVersion, type, seq, protocolHeaderLen + payload.length⟩ =
      ⟨some seq, payload.length, some [], 0⟩ := by
    simp [beginFrame]
  rw [rest, begun, httpNormalParse, wp_bind, wp_getMgr_of_known (setMgr_userMap_self _ _ _)]
  have current : (mgr.setParser ⟨some seq, payload.length, some [], 0⟩).getCurrent = some ref := live
  simp only [current, parser_setParser, wp_bind, wp_emit]
  rfl

/-- The data of a forward goes to its browser. -/
theorem wp_forward_processBuffer {p : ForwardProcessor} (live : getBySeq mgr.toSessionTable seq = some ref)
    (isForward : s.procs ref.id = some (.forward p)) (fits : data.length < 2 ^ 32) (outputs : List Output) :
    Wp (processBuffer user ref.id (packed data padding))
      (fun _ t => t.out = s.out ++ outputs ++ [.sendUTF p.conn (.object seq "response".toList (encodeBase64 data))] ∧
        t.userMap user = some (mgr.setParser mgr.toFrameParser.reset)) err
      ((s.setMgr user (reading mgr seq (packed data padding).length)).write outputs) := by
  have known : ∀ proc, (((s.setMgr user (reading mgr seq (packed data padding).length)).write outputs).setProc ref.id
      proc).userMap user = some (reading mgr seq (packed data padding).length) := fun _ => setMgr_userMap_self _ _ _
  have found : ((s.setMgr user (reading mgr seq (packed data padding).length)).write outputs).procs ref.id =
      some (.forward p) := isForward
  rw [processBuffer, wp_bind, wp_get]
  simp only [found]
  rw [ForwardProcessor.processBuffer, wp_bind, wp_setProc, wp_bind, wp_getMgr_of_known (known _), wp_bind, getForwardConn,
    wp_bind]
  have current : (reading mgr seq (packed data padding).length).getCurrent = some ref := live
  rw [current, wp_defined]
  refine ⟨fun _ same => ?_, by simp⟩
  cases same
  rw [wp_bind, wp_get]
  simp only [setProc_procs_self, wp_pure]
  rw [wp_bind, wp_defined]
  refine ⟨fun _ same => ?_, by rintro ⟨⟩⟩
  cases same
  rw [wp_bind, wp_liftJs_of_ok (readUInt32BE_packed fits), wp_bind, wp_emit, wp_ite, sliceBuffer_packed,
    if_pos (by simp [reading]), wp_bind, wp_setProc]
  generalize sent : ServerState.setProc _ ref.id _ = t
  have out : t.out = s.out ++ outputs ++ [.sendUTF p.conn (.object seq "response".toList (encodeBase64 data))] := by
    rw [← sent]
    rfl
  have known : t.userMap user = some (reading mgr seq (packed data padding).length) := by
    rw [← sent]
    exact setMgr_userMap_self _ _ _
  rw [wp_resetParser_of_known known]
  exact ⟨out, setMgr_userMap_self _ _ _⟩

end

end WebTunnel.Server.Messages
