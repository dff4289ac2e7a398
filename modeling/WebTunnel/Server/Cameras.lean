import WebTunnel.Server.Registers

/-! What the manager of a camera leaves as it is: the user's parser, and whatever else does not depend on
sessions, cameras and processors. -/

namespace WebTunnel.Server.Cameras
open Library.Bytes Library.JavaScript Library.Json Library.Program Library.Slots Sessions Wire Server.Types Processors Webcam
open Registers

/-- A call of a session's processor. -/
def isCall : Output → Bool
  | .processBuffer _ _ _ _ => true
  | _ => false

/-- A property of the server that outputs, processors, sessions and cameras have no part in. -/
class Beside (user : outParam JsVal) (P : ServerState → Prop) : Prop where
  write : ∀ s outputs, (∀ output ∈ outputs, isCall output = false) → P s → P (s.write outputs)
  setProc : ∀ s id proc, P s → P (s.setProc id proc)
  openSeq : ∀ s mgr construct, s.userMap user = some mgr → P s → P (s.openSeq user mgr construct)
  setMgr : ∀ s mgr mgr', s.userMap user = some mgr → mgr'.toFrameParser = mgr.toFrameParser → P s → P (s.setMgr user mgr')

section
variable {user : JsVal} {P : ServerState → Prop} [beside : Beside user P] {hostUrl : Text}
include beside

theorem keeps_emitAll {outputs : List Output} (quiet : ∀ output ∈ outputs, isCall output = false) : Keeps P (emitAll outputs) :=
  ⟨fun s holds => beside.write s outputs quiet holds⟩

theorem keeps_emit {output : Output} (quiet : isCall output = false) : Keeps P (emit output) :=
  keeps_emitAll fun _ member => List.mem_singleton.mp member ▸ quiet

instance keeps_setProc (id : ProcId) (proc : Processor) : Keeps P (setProc id proc) := ⟨fun s holds => beside.setProc s id proc holds⟩

instance keeps_sendBytes (target : Found) (bytes : List Byte) : Keeps P (sendBytes target bytes) := by
  cases target with
  | conn c => exact keeps_emit rfl
  | builtin => exact keeps_throw _

instance keeps_getMgr : Keeps P (getMgr user) := by
  unfold getMgr
  infer_instance

instance keeps_getCam : Keeps P (getCam user hostUrl) := by
  unfold getCam
  infer_instance

instance keeps_setCam (cam : CamManager) : Keeps P (setCam user hostUrl cam) := by
  refine ⟨fun s holds => ?_⟩
  rw [setCam, wp_bind, wp_getMgr]
  exact ⟨fun mgr known => beside.setMgr s mgr _ known rfl holds, fun _ => trivial⟩

instance keeps_mgrNewSeq (construct : Nat → Processor) : Keeps P (mgrNewSeq user construct) := by
  refine ⟨fun s holds => ?_⟩
  rw [wp_mgrNewSeq]
  exact ⟨fun mgr known => ⟨fun _ => holds, fun _ => beside.openSeq s mgr construct known holds⟩, fun _ => trivial⟩

instance keeps_mgrDelSeq (seq : Option Nat) : Keeps P (mgrDelSeq user seq) := by
  refine ⟨fun s holds => ?_⟩
  rw [wp_mgrDelSeq]
  refine ⟨fun _ => holds, fun x _ => ⟨fun mgr known => ⟨fun _ table _ => ?_, fun _ _ => trivial⟩, fun _ => trivial⟩⟩
  exact beside.setMgr s mgr _ known rfl holds

instance keeps_webcamDoConn (p : WebcamProcessor) : Keeps P (WebcamProcessor.doConn user p) := by
  unfold WebcamProcessor.doConn
  refine keeps_next fun cam => keeps_next fun mgr => ?_
  split <;> infer_instance

instance keeps_doConn : Keeps P (CamManager.doConn user hostUrl) := by
  unfold CamManager.doConn
  infer_instance

instance keeps_onDoReq : Keeps P (CamManager.onDoReq user hostUrl) := by
  unfold CamManager.onDoReq
  infer_instance

instance keeps_repeatDoReq (listeners : Nat) : Keeps P (repeatDoReq user hostUrl listeners) := by
  induction listeners with
  | zero => exact keeps_pure ()
  | succ listeners ih => exact keeps_bind

instance keeps_emitDoReq : Keeps P (CamManager.emitDoReq user hostUrl) := by
  unfold CamManager.emitDoReq
  infer_instance

instance keeps_readyForNew : Keeps P (CamManager.readyForNew user hostUrl) := by
  unfold CamManager.readyForNew
  infer_instance

instance keeps_innerProcessBuffer (buffer : List Byte) (seq : Option Nat) :
    Keeps P (CamManager.innerProcessBuffer user hostUrl buffer seq) := by
  unfold CamManager.innerProcessBuffer
  refine keeps_next fun cam => ?_
  have sends : Keeps P (emitAll (CamManager.snapshotOutputs cam)) := by
    refine keeps_emitAll fun output member => ?_
    obtain ⟨viewer, _, sent⟩ := List.mem_flatMap.mp member
    rcases List.mem_cons.mp sent with rfl | sent
    · rfl
    · rw [List.mem_singleton.mp sent]
      rfl
  infer_instance

instance keeps_processHeader (buffer : List Byte) : Keeps P (CamManager.processHeader user hostUrl buffer) := by
  unfold CamManager.processHeader
  refine keeps_next fun cam => ?_
  dsimp only
  refine keeps_next fun _ => ?_
  split <;> infer_instance

instance keeps_processBuffer (buffer : List Byte) (seq : Nat) : Keeps P (CamManager.processBuffer user hostUrl buffer seq) := by
  unfold CamManager.processBuffer
  infer_instance

end

/-- What the parser of the user remembers. -/
def Reads (user : JsVal) (parser : FrameParser) (s : ServerState) : Prop :=
  ∃ mgr, s.userMap user = some mgr ∧ mgr.toFrameParser = parser

instance (user : JsVal) (parser : FrameParser) : Beside user (Reads user parser) where
  write _ _ _ reads := reads
  setProc _ _ _ reads := reads
  openSeq s mgr construct known := by
    rintro ⟨mgr', known', same⟩
    cases known.symm.trans known'
    exact ⟨_, setMgr_userMap_self _ _ _, same⟩
  setMgr s mgr mgr' known same := by
    rintro ⟨mgr'', known', same'⟩
    cases known.symm.trans known'
    exact ⟨_, setMgr_userMap_self _ _ _, same.trans same'⟩

end WebTunnel.Server.Cameras
