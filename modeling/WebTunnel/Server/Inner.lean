import WebTunnel.Server.Accounting
import WebTunnel.Server.Cameras

/-! Messages with a length of their own inside the frame: what the processors of forwards and of cameras
pass on of them. -/

namespace WebTunnel.Server.Inner
open Library.Bytes Library.JavaScript Library.Json Library.Program Library.Slots Sessions Wire Server.Types Processors Webcam
open Accounting Cameras

def innerLen (payload : List Byte) : Nat := natBE (payload.take 4)

/-- The length that the message gives leads past the end of the payload. -/
def Overlong (payload : List Byte) : Prop := payload.length < 4 + innerLen payload

instance (payload : List Byte) : Decidable (Overlong payload) :=
  inferInstanceAs (Decidable (payload.length < 4 + innerLen payload))

/-- The message in a payload. -/
def inner (payload : List Byte) : Option (List Byte) :=
  if Overlong payload then none else some ((payload.drop 4).take (innerLen payload))

section
variable {s : ServerState} {user : JsVal} {mgr : UserMgmr} {payload : List Byte}

theorem readUInt32BE_inner (long : 4 ≤ payload.length) : readUInt32BE payload 0 = .ok (innerLen payload) := by
  rw [readUInt32BE, readUIntBE_of_le (by omega), List.drop_zero]
  rfl

theorem sliceBuffer_inner (payload : List Byte) (len : Nat) : sliceBuffer payload 4 (len + 4) = (payload.drop 4).take len := by
  rw [sliceBuffer, List.drop_take, Nat.add_sub_cancel]

/-- The parser of the user is idle. -/
def Rests (user : JsVal) (t : ServerState) : Prop := Reads user ⟨none, 0, some [], 0⟩ t

/-! Forwards. -/

/-- The browser is sent the message if there is one, and the parser and the processor are ready for the
next frame. -/
def ForwardPasses (s : ServerState) (user : JsVal) (ref : ProcRef) (p : ForwardProcessor) (seq : Nat) (payload : List Byte) : Prop :=
  ∃ t, ForwardProcessor.processBuffer user ref.id p payload s = .ok ((), t) ∧
    t.out = s.out ++ ((inner payload).map fun message =>
      .sendUTF p.conn (.object seq "response".toList (encodeBase64 message))).toList ∧
    Rests user t ∧ t.procs ref.id = some (.forward { p with start := 0 })

/-- What the code does: it sends what there is of the message. -/
theorem forward_sends {ref : ProcRef} {p : ForwardProcessor} {seq : Nat} (known : s.userMap user = some mgr)
    (curr : mgr.currSeq = some seq) (current : mgr.getCurrent = some ref) (long : 4 ≤ payload.length)
    (whole : mgr.currTotal ≤ (p.start + payload.length : Nat)) :
    Wp (ForwardProcessor.processBuffer user ref.id p payload) (fun _ t =>
      t.out = s.out ++ [.sendUTF p.conn (.object seq "response".toList (encodeBase64 ((payload.drop 4).take (innerLen payload))))] ∧
      Rests user t ∧ t.procs ref.id = some (.forward { p with start := 0 })) (fun _ => False) s := by
  rw [ForwardProcessor.processBuffer]
  simp only [wp_bind, wp_setProc]
  rw [wp_getMgr_of_known (by simpa using known), current, getForwardConn_of_proc (setProc_procs_self _ _ _), curr, wp_defined]
  refine ⟨fun x same => ?_, by simp⟩
  cases same
  rw [wp_liftJs_of_ok (readUInt32BE_inner long), sliceBuffer_inner, wp_emit, wp_ite, if_pos whole, wp_bind, wp_setProc,
    wp_resetParser_of_known (by simpa using known)]
  exact ⟨rfl, ⟨_, setMgr_userMap_self _ _ _, rfl⟩, setProc_procs_self _ _ _⟩

theorem forwardPasses_iff {ref : ProcRef} {p : ForwardProcessor} {seq : Nat} (known : s.userMap user = some mgr)
    (curr : mgr.currSeq = some seq) (current : mgr.getCurrent = some ref) (long : 4 ≤ payload.length)
    (whole : mgr.currTotal ≤ (p.start + payload.length : Nat)) :
    ForwardPasses s user ref p seq payload ↔ ¬ Overlong payload := by
  obtain ⟨_, t, ran, out, rests, proc'⟩ := wp_total.mp (forward_sends known curr current long whole)
  constructor
  · rintro ⟨t', ran', out', _⟩ overlong
    cases ran.symm.trans ran'
    rw [out, inner, if_pos overlong] at out'
    simp at out'
  · intro fits
    refine ⟨t, ran, ?_, rests, proc'⟩
    rw [out, inner, if_neg fits]
    rfl

/-! Cameras. -/

/-- What a camera's processor does, for any receiver of the message. -/
def passTo (receive : List Byte → Js Bool) (user : JsVal) (id : ProcId) (p : WebcamProcessor) (buf : List Byte) : Js Unit := do
  let p := { p with start := p.start + buf.length }
  setProc id (.webcam p)
  let len ← liftJs (readUInt32BE buf 0)
  let processed ← receive (sliceBuffer buf 4 (len + 4))
  let mgr ← getMgr user
  if mgr.currTotal ≤ p.start then
    setProc id (.webcam { p with start := 0 })
    if ¬ processed then
      mgrDelSeq user mgr.currSeq
    resetParser user

/-- The camera's manager is the receiver. -/
theorem passTo_camera (user : JsVal) (id : ProcId) (p : WebcamProcessor) (buf : List Byte) :
    WebcamProcessor.processBuffer user id p buf =
      passTo (fun message => CamManager.processBuffer user p.camMgr message p.seq) user id p buf := rfl

/-- The end of the frame. -/
def endFrame (user : JsVal) (id : ProcId) (p : WebcamProcessor) (processed : Bool) : Js Unit := do
  let mgr ← getMgr user
  if mgr.currTotal ≤ p.start then
    setProc id (.webcam { p with start := 0 })
    if ¬ processed then
      mgrDelSeq user mgr.currSeq
    resetParser user

/-- The receiver is handed the message if there is one, and nothing otherwise; then the frame ends. -/
def passChecked (receive : List Byte → Js Bool) (user : JsVal) (id : ProcId) (p : WebcamProcessor) (buf : List Byte) : Js Unit := do
  let p := { p with start := p.start + buf.length }
  setProc id (.webcam p)
  match inner buf with
  | none => endFrame user id p true
  | some message =>
    let processed ← receive message
    endFrame user id p processed

/-- Whatever receives the message, the processor hands it on as it should; and when the processor returns, the
parser and the processor are ready for the next frame. -/
def CameraPasses (s : ServerState) (user : JsVal) (id : ProcId) (p : WebcamProcessor) (payload : List Byte) : Prop :=
  (∀ receive, passTo receive user id p payload s = passChecked receive user id p payload s) ∧
    Wp (WebcamProcessor.processBuffer user id p payload)
      (fun _ t => Rests user t ∧ t.procs id = some (.webcam { p with start := 0 })) (fun _ => True) s

end

section
variable {s : ServerState} {user : JsVal} {mgr : UserMgmr} {payload : List Byte} {id : ProcId} {p : WebcamProcessor}

/-- The frame ends with this buffer. -/
theorem wp_endFrame (known : s.userMap user = some mgr) (whole : mgr.currTotal ≤ p.start) (processed : Bool) :
    Wp (endFrame user id p processed) (fun _ t => Rests user t ∧ t.procs id = some (.webcam { p with start := 0 })) (fun _ => True) s := by
  have ends (t : ServerState) (mgr' : UserMgmr) (known' : t.userMap user = some mgr')
      (proc : t.procs id = some (.webcam { p with start := 0 })) : Wp (resetParser user)
      (fun _ t => Rests user t ∧ t.procs id = some (.webcam { p with start := 0 })) (fun _ => True) t := by
    rw [wp_resetParser_of_known known']
    exact ⟨⟨_, setMgr_userMap_self _ _ _, rfl⟩, proc⟩
  rw [endFrame, wp_bind, wp_getMgr_of_known known, wp_ite, if_pos whole, wp_bind, wp_setProc]
  cases processed with
  | true => exact ends _ mgr known (setProc_procs_self _ _ _)
  | false =>
    rw [if_pos (by simp), wp_bind, wp_mgrDelSeq]
    refine ⟨fun _ => ends _ mgr known (setProc_procs_self _ _ _), fun x _ => ⟨fun mgr' _ => ⟨fun _ table _ => ?_, fun _ _ => trivial⟩,
      fun _ => trivial⟩⟩
    exact ends _ _ (setMgr_userMap_self _ _ _) (setProc_procs_self _ _ _)

/-- The processor always hands on what there is of the message. -/
theorem passTo_eq (long : 4 ≤ payload.length) (receive : List Byte → Js Bool) : passTo receive user id p payload = (do
    setProc id (.webcam { p with start := p.start + payload.length })
    let processed ← receive ((payload.drop 4).take (innerLen payload))
    endFrame user id { p with start := p.start + payload.length } processed) := by
  rw [passTo, readUInt32BE_inner long]
  simp only [liftJs, pure_bind, sliceBuffer_inner, endFrame]

theorem camera_rests (known : s.userMap user = some mgr) (long : 4 ≤ payload.length)
    (whole : mgr.currTotal ≤ (p.start + payload.length : Nat)) : Wp (WebcamProcessor.processBuffer user id p payload)
      (fun _ t => Rests user t ∧ t.procs id = some (.webcam { p with start := 0 })) (fun _ => True) s := by
  have reads : Reads user mgr.toFrameParser s := ⟨mgr, known, rfl⟩
  rw [passTo_camera, passTo_eq long]
  refine wp_kept_then reads fun _ t reads => wp_kept_then reads fun processed u reads => ?_
  obtain ⟨mgr', known', same⟩ := reads
  have whole' : mgr'.currTotal ≤ (p.start + payload.length : Nat) := by
    have total : mgr'.currTotal = mgr.currTotal := congrArg FrameParser.currTotal same
    rw [total]
    exact whole
  exact wp_endFrame (p := { p with start := p.start + payload.length }) known' whole' processed

theorem cameraPasses_iff (known : s.userMap user = some mgr) (long : 4 ≤ payload.length)
    (whole : mgr.currTotal ≤ (p.start + payload.length : Nat)) : CameraPasses s user id p payload ↔ ¬ Overlong payload := by
  constructor
  · rintro ⟨passes, _⟩ overlong
    have same := passes fun _ => throw .typeError
    have checked : Wp (passChecked (fun _ => throw .typeError) user id p payload) (fun _ _ => True) (fun _ => False) s := by
      rw [passChecked, inner, if_pos overlong, wp_bind, wp_setProc]
      simp only [endFrame, wp_bind]
      rw [wp_getMgr_of_known (by simpa using known), wp_ite, if_pos whole, wp_bind, wp_setProc]
      change Wp (resetParser user) (fun _ _ => True) (fun _ => False) _
      rw [wp_resetParser_of_known (by simpa using known)]
      trivial
    have stops : Wp (passTo (fun _ => throw .typeError) user id p payload) (fun _ _ => False) (fun _ => True) s := by
      rw [passTo_eq long, wp_bind, wp_setProc, wp_bind, wp_throw]
      trivial
    obtain ⟨_, t, ran, _⟩ := wp_total.mp checked
    exact wp_of_run (same.trans ran) stops
  · intro fits
    refine ⟨fun receive => ?_, camera_rests known long whole⟩
    rw [passTo_eq long, passChecked, inner, if_neg fits]

/-- Of a complete frame the message is passed on if its length does not lead past the payload; otherwise,
where nothing should be passed on, the rest of the payload is. -/
theorem passes_iff {seq : Nat} {ref : ProcRef} {forward : ForwardProcessor} (known : s.userMap user = some mgr)
    (curr : mgr.currSeq = some seq) (current : mgr.getCurrent = some ref) (long : 4 ≤ payload.length)
    (forwardWhole : mgr.currTotal ≤ (forward.start + payload.length : Nat))
    (cameraWhole : mgr.currTotal ≤ (p.start + payload.length : Nat)) :
    (ForwardPasses s user ref forward seq payload ↔ ¬ Overlong payload) ∧
      (CameraPasses s user id p payload ↔ ¬ Overlong payload) :=
  ⟨forwardPasses_iff known curr current long forwardWhole, cameraPasses_iff known long cameraWhole⟩

end

def ownUser : JsVal := .str "u".toList

/-- A server that reads a frame of session 0, whose message is said to be 9 bytes long. -/
def readingMgr : UserMgmr :=
  ((UserMgmr.new ownUser).setTable ⟨1, [some ⟨0, 0⟩], [some 0], 1⟩).setParser ⟨some 0, 5, some [], 0⟩

def readingServer : ServerState := ServerState.init.setMgr ownUser readingMgr

theorem readingServer_known : readingServer.userMap ownUser = some readingMgr :=
  setMgr_userMap_self ServerState.init ownUser readingMgr

theorem passes_iff_reading :
    (ForwardPasses readingServer ownUser ⟨0, 0⟩ ⟨1, 0, 0⟩ 0 [0, 0, 0, 1, 0x41] ↔ ¬ Overlong [0, 0, 0, 1, 0x41]) ∧
      (CameraPasses readingServer ownUser 0 ⟨"u".toList, 0, 0⟩ [0, 0, 0, 1, 0x41] ↔ ¬ Overlong [0, 0, 0, 1, 0x41]) :=
  passes_iff readingServer_known rfl rfl (by decide) (by decide) (by decide)

/-- Of a message that is too short the rest is sent to the browser. -/
theorem overlong_sent : ¬ ∀ (s : ServerState) (user : JsVal) (mgr : UserMgmr) (ref : ProcRef) (p : ForwardProcessor) (seq : Nat)
    (payload : List Byte), s.userMap user = some mgr → mgr.currSeq = some seq → mgr.getCurrent = some ref →
    4 ≤ payload.length → mgr.currTotal ≤ (p.start + payload.length : Nat) → ForwardPasses s user ref p seq payload := by
  intro always
  have passes := always readingServer ownUser readingMgr ⟨0, 0⟩ ⟨1, 0, 0⟩ 0 [0, 0, 0, 9, 0x41] readingServer_known rfl rfl
    (by decide) (by decide)
  have fits := (forwardPasses_iff readingServer_known rfl rfl (by decide) (by decide)).mp passes
  exact fits (by decide)

end WebTunnel.Server.Inner
