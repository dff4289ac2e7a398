import WebTunnel.Server.Messages
import WebTunnel.Server.Snapshots

/-! The sessions of snapshots. When a snapshot ends, its session stays in the table. -/

namespace WebTunnel.Server.Retaining
open Library.Bytes Library.JavaScript Library.Json Library.Program Library.Run Library.Slots Sessions Wire Server.Types
open Processors Webcam Framing Events Moves Registers Messages
open Snapshots (viewingUser camUrl oneViewer)

/-- The camera waits for messages of this session, or of any. -/
structure Waits (seq : Nat) (cam : CamManager) : Prop where
  currSeq : cam.currSeq = none ∨ cam.currSeq = some seq
  headerOk : cam.headerOk = false

/-- The id leads to an object in one of the slots in use. -/
def InUse (table : SessionTable ProcRef) (seq : Nat) (ref : ProcRef) : Prop :=
  ∃ i < table.cnt, holeGet table.seq2index seq = some i ∧ holeGet table.index2obj i = some ref

/-- A user's manager with a snapshot's session. -/
structure Holds (hostUrl : Text) (seq count : Nat) (parser : FrameParser) (mgr : UserMgmr) : Prop where
  parser : mgr.toFrameParser = parser
  shaped : Shaped mgr.toSessionTable
  count : count ≤ mgr.cnt
  waits : ∀ cam, mgr.cams.lookup hostUrl = some cam → Waits seq cam

/-- The session is in the table and its processor serves the camera. -/
structure Held (user : JsVal) (hostUrl : Text) (seq count : Nat) (parser : FrameParser) (s : ServerState) : Prop where
  known : ∃ mgr, s.userMap user = some mgr ∧ Holds hostUrl seq count parser mgr ∧
    ∃ ref start, InUse mgr.toSessionTable seq ref ∧ ref.id < s.nextProc ∧
      s.procs ref.id = some (.webcam ⟨hostUrl, seq, start⟩)

section
variable {α : Type} {s t : ServerState} {user : JsVal} {hostUrl : Text} {seq count : Nat} {parser : FrameParser}
  {mgr : UserMgmr} {cam : CamManager}

instance (outputs : List Output) : Keeps (Held user hostUrl seq count parser) (emitAll outputs) :=
  ⟨fun _ held => ⟨held.known⟩⟩

instance (output : Output) : Keeps (Held user hostUrl seq count parser) (emit output) :=
  inferInstanceAs (Keeps (Held user hostUrl seq count parser) (emitAll [output]))

instance (target : Found) (bytes : List Byte) : Keeps (Held user hostUrl seq count parser) (sendBytes target bytes) := by
  cases target <;> unfold sendBytes <;> infer_instance

instance : Keeps (Held user hostUrl seq count parser) (getMgr user) := by
  unfold getMgr
  infer_instance

/-- Whatever follows the reading of the camera finds it waiting for the session. -/
theorem keeps_getCam {next : CamManager → Js α}
    (second : ∀ cam, Waits seq cam → Keeps (Held user hostUrl seq count parser) (next cam)) :
    Keeps (Held user hostUrl seq count parser) (getCam user hostUrl >>= next) := by
  refine ⟨fun t held => ?_⟩
  rw [wp_bind, getCam, wp_bind, wp_getMgr]
  refine ⟨fun mgr known => ?_, fun _ => trivial⟩
  rw [wp_defined]
  refine ⟨fun cam found => ?_, fun _ => trivial⟩
  obtain ⟨mgr', known', holds, _⟩ := held.known
  cases known.symm.trans known'
  exact (second cam (holds.waits cam found)).kept t held

theorem keeps_setCam (waits : Waits seq cam) : Keeps (Held user hostUrl seq count parser) (setCam user hostUrl cam) := by
  refine ⟨fun t held => ?_⟩
  obtain ⟨mgr, known, holds, ref, start, live, old, isWebcam⟩ := held.known
  rw [wp_setCam_of_known known]
  refine ⟨_, setMgr_userMap_self _ _ _, ⟨holds.parser, holds.shaped, holds.count, fun cam' found => ?_⟩, ref, start, live,
    old, isWebcam⟩
  rw [lookup_withCam] at found
  cases found
  exact waits

/-- A new session leaves the old one in the table; where it takes over its id, it serves the
same camera. -/
theorem keeps_mgrNewSeq : Keeps (Held user hostUrl seq count parser) (mgrNewSeq user fun seq => .webcam ⟨hostUrl, seq, 0⟩) := by
  refine ⟨fun t held => ?_⟩
  obtain ⟨mgr, known, holds, ref, start, live, old, isWebcam⟩ := held.known
  rw [wp_mgrNewSeq]
  refine ⟨fun mgr' known' => ⟨fun _ => held, fun room => ?_⟩, fun _ => trivial⟩
  cases known.symm.trans known'
  obtain ⟨table, made, cnt, _, slots, index, _⟩ :=
    newSeq_run (fun seq => (⟨t.nextProc, seq⟩ : ProcRef)) room holds.shaped.parallel
  obtain ⟨i, inUse, listed, placed⟩ := live
  have shaped := (holds.shaped.newSeq (fun seq => (⟨t.nextProc, seq⟩ : ProcRef)) room rfl).1
  rw [made] at shaped
  refine ⟨mgr.setTable table, ?_, ⟨holds.parser, shaped, ?_, holds.waits⟩, ?_⟩
  · rw [ServerState.openSeq, made]
    exact setMgr_userMap_self _ _ _
  · exact holds.count.trans (cnt ▸ Nat.le_succ _)
  by_cases taken : seq = cursor mgr.toSessionTable
  · refine ⟨⟨t.nextProc, cursor mgr.toSessionTable⟩, 0, ⟨mgr.cnt, cnt ▸ Nat.lt_succ_self _, ?_, ?_⟩, Nat.lt_succ_self _, ?_⟩
    · exact (index seq).trans (if_pos taken)
    · exact (slots _).trans (if_pos rfl)
    · rw [taken]
      exact setProc_procs_self _ _ _
  · refine ⟨ref, start, ⟨i, cnt ▸ Nat.lt_succ_of_lt inUse, ?_, ?_⟩, Nat.lt_succ_of_lt old, ?_⟩
    · exact ((index seq).trans (if_neg taken)).trans listed
    · exact ((slots i).trans (if_neg inUse.ne)).trans placed
    · exact (if_neg old.ne).trans isWebcam

instance (seq' start : Nat) : Keeps (Held user hostUrl seq count parser) (WebcamProcessor.doConn user ⟨hostUrl, seq', start⟩) := by
  unfold WebcamProcessor.doConn
  refine keeps_getCam fun cam _ => keeps_next fun mgr => ?_
  split <;> infer_instance

instance : Keeps (Held user hostUrl seq count parser) (CamManager.doConn user hostUrl) := by
  unfold CamManager.doConn
  have opens : Keeps (Held user hostUrl seq count parser) (mgrNewSeq user fun seq => .webcam ⟨hostUrl, seq, 0⟩) :=
    keeps_mgrNewSeq
  exact keeps_next fun processor => inferInstance

instance : Keeps (Held user hostUrl seq count parser) (CamManager.onDoReq user hostUrl) := by
  unfold CamManager.onDoReq
  refine keeps_getCam fun cam waits => ?_
  have sets : Keeps (Held user hostUrl seq count parser) (setCam user hostUrl { cam with isReady := false }) :=
    keeps_setCam ⟨waits.currSeq, waits.headerOk⟩
  have counts : Keeps (Held user hostUrl seq count parser) (do
      let cam ← getCam user hostUrl
      setCam user hostUrl { cam with timers := cam.timers + 1 }) :=
    keeps_getCam fun cam waits => keeps_setCam ⟨waits.currSeq, waits.headerOk⟩
  infer_instance

instance (listeners : Nat) : Keeps (Held user hostUrl seq count parser) (repeatDoReq user hostUrl listeners) := by
  induction listeners with
  | zero => exact keeps_pure ()
  | succ listeners ih => exact keeps_bind

instance : Keeps (Held user hostUrl seq count parser) (CamManager.emitDoReq user hostUrl) := by
  unfold CamManager.emitDoReq
  exact keeps_getCam fun cam _ => inferInstance

instance : Keeps (Held user hostUrl seq count parser) (CamManager.readyForNew user hostUrl) := by
  unfold CamManager.readyForNew
  refine keeps_getCam fun cam waits => ?_
  have sets : Keeps (Held user hostUrl seq count parser) (setCam user hostUrl { cam with isReady := true }) :=
    keeps_setCam ⟨waits.currSeq, waits.headerOk⟩
  infer_instance

/-- Where no session is passed on, none is deleted. -/
instance (buffer : List Byte) : Keeps (Held user hostUrl seq count parser) (CamManager.innerProcessBuffer user hostUrl buffer none) := by
  unfold CamManager.innerProcessBuffer mgrDelSeq
  refine keeps_getCam fun cam waits => ?_
  have ends : Keeps (Held user hostUrl seq count parser) (setCam user hostUrl
      { cam with bufs := [], totalLen := some 0, currLen := 0, currSeq := none }) := keeps_setCam ⟨.inl rfl, waits.headerOk⟩
  have adds : Keeps (Held user hostUrl seq count parser) (setCam user hostUrl
      { cam with bufs := cam.bufs ++ [buffer], currLen := cam.currLen + buffer.length }) :=
    keeps_setCam ⟨waits.currSeq, waits.headerOk⟩
  infer_instance

theorem scanHeader_currSeq (cam : CamManager) (buffer : List Byte) :
    (CamManager.scanHeader cam buffer).1.currSeq = cam.currSeq := by
  unfold CamManager.scanHeader
  dsimp only
  split
  · rfl
  · split
    · split <;> rfl
    · rfl

instance (buffer : List Byte) : Keeps (Held user hostUrl seq count parser) (CamManager.processHeader user hostUrl buffer) := by
  unfold CamManager.processHeader
  refine keeps_getCam fun cam waits => ?_
  have waits' : Waits seq (CamManager.scanHeader cam buffer).1 :=
    ⟨(scanHeader_currSeq cam buffer).symm ▸ waits.currSeq, (scanHeader_headerOk cam buffer).trans waits.headerOk⟩
  generalize CamManager.scanHeader cam buffer = scanned at waits' ⊢
  obtain ⟨cam', rest⟩ := scanned
  have sets : Keeps (Held user hostUrl seq count parser) (setCam user hostUrl cam') := keeps_setCam waits'
  refine keeps_next fun _ => ?_
  split <;> infer_instance

/-- The camera takes the session's message. -/
theorem wp_cam_processBuffer (held : Held user hostUrl seq count parser s) (buffer : List Byte) :
    Wp (CamManager.processBuffer user hostUrl buffer seq)
      (fun processed t => processed = true ∧ Held user hostUrl seq count parser t) (fun _ => True) s := by
  obtain ⟨mgr, known, holds, _⟩ := held.known
  rw [CamManager.processBuffer, wp_bind]
  cases found : mgr.cams.lookup hostUrl with
  | none =>
    rw [getCam, wp_bind, wp_getMgr_of_known known, wp_defined]
    exact ⟨fun cam exists_ => (by cases found.symm.trans exists_), fun _ => trivial⟩
  | some cam =>
    have waits := holds.waits cam found
    have sets : Keeps (Held user hostUrl seq count parser) (setCam user hostUrl { cam with currSeq := some seq }) :=
      keeps_setCam ⟨.inr rfl, waits.headerOk⟩
    rw [wp_getCam_of_found known found, if_pos waits.currSeq, if_neg (by simp [waits.headerOk])]
    refine wp_kept_then held fun _ t held => wp_kept_then held fun _ t held => ?_
    exact ⟨rfl, held⟩

instance (id : ProcId) (start : Nat) : Keeps (Held user hostUrl seq count parser) (setProc id (.webcam ⟨hostUrl, seq, start⟩)) := by
  refine ⟨fun t held => ?_⟩
  obtain ⟨mgr, known, holds, ref, start', live, old, isWebcam⟩ := held.known
  by_cases own : ref.id = id
  · exact ⟨mgr, known, holds, ref, start, live, old, if_pos own⟩
  · exact ⟨mgr, known, holds, ref, start', live, old, (if_neg own).trans isWebcam⟩

/-- The frame is read, and the session is still held. -/
theorem wp_webcam_processBuffer (id : ProcId) (start : Nat) (buffer : List Byte) (total : parser.currTotal ≤ buffer.length)
    (held : Held user hostUrl seq count parser s) :
    Wp (WebcamProcessor.processBuffer user id ⟨hostUrl, seq, start⟩ buffer)
      (fun _ t => Held user hostUrl seq count parser.reset t) (fun _ => True) s := by
  rw [WebcamProcessor.processBuffer]
  refine wp_kept_then held fun _ t held => wp_kept_then held fun len t held => ?_
  rw [wp_bind]
  refine wp_post (wp_cam_processBuffer held _) ?_
  rintro processed t ⟨taken, held⟩
  obtain ⟨mgr, known, holds, ref, start', live, old, isWebcam⟩ := held.known
  subst taken
  have whole : mgr.currTotal ≤ ((start + buffer.length : Nat) : Int) := by
    rw [holds.parser]
    omega
  rw [wp_bind, wp_getMgr_of_known known, wp_ite, if_pos whole]
  refine wp_kept_then held fun _ t held => ?_
  rw [if_neg (by simp)]
  obtain ⟨mgr, known, holds, session⟩ := held.known
  rw [wp_resetParser_of_known known]
  exact ⟨_, setMgr_userMap_self _ _ _, ⟨holds.parser ▸ rfl, holds.shaped, holds.count, holds.waits⟩, session⟩

/-- A frame for the session. -/
theorem wp_snapshot_frame {c : ConnId} {data padding : List Byte} (idle : parser.currSeq = none) (short : seq < 65536)
    (fits : protocolHeaderLen + (packed data padding).length < 2 ^ 32) (held : Held user hostUrl seq count parser s) :
    Wp (parseNormalMessage user c (frameOf 0x12 seq (packed data padding)))
      (fun _ t => Held user hostUrl seq count ⟨none, 0, some [], 0⟩ t) (fun _ => True) s := by
  obtain ⟨mgr, known, holds, ref, start, inUse, old, isWebcam⟩ := held.known
  obtain ⟨i, used, listed, placed⟩ := inUse
  have live : getBySeq mgr.toSessionTable seq = some ref := getBySeq_eq_some.mpr ⟨i, listed, placed⟩
  have some_ : packed data padding ≠ [] := by
    rw [← List.length_pos_iff, packed_length]
    omega
  rw [wp_parseNormalMessage_frame known (holds.parser ▸ idle) (by decide) (by decide) short some_ fits live]
  have reads : Held user hostUrl seq count ⟨some seq, (packed data padding).length, some [], 0⟩
      ((s.setMgr user (reading mgr seq (packed data padding).length)).write
        [.processBuffer seq (packed data padding).length ref.id (packed data padding)]) :=
    ⟨_, setMgr_userMap_self _ _ _, ⟨rfl, holds.shaped, holds.count, holds.waits⟩, ref, start, ⟨i, used, listed, placed⟩, old,
      isWebcam⟩
  rw [processBuffer, wp_bind, wp_get]
  have found : ((s.setMgr user (reading mgr seq (packed data padding).length)).write
      [.processBuffer seq (packed data padding).length ref.id (packed data padding)]).procs ref.id =
        some (.webcam ⟨hostUrl, seq, start⟩) := isWebcam
  rw [found]
  exact wp_webcam_processBuffer ref.id start _ (le_refl _) reads

end

/-! Whole snapshots. -/

/-- A response of a camera, cut into messages. The first message has the whole header block. -/
structure Response (header body : List Byte) (cut : List (List Byte × List Byte)) : Prop where
  ends : ∃ fields, header = fields ++ encodeUtf8 headerEnd
  whole : (cut.map Prod.fst).flatten = header ++ body
  first : ∃ part padding rest, cut = (header ++ part, padding) :: rest

/-- What a device sends when its forward is closed. -/
def closedNotice : List Byte := encodeUtf8 closeText ++ [0]

/-- The messages of one snapshot, as frames with some padding each. -/
def snapshotFrames (seq : Nat) (cut : List (List Byte × List Byte)) (padding : List Byte) : List (List Byte) :=
  (cut ++ [(closedNotice, padding)]).map fun message => frameOf 0x12 seq (packed message.1 message.2)

/-- The length of each frame fits its header. -/
def FramesFit (cut : List (List Byte × List Byte)) (padding : List Byte) : Prop :=
  ∀ message ∈ cut ++ [(closedNotice, padding)], protocolHeaderLen + (packed message.1 message.2).length < 2 ^ 32

def deliver (c : ConnId) (frames : List (List Byte)) : List Event := frames.map fun frame => .binary c frame 0

/-- The image goes to every viewer, and the snapshot's session is free again. -/
structure Served (s t : ServerState) (mgr : UserMgmr) (user : JsVal) (hostUrl : Text) (seq : Nat) (body : List Byte) :
    Prop where
  image : ∀ cam, mgr.cams.lookup hostUrl = some cam → ∀ viewer ∈ cam.conns.map Prod.snd,
    (viewer, .text (encodeBase64 body)) ∈ sentTexts (sentSince s t)
  freed : ∃ mgr', t.userMap user = some mgr' ∧ getBySeq mgr'.toSessionTable seq = none ∧ mgr'.cnt + 1 = mgr.cnt

section
variable {s t : ServerState} {hostUrl : Text} {seq count start : Nat} {mgr : UserMgmr} {c : ConnId} {conn : Conn} {ref : ProcRef}

/-- A session is held over all its frames. -/
theorem held_of_run {messages : List (List Byte × List Byte)} (found : s.conns c = some conn) (isDevice : conn.user ≠ .undefined)
    (short : seq < 65536) (fit : ∀ message ∈ messages, protocolHeaderLen + (packed message.1 message.2).length < 2 ^ 32)
    (held : ∃ parser, parser.currSeq = none ∧ Held conn.user hostUrl seq count parser s)
    (ran : run step s (deliver c (messages.map fun message => frameOf 0x12 seq (packed message.1 message.2))) = some t) :
    ∃ parser, Held conn.user hostUrl seq count parser t := by
  induction messages generalizing s with
  | nil =>
    cases ran
    exact held.imp fun _ held => held.2
  | cons message rest ih =>
    obtain ⟨parser, idle, held⟩ := held
    rw [List.map_cons, deliver, List.map_cons, run_cons] at ran
    obtain ⟨u, moved, ran⟩ := Option.bind_eq_some_iff.mp ran
    have active : Active (fun _ => True) conn.user := ⟨trivial⟩
    have keeps : Keeps (Standing (fun _ => True) s)
      (parseNormalMessage conn.user c (frameOf 0x12 seq (packed message.1 message.2))) := inferInstance
    have both := of_step moved (P := fun u => Held conn.user hostUrl seq count ⟨none, 0, some [], 0⟩ u ∧
        Standing (fun _ => True) s u) (by
      rw [handle, wp_connectionParse_device found isDevice]
      refine wp_mono (wp_and (wp_snapshot_frame idle short (fit _ List.mem_cons_self) held) (keeps.kept s .refl)) ?_ ?_
      · exact fun _ _ both => both
      · exact fun _ _ => trivial)
    exact ih (both.2.conns ▸ found) (fun m member => fit m (List.mem_cons_of_mem _ member)) ⟨_, rfl, both.1⟩ ran

/-- Whatever the response is and however it is cut: after the snapshot its session is still in the
table. -/
theorem snapshot_unserved {body : List Byte} {cut : List (List Byte × List Byte)} {padding : List Byte}
    (reached : Reach step Enabled Starts s) (found : s.conns c = some conn) (isDevice : conn.user ≠ .undefined)
    (known : s.userMap conn.user = some mgr) (idle : mgr.currSeq = none) (session : InUse mgr.toSessionTable seq ref)
    (isSnapshot : s.procs ref.id = some (.webcam ⟨hostUrl, seq, start⟩))
    (between : ∀ cam, mgr.cams.lookup hostUrl = some cam → cam.currSeq = none)
    (fit : FramesFit cut padding) (ran : run step s (deliver c (snapshotFrames seq cut padding)) = some t) :
    (∃ mgr', t.userMap conn.user = some mgr' ∧ (getBySeq mgr'.toSessionTable seq).isSome ∧ mgr.cnt ≤ mgr'.cnt) ∧
      ¬ Served s t mgr conn.user hostUrl seq body := by
  have stocked := stocked_of_reach (fun _ _ good => good) reached
  have shaped := stocked.shaped _ _ known
  obtain ⟨i, used, listed, placed⟩ := session
  have short : seq < 65536 := by
    have inside := lt_of_holeGet listed
    have bounded := shaped.bounded
    rw [shaped.parallel, userMgrMax] at bounded
    omega
  have old := (stocked.manned _ _ known ref ⟨i, placed⟩).1
  have held : Held conn.user hostUrl seq mgr.cnt mgr.toFrameParser s :=
    ⟨mgr, known, ⟨rfl, shaped, le_refl _, fun cam exists_ =>
      ⟨.inl (between cam exists_), stocked.noHeader _ _ known _ _ exists_⟩⟩, ref, start, ⟨i, used, listed, placed⟩, old,
      isSnapshot⟩
  obtain ⟨parser, mgr', known', holds, ref', _, ⟨j, _, listed', placed'⟩, _⟩ :=
    held_of_run found isDevice short fit ⟨_, idle, held⟩ ran
  have live : getBySeq mgr'.toSessionTable seq = some ref' := getBySeq_eq_some.mpr ⟨j, listed', placed'⟩
  refine ⟨⟨mgr', known', by rw [live]; rfl, holds.count⟩, fun served => ?_⟩
  obtain ⟨mgr'', known'', free, _⟩ := served.freed
  cases known'.symm.trans known''
  rw [live] at free
  cases free

end

/-! A viewer's first snapshot. -/

def responseHeader : List Byte := encodeUtf8 "HTTP/1.1 200 OK\r\n\r\n".toList
def image : List Byte := encodeUtf8 "img".toList
def whole : List (List Byte × List Byte) := [(responseHeader ++ image, [])]

theorem whole_response : Response responseHeader image whole :=
  ⟨⟨encodeUtf8 "HTTP/1.1 200 OK".toList, by decide⟩, by simp [whole], image, [], [], rfl⟩

/-- The snapshot's session was begun, and its camera waits for it. -/
def begun (s : ServerState) : Bool :=
  ((s.userMap (.str viewingUser)).any fun mgr => decide (mgr.currSeq = none) &&
    decide (mgr.toSessionTable = ⟨1, [some ⟨0, 0⟩], [some 0], 1⟩) &&
    decide ((mgr.cams.lookup camUrl).map CamManager.currSeq = some none)) &&
  decide (s.procs 0 = some (.webcam ⟨camUrl, 0, 0⟩)) && decide ((s.conns 0).map Conn.user = some (.str viewingUser))

/-- The image was sent, and the session is still in the table. -/
def retained (t : ServerState) : Bool :=
  decide ((1, .text (encodeBase64 image)) ∈ sentTexts t.out) &&
    decide ((t.userMap (.str viewingUser)).map (fun mgr => getBySeq mgr.toSessionTable 0) = some (some ⟨0, 0⟩))

theorem oneViewer_begun : (runEnabled oneViewer).map begun = some true := by
  decide +kernel

theorem oneViewer_retained :
    (runEnabled (oneViewer ++ deliver 0 (snapshotFrames 0 whole []))).map retained = some true := by
  decide +kernel

/-- The viewer's run up to its first snapshot, and over it. -/
theorem oneViewer_runs : ∃ s t, Reach step Enabled Starts s ∧ begun s = true ∧
    run step s (deliver 0 (snapshotFrames 0 whole [])) = some t ∧ retained t = true := by
  obtain ⟨t, ran, retains⟩ := Option.map_eq_some_iff.mp oneViewer_retained
  obtain ⟨s, first, begins⟩ := Option.map_eq_some_iff.mp oneViewer_begun
  have both := Test.ran ran
  rw [run_append, Test.ran first, Option.bind_some] at both
  exact ⟨s, t, reach_of_runEnabled first, begins, both, retains⟩

theorem begun_session {s : ServerState} (begins : begun s = true) : ∃ mgr conn, s.conns 0 = some conn ∧
    conn.user = .str viewingUser ∧ s.userMap (.str viewingUser) = some mgr ∧ mgr.currSeq = none ∧
    InUse mgr.toSessionTable 0 ⟨0, 0⟩ ∧ s.procs 0 = some (.webcam ⟨camUrl, 0, 0⟩) ∧ mgr.cnt = 1 ∧
    ∀ cam, mgr.cams.lookup camUrl = some cam → cam.currSeq = none := by
  simp only [begun, Bool.and_eq_true, decide_eq_true_eq, Option.any_eq_true] at begins
  obtain ⟨⟨⟨mgr, known, ⟨idle, table⟩, between⟩, isSnapshot⟩, device⟩ := begins
  obtain ⟨conn, found, user⟩ := Option.map_eq_some_iff.mp device
  refine ⟨mgr, conn, found, user, known, idle, ⟨0, ?_, ?_, ?_⟩, isSnapshot, by rw [table], fun cam exists_ => ?_⟩
  · rw [table]
    exact Nat.one_pos
  · rw [table]
    rfl
  · rw [table]
    rfl
  · rw [exists_] at between
    exact Option.some_inj.mp between

theorem whole_fits : FramesFit whole [] := by
  unfold FramesFit
  decide

theorem snapshot_unserved_first : ∃ s t mgr, run step s (deliver 0 (snapshotFrames 0 whole [])) = some t ∧
    ¬ Served s t mgr (.str viewingUser) camUrl 0 image := by
  obtain ⟨s, t, reached, begins, ran, _⟩ := oneViewer_runs
  obtain ⟨mgr, conn, found, user, known, idle, session, isSnapshot, _, between⟩ := begun_session begins
  have isDevice : conn.user ≠ .undefined := by
    rw [user]
    simp
  have unserved : ¬ Served s t mgr conn.user _ _ image :=
    (snapshot_unserved reached found isDevice (user ▸ known) idle session isSnapshot between whole_fits ran).2
  exact ⟨s, t, mgr, ran, user ▸ unserved⟩

/-- The image is sent, but the session of the snapshot is not freed. -/
theorem first_snapshot_leaks : ¬ ∀ s, Reach step Enabled Starts s → ∀ c conn user mgr ref hostUrl seq start, s.conns c = some conn →
    conn.user = .str user → s.userMap (.str user) = some mgr → mgr.currSeq = none → InUse mgr.toSessionTable seq ref →
    s.procs ref.id = some (.webcam ⟨hostUrl, seq, start⟩) →
    (∀ cam, mgr.cams.lookup hostUrl = some cam → cam.currSeq = none) →
    ∀ header body cut padding, Response header body cut → FramesFit cut padding →
    ∀ t, run step s (deliver c (snapshotFrames seq cut padding)) = some t → Served s t mgr (.str user) hostUrl seq body := by
  intro always
  obtain ⟨s, t, reached, begins, ran, retains⟩ := oneViewer_runs
  obtain ⟨mgr, conn, found, user, known, idle, session, isSnapshot, _, between⟩ := begun_session begins
  have served := always s reached 0 conn viewingUser mgr ⟨0, 0⟩ camUrl 0 0 found user known idle session isSnapshot between
    responseHeader image whole [] whole_response whole_fits t ran
  obtain ⟨mgr', known', free, _⟩ := served.freed
  simp only [retained, Bool.and_eq_true, decide_eq_true_eq, known', Option.map_some, free] at retains
  cases retains.2

end WebTunnel.Server.Retaining
