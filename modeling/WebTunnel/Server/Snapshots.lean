import WebTunnel.Server.Registers

/-! The snapshots of one camera: what its manager does to the readiness and the timeouts of
the camera, and which snapshots it asks for. -/

namespace WebTunnel.Server.Snapshots
open Library.Bytes Library.JavaScript Library.Json Library.Program Library.Slots Sessions Wire Server.Types
open Processors Webcam Framing Events Moves Registers

/-- Nothing happens to any camera. -/
abbrev Still : ServerState → ServerState → Prop := Standing fun _ => False

/-- The camera's pace is set and it asks for the snapshots of some sessions; to the other cameras
nothing happens. -/
structure Turned (user : JsVal) (hostUrl : Text) (asked : Set ProcId) (paced : Bool × Nat) (s t : ServerState) :
    Prop where
  standing : Standing (· = user) s t
  others : ∀ key, key ≠ hostUrl → (camOf t user key).map pace = (camOf s user key).map pace
  here : (camOf t user hostUrl).map pace = some paced
  snapshots : ∀ id p, t.procs id = some (.webcam p) →
    (∃ p', s.procs id = some (.webcam p') ∧ p'.camMgr = p.camMgr) ∨ id ∈ asked ∧ p.camMgr = hostUrl

/-- The camera is open, with one listener. -/
def Opened (s : ServerState) (user : JsVal) (hostUrl : Text) : Prop :=
  ∃ cam, camOf s user hostUrl = some cam ∧ cam.isOpen = true ∧ cam.doReqListeners = 1

section
variable {s t v : ServerState} {user : JsVal} {hostUrl : Text} {asked : Set ProcId} {paced : Bool × Nat}
  {mgr : UserMgmr} {cam : CamManager}

theorem Still.others (still : Still s t) (active : JsVal → Prop) : Standing active s t where
  conns := still.conns
  users key := by
    have related := still.users key
    revert related
    cases s.userMap key <;> cases t.userMap key <;> intro related
    · exact .none
    · cases related
    · cases related
    · cases related with
      | some same => exact .some ⟨same.devices, same.viewers, fun _ => same.paced id⟩
  snapshots _ := still.snapshots fun _ => id
  out := still.out

theorem still_setParser (known : s.userMap user = some mgr) (parser : FrameParser) :
    Still s (s.setMgr user (mgr.setParser parser)) :=
  Standing.refl.setMgr known ⟨rfl, fun _ => rfl, fun _ _ => rfl⟩

theorem Still.turned (still : Still s t) (found : camOf s user hostUrl = some cam) :
    Turned user hostUrl ∅ (pace cam) s t where
  standing := still.others _
  others key _ := pace_standing still not_false
  here := by rw [pace_standing still not_false, found, Option.map_some]
  snapshots id p found := .inl (still.snapshots (fun _ => not_false) id p found)

theorem Turned.still (turned : Turned user hostUrl asked paced s t) (still : Still t v) :
    Turned user hostUrl asked paced s v where
  standing := turned.standing.trans (still.others _)
  others key other := (pace_standing still not_false).trans (turned.others key other)
  here := (pace_standing still not_false).trans turned.here
  snapshots id p found := by
    obtain ⟨p', found', same⟩ := still.snapshots (fun _ => not_false) id p found
    rcases turned.snapshots id p' found' with ⟨p'', before, same'⟩ | ⟨new, own⟩
    · exact .inl ⟨p'', before, same'.trans same⟩
    · exact .inr ⟨new, same ▸ own⟩

/-- The camera is set, with the same viewers. -/
theorem Turned.setCam (cam' : CamManager) (turned : Turned user hostUrl asked paced s t) (known : t.userMap user = some mgr)
    (found : mgr.cams.lookup hostUrl = some cam) (views : viewing cam' = viewing cam) :
    Turned user hostUrl asked (pace cam') s (t.setMgr user (withCam mgr hostUrl cam')) where
  standing := by
    obtain ⟨mgr₀, known₀, same⟩ := turned.standing.known known
    refine turned.standing.setMgr known₀ ⟨same.devices, fun key => ?_, fun inactive => absurd rfl inactive⟩
    rw [withCam, lookup_set]
    split
    next here =>
      rw [← same.viewers key, here, found, Option.map_some, Option.map_some, views]
    next => exact same.viewers key
  others key other := by
    rw [camOf_setMgr, if_pos rfl, withCam, lookup_set, if_neg other, ← camOf_of_known known]
    exact turned.others key other
  here := by rw [camOf_setMgr, if_pos rfl, lookup_withCam, Option.map_some]
  snapshots := turned.snapshots

/-- A session for a snapshot of the camera begins. -/
theorem Turned.openSeq (construct : Nat → Processor) (turned : Turned user hostUrl asked paced s t)
    (known : t.userMap user = some mgr) (own : ∀ seq p, construct seq = .webcam p → p.camMgr = hostUrl) :
    Turned user hostUrl (insert t.nextProc asked) paced s (t.openSeq user mgr construct) where
  standing := by
    obtain ⟨mgr₀, known₀, same⟩ := turned.standing.known known
    exact Standing.setMgr ⟨turned.standing.conns, turned.standing.users, fun none => absurd rfl (none user),
      turned.standing.out⟩ known₀ (same.trans ⟨rfl, fun _ => rfl, fun _ _ => rfl⟩)
  others key other := by
    rw [ServerState.openSeq, camOf_setMgr, if_pos rfl, setTable_cams, ← camOf_of_known known]
    exact turned.others key other
  here := by
    rw [ServerState.openSeq, camOf_setMgr, if_pos rfl, setTable_cams, ← camOf_of_known known]
    exact turned.here
  snapshots id p found := by
    rw [ServerState.openSeq, setMgr_procs, setProc_procs] at found
    split at found
    next here => exact .inr ⟨.inl here, own _ _ (Option.some_inj.mp found)⟩
    next =>
      exact (turned.snapshots id p found).imp_right fun new => ⟨.inr new.1, new.2⟩

/-- What the camera's manager reads. -/
theorem Turned.reads {α : Type} {next : CamManager → Js α} {post : α → ServerState → Prop}
    (turned : Turned user hostUrl asked paced s t) (opened : Opened s user hostUrl)
    (rest : ∀ mgr cam, t.userMap user = some mgr → mgr.cams.lookup hostUrl = some cam → cam.isOpen = true →
      cam.doReqListeners = 1 → pace cam = paced → Wp (next cam) post (fun _ => True) t) :
    Wp (getCam user hostUrl >>= next) post (fun _ => True) t := by
  obtain ⟨cam₀, found₀, isOpen, listeners⟩ := opened
  have views := viewing_standing turned.standing user hostUrl
  rw [found₀, Option.map_some] at views
  obtain ⟨cam, found, views⟩ := Option.map_eq_some_iff.mp views
  have paces := turned.here
  rw [found, Option.map_some, Option.some_inj] at paces
  obtain ⟨mgr, known, found⟩ := camOf_eq_some.mp found
  rw [wp_bind, wp_getCam_of_found known found]
  refine rest mgr cam known found ?_ ?_ paces
  · rw [← isOpen]
    exact congrArg Viewing.isOpen views
  · rw [← listeners]
    exact congrArg Viewing.doReqListeners views

theorem wp_onDoReq (turned : Turned user hostUrl asked paced s t) (opened : Opened s user hostUrl) :
    Wp (CamManager.onDoReq user hostUrl)
      (fun _ v => ∃ n, Turned user hostUrl (insert n asked) (false, paced.2 + 1) s v) (fun _ => True) t := by
  rw [CamManager.onDoReq]
  refine turned.reads opened fun mgr cam known found isOpen _ paces => ?_
  rw [wp_ite, if_pos isOpen, wp_bind, wp_setCam_of_known known]
  have unready := turned.setCam { cam with isReady := false } known found rfl
  rw [wp_bind, CamManager.doConn, wp_bind, wp_mgrNewSeq]
  refine ⟨fun mgr₁ known₁ => ⟨fun _ => trivial, fun _ => ?_⟩, fun _ => trivial⟩
  have asking := unready.openSeq (fun seq => .webcam ⟨hostUrl, seq, 0⟩) known₁ fun _ _ same => by
    cases same
    rfl
  rw [wp_bind, wp_defined]
  refine ⟨fun processor _ => ?_, by simp⟩
  rw [wp_bind]
  refine wp_post (Keeps.kept (P := Still _) _ Standing.refl) fun _ v still => ?_
  refine (asking.still still).reads opened fun mgr₂ cam₂ known₂ found₂ _ _ paces₂ => ?_
  rw [wp_setCam_of_known known₂]
  have set := (asking.still still).setCam { cam₂ with timers := cam₂.timers + 1 } known₂ found₂ rfl
  refine ⟨t.nextProc, ?_⟩
  have timers : cam₂.timers = paced.2 := by
    rw [← paces]
    exact congrArg Prod.snd paces₂
  have isReady : cam₂.isReady = false := congrArg Prod.fst paces₂
  rw [show (false, paced.2 + 1) = pace { cam₂ with timers := cam₂.timers + 1 } by simp [pace, timers, isReady]]
  exact set

theorem wp_emitDoReq (turned : Turned user hostUrl asked paced s t) (opened : Opened s user hostUrl) :
    Wp (CamManager.emitDoReq user hostUrl)
      (fun _ v => ∃ n, Turned user hostUrl (insert n asked) (false, paced.2 + 1) s v) (fun _ => True) t := by
  rw [CamManager.emitDoReq]
  refine turned.reads opened fun mgr cam _ _ _ listeners _ => ?_
  rw [listeners, repeatDoReq, wp_bind]
  exact wp_post (wp_onDoReq turned opened) fun _ _ asks => asks

/-- The camera once a snapshot ended or a timeout fired: it becomes ready, or asks for the next
snapshot where it was ready. -/
def Readied (user : JsVal) (hostUrl : Text) (paced : Bool × Nat) (s t : ServerState) : Prop :=
  match paced with
  | (false, timers) => Turned user hostUrl ∅ (true, timers) s t
  | (true, timers) => ∃ n, Turned user hostUrl {n} (false, timers + 1) s t

theorem wp_readyForNew (turned : Turned user hostUrl ∅ paced s t) (opened : Opened s user hostUrl) :
    Wp (CamManager.readyForNew user hostUrl) (fun _ v => Readied user hostUrl paced s v) (fun _ => True) t := by
  rw [CamManager.readyForNew]
  refine turned.reads opened fun mgr cam known found _ _ paces => ?_
  rw [wp_bind, wp_setCam_of_known known, wp_ite]
  have ready := turned.setCam { cam with isReady := true } known found rfl
  cases wasReady : cam.isReady with
  | false =>
    rw [if_neg (by simp), wp_pure, ← paces, pace, wasReady]
    exact ready
  | true =>
    rw [if_pos rfl]
    refine wp_post (wp_emitDoReq ready opened) fun _ v ⟨n, asks⟩ => ?_
    rw [← paces, pace, wasReady]
    rw [insert_empty_eq] at asks
    exact ⟨n, asks⟩

/-! The messages of the camera's sessions. -/

/-- The device's notice that it closed a forward. -/
def notice (buffer : List Byte) : Bool := decide (buffer.length ≤ 40) && startsWith (decodeUtf8 buffer) closeText

/-- What the camera's manager takes for a notice. -/
def taken (cam : CamManager) (buffer : List Byte) : Bool :=
  match (CamManager.scanHeader cam buffer).2 with
  | some rest => notice rest
  | none => false

theorem taken_currSeq (cam : CamManager) (buffer : List Byte) {seq : Option Nat} :
    taken { cam with currSeq := seq } buffer = taken cam buffer := by
  have same : (CamManager.scanHeader { cam with currSeq := seq } buffer).2 = (CamManager.scanHeader cam buffer).2 := by
    unfold CamManager.scanHeader
    dsimp only
    split
    · rfl
    · split
      · split <;> rfl
      · rfl
  rw [taken, same]
  rfl

theorem wp_innerProcessBuffer (turned : Turned user hostUrl ∅ paced s t) (opened : Opened s user hostUrl)
    (buffer : List Byte) :
    Wp (CamManager.innerProcessBuffer user hostUrl buffer none)
      (fun _ v => if notice buffer then Readied user hostUrl paced s v else Turned user hostUrl ∅ paced s v)
      (fun _ => True) t := by
  rw [CamManager.innerProcessBuffer]
  refine turned.reads opened fun mgr cam known found _ _ paces => ?_
  have isNotice : (buffer.length ≤ 40 ∧ startsWith (decodeUtf8 buffer) closeText = true) ↔ notice buffer = true := by
    rw [notice, Bool.and_eq_true, decide_eq_true_eq]
  rw [wp_ite]
  by_cases closing : notice buffer = true
  · simp only [if_pos closing]
    rw [if_pos (isNotice.mpr closing), wp_bind, mgrDelSeq, wp_pure, wp_bind, wp_emitAll, wp_bind]
    have written : Turned user hostUrl ∅ paced s (t.write (CamManager.snapshotOutputs cam)) :=
      turned.still (.write .refl _)
    have known : (t.write (CamManager.snapshotOutputs cam)).userMap user = some mgr := known
    rw [wp_setCam_of_known known]
    have reset := written.setCam { cam with bufs := [], totalLen := some 0, currLen := 0, currSeq := none } known found rfl
    exact wp_readyForNew (paces ▸ reset) opened
  · simp only [if_neg closing]
    rw [if_neg fun taken => closing (isNotice.mp taken), wp_setCam_of_known known]
    have set := turned.setCam { cam with bufs := cam.bufs ++ [buffer], currLen := cam.currLen + buffer.length } known found rfl
    exact paces ▸ set

theorem wp_processHeader (turned : Turned user hostUrl ∅ paced s t) (opened : Opened s user hostUrl)
    (known : t.userMap user = some mgr) (found : mgr.cams.lookup hostUrl = some cam) (buffer : List Byte) :
    Wp (CamManager.processHeader user hostUrl buffer)
      (fun _ v => if taken cam buffer then Readied user hostUrl paced s v else Turned user hostUrl ∅ paced s v)
      (fun _ => True) t := by
  have paces := turned.here
  rw [camOf_of_known known, found, Option.map_some, Option.some_inj] at paces
  rw [CamManager.processHeader, wp_bind, wp_getCam_of_found known found]
  have views := scanHeader_views cam buffer
  unfold taken
  generalize CamManager.scanHeader cam buffer = scanned at views ⊢
  obtain ⟨cam', rest⟩ := scanned
  rw [wp_bind, wp_setCam_of_known known]
  have set := turned.setCam cam' known found views.1
  rw [views.2, paces] at set
  cases rest with
  | none => exact set
  | some rest => exact wp_innerProcessBuffer set opened rest

theorem wp_cam_processBuffer (turned : Turned user hostUrl ∅ paced s t) (opened : Opened s user hostUrl)
    (noHeader : NoHeader t) (buffer : List Byte) (seq : Nat) :
    Wp (CamManager.processBuffer user hostUrl buffer seq)
      (fun _ v => Turned user hostUrl ∅ paced s v ∨ Readied user hostUrl paced s v ∧
        ∃ mgr cam, t.userMap user = some mgr ∧ mgr.cams.lookup hostUrl = some cam ∧
          taken cam buffer = true) (fun _ => True) t := by
  rw [CamManager.processBuffer]
  refine turned.reads opened fun mgr cam known found _ _ paces => ?_
  rw [wp_ite]
  split
  · rw [wp_bind, wp_setCam_of_known known, if_neg (by rw [noHeader user mgr known hostUrl cam found]; simp),
      wp_bind]
    have set := turned.setCam { cam with currSeq := some seq } known found rfl
    rw [show pace { cam with currSeq := some seq } = paced from paces] at set
    refine wp_post (wp_processHeader set opened (setMgr_userMap_self _ _ _) lookup_withCam buffer) fun _ v ended => ?_
    rw [wp_pure]
    split at ended
    next closes => exact .inr ⟨ended, mgr, cam, known, found, (taken_currSeq cam buffer).symm.trans closes⟩
    next => exact .inl ended
  · exact .inl turned

theorem Turned.setProc {id : ProcId} {p : WebcamProcessor} (p' : WebcamProcessor)
    (turned : Turned user hostUrl asked paced s t) (found : s.procs id = some (.webcam p)) (same : p'.camMgr = p.camMgr) :
    Turned user hostUrl asked paced s (t.setProc id (.webcam p')) where
  standing := ⟨turned.standing.conns, turned.standing.users, fun none => absurd rfl (none user), turned.standing.out⟩
  others := turned.others
  here := turned.here
  snapshots key q found' := by
    rw [setProc_procs] at found'
    split at found'
    next here =>
      cases found'
      exact .inl ⟨p, here ▸ found, same.symm⟩
    next => exact turned.snapshots key q found'

theorem Readied.after (readied : Readied user hostUrl paced s t)
    (keeps : ∀ asked paced, Turned user hostUrl asked paced s t → Turned user hostUrl asked paced s v) :
    Readied user hostUrl paced s v := by
  obtain ⟨isReady, timers⟩ := paced
  cases isReady with
  | false => exact keeps _ _ readied
  | true =>
    obtain ⟨n, turned⟩ := readied
    exact ⟨n, keeps _ _ turned⟩

/-- What a session's message does to its camera. -/
def Outcome (user : JsVal) (hostUrl : Text) (cam : CamManager) (s t : ServerState) (payload : List Byte) : Prop :=
  Turned user hostUrl ∅ (pace cam) s t ∨ Readied user hostUrl (pace cam) s t ∧ taken cam payload = true

theorem Outcome.after {payload : List Byte} (outcome : Outcome user hostUrl cam s t payload)
    (keeps : ∀ asked paced, Turned user hostUrl asked paced s t → Turned user hostUrl asked paced s v) :
    Outcome user hostUrl cam s v payload :=
  outcome.imp (keeps _ _) fun ended => ⟨ended.1.after keeps, ended.2⟩

theorem wp_webcam_processBuffer {id : ProcId} {p : WebcamProcessor} (known : s.userMap user = some mgr)
    (opened : ∀ cam, mgr.cams.lookup p.camMgr = some cam → Opened s user p.camMgr) (noHeader : NoHeader s)
    (found : s.procs id = some (.webcam p)) (parser : FrameParser) (buffer : List Byte) :
    Wp (WebcamProcessor.processBuffer user id p buffer)
      (fun _ v => ∃ cam len, mgr.cams.lookup p.camMgr = some cam ∧ readUInt32BE buffer 0 = .ok len ∧
        Outcome user p.camMgr cam s v (sliceBuffer buffer 4 (len + 4)))
      (fun _ => True) (s.setMgr user (mgr.setParser parser)) := by
  have still := still_setParser known parser
  have known' : (s.setMgr user (mgr.setParser parser)).userMap user = some (mgr.setParser parser) :=
    setMgr_userMap_self _ _ _
  have noHeader' : NoHeader (s.setMgr user (mgr.setParser parser)) :=
    setMgr_all noHeader fun hostUrl cam exists_ => noHeader user mgr known hostUrl cam exists_
  rw [WebcamProcessor.processBuffer, wp_bind, wp_setProc, wp_bind, wp_liftJs]
  refine ⟨fun len length => ?_, fun _ _ => trivial⟩
  rw [wp_bind]
  cases exists_ : mgr.cams.lookup p.camMgr with
  | none =>
    rw [CamManager.processBuffer, wp_bind, getCam, wp_bind]
    rw [wp_getMgr_of_known (by exact known'), wp_defined]
    exact ⟨fun cam exists' => (by cases exists_.symm.trans exists'), fun _ => trivial⟩
  | some cam =>
    have turned := (still.turned ((camOf_of_known known).trans exists_)).setProc { p with start := p.start + buffer.length } found rfl
    refine wp_post (wp_cam_processBuffer turned (opened cam exists_) noHeader' _ _) fun processed v ended => ?_
    have outcome : Outcome user p.camMgr cam s v (sliceBuffer buffer 4 (len + 4)) := by
      refine ended.imp_right ?_
      rintro ⟨readied, mgr', cam', known'', exists', takes⟩
      refine ⟨readied, ?_⟩
      cases known'.symm.trans known''
      cases exists_.symm.trans exists'
      exact takes
    rw [wp_bind, wp_getMgr]
    refine ⟨fun mgr' _ => ?_, fun _ => trivial⟩
    rw [wp_ite]
    split
    · rw [wp_bind, wp_setProc]
      have reset := outcome.after fun _ _ turned => turned.setProc { p with start := 0 } found rfl
      split
      · exact wp_post (Keeps.kept (P := Still _) _ .refl) fun _ _ still => ⟨cam, len, rfl, length, reset.after fun _ _ turned => turned.still still⟩
      · exact wp_post (Keeps.kept (P := Still _) _ .refl) fun _ _ still => ⟨cam, len, rfl, length, reset.after fun _ _ turned => turned.still still⟩
    · exact ⟨cam, len, rfl, length, outcome⟩

/-! What the messages of a user's devices do to one of the user's cameras. -/

/-- The message that an output hands to a session of the camera. -/
def handed (s : ServerState) (hostUrl : Text) : Output → Option (List Byte)
  | .processBuffer _ _ id bytes =>
    match s.procs id with
    | some (.webcam p) =>
      if p.camMgr = hostUrl then
        match readUInt32BE bytes 0 with
        | .ok len => some (sliceBuffer bytes 4 (len + 4))
        | .error _ => none
      else none
    | _ => none
  | _ => none

/-- Nothing happens to the camera. -/
structure Calm (user : JsVal) (hostUrl : Text) (s t : ServerState) : Prop where
  paced : (camOf t user hostUrl).map pace = (camOf s user hostUrl).map pace
  snapshots : ∀ id p, t.procs id = some (.webcam p) → p.camMgr = hostUrl →
    ∃ p', s.procs id = some (.webcam p') ∧ p'.camMgr = hostUrl

/-- Nothing happens to the camera, or it took a message for a notice. -/
def Beats (user : JsVal) (hostUrl : Text) (s t : ServerState) : Prop :=
  Calm user hostUrl s t ∨ ∃ cam payload output, camOf s user hostUrl = some cam ∧
    Readied user hostUrl (pace cam) s t ∧ taken cam payload = true ∧ output ∈ sentSince s t ∧
      handed s hostUrl output = some payload

theorem Still.calm (still : Still s t) (user : JsVal) (hostUrl : Text) : Calm user hostUrl s t where
  paced := pace_standing still not_false
  snapshots id p found own := by
    obtain ⟨p', found', same⟩ := still.snapshots (fun _ => not_false) id p found
    exact ⟨p', found', same.trans own⟩

theorem Turned.calm {key : Text} (turned : Turned user key asked paced s t) (other : hostUrl ≠ key) :
    Calm user hostUrl s t where
  paced := turned.others hostUrl other
  snapshots id p found own := by
    rcases turned.snapshots id p found with ⟨p', found', same⟩ | ⟨_, same⟩
    · exact ⟨p', found', same.trans own⟩
    · exact absurd (own.symm.trans same) other

theorem Turned.calm_here (turned : Turned user hostUrl ∅ (pace cam) s t) (found : camOf s user hostUrl = some cam) :
    Calm user hostUrl s t where
  paced := by rw [turned.here, found, Option.map_some]
  snapshots id p found' own := by
    rcases turned.snapshots id p found' with ⟨p', before, same⟩ | ⟨new, _⟩
    · exact ⟨p', before, same.trans own⟩
    · cases new

theorem Readied.calm {key : Text} (readied : Readied user key paced s t) (other : hostUrl ≠ key) :
    Calm user hostUrl s t := by
  obtain ⟨isReady, timers⟩ := paced
  cases isReady with
  | false => exact Turned.calm readied other
  | true =>
    obtain ⟨n, turned⟩ := readied
    exact turned.calm other

theorem Turned.of_write {outputs : List Output} (turned : Turned user hostUrl asked paced (s.write outputs) t) :
    Turned user hostUrl asked paced s t where
  standing := ⟨turned.standing.conns, turned.standing.users, fun none => absurd rfl (none user),
    (List.prefix_append _ _).trans turned.standing.out⟩
  others := turned.others
  here := turned.here
  snapshots := turned.snapshots

theorem Readied.of_write {outputs : List Output} (readied : Readied user hostUrl paced (s.write outputs) t) :
    Readied user hostUrl paced s t := by
  obtain ⟨isReady, timers⟩ := paced
  cases isReady with
  | false => exact Turned.of_write readied
  | true =>
    obtain ⟨n, turned⟩ := readied
    exact ⟨n, turned.of_write⟩

theorem Readied.standing (readied : Readied user hostUrl paced s t) : Standing (· = user) s t := by
  obtain ⟨isReady, timers⟩ := paced
  cases isReady with
  | false => exact Turned.standing readied
  | true =>
    obtain ⟨n, turned⟩ := readied
    exact turned.standing

theorem mem_sentSince {output : Output} (later : (s.write [output]).out <+: t.out) : output ∈ sentSince s t := by
  obtain ⟨more, same⟩ := later
  rw [sentSince, ← same, write_out, List.append_assoc, List.drop_left]
  exact List.mem_cons_self

theorem wp_httpNormalParse (known : s.userMap user = some mgr)
    (opened : ∀ hostUrl cam, mgr.cams.lookup hostUrl = some cam → Opened s user hostUrl) (noHeader : NoHeader s)
    (parser : FrameParser) (buffer : List Byte) (hostUrl : Text) :
    Wp (httpNormalParse user buffer) (fun _ t => Beats user hostUrl s t) (fun _ => True)
      (s.setMgr user (mgr.setParser parser)) := by
  have still := still_setParser known parser
  rw [httpNormalParse, wp_bind, wp_getMgr_of_known (setMgr_userMap_self _ _ _)]
  split
  next seq ref _ _ =>
    rw [wp_bind, wp_emit, Framing.processBuffer, wp_bind, wp_get]
    have kept {code : Js Unit} (keeps : Keeps (Still s) code) (output : Output) :
        Wp code (fun _ t => Beats user hostUrl s t) (fun _ => True)
          ((s.setMgr user (mgr.setParser parser)).write [output]) :=
      wp_post (keeps.kept _ (still.write _)) fun _ _ still => .inl (Still.calm still user hostUrl)
    split
    next => exact kept inferInstance _
    next => exact kept inferInstance _
    next p found =>
      generalize emitted : Output.processBuffer seq (mgr.setParser parser).currTotal ref.id buffer = output
      have opened' : ∀ cam, mgr.cams.lookup p.camMgr = some cam → Opened (s.write [output]) user p.camMgr :=
        fun cam exists_ => opened p.camMgr cam exists_
      have found : (s.write [output]).procs ref.id = some (.webcam p) := found
      have known' : (s.write [output]).userMap user = some mgr := known
      refine wp_post (wp_webcam_processBuffer known' opened' noHeader found parser buffer) ?_
      rintro _ t ⟨cam, len, exists_, length, outcome⟩
      have exists_ : camOf s user p.camMgr = some cam := (camOf_of_known known).trans exists_
      by_cases own : hostUrl = p.camMgr
      · rcases outcome with turned | ⟨readied, takes⟩
        · exact .inl (own ▸ turned.of_write.calm_here exists_)
        · have given : handed s hostUrl output = some (sliceBuffer buffer 4 (len + 4)) := by
            rw [← emitted, handed, show s.procs ref.id = some (.webcam p) from found]
            simp only [← own, if_true, length]
          exact .inr ⟨cam, _, output, own ▸ exists_, own ▸ readied.of_write, takes,
            mem_sentSince readied.standing.out, given⟩
      · rcases outcome with turned | ⟨readied, _⟩
        · exact .inl (turned.of_write.calm own)
        · exact .inl (readied.of_write.calm own)
    next => trivial
  next =>
    rw [wp_setMgr, setMgr_setMgr]
    exact .inl ((still_setParser known _).calm user hostUrl)

theorem wp_parseFirstMessage_beats (known : s.userMap user = some mgr)
    (opened : ∀ hostUrl cam, mgr.cams.lookup hostUrl = some cam → Opened s user hostUrl) (noHeader : NoHeader s)
    (parser : FrameParser) (c : ConnId) (buffer : List Byte) (hostUrl : Text) :
    Wp (parseFirstMessage user c buffer) (fun _ t => Beats user hostUrl s t) (fun _ => True)
      (s.setMgr user (mgr.setParser parser)) := by
  have still := still_setParser known
  rw [wp_parseFirstMessage (setMgr_userMap_self _ _ _)]
  refine ⟨fun _ _ => trivial, fun header _ => ?_⟩
  simp only [setMgr_setMgr, setParser_setParser, parser_setParser]
  split
  · exact .inl (Still.calm (still _) user hostUrl)
  · split
    · exact wp_post (Keeps.kept (P := Still s) _ (still _)) fun _ _ still => .inl (Still.calm still user hostUrl)
    · rw [afterHeader, wp_ite]
      split
      · exact wp_httpNormalParse known opened noHeader _ _ _
      · exact .inl (Still.calm (still _) user hostUrl)

/-- What a message of a device does to a camera of its user. -/
theorem wp_parseNormalMessage_beats (known : s.userMap user = some mgr)
    (opened : ∀ hostUrl cam, mgr.cams.lookup hostUrl = some cam → Opened s user hostUrl) (noHeader : NoHeader s)
    (c : ConnId) (buffer : List Byte) (hostUrl : Text) :
    Wp (parseNormalMessage user c buffer) (fun _ t => Beats user hostUrl s t) (fun _ => True) s := by
  have self : s = s.setMgr user (mgr.setParser mgr.toFrameParser) := (setMgr_self _ _ _ known).symm
  by_cases idle : mgr.currSeq = none
  · rw [wp_parseNormalMessage_idle known idle]
    split
    · refine ⟨fun bufs _ => ?_, fun _ => trivial⟩
      split
      · exact wp_parseFirstMessage_beats known opened noHeader _ _ _ _
      · exact .inl ((still_setParser known _).calm user hostUrl)
    · have beats := wp_parseFirstMessage_beats known opened noHeader mgr.toFrameParser c buffer hostUrl
      rwa [← self] at beats
  · rw [wp_parseNormalMessage_busy known idle]
    have beats := wp_httpNormalParse known opened noHeader mgr.toFrameParser buffer hostUrl
    rwa [← self] at beats

/-! Timeouts, and viewers that join. -/

theorem wp_onTimeout (known : s.userMap user = some mgr) (found : mgr.cams.lookup hostUrl = some cam)
    (opened : Opened s user hostUrl) :
    Wp (onTimeout user hostUrl) (fun _ t => Readied user hostUrl (cam.isReady, cam.timers - 1) s t) (fun _ => True) s := by
  rw [onTimeout, wp_bind, wp_getCam_of_found known found, wp_bind, wp_setCam_of_known known]
  have fired := (Still.turned (t := s) .refl ((camOf_of_known known).trans found)).setCam { cam with timers := cam.timers - 1 } known found rfl
  exact wp_readyForNew fired opened

/-- The camera begins, and asks for its first snapshot. -/
structure Begins (user : JsVal) (hostUrl : Text) (s t : ServerState) : Prop where
  isNew : camOf s user hostUrl = none
  here : (camOf t user hostUrl).map pace = some (false, 1)
  snapshots : ∃ n, ∀ id p, t.procs id = some (.webcam p) → p.camMgr = hostUrl →
    (∃ p', s.procs id = some (.webcam p') ∧ p'.camMgr = hostUrl) ∨ id = n

/-- What joining viewers do to a camera. -/
def Joins (user : JsVal) (hostUrl : Text) (s t : ServerState) : Prop := Calm user hostUrl s t ∨ Begins user hostUrl s t

/-- The camera's viewers do not concern its pace. -/
theorem calm_withCam (hostUrl key : Text) (cam : CamManager) (known : s.userMap user = some mgr)
    (same : key = hostUrl → (camOf s user hostUrl).map pace = some (pace cam)) :
    Calm user hostUrl s (s.setMgr user (withCam mgr key cam)) where
  paced := by
    rw [camOf_setMgr, if_pos rfl, withCam, lookup_set]
    split
    next here => rw [same here.symm, Option.map_some]
    next => rw [camOf_of_known known]
  snapshots _ p found own := ⟨p, found, own⟩

theorem Turned.setConn (turned : Turned user hostUrl asked paced s t) (c : ConnId) (conn : Conn) :
    Turned user hostUrl asked paced (s.setConn c conn) (t.setConn c conn) :=
  ⟨turned.standing.setConn c conn, turned.others, turned.here, turned.snapshots⟩

section
variable {c : ConnId} {conn : Option Nat → Conn} {key : Text}

/-- A viewer joins a camera that has begun. -/
theorem wp_join_open (known : s.userMap user = some mgr) (found : mgr.cams.lookup key = some cam)
    (isOpen : cam.isOpen = true) :
    Wp (do
      getCamByName user key
      let camSeq ← CamManager.addConn user key c
      setConn c (conn camSeq)
      CamManager.openConn user key) (fun _ t => Calm user hostUrl s t) (fun _ => True) s := by
  rw [wp_bind, getCamByName, wp_bind, wp_getMgr_of_known known]
  simp only [found]
  rw [wp_pure, wp_bind, CamManager.addConn, wp_bind, wp_getCam_of_found known found, wp_bind,
    wp_setCam_of_known known, wp_ite, if_neg (by simp [isOpen]), wp_pure, wp_bind, wp_setConn, CamManager.openConn,
    wp_bind]
  have calm := calm_withCam hostUrl key { cam with
    conns := cam.conns ++ [(cam.connIndex, c)], connCount := cam.connCount + 1, connIndex := cam.connIndex + 1 } known
    fun here => by rw [← here, camOf_of_known known, found]; rfl
  generalize set : withCam mgr key _ = mgr' at calm ⊢
  obtain ⟨cam', found', isOpen'⟩ : ∃ cam', mgr'.cams.lookup key = some cam' ∧ cam'.isOpen = true := by
    rw [← set]
    exact ⟨_, lookup_withCam, isOpen⟩
  have known' : ((s.setMgr user mgr').setConn c (conn none)).userMap user = some mgr' := setMgr_userMap_self _ _ _
  rw [wp_getCam_of_found known' found', wp_ite, if_neg (by simp [isOpen'])]
  exact ⟨calm.paced, calm.snapshots⟩

/-- A viewer joins a camera that has not begun. -/
theorem wp_join_new (known : s.userMap user = some mgr) (missing : mgr.cams.lookup key = none) :
    Wp (do
      getCamByName user key
      let camSeq ← CamManager.addConn user key c
      setConn c (conn camSeq)
      CamManager.openConn user key) (fun _ t => Joins user hostUrl s t) (fun _ => True) s := by
  rw [wp_bind, getCamByName, wp_bind, wp_getMgr_of_known known]
  simp only [missing]
  rw [wp_setCam_of_known known, wp_bind, CamManager.addConn, wp_bind,
    wp_getCam_of_found (setMgr_userMap_self _ _ _) lookup_withCam, wp_bind,
    wp_setCam_of_known (setMgr_userMap_self _ _ _), setMgr_setMgr, wp_ite, if_pos (by simp [CamManager.new]), wp_bind,
    CamManager.openConn, wp_bind, wp_getCam_of_found (setMgr_userMap_self _ _ _) lookup_withCam, wp_ite,
    if_pos (by simp [CamManager.new]), wp_bind, wp_setCam_of_known (setMgr_userMap_self _ _ _), setMgr_setMgr]
  generalize begun : withCam (withCam (withCam mgr key _) key _) key _ = mgr'
  have known' : (s.setMgr user mgr').userMap user = some mgr' := setMgr_userMap_self _ _ _
  obtain ⟨cam, found, paces, isOpen, listeners⟩ : ∃ cam, mgr'.cams.lookup key = some cam ∧ pace cam = (false, 0) ∧
      cam.isOpen = true ∧ cam.doReqListeners = 1 := by
    rw [← begun]
    exact ⟨_, lookup_withCam, rfl, rfl, rfl⟩
  have others : ∀ k, k ≠ key → mgr'.cams.lookup k = mgr.cams.lookup k := by
    intro k other
    simp only [← begun, withCam, lookup_set, if_neg other]
  have found : camOf (s.setMgr user mgr') user key = some cam := (camOf_of_known known').trans found
  have opened : Opened (s.setMgr user mgr') user key := ⟨cam, found, isOpen, listeners⟩
  refine wp_post (wp_emitDoReq (paces ▸ Still.turned (t := s.setMgr user mgr') .refl found) opened) ?_
  rintro _ t ⟨n, turned⟩
  rw [wp_pure, wp_bind, wp_setConn]
  refine (turned.setConn c (conn none)).reads opened fun _ _ _ _ isOpen _ _ => ?_
  rw [wp_ite, if_neg (by simp [isOpen]), wp_pure]
  by_cases own : hostUrl = key
  · refine .inr ⟨?_, own ▸ turned.here, n, fun id p found own' => ?_⟩
    · rw [own, camOf_of_known known, missing]
    · rcases turned.snapshots id p found with ⟨p', before, same⟩ | ⟨new, _⟩
      · exact .inl ⟨p', before, same.trans own'⟩
      · exact .inr (by simpa using new)
  · have calm := turned.calm own
    refine .inl ⟨calm.paced.trans ?_, calm.snapshots⟩
    rw [camOf_of_known known', others hostUrl own, camOf_of_known known]

end

end

/-! A user with one device, whose browser views a camera of the device's network. -/

def viewingUser : Text := "u".toList
def camUrl : Text := "a:1".toList

def oneViewer : List Event :=
  [.connect 0 [] none, .binary 0 (handshakeOf viewingUser) 0, .login 0 viewingUser, .prepareDevice 0 "1".toList,
    .connect 1 wscam (some 0), .utf8 1 camUrl]

end WebTunnel.Server.Snapshots
