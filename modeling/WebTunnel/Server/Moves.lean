import Mathlib.Logic.Relation
import WebTunnel.Server.Events

/-! Every handler is a sequence of small moves. What a handler keeps is derived from what
each move keeps. -/

namespace WebTunnel.Server.Moves
open Library.Bytes Library.JavaScript Library.Json Library.Program Library.Slots Sessions Wire Server.Types
open Processors Webcam Framing Events

/-- How many bytes of the frame under way a processor has received. -/
def received : Processor → Nat
  | .http p => p.start
  | .forward p => p.start
  | .webcam p => p.start

def camera : Processor → Option Text
  | .webcam p => some p.camMgr
  | _ => none

/-- A processor that has received nothing, of a camera that exists. -/
structure Begins (mgr : UserMgmr) (p : Processor) : Prop where
  start : received p = 0
  exists_camera : ∀ hostUrl, camera p = some hostUrl → (mgr.cams.lookup hostUrl).isSome

/-- The collected bytes are as many as was counted, and none while a frame is under way. -/
structure Orderly (p : FrameParser) : Prop where
  counted : ∀ bufs, p.tmpBufs = some bufs → p.tmpBufsLen = bufs.flatten.length
  empty : p.currSeq ≠ none → p.tmpBufs = some []

/-- No user but an active one has the processor in a session. -/
def Foreign (active : JsVal → Prop) (s : ServerState) (id : ProcId) : Prop :=
  ∀ user mgr, s.userMap user = some mgr → ¬ active user → ∀ ref, Live mgr.toSessionTable ref → ref.id ≠ id

/-- One move. The parsers of `active` users and what their processors have received may
move, and connections only where it is said so. -/
inductive Move (active : JsVal → Prop) (talks : Prop) (s : ServerState) : ServerState → Prop where
  | write (outputs : List Output) : Move active talks s (s.write outputs)
  | sess (sess : SessId → Sess) : Move active talks s { s with sess := sess }
  | connect {c : ConnId} {conn : Conn} (allowed : talks) (new : s.conns c = none) (noUser : conn.user = .undefined)
      (unopened : conn.seq = none) : Move active talks s (s.setConn c conn)
  | conn {c : ConnId} {conn conn' : Conn} (allowed : talks) (found : s.conns c = some conn)
      (user : conn'.user = conn.user)
      (seq : ∀ x, conn'.seq = some x → conn.seq = some x ∨ x < userMgrMax) :
      Move active talks s (s.setConn c conn')
  | device {c : ConnId} {conn conn' : Conn} (allowed : talks) (found : s.conns c = some conn)
      (isNew : conn.user = .undefined) (known : (s.userMap conn'.user).isSome) (seq : conn'.seq = conn.seq) :
      Move active talks s (s.setConn c conn')
  | user {user : JsVal} {mgr : UserMgmr} (new : s.userMap user = none)
      (table : mgr.toSessionTable = fresh) (parser : mgr.toFrameParser = ⟨none, 0, none, 0⟩)
      (cams : mgr.cams = []) : Move active talks s (s.setMgr user mgr)
  | mgr {user : JsVal} {mgr mgr' : UserMgmr} (known : s.userMap user = some mgr)
      (table : mgr'.toSessionTable = mgr.toSessionTable)
      (parser : mgr'.toFrameParser = mgr.toFrameParser) (cams : mgr'.cams = mgr.cams) :
      Move active talks s (s.setMgr user mgr')
  | cam {user : JsVal} {mgr : UserMgmr} {hostUrl : Text} {cam : CamManager}
      (known : s.userMap user = some mgr) (headerOk : cam.headerOk = false) :
      Move active talks s
        (s.setMgr user { mgr with cams := (hostUrl, cam) :: mgr.cams.filter (·.1 ≠ hostUrl) })
  | openSeq {user : JsVal} {mgr : UserMgmr} {construct : Nat → Processor}
      (known : s.userMap user = some mgr) (room : mgr.cnt < userMgrMax)
      (begins : ∀ seq, Begins mgr (construct seq)) : Move active talks s (s.openSeq user mgr construct)
  | delSeq {user : JsVal} {mgr : UserMgmr} {x : Nat} {obj : Option ProcRef}
      {table : SessionTable ProcRef} (known : s.userMap user = some mgr)
      (current : mgr.currSeq = some x) (deleted : delSeq mgr.toSessionTable x = .ok (obj, table)) :
      Move active talks s (s.setMgr user (mgr.setTable table))
  | parser {user : JsVal} {mgr : UserMgmr} {parser : FrameParser}
      (known : s.userMap user = some mgr) (isActive : active user) (orderly : Orderly parser)
      (initialised : mgr.tmpBufs.isSome → parser.tmpBufs.isSome) :
      Move active talks s (s.setMgr user (mgr.setParser parser))
  | proc {id : ProcId} {p p' : Processor} (found : s.procs id = some p)
      (foreign : Foreign active s id) (kind : camera p' = camera p) : Move active talks s (s.setProc id p')

def Path (active : JsVal → Prop) (talks : Prop) : ServerState → ServerState → Prop :=
  Relation.ReflTransGen (Move active talks)

/-- No camera's header is ever marked as complete. -/
def NoHeader (s : ServerState) : Prop :=
  ∀ user mgr, s.userMap user = some mgr → ∀ hostUrl cam, mgr.cams.lookup hostUrl = some cam →
    cam.headerOk = false

section
variable {active : JsVal → Prop} {talks : Prop} {s t : ServerState}

theorem lookup_set {β : Type} (fields : List (Text × β)) (key name : Text) (value : β) :
    ((key, value) :: fields.filter (·.1 ≠ key)).lookup name =
      if name = key then some value else fields.lookup name := by
  rw [List.lookup_cons]
  by_cases same : name = key
  · simp [same]
  · rw [if_neg same, beq_false_of_ne same]
    simp only
    induction fields with
    | nil => rfl
    | cons field rest ih =>
      by_cases dropped : field.1 = key
      · have other : name ≠ field.1 := fun equal => same (equal.trans dropped)
        rw [List.filter_cons_of_neg (by simpa using dropped), List.lookup_cons, beq_false_of_ne other]
        exact ih
      · rw [List.filter_cons_of_pos (by simpa using dropped), List.lookup_cons, List.lookup_cons]
        split
        · rfl
        · exact ih

/-- A new manager for one user changes what holds of all managers at that user only. -/
theorem setMgr_all {kept : JsVal → UserMgmr → Prop} {user : JsVal} {mgr' : UserMgmr}
    (all : ∀ key mgr, s.userMap key = some mgr → kept key mgr) (new : kept user mgr') (key : JsVal)
    (mgr : UserMgmr) (known : (s.setMgr user mgr').userMap key = some mgr) : kept key mgr := by
  rw [setMgr_userMap] at known
  split at known
  next same =>
    cases known
    exact same ▸ new
  · exact all key mgr known

/-- And it keeps what holds of one user's manager if the new one has it. -/
theorem setMgr_kept {kept : UserMgmr → Prop} {user user' : JsVal} {mgr' : UserMgmr}
    (has : ∃ mgr, s.userMap user = some mgr ∧ kept mgr) (still : user = user' → kept mgr') :
    ∃ mgr, (s.setMgr user' mgr').userMap user = some mgr ∧ kept mgr := by
  rw [setMgr_userMap]
  by_cases here : user = user'
  · exact ⟨mgr', if_pos here, still here⟩
  · rw [if_neg here]
    exact has

theorem Move.noHeader (noHeader : NoHeader s) (move : Move active talks s t) : NoHeader t := by
  cases move with
  | write | sess | connect | conn | device | proc => exact noHeader
  | user _ _ _ cams =>
    refine setMgr_all noHeader fun hostUrl cam found => ?_
    rw [cams] at found
    cases found
  | mgr known _ _ cams =>
    refine setMgr_all noHeader fun hostUrl cam found => ?_
    rw [cams] at found
    exact noHeader _ _ known _ _ found
  | cam known headerOk =>
    refine setMgr_all noHeader fun hostUrl cam found => ?_
    rw [lookup_set] at found
    split at found
    · cases found
      exact headerOk
    · exact noHeader _ _ known _ _ found
  | openSeq known | delSeq known | parser known =>
    exact setMgr_all noHeader fun hostUrl cam found => noHeader _ _ known hostUrl cam found

theorem Path.noHeader (noHeader : NoHeader s) (path : Path active talks s t) : NoHeader t := by
  induction path with
  | refl => exact noHeader
  | tail _ move ih => exact move.noHeader ih

/-- `code` only makes moves. -/
structure Steady (active : JsVal → Prop) (talks : Prop) (code : Js α) (s : ServerState) : Prop where
  wp : Wp code (fun _ t => Path active talks s t) (fun _ => True) s

section
variable {β : Type} {user : JsVal} {hostUrl : Text}

theorem steady_bind {code : Js α} {next : α → Js β} (first : Steady active talks code s)
    (rest : ∀ a t, Path active talks s t → Steady active talks (next a) t) :
    Steady active talks (do let a ← code; next a) s := by
  constructor
  rw [wp_bind]
  refine wp_post first.wp fun a t moved => ?_
  exact wp_post (rest a t moved).wp fun _ _ moved' => moved.trans moved'

theorem Path.conns (path : Path active False s t) : t.conns = s.conns := by
  induction path with
  | refl => rfl
  | tail _ move ih =>
    refine Eq.trans ?_ ih
    cases move with
    | connect allowed | conn allowed | device allowed => exact allowed.elim
    | write | sess | user | mgr | cam | openSeq | delSeq | parser | proc => rfl

theorem Move.talk (move : Move active False s t) : Move active True s t := by
  cases move with
  | connect allowed | conn allowed | device allowed => exact allowed.elim
  | write => exact .write _
  | sess => exact .sess _
  | user new table parser cams => exact .user new table parser cams
  | mgr known table parser cams => exact .mgr known table parser cams
  | cam known headerOk => exact .cam known headerOk
  | openSeq known room begins => exact .openSeq known room begins
  | delSeq known current deleted => exact .delSeq known current deleted
  | parser known isActive orderly initialised => exact .parser known isActive orderly initialised
  | proc found foreign kind => exact .proc found foreign kind

/-- After code that leaves the connections alone they are still known. -/
theorem steady_bind_quiet {code : Js α} {next : α → Js β} (first : Steady active False code s)
    (rest : ∀ a t, Path active True s t → t.conns = s.conns → Steady active True (next a) t) :
    Steady active True (do let a ← code; next a) s := by
  constructor
  rw [wp_bind]
  refine wp_post first.wp fun a t quiet => ?_
  have path : Path active True s t := Relation.ReflTransGen.mono (fun _ _ => Move.talk) _ _ quiet
  exact wp_post (rest a t path quiet.conns).wp fun _ _ path' => path.trans path'

theorem steady_pure (a : α) : Steady active talks (pure a) s := ⟨.refl⟩

theorem steady_liftJs (result : Except JsError α) : Steady active talks (liftJs result) s :=
  ⟨wp_liftJs.mpr ⟨fun _ _ => .refl, fun _ _ => trivial⟩⟩

theorem steady_liftJs_then {result : Except JsError α} {next : α → Js β}
    (rest : ∀ a, Steady active talks (next a) s) : Steady active talks (do let a ← liftJs result; next a) s := by
  constructor
  rw [wp_bind, wp_liftJs]
  exact ⟨fun a _ => (rest a).wp, fun _ _ => trivial⟩

theorem steady_defined (value : Option α) : Steady active talks (defined value) s :=
  ⟨wp_defined.mpr ⟨fun _ _ => .refl, fun _ => trivial⟩⟩

theorem steady_defined_then {value : Option α} {next : α → Js β}
    (rest : ∀ a, value = some a → Steady active talks (next a) s) :
    Steady active talks (do let a ← defined value; next a) s := by
  constructor
  rw [wp_bind, wp_defined]
  exact ⟨fun a same => (rest a same).wp, fun _ => trivial⟩

theorem steady_throw (e : JsError) : Steady active talks (throw e : Js α) s := ⟨trivial⟩

theorem steady_emitAll (outputs : List Output) : Steady active talks (emitAll outputs) s :=
  ⟨.single (.write outputs)⟩

theorem steady_emit (output : Output) : Steady active talks (emit output) s := steady_emitAll _

theorem steady_emit_then {output : Output} {next : Js β}
    (rest : Steady active talks next (s.write [output])) : Steady active talks (do emit output; next) s := by
  constructor
  rw [wp_bind, wp_emit]
  exact wp_post rest.wp fun _ _ path => .head (.write _) path

theorem steady_sendBytes (target : Found) (bytes : List Byte) : Steady active talks (sendBytes target bytes) s :=
  ⟨wp_sendBytes.mpr ⟨fun _ _ => .single (.write _), fun _ => trivial⟩⟩

theorem steady_get {next : ServerState → Js β} (rest : Steady active talks (next s) s) :
    Steady active talks (do let s ← get; next s) s := ⟨rest.wp⟩

theorem steady_getMgr {next : UserMgmr → Js β}
    (rest : ∀ mgr, s.userMap user = some mgr → Steady active talks (next mgr) s) :
    Steady active talks (do let mgr ← getMgr user; next mgr) s := by
  constructor
  rw [wp_bind, wp_getMgr]
  exact ⟨fun mgr known => (rest mgr known).wp, fun _ => trivial⟩

theorem steady_getConn {c : ConnId} {next : Conn → Js β}
    (rest : ∀ conn, s.conns c = some conn → Steady active talks (next conn) s) :
    Steady active talks (do let conn ← getConn c; next conn) s := by
  constructor
  rw [wp_bind, wp_getConn]
  exact ⟨fun conn found => (rest conn found).wp, fun _ => trivial⟩

theorem steady_getCam {next : CamManager → Js β} (noHeader : NoHeader s)
    (rest : ∀ mgr cam, s.userMap user = some mgr → mgr.cams.lookup hostUrl = some cam →
      cam.headerOk = false → Steady active talks (next cam) s) :
    Steady active talks (do let cam ← getCam user hostUrl; next cam) s := by
  constructor
  rw [getCam, wp_bind, wp_bind, wp_getMgr]
  refine ⟨fun mgr known => ?_, fun _ => trivial⟩
  rw [wp_defined]
  exact ⟨fun cam found => (rest mgr cam known found (noHeader _ _ known _ _ found)).wp, fun _ => trivial⟩

theorem steady_setMgr {mgr mgr' : UserMgmr} (known : s.userMap user = some mgr)
    (table : mgr'.toSessionTable = mgr.toSessionTable)
    (parser : mgr'.toFrameParser = mgr.toFrameParser) (cams : mgr'.cams = mgr.cams) :
    Steady active talks (setMgr user mgr') s := ⟨.single (.mgr known table parser cams)⟩

theorem steady_setConn {c : ConnId} {conn conn' : Conn} (found : s.conns c = some conn)
    (user : conn'.user = conn.user) (seq : conn'.seq = conn.seq) : Steady active True (setConn c conn') s :=
  ⟨.single (.conn trivial found user fun _ opened => .inl (seq ▸ opened))⟩

theorem steady_setCam {cam : CamManager} (headerOk : cam.headerOk = false) :
    Steady active talks (setCam user hostUrl cam) s :=
  steady_getMgr fun _ known => ⟨.single (.cam known headerOk)⟩

theorem steady_mgrNewSeq {construct : Nat → Processor}
    (begins : ∀ mgr, s.userMap user = some mgr → ∀ seq, Begins mgr (construct seq)) :
    Steady active talks (mgrNewSeq user construct) s :=
  ⟨wp_mgrNewSeq.mpr ⟨fun mgr known => ⟨fun _ => .refl,
    fun room => .single (.openSeq known room (begins mgr known))⟩, fun _ => trivial⟩⟩

theorem steady_mgrDelSeq {mgr : UserMgmr} (known : s.userMap user = some mgr) :
    Steady active talks (mgrDelSeq user mgr.currSeq) s := by
  constructor
  rw [wp_mgrDelSeq]
  refine ⟨fun _ => .refl, fun id current => ⟨fun mgr' known' => ?_, fun _ => trivial⟩⟩
  cases known.symm.trans known'
  exact ⟨fun _ _ deleted => .single (.delSeq known current deleted), fun _ _ => trivial⟩

theorem steady_setParser {mgr : UserMgmr} {parser : FrameParser} (known : s.userMap user = some mgr)
    (isActive : active user) (orderly : Orderly parser)
    (initialised : mgr.tmpBufs.isSome → parser.tmpBufs.isSome) :
    Steady active talks (setMgr user (mgr.setParser parser)) s :=
  ⟨.single (.parser known isActive orderly initialised)⟩

theorem steady_setParser_then {mgr : UserMgmr} {parser : FrameParser} {next : Js β}
    (known : s.userMap user = some mgr) (isActive : active user) (orderly : Orderly parser)
    (initialised : mgr.tmpBufs.isSome → parser.tmpBufs.isSome)
    (rest : Path active talks s (s.setMgr user (mgr.setParser parser)) →
      Steady active talks next (s.setMgr user (mgr.setParser parser))) :
    Steady active talks (do setMgr user (mgr.setParser parser); next) s := by
  have move : Move active talks s (s.setMgr user (mgr.setParser parser)) :=
    .parser known isActive orderly initialised
  constructor
  rw [wp_bind, wp_setMgr]
  exact wp_post (rest (.single move)).wp fun _ _ path => .head move path

theorem orderly_empty (currSeq : Option Nat) (currTotal : Int) : Orderly ⟨currSeq, currTotal, some [], 0⟩ where
  counted _ same := by cases same; rfl
  empty _ := rfl

theorem steady_resetParser (isActive : active user) : Steady active talks (resetParser user) s :=
  steady_getMgr fun _ known => steady_setParser known isActive (orderly_empty _ _) fun _ => rfl

end

/-! Cameras. -/

def HasCam (s : ServerState) (user : JsVal) (hostUrl : Text) : Prop :=
  ∃ mgr, s.userMap user = some mgr ∧ (mgr.cams.lookup hostUrl).isSome

theorem Move.hasCam {user : JsVal} {hostUrl : Text} (has : HasCam s user hostUrl)
    (move : Move active talks s t) : HasCam t user hostUrl := by
  obtain ⟨mgr, known, found⟩ := has
  cases move with
  | write | sess | connect | conn | device | proc => exact ⟨mgr, known, found⟩
  | user new =>
    refine setMgr_kept ⟨mgr, known, found⟩ fun here => ?_
    rw [← here, known] at new
    cases new
  | mgr known' _ _ cams =>
    refine setMgr_kept ⟨mgr, known, found⟩ fun here => ?_
    subst here
    cases known.symm.trans known'
    rwa [cams]
  | cam known' =>
    refine setMgr_kept ⟨mgr, known, found⟩ fun here => ?_
    subst here
    cases known.symm.trans known'
    rw [lookup_set]
    split
    · rfl
    · exact found
  | openSeq known' | delSeq known' | parser known' =>
    refine setMgr_kept ⟨mgr, known, found⟩ fun here => ?_
    subst here
    cases known.symm.trans known'
    exact found

theorem Path.hasCam {user : JsVal} {hostUrl : Text} (has : HasCam s user hostUrl)
    (path : Path active talks s t) : HasCam t user hostUrl := by
  induction path with
  | refl => exact has
  | tail _ move ih => exact move.hasCam ih

section
variable {user : JsVal} {hostUrl : Text}

theorem webcam_doConn_steady (noHeader : NoHeader s) (p : WebcamProcessor) : Steady active talks (WebcamProcessor.doConn user p) s := by
  refine steady_getCam noHeader fun _ cam _ _ _ => steady_getMgr fun mgr _ => ?_
  split
  · exact steady_pure _
  · refine steady_bind (steady_liftJs _) fun _ _ _ => steady_bind (steady_liftJs _) fun _ _ _ => ?_
    refine steady_bind (steady_liftJs _) fun _ _ _ => steady_bind (steady_sendBytes _ _) fun _ _ _ => ?_
    refine steady_bind (steady_liftJs _) fun _ _ _ => steady_bind (steady_sendBytes _ _) fun _ _ _ => ?_
    exact steady_pure _

theorem doConn_steady (noHeader : NoHeader s) (has : HasCam s user hostUrl) : Steady active talks (CamManager.doConn user hostUrl) s := by
  have begins : ∀ mgr, s.userMap user = some mgr → ∀ seq, Begins mgr (.webcam ⟨hostUrl, seq, 0⟩) := by
    intro mgr known seq
    obtain ⟨mgr', known', found⟩ := has
    cases known.symm.trans known'
    exact ⟨rfl, fun _ same => by cases same; exact found⟩
  refine steady_bind (steady_mgrNewSeq begins) fun _ _ path => ?_
  refine steady_bind (steady_defined _) fun _ _ path' => ?_
  exact steady_bind (webcam_doConn_steady (path'.noHeader (path.noHeader noHeader)) _) fun _ _ _ => steady_pure _

theorem onDoReq_steady (noHeader : NoHeader s) : Steady active talks (CamManager.onDoReq user hostUrl) s := by
  refine steady_getCam noHeader fun mgr cam known found headerOk => ?_
  have has : HasCam s user hostUrl := ⟨mgr, known, by rw [found]; rfl⟩
  split
  · refine steady_bind (steady_setCam headerOk) fun _ t path => ?_
    refine steady_bind (doConn_steady (path.noHeader noHeader) (path.hasCam has)) fun _ u path' => ?_
    refine steady_getCam (path'.noHeader (path.noHeader noHeader)) fun _ _ _ _ headerOk' => ?_
    exact steady_setCam headerOk'
  · exact steady_pure _

theorem repeatDoReq_steady (listeners : Nat) (noHeader : NoHeader s) :
    Steady active talks (repeatDoReq user hostUrl listeners) s := by
  induction listeners generalizing s with
  | zero => exact steady_pure _
  | succ listeners ih =>
    exact steady_bind (onDoReq_steady noHeader) fun _ _ path => ih (path.noHeader noHeader)

theorem emitDoReq_steady (noHeader : NoHeader s) : Steady active talks (CamManager.emitDoReq user hostUrl) s :=
  steady_getCam noHeader fun _ _ _ _ _ => repeatDoReq_steady _ noHeader

theorem openConn_steady (noHeader : NoHeader s) : Steady active talks (CamManager.openConn user hostUrl) s := by
  refine steady_getCam noHeader fun _ _ _ _ headerOk => ?_
  split
  · refine steady_bind (steady_setCam headerOk) fun _ _ path => ?_
    exact emitDoReq_steady (path.noHeader noHeader)
  · exact steady_pure _

theorem addConn_steady (noHeader : NoHeader s) (c : ConnId) :
    Steady active talks (CamManager.addConn user hostUrl c) s := by
  refine steady_getCam noHeader fun _ _ _ _ headerOk => ?_
  refine steady_bind (steady_setCam headerOk) fun _ _ path => ?_
  split
  · exact steady_bind (openConn_steady (path.noHeader noHeader)) fun _ _ _ => steady_pure _
  · exact steady_pure _

theorem delConn_steady (noHeader : NoHeader s) (ind : Nat) :
    Steady active talks (CamManager.delConn user hostUrl ind) s :=
  steady_getCam noHeader fun _ _ _ _ headerOk => steady_setCam headerOk

theorem readyForNew_steady (noHeader : NoHeader s) : Steady active talks (CamManager.readyForNew user hostUrl) s := by
  refine steady_getCam noHeader fun _ _ _ _ headerOk => ?_
  refine steady_bind (steady_setCam headerOk) fun _ _ path => ?_
  split
  · exact emitDoReq_steady (path.noHeader noHeader)
  · exact steady_pure _

theorem innerProcessBuffer_steady (noHeader : NoHeader s) (buffer : List Byte) :
    Steady active talks (CamManager.innerProcessBuffer user hostUrl buffer none) s := by
  refine steady_getCam noHeader fun _ _ _ _ headerOk => ?_
  split
  · refine steady_bind (steady_pure ()) fun _ _ path => ?_
    refine steady_bind (steady_emitAll _) fun _ _ path' => ?_
    refine steady_bind (steady_setCam headerOk) fun _ _ path'' => ?_
    exact readyForNew_steady (path''.noHeader (path'.noHeader (path.noHeader noHeader)))
  · exact steady_setCam headerOk

theorem scanHeader_headerOk (cam : CamManager) (buffer : List Byte) :
    (CamManager.scanHeader cam buffer).1.headerOk = cam.headerOk := by
  unfold CamManager.scanHeader
  dsimp only
  split
  · rfl
  · split
    · split <;> rfl
    · rfl

theorem processHeader_steady (noHeader : NoHeader s) (buffer : List Byte) :
    Steady active talks (CamManager.processHeader user hostUrl buffer) s := by
  refine steady_getCam noHeader fun _ cam _ _ headerOk => ?_
  have headerOk : (CamManager.scanHeader cam buffer).1.headerOk = false :=
    (scanHeader_headerOk cam buffer).trans headerOk
  refine steady_bind (steady_setCam headerOk) fun _ _ path => ?_
  split
  · exact steady_pure _
  · exact innerProcessBuffer_steady (path.noHeader noHeader) _

theorem cam_processBuffer_steady (noHeader : NoHeader s) (buffer : List Byte) (seq : Nat) :
    Steady active talks (CamManager.processBuffer user hostUrl buffer seq) s := by
  refine steady_getCam noHeader fun _ cam _ _ headerOk => ?_
  split
  · refine steady_bind (steady_setCam headerOk) fun _ _ path => ?_
    rw [if_neg (by simp [headerOk])]
    exact steady_bind (processHeader_steady (path.noHeader noHeader) _) fun _ _ _ => steady_pure _
  · exact steady_pure _

theorem getCamByName_steady : Steady active talks (getCamByName user hostUrl) s := by
  refine steady_getMgr fun _ _ => ?_
  split
  · exact steady_pure _
  · exact steady_setCam rfl

end

/-! Processors and binary messages. -/

/-- The processor exists and only active users have it. -/
structure Owned (active : JsVal → Prop) (s : ServerState) (id : ProcId) : Prop where
  known : id < s.nextProc
  foreign : Foreign active s id

/-- The tables of all users have the shape every run keeps. -/
def AllShaped (s : ServerState) : Prop :=
  ∀ user mgr, s.userMap user = some mgr → Shaped mgr.toSessionTable

theorem Move.shaped (shaped : AllShaped s) (move : Move active talks s t) : AllShaped t := by
  cases move with
  | write | sess | connect | conn | device | proc => exact shaped
  | user _ table => exact setMgr_all shaped (by rw [table]; exact shaped_fresh)
  | mgr known table => exact setMgr_all shaped (by rw [table]; exact shaped _ _ known)
  | openSeq known room => exact setMgr_all shaped ((shaped _ _ known).newSeq _ room rfl).1
  | delSeq known _ deleted => exact setMgr_all shaped ((shaped _ _ known).delSeq deleted).1
  | @cam _ mgr _ _ known | @parser _ mgr _ known =>
    exact setMgr_all shaped (show Shaped mgr.toSessionTable from shaped _ _ known)

theorem Path.shaped (shaped : AllShaped s) (path : Path active talks s t) : AllShaped t := by
  induction path with
  | refl => exact shaped
  | tail _ move ih => exact move.shaped ih

theorem Move.owned (shaped : AllShaped s) {id : ProcId} (owned : Owned active s id)
    (move : Move active talks s t) : Owned active t id := by
  obtain ⟨known, foreign⟩ := owned
  cases move with
  | write | sess | connect | conn | device | proc => exact ⟨known, foreign⟩
  | user _ table =>
    refine ⟨known, setMgr_all foreign fun _ ref live => ?_⟩
    obtain ⟨i, found⟩ := live
    rw [table] at found
    simp [fresh, holeGet] at found
  | mgr found table =>
    exact ⟨known, setMgr_all foreign fun inactive ref live => foreign _ _ found inactive ref (table ▸ live)⟩
  | cam found | parser found =>
    exact ⟨known, setMgr_all foreign fun inactive ref live => foreign _ _ found inactive ref live⟩
  | openSeq found room =>
    refine ⟨Nat.lt_succ_of_lt known, setMgr_all (s := { s with }) foreign fun inactive ref live => ?_⟩
    rcases ((shaped _ _ found).newSeq _ room rfl).2 ref live with old | rfl
    · exact foreign _ _ found inactive ref old
    · exact Nat.ne_of_gt known
  | delSeq found _ deleted =>
    exact ⟨known, setMgr_all foreign fun inactive ref live =>
      foreign _ _ found inactive ref (((shaped _ _ found).delSeq deleted).2 ref live)⟩

theorem Path.owned (shaped : AllShaped s) {id : ProcId} (owned : Owned active s id)
    (path : Path active talks s t) : Owned active t id := by
  have both : AllShaped t ∧ Owned active t id := by
    induction path with
    | refl => exact ⟨shaped, owned⟩
    | tail _ move ih => exact ⟨move.shaped ih.1, move.owned ih.1 ih.2⟩
  exact both.2

/-- Processors stay, and stay of one camera. -/
theorem Path.proc {id : ProcId} {p : Processor} (known : id < s.nextProc) (found : s.procs id = some p) (path : Path active talks s t) :
    ∃ p', t.procs id = some p' ∧ camera p' = camera p := by
  have both : id < t.nextProc ∧ ∃ p', t.procs id = some p' ∧ camera p' = camera p := by
    induction path with
    | refl => exact ⟨known, p, found, rfl⟩
    | tail _ move ih =>
      obtain ⟨low, p', found', same⟩ := ih
      cases move with
      | write | sess | connect | conn | device | user | mgr | cam | delSeq | parser =>
        exact ⟨low, p', found', same⟩
      | openSeq =>
        refine ⟨Nat.lt_succ_of_lt low, p', ?_, same⟩
        exact (if_neg (Nat.ne_of_lt low)).trans found'
      | @proc id' q q' foundQ _ kind =>
        refine ⟨low, ?_⟩
        by_cases here : id = id'
        · subst here
          cases foundQ.symm.trans found'
          exact ⟨q', setProc_procs_self _ _ _, kind.trans same⟩
        · exact ⟨p', (if_neg here).trans found', same⟩
  exact both.2

/-- What the proofs about a processor's data use of the state. -/
structure Ready (active : JsVal → Prop) (s : ServerState) (id : ProcId) (camera? : Option Text) : Prop where
  noHeader : NoHeader s
  shaped : AllShaped s
  owned : Owned active s id
  found : ∃ p, s.procs id = some p ∧ camera p = camera?

section
variable {user : JsVal} {id : ProcId} {camera? : Option Text}

theorem Path.ready (path : Path active talks s t) (ready : Ready active s id camera?) :
    Ready active t id camera? := by
  obtain ⟨p, found, kind⟩ := ready.found
  obtain ⟨p', found', kind'⟩ := path.proc ready.owned.known found
  exact ⟨path.noHeader ready.noHeader, path.shaped ready.shaped, path.owned ready.shaped ready.owned,
    p', found', kind'.trans kind⟩

theorem Ready.write (ready : Ready active s id camera?) (outputs : List Output) :
    Ready active (s.write outputs) id camera? :=
  (show Path active True s (s.write outputs) from .single (.write outputs)).ready ready

theorem Ready.setProc {β : Type} {p : Processor} {next : Js β} (ready : Ready active s id camera?)
    (kind : camera p = camera?)
    (rest : Ready active (s.setProc id p) id camera? → Steady active talks next (s.setProc id p)) :
    Steady active talks (do setProc id p; next) s := by
  obtain ⟨q, found, kind'⟩ := ready.found
  have move : Move active talks s (s.setProc id p) := .proc found ready.owned.foreign (kind.trans kind'.symm)
  constructor
  rw [wp_bind, wp_setProc]
  exact wp_post (rest (Path.ready (.single move) ready)).wp fun _ _ path => .head move path

theorem http_steady {p : HttpProcessor} (ready : Ready active s id none) (isActive : active user)
    (buffer : List Byte) : Steady active talks (HttpProcessor.processBuffer user id p buffer) s := by
  refine ready.setProc rfl fun _ => steady_bind (steady_emitAll _) fun _ _ _ => ?_
  refine steady_getMgr fun mgr known => ?_
  split
  · refine steady_emit_then (steady_bind (steady_mgrDelSeq known) fun _ _ _ => ?_)
    exact steady_resetParser isActive
  · exact steady_pure _

theorem getForwardConn_steady (ref : Option ProcRef) : Steady active talks (getForwardConn ref) s := by
  refine steady_bind (steady_defined _) fun ref t _ => steady_get ?_
  split
  · exact steady_pure _
  · exact steady_throw _

theorem forward_steady {p : ForwardProcessor} (ready : Ready active s id none) (isActive : active user)
    (buffer : List Byte) : Steady active talks (ForwardProcessor.processBuffer user id p buffer) s := by
  refine ready.setProc rfl fun ready => steady_getMgr fun mgr _ => ?_
  refine steady_bind (getForwardConn_steady _) fun _ _ path => ?_
  refine steady_bind (steady_defined _) fun _ _ path₁ => steady_bind (steady_liftJs _) fun _ u path₂ => ?_
  have ready := path₂.ready (path₁.ready (path.ready ready))
  have ready : ∀ output, Ready active (u.write [output]) id none :=
    fun output => ready.write [output]
  refine steady_emit_then ?_
  split
  · exact (ready _).setProc rfl fun _ => steady_resetParser isActive
  · exact steady_pure _

theorem webcam_steady {p : WebcamProcessor} (ready : Ready active s id (some p.camMgr))
    (isActive : active user) (buffer : List Byte) :
    Steady active talks (WebcamProcessor.processBuffer user id p buffer) s := by
  refine ready.setProc rfl fun ready => steady_bind (steady_liftJs _) fun len _ path => ?_
  have ready := path.ready ready
  refine steady_bind (cam_processBuffer_steady ready.noHeader _ _) fun processed _ path => ?_
  have ready := path.ready ready
  refine steady_getMgr fun mgr known => ?_
  split
  · refine ready.setProc rfl fun _ => ?_
    split
    · exact steady_bind (steady_mgrDelSeq known) fun _ _ _ => steady_resetParser isActive
    · exact steady_resetParser isActive
  · exact steady_pure _

end

/-! What every run keeps. -/

/-- A session's processor exists, and so does its camera. -/
def Manned (s : ServerState) (mgr : UserMgmr) : Prop :=
  ∀ ref, Live mgr.toSessionTable ref → ref.id < s.nextProc ∧ ∃ p, s.procs ref.id = some p ∧
    ∀ hostUrl, camera p = some hostUrl → (mgr.cams.lookup hostUrl).isSome

structure Stocked (s : ServerState) : Prop where
  noHeader : NoHeader s
  shaped : AllShaped s
  manned : ∀ user mgr, s.userMap user = some mgr → Manned s mgr
  apart : ∃ owner : ProcId → JsVal, ∀ user mgr, s.userMap user = some mgr →
    ∀ ref, Live mgr.toSessionTable ref → owner ref.id = user
  orderly : ∀ user mgr, s.userMap user = some mgr → Orderly mgr.toFrameParser

theorem Move.orderly (orderly : ∀ user mgr, s.userMap user = some mgr → Orderly mgr.toFrameParser)
    (move : Move active talks s t) : ∀ user mgr, t.userMap user = some mgr → Orderly mgr.toFrameParser := by
  cases move with
  | write | sess | connect | conn | device | proc => exact orderly
  | user _ _ parser =>
    refine setMgr_all orderly ?_
    rw [parser]
    refine ⟨fun _ same => ?_, fun busy => (busy rfl).elim⟩
    cases same
  | mgr known _ parser => exact setMgr_all orderly (parser ▸ orderly _ _ known)
  | @cam _ mgr _ _ known | @openSeq _ mgr _ known | @delSeq _ mgr _ _ _ known =>
    exact setMgr_all orderly (show Orderly mgr.toFrameParser from orderly _ _ known)
  | parser _ _ fine => exact setMgr_all orderly fine

theorem Manned.mono {mgr mgr' : UserMgmr} (manned : Manned s mgr)
    (table : ∀ ref, Live mgr'.toSessionTable ref → Live mgr.toSessionTable ref)
    (cams : ∀ hostUrl, (mgr.cams.lookup hostUrl).isSome → (mgr'.cams.lookup hostUrl).isSome)
    (ids : s.nextProc ≤ t.nextProc)
    (procs : ∀ id p, id < s.nextProc → s.procs id = some p → ∃ p', t.procs id = some p' ∧ camera p' = camera p) :
    Manned t mgr' := by
  intro ref live
  obtain ⟨known, p, found, cam⟩ := manned ref (table ref live)
  obtain ⟨p', found', kind⟩ := procs ref.id p known found
  exact ⟨Nat.lt_of_lt_of_le known ids, p', found', fun hostUrl same => cams hostUrl (cam hostUrl (kind ▸ same))⟩

theorem Move.manned (shaped : AllShaped s) (manned : ∀ user mgr, s.userMap user = some mgr → Manned s mgr)
    (move : Move active talks s t) : ∀ user mgr, t.userMap user = some mgr → Manned t mgr := by
  have idle : ∀ id p, id < s.nextProc → s.procs id = some p → ∃ p', s.procs id = some p' ∧ camera p' = camera p :=
    fun _ p _ found => ⟨p, found, rfl⟩
  cases move with
  | write | sess | connect | conn | device => exact manned
  | user _ table =>
    refine setMgr_all manned fun ref live => ?_
    obtain ⟨i, found⟩ := live
    rw [table] at found
    simp [fresh, holeGet] at found
  | mgr known table _ cams =>
    refine setMgr_all manned ((manned _ _ known).mono (fun ref live => table ▸ live) (fun _ found => ?_)
      (Nat.le_refl _) idle)
    rwa [cams]
  | cam known =>
    refine setMgr_all manned ((manned _ _ known).mono (fun ref live => live) (fun hostUrl found => ?_)
      (Nat.le_refl _) idle)
    rw [lookup_set]
    split
    · rfl
    · exact found
  | parser known =>
    exact setMgr_all manned ((manned _ _ known).mono (fun ref live => live) (fun _ found => found)
      (Nat.le_refl _) idle)
  | delSeq known _ deleted =>
    exact setMgr_all manned ((manned _ _ known).mono ((shaped _ _ known).delSeq deleted).2
      (fun _ found => found) (Nat.le_refl _) idle)
  | @proc id p p' found _ kind =>
    intro user mgr known
    refine (manned user mgr known).mono (fun _ live => live) (fun _ found => found) (Nat.le_refl _) ?_
    intro id' q _ found'
    by_cases here : id' = id
    · subst here
      cases found.symm.trans found'
      exact ⟨p', setProc_procs_self _ _ _, kind⟩
    · exact ⟨q, (if_neg here).trans found', rfl⟩
  | @openSeq user mgr construct known room begins =>
    have kept : ∀ id p, id < s.nextProc → s.procs id = some p →
        (s.openSeq user mgr construct).procs id = some p :=
      fun id p low found => (if_neg (Nat.ne_of_lt low)).trans found
    have mono : ∀ mgr', Manned s mgr' → Manned (s.openSeq user mgr construct) mgr' := by
      intro mgr' manned
      exact manned.mono (fun _ live => live) (fun _ found => found) (Nat.le_succ _)
        fun id p low found => ⟨p, kept id p low found, rfl⟩
    refine setMgr_all (s := { s with }) (fun key mgr' known' => mono mgr' (manned key mgr' known')) ?_
    intro ref live
    rcases ((shaped _ _ known).newSeq _ room rfl).2 ref live with old | rfl
    · exact mono mgr (manned _ _ known) ref old
    · exact ⟨Nat.lt_succ_self _, _, if_pos rfl, (begins _).exists_camera⟩

theorem Move.apart (shaped : AllShaped s) (manned : ∀ user mgr, s.userMap user = some mgr → Manned s mgr)
    {owner : ProcId → JsVal} (apart : ∀ user mgr, s.userMap user = some mgr →
      ∀ ref, Live mgr.toSessionTable ref → owner ref.id = user) (move : Move active talks s t) :
    ∃ owner : ProcId → JsVal, ∀ user mgr, t.userMap user = some mgr →
      ∀ ref, Live mgr.toSessionTable ref → owner ref.id = user := by
  cases move with
  | write | sess | connect | conn | device | proc => exact ⟨owner, apart⟩
  | user _ table =>
    refine ⟨owner, setMgr_all apart fun ref live => ?_⟩
    obtain ⟨i, found⟩ := live
    rw [table] at found
    simp [fresh, holeGet] at found
  | mgr known table => exact ⟨owner, setMgr_all apart fun ref live => apart _ _ known ref (table ▸ live)⟩
  | cam known | parser known =>
    exact ⟨owner, setMgr_all apart fun ref live => apart _ _ known ref live⟩
  | delSeq known _ deleted =>
    exact ⟨owner, setMgr_all apart fun ref live =>
      apart _ _ known ref (((shaped _ _ known).delSeq deleted).2 ref live)⟩
  | @openSeq user mgr construct known room =>
    have kept : ∀ key mgr', s.userMap key = some mgr' → ∀ ref, Live mgr'.toSessionTable ref →
        (if ref.id = s.nextProc then user else owner ref.id) = key := by
      intro key mgr' known' ref live
      rw [if_neg (Nat.ne_of_lt (manned _ _ known' ref live).1)]
      exact apart _ _ known' ref live
    refine ⟨fun id => if id = s.nextProc then user else owner id, setMgr_all (s := { s with }) kept ?_⟩
    intro ref live
    rcases ((shaped _ _ known).newSeq _ room rfl).2 ref live with old | rfl
    · exact kept _ _ known ref old
    · exact if_pos rfl

theorem Move.stocked (stocked : Stocked s) (move : Move active talks s t) : Stocked t := by
  obtain ⟨owner, apart⟩ := stocked.apart
  exact ⟨move.noHeader stocked.noHeader, move.shaped stocked.shaped,
    move.manned stocked.shaped stocked.manned, move.apart stocked.shaped stocked.manned apart,
    move.orderly stocked.orderly⟩

theorem Path.stocked (stocked : Stocked s) (path : Path active talks s t) : Stocked t := by
  induction path with
  | refl => exact stocked
  | tail _ move ih => exact move.stocked ih

section
variable {user : JsVal}

theorem getCurrent_live {mgr : UserMgmr} {ref : ProcRef} (current : mgr.getCurrent = some ref) :
    Live mgr.toSessionTable ref := by
  obtain ⟨_, _, found⟩ := Option.bind_eq_some_iff.mp current
  obtain ⟨i, _, at_⟩ := getBySeq_eq_some.mp found
  exact ⟨i, at_⟩

theorem Stocked.ready (stocked : Stocked s) {mgr : UserMgmr} (known : s.userMap user = some mgr)
    {ref : ProcRef} (live : Live mgr.toSessionTable ref) {p : Processor}
    (found : s.procs ref.id = some p) : Ready (· = user) s ref.id (camera p) := by
  refine ⟨stocked.noHeader, stocked.shaped, ⟨(stocked.manned _ _ known ref live).1, ?_⟩, p, found, rfl⟩
  intro user' mgr' known' inactive ref' live' same
  obtain ⟨owner, apart⟩ := stocked.apart
  refine inactive ?_
  rw [← apart _ _ known' ref' live', same, apart _ _ known ref live]

theorem httpNormalParse_steady (stocked : Stocked s) (buf : List Byte) :
    Steady (· = user) True (httpNormalParse user buf) s := by
  have isActive : (· = user) user := rfl
  refine steady_getMgr fun mgr known => ?_
  split
  next seq ref currSeq current =>
    refine steady_emit_then (steady_get ?_)
    have ready : ∀ {p}, s.procs ref.id = some p →
        Ready (· = user) (s.write [.processBuffer seq mgr.currTotal ref.id buf]) ref.id (camera p) :=
      fun found => (stocked.ready known (getCurrent_live current) found).write _
    rw [write_procs]
    split
    next p found => exact http_steady (ready found) isActive buf
    next p found => exact forward_steady (ready found) isActive buf
    next p found => exact webcam_steady (ready found) isActive buf
    next => exact steady_throw _
  next =>
    have orderly := stocked.orderly _ _ known
    exact steady_setParser known isActive ⟨orderly.counted, fun busy => (busy rfl).elim⟩ id

theorem parseFirstMessage_steady (stocked : Stocked s) (c : ConnId) (buffer : List Byte) :
    Steady (· = user) True (parseFirstMessage user c buffer) s := by
  have isActive : (· = user) user := rfl
  refine steady_getMgr fun mgr known => ?_
  refine steady_setParser_then known isActive (orderly_empty _ _) (fun _ => rfl) fun path => ?_
  refine steady_liftJs_then fun header => ?_
  split
  · exact steady_pure _
  · split
    · exact steady_liftJs_then fun _ => steady_emit _
    · refine steady_getMgr fun mgr' known' => ?_
      cases (setMgr_userMap_self _ _ _).symm.trans known'
      refine steady_setParser_then known' isActive (orderly_empty _ _) (fun _ => rfl) fun path' => ?_
      split
      · exact httpNormalParse_steady (path'.stocked (path.stocked stocked)) _
      · exact steady_pure _

theorem parseNormalMessage_steady (stocked : Stocked s) (c : ConnId) (buffer : List Byte) :
    Steady (· = user) True (parseNormalMessage user c buffer) s := by
  have isActive : (· = user) user := rfl
  refine steady_getMgr fun mgr known => ?_
  split
  next idle =>
    split
    · refine steady_defined_then fun tmpBufs bufs => ?_
      have counted := (stocked.orderly _ _ known).counted tmpBufs bufs
      have orderly : Orderly ⟨mgr.currSeq, mgr.currTotal, some (tmpBufs ++ [buffer]),
          mgr.tmpBufsLen + buffer.length⟩ := by
        refine ⟨fun _ same => ?_, fun busy => (busy idle).elim⟩
        cases same
        simp [counted]
      refine steady_setParser_then known isActive orderly (fun _ => rfl) fun path => ?_
      split
      · exact parseFirstMessage_steady (path.stocked stocked) c _
      · exact steady_pure _
    · exact parseFirstMessage_steady stocked c buffer
  next => exact httpNormalParse_steady stocked buffer

theorem register_path {c : ConnId} {conn conn' : Conn} {mgr : UserMgmr} (found : s.conns c = some conn)
    (isNew : conn.user = .undefined) (seq : conn'.seq = conn.seq) (path : Path active True s (s.setMgr conn'.user mgr)) :
    Path active True s ((s.setConn c conn').setMgr conn'.user mgr) := by
  refine path.tail (@Move.device _ _ _ _ _ conn' trivial found isNew ?_ seq)
  rw [setMgr_userMap_self]
  rfl

theorem parseHandshake_steady {c : ConnId} {conn : Conn} (found : s.conns c = some conn)
    (isNew : conn.user = .undefined) (buffer : List Byte) (random : Nat) : Steady active True (parseHandshake c conn buffer random) s := by
  refine steady_liftJs_then fun protoHeader => ?_
  split
  · exact steady_throw _
  · refine steady_liftJs_then fun o => steady_liftJs_then fun username => steady_liftJs_then fun host => ?_
    refine steady_liftJs_then fun port => steady_liftJs_then fun _ => steady_liftJs_then fun _ => ?_
    refine steady_liftJs_then fun _ => steady_liftJs_then fun reply => steady_emit_then (steady_get ?_)
    constructor
    rw [wp_bind, wp_setConn, wp_setMgr, write_userMap]
    refine register_path (s := s.write [.sendBytes c reply]) found isNew ?_ ?_
    · rfl
    cases known : s.userMap username with
    | some mgr => exact .single (.mgr known rfl rfl rfl)
    | none => exact .single (.user known rfl rfl rfl)

end

/-! The other handlers. -/

theorem textProcess_path {c : ConnId} {text : Text} (effect : TextEffect s c text t) : Path active True s t := by
  cases effect with
  | refused => exact .refl
  | closing | forwarded => exact .single (.write _)
  | @hello conn _ _ mgr found _ _ _ known _ room =>
    have begins : ∀ seq, Begins mgr (.forward ⟨c, seq, 0⟩) := fun _ => ⟨rfl, fun _ none => by cases none⟩
    refine .head (.openSeq known room begins) (.head (.conn trivial found ?_ ?_) (.single (.write _)))
    · rfl
    · intro x same
      cases same
      exact .inr cursor_lt

theorem webcamProcess_steady (noHeader : NoHeader s) (c : ConnId) (text : Text) :
    Steady active True (webcamProcess c text) s := by
  refine steady_getConn fun conn found => ?_
  split
  · refine steady_get ?_
    split
    · exact steady_emit _
    · split
      · split
        · exact steady_emit _
        · refine steady_bind_quiet getCamByName_steady fun _ _ path same => ?_
          have noHeader := path.noHeader noHeader
          refine steady_bind_quiet (addConn_steady noHeader c) fun camSeq u path same' => ?_
          have found : u.conns c = some conn := by rw [same', same, found]
          refine steady_bind (steady_setConn found rfl rfl) fun _ _ path' => ?_
          exact openConn_steady (path'.noHeader (path.noHeader noHeader))
      · exact steady_pure _
  · exact steady_emit _

theorem closeForward_steady (user : JsVal) (conn : Conn) (seq : Nat) :
    Steady active True (closeForward user conn seq) s := by
  refine steady_getMgr fun mgr known => ?_
  split
  · exact steady_pure _
  · refine steady_liftJs_then fun _ => steady_liftJs_then fun bytes => ?_
    constructor
    rw [wp_bind, wp_sendBytes]
    refine ⟨fun device _ => ?_, fun _ => trivial⟩
    exact wp_post (steady_mgrDelSeq (s := s.write [.sendBytes device bytes]) known).wp
      fun _ _ path => .head (.write _) path

theorem onClose_steady (noHeader : NoHeader s) (c : ConnId) : Steady active True (onClose c) s := by
  refine steady_getConn fun conn found => ?_
  refine steady_bind (steady_setConn found rfl rfl) fun _ t path => steady_get ?_
  have noHeader := path.noHeader noHeader
  split
  · split
    · exact steady_pure _
    · split
      · exact steady_pure _
      · refine steady_bind getCamByName_steady fun _ _ path => ?_
        exact delConn_steady (path.noHeader noHeader) _
  · split
    · split
      next mgr name known _ => exact steady_setMgr known rfl rfl rfl
      next => exact steady_pure _
    · split
      · exact steady_pure _
      · split
        next mgr seq _ _ => exact closeForward_steady _ _ _
        next => exact steady_pure _

theorem setSess_steady (sid : SessId) (sess : Sess) : Steady active talks (setSess sid sess) s :=
  ⟨.single (.sess _)⟩

theorem sendAll_steady (target : Found) (id : ProcId) (bufs : Except JsError (List (List Byte))) :
    Steady active talks (sendAll target id bufs) s := by
  cases bufs with
  | error => exact steady_emit _
  | ok bufs =>
    cases target with
    | builtin => exact steady_emit _
    | conn c => exact steady_emitAll _

theorem sendRequest_steady (sid : SessId) (bufs : List (List Byte)) :
    Steady active talks (sendRequest sid bufs) s := by
  refine steady_get ?_
  split
  · exact steady_pure _
  next username _ =>
    split
    · exact setSess_steady _ _
    · split
      · exact steady_pure _
      · have begins : ∀ mgr seq, Begins mgr (.http ⟨username, seq, false, [], 0⟩) :=
          fun _ _ => ⟨rfl, fun _ none => by cases none⟩
        refine steady_bind (steady_mgrNewSeq fun mgr _ seq => begins mgr seq) fun _ _ _ => ?_
        split
        · exact steady_pure _
        · exact sendAll_steady _ _ _

theorem prepareDevice_steady (sid : SessId) (device : Text) :
    Steady active True (prepareDevice sid device) s := by
  refine steady_get ?_
  split
  · exact steady_pure _
  next username _ =>
    split
    · exact steady_pure _
    next mgr known =>
      have selected : ∀ t : ServerState, t.userMap = s.userMap → Steady active True (do
          setMgr (.str username) (mgr.setCurr device)
          setSess sid { s.sess sid with devicename := some device }) t := by
        intro t same
        have known : t.userMap (.str username) = some mgr := by rw [same, known]
        exact steady_bind (steady_setMgr known rfl rfl rfl) fun _ _ _ => setSess_steady _ _
      split
      · exact steady_pure _
      · split
        · exact steady_pure _
        · split
          · split
            · exact steady_throw _
            · exact selected s rfl
          next c _ =>
            refine steady_getConn fun conn found => ?_
            split
            · have named : Move active True s (s.setConn c { conn with devicename := some device }) :=
                .conn trivial found rfl fun _ opened => .inl opened
              have rest := (selected (s.setConn c { conn with devicename := some device }) rfl).wp
              constructor
              rw [wp_bind, wp_setConn]
              exact wp_post rest fun _ _ path => .head named path
            · exact selected s rfl

theorem newConnection_steady {c : ConnId} (new : s.conns c = none) (url : Text) (sess : Option Sess) :
    Steady active True (newConnection c url sess) s := ⟨.single (.connect trivial new rfl rfl)⟩

theorem onTimeout_steady (noHeader : NoHeader s) (user : JsVal) (hostUrl : Text) :
    Steady active talks (onTimeout user hostUrl) s := by
  refine steady_getCam noHeader fun _ _ _ _ headerOk => ?_
  exact steady_bind (steady_setCam headerOk) fun _ _ path => readyForNew_steady (path.noHeader noHeader)

/-- The user whose device sends a binary message. -/
def activeUser (s : ServerState) : Event → JsVal → Prop
  | .binary c _ _ => fun user => user ≠ .undefined ∧ (s.conns c).map Conn.user = some user
  | _ => fun _ => False

theorem activeUser_device {c : ConnId} {conn : Conn} (found : s.conns c = some conn)
    (isDevice : conn.user ≠ .undefined) {buffer : List Byte} {random : Fin 100000} :
    activeUser s (.binary c buffer random) = (· = conn.user) := by
  funext user
  simp only [activeUser, found, Option.map_some, Option.some.injEq, eq_iff_iff]
  exact ⟨fun both => both.2.symm, fun same => ⟨same ▸ isDevice, same.symm⟩⟩

theorem activeUser_new {c : ConnId} {conn : Conn} (found : s.conns c = some conn)
    (isNew : conn.user = .undefined) {buffer : List Byte} {random : Fin 100000} :
    activeUser s (.binary c buffer random) = fun _ => False := by
  funext user
  simp only [activeUser, found, Option.map_some, isNew, Option.some.injEq, eq_iff_iff, iff_false]
  exact fun both => both.1 both.2.symm

theorem handle_steady (stocked : Stocked s) {e : Event} (enabled : Enabled s e) :
    Steady (activeUser s e) True (handle e) s := by
  cases e with
  | connect c url sid => exact steady_get (newConnection_steady enabled url _)
  | utf8 c text =>
    refine steady_getConn fun conn found => ?_
    split
    · exact webcamProcess_steady stocked.noHeader c text
    · have path : Steady (fun _ => False) True (textProcess c text) s :=
        ⟨wp_post (textProcess_effect s c text) fun _ _ effect => textProcess_path effect⟩
      exact steady_bind path fun _ _ _ => steady_pure _
  | binary c buffer random =>
    obtain ⟨conn, found, _⟩ := enabled
    refine steady_getConn fun conn' found' => ?_
    cases found.symm.trans found'
    split
    next isNew => exact parseHandshake_steady found isNew buffer random
    next isDevice =>
      exact activeUser_device found isDevice ▸ parseNormalMessage_steady stocked c buffer
  | close c => exact onClose_steady stocked.noHeader c
  | login sid username =>
    refine steady_get ?_
    split
    · exact setSess_steady _ _
    · exact steady_pure _
  | logout sid => exact steady_get (setSess_steady _ _)
  | prepareDevice sid device => exact prepareDevice_steady sid device
  | request sid bufs => exact sendRequest_steady sid bufs
  | camsnap sid => exact sendRequest_steady sid _
  | timeout user hostUrl => exact onTimeout_steady stocked.noHeader user hostUrl

/-- A step is a sequence of moves. -/
theorem step_path (stocked : Stocked s) {e : Event} (enabled : Enabled s e) (moved : step s e = some t) :
    Path (activeUser s e) True s t :=
  of_step moved (handle_steady stocked enabled).wp

theorem stocked_init : Stocked .init where
  noHeader _ _ known := nomatch known
  shaped _ _ known := nomatch known
  manned _ _ known := nomatch known
  apart := ⟨fun _ => .undefined, fun _ _ known => nomatch known⟩
  orderly _ _ known := nomatch known

theorem stocked_of_reach {good : ServerState → Event → Prop} (enabled : ∀ s e, good s e → Enabled s e)
    (reached : Library.Run.Reach step good Starts s) : Stocked s :=
  reached.invariant (fun _ start => start ▸ stocked_init)
    fun _ _ _ stocked ok moved => (step_path stocked (enabled _ _ ok) moved).stocked stocked

theorem Move.parser_kept {user : JsVal} {parser : FrameParser} (inactive : ¬ active user)
    (has : ∃ mgr, s.userMap user = some mgr ∧ mgr.toFrameParser = parser) (move : Move active talks s t) :
    ∃ mgr, t.userMap user = some mgr ∧ mgr.toFrameParser = parser := by
  obtain ⟨mgr, known, same⟩ := has
  cases move with
  | write | sess | connect | conn | device | proc => exact ⟨mgr, known, same⟩
  | user new =>
    refine setMgr_kept ⟨mgr, known, same⟩ fun here => ?_
    rw [← here, known] at new
    cases new
  | mgr known' _ parser' =>
    refine setMgr_kept ⟨mgr, known, same⟩ fun here => ?_
    subst here
    cases known.symm.trans known'
    rw [parser', same]
  | cam known' | openSeq known' | delSeq known' =>
    refine setMgr_kept ⟨mgr, known, same⟩ fun here => ?_
    subst here
    cases known.symm.trans known'
    exact same
  | parser _ isActive =>
    exact setMgr_kept ⟨mgr, known, same⟩ fun here => (inactive (here ▸ isActive)).elim

/-- The parser of a user that is not active does not move. -/
theorem Path.parser_kept {user : JsVal} {parser : FrameParser} (inactive : ¬ active user)
    (has : ∃ mgr, s.userMap user = some mgr ∧ mgr.toFrameParser = parser) (path : Path active talks s t) :
    ∃ mgr, t.userMap user = some mgr ∧ mgr.toFrameParser = parser := by
  induction path with
  | refl => exact has
  | tail _ move ih => exact move.parser_kept inactive ih

/-- A new user's parser is the one it is constructed with. -/
theorem Move.newcomer {user : JsVal} {mgr : UserMgmr} (new : s.userMap user = none)
    (move : Move active talks s t) (known : t.userMap user = some mgr) :
    mgr.toFrameParser = ⟨none, 0, none, 0⟩ := by
  have replaced : ∀ {user' mgr'}, (s.setMgr user' mgr').userMap user = some mgr →
      user = user' ∧ mgr' = mgr := by
    intro user' mgr' known
    rw [setMgr_userMap] at known
    split at known
    next here => exact ⟨here, Option.some.inj known⟩
    next =>
      rw [new] at known
      cases known
  cases move with
  | write | sess | connect | conn | device | proc =>
    cases new.symm.trans known
  | user _ _ parser =>
    obtain ⟨_, rfl⟩ := replaced known
    exact parser
  | mgr known' | cam known' | openSeq known' | delSeq known' | parser known' =>
    obtain ⟨rfl, _⟩ := replaced known
    cases new.symm.trans known'

theorem setConn_kept {kept : Conn → Prop} {c c' : ConnId} {conn' : Conn}
    (has : ∃ conn, s.conns c = some conn ∧ kept conn) (still : c = c' → kept conn') :
    ∃ conn, (s.setConn c' conn').conns c = some conn ∧ kept conn := by
  rw [setConn_conns]
  by_cases here : c = c'
  · exact ⟨conn', if_pos here, still here⟩
  · rw [if_neg here]
    exact has

theorem Move.device_kept {c : ConnId} {user : JsVal} (isDevice : user ≠ .undefined)
    (has : ∃ conn, s.conns c = some conn ∧ conn.user = user) (move : Move active talks s t) :
    ∃ conn, t.conns c = some conn ∧ conn.user = user := by
  obtain ⟨conn, found, same⟩ := has
  cases move with
  | write | sess | user | mgr | cam | openSeq | delSeq | parser | proc => exact ⟨conn, found, same⟩
  | connect _ new =>
    refine setConn_kept ⟨conn, found, same⟩ fun here => ?_
    rw [← here, found] at new
    cases new
  | conn _ found' user =>
    refine setConn_kept ⟨conn, found, same⟩ fun here => ?_
    subst here
    cases found.symm.trans found'
    rw [user, same]
  | device _ found' isNew =>
    refine setConn_kept ⟨conn, found, same⟩ fun here => ?_
    subst here
    cases found.symm.trans found'
    exact (isDevice (same ▸ isNew)).elim

/-- A device stays a device of its user. -/
theorem Path.device_kept {c : ConnId} {user : JsVal} (isDevice : user ≠ .undefined)
    (has : ∃ conn, s.conns c = some conn ∧ conn.user = user) (path : Path active talks s t) :
    ∃ conn, t.conns c = some conn ∧ conn.user = user := by
  induction path with
  | refl => exact has
  | tail _ move ih => exact move.device_kept isDevice ih

theorem Move.initialised {user : JsVal} (has : ∃ mgr, s.userMap user = some mgr ∧ mgr.tmpBufs.isSome)
    (move : Move active talks s t) : ∃ mgr, t.userMap user = some mgr ∧ mgr.tmpBufs.isSome := by
  obtain ⟨mgr, known, isSome⟩ := has
  cases move with
  | write | sess | connect | conn | device | proc => exact ⟨mgr, known, isSome⟩
  | user new =>
    refine setMgr_kept ⟨mgr, known, isSome⟩ fun here => ?_
    rw [← here, known] at new
    cases new
  | mgr known' _ parser =>
    refine setMgr_kept ⟨mgr, known, isSome⟩ fun here => ?_
    subst here
    cases known.symm.trans known'
    rwa [parser]
  | cam known' | openSeq known' | delSeq known' =>
    refine setMgr_kept ⟨mgr, known, isSome⟩ fun here => ?_
    subst here
    cases known.symm.trans known'
    exact isSome
  | parser known' _ _ initialised =>
    refine setMgr_kept ⟨mgr, known, isSome⟩ fun here => ?_
    subst here
    cases known.symm.trans known'
    exact initialised isSome

/-- Collected bytes stay initialised. -/
theorem Path.initialised {user : JsVal} (has : ∃ mgr, s.userMap user = some mgr ∧ mgr.tmpBufs.isSome)
    (path : Path active talks s t) : ∃ mgr, t.userMap user = some mgr ∧ mgr.tmpBufs.isSome := by
  induction path with
  | refl => exact has
  | tail _ move ih => exact move.initialised ih

/-- Devices have a manager, and the ids of browsers' sessions fit the table. -/
structure Named (s : ServerState) : Prop where
  known : ∀ c conn, s.conns c = some conn → conn.user ≠ .undefined → (s.userMap conn.user).isSome
  short : ∀ c conn x, s.conns c = some conn → conn.seq = some x → x < userMgrMax

theorem Move.named (named : Named s) (move : Move active talks s t) : Named t := by
  have kept : ∀ {user mgr} key, (s.userMap key).isSome → ((s.setMgr user mgr).userMap key).isSome := by
    intro user mgr key some
    rw [setMgr_userMap]
    split
    · rfl
    · exact some
  have spoken : ∀ {c conn'}, (conn'.user ≠ .undefined → (s.userMap conn'.user).isSome) →
      (∀ x, conn'.seq = some x → x < userMgrMax) → Named (s.setConn c conn') := by
    intro c conn' known short
    constructor
    · intro key conn found isDevice
      rw [setConn_conns] at found
      split at found
      · cases found
        exact known isDevice
      · exact named.known key conn found isDevice
    · intro key conn x found opened
      rw [setConn_conns] at found
      split at found
      · cases found
        exact short x opened
      · exact named.short key conn x found opened
  cases move with
  | write | sess | proc => exact ⟨named.known, named.short⟩
  | user | mgr | cam | delSeq | parser =>
    exact ⟨fun c conn found isDevice => kept _ (named.known c conn found isDevice), named.short⟩
  | openSeq =>
    exact ⟨fun c conn found isDevice => kept _ (named.known c conn found isDevice), named.short⟩
  | connect _ _ noUser unopened =>
    exact spoken (fun isDevice => (isDevice noUser).elim) fun x opened => by rw [unopened] at opened; cases opened
  | conn _ found user seq =>
    refine spoken (fun isDevice => user ▸ named.known _ _ found (user ▸ isDevice)) fun x opened => ?_
    exact (seq x opened).elim (named.short _ _ x found) id
  | device _ found _ known seq =>
    exact spoken (fun _ => known) fun x opened => named.short _ _ x found (seq ▸ opened)

theorem Path.named (named : Named s) (path : Path active talks s t) : Named t := by
  induction path with
  | refl => exact named
  | tail _ move ih => exact move.named ih

end

end WebTunnel.Server.Moves
