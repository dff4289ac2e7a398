import WebTunnel.Server.Moves

/-! Who is connected: the connections, the devices that are registered and the viewers of the
cameras, and what each event does to them. -/

namespace WebTunnel.Server.Registers
open Library.Bytes Library.JavaScript Library.Json Library.Program Library.Slots Sessions Wire Server.Types
open Processors Webcam Framing Events Moves

/-- A camera's viewers, and what depends on them. -/
structure Viewing where
  conns : List (Nat × ConnId)
  connCount : Int
  connIndex : Nat
  isOpen : Bool
  doReqListeners : Nat

def viewing (cam : CamManager) : Viewing :=
  ⟨cam.conns, cam.connCount, cam.connIndex, cam.isOpen, cam.doReqListeners⟩

/-- Whether a camera's next snapshot may be requested, and the timeouts that are waited for. -/
def pace (cam : CamManager) : Bool × Nat := (cam.isReady, cam.timers)

/-- Managers with the same devices and the same viewers; cameras may ask for snapshots where
the manager's user is active. -/
structure Same (active : Prop) (mgr mgr' : UserMgmr) : Prop where
  devices : mgr'.connections = mgr.connections
  viewers : ∀ hostUrl, (mgr'.cams.lookup hostUrl).map viewing = (mgr.cams.lookup hostUrl).map viewing
  paced : ¬ active → ∀ hostUrl, (mgr'.cams.lookup hostUrl).map pace = (mgr.cams.lookup hostUrl).map pace

section
variable {active : Prop} {mgr mgr' mgr'' : UserMgmr}

theorem Same.refl : Same active mgr mgr := ⟨rfl, fun _ => rfl, fun _ _ => rfl⟩

theorem Same.trans (first : Same active mgr mgr') (second : Same active mgr' mgr'') : Same active mgr mgr'' :=
  ⟨second.devices.trans first.devices, fun hostUrl => (second.viewers hostUrl).trans (first.viewers hostUrl),
    fun inactive hostUrl => (second.paced inactive hostUrl).trans (first.paced inactive hostUrl)⟩

end

/-- A later state with the same connections, devices and viewers; where nobody is active, with
no new snapshot. -/
structure Standing (active : JsVal → Prop) (s t : ServerState) : Prop where
  conns : t.conns = s.conns
  users : ∀ user, Option.Rel (Same (active user)) (s.userMap user) (t.userMap user)
  snapshots : (∀ user, ¬ active user) → ∀ id p, t.procs id = some (.webcam p) →
    ∃ p', s.procs id = some (.webcam p') ∧ p'.camMgr = p.camMgr
  out : s.out <+: t.out

/-- The user is one of the active ones. -/
class Active (active : JsVal → Prop) (user : JsVal) : Prop where
  isActive : active user

section
variable {active : JsVal → Prop} {s t : ServerState} {user : JsVal} {hostUrl : Text} {mgr mgr' : UserMgmr}

theorem Standing.refl : Standing active s s := by
  refine ⟨rfl, fun user => ?_, fun _ _ p found => ⟨p, found, rfl⟩, List.prefix_refl _⟩
  cases s.userMap user with
  | none => exact .none
  | some mgr => exact .some .refl

theorem Standing.known (standing : Standing active s t) (known : t.userMap user = some mgr') :
    ∃ mgr, s.userMap user = some mgr ∧ Same (active user) mgr mgr' := by
  have related := standing.users user
  rw [known] at related
  cases found : s.userMap user with
  | none => rw [found] at related; cases related
  | some mgr =>
    rw [found] at related
    cases related with
    | some same => exact ⟨mgr, rfl, same⟩

theorem Standing.still (standing : Standing active s t) (known : s.userMap user = some mgr) :
    ∃ mgr', t.userMap user = some mgr' ∧ Same (active user) mgr mgr' := by
  have related := standing.users user
  rw [known] at related
  cases found : t.userMap user with
  | none => rw [found] at related; cases related
  | some mgr' =>
    rw [found] at related
    cases related with
    | some same => exact ⟨mgr', rfl, same⟩

theorem Standing.trans {v : ServerState} (first : Standing active s t) (second : Standing active t v) :
    Standing active s v := by
  refine ⟨second.conns.trans first.conns, fun user => ?_, fun none id p found => ?_, first.out.trans second.out⟩
  · have before := first.users user
    have after := second.users user
    cases has : v.userMap user with
    | none =>
      rw [has] at after
      cases between : t.userMap user with
      | some => rw [between] at after; cases after
      | none => exact between ▸ before
    | some mgr'' =>
      obtain ⟨mgr', between, same'⟩ := second.known has
      obtain ⟨mgr, found, same⟩ := first.known between
      rw [found]
      exact .some (same.trans same')
  · obtain ⟨p', between, same⟩ := second.snapshots none id p found
    obtain ⟨p'', before, same'⟩ := first.snapshots none id p' between
    exact ⟨p'', before, same'.trans same⟩

/-- A manager that stands for the one it was. -/
theorem Standing.setMgr (standing : Standing active s t) (known : s.userMap user = some mgr)
    (same : Same (active user) mgr mgr') : Standing active s (t.setMgr user mgr') := by
  refine ⟨standing.conns, fun key => ?_, standing.snapshots, standing.out⟩
  rw [setMgr_userMap]
  split
  next here =>
    rw [here, known]
    exact .some same
  next => exact standing.users key

theorem Standing.write (standing : Standing active s t) (outputs : List Output) :
    Standing active s (t.write outputs) :=
  ⟨standing.conns, standing.users, standing.snapshots, standing.out.trans (List.prefix_append _ _)⟩

/-! Code that leaves them as they are. -/

/-- The user's manager in the first state has the same devices and viewers. -/
class OfUser (active : JsVal → Prop) (s : ServerState) (user : JsVal) (mgr : UserMgmr) : Prop where
  same : ∃ mgr₀, s.userMap user = some mgr₀ ∧ Same (active user) mgr₀ mgr

/-- The camera in the first state has the same viewers. -/
class OfCam (active : JsVal → Prop) (s : ServerState) (user : JsVal) (hostUrl : Text) (cam : CamManager) : Prop where
  same : ∃ mgr₀ cam₀, s.userMap user = some mgr₀ ∧ mgr₀.cams.lookup hostUrl = some cam₀ ∧
    viewing cam = viewing cam₀ ∧ (¬ active user → pace cam = pace cam₀)

section
variable {α β : Type} {kept : JsVal → UserMgmr → Prop}

instance keeps_liftJs {P : ServerState → Prop} (result : Except JsError α) : Keeps P (liftJs result) := by
  refine ⟨fun s holds => ?_⟩
  rw [wp_liftJs]
  exact ⟨fun _ _ => holds, fun _ _ => trivial⟩

instance keeps_defined {P : ServerState → Prop} (value : Option α) : Keeps P (defined value) := by
  refine ⟨fun s holds => ?_⟩
  rw [wp_defined]
  exact ⟨fun _ _ => holds, fun _ => trivial⟩

instance (outputs : List Output) : Keeps (Standing active s) (emitAll outputs) :=
  ⟨fun _ standing => standing.write outputs⟩

instance (output : Output) : Keeps (Standing active s) (emit output) :=
  inferInstanceAs (Keeps (Standing active s) (emitAll [output]))

instance (target : Found) (bytes : List Byte) : Keeps (Standing active s) (sendBytes target bytes) := by
  cases target <;> unfold sendBytes <;> infer_instance

theorem keeps_setProc {id : ProcId} {proc : Processor}
    (plain : (∀ user, ¬ active user) → ∀ p, proc ≠ .webcam p) : Keeps (Standing active s) (setProc id proc) := by
  refine ⟨fun t standing => ⟨standing.conns, standing.users, fun none key p found => ?_, standing.out⟩⟩
  rw [setProc_procs] at found
  split at found
  · exact absurd (Option.some_inj.mp found) (plain none p)
  · exact standing.snapshots none key p found

instance (id : ProcId) (p : HttpProcessor) : Keeps (Standing active s) (setProc id (.http p)) :=
  keeps_setProc fun _ _ => nofun

instance (id : ProcId) (p : ForwardProcessor) : Keeps (Standing active s) (setProc id (.forward p)) :=
  keeps_setProc fun _ _ => nofun

theorem keeps_setProc_webcam [acts : Active active user] (id : ProcId) (p : WebcamProcessor) :
    Keeps (Standing active s) (setProc id (.webcam p)) :=
  keeps_setProc fun none => absurd acts.isActive (none user)

instance (sid : SessId) (sess : Sess) : Keeps (Standing active s) (setSess sid sess) :=
  ⟨fun _ standing => ⟨standing.conns, standing.users, standing.snapshots, standing.out⟩⟩

/-- Whatever follows the reading of a manager has its devices and viewers. -/
theorem keeps_getMgr {next : UserMgmr → Js α}
    (second : ∀ mgr : {mgr // OfUser active s user mgr}, Keeps (Standing active s) (next mgr)) :
    Keeps (Standing active s) (getMgr user >>= next) := by
  refine ⟨fun t standing => ?_⟩
  rw [wp_bind, wp_getMgr]
  exact ⟨fun mgr known => (second ⟨mgr, ⟨standing.known known⟩⟩).kept t standing, fun _ => trivial⟩

instance (priority := high) keeps_getMgr_then {next : UserMgmr → Js α}
    [second : ∀ mgr : {mgr // OfUser active s user mgr}, Keeps (Standing active s) (next mgr)] :
    Keeps (Standing active s) (getMgr user >>= next) := keeps_getMgr second

instance keeps_setMgr [own : OfUser active s user mgr] : Keeps (Standing active s) (setMgr user mgr) := by
  obtain ⟨mgr₀, known, same⟩ := own.same
  exact ⟨fun t standing => standing.setMgr known same⟩

instance (mgr : {mgr // OfUser active s user mgr}) : OfUser active s user mgr.val := mgr.property

instance [own : OfUser active s user mgr] (table : SessionTable ProcRef) : OfUser active s user (mgr.setTable table) := by
  obtain ⟨mgr₀, known, same⟩ := own.same
  exact ⟨mgr₀, known, same.trans ⟨rfl, fun _ => rfl, fun _ _ => rfl⟩⟩

instance [own : OfUser active s user mgr] (parser : FrameParser) : OfUser active s user (mgr.setParser parser) := by
  obtain ⟨mgr₀, known, same⟩ := own.same
  exact ⟨mgr₀, known, same.trans ⟨rfl, fun _ => rfl, fun _ _ => rfl⟩⟩

theorem keeps_getCam {next : CamManager → Js α}
    (second : ∀ cam : {cam // OfCam active s user hostUrl cam}, Keeps (Standing active s) (next cam)) :
    Keeps (Standing active s) (getCam user hostUrl >>= next) := by
  refine ⟨fun t standing => ?_⟩
  rw [wp_bind, getCam, wp_bind, wp_getMgr]
  refine ⟨fun mgr known => ?_, fun _ => trivial⟩
  rw [wp_defined]
  refine ⟨fun cam found => ?_, fun _ => trivial⟩
  obtain ⟨mgr₀, known₀, same⟩ := standing.known known
  have viewers := same.viewers hostUrl
  rw [found] at viewers
  obtain ⟨cam₀, found₀, views⟩ := Option.map_eq_some_iff.mp viewers.symm
  have paced : ¬ active user → pace cam = pace cam₀ := by
    intro inactive
    have same := same.paced inactive hostUrl
    rw [found, found₀] at same
    exact Option.some_inj.mp same
  exact (second ⟨cam, ⟨mgr₀, cam₀, known₀, found₀, views.symm, paced⟩⟩).kept t standing

instance (priority := high) keeps_getCam_then {next : CamManager → Js α}
    [second : ∀ cam : {cam // OfCam active s user hostUrl cam}, Keeps (Standing active s) (next cam)] :
    Keeps (Standing active s) (getCam user hostUrl >>= next) := keeps_getCam second

instance keeps_setCam {cam : CamManager} [own : OfCam active s user hostUrl cam] :
    Keeps (Standing active s) (setCam user hostUrl cam) := by
  refine ⟨fun t standing => ?_⟩
  rw [setCam, wp_bind, wp_getMgr]
  refine ⟨fun mgr known => ?_, fun _ => trivial⟩
  rw [wp_setMgr]
  obtain ⟨mgr₀, known₀, same⟩ := standing.known known
  obtain ⟨mgr₁, cam₀, known₁, found₀, views, paced⟩ := own.same
  cases known₀.symm.trans known₁
  refine standing.setMgr known₀ ⟨same.devices, fun key => ?_, fun inactive key => ?_⟩
  · rw [lookup_set]
    split
    next here => rw [here, found₀, Option.map_some, Option.map_some, views]
    next => exact same.viewers key
  · rw [lookup_set]
    split
    next here => rw [here, found₀, Option.map_some, Option.map_some, paced inactive]
    next => exact same.paced inactive key

instance (cam : {cam // OfCam active s user hostUrl cam}) : OfCam active s user hostUrl cam.val := cam.property

instance (cam : {cam // OfCam active s user hostUrl cam}) (url host headerStr : Text) (port totalLen : Option Int)
    (headerOk : Bool) (currLen : Nat) (currSeq : Option Nat) (bufs : List (List Byte)) :
    OfCam active s user hostUrl ⟨url, host, port, cam.val.isOpen, cam.val.isReady, cam.val.doReqListeners,
      cam.val.timers, cam.val.conns, cam.val.connCount, cam.val.connIndex, headerOk, headerStr, currSeq, totalLen,
      currLen, bufs⟩ :=
  ⟨cam.property.same⟩

/-- An active user's camera may ask for snapshots. -/
instance [acts : Active active user] (cam : {cam // OfCam active s user hostUrl cam}) (url host headerStr : Text)
    (port totalLen : Option Int) (isReady headerOk : Bool) (timers currLen : Nat) (currSeq : Option Nat)
    (bufs : List (List Byte)) :
    OfCam active s user hostUrl ⟨url, host, port, cam.val.isOpen, isReady, cam.val.doReqListeners, timers,
      cam.val.conns, cam.val.connCount, cam.val.connIndex, headerOk, headerStr, currSeq, totalLen, currLen, bufs⟩ := by
  obtain ⟨mgr₀, cam₀, known, found, views, _⟩ := cam.property.same
  exact ⟨mgr₀, cam₀, known, found, views, fun inactive => absurd acts.isActive inactive⟩

end

section
variable {c : ConnId} {buffer : List Byte} {id : ProcId}

theorem keeps_mgrNewSeq {construct : Nat → Processor}
    (plain : (∀ user, ¬ active user) → ∀ seq p, construct seq ≠ .webcam p) :
    Keeps (Standing active s) (mgrNewSeq user construct) := by
  refine ⟨fun t standing => ?_⟩
  rw [wp_mgrNewSeq]
  refine ⟨fun mgr known => ⟨fun _ => standing, fun _ => ?_⟩, fun _ => trivial⟩
  obtain ⟨mgr₀, known₀, same⟩ := standing.known known
  have keeps : Keeps (Standing active s) (setProc t.nextProc (construct (cursor mgr.toSessionTable))) :=
    keeps_setProc fun none p => plain none (cursor mgr.toSessionTable) p
  have created := keeps.kept t standing
  exact Standing.setMgr ⟨created.conns, created.users, created.snapshots, created.out⟩ known₀
    (same.trans ⟨rfl, fun _ => rfl, fun _ _ => rfl⟩)

instance (p : Nat → HttpProcessor) : Keeps (Standing active s) (mgrNewSeq user fun seq => .http (p seq)) :=
  keeps_mgrNewSeq fun _ _ => nofun

instance (p : Nat → ForwardProcessor) : Keeps (Standing active s) (mgrNewSeq user fun seq => .forward (p seq)) :=
  keeps_mgrNewSeq fun _ _ => nofun

instance [acts : Active active user] (p : Nat → WebcamProcessor) :
    Keeps (Standing active s) (mgrNewSeq user fun seq => .webcam (p seq)) :=
  keeps_mgrNewSeq fun none => absurd acts.isActive (none user)

instance keeps_mgrDelSeq (seq : Option Nat) : Keeps (Standing active s) (mgrDelSeq user seq) := by
  cases seq <;> unfold mgrDelSeq <;> infer_instance

instance : Keeps (Standing active s) (resetParser user) := by
  unfold resetParser
  infer_instance

instance (p : HttpProcessor) : Keeps (Standing active s) (HttpProcessor.processBuffer user id p buffer) := by
  unfold HttpProcessor.processBuffer
  infer_instance

instance (ref : Option ProcRef) : Keeps (Standing active s) (getForwardConn ref) := by
  unfold getForwardConn
  refine keeps_next fun ref => keeps_next fun t => ?_
  split <;> infer_instance

instance (p : ForwardProcessor) : Keeps (Standing active s) (ForwardProcessor.processBuffer user id p buffer) := by
  unfold ForwardProcessor.processBuffer
  infer_instance

instance (p : WebcamProcessor) : Keeps (Standing active s) (WebcamProcessor.doConn user p) := by
  unfold WebcamProcessor.doConn
  refine keeps_getCam fun cam => keeps_getMgr fun mgr => ?_
  split <;> infer_instance

section
variable [acts : Active active user]

instance : Keeps (Standing active s) (CamManager.doConn user hostUrl) := by
  unfold CamManager.doConn
  infer_instance

instance : Keeps (Standing active s) (CamManager.onDoReq user hostUrl) := by
  unfold CamManager.onDoReq
  infer_instance

instance (listeners : Nat) : Keeps (Standing active s) (repeatDoReq user hostUrl listeners) := by
  induction listeners with
  | zero => exact keeps_pure ()
  | succ listeners ih => exact keeps_bind

instance : Keeps (Standing active s) (CamManager.emitDoReq user hostUrl) := by
  unfold CamManager.emitDoReq
  infer_instance

instance : Keeps (Standing active s) (CamManager.readyForNew user hostUrl) := by
  unfold CamManager.readyForNew
  infer_instance

instance (seq : Option Nat) : Keeps (Standing active s) (CamManager.innerProcessBuffer user hostUrl buffer seq) := by
  unfold CamManager.innerProcessBuffer
  infer_instance

theorem scanHeader_views (cam : CamManager) (buffer : List Byte) :
    viewing (CamManager.scanHeader cam buffer).1 = viewing cam ∧ pace (CamManager.scanHeader cam buffer).1 = pace cam := by
  unfold CamManager.scanHeader
  dsimp only
  split
  · exact ⟨rfl, rfl⟩
  · split
    · split <;> exact ⟨rfl, rfl⟩
    · exact ⟨rfl, rfl⟩

instance : Keeps (Standing active s) (CamManager.processHeader user hostUrl buffer) := by
  unfold CamManager.processHeader
  refine keeps_getCam fun cam => ?_
  have views := scanHeader_views cam.val buffer
  generalize CamManager.scanHeader cam.val buffer = scanned at views ⊢
  obtain ⟨cam', rest⟩ := scanned
  have own : OfCam active s user hostUrl cam' := by
    obtain ⟨mgr₀, cam₀, known, found, views₀, paced₀⟩ := cam.property.same
    exact ⟨mgr₀, cam₀, known, found, views.1.trans views₀, fun inactive => views.2.trans (paced₀ inactive)⟩
  refine keeps_next fun _ => ?_
  split <;> infer_instance

instance (seq : Nat) : Keeps (Standing active s) (CamManager.processBuffer user hostUrl buffer seq) := by
  unfold CamManager.processBuffer
  infer_instance

instance (p : WebcamProcessor) : Keeps (Standing active s) (WebcamProcessor.processBuffer user id p buffer) := by
  unfold WebcamProcessor.processBuffer
  have sets (p : WebcamProcessor) : Keeps (Standing active s) (setProc id (.webcam p)) :=
    @keeps_setProc_webcam active s user acts id p
  dsimp only
  infer_instance

instance : Keeps (Standing active s) (Framing.processBuffer user id buffer) := by
  unfold Framing.processBuffer
  refine keeps_next fun t => ?_
  split <;> infer_instance

instance : Keeps (Standing active s) (httpNormalParse user buffer) := by
  unfold httpNormalParse
  refine keeps_getMgr fun mgr => ?_
  split <;> infer_instance

end

instance (header : ProtoHeader) : Keeps (Standing active s) (parseTunnelReq c buffer header) := by
  unfold parseTunnelReq
  infer_instance

section
variable [acts : Active active user]

instance : Keeps (Standing active s) (parseFirstMessage user c buffer) := by
  unfold parseFirstMessage
  infer_instance

instance : Keeps (Standing active s) (parseNormalMessage user c buffer) := by
  unfold parseNormalMessage
  refine keeps_getMgr fun mgr => ?_
  split <;> infer_instance

end

instance (conn : Conn) (seq : Nat) : Keeps (Standing active s) (closeForward user conn seq) := by
  unfold closeForward
  refine keeps_getMgr fun mgr => ?_
  split <;> infer_instance

instance (sid : SessId) (username : Text) : Keeps (Standing active s) (login sid username) := by
  unfold login
  infer_instance

instance (sid : SessId) : Keeps (Standing active s) (logout sid) := by
  unfold logout
  infer_instance

instance (target : Found) (bufs : Except JsError (List (List Byte))) : Keeps (Standing active s) (sendAll target id bufs) := by
  cases bufs with
  | error => exact inferInstanceAs (Keeps (Standing active s) (emit _))
  | ok =>
    cases target with
    | conn => exact inferInstanceAs (Keeps (Standing active s) (emitAll _))
    | builtin => exact inferInstanceAs (Keeps (Standing active s) (emit _))

instance (sid : SessId) (bufs : List (List Byte)) : Keeps (Standing active s) (sendRequest sid bufs) := by
  unfold sendRequest
  refine keeps_next fun t => ?_
  split
  · infer_instance
  · split
    · infer_instance
    · split
      · infer_instance
      · refine keeps_next fun processor => ?_
        cases processor <;> infer_instance

instance [acts : Active active user] : Keeps (Standing active s) (onTimeout user hostUrl) := by
  unfold onTimeout
  infer_instance

end

end

/-! What the events do. -/

/-- The user a handshake names. -/
def handshakeUser (buffer : List Byte) : Except JsError JsVal := do
  let o ← parse (decodeUtf8 (buffer.drop protocolHeaderLen))
  property o "username".toList

/-- The manager with one of its cameras set. -/
def withCam (mgr : UserMgmr) (hostUrl : Text) (cam : CamManager) : UserMgmr :=
  { mgr with cams := (hostUrl, cam) :: mgr.cams.filter (·.1 ≠ hostUrl) }

/-- The camera once a viewer joined it. -/
def joined (cam : CamManager) (c : ConnId) : CamManager :=
  { cam with
    conns := cam.conns ++ [(cam.connIndex, c)]
    connCount := cam.connCount + 1
    connIndex := cam.connIndex + 1
    isOpen := true
    doReqListeners := if cam.isOpen then cam.doReqListeners else cam.doReqListeners + 1 }

/-- A connection that is still who it was. -/
structure Speaks (conn conn' : Conn) : Prop where
  user : conn'.user = conn.user
  isOpen : conn'.isOpen = conn.isOpen
  sessUsername : conn'.sessUsername = conn.sessUsername
  hostUrl : conn'.hostUrl = conn.hostUrl
  camSeq : conn'.camSeq = conn.camSeq

def Registered (s : ServerState) (user : JsVal) (name : Text) (c : ConnId) : Prop :=
  ∃ mgr, s.userMap user = some mgr ∧ mgr.connections.lookup name = some c

/-- What an event does to the connections, the devices and the viewers. -/
inductive Turn (active : JsVal → Prop) (s : ServerState) : Event → ServerState → Prop where
  | same {e : Event} {t : ServerState} (noClose : ∀ c, e ≠ .close c) (standing : Standing active s t) : Turn active s e t
  | connect {c : ConnId} {url : Text} {sid : Option SessId} {conn : Conn} {t : ServerState}
      (user : conn.user = .undefined) (isOpen : conn.isOpen = true) (hostUrl : conn.hostUrl = none)
      (camSeq : conn.camSeq = none) (standing : Standing active (s.setConn c conn) t) : Turn active s (.connect c url sid) t
  | speaks {e : Event} {c : ConnId} {conn : Conn} {t : ServerState} (conn' : Conn) (noClose : ∀ c, e ≠ .close c)
      (found : s.conns c = some conn) (speaks : Speaks conn conn')
      (named : conn'.devicename = conn.devicename ∨
        conn.devicename = none ∧ ∃ username name, Registered s (.str username) name c)
      (standing : Standing active (s.setConn c conn') t) : Turn active s e t
  | handshake {c : ConnId} {buffer : List Byte} {random : Fin 100000} {conn : Conn} {username : JsVal}
      {t : ServerState} (conn' : Conn) (found : s.conns c = some conn) (isNew : conn.user = .undefined)
      (names : handshakeUser buffer = .ok username) (user : conn'.user = username) (isOpen : conn'.isOpen = conn.isOpen)
      (sessUsername : conn'.sessUsername = conn.sessUsername) (hostUrl : conn'.hostUrl = conn.hostUrl)
      (camSeq : conn'.camSeq = conn.camSeq) (named : conn'.devicename = some (decimal (random + 1)))
      (standing : Standing active ((s.setConn c conn').setMgr username
        (((s.userMap username).getD (UserMgmr.new username)).addConnByName c (decimal (random + 1)))) t) :
      Turn active s (.binary c buffer random) t
  | joins {c : ConnId} {hostUrl : Text} {conn : Conn} {username : Text} {mgr : UserMgmr} {t : ServerState}
      (found : s.conns c = some conn) (isCam : conn.url = wscam) (session : conn.sessUsername = some username)
      (known : s.userMap (.str username) = some mgr) (current : mgr.getCurrConn.isSome = true)
      (wellFormed : (split hostUrl ":".toList).length = 2)
      (standing : Standing active ((s.setMgr (.str username) (withCam mgr hostUrl
        (joined ((mgr.cams.lookup hostUrl).getD (CamManager.new hostUrl)) c))).setConn c
          { conn with camSeq := none, hostUrl := some hostUrl }) t) : Turn active s (.utf8 c hostUrl) t
  | closes {c : ConnId} {conn : Conn} {t : ServerState} (found : s.conns c = some conn)
      (noDevice : conn.user ≠ .undefined → s.userMap conn.user = none ∨ conn.devicename = none)
      (standing : Standing active (closedState s c conn) t) : Turn active s (.close c) t
  | closesDevice {c : ConnId} {conn : Conn} {mgr : UserMgmr} {name : Text} {t : ServerState}
      (found : s.conns c = some conn) (isDevice : conn.user ≠ .undefined) (known : s.userMap conn.user = some mgr)
      (named : conn.devicename = some name)
      (standing : Standing active ((closedState s c conn).setMgr conn.user (mgr.delConnByName name)) t) : Turn active s (.close c) t
  | closesViewer {c : ConnId} {conn : Conn} {ind : Nat} {t : ServerState} (found : s.conns c = some conn)
      (index : conn.camSeq = some ind) : Turn active s (.close c) t

section
variable {active : JsVal → Prop} {s t : ServerState} {user : JsVal} {hostUrl : Text} {mgr mgr' : UserMgmr}
  {cam : CamManager} {c : ConnId} {conn : Conn}

theorem Standing.setConn (standing : Standing active s t) (c : ConnId) (conn : Conn) :
    Standing active (s.setConn c conn) (t.setConn c conn) := by
  refine ⟨?_, standing.users, standing.snapshots, standing.out⟩
  simp only [ServerState.setConn, standing.conns]

theorem Standing.of_same (same : Same (active user) mgr mgr') :
    Standing active (s.setMgr user mgr) (s.setMgr user mgr') := by
  refine ⟨rfl, fun key => ?_, Standing.refl.snapshots, List.prefix_refl _⟩
  rw [setMgr_userMap, setMgr_userMap]
  split
  next here => exact .some (here ▸ same)
  next => exact Standing.refl.users key

theorem Same.withCam {acts : Prop} {cam' : CamManager} (same : Same acts mgr mgr') (views : viewing cam' = viewing cam)
    (paced : ¬ acts → pace cam' = pace cam) :
    Same acts (withCam mgr hostUrl cam) (withCam mgr' hostUrl cam') := by
  refine ⟨same.devices, fun key => ?_, fun inactive key => ?_⟩
  · simp only [Registers.withCam]
    rw [lookup_set, lookup_set]
    split
    · rw [Option.map_some, Option.map_some, views]
    · exact same.viewers key
  · simp only [Registers.withCam]
    rw [lookup_set, lookup_set]
    split
    · rw [Option.map_some, Option.map_some, paced inactive]
    · exact same.paced inactive key

/-- A camera that is set twice has what it was set to last. -/
theorem Same.withCam_twice {acts : Prop} {cam' : CamManager} : Same acts (Registers.withCam mgr hostUrl cam)
    (Registers.withCam (Registers.withCam mgr hostUrl cam') hostUrl cam) := by
  have lookups : ∀ key, (Registers.withCam (Registers.withCam mgr hostUrl cam') hostUrl cam).cams.lookup key =
      (Registers.withCam mgr hostUrl cam).cams.lookup key := by
    intro key
    simp only [Registers.withCam, lookup_set]
    split <;> rfl
  exact ⟨rfl, fun key => congrArg _ (lookups key), fun _ key => congrArg _ (lookups key)⟩

section
variable {post : CamManager → ServerState → Prop} {done : Unit → ServerState → Prop} {err : JsError → Prop}

theorem wp_getCam_of_found (known : s.userMap user = some mgr) (found : mgr.cams.lookup hostUrl = some cam) :
    Wp (getCam user hostUrl) post err s ↔ post cam s := by
  rw [getCam, wp_bind, wp_getMgr_of_known known, wp_defined, found]
  exact ⟨fun all => all.1 cam rfl, fun holds => ⟨fun _ same => by cases same; exact holds, by simp⟩⟩

theorem wp_setCam_of_known (known : s.userMap user = some mgr) :
    Wp (setCam user hostUrl cam) done err s ↔ done () (s.setMgr user (withCam mgr hostUrl cam)) := by
  rw [setCam, wp_bind, wp_getMgr_of_known known, wp_setMgr]
  rfl

end

theorem lookup_withCam : (withCam mgr hostUrl cam).cams.lookup hostUrl = some cam := by
  rw [withCam, lookup_set, if_pos rfl]

theorem wp_openConn (acts : active user) (known : s.userMap user = some mgr) (found : mgr.cams.lookup hostUrl = some cam) :
    Wp (CamManager.openConn user hostUrl) (fun _ t => Standing active (if cam.isOpen then s else s.setMgr user
      (withCam mgr hostUrl { cam with isOpen := true, doReqListeners := cam.doReqListeners + 1 })) t) (fun _ => True) s := by
  have acts : Active active user := ⟨acts⟩
  rw [CamManager.openConn, wp_bind, wp_getCam_of_found known found, wp_ite]
  cases isOpen : cam.isOpen with
  | true => exact .refl
  | false =>
    rw [if_pos (by simp), wp_bind, wp_setCam_of_known known, if_neg (by simp)]
    exact Keeps.kept _ .refl

theorem wp_addConn (acts : active user) (known : s.userMap user = some mgr) (found : mgr.cams.lookup hostUrl = some cam) :
    Wp (CamManager.addConn user hostUrl c)
      (fun camSeq t => camSeq = none ∧ Standing active (s.setMgr user (withCam mgr hostUrl (joined cam c))) t) (fun _ => True) s := by
  rw [CamManager.addConn, wp_bind, wp_getCam_of_found known found, wp_bind, wp_setCam_of_known known, wp_ite]
  cases isOpen : cam.isOpen with
  | true =>
    rw [if_neg (by simp), wp_pure]
    refine ⟨rfl, .of_same (Same.withCam .refl ?_ fun _ => rfl)⟩
    simp [joined, viewing, isOpen]
  | false =>
    rw [if_pos (by simp), wp_bind]
    refine wp_post (wp_openConn acts (setMgr_userMap_self _ _ _) lookup_withCam) fun _ t standing => ?_
    rw [if_neg (by simp), setMgr_setMgr] at standing
    refine ⟨rfl, .trans (.of_same (Same.trans ?_ .withCam_twice)) standing⟩
    refine Same.withCam .refl ?_ fun _ => rfl
    simp [joined, viewing, isOpen]

theorem wp_getCamByName (known : s.userMap user = some mgr) :
    Wp (getCamByName user hostUrl) (fun _ t => ∃ mgr', t = s.setMgr user mgr' ∧ (∀ acts, Same acts (withCam mgr hostUrl
      ((mgr.cams.lookup hostUrl).getD (CamManager.new hostUrl))) mgr') ∧
      mgr'.cams.lookup hostUrl = some ((mgr.cams.lookup hostUrl).getD (CamManager.new hostUrl))) (fun _ => True) s := by
  rw [getCamByName, wp_bind, wp_getMgr_of_known known]
  cases found : mgr.cams.lookup hostUrl with
  | some cam =>
    refine ⟨mgr, (setMgr_self _ _ _ known).symm, ?_, found⟩
    have lookups : ∀ key, mgr.cams.lookup key = (withCam mgr hostUrl cam).cams.lookup key := by
      intro key
      rw [withCam, lookup_set]
      split
      next here => rw [here, found]
      next => rfl
    exact fun _ => ⟨rfl, fun key => congrArg _ (lookups key), fun _ key => congrArg _ (lookups key)⟩
  | none =>
    rw [wp_setCam_of_known known]
    exact ⟨_, rfl, fun _ => .refl, lookup_withCam⟩

theorem step_joins {text username : Text} (acts : active (.str username)) (found : s.conns c = some conn) (isCam : conn.url = wscam)
    (session : conn.sessUsername = some username) (known : s.userMap (.str username) = some mgr)
    (current : mgr.getCurrConn.isSome = true) (wellFormed : (split text ":".toList).length = 2) :
    Wp (do
      getCamByName (.str username) text
      let camSeq ← CamManager.addConn (.str username) text c
      setConn c { conn with camSeq := camSeq, hostUrl := some text }
      CamManager.openConn (.str username) text) (fun _ t => Turn active s (.utf8 c text) t) (fun _ => True) s := by
  rw [wp_bind]
  refine wp_post (wp_getCamByName known) ?_
  rintro _ _ ⟨mgr', rfl, same, created⟩
  rw [wp_bind]
  refine wp_post (wp_addConn acts (setMgr_userMap_self _ _ _) created) ?_
  rintro _ t ⟨rfl, standing⟩
  rw [setMgr_setMgr] at standing
  rw [wp_bind, wp_setConn]
  obtain ⟨mgr₁, known₁, same₁⟩ := standing.still (setMgr_userMap_self _ _ _)
  have views := same₁.viewers text
  rw [lookup_withCam] at views
  obtain ⟨cam, joins, views⟩ := Option.map_eq_some_iff.mp views
  have isOpen : cam.isOpen = true := congrArg Viewing.isOpen views
  refine wp_post (wp_openConn acts known₁ joins) fun _ v standing₁ => ?_
  rw [if_pos isOpen] at standing₁
  refine .joins found isCam session known current wellFormed (.trans (.setConn ?_ c _) standing₁)
  exact .trans (.of_same (Same.withCam_twice.trans ((same _).withCam rfl fun _ => rfl))) standing

theorem step_webcamProcess {text : Text} (found : s.conns c = some conn) (isCam : conn.url = wscam)
    (acts : ∀ username, conn.sessUsername = some username → active (.str username)) :
    Wp (webcamProcess c text) (fun _ t => Turn active s (.utf8 c text) t) (fun _ => True) s := by
  rw [webcamProcess, wp_bind, wp_getConn_of_found found]
  have closing : Wp (emit (.connClose c)) (fun _ t => Turn active s (.utf8 c text) t) (fun _ => True) s := by
    rw [wp_emit]
    exact .same (by simp) (.write .refl _)
  split
  next username _ session _ =>
    rw [wp_bind, wp_get]
    split
    next => exact closing
    next mgr known =>
      split
      next current _ =>
        rw [wp_ite]
        split
        next => exact closing
        next wellFormed =>
          exact step_joins (acts username session) found isCam session known (by rw [current]; rfl) (not_not.mp wellFormed)
      next => exact .same (by simp) .refl
  next => exact closing

theorem step_textProcess {text : Text} (found : s.conns c = some conn) :
    Wp (textProcess c text) (fun _ t => Turn active s (.utf8 c text) t) (fun _ => True) s := by
  have same : Wp (pure false : Js Bool) (fun _ t => Turn active s (.utf8 c text) t) (fun _ => True) s := .same (by simp) .refl
  rw [textProcess, wp_bind, wp_getConn_of_found found]
  have kept {code : Js Bool} (keeps : Keeps (Standing active s) code) :
      Wp code (fun _ t => Turn active s (.utf8 c text) t) (fun _ => True) s :=
    wp_post (keeps.kept s .refl) fun _ _ standing => .same (by simp) standing
  split
  next username _ session _ =>
    rw [wp_bind, wp_get]
    split
    next => exact kept inferInstance
    next mgr known =>
      split
      next =>
        rw [wp_ite]
        split
        next => exact same
        next =>
          refine wp_kept_then (Standing.refl : Standing active s s) fun processor t standing => ?_
          rw [wp_bind, wp_defined]
          refine ⟨fun processor _ => ?_, fun _ => trivial⟩
          rw [wp_bind, wp_setConn, wp_bind, wp_emit, wp_pure]
          exact .speaks { conn with seq := some processor.seq } (by simp) found ⟨rfl, rfl, rfl, rfl, rfl⟩ (.inl rfl)
            ((standing.setConn c _).write _)
      next =>
        refine kept (keeps_next fun obj => keeps_next fun objSeq => keeps_next fun same => ?_)
        split
        · exact keeps_pure _
        · split <;> infer_instance
  next => exact kept inferInstance

/-- A handshake throws, or it is answered, and its connection is that of the user it names. -/
theorem wp_parseHandshake {buffer : List Byte} {random : Nat} {post : Unit → ServerState → Prop}
    (enters : ∀ username host port reply, handshakeUser buffer = .ok username →
      Wp (setMgr username (((s.userMap username).getD (UserMgmr.new username)).addConnByName c (decimal (random + 1)))) post
        (fun _ => True) ((s.write [.sendBytes c reply]).setConn c
          { conn with user := username, host, port, devicename := some (decimal (random + 1)) })) :
    Wp (parseHandshake c conn buffer random) post (fun _ => True) s := by
  rw [parseHandshake, wp_bind, wp_liftJs]
  refine ⟨fun header _ => ?_, fun _ _ => trivial⟩
  rw [wp_ite]
  split
  next => trivial
  next =>
    rw [wp_bind, wp_liftJs]
    refine ⟨fun o parsed => ?_, fun _ _ => trivial⟩
    rw [wp_bind, wp_liftJs]
    refine ⟨fun username named => ?_, fun _ _ => trivial⟩
    have names : handshakeUser buffer = .ok username := by
      rw [handshakeUser, parsed]
      exact named
    simp only [wp_bind, wp_liftJs, implies_true, and_true, wp_emit, wp_get, wp_setConn]
    intro host _ port _ _ _ _ _ _ _ reply _
    exact enters username host port reply names

theorem step_handshake {buffer : List Byte} {random : Fin 100000} (found : s.conns c = some conn)
    (isNew : conn.user = .undefined) :
    Wp (parseHandshake c conn buffer random) (fun _ t => Turn active s (.binary c buffer random) t) (fun _ => True) s := by
  refine wp_parseHandshake fun username host port reply names => ?_
  rw [wp_setMgr]
  exact .handshake { conn with user := username, host, port, devicename := some (decimal (random + 1)) } found isNew
    names rfl rfl rfl rfl rfl rfl ⟨rfl, Standing.refl.users, Standing.refl.snapshots, List.prefix_append _ _⟩

theorem step_onClose (s : ServerState) (c : ConnId) :
    Wp (onClose c) (fun _ t => Turn active s (.close c) t) (fun _ => True) s := by
  rw [onClose, wp_bind, wp_getConn]
  refine ⟨fun conn found => ?_, fun _ => trivial⟩
  rw [wp_bind, wp_setConn, wp_bind, wp_get]
  split
  next ind index =>
    exact wp_iff.mpr ⟨fun _ _ _ => .closesViewer found index, fun _ _ => trivial⟩
  next =>
    rw [wp_ite]
    split
    next isDevice =>
      split
      next mgr name known named => exact .closesDevice found isDevice known named .refl
      next missing =>
        refine .closes found (fun _ => ?_) .refl
        by_contra both
        obtain ⟨known, named⟩ := not_or.mp both
        obtain ⟨mgr, known⟩ := Option.ne_none_iff_exists'.mp known
        obtain ⟨name, named⟩ := Option.ne_none_iff_exists'.mp named
        exact missing mgr name known named
    next isBrowser =>
      have closes {code : Js Unit} (keeps : Keeps (Standing active (closedState s c conn)) code) :
          Wp code (fun _ t => Turn active s (.close c) t) (fun _ => True) (closedState s c conn) :=
        wp_post (keeps.kept _ .refl) fun _ _ standing => .closes found (fun isDevice => absurd isDevice isBrowser) standing
      split
      next => exact closes inferInstance
      next => split <;> exact closes inferInstance

theorem step_prepareDevice (sid : SessId) (device : Text) :
    Wp (prepareDevice sid device) (fun _ t => Turn active s (.prepareDevice sid device) t) (fun _ => True) s := by
  rw [prepareDevice, wp_bind, wp_get]
  split
  next => exact .same (by simp) .refl
  next username _ =>
    split
    next => exact .same (by simp) .refl
    next mgr known =>
      rw [wp_ite]
      split
      next => exact .same (by simp) .refl
      next =>
        have selects : ∀ t, t.userMap (.str username) = some mgr →
            Wp (do
              setMgr (.str username) (mgr.setCurr device)
              setSess sid { s.sess sid with devicename := some device }) (fun _ u => Standing active t u) (fun _ => True) t := by
          intro t known
          rw [wp_bind, wp_setMgr]
          exact Keeps.kept _ (Standing.refl.setMgr known ⟨rfl, fun _ => rfl, fun _ _ => rfl⟩)
        split
        next => exact .same (by simp) .refl
        next found registered =>
          split
          next =>
            rw [wp_ite]
            split
            next => trivial
            next => exact wp_post (selects s known) fun _ _ standing => .same (by simp) standing
          next c =>
            rw [wp_bind, wp_getConn]
            refine ⟨fun conn exists_ => ?_, fun _ => trivial⟩
            have registered : Registered s (.str username) device c := by
              refine ⟨mgr, known, ?_⟩
              unfold UserMgmr.getConnByName at registered
              split at registered
              next listed =>
                cases registered
                exact listed
              next => split at registered <;> cases registered
            rw [wp_ite]
            split
            next unnamed =>
              rw [wp_bind, wp_setConn]
              refine wp_post (selects (s.setConn c { conn with devicename := some device }) known) fun _ _ standing => ?_
              exact .speaks { conn with devicename := some device } (by simp) exists_ ⟨rfl, rfl, rfl, rfl, rfl⟩ (.inr ⟨unnamed, _, _, registered⟩) standing
            next =>
              exact wp_post (selects s known) fun _ _ standing => .same (by simp) standing

/-- The user whose cameras an event may concern. -/
def actor (s : ServerState) : Event → Option JsVal
  | .utf8 c _ => ((s.conns c).bind Conn.sessUsername).map .str
  | .binary c _ _ => (s.conns c).map Conn.user
  | .timeout user _ => some user
  | _ => none

/-- What a step does to the connections, the devices and the viewers. -/
theorem step_turn {e : Event} (enabled : Enabled s e) (acts : ∀ user, actor s e = some user → active user)
    (moved : step s e = some t) : Turn active s e t := by
  have kept {code : Js Unit} {e : Event} (noClose : ∀ c, e ≠ .close c) (keeps : Keeps (Standing active s) code) :
      Wp code (fun _ t => Turn active s e t) (fun _ => True) s :=
    wp_post (keeps.kept s .refl) fun _ _ standing => .same noClose standing
  refine of_step moved (?_ : Wp (handle e) (fun _ t => Turn active s e t) (fun _ => True) s)
  cases e with
  | connect c url sid => exact .connect rfl rfl rfl rfl .refl
  | utf8 c text =>
    rw [handle, onUtf8, wp_bind, wp_getConn]
    refine ⟨fun conn found => ?_, fun _ => trivial⟩
    rw [wp_ite]
    split
    next isCam =>
      exact step_webcamProcess found isCam fun username session => acts _ (by simp [actor, found, session])
    next =>
      rw [wp_bind]
      exact wp_post (step_textProcess found) fun _ _ turn => turn
  | binary c buffer random =>
    obtain ⟨conn, found, _⟩ := enabled
    by_cases isNew : conn.user = .undefined
    · rw [handle, wp_connectionParse_new found isNew]
      exact step_handshake found isNew
    · have acts : Active active conn.user := ⟨acts _ (by simp [actor, found])⟩
      rw [handle, wp_connectionParse_device found isNew]
      exact kept (by simp) inferInstance
  | close c => exact step_onClose s c
  | login sid username => exact kept (by simp) (inferInstanceAs (Keeps _ (login sid username)))
  | logout sid => exact kept (by simp) (inferInstanceAs (Keeps _ (logout sid)))
  | prepareDevice sid device => exact step_prepareDevice sid device
  | request sid bufs => exact kept (by simp) (inferInstanceAs (Keeps _ (sendRequest sid bufs)))
  | camsnap sid => exact kept (by simp) (inferInstanceAs (Keeps _ (sendRequest sid _)))
  | timeout user hostUrl =>
    have acts : Active active user := ⟨acts user rfl⟩
    exact kept (by simp) (inferInstanceAs (Keeps _ (onTimeout user hostUrl)))

end

/-! The cameras of a state. -/

def camOf (s : ServerState) (user : JsVal) (hostUrl : Text) : Option CamManager :=
  (s.userMap user).bind fun mgr => mgr.cams.lookup hostUrl

section
variable {active : JsVal → Prop} {s t : ServerState} {user : JsVal} {hostUrl : Text} {mgr : UserMgmr} {cam : CamManager}

theorem camOf_of_known (known : s.userMap user = some mgr) : camOf s user hostUrl = mgr.cams.lookup hostUrl := by
  rw [camOf, known, Option.bind_some]

theorem camOf_eq_some : camOf s user hostUrl = some cam ↔
    ∃ mgr, s.userMap user = some mgr ∧ mgr.cams.lookup hostUrl = some cam := Option.bind_eq_some_iff

theorem camOf_setMgr (key : JsVal) : camOf (s.setMgr user mgr) key hostUrl =
    if key = user then mgr.cams.lookup hostUrl else camOf s key hostUrl := by
  rw [camOf, setMgr_userMap]
  split
  · rfl
  · rfl

/-- The two states know the same users, and what they say of a camera of one of them they say alike. -/
theorem camOf_standing {β : Type} (standing : Standing active s t) (view : CamManager → β)
    (alike : ∀ mgr mgr', Same (active user) mgr mgr' →
      (mgr'.cams.lookup hostUrl).map view = (mgr.cams.lookup hostUrl).map view) :
    (camOf t user hostUrl).map view = (camOf s user hostUrl).map view := by
  unfold camOf
  cases known : t.userMap user with
  | none =>
    cases known' : s.userMap user with
    | none => rfl
    | some mgr =>
      obtain ⟨_, found, _⟩ := standing.still known'
      cases known.symm.trans found
  | some mgr' =>
    obtain ⟨mgr, found, same⟩ := standing.known known
    rw [found]
    exact alike mgr mgr' same

theorem viewing_standing (standing : Standing active s t) (user : JsVal) (hostUrl : Text) :
    (camOf t user hostUrl).map viewing = (camOf s user hostUrl).map viewing :=
  camOf_standing standing viewing fun _ _ same => same.viewers hostUrl

theorem pace_standing (standing : Standing active s t) (inactive : ¬ active user) :
    (camOf t user hostUrl).map pace = (camOf s user hostUrl).map pace :=
  camOf_standing standing pace fun _ _ same => same.paced inactive hostUrl

end

end WebTunnel.Server.Registers
