import WebTunnel.Server.Devices

/-! Users apart: what happens for one user changes nothing of another's, and nothing of it is sent to
another's connections. -/

namespace WebTunnel.Server.Separating
open Library.Bytes Library.JavaScript Library.Json Library.Program Library.Run Library.Slots Sessions Wire Server.Types
open Processors Webcam Framing Events Moves
open Registers (withCam joined handshakeUser lookup_withCam)
open Devices (lookup_filter)

/-- The connection is a device of the user. -/
def DeviceOf (s : ServerState) (c : ConnId) (user : JsVal) : Prop :=
  user ≠ .undefined ∧ ∃ conn, s.conns c = some conn ∧ conn.user = user

/-- The connection was made in a web session of the user. -/
def BrowserOf (s : ServerState) (c : ConnId) (user : JsVal) : Prop :=
  ∃ conn username, s.conns c = some conn ∧ conn.sessUsername = some username ∧ user = .str username

/-- A processor answers a request of the user, or sends to one of the user's browsers. -/
def Answers (s : ServerState) (user : JsVal) : Processor → Prop
  | .http p => user = .str p.username
  | .forward p => BrowserOf s p.conn user
  | .webcam _ => True

/-- An output is for a device, a browser or a session of the user. -/
def SentFor (s : ServerState) (user : JsVal) : Output → Prop
  | .sendBytes c _ => DeviceOf s c user
  | .sendUTF c _ => BrowserOf s c user
  | .connClose c | .readConfig c _ => DeviceOf s c user ∨ BrowserOf s c user
  | .writeHead id _ _ | .resWrite id _ | .resEnd id | .processBuffer _ _ id _ => ∀ p, s.procs id = some p → Answers s user p

/-- The connection on which an event happens. -/
def speaker : Event → Option ConnId
  | .connect c _ _ | .utf8 c _ | .binary c _ _ | .close c => some c
  | _ => none

/-- An output is for the connection on which the event happens. -/
def Addressed (e : Event) : Output → Prop
  | .sendBytes c _ | .connClose c | .readConfig c _ => speaker e = some c
  | _ => False

/-- The user for whom an event happens: that of the session or of the device, or the one that a device
names. -/
def actor (s : ServerState) : Event → Option JsVal
  | .connect _ _ _ | .login _ _ | .logout _ => none
  | .utf8 c _ => ((s.conns c).bind Conn.sessUsername).map .str
  | .binary c buffer _ => (s.conns c).bind fun conn =>
    if conn.user = .undefined then (handshakeUser buffer).toOption else some conn.user
  | .close c => (s.conns c).bind fun conn =>
    if conn.camSeq = none ∧ conn.user ≠ .undefined then some conn.user else conn.sessUsername.map .str
  | .prepareDevice sid _ | .request sid _ | .camsnap sid => (s.sess sid).username.map .str
  | .timeout user _ => some user

/-- Whose a connection is, and what it is for. -/
structure Identity where
  user : JsVal
  host : JsVal
  port : JsVal
  sessUsername : Option Text

def who (conn : Conn) : Identity := ⟨conn.user, conn.host, conn.port, conn.sessUsername⟩

/-- What an event does, it does for its user, and who has registered stays who it is. -/
structure Separated (s : ServerState) (e : Event) (t : ServerState) : Prop where
  sent : ∀ output ∈ sentSince s t, Addressed e output ∨ ∃ user, actor s e = some user ∧ SentFor t user output
  managers : ∀ user, actor s e ≠ some user → t.userMap user = s.userMap user
  processors : ∀ user mgr ref, s.userMap user = some mgr → Live mgr.toSessionTable ref → actor s e ≠ some user →
    t.procs ref.id = s.procs ref.id
  conns : ∀ c, t.conns c ≠ s.conns c → speaker e = some c ∨ ∃ user, actor s e = some user ∧ (DeviceOf s c user ∨ BrowserOf s c user)
  whose : ∀ c conn, s.conns c = some conn → conn.user ≠ .undefined → (t.conns c).map who = some (who conn)

/-! What each user has. -/

/-- The devices, the sessions and the viewers that a manager knows are its user's. -/
class Own (s : ServerState) (owner : ProcId → JsVal) (user : JsVal) (mgr : UserMgmr) : Prop where
  shaped : Shaped mgr.toSessionTable
  devices : user ≠ .undefined → ∀ name c, mgr.connections.lookup name = some c → DeviceOf s c user
  sessions : ∀ ref, Live mgr.toSessionTable ref → owner ref.id = user
  viewers : ∀ hostUrl cam, mgr.cams.lookup hostUrl = some cam → ∀ viewer ∈ cam.conns, BrowserOf s viewer.2 user
  noCams : user = .undefined → mgr.cams = []

/-- Everything is of one user. -/
structure Apart (s : ServerState) (owner : ProcId → JsVal) (t : ServerState) : Prop where
  own : ∀ user mgr, t.userMap user = some mgr → Own s owner user mgr
  answers : ∀ id p, t.procs id = some p → Answers s (owner id) p


/-- An output for the user, of whom the processors are known. -/
def For (s : ServerState) (owner : ProcId → JsVal) (user : JsVal) : Output → Prop
  | .sendBytes c _ => DeviceOf s c user
  | .sendUTF c _ => BrowserOf s c user
  | .connClose c | .readConfig c _ => DeviceOf s c user ∨ BrowserOf s c user
  | .writeHead id _ _ | .resWrite id _ | .resEnd id | .processBuffer _ _ id _ => owner id = user

/-- A later state that differs in what is the user's. -/
structure Confined (s : ServerState) (owner : ProcId → JsVal) (user : JsVal) (t : ServerState) : Prop extends Apart s owner t where
  new : ∀ id, t.nextProc ≤ id → owner id = user
  others : ∀ key, key ≠ user → t.userMap key = s.userMap key
  procs : ∀ id, owner id ≠ user → t.procs id = s.procs id
  whose : ∀ c, (t.conns c).map who = (s.conns c).map who
  conns : ∀ c, t.conns c ≠ s.conns c → DeviceOf s c user ∨ BrowserOf s c user
  sent : ∃ outputs, t.out = s.out ++ outputs ∧ ∀ output ∈ outputs, For s owner user output

/-- The user is one that a session or a device may name. -/
class IsUser (user : JsVal) : Prop where
  ne : user ≠ .undefined

instance (username : Text) : IsUser (.str username) := ⟨by simp⟩

/-- A processor of the user. -/
class OwnId (owner : ProcId → JsVal) (user : JsVal) (id : ProcId) : Prop where
  own : owner id = user

/-- What a processor answers is the user's. -/
class Fits (s : ServerState) (user : JsVal) (proc : Processor) : Prop where
  answers : Answers s user proc

/-- Viewers in sessions of the user. -/
class Watched (s : ServerState) (user : JsVal) (viewers : List (Nat × ConnId)) : Prop where
  browsers : ∀ viewer ∈ viewers, BrowserOf s viewer.2 user

section
variable {α : Type} {s t : ServerState} {owner : ProcId → JsVal} {user : JsVal} {mgr : UserMgmr} {id : ProcId} {c : ConnId}
  {hostUrl : Text} {buffer : List Byte}

theorem Confined.write (confined : Confined s owner user t) {outputs : List Output} (all : ∀ output ∈ outputs, For s owner user output) :
    Confined s owner user (t.write outputs) := by
  obtain ⟨apart, new, others, procs, whose, conns, before, out, sent⟩ := confined
  refine ⟨⟨apart.own, apart.answers⟩, new, others, procs, whose, conns, before ++ outputs, ?_, ?_⟩
  · rw [write_out, out, List.append_assoc]
  · intro output member
    rcases List.mem_append.mp member with earlier | later
    · exact sent output earlier
    · exact all output later

theorem keeps_emitAll {outputs : List Output} (all : ∀ output ∈ outputs, For s owner user output) :
    Keeps (Confined s owner user) (emitAll outputs) := ⟨fun _ confined => confined.write all⟩

theorem keeps_emit {output : Output} (own : For s owner user output) : Keeps (Confined s owner user) (emit output) :=
  keeps_emitAll (by simpa using own)

/-- A manager of the user is set. -/
theorem Confined.setMgr (confined : Confined s owner user t) (own : Own s owner user mgr) : Confined s owner user (t.setMgr user mgr) := by
  obtain ⟨apart, new, others, procs, whose, conns, sent⟩ := confined
  refine ⟨⟨setMgr_all apart.own own, apart.answers⟩, new, ?_, procs, whose, conns, sent⟩
  intro key other
  rw [setMgr_userMap, if_neg other]
  exact others key other

/-- The manager there is, or a new one. -/
theorem Own.getD {known : Option UserMgmr} (own : ∀ mgr, known = some mgr → Own s owner user mgr) :
    Own s owner user (known.getD (UserMgmr.new user)) := by
  cases known with
  | some mgr => exact own mgr rfl
  | none =>
    refine ⟨shaped_fresh, fun _ name key listed => ?_, fun ref live => ?_, fun hostUrl cam found => ?_, fun _ => rfl⟩
    · cases listed
    · obtain ⟨i, here⟩ := live
      simp [UserMgmr.new, fresh, holeGet] at here
    · cases found

theorem Own.addConnByName (own : Own s owner user mgr) (name : Text) (device : user ≠ .undefined → DeviceOf s c user) :
    Own s owner user (mgr.addConnByName c name) := by
  refine ⟨own.shaped, fun isUser other key listed => ?_, own.sessions, own.viewers, own.noCams⟩
  rw [UserMgmr.addConnByName, lookup_set] at listed
  split at listed
  · cases listed
    exact device isUser
  · exact own.devices isUser other key listed

theorem Own.delConnByName (own : Own s owner user mgr) (name : Text) : Own s owner user (mgr.delConnByName name) := by
  refine ⟨own.shaped, fun isUser other key listed => ?_, own.sessions, own.viewers, own.noCams⟩
  rw [UserMgmr.delConnByName, lookup_filter] at listed
  split at listed
  · cases listed
  · exact own.devices isUser other key listed

instance keeps_setMgr [own : Own s owner user mgr] : Keeps (Confined s owner user) (setMgr user mgr) :=
  ⟨fun _ confined => confined.setMgr own⟩

theorem keeps_getMgr {β : Type} {next : UserMgmr → Js β}
    (second : ∀ mgr : {mgr // Own s owner user mgr}, Keeps (Confined s owner user) (next mgr)) :
    Keeps (Confined s owner user) (getMgr user >>= next) := by
  refine ⟨fun t confined => ?_⟩
  rw [wp_bind, wp_getMgr]
  exact ⟨fun mgr known => (second ⟨mgr, confined.own user mgr known⟩).kept t confined, fun _ => trivial⟩

instance (priority := high) keeps_getMgr_then {β : Type} {next : UserMgmr → Js β}
    [second : ∀ mgr : {mgr // Own s owner user mgr}, Keeps (Confined s owner user) (next mgr)] :
    Keeps (Confined s owner user) (getMgr user >>= next) := keeps_getMgr second

instance (mgr : {mgr // Own s owner user mgr}) : Own s owner user mgr.val := mgr.property

instance [own : Own s owner user mgr] (parser : FrameParser) : Own s owner user (mgr.setParser parser) :=
  ⟨own.shaped, own.devices, own.sessions, own.viewers, own.noCams⟩

instance [own : Own s owner user mgr] (device : Text) : Own s owner user (mgr.setCurr device) :=
  ⟨own.shaped, own.devices, own.sessions, own.viewers, own.noCams⟩

instance keeps_resetParser : Keeps (Confined s owner user) (resetParser user) := by
  unfold resetParser
  infer_instance

instance keeps_mgrDelSeq (seq : Option Nat) : Keeps (Confined s owner user) (mgrDelSeq user seq) := by
  refine ⟨fun t confined => ?_⟩
  rw [wp_mgrDelSeq]
  refine ⟨fun _ => confined, fun x _ => ⟨fun mgr known => ⟨fun obj table deleted => ?_, fun _ _ => trivial⟩, fun _ => trivial⟩⟩
  have own := confined.own user mgr known
  obtain ⟨shaped, live⟩ := own.shaped.delSeq deleted
  exact confined.setMgr ⟨shaped, own.devices, fun ref old => own.sessions ref (live ref old), own.viewers, own.noCams⟩

theorem Confined.setProc (confined : Confined s owner user t) {proc : Processor} (own : owner id = user) (answers : Answers s user proc) :
    Confined s owner user (t.setProc id proc) := by
  obtain ⟨apart, new, others, procs, whose, conns, sent⟩ := confined
  refine ⟨⟨apart.own, fun key p found => ?_⟩, new, others, fun key other => ?_, whose, conns, sent⟩
  · rw [setProc_procs] at found
    split at found
    next here =>
      cases found
      rwa [here, own]
    next => exact apart.answers key p found
  · rw [setProc_procs, if_neg (by rintro rfl; exact other own)]
    exact procs key other

instance keeps_setProc {proc : Processor} [own : OwnId owner user id] [fits : Fits s user proc] :
    Keeps (Confined s owner user) (setProc id proc) := ⟨fun _ confined => confined.setProc own.own fits.answers⟩

/-- A session made for the user is the user's. -/
theorem wp_mgrNewSeq_own {construct : Nat → Processor} (fits : ∀ seq, Answers s user (construct seq)) (confined : Confined s owner user t) :
    Wp (mgrNewSeq user construct) (fun made t => Confined s owner user t ∧ ∀ ref, made = some ref → owner ref.id = user)
      (fun _ => True) t := by
  rw [wp_mgrNewSeq]
  refine ⟨fun mgr known => ⟨fun _ => ⟨confined, by simp⟩, fun room => ?_⟩, fun _ => trivial⟩
  have own := confined.own user mgr known
  have fresh := confined.new t.nextProc le_rfl
  have created := confined.setProc fresh (fits (cursor mgr.toSessionTable))
  obtain ⟨shaped, live⟩ := own.shaped.newSeq (fun seq => (⟨t.nextProc, seq⟩ : ProcRef)) room rfl
  have grown : Own s owner user (mgr.setTable (newSeq mgr.toSessionTable fun seq => (⟨t.nextProc, seq⟩ : ProcRef)).2) := by
    refine ⟨shaped, own.devices, fun ref new => ?_, own.viewers, own.noCams⟩
    rcases live ref new with old | rfl
    · exact own.sessions ref old
    · exact fresh
  have counted : Confined s owner user { t.setProc t.nextProc (construct (cursor mgr.toSessionTable)) with nextProc := t.nextProc + 1 } :=
    ⟨⟨created.own, created.answers⟩, fun id above => confined.new id (Nat.le_of_succ_le above), created.others, created.procs,
      created.whose, created.conns, created.sent⟩
  refine ⟨counted.setMgr grown, fun ref same => ?_⟩
  cases same
  exact fresh

theorem keeps_mgrNewSeq_then {construct : Nat → Processor} (fits : ∀ seq, Answers s user (construct seq)) {next : Option ProcRef → Js α}
    (full : Keeps (Confined s owner user) (next none))
    (made : ∀ ref, owner ref.id = user → Keeps (Confined s owner user) (next (some ref))) :
    Keeps (Confined s owner user) (mgrNewSeq user construct >>= next) := by
  refine ⟨fun t confined => ?_⟩
  rw [wp_bind]
  refine wp_post (wp_mgrNewSeq_own fits confined) fun opened t both => ?_
  cases opened with
  | none => exact full.kept t both.1
  | some ref => exact (made ref (both.2 ref rfl)).kept t both.1

instance keeps_mgrNewSeq {construct : Nat → Processor} [fits : ∀ seq, Fits s user (construct seq)] :
    Keeps (Confined s owner user) (mgrNewSeq user construct) :=
  ⟨fun _ confined => wp_post (wp_mgrNewSeq_own (fun seq => (fits seq).answers) confined) fun _ _ both => both.1⟩

instance (sid : SessId) (sess : Sess) : Keeps (Confined s owner user) (setSess sid sess) :=
  ⟨fun _ confined => ⟨⟨confined.own, confined.answers⟩, confined.new, confined.others, confined.procs, confined.whose, confined.conns,
    confined.sent⟩⟩

/-- A connection is read as whose it is. -/
theorem keeps_getConn {next : Conn → Js α} (second : ∀ conn, (s.conns c).map who = some (who conn) →
    Keeps (Confined s owner user) (next conn)) : Keeps (Confined s owner user) (getConn c >>= next) := by
  refine ⟨fun t confined => ?_⟩
  rw [wp_bind, wp_getConn]
  refine ⟨fun conn found => (second conn ?_).kept t confined, fun _ => trivial⟩
  rw [← confined.whose, found, Option.map_some]

theorem keeps_setConn {conn : Conn} (known : (s.conns c).map who = some (who conn)) (own : DeviceOf s c user ∨ BrowserOf s c user) :
    Keeps (Confined s owner user) (setConn c conn) := by
  refine ⟨fun t confined => ?_⟩
  obtain ⟨apart, new, others, procs, whose, conns, sent⟩ := confined
  refine ⟨⟨apart.own, apart.answers⟩, new, others, procs, fun key => ?_, fun key changed => ?_, sent⟩
  · rw [setConn_conns]
    split
    next here => rw [here, known, Option.map_some]
    next => exact whose key
  · rw [setConn_conns] at changed
    split at changed
    next here => exact here ▸ own
    next => exact conns key changed

end

/-! The processors. -/

section
variable {s : ServerState} {owner : ProcId → JsVal} {user : JsVal} {mgr : UserMgmr} {id : ProcId} {c : ConnId}
  {hostUrl : Text} {buffer : List Byte}

instance (p : WebcamProcessor) : Fits s user (.webcam p) := ⟨trivial⟩

theorem innerProcessBuffer_for (own : owner id = user) : ∀ output ∈ HttpProcessor.innerProcessBuffer id buffer, For s owner user output := by
  intro output member
  rw [List.mem_singleton.mp member]
  exact own

/-- What a response consists of, and whose it is. -/
theorem consume_for (s : ServerState) (own : owner id = user) (p : HttpProcessor) (buffer : List Byte) :
    (HttpProcessor.consume p id buffer).1.username = p.username ∧
    ∀ output ∈ (HttpProcessor.consume p id buffer).2, For s owner user output := by
  have inner (b : List Byte) : ∀ output ∈ HttpProcessor.innerProcessBuffer id b, For s owner user output := innerProcessBuffer_for own
  unfold HttpProcessor.consume
  dsimp only
  split
  · exact ⟨rfl, inner buffer⟩
  · unfold HttpProcessor.processHeader
    dsimp only
    split
    · exact ⟨rfl, by simp⟩
    · split
      · split
        · exact ⟨rfl, by simp⟩
        · refine ⟨rfl, fun output member => ?_⟩
          rcases List.mem_cons.mp member with rfl | body
          · exact own
          · split at body
            · exact inner _ output body
            · cases body
      · exact ⟨rfl, by simp⟩

instance [own : OwnId owner user id] (p : HttpProcessor) [fits : Fits s user (.http p)] :
    Keeps (Confined s owner user) (HttpProcessor.processBuffer user id p buffer) := by
  unfold HttpProcessor.processBuffer
  obtain ⟨same, sent⟩ := consume_for s own.own p buffer
  generalize HttpProcessor.consume p id buffer = consumed at same sent
  obtain ⟨p', outputs⟩ := consumed
  have fits' : Fits s user (.http p') := ⟨fits.answers.trans (congrArg JsVal.str same.symm)⟩
  have emits := keeps_emitAll sent
  have ends : Keeps (Confined s owner user) (emit (.resEnd id)) := keeps_emit own.own
  dsimp only
  infer_instance

/-- The current session of the user sends to the user's browser. -/
theorem keeps_getForwardConn {α : Type} [own : Own s owner user mgr] {next : ConnId → Js α}
    (second : ∀ c : {c // BrowserOf s c user}, Keeps (Confined s owner user) (next c)) :
    Keeps (Confined s owner user) (getForwardConn mgr.getCurrent >>= next) := by
  refine ⟨fun t confined => ?_⟩
  rw [wp_bind, getForwardConn, wp_bind, wp_defined]
  refine ⟨fun ref current => ?_, fun _ => trivial⟩
  rw [wp_bind, wp_get]
  split
  next p found =>
    have answers := confined.answers ref.id _ found
    rw [own.sessions ref (getCurrent_live current)] at answers
    exact (second ⟨p.conn, answers⟩).kept t confined
  next => trivial

instance [own : OwnId owner user id] (p : ForwardProcessor) [fits : Fits s user (.forward p)] :
    Keeps (Confined s owner user) (ForwardProcessor.processBuffer user id p buffer) := by
  unfold ForwardProcessor.processBuffer
  have fits' (start : Nat) : Fits s user (.forward ⟨p.conn, p.seq, start⟩) := ⟨fits.answers⟩
  dsimp only
  refine keeps_next fun _ => keeps_getMgr fun mgr => keeps_getForwardConn fun c => ?_
  have sends (seq : Nat) (message : Text) : Keeps (Confined s owner user) (emit (.sendUTF c (.object seq "response".toList message))) :=
    keeps_emit c.property
  infer_instance

end

/-! The cameras. -/

section
variable {s : ServerState} {owner : ProcId → JsVal} {user : JsVal} {mgr : UserMgmr} {id : ProcId} {c : ConnId}
  {hostUrl : Text} {buffer : List Byte} {cam : CamManager} {viewers : List (Nat × ConnId)}

/-- Whatever follows the reading of a camera has the user's viewers. -/
theorem keeps_getCam {α : Type} {next : CamManager → Js α}
    (second : ∀ cam : {cam : CamManager // Watched s user cam.conns}, Keeps (Confined s owner user) (next cam)) :
    Keeps (Confined s owner user) (getCam user hostUrl >>= next) := by
  refine ⟨fun t confined => ?_⟩
  rw [wp_bind, getCam, wp_bind, wp_getMgr]
  refine ⟨fun mgr known => ?_, fun _ => trivial⟩
  rw [wp_defined]
  exact ⟨fun cam found => (second ⟨cam, ⟨(confined.own user mgr known).viewers hostUrl cam found⟩⟩).kept t confined, fun _ => trivial⟩

instance (priority := high) keeps_getCam_then {α : Type} {next : CamManager → Js α}
    [second : ∀ cam : {cam : CamManager // Watched s user cam.conns}, Keeps (Confined s owner user) (next cam)] :
    Keeps (Confined s owner user) (getCam user hostUrl >>= next) := keeps_getCam second

instance (cam : {cam : CamManager // Watched s user cam.conns}) : Watched s user cam.val.conns := cam.property

instance [watched : Watched s user viewers] (p : Nat × ConnId → Bool) : Watched s user (viewers.filter p) :=
  ⟨fun viewer member => watched.browsers viewer (List.mem_of_mem_filter member)⟩

/-- A manager with one of its cameras set. -/
theorem own_withCam [isUser : IsUser user] [own : Own s owner user mgr] [watched : Watched s user cam.conns] :
    Own s owner user { mgr with cams := (hostUrl, cam) :: mgr.cams.filter (·.1 ≠ hostUrl) } := by
  refine ⟨own.shaped, own.devices, own.sessions, fun key cam' found => ?_, fun none => absurd none isUser.ne⟩
  rw [lookup_set] at found
  split at found
  · cases found
    exact watched.browsers
  · exact own.viewers key cam' found

instance keeps_setCam [IsUser user] [Watched s user cam.conns] : Keeps (Confined s owner user) (setCam user hostUrl cam) := by
  unfold setCam
  refine keeps_getMgr fun mgr => ?_
  have own : Own s owner user { mgr.val with cams := (hostUrl, cam) :: mgr.val.cams.filter (·.1 ≠ hostUrl) } := own_withCam
  infer_instance

/-- A registered connection is a device of the user. -/
theorem Own.current [isUser : IsUser user] (own : Own s owner user mgr) {name : Text} (registered : mgr.getConnByName name = some (.conn c)) :
    DeviceOf s c user := by
  unfold UserMgmr.getConnByName at registered
  split at registered
  next listed =>
    cases registered
    exact own.devices isUser.ne name c listed
  next => split at registered <;> cases registered

theorem keeps_sendBytes [IsUser user] [own : Own s owner user mgr] {name : Text} {target : Found} {bytes : List Byte}
    (registered : mgr.getConnByName name = some target) : Keeps (Confined s owner user) (sendBytes target bytes) := by
  cases target with
  | conn c => exact keeps_emit (own.current registered)
  | builtin => exact keeps_throw _

variable [IsUser user]

instance (p : WebcamProcessor) : Keeps (Confined s owner user) (WebcamProcessor.doConn user p) := by
  unfold WebcamProcessor.doConn
  refine keeps_getCam fun cam => keeps_getMgr fun mgr => ?_
  split
  · infer_instance
  next target current =>
    have sends (bytes : List Byte) : Keeps (Confined s owner user) (sendBytes target bytes) := keeps_sendBytes current
    infer_instance

instance : Keeps (Confined s owner user) (CamManager.doConn user hostUrl) := by
  unfold CamManager.doConn
  infer_instance

instance : Keeps (Confined s owner user) (CamManager.onDoReq user hostUrl) := by
  unfold CamManager.onDoReq
  infer_instance

instance (listeners : Nat) : Keeps (Confined s owner user) (repeatDoReq user hostUrl listeners) := by
  induction listeners with
  | zero => exact keeps_pure ()
  | succ listeners ih => exact keeps_bind

instance : Keeps (Confined s owner user) (CamManager.emitDoReq user hostUrl) := by
  unfold CamManager.emitDoReq
  infer_instance

instance : Keeps (Confined s owner user) (CamManager.openConn user hostUrl) := by
  unfold CamManager.openConn
  infer_instance

/-- A viewer in a session of the user joins. -/
theorem keeps_addConn (browser : BrowserOf s c user) : Keeps (Confined s owner user) (CamManager.addConn user hostUrl c) := by
  unfold CamManager.addConn
  refine keeps_getCam fun cam => ?_
  have joins : Watched s user (cam.val.conns ++ [(cam.val.connIndex, c)]) := by
    refine ⟨fun viewer member => ?_⟩
    rcases List.mem_append.mp member with before | new
    · exact cam.property.browsers viewer before
    · rw [List.mem_singleton.mp new]
      exact browser
  infer_instance

instance (ind : Nat) : Keeps (Confined s owner user) (CamManager.delConn user hostUrl ind) := by
  unfold CamManager.delConn
  infer_instance

instance : Keeps (Confined s owner user) (CamManager.readyForNew user hostUrl) := by
  unfold CamManager.readyForNew
  infer_instance

instance (seq : Option Nat) : Keeps (Confined s owner user) (CamManager.innerProcessBuffer user hostUrl buffer seq) := by
  unfold CamManager.innerProcessBuffer
  refine keeps_getCam fun cam => ?_
  have emits : Keeps (Confined s owner user) (emitAll (CamManager.snapshotOutputs cam)) := by
    apply keeps_emitAll
    intro output member
    obtain ⟨viewer, listed, sent⟩ := List.mem_flatMap.mp member
    have browser := cam.property.browsers viewer listed
    rcases List.mem_cons.mp sent with rfl | ends
    · exact browser
    · rw [List.mem_singleton.mp ends]
      exact browser
  infer_instance

theorem scanHeader_conns (cam : CamManager) (buffer : List Byte) : (CamManager.scanHeader cam buffer).1.conns = cam.conns :=
  congrArg Registers.Viewing.conns (Registers.scanHeader_views cam buffer).1

instance : Keeps (Confined s owner user) (CamManager.processHeader user hostUrl buffer) := by
  unfold CamManager.processHeader
  refine keeps_getCam fun cam => ?_
  have same := scanHeader_conns cam.val buffer
  generalize CamManager.scanHeader cam.val buffer = scanned at same ⊢
  obtain ⟨cam', rest⟩ := scanned
  have watched : Watched s user cam'.conns := same ▸ cam.property
  refine keeps_next fun _ => ?_
  split <;> infer_instance

instance (seq : Nat) : Keeps (Confined s owner user) (CamManager.processBuffer user hostUrl buffer seq) := by
  unfold CamManager.processBuffer
  infer_instance

instance [OwnId owner user id] (p : WebcamProcessor) : Keeps (Confined s owner user) (WebcamProcessor.processBuffer user id p buffer) := by
  unfold WebcamProcessor.processBuffer
  have sets (p : WebcamProcessor) : Keeps (Confined s owner user) (setProc id (.webcam p)) := keeps_setProc
  dsimp only
  refine keeps_next fun _ => keeps_next fun len => keeps_next fun processed => keeps_getMgr fun mgr => ?_
  infer_instance

/-- The processor of a session of the user takes what is for it. -/
theorem keeps_processBuffer (own : owner id = user) : Keeps (Confined s owner user) (Framing.processBuffer user id buffer) := by
  refine ⟨fun t confined => ?_⟩
  rw [Framing.processBuffer, wp_bind, wp_get]
  have ownId : OwnId owner user id := ⟨own⟩
  cases found : t.procs id with
  | none => trivial
  | some p =>
    have fits : Fits s user p := ⟨own ▸ confined.answers id p found⟩
    cases p with
    | http p => exact Keeps.kept t confined
    | forward p => exact Keeps.kept t confined
    | webcam p => exact Keeps.kept t confined

instance : Keeps (Confined s owner user) (httpNormalParse user buffer) := by
  unfold httpNormalParse
  refine keeps_getMgr fun mgr => ?_
  split
  next seq processor _ current =>
    have own : owner processor.id = user := mgr.property.sessions processor (getCurrent_live current)
    have emits : Keeps (Confined s owner user) (emit (.processBuffer seq mgr.val.currTotal processor.id buffer)) := keeps_emit own
    have parses : Keeps (Confined s owner user) (Framing.processBuffer user processor.id buffer) := keeps_processBuffer own
    infer_instance
  next => infer_instance

theorem keeps_parseFirstMessage (device : DeviceOf s c user) : Keeps (Confined s owner user) (parseFirstMessage user c buffer) := by
  have reads (seq : Nat) : Keeps (Confined s owner user) (emit (.readConfig c seq)) := keeps_emit (.inl device)
  have tunnels (header : ProtoHeader) : Keeps (Confined s owner user) (parseTunnelReq c buffer header) := by
    unfold parseTunnelReq
    infer_instance
  unfold parseFirstMessage
  infer_instance

theorem keeps_parseNormalMessage (device : DeviceOf s c user) : Keeps (Confined s owner user) (parseNormalMessage user c buffer) := by
  have first (buffer : List Byte) : Keeps (Confined s owner user) (parseFirstMessage user c buffer) := keeps_parseFirstMessage device
  unfold parseNormalMessage
  refine keeps_getMgr fun mgr => ?_
  split <;> infer_instance

end

/-! What comes from browsers, and what closes. -/

section
variable {s t : ServerState} {owner : ProcId → JsVal} {c : ConnId} {conn : Conn} {username text hostUrl : Text}

theorem session_of_browser (browser : BrowserOf s c (.str username)) (known : (s.conns c).map who = some (who conn)) :
    conn.sessUsername = some username := by
  obtain ⟨conn', name, found, session, same⟩ := browser
  rw [found, Option.map_some, Option.some_inj] at known
  have sessions : conn'.sessUsername = conn.sessUsername := congrArg Identity.sessUsername known
  cases same
  rw [← sessions, session]

theorem keeps_textProcess (browser : BrowserOf s c (.str username)) : Keeps (Confined s owner (.str username)) (textProcess c text) := by
  unfold textProcess
  refine keeps_getConn fun conn whose => ⟨fun t confined => ?_⟩
  have closes : Keeps (Confined s owner (.str username)) (emit (.connClose c)) := keeps_emit (.inr browser)
  split
  next name _ session _ =>
    cases (session_of_browser browser whose).symm.trans session
    rw [wp_bind, wp_get]
    split
    next => exact Keeps.kept t confined
    next mgr known =>
      have own := confined.own _ mgr known
      split
      next =>
        have fits (seq : Nat) : Fits s (.str username) (.forward ⟨c, seq, 0⟩) := ⟨browser⟩
        have opens (seq : Nat) : Keeps (Confined s owner (.str username)) (setConn c { conn with seq := some seq }) :=
          keeps_setConn whose (.inr browser)
        have answers (seq : Nat) : Keeps (Confined s owner (.str username))
            (emit (.sendUTF c (.object seq "handshake".toList "hello".toList))) := keeps_emit browser
        exact Keeps.kept t confined
      next seq _ =>
        refine (keeps_next fun obj => keeps_next fun objSeq => keeps_next fun same => ?_ : Keeps _ _).kept t confined
        split
        · exact keeps_pure _
        · split
          next => exact keeps_pure _
          next target current =>
            have sends (bytes : List Byte) : Keeps (Confined s owner (.str username)) (sendBytes target bytes) := keeps_sendBytes current
            infer_instance
  next => exact Keeps.kept t confined

instance : Keeps (Confined s owner (.str username)) (getCamByName (.str username) hostUrl) := by
  have unwatched : Watched s (.str username) (CamManager.new hostUrl).conns := ⟨fun viewer member => by cases member⟩
  unfold getCamByName
  refine keeps_getMgr fun mgr => ?_
  split <;> infer_instance

theorem keeps_webcamProcess (browser : BrowserOf s c (.str username)) :
    Keeps (Confined s owner (.str username)) (webcamProcess c text) := by
  unfold webcamProcess
  refine keeps_getConn fun conn whose => ⟨fun t confined => ?_⟩
  have closes : Keeps (Confined s owner (.str username)) (emit (.connClose c)) := keeps_emit (.inr browser)
  have joins : Keeps (Confined s owner (.str username)) (CamManager.addConn (.str username) text c) := keeps_addConn browser
  have becomes (camSeq : Option Nat) : Keeps (Confined s owner (.str username))
      (setConn c { conn with camSeq := camSeq, hostUrl := some text }) := keeps_setConn whose (.inr browser)
  split
  next name _ session _ =>
    cases (session_of_browser browser whose).symm.trans session
    rw [wp_bind, wp_get]
    split
    next => exact Keeps.kept t confined
    next mgr known =>
      split
      next => exact Keeps.kept t confined
      next => trivial
  next => exact Keeps.kept t confined

theorem keeps_closeForward (conn : Conn) (seq : Nat) : Keeps (Confined s owner (.str username)) (closeForward (.str username) conn seq) := by
  unfold closeForward
  refine keeps_getMgr fun mgr => ?_
  split
  next => infer_instance
  next target registered =>
    have sends (bytes : List Byte) : Keeps (Confined s owner (.str username)) (sendBytes target bytes) := keeps_sendBytes registered
    infer_instance

instance {user : JsVal} [IsUser user] : Keeps (Confined s owner user) (onTimeout user hostUrl) := by
  unfold onTimeout
  infer_instance

/-- A request is sent to the user's device, and answered to whoever asked. -/
theorem keeps_sendAll {target : Found} {mgr : UserMgmr} (own : Own s owner (.str username) mgr) {name : Text} {id : ProcId}
    (registered : mgr.getConnByName name = some target) (asked : owner id = .str username) (bufs : Except JsError (List (List Byte))) :
    Keeps (Confined s owner (.str username)) (sendAll target id bufs) := by
  have ends : Keeps (Confined s owner (.str username)) (emit (.resEnd id)) := keeps_emit asked
  cases bufs with
  | error e => exact ends
  | ok bufs =>
    cases target with
    | builtin => exact ends
    | conn device =>
      apply keeps_emitAll
      intro output member
      obtain ⟨bytes, _, rfl⟩ := List.mem_map.mp member
      exact own.current registered

end

/-! Each event. -/

/-- No processor is kept where the next ones will be. -/
def Unused (s : ServerState) : Prop := ∀ id, s.nextProc ≤ id → s.procs id = none

structure Separate (s : ServerState) : Prop where
  stocked : Stocked s
  unused : Unused s
  apart : ∃ owner, Apart s owner s

/-- What an event does to its own connection, before it does anything for a user. -/
structure Prepared (s : ServerState) (e : Event) (t : ServerState) : Prop where
  users : t.userMap = s.userMap
  procs : t.procs = s.procs
  next : t.nextProc = s.nextProc
  conns : ∀ c, t.conns c ≠ s.conns c → speaker e = some c
  whose : ∀ c conn, s.conns c = some conn → conn.user ≠ .undefined → (t.conns c).map who = some (who conn)
  browsers : ∀ c user, BrowserOf s c user → BrowserOf t c user
  sent : ∃ outputs, t.out = s.out ++ outputs ∧ ∀ output ∈ outputs, Addressed e output

/-- An event ends with users apart. -/
def Ends (s : ServerState) (e : Event) (t : ServerState) : Prop := Separated s e t ∧ ∃ owner, Apart t owner t

section
variable {α : Type} {s s' t : ServerState} {owner : ProcId → JsVal} {user : JsVal} {e : Event} {c : ConnId} {conn : Conn}

theorem Move.unused {active : JsVal → Prop} {talks : Prop} (unused : Unused s) (move : Move active talks s t) : Unused t := by
  cases move with
  | write | sess | connect | conn | device | user | mgr | cam | delSeq | parser => exact unused
  | openSeq =>
    intro id above
    rw [ServerState.openSeq, setMgr_procs, setProc_procs, if_neg (Nat.ne_of_gt above)]
    exact unused id (Nat.le_of_succ_le above)
  | proc found =>
    intro id above
    rw [setProc_procs]
    split
    next here =>
      rw [← here, unused id above] at found
      cases found
    next => exact unused id above

theorem Path.unused {active : JsVal → Prop} {talks : Prop} (unused : Unused s) (path : Path active talks s t) : Unused t := by
  induction path with
  | refl => exact unused
  | tail _ move ih => exact Move.unused ih move

theorem Answers.mono {p : Processor} (answers : Answers s user p) (browsers : ∀ c user, BrowserOf s c user → BrowserOf t c user) :
    Answers t user p := by
  cases p with
  | http => exact answers
  | forward p => exact browsers p.conn user answers
  | webcam => trivial

theorem Own.mono {mgr : UserMgmr} (own : Own s owner user mgr) (devices : ∀ c user, DeviceOf s c user → DeviceOf t c user)
    (browsers : ∀ c user, BrowserOf s c user → BrowserOf t c user) : Own t owner user mgr :=
  ⟨own.shaped, fun isUser name c listed => devices c user (own.devices isUser name c listed), own.sessions,
    fun hostUrl cam found viewer member => browsers viewer.2 user (own.viewers hostUrl cam found viewer member), own.noCams⟩

theorem Apart.mono {u : ServerState} (apart : Apart s owner u) (devices : ∀ c user, DeviceOf s c user → DeviceOf t c user)
    (browsers : ∀ c user, BrowserOf s c user → BrowserOf t c user) : Apart t owner u :=
  ⟨fun user mgr known => (apart.own user mgr known).mono devices browsers,
    fun id p found => (apart.answers id p found).mono browsers⟩

theorem Prepared.devices (prepared : Prepared s e t) {c : ConnId} {user : JsVal} (device : DeviceOf s c user) : DeviceOf t c user := by
  obtain ⟨isUser, conn, found, same⟩ := device
  obtain ⟨conn', found', who⟩ := Option.map_eq_some_iff.mp (prepared.whose c conn found (same ▸ isUser))
  exact ⟨isUser, conn', found', (congrArg Identity.user who).trans same⟩

theorem Prepared.refl : Prepared s e s := by
  refine ⟨rfl, rfl, rfl, fun _ changed => absurd rfl changed, fun c conn found _ => ?_, fun _ _ browser => browser, [], by simp, by simp⟩
  rw [found, Option.map_some]

theorem Prepared.sess (sess : SessId → Sess) : Prepared s e { s with sess } := by
  have same : Prepared s e s := .refl
  exact ⟨rfl, rfl, rfl, same.conns, same.whose, same.browsers, same.sent⟩

/-- The connection may change and be sent to. -/
theorem Prepared.setConn (speaks : speaker e = some c) {conn' : Conn} (whose : ∀ conn, s.conns c = some conn →
    conn.user ≠ .undefined → who conn' = who conn) (browsers : ∀ conn, s.conns c = some conn → conn'.sessUsername = conn.sessUsername) :
    Prepared s e (s.setConn c conn') := by
  refine ⟨rfl, rfl, rfl, fun key changed => ?_, fun key conn found isUser => ?_, fun key user browser => ?_, [], by simp, by simp⟩
  · rw [setConn_conns] at changed
    split at changed
    next here => rw [here, speaks]
    next => exact absurd rfl changed
  · rw [setConn_conns]
    split
    next here =>
      subst here
      rw [Option.map_some, whose conn found isUser]
    next => rw [found, Option.map_some]
  · obtain ⟨conn, username, found, session, same⟩ := browser
    rw [BrowserOf, setConn_conns]
    split
    next here =>
      subst here
      exact ⟨conn', username, rfl, (browsers conn found).trans session, same⟩
    next => exact ⟨conn, username, found, session, same⟩

theorem Prepared.write (prepared : Prepared s e t) {output : Output} (addressed : Addressed e output) : Prepared s e (t.write [output]) := by
  obtain ⟨users, procs, next, conns, whose, browsers, outputs, out, sent⟩ := prepared
  refine ⟨users, procs, next, conns, whose, browsers, outputs ++ [output], ?_, fun other member => ?_⟩
  · rw [write_out, out, List.append_assoc]
  · rcases List.mem_append.mp member with before | new
    · exact sent other before
    · rw [List.mem_singleton.mp new]
      exact addressed

/-- All of it is confined to any user: what is made from here on is that user's. -/
theorem Separate.confined (separate : Separate s) (prepared : Prepared s e t) (user : JsVal) : ∃ owner, Confined t owner user t := by
  obtain ⟨stocked, unused, owner, apart⟩ := separate
  refine ⟨fun id => if s.nextProc ≤ id then user else owner id, ⟨fun key mgr known => ?_, fun id p found => ?_⟩, fun id above => ?_,
    fun _ _ => rfl, fun _ _ => rfl, fun _ => rfl, fun _ changed => absurd rfl changed, [], by simp, by simp⟩
  · rw [prepared.users] at known
    have own := (apart.own key mgr known).mono (fun _ _ => prepared.devices) prepared.browsers
    refine ⟨own.shaped, own.devices, fun ref live => ?_, own.viewers, own.noCams⟩
    rw [if_neg (Nat.not_le.mpr (stocked.manned key mgr known ref live).1)]
    exact own.sessions ref live
  · rw [prepared.procs] at found
    rw [if_neg fun above => by rw [unused id above] at found; cases found]
    exact (apart.answers id p found).mono prepared.browsers
  · rw [prepared.next] at above
    exact if_pos above

theorem Confined.devices (confined : Confined s owner user t) {key : JsVal} (device : DeviceOf s c key) : DeviceOf t c key := by
  obtain ⟨isUser, conn, found, same⟩ := device
  have whose := confined.whose c
  rw [found, Option.map_some] at whose
  obtain ⟨conn', found', who⟩ := Option.map_eq_some_iff.mp whose
  exact ⟨isUser, conn', found', (congrArg Identity.user who).trans same⟩

theorem Confined.browsers (confined : Confined s owner user t) {key : JsVal} (browser : BrowserOf s c key) : BrowserOf t c key := by
  obtain ⟨conn, username, found, session, same⟩ := browser
  have whose := confined.whose c
  rw [found, Option.map_some] at whose
  obtain ⟨conn', found', who⟩ := Option.map_eq_some_iff.mp whose
  exact ⟨conn', username, found', (congrArg Identity.sessUsername who).trans session, same⟩

theorem Confined.sentFor (confined : Confined s owner user t) {output : Output} (own : For s owner user output) :
    SentFor t user output := by
  have answers (id : ProcId) (own : owner id = user) : ∀ p, t.procs id = some p → Answers t user p := by
    intro p found
    have answers := confined.answers id p found
    rw [own] at answers
    exact answers.mono fun _ _ => confined.browsers
  cases output with
  | sendBytes c => exact confined.devices own
  | sendUTF c => exact confined.browsers own
  | connClose c => exact own.imp confined.devices confined.browsers
  | readConfig c => exact own.imp confined.devices confined.browsers
  | writeHead id => exact answers id own
  | resWrite id => exact answers id own
  | resEnd id => exact answers id own
  | processBuffer _ _ id => exact answers id own

/-- Code that is confined to the user of the event leaves users apart. -/
theorem wp_confined (separate : Separate s) (prepared : Prepared s e s') (acts : actor s e = some user) {code : Js α}
    (keeps : ∀ owner, Confined s' owner user s' → Keeps (Confined s' owner user) code) : Wp code (fun _ t => Ends s e t) (fun _ => True) s' := by
  obtain ⟨owner, start⟩ := separate.confined prepared user
  refine wp_post ((keeps owner start).kept s' start) fun _ t confined => ⟨⟨?_, ?_, ?_, ?_, ?_⟩, owner, ?_⟩
  · obtain ⟨before, wrote, addressed⟩ := prepared.sent
    obtain ⟨outputs, out, own⟩ := confined.sent
    have sent : sentSince s t = before ++ outputs := by
      rw [sentSince, out, wrote, List.append_assoc, List.drop_left]
    intro output member
    rw [sent] at member
    rcases List.mem_append.mp member with first | rest
    · exact .inl (addressed output first)
    · exact .inr ⟨user, acts, confined.sentFor (own output rest)⟩
  · intro key other
    rw [confined.others key fun same => other (same ▸ acts), prepared.users]
  · intro key mgr ref known live other
    rw [← prepared.users] at known
    have own := (start.own key mgr known).sessions ref live
    rw [confined.procs ref.id fun same => other ?_, prepared.procs]
    rw [acts, ← same, own]
  · intro key changed
    by_cases same : t.conns key = s'.conns key
    · exact .inl (prepared.conns key (same ▸ changed))
    · by_cases before : s'.conns key = s.conns key
      · have own := confined.conns key same
        rw [DeviceOf, BrowserOf, before] at own
        exact .inr ⟨user, acts, own⟩
      · exact .inl (prepared.conns key before)
  · intro key conn found isUser
    rw [confined.whose, prepared.whose key conn found isUser]
  · exact confined.toApart.mono (fun _ _ => confined.devices) fun _ _ => confined.browsers

/-- So does what happens to its connection alone. -/
theorem Prepared.ends (separate : Separate s) (prepared : Prepared s e t) : Ends s e t := by
  obtain ⟨owner, apart⟩ := separate.apart
  have apart := apart.mono (fun _ _ => prepared.devices) prepared.browsers
  refine ⟨⟨?_, ?_, ?_, ?_, prepared.whose⟩, owner, ?_, ?_⟩
  · obtain ⟨outputs, out, addressed⟩ := prepared.sent
    intro output member
    rw [sentSince, out, List.drop_left] at member
    exact .inl (addressed output member)
  · exact fun _ _ => congrFun prepared.users _
  · exact fun _ _ _ _ _ _ => congrFun prepared.procs _
  · exact fun c changed => .inl (prepared.conns c changed)
  · rw [prepared.users]
    exact apart.own
  · rw [prepared.procs]
    exact apart.answers

section
variable (separate : Separate s)
include separate

theorem step_utf8 (found : s.conns c = some conn) (text : Text) :
    Wp (onUtf8 c text) (fun _ t => Ends s (.utf8 c text) t) (fun _ => True) s := by
  have acts : actor s (.utf8 c text) = conn.sessUsername.map .str := by rw [actor, found, Option.bind_some]
  rw [onUtf8, wp_bind, wp_getConn_of_found found, wp_ite]
  cases session : conn.sessUsername with
  | none =>
    have closing : Ends s (.utf8 c text) (s.write [.connClose c]) := (Prepared.refl.write rfl : Prepared s (.utf8 c text) (s.write [.connClose c])).ends separate
    split
    · rw [webcamProcess, wp_bind, wp_getConn_of_found found]
      simp only [session]
      exact closing
    · rw [wp_bind, textProcess, wp_bind, wp_getConn_of_found found]
      simp only [session]
      exact closing
  | some username =>
    rw [session, Option.map_some] at acts
    have browser : BrowserOf s c (.str username) := ⟨conn, username, found, session, rfl⟩
    split
    · exact wp_confined separate .refl acts fun owner _ => keeps_webcamProcess browser
    · have keeps (owner : ProcId → JsVal) : Keeps (Confined s owner (.str username)) (textProcess c text) := keeps_textProcess browser
      exact wp_confined separate .refl acts fun owner _ => inferInstance

theorem step_handshake {buffer : List Byte} {random : Fin 100000} (found : s.conns c = some conn) (isNew : conn.user = .undefined) :
    Wp (parseHandshake c conn buffer random) (fun _ t => Ends s (.binary c buffer random) t) (fun _ => True) s := by
  refine Registers.wp_parseHandshake fun username host port reply names => ?_
  have acts : actor s (.binary c buffer random) = some username := by
    rw [actor, found, Option.bind_some, if_pos isNew, names]
    rfl
  have becomes : Prepared s (.binary c buffer random)
      (s.setConn c { conn with user := username, host, port, devicename := some (decimal (random + 1)) }) := by
    refine .setConn rfl (fun conn' found' isUser => ?_) fun conn' found' => ?_
    · cases found.symm.trans found'
      exact absurd isNew isUser
    · cases found.symm.trans found'
      rfl
  have prepared : Prepared s (.binary c buffer random) ((s.setConn c
      { conn with user := username, host, port, devicename := some (decimal (random + 1)) }).write [.sendBytes c reply]) :=
    becomes.write rfl
  refine wp_confined separate prepared acts fun owner start => ?_
  have joins := (Own.getD (start.own username)).addConnByName (decimal (random + 1))
    fun isUser => ⟨isUser, { conn with user := username, host, port, devicename := some (decimal (random + 1)) },
      setConn_conns_self s c _, rfl⟩
  exact @keeps_setMgr _ owner username _ joins

theorem step_binary {buffer : List Byte} {random : Fin 100000} (found : s.conns c = some conn) :
    Wp (connectionParse c buffer random) (fun _ t => Ends s (.binary c buffer random) t) (fun _ => True) s := by
  by_cases isNew : conn.user = .undefined
  · rw [wp_connectionParse_new found isNew]
    exact step_handshake separate found isNew
  · rw [wp_connectionParse_device found isNew]
    have isUser : IsUser conn.user := ⟨isNew⟩
    have acts : actor s (.binary c buffer random) = some conn.user := by rw [actor, found, Option.bind_some, if_neg isNew]
    exact wp_confined separate .refl acts fun owner _ => keeps_parseNormalMessage ⟨isNew, conn, found, rfl⟩

theorem step_onClose (c : ConnId) : Wp (onClose c) (fun _ t => Ends s (.close c) t) (fun _ => True) s := by
  rw [onClose, wp_bind, wp_getConn]
  refine ⟨fun conn found => ?_, fun _ => trivial⟩
  rw [wp_bind, wp_setConn, wp_bind, wp_get]
  have prepared : Prepared s (.close c) (s.setConn c { conn with isOpen := false }) := by
    refine .setConn rfl (fun conn' found' _ => ?_) fun conn' found' => ?_
    · cases found.symm.trans found'
      rfl
    · cases found.symm.trans found'
      rfl
  have closed : Ends s (.close c) (s.setConn c { conn with isOpen := false }) := prepared.ends separate
  split
  next ind index =>
    have acts : actor s (.close c) = conn.sessUsername.map .str := by
      rw [actor, found, Option.bind_some, if_neg fun both => by rw [index] at both; cases both.1]
    split
    next => exact closed
    next username session =>
      rw [session, Option.map_some] at acts
      split
      next => exact closed
      next => exact wp_confined separate prepared acts fun owner _ => inferInstance
  next index =>
    rw [wp_ite]
    split
    next isDevice =>
      have acts : actor s (.close c) = some conn.user := by rw [actor, found, Option.bind_some, if_pos ⟨index, isDevice⟩]
      split
      next mgr name known _ =>
        refine wp_confined separate prepared acts fun owner start => ?_
        have leaves := (start.own conn.user mgr known).delConnByName name
        exact keeps_setMgr
      next => exact closed
    next isBrowser =>
      have acts : actor s (.close c) = conn.sessUsername.map .str := by
        rw [actor, found, Option.bind_some, if_neg fun both => isBrowser both.2]
      split
      next => exact closed
      next username session =>
        rw [session, Option.map_some] at acts
        split
        next seq _ _ => exact wp_confined separate prepared acts fun owner _ => keeps_closeForward conn seq
        next => exact closed

theorem step_prepareDevice (sid : SessId) (device : Text) :
    Wp (prepareDevice sid device) (fun _ t => Ends s (.prepareDevice sid device) t) (fun _ => True) s := by
  have idle : Ends s (.prepareDevice sid device) s := Prepared.refl.ends separate
  rw [prepareDevice, wp_bind, wp_get]
  split
  next => exact idle
  next username session =>
    have acts : actor s (.prepareDevice sid device) = some (.str username) := by rw [actor, session, Option.map_some]
    split
    next => exact idle
    next mgr known =>
      rw [wp_ite]
      split
      next => exact idle
      next =>
        split
        next => exact idle
        next target registered =>
          refine wp_confined separate .refl acts fun owner start => ?_
          have own := start.own _ mgr known
          split
          next => infer_instance
          next c =>
            have named (conn : Conn) (whose : (s.conns c).map who = some (who conn)) : Keeps (Confined s owner (.str username))
                (setConn c { conn with devicename := some device }) := keeps_setConn whose (.inl (own.current registered))
            refine keeps_getConn fun conn whose => ?_
            have named := named conn whose
            infer_instance

theorem step_sendRequest (sid : SessId) (bufs : List (List Byte)) (acts : actor s e = (s.sess sid).username.map .str) :
    Wp (sendRequest sid bufs) (fun _ t => Ends s e t) (fun _ => True) s := by
  have idle : Ends s e s := Prepared.refl.ends separate
  rw [sendRequest, wp_bind, wp_get]
  split
  next => exact idle
  next username session =>
    rw [session, Option.map_some] at acts
    split
    next => exact wp_confined separate .refl acts fun owner _ => inferInstance
    next mgr known =>
      split
      next => exact idle
      next target registered =>
        refine wp_confined separate .refl acts fun owner start => ?_
        have own := start.own _ mgr known
        have asks (seq : Nat) : Answers s (.str username) (.http ⟨username, seq, false, [], 0⟩) := rfl
        apply keeps_mgrNewSeq_then asks
        · exact keeps_pure ()
        · intro processor asked
          exact keeps_sendAll own registered asked (createReqBuffers bufs 1 processor.seq)

theorem handle_ends (enabled : Enabled s e) : Wp (handle e) (fun _ t => Ends s e t) (fun _ => True) s := by
  cases e with
  | connect c url sid =>
    rw [handle, wp_bind, wp_get, newConnection, wp_setConn]
    refine Prepared.ends separate (.setConn rfl (fun conn found => ?_) fun conn found => ?_)
    · rw [show s.conns c = none from enabled] at found
      cases found
    · rw [show s.conns c = none from enabled] at found
      cases found
  | utf8 c text =>
    obtain ⟨conn, found, _⟩ := enabled
    exact step_utf8 separate found text
  | binary c buffer random =>
    obtain ⟨conn, found, _⟩ := enabled
    exact step_binary separate found
  | close c => exact step_onClose separate c
  | login sid username =>
    rw [handle, login, wp_bind, wp_get, wp_ite]
    split
    · exact (Prepared.sess _).ends separate
    · exact Prepared.refl.ends separate
  | logout sid =>
    exact (Prepared.sess _).ends separate
  | prepareDevice sid device => exact step_prepareDevice separate sid device
  | request sid bufs => exact step_sendRequest separate sid bufs rfl
  | camsnap sid => exact step_sendRequest separate sid _ rfl
  | timeout user hostUrl =>
    obtain ⟨mgr, cam, known, found, _⟩ := enabled
    have isUser : IsUser user := by
      refine ⟨fun none => ?_⟩
      obtain ⟨owner, apart⟩ := separate.apart
      rw [(apart.own user mgr known).noCams none] at found
      cases found
    exact wp_confined separate .refl rfl fun owner _ => inferInstanceAs (Keeps _ (onTimeout user hostUrl))

theorem Separate.step (enabled : Enabled s e) (moved : step s e = some t) : Separated s e t ∧ Separate t := by
  obtain ⟨separated, apart⟩ := of_step moved (handle_ends separate enabled)
  have path := step_path separate.stocked enabled moved
  exact ⟨separated, path.stocked separate.stocked, Path.unused separate.unused path, apart⟩

end

theorem separate_init : Separate .init := by
  refine ⟨stocked_init, fun _ _ => rfl, fun _ => .undefined, fun user mgr known => ?_, fun id p found => ?_⟩
  · cases known
  · cases found

theorem separate_of_reach (reached : Reach step Enabled Starts s) : Separate s :=
  reached.invariant (fun _ starts => starts ▸ separate_init) fun _ _ _ separate enabled moved => (separate.step enabled moved).2

end

/-- What a user has at the server is as it was. -/
structure Untouched (user : JsVal) (s t : ServerState) : Prop where
  manager : t.userMap user = s.userMap user
  processors : ∀ mgr ref, s.userMap user = some mgr → Live mgr.toSessionTable ref → t.procs ref.id = s.procs ref.id

/-- The event is not for the user. -/
def ForOthers (user : JsVal) (s : ServerState) (e : Event) : Prop := Enabled s e ∧ actor s e ≠ some user

theorem untouched {s t : ServerState} {user : JsVal} {events : List Event} (separate : Separate s)
    (others : Always step (ForOthers user) s events) (ran : run step s events = some t) : Untouched user s t := by
  induction events generalizing s with
  | nil =>
    cases ran
    exact ⟨rfl, fun _ _ _ _ => rfl⟩
  | cons e rest ih =>
    obtain ⟨⟨enabled, other⟩, always⟩ := others
    obtain ⟨u, moved, ran⟩ := Option.bind_eq_some_iff.mp ran
    obtain ⟨separated, separate⟩ := separate.step enabled moved
    have after := ih separate (always u moved) ran
    have same := separated.managers user other
    refine ⟨after.manager.trans same, fun mgr ref known live => ?_⟩
    rw [after.processors mgr ref (same.trans known) live, separated.processors user mgr ref known live other]

instance (user : JsVal) (s : ServerState) (e : Event) : Decidable (ForOthers user s e) := instDecidableAnd

end WebTunnel.Server.Separating
