import WebTunnel.Device.Footprints

/-! What the device keeps in a step, from what its functions keep. -/

namespace WebTunnel.Device.Keeping
set_option synthInstance.maxSize 10000
open Library.Bytes Library.Lists Library.Routines Library.Routines.Routine Library.Run Function Device.Types Buffers
open Http Forward Tunnel Manager Frames Footprints

/-! Reading changes nothing. -/

section
variable {α : Type} {P : DevState → Prop}

instance (b : BufId) : Keeps P (getBuf b) := ⟨fun _ holds => holds⟩
instance (c : CtxId) : Keeps P (getCtx c) := ⟨fun _ holds => holds⟩
instance (k : ClientId) : Keeps P (getClient k) := ⟨fun _ holds => holds⟩
instance (f : FwdId) : Keeps P (getForward f) := ⟨fun _ holds => holds⟩
instance (slot : Nat) : Keeps P (getPollFd slot) := ⟨fun _ holds => holds⟩
instance (h : BufHead) : Keeps P (nextBufInfo h) := keeps_head h

instance (p : Prop) [Decidable p] : Keeps P (assert p) := keeps_demand p _

instance (pointer : Option α) : Keeps P (deref pointer) := by
  cases pointer with
  | none => exact keeps_stop _
  | some a => exact keeps_pure a

instance (b : BufId) (offset len : Int) : Keeps P (bytesAt b offset len) := by
  unfold bytesAt
  infer_instance

instance (seq : Nat) : Keeps P (findForward seq) := by
  unfold findForward
  infer_instance

end

/-! Frames from the server. -/

/-- What the functions that process frames keep, apart from those for forwards. -/
class Dispatches (P : DevState → Prop) : Prop where
  shaken : ∀ clientId : Nat, Keeps P (modify fun d => { d with clientId, shakehand := true } : DevM Unit) := by
    infer_instance
  releasePrepare : Keeps P releasePrepare := by infer_instance
  tunnelReq : Keeps P processTunnelReq := by infer_instance
  tunnelResp : Keeps P processTunnelResp := by infer_instance
  contextCreate : ∀ timeout, Keeps P (httpContextCreate timeout) := by infer_instance
  processed : Keeps P (setPrepare fun pbuf => { pbuf with len := 0, totalLen := 0, type := 0 }) := by infer_instance
  setSync : Keeps P (setSync false) := by infer_instance

/-- What all of them keep. The data of forwards keep it under a condition. -/
class Processes (P G : DevState → Prop) : Prop extends Dispatches P where
  forwardresp : KeepsFrom P G processTcpForwardresp
  forwardCreate : ∀ seq host port, Keeps P (tcpForwardCreate seq host port) := by infer_instance
  forwardRelease : ∀ f, Keeps P (tcpForwardRelease f) := by infer_instance

/-- The frame that is complete has data for a forward only where a condition holds. -/
def WhenData (G : DevState → Prop) (w : DevState) : Prop := w.data.bufPrepare.type = httpCForwardReq → G w

/-- The frame that is complete opens or closes a forward only where a condition holds. -/
def WhenCommand (H : DevState → Prop) (w : DevState) : Prop := w.data.bufPrepare.type = httpCForward → H w

section
variable {P G H : DevState → Prop}

section
variable [dispatches : Dispatches P]
include dispatches

theorem keeps_dispatch {type : Nat} (noData : type ≠ httpCForwardReq) (noCommand : type ≠ httpCForward) :
    Keeps P (dispatch type) := by
  have prepare := dispatches.releasePrepare
  have shaken := dispatches.shaken
  have tunnelReq := dispatches.tunnelReq
  have tunnelResp := dispatches.tunnelResp
  have create := dispatches.contextCreate
  have none (code : DevM Unit) : Keeps P (when (type = httpCForwardReq) code) := by
    rw [when, if_neg noData]
    infer_instance
  unfold dispatch
  rw [if_neg noCommand]
  refine @keeps_ite _ _ _ _ _ _ _ _ _ _ _ _ _ (keeps_next fun b => ?_) _
  cases b <;> infer_instance

/-- The data of a forward. -/
theorem wp_dispatch_data (data : KeepsFrom P G processTcpForwardresp) {w : DevState} (holds : P w) (guarded : G w) :
    Wp (dispatch httpCForwardReq) (fun _ v => P v) (fun _ => True) w := by
  have prepare := dispatches.releasePrepare
  rw [dispatch, if_neg (by decide), if_neg (by decide), if_neg (by decide), if_neg (by decide),
    if_neg (by decide), wp_bind, wp_when]
  refine ⟨fun _ => ?_, fun other => absurd rfl other⟩
  rw [wp_bind]
  refine wp_post (data.kept w holds guarded) fun rc v holds => ?_
  have rest : Keeps P (do when (rc ≠ 0) releasePrepare; releasePrepare : DevM Unit) := inferInstance
  have kept := rest.kept v holds
  rwa [wp_bind] at kept

/-- A command for a forward. -/
theorem wp_dispatch_command (command : KeepsFrom P H processTcpForward) {w : DevState} (holds : P w) (guarded : H w) :
    Wp (dispatch httpCForward) (fun _ v => P v) (fun _ => True) w := by
  have prepare := dispatches.releasePrepare
  rw [dispatch, if_neg (by decide), if_neg (by decide), if_neg (by decide), if_neg (by decide), if_pos rfl, wp_bind]
  refine wp_post (command.kept w holds guarded) fun rc v holds => ?_
  have rest : Keeps P (when (rc ≠ 0) releasePrepare : DevM Unit) := inferInstance
  exact rest.kept v holds

theorem keepsFrom_prepareProcess (command : KeepsFrom P H processTcpForward)
    (data : KeepsFrom P G processTcpForwardresp) :
    KeepsFrom P (fun w => WhenCommand H w ∧ WhenData G w) prepareProcess := by
  have processed := dispatches.processed
  have set := dispatches.setSync
  have done : Keeps P (do
      setPrepare fun pbuf => { pbuf with len := 0, totalLen := 0, type := 0 }
      setSync false : DevM Unit) := inferInstance
  refine ⟨fun w holds guarded => ?_⟩
  have dispatched : Wp (dispatch w.data.bufPrepare.type) (fun _ v => P v) (fun _ => True) w := by
    by_cases isData : w.data.bufPrepare.type = httpCForwardReq
    · rw [isData]
      exact wp_dispatch_data data holds (guarded.2 isData)
    · by_cases isCommand : w.data.bufPrepare.type = httpCForward
      · rw [isCommand]
        exact wp_dispatch_command command holds (guarded.1 isCommand)
      · exact (keeps_dispatch isData isCommand).kept w holds
  rw [prepareProcess, wp_bind, wp_data, wp_bind]
  exact wp_post dispatched fun _ v holds => done.kept v holds

end

variable [processes : Processes P G]
include processes

theorem keeps_forwardCommand : Keeps P forwardCommand := by
  have create := processes.forwardCreate
  have release := processes.forwardRelease
  have prepare := processes.releasePrepare
  unfold forwardCommand
  refine keeps_next fun d => keeps_next fun _ => keeps_next fun b => keeps_next fun seq =>
    keeps_next fun port => keeps_next fun type => ?_
  refine @keeps_ite _ _ _ _ _ _ _ _ _ _ _ _ _ (keeps_next fun f => ?_) _
  cases f <;> infer_instance

theorem keeps_processTcpForward : Keeps P processTcpForward := by
  have command := keeps_forwardCommand (P := P) (G := G)
  unfold processTcpForward
  infer_instance

theorem keeps_prepareProcess : KeepsFrom P (WhenData G) prepareProcess := by
  have command := keeps_processTcpForward (P := P) (G := G)
  have guarded := keepsFrom_prepareProcess (H := fun _ => True) inferInstance processes.forwardresp
  exact ⟨fun w holds data => guarded.kept w holds ⟨fun _ => trivial, data⟩⟩

end

/-! A step, function by function. -/

/-- The calls that a step makes. -/
inductive Call where
  | receive (buf : List Byte)
  | process
  | writable
  | delFd (fd : Int)
  | server
  | http (c : CtxId) (revents : PollEvents)
  | client (k : ClientId) (revents : PollEvents)
  | forward (f : FwdId)
  | execute (c : CtxId)
  | readyClient (k : ClientId)
  | expire (c : CtxId)
  | reconnect

/-- What the functions of the manager keep, where they are called in states that meet a
condition, and what does not depend on the clock and the answers of the system. -/
class Steady (P : DevState → Prop) (g : Call → DevState → Prop) : Prop where
  tick : ∀ w now replies, P w → P { w with data := { w.data with now, replies } }
  process : KeepsFrom P (g .process) prepareProcess
  collect : ∀ buf, KeepsFrom P (g (.receive buf)) (collect buf) := by infer_instance
  writeAgain : Keeps P websocketWriteAgain := by infer_instance
  writeable : KeepsFrom P (g .writable) callbackWriteable := by infer_instance
  addFd : ∀ fd events, Keeps P (mgmtAddFd fd events) := by infer_instance
  delFd : ∀ fd, KeepsFrom P (g (.delFd fd)) (mgmtDelFd fd) := by infer_instance
  setPollFd : ∀ slot pfd, Keeps P (setPollFd slot pfd) := by infer_instance
  poll : ∀ revents : Nat → PollEvents, Keeps P (modify fun d => { d with
    pollfds := fun slot =>
      if slot < d.countPollfds then { d.pollfds slot with revents := revents slot } else d.pollfds slot } : DevM Unit)
    := by infer_instance
  alive : Keeps P (modify fun d => { d with lastAliveTime := d.now } : DevM Unit) := by infer_instance
  server : KeepsFrom P (g .server) serviceServer := by infer_instance
  http : ∀ c revents, KeepsFrom P (g (.http c revents)) (serviceHttp c revents) := by infer_instance
  client : ∀ k revents, KeepsFrom P (g (.client k revents)) (serviceClient k revents) := by infer_instance
  forward : ∀ f, KeepsFrom P (g (.forward f)) (serviceForward f) := by infer_instance
  executeAll : Keeps P (modify fun d => { d with
    running := d.listReady 0 ++ d.listReady 1
    listReady := update (update d.listReady 0 []) 1 [] } : DevM Unit) := by infer_instance
  execute : ∀ c, KeepsFrom P (g (.execute c)) (httpContextExecute c) := by infer_instance
  readyClient : ∀ k, KeepsFrom P (g (.readyClient k)) (runReadyClient k) := by infer_instance
  expire : ∀ c, KeepsFrom P (g (.expire c)) (forceRelease c) := by infer_instance
  unsync : Keeps P (modify fun d => { d with syncPrepare := false } : DevM Unit) := by infer_instance
  closed : Keeps P websocketClosed := by infer_instance
  releasePrepare : KeepsFrom P (g .reconnect) releasePrepare := by infer_instance
  paramInit : Keeps P httpMgmtParamInit := by infer_instance

/-- The context, client or forward of a descriptor is called. -/
def Owner.call (revents : PollEvents) : Owner → Call
  | .server => .server
  | .http c => .http c revents
  | .client k => .client k revents
  | .forward f => .forward f

section
variable (g : Call → DevState → Prop)

/-- The conditions of the calls that are made for a descriptor. -/
def ServiceAllowed (slot : Nat) (w : DevState) : Prop :=
  (w.data.pollfds slot).revents ≠ 0 → ∀ owner, w.data.httpLookup (w.data.pollfds slot).fd = some owner →
    g (Owner.call (w.data.pollfds slot).revents owner) w

/-- The state after the clock was read because a descriptor has something to report. -/
def DevState.alive (w : DevState) : DevState :=
  { w with data := { w.data with lastAliveTime := w.data.now } }

/-- Those of the clients that are ready and of the listening socket. -/
def ServerRunAllowed (w : DevState) : Prop :=
  ForEach (fun k => g (.readyClient k)) runReadyClient w.data.listClient w ∧
    ∀ v, (w.data.listClient.forM runReadyClient).run w = .ok ((), v) →
      v.data.tcpServer.status = .ready → g .server v

def ExecuteAllowed (l : List CtxId) (w : DevState) : Prop :=
  ForEach (fun c => g (.execute c)) httpContextExecute l w ∧
    ∀ v, (l.forM httpContextExecute).run w = .ok ((), v) → ServerRunAllowed g v

def RunAllowed (w : DevState) : Prop :=
  ExecuteAllowed g (w.data.listReady 0 ++ w.data.listReady 1)
    { w with data := { w.data with
      running := w.data.listReady 0 ++ w.data.listReady 1
      listReady := update (update w.data.listReady 0 []) 1 [] } }

/-- Those of the contexts at the beginning of a list whose time has run out. -/
def ExpireAllowed : List CtxId → DevState → Prop
  | [], _ => True
  | c :: rest, w => (w.data.ctxs c).timeout ≤ w.data.now →
      g (.expire c) w ∧ ∀ v, (forceRelease c).run w = .ok ((), v) → ExpireAllowed rest v

/-- Those of a fragment, and of a frame that is complete with it. -/
def ReceiveAllowed (buf : List Byte) (w : DevState) : Prop :=
  g (.receive buf) w ∧ ∀ v, (collect buf).run w = .ok (.complete, v) → g .process v

def ReconnectAllowed (w : DevState) : Prop :=
  g .reconnect w ∧ ∀ v, releasePrepare.run w = .ok ((), v) →
    ForEach (fun c => g (.expire c)) forceRelease v.data.listTimeout v

def EventAllowed (w : DevState) : Event → Prop
  | .receive buf => ReceiveAllowed g buf w
  | .writable => g .writable w
  | .delPollFd fd => g (.delFd fd) w
  | .service slot => ServiceAllowed g slot (DevState.alive w)
  | .run => RunAllowed g w
  | .runTimeout => ExpireAllowed g w.data.listTimeout w
  | .reconnect => ReconnectAllowed g w
  | .established | .addPollFd _ _ | .changeModePollFd _ _ | .poll _ => True

/-- The state in which the event of an occasion is handled. -/
def DevState.at (w : DevState) (o : Occasion) : DevState :=
  { w with data := { w.data with now := o.now, replies := o.replies } }

/-- Every call that is made for what happens to the device is made in a state that meets its
condition. -/
def Allowed (w : DevState) (o : Occasion) : Prop := EventAllowed g (DevState.at w o) o.event

end

section
variable {P : DevState → Prop} {g : Call → DevState → Prop} [steady : Steady P g] {w : DevState}
include steady

theorem wp_httpMgmtPrepare {buf : List Byte} (holds : P w) (allowed : ReceiveAllowed g buf w) :
    Wp (httpMgmtPrepare buf) (fun _ v => P v) (fun _ => True) w := by
  rw [httpMgmtPrepare, wp_bind]
  refine wp_post (wp_and ((steady.collect buf).kept w holds allowed.1) (wp_ran _ w)) fun r v ⟨holds, ran⟩ => ?_
  cases r with
  | returned rc => exact holds
  | complete =>
    rw [wp_bind]
    exact wp_post (steady.process.kept v holds (allowed.2 v ran)) fun _ _ holds => holds

theorem wp_serviceOwner {owner : Owner} {revents : PollEvents} (holds : P w) (allowed : g (Owner.call revents owner) w) :
    Wp (serviceOwner owner revents) (fun _ v => P v) (fun _ => True) w := by
  cases owner with
  | server => exact steady.server.kept w holds allowed
  | http c => exact (steady.http c revents).kept w holds allowed
  | client k =>
    rw [serviceOwner, wp_bind, wp_data, wp_bind, wp_demand]
    exact ⟨fun _ => (steady.client k revents).kept w holds allowed, fun _ => trivial⟩
  | forward f =>
    rw [serviceOwner, wp_bind, wp_data, wp_bind, wp_demand]
    exact ⟨fun _ => (steady.forward f).kept w holds allowed, fun _ => trivial⟩

theorem wp_httpMgmtService {slot : Nat} (holds : P w) (allowed : ServiceAllowed g slot w) :
    Wp (httpMgmtService slot) (fun _ v => P v) (fun _ => True) w := by
  have set := steady.setPollFd
  have clear : Keeps P (clearRevents slot) := by
    unfold clearRevents
    infer_instance
  rw [httpMgmtService, wp_bind, getPollFd, wp_bind, wp_data, wp_pure, wp_ite]
  split
  next => exact holds
  next some =>
    rw [wp_bind, wp_data]
    split
    next => exact holds
    next owner found =>
      rw [wp_bind]
      refine wp_post (wp_serviceOwner (g := g) holds (allowed some owner found)) fun _ v holds => ?_
      rw [wp_bind]
      exact wp_post (clear.kept v holds) fun _ _ holds => holds

theorem wp_releaseExpired {l : List CtxId} (holds : P w) (allowed : ExpireAllowed g l w) :
    Wp (releaseExpired l) (fun _ v => P v) (fun _ => True) w := by
  induction l generalizing w with
  | nil => exact holds
  | cons c rest ih =>
    rw [releaseExpired, wp_bind, wp_data, wp_when]
    refine ⟨fun expired => ?_, fun _ => holds⟩
    obtain ⟨allowed, later⟩ := allowed expired
    rw [wp_bind]
    refine wp_post (wp_and ((steady.expire c).kept w holds allowed) (wp_ran _ w)) fun _ v ⟨holds, ran⟩ => ?_
    exact ih holds (later v ran)

theorem wp_httpMgmtReleaseAll (holds : P w) (allowed : ReconnectAllowed g w) :
    Wp httpMgmtReleaseAll (fun _ v => P v) (fun _ => True) w := by
  rw [httpMgmtReleaseAll, wp_bind]
  refine wp_post (wp_and (steady.releasePrepare.kept w holds allowed.1) (wp_ran _ w)) fun _ v ⟨holds, ran⟩ => ?_
  rw [wp_bind, wp_data]
  exact wp_forM_of_each steady.expire holds (allowed.2 v ran)

theorem wp_tcpServerRun (holds : P w) (allowed : ServerRunAllowed g w) :
    Wp tcpServerRun (fun _ v => P v) (fun _ => True) w := by
  rw [tcpServerRun, wp_bind, wp_data, wp_bind]
  refine wp_post (wp_and (wp_forM_of_each steady.readyClient holds allowed.1) (wp_ran _ w))
    fun _ v ⟨holds, ran⟩ => ?_
  rw [wp_bind, wp_data, wp_when]
  exact ⟨fun ready => steady.server.kept v holds (allowed.2 v ran ready), fun _ => holds⟩

theorem wp_httpMgmtRun (holds : P w) (allowed : RunAllowed g w) :
    Wp httpMgmtRun (fun _ v => P v) (fun _ => True) w := by
  have unsync := steady.unsync
  have closed := steady.closed
  have all := steady.executeAll.kept w holds
  rw [wp_modify] at all
  have rest : Keeps P (do
      let d ← data
      when (d.syncPrepare ∧ httpTimeoutSecs < d.now - d.syncTime) do
        modify fun d => { d with syncPrepare := false }
      when (4 * httpTimeoutSecs < d.now - d.lastAliveTime) websocketClosed : DevM Unit) := inferInstance
  rw [httpMgmtRun, wp_bind, wp_data, wp_bind, wp_modify, wp_bind]
  refine wp_post (wp_and (wp_forM_of_each steady.execute all allowed.1) (wp_ran _ _)) fun _ v ⟨holds, ran⟩ => ?_
  rw [wp_bind, wp_data, wp_bind, wp_demand]
  refine ⟨fun _ => ?_, fun _ => trivial⟩
  rw [wp_bind]
  exact wp_post (wp_tcpServerRun (g := g) holds (allowed.2 v ran)) fun _ v holds => rest.kept v holds

theorem wp_handle {e : Event} (holds : P w) (allowed : EventAllowed g w e) :
    Wp (handle e) (fun _ v => P v) (fun _ => True) w := by
  have kept {code : DevM Unit} (keeps : Keeps P code) : Wp code (fun _ v => P v) (fun _ => True) w :=
    keeps.kept w holds
  cases e with
  | established => exact kept steady.writeAgain
  | receive buf =>
    rw [handle, wp_bind]
    exact wp_post (wp_httpMgmtPrepare (g := g) holds allowed) fun _ _ holds => holds
  | writable =>
    rw [handle, wp_bind]
    exact wp_post (steady.writeable.kept w holds allowed) fun _ _ holds => holds
  | addPollFd fd events =>
    have add := steady.addFd
    unfold handle
    exact kept inferInstance
  | delPollFd fd =>
    rw [handle, wp_bind]
    exact wp_post ((steady.delFd fd).kept w holds allowed) fun _ _ holds => holds
  | changeModePollFd fd events =>
    have set := steady.setPollFd
    unfold handle
    exact kept inferInstance
  | poll revents => exact kept (steady.poll revents)
  | service slot =>
    have alive := steady.alive.kept w holds
    rw [wp_modify] at alive
    rw [handle, wp_bind, getPollFd, wp_bind, wp_data, wp_pure, wp_bind, wp_when]
    constructor
    · intro _
      rw [wp_modify, wp_bind]
      exact wp_post (wp_httpMgmtService (g := g) alive allowed) fun _ _ holds => holds
    · intro none
      rw [wp_bind]
      exact wp_post (wp_httpMgmtService (g := g) holds fun some => absurd some none) fun _ _ holds => holds
  | run => exact wp_httpMgmtRun (g := g) holds allowed
  | runTimeout =>
    rw [handle, httpMgmtRunTimeout, wp_bind, wp_data]
    exact wp_releaseExpired (g := g) holds allowed
  | reconnect =>
    rw [handle, wp_bind]
    exact wp_post (wp_httpMgmtReleaseAll (g := g) holds allowed) fun _ v holds => steady.paramInit.kept v holds

theorem step_keeps {v : DevState} {o : Occasion} (holds : P w) (allowed : Allowed g w o)
    (moved : step w o = some v) : P v := by
  unfold step at moved
  split at moved
  next u ran =>
    cases moved
    exact wp_of_run ran (wp_handle (g := g) (steady.tick w o.now o.replies holds) allowed)
  next => cases moved

/-- Where the steps keep it, every state reached from one that has it has it. -/
theorem reach_keeps {init : DevState → Prop} (start : ∀ w, init w → P w)
    (reached : Reach step (Allowed g) init w) : P w :=
  reached.invariant start fun _ _ _ holds allowed moved => step_keeps (g := g) holds allowed moved

end

/-! Conditions of some of the calls only. -/

theorem forEach_of_forall {α : Type} {guard : α → DevState → Prop} {body : α → DevM Unit} {l : List α} {w : DevState}
    (always : ∀ a w, guard a w) : ForEach guard body l w := by
  induction l generalizing w with
  | nil => trivial
  | cons a rest ih => exact ⟨always a w, fun _ _ => ih⟩

theorem expireAllowed_of_forall {g : Call → DevState → Prop} {l : List CtxId} {w : DevState}
    (always : ∀ c w, g (.expire c) w) : ExpireAllowed g l w := by
  induction l generalizing w with
  | nil => trivial
  | cons c rest ih => exact fun _ => ⟨always c w, fun _ _ => ih⟩

/-- The calls that are not made for a frame or for a descriptor. -/
def Call.inner : Call → Prop
  | .writable | .delFd _ | .execute _ | .readyClient _ | .expire _ | .reconnect | .server => True
  | .receive _ | .process | .http _ _ | .client _ _ | .forward _ => False

theorem allowed_of_inner {g : Call → DevState → Prop} {w : DevState} {o : Occasion}
    (inner : ∀ call w, call.inner → g call w)
    (receive : ∀ buf, o.event = .receive buf → ReceiveAllowed g buf (DevState.at w o))
    (service : ∀ slot, o.event = .service slot → ServiceAllowed g slot (DevState.alive (DevState.at w o))) :
    Allowed g w o := by
  unfold Allowed
  cases happened : o.event with
  | receive buf => exact receive buf happened
  | service slot => exact service slot happened
  | run =>
    exact ⟨forEach_of_forall fun c w => inner (.execute c) w trivial, fun v _ =>
      ⟨forEach_of_forall fun k w => inner (.readyClient k) w trivial, fun v _ _ => inner .server v trivial⟩⟩
  | runTimeout => exact expireAllowed_of_forall fun c w => inner (.expire c) w trivial
  | reconnect =>
    exact ⟨inner .reconnect _ trivial, fun v _ => forEach_of_forall fun c w => inner (.expire c) w trivial⟩
  | writable => exact inner .writable _ trivial
  | delPollFd fd => exact inner (.delFd fd) _ trivial
  | established | addPollFd | changeModePollFd | poll => trivial

theorem allowed_always (w : DevState) (o : Occasion) : Allowed (fun _ _ => True) w o :=
  allowed_of_inner (fun _ _ _ => trivial) (fun _ _ => ⟨trivial, fun _ _ => trivial⟩) fun _ _ _ _ _ => trivial

/-- What the functions keep wherever they are called is kept in every run. -/
theorem reach_keeps_always {P : DevState → Prop} [Steady P fun _ _ => True] {init : DevState → Prop}
    (start : ∀ w, init w → P w) {w : DevState} (reached : Reach step (fun _ _ => True) init w) : P w :=
  reach_keeps (g := fun _ _ => True) start (reached.mono fun w o _ => allowed_always w o)

/-! Testing the conditions along a run. -/

section
variable (check : Call → DevState → Bool)

def eachHere {α : Type} (check : α → DevState → Bool) (body : α → DevM Unit) : List α → DevState → Bool
  | [], _ => true
  | a :: rest, w => check a w &&
    match (body a).run w with
    | .ok (_, v) => eachHere check body rest v
    | .error _ => true

def expireHere : List CtxId → DevState → Bool
  | [], _ => true
  | c :: rest, w => !decide ((w.data.ctxs c).timeout ≤ w.data.now) || check (.expire c) w &&
    match (forceRelease c).run w with
    | .ok (_, v) => expireHere rest v
    | .error _ => true

def serverRunHere (w : DevState) : Bool :=
  eachHere (fun k => check (.readyClient k)) runReadyClient w.data.listClient w &&
    match (w.data.listClient.forM runReadyClient).run w with
    | .ok (_, v) => check .server v
    | .error _ => true

def executeHere (l : List CtxId) (w : DevState) : Bool :=
  eachHere (fun c => check (.execute c)) httpContextExecute l w &&
    match (l.forM httpContextExecute).run w with
    | .ok (_, v) => serverRunHere check v
    | .error _ => true

def eventHere (w : DevState) : Event → Bool
  | .receive buf => check (.receive buf) w &&
    match (collect buf).run w with
    | .ok (.complete, v) => check .process v
    | _ => true
  | .writable => check .writable w
  | .delPollFd fd => check (.delFd fd) w
  | .service slot =>
    match w.data.httpLookup (w.data.pollfds slot).fd with
    | some owner => check (Owner.call (w.data.pollfds slot).revents owner) (DevState.alive w)
    | none => true
  | .run => executeHere check (w.data.listReady 0 ++ w.data.listReady 1)
    { w with data := { w.data with
      running := w.data.listReady 0 ++ w.data.listReady 1
      listReady := update (update w.data.listReady 0 []) 1 [] } }
  | .runTimeout => expireHere check w.data.listTimeout w
  | .reconnect => check .reconnect w &&
    match releasePrepare.run w with
    | .ok (_, v) => eachHere (fun c => check (.expire c)) forceRelease v.data.listTimeout v
    | .error _ => true
  | .established | .addPollFd _ _ | .changeModePollFd _ _ | .poll _ => true

def allowedHere (w : DevState) (o : Occasion) : Bool := eventHere check (DevState.at w o) o.event

end

section
variable {check : Call → DevState → Bool} {g : Call → DevState → Prop}

theorem forEach_of_here {α : Type} {check : α → DevState → Bool} {guard : α → DevState → Prop}
    (sound : ∀ a w, check a w = true → guard a w) {body : α → DevM Unit} {l : List α} {w : DevState}
    (passes : eachHere check body l w = true) : ForEach guard body l w := by
  induction l generalizing w with
  | nil => trivial
  | cons a rest ih =>
    rw [eachHere, Bool.and_eq_true] at passes
    refine ⟨sound a w passes.1, fun v ran => ih ?_⟩
    have later := passes.2
    rwa [ran] at later

variable (sound : ∀ call w, check call w = true → g call w)
include sound

theorem expireAllowed_of_here {l : List CtxId} {w : DevState} (passes : expireHere check l w = true) :
    ExpireAllowed g l w := by
  induction l generalizing w with
  | nil => trivial
  | cons c rest ih =>
    intro expired
    simp only [expireHere, expired, decide_true, Bool.not_true, Bool.false_or, Bool.and_eq_true] at passes
    refine ⟨sound _ w passes.1, fun v ran => ih ?_⟩
    have later := passes.2
    rwa [ran] at later

theorem serverRunAllowed_of_here {w : DevState} (passes : serverRunHere check w = true) : ServerRunAllowed g w := by
  rw [serverRunHere, Bool.and_eq_true] at passes
  refine ⟨forEach_of_here (fun k => sound (.readyClient k)) passes.1, fun v ran _ => sound .server v ?_⟩
  have later := passes.2
  rwa [ran] at later

theorem executeAllowed_of_here {l : List CtxId} {w : DevState} (passes : executeHere check l w = true) :
    ExecuteAllowed g l w := by
  rw [executeHere, Bool.and_eq_true] at passes
  refine ⟨forEach_of_here (fun c => sound (.execute c)) passes.1, fun v ran => serverRunAllowed_of_here sound ?_⟩
  have later := passes.2
  rwa [ran] at later

/-- A step that passes the test of every call that is made. -/
theorem allowed_of_here {w : DevState} {o : Occasion} (passes : allowedHere check w o = true) : Allowed g w o := by
  unfold allowedHere at passes
  unfold Allowed
  revert passes
  generalize DevState.at w o = w
  cases o.event with
  | receive buf =>
    intro passes
    rw [eventHere, Bool.and_eq_true] at passes
    refine ⟨sound _ w passes.1, fun v ran => sound .process v ?_⟩
    have later := passes.2
    rwa [ran] at later
  | writable => exact sound _ w
  | delPollFd fd => exact sound _ w
  | service slot =>
    intro passes some owner found
    replace found : w.data.httpLookup (w.data.pollfds slot).fd = .some owner := found
    rw [eventHere, found] at passes
    exact sound _ _ passes
  | run => exact executeAllowed_of_here sound
  | runTimeout => exact expireAllowed_of_here sound
  | reconnect =>
    intro passes
    rw [eventHere, Bool.and_eq_true] at passes
    refine ⟨sound _ w passes.1, fun v ran => forEach_of_here (fun c => sound (.expire c)) ?_⟩
    have later := passes.2
    rwa [ran] at later
  | established | addPollFd | changeModePollFd | poll => exact fun _ => trivial

end

/-- The test of a step by a test of every call that is made in it. -/
def everyCall {g : Call → DevState → Prop} (test : Test fun w call => g call w) : Test (Allowed g) where
  passes := allowedHere fun call w => test.passes w call
  sound _ _ := allowed_of_here fun call w => test.sound w call

end WebTunnel.Device.Keeping
