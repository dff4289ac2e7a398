import WebTunnel.Device.Stranding

/-! Forwards that have not connected yet: nothing is read or written for them, and what ends
their attempt is their own function. -/

namespace WebTunnel.Device.Connecting
set_option synthInstance.maxSize 10000
open Library.Bytes Library.Lists Library.Routines Library.Routines.Routine Library.Run Function Device.Types Buffers
open Http Forward Tunnel Manager Frames Footprints Keeping Stranding Reassembly Server.Wire

/-- `connect` was called for the forward. -/
def Issued (f : FwdId) (acts : List Act) : Prop := ∃ host port, .connect (.forward f) host port ∈ acts

/-- Bytes were read or written for the forward. -/
def moves (f : FwdId) : Act → Prop
  | .read o _ | .write o _ => o = .forward f
  | _ => False

/-- Nothing was read or written for the forward before it connected. The last act is the first. -/
def Ordered (f : FwdId) : List Act → Prop
  | [] => True
  | act :: rest => (moves f act → Issued f rest) ∧ Ordered f rest

/-- What is true of a forward in every state: unless it is still to connect it has called
`connect`, and so it has wherever it has moved bytes. -/
structure Begun (f : FwdId) (w : DevState) : Prop where
  issued : (w.data.forwards f).funcRun ≠ .connect → Issued f w.data.acts
  ordered : Ordered f w.data.acts

def Pending (f : FwdId) (w : DevState) : Prop := (w.data.forwards f).funcRun = .connect

section
variable {f : FwdId} {acts : List Act}

theorem Issued.append (issued : Issued f acts) (new : List Act) : Issued f (new ++ acts) := by
  obtain ⟨host, port, member⟩ := issued
  exact ⟨host, port, List.mem_append_right new member⟩

theorem Ordered.append (ordered : Ordered f acts) {new : List Act}
    (allowed : Issued f acts ∨ ∀ act ∈ new, ¬ moves f act) : Ordered f (new ++ acts) := by
  induction new with
  | nil => exact ordered
  | cons act rest ih =>
    refine ⟨fun moved => ?_, ih ?_⟩
    · rcases allowed with issued | silent
      · exact issued.append rest
      · exact absurd moved (silent act List.mem_cons_self)
    · exact allowed.imp_right fun silent act member => silent act (List.mem_cons_of_mem _ member)

end

/-! What does not concern a forward. -/

/-- The parts of the manager apart from the state of one forward. -/
def beside (f : FwdId) : Set Part := {part | part ≠ .forward f}

/-- What is done without moving bytes for it. -/
def silently (f : FwdId) : Set Act := {act | ¬ moves f act}

section
variable {f : FwdId} {w v : DevState}

theorem Begun.framed (begun : Begun f w) (frame : Frame (beside f) (silently f) w v) : Begun f v := by
  obtain ⟨new, same, only⟩ := frame.done
  have funcRun := frame.forward f fun member => member rfl
  refine ⟨fun other => ?_, ?_⟩
  · rw [funcRun] at other
    rw [same]
    exact (begun.issued other).append new
  · rw [same]
    exact begun.ordered.append (.inr only)

theorem Pending.framed {acts : Set Act} (pending : Pending f w) (frame : Frame (beside f) acts w v) : Pending f v := by
  have same := frame.forward f fun member => member rfl
  unfold Pending
  rw [same]
  exact pending

/-- What depends on one forward, whose status does not matter for it. -/
class Concerns (f : outParam FwdId) (P : DevState → Prop) : Prop where
  framed : ∀ w v, Frame (beside f) (silently f) w v → P w → P v
  tick : ∀ w now replies, P w → P { w with data := { w.data with now, replies } }
  status : ∀ w status, P w → P ⟨w.data.setForward f { w.data.forwards f with status }, w.rings⟩
  new : ∀ w fwd, fwd.funcRun = .connect → P w → P ⟨w.data.setForward f fwd, w.rings⟩

instance : Concerns f (Begun f) where
  framed _ _ frame begun := begun.framed frame
  tick _ _ _ begun := ⟨begun.issued, begun.ordered⟩
  status w status begun := by
    refine ⟨fun other => begun.issued ?_, begun.ordered⟩
    simpa only [HttpMgmt.setForward, update_self] using other
  new w fwd connect begun := by
    refine ⟨fun other => absurd connect ?_, begun.ordered⟩
    simpa only [HttpMgmt.setForward, update_self] using other

instance : Concerns f (Pending f) where
  framed _ _ frame pending := pending.framed frame
  tick _ _ _ pending := pending
  status w status pending := by
    simpa only [Pending, HttpMgmt.setForward, update_self] using pending
  new w fwd connect _ := by
    simpa only [Pending, HttpMgmt.setForward, update_self] using connect

section
variable (f : FwdId)

instance : Allows (beside f) .prepare := ⟨nofun⟩
instance : Allows (beside f) .sync := ⟨nofun⟩
instance : Allows (beside f) .shake := ⟨nofun⟩
instance : Allows (beside f) .queue := ⟨nofun⟩
instance : Allows (beside f) .polls := ⟨nofun⟩
instance : Allows (beside f) .schedule := ⟨nofun⟩
instance : Allows (beside f) .alive := ⟨nofun⟩
instance : Allows (beside f) .forwardList := ⟨nofun⟩
instance : Allows (beside f) .forwardCount := ⟨nofun⟩
instance (h : BufHead) : Allows (beside f) (.fill h) := ⟨nofun⟩
instance : Allows (silently f) .writeAgain := ⟨id⟩
instance : Allows (silently f) .goWritable := ⟨id⟩
instance : Allows (silently f) .closed := ⟨id⟩
instance (o : Owner) : Allows (silently f) (.release o) := ⟨id⟩
instance (o : Owner) (fd : Int) : Allows (silently f) (.socket o fd) := ⟨id⟩
instance (o : Owner) (events : PollEvents) : Allows (silently f) (.interest o events) := ⟨id⟩
instance (o : Option Owner) (type seq : Nat) (bufs : List (List Byte)) :
    Allows (silently f) (.queue o type seq bufs) := ⟨id⟩

instance : Within (beside f) (silently f) websocketWriteAgain := within_note _
instance : Within (beside f) (silently f) websocketClosed := within_note _

instance : Within (beside f) (silently f) (setSync sync) := by
  unfold setSync
  infer_instance

/-- What is done for another context moves no bytes for the forward. -/
theorem doing_subset {o : Owner} (other : o ≠ .forward f) : doing o ⊆ silently f := by
  intro act done moved
  cases act <;> first | exact moved | exact other (done.symm.trans moved)

instance : HttpWithin (beside f) (silently f) where
  parts c := by simp [httpParts, beside, Set.insert_subset_iff]
  acts c := doing_subset f nofun

instance : ClientsWithin (beside f) (silently f) where
  parts := by
    rintro part (rfl | ⟨k, member⟩)
    · nofun
    · rintro rfl
      simp [clientParts] at member
  acts := by
    rintro act ⟨k, done⟩
    exact doing_subset f (o := .client k) nofun done

instance : ParserWithin (beside f) := ⟨by simp [parserParts, beside, Set.insert_subset_iff]⟩

instance : QueueWithin (beside f) (silently f) where
  parts := by simp [queueParts, beside, Set.insert_subset_iff]
  acts := by
    intro act done moved
    cases act <;> first | exact moved | exact done

end

end

/-! What keeps what concerns one forward. -/

section
variable {f : FwdId} {P : DevState → Prop} [concerns : Concerns f P] {α : Type}
include concerns

instance keeps_beside (code : DevM α) [within : Within (beside f) (silently f) code] : Keeps P code :=
  keeps_of_within within concerns.framed

/-- Another forward does what it does. -/
theorem keeps_of_other {f' : FwdId} (other : f' ≠ f) (code : DevM α)
    [within : Within (forwardParts f') (doing (.forward f')) code] : Keeps P code := by
  have apart : Within (beside f) (silently f) code := by
    refine within.mono ?_ (doing_subset f (by simpa using other))
    intro part member
    rintro rfl
    simp [forwardParts, other.symm] at member
  exact keeps_beside code

theorem keeps_setForward_connect {f' : FwdId} {fwd : TcpForwardContext} (connect : fwd.funcRun = .connect) :
    Keeps P (setForward f' fwd) := by
  by_cases same : f' = f
  · subst same
    exact ⟨fun w holds => concerns.new w fwd connect holds⟩
  · exact keeps_of_other same _

instance keeps_tcpForwardRelease (f' : FwdId) : Keeps P (tcpForwardRelease f') := by
  by_cases same : f' = f
  · subst same
    have closing : Within (beside f') (silently f') (tcpForwardClosing f') := by
      unfold tcpForwardClosing
      refine within_next fun b => ?_
      cases b <;> infer_instance
    have rest : Keeps P (do
        let d ← data
        demand (f' ∈ d.listForward) .list
        modify fun d => { d with listForward := d.listForward.erase f' }
        let fwd ← getForward f'
        when (0 < fwd.fwdFd) do dropFd fwd.fwdFd
        freeBuf fwd.bufWrite.curr
        listSplice (.fwdWrite f') .caches
        modify fun d => { d with lenForward := d.lenForward - 1 } : DevM Unit) := inferInstance
    unfold tcpForwardRelease
    refine keeps_next fun _ => keeps_next fun _ => ⟨fun w holds => ?_⟩
    rw [wp_bind, wp_getForward, wp_bind, wp_setForward]
    exact rest.kept _ (concerns.status w .finish holds)
  · exact keeps_of_other same _

instance : Keeps P (tcpForwardCreate seq host port) := by
  have opened (sockfd : Int) (address : Nat) : Keeps P (forwardOpen sockfd address port seq) := by
    have connect (f' : FwdId) (pfd : Option Nat) : Keeps P (setForward f'
        { line := .start
          status := .ready
          funcRun := .connect
          bufWrite := .zero
          idle := true
          pfd
          fwdFd := sockfd
          host := address
          port
          seq }) := keeps_setForward_connect rfl
    unfold forwardOpen
    infer_instance
  unfold tcpForwardCreate
  infer_instance

end

/-! The functions a forward runs. -/

/-- The forward has called `connect`, so that it may go on as it likes. -/
structure Started (f : FwdId) (w : DevState) : Prop where
  issued : Issued f w.data.acts
  ordered : Ordered f w.data.acts

section
variable {f : FwdId} {α : Type} {parts : Set Part} {acts : Set Act}

theorem keeps_started {code : DevM α} (within : Within parts acts code) : Keeps (Started f) code := by
  refine keeps_of_within within fun w v frame started => ?_
  obtain ⟨new, same, _⟩ := frame.done
  refine ⟨?_, ?_⟩
  · rw [same]
    exact started.issued.append new
  · rw [same]
    exact started.ordered.append (.inl started.issued)

theorem Started.begun {w : DevState} (started : Started f w) : Begun f w := ⟨fun _ => started.issued, started.ordered⟩

theorem Begun.started {w : DevState} (begun : Begun f w) (other : (w.data.forwards f).funcRun ≠ .connect) :
    Started f w := ⟨begun.issued other, begun.ordered⟩

theorem wp_of_started {code : DevM α} [within : Within (forwardParts f) (doing (.forward f)) code] {w : DevState}
    (started : Started f w) : Wp code (fun _ v => Begun f v) (fun _ => True) w :=
  wp_post ((keeps_started within).kept w started) fun _ _ started => started.begun

/-- A forward that has not called `connect` does not find its slot reporting that the socket
can be written, and nothing else. -/
def Unreported (f : FwdId) (w : DevState) : Prop :=
  (w.data.forwards f).funcRun = .connect → Issued f w.data.acts ∨
    ∀ slot, (w.data.forwards f).pfd = some slot → (w.data.pollfds slot).revents ≠ pollOut

/-- What comes before the decision how the attempt went has called `connect`. -/
theorem wp_attempt {w : DevState} {slot : Nat} {fwd : TcpForwardContext} (begun : Begun f w)
    (unreported : Issued f w.data.acts ∨ (w.data.pollfds slot).revents ≠ pollOut) :
    Wp (if (w.data.pollfds slot).revents = pollOut then pure 0 else sysConnect (.forward f) fwd.host fwd.port)
      (fun _ v => Started f v) (fun _ => True) w := by
  rw [wp_ite]
  split
  next reported =>
    exact ⟨unreported.resolve_right fun other => other reported, begun.ordered⟩
  next =>
    rw [sysConnect, wp_bind, wp_note]
    have rest : Within ∅ ∅ (do number (← reply) : DevM Int) := inferInstance
    refine (keeps_started rest).kept _ ⟨⟨fwd.host, fwd.port, List.mem_cons_self⟩, fun moved => moved.elim, begun.ordered⟩

theorem wp_tcpForwardConnect {w : DevState} (begun : Begun f w)
    (connecting : (w.data.forwards f).funcRun = .connect) (unreported : Unreported f w) :
    Wp (tcpForwardConnect f) (fun _ v => Begun f v) (fun _ => True) w := by
  rw [tcpForwardConnect, wp_bind, wp_getForward]
  split
  case h_4 =>
    simp only [setForwardLine, wp_bind, wp_getForward, wp_setForward, wp_pure]
    refine ⟨fun other => absurd connecting ?_, begun.ordered⟩
    simpa only [HttpMgmt.setForward, update_self] using other
  all_goals
    rw [wp_bind, wp_deref]
    refine ⟨fun slot found => ?_, fun _ => trivial⟩
    rw [wp_bind, getPollFd, wp_bind, wp_data, wp_pure, wp_bind]
    have reported := (unreported connecting).imp_right fun all => all slot found
    refine wp_post (wp_attempt begun reported) fun rc v started => ?_
    exact wp_of_started started

theorem wp_runForward {w : DevState} (begun : Begun f w) (unreported : Unreported f w) :
    Wp (runForward f) (fun _ v => Begun f v) (fun _ => True) w := by
  have free (other : (w.data.forwards f).funcRun ≠ .connect) {code : DevM CallerStatus}
      [Within (forwardParts f) (doing (.forward f)) code] : Wp code (fun _ v => Begun f v) (fun _ => True) w :=
    wp_of_started (begun.started other)
  rw [runForward, wp_bind, wp_getForward]
  split
  next connect => exact wp_tcpForwardConnect begun connect unreported
  next write => exact free (by rw [write]; simp)
  next read => exact free (by rw [read]; simp)

theorem wp_serviceForward {w : DevState} (begun : Begun f w) (unreported : Unreported f w) :
    Wp (serviceForward f) (fun _ v => Begun f v) (fun _ => True) w := by
  rw [serviceForward, wp_bind]
  refine wp_post (wp_runForward begun unreported) fun status v begun => ?_
  have released : Keeps (Begun f) (tcpForwardRelease f) := inferInstance
  cases status with
  | finish => exact released.kept v begun
  | pending | «continue» =>
    rw [wp_bind, wp_getForward, wp_setForward]
    exact Concerns.status v _ begun

end

/-! Data from the server. -/

/-- The forward that the data of a frame are for. -/
def target (w : DevState) : Option FwdId :=
  w.data.listForward.find? fun f => (w.data.forwards f).seq = w.data.bufPrepare.seq

/-- It has connected. -/
def Connected (w : DevState) : Prop := ∀ f, target w = some f → (w.data.forwards f).funcRun ≠ .connect

section
variable {f : FwdId}

instance : Within Set.univ Set.univ processTcpForwardresp := by
  unfold processTcpForwardresp findForward forwardToWrite setForwardLine
  refine within_next fun d => within_next fun f => ?_
  cases f <;> infer_instance

/-- The data of another forward. -/
theorem wp_processTcpForwardresp_of_other {P : DevState → Prop} [concerns : Concerns f P] {w : DevState}
    (holds : P w) (other : target w ≠ some f) :
    Wp processTcpForwardresp (fun _ v => P v) (fun _ => True) w := by
  rw [processTcpForwardresp, wp_bind, wp_data, wp_bind, findForward, wp_bind, wp_data, wp_pure]
  split
  next => exact holds
  next f' found =>
    have wake : Keeps P (forwardToWrite f') :=
      keeps_of_other (fun same => other (found.trans (congrArg some same))) _
    have rest : Keeps P (do
        listSpliceTailInit .prepare (.fwdWrite f')
        assert ((← data).bufPrepare.curr = none)
        releasePrepare
        when (← getForward f').idle do forwardToWrite f'
        return 0 : DevM Int) := inferInstance
    exact rest.kept w holds

instance : Processes (Begun f) Connected where
  forwardresp := by
    refine ⟨fun w begun connected => ?_⟩
    by_cases own : target w = some f
    · have within : Within Set.univ Set.univ processTcpForwardresp := inferInstance
      refine wp_post ((keeps_started within).kept w (begun.started (connected f own))) fun _ v started => ?_
      exact started.begun
    · exact wp_processTcpForwardresp_of_other begun own

instance : Processes (Pending f) Connected where
  forwardresp := by
    refine ⟨fun w pending connected => wp_processTcpForwardresp_of_other pending fun own => ?_⟩
    exact connected f own pending

/-! Every step. -/

/-- The conditions of calls: data arrive for forwards that have connected, and forwards that
have not called `connect` do not take another descriptor's report for their own. -/
def beginning : Call → DevState → Prop
  | .process => WhenData Connected
  | .forward f => Unreported f
  | _ => fun _ => True

/-- The forward itself is not called. -/
def leaving (f : FwdId) : Call → DevState → Prop
  | .process => WhenData Connected
  | .forward f' => fun _ => f' ≠ f
  | _ => fun _ => True

instance : Steady (Begun f) beginning where
  tick := Concerns.tick
  process := keeps_prepareProcess
  forward f' := by
    refine ⟨fun w begun unreported => ?_⟩
    by_cases same : f' = f
    · subst same
      exact wp_serviceForward begun unreported
    · exact (keeps_of_other same (serviceForward f')).kept w begun

instance : Steady (Pending f) (leaving f) where
  tick := Concerns.tick
  process := keeps_prepareProcess
  forward f' := ⟨fun w pending other => (keeps_of_other other (serviceForward f')).kept w pending⟩

end

/-! What ends an attempt to connect. -/

/-- An attempt to connect goes on, unless the forward's own function is called. -/
def Survives (f : FwdId) (w : DevState) (o : Occasion) (v : DevState) : Prop :=
  Pending f w → Pending f v ∨
    ∃ slot, o.event = .service slot ∧ w.data.httpLookup (w.data.pollfds slot).fd = some (.forward f)

/-- Where a fragment completes a frame with data, they are for a forward that has connected,
or for none. -/
def DataExpected (w : DevState) (o : Occasion) : Prop :=
  ∀ buf, o.event = .receive buf → ∀ v, (collect buf).run (DevState.at w o) = .ok (.complete, v) →
    WhenData Connected v

section
variable {f : FwdId} {w v : DevState} {o : Occasion}

theorem survives_of_expected (expected : DataExpected w o) (moved : step w o = some v) : Survives f w o v := by
  intro pending
  by_cases own : ∃ slot, o.event = .service slot ∧ w.data.httpLookup (w.data.pollfds slot).fd = some (.forward f)
  · exact .inr own
  · refine .inl (step_keeps (g := leaving f) pending (allowed_of_inner ?_ ?_ ?_) moved)
    · intro call _ inner
      cases call <;> trivial
    · intro buf happened
      exact ⟨trivial, expected buf happened⟩
    · intro slot happened _ owner found
      cases owner with
      | forward f' =>
        rintro rfl
        exact own ⟨slot, happened, found⟩
      | server | http | client => trivial

/-- Data for a forward that is still to connect make it write. -/
theorem wp_processTcpForwardresp_pending (own : target w = some f) (idle : (w.data.forwards f).idle = true) :
    Wp processTcpForwardresp (fun _ v => (v.data.forwards f).funcRun = .write) (fun _ => True) w := by
  rw [processTcpForwardresp, wp_bind, wp_data, wp_bind, findForward, wp_bind, wp_data, wp_pure]
  rw [show w.data.listForward.find? _ = some f from own]
  have before : Keeps (fun v => v.data.forwards f = w.data.forwards f) (do
      listSpliceTailInit .prepare (.fwdWrite f)
      assert ((← data).bufPrepare.curr = none)
      releasePrepare : DevM Unit) := by
    have within : Within (beside f) (silently f) (do
        listSpliceTailInit .prepare (.fwdWrite f)
        assert ((← data).bufPrepare.curr = none)
        releasePrepare : DevM Unit) := inferInstance
    exact keeps_of_within within fun w v frame same => (frame.forward f fun member => member rfl).trans same
  have kept := before.kept w rfl
  simp only [wp_bind] at kept ⊢
  refine wp_post kept fun _ u kept => wp_post kept fun d u kept => wp_post kept fun _ u kept =>
    wp_post kept fun _ u same => ?_
  rw [wp_getForward, wp_when]
  refine ⟨fun _ => ?_, fun busy => absurd (same ▸ idle) busy⟩
  rw [forwardToWrite, wp_bind, wp_getForward, wp_bind, wp_setForward, wp_bind]
  refine wp_setEvents fun pollfds events => ?_
  simp only [setForwardLine, wp_bind, wp_getForward, wp_setForward, wp_pure, HttpMgmt.setForward, update_self]

/-- The rest of the processing leaves it so. -/
theorem wp_prepareProcess_pending (type : w.data.bufPrepare.type = httpCForwardReq) (own : target w = some f)
    (idle : (w.data.forwards f).idle = true) :
    Wp prepareProcess (fun _ v => (v.data.forwards f).funcRun = .write) (fun _ => True) w := by
  have keeps {α : Type} (code : DevM α) [within : Within (beside f) (silently f) code] :
      Keeps (fun v => (v.data.forwards f).funcRun = .write) code :=
    keeps_of_within within fun w v frame write => by rw [frame.forward f fun member => member rfl]; exact write
  have after (rc : Int) := keeps (do
      when (rc ≠ 0) releasePrepare
      releasePrepare
      setPrepare fun pbuf => { pbuf with len := 0, totalLen := 0, type := 0 }
      setSync false : DevM Unit)
  rw [prepareProcess, wp_bind, wp_data, type, wp_bind, dispatch, if_neg (by decide), if_neg (by decide),
    if_neg (by decide), if_neg (by decide), if_neg (by decide), wp_bind, wp_when]
  refine ⟨fun _ => ?_, fun other => absurd rfl other⟩
  rw [wp_bind]
  refine wp_post (wp_processTcpForwardresp_pending own idle) fun rc v write => ?_
  have kept := (after rc).kept v write
  simpa only [wp_bind] using kept

theorem expected_of_survives (all : AllServed w) (moved : step w o = some v)
    (survive : ∀ f, Survives f w o v) : DataExpected w o := by
  rintro buf happened u ran type f own connect
  have collected : Within parserParts ∅ (collect buf) := inferInstance
  have same : u.data.forwards f = w.data.forwards f :=
    (wp_of_run ran (collected.frame _)).forward f (by simp [parserParts])
  have served : AllServed u := wp_of_run ran ((inferInstance : Keeps AllServed (collect buf)).kept _ fun f => all f)
  have write : (v.data.forwards f).funcRun = .write := by
    unfold step at moved
    rw [happened] at moved
    split at moved
    next v' ran' =>
      cases moved
      suffices wrote : Wp (handle (.receive buf)) (fun _ v => (v.data.forwards f).funcRun = .write) (fun _ => True) _ from
        wp_of_run ran' wrote
      have process := wp_prepareProcess_pending type own ((served f).resting_of_other (by rw [connect]; simp)).1
      rw [handle, wp_bind, httpMgmtPrepare]
      refine (wp_bind_of_run ran).mpr ?_
      rw [wp_bind]
      exact wp_post process fun _ _ write => write
    next => cases moved
  rw [same] at connect
  rcases survive f connect with pending | ⟨slot, other, _⟩
  · cases pending.symm.trans write
  · cases happened.symm.trans other

/-- In every run in which data arrive only for forwards that have connected, nothing is read
or written for a forward before `connect` was called for it, nothing is queued for one that
is still to connect, and an attempt to connect survives what happens next exactly if this
does not bring data for the forward. -/
theorem connects_first (reached : Reach step (Allowed beginning) Starts w) :
    (∀ f, Begun f w) ∧ (∀ f, Pending f w → ∀ l, w.rings.items (.fwdWrite f) = some l → l = []) ∧
      ∀ o v, step w o = some v → ((∀ f, Survives f w o v) ↔ DataExpected w o) := by
  have all := reach_keeps_always (P := AllServed) (fun _ => served_at_start) (reached.mono fun _ _ _ => trivial)
  refine ⟨fun f => ?_, fun f pending => ?_, fun o v moved => ⟨expected_of_survives all moved, ?_⟩⟩
  · refine reach_keeps (P := Begun f) (g := beginning) ?_ reached
    rintro w ⟨username, localHost, localPort, maxFds, servFd, now, rfl⟩
    exact ⟨fun other => absurd rfl other, trivial⟩
  · exact ((all f).resting_of_other (by rw [pending]; simp)).2.2
  · exact fun expected f => survives_of_expected expected moved

end

/-! A forward that connects before its data arrive, and one that does not. -/

def callsConnect (f : FwdId) : Act → Bool
  | .connect (.forward f') _ _ => f' = f
  | _ => false

theorem issued_of_any {f : FwdId} {acts : List Act} : acts.any (callsConnect f) = true ↔ Issued f acts := by
  rw [List.any_eq_true]
  constructor
  · rintro ⟨act, member, calls⟩
    unfold callsConnect at calls
    split at calls
    next f' host port =>
      rw [decide_eq_true_eq] at calls
      subst calls
      exact ⟨host, port, member⟩
    next => cases calls
  · rintro ⟨host, port, member⟩
    exact ⟨_, member, decide_eq_true rfl⟩

def beginsHere : Test fun w call => beginning call w where
  passes
    | w, .process =>
      decide (w.data.bufPrepare.type = httpCForwardReq → ∀ f ∈ target w, (w.data.forwards f).funcRun ≠ .connect)
    | w, .forward f => w.data.acts.any (callsConnect f) ||
      decide (∀ slot ∈ (w.data.forwards f).pfd, (w.data.pollfds slot).revents ≠ pollOut)
    | _, _ => true
  sound w call passes := by
    cases call with
    | process => exact fun type f own => of_decide_eq_true passes type f own
    | forward f =>
      rw [Bool.or_eq_true, decide_eq_true_eq] at passes
      exact fun _ => passes.imp issued_of_any.mp fun other slot same => other slot same
    | _ => trivial

def openFrame : List Byte := headerBytes httpCForward 7 (openPayload.length + httpCHeaderLen) ++ openPayload

def dataFrame : List Byte := headerBytes httpCForwardReq 7 ((text "hello").length + httpCHeaderLen) ++ text "hello"

def connectsThenWrites : List Occasion :=
  [⟨.receive openFrame, 1, [.value 5, .value 0x0a000001]⟩,
    ⟨.poll fun _ => pollHup, 1, []⟩,
    ⟨.service 1, 1, [.fail .inProgress]⟩,
    ⟨.poll fun _ => pollOut, 2, []⟩,
    ⟨.service 1, 2, []⟩,
    ⟨.receive dataFrame, 3, []⟩,
    ⟨.poll fun _ => pollOut, 4, []⟩,
    ⟨.service 1, 4, [.value 5]⟩]

def written (w : DevState) : Bool :=
  w.data.acts.any fun act => match act with
    | .write (.forward 0) bytes => bytes = text "hello"
    | _ => false

theorem connectsThenWrites_written :
    ((everyCall beginsHere).run step device connectsThenWrites).map written = some true := by
  decide +kernel

theorem connects_first_written : ∃ w, written w = true ∧ Begun 0 w := by
  obtain ⟨w, ran, has⟩ := Option.map_eq_some_iff.mp connectsThenWrites_written
  exact ⟨w, has, (connects_first (Test.reach Reassembly.device_starts ran)).1 0⟩

/-- The data arrive before the first event of the socket, on which the forward is going to write them. -/
def earlyData : List Occasion :=
  [⟨.receive openFrame, 1, [.value 5, .value 0x0a000001]⟩,
    ⟨.receive dataFrame, 1, []⟩,
    ⟨.poll fun _ => pollOut ||| pollHup, 2, []⟩]

def writesUnconnected (w : DevState) : Bool :=
  decide ((w.data.forwards 0).funcRun ≠ .connect) && !w.data.acts.any (callsConnect 0)

theorem earlyData_writesUnconnected : (run step device earlyData).map writesUnconnected = some true := by
  decide +kernel

theorem early_data_unconnected : ¬ ∀ w, Reach step (fun _ _ => True) Starts w → ∀ f, Begun f w := by
  intro always
  obtain ⟨w, ran, has⟩ := Option.map_eq_some_iff.mp earlyData_writesUnconnected
  have begun := always w (reach_of_free_run Reassembly.device_starts ran) 0
  simp only [writesUnconnected, Bool.and_eq_true, Bool.not_eq_true', decide_eq_true_eq] at has
  have issued := issued_of_any.mpr (begun.issued has.1)
  rw [has.2] at issued
  cases issued

end WebTunnel.Device.Connecting
