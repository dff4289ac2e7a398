import WebTunnel.Device.Keeping
import WebTunnel.Device.Reassembly

/-! The handshake of a connection: which messages are written on it until the server replies, and
whether any was queued for the connection before it. -/

namespace WebTunnel.Device.Shaking
set_option synthInstance.maxSize 10000
open Library.Bytes Library.Lists Library.Routines Library.Routines.Routine Library.Run Function Device.Types Buffers Pool
open Http Forward Tunnel Frames Footprints Keeping
open Manager hiding step

/-! Messages. -/

def messageOf : Act → Option (List Byte)
  | .websocketWrite bytes => some bytes
  | _ => none

/-- The messages that were written, the last first. -/
def messages (acts : List Act) : List (List Byte) := acts.filterMap messageOf

/-- Those that were written between two states. -/
def messagesSince (w v : DevState) : List (List Byte) :=
  (messages v.data.acts).take ((messages v.data.acts).length - (messages w.data.acts).length)

/-- A message is a frame for a handshake. -/
def isHandshake (bytes : List Byte) : Bool := (readHeader bytes).any (·.type = httpCHand)

/-- A message on a connection: whether it was written after the server's reply, and whether its buffer
had been queued for an earlier connection. -/
structure Message where
  bytes : List Byte
  replied : Bool
  left : Bool

/-- The device, the buffers in its queue that have hung there since the connection before, and the
messages written on the connection, the last first. -/
structure Connection where
  device : DevState
  left : List BufId
  sent : List Message

namespace Connection

def after (t : Connection) (o : Occasion) (v : DevState) : Connection :=
  match o.event with
  | .reconnect => ⟨v, (v.rings.items .toserver).getD [], []⟩
  | _ =>
    { device := v
      left := t.left.filter fun b => v.rings.home b = some .toserver
      sent := (messagesSince t.device v).map (fun bytes =>
        ⟨bytes, t.device.data.shakehand, t.left.any fun b => v.rings.home b ≠ some .toserver⟩) ++ t.sent }

def step (t : Connection) (o : Occasion) : Option Connection := (Manager.step t.device o).map (t.after o)

def Starts (t : Connection) : Prop := Manager.Starts t.device ∧ t.left = [] ∧ t.sent = []

/-- The handshakes that were written before the server's reply. -/
def handshakes (t : Connection) : List Message := t.sent.filter fun m => !m.replied && isHandshake m.bytes

/-- The first message is the handshake, it is the only one before the reply, and nothing is written that
was queued for the connection before. -/
structure ShakesFirst (t : Connection) : Prop where
  first : ∀ m ∈ t.sent.getLast?, m.bytes = shakeMessage t.device.data ∧ isHandshake m.bytes
  once : t.handshakes.length ≤ 1 ∧ (t.device.data.shakehand → t.handshakes.length = 1)
  fresh : ∀ m ∈ t.sent, m.left = false

/-- A connection is lost with nothing in the queue, the device may write before the reply only if it has
not yet written, and replies come to handshakes only. -/
def Orderly (t : Connection) (o : Occasion) : Prop :=
  match o.event with
  | .reconnect => t.device.rings.items .toserver = some []
  | .writable => t.device.data.shakehand ∨ t.sent = []
  | .receive buf => t.sent = [] → ∀ v, (collect buf).run (DevState.at t.device o) = .ok (.complete, v) →
      v.data.bufPrepare.type ≠ httpCHand
  | _ => True

end Connection

/-! What writes no message, and does not end the handshake. -/

/-- All but what the handshake sets. -/
def unshaken : Set Part := {part | part ≠ .shake}

/-- Acts that are no messages. -/
def silent : Set Act := {act | messageOf act = none}

section

instance (c : CtxId) : Allows unshaken (.ctx c) := ⟨by simp [unshaken]⟩
instance (k : ClientId) : Allows unshaken (.client k) := ⟨by simp [unshaken]⟩
instance (f : FwdId) : Allows unshaken (.forward f) := ⟨by simp [unshaken]⟩
instance : Allows unshaken .schedule := ⟨by simp [unshaken]⟩
instance : Allows unshaken .polls := ⟨by simp [unshaken]⟩
instance : Allows unshaken .prepare := ⟨by simp [unshaken]⟩
instance : Allows unshaken .sync := ⟨by simp [unshaken]⟩
instance : Allows unshaken .queue := ⟨by simp [unshaken]⟩
instance : Allows unshaken .alive := ⟨by simp [unshaken]⟩
instance (h : BufHead) : Allows unshaken (.fill h) := ⟨by simp [unshaken]⟩
instance : Allows silent .writeAgain := ⟨rfl⟩
instance : Allows silent .closed := ⟨rfl⟩

variable {parts : Set Part}

instance : HttpWithin unshaken silent where
  parts c := by simp [httpParts, unshaken, Set.insert_subset_iff]
  acts c := by
    intro act done
    cases act <;> first | rfl | cases done

instance : ClientsWithin unshaken silent where
  parts := by
    rintro part (rfl | ⟨k, member⟩)
    · simp [unshaken]
    · revert part
      simp [clientParts, unshaken]
  acts := by
    rintro act ⟨k, done⟩
    cases act <;> first | rfl | cases done

instance (f : FwdId) : ForwardWithin f unshaken silent where
  parts := by simp [forwardParts, unshaken, Set.insert_subset_iff]
  acts := by
    intro act done
    cases act <;> first | rfl | cases done

instance : ParserWithin unshaken := ⟨by simp [parserParts, unshaken, Set.insert_subset_iff]⟩

instance : Within unshaken silent websocketWriteAgain := within_note _
instance : Within unshaken silent websocketClosed := within_note _

instance : Within unshaken silent (setSync sync) := by
  unfold setSync
  infer_instance

instance : Within unshaken silent (tcpForwardCreate seq host port) := by
  have within : Within forwardsParts doingForwards (tcpForwardCreate seq host port) := inferInstance
  apply within.mono
  · rintro part (rfl | ⟨f, member⟩)
    · simp [unshaken]
    · revert part
      simp [forwardParts, unshaken]
  · rintro act ⟨f, done⟩
    cases act <;> first | rfl | cases done

instance : Within unshaken silent (findForward seq) := by
  unfold findForward
  infer_instance

instance : Within unshaken silent forwardCommand := by
  unfold forwardCommand
  refine within_next fun d => within_next fun o => within_next fun b => within_next fun bytes => within_next fun bytes' =>
    within_next fun bytes'' => ?_
  apply @within_ite _ _ _ _ _ _ _ ?_ inferInstance
  apply within_next
  intro f
  cases f <;> infer_instance

instance : Within unshaken silent processTcpForward := by
  unfold processTcpForward
  infer_instance

instance : Within unshaken silent (forwardToWrite f) := within_of_forward f

instance : Within unshaken silent processTcpForwardresp := by
  unfold processTcpForwardresp
  apply within_next
  intro d
  apply within_next
  intro f
  cases f <;> infer_instance

theorem within_dispatch {type : Nat} (other : type ≠ httpCHand) : Within unshaken silent (dispatch type) := by
  unfold dispatch
  rw [if_neg other]
  infer_instance

/-- The server's reply. -/
theorem within_dispatch_reply : Within Set.univ silent (dispatch httpCHand) := by
  unfold dispatch
  rw [if_pos rfl]
  apply within_next
  intro b
  cases b <;> infer_instance

theorem wp_prepareProcess_of_dispatch {parts : Set Part} {w : DevState} [Allows parts .prepare] [Allows parts .sync]
    (dispatched : Within parts silent (dispatch w.data.bufPrepare.type)) :
    Wp prepareProcess (fun _ v => Frame parts silent w v) (fun _ => True) w := by
  have rest : Within parts silent (do
      dispatch w.data.bufPrepare.type
      setPrepare fun pbuf => { pbuf with len := 0, totalLen := 0, type := 0 }
      modify fun d => { d with syncPrepare := false, syncTime := d.now } : DevM Unit) := inferInstance
  exact rest.frame w

instance : Within unshaken silent (serviceOwner owner revents) := by
  cases owner with
  | server => exact inferInstanceAs (Within unshaken silent serviceServer)
  | http c => exact inferInstanceAs (Within unshaken silent (serviceHttp c revents))
  | client k =>
    unfold serviceOwner
    infer_instance
  | forward f =>
    unfold serviceOwner
    infer_instance

instance : Within unshaken silent (httpMgmtService slot) := by
  unfold httpMgmtService clearRevents
  refine within_next fun pfd => @within_ite _ _ _ _ _ _ _ inferInstance (within_next fun d => ?_)
  split <;> infer_instance

instance : Within unshaken silent tcpServerCallback := by
  have clients : ClientsWithin unshaken silent := inferInstance
  have within : Within clientsParts doingClients tcpServerCallback := inferInstance
  exact within.mono clients.parts clients.acts

instance : Within unshaken silent (setServer change) := by
  have clients : ClientsWithin unshaken silent := inferInstance
  have within : Within clientsParts doingClients (setServer change) := inferInstance
  exact within.mono clients.parts clients.acts

instance : Within unshaken silent tcpServerRun := by
  unfold tcpServerRun
  infer_instance

instance : Within unshaken silent httpMgmtRun := by
  unfold httpMgmtRun
  infer_instance

instance : Within unshaken silent (releaseExpired l) := by
  induction l with
  | nil => exact within_pure ()
  | cons c rest ih =>
    unfold releaseExpired
    infer_instance

/-- What no message, no frame and no loss of the connection comes of. -/
def Event.plain : Event → Prop
  | .receive _ | .writable | .reconnect => False
  | _ => True

theorem within_handle {e : Event} (plain : Event.plain e) : Within unshaken silent (handle e) := by
  cases e with
  | receive buf => exact plain.elim
  | writable => exact plain.elim
  | reconnect => exact plain.elim
  | established => exact inferInstanceAs (Within unshaken silent websocketWriteAgain)
  | poll revents =>
    apply within_modify
    intro w
    exact { Frame.refl w with polls := fun out => absurd (allowed (s := unshaken)) out }
  | runTimeout =>
    unfold handle httpMgmtRunTimeout
    infer_instance
  | _ =>
    unfold handle
    infer_instance

end

/-! A fragment writes nothing, and only a reply ends the handshake. -/

section
variable {w : DevState} {buf : List Byte}

instance (code : DevM α) [within : Within unshaken silent code] : Keeps (fun w => w.data.shakehand = true) code := by
  apply keeps_of_within within
  intro w v frame replied
  exact (frame.shake (by simp [unshaken])).1.trans replied

instance : Keeps (fun w => w.data.shakehand = true)
    (modify fun d => { d with clientId, shakehand := true } : DevM Unit) := ⟨fun _ _ => rfl⟩

instance : Keeps (fun w => w.data.shakehand = true) (dispatch httpCHand) := by
  unfold dispatch
  rw [if_pos rfl]
  apply keeps_next
  intro b
  cases b <;> infer_instance

/-- What a fragment does to the handshake. -/
structure Received (buf : List Byte) (w v : DevState) : Prop where
  frame : Frame Set.univ silent w v
  stays : w.data.shakehand = true → v.data.shakehand = true
  unanswered : (∀ u, (collect buf).run w = .ok (.complete, u) → u.data.bufPrepare.type ≠ httpCHand) →
    v.data.shakehand = w.data.shakehand

theorem Received.plainly {v : DevState} (frame : Frame unshaken silent w v) : Received buf w v := by
  have same := (frame.shake (by simp [unshaken])).1
  exact ⟨frame.mono (Set.subset_univ _) (subset_refl _), same.trans, fun _ => same⟩

theorem wp_receive : Wp (handle (.receive buf)) (fun _ v => Received buf w v) (fun _ => True) w := by
  have collected : Within unshaken silent (collect buf) := inferInstance
  rw [handle, wp_bind, httpMgmtPrepare, wp_bind]
  apply wp_post (wp_and (collected.frame w) (wp_ran _ w))
  intro r u both
  obtain ⟨first, ran⟩ := both
  cases r with
  | returned rc => exact .plainly first
  | complete =>
    rw [wp_bind]
    by_cases reply : u.data.bufPrepare.type = httpCHand
    · have processed : Within Set.univ silent (dispatch u.data.bufPrepare.type) := reply ▸ within_dispatch_reply
      have kept : Keeps (fun w => w.data.shakehand = true) (dispatch u.data.bufPrepare.type) := reply ▸ inferInstance
      have stays : Keeps (fun w => w.data.shakehand = true) (do
          dispatch u.data.bufPrepare.type
          setPrepare fun pbuf => { pbuf with len := 0, totalLen := 0, type := 0 }
          setSync false : DevM Unit) := inferInstance
      have answered (v : DevState) (second : Frame Set.univ silent u v)
          (still : w.data.shakehand = true → v.data.shakehand = true) : Received buf w v :=
        { frame := (first.mono (Set.subset_univ _) (subset_refl _)).trans second
          stays := still
          unanswered := fun none => absurd reply (none u ran) }
      have framed := wp_prepareProcess_of_dispatch processed
      by_cases replied : w.data.shakehand = true
      · apply wp_post (wp_and framed (stays.kept u ((first.shake (by simp [unshaken])).1.trans replied)))
        intro _ v both
        exact answered v both.1 fun _ => both.2
      · apply wp_post framed
        intro _ v second
        exact answered v second fun already => absurd already replied
    · have processed := wp_prepareProcess_of_dispatch (within_dispatch reply)
      apply wp_post processed
      intro _ v second
      exact .plainly (first.trans second)

end

/-! The loss of the connection puts nothing into the queue. -/

def undelivered : Set Part := {part | part ≠ .fill .toserver}

section

instance (c : CtxId) : Allows undelivered (.ctx c) := ⟨by simp [undelivered]⟩
instance : Allows undelivered .schedule := ⟨by simp [undelivered]⟩
instance : Allows undelivered .polls := ⟨by simp [undelivered]⟩
instance : Allows undelivered .prepare := ⟨by simp [undelivered]⟩
instance : Allows undelivered .sync := ⟨by simp [undelivered]⟩
instance : Allows undelivered .queue := ⟨by simp [undelivered]⟩
instance : Allows undelivered .shake := ⟨by simp [undelivered]⟩
instance : Allows undelivered .alive := ⟨by simp [undelivered]⟩
instance : Allows undelivered (.fill .caches) := ⟨by simp [undelivered]⟩

instance : Within undelivered Set.univ (unready c) := by
  unfold unready
  infer_instance

instance : Within undelivered Set.univ (freeContext c) := by
  unfold freeContext
  infer_instance

instance : Within undelivered Set.univ (httpContextRelease c) := by
  unfold httpContextRelease
  infer_instance

instance : Within undelivered Set.univ (forceRelease c) := by
  unfold forceRelease
  infer_instance

instance : Within undelivered Set.univ (handle .reconnect) := by
  unfold handle httpMgmtReleaseAll
  infer_instance

variable {w : DevState}

/-- Where the queue was empty it has nothing left for the next connection. -/
theorem wp_reconnect (empty : w.rings.items .toserver = some []) :
    Wp (handle .reconnect) (fun _ v => (v.rings.items .toserver).getD [] = [] ∧ v.data.shakehand = false) (fun _ => True)
      w := by
  have frame : Wp (handle .reconnect) (fun _ v => Frame undelivered Set.univ w v) (fun _ => True) w := Within.frame w
  have cleared : Wp (handle .reconnect) (fun _ v => v.data.shakehand = false) (fun _ => True) w := by
    rw [handle, wp_bind]
    apply wp_of_forall
    intro _ v
    rw [httpMgmtParamInit, wp_modify]
  apply wp_post (wp_and cleared frame)
  intro _ v both
  obtain ⟨cleared, frame⟩ := both
  constructor
  · cases found : v.rings.items .toserver with
    | none => rfl
    | some l =>
      apply List.eq_nil_iff_forall_not_mem.mpr
      intro b member
      have sits := frame.filled .toserver (by simp [undelivered]) l found b member
      exact absurd (Rings.mem_of_home sits empty) List.not_mem_nil
  · exact cleared

end

/-! The first call of a connection writes the handshake. -/

section
variable {w v : DevState} {new : List Act}

theorem messages_of_silent (quiet : ∀ act ∈ new, act ∈ silent) : messages new = [] :=
  List.filterMap_eq_nil_iff.mpr quiet

theorem messagesSince_of_acts (done : v.data.acts = new ++ w.data.acts) : messagesSince w v = messages new := by
  rw [messagesSince, done, messages, messages, List.filterMap_append, List.length_append, Nat.add_sub_cancel,
    List.take_left]
  rfl

theorem messagesSince_of_frame {parts : Set Part} (frame : Frame parts silent w v) : messagesSince w v = [] := by
  obtain ⟨new, done, quiet⟩ := frame.done
  rw [messagesSince_of_acts done, messages_of_silent quiet]

theorem shakeMessage_of_frame {parts : Set Part} {acts : Set Act} (frame : Frame parts acts w v) :
    shakeMessage v.data = shakeMessage w.data := by
  obtain ⟨_, name, host, port, _⟩ := frame.fixed
  rw [shakeMessage, shakeMessage, shakeText, shakeText, name, host, port]

theorem shakeMessage_length (d : HttpMgmt) : (shakeMessage d).length = (shakeText d).length + httpCHeaderLen := by
  rw [shakeMessage, headerMem]
  simp only [List.length_append, bytesLE_length, httpCHeaderLen]
  omega

theorem isHandshake_shakeMessage {d : HttpMgmt} (short : (shakeText d).length < 512) : isHandshake (shakeMessage d) := by
  have laid : shakeMessage d =
      Server.Wire.headerBytes httpCHand 0 ((shakeText d).length + httpCHeaderLen) ++ shakeText d := by
    simp only [shakeMessage, headerMem, Server.Wire.headerBytes, bytesLE_htonl]
    rfl
  have fits : (shakeText d).length + httpCHeaderLen < 2 ^ 32 := by
    rw [httpCHeaderLen]
    omega
  rw [isHandshake, laid, Receiving.readHeader_headerBytes (by decide) (by decide) fits]
  rfl

theorem wp_fillBuf {b : BufId} {bytes : List Byte} {len : Int} {post : Unit → DevState → Prop} {err : Fault → Prop}
    (fits : bytes.length ≤ bufRoom) : Wp (fillBuf b bytes len) post err w ↔
      post () { w with data := w.data.setBuf b ⟨(w.data.bufs b).buf.write 0 bytes, 0, len, len⟩ } := by
  have inside : (0 : Int) ≤ 0 ∧ (0 : Int) + bytes.length ≤ bufRoom := ⟨le_refl 0, by omega⟩
  rw [fillBuf, wp_bind, wp_memcpy]
  simp only [inside, and_self, forall_const, not_true_eq_false, false_implies, and_true, wp_bind, wp_getBuf, wp_setBuf,
    setBuf_setBuf, setBuf_bufs, Int.toNat_zero]

/-- The buffer of the handshake is the one that is written next. -/
structure Handed (b : BufId) (w v : DevState) : Prop where
  curr : v.data.bufToserver.curr = some b
  len : (v.data.bufs b).len = (shakeMessage w.data).length
  bytes : (v.data.bufs b).buf.slice 0 (shakeMessage w.data).length = shakeMessage w.data
  short : (shakeText w.data).length < 512
  acts : v.data.acts = .queue none httpCHand 0 [shakeMessage w.data] :: w.data.acts

theorem wp_httpMgmtHandshake : Wp httpMgmtHandshake (fun _ v => ∃ b, Handed b w v) (fun _ => True) w := by
  rw [httpMgmtHandshake, wp_bind, wp_data, wp_bind, wp_demand]
  refine ⟨fun short => ?_, fun _ => trivial⟩
  rw [wp_bind]
  apply wp_allocBuf_returns
  · rw [wp_bind, wp_deref]
    constructor
    · intro b none
      cases none
    · exact fun _ => trivial
  · intro b R sits home
    have size : (shakeMessage w.data).length ≤ bufRoom := by
      rw [shakeMessage_length, bufRoom, httpBufSize, httpCHeaderLen]
      omega
    rw [wp_bind, wp_deref]
    constructor
    case right => exact fun none => by cases none
    intro a same
    cases same
    rw [wp_bind, wp_fillBuf size, wp_bind, listAdd, wp_perform]
    refine ⟨fun S done => ?_, fun _ => trivial⟩
    obtain ⟨l, found, _, items, _⟩ := Rings.add_effect done
    rw [wp_bind, wp_note, wp_bind, nextBufInfo, wp_head]
    refine ⟨fun l' found' => ?_, fun _ => trivial⟩
    rw [wp_bind, setToserver, wp_modify, wp_modify]
    have front : l' = b :: l := by
      have same := congrFun items .toserver
      rw [update_self] at same
      exact Option.some.inj (found'.symm.trans same)
    subst front
    refine ⟨b, rfl, ?_, ?_, short, rfl⟩
    · apply (congrArg BufInfo.len (setBuf_bufs _ _)).trans
      rw [shakeMessage_length, Nat.cast_add]
    · apply (congrArg (fun info : BufInfo => info.buf.slice 0 (shakeMessage w.data).length) (setBuf_bufs _ _)).trans
      dsimp only
      exact Mem.slice_write _ _ _

theorem messagesSince_written {b : BufId} {u : DevState} (handed : Handed b w u) (frame : Frame unshaken silent
    { u with data := u.data.note (.websocketWrite (shakeMessage w.data)) } v) :
    messagesSince w v = [shakeMessage w.data] := by
  obtain ⟨new, done, quiet⟩ := frame.done
  have all : v.data.acts = (new ++ [.websocketWrite (shakeMessage w.data),
      .queue none httpCHand 0 [shakeMessage w.data]]) ++ w.data.acts := by
    rw [done, HttpMgmt.note, handed.acts, List.append_assoc]
    rfl
  rw [messagesSince_of_acts all, messages, List.filterMap_append, ← messages, messages_of_silent quiet]
  rfl

theorem wp_callbackWriteable_unshaken (waiting : w.data.shakehand = false) :
    Wp callbackWriteable (fun _ v => messagesSince w v = [shakeMessage w.data] ∧ (shakeText w.data).length < 512)
      (fun _ => True) w := by
  have first : Wp (when (¬ w.data.shakehand) httpMgmtHandshake) (fun _ v => ∃ b, Handed b w v) (fun _ => True) w := by
    rw [wp_when]
    exact ⟨fun _ => wp_httpMgmtHandshake, fun shaken => absurd waiting (by simpa using shaken)⟩
  rw [callbackWriteable, wp_bind, wp_data, wp_bind]
  apply wp_post first
  intro _ u handed
  obtain ⟨b, handed⟩ := handed
  rw [httpMgmtWritable, wp_bind, wp_data, wp_bind, wp_assert]
  refine ⟨fun _ => ?_, fun _ => trivial⟩
  rw [handed.curr, wp_bind, wp_bind, wp_getBuf, wp_bind, wp_assert]
  refine ⟨fun _ => ?_, fun _ => trivial⟩
  rw [wp_bind, wp_bytesAt]
  refine ⟨fun _ => ?_, fun _ => trivial⟩
  rw [handed.len, Int.toNat_zero, Int.toNat_natCast, handed.bytes, websocketWrite, wp_bind, wp_bind, wp_note]
  have rest : Within unshaken silent (do
      let n ← number (← reply)
      listDel b
      freeBuf (some b)
      let rc : Int ← pure (if n < 0 ∨ n < (shakeMessage w.data).length then -1 else 0)
      let curr ← nextBufInfo .toserver
      setToserver fun pbuf => { pbuf with curr }
      askAgain curr.isSome
      return rc : DevM Int) := by
    unfold askAgain
    infer_instance
  have written := wp_post (rest.frame { u with data := u.data.note (.websocketWrite (shakeMessage w.data)) })
    fun _ v frame => (⟨messagesSince_written handed frame, handed.short⟩ :
      messagesSince w v = [shakeMessage w.data] ∧ (shakeText w.data).length < 512)
  simp only [wp_bind] at written ⊢
  exact written

end

/-! Every step. -/

section
variable {t u : Connection} {o : Occasion} {v : DevState}

/-- Nothing was written yet, or the handshake and, behind the reply, other messages; none was left in the
queue. -/
structure Begun (replied : Bool) (hello : List Byte) (left : List BufId) (sent : List Message) : Prop where
  left : left = []
  proper : sent ≠ [] → isHandshake hello
  sent : (sent = [] ∧ replied = false) ∨ ∃ rest, sent = rest ++ [⟨hello, false, false⟩] ∧
    (replied = false → rest = []) ∧ ∀ m ∈ rest, m.replied = true ∧ m.left = false

def Connection.Begun (t : Connection) : Prop :=
  Shaking.Begun t.device.data.shakehand (shakeMessage t.device.data) t.left t.sent

/-- Where nothing is written, only what the reply tells matters. -/
theorem Begun.silently {replied replied' : Bool} {hello : List Byte} {left : List BufId} {sent : List Message}
    (begun : Begun replied hello left sent) (stays : replied = true → replied' = true)
    (unanswered : sent = [] → replied' = false) : Begun replied' hello left sent := by
  constructor
  case left => exact begun.left
  case proper => exact begun.proper
  case sent =>
    rcases begun.sent with ⟨none, _⟩ | ⟨rest, all, only, later⟩
    · exact .inl ⟨none, unanswered none⟩
    · refine .inr ⟨rest, all, fun waiting => only ?_, later⟩
      rw [← Bool.not_eq_true] at waiting ⊢
      exact mt stays waiting

/-- Messages behind the reply. -/
theorem Begun.written {hello : List Byte} {left : List BufId} {sent new : List Message}
    (begun : Begun true hello left sent) (later : ∀ m ∈ new, m.replied = true ∧ m.left = false) :
    Begun true hello left (new ++ sent) := by
  rcases begun.sent with ⟨_, replied⟩ | ⟨rest, all, _, later'⟩
  · cases replied
  · constructor
    case left => exact begun.left
    case proper => exact fun _ => begun.proper (by simp [all])
    case sent =>
      refine .inr ⟨new ++ rest, by rw [all, List.append_assoc], (fun waiting => by cases waiting), fun m member => ?_⟩
      rcases List.mem_append.mp member with own | earlier
      · exact later m own
      · exact later' m earlier

theorem after_of_ne (other : o.event ≠ .reconnect) : t.after o v =
    ⟨v, t.left.filter fun b => v.rings.home b = some .toserver,
      (messagesSince t.device v).map (fun bytes =>
        ⟨bytes, t.device.data.shakehand, t.left.any fun b => v.rings.home b ≠ some .toserver⟩) ++ t.sent⟩ := by
  unfold Connection.after
  split
  next lost => exact absurd lost other
  next => rfl

/-- With nothing left in the queue. -/
theorem after_of_nil (left : t.left = []) (other : o.event ≠ .reconnect) : t.after o v =
    ⟨v, [], (messagesSince t.device v).map (fun bytes => ⟨bytes, t.device.data.shakehand, false⟩) ++ t.sent⟩ := by
  rw [after_of_ne other, left]
  rfl

theorem run_of_step {w : DevState} (moved : Manager.step w o = some v) :
    (handle o.event).run (DevState.at w o) = .ok ((), v) := by
  unfold Manager.step at moved
  split at moved
  next ran =>
    cases moved
    exact ran
  next => cases moved

/-- The frame of a step, seen from the state before it. -/
theorem shakeMessage_of_step {parts : Set Part} {acts : Set Act} (frame : Frame parts acts (DevState.at t.device o) v) :
    shakeMessage v.data = shakeMessage t.device.data :=
  shakeMessage_of_frame (w := DevState.at t.device o) frame

theorem begun_after_silently (begun : t.Begun) (other : o.event ≠ .reconnect)
    (frame : Frame Set.univ silent (DevState.at t.device o) v)
    (stays : t.device.data.shakehand = true → v.data.shakehand = true)
    (unanswered : t.sent = [] → v.data.shakehand = false) : (t.after o v).Begun := by
  have none : messagesSince t.device v = [] := messagesSince_of_frame (w := DevState.at t.device o) frame
  have kept := Begun.silently begun stays unanswered
  rw [begun.left, ← shakeMessage_of_step frame] at kept
  rw [after_of_nil begun.left other, none]
  exact kept

/-- A message behind the reply. -/
theorem begun_after_writable (begun : t.Begun) (happened : o.event = .writable) (replied : t.device.data.shakehand = true)
    (ran : (handle .writable).run (DevState.at t.device o) = .ok ((), v)) : (t.after o v).Begun := by
  have within : Within queueParts sending (handle .writable) := by
    unfold handle
    infer_instance
  have frame := wp_of_run ran (within.frame _)
  have still : v.data.shakehand = true := (frame.shake (by simp [queueParts])).1.trans replied
  have kept : Begun true (shakeMessage v.data) [] t.sent := by
    rw [shakeMessage_of_step frame, ← begun.left, ← replied]
    exact begun
  rw [after_of_nil begun.left (by simp [happened]), Connection.Begun, still, replied]
  apply kept.written
  intro m member
  obtain ⟨bytes, _, rfl⟩ := List.mem_map.mp member
  exact ⟨rfl, rfl⟩

/-- The first message. -/
theorem begun_after_handshake (begun : t.Begun) (happened : o.event = .writable)
    (unreplied : t.device.data.shakehand = false) (unsent : t.sent = [])
    (ran : (handle .writable).run (DevState.at t.device o) = .ok ((), v)) : (t.after o v).Begun := by
  have within : Within queueParts sending (handle .writable) := by
    unfold handle
    infer_instance
  have frame := wp_of_run ran (within.frame _)
  have still : v.data.shakehand = false := (frame.shake (by simp [queueParts])).1.trans unreplied
  have wrote : Wp (handle .writable) (fun _ v => messagesSince t.device v = [shakeMessage t.device.data] ∧
      (shakeText t.device.data).length < 512) (fun _ => True) (DevState.at t.device o) := by
    rw [handle, wp_bind]
    exact wp_post (wp_callbackWriteable_unshaken unreplied) fun _ _ wrote => wrote
  obtain ⟨message, short⟩ := wp_of_run ran wrote
  rw [after_of_nil begun.left (by simp [happened]), Connection.Begun, message, unsent, still, unreplied,
    shakeMessage_of_step frame]
  constructor
  case left => rfl
  case proper => exact fun _ => isHandshake_shakeMessage short
  case sent => exact .inr ⟨[], rfl, fun _ => rfl, fun m member => absurd member List.not_mem_nil⟩

/-- The server's reply, to a handshake that was written. -/
theorem begun_after_receive {buf : List Byte} (begun : t.Begun) (happened : o.event = .receive buf)
    (expected : t.sent = [] → ∀ v, (collect buf).run (DevState.at t.device o) = .ok (.complete, v) →
      v.data.bufPrepare.type ≠ httpCHand)
    (ran : (handle (.receive buf)).run (DevState.at t.device o) = .ok ((), v)) : (t.after o v).Begun := by
  have received := wp_of_run ran wp_receive
  apply begun_after_silently begun (by simp [happened]) received.frame received.stays
  intro unsent
  rcases begun.sent with ⟨_, unreplied⟩ | ⟨rest, all, _⟩
  · exact (received.unanswered (expected unsent)).trans unreplied
  · simp [unsent] at all

theorem begun_after_reconnect (empty : t.device.rings.items .toserver = some []) (happened : o.event = .reconnect)
    (ran : (handle .reconnect).run (DevState.at t.device o) = .ok ((), v)) : (t.after o v).Begun := by
  have lost := wp_of_run ran (wp_reconnect empty)
  have after : t.after o v = ⟨v, [], []⟩ := by
    unfold Connection.after
    split
    next => rw [lost.1]
    next other => exact absurd happened other
  rw [after]
  constructor
  case left => rfl
  case proper => exact fun some => absurd rfl some
  case sent => exact .inl ⟨rfl, lost.2⟩

theorem begun_of_step (begun : t.Begun) (orderly : t.Orderly o) (moved : t.step o = some u) : u.Begun := by
  obtain ⟨v, happens, rfl⟩ := Option.map_eq_some_iff.mp moved
  have ran := run_of_step happens
  have plainly (plain : Event.plain o.event) : (t.after o v).Begun := by
    have frame := wp_of_run ran ((within_handle plain).frame _)
    have same : v.data.shakehand = t.device.data.shakehand := (frame.shake (by simp [unshaken])).1
    apply begun_after_silently begun
    · intro lost
      rw [lost] at plain
      exact plain
    · exact frame.mono (Set.subset_univ _) (subset_refl _)
    · exact same.trans
    · intro unsent
      rcases begun.sent with ⟨_, unreplied⟩ | ⟨rest, all, _⟩
      · exact same.trans unreplied
      · simp [unsent] at all
  unfold Connection.Orderly at orderly
  cases happened : o.event with
  | receive buf =>
    rw [happened] at ran orderly
    exact begun_after_receive begun happened orderly ran
  | writable =>
    rw [happened] at ran orderly
    cases replied : t.device.data.shakehand with
    | true => exact begun_after_writable begun happened replied ran
    | false =>
      have unsent := orderly.resolve_left (by simp [replied])
      exact begun_after_handshake begun happened replied unsent ran
  | reconnect =>
    rw [happened] at ran orderly
    exact begun_after_reconnect orderly happened ran
  | _ => exact plainly (by rw [happened]; trivial)

/-- In every run whose steps are orderly, each connection begins with the handshake, which is the only one
written before the server's reply, and no message was queued for a connection before. -/
theorem shakes_first (reached : Reach Connection.step Connection.Orderly Connection.Starts t) : t.ShakesFirst := by
  have begun : t.Begun := by
    apply reached.invariant
    · intro t starts
      obtain ⟨device, left, sent⟩ := starts
      obtain ⟨_, _, _, _, _, _, start⟩ := device
      constructor
      case left => exact left
      case proper => exact fun some => absurd sent some
      case sent =>
        rw [start]
        exact .inl ⟨sent, rfl⟩
    · exact fun _ _ _ begun orderly moved => begun_of_step begun orderly moved
  rcases begun.sent with ⟨unsent, unreplied⟩ | ⟨rest, all, _, later⟩
  · have none : t.handshakes = [] := by
      rw [Connection.handshakes, unsent]
      rfl
    constructor
    case first => simp [unsent]
    case once => simp [none, unreplied]
    case fresh => simp [unsent]
  · have proper := begun.proper (by simp [all])
    have behind : (rest.filter fun m => !m.replied && isHandshake m.bytes) = [] := by
      apply List.filter_eq_nil_iff.mpr
      intro m member
      simp [(later m member).1]
    have one : t.handshakes = [⟨shakeMessage t.device.data, false, false⟩] := by
      rw [Connection.handshakes, all, List.filter_append, behind, List.nil_append, List.filter_cons_of_pos]
      · rfl
      · simpa using proper
    constructor
    case first => simp [all, proper]
    case once => simp [one]
    case fresh =>
      intro m member
      rw [all] at member
      rcases List.mem_append.mp member with own | opening
      · exact (later m own).2
      · rw [List.mem_singleton.mp opening]

end

/-! A connection that is answered, and one that is lost with a frame in the queue. -/

def fresh : Connection := ⟨Reassembly.device, [], []⟩

theorem fresh_starts : fresh.Starts := ⟨Reassembly.device_starts, rfl, rfl⟩

def frame (type seq : Nat) (payload : List Byte) : List Byte :=
  Server.Wire.headerBytes type seq (payload.length + httpCHeaderLen) ++ payload

def answered : List Occasion := [⟨.writable, 1, [.value 512]⟩, ⟨.receive (frame httpCHand 0 (bytesBE 4 9)), 1, []⟩]

def orderlyHere : Test Connection.Orderly where
  passes t o := match o.event with
    | .reconnect => t.device.rings.items .toserver = some []
    | .writable => t.device.data.shakehand || t.sent.isEmpty
    | .receive _ => !t.sent.isEmpty
    | _ => true
  sound t o passes := by
    unfold Connection.Orderly
    cases happened : o.event with
    | receive buf =>
      intro unsent
      rw [happened, unsent] at passes
      cases passes
    | writable =>
      rw [happened] at passes
      simpa using passes
    | reconnect =>
      rw [happened] at passes
      simpa using passes
    | _ => trivial

theorem shakes_first_answered : ∃ t : Connection, t.device.data.shakehand = true ∧ t.ShakesFirst := by
  have ran : (orderlyHere.run Connection.step fresh answered).map (·.device.data.shakehand) = some true := by decide +kernel
  obtain ⟨t, ran, replied⟩ := Option.map_eq_some_iff.mp ran
  exact ⟨t, replied, shakes_first (Test.reach fresh_starts ran)⟩

/-- A forward is opened and closed, which queues its closing frame, and the connection is lost. On the
next one the device is told that it can write until nothing is queued. -/
def lostInBetween : List Occasion := answered ++
  [⟨.receive (frame httpCForward 7 (bytesBE 2 7 ++ bytesBE 2 80 ++ bytesBE 4 0 ++ text "10.0.0.1")), 1,
      [.value 5, .value 0x0a000001]⟩,
    ⟨.receive (frame httpCForward 7 (bytesBE 2 7 ++ bytesBE 2 80 ++ bytesBE 4 1)), 1, []⟩,
    ⟨.reconnect, 2, []⟩, ⟨.writable, 10, [.value 512]⟩, ⟨.writable, 10, [.value 512]⟩,
    ⟨.receive (frame httpCHand 0 (bytesBE 4 9)), 10, []⟩, ⟨.writable, 10, [.value 512]⟩]

def shakesTwice (t : Connection) : Bool := t.handshakes.length = 2 ∧ t.sent.any (·.left)

theorem lostInBetween_shakesTwice : (run Connection.step fresh lostInBetween).map shakesTwice = some true := by
  decide +kernel

theorem not_always_first : ¬ ∀ t, Reach Connection.step (fun _ _ => True) Connection.Starts t → t.ShakesFirst := by
  intro always
  obtain ⟨t, ran, twice⟩ := Option.map_eq_some_iff.mp lostInBetween_shakesTwice
  have once := (always t (reach_of_free_run fresh_starts ran)).once.1
  rw [shakesTwice, decide_eq_true_eq] at twice
  omega

end WebTunnel.Device.Shaking
