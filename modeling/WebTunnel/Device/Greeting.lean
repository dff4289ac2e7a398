import WebTunnel.Device.Broadcasting
import WebTunnel.Device.Feeding
import WebTunnel.Device.Shaking

/-! The server's reply to the handshake, and what the device does until it comes. -/

namespace WebTunnel.Device.Greeting
set_option synthInstance.maxSize 10000
open Library.Bytes Library.Lists Library.Routines Library.Routines.Routine Library.Run Function Device.Types Buffers
open Http Forward Tunnel Manager Frames Footprints Keeping Pool Receiving Reassembly Shaking Server.Wire
open Broadcasting (InOne InPart Outcome steps_inPart)
open Feeding (step_of_wp)

/-! While no frame comes, the parser is between two frames. -/

structure Waiting (w : DevState) : Prop where
  sync : w.data.syncPrepare = false
  curr : w.data.bufPrepare.curr = none

/-- The parts that are not the parser's. -/
def unparsed : Set Part := {part | part ≠ .prepare ∧ part ≠ .sync}

section
variable {α : Type}

instance (c : CtxId) : Allows unparsed (.ctx c) := ⟨by simp [unparsed]⟩
instance (k : ClientId) : Allows unparsed (.client k) := ⟨by simp [unparsed]⟩
instance (f : FwdId) : Allows unparsed (.forward f) := ⟨by simp [unparsed]⟩
instance : Allows unparsed .schedule := ⟨by simp [unparsed]⟩
instance : Allows unparsed .polls := ⟨by simp [unparsed]⟩
instance : Allows unparsed .queue := ⟨by simp [unparsed]⟩
instance : Allows unparsed .shake := ⟨by simp [unparsed]⟩
instance : Allows unparsed .alive := ⟨by simp [unparsed]⟩
instance (h : BufHead) : Allows unparsed (.fill h) := ⟨by simp [unparsed]⟩

instance : HttpWithin unparsed Set.univ where
  parts c := by simp [httpParts, unparsed, Set.insert_subset_iff]
  acts _ _ _ := trivial

instance : ClientsWithin unparsed Set.univ where
  parts := by
    rintro part (rfl | ⟨k, member⟩)
    · simp [unparsed]
    · revert part
      simp [clientParts, unparsed]
  acts _ _ := trivial

instance (f : FwdId) : ForwardWithin f unparsed Set.univ where
  parts := by simp [forwardParts, unparsed, Set.insert_subset_iff]
  acts _ _ := trivial

instance : QueueWithin unparsed Set.univ where
  parts := by simp [queueParts, unparsed, Set.insert_subset_iff]
  acts _ _ := trivial

instance : Within unparsed Set.univ websocketWriteAgain := within_note _
instance : Within unparsed Set.univ websocketClosed := within_note _

instance (code : DevM α) [within : Within unparsed Set.univ code] : Keeps Waiting code := by
  apply keeps_of_within within
  intro w v frame waiting
  have sync := (frame.sync (by simp [unparsed])).1
  have prepare := frame.prepare (by simp [unparsed])
  exact ⟨sync.trans waiting.sync, (congrArg HttpBuf.curr prepare).trans waiting.curr⟩

/-- No frame is received, and the connection is not lost. -/
def quiet : Call → DevState → Prop
  | .receive _ | .process | .reconnect => fun _ => False
  | _ => fun _ => True

instance : Steady Waiting quiet where
  tick w now replies waiting := ⟨waiting.sync, waiting.curr⟩
  process := ⟨fun _ _ none => none.elim⟩
  collect _ := ⟨fun _ _ none => none.elim⟩
  unsync := ⟨fun _ waiting => ⟨rfl, waiting.curr⟩⟩
  releasePrepare := ⟨fun _ _ none => none.elim⟩
  paramInit := ⟨fun _ _ => ⟨rfl, rfl⟩⟩

end

/-- What happens to the device apart from frames and losses. -/
def Event.own : Event → Prop
  | .receive _ | .reconnect => False
  | _ => True

section
variable {w v : DevState} {o : Occasion} {payload : List Byte}

theorem waiting_of_step (waiting : Waiting w) (own : Event.own o.event) (moved : step w o = some v) : Waiting v := by
  have calls (c : CtxId) (w : DevState) : quiet (.expire c) w := trivial
  have allowed : Allowed quiet w o := by
    unfold Allowed
    cases happened : o.event with
    | receive | reconnect => rw [happened] at own; exact own.elim
    | service slot =>
      intro _ owner _
      cases owner <;> trivial
    | run =>
      exact ⟨forEach_of_forall fun _ _ => trivial, fun _ _ => ⟨forEach_of_forall fun _ _ => trivial, fun _ _ _ => trivial⟩⟩
    | runTimeout => exact expireAllowed_of_forall calls
    | established | writable | addPollFd | delPollFd | changeModePollFd | poll => trivial
  exact step_keeps waiting allowed moved

/-! The reply. -/

/-- The reply of the server. -/
def handshakeReply : List Byte := headerBytes httpCHand 0 20 ++ bytesBE 4 0x1234

theorem wp_dispatch_reply {header : FrameHeader} {b : BufId} {saved free : List BufId}
    (collecting : Collecting header payload (b :: saved) none w) (type : header.type = httpCHand)
    (pool : w.rings.items .caches = some free) :
    Wp prepareProcess (fun _ v => v.data.shakehand = true) (fun _ => False) w := by
  rw [prepareProcess, wp_bind, wp_data, wp_bind, collecting.type, dispatch, if_pos type, wp_bind, nextBufInfo, wp_head]
  refine ⟨fun l hangs => ?_, fun none => ?_⟩
  · cases collecting.hangs.symm.trans hangs
    simp only [List.head?_cons]
    rw [wp_bind, wp_bytesAt]
    refine ⟨fun _ => ?_, fun outside => absurd (by decide) outside⟩
    rw [wp_bind, wp_modify]
    apply wp_releasePrepare_of_none
    · exact collecting.curr
    · exact collecting.hangs
    · exact pool
    · intro R _ _
      rw [wp_bind, setPrepare, wp_modify, setSync, wp_modify]
  · cases collecting.hangs.symm.trans none

/-- A buffer is free, or comes back with those of a frame that was given up. -/
def OneFree (w : DevState) : Prop :=
  ∃ saved free, w.rings.items .prepare = some saved ∧ w.rings.items .caches = some free ∧ saved ++ free ≠ []

/-- The reply comes in one piece, and is collected in one buffer. -/
theorem wp_collect_reply (waiting : Waiting w) (oneFree : OneFree w) :
    Wp (collect handshakeReply) (fun r v => r = .complete ∧
      InOne ⟨httpCHand, 0, 20⟩ 0 (bytesBE 4 0x1234) v) (fun _ => False) w := by
  obtain ⟨saved, free, hangs, pool, some_⟩ := oneFree
  have idle : Idle w := ⟨waiting.sync, waiting.curr, ⟨saved, hangs⟩, ⟨free, pool⟩⟩
  have read : readHeader handshakeReply = some ⟨httpCHand, 0, 20⟩ :=
    readHeader_headerBytes (by decide) (by decide) (by decide) _
  apply wp_collect_opens idle hangs pool (by decide) (by decide) read (by decide) (by decide)
  intro v collecting caches
  rw [if_neg (by decide)]
  have part : InPart ⟨httpCHand, 0, 20⟩ 0 [] v := ⟨none, saved ++ free, collecting, caches, List.length_pos_iff.mpr some_⟩
  have step := (steps_inPart (by decide)).step [] (handshakeReply.drop httpCHeaderLen) v part (by decide) (by decide) (by decide)
  rw [collecting.curr] at step
  apply wp_post step
  intro r u outcome
  rwa [Outcome, if_neg (by decide)] at outcome

/-- The reply ends the handshake. -/
theorem step_reply (now : Int) (replies : List Reply) (waiting : Waiting w) (oneFree : OneFree w) :
    ∃ v, step w ⟨.receive handshakeReply, now, replies⟩ = some v ∧ v.data.shakehand = true := by
  have waiting' : Waiting (DevState.at w ⟨.receive handshakeReply, now, replies⟩) := ⟨waiting.sync, waiting.curr⟩
  apply step_of_wp
  rw [handle, wp_bind, httpMgmtPrepare, wp_bind]
  apply wp_post (wp_collect_reply waiting' oneFree)
  rintro r v ⟨rfl, b, free, collecting, pool, _⟩
  rw [wp_bind]
  exact wp_post (wp_dispatch_reply collecting rfl pool) fun _ _ shaken => shaken

/-! What the device says of itself. -/

structure SameNames (w v : DevState) : Prop where
  username : v.data.username = w.data.username
  localHost : v.data.localHost = w.data.localHost
  localPort : v.data.localPort = w.data.localPort

theorem sameNames_of_frame {parts : Set Part} {acts : Set Act} (frame : Frame parts acts (DevState.at w o) v) : SameNames w v := by
  obtain ⟨_, username, localHost, localPort, _⟩ := frame.fixed
  exact ⟨username, localHost, localPort⟩

theorem shakeMessage_eq (d : HttpMgmt) :
    shakeMessage d = headerBytes httpCHand 0 ((shakeText d).length + httpCHeaderLen) ++ shakeText d := by
  simp only [shakeMessage, headerMem, headerBytes, bytesLE_htonl]
  rfl

theorem shakeText_of_sameNames (same : SameNames w v) : shakeText v.data = shakeText w.data := by
  rw [shakeText, shakeText, same.username, same.localHost, same.localPort]

theorem shakeMessage_of_sameNames (same : SameNames w v) : shakeMessage v.data = shakeMessage w.data := by
  rw [shakeMessage, shakeMessage, shakeText_of_sameNames same]

/-- What happens apart from frames and losses does not end the handshake, and writes no message except where
the transport has room for one. -/
structure Continues (w v : DevState) (o : Occasion) : Prop where
  names : SameNames w v
  shakehand : v.data.shakehand = w.data.shakehand
  silent : o.event ≠ .writable → messagesSince w v = []

theorem continues_of_step (own : Event.own o.event) (moved : step w o = some v) : Continues w v o := by
  have ran := run_of_step moved
  have plainly (plain : Event.plain o.event) : Continues w v o := by
    have frame := wp_of_run ran ((within_handle plain).frame _)
    exact ⟨sameNames_of_frame frame, (frame.shake (by simp [unshaken])).1, fun _ => messagesSince_of_frame (w := DevState.at w o) frame⟩
  cases happened : o.event with
  | receive | reconnect =>
    rw [happened] at own
    exact own.elim
  | writable =>
    have within : Within queueParts sending (handle .writable) := by
      unfold handle
      infer_instance
    rw [happened] at ran
    have frame := wp_of_run ran (within.frame _)
    exact ⟨sameNames_of_frame frame, (frame.shake (by simp [queueParts])).1, fun other => absurd happened other⟩
  | established | addPollFd | delPollFd | changeModePollFd | poll | service | run | runTimeout =>
    exact plainly (by rw [happened]; trivial)

/-- Before the reply the message is the handshake. -/
theorem messagesSince_of_unshaken (happened : o.event = .writable) (waiting : w.data.shakehand = false) (moved : step w o = some v) :
    messagesSince w v = [shakeMessage w.data] ∧ (shakeText w.data).length < 512 := by
  have ran := run_of_step moved
  rw [happened] at ran
  have wrote : Wp (handle .writable) (fun _ v => messagesSince w v = [shakeMessage w.data] ∧ (shakeText w.data).length < 512)
      (fun _ => True) (DevState.at w o) := by
    rw [handle, wp_bind]
    exact wp_post (wp_callbackWriteable_unshaken waiting) fun _ _ wrote => wrote
  exact wp_of_run ran wrote

/-- A fragment writes no message. -/
theorem received_of_step {buf : List Byte} (happened : o.event = .receive buf) (moved : step w o = some v) :
    SameNames w v ∧ messagesSince w v = [] ∧ (w.data.shakehand = true → v.data.shakehand = true) := by
  have ran := run_of_step moved
  rw [happened] at ran
  have received := wp_of_run ran wp_receive
  exact ⟨sameNames_of_frame received.frame, messagesSince_of_frame (w := DevState.at w o) received.frame, received.stays⟩

end

end WebTunnel.Device.Greeting
