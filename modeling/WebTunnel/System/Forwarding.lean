import WebTunnel.Device.Pool
import WebTunnel.Device.Reassembly
import WebTunnel.Device.Keeping
import WebTunnel.Server.Messages
import WebTunnel.Server.Freeing
import WebTunnel.Server.Moves

/-! The frames in which a device passes on what it reads from a forward's socket, as the server
takes them. -/

namespace WebTunnel.System.Forwarding
open Library.Bytes Library.Lists Library.Routines Library.Routines.Routine Library.Run Function Device.Types Device.Buffers
open Device.Forward Device.Pool Device.Keeping Server.Wire Server.Messages

/-- What the frame of some bytes is padded with. -/
def padding (d : List Byte) : List Byte :=
  List.replicate (websockMinPackSize - (d.length + (httpCHeaderLen + 4))) 0

/-- The frame for bytes that were read from a forward's socket. -/
def forwardFrame (seq : Nat) (d : List Byte) : List Byte := frameOf httpCForwardResp seq (packed d (padding d))

def queuedFrame : Act → Option (List (List Byte))
  | .queue _ _ _ bufs => some bufs
  | _ => none

/-- The frames that were put into the queue to the server, the last first. -/
def queuedFrames (w : DevState) : List (List (List Byte)) := w.data.acts.filterMap queuedFrame

theorem headerMem_eq (type seq length : Nat) : headerMem type (htons seq) (htonl length) = headerBytes type seq length := by
  simp only [headerMem, headerBytes, bytesLE_htonl, bytesLE_htons]
  rfl

theorem forwardFrame_length (seq : Nat) (d : List Byte) :
    (forwardFrame seq d).length = max (d.length + (httpCHeaderLen + 4)) websockMinPackSize := by
  simp only [forwardFrame, frameOf_length, packed_length, padding, List.length_replicate, protocolHeaderLen,
    httpCHeaderLen, websockMinPackSize]
  omega

/-- The parts of the frame, written one after the other. -/
theorem slice_laid (m : Mem) (seq : Nat) (d : List Byte) :
    ((((m.write 20 d).write 16 (bytesBE 4 d.length)).write (d.length + 20) (padding d)).write 0
      (headerBytes httpCForwardResp seq (forwardFrame seq d).length)).slice 0 (forwardFrame seq d).length =
      forwardFrame seq d := by
  have size : (forwardFrame seq d).length = 16 + (4 + (d.length + (padding d).length)) := by
    simp [forwardFrame, protocolHeaderLen]
  have header : (headerBytes httpCForwardResp seq (forwardFrame seq d).length).length = 16 := headerBytes_length _ _ _
  generalize laid : headerBytes httpCForwardResp seq (forwardFrame seq d).length = top at header ⊢
  have four : (bytesBE 4 d.length).length = 4 := bytesBE_length _ _
  rw [size, Mem.slice_add, Mem.slice_add, Mem.slice_add, Nat.zero_add]
  have first : ((((m.write 20 d).write 16 (bytesBE 4 d.length)).write (d.length + 20) (padding d)).write 0 top).slice 0 16 =
      top := by
    rw [← header]
    exact Mem.slice_write _ _ _
  have second : ((((m.write 20 d).write 16 (bytesBE 4 d.length)).write (d.length + 20) (padding d)).write 0 top).slice 16 4 =
      bytesBE 4 d.length := by
    rw [Mem.slice_write_of_disjoint _ (.inr (by omega)), Mem.slice_write_of_disjoint _ (.inl (by omega))]
    have own := Mem.slice_write (m.write 20 d) 16 (bytesBE 4 d.length)
    rwa [four] at own
  have third : ((((m.write 20 d).write 16 (bytesBE 4 d.length)).write (d.length + 20) (padding d)).write 0 top).slice
      (16 + 4) d.length = d := by
    rw [Mem.slice_write_of_disjoint _ (.inr (by omega)), Mem.slice_write_of_disjoint _ (.inl (by omega)),
      Mem.slice_write_of_disjoint _ (.inr (by omega))]
    exact Mem.slice_write _ _ _
  have fourth : ((((m.write 20 d).write 16 (bytesBE 4 d.length)).write (d.length + 20) (padding d)).write 0 top).slice
      (16 + 4 + d.length) (padding d).length = padding d := by
    rw [Mem.slice_write_of_disjoint _ (.inr (by omega)), show 16 + 4 + d.length = d.length + 20 by omega]
    exact Mem.slice_write _ _ _
  rw [first, second, third, fourth, ← laid, size]
  simp [forwardFrame, frameOf, packed, protocolHeaderLen]

section
variable {w : DevState} {b : BufId} {d : List Byte} {err : Fault → Prop}

/-- The header is written last, in front of what lies in the buffer. -/
theorem wp_seal {post : Nat → DevState → Prop} {len : Nat} {header : List Byte}
    (front : (0 : Int) ≤ 0 ∧ (0 : Int) + header.length ≤ bufRoom)
    (next : post len ⟨w.data.setBuf b ⟨(w.data.bufs b).buf.write 0 header, 0, len, len⟩, w.rings⟩) :
    Wp (do
      let info ← getBuf b
      setBuf b { info with start := 0, len := len, totalLen := len }
      memcpy b 0 header
      return len) post err w := by
  rw [wp_bind, wp_getBuf, wp_bind, wp_setBuf, wp_bind, wp_memcpy]
  refine ⟨fun _ => ?_, fun outside => absurd front outside⟩
  simp only [setBuf_setBuf, setBuf_bufs]
  exact next

theorem wp_layForward {post : Nat → DevState → Prop} (seq : Nat) (fits : d.length ≤ httpBufSize - (httpCHeaderLen + 4))
    (next : ∀ m : Mem, m.slice 0 (forwardFrame seq d).length = forwardFrame seq d →
      post (forwardFrame seq d).length ⟨w.data.setBuf b ⟨m, 0, (forwardFrame seq d).length, (forwardFrame seq d).length⟩,
        w.rings⟩) :
    Wp (layForward b seq d) post err w := by
  have short : d.length ≤ 2028 := fits
  have inside : (0 : Int) ≤ (httpCHeaderLen + 4 : Nat) ∧ ((httpCHeaderLen + 4 : Nat) : Int) + d.length ≤ bufRoom := by
    simp only [httpCHeaderLen, bufRoom, httpBufSize]
    omega
  have field : (0 : Int) ≤ httpCHeaderLen ∧ (httpCHeaderLen : Int) + (bytesLE 4 (htonl d.length)).length ≤ bufRoom := by
    rw [bytesLE_length]
    decide
  have ends : (0 : Int) ≤ (d.length + (httpCHeaderLen + 4) : Nat) ∧
      ((d.length + (httpCHeaderLen + 4) : Nat) : Int) + (padding d).length ≤ bufRoom := by
    simp only [padding, List.length_replicate, httpCHeaderLen, websockMinPackSize, bufRoom, httpBufSize]
    omega
  have size := forwardFrame_length seq d
  have laid := slice_laid (w.data.bufs b).buf seq d
  have unpadded : ¬ d.length + (httpCHeaderLen + 4) < websockMinPackSize → padding d = [] := by
    intro long
    rw [padding, Nat.sub_eq_zero_of_le (Nat.le_of_not_lt long), List.replicate_zero]
  rw [layForward, wp_bind, wp_memcpy]
  refine ⟨fun _ => ?_, fun outside => absurd inside outside⟩
  rw [wp_bind, wp_memcpy]
  refine ⟨fun _ => ?_, fun outside => absurd field outside⟩
  rw [wp_bind, wp_when, ← size]
  generalize (forwardFrame seq d).length = len at laid next ⊢
  have top : headerMem httpCForwardResp (htons seq) (htonl len) = headerBytes httpCForwardResp seq len := headerMem_eq _ _ _
  have front : (0 : Int) ≤ 0 ∧ (0 : Int) + (headerMem httpCForwardResp (htons seq) (htonl len)).length ≤ bufRoom := by
    rw [top, headerBytes_length]
    decide
  refine ⟨fun _ => ?_, fun long => ?_⟩
  · rw [wp_memcpy]
    refine ⟨fun _ => ?_, fun outside => absurd ends outside⟩
    dsimp only
    generalize headerMem httpCForwardResp (htons seq) (htonl len) = header at top front ⊢
    refine wp_seal front ?_
    simp only [setBuf_setBuf, setBuf_bufs, bytesLE_htonl, top, Int.toNat_natCast]
    exact next _ laid
  · dsimp only
    generalize headerMem httpCForwardResp (htons seq) (htonl len) = header at top front ⊢
    refine wp_seal front ?_
    simp only [setBuf_setBuf, setBuf_bufs, bytesLE_htonl, top, Int.toNat_natCast]
    rw [unpadded long, Mem.write_nil] at laid
    exact next _ laid

end

/-- What the function leaves behind: one more frame is queued, and lies in the last buffer of
the queue. -/
structure Queued (frame : List Byte) (before : List (List (List Byte))) (b : BufId) (v : DevState) : Prop where
  frames : queuedFrames v = [frame] :: before
  last : ∃ l, v.rings.items .toserver = some (l ++ [b])
  len : (v.data.bufs b).len = frame.length
  start : (v.data.bufs b).start = 0
  bytes : (v.data.bufs b).buf.slice 0 frame.length = frame

section
variable {frame : List Byte} {before : List (List (List Byte))} {b : BufId}

/-- Acts other than queueing leave it so. -/
theorem Queued.note {v : DevState} {act : Act} (queued : Queued frame before b v) (other : queuedFrame act = none) :
    Queued frame before b { v with data := v.data.note act } := by
  refine ⟨?_, queued.last, queued.len, queued.start, queued.bytes⟩
  rw [queuedFrames, HttpMgmt.note, List.filterMap_cons_none other]
  exact queued.frames

theorem Queued.of_same {v u : DevState} (queued : Queued frame before b v) (acts : u.data.acts = v.data.acts)
    (bufs : u.data.bufs = v.data.bufs) (rings : u.rings = v.rings) : Queued frame before b u := by
  refine ⟨?_, rings ▸ queued.last, bufs ▸ queued.len, bufs ▸ queued.start, bufs ▸ queued.bytes⟩
  rw [queuedFrames, acts]
  exact queued.frames

instance (f : FwdId) (fwd : TcpForwardContext) : Keeps (Queued frame before b) (setForward f fwd) :=
  ⟨fun _ queued => queued.of_same rfl rfl rfl⟩

instance (slot : Nat) (pfd : PollFd) : Keeps (Queued frame before b) (setPollFd slot pfd) :=
  ⟨fun _ queued => queued.of_same rfl rfl rfl⟩

instance (o : Owner) (events : PollEvents) : Keeps (Queued frame before b) (note (.interest o events)) :=
  ⟨fun _ queued => queued.note rfl⟩

instance (o : Owner) (slot : Option Nat) (change : PollEvents → PollEvents) :
    Keeps (Queued frame before b) (setEvents o slot change) := by
  unfold setEvents
  infer_instance

instance (f : FwdId) : Keeps (Queued frame before b) (forwardToWrite f) := by
  unfold forwardToWrite setForwardLine
  infer_instance

instance : Keeps (Queued frame before b) httpMgmtToserver := by
  unfold httpMgmtToserver
  have changes (change : HttpBuf → HttpBuf) : Keeps (Queued frame before b) (setToserver change) :=
    ⟨fun _ queued => queued.of_same rfl rfl rfl⟩
  have sets : Keeps (Queued frame before b) (modify fun d => { d with toserver := true } : DevM Unit) :=
    ⟨fun _ queued => queued.of_same rfl rfl rfl⟩
  have asks : Keeps (Queued frame before b) websocketGoWritable := ⟨fun _ queued => queued.note rfl⟩
  infer_instance

instance (h : BufHead) : Keeps (Queued frame before b) (listEmpty h) := by
  unfold listEmpty
  infer_instance

end

theorem wp_sysRead_of_data {w : DevState} {o : Owner} {room : Int} {d : List Byte} {post : Option (List Byte) → DevState → Prop}
    {err : Fault → Prop} (given : w.data.replies.head? = some (.data d)) (fits : (d.length : Int) ≤ room)
    (next : post (some d) { w with data := HttpMgmt.note { w.data with replies := w.data.replies.tail } (.read o d) }) :
    Wp (sysRead o room) post err w := by
  have whole : d.take room.toNat = d := List.take_of_length_le (by omega)
  rw [sysRead, wp_bind, reply, wp_bind, wp_data, wp_bind, wp_modify, wp_pure, List.headD_eq_head?_getD, given]
  simp only [Option.getD_some, wp_bind, wp_note, wp_pure, whole]
  exact next

/-- A frame that was laid out is queued, and stays so in what follows. -/
theorem wp_queueFrame {α : Type} {next : DevM α} {v : DevState} {f : FwdId} {b : BufId} {seq : Nat} {frame : List Byte}
    [keeps : Keeps (Queued frame (queuedFrames v) b) next] (len : (v.data.bufs b).len = frame.length)
    (start : (v.data.bufs b).start = 0) (bytes : (v.data.bufs b).buf.slice 0 frame.length = frame) :
    Wp (do
      listAddTail b .toserver
      note (.queue (some (.forward f)) httpCForwardResp seq [← bytesAt b 0 frame.length])
      next) (fun _ u => Queued frame (queuedFrames v) b u) (fun _ => True) v := by
  rw [wp_bind, listAddTail, wp_perform]
  refine ⟨fun S done => ?_, fun _ => trivial⟩
  obtain ⟨l, _, _, last, _⟩ := Rings.addTail_effect done
  rw [wp_bind, wp_bytesAt]
  refine ⟨fun _ => ?_, fun _ => trivial⟩
  rw [wp_bind, wp_note]
  have queued : Queued frame (queuedFrames v) b
      ⟨v.data.note (.queue (some (.forward f)) httpCForwardResp seq [frame]), S⟩ :=
    ⟨rfl, ⟨l, by rw [last, update_self]⟩, len, start, bytes⟩
  refine keeps.kept _ ?_
  rwa [Int.toNat_natCast, Int.toNat_zero, bytes]

/-- The frame for what is read from a forward's socket. -/
theorem wp_tcpForwardRead {w : DevState} {f : FwdId} {b : BufId} {free : List BufId} {d : List Byte}
    (pool : w.rings.items .caches = some (b :: free)) (given : w.data.replies.head? = some (.data d)) (got : d ≠ [])
    (fits : d.length ≤ httpBufSize - (httpCHeaderLen + 4)) :
    Wp (tcpForwardRead f) (fun _ v => Queued (forwardFrame (w.data.forwards f).seq d) (queuedFrames w) b v)
      (fun _ => True) w := by
  rw [tcpForwardRead, wp_bind, wp_getForward, wp_bind, wp_setForward, wp_bind]
  refine wp_allocBuf_of_cons pool fun R items home => ?_
  rw [wp_bind]
  refine wp_sysRead_of_data given ?_ ?_
  · simp only [httpBufSize, httpCHeaderLen] at fits ⊢
    omega
  obtain ⟨byte, rest, rfl⟩ := List.exists_cons_of_ne_nil got
  generalize seq_ : (w.data.forwards f).seq = seq
  generalize read : World.mk _ R = v
  have acts : queuedFrames v = queuedFrames w := by
    rw [← read]
    rfl
  clear read
  rw [wp_bind]
  generalize byte :: rest = d at fits ⊢
  refine wp_layForward seq fits fun m laid => ?_
  rw [← acts]
  exact wp_queueFrame (by simp) (by simp) (by simpa using laid)

/-- The data of the frame that tells the server of a closed forward. -/
def closedNotice : List Byte := text "CLOSED!" ++ [0]

/-- Its parts, in the order in which they are written. -/
theorem slice_laid_closed (m : Mem) (seq : Nat) :
    ((((m.write 0 (headerBytes httpCForwardResp seq websockMinPackSize)).write 20 (List.replicate 20 0)).write 20
      closedNotice).write 16 (bytesBE 4 8)).slice 0 websockMinPackSize = forwardFrame seq closedNotice := by
  have frame : forwardFrame seq closedNotice = headerBytes httpCForwardResp seq websockMinPackSize ++
      (bytesBE 4 8 ++ (closedNotice ++ List.replicate 12 0)) := rfl
  have header : (headerBytes httpCForwardResp seq websockMinPackSize).length = 16 := headerBytes_length _ _ _
  have four : (bytesBE 4 8).length = 4 := bytesBE_length _ _
  have eight : closedNotice.length = 8 := rfl
  rw [frame, show websockMinPackSize = 16 + (4 + (8 + 12)) from rfl] at *
  generalize headerBytes httpCForwardResp seq (16 + (4 + (8 + 12))) = top at header ⊢
  generalize bytesBE 4 8 = count at four ⊢
  generalize closedNotice = notice at eight ⊢
  have first : ((((m.write 0 top).write 20 (List.replicate 20 0)).write 20 notice).write 16 count).slice 0 16 = top := by
    rw [Mem.slice_write_of_disjoint _ (.inl (by omega)), Mem.slice_write_of_disjoint _ (.inl (by omega)),
      Mem.slice_write_of_disjoint _ (.inl (by omega)), ← header]
    exact Mem.slice_write _ _ _
  have second : ((((m.write 0 top).write 20 (List.replicate 20 0)).write 20 notice).write 16 count).slice 16 4 = count := by
    rw [← four]
    exact Mem.slice_write _ _ _
  have third : ((((m.write 0 top).write 20 (List.replicate 20 0)).write 20 notice).write 16 count).slice (16 + 4) 8 = notice := by
    have own := Mem.slice_write ((m.write 0 top).write 20 (List.replicate 20 0)) 20 notice
    rw [Mem.slice_write_of_disjoint _ (.inr (by omega))]
    rwa [eight] at own
  have fourth : ((((m.write 0 top).write 20 (List.replicate 20 0)).write 20 notice).write 16 count).slice (16 + 4 + 8) 12 =
      List.replicate 12 0 := by
    rw [Mem.slice_write_of_disjoint _ (.inr (by omega)), Mem.slice_write_of_disjoint _ (.inr (by omega))]
    have zeros := Mem.slice_write (m.write 0 top) 20 (List.replicate (8 + 12) 0)
    rw [List.length_replicate, Mem.slice_add] at zeros
    rw [List.replicate_add] at zeros
    exact (List.append_inj zeros (by simp)).2
  rw [Mem.slice_add, Mem.slice_add, Mem.slice_add, Nat.zero_add, first, second, third, fourth]

/-- The bytes are written one after the other. -/
theorem wp_layClosed {α : Type} {next : DevM α} {w : DevState} {b : BufId} {header zeros notice count : List Byte}
    {post : α → DevState → Prop} {err : Fault → Prop} (sizes : header.length = 16 ∧ zeros.length = 20 ∧ notice.length = 8 ∧ count.length = 4) :
    Wp (do
      memcpy b 0 header
      memcpy b (httpCHeaderLen + 4) zeros
      memcpy b (httpCHeaderLen + 4) notice
      memcpy b httpCHeaderLen count
      next) post err w ↔
    Wp next post err ⟨w.data.setBuf b { w.data.bufs b with
      buf := ((((w.data.bufs b).buf.write 0 header).write 20 zeros).write 20 notice).write 16 count }, w.rings⟩ := by
  obtain ⟨header_, zeros_, notice_, count_⟩ := sizes
  have first : (0 : Int) ≤ 0 ∧ (0 : Int) + header.length ≤ bufRoom := by
    rw [header_]
    decide
  have second : (0 : Int) ≤ (httpCHeaderLen : Int) + 4 ∧ (httpCHeaderLen : Int) + 4 + zeros.length ≤ bufRoom := by
    rw [zeros_]
    decide
  have third : (0 : Int) ≤ (httpCHeaderLen : Int) + 4 ∧ (httpCHeaderLen : Int) + 4 + notice.length ≤ bufRoom := by
    rw [notice_]
    decide
  have fourth : (0 : Int) ≤ (httpCHeaderLen : Int) ∧ (httpCHeaderLen : Int) + count.length ≤ bufRoom := by
    rw [count_]
    decide
  simp only [wp_bind, wp_memcpy, first, second, third, fourth, and_self, forall_const, not_true_eq_false, false_implies,
    and_true, setBuf_setBuf, setBuf_bufs]
  rfl

/-- The frame for the closing of a forward. -/
theorem wp_tcpForwardClosing {w : DevState} {f : FwdId} {b : BufId} {free : List BufId}
    (pool : w.rings.items .caches = some (b :: free)) :
    Wp (tcpForwardClosing f) (fun _ v => Queued (forwardFrame (w.data.forwards f).seq closedNotice) (queuedFrames w) b v)
      (fun _ => True) w := by
  have laid := slice_laid_closed (w.data.bufs b).buf (w.data.forwards f).seq
  have size : (forwardFrame (w.data.forwards f).seq closedNotice).length = websockMinPackSize := by
    rw [forwardFrame_length]
    rfl
  rw [tcpForwardClosing, wp_bind]
  refine wp_allocBuf_of_cons pool fun R items home => ?_
  dsimp only
  rw [wp_bind, wp_getBuf, wp_bind, wp_setBuf, wp_bind, wp_getForward, headerMem_eq, bytesLE_htonl,
    wp_layClosed ⟨headerBytes_length _ _ _, rfl, rfl, bytesBE_length _ _⟩]
  simp only [setBuf_setBuf, setBuf_bufs]
  rw [← size] at laid ⊢
  generalize written : World.mk _ R = v
  have acts : queuedFrames v = queuedFrames w := by
    rw [← written]
    rfl
  rw [← acts]
  apply wp_queueFrame
  · rw [← written, setBuf_bufs]
  · rw [← written, setBuf_bufs]
  · rw [← written, setBuf_bufs]
    exact laid

open Library.JavaScript Library.Json Library.Slots Server.Sessions Server.Types Server.Framing Server.Events Server.Moves

/-- The server turns the frame into one message to the browser, and waits for the next frame. -/
theorem wp_parse_forwardFrame {s : ServerState} {user : JsVal} {mgr : UserMgmr} {ref : ProcRef} {p : ForwardProcessor}
    {seq : Nat} {d : List Byte} (fits : d.length ≤ httpBufSize - (httpCHeaderLen + 4))
    (reached : Reach Server.Events.step Enabled Server.Events.Starts s) (known : s.userMap user = some mgr)
    (idle : mgr.currSeq = none) (live : getBySeq mgr.toSessionTable seq = some ref)
    (isForward : s.procs ref.id = some (.forward p)) (c : ConnId) :
    Library.Program.Wp (parseNormalMessage user c (forwardFrame seq d)) (fun _ t =>
      sentTexts (sentSince s t) = [(p.conn, .object seq "response".toList (encodeBase64 d))] ∧
        t.userMap user = some (mgr.setParser mgr.toFrameParser.reset)) (fun _ => False) s := by
  have short : d.length ≤ 2028 := fits
  have inTable : seq < 65536 := by
    have shaped := (stocked_of_reach (fun _ _ good => good) reached).shaped user mgr known
    obtain ⟨i, listed, _⟩ := getBySeq_eq_some.mp live
    have inside := lt_of_holeGet listed
    have bounded := shaped.bounded
    rw [shaped.parallel, userMgrMax] at bounded
    omega
  have small : protocolHeaderLen + (packed d (padding d)).length < 2 ^ 32 := by
    simp only [packed_length, padding, List.length_replicate, protocolHeaderLen, websockMinPackSize, httpCHeaderLen]
    omega
  have some_ : packed d (padding d) ≠ [] := by
    rw [← List.length_pos_iff, packed_length]
    omega
  have isData : httpCForwardResp < 256 ∧ httpCForwardResp ≠ 0x5 := by decide
  rw [forwardFrame, wp_parseNormalMessage_frame known idle isData.1 isData.2 inTable some_ small live]
  refine Library.Program.wp_post (wp_forward_processBuffer live isForward (by omega) _) fun _ t out => ?_
  refine ⟨?_, out.2⟩
  rw [sentSince, out.1, List.append_assoc, List.drop_left]
  rfl

/-- The device queues one frame for what it read, and the server turns it into one message to the
browser that holds just that, and waits for the next frame. -/
theorem forward_round_trip {w v : DevState} {f : FwdId} {b : BufId} {free : List BufId} {d : List Byte} {status : CallerStatus}
    (pool : w.rings.items .caches = some (b :: free)) (given : w.data.replies.head? = some (.data d)) (got : d ≠ [])
    (fits : d.length ≤ httpBufSize - (httpCHeaderLen + 4)) (ran : (tcpForwardRead f).run w = .ok (status, v))
    {s : ServerState} {user : JsVal} {mgr : UserMgmr} {ref : ProcRef} {p : ForwardProcessor}
    (reached : Reach Server.Events.step Enabled Server.Events.Starts s) (known : s.userMap user = some mgr)
    (idle : mgr.currSeq = none) (live : getBySeq mgr.toSessionTable (w.data.forwards f).seq = some ref)
    (isForward : s.procs ref.id = some (.forward p)) (c : ConnId) :
    ∃ frame t, Queued frame (queuedFrames w) b v ∧ parseNormalMessage user c frame s = .ok ((), t) ∧
      sentTexts (sentSince s t) = [(p.conn, .object (w.data.forwards f).seq "response".toList (encodeBase64 d))] ∧
      ∃ mgr', t.userMap user = some mgr' ∧ mgr'.toFrameParser = ⟨none, 0, some [], 0⟩ := by
  have queued := wp_of_run ran (wp_tcpForwardRead pool given got fits)
  have parsed := wp_parse_forwardFrame fits reached known idle live isForward c
  obtain ⟨_, t, ran', sent, known'⟩ := Library.Program.wp_total.mp parsed
  exact ⟨_, t, queued, ran', sent, _, known', rfl⟩

/-! A browser's forward, on the device and on the server, and two bytes that are read for it. -/

def openZero : List Byte :=
  frameOf httpCForward 0 (bytesBE 2 0 ++ bytesBE 2 80 ++ bytesBE 4 0 ++ text "router")

/-- The device with the forward open, and the answer `read` is going to give. -/
def forwarding : Option DevState :=
  (Device.Manager.step Device.Reassembly.device ⟨.receive openZero, 1, [.value 5, .value 0x0a000001]⟩).map
    fun w => ⟨{ w.data with replies := [.data (text "hi")] }, w.rings⟩

/-- The answer is there, a buffer is free and the function returns. -/
def canRead (w : DevState) : Bool :=
  ((w.rings.items .caches).any fun l => !l.isEmpty) && decide ((w.data.forwards 0).seq = 0) &&
    match w.data.replies.head?, (tcpForwardRead 0).run w with
    | some (.data d), .ok _ => decide (d = text "hi")
    | _, _ => false

theorem forwarding_canRead : forwarding.map canRead = some true := by
  decide +kernel

/-- The session is the browser's, and no frame is under way. -/
def browserOpen (s : ServerState) : Bool :=
  decide ((s.userMap (.str Server.Freeing.user)).map (fun mgr => (mgr.currSeq, getBySeq mgr.toSessionTable 0)) =
    some (none, some ⟨0, 0⟩)) && decide (s.procs 0 = some (.forward ⟨1, 0, 0⟩))

theorem oneForward_browserOpen :
    (runEnabled Server.Freeing.oneForward).map browserOpen = some true := by
  decide +kernel

theorem forward_round_trip_hi : ∃ (w v : DevState) (status : CallerStatus) (frame : List Byte) (s t : ServerState),
    (tcpForwardRead 0).run w = .ok (status, v) ∧ queuedFrames v = [frame] :: queuedFrames w ∧
    parseNormalMessage (.str Server.Freeing.user) 0 frame s = .ok ((), t) ∧
    sentTexts (sentSince s t) = [(1, .object 0 "response".toList (encodeBase64 (text "hi")))] := by
  obtain ⟨w, _, reads⟩ := Option.map_eq_some_iff.mp forwarding_canRead
  obtain ⟨s, ranServer, isOpen⟩ := Option.map_eq_some_iff.mp oneForward_browserOpen
  simp only [canRead, Bool.and_eq_true, decide_eq_true_eq, Option.any_eq_true] at reads
  obtain ⟨⟨⟨l, pool, some_⟩, seq⟩, returns⟩ := reads
  simp only [browserOpen, Bool.and_eq_true, decide_eq_true_eq] at isOpen
  obtain ⟨manager, isForward⟩ := isOpen
  obtain ⟨mgr, known, table⟩ := Option.map_eq_some_iff.mp manager
  obtain ⟨idle, live⟩ := Prod.mk.injEq _ _ _ _ ▸ table
  have reached := reach_of_runEnabled ranServer
  cases l with
  | nil => cases some_
  | cons b free =>
    split at returns
    next d returned given ran =>
      obtain ⟨status, v⟩ := returned
      rw [decide_eq_true_eq] at returns
      subst returns
      have live : getBySeq mgr.toSessionTable (w.data.forwards 0).seq = some ⟨0, 0⟩ := by rw [seq, live]
      have result := forward_round_trip pool given (by decide) (by decide) ran reached known idle live isForward 0
      obtain ⟨frame, t, queued, parsed, sent, _⟩ := result
      rw [seq] at sent
      exact ⟨w, v, status, frame, s, t, ran, queued.frames, parsed, sent⟩
    next => cases returns

end WebTunnel.System.Forwarding
