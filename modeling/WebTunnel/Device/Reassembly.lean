import WebTunnel.Device.Footprints
import WebTunnel.Device.Receiving

/-! Frames from the server, wherever the transport cuts them: frames that are dispatched are
put together, and those that are refused may leave the parser in the middle of something. -/

namespace WebTunnel.Device.Reassembly
set_option synthInstance.maxSize 10000
open Library.Bytes Library.Lists Library.Routines Library.Routines.Routine Function Device.Types Buffers Http
open Forward Tunnel Manager Frames Footprints Pool Receiving Server.Wire

/-! After a frame was processed, no buffer is current. -/

/-- The parts of the manager that are not the parser's buffer. -/
def elsewhere : Set Part := {part | part ≠ .prepare}

def NoCurr (w : DevState) : Prop := w.data.bufPrepare.curr = none

section
variable {α : Type} {parts : Set Part} {acts : Set Act} {code : DevM α}

instance (h : BufHead) : Allows elsewhere (.fill h) := ⟨nofun⟩
instance : Allows elsewhere .sync := ⟨nofun⟩
instance : Allows elsewhere .shake := ⟨nofun⟩
instance (act : Act) : Allows Set.univ act := ⟨trivial⟩

theorem keeps_noCurr (within : Within parts acts code) (out : .prepare ∉ parts) : Keeps NoCurr code :=
  keeps_of_within within fun _ _ frame holds => (congrArg HttpBuf.curr (frame.prepare out)).trans holds

instance [within : Within elsewhere Set.univ code] : Keeps NoCurr code := keeps_noCurr within fun out => out rfl

theorem keeps_noCurr_forward (f : FwdId) [within : Within (forwardParts f) (doing (.forward f)) code] :
    Keeps NoCurr code := keeps_noCurr within (by simp [forwardParts])

theorem keeps_noCurr_client (k : ClientId) [within : Within (clientParts k) (doing (.client k)) code] :
    Keeps NoCurr code := keeps_noCurr within (by simp [clientParts])

instance : Keeps NoCurr (httpContextCreate timeout) :=
  keeps_noCurr (inferInstance : Within contextsParts doingContexts _) (by simp [contextsParts, httpParts])

instance : Keeps NoCurr (tcpForwardCreate seq host port) :=
  keeps_noCurr (inferInstance : Within forwardsParts doingForwards _) (by simp [forwardsParts, forwardParts])

instance : Keeps NoCurr (tcpForwardRelease f) := keeps_noCurr_forward f
instance : Keeps NoCurr (forwardToWrite f) := keeps_noCurr_forward f
instance : Keeps NoCurr (sendEvent bufInfo k) := keeps_noCurr_client k
instance : Keeps NoCurr (clientToWrite k) := keeps_noCurr_client k

instance : Keeps NoCurr (findForward seq) := by
  unfold findForward
  infer_instance

instance : Keeps NoCurr releasePrepare := by
  have reset : Keeps NoCurr (setPrepare fun pbuf => { pbuf with curr := none, len := 0, totalLen := 0, type := 0 }) :=
    ⟨fun _ _ => rfl⟩
  unfold releasePrepare
  infer_instance

instance : Keeps NoCurr processTunnelReq := by
  unfold processTunnelReq
  infer_instance

instance : Keeps NoCurr processTunnelResp := by
  unfold processTunnelResp
  refine keeps_next fun d => ?_
  split <;> infer_instance

instance : Keeps NoCurr processTcpForward := by
  unfold processTcpForward forwardCommand
  refine keeps_next fun d => @keeps_ite _ _ _ _ _ _ _ _ _ _ _ _ _ _ ?_
  refine keeps_next fun d => keeps_next fun _ => keeps_next fun b => keeps_next fun seq =>
    keeps_next fun port => keeps_next fun type => ?_
  refine @keeps_ite _ _ _ _ _ _ _ _ _ _ _ _ _ (keeps_next fun f => ?_) _
  cases f <;> infer_instance

instance : Keeps NoCurr processTcpForwardresp := by
  unfold processTcpForwardresp
  refine keeps_next fun d => keeps_next fun f => ?_
  cases f <;> infer_instance

instance : Keeps NoCurr (dispatch type) := by
  unfold dispatch
  refine @keeps_ite _ _ _ _ _ _ _ _ _ _ _ _ _ (keeps_next fun b => ?_) _
  cases b <;> infer_instance

theorem wp_prepareProcess {w : DevState} (free : NoCurr w) :
    Wp prepareProcess (fun _ v => v.data.syncPrepare = false ∧ NoCurr v) (fun _ => True) w := by
  have dispatched (type : Nat) : Keeps NoCurr (dispatch type) := inferInstance
  rw [prepareProcess, wp_bind, wp_data, wp_bind]
  exact wp_post ((dispatched _).kept w free) fun _ v free => ⟨rfl, free⟩

end

/-! Frames that are put together. -/

section
variable {bufs : List (List Byte)} {frame first : List Byte} {rest : List (List Byte)} {type seq : Nat} {w : DevState}

/-- What the parser has when it goes on to process a frame. -/
structure Whole (type seq : Nat) (payload : List Byte) (v : DevState) : Prop where
  type : v.data.bufPrepare.type = type
  seq : v.data.bufPrepare.seq = seq
  len : v.data.bufPrepare.len = payload.length
  list : ∃ saved, v.rings.items .prepare = some saved ∧ (contents v.data saved).flatten = payload ∧
    ∀ b ∈ saved, 0 ≤ (v.data.bufs b).len ∧ (v.data.bufs b).len ≤ httpBufSize

theorem whole_of_complete {header : FrameHeader} {payload : List Byte} {v : DevState}
    (complete : Complete header payload v) : Whole header.type header.seq payload v := by
  obtain ⟨saved, collecting⟩ := complete
  have all : payload = (contents v.data saved).flatten := by
    rw [collecting.holds, partBytes, List.append_nil]
  exact ⟨collecting.type, collecting.seq, all ▸ collecting.len, saved, collecting.hangs, all.symm,
    collecting.sizes⟩

/-- A frame of the server is processed once, with the last of its fragments, and the parser
is ready for the next one. -/
theorem reassembles
    (built : createReq bufs type seq = .ok frame ∨
      ∃ parts, createReqBuffers bufs type seq = .ok parts ∧ parts.flatten = frame)
    (least : 1 ≤ (bufs.map List.length).sum) (most : (bufs.map List.length).sum ≤ httpInMax - 16)
    (cut : (first :: rest).flatten = frame) (header : 16 ≤ first.length)
    (nonempty : ∀ frag ∈ first :: rest, frag ≠ []) (small : ∀ frag ∈ first :: rest, frag.length < httpBufSize)
    (idle : Idle w) (stocked : Stocked w) :
    ∃ earlier last u v, first :: rest = earlier ++ [last] ∧ Taken w earlier u ∧
      (collect last).run u = .ok (.complete, v) ∧ Whole type seq bufs.flatten v ∧
      (httpMgmtPrepare last).run u = (do prepareProcess; return 0).run v ∧
      ∀ rc t, (httpMgmtPrepare last).run u = .ok (rc, t) →
        t.data.syncPrepare = false ∧ t.data.bufPrepare.curr = none := by
  have parts : ∃ parts, createReqBuffers bufs type seq = .ok parts ∧ parts.flatten = frame :=
    built.elim createReq_ok id
  obtain ⟨parts, made, rfl⟩ := parts
  obtain ⟨byte, short, fits, rfl⟩ := createReqBuffers_ok made
  have size : bufs.flatten.length = (bufs.map List.length).sum := List.length_flatten
  have total : frameLength bufs = bufs.flatten.length + httpCHeaderLen := by
    rw [frameLength, size, Nat.add_comm]
    rfl
  rw [List.flatten_cons, List.flatten_cons, total] at cut
  have full : bufs.flatten ≠ [] := by
    intro none
    rw [← size, none] at least
    exact absurd least (by decide)
  obtain ⟨earlier, last, u, v, split, taken, now, complete⟩ :=
    reassembled byte short full (by rw [size]; exact Nat.add_le_of_le_sub (by decide) most) cut header
      (fun frag member => nonempty frag (List.mem_cons_of_mem _ member)) small idle stocked
  have free : NoCurr v := by
    obtain ⟨saved, collecting⟩ := complete
    exact collecting.curr
  have same : (httpMgmtPrepare last).run u = (do prepareProcess; return 0 : DevM Int).run v := run_bind now
  refine ⟨earlier, last, u, v, split, taken, now, whole_of_complete complete, same, fun rc t ran => ?_⟩
  have idle : Wp (do prepareProcess; return 0 : DevM Int)
      (fun _ t => t.data.syncPrepare = false ∧ NoCurr t) (fun _ => True) v := by
    rw [wp_bind]
    exact wp_prepareProcess free
  exact wp_of_run (same ▸ ran) idle

end

theorem idle_of_starts {w : DevState} (starts : Starts w) : Idle w ∧ Stocked w := by
  obtain ⟨username, localHost, localPort, maxFds, servFd, now, rfl⟩ := starts
  exact ⟨⟨rfl, rfl, ⟨[], rfl⟩, ⟨_, rfl⟩⟩, [], _, rfl, rfl, by
    rw [List.length_reverse, List.length_finRange]
    decide⟩

def device : DevState := ⟨initData [] [] 80 1024 3 0, initRings⟩

theorem device_starts : Starts device := ⟨[], [], 80, 1024, 3, 0, rfl⟩

theorem reassembles_device :
    ∃ earlier last u v, [headerBytes 0x11 7 18 ++ [0x61], [0x62]] = earlier ++ [last] ∧ Taken device earlier u ∧
      (collect last).run u = .ok (.complete, v) ∧ Whole 0x11 7 [[0x61], [0x62]].flatten v ∧
      (httpMgmtPrepare last).run u = (do prepareProcess; return 0).run v ∧
      ∀ rc t, (httpMgmtPrepare last).run u = .ok (rc, t) →
        t.data.syncPrepare = false ∧ t.data.bufPrepare.curr = none := by
  have idle := idle_of_starts device_starts
  refine reassembles (.inl (createReq_of_lt (by decide) (by decide) (by decide))) (by decide) (by decide) (by decide)
    (by decide) (by decide) (by decide) idle.1 idle.2

/-! Frames that are refused or empty. -/

/-- A frame that comes next is put together, however it is cut behind its header. -/
def TakesNext (w : DevState) : Prop :=
  ∀ type seq payload first rest, type < 256 → seq < 65536 → payload ≠ [] →
    payload.length + httpCHeaderLen ≤ httpInMax →
    first ++ rest.flatten = headerBytes type seq (payload.length + httpCHeaderLen) ++ payload →
    httpCHeaderLen ≤ first.length → (∀ frag ∈ rest, frag ≠ []) →
    (∀ frag ∈ first :: rest, frag.length < httpBufSize) → Stocked w →
    Reassembled ⟨type, seq, payload.length + httpCHeaderLen⟩ payload w (first :: rest)

theorem takesNext_of_idle {w : DevState} (idle : Idle w) : TakesNext w :=
  fun _ _ _ _ _ byte short full allowed cut whole nonempty small stocked =>
    reassembled byte short full allowed cut whole nonempty small idle stocked

/-- After the fragments the parser is between two frames, no frame came of them, and the next
one is a frame of its own. -/
def Undisturbed (w : DevState) (frags : List (List Byte)) : Prop :=
  ∃ v, Taken w frags v ∧ Idle v ∧ TakesNext v

section
variable {buf : List Byte} {frags : List (List Byte)} {v w : DevState} {r : Received}

theorem small_of_collect (ran : (collect buf).run w = .ok (r, v)) : buf.length < httpBufSize := by
  have asserted : Wp (collect buf) (fun _ _ => buf.length < httpBufSize) (fun _ => True) w := by
    simp only [collect, wp_bind, wp_data, wp_assert]
    exact ⟨fun small => wp_of_forall fun _ _ => wp_of_forall fun _ _ => small, fun _ => trivial⟩
  exact wp_of_run ran asserted

theorem wp_prepareStore_sync {payload : List Byte} {part : Option BufId} (sync : w.data.syncPrepare = true) :
    Wp (prepareStore part payload) (fun _ v => v.data.syncPrepare = true) (fun _ => True) w := by
  have within : Within storeParts ∅ (prepareStore part payload) := inferInstance
  exact wp_post (within.frame w) fun _ _ frame => (frame.sync (by simp [storeParts])).1.trans sync

theorem sync_of_collect (sync : w.data.syncPrepare = true) (ran : (collect buf).run w = .ok (r, v)) :
    v.data.syncPrepare = true := by
  have kept : Wp (collect buf) (fun _ v => v.data.syncPrepare = true) (fun _ => True) w := by
    simp only [collect, prepareHeader, wp_bind, wp_data, wp_assert, wp_ite, sync, if_true, wp_pure]
    refine ⟨fun _ => ?_, fun _ => trivial⟩
    split
    · trivial
    · exact wp_prepareStore_sync sync
  exact wp_of_run ran kept

theorem sync_of_taken (sync : w.data.syncPrepare = true) (taken : Taken w frags v) : v.data.syncPrepare = true := by
  induction frags generalizing w with
  | nil =>
    cases taken
    exact sync
  | cons buf rest ih =>
    obtain ⟨rc, u, ran, taken⟩ := taken
    exact ih (sync_of_collect sync ran) taken

theorem sync_of_opens (idle : Idle w) (opens : Opens buf) (ran : (collect buf).run w = .ok (r, v)) :
    v.data.syncPrepare = true := by
  obtain ⟨whole, header, read, allowed⟩ := opens
  have starts : Wp (collect buf) (fun _ v => v.data.syncPrepare = true) (fun _ => True) w := by
    simp only [collect, prepareHeader, wp_bind, wp_data, wp_assert, wp_ite, idle.sync, read,
      Nat.not_lt.mpr whole, Nat.not_lt.mpr allowed, Bool.false_eq_true, if_false]
    refine ⟨fun _ => ?_, fun _ => trivial⟩
    obtain ⟨saved, hangs⟩ := idle.hangs
    obtain ⟨free, pool⟩ := idle.pool
    refine wp_releasePrepare_of_none idle.curr hangs pool fun R items home => ?_
    simp only [setSync, setPrepare, wp_modify, wp_pure]
    split
    · rfl
    · exact wp_prepareStore_sync rfl
  exact wp_of_run ran starts

/-- Fragments behind a refused header disturb nothing as long as none of them looks like the
beginning of a frame. -/
theorem undisturbed_rest_iff (idle : Idle w) :
    Undisturbed w frags ↔ ∀ frag ∈ frags, frag.length < httpBufSize ∧ ¬ Opens frag := by
  induction frags generalizing w with
  | nil => exact ⟨fun _ => by simp, fun _ => ⟨w, rfl, idle, takesNext_of_idle idle⟩⟩
  | cons buf rest ih =>
    rw [List.forall_mem_cons]
    constructor
    · rintro ⟨v, ⟨rc, u, ran, taken⟩, idle', next⟩
      have small := small_of_collect ran
      have strange : ¬ Opens buf := by
        intro opens
        have sync := sync_of_taken (sync_of_opens idle opens ran) taken
        rw [idle'.sync] at sync
        cases sync
      have after := wp_of_run ran (wp_collect_of_strange idle small strange)
      exact ⟨⟨small, strange⟩, (ih after.2).mp ⟨v, taken, idle', next⟩⟩
    · rintro ⟨⟨small, strange⟩, others⟩
      obtain ⟨_, u, ran, ⟨rc, rfl⟩, idle'⟩ := wp_total.mp (wp_collect_of_strange idle small strange)
      obtain ⟨v, taken, idle'', next⟩ := (ih idle').mpr others
      exact ⟨v, ⟨rc, u, ran, taken⟩, idle'', next⟩

section
variable {type seq : Nat} {payload first : List Byte} {rest : List (List Byte)}

/-- An empty frame leaves the parser waiting for its payload. -/
theorem not_undisturbed_of_empty (byte : type < 256) (short : seq < 65536)
    (cut : first ++ rest.flatten = headerBytes type seq httpCHeaderLen) (whole : httpCHeaderLen ≤ first.length)
    (idle : Idle w) : ¬ Undisturbed w (first :: rest) := by
  rintro ⟨v, ⟨rc, u, ran, taken⟩, idle', _⟩
  have behind : first ++ rest.flatten = headerBytes type seq httpCHeaderLen ++ [] := cut.trans (List.append_nil _).symm
  have front := (cut_behind behind (by rw [headerBytes_length]; exact whole)).1
  have opens : Opens first := by
    refine ⟨whole, ⟨type, seq, httpCHeaderLen⟩, ?_, show httpCHeaderLen ≤ httpInMax by decide⟩
    rw [front]
    exact readHeader_headerBytes byte short (by decide) _
  have sync := sync_of_taken (sync_of_opens idle opens ran) taken
  rw [idle'.sync] at sync
  cases sync

/-- A frame that is too long leaves the parser as it was unless one of its later fragments
looks like the beginning of a frame. -/
theorem undisturbed_of_large_iff (byte : type < 256) (short : seq < 65536)
    (large : httpInMax < payload.length + httpCHeaderLen) (fits : payload.length + httpCHeaderLen < 2 ^ 32)
    (cut : first ++ rest.flatten = headerBytes type seq (payload.length + httpCHeaderLen) ++ payload)
    (whole : httpCHeaderLen ≤ first.length) (idle : Idle w) :
    Undisturbed w (first :: rest) ↔
      (∀ frag ∈ first :: rest, frag.length < httpBufSize) ∧ ∀ frag ∈ rest, ¬ Opens frag := by
  have front := (cut_behind cut (by rw [headerBytes_length]; exact whole)).1
  have strange : ¬ Opens first := by
    rintro ⟨_, header, read, allowed⟩
    rw [front, readHeader_headerBytes byte short fits] at read
    cases read
    exact absurd large (Nat.not_lt.mpr allowed)
  rw [undisturbed_rest_iff idle, List.forall_mem_cons, List.forall_mem_cons]
  constructor
  · rintro ⟨⟨small, _⟩, others⟩
    exact ⟨⟨small, fun frag member => (others frag member).1⟩, fun frag member => (others frag member).2⟩
  · rintro ⟨⟨small, smaller⟩, others⟩
    exact ⟨⟨small, strange⟩, fun frag member => ⟨smaller frag member, others frag member⟩⟩

/-- A frame that is not dispatched leaves the parser undisturbed if and only if it has a
payload, all its fragments are taken in, and none behind the first looks like a header of a
frame that would be taken. -/
theorem undisturbed_iff (byte : type < 256) (short : seq < 65536)
    (refused : payload = [] ∨ httpInMax < payload.length + httpCHeaderLen)
    (fits : payload.length + httpCHeaderLen < 2 ^ 32)
    (cut : first ++ rest.flatten = headerBytes type seq (payload.length + httpCHeaderLen) ++ payload)
    (whole : httpCHeaderLen ≤ first.length) (idle : Idle w) :
    Undisturbed w (first :: rest) ↔
      payload ≠ [] ∧ (∀ frag ∈ first :: rest, frag.length < httpBufSize) ∧ ∀ frag ∈ rest, ¬ Opens frag := by
  rcases refused with empty | large
  · subst empty
    rw [List.length_nil, Nat.zero_add, List.append_nil] at cut
    exact ⟨fun undisturbed => absurd undisturbed (not_undisturbed_of_empty byte short cut whole idle),
      fun conditions => absurd rfl conditions.1⟩
  · rw [undisturbed_of_large_iff byte short large fits cut whole idle]
    refine ⟨fun conditions => ⟨?_, conditions⟩, fun conditions => conditions.2⟩
    rintro rfl
    exact absurd large (by decide)

end

def longPayload : List Byte := List.replicate 22000 0

theorem undisturbed_iff_device :
    Undisturbed device
        (headerBytes 0x11 7 (longPayload.length + httpCHeaderLen) :: List.replicate 11 (List.replicate 2000 0)) ↔
      longPayload ≠ [] ∧
      (∀ frag ∈ headerBytes 0x11 7 (longPayload.length + httpCHeaderLen) :: List.replicate 11 (List.replicate 2000 0),
        frag.length < httpBufSize) ∧
      ∀ frag ∈ List.replicate 11 (List.replicate 2000 (0 : Byte)), ¬ Opens frag := by
  have idle := (idle_of_starts device_starts).1
  have size : longPayload.length = 22000 := List.length_replicate
  have byte : 0x11 < 256 := by decide
  have short : 7 < 65536 := by decide
  refine undisturbed_iff byte short (.inr (by rw [size]; decide)) (by rw [size]; decide) ?_
    (by rw [headerBytes_length]; exact le_refl _) idle
  rw [List.flatten_replicate_replicate]
  rfl

/-- The parser is not ready for the next frame after an empty data frame. -/
theorem empty_frame_disturbs :
    ¬ ∀ (type seq : Nat) (payload first : List Byte) (rest : List (List Byte)) (w : DevState),
      type < 256 → seq < 65536 → (payload = [] ∨ httpInMax < payload.length + httpCHeaderLen) →
      payload.length + httpCHeaderLen < 2 ^ 32 →
      first ++ rest.flatten = headerBytes type seq (payload.length + httpCHeaderLen) ++ payload →
      httpCHeaderLen ≤ first.length → Idle w → Undisturbed w (first :: rest) := by
  intro always
  have idle := (idle_of_starts device_starts).1
  have undisturbed := always 0x11 7 [] (headerBytes 0x11 7 httpCHeaderLen) [] device (by decide) (by decide)
    (.inl rfl) (by decide) (by simp) (by rw [headerBytes_length]; exact le_refl _) idle
  have byte : 0x11 < 256 := by decide
  have short : 7 < 65536 := by decide
  exact not_undisturbed_of_empty byte short (List.append_nil _)
    (by rw [headerBytes_length]; exact le_refl _) idle undisturbed

end

end WebTunnel.Device.Reassembly
