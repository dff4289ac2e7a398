import WebTunnel.Device.Responses

/-! How the functions that a context runs leave its error and the responses queued for it. -/

namespace WebTunnel.Device.Coroutines
set_option synthInstance.maxSize 10000
open Library.Bytes Library.Lists Library.Routines Library.Routines.Routine Library.Run Function Device.Types Buffers
open Parsing Http Forward Tunnel Manager Frames Footprints Keeping Responses

/-! Connecting and writing. -/

section
variable {c : CtxId} {w : DevState} {seq : Nat} {α : Type}

/-- Any routine, of which nothing is known. -/
theorem wp_any_then {β : Type} {code : DevM α} {next : α → DevM β} {post : β → DevState → Prop}
    (after : ∀ a v, Wp (next a) post (fun _ => True) v) : Wp (code >>= next) post (fun _ => True) w := by
  rw [wp_bind]
  exact wp_of_forall after

/-- A context whose attempt fails has an error to report. -/
theorem wp_httpContextConnect (connect : (w.data.ctxs c).funcRun = .connect) :
    Wp (httpContextConnect c) (fun status v => if status = .finish then (v.data.ctxs c).errcode ≠ 0 else
      (v.data.ctxs c).funcRun ≠ .read ∧ (v.data.ctxs c).errcode = (w.data.ctxs c).errcode) (fun _ => True) w := by
  rw [httpContextConnect, wp_bind, wp_getCtx]
  split
  case h_4 =>
    simp only [wp_bind, wp_setCtx, wp_pure, HttpMgmt.setCtx, update_self, reduceCtorEq, if_false, connect]
    exact ⟨by simp, trivial⟩
  all_goals
    refine wp_any_then fun slot _ => wp_any_then fun pfd _ => wp_any_then fun rc v => ?_
    rw [wp_bind, wp_data]
    split
    · simp only [wp_bind, wp_setCtx, wp_pure, HttpMgmt.setCtx, update_self, reduceCtorEq, if_false]
      exact ⟨by simp, trivial⟩
    · split
      · refine wp_any_then fun _ v => ?_
        simp only [wp_bind, wp_setCtx, wp_pure, HttpMgmt.setCtx, update_self, reduceCtorEq, if_false, connect]
        exact ⟨by simp, trivial⟩
      · simp [HttpMgmt.setCtx]

/-- When everything is written the context begins to read. -/
theorem wp_httpContextWritten (fine : Fine c .write seq w) :
    Wp (httpContextWritten c) (fun status v => status = .pending ∧ (v.data.ctxs c).errcode = 0 ∧
      ((v.data.ctxs c).funcRun = .read → (v.data.ctxs c).line = .start)) (fun _ => True) w := by
  rw [httpContextWritten, wp_bind, wp_getCtx]
  refine wp_any_then fun _ v => ?_
  have spliced : Within (aside c) Set.univ (listSpliceInit (.writeTodo c) .caches) := inferInstance
  rw [wp_bind, wp_setCtx, wp_bind]
  refine wp_post (spliced.frame _) fun _ u frame => ?_
  have context := frame.ctx c fun member => member rfl
  simp only [HttpMgmt.setCtx, update_self] at context
  refine ⟨rfl, ?_, fun _ => ?_⟩ <;> rw [context]
  exact fine.errcode

/-- What ends the writing is the failure of a write. -/
structure Wrote (c : CtxId) (status : CallerStatus) (v : DevState) : Prop where
  broken : status = .finish → (v.data.ctxs c).errcode ≠ 0 ∨ (v.data.ctxs c).line = .broken
  goes : status ≠ .finish → (v.data.ctxs c).errcode = 0 ∧
    ((v.data.ctxs c).funcRun = .read → (v.data.ctxs c).line = .start)

theorem wrote_of_fine {status : CallerStatus} (fine : Fine c .write seq w) (pending : status ≠ .finish) :
    Wrote c status w :=
  ⟨fun finish => absurd finish pending, fun _ => ⟨fine.errcode, fun read => by cases fine.funcRun.symm.trans read⟩⟩

theorem wp_setCtxLine_then {line : CcrLine} {status : CallerStatus} (fine : Fine c .write seq w)
    (ends : status = .finish → line = .broken) :
    Wp (do setCtxLine c line; return status) (fun status v => Wrote c status v) (fun _ => True) w := by
  simp only [setCtxLine, wp_bind, wp_getCtx, wp_setCtx, wp_pure]
  constructor
  case broken =>
    intro finish
    right
    simpa only [HttpMgmt.setCtx, update_self] using ends finish
  case goes =>
    intro _
    simp only [HttpMgmt.setCtx, update_self]
    exact ⟨fine.errcode, fun read => by cases fine.funcRun.symm.trans read⟩

/-- The bytes of a buffer are accounted for. -/
theorem wp_wroteBytes_fine {b : BufId} {n : Int} (fine : Fine c .write seq w) :
    Wp (wroteBytes c b n) (fun status v => Fine c .write seq v ∧ status ≠ some .finish) (fun _ => True) w := by
  have kept : Keeps (Fine c .write seq) (wroteBytes c b n) := inferInstance
  refine wp_and (kept.kept w fine) ?_
  rw [wroteBytes]
  refine wp_any_then fun info v => wp_any_then fun _ v => ?_
  split
  · refine wp_any_then fun _ v => wp_any_then fun _ v => wp_any_then fun _ v => ?_
    simp
  · refine wp_any_then fun _ v => wp_any_then fun _ v => wp_any_then fun _ v => wp_any_then fun _ v => ?_
    simp

theorem wp_writeLoop_fine {count : Nat} (fine : Fine c .write seq w) :
    Wp (writeLoop c count) (fun status v => Wrote c status v) (fun _ => True) w := by
  induction count generalizing w with
  | zero => trivial
  | succ count ih =>
    rw [writeLoop, wp_bind, wp_getCtx]
    split
    next =>
      refine wp_post (wp_httpContextWritten fine) ?_
      rintro status v ⟨pending, errcode, line⟩
      exact ⟨fun finish => (by cases pending.symm.trans finish), fun _ => ⟨errcode, line⟩⟩
    next b current =>
      have written (bytes : List Byte) : Keeps (Fine c .write seq) (sysWrite (.http c) bytes) := inferInstance
      have read (info : BufInfo) : Keeps (Fine c .write seq) (bytesAt b info.start info.len) := inferInstance
      rw [wp_bind, wp_getBuf, wp_bind]
      refine wp_post ((read _).kept w fine) fun bytes v fine => ?_
      rw [wp_bind]
      refine wp_post ((written bytes).kept v fine) fun n v fine => ?_
      split
      · rw [wp_bind, wp_data]
        split
        · exact wp_setCtxLine_then fine (by simp)
        · exact wp_setCtxLine_then fine fun _ => rfl
      · rw [wp_bind]
        refine wp_post (wp_wroteBytes_fine fine) ?_
        rintro status v ⟨fine, other⟩
        cases status with
        | none => exact ih fine
        | some status => exact wrote_of_fine fine fun finish => other (congrArg some finish)

theorem wp_httpContextWrite (fine : Fine c .write seq w) :
    Wp (httpContextWrite c) (fun status v => Wrote c status v) (fun _ => True) w := by
  rw [httpContextWrite, wp_bind, wp_getCtx]
  split
  case h_4 | h_5 =>
    -- some of the buffer was written before
    rw [wp_bind, wp_deref]
    refine ⟨fun b _ => ?_, fun _ => trivial⟩
    rw [wp_bind]
    refine wp_post (wp_wroteBytes_fine fine) ?_
    rintro status v ⟨fine, other⟩
    cases status with
    | none => exact wp_writeLoop_fine fine
    | some status => exact wrote_of_fine fine fun finish => other (congrArg some finish)
  next =>
    have next : Keeps (Fine c .write seq) (nextBufInfo (.writeTodo c)) := inferInstance
    have set (curr : Option BufId) : Keeps (Fine c .write seq) (setWriteCurr c curr) := inferInstance
    rw [wp_bind]
    refine wp_post (next.kept w fine) fun curr v fine => ?_
    rw [wp_bind]
    refine wp_post ((set curr).kept v fine) fun _ v fine => ?_
    rw [wp_bind, wp_getCtx]
    split
    · simp only [wp_bind, wp_getCtx, wp_setCtx, wp_pure, HttpMgmt.setCtx]
      exact ⟨fun _ => .inl (by simp), fun other => absurd rfl other⟩
    · exact wp_writeLoop_fine fine
  next => exact wp_writeLoop_fine fine
  next => exact wp_writeLoop_fine fine
  next => exact wp_setCtxLine_then fine (by simp)

end

/-! Parsing. -/

section
variable {c : CtxId} {P : DevState → Prop} [spares : Spares c P]
include spares

instance : Keeps P (nextChunkBuf c v) := by
  unfold nextChunkBuf
  infer_instance

instance : Keeps P (current v) := by
  unfold current
  infer_instance

instance : Keeps P (keepLast v) := by
  unfold keepLast
  infer_instance

instance : Keeps P (abandon v) := by
  unfold abandon
  infer_instance

instance : Keeps P (chunkDone c v) := by
  have set (len : Int) (v : Decoder) : Keeps P (do
      let ctx ← getCtx c
      let ctx' ← getCtx c
      setCtx c { ctx with bufRead := { ctx'.bufRead with len } }
      return v : DevM Decoder) := by
    refine ⟨fun w holds => ?_⟩
    have kept := (keeps_update (c := c) (P := P) (fun ctx => { ctx with bufRead := { ctx.bufRead with len } })
      (fun _ => rfl) (fun _ => rfl) fun _ => rfl).kept w holds
    simp only [wp_bind, wp_getCtx, wp_setCtx, wp_pure] at kept ⊢
    exact kept
  unfold chunkDone
  infer_instance

instance : Keeps P (chunkLine c v) := by
  unfold chunkLine
  refine keeps_next fun _ => keeps_next fun bytes => ?_
  dsimp only
  refine @keeps_ite _ _ _ _ _ _ _ _ _ _ _ _ _ _ (@keeps_ite _ _ _ _ _ _ _ _ _ _ _ _ _ _ ?_)
  split <;> infer_instance

instance : Keeps P (chunkLrln c v) := by
  unfold chunkLrln
  refine keeps_next fun _ => @keeps_ite _ _ _ _ _ _ _ _ _ _ _ _ _ (keeps_next fun next => ?_) _
  cases next <;> infer_instance

instance : Keeps P (copyChunk size count v) := by
  induction count generalizing v with
  | zero => exact keeps_stop _
  | succ count ih =>
    unfold copyChunk
    infer_instance

instance : Keeps P (chunkGetSize c v) := by
  unfold chunkGetSize
  infer_instance

end

section
variable {c : CtxId} {r : FuncRun} {seq : Nat} {w : DevState}

theorem wp_chunkBegin_fine {v : Decoder} (fine : Fine c r seq w) :
    Wp (chunkBegin c v) (fun v w => 0 ≤ v.rc → Fine c r seq w) (fun _ => True) w := by
  rw [chunkBegin]
  refine wp_kept_then fine ?_
  rintro ⟨b, info⟩ u fine
  refine wp_kept_then fine fun bytes u fine => ?_
  dsimp only
  split
  · simp only [wp_bind, wp_getCtx, wp_setCtx, wp_pure]
    exact fun positive => absurd positive (by decide)
  · split
    · refine wp_kept_then fine fun next u fine => ?_
      cases next with
      | none => exact fun _ => fine
      | some b => exact wp_kept_then fine fun _ _ fine _ => fine
    · exact fun _ => fine

theorem wp_decode_fine {fuel : Nat} {v : Decoder} (fine : 0 ≤ v.rc → Fine c r seq w) :
    Wp (decode c fuel v) (fun v w => 0 ≤ v.rc → Fine c r seq w) (fun _ => True) w := by
  induction fuel generalizing v w with
  | zero => trivial
  | succ fuel ih =>
    rw [decode, wp_ite]
    split
    next runs =>
      have fine := fine (by omega)
      have stepped : Wp (decodeStep c v) (fun v w => 0 ≤ v.rc → Fine c r seq w) (fun _ => True) w := by
        unfold decodeStep
        split
        · exact wp_chunkBegin_fine fine
        · exact wp_of_kept fine fun _ _ fine _ => fine
        · exact wp_of_kept fine fun _ _ fine _ => fine
      rw [wp_bind]
      exact wp_post stepped fun v u fine => ih fine
    next => exact fine

theorem wp_httpChunkCheck_fine {b : BufId} (fine : Fine c r seq w) :
    Wp (httpChunkCheck c b) (fun offset v => offset.isSome → Fine c r seq v) (fun _ => True) w := by
  have chunked : Keeps (Fine c r seq) (do setCtx c { ← getCtx c with isChunk := true }) :=
    keeps_update (fun ctx => { ctx with isChunk := true }) (fun _ => rfl) (fun _ => rfl) fun _ => rfl
  rw [httpChunkCheck]
  refine wp_kept_then fine fun info _ fine => wp_kept_then fine fun _ _ fine =>
    wp_kept_then fine fun bytes _ fine => ?_
  split
  · exact fun _ => fine
  · refine wp_kept_then fine fun tmp _ fine => ?_
    cases tmp with
    | none =>
      simp only [wp_bind, wp_getCtx, wp_setCtx, wp_pure]
      simp
    | some tmp =>
      dsimp only
      generalize _ + lrln.length = offset
      exact wp_of_kept fine fun _ _ fine _ => fine

/-- A response that is parsed has left no error. -/
theorem wp_httpParse_fine (fine : Fine c r seq w) :
    Wp (httpParse c) (fun rc v => rc = 0 → Fine c r seq v) (fun _ => True) w := by
  rw [httpParse]
  refine wp_kept_then fine fun _ _ fine => wp_kept_then fine fun b _ fine => ?_
  cases b with
  | none =>
    simp only [wp_bind, wp_getCtx, wp_setCtx, wp_pure]
    simp
  | some b =>
    rw [wp_bind]
    refine wp_post (wp_httpChunkCheck_fine fine) fun offset v fine => ?_
    cases offset with
    | none => simp
    | some offset =>
      rw [wp_bind, wp_getCtx]
      split
      · exact fun _ => fine rfl
      · refine wp_kept_then (fine rfl) fun _ _ fine => ?_
        rw [wp_bind]
        refine wp_post (wp_decode_fine fun _ => fine) fun v u fine => ?_
        rw [wp_bind, wp_when]
        constructor
        · intro negative
          refine wp_of_forall fun _ _ zero => ?_
          omega
        · exact fun _ zero => fine zero.ge

end

/-! Reporting. -/

/-- A context that has queued the given responses. -/
structure Told (c : CtxId) (seq : Nat) (told : List Nat) (w : DevState) : Prop where
  seq : (w.data.ctxs c).seq = seq
  told : responses c w.data.acts = told

section
variable {c : CtxId} {r : FuncRun} {seq : Nat} {told : List Nat} {w v : DevState} {α : Type}

instance : Allows (working c) .goWritable := ⟨trivial, id⟩

instance keeps_told (code : DevM α) [within : Within (aside c) (working c) code] : Keeps (Told c seq told) code := by
  refine keeps_of_within within fun w v frame holds => ⟨?_, ?_⟩
  · rw [frame.ctx c fun member => member rfl]
    exact holds.seq
  · rw [responses_of_frame frame]
    exact holds.told

theorem Told.setCtx {ctx : HttpContext} (holds : Told c seq told w) (same : ctx.seq = seq) :
    Told c seq told { w with data := w.data.setCtx c ctx } :=
  ⟨by simpa only [HttpMgmt.setCtx, update_self] using same, holds.told⟩

theorem Told.queue {type : Nat} {bufs : List (List Byte)} (holds : Told c seq told w) (response : type = httpCResp) :
    Told c seq (seq :: told) { w with data := w.data.note (.queue (some (.http c)) type seq bufs) } := by
  refine ⟨holds.seq, ?_⟩
  have queued : responses c (.queue (some (.http c)) type seq bufs :: w.data.acts) =
      seq :: responses c w.data.acts := if_pos ⟨rfl, response⟩
  exact queued.trans (congrArg (seq :: ·) holds.told)

theorem wp_queueResponse_told (holds : Told c seq told w) :
    Wp (queueResponse c) (fun _ v => Told c seq (seq :: told) v) (fun _ => True) w := by
  rw [queueResponse, wp_bind, wp_getCtx]
  dsimp only
  rw [wp_bind, wp_setCtx]
  have set : Told c seq told { w with data := w.data.setCtx c { w.data.ctxs c with
      bufRead := { (w.data.ctxs c).bufRead with len := (w.data.ctxs c).bufRead.len + httpCHeaderLen } } } :=
    holds.setCtx holds.seq
  generalize headerMem httpCResp _ _ = header
  refine wp_kept_then set fun b _ holds' => wp_kept_then holds' fun b _ holds' => wp_kept_then holds' fun _ _ holds' =>
    wp_kept_then holds' fun _ _ holds' => wp_kept_then holds' fun d _ holds' => wp_kept_then holds' fun l v holds' => ?_
  rw [wp_bind, wp_note, holds.seq]
  refine wp_kept_then (holds'.queue rfl) fun _ v holds' => ?_
  simp only [wp_bind, wp_getCtx, wp_setCtx]
  exact wp_of_kept (holds'.setCtx holds'.seq) fun _ _ holds' => holds'

/-- Where a buffer is free, an error is reported. -/
theorem wp_generateError_told (holds : Told c seq told w) (free : w.rings.items .caches ≠ some []) :
    Wp (generateError c) (fun _ v => Told c seq (seq :: told) v) (fun _ => True) w := by
  have alloc : Wp allocBuf (fun b v => b ≠ none ∧ Told c seq told v) (fun _ => True) w := by
    rw [allocBuf, wp_bind, wp_head]
    refine ⟨fun l found => ?_, fun _ => trivial⟩
    cases l with
    | nil => exact absurd found free
    | cons b rest =>
      refine wp_kept_then holds fun _ _ holds => wp_kept_then holds fun info _ holds =>
        wp_kept_then holds fun _ _ holds => ⟨by simp, holds⟩
  rw [generateError, wp_bind]
  refine wp_post alloc fun b v ⟨got, holds⟩ => ?_
  cases b with
  | none => exact absurd rfl got
  | some b =>
    rw [wp_bind, wp_getCtx, holds.seq]
    dsimp only
    generalize (errorText.length + httpCHeaderLen) % 2 ^ 16 = len
    generalize errorText ++ [0] = bytes
    generalize headerMem httpCResp (htons seq) (htons len) = header
    refine wp_kept_then holds fun _ _ holds => wp_kept_then holds fun _ _ holds => wp_kept_then holds fun _ _ holds =>
      wp_kept_then holds fun bytes v holds => ?_
    rw [wp_bind, wp_note]
    exact wp_of_kept (holds.queue rfl) fun _ _ holds => holds

end

/-! Reading. -/

/-- The stream has ended, by itself or with an error. -/
def Ended (got : Option (List Byte)) (w : DevState) : Prop :=
  (∀ byte rest, got ≠ some (byte :: rest)) ∧ (got.isSome ∨ (w.data.errno ≠ .intr ∧ w.data.errno ≠ .again))

/-- A call that reads finds the end of the stream and puts what was read last with the rest. -/
def ReadsEnd (c : CtxId) (w v : DevState) : Prop :=
  ∃ b w₁ w₂ got, (readBuf c).run w = .ok (b, w₁) ∧
    (sysRead (.http c) ((httpBufSize : Int) - (w₁.data.bufs b).start)).run w₁ = .ok (got, w₂) ∧
    Ended got w₂ ∧ (lastRead c b).run w₂ = .ok ((), v)

/-- What was read can be parsed. -/
def Parsed (c : CtxId) (w : DevState) : Prop := ∀ rc v, (httpParse c).run w = .ok (rc, v) → rc = 0

/-- There is an error to report and a buffer for it. -/
def Reports (c : CtxId) (w : DevState) : Prop := (w.data.ctxs c).errcode ≠ 0 ∧ w.rings.items .caches ≠ some []

/-- What was read can be parsed, or the error is reported. -/
def ParsedOrReported (c : CtxId) (w : DevState) : Prop :=
  ∀ rc v, (httpParse c).run w = .ok (rc, v) → rc = 0 ∨ Reports c v

/-- How a context that is going to be released has its response: it is queued, or there is an
error to report. -/
def Settled (c : CtxId) (v : DevState) : Prop :=
  ((v.data.ctxs c).errcode = 0 ∧ responses c v.data.acts = [(v.data.ctxs c).seq]) ∨
    (Reports c v ∧ responses c v.data.acts = [])

section
variable {c : CtxId} {seq : Nat} {w v : DevState} {α : Type}

instance {P : DevState → Prop} [spares : Spares c P] : Keeps P (contextSaveRead c b) := by
  refine ⟨fun w holds => ?_⟩
  have same {w v : DevState} (funcRun : (v.data.ctxs c).funcRun = (w.data.ctxs c).funcRun)
      (seq : (v.data.ctxs c).seq = (w.data.ctxs c).seq) (errcode : (v.data.ctxs c).errcode = (w.data.ctxs c).errcode)
      (holds : P w) : P v := spares.same w v funcRun seq errcode holds
  rw [contextSaveRead, wp_bind, wp_getBuf]
  refine wp_kept_then holds fun _ v holds => ?_
  rw [wp_bind, wp_getCtx, wp_bind, wp_setCtx]
  have set : P { v with data := v.data.setCtx c { v.data.ctxs c with
      bufRead := { (v.data.ctxs c).bufRead with len := (v.data.ctxs c).bufRead.len + (w.data.bufs b).start } } } := by
    refine same ?_ ?_ ?_ holds <;> simp only [HttpMgmt.setCtx, update_self]
  refine wp_kept_then set fun _ u holds => ?_
  rw [wp_bind, wp_getCtx, wp_setCtx]
  refine same ?_ ?_ ?_ holds <;> simp only [HttpMgmt.setCtx, update_self]

instance {P : DevState → Prop} [spares : Spares c P] : Keeps P (lastRead c b) := by
  have none : Keeps P (do
      let ctx ← getCtx c
      setCtx c { ctx with bufRead := { ctx.bufRead with curr := none } }) :=
    keeps_update (fun ctx => { ctx with bufRead := { ctx.bufRead with curr := .none } }) (fun _ => rfl) (fun _ => rfl)
      fun _ => rfl
  unfold lastRead
  infer_instance

instance {P : DevState → Prop} [spares : Spares c P] : Keeps P (readBuf c) := by
  refine ⟨fun w holds => ?_⟩
  rw [readBuf, wp_bind, wp_getCtx]
  split
  · exact holds
  · have alloc : Within (aside c) Set.univ allocBuf := inferInstance
    rw [wp_bind]
    refine wp_post (alloc.frame w) fun b v frame => ?_
    have context := frame.ctx c fun member => member rfl
    rw [wp_bind, wp_setCtx, wp_deref]
    refine ⟨fun b got => ?_, fun _ => trivial⟩
    refine spares.same w _ ?_ ?_ ?_ holds <;> simp only [HttpMgmt.setCtx, update_self]

/-- A context that runs, with no error and no response yet. -/
structure Asked (c : CtxId) (r : FuncRun) (seq : Nat) (w : DevState) : Prop extends Fine c r seq w where
  none : responses c w.data.acts = []

instance keeps_asked (code : DevM α) [fine : Keeps (Fine c r seq) code]
    [within : Within (contextParts c) (working c) code] : Keeps (Asked c r seq) code := by
  refine ⟨fun w asked => wp_post (wp_and (fine.kept w asked.toFine) (within.frame w)) fun _ v ⟨fine, frame⟩ => ?_⟩
  exact ⟨fine, (responses_of_frame frame).trans asked.none⟩

/-- A context that goes on. -/
structure Goes (c : CtxId) (v : DevState) : Prop where
  none : responses c v.data.acts = []
  errcode : (v.data.ctxs c).errcode = 0
  line : (v.data.ctxs c).funcRun = .read → (v.data.ctxs c).line = .start ∨ (v.data.ctxs c).line = .pending

theorem Asked.goes (asked : Asked c .read seq w) :
    Wp (do setCtxLine c .pending; return CallerStatus.pending)
      (fun status v => (status = .finish → Settled c v) ∧ (status ≠ .finish → Goes c v)) (fun _ => True) w := by
  simp only [setCtxLine, wp_bind, wp_getCtx, wp_setCtx, wp_pure]
  refine ⟨by simp, fun _ => ⟨asked.none, ?_, fun _ => .inr ?_⟩⟩ <;> simp only [HttpMgmt.setCtx, update_self]
  exact asked.errcode

/-- The response is parsed and queued, or the error is left to be reported. -/
theorem wp_httpContextFinish (asked : Asked c r seq w) (parsed : ParsedOrReported c w) :
    Wp (httpContextFinish c) (fun rc v => (rc = 0 → Told c seq [seq] v ∧ (v.data.ctxs c).errcode = 0) ∧
      (rc ≠ 0 → Reports c v ∧ responses c v.data.acts = [])) (fun _ => True) w := by
  have parsing : Within (contextParts c) (working c) (httpParse c) := inferInstance
  rw [httpContextFinish, wp_bind]
  refine wp_post (wp_and (wp_and (wp_httpParse_fine asked.toFine) (parsing.frame w)) (wp_ran _ w))
    fun rc v ⟨⟨fine, frame⟩, ran⟩ => ?_
  have told : responses c v.data.acts = [] := (responses_of_frame frame).trans asked.none
  split
  next failed => exact ⟨fun ok => absurd ok (by decide), fun _ => ⟨(parsed rc v ran).resolve_left failed, told⟩⟩
  next ok =>
    have fine := fine (not_not.mp ok)
    have queued : Keeps (Fine c r seq) (queueResponse c) := by
      refine ⟨fun w fine => ?_⟩
      rw [queueResponse, wp_bind, wp_getCtx]
      dsimp only
      rw [wp_bind, wp_setCtx]
      have set : Fine c r seq { w with data := w.data.setCtx c { w.data.ctxs c with
          bufRead := { (w.data.ctxs c).bufRead with len := (w.data.ctxs c).bufRead.len + httpCHeaderLen } } } := by
        refine Spares.same w _ ?_ ?_ ?_ fine <;> simp only [HttpMgmt.setCtx, update_self]
      generalize headerMem httpCResp _ _ = header
      refine wp_kept_then set fun b _ fine => wp_kept_then fine fun b _ fine => wp_kept_then fine fun _ _ fine =>
        wp_kept_then fine fun _ _ fine => wp_kept_then fine fun d _ fine => wp_kept_then fine fun l v fine =>
        wp_kept_then fine fun _ _ fine => wp_kept_then fine fun _ v fine => ?_
      simp only [wp_bind, wp_getCtx, wp_setCtx]
      have emptied : Fine c r seq { v with data := v.data.setCtx c { v.data.ctxs c with
          bufRead := { (v.data.ctxs c).bufRead with len := 0 } } } := by
        refine Spares.same v _ ?_ ?_ ?_ fine <;> simp only [HttpMgmt.setCtx, update_self]
      exact wp_of_kept emptied fun _ _ fine => fine
    rw [wp_bind]
    refine wp_post (wp_and (wp_queueResponse_told ⟨fine.seq, told⟩) (queued.kept v fine)) fun _ u ⟨told, fine⟩ => ?_
    exact ⟨fun _ => ⟨told, fine.errcode⟩, fun other => absurd rfl other⟩

theorem wp_httpContextFinish_rc (parsed : Parsed c w) :
    Wp (httpContextFinish c) (fun rc _ => rc = 0) (fun _ => True) w := by
  rw [httpContextFinish, wp_bind]
  refine wp_post (wp_ran _ w) fun rc v ran => ?_
  split
  next failed => exact absurd (parsed rc v ran) failed
  next => exact wp_any_then fun _ _ => rfl

theorem wp_httpContextRead (asked : Asked c .read seq w)
    (line : (w.data.ctxs c).line = .start ∨ (w.data.ctxs c).line = .pending)
    (parsed : ∀ v, ReadsEnd c w v → ParsedOrReported c v) :
    Wp (httpContextRead c) (fun status v => (status = .finish → Settled c v) ∧ (status ≠ .finish → Goes c v))
      (fun _ => True) w := by
  rw [httpContextRead, wp_bind, wp_getCtx]
  split
  case h_1 | h_2 =>
    have before : Keeps (Asked c .read seq) (readBuf c) := inferInstance
    rw [wp_bind]
    refine wp_post (wp_and (before.kept w asked) (wp_ran _ w)) ?_
    rintro b w₁ ⟨asked, ranBuf⟩
    rw [wp_bind, wp_getBuf]
    dsimp only
    rw [wp_bind, wp_assert]
    refine ⟨fun _ => ?_, fun _ => trivial⟩
    have read (left : Int) : Keeps (Asked c .read seq) (sysRead (.http c) left) := inferInstance
    rw [wp_bind]
    refine wp_post (wp_and ((read _).kept w₁ asked) (wp_ran _ w₁)) ?_
    rintro got w₂ ⟨asked, ranRead⟩
    split
    next byte rest =>
      generalize byte :: rest = bytes
      refine wp_kept_then asked fun _ _ asked => wp_kept_then asked fun info _ asked =>
        wp_kept_then asked fun _ _ asked => wp_kept_then asked fun _ _ asked => asked.goes
    next _ nothing =>
      rw [wp_bind, wp_data]
      split
      next ended =>
        have last : Keeps (Asked c .read seq) (lastRead c b) := inferInstance
        rw [wp_bind]
        refine wp_post (wp_and (last.kept w₂ asked) (wp_ran _ w₂)) ?_
        rintro _ v ⟨asked, ranLast⟩
        have ends : ReadsEnd c w v := ⟨b, w₁, w₂, got, ranBuf, ranRead, ⟨nothing, ended⟩, ranLast⟩
        rw [wp_bind]
        refine wp_post (wp_httpContextFinish asked (parsed v ends)) ?_
        rintro rc u ⟨ok, failed⟩
        simp only [setCtxLine, wp_bind, wp_getCtx, wp_setCtx, wp_pure]
        refine ⟨fun _ => ?_, fun other => absurd rfl other⟩
        by_cases zero : rc = 0
        · obtain ⟨told, errcode⟩ := ok zero
          refine .inl ⟨?_, ?_⟩ <;> simp only [HttpMgmt.setCtx, update_self]
          · exact errcode
          · rw [told.told, told.seq]
        · obtain ⟨⟨errcode, free⟩, told⟩ := failed zero
          refine .inr ⟨⟨?_, free⟩, told⟩
          simp only [HttpMgmt.setCtx, update_self]
          exact errcode
      next => exact asked.goes
  case h_3 finished => rcases line with line | line <;> cases finished.symm.trans line
  case h_4 notStart notPending _ => exact absurd line (not_or.mpr ⟨notStart, notPending⟩)

end

end WebTunnel.Device.Coroutines
