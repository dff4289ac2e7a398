import WebTunnel.Device.Coroutines
import WebTunnel.Device.Reassembly

/-! The responses to requests: when a context is released, one response was queued for its
request. -/

namespace WebTunnel.Device.Answering
set_option synthInstance.maxSize 10000
open Library.Bytes Library.Lists Library.Routines Library.Routines.Routine Library.Run Function Device.Types Buffers
open Parsing Http Forward Tunnel Manager Frames Footprints Keeping
open Responses Coroutines Server.Wire
open Reassembly (device)

/-! Where contexts are scheduled. -/

section
variable {c : CtxId} {seq : Nat} {w v : DevState} {α : Type}

/-- A change of the ready lists only. -/
theorem answered_reordered (all : AllAnswered w) {listReady : Int → List CtxId} {running : List CtxId} {readyLen : Int} :
    AllAnswered { w with data := { w.data with listReady, running, readyLen } } :=
  ⟨all.nodup, fun c => ⟨(all.each c).waits, (all.each c).listed, (all.each c).answered⟩⟩

instance : Keeps AllAnswered (unready c) := by
  refine ⟨fun w all => ?_⟩
  rw [unready, wp_bind, wp_data, wp_bind, wp_demand]
  exact ⟨fun _ => answered_reordered all, fun _ => trivial⟩

/-- A context in the midst of its function becomes ready again. -/
theorem wp_insertReadyPrio (mid : Mid c w) (errcode : asking c w.data.acts = true →
      responses c w.data.acts = [] ∧ (w.data.ctxs c).errcode = 0 ∧
      ((w.data.ctxs c).funcRun = .read → (w.data.ctxs c).line = .start ∨ (w.data.ctxs c).line = .pending)) :
    Wp (insertReadyPrio c) (fun _ v => AllAnswered v) (fun _ => True) w := by
  rw [insertReadyPrio, wp_bind, wp_getCtx]
  dsimp only
  rw [wp_bind, wp_setCtx, wp_bind, wp_data, wp_bind, wp_demand]
  refine ⟨fun away => ?_, fun _ => trivial⟩
  rw [wp_modify]
  refine ⟨mid.nodup, fun c' => ?_⟩
  by_cases same : c' = c
  · subst same
    refine ⟨?_, mid.listed, fun _ free => absurd free away.2.2.2⟩
    simp only [HttpMgmt.setCtx, update_self]
    exact errcode
  · obtain ⟨waits, listed, answered⟩ := mid.others c' same
    constructor <;> simp only [HttpMgmt.setCtx, update_of_ne same]
    · exact waits
    · exact listed
    · exact answered

def Unlisted (c : CtxId) (w : DevState) : Prop := c ∉ w.data.listTimeout

instance keeps_unlisted (code : DevM α) [within : Within (contextParts c) Set.univ code] : Keeps (Unlisted c) code := by
  refine keeps_of_within within fun w v frame away => ?_
  unfold Unlisted
  rw [(frame.schedule fun member => member.2 rfl).2.2.2.1]
  exact away

/-- A context that is not in the list of deadlines is not released. -/
theorem wp_httpContextRelease_unlisted {post : Unit → DevState → Prop} (unlisted : Unlisted c w) :
    Wp (httpContextRelease c) post (fun _ => True) w := by
  rw [httpContextRelease]
  refine wp_kept_then unlisted fun _ _ away => wp_kept_then away fun _ _ away => wp_kept_then away fun _ _ away =>
    wp_kept_then away fun _ _ away => wp_kept_then away fun _ _ away => wp_kept_then away fun _ _ away =>
    wp_kept_then away fun _ _ away => wp_kept_then away fun _ _ away => wp_kept_then away fun _ v away => ?_
  rw [wp_bind, wp_data, wp_bind, wp_demand]
  exact ⟨fun listed => absurd listed away, fun _ => trivial⟩

/-- A context that is being released, with its response queued. -/
structure Leaving (c : CtxId) (w : DevState) : Prop where
  nodup : w.data.listTimeout.Nodup
  others : ∀ c' ≠ c, Answer c' w
  ended : asking c w.data.acts = false
  told : responses c w.data.acts = [(w.data.ctxs c).seq]

theorem Leaving.framed (leaving : Leaving c w) (frame : Frame (contextParts c) (working c) w v)
    (seq : (v.data.ctxs c).seq = (w.data.ctxs c).seq) : Leaving c v := by
  have schedule := frame.schedule fun member => member.2 rfl
  refine ⟨schedule.2.2.2.1 ▸ leaving.nodup, fun c' apart => ?_, ?_, ?_⟩
  · refine (leaving.others c' apart).framed frame ?_ ?_ ?_ fun act done => doing_other apart act done.1
    · intro member
      simp [contextParts, httpParts, apart] at member
    · rw [schedule.2.2.2.1]
      exact id
    · rw [schedule.2.2.2.2]
      exact id
  · obtain ⟨new, same, only⟩ := frame.done
    rw [same, asking_append fun act member => (only act member).2]
    exact leaving.ended
  · rw [responses_of_frame frame, seq]
    exact leaving.told

/-- What the release does to the buffers and descriptors of a context. -/
def releaseParts (c : CtxId) : Set Part := {part | part ∈ contextParts c ∧ part ≠ .ctx c}

instance : Allows (releaseParts c) .polls := ⟨by simp [releaseParts, contextParts, httpParts]⟩
instance : Allows (releaseParts c) (.fill .caches) := ⟨by simp [releaseParts, contextParts, httpParts]⟩

instance keeps_leaving (code : DevM α) [within : Within (releaseParts c) (working c) code] : Keeps (Leaving c) code :=
  keeps_of_within within fun _ _ frame leaving =>
    leaving.framed (frame.mono (fun _ member => member.1) le_rfl) (by rw [frame.ctx c fun member => member.2 rfl])

theorem Leaving.setCtx (leaving : Leaving c w) {x : HttpContext} (seq : x.seq = (w.data.ctxs c).seq) :
    Leaving c { w with data := w.data.setCtx c x } := by
  have set : Within (contextParts c) (working c) (Types.setCtx c x) := inferInstance
  refine leaving.framed ((wp_setCtx c x).mp (set.frame w)) ?_
  simpa only [HttpMgmt.setCtx, update_self] using seq

theorem keeps_leaving_update (f : HttpContext → HttpContext) (seq : ∀ ctx, (f ctx).seq = ctx.seq) :
    Keeps (Leaving c) (do setCtx c (f (← getCtx c))) := by
  refine ⟨fun w leaving => ?_⟩
  rw [wp_bind, wp_getCtx, wp_setCtx]
  exact leaving.setCtx (seq _)

/-- A context with its response is released. -/
theorem wp_httpContextRelease (mid : Mid c w) (told : responses c w.data.acts = [(w.data.ctxs c).seq]) :
    Wp (httpContextRelease c) (fun _ v => AllAnswered v) (fun _ => True) w := by
  have noted : Leaving c { w with data := w.data.note (.release (.http c)) } := by
    refine ⟨mid.nodup, fun c' apart => ?_, if_pos rfl, told⟩
    have note : Within ∅ {.release (.http c)} (note (.release (.http c))) :=
      @within_note _ _ _ ⟨rfl⟩
    refine (mid.others c' apart).framed ((wp_note _).mp (note.frame w)) (by simp) id id ?_
    rintro act rfl same
    exact apart (Owner.http.inj same).symm
  have closed : Keeps (Leaving c) (do setCtx c { ← getCtx c with sockfd := -1 }) :=
    keeps_leaving_update (fun ctx => { ctx with sockfd := -1 }) fun _ => rfl
  rw [httpContextRelease, wp_bind, wp_note, wp_bind, wp_getCtx, wp_bind, wp_setCtx]
  have finished := noted.setCtx (x := { w.data.ctxs c with status := .finish }) rfl
  refine wp_kept_then finished fun _ v leaving => ?_
  rw [wp_bind, wp_getCtx]
  have taken : Keeps (Leaving c) (freeBuf (v.data.ctxs c).bufRead.curr) := inferInstance
  have rest {u : DevState} (leaving : Leaving c u) : Wp (do
      freeBuf (v.data.ctxs c).bufWrite.curr
      listSpliceInit (.writeTodo c) .caches
      listSpliceInit (.readTodo c) .caches
      let d ← data
      demand (c ∈ d.listTimeout) .list
      modify fun d => { d with listTimeout := d.listTimeout.erase c }
      freeContext c
      modify fun d => { d with totalProcess := d.totalProcess + 1 } : DevM Unit)
      (fun _ v => AllAnswered v) (fun _ => True) u := by
    refine wp_kept_then leaving fun _ _ leaving => wp_kept_then leaving fun _ _ leaving =>
      wp_kept_then leaving fun _ v leaving => ?_
    rw [wp_bind, wp_data, wp_bind, wp_demand]
    refine ⟨fun _ => ?_, fun _ => trivial⟩
    rw [wp_bind, wp_modify, wp_bind, freeContext, wp_bind, wp_data, wp_bind, wp_demand]
    refine ⟨fun _ => ?_, fun _ => trivial⟩
    rw [wp_modify, wp_modify]
    refine ⟨leaving.nodup.erase c, fun c' => ?_⟩
    by_cases same : c' = c
    · subst same
      refine ⟨fun asking => absurd (leaving.ended.symm.trans asking) (by decide), fun member => ?_, fun _ _ _ => leaving.told⟩
      exact absurd member leaving.nodup.not_mem_erase
    · obtain ⟨waits, listed, answered⟩ := leaving.others c' same
      exact ⟨waits, fun member => listed (List.mem_of_mem_erase member),
        fun ended free => answered ended ((List.mem_cons.mp free).resolve_left same)⟩
  have freed : Within (releaseParts c) (working c) (freeBuf (v.data.ctxs c).bufRead.curr) := inferInstance
  rw [wp_bind, wp_when]
  constructor
  · intro _
    rw [wp_bind]
    refine wp_post (wp_and (freed.frame v) (taken.kept v leaving)) fun _ u ⟨frame, leaving⟩ => ?_
    rw [wp_setCtx]
    refine rest (leaving.setCtx ?_)
    rw [frame.ctx c fun member => member.2 rfl]
  · exact fun _ => rest leaving

end

/-! The calls of a context. -/

/-- The condition under which a context that runs is answered. -/
def RunAnswered (c : CtxId) (w : DevState) : Prop :=
  match (w.data.ctxs c).funcRun with
  | .connect => ∀ v, (httpContextConnect c).run w = .ok (.finish, v) → v.rings.items .caches ≠ some []
  | .write => ∀ v, (httpContextWrite c).run w = .ok (.finish, v) →
      (v.data.ctxs c).line ≠ .broken ∧ v.rings.items .caches ≠ some []
  | .read => ∀ v, ReadsEnd c w v → ParsedOrReported c v

/-- The state after a context has left the list it is ready in. -/
def Unready (c : CtxId) (w v : DevState) : Prop :=
  (when ((w.data.ctxs c).status = .ready) (unready c) : DevM Unit).run w = .ok ((), v)

def ExecuteAnswered (c : CtxId) (w : DevState) : Prop := ∀ v, Unready c w v → RunAnswered c v

/-- The condition where the socket has an error or was hung up: the context reads, and what
it has read can be parsed. -/
def HangUpAnswered (c : CtxId) (w : DevState) : Prop :=
  ∀ v, Unready c w v → (v.data.ctxs c).state = .read ∧ Parsed c v

/-- What becomes of a context that has run. -/
def afterRun (c : CtxId) : CallerStatus → DevM Unit
  | .finish => do
    when ((← getCtx c).errcode ≠ 0) do generateError c
    httpContextRelease c
  | .continue => insertReadyPrio c
  | .pending => do setCtx c { ← getCtx c with status := .pending }

theorem httpContextExecute_eq (c : CtxId) : httpContextExecute c = (do
    when ((← getCtx c).status = .ready) do unready c
    afterRun c (← runHttp c)) := rfl

section
variable {c : CtxId} {w v : DevState}

theorem wp_runHttp (asked : Asked c (w.data.ctxs c).funcRun (w.data.ctxs c).seq w)
    (line : (w.data.ctxs c).funcRun = .read → (w.data.ctxs c).line = .start ∨ (w.data.ctxs c).line = .pending)
    (guarded : RunAnswered c w) :
    Wp (runHttp c) (fun status v => (status = .finish → Settled c v) ∧ (status ≠ .finish → Goes c v))
      (fun _ => True) w := by
  have frame {code : DevM CallerStatus} [within : Within (contextParts c) (working c) code] :
      Wp code (fun _ v => responses c v.data.acts = []) (fun _ => True) w :=
    wp_post (within.frame w) fun _ _ frame => (responses_of_frame frame).trans asked.none
  unfold RunAnswered at guarded
  rw [runHttp, wp_bind, wp_getCtx]
  split
  next connect =>
    simp only [connect] at guarded
    refine wp_post (wp_and (wp_and (wp_httpContextConnect connect) frame) (wp_ran _ w)) ?_
    rintro status v ⟨⟨result, quiet⟩, ran⟩
    refine ⟨fun finish => ?_, fun other => ?_⟩
    · subst finish
      exact .inr ⟨⟨result, guarded v ran⟩, quiet⟩
    · rw [if_neg other] at result
      exact ⟨quiet, result.2.trans asked.errcode, fun read => absurd read result.1⟩
  next write =>
    simp only [write] at guarded asked
    refine wp_post (wp_and (wp_and (wp_httpContextWrite asked.toFine) frame) (wp_ran _ w)) ?_
    rintro status v ⟨⟨wrote, quiet⟩, ran⟩
    refine ⟨fun finish => ?_, fun other => ?_⟩
    · subst finish
      obtain ⟨whole, free⟩ := guarded v ran
      exact .inr ⟨⟨(wrote.broken rfl).resolve_right whole, free⟩, quiet⟩
    · obtain ⟨errcode, line⟩ := wrote.goes other
      exact ⟨quiet, errcode, fun read => .inl (line read)⟩
  next read =>
    simp only [read] at guarded asked
    exact wp_httpContextRead asked (line read) guarded

/-- A context that is not asked for anything does not come to its end. -/
theorem wp_release_after {post : Unit → DevState → Prop} {code : DevM Unit} (unlisted : Unlisted c w)
    [Within (contextParts c) Set.univ code] :
    Wp (do code; httpContextRelease c) post (fun _ => True) w :=
  wp_kept_then unlisted fun _ _ unlisted => wp_httpContextRelease_unlisted unlisted

theorem unlisted_of_mid (mid : Mid c w) (idle : asking c w.data.acts = false) : Unlisted c w := fun member => by
  cases idle.symm.trans (mid.listed member)

theorem asking_of_frame (frame : Frame (contextParts c) (reporting c) w v) :
    asking c v.data.acts = asking c w.data.acts := by
  obtain ⟨new, same, only⟩ := frame.done
  rw [same, asking_append_queue fun act member => (only act member).2]

/-- A context that was not given a request does nothing that matters. -/
theorem wp_afterIdle {status : CallerStatus} (mid : Mid c w) (idle : asking c w.data.acts = false) :
    Wp (afterRun c status)
      (fun _ v => AllAnswered v) (fun _ => True) w := by
  unfold afterRun
  cases status with
  | finish =>
    rw [wp_bind, wp_getCtx]
    exact wp_release_after (unlisted_of_mid mid idle)
  | «continue» => exact wp_insertReadyPrio mid fun asking => by cases idle.symm.trans asking
  | pending =>
    rw [wp_bind, wp_getCtx, wp_setCtx]
    refine ⟨mid.nodup, fun c' => ?_⟩
    by_cases same : c' = c
    · subst same
      refine ⟨fun asking => (by cases idle.symm.trans asking), mid.listed, fun _ _ => ?_⟩
      simp only [HttpMgmt.setCtx, update_self]
      simp
    · obtain ⟨waits, listed, answered⟩ := mid.others c' same
      constructor <;> simp only [HttpMgmt.setCtx, update_of_ne same]
      · exact waits
      · exact listed
      · exact answered

/-- What a context that was given a request does after it has run. -/
theorem wp_afterAsked {status : CallerStatus} (mid : Mid c w) (settled : status = .finish → Settled c w)
    (goes : status ≠ .finish → Goes c w) (asks : asking c w.data.acts = true) :
    Wp (afterRun c status)
      (fun _ v => AllAnswered v) (fun _ => True) w := by
  unfold afterRun
  cases status with
  | finish =>
    rw [wp_bind, wp_getCtx, wp_bind, wp_when]
    rcases settled rfl with ⟨errcode, told⟩ | ⟨⟨errcode, free⟩, quiet⟩
    · exact ⟨fun failed => absurd errcode failed, fun _ => wp_httpContextRelease mid told⟩
    · refine ⟨fun _ => ?_, fun ok => absurd errcode ok⟩
      have reported : Keeps (Mid c) (generateError c) := inferInstance
      refine wp_post (wp_and (wp_generateError_told ⟨rfl, quiet⟩ free) (reported.kept w mid)) fun _ v ⟨told, mid⟩ => ?_
      exact wp_httpContextRelease mid (by rw [told.told, told.seq])
  | «continue» =>
    have goes := goes (by simp)
    exact wp_insertReadyPrio mid fun _ => ⟨goes.none, goes.errcode, goes.line⟩
  | pending =>
    have goes := goes (by simp)
    rw [wp_bind, wp_getCtx, wp_setCtx]
    refine ⟨mid.nodup, fun c' => ?_⟩
    by_cases same : c' = c
    · subst same
      refine ⟨fun _ => ?_, mid.listed, fun idle => (by cases idle.symm.trans asks)⟩
      simp only [HttpMgmt.setCtx, update_self]
      exact ⟨goes.none, goes.errcode, goes.line⟩
    · obtain ⟨waits, listed, answered⟩ := mid.others c' same
      constructor <;> simp only [HttpMgmt.setCtx, update_of_ne same]
      · exact waits
      · exact listed
      · exact answered

theorem wp_unready (all : AllAnswered w) :
    Wp (when ((w.data.ctxs c).status = .ready) (unready c)) (fun _ v => AllAnswered v ∧ Unready c w v)
      (fun _ => True) w := by
  have kept : Keeps AllAnswered (when ((w.data.ctxs c).status = .ready) (unready c) : DevM Unit) := inferInstance
  exact wp_and (kept.kept w all) (wp_ran _ w)

theorem asked_of_answered (all : AllAnswered w) (asks : asking c w.data.acts = true) :
    Asked c (w.data.ctxs c).funcRun (w.data.ctxs c).seq w := by
  obtain ⟨none, errcode, _⟩ := (all.each c).waits asks
  exact ⟨⟨⟨rfl, rfl⟩, errcode⟩, none⟩

theorem wp_httpContextExecute (all : AllAnswered w) (guarded : ExecuteAnswered c w) :
    Wp (httpContextExecute c) (fun _ v => AllAnswered v) (fun _ => True) w := by
  rw [httpContextExecute_eq, wp_bind, wp_getCtx, wp_bind]
  refine wp_post (wp_unready all) fun _ u ⟨all, left⟩ => ?_
  have within : Within (contextParts c) (reporting c) (runHttp c) := inferInstance
  have mid : Keeps (Mid c) (runHttp c) := inferInstance
  rw [wp_bind]
  cases asks : asking c u.data.acts with
  | true =>
    have run := wp_runHttp (asked_of_answered all asks) ((all.each c).waits asks).2.2 (guarded u left)
    refine wp_post (wp_and (wp_and run (mid.kept u (all.mid c))) (within.frame u))
      fun status v ⟨⟨⟨settled, goes⟩, mid⟩, frame⟩ => ?_
    exact wp_afterAsked mid settled goes ((asking_of_frame frame).trans asks)
  | false =>
    refine wp_post (wp_and (mid.kept u (all.mid c)) (within.frame u)) fun status v ⟨mid, frame⟩ => ?_
    exact wp_afterIdle mid ((asking_of_frame frame).trans asks)

theorem wp_serviceHttp {revents : PollEvents} (all : AllAnswered w)
    (guarded : if revents &&& (pollErr ||| pollHup) ≠ 0 then HangUpAnswered c w else ExecuteAnswered c w) :
    Wp (serviceHttp c revents) (fun _ v => AllAnswered v) (fun _ => True) w := by
  rw [serviceHttp, wp_ite]
  split at guarded
  next hungUp =>
    rw [if_pos hungUp, wp_bind, wp_getCtx, wp_bind]
    refine wp_post (wp_unready all) fun _ u ⟨all, left⟩ => ?_
    obtain ⟨reads, parsed⟩ := guarded u left
    have mid : Keeps (Mid c) (httpContextFinish c) := inferInstance
    have within : Within (contextParts c) (reporting c) (httpContextFinish c) := inferInstance
    rw [wp_bind, wp_getCtx, wp_bind, wp_when]
    refine ⟨fun _ => ?_, fun other => absurd reads other⟩
    rw [wp_bind]
    cases asks : asking c u.data.acts with
    | true =>
      have finish := wp_httpContextFinish (asked_of_answered all asks) fun rc v ran => .inl (parsed rc v ran)
      refine wp_post (wp_and (wp_and finish (wp_httpContextFinish_rc parsed)) (mid.kept u (all.mid c)))
        fun rc v ⟨⟨told, zero⟩, mid⟩ => ?_
      have told := (told.1 zero).1
      exact wp_httpContextRelease mid (by rw [told.told, told.seq])
    | false =>
      refine wp_post (wp_and (mid.kept u (all.mid c)) (within.frame u)) fun rc v ⟨mid, frame⟩ => ?_
      exact wp_httpContextRelease_unlisted (unlisted_of_mid mid ((asking_of_frame frame).trans asks))
  next fine =>
    rw [if_neg fine]
    exact wp_httpContextExecute all guarded

end

/-! Creation. -/

/-- A context that is being given a request. -/
structure Fresh (c : CtxId) (w : DevState) : Prop extends AllAnswered w where
  status : (w.data.ctxs c).status ≠ .finish
  errcode : (w.data.ctxs c).errcode = 0
  funcRun : (w.data.ctxs c).funcRun = .connect

/-- A context that was given a request and has not run yet. -/
structure Opened (c : CtxId) (w : DevState) : Prop extends Mid c w where
  asks : asking c w.data.acts = true
  none : responses c w.data.acts = []
  errcode : (w.data.ctxs c).errcode = 0
  funcRun : (w.data.ctxs c).funcRun = .connect

section
variable {c : CtxId} {w v : DevState} {α : Type}

instance : Allows (releaseParts c) (.fill (.writeTodo c)) := ⟨by simp [releaseParts, contextParts, httpParts]⟩

theorem fresh_of_setCtx (all : AllAnswered w) {x : HttpContext} (status : x.status ≠ .finish)
    (errcode : x.errcode = 0) (funcRun : x.funcRun = .connect) :
    Fresh c { w with data := w.data.setCtx c x } := by
  refine ⟨⟨all.nodup, fun c' => ?_⟩, ?_, ?_, ?_⟩
  · obtain ⟨waits, listed, answered⟩ := all.each c'
    by_cases same : c' = c
    · subst same
      constructor <;> simp only [HttpMgmt.setCtx, update_self]
      · exact fun asks => ⟨(waits asks).1, errcode, fun read => by cases funcRun.symm.trans read⟩
      · exact listed
      · exact fun _ _ finish => absurd finish status
    · constructor <;> simp only [HttpMgmt.setCtx, update_of_ne same]
      · exact waits
      · exact listed
      · exact answered
  all_goals simpa only [HttpMgmt.setCtx, update_self]

theorem Fresh.setCtx (fresh : Fresh c w) {ctx : HttpContext} (status : ctx.status = (w.data.ctxs c).status)
    (errcode : ctx.errcode = (w.data.ctxs c).errcode) (funcRun : ctx.funcRun = (w.data.ctxs c).funcRun) :
    Fresh c { w with data := w.data.setCtx c ctx } :=
  fresh_of_setCtx fresh.toAllAnswered (by rw [status]; exact fresh.status) (errcode.trans fresh.errcode) (funcRun.trans fresh.funcRun)

instance keeps_fresh (code : DevM α) [within : Within elsewhere unrelated code] : Keeps (Fresh c) code := by
  refine ⟨fun w fresh => ?_⟩
  have all := (keeps_elsewhere code).kept w fresh.toAllAnswered
  refine wp_post (wp_and all (within.frame w)) fun _ v ⟨all, frame⟩ => ?_
  have context := frame.ctx c fun member => member.2 c rfl
  refine ⟨all, ?_, ?_, ?_⟩ <;> rw [context]
  · exact fresh.status
  · exact fresh.errcode
  · exact fresh.funcRun

instance : Keeps (Fresh c) (hostInit c) := by
  unfold hostInit
  refine keeps_next fun _ => keeps_next fun _ => keeps_next fun bytes => keeps_next fun _ => ?_
  split
  next => infer_instance
  next => infer_instance
  next hostname port _ =>
    refine ⟨fun w fresh => ?_⟩
    rw [wp_bind, wp_getCtx, wp_bind, wp_setCtx, wp_pure]
    exact fresh.setCtx rfl rfl rfl

theorem Opened.all (opened : Opened c w) : AllAnswered w := by
  refine opened.toMid.all ⟨fun _ => ⟨opened.none, opened.errcode, fun read => ?_⟩, opened.listed, fun idle => ?_⟩
  · cases opened.funcRun.symm.trans read
  · cases opened.asks.symm.trans idle

theorem Opened.framed (opened : Opened c w) (frame : Frame (contextParts c) (working c) w v)
    (errcode : (v.data.ctxs c).errcode = (w.data.ctxs c).errcode)
    (funcRun : (v.data.ctxs c).funcRun = (w.data.ctxs c).funcRun) : Opened c v := by
  have apart : ∀ act ∈ working c, act ∈ reporting c := by
    intro act member
    refine ⟨member.1, fun fd own => member.2 ?_, fun own => member.2 ?_⟩ <;> (subst own; exact rfl)
  have reported := frame.mono le_rfl apart
  exact ⟨opened.toMid.framed reported, (asking_of_frame reported).trans opened.asks,
    (responses_of_frame frame).trans opened.none, errcode.trans opened.errcode, funcRun.trans opened.funcRun⟩

instance keeps_opened (code : DevM α) [within : Within (releaseParts c) (working c) code] : Keeps (Opened c) code := by
  refine keeps_of_within within fun w v frame opened => ?_
  have context := frame.ctx c fun member => member.2 rfl
  exact opened.framed (frame.mono (fun _ member => member.1) le_rfl) (by rw [context]) (by rw [context])

theorem Opened.setCtx (opened : Opened c w) {x : HttpContext} (errcode : x.errcode = 0)
    (funcRun : x.funcRun = .connect) : Opened c { w with data := w.data.setCtx c x } := by
  have set : Within (contextParts c) (reporting c) (Types.setCtx c x) := inferInstance
  have mid := opened.toMid.framed ((wp_setCtx c x).mp (set.frame w))
  refine ⟨mid, opened.asks, opened.none, ?_, ?_⟩ <;> simpa only [HttpMgmt.setCtx, update_self]

instance : Keeps (Opened c) (insertTimeout c) := by
  refine ⟨fun w opened => ?_⟩
  rw [insertTimeout, wp_bind, wp_data, wp_bind, wp_demand]
  refine ⟨fun away => ?_, fun _ => trivial⟩
  rw [wp_modify]
  have perm := insertByTimeout_perm (fun c => (w.data.ctxs c).timeout) c w.data.listTimeout
  refine ⟨⟨perm.nodup_iff.mpr (List.nodup_cons.mpr ⟨away, opened.nodup⟩), fun c' other => ?_, fun _ => opened.asks⟩,
    opened.asks, opened.none, opened.errcode, opened.funcRun⟩
  obtain ⟨waits, listed, answered⟩ := opened.others c' other
  refine ⟨waits, fun member => listed ?_, answered⟩
  exact (List.mem_cons.mp (perm.mem_iff.mp member)).resolve_left other

instance : Keeps (Opened c) (insertReadyPrio c) := by
  refine ⟨fun w opened => ?_⟩
  rw [insertReadyPrio, wp_bind, wp_getCtx]
  dsimp only
  rw [wp_bind, wp_setCtx, wp_bind, wp_data, wp_bind, wp_demand]
  refine ⟨fun _ => ?_, fun _ => trivial⟩
  rw [wp_modify]
  obtain ⟨⟨nodup, others, listed⟩, asks, none, errcode, funcRun⟩ := opened.setCtx
    (x := { w.data.ctxs c with prio := if (w.data.ctxs c).prio < 0 ∨ 2 ≤ (w.data.ctxs c).prio then 1
      else (w.data.ctxs c).prio }) opened.errcode opened.funcRun
  refine ⟨⟨nodup, fun c' other => ?_, listed⟩, asks, none, errcode, funcRun⟩
  exact ⟨(others c' other).waits, (others c' other).listed, (others c' other).answered⟩

instance : Keeps (Opened c) (httpContextInit c) := by
  refine ⟨fun w opened => ?_⟩
  rw [httpContextInit, wp_bind, wp_getCtx, wp_bind, wp_setCtx]
  have added : Keeps (Opened c) (modify fun d => { d with totalAdd := d.totalAdd + 1 } : DevM Unit) :=
    ⟨fun w opened => ⟨⟨opened.nodup, fun c' other => ⟨(opened.others c' other).waits, (opened.others c' other).listed,
      (opened.others c' other).answered⟩, opened.listed⟩, opened.asks, opened.none, opened.errcode, opened.funcRun⟩⟩
  refine wp_kept_then (opened.setCtx (x := { w.data.ctxs c with
      errcode := 0, state := .connect, funcRun := .connect, status := .ready, line := .start }) rfl rfl)
    fun _ v opened => wp_kept_then opened fun _ v opened => wp_kept_then opened fun _ v opened =>
      wp_kept_then opened fun pfd v opened => ?_
  rw [wp_bind, wp_getCtx, wp_bind, wp_setCtx]
  exact wp_of_kept (opened.setCtx opened.errcode opened.funcRun) fun _ _ opened => opened

theorem wp_contextOpen {sockfd timeout : Int} (fresh : Fresh c w) :
    Wp (contextOpen c sockfd timeout) (fun _ v => AllAnswered v) (fun _ => True) w := by
  rw [contextOpen, wp_bind, wp_note]
  have opened : Opened c { w with data := w.data.note (.socket (.http c) sockfd) } := by
    refine ⟨⟨fresh.nodup, fun c' apart => ?_, fun _ => if_pos rfl⟩, if_pos rfl, if_pos rfl, fresh.errcode, fresh.funcRun⟩
    have note : Within ∅ {.socket (.http c) sockfd} (note (.socket (.http c) sockfd)) := @within_note _ _ _ ⟨rfl⟩
    refine (fresh.each c').framed ((wp_note _).mp (note.frame w)) (by simp) id id ?_
    rintro act rfl same
    exact apart (Owner.http.inj same).symm
  refine wp_kept_then opened fun _ v opened => wp_kept_then opened fun _ v opened => ?_
  rw [wp_bind, wp_data, wp_bind, wp_getCtx, wp_bind, wp_setCtx]
  refine wp_kept_then (opened.setCtx opened.errcode opened.funcRun) fun _ v opened => ?_
  exact wp_of_kept opened fun _ _ opened => opened.all

theorem answered_taken (all : AllAnswered w) {rest : List CtxId} (fewer : ∀ c ∈ rest, c ∈ w.data.ctxCaches) :
    AllAnswered { w with data := { w.data with ctxCaches := rest } } :=
  ⟨all.nodup, fun c => ⟨(all.each c).waits, (all.each c).listed,
    fun idle free => (all.each c).answered idle (fewer c free)⟩⟩

instance : Keeps AllAnswered allocContext := by
  refine ⟨fun w all => ?_⟩
  rw [allocContext, wp_bind, wp_data]
  split
  next => exact all
  next c rest caches =>
    rw [wp_bind, wp_modify]
    exact answered_taken all fun c member => caches ▸ List.mem_cons_of_mem _ member

instance : Keeps AllAnswered (httpContextCreate timeout) := by
  refine ⟨fun w all => ?_⟩
  rw [httpContextCreate]
  refine wp_kept_then all fun c w all => ?_
  cases c with
  | none => exact all
  | some c =>
    rw [wp_bind, wp_setCtx]
    have fresh := fresh_of_setCtx all (c := c) (x := .zero) (by rintro ⟨⟩) rfl rfl
    refine wp_kept_then fresh fun _ w fresh => wp_kept_then fresh fun _ w fresh => wp_kept_then fresh fun rc w fresh => ?_
    rw [wp_ite]
    split
    · exact fresh.toAllAnswered
    · refine wp_kept_then fresh fun sockfd w fresh => ?_
      rw [wp_ite]
      split
      · exact fresh.toAllAnswered
      · rw [wp_bind]
        exact wp_post (wp_contextOpen fresh) fun _ _ all => all

end

/-! Every run. -/

/-- The calls that leave the contexts answered: none is released because its time has run out
or because the connection is lost. -/
def Answers : Call → DevState → Prop
  | .http c revents, w =>
    if revents &&& (pollErr ||| pollHup) ≠ 0 then HangUpAnswered c w else ExecuteAnswered c w
  | .execute c, w => ExecuteAnswered c w
  | .expire _, _ => False
  | _, _ => True

instance : Processes AllAnswered fun _ => True where
  forwardresp := inferInstance

instance : Steady AllAnswered Answers where
  tick w now replies all := ⟨all.nodup, fun c => ⟨(all.each c).waits, (all.each c).listed, (all.each c).answered⟩⟩
  process := ⟨fun w all _ => (keeps_prepareProcess (P := AllAnswered) (G := fun _ => True)).kept w all fun _ => trivial⟩
  http c revents := ⟨fun w all allowed => wp_serviceHttp all allowed⟩
  execute c := ⟨fun w all allowed => wp_httpContextExecute all allowed⟩
  expire c := ⟨fun w all allowed => allowed.elim⟩
  executeAll := ⟨fun w all => answered_reordered all⟩
  paramInit := ⟨fun w all => ⟨all.nodup, fun c => ⟨(all.each c).waits, (all.each c).listed, (all.each c).answered⟩⟩⟩

theorem answered_at_start {w : DevState} (starts : Starts w) : AllAnswered w := by
  obtain ⟨username, localHost, localPort, maxFds, servFd, now, rfl⟩ := starts
  exact ⟨List.nodup_nil, fun c => ⟨nofun, nofun, nofun⟩⟩

/-- In every run in which no context is released without a response to report, a context that
was released has queued exactly one response, which carries its session; before that it has
queued none. -/
theorem answers_once {w : DevState} (reached : Reach step (Allowed Answers) Starts w) (c : CtxId) :
    (asking c w.data.acts = true → responses c w.data.acts = []) ∧
      (asking c w.data.acts = false → c ∈ w.data.ctxCaches → (w.data.ctxs c).status = .finish →
        responses c w.data.acts = [(w.data.ctxs c).seq]) := by
  have all := reach_keeps (P := AllAnswered) (g := Answers) (fun _ => answered_at_start) reached
  exact ⟨fun asks => ((all.each c).waits asks).1, (all.each c).answered⟩

/-! A request that is answered, and one whose time runs out. -/

def parsedHere (c : CtxId) (w : DevState) : Bool :=
  match (httpParse c).run w with
  | .ok (rc, _) => rc = 0
  | .error _ => true

def endsHere (c : CtxId) (w : DevState) : Bool :=
  match (readBuf c).run w with
  | .error _ => true
  | .ok (b, w₁) =>
    match (sysRead (.http c) ((httpBufSize : Int) - (w₁.data.bufs b).start)).run w₁ with
    | .error _ => true
    | .ok (some (_ :: _), _) => true
    | .ok (_, w₂) =>
      match (lastRead c b).run w₂ with
      | .error _ => true
      | .ok (_, v) => parsedHere c v

def notFinish (code : DevM CallerStatus) (w : DevState) : Bool :=
  match code.run w with
  | .ok (.finish, _) => false
  | _ => true

def runHere (c : CtxId) (w : DevState) : Bool :=
  match (w.data.ctxs c).funcRun with
  | .connect => notFinish (httpContextConnect c) w
  | .write => notFinish (httpContextWrite c) w
  | .read => endsHere c w

def executeHere (c : CtxId) (w : DevState) : Bool :=
  match (when ((w.data.ctxs c).status = .ready) (unready c) : DevM Unit).run w with
  | .ok (_, v) => runHere c v
  | .error _ => true

section
variable {c : CtxId} {w v : DevState}

theorem absurd_of_notFinish {code : DevM CallerStatus} (passes : notFinish code w = true) :
    code.run w ≠ .ok (.finish, v) := by
  intro ran
  rw [notFinish, ran] at passes
  cases passes

theorem parsedOrReported_of_here (passes : parsedHere c w = true) : ParsedOrReported c w := by
  intro rc v ran
  rw [parsedHere, ran] at passes
  exact .inl (of_decide_eq_true passes)

theorem parsed_of_endsHere (passes : endsHere c w = true) (ends : ReadsEnd c w v) : ParsedOrReported c v := by
  obtain ⟨b, w₁, w₂, got, ranBuf, ranRead, ended, ranLast⟩ := ends
  rw [endsHere, ranBuf] at passes
  dsimp only at passes
  rw [ranRead] at passes
  rcases got with _ | _ | ⟨byte, rest⟩
  · dsimp only at passes
    rw [ranLast] at passes
    exact parsedOrReported_of_here passes
  · dsimp only at passes
    rw [ranLast] at passes
    exact parsedOrReported_of_here passes
  · exact absurd rfl (ended.1 byte rest)

theorem executeAnswered_of_here (passes : executeHere c w = true) : ExecuteAnswered c w := by
  intro v left
  unfold Unready at left
  rw [executeHere, left] at passes
  unfold RunAnswered
  dsimp only [runHere] at passes
  cases function : (v.data.ctxs c).funcRun <;> rw [function] at passes
  case connect | write => exact fun u ran => absurd ran (absurd_of_notFinish passes)
  case read => exact fun u => parsed_of_endsHere passes

end

def answersHere : Test fun w call => Answers call w where
  passes
    | w, .http c revents => decide (revents &&& (pollErr ||| pollHup) = 0) && executeHere c w
    | w, .execute c => executeHere c w
    | _, .expire _ => false
    | _, _ => true
  sound w call passes := by
    cases call with
    | http c revents =>
      rw [Bool.and_eq_true, decide_eq_true_eq] at passes
      rw [Answers, if_neg (not_not.mpr passes.1)]
      exact executeAnswered_of_here passes.2
    | execute c => exact executeAnswered_of_here passes
    | expire c => cases passes
    | _ => trivial

def requestPayload : List Byte := text "GET / HTTP/1.1\r\nhost: 10.0.0.1\r\n\r\n"

def requestFrame : List Byte :=
  headerBytes httpCReq 7 (requestPayload.length + httpCHeaderLen) ++ requestPayload

/-- The request is written, and a response is read up to the end of the stream. -/
def answeredRequest : List Occasion :=
  [⟨.receive requestFrame, 1, [.value 5]⟩,
    ⟨.run, 1, [.value 0x0a000001, .value 0]⟩,
    ⟨.run, 1, [.value requestPayload.length]⟩,
    ⟨.poll fun slot => if slot = 1 then pollIn else 0, 2, []⟩,
    ⟨.service 1, 2, [.data (text "HTTP/1.1 200 OK\r\n\r\nhello")]⟩,
    ⟨.poll fun slot => if slot = 1 then pollIn else 0, 3, []⟩,
    ⟨.service 1, 3, [.data []]⟩]

/-- The context of the first request, which is the first of the pool. -/
def firstCtx : CtxId := ⟨255, by decide⟩

def wasReleased (w : DevState) : Bool :=
  decide (asking firstCtx w.data.acts = false ∧ firstCtx ∈ w.data.ctxCaches ∧
    (w.data.ctxs firstCtx).status = .finish)

theorem answeredRequest_released :
    ((everyCall answersHere).run step device answeredRequest).map wasReleased = some true := by
  decide +kernel

theorem answers_once_released : ∃ w, wasReleased w = true ∧
    responses firstCtx w.data.acts = [(w.data.ctxs firstCtx).seq] := by
  obtain ⟨w, ran, released⟩ := Option.map_eq_some_iff.mp answeredRequest_released
  obtain ⟨idle, free, finish⟩ := of_decide_eq_true released
  exact ⟨w, released, (answers_once (Test.reach Reassembly.device_starts ran) firstCtx).2 idle free finish⟩

/-- The host does not answer until the context's time has run out. -/
def lateRequest : List Occasion :=
  [⟨.receive requestFrame, 1, [.value 5]⟩,
    ⟨.run, 1, [.value 0x0a000001, .value 0]⟩,
    ⟨.run, 1, [.value requestPayload.length]⟩,
    ⟨.runTimeout, 11, []⟩]

theorem lateRequest_unanswered :
    (run step device lateRequest).map (fun w => wasReleased w && (responses firstCtx w.data.acts).isEmpty) = some true := by
  decide +kernel

theorem late_request_unanswered : ¬ ∀ w, Reach step (fun _ _ => True) Starts w → ∀ c,
    asking c w.data.acts = false → c ∈ w.data.ctxCaches → (w.data.ctxs c).status = .finish →
      responses c w.data.acts = [(w.data.ctxs c).seq] := by
  intro always
  obtain ⟨w, ran, passes⟩ := Option.map_eq_some_iff.mp lateRequest_unanswered
  rw [Bool.and_eq_true, List.isEmpty_iff] at passes
  obtain ⟨idle, free, finish⟩ := of_decide_eq_true passes.1
  have once := always w (reach_of_free_run Reassembly.device_starts ran) firstCtx idle free finish
  rw [passes.2] at once
  cases once

end WebTunnel.Device.Answering
