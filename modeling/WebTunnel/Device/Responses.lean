import WebTunnel.Device.Keeping

/-! The responses queued for a context's request, and what does not concern them. -/

namespace WebTunnel.Device.Responses
set_option synthInstance.maxSize 10000
open Library.Bytes Library.Lists Library.Routines Library.Routines.Routine Library.Run Function Device.Types Buffers
open Parsing Http Forward Tunnel Manager Frames Footprints Keeping

/-- The sessions of the responses queued for a context since it was given its request, when
one more act is done. -/
def respond (c : CtxId) (act : Act) (before : List Nat) : List Nat :=
  match act with
  | .socket o _ => if o = .http c then [] else before
  | .queue o type seq _ => if o = some (.http c) ∧ type = httpCResp then seq :: before else before
  | _ => before

/-- The last act is the first. -/
def responses (c : CtxId) (acts : List Act) : List Nat := acts.foldr (respond c) []

/-- Whether a context was given a request and was not released since. -/
def ask (c : CtxId) (act : Act) (before : Bool) : Bool :=
  match act with
  | .socket o _ => if o = .http c then true else before
  | .release o => if o = .http c then false else before
  | _ => before

def asking (c : CtxId) (acts : List Act) : Bool := acts.foldr (ask c) false

/-- The acts that matter for it. -/
def concerns (c : CtxId) : Act → Prop
  | .socket o _ | .release o => o = .http c
  | .queue o _ _ _ => o = some (.http c)
  | _ => False

/-- A context between two steps: while it waits for its response none was queued, and when it
was released one was. -/
structure Answer (c : CtxId) (w : DevState) : Prop where
  waits : asking c w.data.acts = true → responses c w.data.acts = [] ∧ (w.data.ctxs c).errcode = 0 ∧
    ((w.data.ctxs c).funcRun = .read → (w.data.ctxs c).line = .start ∨ (w.data.ctxs c).line = .pending)
  listed : c ∈ w.data.listTimeout → asking c w.data.acts = true
  answered : asking c w.data.acts = false → c ∈ w.data.ctxCaches → (w.data.ctxs c).status = .finish →
    responses c w.data.acts = [(w.data.ctxs c).seq]

structure AllAnswered (w : DevState) : Prop where
  nodup : w.data.listTimeout.Nodup
  each : ∀ c, Answer c w

/-- The state in the midst of a function of one context. -/
structure Mid (c : CtxId) (w : DevState) : Prop where
  nodup : w.data.listTimeout.Nodup
  others : ∀ c' ≠ c, Answer c' w
  listed : c ∈ w.data.listTimeout → asking c w.data.acts = true

/-! What does not concern a context. -/

section
variable {c : CtxId} {acts new : List Act}

theorem respond_of_other {act : Act} (other : ¬ concerns c act) (before : List Nat) : respond c act before = before := by
  cases act with
  | socket o fd => exact if_neg other
  | queue o type seq bufs => exact if_neg fun same => other same.1
  | _ => rfl

theorem ask_of_other {act : Act} (other : ¬ concerns c act) (before : Bool) : ask c act before = before := by
  cases act with
  | socket o fd | release o => exact if_neg other
  | _ => rfl

theorem responses_append (other : ∀ act ∈ new, ¬ concerns c act) : responses c (new ++ acts) = responses c acts := by
  induction new with
  | nil => rfl
  | cons act rest ih =>
    rw [List.cons_append, responses, List.foldr_cons, respond_of_other (other act List.mem_cons_self)]
    exact ih fun act member => other act (List.mem_cons_of_mem _ member)

theorem asking_append (other : ∀ act ∈ new, ¬ concerns c act) : asking c (new ++ acts) = asking c acts := by
  induction new with
  | nil => rfl
  | cons act rest ih =>
    rw [List.cons_append, asking, List.foldr_cons, ask_of_other (other act List.mem_cons_self)]
    exact ih fun act member => other act (List.mem_cons_of_mem _ member)

/-- Nothing is asked or released in between. -/
theorem asking_append_queue (other : ∀ act ∈ new, (∀ fd, act ≠ .socket (.http c) fd) ∧ act ≠ .release (.http c)) :
    asking c (new ++ acts) = asking c acts := by
  induction new with
  | nil => rfl
  | cons act rest ih =>
    rw [List.cons_append, asking, List.foldr_cons]
    have apart := other act List.mem_cons_self
    have same (before : Bool) : ask c act before = before := by
      cases act with
      | socket o fd => exact if_neg fun own => apart.1 fd (congrArg (Act.socket · fd) own)
      | release o => exact if_neg fun own => apart.2 (congrArg Act.release own)
      | _ => rfl
    rw [same]
    exact ih fun act member => other act (List.mem_cons_of_mem _ member)

end

section
variable {c : CtxId} {parts : Set Part} {acts : Set Act} {w v : DevState}

/-- A context that is left alone. -/
theorem Answer.framed (answer : Answer c w) (frame : Frame parts acts w v) (apart : .ctx c ∉ parts)
    (timeouts : c ∈ v.data.listTimeout → c ∈ w.data.listTimeout)
    (caches : c ∈ v.data.ctxCaches → c ∈ w.data.ctxCaches) (other : ∀ act ∈ acts, ¬ concerns c act) :
    Answer c v := by
  obtain ⟨new, same, only⟩ := frame.done
  have context := frame.ctx c apart
  have quiet : ∀ act ∈ new, ¬ concerns c act := fun act member => other act (only act member)
  have responses : responses c v.data.acts = responses c w.data.acts := by rw [same, responses_append quiet]
  have asking : asking c v.data.acts = asking c w.data.acts := by rw [same, asking_append quiet]
  constructor
  case waits =>
    rw [asking, responses, context]
    exact answer.waits
  case listed =>
    rw [asking]
    exact fun member => answer.listed (timeouts member)
  case answered =>
    rw [asking, responses, context]
    exact fun ended free => answer.answered ended (caches free)

end

/-- The parts of the manager apart from the contexts and where they are scheduled. -/
def elsewhere : Set Part := {part | part ≠ .schedule ∧ ∀ c, part ≠ .ctx c}

def unrelated : Set Act := {act | ∀ c, ¬ concerns c act}

instance : Allows elsewhere .prepare := ⟨nofun, nofun⟩
instance : Allows elsewhere .sync := ⟨nofun, nofun⟩
instance : Allows elsewhere .shake := ⟨nofun, nofun⟩
instance : Allows elsewhere .queue := ⟨nofun, nofun⟩
instance : Allows elsewhere .polls := ⟨nofun, nofun⟩
instance : Allows elsewhere .alive := ⟨nofun, nofun⟩
instance : Allows elsewhere .forwardList := ⟨nofun, nofun⟩
instance (h : BufHead) : Allows elsewhere (.fill h) := ⟨nofun, nofun⟩
instance : Allows unrelated .writeAgain := ⟨fun _ => id⟩
instance : Allows unrelated .goWritable := ⟨fun _ => id⟩
instance : Allows unrelated .closed := ⟨fun _ => id⟩

instance : Within elsewhere unrelated websocketWriteAgain := within_note _
instance : Within elsewhere unrelated websocketClosed := within_note _

instance : Within elsewhere unrelated (setSync sync) := by
  unfold setSync
  infer_instance

/-- What is done for a client or a forward does not concern any context. -/
theorem doing_unrelated {o : Owner} (other : ∀ c, o ≠ .http c) : doing o ⊆ unrelated := by
  intro act done c own
  cases act with
  | socket o' fd | release o' => exact other c (done.symm.trans own)
  | queue o' type seq bufs => exact other c (Option.some.inj (done.symm.trans own))
  | _ => exact own

instance : ClientsWithin elsewhere unrelated where
  parts := by
    rintro part (rfl | ⟨k, member⟩)
    · exact ⟨nofun, nofun⟩
    · revert part
      simp [clientParts, elsewhere]
  acts := by
    rintro act ⟨k, done⟩
    exact doing_unrelated (o := .client k) nofun done

instance : ForwardWithin f elsewhere unrelated where
  parts := by simp [forwardParts, elsewhere, Set.insert_subset_iff]
  acts := doing_unrelated nofun

instance : ParserWithin elsewhere := ⟨by simp [parserParts, elsewhere, Set.insert_subset_iff]⟩

instance : QueueWithin elsewhere unrelated where
  parts := by simp [queueParts, elsewhere, Set.insert_subset_iff]
  acts := by
    intro act done c own
    cases act with
    | queue o type seq bufs => cases done.symm.trans own
    | socket | release => exact done
    | _ => exact own

instance : Within elsewhere unrelated (tcpForwardCreate seq host port) := by
  have within : Within forwardsParts doingForwards (tcpForwardCreate seq host port) := inferInstance
  refine within.mono ?_ ?_
  · rintro part (rfl | ⟨f, member⟩)
    · exact ⟨nofun, nofun⟩
    · exact (inferInstance : ForwardWithin f elsewhere unrelated).parts member
  · rintro act ⟨f, done⟩
    exact doing_unrelated (o := .forward f) nofun done

instance keeps_elsewhere (code : DevM α) [within : Within elsewhere unrelated code] : Keeps AllAnswered code := by
  refine keeps_of_within within fun w v frame all => ?_
  have schedule := frame.schedule fun member => member.1 rfl
  refine ⟨schedule.2.2.2.1 ▸ all.nodup, fun c => ?_⟩
  refine (all.each c).framed frame (fun member => member.2 c rfl) ?_ ?_ fun act done => done c
  · rw [schedule.2.2.2.1]
    exact id
  · rw [schedule.2.2.2.2]
    exact id

instance : Within elsewhere unrelated processTcpForwardresp := by
  unfold processTcpForwardresp findForward
  refine within_next fun d => within_next fun f => ?_
  have wake (f : FwdId) : Within elsewhere unrelated (forwardToWrite f) := within_of_forward f
  cases f <;> infer_instance

/-! What a context's own functions leave as it is. -/

def contextParts (c : CtxId) : Set Part := {part | part ∈ httpParts c ∧ part ≠ .schedule}

/-- What is done without a response. -/
def working (c : CtxId) : Set Act := {act | act ∈ doing (.http c) ∧ ¬ concerns c act}

/-- What is done until the release. -/
def reporting (c : CtxId) : Set Act :=
  {act | act ∈ doing (.http c) ∧ (∀ fd, act ≠ .socket (.http c) fd) ∧ act ≠ .release (.http c)}

section
variable (c : CtxId)

instance : Allows (contextParts c) (.ctx c) := ⟨by simp [contextParts, httpParts]⟩
instance : Allows (contextParts c) .polls := ⟨by simp [contextParts, httpParts]⟩
instance : Allows (contextParts c) .queue := ⟨by simp [contextParts, httpParts]⟩
instance : Allows (contextParts c) (.fill .caches) := ⟨by simp [contextParts, httpParts]⟩
instance : Allows (contextParts c) (.fill .toserver) := ⟨by simp [contextParts, httpParts]⟩
instance : Allows (contextParts c) (.fill (.readTodo c)) := ⟨by simp [contextParts, httpParts]⟩
instance : Allows (contextParts c) (.fill (.writeTodo c)) := ⟨by simp [contextParts, httpParts]⟩
instance : Allows (contextParts c) (.fill .chunk) := ⟨by simp [contextParts, httpParts]⟩

instance (host port : Nat) : Allows (working c) (.connect (.http c) host port) := ⟨rfl, id⟩
instance (bytes : List Byte) : Allows (working c) (.read (.http c) bytes) := ⟨rfl, id⟩
instance (bytes : List Byte) : Allows (working c) (.write (.http c) bytes) := ⟨rfl, id⟩
instance (events : PollEvents) : Allows (working c) (.interest (.http c) events) := ⟨rfl, id⟩
instance : Allows (working c) .goWritable := ⟨trivial, id⟩

instance (host port : Nat) : Allows (reporting c) (.connect (.http c) host port) := ⟨rfl, nofun, nofun⟩
instance (bytes : List Byte) : Allows (reporting c) (.read (.http c) bytes) := ⟨rfl, nofun, nofun⟩
instance (bytes : List Byte) : Allows (reporting c) (.write (.http c) bytes) := ⟨rfl, nofun, nofun⟩
instance (events : PollEvents) : Allows (reporting c) (.interest (.http c) events) := ⟨rfl, nofun, nofun⟩
instance (type seq : Nat) (bufs : List (List Byte)) : Allows (reporting c) (.queue (some (.http c)) type seq bufs) :=
  ⟨rfl, nofun, nofun⟩
instance : Allows (reporting c) .goWritable := ⟨trivial, nofun, nofun⟩

end

section
variable {c : CtxId} {w v : DevState} {α : Type}

theorem doing_other {c' : CtxId} (apart : c' ≠ c) : ∀ act ∈ doing (.http c), ¬ concerns c' act := by
  intro act done own
  have other : ∀ o : Owner, o = .http c → o = .http c' → False := by
    rintro o rfl same
    exact apart (Owner.http.inj same).symm
  cases act with
  | socket o fd | release o => exact other o done own
  | queue o type seq bufs => exact other (.http c) rfl (Option.some.inj (done.symm.trans own))
  | _ => exact own

theorem Mid.framed (mid : Mid c w) (frame : Frame (contextParts c) (reporting c) w v) : Mid c v := by
  have schedule := frame.schedule fun member => member.2 rfl
  refine ⟨schedule.2.2.2.1 ▸ mid.nodup, fun c' apart => ?_, fun member => ?_⟩
  · refine (mid.others c' apart).framed frame ?_ ?_ ?_ fun act done => doing_other apart act done.1
    · intro member
      simp [contextParts, httpParts, apart] at member
    · rw [schedule.2.2.2.1]
      exact id
    · rw [schedule.2.2.2.2]
      exact id
  · obtain ⟨new, same, only⟩ := frame.done
    rw [same, asking_append_queue fun act member => (only act member).2]
    exact mid.listed (schedule.2.2.2.1 ▸ member)

instance keeps_mid (code : DevM α) [within : Within (contextParts c) (reporting c) code] : Keeps (Mid c) code :=
  keeps_of_within within fun _ _ frame mid => mid.framed frame

theorem AllAnswered.mid (all : AllAnswered w) (c : CtxId) : Mid c w :=
  ⟨all.nodup, fun c' _ => all.each c', (all.each c).listed⟩

theorem Mid.all (mid : Mid c w) (answer : Answer c w) : AllAnswered w := by
  refine ⟨mid.nodup, fun c' => ?_⟩
  by_cases same : c' = c
  · exact same ▸ answer
  · exact mid.others c' same

theorem responses_of_frame {parts : Set Part} (frame : Frame parts (working c) w v) :
    responses c v.data.acts = responses c w.data.acts := by
  obtain ⟨new, same, only⟩ := frame.done
  rw [same, responses_append fun act member => (only act member).2]

end

/-! The fields of a context that most functions leave alone. -/

structure Kept (c : CtxId) (r : FuncRun) (seq : Nat) (w : DevState) : Prop where
  funcRun : (w.data.ctxs c).funcRun = r
  seq : (w.data.ctxs c).seq = seq

/-- As `Kept`, with no error. -/
structure Fine (c : CtxId) (r : FuncRun) (seq : Nat) (w : DevState) : Prop extends Kept c r seq w where
  errcode : (w.data.ctxs c).errcode = 0

/-- What is true of a context whatever happens to its other fields. -/
class Spares (c : outParam CtxId) (P : DevState → Prop) : Prop where
  same : ∀ w v : DevState, (v.data.ctxs c).funcRun = (w.data.ctxs c).funcRun →
    (v.data.ctxs c).seq = (w.data.ctxs c).seq → (v.data.ctxs c).errcode = (w.data.ctxs c).errcode → P w → P v

instance : Spares c (Kept c r seq) where
  same _ _ funcRun seq _ kept := ⟨funcRun.trans kept.funcRun, seq.trans kept.seq⟩

instance : Spares c (Fine c r seq) where
  same _ _ funcRun seq errcode fine :=
    ⟨⟨funcRun.trans fine.funcRun, seq.trans fine.seq⟩, errcode.trans fine.errcode⟩

def aside (c : CtxId) : Set Part := {part | part ≠ .ctx c}

section
variable {c : CtxId} {P : DevState → Prop} {α : Type}

instance : Allows (aside c) .polls := ⟨nofun⟩
instance : Allows (aside c) .queue := ⟨nofun⟩
instance : Allows (aside c) .schedule := ⟨nofun⟩
instance : Allows (aside c) (.fill h) := ⟨nofun⟩

variable [spares : Spares c P]
include spares

instance keeps_aside (code : DevM α) [within : Within (aside c) Set.univ code] : Keeps P code := by
  refine keeps_of_within within fun w v frame holds => ?_
  have context := frame.ctx c fun member => member rfl
  exact spares.same w v (by rw [context]) (by rw [context]) (by rw [context]) holds

theorem keeps_update (f : HttpContext → HttpContext) (funcRun : ∀ ctx, (f ctx).funcRun = ctx.funcRun)
    (seq : ∀ ctx, (f ctx).seq = ctx.seq) (errcode : ∀ ctx, (f ctx).errcode = ctx.errcode) :
    Keeps P (do setCtx c (f (← getCtx c))) := by
  refine ⟨fun w holds => ?_⟩
  rw [wp_bind, wp_getCtx, wp_setCtx]
  refine spares.same w _ ?_ ?_ ?_ holds <;> simp only [HttpMgmt.setCtx, update_self]
  · exact funcRun _
  · exact seq _
  · exact errcode _

instance : Keeps P (setCtxLine c line) := keeps_update (fun ctx => { ctx with line }) (fun _ => rfl) (fun _ => rfl) fun _ => rfl

instance : Keeps P (setWriteCurr c curr) :=
  keeps_update (fun ctx => { ctx with bufWrite := { ctx.bufWrite with curr } }) (fun _ => rfl) (fun _ => rfl) fun _ => rfl

instance : Keeps P (wroteBytes c b n) := by
  unfold wroteBytes
  infer_instance

end

end WebTunnel.Device.Responses
