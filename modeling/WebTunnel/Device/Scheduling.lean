import WebTunnel.Device.Responses
import WebTunnel.Library.Answers

/-! What the functions of the device leave alone of the scheduling of HTTP contexts, whatever
the lists of buffers hold. -/

namespace WebTunnel.Device.Scheduling
set_option synthInstance.maxSize 10000
open Library.Bytes Library.Lists Library.Routines Library.Routines.Routine Library.Run Function Device.Types Buffers
open Parsing Http Forward Tunnel Manager Responses

def opens (c : CtxId) : Act → Bool
  | .socket o _ => o = .http c
  | _ => false

/-- How many acts there were when the context was last given a descriptor, with that one. -/
def openedAt (c : CtxId) (acts : List Act) : Nat := (acts.dropWhile fun act => !opens c act).length

theorem openedAt_cons_of_other {c : CtxId} {act : Act} (other : opens c act = false) (acts : List Act) :
    openedAt c (act :: acts) = openedAt c acts := by
  rw [openedAt, List.dropWhile_cons_of_pos (by rw [other]; rfl)]
  rfl

theorem openedAt_cons_self (c : CtxId) (fd : Int) (acts : List Act) :
    openedAt c (.socket (.http c) fd :: acts) = acts.length + 1 := by
  rw [openedAt, List.dropWhile_cons_of_neg (by simp [opens]), List.length_cons]

theorem openedAt_le (c : CtxId) (acts : List Act) : openedAt c acts ≤ acts.length := (List.dropWhile_suffix _).length_le

/-- The scheduling of HTTP contexts is the same in two states, except that contexts may have
come to write or read, and that descriptors may have been released. -/
structure Calm (s t : HttpMgmt) : Prop where
  lists : (t.listReady, t.running, t.readyLen, t.listTimeout, t.ctxCaches) =
    (s.listReady, s.running, s.readyLen, s.listTimeout, s.ctxCaches)
  now : t.now = s.now
  context : ∀ c, ((t.ctxs c).status, (t.ctxs c).prio, (t.ctxs c).timeout, (t.ctxs c).sockfd) =
    ((s.ctxs c).status, (s.ctxs c).prio, (s.ctxs c).timeout, (s.ctxs c).sockfd)
  connecting : ∀ c, (t.ctxs c).funcRun = .connect → (s.ctxs c).funcRun = .connect
  asking : ∀ c, asking c t.acts = asking c s.acts
  acts : ∀ act ∈ s.acts, act ∈ t.acts
  lookup : ∀ fd c, t.httpLookup fd = some (.http c) → s.httpLookup fd = some (.http c)
  openedAt : ∀ c, openedAt c t.acts = openedAt c s.acts

/-- The forwards and tunnel clients are the same too. -/
structure Still (s t : HttpMgmt) : Prop extends Calm s t where
  others : (t.listForward, t.listClient) = (s.listForward, s.listClient)

/-- The contexts in the ready lists, and in those that are being gone through. -/
def linked (d : HttpMgmt) : List CtxId := d.running ++ (d.listReady 0 ++ d.listReady 1)

section
variable {s t : HttpMgmt}

theorem Calm.status (calm : Calm s t) (c : CtxId) : (t.ctxs c).status = (s.ctxs c).status :=
  congrArg Prod.fst (calm.context c)

theorem Calm.prio (calm : Calm s t) (c : CtxId) : (t.ctxs c).prio = (s.ctxs c).prio :=
  congrArg (·.2.1) (calm.context c)

theorem Calm.timeout (calm : Calm s t) (c : CtxId) : (t.ctxs c).timeout = (s.ctxs c).timeout :=
  congrArg (·.2.2.1) (calm.context c)

theorem Calm.sockfd (calm : Calm s t) (c : CtxId) : (t.ctxs c).sockfd = (s.ctxs c).sockfd :=
  congrArg (·.2.2.2) (calm.context c)

theorem Calm.linked (calm : Calm s t) : linked t = linked s := by
  have lists := calm.lists
  simp only [Prod.mk.injEq] at lists
  rw [Scheduling.linked, Scheduling.linked, lists.1, lists.2.1]

theorem Calm.running (calm : Calm s t) : t.running = s.running := congrArg (·.2.1) calm.lists

theorem Calm.listTimeout (calm : Calm s t) : t.listTimeout = s.listTimeout := congrArg (·.2.2.2.1) calm.lists

theorem Calm.ctxCaches (calm : Calm s t) : t.ctxCaches = s.ctxCaches := congrArg (·.2.2.2.2) calm.lists

end

theorem Calm.refl (s : HttpMgmt) : Calm s s :=
  ⟨rfl, rfl, fun _ => rfl, fun _ same => same, fun _ => rfl, fun _ member => member, fun _ _ found => found, fun _ => rfl⟩

theorem Calm.trans {s t u : HttpMgmt} (first : Calm s t) (second : Calm t u) : Calm s u where
  lists := second.lists.trans first.lists
  now := second.now.trans first.now
  context c := (second.context c).trans (first.context c)
  connecting c same := first.connecting c (second.connecting c same)
  asking c := (second.asking c).trans (first.asking c)
  acts act member := second.acts act (first.acts act member)
  lookup fd c found := first.lookup fd c (second.lookup fd c found)
  openedAt c := (second.openedAt c).trans (first.openedAt c)

instance : Std.Refl Calm := ⟨Calm.refl⟩
instance : IsTrans HttpMgmt Calm := ⟨fun _ _ _ => Calm.trans⟩
theorem Still.refl (s : HttpMgmt) : Still s s := ⟨.refl s, rfl⟩

instance : Std.Refl Still := ⟨Still.refl⟩
instance : IsTrans HttpMgmt Still :=
  ⟨fun _ _ _ first second => ⟨first.toCalm.trans second.toCalm, second.others.trans first.others⟩⟩

/-- Errors that are not the misuse of a list. -/
def unbroken (e : Fault) : Prop := e ≠ .list

abbrev Calms {α : Type} (code : DevM α) : Prop := Along Calm unbroken code
abbrev Stills {α : Type} (code : DevM α) : Prop := Along Still unbroken code

instance (priority := low) {α : Type} {code : DevM α} [Stills code] : Calms code :=
  along_of_weaker (R := Still) fun _ _ => Still.toCalm

/-- A change of other parts of the manager. -/
theorem calm_of_same {s t : HttpMgmt}
    (same : (t.listReady, t.running, t.readyLen, t.listTimeout, t.ctxCaches, t.now, t.ctxs, t.acts, t.httpLookup) =
      (s.listReady, s.running, s.readyLen, s.listTimeout, s.ctxCaches, s.now, s.ctxs, s.acts, s.httpLookup)) :
    Calm s t := by
  simp only [Prod.mk.injEq] at same
  obtain ⟨ready, running, readyLen, listTimeout, ctxCaches, now, ctxs, acts, lookup⟩ := same
  refine ⟨?_, now, fun c => ?_, fun c => ?_, fun c => ?_, fun act => ?_, fun fd c => ?_, fun c => ?_⟩
  · rw [ready, running, readyLen, listTimeout, ctxCaches]
  · rw [ctxs]
  · rw [ctxs]
    exact id
  · rw [acts]
  · rw [acts]
    exact id
  · rw [lookup]
    exact id
  · rw [acts]

theorem still_of_same {s t : HttpMgmt}
    (same : (t.listReady, t.running, t.readyLen, t.listTimeout, t.ctxCaches, t.now, t.ctxs, t.acts, t.httpLookup) =
      (s.listReady, s.running, s.readyLen, s.listTimeout, s.ctxCaches, s.now, s.ctxs, s.acts, s.httpLookup))
    (others : (t.listForward, t.listClient) = (s.listForward, s.listClient)) : Still s t := ⟨calm_of_same same, others⟩

theorem still_modify {f : HttpMgmt → HttpMgmt}
    (same : ∀ s, ((f s).listReady, (f s).running, (f s).readyLen, (f s).listTimeout, (f s).ctxCaches, (f s).now,
      (f s).ctxs, (f s).acts, (f s).httpLookup) =
      (s.listReady, s.running, s.readyLen, s.listTimeout, s.ctxCaches, s.now, s.ctxs, s.acts, s.httpLookup))
    (others : ∀ s, ((f s).listForward, (f s).listClient) = (s.listForward, s.listClient)) : Stills (modify f) :=
  along_modify fun s => still_of_same (same s) (others s)

/-- An act that neither gives a context a request nor releases one. -/
class Passing (act : Act) : Prop where
  passing : ∀ c before, ask c act before = before
  other : ∀ c, opens c act = false

instance (o : Owner) (host port : Nat) : Passing (.connect o host port) := ⟨fun _ _ => rfl, fun _ => rfl⟩
instance (o : Owner) (bytes : List Byte) : Passing (.read o bytes) := ⟨fun _ _ => rfl, fun _ => rfl⟩
instance (o : Owner) (bytes : List Byte) : Passing (.write o bytes) := ⟨fun _ _ => rfl, fun _ => rfl⟩
instance (o : Owner) (events : PollEvents) : Passing (.interest o events) := ⟨fun _ _ => rfl, fun _ => rfl⟩
instance (o : Option Owner) (type seq : Nat) (bufs : List (List Byte)) : Passing (.queue o type seq bufs) :=
  ⟨fun _ _ => rfl, fun _ => rfl⟩
instance : Passing .goWritable := ⟨fun _ _ => rfl, fun _ => rfl⟩
instance : Passing .writeAgain := ⟨fun _ _ => rfl, fun _ => rfl⟩
instance (bytes : List Byte) : Passing (.websocketWrite bytes) := ⟨fun _ _ => rfl, fun _ => rfl⟩
instance : Passing .closed := ⟨fun _ _ => rfl, fun _ => rfl⟩
instance (f : FwdId) (fd : Int) : Passing (.socket (.forward f) fd) := ⟨fun _ => ask_of_other nofun, fun _ => rfl⟩
instance (k : ClientId) (fd : Int) : Passing (.socket (.client k) fd) := ⟨fun _ => ask_of_other nofun, fun _ => rfl⟩
instance (f : FwdId) : Passing (.release (.forward f)) := ⟨fun _ => ask_of_other nofun, fun _ => rfl⟩
instance (k : ClientId) : Passing (.release (.client k)) := ⟨fun _ => ask_of_other nofun, fun _ => rfl⟩

instance (act : Act) [passing : Passing act] : Stills (note act) :=
  ⟨fun _ => ⟨⟨rfl, rfl, fun _ => rfl, fun _ => id, fun c => passing.passing c _,
    fun _ => List.mem_cons_of_mem act, fun _ _ => id, fun c => openedAt_cons_of_other (passing.other c) _⟩, rfl⟩⟩

@[simp] theorem every_getCtx {err : Fault → Prop} {s : HttpMgmt} (c : CtxId) (post : HttpContext → HttpMgmt → Prop) :
    Every (getCtx c) post err s ↔ post (s.ctxs c) s := Iff.rfl

@[simp] theorem every_setCtx {err : Fault → Prop} {s : HttpMgmt} (c : CtxId) (ctx : HttpContext)
    (post : Unit → HttpMgmt → Prop) : Every (setCtx c ctx) post err s ↔ post () (s.setCtx c ctx) := Iff.rfl

@[simp] theorem every_note {err : Fault → Prop} {s : HttpMgmt} (act : Act) (post : Unit → HttpMgmt → Prop) :
    Every (note act) post err s ↔ post () (s.note act) := Iff.rfl

@[simp] theorem every_initListHead {err : Fault → Prop} {s : HttpMgmt} (h : BufHead) (post : Unit → HttpMgmt → Prop) :
    Every (initListHead h) post err s ↔ post () s := Iff.rfl

@[simp] theorem every_listSpliceInit {err : Fault → Prop} {s : HttpMgmt} (a h : BufHead) (post : Unit → HttpMgmt → Prop) :
    Every (listSpliceInit a h) post err s ↔ post () s := Iff.rfl

/-! The parts the functions are made of. -/

section
variable {α : Type} {b : BufId} {h a : BufHead} {k : ClientId} {f : FwdId} {c : CtxId}

instance (b : BufId) : Stills (getBuf b) := inferInstanceAs (Stills (data >>= _))
instance (c : CtxId) : Stills (getCtx c) := inferInstanceAs (Stills (data >>= _))
instance (k : ClientId) : Stills (getClient k) := inferInstanceAs (Stills (data >>= _))
instance (f : FwdId) : Stills (getForward f) := inferInstanceAs (Stills (data >>= _))
instance (slot : Nat) : Stills (getPollFd slot) := inferInstanceAs (Stills (data >>= _))
instance (info : BufInfo) : Stills (setBuf b info) := still_modify (fun _ => rfl) fun _ => rfl
instance (client : TcpClientContext) : Stills (setClient k client) := still_modify (fun _ => rfl) fun _ => rfl
instance (forward : TcpForwardContext) : Stills (setForward f forward) := still_modify (fun _ => rfl) fun _ => rfl
instance (f : TcpServerContext → TcpServerContext) : Stills (setServer f) := still_modify (fun _ => rfl) fun _ => rfl
instance (f : HttpBuf → HttpBuf) : Stills (setPrepare f) := still_modify (fun _ => rfl) fun _ => rfl
instance (f : HttpBuf → HttpBuf) : Stills (setToserver f) := still_modify (fun _ => rfl) fun _ => rfl
instance (slot : Nat) (pfd : PollFd) : Stills (setPollFd slot pfd) := still_modify (fun _ => rfl) fun _ => rfl
instance (sync : Bool) : Stills (setSync sync) := still_modify (fun _ => rfl) fun _ => rfl
instance (p : Prop) [Decidable p] : Stills (assert p) := along_demand nofun p

theorem still_inside (p : Prop) [Decidable p] : Stills (demand p .outOfBounds) :=
  along_demand (show unbroken .outOfBounds from (by rintro ⟨⟩)) p

instance (pointer : Option α) : Stills (deref pointer) := by
  cases pointer with
  | none => exact along_stop nofun
  | some a => exact along_pure a

instance (offset len : Int) : Stills (bytesAt b offset len) := by
  unfold bytesAt
  have outside : Stills (.stop .outOfBounds : DevM (List Byte)) := along_stop nofun
  infer_instance

instance (offset : Int) (bytes : List Byte) : Stills (memcpy b offset bytes) := by
  unfold memcpy
  have outside : Stills (.stop .outOfBounds : DevM Unit) := along_stop nofun
  infer_instance

instance : Stills reply := by
  have taken : Stills (modify fun d : HttpMgmt => { d with replies := d.replies.tail } : DevM Unit) :=
    still_modify (fun _ => rfl) fun _ => rfl
  unfold reply
  infer_instance

theorem stills_errno (e : Errno) : Stills (modify fun d : HttpMgmt => { d with errno := e } : DevM Unit) :=
  still_modify (fun _ => rfl) fun _ => rfl

instance (r : Reply) : Stills (number r) := by
  cases r with
  | fail e =>
    have set := stills_errno e
    exact along_bind
  | value n | data bytes => exact along_pure _

instance (o : Owner) (room : Int) : Stills (sysRead o room) := by
  unfold sysRead
  refine along_next fun r => ?_
  cases r with
  | fail e =>
    have set := stills_errno e
    exact along_bind
  | value n => infer_instance
  | data bytes => infer_instance

instance (o : Owner) (bytes : List Byte) : Stills (sysWrite o bytes) := by
  unfold sysWrite
  refine along_next fun r => ?_
  cases r with
  | fail e =>
    have set := stills_errno e
    exact along_bind
  | value n => infer_instance
  | data bytes => infer_instance

instance (o : Owner) (host port : Nat) : Stills (sysConnect o host port) := by
  unfold sysConnect
  infer_instance

instance : Stills sysSocket := by
  unfold sysSocket
  infer_instance

instance (host : List Byte) : Stills (nameResolve host) := by
  unfold nameResolve
  refine along_next fun r => ?_
  cases r <;> infer_instance

instance : Stills websocketGoWritable := inferInstanceAs (Stills (note _))
instance : Stills websocketWriteAgain := inferInstanceAs (Stills (note _))
instance : Stills websocketClosed := inferInstanceAs (Stills (note _))

instance (bytes : List Byte) : Stills (websocketWrite bytes) := by
  unfold websocketWrite
  infer_instance

instance : Stills (listAdd b h) := along_perform _
instance : Stills (listAddTail b h) := along_perform _
instance : Stills (listDel b) := along_perform _
instance : Stills (listSplice a h) := along_perform _
instance : Stills (listSpliceInit a h) := along_perform _
instance : Stills (listSpliceTailInit a h) := along_perform _
instance : Stills (initListHead h) := along_perform _
instance : Stills (nextBufInfo h) := along_head _

instance : Stills (listEmpty h) := by
  unfold listEmpty
  infer_instance

instance : Stills allocBuf := by
  unfold allocBuf
  refine along_next fun b => ?_
  cases b <;> infer_instance

instance (b : Option BufId) : Stills (freeBuf b) := by
  unfold freeBuf
  cases b <;> infer_instance

instance : Stills releasePrepare := by
  unfold releasePrepare
  infer_instance

instance : Stills (savePrepare b) := by
  unfold savePrepare
  infer_instance

theorem stills_toserver (asked : Bool) : Stills (modify fun d : HttpMgmt => { d with toserver := asked } : DevM Unit) :=
  still_modify (fun _ => rfl) fun _ => rfl

instance : Stills httpMgmtToserver := by
  have set := stills_toserver true
  unfold httpMgmtToserver
  infer_instance

instance (bytes : List Byte) (len : Int) : Stills (fillBuf b bytes len) := by
  unfold fillBuf
  infer_instance

instance : Stills httpMgmtHandshake := by
  have set := stills_toserver true
  have inside := still_inside
  unfold httpMgmtHandshake
  infer_instance

instance (more : Bool) : Stills (askAgain more) := by
  have set := stills_toserver false
  unfold askAgain
  infer_instance

instance : Stills httpMgmtWritable := by
  unfold httpMgmtWritable
  refine along_next fun d => ?_
  cases d.bufToserver.curr <;> infer_instance

instance (o : Owner) (slot : Option Nat) (f : PollEvents → PollEvents) : Stills (setEvents o slot f) := by
  unfold setEvents
  infer_instance

instance (fd : Int) (events : PollEvents) : Stills (mgmtAddFd fd events) := by
  have inside := still_inside
  have entered (d : HttpMgmt) : Stills (modify fun d : HttpMgmt => { d with
      fdLookup := update d.fdLookup fd d.countPollfds
      pollfds := update d.pollfds d.countPollfds ⟨fd, events, 0⟩
      countPollfds := d.countPollfds + 1 } : DevM Unit) := still_modify (fun _ => rfl) fun _ => rfl
  unfold mgmtAddFd
  infer_instance

instance (fd : Int) : Stills (mgmtDelFd fd) := by
  have inside := still_inside
  have left : Stills (modify fun d : HttpMgmt => { d with countPollfds := d.countPollfds - 1 } : DevM Unit) :=
    still_modify (fun _ => rfl) fun _ => rfl
  have moved (m : Nat) (last : PollFd) : Stills (modify fun d : HttpMgmt => { d with
      pollfds := update d.pollfds m last
      fdLookup := update d.fdLookup last.fd m } : DevM Unit) := still_modify (fun _ => rfl) fun _ => rfl
  unfold mgmtDelFd
  dsimp only
  infer_instance

/-- A descriptor that is not entered for an HTTP context. -/
theorem still_setLookup (fd : Int) {o : Option Owner} (other : ∀ c, o ≠ some (.http c)) : Stills (setLookup fd o) := by
  refine ⟨fun s => ⟨⟨rfl, rfl, fun _ => rfl, fun _ => id, fun _ => rfl, fun _ => id, fun fd' c found => ?_, fun _ => rfl⟩, rfl⟩⟩
  change update s.httpLookup fd o fd' = _ at found
  by_cases same : fd' = fd
  · subst same
    rw [update_self] at found
    exact absurd found (other c)
  · rwa [update_of_ne same] at found

instance (fd : Int) : Stills (dropFd fd) := by
  have cleared := still_setLookup fd (o := none) nofun
  unfold dropFd
  infer_instance

end

/-! The contexts. -/

section
variable {c : CtxId} {α β : Type}

theorem setCtx_self (s : HttpMgmt) (ctx : HttpContext) : (s.setCtx c ctx).ctxs c = ctx := update_self ..

theorem setCtx_other {c' : CtxId} (other : c' ≠ c) (s : HttpMgmt) (ctx : HttpContext) :
    (s.setCtx c ctx).ctxs c' = s.ctxs c' := update_of_ne other ..

/-- A change of a context that is not about its scheduling. -/
theorem Still.setCtx {s t : HttpMgmt} (still : Still s t) {ctx : HttpContext}
    (same : (ctx.status, ctx.prio, ctx.timeout, ctx.sockfd) =
      ((s.ctxs c).status, (s.ctxs c).prio, (s.ctxs c).timeout, (s.ctxs c).sockfd))
    (connecting : ctx.funcRun = .connect → (s.ctxs c).funcRun = .connect) : Still s (t.setCtx c ctx) := by
  refine ⟨⟨still.lists, still.now, fun c' => ?_, fun c' => ?_, still.asking, still.acts, still.lookup, still.openedAt⟩, still.others⟩
  · by_cases other : c' = c
    · subst other
      rwa [setCtx_self]
    · rw [setCtx_other other]
      exact still.context c'
  · by_cases other : c' = c
    · subst other
      rwa [setCtx_self]
    · rw [setCtx_other other]
      exact still.connecting c'

/-- A change of a context that is not about its scheduling. -/
theorem still_update (f : HttpContext → HttpContext)
    (same : ∀ ctx, ((f ctx).status, (f ctx).prio, (f ctx).timeout, (f ctx).sockfd, (f ctx).funcRun) =
      (ctx.status, ctx.prio, ctx.timeout, ctx.sockfd, ctx.funcRun)) :
    Stills (do setCtx c (f (← getCtx c))) := by
  refine ⟨fun s => ?_⟩
  have kept := same (s.ctxs c)
  simp only [Prod.mk.injEq] at kept
  obtain ⟨status, prio, timeout, sockfd, funcRun⟩ := kept
  refine Still.setCtx (.refl s) ?_ ?_
  · rw [status, prio, timeout, sockfd]
  · rw [funcRun]
    exact id

theorem still_update_then (f : HttpContext → HttpContext)
    (same : ∀ ctx, ((f ctx).status, (f ctx).prio, (f ctx).timeout, (f ctx).sockfd, (f ctx).funcRun) =
      (ctx.status, ctx.prio, ctx.timeout, ctx.sockfd, ctx.funcRun)) {next : DevM β} [Stills next] :
    Stills (do setCtx c (f (← getCtx c)); next) := by
  have updated : Stills (do setCtx c (f (← getCtx c)); next : DevM β) ↔
      Stills ((do setCtx c (f (← getCtx c)) : DevM Unit) >>= fun _ => next) := Iff.rfl
  have first : Stills (do setCtx c (f (← getCtx c)) : DevM Unit) := still_update f same
  exact updated.mpr along_bind

instance (line : CcrLine) : Stills (setCtxLine c line) := still_update (fun ctx => { ctx with line }) fun _ => rfl

instance (curr : Option BufId) : Stills (setWriteCurr c curr) :=
  still_update (fun ctx => { ctx with bufWrite := { ctx.bufWrite with curr } }) fun _ => rfl

instance (b : BufId) : Stills (httpChunkCheck c b) := by
  have failed : Stills (do setCtx c { ← getCtx c with errcode := 11 }; return none : DevM (Option Nat)) :=
    still_update_then (fun ctx => { ctx with errcode := 11 }) fun _ => rfl
  have chunked : Stills (do setCtx c { ← getCtx c with isChunk := true } : DevM Unit) :=
    still_update (fun ctx => { ctx with isChunk := true }) fun _ => rfl
  unfold httpChunkCheck
  refine along_next fun info => along_next fun _ => along_next fun bytes => ?_
  cases strstr lrln (cString bytes) with
  | none => infer_instance
  | some p =>
    refine along_next fun tmp => ?_
    cases tmp <;> infer_instance

instance (v : Decoder) : Stills (nextChunkBuf c v) := by
  unfold nextChunkBuf
  infer_instance

instance (v : Decoder) : Stills (current v) := by
  unfold current
  infer_instance

instance (v : Decoder) : Stills (chunkBegin c v) := by
  have failed (v : Decoder) : Stills (do setCtx c { ← getCtx c with errcode := 12 }; return v : DevM Decoder) :=
    still_update_then (fun ctx => { ctx with errcode := 12 }) fun _ => rfl
  unfold chunkBegin
  refine along_next fun ⟨b, info⟩ => along_next fun bytes => ?_
  dsimp only
  refine @along_ite _ _ _ _ _ _ _ _ _ _ _ (failed _) (@along_ite _ _ _ _ _ _ _ _ _ _ _ ?_ inferInstance)
  refine along_next fun next => ?_
  cases next <;> infer_instance

instance (v : Decoder) : Stills (keepLast v) := by
  unfold keepLast
  infer_instance

instance (v : Decoder) : Stills (chunkDone c v) := by
  unfold chunkDone
  refine along_next fun _ => along_next fun _ => along_next fun _ => along_next fun _ => ⟨fun s => ?_⟩
  exact (still_update_then (fun ctx => { ctx with bufRead := { ctx.bufRead with len := v.newTotal } })
    fun _ => rfl).along s

instance (v : Decoder) : Stills (chunkLine c v) := by
  unfold chunkLine
  refine along_next fun ⟨b, info⟩ => along_next fun bytes => ?_
  dsimp only
  refine @along_ite _ _ _ _ _ _ _ _ _ _ _ inferInstance (@along_ite _ _ _ _ _ _ _ _ _ _ _ inferInstance ?_)
  split
  · exact along_stop nofun
  · infer_instance
  · infer_instance

instance (v : Decoder) : Stills (chunkLrln c v) := by
  unfold chunkLrln
  refine along_next fun ⟨b, info⟩ => ?_
  dsimp only
  refine @along_ite _ _ _ _ _ _ _ _ _ _ _ (along_next fun next => ?_) inferInstance
  cases next <;> infer_instance

instance (chunkSize : Int) (count : Nat) (v : Decoder) : Stills (copyChunk chunkSize count v) := by
  induction count generalizing v with
  | zero => exact along_stop nofun
  | succ count ih =>
    rw [copyChunk]
    refine along_next fun ⟨b, info⟩ => ?_
    dsimp only
    infer_instance

instance (v : Decoder) : Stills (chunkGetSize c v) := by
  unfold chunkGetSize
  refine along_next fun _ => along_next fun _ => along_next fun ⟨b, info⟩ => ?_
  dsimp only
  infer_instance

instance (v : Decoder) : Stills (decodeStep c v) := by
  unfold decodeStep
  split <;> infer_instance

instance (fuel : Nat) (v : Decoder) : Stills (decode c fuel v) := by
  induction fuel generalizing v with
  | zero => exact along_stop nofun
  | succ fuel ih =>
    rw [decode]
    infer_instance

instance (v : Decoder) : Stills (abandon v) := by
  unfold abandon
  infer_instance

instance : Stills (httpParse c) := by
  have absent : Stills (do setCtx c { ← getCtx c with errcode := 15 }; return -1 : DevM Int) :=
    still_update_then (fun ctx => { ctx with errcode := 15 }) fun _ => rfl
  unfold httpParse
  refine along_next fun _ => along_next fun b => ?_
  cases b with
  | none => exact absent
  | some b =>
    refine along_next fun offset => ?_
    cases offset <;> infer_instance

theorem still_hostname (hostname : List Byte) (port : Int) :
    Stills (do setCtx c { ← getCtx c with hostname, port }; return 0 : DevM Int) :=
  still_update_then (fun ctx => { ctx with hostname, port }) fun _ => rfl

instance : Stills (hostInit c) := by
  have inside := still_inside
  unfold hostInit
  refine along_next fun curr => along_next fun b => along_next fun bytes => along_next fun _ => ?_
  cases getHostFromBuf (cString bytes) with
  | absent => exact along_pure 1
  | overflow => exact along_stop nofun
  | found hostname port => exact still_hostname hostname port

instance : Stills (generateError c) := by
  unfold generateError
  refine along_next fun b => ?_
  cases b <;> infer_instance

/-- What comes after code that is not about the scheduling. -/
theorem every_still_then {code : DevM α} {next : α → DevM β} [Stills code] {post : β → HttpMgmt → Prop}
    {s t : HttpMgmt} (before : Still s t) (after : ∀ a u, Still s u → (next a).Every post unbroken u) :
    (code >>= next).Every post unbroken t := every_along_then before after

/-- The context may have changed in other respects since it was read. -/
theorem every_setCtx_then {next : Unit → DevM β} {post : β → HttpMgmt → Prop} {s t : HttpMgmt} {ctx : HttpContext}
    (before : Still s t)
    (same : (ctx.status, ctx.prio, ctx.timeout, ctx.sockfd) =
      ((s.ctxs c).status, (s.ctxs c).prio, (s.ctxs c).timeout, (s.ctxs c).sockfd))
    (connecting : ctx.funcRun = .connect → (s.ctxs c).funcRun = .connect)
    (after : ∀ u, Still s u → (next ()).Every post unbroken u) :
    (Types.setCtx c ctx >>= next).Every post unbroken t := after _ (before.setCtx same connecting)

instance : Stills (httpContextConnect c) := by
  refine ⟨fun s => ?_⟩
  rw [httpContextConnect, every_bind]
  change Every (match (s.ctxs c).line with | .start | .inProgress | .failed => _ | _ => _) _ _ s
  have tried : Every (do
      let pfd ← getPollFd (← deref (s.ctxs c).pfd)
      let rc ← (if pfd.revents = pollOut then pure 0 else do
        let host ← nameResolve (s.ctxs c).hostname
        sysConnect (.http c) host (toUnsigned 16 (s.ctxs c).port))
      let d ← data
      if 0 ≤ rc then
        Types.setCtx c { s.ctxs c with state := .write, funcRun := .write, line := .start }
        return .continue
      else if d.errno = .already ∨ d.errno = .inProgress then
        setEvents (.http c) (s.ctxs c).pfd fun events => events &&& ~~~pollIn ||| pollOut
        Types.setCtx c { s.ctxs c with line := .inProgress }
        return .continue
      else
        Types.setCtx c { s.ctxs c with errcode := 3, line := .failed }
        return .finish : DevM CallerStatus) (fun _ t => Still s t) unbroken s := by
    refine every_still_then (.refl s) fun slot _ still => every_still_then still fun pfd _ still =>
      every_still_then still fun rc _ still => every_still_then still fun d u still => ?_
    split
    · exact every_setCtx_then still rfl nofun fun _ still => still
    · split
      · exact every_still_then still fun _ _ still => every_setCtx_then still rfl id fun _ still => still
      · exact every_setCtx_then still rfl id fun _ still => still
  split
  · exact tried
  · exact tried
  · exact tried
  · exact every_setCtx_then (.refl s) rfl id fun _ still => still

instance : Stills (httpContextWritten c) := by
  refine ⟨fun s => ?_⟩
  rw [httpContextWritten, every_bind]
  change Every (do
    setEvents (.http c) (s.ctxs c).pfd fun events => events &&& ~~~pollOut ||| pollIn
    Types.setCtx c { s.ctxs c with state := .read, line := .start, funcRun := .read }
    listSpliceInit (.writeTodo c) .caches
    return .pending : DevM CallerStatus) _ _ s
  refine every_still_then (.refl s) fun _ _ still => every_setCtx_then still rfl nofun fun _ still => ?_
  exact every_still_then still fun _ _ still => still

instance (b : BufId) (n : Int) : Stills (wroteBytes c b n) := by
  unfold wroteBytes
  infer_instance

instance (count : Nat) : Stills (writeLoop c count) := by
  induction count with
  | zero => exact along_stop nofun
  | succ count ih =>
    rw [writeLoop]
    refine along_next fun ctx => ?_
    cases ctx.bufWrite.curr with
    | none => infer_instance
    | some b =>
      refine along_next fun info => along_next fun bytes => along_next fun n => ?_
      refine @along_ite _ _ _ _ _ _ _ _ _ _ _ inferInstance (along_next fun status => ?_)
      cases status <;> infer_instance

instance : Stills (httpContextWrite c) := by
  have empty : Stills (do setCtx c { ← getCtx c with errcode := 4, line := .noBuf }; return .finish : DevM CallerStatus) :=
    still_update_then (fun ctx => { ctx with errcode := 4, line := .noBuf }) fun _ => rfl
  have again (curr : Option BufId) : Stills (do
      let b ← deref curr
      match ← wroteBytes c b 0 with
      | some status => return status
      | none => writeLoop c (httpBufCaches + 1) : DevM CallerStatus) := by
    refine along_next fun b => along_next fun status => ?_
    cases status <;> infer_instance
  unfold httpContextWrite
  refine along_next fun ctx => ?_
  split
  · refine along_next fun curr => along_next fun _ => along_next fun ctx => ?_
    cases ctx.bufWrite.curr with
    | none => exact empty
    | some b => infer_instance
  · infer_instance
  · infer_instance
  · exact again _
  · exact again _
  · infer_instance

/-- The current buffer of what is read. -/
theorem still_setReadCurr (curr : Option BufId) :
    Stills (do let ctx ← getCtx c; setCtx c { ctx with bufRead := { ctx.bufRead with curr } } : DevM Unit) :=
  still_update (fun ctx => { ctx with bufRead := { ctx.bufRead with curr } }) fun _ => rfl

instance (b : BufId) : Stills (contextSaveRead c b) := by
  have last := still_setReadCurr (c := c) none
  unfold contextSaveRead
  refine along_next fun info => along_next fun _ => ?_
  exact @still_update_then _ _
    (fun ctx => { ctx with bufRead := { ctx.bufRead with len := ctx.bufRead.len + info.start } }) (fun _ => rfl) _ along_bind

instance : Stills (queueResponse c) := by
  have counted : Stills (do
      setCtx c { ← getCtx c with bufRead := { (← getCtx c).bufRead with len := 0 } }
      httpMgmtToserver : DevM Unit) := by
    refine ⟨fun s => ?_⟩
    change Every (do
      Types.setCtx c { s.ctxs c with bufRead := { (s.ctxs c).bufRead with len := 0 } }
      httpMgmtToserver : DevM Unit) _ _ s
    refine every_setCtx_then (.refl s) rfl id fun u still => ?_
    have queued : Stills httpMgmtToserver := inferInstance
    exact every_post (queued.along u) fun _ _ => IsTrans.trans _ _ _ still
  have laid (header : List Byte) (seq : Nat) : Stills (do
      let b ← deref (← allocBuf)
      fillBuf b header httpCHeaderLen
      listAdd b (.readTodo c)
      note (.queue (some (.http c)) httpCResp seq (contents (← data) (← items (.readTodo c))))
      listSpliceTailInit (.readTodo c) .toserver
      Types.setCtx c { ← getCtx c with bufRead := { (← getCtx c).bufRead with len := 0 } }
      httpMgmtToserver : DevM Unit) := inferInstance
  refine ⟨fun s => ?_⟩
  rw [queueResponse, every_bind]
  refine every_setCtx_then (.refl s) rfl id fun u still => ?_
  exact every_post ((laid _ _).along u) fun _ _ => IsTrans.trans _ _ _ still

instance : Stills (httpContextFinish c) := by
  unfold httpContextFinish
  infer_instance

instance : Stills (readBuf c) := by
  refine ⟨fun s => ?_⟩
  rw [readBuf, every_bind]
  change Every (match (s.ctxs c).bufRead.curr with | some b => pure b | none => _) _ _ s
  cases (s.ctxs c).bufRead.curr with
  | some b => exact .refl s
  | none =>
    refine every_still_then (.refl s) fun curr _ still => every_setCtx_then still rfl id fun u still => ?_
    have found : Stills (deref curr) := inferInstance
    exact every_post (found.along u) fun _ _ => IsTrans.trans _ _ _ still

instance (b : BufId) : Stills (lastRead c b) := by
  have last := still_setReadCurr (c := c) none
  unfold lastRead
  infer_instance

instance : Stills (httpContextRead c) := by
  unfold httpContextRead
  refine along_next fun ctx => ?_
  split
  case h_3 => infer_instance
  case h_4 => infer_instance
  all_goals
    refine along_next fun b => along_next fun info => ?_
    dsimp only
    refine along_next fun _ => along_next fun got => ?_
    split <;> infer_instance

instance : Stills (runHttp c) := by
  unfold runHttp
  refine along_next fun ctx => ?_
  cases ctx.funcRun <;> infer_instance

end

/-! The forwards. -/

section
variable {f : FwdId}

instance (line : CcrLine) : Stills (setForwardLine f line) := by
  unfold setForwardLine
  infer_instance

instance (curr : Option BufId) : Stills (setForwardCurr f curr) := by
  unfold setForwardCurr
  infer_instance

instance : Stills (forwardToWrite f) := by
  unfold forwardToWrite
  infer_instance

instance : Stills (forwardToRead f) := by
  unfold forwardToRead
  infer_instance

instance : Stills (tcpForwardClosing f) := by
  unfold tcpForwardClosing
  refine along_next fun b => ?_
  cases b <;> infer_instance

instance : Stills (tcpForwardConnect f) := by
  unfold tcpForwardConnect
  refine along_next fun fwd => ?_
  split <;> infer_instance

instance (b : BufId) (n : Int) : Stills (forwardWrote f b n) := by
  unfold forwardWrote
  infer_instance

instance (count : Nat) : Stills (forwardWriteLoop f count) := by
  induction count with
  | zero => exact along_stop nofun
  | succ count ih =>
    rw [forwardWriteLoop]
    refine along_next fun fwd => ?_
    cases fwd.bufWrite.curr with
    | none => infer_instance
    | some b =>
      refine along_next fun info => along_next fun bytes => along_next fun n => along_next fun d => ?_
      refine @along_ite _ _ _ _ _ _ _ _ _ _ _ inferInstance (@along_ite _ _ _ _ _ _ _ _ _ _ _ inferInstance ?_)
      refine along_next fun status => ?_
      cases status <;> infer_instance

instance : Stills (tcpForwardWrite f) := by
  have again (curr : Option BufId) : Stills (do
      let b ← deref curr
      match ← forwardWrote f b 0 with
      | some status => return status
      | none => forwardWriteLoop f (httpBufCaches + 1) : DevM CallerStatus) := by
    refine along_next fun b => along_next fun status => ?_
    cases status <;> infer_instance
  unfold tcpForwardWrite
  refine along_next fun fwd => along_next fun _ => ?_
  split
  case h_3 => exact again _
  case h_4 => exact again _
  all_goals infer_instance

instance (b : BufId) (seq : Nat) (bytes : List Byte) : Stills (layForward b seq bytes) := by
  unfold layForward
  dsimp only
  infer_instance

instance : Stills (tcpForwardRead f) := by
  unfold tcpForwardRead
  refine along_next fun fwd => along_next fun _ => along_next fun b => ?_
  cases b with
  | none => infer_instance
  | some b =>
    refine along_next fun got => ?_
    split <;> infer_instance

instance : Stills (runForward f) := by
  unfold runForward
  refine along_next fun fwd => ?_
  cases fwd.funcRun <;> infer_instance

/-- A forward that is listed leaves its list once. -/
theorem every_tcpForwardRelease {s t : HttpMgmt} (before : Still s t) (listed : f ∈ s.listForward) :
    (tcpForwardRelease f).Every (fun _ v => Calm s v) unbroken t := by
  have left : Calms (modify fun d : HttpMgmt => { d with listForward := d.listForward.erase f } : DevM Unit) :=
    along_modify fun _ => calm_of_same rfl
  have counted : Calms (modify fun d : HttpMgmt => { d with lenForward := d.lenForward - 1 } : DevM Unit) :=
    along_modify fun _ => calm_of_same rfl
  unfold tcpForwardRelease
  refine every_still_then before fun _ _ still => every_still_then still fun _ _ still =>
    every_still_then still fun _ _ still => every_still_then still fun _ u still => ?_
  rw [every_bind, every_data, every_bind, every_demand]
  refine ⟨fun _ => ?_, fun unlisted => absurd ?_ unlisted⟩
  · refine every_along_then still.toCalm fun _ _ calm => every_along_then calm fun _ _ calm =>
      every_along_then calm fun _ _ calm => every_along_then calm fun _ _ calm => every_along_then calm fun _ v calm => ?_
    exact calm.trans (counted.along v)
  · rw [(Prod.mk.inj still.others).1]
    exact listed

instance (sockfd : Int) (address port seq : Nat) : Calms (forwardOpen sockfd address port seq) := by
  have numbered (n : FwdId) : Calms (modify fun d : HttpMgmt => { d with nextForward := n } : DevM Unit) :=
    along_modify fun _ => calm_of_same rfl
  have listed (f : FwdId) : Calms (modify fun d : HttpMgmt =>
      { d with listForward := f :: d.listForward, lenForward := d.lenForward + 1 } : DevM Unit) :=
    along_modify fun _ => calm_of_same rfl
  have entered (f : FwdId) : Stills (setLookup sockfd (some (.forward f))) := still_setLookup sockfd nofun
  unfold forwardOpen
  infer_instance

instance (seq : Nat) (host : List Byte) (port : Nat) : Calms (tcpForwardCreate seq host port) := by
  unfold tcpForwardCreate
  infer_instance

instance : Calms forwardCommand := by
  have inside := still_inside
  have closed (seq : Nat) : Calms (do
      match ← findForward seq with
      | none => return -1
      | some f =>
        tcpForwardRelease f
        releasePrepare
        return 0 : DevM Int) := by
    refine ⟨fun s => ?_⟩
    rw [every_bind]
    change Every (match s.listForward.find? fun f => (s.forwards f).seq = seq with | none => _ | some f => _) _ _ s
    cases found : s.listForward.find? fun f => (s.forwards f).seq = seq with
    | none => exact Calm.refl s
    | some f =>
      rw [every_bind]
      refine every_post (every_tcpForwardRelease (.refl s) (List.mem_of_find?_eq_some found)) fun _ u calm => ?_
      exact every_along_then calm fun _ _ calm => calm
  unfold forwardCommand
  dsimp only
  infer_instance

instance : Calms processTcpForward := by
  unfold processTcpForward
  infer_instance

instance : Stills processTcpForwardresp := by
  have searched (seq : Nat) : Stills (findForward seq) := inferInstanceAs (Stills (data >>= _))
  unfold processTcpForwardresp
  refine along_next fun d => along_next fun f => ?_
  cases f <;> infer_instance

end

/-! The tunnel clients. -/

section
variable {k : ClientId} {b : BufId}

instance (cipher : Key → Word × Word → Word × Word) (offset words : Int) : Stills (cipherBuf cipher b offset words) := by
  unfold cipherBuf
  infer_instance

instance (offset words : Int) : Stills (encry2 b offset words) := inferInstanceAs (Stills (cipherBuf ..))
instance (offset words : Int) : Stills (decry2 b offset words) := inferInstanceAs (Stills (cipherBuf ..))

instance : Stills (clientToWrite k) := by
  unfold clientToWrite
  infer_instance

instance (bufInfo : Option BufId) : Stills (sendEvent bufInfo k) := by
  unfold sendEvent
  infer_instance

instance : Stills processTunnelReq := by
  unfold processTunnelReq
  infer_instance

instance : Stills processTunnelResp := by
  unfold processTunnelResp
  refine along_next fun d => ?_
  cases d.listClient.find? fun k => (d.clients k).reqSeq = d.bufPrepare.seq <;> infer_instance

instance : Stills (tcpClientSaveRead k b) := by
  unfold tcpClientSaveRead
  infer_instance

instance (line : CcrLine) : Stills (setClientLine k line) := by
  unfold setClientLine
  infer_instance

instance : Stills (clientParseHeader k b) := by
  have numbered (seq : Nat) : Stills (modify fun d : HttpMgmt =>
      { d with tcpServer := { d.tcpServer with seq } } : DevM Unit) := still_modify (fun _ => rfl) fun _ => rfl
  unfold clientParseHeader
  dsimp only
  infer_instance

instance : Stills (clientRequest k) := by
  unfold clientRequest
  infer_instance

instance : Stills (clientReadBuf k) := by
  unfold clientReadBuf
  refine along_next fun client => ?_
  cases client.bufRead.curr <;> infer_instance

instance : Stills (clientReceived k) := by
  unfold clientReceived
  infer_instance

instance : Stills (clientLastRead k b) := by
  unfold clientLastRead
  infer_instance

instance : Stills (tcpClientRead k) := by
  unfold tcpClientRead
  refine along_next fun client => along_next fun _ => ?_
  split
  case h_3 => infer_instance
  case h_4 => infer_instance
  all_goals
    refine along_next fun b => along_next fun info => ?_
    dsimp only
    refine along_next fun _ => along_next fun got => ?_
    split <;> infer_instance

instance (curr : Option BufId) : Stills (setClientCurr k curr) := by
  unfold setClientCurr
  infer_instance

instance : Stills (clientWritten k) := by
  unfold clientWritten
  infer_instance

instance (n : Int) : Stills (clientWrote k b n) := by
  unfold clientWrote
  infer_instance

instance (count : Nat) : Stills (clientWriteLoop k count) := by
  induction count with
  | zero => exact along_stop nofun
  | succ count ih =>
    rw [clientWriteLoop]
    refine along_next fun client => ?_
    cases client.bufWrite.curr with
    | none => infer_instance
    | some b =>
      refine along_next fun info => ?_
      dsimp only
      refine along_next fun _ => along_next fun _ => along_next fun bytes => along_next fun n => along_next fun _ => ?_
      refine @along_ite _ _ _ _ _ _ _ _ _ _ _ inferInstance (along_next fun status => ?_)
      cases status <;> infer_instance

instance : Stills (tcpClientWrite k) := by
  have again (curr : Option BufId) : Stills (do
      let b ← deref curr
      match ← clientWrote k b 0 with
      | some status => return status
      | none => clientWriteLoop k (httpBufCaches + 1) : DevM CallerStatus) := by
    refine along_next fun b => along_next fun status => ?_
    cases status <;> infer_instance
  unfold tcpClientWrite
  refine along_next fun client => along_next fun _ => ?_
  split
  case h_3 => exact again _
  case h_4 => exact again _
  all_goals infer_instance

instance : Stills (runClient k) := by
  unfold runClient
  refine along_next fun client => ?_
  cases client.funcRun <;> infer_instance

/-- A client that is listed leaves its list once. -/
theorem every_tcpClientRelease {s t : HttpMgmt} (before : Still s t) (listed : k ∈ s.listClient) :
    (tcpClientRelease k).Every (fun _ v => Calm s v) unbroken t := by
  have left : Calms (modify fun d : HttpMgmt => { d with listClient := d.listClient.erase k } : DevM Unit) :=
    along_modify fun _ => calm_of_same rfl
  have counted : Calms (modify fun d : HttpMgmt =>
      { d with tcpServer := { d.tcpServer with clientLen := d.tcpServer.clientLen - 1 } } : DevM Unit) :=
    along_modify fun _ => calm_of_same rfl
  unfold tcpClientRelease
  refine every_still_then before fun _ u still => ?_
  rw [every_bind, every_data, every_bind, every_demand]
  refine ⟨fun _ => ?_, fun unlisted => absurd ?_ unlisted⟩
  · refine every_along_then still.toCalm fun _ _ calm => every_along_then calm fun _ _ calm =>
      every_along_then calm fun _ _ calm => every_along_then calm fun _ _ calm => every_along_then calm fun _ _ calm =>
      every_along_then calm fun _ _ calm => every_along_then calm fun _ v calm => ?_
    exact calm.trans (counted.along v)
  · rw [(Prod.mk.inj still.others).2]
    exact listed

instance (clientfd : Int) : Calms (tcpClientCreate clientfd) := by
  have numbered (n : ClientId) : Calms (modify fun d : HttpMgmt => { d with nextClient := n } : DevM Unit) :=
    along_modify fun _ => calm_of_same rfl
  have listed (k : ClientId) : Calms (modify fun d : HttpMgmt => { d with listClient := k :: d.listClient } : DevM Unit) :=
    along_modify fun _ => calm_of_same rfl
  have entered (k : ClientId) : Stills (setLookup clientfd (some (.client k))) := still_setLookup clientfd nofun
  unfold tcpClientCreate
  infer_instance

instance : Calms tcpServerCallback := by
  unfold tcpServerCallback
  refine along_next fun d => ?_
  split <;> infer_instance

instance : Stills (runReadyClient k) := by
  unfold runReadyClient
  infer_instance

instance : Calms tcpServerRun := by
  unfold tcpServerRun
  infer_instance

instance : Stills callbackWriteable := by
  unfold callbackWriteable
  infer_instance

end

end WebTunnel.Device.Scheduling
