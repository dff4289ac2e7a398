import WebTunnel.Library.Program
import WebTunnel.Library.Json
import WebTunnel.Server.Sessions
import WebTunnel.Server.Wire

/-! The server's objects: connections, users' managers with their session table and
frame parser, the processors of the sessions, cameras, and what the server sends. -/

namespace WebTunnel.Server.Types
open Library.Bytes Library.JavaScript Library.Json Library.Program Library.Slots Sessions

abbrev ConnId := Nat
abbrev ProcId := Nat
abbrev SessId := Nat

/-- Answers one web request, made in a session of `username`; its response object is named
by the processor. -/
structure HttpProcessor where
  username : Text
  seq : Nat
  headerOk : Bool
  headerStr : Text
  start : Nat
deriving DecidableEq

structure ForwardProcessor where
  conn : ConnId
  seq : Nat
  start : Nat
deriving DecidableEq

/-- Fetches one snapshot for the camera manager of the user at `camMgr`. -/
structure WebcamProcessor where
  camMgr : Text
  seq : Nat
  start : Nat
deriving DecidableEq

inductive Processor where
  | http (p : HttpProcessor)
  | forward (p : ForwardProcessor)
  | webcam (p : WebcamProcessor)
deriving DecidableEq

/-- A camera's viewers and its snapshot under way. A port that is no number is `none`, a
`currSeq` of -1 too, `isReady` is false until it is first set, and `timers` counts the
timeouts that have not fired. -/
structure CamManager where
  hostUrl : Text
  host : Text
  port : Option Int
  isOpen : Bool
  isReady : Bool
  doReqListeners : Nat
  timers : Nat
  conns : List (Nat × ConnId)
  connCount : Int
  connIndex : Nat
  headerOk : Bool
  headerStr : Text
  currSeq : Option Nat
  totalLen : Option Int
  currLen : Nat
  bufs : List (List Byte)
deriving DecidableEq

/-- What is remembered between the messages of a frame. `tmpBufs` is not initialised by
the constructor. -/
structure FrameParser where
  currSeq : Option Nat
  currTotal : Int
  tmpBufs : Option (List (List Byte))
  tmpBufsLen : Nat
deriving DecidableEq

structure UserMgmr extends SessionTable ProcRef, FrameParser where
  user : JsVal
  connections : List (Text × ConnId)
  currDevice : Text
  cams : List (Text × CamManager)

def UserMgmr.new (user : JsVal) : UserMgmr where
  toSessionTable := fresh
  toFrameParser := ⟨none, 0, none, 0⟩
  user := user
  connections := []
  currDevice := []
  cams := []

def UserMgmr.setTable (mgr : UserMgmr) (table : SessionTable ProcRef) : UserMgmr :=
  { mgr with toSessionTable := table }

def UserMgmr.setParser (mgr : UserMgmr) (parser : FrameParser) : UserMgmr :=
  { mgr with toFrameParser := parser }

section
variable (mgr : UserMgmr) (table : SessionTable ProcRef) (parser : FrameParser)

@[simp] theorem setTable_table : (mgr.setTable table).toSessionTable = table := rfl
@[simp] theorem parser_setTable : (mgr.setTable table).toFrameParser = mgr.toFrameParser := rfl
@[simp] theorem setTable_cams : (mgr.setTable table).cams = mgr.cams := rfl
@[simp] theorem setParser_table : (mgr.setParser parser).toSessionTable = mgr.toSessionTable := rfl
@[simp] theorem parser_setParser : (mgr.setParser parser).toFrameParser = parser := rfl
@[simp] theorem setParser_setParser (parser' : FrameParser) :
    (mgr.setParser parser).setParser parser' = mgr.setParser parser' := rfl
@[simp] theorem setParser_cams : (mgr.setParser parser).cams = mgr.cams := rfl

end

/-- A WebSocket connection, with the properties the handlers attach to it. -/
structure Conn where
  url : Text
  user : JsVal
  host : JsVal
  port : JsVal
  devicename : Option Text
  sessUsername : Option Text
  sessDevicename : Option Text
  seq : Option Nat
  camSeq : Option Nat
  hostUrl : Option Text
  isOpen : Bool

/-- A web session. -/
structure Sess where
  username : Option Text
  devicename : Option Text

inductive UtfMessage where
  | object (seq : Nat) (type message : Text)
  | text (message : Text)
deriving DecidableEq

/-- What the handlers hand to the outside, and their calls of a session's processor. -/
inductive Output where
  | sendBytes (conn : ConnId) (bytes : List Byte)
  | sendUTF (conn : ConnId) (message : UtfMessage)
  | writeHead (res : ProcId) (status : Nat) (fields : List (Text × Text))
  | resWrite (res : ProcId) (bytes : List Byte)
  | resEnd (res : ProcId)
  | connClose (conn : ConnId)
  | readConfig (conn : ConnId) (seq : Nat)
  | processBuffer (seq : Nat) (total : Int) (proc : ProcId) (bytes : List Byte)
deriving DecidableEq

structure ServerState where
  userMap : JsVal → Option UserMgmr
  conns : ConnId → Option Conn
  sess : SessId → Sess
  procs : ProcId → Option Processor
  nextProc : ProcId
  out : List Output

def ServerState.init : ServerState where
  userMap := fun _ => none
  conns := fun _ => none
  sess := fun _ => ⟨none, none⟩
  procs := fun _ => none
  nextProc := 0
  out := []

abbrev Js := Prog ServerState JsError

variable {α : Type}

def liftJs (result : Except JsError α) : Js α :=
  match result with
  | .ok a => pure a
  | .error e => throw e

/-- A property of an undefined value cannot be read. -/
def defined (value : Option α) : Js α :=
  match value with
  | some a => pure a
  | none => throw .typeError

def ServerState.write (s : ServerState) (outputs : List Output) : ServerState :=
  { s with out := s.out ++ outputs }

def emitAll (outputs : List Output) : Js Unit := modify fun s => s.write outputs

def emit (output : Output) : Js Unit := emitAll [output]

def ServerState.setMgr (s : ServerState) (user : JsVal) (mgr : UserMgmr) : ServerState :=
  { s with userMap := fun key => if key = user then some mgr else s.userMap key }

def ServerState.setConn (s : ServerState) (c : ConnId) (conn : Conn) : ServerState :=
  { s with conns := fun key => if key = c then some conn else s.conns key }

def ServerState.setProc (s : ServerState) (id : ProcId) (proc : Processor) : ServerState :=
  { s with procs := fun key => if key = id then some proc else s.procs key }

def getMgr (user : JsVal) : Js UserMgmr := do
  let s ← get
  defined (s.userMap user)

def setMgr (user : JsVal) (mgr : UserMgmr) : Js Unit :=
  modify fun s => s.setMgr user mgr

def getConn (c : ConnId) : Js Conn := do
  let s ← get
  defined (s.conns c)

def setConn (c : ConnId) (conn : Conn) : Js Unit :=
  modify fun s => s.setConn c conn

def setProc (id : ProcId) (proc : Processor) : Js Unit :=
  modify fun s => s.setProc id proc

/-- Names every JavaScript object inherits; looked up on `connections` they are found, and
what is found is no connection. -/
def inherited : List Text :=
  ["constructor", "toString", "toLocaleString", "valueOf", "hasOwnProperty", "isPrototypeOf",
    "propertyIsEnumerable", "__proto__", "__defineGetter__", "__defineSetter__",
    "__lookupGetter__", "__lookupSetter__"].map String.toList

inductive Found where
  | conn (c : ConnId)
  | builtin
deriving DecidableEq

def UserMgmr.getConnByName (mgr : UserMgmr) (name : Text) : Option Found :=
  match mgr.connections.lookup name with
  | some c => some (.conn c)
  | none => if name ∈ inherited then some .builtin else none

def UserMgmr.getCurrConn (mgr : UserMgmr) : Option Found := mgr.getConnByName mgr.currDevice

def UserMgmr.addConnByName (mgr : UserMgmr) (c : ConnId) (name : Text) : UserMgmr :=
  { mgr with connections := (name, c) :: mgr.connections.filter (·.1 ≠ name) }

def UserMgmr.delConnByName (mgr : UserMgmr) (name : Text) : UserMgmr :=
  { mgr with connections := mgr.connections.filter (·.1 ≠ name) }

def UserMgmr.setCurr (mgr : UserMgmr) (name : Text) : UserMgmr := { mgr with currDevice := name }

/-- `mgr.getBySeq(mgr.curr_seq)`, where a null id finds nothing. -/
def UserMgmr.getCurrent (mgr : UserMgmr) : Option ProcRef :=
  mgr.currSeq.bind (getBySeq mgr.toSessionTable)

/-- A builtin has no `sendBytes`. -/
def sendBytes (target : Found) (bytes : List Byte) : Js Unit :=
  match target with
  | .conn c => emit (.sendBytes c bytes)
  | .builtin => throw .typeError

/-- `mgr.newSeq(callback)` where the callback constructs a processor for the id it gets. -/
def mgrNewSeq (user : JsVal) (construct : Nat → Processor) : Js (Option ProcRef) := do
  let s ← get
  let mgr ← getMgr user
  match newSeq mgr.toSessionTable (fun seq => ⟨s.nextProc, seq⟩) with
  | (none, _) => pure none
  | (some ref, table) =>
    modify fun s => { s.setProc ref.id (construct ref.seq) with nextProc := s.nextProc + 1 }
    setMgr user (mgr.setTable table)
    pure (some ref)

/-- The server once `mgr.newSeq` has allocated a session of `user`. -/
def ServerState.openSeq (s : ServerState) (user : JsVal) (mgr : UserMgmr)
    (construct : Nat → Processor) : ServerState :=
  ({ s.setProc s.nextProc (construct (cursor mgr.toSessionTable)) with
      nextProc := s.nextProc + 1 }).setMgr
    user (mgr.setTable (newSeq mgr.toSessionTable fun seq => ⟨s.nextProc, seq⟩).2)

/-- `mgr.delSeq(seq)`; for null or undefined the comparison with the length and the lookup
both fail and nothing is deleted. -/
def mgrDelSeq (user : JsVal) (seq : Option Nat) : Js Unit := do
  match seq with
  | none => pure ()
  | some seq =>
    let mgr ← getMgr user
    let (_, table) ← liftJs (delSeq mgr.toSessionTable seq)
    setMgr user (mgr.setTable table)

/-- The end of a frame: `curr_seq`, `curr_total` and `tmp_bufs` are reset. -/
def FrameParser.reset (_ : FrameParser) : FrameParser := ⟨none, 0, some [], 0⟩

def resetParser (user : JsVal) : Js Unit := do
  let mgr ← getMgr user
  setMgr user (mgr.setParser mgr.toFrameParser.reset)

section
variable (s : ServerState) (user key : JsVal) (mgr : UserMgmr) (c : ConnId) (conn : Conn)
  (id : ProcId) (proc : Processor) (outputs : List Output)

@[simp] theorem setMgr_userMap :
    (s.setMgr user mgr).userMap key = if key = user then some mgr else s.userMap key := rfl
theorem setMgr_userMap_self : (s.setMgr user mgr).userMap user = some mgr := if_pos rfl
theorem setMgr_setMgr (mgr' : UserMgmr) : (s.setMgr user mgr).setMgr user mgr' = s.setMgr user mgr' := by
  have same : ∀ key, (if key = user then some mgr' else if key = user then some mgr else s.userMap key) =
      if key = user then some mgr' else s.userMap key := by
    intro key
    split <;> rfl
  simp only [ServerState.setMgr, same]
theorem setMgr_self (known : s.userMap user = some mgr) : s.setMgr user mgr = s := by
  have same : ∀ key, (if key = user then some mgr else s.userMap key) = s.userMap key := by
    intro key
    split
    next here => rw [here, known]
    next => rfl
  simp only [ServerState.setMgr, same]
@[simp] theorem setMgr_conns : (s.setMgr user mgr).conns = s.conns := rfl
@[simp] theorem setMgr_procs : (s.setMgr user mgr).procs = s.procs := rfl
@[simp] theorem setMgr_sess : (s.setMgr user mgr).sess = s.sess := rfl
@[simp] theorem setMgr_out : (s.setMgr user mgr).out = s.out := rfl

@[simp] theorem setConn_conns (key : ConnId) :
    (s.setConn c conn).conns key = if key = c then some conn else s.conns key := rfl
theorem setConn_conns_self : (s.setConn c conn).conns c = some conn := if_pos rfl
@[simp] theorem setConn_userMap : (s.setConn c conn).userMap = s.userMap := rfl
@[simp] theorem setConn_procs : (s.setConn c conn).procs = s.procs := rfl
@[simp] theorem setConn_sess : (s.setConn c conn).sess = s.sess := rfl
@[simp] theorem setConn_out : (s.setConn c conn).out = s.out := rfl

@[simp] theorem setProc_procs (key : ProcId) :
    (s.setProc id proc).procs key = if key = id then some proc else s.procs key := rfl
theorem setProc_procs_self : (s.setProc id proc).procs id = some proc := if_pos rfl
@[simp] theorem setProc_userMap : (s.setProc id proc).userMap = s.userMap := rfl
@[simp] theorem setProc_conns : (s.setProc id proc).conns = s.conns := rfl
@[simp] theorem setProc_out : (s.setProc id proc).out = s.out := rfl

@[simp] theorem write_out : (s.write outputs).out = s.out ++ outputs := rfl
@[simp] theorem write_userMap : (s.write outputs).userMap = s.userMap := rfl
@[simp] theorem write_conns : (s.write outputs).conns = s.conns := rfl
@[simp] theorem write_procs : (s.write outputs).procs = s.procs := rfl
@[simp] theorem write_sess : (s.write outputs).sess = s.sess := rfl

end

/-! What each of these does, for proofs about the code that uses them. -/

section
variable {post : α → ServerState → Prop} {done : Unit → ServerState → Prop} {err : JsError → Prop}
  {s : ServerState}

@[simp] theorem wp_liftJs {result : Except JsError α} :
    Wp (liftJs result) post err s ↔
      (∀ a, result = .ok a → post a s) ∧ (∀ e, result = .error e → err e) := by
  cases result with
  | ok a => exact ⟨fun h => ⟨fun _ same => by cases same; exact h, by simp⟩, fun h => h.1 a rfl⟩
  | error e => exact ⟨fun h => ⟨by simp, fun _ same => by cases same; exact h⟩, fun h => h.2 e rfl⟩

theorem wp_liftJs_of_ok {result : Except JsError α} {a : α} (ok : result = .ok a) :
    Wp (liftJs result) post err s ↔ post a s := by
  subst ok
  rfl

@[simp] theorem wp_defined {value : Option α} :
    Wp (defined value) post err s ↔
      (∀ a, value = some a → post a s) ∧ (value = none → err .typeError) := by
  cases value with
  | none => exact ⟨fun h => ⟨by simp, fun _ => h⟩, fun h => h.2 rfl⟩
  | some a => exact ⟨fun h => ⟨fun _ same => by cases same; exact h, by simp⟩, fun h => h.1 a rfl⟩

@[simp] theorem wp_emitAll {outputs : List Output} :
    Wp (emitAll outputs) done err s ↔ done () (s.write outputs) := Iff.rfl

@[simp] theorem wp_emit {output : Output} :
    Wp (emit output) done err s ↔ done () (s.write [output]) := Iff.rfl

@[simp] theorem wp_getMgr {user : JsVal} {post : UserMgmr → ServerState → Prop} :
    Wp (getMgr user) post err s ↔
      (∀ mgr, s.userMap user = some mgr → post mgr s) ∧ (s.userMap user = none → err .typeError) := by
  rw [getMgr, wp_bind, wp_get, wp_defined]

theorem wp_getMgr_of_known {user : JsVal} {mgr : UserMgmr} {post : UserMgmr → ServerState → Prop}
    (known : s.userMap user = some mgr) : Wp (getMgr user) post err s ↔ post mgr s := by
  simp [known]

@[simp] theorem wp_setMgr {user : JsVal} {mgr : UserMgmr} :
    Wp (setMgr user mgr) done err s ↔ done () (s.setMgr user mgr) := Iff.rfl

@[simp] theorem wp_getConn {c : ConnId} {post : Conn → ServerState → Prop} :
    Wp (getConn c) post err s ↔
      (∀ conn, s.conns c = some conn → post conn s) ∧ (s.conns c = none → err .typeError) := by
  rw [getConn, wp_bind, wp_get, wp_defined]

theorem wp_getConn_of_found {c : ConnId} {conn : Conn} {post : Conn → ServerState → Prop}
    (found : s.conns c = some conn) : Wp (getConn c) post err s ↔ post conn s := by
  simp [found]

@[simp] theorem wp_setConn {c : ConnId} {conn : Conn} :
    Wp (setConn c conn) done err s ↔ done () (s.setConn c conn) := Iff.rfl

@[simp] theorem wp_setProc {id : ProcId} {proc : Processor} :
    Wp (setProc id proc) done err s ↔ done () (s.setProc id proc) := Iff.rfl

@[simp] theorem wp_sendBytes {target : Found} {bytes : List Byte} :
    Wp (sendBytes target bytes) done err s ↔
      (∀ c, target = .conn c → done () (s.write [.sendBytes c bytes])) ∧
      (target = .builtin → err .typeError) := by
  cases target with
  | conn c => exact ⟨fun h => ⟨fun _ same => by cases same; exact h, by simp⟩, fun h => h.1 c rfl⟩
  | builtin => exact ⟨fun h => ⟨by simp, fun _ => h⟩, fun h => h.2 rfl⟩

@[simp] theorem wp_mgrNewSeq {user : JsVal} {construct : Nat → Processor}
    {post : Option ProcRef → ServerState → Prop} :
    Wp (mgrNewSeq user construct) post err s ↔
      (∀ mgr, s.userMap user = some mgr →
        (userMgrMax ≤ mgr.cnt → post none s) ∧
        (mgr.cnt < userMgrMax →
          post (some ⟨s.nextProc, cursor mgr.toSessionTable⟩) (s.openSeq user mgr construct))) ∧
      (s.userMap user = none → err .typeError) := by
  rw [mgrNewSeq, wp_bind, wp_get, wp_bind, wp_getMgr]
  apply and_congr_left'
  apply forall₂_congr
  intro mgr known
  rcases Nat.lt_or_ge mgr.cnt userMgrMax with room | full
  · rw [newSeq_fst _ room, ServerState.openSeq]
    simp only [wp_bind, wp_modify, wp_setMgr, wp_pure, room, Nat.not_le.mpr room, forall_const,
      false_implies, true_and]
  · rw [newSeq_full _ full]
    simp only [wp_pure, full, Nat.not_lt.mpr full, forall_const, false_implies, and_true]

@[simp] theorem wp_mgrDelSeq {user : JsVal} {seq : Option Nat} :
    Wp (mgrDelSeq user seq) done err s ↔
      (seq = none → done () s) ∧
      (∀ id, seq = some id →
        (∀ mgr, s.userMap user = some mgr →
          (∀ obj table, delSeq mgr.toSessionTable id = .ok (obj, table) →
            done () (s.setMgr user (mgr.setTable table))) ∧
          (∀ e, delSeq mgr.toSessionTable id = .error e → err e)) ∧
        (s.userMap user = none → err .typeError)) := by
  cases seq with
  | none => simp only [mgrDelSeq, wp_pure, forall_const, reduceCtorEq, false_implies, and_true]
  | some id =>
    simp only [mgrDelSeq, wp_bind, wp_getMgr, wp_liftJs, wp_setMgr, Prod.forall, reduceCtorEq,
      false_implies, Option.some.injEq, forall_eq', true_and]

theorem wp_mgrDelSeq_of_ok {user : JsVal} {mgr : UserMgmr} {id : Nat} {obj : Option ProcRef}
    {table : SessionTable ProcRef} (known : s.userMap user = some mgr)
    (deleted : delSeq mgr.toSessionTable id = .ok (obj, table)) :
    Wp (mgrDelSeq user (some id)) done err s ↔
      done () (s.setMgr user (mgr.setTable table)) := by
  simp [known, deleted]

theorem mgrDelSeq_of_ok {user : JsVal} {mgr : UserMgmr} {id : Nat} {obj : Option ProcRef}
    {table : SessionTable ProcRef} (known : s.userMap user = some mgr)
    (deleted : delSeq mgr.toSessionTable id = .ok (obj, table)) :
    mgrDelSeq user (some id) s = .ok ((), s.setMgr user (mgr.setTable table)) := by
  have runs : Wp (mgrDelSeq user (some id)) (fun _ t => t = s.setMgr user (mgr.setTable table))
      (fun _ => False) s := (wp_mgrDelSeq_of_ok known deleted).mpr rfl
  obtain ⟨_, _, ran, rfl⟩ := wp_total.mp runs
  exact ran

theorem wp_resetParser_of_known {user : JsVal} {mgr : UserMgmr} (known : s.userMap user = some mgr) :
    Wp (resetParser user) done err s ↔
      done () (s.setMgr user (mgr.setParser mgr.toFrameParser.reset)) := by
  simp [resetParser, known]

theorem mgrDelSeq_silent (user : JsVal) (seq : Option Nat) (s : ServerState) :
    Wp (mgrDelSeq user seq) (fun _ t => t.out = s.out) (fun _ => True) s := by
  rw [wp_mgrDelSeq]
  exact ⟨fun _ => rfl, fun _ _ => ⟨fun _ _ => ⟨fun _ _ _ => rfl, fun _ _ => trivial⟩, fun _ => trivial⟩⟩

end

end WebTunnel.Server.Types
