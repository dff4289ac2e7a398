import WebTunnel.Server.Framing

/-! The handlers of browser messages, of closing connections and of web requests, and the
server as a transition system over them. -/

namespace WebTunnel.Server.Events
open Library.Bytes Library.JavaScript Library.Json Library.Program Library.Run Library.Slots Sessions Wire Server.Types
open Processors Webcam Framing

/-- The request a browser's message is turned into: open a forward, or data for it. -/
def forwardRequest (seq : Nat) (obj : JsVal) : Except JsError (List Byte) := do
  let type ← property obj "type".toList
  let openning ← looseEqText type "openning".toList
  let message ← property obj "message".toList
  if openning then
    match message with
    | .str message =>
      let lanHost := split message ":".toList
      let id ← writeUInt16BE (some seq)
      let port ← writeUInt16BE (lanHost[1]?.bind parseInt)
      createReq [id ++ port ++ bytesBE 4 0 ++ encodeUtf8 (lanHost.headD [])] 0x10 seq
    | _ => .error .typeError
  else
    let buf ← bufferFrom message
    createReq [buf] 0x11 seq

def textProcess (c : ConnId) (text : Text) : Js Bool := do
  let conn ← getConn c
  match conn.sessUsername, conn.sessDevicename with
  | some username, some _ =>
    let s ← get
    match s.userMap (.str username) with
    | none =>
      emit (.connClose c)
      pure false
    | some mgr =>
      match conn.seq with
      | none =>
        if text ≠ "hello".toList then
          pure false
        else
          let processor ← mgrNewSeq (.str username) fun seq => .forward ⟨c, seq, 0⟩
          let processor ← defined processor
          setConn c { conn with seq := some processor.seq }
          emit (.sendUTF c (.object processor.seq "handshake".toList "hello".toList))
          pure true
      | some seq =>
        let obj ← liftJs (parse text)
        let objSeq ← liftJs (property obj "seq".toList)
        let same ← liftJs (looseEqNat objSeq seq)
        if ¬ same then
          pure false
        else
          match mgr.getCurrConn with
          | none => pure false
          | some clientConn =>
            let bufs ← liftJs (forwardRequest seq obj)
            sendBytes clientConn bufs
            pure true
  | _, _ =>
    emit (.connClose c)
    pure false

/-- Creates the camera's manager unless there is one. -/
def getCamByName (user : JsVal) (hostUrl : Text) : Js Unit := do
  let mgr ← getMgr user
  match mgr.cams.lookup hostUrl with
  | some _ => pure ()
  | none => setCam user hostUrl (CamManager.new hostUrl)

def webcamProcess (c : ConnId) (text : Text) : Js Unit := do
  let conn ← getConn c
  match conn.sessUsername, conn.sessDevicename with
  | some username, some _ =>
    let s ← get
    match s.userMap (.str username) with
    | none => emit (.connClose c)
    | some mgr =>
      match mgr.getCurrConn, conn.camSeq with
      | some _, none =>
        if (split text ":".toList).length ≠ 2 then
          emit (.connClose c)
        else
          getCamByName (.str username) text
          let camSeq ← CamManager.addConn (.str username) text c
          setConn c { conn with camSeq := camSeq, hostUrl := some text }
          CamManager.openConn (.str username) text
      | _, _ => pure ()
  | _, _ => emit (.connClose c)

/-- The device a closing forward session reports to; an undefined name reads as a text. -/
def closeTarget (conn : Conn) (mgr : UserMgmr) : Option Found :=
  mgr.getConnByName (conn.sessDevicename.getD "undefined".toList)

def closeForward (user : JsVal) (conn : Conn) (seq : Nat) : Js Unit := do
  let mgr ← getMgr user
  match closeTarget conn mgr with
  | none => pure ()
  | some clientConn =>
    let id ← liftJs (writeUInt16BE (some seq))
    let bufs ← liftJs (createReq [id ++ bytesBE 2 23 ++ bytesBE 4 1] 0x10 seq)
    sendBytes clientConn bufs
    mgrDelSeq user mgr.currSeq

def newConnection (c : ConnId) (url : Text) (sess : Option Sess) : Js Unit :=
  setConn c
    { url := url
      user := .undefined
      host := .undefined
      port := .undefined
      devicename := none
      sessUsername := sess.bind Sess.username
      sessDevicename := sess.bind Sess.devicename
      seq := none
      camSeq := none
      hostUrl := none
      isOpen := true }

/-- The handler of the connection's "close" event. -/
def onClose (c : ConnId) : Js Unit := do
  let conn ← getConn c
  setConn c { conn with isOpen := false }
  let s ← get
  match conn.camSeq with
  | some ind =>
    match conn.sessUsername with
    | none => pure ()
    | some username =>
      match s.userMap (.str username) with
      | none => pure ()
      | some _ =>
        let hostUrl := conn.hostUrl.getD "undefined".toList
        getCamByName (.str username) hostUrl
        CamManager.delConn (.str username) hostUrl ind
  | none =>
    if conn.user ≠ .undefined then
      match s.userMap conn.user, conn.devicename with
      | some mgr, some devicename => setMgr conn.user (mgr.delConnByName devicename)
      | _, _ => pure ()
    else
      match conn.sessUsername with
      | none => pure ()
      | some username =>
        match s.userMap (.str username), conn.seq with
        | some _, some seq => closeForward (.str username) conn seq
        | _, _ => pure ()

/-! Web requests. An exception in one of their handlers ends in the framework, which
answers with an error page; what was done before stays done. -/

def setSess (sid : SessId) (sess : Sess) : Js Unit :=
  modify fun s => { s with sess := fun key => if key = sid then sess else s.sess key }

def login (sid : SessId) (username : Text) : Js Unit := do
  let s ← get
  if username ≠ [] ∧ (s.userMap (.str username)).isSome then
    setSess sid { s.sess sid with username := some username }

def logout (sid : SessId) : Js Unit := do
  let s ← get
  setSess sid { s.sess sid with username := none }

def prepareDevice (sid : SessId) (device : Text) : Js Unit := do
  let s ← get
  match (s.sess sid).username with
  | none => pure ()
  | some username =>
    match s.userMap (.str username) with
    | none => pure ()
    | some mgr =>
      if device = [] then pure ()
      else
        match mgr.getConnByName device with
        | none => pure ()
        | some found =>
          match found with
          | .builtin =>
            -- The name is set on what was found. That is `Object.prototype`, or a function that nothing reads it from.
            if device = "__proto__".toList then throw .prototypeChanged
          | .conn c =>
            let conn ← getConn c
            if conn.devicename = none then
              setConn c { conn with devicename := some device }
          setMgr (.str username) (mgr.setCurr device)
          setSess sid { s.sess sid with devicename := some device }

/-- Sends the buffers one by one. Where this throws, because a builtin has no `sendBytes` or
a header cannot hold the length, the framework answers and the session stays. -/
def sendAll (target : Found) (id : ProcId) : Except JsError (List (List Byte)) → Js Unit
  | .error _ => emit (.resEnd id)
  | .ok bufs =>
    match target with
    | .conn c => emitAll (bufs.map (.sendBytes c))
    | .builtin => emit (.resEnd id)

/-- Sends a request to the user's current device, for a session of its own. -/
def sendRequest (sid : SessId) (bufs : List (List Byte)) : Js Unit := do
  let s ← get
  match (s.sess sid).username with
  | none => pure ()
  | some username =>
    match s.userMap (.str username) with
    | none => setSess sid { s.sess sid with username := none }
    | some mgr =>
      match mgr.getCurrConn with
      | none => pure ()
      | some conn =>
        let processor ← mgrNewSeq (.str username) fun seq => .http ⟨username, seq, false, [], 0⟩
        match processor with
        | none => pure ()
        | some processor => sendAll conn processor.id (createReqBuffers bufs 1 processor.seq)

def camsnapRequest : Text :=
  "GET /?action=snapshot HTTP/1.1\r\n".toList ++
    "host:127.0.0.1:8080\r\n".toList ++
    "User-Agent: Mozilla/5.0 (X11; Linux x86_64; rv:24.0) Gecko/20100101 Firefox/24.0\r\n".toList ++
    "Accept: image/png,image/*;q=0.8,*/*;q=0.5\r\n".toList ++
    "Accept-Language: zh-cn,zh;q=0.8,en-us;q=0.5,en;q=0.3\r\n".toList ++
    "Cache-Control:max-age=0\r\nConnection: Close\r\n\r\n".toList

def camsnap (sid : SessId) : Js Unit := sendRequest sid [encodeUtf8 camsnapRequest]

/-- `bufs` is the rewritten header block, followed by the body of a POST. -/
def appAll (sid : SessId) (bufs : List (List Byte)) : Js Unit := sendRequest sid bufs

/-! The server as a whole. -/

instance draws_neZero : NeZero 100000 := inferInstance

inductive Event where
  | connect (c : ConnId) (url : Text) (sid : Option SessId)
  | utf8 (c : ConnId) (text : Text)
  | binary (c : ConnId) (buffer : List Byte) (random : Fin 100000)
  | close (c : ConnId)
  | login (sid : SessId) (username : Text)
  | logout (sid : SessId)
  | prepareDevice (sid : SessId) (device : Text)
  | request (sid : SessId) (bufs : List (List Byte))
  | camsnap (sid : SessId)
  | timeout (user : JsVal) (hostUrl : Text)

def wscam : Text := "/__wscam".toList

def onTimeout (user : JsVal) (hostUrl : Text) : Js Unit := do
  let cam ← getCam user hostUrl
  setCam user hostUrl { cam with timers := cam.timers - 1 }
  CamManager.readyForNew user hostUrl

def onUtf8 (c : ConnId) (text : Text) : Js Unit := do
  let conn ← getConn c
  if conn.url = wscam then
    webcamProcess c text
  else
    let _ ← textProcess c text

def handle : Event → Js Unit
  | .connect c url sid => do
    let s ← get
    newConnection c url (sid.map s.sess)
  | .utf8 c text => onUtf8 c text
  | .binary c buffer random => connectionParse c buffer random
  | .close c => onClose c
  | .login sid username => login sid username
  | .logout sid => logout sid
  | .prepareDevice sid device => prepareDevice sid device
  | .request sid bufs => appAll sid bufs
  | .camsnap sid => camsnap sid
  | .timeout user hostUrl => onTimeout user hostUrl

/-- A connection sends messages from its accepting to its closing; a timeout fires once. -/
def Enabled (s : ServerState) : Event → Prop
  | .connect c _ _ => s.conns c = none
  | .utf8 c _ | .binary c _ _ | .close c => ∃ conn, s.conns c = some conn ∧ conn.isOpen
  | .timeout user hostUrl =>
    ∃ mgr cam, s.userMap user = some mgr ∧ mgr.cams.lookup hostUrl = some cam ∧ 0 < cam.timers
  | _ => True

instance (s : ServerState) (e : Event) : Decidable (Enabled s e) :=
  match e with
  | .connect c _ _ => decidable_of_iff ((s.conns c).isNone = true) Option.isNone_iff_eq_none
  | .utf8 c _ | .binary c _ _ | .close c =>
    decidable_of_iff (∃ conn ∈ s.conns c, conn.isOpen) Iff.rfl
  | .timeout user hostUrl =>
    decidable_of_iff (((s.userMap user).bind fun mgr => mgr.cams.lookup hostUrl).any
      fun cam => decide (0 < cam.timers)) (by
        simp only [Option.any_eq_true, Option.bind_eq_some_iff, decide_eq_true_eq, Enabled]
        exact ⟨fun ⟨cam, ⟨mgr, known, found⟩, waiting⟩ => ⟨mgr, cam, known, found, waiting⟩,
          fun ⟨mgr, cam, known, found, waiting⟩ => ⟨cam, ⟨mgr, known, found⟩, waiting⟩⟩)
  | .login _ _ | .logout _ | .prepareDevice _ _ | .request _ _ | .camsnap _ => isTrue trivial

/-- An uncaught exception ends the process. -/
def step (s : ServerState) (e : Event) : Option ServerState :=
  match handle e s with
  | .ok (_, t) => some t
  | .error _ => none

/-- What was handed out between two states. -/
def sentSince (s t : ServerState) : List Output := t.out.drop s.out.length

theorem sentSince_append (s : ServerState) (outputs : List Output) :
    sentSince s (s.write outputs) = outputs := List.drop_left

def Starts (s : ServerState) : Prop := s = .init

/-- The run of the given events from the start, up to one that is not enabled. -/
def runEnabled (events : List Event) : Option ServerState := (Test.decided Enabled).run step .init events

theorem reach_of_runEnabled {events : List Event} {s : ServerState} (ran : runEnabled events = some s) :
    Reach step Enabled Starts s := Test.reach rfl ran

theorem of_step {s t : ServerState} {e : Event} {P : ServerState → Prop}
    (moved : step s e = some t) (wp : Wp (handle e) (fun _ => P) (fun _ => True) s) : P t := by
  unfold step at moved
  cases ran : handle e s with
  | ok result =>
    rw [ran] at moved
    cases moved
    exact wp_of_run ran wp
  | error => simp [ran] at moved

theorem step_of_wp {s : ServerState} {e : Event} {post : ServerState → Prop}
    (wp : Wp (handle e) (fun _ => post) (fun _ => False) s) : ∃ t, step s e = some t ∧ post t := by
  obtain ⟨_, t, ran, holds⟩ := wp_total.mp wp
  exact ⟨t, by rw [step, ran], holds⟩

theorem wp_onUtf8_text {s : ServerState} {c : ConnId} {conn : Conn} {text : Text}
    {post : Unit → ServerState → Prop} {err : JsError → Prop} (found : s.conns c = some conn)
    (isText : conn.url ≠ wscam) :
    Wp (onUtf8 c text) post err s ↔ Wp (textProcess c text) (fun _ => post ()) err s := by
  simp only [onUtf8, wp_bind, wp_getConn, found, Option.some.injEq, forall_eq', reduceCtorEq,
    false_implies, and_true, if_neg isText, wp_pure]

/-- The server once a browser's hello has opened its forward session. -/
def helloState (s : ServerState) (c : ConnId) (conn : Conn) (username : Text) (mgr : UserMgmr) :
    ServerState :=
  let seq := cursor mgr.toSessionTable
  let t := (s.openSeq (.str username) mgr fun seq => .forward ⟨c, seq, 0⟩).setConn c
    { conn with seq := some seq }
  t.write [.sendUTF c (.object seq "handshake".toList "hello".toList)]

/-- What a browser's message can do. -/
inductive TextEffect (s : ServerState) (c : ConnId) (text : Text) : ServerState → Prop where
  | refused : TextEffect s c text s
  | closing : TextEffect s c text (s.write [.connClose c])
  | hello {conn : Conn} {username device : Text} {mgr : UserMgmr} (found : s.conns c = some conn)
      (session : conn.sessUsername = some username) (selected : conn.sessDevicename = some device)
      (said : text = "hello".toList) (known : s.userMap (.str username) = some mgr)
      (unopened : conn.seq = none) (room : mgr.cnt < userMgrMax) :
      TextEffect s c text (helloState s c conn username mgr)
  | forwarded {conn : Conn} {username device : Text} {mgr : UserMgmr} {seq : Nat} {obj objSeq : JsVal}
      {target : ConnId} {bufs : List Byte} (found : s.conns c = some conn)
      (session : conn.sessUsername = some username) (selected : conn.sessDevicename = some device)
      (known : s.userMap (.str username) = some mgr) (opened : conn.seq = some seq)
      (parsed : parse text = .ok obj) (named : property obj "seq".toList = .ok objSeq)
      (same : looseEqNat objSeq seq = .ok true) (current : mgr.getCurrConn = some (.conn target))
      (built : forwardRequest seq obj = .ok bufs) :
      TextEffect s c text (s.write [.sendBytes target bufs])

theorem textProcess_effect (s : ServerState) (c : ConnId) (text : Text) :
    Wp (textProcess c text) (fun _ t => TextEffect s c text t) (fun _ => True) s := by
  rw [textProcess]
  simp only [wp_bind, wp_getConn, implies_true, and_true]
  intro conn found
  split
  next username device session selected =>
    simp only [wp_bind, wp_get]
    split
    next =>
      simp only [wp_bind, wp_emit, wp_pure]
      exact .closing
    next mgr known =>
      split
      next unopened =>
        split
        next => exact .refused
        next said =>
          simp only [wp_bind, wp_mgrNewSeq, wp_defined, wp_setConn, wp_emit, wp_pure, implies_true, and_true]
          intro mgr' known'
          cases known.symm.trans known'
          constructor
          · intro _ _ absent
            cases absent
          · intro room _ same
            cases same
            exact .hello found session selected (not_not.mp said) known unopened room
      next seq opened =>
        simp only [wp_bind, wp_liftJs, implies_true, and_true]
        intro obj parsed objSeq named same compared
        split
        next => exact .refused
        next equal =>
          split
          next => exact .refused
          next clientConn current =>
            simp only [wp_bind, wp_liftJs, wp_sendBytes, wp_pure, implies_true, and_true]
            intro bufs built target isConn
            subst isConn
            have same : same = true := by simpa using equal
            subst same
            exact .forwarded found session selected known opened parsed named compared current built
  next =>
    simp only [wp_bind, wp_emit, wp_pure]
    exact .closing

def closedState (s : ServerState) (c : ConnId) (conn : Conn) : ServerState :=
  s.setConn c { conn with isOpen := false }

/-- What the close handler can do. -/
inductive CloseEffect (s : ServerState) (c : ConnId) : ServerState → Prop where
  | viewer {t : ServerState} {conn : Conn} {ind : Nat} (found : s.conns c = some conn)
      (index : conn.camSeq = some ind) (silent : t.out = s.out) : CloseEffect s c t
  | device {conn : Conn} {mgr : UserMgmr} {name : Text} (found : s.conns c = some conn)
      (isDevice : conn.user ≠ .undefined) (known : s.userMap conn.user = some mgr)
      (named : conn.devicename = some name) :
      CloseEffect s c ((closedState s c conn).setMgr conn.user (mgr.delConnByName name))
  | plain {conn : Conn} (found : s.conns c = some conn)
      (noTarget : ∀ username mgr seq, conn.user = .undefined → conn.sessUsername = some username →
        s.userMap (.str username) = some mgr → conn.seq = some seq → closeTarget conn mgr = none) :
      CloseEffect s c (closedState s c conn)
  | forward {t : ServerState} {conn : Conn} {username : Text} {mgr : UserMgmr} {seq : Nat}
      {target : ConnId} {bufs : List Byte} (found : s.conns c = some conn)
      (isBrowser : conn.user = .undefined) (session : conn.sessUsername = some username)
      (known : s.userMap (.str username) = some mgr) (opened : conn.seq = some seq)
      (registered : closeTarget conn mgr = some (.conn target))
      (deleted : mgrDelSeq (.str username) mgr.currSeq
        ((closedState s c conn).write [.sendBytes target bufs]) = .ok ((), t)) :
      CloseEffect s c t

theorem getCamByName_silent (user : JsVal) (hostUrl : Text) (s : ServerState) :
    Wp (getCamByName user hostUrl) (fun _ t => t.out = s.out) (fun _ => True) s := by
  rw [getCamByName]
  simp only [wp_bind, wp_getMgr, implies_true, and_true]
  intro mgr _
  split
  · rfl
  · simp [setCam]

theorem delConn_silent (user : JsVal) (hostUrl : Text) (ind : Nat) (s : ServerState) :
    Wp (CamManager.delConn user hostUrl ind) (fun _ t => t.out = s.out) (fun _ => True) s := by
  simp [CamManager.delConn, getCam, setCam]

theorem closeForward_effect {s : ServerState} {c : ConnId} {conn : Conn} {username : Text}
    {mgr : UserMgmr} {seq : Nat} (found : s.conns c = some conn) (isBrowser : conn.user = .undefined)
    (session : conn.sessUsername = some username) (known : s.userMap (.str username) = some mgr)
    (opened : conn.seq = some seq) :
    Wp (closeForward (.str username) conn seq) (fun _ t => CloseEffect s c t) (fun _ => True)
      (closedState s c conn) := by
  have still : (closedState s c conn).userMap (.str username) = some mgr := known
  rw [closeForward, wp_bind, wp_getMgr]
  refine ⟨fun mgr' known' => ?_, fun _ => trivial⟩
  cases still.symm.trans known'
  cases registered : closeTarget conn mgr with
  | none =>
    rw [wp_pure]
    refine .plain found fun username' mgr' _ _ session' known' _ => ?_
    cases session.symm.trans session'
    cases known.symm.trans known'
    exact registered
  | some clientConn =>
    rw [wp_bind, wp_liftJs]
    refine ⟨fun id _ => ?_, fun _ _ => trivial⟩
    rw [wp_bind, wp_liftJs]
    refine ⟨fun bufs _ => ?_, fun _ _ => trivial⟩
    rw [wp_bind, wp_sendBytes]
    refine ⟨fun target isConn => ?_, fun _ => trivial⟩
    subst isConn
    refine wp_iff.mpr ⟨fun _ t deleted => ?_, fun _ _ => trivial⟩
    exact @CloseEffect.forward _ _ _ _ _ _ _ _ bufs found isBrowser session known opened registered deleted

theorem onClose_effect (s : ServerState) (c : ConnId) :
    Wp (onClose c) (fun _ t => CloseEffect s c t) (fun _ => True) s := by
  rw [onClose]
  simp only [wp_bind, wp_getConn, wp_setConn, wp_get, implies_true, and_true]
  intro conn found
  split
  next ind index =>
    split
    · exact .viewer found index rfl
    · split
      · exact .viewer found index rfl
      · simp only [wp_bind]
        refine wp_post (getCamByName_silent _ _ _) fun _ t silent => ?_
        refine wp_post (delConn_silent _ _ _ _) fun _ t' silent' => ?_
        exact .viewer found index (silent'.trans silent)
  next =>
    split
    next isDevice =>
      split
      next mgr name known named => exact .device found isDevice known named
      next => exact .plain found fun _ _ _ isBrowser _ _ _ => absurd isBrowser isDevice
    next isBrowser =>
      have isBrowser : conn.user = .undefined := not_not.mp isBrowser
      split
      next noSession =>
        exact .plain found fun _ _ _ _ session _ _ => by cases noSession.symm.trans session
      next username session =>
        split
        next mgr seq known opened => exact closeForward_effect found isBrowser session known opened
        next none =>
          refine .plain found fun username' mgr seq _ session' known opened => ?_
          cases session.symm.trans session'
          exact absurd opened (none mgr seq known)

end WebTunnel.Server.Events
