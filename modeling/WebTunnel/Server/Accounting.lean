import WebTunnel.Server.Accounts
import WebTunnel.Server.Closing

/-! The server keeps its accounts balanced as long as every step meets a condition, and
then closing a browser session frees exactly that session or leaks it. -/

namespace WebTunnel.Server.Accounting
open Library.Bytes Library.JavaScript Library.Json Library.Program Library.Run Library.Slots Sessions
open Wire Server.Types Processors Webcam Framing Events Closing Accounts

def link (conn : Conn) : Link :=
  ⟨conn.isOpen, conn.sessUsername, conn.seq, conn.user, conn.camSeq⟩

def purpose : Processor → Purpose
  | .http p => .http p.username p.seq
  | .forward p => .forward p.conn p.seq
  | .webcam _ => .webcam

/-- The book of a server. -/
def book (s : ServerState) : Book where
  tables user := (s.userMap user).map UserMgmr.toSessionTable
  cams user := (s.userMap user).elim [] fun mgr => mgr.cams.map Prod.fst
  links c := (s.conns c).map link
  purposes id := (s.procs id).map purpose
  nextProc := s.nextProc
  ended id := .resEnd id ∈ s.out

section
variable {s : ServerState}

theorem book_outputs {outputs : List Output} (noEnd : ∀ id, .resEnd id ∉ outputs) :
    book (s.write outputs) = book s := by
  have same : ∀ id, (.resEnd id ∈ s.out ++ outputs) = (.resEnd id ∈ s.out) := by
    intro id
    rw [List.mem_append, eq_iff_iff]
    exact ⟨fun either => either.resolve_right (noEnd id), .inl⟩
  simp only [book, ServerState.write, same]

theorem book_output {output : Output} (noEnd : ∀ id, output ≠ .resEnd id) :
    book (s.write [output]) = book s :=
  book_outputs fun id member => noEnd id (List.mem_singleton.mp member).symm

theorem book_resEnd (id : ProcId) :
    book (s.write [.resEnd id]) = (book s).setEnded id := by
  have same : ∀ key, (.resEnd key ∈ s.out ++ [.resEnd id]) = (key = id ∨ .resEnd key ∈ s.out) := by
    intro key
    rw [List.mem_append, List.mem_singleton, Output.resEnd.injEq, or_comm]
  simp only [book, ServerState.write, Book.setEnded, same]

theorem book_setConn (c : ConnId) (conn : Conn) :
    book (s.setConn c conn) = (book s).setLink c (link conn) := by
  have same : ∀ key, (if key = c then some conn else s.conns key).map link =
      if key = c then some (link conn) else (s.conns key).map link := by
    intro key
    split <;> rfl
  simp only [book, ServerState.setConn, Book.setLink, same]

theorem book_setMgr {user : JsVal} {mgr : UserMgmr}
    (cams : (s.userMap user).elim [] (fun mgr => mgr.cams.map Prod.fst) = mgr.cams.map Prod.fst) :
    book (s.setMgr user mgr) = (book s).setTable user mgr.toSessionTable := by
  have tables : ∀ key, (if key = user then some mgr else s.userMap key).map UserMgmr.toSessionTable =
      if key = user then some mgr.toSessionTable else (s.userMap key).map UserMgmr.toSessionTable := by
    intro key
    split <;> rfl
  have same : ∀ key, (if key = user then some mgr else s.userMap key).elim []
      (fun mgr => mgr.cams.map Prod.fst) =
      (s.userMap key).elim [] (fun mgr => mgr.cams.map Prod.fst) := by
    intro key
    by_cases here : key = user
    · rw [if_pos here, here, cams]
      rfl
    · rw [if_neg here]
  simp only [book, ServerState.setMgr, Book.setTable, tables, same]

theorem setTable_self {b : Book} {user : JsVal} {t : SessionTable ProcRef}
    (known : b.tables user = some t) : b.setTable user t = b := by
  have same : ∀ key, (if key = user then some t else b.tables key) = b.tables key := by
    intro key
    by_cases here : key = user
    · rw [if_pos here, here, known]
    · rw [if_neg here]
  simp only [Book.setTable, same]

theorem book_tables {user : JsVal} {mgr : UserMgmr} (known : s.userMap user = some mgr) :
    (book s).tables user = some mgr.toSessionTable := by
  simp only [book, known, Option.map_some]

/-- What the parser remembers is not booked. -/
theorem book_setParser {user : JsVal} {mgr : UserMgmr} (known : s.userMap user = some mgr)
    (parser : FrameParser) : book (s.setMgr user (mgr.setParser parser)) = book s := by
  rw [book_setMgr (by simp [known]), setParser_table, setTable_self (book_tables known)]

theorem book_setTable {user : JsVal} {mgr : UserMgmr} (known : s.userMap user = some mgr)
    (table : SessionTable ProcRef) :
    book (s.setMgr user (mgr.setTable table)) = (book s).setTable user table := by
  rw [book_setMgr (by simp [known]), setTable_table]

theorem setLink_self {b : Book} {c : ConnId} {link : Link} (known : b.links c = some link) :
    b.setLink c link = b := by
  have same : ∀ key, (if key = c then some link else b.links key) = b.links key := by
    intro key
    by_cases here : key = c
    · rw [if_pos here, here, known]
    · rw [if_neg here]
  simp only [Book.setLink, same]

/-- A change of what a processor has received is not booked. -/
theorem book_setProc_same {id : ProcId} {p p' : Processor} (known : s.procs id = some p)
    (same : purpose p' = purpose p) : book (s.setProc id p') = book s := by
  have purposes : ∀ key, (if key = id then some p' else s.procs key).map purpose =
      (s.procs key).map purpose := by
    intro key
    by_cases here : key = id
    · rw [if_pos here, here, known, Option.map_some, Option.map_some, same]
    · rw [if_neg here]
  simp only [book, ServerState.setProc, purposes]

theorem book_openSeq {username : Text} {mgr : UserMgmr} {construct : Nat → Processor}
    (known : s.userMap (.str username) = some mgr) :
    book (s.openSeq (.str username) mgr construct) =
      (book s).open username mgr.toSessionTable (purpose (construct (cursor mgr.toSessionTable))) := by
  have purposes : ∀ key, (if key = s.nextProc then some (construct (cursor mgr.toSessionTable))
      else s.procs key).map purpose =
      if key = s.nextProc then some (purpose (construct (cursor mgr.toSessionTable)))
      else (s.procs key).map purpose := by
    intro key
    split <;> rfl
  refine (book_setMgr ?_).trans ?_
  · exact congrArg (fun found => Option.elim found [] _) known
  · simp only [book, Book.open, Book.setPurpose, ServerState.setProc, purposes]
    rfl

end

/-- The accounts of the server balance. -/
def Balanced (s : ServerState) : Prop := Accounted (book s)

section
variable {s : ServerState} {user : JsVal} {mgr : UserMgmr}

theorem Balanced.serves (balanced : Balanced s) (known : s.userMap user = some mgr) {ref : ProcRef}
    {x : Nat} (leads : getBySeq mgr.toSessionTable x = some ref) :
    ∃ username, user = .str username ∧ Serves (book s) username ref := by
  obtain ⟨i, _, at_⟩ := getBySeq_eq_some.mp leads
  exact Accounted.serves balanced user ref ⟨_, book_tables known, i, at_⟩

theorem processHeader_keeps (p : HttpProcessor) (res : ProcId) (buffer : List Byte) :
    (HttpProcessor.processHeader p res buffer).1.username = p.username ∧
      (HttpProcessor.processHeader p res buffer).1.seq = p.seq ∧
      ∀ id, .resEnd id ∉ (HttpProcessor.processHeader p res buffer).2 := by
  rw [HttpProcessor.processHeader]
  dsimp only
  split
  · simp
  · split
    · split
      · simp
      · refine ⟨rfl, rfl, fun id member => ?_⟩
        rcases List.mem_cons.mp member with head | body
        · cases head
        · split at body <;> simp [HttpProcessor.innerProcessBuffer] at body
    · simp

/-- What is written to a response does not end it. -/
theorem consume_keeps (p : HttpProcessor) (res : ProcId) (buffer : List Byte) :
    purpose (.http (HttpProcessor.consume p res buffer).1) = purpose (.http p) ∧
      ∀ id, .resEnd id ∉ (HttpProcessor.consume p res buffer).2 := by
  simp only [HttpProcessor.consume, purpose]
  split
  · exact ⟨rfl, by simp [HttpProcessor.innerProcessBuffer]⟩
  · obtain ⟨username, seq, noEnd⟩ := processHeader_keeps { p with start := p.start + buffer.length } res buffer
    exact ⟨by rw [username, seq], noEnd⟩

theorem getCurrent_eq_some {ref : ProcRef} :
    mgr.getCurrent = some ref ↔
      ∃ x, mgr.currSeq = some x ∧ getBySeq mgr.toSessionTable x = some ref := by
  rw [UserMgmr.getCurrent, Option.bind_eq_some_iff]

/-- A response's last bytes end it and free its session. -/
theorem http_balanced (balanced : Balanced s) (known : s.userMap user = some mgr) {ref : ProcRef}
    (current : mgr.getCurrent = some ref) {p : HttpProcessor} (proc : s.procs ref.id = some (.http p))
    (buffer : List Byte) :
    Wp (HttpProcessor.processBuffer user ref.id p buffer) (fun _ t => Balanced t) (fun _ => True) s := by
  obtain ⟨x, currSeq, leads⟩ := getCurrent_eq_some.mp current
  obtain ⟨username, rfl, _⟩ := balanced.serves known leads
  obtain ⟨same, noEnd⟩ := consume_keeps p ref.id buffer
  have purposes : (book s).purposes ref.id = some (.http p.username p.seq) := by
    simp only [book, proc, Option.map_some, purpose]
  obtain ⟨t', deleted, next⟩ := Accounted.endHttp balanced (book_tables known) leads purposes
  have written : book ((s.setProc ref.id (.http (HttpProcessor.consume p ref.id buffer).1)).write
      (HttpProcessor.consume p ref.id buffer).2) = book s :=
    (book_outputs noEnd).trans (book_setProc_same proc same)
  rw [HttpProcessor.processBuffer]
  simp only [wp_bind, wp_setProc, wp_emitAll]
  rw [wp_getMgr_of_known (by simpa using known), wp_ite]
  split
  · simp only [wp_bind, wp_emit, currSeq]
    rw [wp_mgrDelSeq_of_ok (by simpa using known) deleted,
      wp_resetParser_of_known (setMgr_userMap_self _ _ _), Balanced,
      book_setParser (setMgr_userMap_self _ _ _), book_setTable (by simpa using known),
      book_resEnd, written]
    exact next
  · rw [wp_pure, Balanced, written]
    exact balanced

theorem getForwardConn_of_proc {p : ForwardProcessor} {post : ConnId → ServerState → Prop}
    {err : JsError → Prop} {ref : ProcRef} (proc : s.procs ref.id = some (.forward p)) :
    Wp (getForwardConn (some ref)) post err s ↔ post p.conn s := by
  simp [getForwardConn, proc]

/-- Forwarded data leaves the sessions as they are. -/
theorem forward_balanced (balanced : Balanced s) (known : s.userMap user = some mgr) {ref : ProcRef}
    (current : mgr.getCurrent = some ref) {p : ForwardProcessor}
    (proc : s.procs ref.id = some (.forward p)) (buffer : List Byte) :
    Wp (ForwardProcessor.processBuffer user ref.id p buffer) (fun _ t => Balanced t)
      (fun _ => True) s := by
  obtain ⟨x, currSeq, leads⟩ := getCurrent_eq_some.mp current
  have same : ∀ start, purpose (.forward { p with start := start }) = purpose (.forward p) :=
    fun _ => rfl
  rw [ForwardProcessor.processBuffer]
  simp only [wp_bind, wp_setProc]
  rw [wp_getMgr_of_known (by simpa using known), current,
    getForwardConn_of_proc (setProc_procs_self _ _ _), currSeq]
  simp only [wp_defined, wp_liftJs, wp_emit, Option.some.injEq, forall_eq', reduceCtorEq,
    implies_true, and_true]
  intro len _
  rw [wp_ite]
  split
  · have kept : ∀ outputs, ((s.setProc ref.id (.forward { p with start := p.start + buffer.length })).write
        outputs).procs ref.id = some (.forward { p with start := p.start + buffer.length }) :=
      fun _ => setProc_procs_self _ _ _
    simp only [wp_bind, wp_setProc]
    rw [wp_resetParser_of_known (by simpa using known), Balanced, book_setParser (by simpa using known),
      book_setProc_same (kept _) ((same 0).trans (same _).symm),
      book_output (by simp), book_setProc_same proc (same _)]
    exact balanced
  · rw [wp_pure, Balanced, book_output (by simp), book_setProc_same proc (same _)]
    exact balanced

theorem httpNormalParse_balanced (balanced : Balanced s) (known : s.userMap user = some mgr)
    (buf : List Byte) :
    Wp (httpNormalParse user buf) (fun _ t => Balanced t) (fun _ => True) s := by
  rw [httpNormalParse, wp_bind, wp_getMgr_of_known known]
  split
  next x ref currSeq current =>
    have logged : Balanced (s.write [.processBuffer x mgr.currTotal ref.id buf]) := by
      rw [Balanced, book_output (by simp)]
      exact balanced
    obtain ⟨x', currSeq', leads⟩ := getCurrent_eq_some.mp current
    obtain ⟨username, rfl, serves⟩ := balanced.serves known leads
    simp only [wp_bind, wp_emit, processBuffer, wp_get, write_procs]
    obtain ⟨p, same⟩ := serves.id_known
    cases proc : s.procs ref.id with
    | none => trivial
    | some p =>
      cases p with
      | http p => exact http_balanced logged known current proc buf
      | forward p => exact forward_balanced logged known current proc buf
      | webcam p =>
        have purposes : (book s).purposes ref.id = some .webcam := by
          simp only [book, proc, Option.map_some, purpose]
        cases serves with
        | forward purpose => cases purposes.symm.trans purpose
        | http unanswered => cases purposes.symm.trans unanswered.1
  next =>
    rw [wp_setMgr, Balanced, book_setParser known]
    exact balanced

theorem parseFirstMessage_balanced (balanced : Balanced s) (known : s.userMap user = some mgr)
    (c : ConnId) (buffer : List Byte) :
    Wp (parseFirstMessage user c buffer) (fun _ t => Balanced t) (fun _ => True) s := by
  rw [parseFirstMessage, wp_bind, wp_getMgr_of_known known]
  simp only [wp_bind, wp_setMgr, wp_liftJs, implies_true, and_true]
  intro protoHeader _
  have reset : ∀ parser, Balanced (s.setMgr user (mgr.setParser parser)) := by
    intro parser
    rw [Balanced, book_setParser known]
    exact balanced
  split
  · exact reset _
  · split
    · simp only [parseTunnelReq, wp_bind, wp_liftJs, wp_emit, implies_true, and_true]
      intro _ _
      rw [Balanced, book_output (by simp)]
      exact reset _
    · simp only [wp_bind]
      rw [wp_getMgr_of_known (setMgr_userMap_self _ _ _), wp_setMgr]
      have begun : ∀ parser parser', Balanced ((s.setMgr user (mgr.setParser parser)).setMgr user
          ((mgr.setParser parser).setParser parser')) := by
        intro parser parser'
        rw [Balanced, book_setParser (setMgr_userMap_self _ _ _)]
        exact reset parser
      split
      · exact httpNormalParse_balanced (begun _ _) (setMgr_userMap_self _ _ _) _
      · exact begun _ _

theorem parseNormalMessage_balanced (balanced : Balanced s) (known : s.userMap user = some mgr)
    (c : ConnId) (buffer : List Byte) :
    Wp (parseNormalMessage user c buffer) (fun _ t => Balanced t) (fun _ => True) s := by
  rw [parseNormalMessage, wp_bind, wp_getMgr_of_known known]
  split
  · split
    · simp only [wp_bind, wp_defined, wp_setMgr, implies_true, and_true]
      intro tmpBufs _
      have collected : ∀ parser, Balanced (s.setMgr user (mgr.setParser parser)) := by
        intro parser
        rw [Balanced, book_setParser known]
        exact balanced
      split
      · exact parseFirstMessage_balanced (collected _) (setMgr_userMap_self _ _ _) c _
      · exact collected _
    · exact parseFirstMessage_balanced balanced known c buffer
  · exact httpNormalParse_balanced balanced known buffer

/-- A connection that has no session becomes a device. -/
theorem parseHandshake_balanced (balanced : Balanced s) {c : ConnId} {conn : Conn}
    (found : s.conns c = some conn) (unopened : conn.isOpen → conn.seq = none) (buffer : List Byte)
    (random : Nat) :
    Wp (parseHandshake c conn buffer random) (fun _ t => Balanced t) (fun _ => True) s := by
  rw [parseHandshake]
  simp only [wp_bind, wp_liftJs, implies_true, and_true]
  intro protoHeader _
  rw [wp_ite]
  split
  · trivial
  · simp only [wp_bind, wp_liftJs, wp_emit, wp_get, wp_setConn, wp_setMgr, implies_true, and_true]
    intro o _ username _ host _ port _ _ _ _ _ _ _ reply _
    have noViewer : conn.camSeq = none :=
      balanced.noViewers c (link conn) (by simp only [book, found, Option.map_some])
    have before : ∀ old, (book s).links c = some old → old.isOpen → old.seq = none := by
      intro old known
      have same : some (link conn) = some old := by
        rw [← known]
        simp only [book, found, Option.map_some]
      cases same
      exact unopened
    have device : ∀ conn', conn'.seq = conn.seq → conn'.isOpen = conn.isOpen → conn'.camSeq = none →
        Balanced ((s.write [.sendBytes c reply]).setConn c conn') := by
      intro conn' seq isOpen cam
      rw [Balanced, book_setConn, book_output (by simp)]
      refine Accounted.setLink balanced before (fun open_ => ?_) cam
      exact seq.trans (unopened (isOpen ▸ open_))
    cases known : s.userMap username with
    | some mgr =>
      rw [write_userMap, known, Option.getD_some, Balanced, book_setMgr (by simp [known, UserMgmr.addConnByName])]
      change Accounted ((book _).setTable username mgr.toSessionTable)
      rw [setTable_self (book_tables (by simpa using known))]
      exact device _ rfl rfl noViewer
    | none =>
      rw [write_userMap, known, Option.getD_none, Balanced,
        book_setMgr (by simp [known, UserMgmr.addConnByName, UserMgmr.new])]
      refine Accounted.newTable (device { conn with
        user := username, host := host, port := port, devicename := some (decimal (random + 1)) }
        rfl rfl noViewer) ?_
      change (s.userMap username).map UserMgmr.toSessionTable = none
      rw [known, Option.map_none]

end

/-! The other events. -/

/-- A message that opens a session finds its id free, on a connection that is no device. -/
structure HelloGood (s : ServerState) (c : ConnId) (text : Text) : Prop where
  noViewer : ∀ conn, s.conns c = some conn → conn.url ≠ wscam
  free : ∀ conn username mgr, s.conns c = some conn → conn.sessUsername = some username →
    s.userMap (.str username) = some mgr → conn.sessDevicename ≠ none → conn.seq = none →
    text = "hello".toList → mgr.cnt < userMgrMax →
    conn.user = .undefined ∧ CursorFree mgr.toSessionTable

/-- A web request finds its id free and can be sent to the current device. -/
def RequestGood (s : ServerState) (sid : SessId) (bufs : List (List Byte)) : Prop :=
  ∀ username mgr target, (s.sess sid).username = some username →
    s.userMap (.str username) = some mgr → mgr.getCurrConn = some target → mgr.cnt < userMgrMax →
    CursorFree mgr.toSessionTable ∧ target ≠ .builtin ∧ frameLength bufs < 2 ^ 32

/-- The session's own device is registered, and the frame under way is of the session that
closes, which has the last slot. -/
def CloseAimed (conn : Conn) (mgr : UserMgmr) (seq : Nat) : Prop :=
  (∃ target, closeTarget conn mgr = some (.conn target)) ∧
    CurrentIsLast mgr.toSessionTable mgr.currSeq seq

/-- The open forward of a browser. -/
structure Forward (s : ServerState) (c : ConnId) (conn : Conn) (username : Text) (mgr : UserMgmr)
    (seq : Nat) : Prop where
  found : s.conns c = some conn
  isOpen : conn.isOpen
  session : conn.sessUsername = some username
  known : s.userMap (.str username) = some mgr
  opened : conn.seq = some seq

/-- The condition under which a step keeps the accounts balanced. -/
def Good (s : ServerState) : Event → Prop
  | .utf8 c text => HelloGood s c text
  | .binary c _ _ => ∀ conn, s.conns c = some conn → conn.user = .undefined → conn.seq = none
  | .close c => ∀ conn username mgr seq, Forward s c conn username mgr seq → CloseAimed conn mgr seq
  | .request sid bufs => RequestGood s sid bufs
  | .camsnap sid => RequestGood s sid [encodeUtf8 camsnapRequest]
  | _ => True

section
variable {s t : ServerState}

theorem hello_balanced (balanced : Balanced s) {c : ConnId} {conn : Conn} {username : Text}
    {mgr : UserMgmr} (found : s.conns c = some conn) (isOpen : conn.isOpen)
    (session : conn.sessUsername = some username) (known : s.userMap (.str username) = some mgr)
    (unopened : conn.seq = none) (isBrowser : conn.user = .undefined) (room : mgr.cnt < userMgrMax)
    (free : CursorFree mgr.toSessionTable) : Balanced (helloState s c conn username mgr) := by
  have links : (book s).links c = some (link conn) := by simp only [book, found, Option.map_some]
  rw [Balanced, helloState, book_output (by simp), book_setConn, book_openSeq known]
  exact Accounted.openForward balanced (book_tables known) room free links isOpen session unopened isBrowser

theorem textProcess_balanced (balanced : Balanced s) {c : ConnId} {text : Text}
    (isOpen : ∀ conn, s.conns c = some conn → conn.isOpen) (good : HelloGood s c text)
    (effect : TextEffect s c text t) : Balanced t := by
  cases effect with
  | refused => exact balanced
  | closing =>
    rw [Balanced, book_output (by simp)]
    exact balanced
  | hello found session selected said known unopened room =>
    obtain ⟨isBrowser, free⟩ := good.free _ _ _ found session known (by simp [selected]) unopened said room
    exact hello_balanced balanced found (isOpen _ found) session known unopened isBrowser room free
  | forwarded =>
    rw [Balanced, book_output (by simp)]
    exact balanced

theorem onClose_balanced (balanced : Balanced s) {c : ConnId}
    (isOpen : ∀ conn, s.conns c = some conn → conn.isOpen)
    (good : ∀ conn username mgr seq, Forward s c conn username mgr seq → CloseAimed conn mgr seq)
    (effect : CloseEffect s c t) : Balanced t := by
  have linked : ∀ {conn}, s.conns c = some conn → (book s).links c = some (link conn) := by
    intro conn found
    simp only [book, found, Option.map_some]
  have closed : ∀ {conn}, s.conns c = some conn → conn.seq = none → Balanced (closedState s c conn) := by
    intro conn found unopened
    rw [Balanced, closedState, book_setConn]
    refine Accounted.setLink balanced (fun old known _ => ?_) (fun open_ => nomatch open_)
      (balanced.noViewers c (link conn) (linked found))
    cases (linked found).symm.trans known
    exact unopened
  have unopened : ∀ {conn}, s.conns c = some conn →
      (∀ username mgr seq, Forward s c conn username mgr seq → conn.user ≠ .undefined) →
      conn.seq = none := by
    intro conn found isDevice
    by_contra opened
    obtain ⟨seq, opened⟩ := Option.ne_none_iff_exists'.mp opened
    obtain ⟨isBrowser, username, id, session, ⟨table, known, _⟩, _⟩ :=
      balanced.forwards c _ seq (linked found) (isOpen conn found) opened
    obtain ⟨mgr, known, _⟩ := Option.map_eq_some_iff.mp known
    exact isDevice username mgr seq ⟨found, isOpen conn found, session, known, opened⟩ isBrowser
  cases effect with
  | viewer found index =>
    have none := balanced.noViewers c _ (linked found)
    rw [link, index] at none
    cases none
  | @device conn mgr name found isDevice known named =>
    rw [Balanced, book_setMgr (by simp [known, closedState, UserMgmr.delConnByName])]
    change Accounted ((book _).setTable conn.user mgr.toSessionTable)
    rw [setTable_self (book_tables (by simpa [closedState] using known))]
    exact closed found (unopened found fun _ _ _ _ => isDevice)
  | @plain conn found noTarget =>
    refine closed found (unopened found fun username mgr seq forward isBrowser => ?_)
    obtain ⟨⟨target, registered⟩, _⟩ := good conn username mgr seq forward
    rw [noTarget username mgr seq isBrowser forward.session forward.known forward.opened] at registered
    cases registered
  | @forward _ conn username mgr seq target bufs found isBrowser session known opened registered deleted =>
    obtain ⟨_, o, current, same, _⟩ := good conn username mgr seq ⟨found, isOpen conn found, session, known, opened⟩
    obtain ⟨x, currSeq, leads⟩ := Option.bind_eq_some_iff.mp current
    obtain ⟨t', result, next⟩ := Accounted.closeForward balanced (book_tables known) leads (linked found)
      (isOpen conn found) session (by rw [link, opened, same])
    rw [currSeq, mgrDelSeq_of_ok (by simpa [closedState] using known) result] at deleted
    cases deleted
    rw [Balanced, book_setTable (by simpa [closedState] using known), book_output (by simp),
      closedState, book_setConn]
    exact next

theorem setSess_balanced (balanced : Balanced s) (sid : SessId) (sess : Sess) :
    Wp (setSess sid sess) (fun _ t => Balanced t) (fun _ => True) s := balanced

theorem sendRequest_balanced (balanced : Balanced s) {sid : SessId} {bufs : List (List Byte)}
    (good : RequestGood s sid bufs) :
    Wp (sendRequest sid bufs) (fun _ t => Balanced t) (fun _ => True) s := by
  rw [sendRequest, wp_bind, wp_get]
  split
  · exact balanced
  next username session =>
    split
    · exact setSess_balanced balanced _ _
    next mgr known =>
      split
      · exact balanced
      next target current =>
        rw [wp_bind, wp_mgrNewSeq]
        refine ⟨fun mgr' known' => ?_, fun _ => trivial⟩
        cases known.symm.trans known'
        refine ⟨fun _ => balanced, fun room => ?_⟩
        have sendable := good username mgr target session known current room
        cases target with
        | builtin => exact (sendable.2.1 rfl).elim
        | conn c =>
          have short : cursor mgr.toSessionTable < 65536 := Nat.lt_trans cursor_lt (by decide)
          dsimp only
          rw [createReqBuffers_of_lt (by decide) short sendable.2.2, sendAll, wp_emitAll, Balanced,
            book_outputs (by simp), book_openSeq known]
          exact Accounted.openHttp balanced (book_tables known) room sendable.1

theorem prepareDevice_balanced (balanced : Balanced s) (sid : SessId) (device : Text) :
    Wp (prepareDevice sid device) (fun _ t => Balanced t) (fun _ => True) s := by
  have selected : ∀ {t : ServerState} {user mgr}, t.userMap user = some mgr → Balanced t →
      Balanced (t.setMgr user (mgr.setCurr device)) := by
    intro t user mgr known balanced
    rw [Balanced, book_setMgr (by simp [known, UserMgmr.setCurr])]
    change Accounted ((book t).setTable user mgr.toSessionTable)
    rw [setTable_self (book_tables known)]
    exact balanced
  rw [prepareDevice, wp_bind, wp_get]
  split
  · exact balanced
  next username session =>
    split
    · exact balanced
    next mgr known =>
      split
      · exact balanced
      · split
        · exact balanced
        next target registered =>
          cases target with
          | builtin =>
            rw [wp_ite]
            split
            · trivial
            · exact setSess_balanced (selected known balanced) _ _
          | conn c =>
            simp only [wp_bind, wp_getConn, implies_true, and_true]
            intro conn found
            rw [wp_ite]
            split
            · simp only [wp_bind, wp_setConn, wp_setMgr]
              refine setSess_balanced (selected (by simpa using known) ?_) _ _
              have links : (book s).links c = some (link conn) := by
                simp only [book, found, Option.map_some]
              rw [Balanced, book_setConn]
              change Accounted ((book s).setLink c (link conn))
              rw [setLink_self links]
              exact balanced
            · exact setSess_balanced (selected known balanced) _ _

theorem newConnection_balanced (balanced : Balanced s) {c : ConnId} (new : s.conns c = none)
    (url : Text) (sess : Option Sess) :
    Wp (newConnection c url sess) (fun _ t => Balanced t) (fun _ => True) s := by
  rw [newConnection, wp_setConn, Balanced, book_setConn]
  refine Accounted.setLink balanced (fun old known => ?_) (fun _ => rfl) rfl
  have none : (s.conns c).map link = some old := known
  rw [new] at none
  cases none

/-- A good step keeps the accounts balanced. -/
theorem step_balanced {e : Event} (balanced : Balanced s) (enabled : Enabled s e) (good : Good s e)
    (moved : step s e = some t) : Balanced t := by
  cases e with
  | connect c url sid => exact of_step moved (newConnection_balanced balanced enabled url _)
  | utf8 c text =>
    obtain ⟨conn, found, isOpen⟩ := enabled
    refine textProcess_balanced balanced (c := c) (fun conn' found' => ?_) good
      (of_step moved ((wp_onUtf8_text found (good.noViewer conn found)).mpr (textProcess_effect s c text)))
    cases found.symm.trans found'
    exact isOpen
  | binary c buffer random =>
    obtain ⟨conn, found, isOpen⟩ := enabled
    refine of_step moved ?_
    rw [handle, connectionParse, wp_bind, wp_getConn_of_found found]
    split
    next isNew => exact parseHandshake_balanced balanced found (fun _ => good conn found isNew) buffer random
    next isDevice =>
      cases known : s.userMap conn.user with
      | none =>
        rw [parseNormalMessage, wp_bind, wp_getMgr]
        exact ⟨fun mgr found => (by cases known.symm.trans found), fun _ => trivial⟩
      | some mgr => exact parseNormalMessage_balanced balanced known c buffer
  | close c =>
    obtain ⟨conn, found, isOpen⟩ := enabled
    refine onClose_balanced balanced (fun conn' found' => ?_) good (of_step moved (onClose_effect s c))
    cases found.symm.trans found'
    exact isOpen
  | login sid username =>
    refine of_step moved ?_
    rw [handle, login, wp_bind, wp_get, wp_ite]
    split
    · exact setSess_balanced balanced _ _
    · exact balanced
  | logout sid => exact of_step moved (setSess_balanced balanced sid _)
  | prepareDevice sid device => exact of_step moved (prepareDevice_balanced balanced sid device)
  | request sid bufs => exact of_step moved (sendRequest_balanced balanced good)
  | camsnap sid => exact of_step moved (sendRequest_balanced balanced good)
  | timeout user hostUrl =>
    obtain ⟨mgr, cam, known, found, _⟩ := enabled
    have none := balanced.noCams user
    simp only [book, known, Option.elim_some, List.map_eq_nil_iff] at none
    rw [none] at found
    cases found

end

theorem balanced_init : Balanced .init where
  tables _ _ known := nomatch known
  serves _ _ session := by
    obtain ⟨_, known, _⟩ := session
    cases known
  forwards _ _ _ found := nomatch found
  requests _ _ _ unanswered := nomatch unanswered.1
  unused _ _ := ⟨rfl, List.not_mem_nil⟩
  noCams _ := rfl
  noViewers _ _ found := nomatch found

/-- In every run whose steps meet the condition the accounts balance. -/
theorem balanced_of_reach {s : ServerState}
    (reached : Reach step (fun s e => Enabled s e ∧ Good s e) Starts s) : Balanced s :=
  reached.invariant (fun _ start => start ▸ balanced_init)
    (fun _ _ _ balanced good moved => step_balanced balanced good.1 good.2 moved)

end WebTunnel.Server.Accounting
