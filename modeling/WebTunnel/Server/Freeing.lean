import WebTunnel.Server.Accounting

/-! Closing a browser session frees exactly that session or leaks it: what one close event
does in a state whose accounts balance, and what the live count of a user is over a run. -/

namespace WebTunnel.Server.Freeing
open Library.Bytes Library.JavaScript Library.Json Library.Program Library.Run Library.Slots Sessions
open Wire Server.Types Framing Events Closing Accounts Accounting

/-- Afterwards session `seq` is not found, one session fewer is counted, and every other
session is found under its own id. -/
def ClosesExactly (s : ServerState) (c : ConnId) (username : Text) (mgr : UserMgmr) (seq : Nat) : Prop :=
  ∃ t mgr', step s (.close c) = some t ∧ t.userMap (.str username) = some mgr' ∧
    Frees mgr.toSessionTable mgr'.toSessionTable seq

def openForwards (s : ServerState) (username : Text) : Set ConnId :=
  {c | ∃ conn, s.conns c = some conn ∧ conn.isOpen ∧ conn.sessUsername = some username ∧
    conn.seq ≠ none}

def unanswered (s : ServerState) (username : Text) : Set ProcId :=
  {id | ∃ p, s.procs id = some (.http p) ∧ p.username = username ∧ .resEnd id ∉ s.out}

section
variable {s : ServerState} {c : ConnId} {conn : Conn} {username : Text} {mgr : UserMgmr} {seq : Nat}

theorem wp_onClose_forward (forward : Forward s c conn username mgr seq)
    (isBrowser : conn.user = .undefined) (noViewer : conn.camSeq = none)
    {post : Unit → ServerState → Prop} {err : JsError → Prop} :
    Wp (onClose c) post err s ↔
      Wp (closeForward (.str username) conn seq) post err (closedState s c conn) := by
  rw [onClose, wp_bind, wp_getConn_of_found forward.found]
  simp only [wp_bind, wp_setConn, wp_get, noViewer, isBrowser, ne_eq, not_true_eq_false, if_false,
    forward.session, setConn_userMap, forward.known, forward.opened, closedState]

/-- The frame that tells the device to close forward `seq`. -/
def closeFrame (seq : Nat) : List Byte :=
  headerBytes 0x10 seq 24 ++ [bytesBE 2 seq ++ bytesBE 2 23 ++ bytesBE 4 1].flatten

theorem wp_closeForward {u : ServerState} {target : Found} (known : u.userMap (.str username) = some mgr)
    (registered : closeTarget conn mgr = some target) (short : seq < 65536)
    {post : Unit → ServerState → Prop} {err : JsError → Prop} :
    Wp (closeForward (.str username) conn seq) post err u ↔
      Wp (do sendBytes target (closeFrame seq); mgrDelSeq (.str username) mgr.currSeq) post err u := by
  have id : writeUInt16BE (some seq) = .ok (bytesBE 2 seq) := writeUIntBE_of_lt short
  have size : frameLength [bytesBE 2 seq ++ bytesBE 2 23 ++ bytesBE 4 1] = 24 := by
    simp [frameLength, protocolHeaderLen]
  have built : createReq [bytesBE 2 seq ++ bytesBE 2 23 ++ bytesBE 4 1] 0x10 seq = _ :=
    createReq_of_lt (by decide) short (by rw [size]; decide)
  rw [size] at built
  rw [closeForward, wp_bind, wp_getMgr_of_known known, registered]
  rw [wp_bind, wp_liftJs_of_ok id, wp_bind, wp_liftJs_of_ok built]
  rfl

theorem balanced_browser (balanced : Balanced s) (forward : Forward s c conn username mgr seq) :
    conn.user = .undefined ∧ conn.camSeq = none ∧ ∃ id, Live mgr.toSessionTable ⟨id, seq⟩ := by
  have links : (book s).links c = some (link conn) := by simp only [book, forward.found, Option.map_some]
  obtain ⟨isBrowser, username', id, session, ⟨t, known, live⟩, _⟩ :=
    balanced.forwards c _ seq links forward.isOpen forward.opened
  cases forward.session.symm.trans session
  cases (book_tables forward.known).symm.trans known
  exact ⟨isBrowser, balanced.noViewers c _ links, id, live⟩

/-- Closing towards a registered device deletes the id of the frame under way. -/
theorem onClose_deletes (forward : Forward s c conn username mgr seq)
    (isBrowser : conn.user = .undefined) (noViewer : conn.camSeq = none) {device : ConnId}
    (registered : closeTarget conn mgr = some (.conn device)) (short : seq < 65536) :
    Wp (onClose c)
      (fun _ t => ∃ mgr', t.userMap (.str username) = some mgr' ∧
        deleteCurrent mgr.toSessionTable mgr.currSeq = .ok mgr'.toSessionTable)
      (fun _ => ∃ e, deleteCurrent mgr.toSessionTable mgr.currSeq = .error e) s := by
  have known : ((closedState s c conn).write [.sendBytes device (closeFrame seq)]).userMap
      (.str username) = some mgr := forward.known
  rw [wp_onClose_forward forward isBrowser noViewer,
    wp_closeForward (u := closedState s c conn) forward.known registered short, wp_bind, wp_sendBytes]
  refine ⟨fun target same => ?_, fun absent => (nomatch absent)⟩
  cases same
  rw [wp_mgrDelSeq]
  constructor
  · intro idle
    rw [idle]
    exact ⟨mgr, known, rfl⟩
  · intro id current
    rw [current, deleteCurrent]
    refine ⟨fun mgr' known' => ?_, fun unknown => ?_⟩
    · cases known.symm.trans known'
      refine ⟨fun obj table deleted => ?_, fun e failed => ?_⟩
      · exact ⟨mgr.setTable table, setMgr_userMap_self _ _ _, by rw [deleted]; rfl⟩
      · exact ⟨e, by rw [failed]; rfl⟩
    · rw [known] at unknown
      cases unknown

theorem balanced_count (balanced : Balanced s) (known : s.userMap (.str username) = some mgr) :
    mgr.cnt = (openForwards s username).ncard + (unanswered s username).ncard := by
  have forwards : {c | ∃ seq, OpenForward (book s) username c seq} = openForwards s username := by
    ext c
    constructor
    · rintro ⟨seq, _, linked, isOpen, session, opened⟩
      obtain ⟨conn, found, rfl⟩ := Option.map_eq_some_iff.mp linked
      exact ⟨conn, found, isOpen, session, by rw [show conn.seq = some seq from opened]; simp⟩
    · rintro ⟨conn, found, isOpen, session, opened⟩
      obtain ⟨seq, opened⟩ := Option.ne_none_iff_exists'.mp opened
      exact ⟨seq, link conn, by simp only [book, found, Option.map_some], isOpen, session, opened⟩
  have requests : {id | ∃ seq, Unanswered (book s) username id seq} = unanswered s username := by
    ext id
    constructor
    · rintro ⟨seq, isHttp, waiting⟩
      obtain ⟨p, found, same⟩ := Option.map_eq_some_iff.mp isHttp
      cases p with
      | http p =>
        cases same
        exact ⟨p, found, rfl, waiting⟩
      | forward | webcam => cases same
    · rintro ⟨p, found, rfl, waiting⟩
      exact ⟨p.seq, by simp only [book, found, Option.map_some, purpose], waiting⟩
  rw [← forwards, ← requests]
  exact Accounted.count balanced (book_tables known)

/-- Closing a browser session frees exactly that session when the close is aimed at it. -/
theorem closesExactly_iff (balanced : Balanced s) (forward : Forward s c conn username mgr seq) :
    ClosesExactly s c username mgr seq ↔ CloseAimed conn mgr seq := by
  obtain ⟨isBrowser, noViewer, id, live⟩ := balanced_browser balanced forward
  obtain ⟨objs, rep⟩ := balanced.tables _ _ (book_tables forward.known)
  have known : (closedState s c conn).userMap (.str username) = some mgr := forward.known
  have short : seq < 65536 := by
    have inTable := rep.seq_lt (rep.live_iff.mp live)
    have bounded := rep.bounded
    rw [rep.parallel] at bounded
    exact Nat.lt_trans (Nat.lt_of_lt_of_le inTable bounded) (by decide)
  cases registered : closeTarget conn mgr with
  | none =>
    have wp : Wp (onClose c) (fun _ t => t = closedState s c conn) (fun _ => True) s := by
      rw [wp_onClose_forward forward isBrowser noViewer, closeForward, wp_bind,
        wp_getMgr_of_known known, registered]
      exact wp_pure .. |>.mpr rfl
    refine iff_of_false ?_ ?_
    · rintro ⟨t, mgr', moved, known', frees⟩
      have same := of_step (P := (· = closedState s c conn)) (e := .close c) moved wp
      rw [same, known] at known'
      cases known'
      have count := frees.count
      omega
    · rintro ⟨⟨target, found⟩, _⟩
      rw [registered] at found
      cases found
  | some target =>
    cases target with
    | builtin =>
      have wp : Wp (onClose c) (fun _ _ => False) (fun _ => True) s := by
        rw [wp_onClose_forward forward isBrowser noViewer, wp_closeForward known registered short,
          wp_bind, wp_sendBytes]
        exact ⟨fun _ absent => (by cases absent), fun _ => trivial⟩
      refine iff_of_false ?_ ?_
      · rintro ⟨t, _, moved, _⟩
        exact of_step (P := fun _ => False) (e := .close c) moved wp
      · rintro ⟨⟨target, found⟩, _⟩
        rw [registered] at found
        cases found
    | conn device =>
      have wp := onClose_deletes forward isBrowser noViewer registered short
      constructor
      · rintro ⟨t, mgr', moved, known', frees⟩
        have anyError := wp_mono wp (fun _ _ holds => holds) (fun _ _ => trivial)
        obtain ⟨mgr'', known'', deleted⟩ := of_step (e := .close c) moved anyError
        cases known'.symm.trans known''
        exact ⟨⟨device, registered⟩, (frees_iff rep (rep.live_iff.mp live) rfl deleted).mp frees⟩
      · rintro ⟨_, last⟩
        obtain ⟨table, deleted⟩ : ∃ table, deleteCurrent mgr.toSessionTable mgr.currSeq = .ok table := by
          obtain ⟨o, current, _⟩ := last
          obtain ⟨x, currSeq, leads⟩ := Option.bind_eq_some_iff.mp current
          obtain ⟨table, result, _⟩ := rep.delSeq_live leads
          exact ⟨table, by rw [currSeq, deleteCurrent, result]; rfl⟩
        have noError : Wp (onClose c) _ (fun _ => False) s := wp_mono wp (fun _ _ holds => holds) fun e failed => by
          rw [deleted] at failed
          obtain ⟨_, failed⟩ := failed
          cases failed
        obtain ⟨t, moved, mgr', known', result⟩ := step_of_wp (e := .close c) noError
        cases deleted.symm.trans result
        exact ⟨t, mgr', moved, known', (frees_iff rep (rep.live_iff.mp live) rfl deleted).mpr last⟩

/-- In a run whose steps meet the condition, the live count of a user is the number of open
forwards plus the number of unanswered requests, ids are refused only when these fill the
table, and closing a browser's forward frees exactly its session if and only if the close
is aimed at it. -/
theorem closing_frees (reached : Reach step (fun s e => Enabled s e ∧ Good s e) Starts s)
    (known : s.userMap (.str username) = some mgr) :
    mgr.cnt = (openForwards s username).ncard + (unanswered s username).ncard ∧
      (∀ construct, (newSeq mgr.toSessionTable construct).1 = none ↔
        userMgrMax ≤ (openForwards s username).ncard + (unanswered s username).ncard) ∧
      ∀ c conn seq, Forward s c conn username mgr seq →
        (ClosesExactly s c username mgr seq ↔ CloseAimed conn mgr seq) := by
  have balanced := balanced_of_reach reached
  have count := balanced_count balanced known
  refine ⟨count, fun construct => ?_, fun c conn seq forward => closesExactly_iff balanced forward⟩
  rw [← count]
  constructor
  · intro refused
    by_contra room
    rw [newSeq_fst _ (Nat.lt_of_not_le room)] at refused
    cases refused
  · intro full
    rw [newSeq_full _ full]

end

/-! A user with one device and one browser, whose forward is open. -/

def user : Text := "u".toList

def oneForward : List Event :=
  [.connect 0 [] none, .binary 0 (handshakeOf user) 0, .login 0 user, .prepareDevice 0 "1".toList,
    .connect 1 [] (some 0), .utf8 1 "hello".toList]

/-- The device has sent the header of a frame for the forward, and not yet its payload. -/
def frameUnderWay : List Event := oneForward ++ [.binary 0 (headerBytes 0x12 0 100) 0]

/-- A test that implies the condition, for runs in which a browser opens the first session. -/
def opensFirst : Test Good where
  passes
    | s, .utf8 c _ => (s.conns c).all fun conn =>
      decide (conn.url ≠ wscam) && decide (conn.user = .undefined) &&
        (conn.sessUsername.bind fun username => s.userMap (.str username)).all fun mgr =>
          mgr.index2obj.isEmpty
    | s, .binary c _ _ => (s.conns c).all fun conn => conn.seq.isNone || decide (conn.user ≠ .undefined)
    | _, .close _ | _, .request _ _ | _, .camsnap _ => false
    | _, _ => true
  sound s e passes := by
    cases e with
    | utf8 c text =>
      simp only [Option.all_eq_true, Bool.and_eq_true, decide_eq_true_eq] at passes
      refine ⟨fun conn found => (passes conn found).1.1, ?_⟩
      intro conn username mgr found session known _ _ _ _
      obtain ⟨⟨_, isBrowser⟩, empty⟩ := passes conn found
      refine ⟨isBrowser, fun o live => ?_⟩
      have none := empty mgr (by rw [session]; exact known)
      obtain ⟨i, at_⟩ := live
      rw [List.isEmpty_iff.mp none] at at_
      cases at_
    | binary c =>
      simp only [Option.all_eq_true, Bool.or_eq_true, Option.isNone_iff_eq_none, decide_eq_true_eq] at passes
      exact fun conn found isNew => (passes conn found).resolve_right fun old => old isNew
    | close | request | camsnap => cases passes
    | connect | login | logout | prepareDevice | timeout => trivial

def runGood (events : List Event) : Option ServerState :=
  ((Test.decided Enabled).both opensFirst).run step .init events

theorem reach_of_runGood {events : List Event} {s : ServerState} (ran : runGood events = some s) :
    Reach step (fun s e => Enabled s e ∧ Good s e) Starts s := Test.reach rfl ran

/-- The forward of browser 1 is open, and the parser of its user is in the given state. -/
def forwardOpen (currSeq : Option Nat) (s : ServerState) : Bool :=
  decide ((s.conns 1).map (fun conn => (conn.isOpen, conn.sessUsername, conn.sessDevicename, conn.seq)) =
    some (true, some user, some "1".toList, some 0)) &&
  decide ((s.userMap (.str user)).map (fun mgr => (mgr.getConnByName "1".toList, mgr.currSeq,
    mgr.toSessionTable)) = some (some (.conn 0), currSeq, ⟨1, [some ⟨0, 0⟩], [some 0], 1⟩))

theorem frameUnderWay_open : (runGood frameUnderWay).map (forwardOpen (some 0)) = some true := by
  decide +kernel

theorem oneForward_open : (runGood oneForward).map (forwardOpen none) = some true := by
  decide +kernel

theorem forward_of_open {s : ServerState} {currSeq : Option Nat} (isOpen : forwardOpen currSeq s = true) :
    ∃ conn mgr, Forward s 1 conn user mgr 0 ∧ closeTarget conn mgr = some (.conn 0) ∧
      mgr.currSeq = currSeq ∧ mgr.toSessionTable = ⟨1, [some ⟨0, 0⟩], [some 0], 1⟩ := by
  simp only [forwardOpen, Bool.and_eq_true, decide_eq_true_eq, Option.map_eq_some_iff,
    Prod.mk.injEq] at isOpen
  obtain ⟨⟨conn, found, isOpen, session, selected, opened⟩, mgr, known, registered, current, table⟩ := isOpen
  refine ⟨conn, mgr, ⟨found, isOpen, session, known, opened⟩, ?_, current, table⟩
  rw [closeTarget, selected]
  exact registered

/-- With the first frame for it under way, closing the only forward frees its session. -/
theorem closing_frees_underWay : ∃ s mgr, s.userMap (.str user) = some mgr ∧
    mgr.cnt = (openForwards s user).ncard + (unanswered s user).ncard ∧
    ClosesExactly s 1 user mgr 0 := by
  obtain ⟨s, ran, isOpen⟩ := Option.map_eq_some_iff.mp frameUnderWay_open
  obtain ⟨conn, mgr, forward, registered, current, table⟩ := forward_of_open isOpen
  obtain ⟨count, _, closes⟩ := closing_frees (reach_of_runGood ran) forward.known
  refine ⟨s, mgr, forward.known, count, (closes 1 conn 0 forward).mpr ⟨⟨0, registered⟩, ?_⟩⟩
  rw [current, table]
  exact ⟨⟨0, 0⟩, rfl, rfl, rfl⟩

/-- Closing it while no frame is under way leaves its session in the table. -/
theorem closing_leaks : ¬ ∀ s, Reach step Enabled Starts s → ∀ c conn username mgr seq,
    Forward s c conn username mgr seq → ClosesExactly s c username mgr seq := by
  intro always
  obtain ⟨s, ran, isOpen⟩ := Option.map_eq_some_iff.mp oneForward_open
  obtain ⟨conn, mgr, forward, _, idle, _⟩ := forward_of_open isOpen
  have reached := reach_of_runGood ran
  have closes := always s (reached.mono fun _ _ good => good.1) 1 conn user mgr 0 forward
  obtain ⟨_, o, current, _⟩ := (closesExactly_iff (balanced_of_reach reached) forward).mp closes
  rw [idle] at current
  cases current

end WebTunnel.Server.Freeing
