import WebTunnel.Server.Moves

/-! What the server extracts from each device connection, beside what it would extract from
that connection's messages alone. Alone, a connection has a parser of its own, idle when its
handshake completes; the sessions are the server's. -/

namespace WebTunnel.Server.Isolation
open Library.Bytes Library.JavaScript Library.Json Library.Program Library.Run Library.Slots Sessions
open Wire Server.Types Processors Framing Events Moves

/-- Bytes handed to a processor, and requests for the configuration. -/
def extracted : Output → Bool
  | .processBuffer _ _ _ _ | .readConfig _ _ => true
  | _ => false

def extracts (s t : ServerState) : List Output := (sentSince s t).filter extracted

def idleParser : FrameParser := ⟨none, 0, some [], 0⟩

/-- No frame is under way and no byte of a header was collected. -/
def Idle (p : FrameParser) : Prop := p.currSeq = none ∧ (p.tmpBufs.getD []).flatten = []

instance (p : FrameParser) : Decidable (Idle p) := inferInstanceAs (Decidable (_ ∧ _))

/-- The server in which the user's parser is `p`. -/
def withParser (s : ServerState) (user : JsVal) (p : FrameParser) : ServerState :=
  match s.userMap user with
  | some mgr => s.setMgr user (mgr.setParser p)
  | none => s

def parserOf (s : ServerState) (user : JsVal) : FrameParser :=
  match s.userMap user with
  | some mgr => mgr.toFrameParser
  | none => idleParser

/-- The server, with every connection's parser alone, what was extracted from each
connection by the server and alone, and whose message left a user's parser in the middle. -/
structure Watch where
  server : ServerState
  alone : ConnId → FrameParser
  shared : ConnId → List Output
  own : ConnId → Option (List Output)
  holder : JsVal → Option ConnId

def Watch.init : Watch := ⟨.init, fun _ => idleParser, fun _ => [], fun _ => some [], fun _ => none⟩

/-- The connection alone takes the message with its own parser; an exception ends it. -/
def Watch.takeAlone (w : Watch) (c : ConnId) (user : JsVal) (buffer : List Byte) :
    FrameParser × Option (List Output) :=
  let s := withParser w.server user (w.alone c)
  match parseNormalMessage user c buffer s with
  | .ok (_, t) => (parserOf t user, (w.own c).map (· ++ extracts s t))
  | .error _ => (w.alone c, none)

/-- The user's device `c` sent a message that led to `t`. -/
def Watch.take (w : Watch) (c : ConnId) (user : JsVal) (buffer : List Byte) (t : ServerState) : Watch :=
  let (parser, outputs) := w.takeAlone c user buffer
  { server := t
    alone := fun key => if key = c then parser else w.alone key
    shared := fun key => if key = c then w.shared c ++ extracts w.server t else w.shared key
    own := fun key => if key = c then outputs else w.own key
    holder := fun key =>
      if key = user then (if Idle (parserOf t user) then none else some c) else w.holder key }

def Watch.after (w : Watch) (t : ServerState) : Event → Watch
  | .binary c buffer _ =>
    match w.server.conns c with
    | some conn => if conn.user = .undefined then { w with server := t } else w.take c conn.user buffer t
    | none => { w with server := t }
  | _ => { w with server := t }

def Watch.step (w : Watch) (e : Event) : Option Watch :=
  (Events.step w.server e).map fun t => w.after t e

/-- A device's message finds the user's parser idle, or in the middle of what this connection
sent itself. -/
def Bracketed (w : Watch) : Event → Prop
  | .binary c _ _ => ∀ conn, w.server.conns c = some conn → conn.user ≠ .undefined →
      Idle (parserOf w.server conn.user) ∨ w.holder conn.user = some c
  | _ => True

/-- Parsers that take every message alike: equal, or both between frames with the same
bytes of a header collected. -/
inductive Alike (p q : FrameParser) : Prop where
  | same (equal : p = q)
  | between (left : p.currSeq = none) (right : q.currSeq = none)
      (bytes : (p.tmpBufs.getD []).flatten = (q.tmpBufs.getD []).flatten)

section
variable {s t : ServerState} {user : JsVal} {mgr : UserMgmr} {p q : FrameParser}

theorem parserOf_setMgr (s : ServerState) (user : JsVal) (mgr : UserMgmr) :
    parserOf (s.setMgr user mgr) user = mgr.toFrameParser := by
  rw [parserOf, setMgr_userMap_self]

theorem parserOf_write (outputs : List Output) : parserOf (s.write outputs) user = parserOf s user := rfl

theorem withParser_known (known : s.userMap user = some mgr) (p : FrameParser) :
    withParser s user p = s.setMgr user (mgr.setParser p) := by
  rw [withParser, known]

theorem parserOf_known (known : s.userMap user = some mgr) : parserOf s user = mgr.toFrameParser := by
  rw [parserOf, known]

/-- Results with the same outputs and parsers that are alike. -/
def Agree (user : JsVal) (t t' : ServerState) : Prop :=
  t'.out = t.out ∧ Alike (parserOf t user) (parserOf t' user)

/-- In one state the code agrees with itself. -/
theorem agree_self (code : Js Unit) (u : ServerState) :
    Wp code (fun _ t => Wp code (fun _ t' => Agree user t t') (fun _ => False) u) (fun _ => True) u := by
  rw [wp_iff]
  refine ⟨fun a t ran => ?_, fun _ _ => trivial⟩
  rw [wp_total]
  exact ⟨a, t, ran, rfl, .same rfl⟩

theorem parseFirstMessage_agree (s : ServerState) (user : JsVal) (mgr : UserMgmr) (left : p.currSeq = none) (right : q.currSeq = none) (c : ConnId)
    (buffer : List Byte) :
    Wp (parseFirstMessage user c buffer)
      (fun _ t => Wp (parseFirstMessage user c buffer) (fun _ t' => Agree user t t') (fun _ => False)
        (s.setMgr user (mgr.setParser q)))
      (fun _ => True) (s.setMgr user (mgr.setParser p)) := by
  have known : ∀ r, (s.setMgr user (mgr.setParser r)).userMap user = some (mgr.setParser r) :=
    fun r => setMgr_userMap_self _ _ _
  rw [wp_parseFirstMessage (known p)]
  refine ⟨fun _ _ => trivial, fun protoHeader read => ?_⟩
  have once : ∀ post, (if headerBad protoHeader then post () ((s.setMgr user (mgr.setParser q)).setMgr
        user (mgr.setParser (dropCollected q)))
      else if protoHeader.type = 0x5 then Wp (parseTunnelReq c buffer protoHeader) post (fun _ => False)
        ((s.setMgr user (mgr.setParser q)).setMgr user (mgr.setParser (dropCollected q)))
      else Wp (afterHeader user buffer) post (fun _ => False)
        ((s.setMgr user (mgr.setParser q)).setMgr user (mgr.setParser (beginFrame protoHeader)))) →
      Wp (parseFirstMessage user c buffer) post (fun _ => False) (s.setMgr user (mgr.setParser q)) := by
    intro post holds
    rw [wp_parseFirstMessage (known q), read]
    refine ⟨fun _ failed => (nomatch failed), fun _ same => ?_⟩
    cases same
    exact holds
  have between : Alike (dropCollected p) (dropCollected q) := .between left right rfl
  simp only [setMgr_setMgr] at once ⊢
  by_cases bad : headerBad protoHeader
  · simp only [if_pos bad] at once ⊢
    exact once _ ⟨rfl, by rw [parserOf_setMgr, parserOf_setMgr]; exact between⟩
  by_cases isTunnelReq : protoHeader.type = 0x5
  · simp only [if_neg bad, if_pos isTunnelReq, parseTunnelReq, wp_bind, wp_liftJs, wp_emit] at once ⊢
    refine ⟨fun auth found => once _ ⟨fun _ _ => ⟨rfl, ?_⟩, fun _ failed => ?_⟩, fun _ _ => trivial⟩
    · rw [parserOf_write, parserOf_write, parserOf_setMgr, parserOf_setMgr]
      exact between
    · rw [found] at failed
      cases failed
  · simp only [if_neg bad, if_neg isTunnelReq] at once ⊢
    exact wp_post (agree_self _ _) fun _ _ again => once _ again

/-- Alike parsers take a message alike, where the second one's bytes were initialised. -/
theorem parseNormalMessage_agree (s : ServerState) (user : JsVal) (mgr : UserMgmr) (alike : Alike p q) (counted : Orderly p) (counted' : Orderly q)
    (initialised : q.tmpBufs.isSome) (c : ConnId) (buffer : List Byte) :
    Wp (parseNormalMessage user c buffer)
      (fun _ t => Wp (parseNormalMessage user c buffer) (fun _ t' => Agree user t t') (fun _ => False)
        (s.setMgr user (mgr.setParser q)))
      (fun _ => True) (s.setMgr user (mgr.setParser p)) := by
  cases alike with
  | same equal => exact equal ▸ agree_self _ _
  | between left right bytes =>
    have known : ∀ r, (s.setMgr user (mgr.setParser r)).userMap user = some (mgr.setParser r) :=
      fun r => setMgr_userMap_self _ _ _
    obtain ⟨bufs', collected'⟩ := Option.isSome_iff_exists.mp initialised
    rw [wp_parseNormalMessage_idle (known p) left]
    by_cases short : buffer.length < protocolHeaderLen
    · rw [if_pos short]
      refine ⟨fun bufs collected => ?_, fun _ => trivial⟩
      have same : bufs.flatten = bufs'.flatten := by
        rw [show p.tmpBufs = some bufs from collected, collected'] at bytes
        exact bytes
      have size : (mgr.setParser p).tmpBufsLen = (mgr.setParser q).tmpBufsLen := by
        rw [parser_setParser, parser_setParser, counted.counted bufs collected,
          counted'.counted bufs' collected', same]
      have all : (bufs ++ [buffer]).flatten = (bufs' ++ [buffer]).flatten := by
        rw [List.flatten_append, List.flatten_append, same]
      have twice : ∀ post, (if protocolHeaderLen ≤ (mgr.setParser q).tmpBufsLen + buffer.length then
            Wp (parseFirstMessage user c (bufs' ++ [buffer]).flatten) post (fun _ => False)
              (s.setMgr user (mgr.setParser (collect q bufs' buffer)))
          else post () (s.setMgr user (mgr.setParser (collect q bufs' buffer)))) →
          Wp (parseNormalMessage user c buffer) post (fun _ => False)
            (s.setMgr user (mgr.setParser q)) := by
        intro post holds
        rw [wp_parseNormalMessage_idle (known q) right, if_pos short]
        refine ⟨fun bufs found => ?_, fun none => ?_⟩
        · cases collected'.symm.trans found
          rw [setMgr_setMgr]
          exact holds
        · cases collected'.symm.trans none
      rw [setMgr_setMgr]
      by_cases whole : protocolHeaderLen ≤ (mgr.setParser q).tmpBufsLen + buffer.length
      · have agree := parseFirstMessage_agree s user mgr
          (show (collect p bufs buffer).currSeq = none from left)
          (show (collect q bufs' buffer).currSeq = none from right) c (bufs' ++ [buffer]).flatten
        rw [size, if_pos whole, all, setParser_setParser, parser_setParser]
        simp only [if_pos whole] at twice
        exact wp_post agree fun _ t again => twice _ again
      · rw [size, if_neg whole]
        simp only [if_neg whole] at twice
        refine twice _ ⟨rfl, ?_⟩
        rw [parserOf_setMgr, parserOf_setMgr]
        exact .between left right all
    · rw [if_neg short]
      refine wp_post (parseFirstMessage_agree s user mgr left right c buffer) fun _ t again => ?_
      rwa [wp_parseNormalMessage_idle (known q) right, if_neg short]

end

/-! The invariant of a watched run. -/

structure Kept (w : Watch) : Prop where
  stocked : Stocked w.server
  named : Named w.server
  alone : ∀ c, Orderly (w.alone c) ∧ (w.alone c).tmpBufs.isSome
  held : ∀ user c, w.holder user = some c → user ≠ .undefined ∧
    (∃ conn, w.server.conns c = some conn ∧ conn.user = user) ∧
    Alike (parserOf w.server user) (w.alone c)
  free : ∀ user, w.holder user = none → Idle (parserOf w.server user)
  quiet : ∀ c, (∀ user, w.holder user ≠ some c) → Idle (w.alone c)
  traces : ∀ c, w.own c = some (w.shared c)

section
variable {w w' : Watch} {t : ServerState} {active : JsVal → Prop} {talks : Prop}

theorem idle_idleParser : Idle idleParser := ⟨rfl, rfl⟩

theorem kept_init : Kept .init where
  stocked := stocked_init
  named := ⟨fun _ _ found => (nomatch found), fun _ _ _ found => (nomatch found)⟩
  alone _ := ⟨orderly_empty _ _, rfl⟩
  held _ _ held := nomatch held
  free _ _ := idle_idleParser
  quiet _ _ := idle_idleParser
  traces _ := rfl

theorem Alike.idle {p q : FrameParser} (alike : Alike p q) : Idle p ↔ Idle q := by
  cases alike with
  | same equal => rw [equal]
  | between left right bytes => rw [Idle, Idle, left, right, bytes]

theorem alike_of_idle {p q : FrameParser} (left : Idle p) (right : Idle q) : Alike p q :=
  .between left.1 right.1 (left.2.trans right.2.symm)

/-- The parser of an inactive user does not move, and a new user's parser is idle. -/
theorem idle_kept {s : ServerState} {user : JsVal} (inactive : ¬ active user) (path : Path active talks s t)
    (idle : Idle (parserOf s user)) : Idle (parserOf t user) := by
  induction path with
  | refl => exact idle
  | @tail u v _ move ih =>
    cases known : u.userMap user with
    | some mgr =>
      obtain ⟨mgr', known', same⟩ := move.parser_kept inactive ⟨mgr, known, rfl⟩
      rwa [parserOf_known known', same, ← parserOf_known known]
    | none =>
      cases known' : v.userMap user with
      | none => rw [parserOf, known']; exact idle_idleParser
      | some mgr =>
        rw [parserOf_known known', move.newcomer known known']
        exact ⟨rfl, rfl⟩

theorem parserOf_kept {s : ServerState} {user : JsVal} (path : Path active talks s t)
    (inactive : ¬ active user) (known : (s.userMap user).isSome) : parserOf t user = parserOf s user := by
  obtain ⟨mgr, known⟩ := Option.isSome_iff_exists.mp known
  obtain ⟨mgr', known', same⟩ := path.parser_kept inactive ⟨mgr, known, rfl⟩
  rw [parserOf_known known', parserOf_known known, same]

/-- Events other than a device's message move no parser. -/
theorem kept_other (kept : Kept w) (path : Path (fun _ => False) True w.server t) :
    Kept { w with server := t } where
  stocked := path.stocked kept.stocked
  named := path.named kept.named
  alone := kept.alone
  held user c held := by
    obtain ⟨isDevice, has, alike⟩ := kept.held user c held
    refine ⟨isDevice, path.device_kept isDevice has, ?_⟩
    obtain ⟨conn, found, rfl⟩ := has
    rwa [parserOf_kept path id (kept.named.known c conn found isDevice)]
  free user free := idle_kept id path (kept.free user free)
  quiet := kept.quiet
  traces := kept.traces

theorem alike_of_bracketed (kept : Kept w) {c : ConnId} {conn : Conn}
    (found : w.server.conns c = some conn)
    (bracketed : Idle (parserOf w.server conn.user) ∨ w.holder conn.user = some c) :
    Alike (parserOf w.server conn.user) (w.alone c) := by
  by_cases held : w.holder conn.user = some c
  · exact (kept.held _ _ held).2.2
  · have idle := bracketed.resolve_right held
    refine alike_of_idle idle (kept.quiet c fun user heldBy => ?_)
    obtain ⟨_, ⟨conn', found', rfl⟩, _⟩ := kept.held user c heldBy
    cases found.symm.trans found'
    exact held heldBy

/-- Alone, a device's message has the same outcome, and leaves a parser alike. -/
theorem takeAlone_agree (kept : Kept w) {c : ConnId} {conn : Conn} (buffer : List Byte)
    (found : w.server.conns c = some conn) (isDevice : conn.user ≠ .undefined)
    (bracketed : Idle (parserOf w.server conn.user) ∨ w.holder conn.user = some c)
    (moved : parseNormalMessage conn.user c buffer w.server = .ok ((), t)) :
    ∃ p, w.takeAlone c conn.user buffer = (p, some (w.shared c ++ extracts w.server t)) ∧
      Alike (parserOf t conn.user) p ∧ Orderly p ∧ p.tmpBufs.isSome := by
  obtain ⟨mgr, known⟩ := Option.isSome_iff_exists.mp (kept.named.known c conn found isDevice)
  obtain ⟨orderly, initialised⟩ := kept.alone c
  have alike := alike_of_bracketed kept found bracketed
  rw [parserOf_known known] at alike
  have agree := parseNormalMessage_agree w.server conn.user mgr alike
    (kept.stocked.orderly _ _ known) orderly initialised c buffer
  have self : w.server.setMgr conn.user (mgr.setParser mgr.toFrameParser) = w.server :=
    setMgr_self _ _ mgr known
  rw [self] at agree
  have again := (wp_iff.mp agree).1 () t moved
  obtain ⟨_, t', ran, outputs, alike'⟩ := wp_total.mp again
  have began : Move (· = conn.user) True w.server (w.server.setMgr conn.user (mgr.setParser (w.alone c))) :=
    .parser known rfl orderly fun _ => initialised
  have path := wp_of_run ran (parseNormalMessage_steady (began.stocked kept.stocked) c buffer).wp
  obtain ⟨mgr', known', initialised'⟩ :=
    path.initialised ⟨_, setMgr_userMap_self _ _ _, initialised⟩
  refine ⟨parserOf t' conn.user, ?_, alike', ?_, ?_⟩
  · have same : extracts (w.server.setMgr conn.user (mgr.setParser (w.alone c))) t' = extracts w.server t := by
      rw [extracts, extracts, sentSince, sentSince, outputs, setMgr_out]
    rw [Watch.takeAlone, withParser_known known]
    simp only [ran, kept.traces c, Option.map_some, same]
  · rw [parserOf_known known']
    exact (path.stocked (began.stocked kept.stocked)).orderly _ _ known'
  · rw [parserOf_known known']
    exact initialised'

theorem kept_device (kept : Kept w) {c : ConnId} {conn : Conn} {p : FrameParser} {outputs : List Output}
    (found : w.server.conns c = some conn) (isDevice : conn.user ≠ .undefined)
    (bracketed : Idle (parserOf w.server conn.user) ∨ w.holder conn.user = some c)
    (path : Path (· = conn.user) True w.server t) (alike : Alike (parserOf t conn.user) p)
    (orderly : Orderly p) (initialised : p.tmpBufs.isSome) :
    Kept
      { server := t
        alone := fun key => if key = c then p else w.alone key
        shared := fun key => if key = c then w.shared c ++ outputs else w.shared key
        own := fun key => if key = c then some (w.shared c ++ outputs) else w.own key
        holder := fun key => if key = conn.user then
          (if Idle (parserOf t conn.user) then none else some c) else w.holder key } where
  stocked := path.stocked kept.stocked
  named := path.named kept.named
  alone key := by
    dsimp only
    split
    · exact ⟨orderly, initialised⟩
    · exact kept.alone key
  held user key held := by
    dsimp only at held ⊢
    by_cases here : user = conn.user
    · subst here
      rw [if_pos rfl] at held
      split at held
      · cases held
      · cases held
        rw [if_pos rfl]
        exact ⟨isDevice, path.device_kept isDevice ⟨conn, found, rfl⟩, alike⟩
    · rw [if_neg here] at held
      obtain ⟨isDevice', has, alike'⟩ := kept.held user key held
      refine ⟨isDevice', path.device_kept isDevice' has, ?_⟩
      obtain ⟨conn', found', rfl⟩ := has
      have other : key ≠ c := by
        rintro rfl
        cases found.symm.trans found'
        exact here rfl
      rw [if_neg other, parserOf_kept path here (kept.named.known key conn' found' isDevice')]
      exact alike'
  free user free := by
    dsimp only at free ⊢
    by_cases here : user = conn.user
    · subst here
      rw [if_pos rfl] at free
      split at free
      next idle => exact idle
      next => cases free
    · rw [if_neg here] at free
      exact idle_kept here path (kept.free user free)
  quiet key unheld := by
    dsimp only at unheld ⊢
    split
    next here =>
      subst here
      have free := unheld conn.user
      rw [if_pos rfl] at free
      split at free
      next idle => exact alike.idle.mp idle
      next => exact (free rfl).elim
    next other =>
      by_cases held : w.holder conn.user = some key
      · have idle := bracketed.resolve_right fun mine => other (Option.some.inj (held.symm.trans mine))
        exact (kept.held _ _ held).2.2.idle.mp idle
      · refine kept.quiet key fun user heldBy => unheld user ?_
        by_cases here : user = conn.user
        · exact (held (here ▸ heldBy)).elim
        · rw [if_neg here, heldBy]
  traces key := by
    dsimp only
    split
    · rfl
    · exact kept.traces key

/-- A bracketed step keeps the invariant. -/
theorem step_kept (kept : Kept w) {e : Event} (enabled : Enabled w.server e) (bracketed : Bracketed w e)
    (moved : w.step e = some w') : Kept w' := by
  obtain ⟨t, ran, rfl⟩ := Option.map_eq_some_iff.mp moved
  have path := step_path kept.stocked enabled ran
  cases e with
  | binary c buffer random =>
    obtain ⟨conn, found, _⟩ := enabled
    simp only [Watch.after, found]
    by_cases isNew : conn.user = .undefined
    · rw [if_pos isNew]
      exact kept_other kept (activeUser_new found isNew ▸ path)
    · rw [if_neg isNew]
      rw [activeUser_device found isNew] at path
      have parsed : parseNormalMessage conn.user c buffer w.server = .ok ((), t) := by
        have wp : Wp (connectionParse c buffer random)
            (fun _ t => parseNormalMessage conn.user c buffer w.server = .ok ((), t)) (fun _ => True)
            w.server := by
          rw [wp_connectionParse_device found isNew]
          exact wp_iff.mpr ⟨fun _ _ same => same, fun _ _ => trivial⟩
        exact of_step (e := .binary c buffer random) ran wp
      have bracketed := bracketed conn found isNew
      obtain ⟨p, alone, alike, orderly, initialised⟩ := takeAlone_agree kept buffer found isNew bracketed parsed
      rw [Watch.take, alone]
      exact kept_device kept found isNew bracketed path alike orderly initialised
  | connect | utf8 | close | login | logout | prepareDevice | request | camsnap | timeout =>
    exact kept_other kept path

end

/-- In every run whose device messages are bracketed, what the server extracts from each
connection is what it would extract from that connection's messages alone. -/
theorem extracts_as_alone {w : Watch}
    (reached : Reach Watch.step (fun w e => Enabled w.server e ∧ Bracketed w e) (· = .init) w)
    (c : ConnId) : w.own c = some (w.shared c) := by
  have start : ∀ w, w = .init → Kept w := fun _ first => first ▸ kept_init
  exact (reached.invariant start fun _ _ _ kept good moved => step_kept kept good.1 good.2 moved).traces c

/-! Two devices of one user. -/

def user : Text := "u".toList

def twoDevices : List Event :=
  [.connect 0 [] none, .binary 0 (handshakeOf user) 0, .connect 1 [] none, .binary 1 (handshakeOf user) 1]

def tunnelReq : List Byte := headerBytes 5 7 20 ++ [0, 0, 0, 0]

/-- Each device asks for the configuration. -/
def inTurn : List Event := twoDevices ++ [.binary 0 tunnelReq 0, .binary 1 tunnelReq 0]

/-- The second one asks while a frame of the first one is under way. -/
def interleaved : List Event := twoDevices ++ [.binary 0 (headerBytes 0x12 0 100) 0, .binary 1 tunnelReq 0]

def enabled : Test fun (w : Watch) e => Enabled w.server e := .decided _

def bracketed : Test Bracketed where
  passes
    | w, .binary c _ _ => (w.server.conns c).all fun conn => decide (conn.user = .undefined) ||
        decide (Idle (parserOf w.server conn.user)) || decide (w.holder conn.user = some c)
    | _, _ => true
  sound w e passes := by
    cases e with
    | binary c =>
      simp only [Option.all_eq_true, Bool.or_eq_true, decide_eq_true_eq] at passes
      exact fun conn found isDevice => (passes conn found).elim (fun first => first.resolve_left isDevice |> .inl) .inr
    | connect | utf8 | close | login | logout | prepareDevice | request | camsnap | timeout => trivial

theorem inTurn_extracts : ((enabled.both bracketed).run Watch.step .init inTurn).map (fun w => (w.own 1, w.shared 1)) =
    some (some [.readConfig 1 7], [.readConfig 1 7]) := by
  decide +kernel

theorem extracts_as_alone_inTurn : ∃ w : Watch, w.shared 1 = [.readConfig 1 7] ∧ w.own 1 = some (w.shared 1) := by
  obtain ⟨w, ran, views⟩ := Option.map_eq_some_iff.mp inTurn_extracts
  have reached : Reach Watch.step (fun w e => Enabled w.server e ∧ Bracketed w e) (· = .init) w := Test.reach rfl ran
  exact ⟨w, (Prod.mk.inj views).2, extracts_as_alone reached 1⟩

theorem interleaved_extracts :
    (enabled.run Watch.step .init interleaved).map (fun w => (w.own 1, w.shared 1)) =
      some (some [.readConfig 1 7], []) := by
  decide +kernel

/-- The second device's request is taken for a part of the first one's frame. -/
theorem interleaved_differs : ¬ ∀ w, Reach Watch.step (fun w e => Enabled w.server e) (· = .init) w →
    ∀ c, w.own c = some (w.shared c) := by
  intro always
  obtain ⟨w, ran, views⟩ := Option.map_eq_some_iff.mp interleaved_extracts
  have reached : Reach Watch.step (fun w e => Enabled w.server e) (· = .init) w := Test.reach rfl ran
  have same := always w reached 1
  rw [(Prod.mk.inj views).1, (Prod.mk.inj views).2] at same
  cases same

end WebTunnel.Server.Isolation
