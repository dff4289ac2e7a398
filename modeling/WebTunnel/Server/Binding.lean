import WebTunnel.Server.Events

/-! Which device receives what a browser session sends. Data goes to the device the user
selected last, in whichever session; closing goes to the session's own device. -/

namespace WebTunnel.Server.Binding
open Library.Bytes Library.JavaScript Library.Json Library.Program Library.Run Wire Server.Types Framing Events

/-- A browser connection whose session selected `device`. -/
structure Bound (s : ServerState) (c : ConnId) (conn : Conn) (device : Text) (mgr : UserMgmr) : Prop where
  found : s.conns c = some conn
  session : ∃ username, conn.sessUsername = some username ∧ s.userMap (.str username) = some mgr
  selected : conn.sessDevicename = some device

/-- The browser on whose behalf an event sends frames: `textProcess` and `closeForward`. -/
def speaker (s : ServerState) : Event → Option ConnId
  | .utf8 c _ => (s.conns c).bind fun conn => if conn.url = wscam then none else some c
  | .close c => some c
  | _ => none

/-- Every frame sent on behalf of a browser goes to the connection registered for its device. -/
def SendsToOwn (s : ServerState) (e : Event) : Prop :=
  ∀ c conn device mgr, speaker s e = some c → Bound s c conn device mgr →
    ∀ t, step s e = some t → ∀ target bytes, .sendBytes target bytes ∈ sentSince s t →
      mgr.getConnByName device = some (.conn target)

/-- A message of an open session that names it and that a frame can be made of. -/
def Forwards (conn : Conn) (text : Text) : Prop :=
  ∃ seq obj objSeq bufs, conn.seq = some seq ∧ parse text = .ok obj ∧
    property obj "seq".toList = .ok objSeq ∧ looseEqNat objSeq seq = .ok true ∧
    forwardRequest seq obj = .ok bufs

/-- When a message is forwarded, the device the user selected last, in whichever session,
is the one registered under the name this session selected. -/
def Aimed (s : ServerState) : Event → Prop
  | .utf8 c text => ∀ conn device mgr target, conn.url ≠ wscam → Bound s c conn device mgr →
      Forwards conn text → mgr.getCurrConn = some (.conn target) →
      mgr.getConnByName device = some (.conn target)
  | _ => True

theorem textProcess_forwards {s : ServerState} {c : ConnId} {conn : Conn} {text device : Text}
    {mgr : UserMgmr} {target : ConnId} (bound : Bound s c conn device mgr)
    (forwards : Forwards conn text) (current : mgr.getCurrConn = some (.conn target)) :
    ∃ bufs, Wp (textProcess c text)
      (fun _ t => t = s.write [.sendBytes target bufs]) (fun _ => False) s := by
  obtain ⟨username, session, known⟩ := bound.session
  obtain ⟨seq, obj, objSeq, bufs, opened, parsed, named, same, built⟩ := forwards
  refine ⟨bufs, ?_⟩
  rw [textProcess, wp_bind, wp_getConn_of_found bound.found]
  simp only [session, bound.selected, opened, wp_bind, wp_get, known]
  rw [wp_liftJs_of_ok parsed, wp_liftJs_of_ok named, wp_liftJs_of_ok same]
  simp only [not_true_eq_false, if_false, current, wp_bind]
  rw [wp_liftJs_of_ok built]
  simp

theorem textProcess_sends {s t : ServerState} {c : ConnId} {conn : Conn} {text device : Text}
    {mgr : UserMgmr} {target : ConnId} {bytes : List Byte} (bound : Bound s c conn device mgr)
    (effect : TextEffect s c text t) (sent : .sendBytes target bytes ∈ sentSince s t) :
    Forwards conn text ∧ mgr.getCurrConn = some (.conn target) := by
  obtain ⟨username, session, known⟩ := bound.session
  cases effect with
  | refused => simp [sentSince] at sent
  | closing => simp [sentSince_append] at sent
  | hello => simp [sentSince, helloState, ServerState.openSeq] at sent
  | forwarded found' session' selected' known' opened parsed named same current built =>
    cases bound.found.symm.trans found'
    cases session.symm.trans session'
    cases known.symm.trans known'
    rw [sentSince_append, List.mem_singleton] at sent
    cases sent
    exact ⟨⟨_, _, _, _, opened, parsed, named, same, built⟩, current⟩

theorem closeForward_sends {s t : ServerState} {c : ConnId} {conn : Conn} {device : Text}
    {mgr : UserMgmr} {target : ConnId} {bytes : List Byte} (bound : Bound s c conn device mgr)
    (effect : CloseEffect s c t) (sent : .sendBytes target bytes ∈ sentSince s t) :
    mgr.getConnByName device = some (.conn target) := by
  obtain ⟨username, session, known⟩ := bound.session
  cases effect with
  | viewer _ _ silent => simp [sentSince, silent] at sent
  | device => simp [sentSince, closedState] at sent
  | plain => simp [sentSince, closedState] at sent
  | @forward _ _ _ _ _ target' bufs found' isBrowser session' known' opened registered deleted =>
    cases bound.found.symm.trans found'
    cases session.symm.trans session'
    cases known.symm.trans known'
    have silent := wp_of_run deleted (mgrDelSeq_silent (.str username) mgr.currSeq _)
    change t.out = s.out ++ [.sendBytes target' bufs] at silent
    rw [sentSince, silent, List.drop_left, List.mem_singleton] at sent
    cases sent
    rw [closeTarget, bound.selected] at registered
    exact registered

/-- Frames go to the session's own device exactly when the user's current device is that
one whenever a message is forwarded. -/
theorem sendsToOwn_iff (s : ServerState) (e : Event) : SendsToOwn s e ↔ Aimed s e := by
  cases e with
  | utf8 c text =>
    constructor
    · intro own conn device mgr target isText bound forwards current
      obtain ⟨bufs, wp⟩ := textProcess_forwards bound forwards current
      obtain ⟨t, moved, result⟩ := step_of_wp (e := .utf8 c text)
        ((wp_onUtf8_text bound.found isText).mpr wp)
      refine own c conn device mgr ?_ bound t moved target bufs ?_
      · simp [speaker, bound.found, isText]
      · rw [result, sentSince_append]
        exact List.mem_singleton_self _
    · intro aimed c' conn device mgr speaks bound t moved target bytes sent
      have isText : conn.url ≠ wscam ∧ c' = c := by
        cases found : s.conns c with
        | none => simp [speaker, found] at speaks
        | some conn' =>
          by_cases isCam : conn'.url = wscam
          · simp [speaker, found, isCam] at speaks
          · have same : c = c' := by simpa [speaker, found, isCam] using speaks
            subst same
            cases found.symm.trans bound.found
            exact ⟨isCam, rfl⟩
      obtain ⟨isText, rfl⟩ := isText
      have effect : TextEffect s c' text t :=
        of_step moved ((wp_onUtf8_text bound.found isText).mpr (textProcess_effect s c' text))
      obtain ⟨forwards, current⟩ := textProcess_sends bound effect sent
      exact aimed conn device mgr target isText bound forwards current
  | close c =>
    refine iff_of_true (fun c' conn device mgr speaks bound t moved target bytes sent => ?_) trivial
    cases speaks
    exact closeForward_sends bound (of_step moved (onClose_effect s c)) sent
  | connect | binary | login | logout | prepareDevice | request | camsnap | timeout =>
    exact iff_of_true (fun _ _ _ _ speaks => nomatch speaks) trivial

/-- A run sends every frame of every browser to its own device exactly when it meets the
condition at every step. -/
theorem run_sendsToOwn_iff (events : List Event) :
    Always step SendsToOwn ServerState.init events ↔ Always step Aimed ServerState.init events :=
  always_congr sendsToOwn_iff _ _

/-! Two sessions of one user: while the first one is connected to its device, the second
one selects another. -/

def user : Text := "u".toList
def firstDevice : Text := "1".toList
def secondDevice : Text := "2".toList

/-- Devices 0 and 1 register; the browser of session 0 opens a forward, then session 1
selects the second device. -/
def twoSessions : List Event :=
  [.connect 0 [] none, .binary 0 (handshakeOf user) 0, .connect 1 [] none,
    .binary 1 (handshakeOf user) 1, .login 0 user, .prepareDevice 0 firstDevice,
    .connect 2 [] (some 0), .utf8 2 "hello".toList, .login 1 user, .prepareDevice 1 secondDevice]

def keystroke : Event := .utf8 2 "\x7b\"seq\":0,\"type\":\"data\",\"message\":\"\"\x7d".toList

/-- The first session's device is registered, and the keystroke goes to the second one. -/
def strays (s : ServerState) : Bool :=
  decide ((s.conns 2).map (fun conn => (conn.url, conn.sessUsername, conn.sessDevicename)) =
    some ([], some user, some firstDevice)) &&
  decide ((s.userMap (.str user)).map (fun mgr => mgr.getConnByName firstDevice) =
    some (some (.conn 0))) &&
  decide ((step s keystroke).map (sentSince s) = some [.sendBytes 1 (headerBytes 0x11 0 16)])

theorem twoSessions_strays : (run step ServerState.init twoSessions).map strays = some true := by
  decide +kernel

theorem keystroke_strays : ¬ ∀ events, Always step SendsToOwn ServerState.init events := by
  intro always
  refine not_always_of_check strays twoSessions_strays ?_ (always (twoSessions ++ [keystroke]))
  intro s views own
  simp only [strays, Bool.and_eq_true, decide_eq_true_eq, Option.map_eq_some_iff, Prod.mk.injEq] at views
  obtain ⟨⟨⟨conn, found, url, session, selected⟩, ⟨mgr, known, registered⟩⟩, t, moved, sent⟩ := views
  have isText : conn.url ≠ wscam := by
    rw [url]
    decide
  have speaks : speaker s keystroke = some 2 := by
    rw [keystroke, speaker, found, Option.bind_some, if_neg isText]
  have target := own 2 conn firstDevice mgr speaks
    ⟨found, ⟨user, session, known⟩, selected⟩ t moved 1 (headerBytes 0x11 0 16)
    (by rw [sent]; exact List.mem_singleton_self _)
  rw [registered] at target
  cases target

end WebTunnel.Server.Binding
