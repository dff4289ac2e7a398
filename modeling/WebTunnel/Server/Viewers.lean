import Mathlib.Data.Finset.Card
import Mathlib.Data.Finset.Range
import WebTunnel.Server.Snapshots

/-! The viewers of a camera. Where none of them closes or joins again, the camera's manager
lists the open viewers, and at most one snapshot is asked for at a time. -/

namespace WebTunnel.Server.Viewers
open Library.Bytes Library.JavaScript Library.Json Library.Program Library.Run Library.Slots Sessions Wire Server.Types
open Processors Webcam Framing Events Moves Registers Snapshots

/-- The connection is open and has joined the camera. -/
def Viewer (s : ServerState) (username hostUrl : Text) (c : ConnId) : Prop :=
  ∃ conn, s.conns c = some conn ∧ conn.isOpen = true ∧ conn.sessUsername = some username ∧ conn.hostUrl = some hostUrl

/-! What every run keeps. -/

/-- Every camera is open, with one listener. -/
def AllOpen (s : ServerState) : Prop :=
  ∀ user hostUrl cam, camOf s user hostUrl = some cam → cam.isOpen = true ∧ cam.doReqListeners = 1

def NoIndex (s : ServerState) : Prop := ∀ c conn, s.conns c = some conn → conn.camSeq = none

section
variable {active : JsVal → Prop} {s t : ServerState} {user : JsVal} {username hostUrl : Text} {c : ConnId} {conn : Conn}
  {mgr : UserMgmr} {cam : CamManager}

theorem camOf_joins {text : Text} (known : s.userMap user = some mgr) (key : JsVal)
    (other : ¬ (key = user ∧ hostUrl = text)) :
    camOf (s.setMgr user (withCam mgr text cam)) key hostUrl = camOf s key hostUrl := by
  rw [camOf_setMgr]
  split
  next here => rw [withCam, lookup_set, if_neg fun same => other ⟨here, same⟩, here, camOf_of_known known]
  next => rfl

/-- The managers' cameras once a handshake or a closing device changed the devices of a user. -/
theorem camOf_devices {mgr' : UserMgmr} (same : mgr'.cams = ((s.userMap user).getD (UserMgmr.new user)).cams)
    (key : JsVal) : camOf (s.setMgr user mgr') key hostUrl = camOf s key hostUrl := by
  rw [camOf_setMgr]
  split
  next here =>
    rw [here, same, camOf]
    cases s.userMap user <;> rfl
  next => rfl

/-- The viewers that an event leaves to a camera: a viewer joins one camera, and all others are
as they were. -/
inductive Views (s : ServerState) (e : Event) (t : ServerState) : Prop where
  | same (same : ∀ user hostUrl, (camOf t user hostUrl).map viewing = (camOf s user hostUrl).map viewing)
  | joins {c : ConnId} {hostUrl username : Text} {mgr : UserMgmr} (isText : e = .utf8 c hostUrl)
      (known : s.userMap (.str username) = some mgr)
      (here : (camOf t (.str username) hostUrl).map viewing =
        some (viewing (joined ((mgr.cams.lookup hostUrl).getD (CamManager.new hostUrl)) c)))
      (others : ∀ user key, ¬ (user = .str username ∧ key = hostUrl) →
        (camOf t user key).map viewing = (camOf s user key).map viewing)

theorem Views.of_base {e : Event} {u : ServerState} (standing : Standing active u t)
    (base : ∀ user hostUrl, camOf u user hostUrl = camOf s user hostUrl) : Views s e t :=
  .same fun user hostUrl => (viewing_standing standing _ _).trans (congrArg _ (base user hostUrl))

theorem views_turn (noIndex : NoIndex s) {e : Event} (turn : Turn active s e t) : Views s e t := by
  cases turn with
  | same _ standing => exact .of_base standing fun _ _ => rfl
  | connect _ _ _ _ standing => exact .of_base standing fun _ _ => rfl
  | speaks _ _ _ _ _ standing => exact .of_base standing fun _ _ => rfl
  | handshake _ _ _ _ _ _ _ _ _ _ standing => exact .of_base standing fun user _ => camOf_devices (by rfl) user
  | @joins c text conn username mgr _ found isCam session known current wellFormed standing =>
    refine .joins rfl known ?_ fun user key other => ?_
    · refine (viewing_standing standing _ _).trans ?_
      exact congrArg _ ((camOf_setMgr _).trans ((if_pos rfl).trans lookup_withCam))
    · refine (viewing_standing standing _ _).trans (congrArg _ ?_)
      exact camOf_joins known user other
  | closes _ _ standing => exact .of_base standing fun _ _ => rfl
  | closesDevice _ _ known _ standing =>
    exact .of_base standing fun user _ => camOf_devices (by rw [closedState, setConn_userMap, known]; rfl) user
  | closesViewer found index =>
    rw [noIndex _ _ found] at index
    cases index

theorem allOpen_views {e : Event} (allOpen : AllOpen s) (views : Views s e t) : AllOpen t := by
  have kept {user : JsVal} {hostUrl : Text} {cam : CamManager} (found : camOf t user hostUrl = some cam)
      (same : (camOf t user hostUrl).map viewing = (camOf s user hostUrl).map viewing) :
      cam.isOpen = true ∧ cam.doReqListeners = 1 := by
    rw [found, Option.map_some] at same
    obtain ⟨cam', found', views⟩ := Option.map_eq_some_iff.mp same.symm
    obtain ⟨isOpen, listeners⟩ := allOpen user hostUrl cam' found'
    exact ⟨(congrArg Viewing.isOpen views).symm.trans isOpen, (congrArg Viewing.doReqListeners views).symm.trans listeners⟩
  cases views with
  | same same => exact fun user hostUrl cam found => kept found (same user hostUrl)
  | @joins c hostUrl username mgr _ known here others =>
    intro user key cam found
    by_cases own : user = .str username ∧ key = hostUrl
    · obtain ⟨rfl, rfl⟩ := own
      rw [found, Option.map_some, Option.some_inj] at here
      refine ⟨congrArg Viewing.isOpen here, (congrArg Viewing.doReqListeners here).trans ?_⟩
      cases exists_ : mgr.cams.lookup key with
      | none => rfl
      | some cam₀ =>
        obtain ⟨isOpen, listeners⟩ := allOpen _ _ _ (camOf_eq_some.mpr ⟨mgr, known, exists_⟩)
        exact (if_pos isOpen).trans listeners
    · exact kept found (others user key own)

theorem noIndex_setConn (noIndex : NoIndex s) (none : conn.camSeq = none) : NoIndex (s.setConn c conn) := by
  intro key conn' found
  rw [setConn_conns] at found
  split at found
  · cases found
    exact none
  · exact noIndex key conn' found

theorem noIndex_turn (noIndex : NoIndex s) {e : Event} (turn : Turn active s e t) : NoIndex t := by
  have kept {u : ServerState} (standing : Standing active u t) (noIndex : NoIndex u) : NoIndex t :=
    fun c conn found => noIndex c conn (standing.conns ▸ found)
  cases turn with
  | same _ standing => exact kept standing noIndex
  | connect _ _ _ camSeq standing => exact kept standing (noIndex_setConn noIndex camSeq)
  | speaks _ _ found speaks _ standing =>
    exact kept standing (noIndex_setConn noIndex (speaks.camSeq.trans (noIndex _ _ found)))
  | handshake _ found _ _ _ _ _ _ camSeq _ standing =>
    exact kept standing (noIndex_setConn noIndex (camSeq.trans (noIndex _ _ found)))
  | joins _ _ _ _ _ _ standing => exact kept standing (noIndex_setConn noIndex rfl)
  | @closes c conn _ found _ standing => exact kept standing (noIndex_setConn noIndex (noIndex c conn found))
  | @closesDevice c conn _ _ _ found _ _ _ standing =>
    exact kept standing (noIndex_setConn noIndex (noIndex c conn found))
  | closesViewer found index =>
    rw [noIndex _ _ found] at index
    cases index

end

/-! The list of viewers. -/

/-- The view of a camera lists these viewers, each once, and counts them. -/
def Lists (view : Option Viewing) (viewers : ConnId → Prop) : Prop :=
  match view with
  | none => ∀ c, ¬ viewers c
  | some view => (∀ c, c ∈ view.conns.map Prod.snd ↔ viewers c) ∧ (view.conns.map Prod.snd).Nodup ∧
      view.connCount = view.conns.length ∧ (view.isOpen = true ↔ 0 < view.conns.length)

/-- A viewer does not close, and sends no message that lets it join a camera again. -/
def StaysOnce (s : ServerState) (username hostUrl : Text) : Event → Prop
  | .close c => ¬ Viewer s username hostUrl c
  | .utf8 c text => Viewer s username hostUrl c → (split text ":".toList).length = 2 →
      ∀ mgr, s.userMap (.str username) = some mgr → mgr.getCurrConn = none
  | _ => True

section
variable {active : JsVal → Prop} {s t : ServerState} {username hostUrl : Text} {c c' : ConnId} {conn : Conn}

theorem viewer_setConn : Viewer (s.setConn c conn) username hostUrl c' ↔
    if c' = c then conn.isOpen = true ∧ conn.sessUsername = some username ∧ conn.hostUrl = some hostUrl
    else Viewer s username hostUrl c' := by
  simp only [Viewer, setConn_conns]
  split
  · constructor
    · rintro ⟨_, same, views⟩
      cases same
      exact views
    · exact fun views => ⟨conn, rfl, views⟩
  · rfl

theorem viewer_iff (found : s.conns c = some conn) : Viewer s username hostUrl c ↔
    conn.isOpen = true ∧ conn.sessUsername = some username ∧ conn.hostUrl = some hostUrl := by
  simp [Viewer, found]

theorem viewer_said {conn' : Conn} (found : s.conns c = some conn) (isOpen : conn'.isOpen = conn.isOpen)
    (session : conn'.sessUsername = conn.sessUsername) (url : conn'.hostUrl = conn.hostUrl) (key : ConnId) :
    Viewer (s.setConn c conn') username hostUrl key ↔ Viewer s username hostUrl key := by
  rw [viewer_setConn]
  split
  next here => rw [isOpen, session, url, here, viewer_iff found]
  next => rfl

theorem viewer_closed (noViewer : ¬ Viewer s username hostUrl c) (key : ConnId) :
    Viewer (closedState s c conn) username hostUrl key ↔ Viewer s username hostUrl key := by
  rw [closedState, viewer_setConn]
  split
  next here => exact ⟨by simp, fun viewer => absurd (here ▸ viewer) noViewer⟩
  next => rfl

theorem viewer_standing (standing : Standing active s t) : Viewer t username hostUrl c ↔ Viewer s username hostUrl c := by
  rw [Viewer, standing.conns]
  rfl

theorem lists_congr {view : Option Viewing} {viewers viewers' : ConnId → Prop} (same : ∀ c, viewers' c ↔ viewers c)
    (lists : Lists view viewers) : Lists view viewers' := by
  rwa [show viewers' = viewers from funext fun c => propext (same c)]

theorem lists_joined (hostUrl : Text) {cam? : Option CamManager} {viewers viewers' : ConnId → Prop} (isNew : ¬ viewers c)
    (new : ∀ c', viewers' c' ↔ c' = c ∨ viewers c') (lists : Lists (cam?.map viewing) viewers) :
    Lists (some (viewing (joined (cam?.getD (CamManager.new hostUrl)) c))) viewers' := by
  cases cam? with
  | none =>
    refine ⟨fun c' => ?_, List.nodup_singleton _, rfl, by simp [viewing, joined, CamManager.new]⟩
    rw [new]
    exact ⟨fun member => .inl (List.mem_singleton.mp member), fun view => List.mem_singleton.mpr (view.resolve_right (lists c'))⟩
  | some cam =>
    obtain ⟨members, distinct, counted, _⟩ := lists
    simp only [viewing] at members distinct counted
    simp only [Option.getD_some, viewing, joined]
    refine ⟨fun c' => ?_, ?_, ?_, by simp⟩
    · simp only [List.map_append, List.mem_append, members, List.map_cons, List.map_nil, List.mem_singleton, new]
      exact or_comm
    · rw [List.map_append, List.nodup_append]
      refine ⟨distinct, List.nodup_singleton _, fun a member b single => ?_⟩
      rintro rfl
      rw [List.mem_singleton.mp single] at member
      exact isNew ((members c).mp member)
    · rw [counted, List.length_append]
      rfl

theorem lists_turn (noIndex : NoIndex s)
    (lists : Lists ((camOf s (.str username) hostUrl).map viewing) (Viewer s username hostUrl)) {e : Event}
    (enabled : Enabled s e) (stays : StaysOnce s username hostUrl e) (turn : Turn active s e t) :
    Lists ((camOf t (.str username) hostUrl).map viewing) (Viewer t username hostUrl) := by
  have kept {u : ServerState} (standing : Standing active u t)
      (base : camOf u (.str username) hostUrl = camOf s (.str username) hostUrl)
      (viewers : ∀ key, Viewer u username hostUrl key ↔ Viewer s username hostUrl key) :
      Lists ((camOf t (.str username) hostUrl).map viewing) (Viewer t username hostUrl) := by
    rw [viewing_standing standing _ _, base]
    exact lists_congr (fun key => (viewer_standing standing).trans (viewers key)) lists
  cases turn with
  | same _ standing => exact kept standing rfl fun _ => Iff.rfl
  | connect _ _ hostUrl _ standing =>
    refine kept standing rfl fun key => viewer_setConn.trans ?_
    split
    next here =>
      refine ⟨fun views => (nomatch hostUrl.symm.trans views.2.2), fun ⟨_, found, _⟩ => ?_⟩
      rw [here, show s.conns _ = none from enabled] at found
      cases found
    next => rfl
  | speaks _ _ found speaks _ standing =>
    exact kept standing rfl (viewer_said found speaks.isOpen speaks.sessUsername speaks.hostUrl)
  | handshake _ found _ _ _ isOpen session url _ _ standing =>
    exact kept standing (camOf_devices (by rfl) _) (viewer_said found isOpen session url)
  | @joins c text conn username' mgr _ found _ session known current wellFormed standing =>
    obtain ⟨conn, found', isOpen⟩ := enabled
    cases found.symm.trans found'
    -- who is a viewer already has no device, and does not join
    have isNew : username' = username → ¬ Viewer s username hostUrl c := by
      rintro rfl viewer
      rw [stays viewer wellFormed mgr known] at current
      cases current
    have viewers : ∀ key, Viewer t username hostUrl key ↔
        if key = c then username' = username ∧ text = hostUrl else Viewer s username hostUrl key := by
      intro key
      refine (viewer_standing standing).trans (viewer_setConn.trans ?_)
      split
      · rw [session, Option.some_inj, Option.some_inj]
        exact and_iff_right isOpen
      · rfl
    have noViewer : ¬ Viewer s username hostUrl c := by
      intro viewer
      have same := ((viewer_iff found).mp viewer).2.1
      exact isNew (Option.some_inj.mp (session.symm.trans same)) viewer
    rw [viewing_standing standing _ _]
    by_cases own : username' = username ∧ text = hostUrl
    · have new : ∀ key, Viewer t username hostUrl key ↔ key = c ∨ Viewer s username hostUrl key := by
        intro key
        rw [viewers]
        split
        next here => exact ⟨fun _ => .inl here, fun _ => own⟩
        next other => exact ⟨.inr, fun new => new.resolve_left other⟩
      have joins := lists_joined hostUrl noViewer new lists
      obtain ⟨rfl, rfl⟩ := own
      rw [camOf_of_known known] at joins
      rwa [camOf, setConn_userMap, setMgr_userMap_self, Option.bind_some, lookup_withCam, Option.map_some]
    · have base : camOf (s.setMgr (.str username') (withCam mgr text (joined ((mgr.cams.lookup text).getD (CamManager.new text)) c)))
          (.str username) hostUrl = camOf s (.str username) hostUrl := camOf_joins known (.str username) fun same => own ⟨(JsVal.str.inj same.1).symm, same.2.symm⟩
      rw [show camOf ((s.setMgr _ _).setConn _ _) _ _ = _ from base]
      refine lists_congr (fun key => (viewers key).trans ?_) lists
      split
      next here => exact ⟨fun joins => absurd joins own, fun viewer => absurd (here ▸ viewer) noViewer⟩
      next => rfl
  | closes found _ standing => exact kept standing rfl (viewer_closed stays)
  | closesDevice found _ known _ standing =>
    exact kept standing (camOf_devices (by rw [closedState, setConn_userMap, known]; rfl) _) (viewer_closed stays)
  | closesViewer found index =>
    rw [noIndex _ _ found] at index
    cases index

end

/-! The snapshots that are asked for. -/

def snapshotOf (s : ServerState) (hostUrl : Text) (id : ProcId) : Bool :=
  match s.procs id with
  | some (.webcam p) => decide (p.camMgr = hostUrl)
  | _ => false

/-- How many snapshots of the camera were asked for between two states. -/
def newSnapshots (s t : ServerState) (hostUrl : Text) : Nat :=
  ((Finset.range t.nextProc).filter fun id => snapshotOf t hostUrl id && !snapshotOf s hostUrl id).card

/-- How many notices were handed to the camera's sessions between two states. -/
def notices (s t : ServerState) (hostUrl : Text) : Nat :=
  (sentSince s t).countP fun output => (handed s hostUrl output).any notice

/-- The server, with the snapshots of one camera of one user that were asked for and answered. -/
structure Watch where
  server : ServerState
  asked : Nat
  answered : Nat

def Watch.init : Watch := ⟨.init, 0, 0⟩

def Watch.step (user : JsVal) (hostUrl : Text) (w : Watch) (e : Event) : Option Watch :=
  (Events.step w.server e).map fun t =>
    if actor w.server e = some user then
      ⟨t, w.asked + newSnapshots w.server t hostUrl, w.answered + notices w.server t hostUrl⟩
    else { w with server := t }

/-- What the camera's manager takes for a notice is one. -/
def NoticesOnly (s : ServerState) (user : JsVal) (hostUrl : Text) (e : Event) : Prop :=
  ∀ t, Events.step s e = some t → ∀ output ∈ sentSince s t, ∀ payload, handed s hostUrl output = some payload →
    ∀ cam, camOf s user hostUrl = some cam → taken cam payload = true → notice payload = true

/-- While the camera is not ready a timeout is waited for; a snapshot that was asked for and
not answered keeps the camera waiting. -/
def Pace (paced : Option (Bool × Nat)) (asked answered : Nat) : Prop :=
  match paced with
  | none => asked = 0
  | some (isReady, timers) =>
    asked + timers + isReady.toNat ≤ 2 + answered ∧ (isReady = false → 0 < timers)

section
variable {s t : ServerState} {user : JsVal} {username hostUrl : Text} {c : ConnId} {conn : Conn}
  {asked answered : Nat}

theorem Pace.bound {paced : Option (Bool × Nat)} (paces : Pace paced asked answered) : asked ≤ answered + 1 := by
  match paced with
  | none =>
    rw [show asked = 0 from paces]
    exact Nat.zero_le _
  | some (true, timers) =>
    have bound := paces.1
    rw [Bool.toNat_true] at bound
    omega
  | some (false, timers) =>
    have bound := paces.1
    have waits := paces.2 rfl
    omega

theorem Pace.later {paced : Option (Bool × Nat)} {answered' : Nat} (paces : Pace paced asked answered)
    (more : answered ≤ answered') : Pace paced asked answered' := by
  match paced with
  | none => exact paces
  | some (isReady, timers) => exact ⟨paces.1.trans (Nat.add_le_add_left more 2), paces.2⟩

theorem snapshotOf_eq_true {id : ProcId} : snapshotOf s hostUrl id = true ↔
    ∃ p, s.procs id = some (.webcam p) ∧ p.camMgr = hostUrl := by
  unfold snapshotOf
  split
  next p found => simp [found]
  next other => exact ⟨by simp, fun ⟨p, found, _⟩ => absurd found (other p)⟩

theorem newSnapshots_le_one {n : ProcId} (one : ∀ id p, t.procs id = some (.webcam p) → p.camMgr = hostUrl →
    (∃ p', s.procs id = some (.webcam p') ∧ p'.camMgr = hostUrl) ∨ id = n) : newSnapshots s t hostUrl ≤ 1 := by
  rw [newSnapshots, Finset.card_le_one_iff_subset_singleton]
  refine ⟨n, fun id member => ?_⟩
  obtain ⟨_, new⟩ := Finset.mem_filter.mp member
  rw [Bool.and_eq_true, Bool.not_eq_true'] at new
  obtain ⟨p, found, own⟩ := snapshotOf_eq_true.mp new.1
  rcases one id p found own with before | here
  · rw [snapshotOf_eq_true.mpr before] at new
    cases new.2
  · exact Finset.mem_singleton.mpr here

theorem newSnapshots_none (kept : ∀ id p, t.procs id = some (.webcam p) → p.camMgr = hostUrl →
    ∃ p', s.procs id = some (.webcam p') ∧ p'.camMgr = hostUrl) : newSnapshots s t hostUrl = 0 := by
  rw [newSnapshots, Finset.card_eq_zero, Finset.filter_eq_empty_iff]
  intro id _ new
  rw [Bool.and_eq_true, Bool.not_eq_true'] at new
  obtain ⟨p, found, own⟩ := snapshotOf_eq_true.mp new.1
  rw [snapshotOf_eq_true.mpr (kept id p found own)] at new
  cases new.2

/-- A camera that becomes ready, or asks, uses up a timeout or a notice. -/
theorem pace_readied {isReady : Bool} {timers answered' : Nat} (readied : Readied user hostUrl (isReady, timers) s t)
    (bound : asked + timers + 1 + isReady.toNat ≤ 2 + answered') :
    Pace ((camOf t user hostUrl).map pace) (asked + newSnapshots s t hostUrl) answered' := by
  cases isReady with
  | false =>
    have turned : Turned user hostUrl ∅ (true, timers) s t := readied
    have none : newSnapshots s t hostUrl = 0 := by
      refine newSnapshots_none fun id p found own => ?_
      rcases turned.snapshots id p found with ⟨p', before, same⟩ | ⟨new, _⟩
      · exact ⟨p', before, same.trans own⟩
      · cases new
    rw [turned.here]
    refine ⟨?_, by simp⟩
    rw [Bool.toNat_false] at bound
    rw [Bool.toNat_true]
    omega
  | true =>
    obtain ⟨n, turned⟩ := readied
    have one : newSnapshots s t hostUrl ≤ 1 := by
      refine newSnapshots_le_one (n := n) fun id p found own => ?_
      rcases turned.snapshots id p found with ⟨p', before, same⟩ | ⟨new, _⟩
      · exact .inl ⟨p', before, same.trans own⟩
      · exact .inr new
    rw [turned.here]
    refine ⟨?_, fun _ => Nat.succ_pos _⟩
    rw [Bool.toNat_true] at bound
    rw [Bool.toNat_false]
    omega

theorem pace_calm {answered' : Nat} (calm : Calm user hostUrl s t) (more : answered ≤ answered')
    (paces : Pace ((camOf s user hostUrl).map pace) asked answered) :
    Pace ((camOf t user hostUrl).map pace) (asked + newSnapshots s t hostUrl) answered' := by
  rw [newSnapshots_none calm.snapshots, Nat.add_zero, calm.paced]
  exact paces.later more

theorem pace_joins {answered' : Nat} (joins : Joins user hostUrl s t) (more : answered ≤ answered')
    (paces : Pace ((camOf s user hostUrl).map pace) asked answered) :
    Pace ((camOf t user hostUrl).map pace) (asked + newSnapshots s t hostUrl) answered' := by
  rcases joins with calm | begins
  · exact pace_calm calm more paces
  · obtain ⟨n, snapshots⟩ := begins.snapshots
    have one := newSnapshots_le_one snapshots
    rw [begins.isNew] at paces
    rw [begins.here]
    refine ⟨?_, fun _ => Nat.one_pos⟩
    rw [show asked = 0 from paces, Bool.toNat_false]
    omega

theorem pace_beats (only : ∀ output ∈ sentSince s t, ∀ payload, handed s hostUrl output = some payload →
      ∀ cam, camOf s user hostUrl = some cam → taken cam payload = true → notice payload = true)
    (beats : Beats user hostUrl s t) (paces : Pace ((camOf s user hostUrl).map pace) asked answered) :
    Pace ((camOf t user hostUrl).map pace) (asked + newSnapshots s t hostUrl) (answered + notices s t hostUrl) := by
  rcases beats with calm | ⟨cam, payload, output, found, readied, takes, sent, given⟩
  · exact pace_calm calm (Nat.le_add_right _ _) paces
  · -- the message counts as a notice, which makes room for what is asked for next
    have counts : 0 < notices s t hostUrl := by
      refine List.countP_pos_iff.mpr ⟨output, sent, ?_⟩
      rw [given, Option.any_some]
      exact only output sent payload given cam found takes
    rw [found, Option.map_some] at paces
    refine pace_readied readied ?_
    have bound : asked + cam.timers + cam.isReady.toNat ≤ 2 + answered := paces.1
    omega

/-- What the first message of a viewer does to a camera. -/
theorem wp_webcamProcess_joins {text : Text} (allOpen : AllOpen s) (found : s.conns c = some conn) (own : conn.sessUsername.map .str = some user) :
    Wp (webcamProcess c text) (fun _ t => Joins user hostUrl s t) (fun _ => True) s := by
  rw [webcamProcess, wp_bind, wp_getConn_of_found found]
  have calm {t : ServerState} (still : Still s t) : Joins user hostUrl s t := .inl (still.calm user hostUrl)
  split
  next username _ session _ =>
    rw [session, Option.map_some, Option.some_inj] at own
    subst own
    rw [wp_bind, wp_get]
    split
    next => exact calm (.write .refl _)
    next mgr known =>
      split
      next =>
        rw [wp_ite]
        split
        next => exact calm (.write .refl _)
        next =>
          cases exists_ : mgr.cams.lookup text with
          | none => exact wp_join_new known exists_
          | some cam => exact wp_post (wp_join_open known exists_ (allOpen _ _ _ (camOf_eq_some.mpr ⟨mgr, known, exists_⟩)).1) fun _ _ => .inl
      next => exact calm .refl
  next => exact calm (.write .refl _)

/-- A camera of a user that an event does not concern keeps its pace. -/
theorem pace_turn {active : JsVal → Prop} (noIndex : NoIndex s) {e : Event} (inactive : ¬ active user)
    (other : actor s e ≠ some user) (turn : Turn active s e t) :
    (camOf t user hostUrl).map pace = (camOf s user hostUrl).map pace := by
  have kept {u : ServerState} (standing : Standing active u t) (base : camOf u user hostUrl = camOf s user hostUrl) :
      (camOf t user hostUrl).map pace = (camOf s user hostUrl).map pace :=
    (pace_standing standing inactive).trans (congrArg _ base)
  cases turn with
  | same _ standing => exact kept standing rfl
  | connect _ _ _ _ standing => exact kept standing rfl
  | speaks _ _ _ _ _ standing => exact kept standing rfl
  | handshake _ _ _ _ _ _ _ _ _ _ standing => exact kept standing (camOf_devices (by rfl) user)
  | joins found isCam session known _ _ standing =>
    refine kept standing (camOf_joins known user fun own => other ?_)
    rw [actor, found, Option.bind_some, session, own.1, Option.map_some]
  | closes _ _ standing => exact kept standing rfl
  | closesDevice _ _ known _ standing =>
    exact kept standing (camOf_devices (by rw [closedState, setConn_userMap, known]; rfl) user)
  | closesViewer found index =>
    rw [noIndex _ _ found] at index
    cases index

/-- A browser's message that is not for a camera. -/
theorem calm_text {text : Text} (found : s.conns c = some conn) (isText : conn.url ≠ wscam)
    (turn : Turn (fun _ => False) s (.utf8 c text) t) : Calm user hostUrl s t := by
  have kept {u : ServerState} (still : Still u t) (paced : camOf u user hostUrl = camOf s user hostUrl)
      (procs : u.procs = s.procs) : Calm user hostUrl s t := by
    have calm := still.calm user hostUrl
    exact ⟨calm.paced.trans (congrArg _ paced), procs ▸ calm.snapshots⟩
  cases turn with
  | same _ standing => exact kept standing rfl rfl
  | speaks _ _ _ _ _ standing => exact kept standing rfl rfl
  | joins found' isCam =>
    cases found.symm.trans found'
    exact absurd isCam isText

theorem pace_step {e : Event} (stocked : Stocked s) (named : Named s) (allOpen : AllOpen s)
    (enabled : Enabled s e) (isUser : user ≠ .undefined) (own : actor s e = some user) (only : NoticesOnly s user hostUrl e)
    (paces : Pace ((camOf s user hostUrl).map pace) asked answered) (moved : step s e = some t) :
    Pace ((camOf t user hostUrl).map pace) (asked + newSnapshots s t hostUrl) (answered + notices s t hostUrl) := by
  have more := Nat.le_add_right answered (notices s t hostUrl)
  cases e with
  | connect | close | login | logout | prepareDevice | request | camsnap => cases own
  | utf8 c text =>
    obtain ⟨conn, found, _⟩ := enabled
    rw [actor, found, Option.bind_some] at own
    by_cases isCam : conn.url = wscam
    · refine pace_joins ?_ more paces
      refine of_step moved (P := fun t => Joins user hostUrl s t) ?_
      rw [handle, onUtf8, wp_bind, wp_getConn_of_found found, if_pos isCam]
      exact wp_webcamProcess_joins allOpen found own
    · refine pace_calm ?_ more paces
      refine of_step moved (P := fun t => Calm user hostUrl s t) ?_
      rw [handle, wp_onUtf8_text found isCam]
      exact wp_post (step_textProcess found) fun _ _ turn => calm_text found isCam turn
  | binary c buffer random =>
    obtain ⟨conn, found, _⟩ := enabled
    rw [actor, found, Option.map_some, Option.some_inj] at own
    subst own
    have beats : Beats conn.user hostUrl s t := by
      refine of_step moved (P := fun t => Beats conn.user hostUrl s t) ?_
      rw [handle, wp_connectionParse_device found isUser]
      obtain ⟨mgr, known⟩ := Option.isSome_iff_exists.mp (named.known c conn found isUser)
      refine wp_parseNormalMessage_beats known (fun key cam exists_ => ?_) stocked.noHeader c buffer hostUrl
      have exists_ := camOf_eq_some.mpr ⟨mgr, known, exists_⟩
      exact ⟨cam, exists_, allOpen _ _ _ exists_⟩
    exact pace_beats (only t moved) beats paces
  | timeout user' hostUrl' =>
    cases own
    obtain ⟨mgr, cam, known, found, waits⟩ := enabled
    have opened : Opened s user hostUrl' := by
      have exists_ := camOf_eq_some.mpr ⟨mgr, known, found⟩
      exact ⟨cam, exists_, allOpen _ _ _ exists_⟩
    have readied := of_step moved (wp_onTimeout known found opened)
    by_cases here : hostUrl = hostUrl'
    · subst here
      refine pace_readied readied ?_
      rw [camOf_of_known known, found, Option.map_some] at paces
      have bound : asked + cam.timers + cam.isReady.toNat ≤ 2 + answered := paces.1
      omega
    · exact pace_calm (readied.calm here) more paces

end

/-! Runs. -/

/-- A step of a run of the server in which the camera's viewers stay and join once, and what is
taken for a notice is one. -/
def Keeping (username hostUrl : Text) (w : Watch) (e : Event) : Prop :=
  Enabled w.server e ∧ StaysOnce w.server username hostUrl e ∧ NoticesOnly w.server (.str username) hostUrl e

/-- What holds of every state that such a run reaches. -/
structure Kept (username hostUrl : Text) (w : Watch) : Prop where
  stocked : Stocked w.server
  named : Named w.server
  noIndex : NoIndex w.server
  allOpen : AllOpen w.server
  lists : Lists ((camOf w.server (.str username) hostUrl).map viewing) (Viewer w.server username hostUrl)
  paces : Pace ((camOf w.server (.str username) hostUrl).map pace) w.asked w.answered

section
variable {username hostUrl : Text} {w w' : Watch}

theorem kept_init : Kept username hostUrl Watch.init where
  stocked := stocked_init
  named := ⟨fun _ _ found => (nomatch found), fun _ _ _ found => (nomatch found)⟩
  noIndex _ _ found := nomatch found
  allOpen _ _ _ found := nomatch found
  lists := fun _ ⟨_, found, _⟩ => nomatch found
  paces := rfl

theorem Kept.step {e : Event} (kept : Kept username hostUrl w) (keeping : Keeping username hostUrl w e)
    (moved : Watch.step (.str username) hostUrl w e = some w') : Kept username hostUrl w' := by
  obtain ⟨enabled, stays, only⟩ := keeping
  obtain ⟨t, moved, same⟩ := Option.map_eq_some_iff.mp moved
  have path := step_path kept.stocked enabled moved
  have turn : Turn (fun user => actor w.server e = some user) w.server e t := step_turn enabled (fun _ acts => acts) moved
  have server : w'.server = t := by
    rw [← same]
    split <;> rfl
  have paces : Pace ((camOf t (.str username) hostUrl).map pace) w'.asked w'.answered := by
    rw [← same]
    split
    next own =>
      exact pace_step kept.stocked kept.named kept.allOpen enabled (by simp) own only kept.paces moved
    next other =>
      rw [pace_turn kept.noIndex other other turn]
      exact kept.paces
  exact ⟨server ▸ path.stocked kept.stocked, server ▸ path.named kept.named, server ▸ noIndex_turn kept.noIndex turn,
    server ▸ allOpen_views kept.allOpen (views_turn kept.noIndex turn),
    server ▸ lists_turn kept.noIndex kept.lists enabled stays turn, server ▸ paces⟩

/-- Every run of the server is one with its snapshots counted. -/
theorem watched {good : ServerState → Event → Prop} {s : ServerState} (hostUrl : Text) (user : JsVal) (reached : Reach Events.step good Starts s) :
    ∃ w, w.server = s ∧ Reach (Watch.step user hostUrl) (fun w e => good w.server e) (· = .init) w := by
  induction reached with
  | start first => exact ⟨.init, first.symm, .start rfl⟩
  | @next s t e _ ok moved ih =>
    obtain ⟨w, rfl, reached⟩ := ih
    have counted : Watch.step user hostUrl w e = some (if actor w.server e = some user then
        ⟨t, w.asked + newSnapshots w.server t hostUrl, w.answered + notices w.server t hostUrl⟩
      else { w with server := t }) := by
      rw [Watch.step, moved, Option.map_some]
    refine ⟨_, ?_, reached.next ok counted⟩
    split <;> rfl

/-- In every run in which the camera's viewers stay and join once: the manager lists exactly the
open viewers, each once, counts them, and is open exactly while there is one; and at most one
snapshot is asked for at a time. -/
theorem viewers_listed (reached : Reach (Watch.step (.str username) hostUrl) (Keeping username hostUrl) (· = .init) w) :
    (match camOf w.server (.str username) hostUrl with
      | none => ∀ c, ¬ Viewer w.server username hostUrl c
      | some cam => (∀ c, c ∈ cam.conns.map Prod.snd ↔ Viewer w.server username hostUrl c) ∧
          (cam.conns.map Prod.snd).Nodup ∧ cam.connCount = cam.conns.length ∧
          (cam.isOpen = true ↔ 0 < cam.conns.length)) ∧
    w.asked ≤ w.answered + 1 := by
  have kept : Kept username hostUrl w := by
    refine reached.invariant ?_ fun _ _ _ kept keeping moved => kept.step keeping moved
    rintro _ rfl
    exact kept_init
  refine ⟨?_, kept.paces.bound⟩
  have lists := kept.lists
  cases found : camOf w.server (.str username) hostUrl with
  | none => rwa [found] at lists
  | some cam => rwa [found] at lists

end

/-! Two viewers of a camera, and one that closes. -/

def twoViewers : List Event := oneViewer ++ [.connect 2 wscam (some 0), .utf8 2 camUrl]

/-- A test that implies the condition: a first message, or one that hands nothing to a session. -/
def keeping : Test fun s e => Enabled s e ∧ StaysOnce s viewingUser camUrl e ∧ NoticesOnly s (.str viewingUser) camUrl e where
  passes s e :=
    decide (Enabled s e) &&
    (match e with
      | .close c | .utf8 c _ => (s.conns c).all fun conn => conn.hostUrl.isNone
      | _ => true) &&
    (Events.step s e).all fun t => (sentSince s t).all fun output => (handed s camUrl output).isNone
  sound s e passes := by
    simp only [Bool.and_eq_true, decide_eq_true_eq] at passes
    obtain ⟨⟨enabled, stays⟩, silent⟩ := passes
    have noViewer : ∀ c, ((s.conns c).all fun conn => conn.hostUrl.isNone) = true → ¬ Viewer s viewingUser camUrl c := by
      rintro c none ⟨conn, found, _, _, url⟩
      simp [found, url] at none
    refine ⟨enabled, ?_, fun t moved output sent payload given => ?_⟩
    · cases e with
      | close c => exact noViewer c stays
      | utf8 c text => exact fun viewer => absurd viewer (noViewer c stays)
      | connect | binary | login | logout | prepareDevice | request | camsnap | timeout => trivial
    · rw [moved, Option.all_some, List.all_eq_true] at silent
      have none := silent output sent
      rw [given] at none
      cases none

/-- Who is listed, and whether the viewer's connection is open. -/
def listing (s : ServerState) : Option (List ConnId) × Option Bool :=
  ((camOf s (.str viewingUser) camUrl).map fun cam => cam.conns.map Prod.snd, (s.conns 1).map Conn.isOpen)

theorem twoViewers_listed : (keeping.run step .init twoViewers).map listing = some (some [1, 2], some true) := by
  decide +kernel

theorem viewers_listed_two : ∃ (w : Watch) (cam : CamManager), camOf w.server (.str viewingUser) camUrl = some cam ∧
    cam.conns.map Prod.snd = [1, 2] ∧ cam.connCount = 2 ∧ Viewer w.server viewingUser camUrl 1 ∧
    Viewer w.server viewingUser camUrl 2 ∧ cam.isOpen = true ∧ w.asked ≤ w.answered + 1 := by
  obtain ⟨s, ran, lists⟩ := Option.map_eq_some_iff.mp twoViewers_listed
  obtain ⟨listed, _⟩ := Prod.mk.injEq _ _ _ _ ▸ lists
  obtain ⟨cam, found, conns⟩ := Option.map_eq_some_iff.mp listed
  obtain ⟨w, rfl, reached⟩ := watched camUrl (.str viewingUser) (Test.reach rfl ran)
  obtain ⟨described, bound⟩ := viewers_listed reached
  rw [found] at described
  obtain ⟨members, _, count, whileViewed⟩ := described
  have length : cam.conns.length = 2 := by
    have lengths := congrArg List.length conns
    rwa [List.length_map] at lengths
  refine ⟨w, cam, found, conns, by rw [count, length]; rfl, (members 1).mp ?_, (members 2).mp ?_, whileViewed.mpr ?_, bound⟩
  · simp [conns]
  · simp [conns]
  · rw [length]
    exact Nat.two_pos

theorem closedViewer_listed : (runEnabled (oneViewer ++ [.close 1])).map listing = some (some [1], some false) := by
  decide +kernel

/-- A viewer that closes stays in the list. -/
theorem closed_viewer_stays : ¬ ∀ s, Reach step Enabled Starts s → ∀ cam,
    camOf s (.str viewingUser) camUrl = some cam →
      ∀ c, c ∈ cam.conns.map Prod.snd ↔ Viewer s viewingUser camUrl c := by
  intro always
  obtain ⟨s, ran, lists⟩ := Option.map_eq_some_iff.mp closedViewer_listed
  obtain ⟨listed, isClosed⟩ := Prod.mk.injEq _ _ _ _ ▸ lists
  obtain ⟨cam, found, conns⟩ := Option.map_eq_some_iff.mp listed
  obtain ⟨conn, known, isOpen, _⟩ := (always s (reach_of_runEnabled ran) cam found 1).mp (by rw [conns]; exact List.mem_singleton.mpr rfl)
  rw [known, Option.map_some, isOpen] at isClosed
  cases isClosed

end WebTunnel.Server.Viewers
