import WebTunnel.Server.Registers

/-! The registry of a user's devices. A device's name is drawn at random; where no open
connection of the user has it already, the registry lists the open connections. -/

namespace WebTunnel.Server.Devices
open Library.Bytes Library.JavaScript Library.Json Library.Program Library.Run Library.Slots Sessions Wire Server.Types
open Processors Framing Events Moves Registers

/-- The connection is open and a device of this user with this name. -/
def Device (s : ServerState) (user : JsVal) (name : Text) (c : ConnId) : Prop :=
  ∃ conn, s.conns c = some conn ∧ conn.isOpen = true ∧ conn.user = user ∧ conn.devicename = some name

/-- The device list, in no particular order. -/
def devices (mgr : UserMgmr) : List Text := mgr.connections.map Prod.fst

/-- A handshake draws a name that no open connection of its user has. -/
def DrawsNew (s : ServerState) : Event → Prop
  | .binary c buffer random => ∀ conn username, s.conns c = some conn → conn.user = .undefined →
      handshakeUser buffer = .ok username → username ≠ .undefined →
      ∀ c', ¬ Device s username (decimal (random + 1)) c'
  | _ => True

/-- Each user's entries are the open connections of that user. -/
structure Roster (s : ServerState) : Prop where
  entries : ∀ user, user ≠ .undefined → ∀ name c, Registered s user name c ↔ Device s user name c
  keys : ∀ user mgr, s.userMap user = some mgr → (devices mgr).Nodup
  named : ∀ c conn, s.conns c = some conn → conn.user ≠ .undefined → conn.devicename.isSome
  noIndex : ∀ c conn, s.conns c = some conn → conn.camSeq = none

section
variable {active : JsVal → Prop} {s t : ServerState} {user username : JsVal} {name : Text} {c c' : ConnId} {conn conn' : Conn}
  {mgr mgr' : UserMgmr}

theorem registered_standing (standing : Standing active s t) : Registered t user name c ↔ Registered s user name c := by
  constructor
  · rintro ⟨mgr', known, listed⟩
    obtain ⟨mgr, known, same⟩ := standing.known known
    exact ⟨mgr, known, same.devices ▸ listed⟩
  · rintro ⟨mgr, known, listed⟩
    obtain ⟨mgr', known, same⟩ := standing.still known
    exact ⟨mgr', known, same.devices.symm ▸ listed⟩

theorem device_standing (standing : Standing active s t) : Device t user name c ↔ Device s user name c := by
  rw [Device, standing.conns]
  rfl

theorem Roster.standing (roster : Roster s) (standing : Standing active s t) : Roster t where
  entries user isUser name c := by
    rw [registered_standing standing, device_standing standing]
    exact roster.entries user isUser name c
  keys user mgr' known := by
    obtain ⟨mgr, known, same⟩ := standing.known known
    rw [devices, same.devices]
    exact roster.keys user mgr known
  named c conn found := roster.named c conn (standing.conns ▸ found)
  noIndex c conn found := roster.noIndex c conn (standing.conns ▸ found)

theorem device_setConn : Device (s.setConn c conn) user name c' ↔
    if c' = c then conn.isOpen = true ∧ conn.user = user ∧ conn.devicename = some name else Device s user name c' := by
  simp only [Device, setConn_conns]
  split
  · constructor
    · rintro ⟨_, same, isDevice⟩
      cases same
      exact isDevice
    · exact fun isDevice => ⟨conn, rfl, isDevice⟩
  · rfl

theorem registered_setMgr (mgr : UserMgmr) : Registered (s.setMgr username mgr) user name c ↔
    if user = username then mgr.connections.lookup name = some c else Registered s user name c := by
  simp only [Registered, setMgr_userMap]
  split
  · constructor
    · rintro ⟨_, same, listed⟩
      cases same
      exact listed
    · exact fun listed => ⟨mgr, rfl, listed⟩
  · rfl

theorem Roster.of_device (roster : Roster s) (found : s.conns c = some conn) (isOpen : conn.isOpen = true)
    (isDevice : conn.user ≠ .undefined) : ∃ name, conn.devicename = some name ∧ Registered s conn.user name c := by
  obtain ⟨name, named⟩ := Option.isSome_iff_exists.mp (roster.named c conn found isDevice)
  exact ⟨name, named, (roster.entries _ isDevice name c).mpr ⟨conn, found, isOpen, rfl, named⟩⟩

/-- A connection that stays what it was to the registry. -/
theorem Roster.setConn (roster : Roster s) (named : conn.user ≠ .undefined → conn.devicename.isSome)
    (noIndex : conn.camSeq = none)
    (same : ∀ user, user ≠ .undefined → ∀ name, (conn.isOpen = true ∧ conn.user = user ∧ conn.devicename = some name) ↔
      Device s user name c) : Roster (s.setConn c conn) where
  entries user isUser name c' := by
    rw [device_setConn]
    split
    next here =>
      rw [same user isUser name, here]
      exact roster.entries user isUser name c
    next => exact roster.entries user isUser name c'
  keys := roster.keys
  named c' conn' found isDevice := by
    rw [setConn_conns] at found
    split at found
    · cases found
      exact named isDevice
    · exact roster.named c' conn' found isDevice
  noIndex c' conn' found := by
    rw [setConn_conns] at found
    split at found
    · cases found
      exact noIndex
    · exact roster.noIndex c' conn' found

theorem Roster.withCam (roster : Roster s) (known : s.userMap user = some mgr) {hostUrl : Text}
    {cam : CamManager} : Roster (s.setMgr user (Registers.withCam mgr hostUrl cam)) where
  entries key isUser name c := by
    rw [registered_setMgr]
    refine Iff.trans ?_ (roster.entries key isUser name c)
    split
    next own =>
      subst own
      exact ⟨fun listed => ⟨mgr, known, listed⟩, fun ⟨_, known', listed⟩ => by
        cases known.symm.trans known'
        exact listed⟩
    next => rfl
  keys := setMgr_all roster.keys (roster.keys user mgr known)
  named := roster.named
  noIndex := roster.noIndex

theorem device_iff (found : s.conns c = some conn) :
    Device s user name c ↔ conn.isOpen = true ∧ conn.user = user ∧ conn.devicename = some name := by
  simp [Device, found]

theorem devices_filter : devices (mgr.delConnByName name) = (devices mgr).filter (· ≠ name) := by
  simp only [devices, UserMgmr.delConnByName, List.filter_map]
  rfl

theorem lookup_filter {β : Type} (fields : List (Text × β)) (key name : Text) :
    (fields.filter (·.1 ≠ key)).lookup name = if name = key then none else fields.lookup name := by
  induction fields with
  | nil => simp
  | cons field rest ih =>
    by_cases dropped : field.1 = key
    · rw [List.filter_cons_of_neg (by simpa using dropped), ih, List.lookup_cons]
      by_cases same : name = key
      · rw [if_pos same, if_pos same]
      · rw [if_neg same, if_neg same, beq_false_of_ne (fun equal => same (equal.trans dropped))]
    · rw [List.filter_cons_of_pos (by simpa using dropped), List.lookup_cons, List.lookup_cons, ih]
      by_cases here : name = field.1
      · rw [← here] at dropped
        simp [← here, dropped]
      · rw [beq_false_of_ne here]

theorem registered_getD : ((s.userMap user).getD (UserMgmr.new user)).connections.lookup name = some c ↔
    Registered s user name c := by
  unfold Registered
  cases known : s.userMap user with
  | none => simp [UserMgmr.new]
  | some mgr => simp

theorem not_device_new (found : s.conns c = some conn) (isNew : conn.user = .undefined) (isUser : user ≠ .undefined) :
    ¬ Device s user name c := by
  rw [device_iff found]
  exact fun device => isUser (device.2.1.symm.trans isNew)

theorem Roster.handshake (roster : Roster s) (found : s.conns c = some conn)
    (isNew : conn.user = .undefined) (user : conn'.user = username) (isOpen : conn'.isOpen = true)
    (camSeq : conn'.camSeq = none) (named : conn'.devicename = some name)
    (fresh : username ≠ .undefined → ∀ c', ¬ Device s username name c') :
    Roster ((s.setConn c conn').setMgr username
      (((s.userMap username).getD (UserMgmr.new username)).addConnByName c name)) where
  entries key isUser name' c' := by
    rw [registered_setMgr]
    refine Iff.trans ?_ device_setConn.symm
    have notBefore : ¬ Device s key name' c := not_device_new found isNew isUser
    by_cases own : key = username
    · rw [if_pos own, UserMgmr.addConnByName, lookup_set]
      by_cases here : name' = name
      · rw [if_pos here, Option.some_inj, own, here]
        by_cases self : c' = c
        · rw [if_pos self]
          exact ⟨fun _ => ⟨isOpen, user, named⟩, fun _ => self.symm⟩
        · rw [if_neg self]
          exact ⟨fun same => absurd same.symm self, fun device => absurd device (fresh (own ▸ isUser) c')⟩
      · rw [if_neg here, ← own, registered_getD, roster.entries key isUser]
        by_cases self : c' = c
        · rw [if_pos self, self]
          refine ⟨fun device => absurd device notBefore, fun device => ?_⟩
          exact absurd (Option.some_inj.mp (device.2.2.symm.trans named)) here
        · rw [if_neg self]
    · rw [if_neg own]
      refine (roster.entries key isUser name' c').trans ?_
      by_cases self : c' = c
      · rw [if_pos self, self]
        exact ⟨fun device => absurd device notBefore, fun device => absurd (device.2.1.symm.trans user) own⟩
      · rw [if_neg self]
  keys := by
    refine setMgr_all roster.keys ?_
    rw [devices, UserMgmr.addConnByName, List.map_cons, List.nodup_cons]
    refine ⟨by simp, ?_⟩
    have kept : (devices ((s.userMap username).getD (UserMgmr.new username))).Nodup := by
      cases known : s.userMap username with
      | none => exact List.nodup_nil
      | some mgr => exact roster.keys _ _ known
    exact List.Nodup.sublist (List.filter_sublist.map _) kept
  named c' conn₁ found₁ isDevice := by
    rw [setMgr_conns, setConn_conns] at found₁
    split at found₁
    · cases found₁
      rw [named]
      rfl
    · exact roster.named c' conn₁ found₁ isDevice
  noIndex c' conn₁ found₁ := by
    rw [setMgr_conns, setConn_conns] at found₁
    split at found₁
    · cases found₁
      exact camSeq
    · exact roster.noIndex c' conn₁ found₁

theorem Roster.closesDevice (roster : Roster s) (found : s.conns c = some conn) (isOpen : conn.isOpen = true)
    (isDevice : conn.user ≠ .undefined) (known : s.userMap conn.user = some mgr) (named : conn.devicename = some name) :
    Roster ((closedState s c conn).setMgr conn.user (mgr.delConnByName name)) where
  entries key isUser name' c' := by
    rw [registered_setMgr]
    refine Iff.trans ?_ device_setConn.symm
    by_cases own : key = conn.user
    · rw [if_pos own, UserMgmr.delConnByName, lookup_filter]
      have entries : mgr.connections.lookup name' = some c' ↔ Device s key name' c' := by
        rw [← roster.entries key isUser]
        exact ⟨fun listed => ⟨mgr, own ▸ known, listed⟩, fun ⟨mgr', known', listed⟩ => by
          rw [own, known] at known'
          cases known'
          exact listed⟩
      have self : mgr.connections.lookup name = some c := by
        obtain ⟨name', named', mgr', known', listed⟩ := roster.of_device found isOpen isDevice
        cases known.symm.trans known'
        cases named.symm.trans named'
        exact listed
      by_cases here : name' = name
      · rw [if_pos here]
        refine ⟨by simp, fun device => ?_⟩
        split at device
        · cases device.1
        · next other =>
          rw [← entries, here, self, Option.some_inj] at device
          exact absurd device.symm other
      · rw [if_neg here, entries]
        split
        next same =>
          rw [same, device_iff found]
          exact ⟨fun device => absurd (Option.some_inj.mp (device.2.2.symm.trans named)) here, by simp⟩
        next => rfl
    · rw [if_neg own]
      refine (roster.entries key isUser name' c').trans ?_
      split
      next same =>
        rw [same, device_iff found]
        exact ⟨fun device => absurd device.2.1.symm own, by simp⟩
      next => rfl
  keys := by
    refine setMgr_all roster.keys ?_
    rw [devices_filter]
    exact (roster.keys _ _ known).filter _
  named c' conn₁ found₁ isDevice := by
    rw [setMgr_conns, closedState, setConn_conns] at found₁
    split at found₁
    · cases found₁
      exact roster.named c conn found isDevice
    · exact roster.named c' conn₁ found₁ isDevice
  noIndex c' conn₁ found₁ := by
    rw [setMgr_conns, closedState, setConn_conns] at found₁
    split at found₁
    · cases found₁
      exact roster.noIndex c conn found
    · exact roster.noIndex c' conn₁ found₁

theorem Roster.turn (roster : Roster s) {e : Event} (enabled : Enabled s e) (draws : DrawsNew s e)
    (turn : Turn active s e t) : Roster t := by
  cases turn with
  | same _ standing => exact roster.standing standing
  | connect user isOpen hostUrl camSeq standing =>
    refine Roster.standing (roster.setConn (fun isDevice => absurd user isDevice) camSeq fun key isUser name => ?_) standing
    constructor
    · rintro ⟨_, rfl, _⟩
      exact absurd user isUser
    · rintro ⟨conn, found, _⟩
      rw [show s.conns _ = none from enabled] at found
      cases found
  | @speaks _ _ conn _ conn' _ found speaks named standing =>
    have named : conn'.devicename = conn.devicename := by
      rcases named with same | ⟨unnamed, username, name, registered⟩
      · exact same
      · obtain ⟨conn₁, found₁, _, _, named⟩ := (roster.entries (.str username) (by simp) name _).mp registered
        cases found.symm.trans found₁
        rw [unnamed] at named
        cases named
    refine Roster.standing (roster.setConn ?_ ?_ fun key isUser name => ?_) standing
    · rw [speaks.user, named]
      exact roster.named _ _ found
    · rw [speaks.camSeq]
      exact roster.noIndex _ _ found
    · rw [speaks.user, speaks.isOpen, named, device_iff found]
  | handshake conn' found isNew names user isOpen sessUsername hostUrl camSeq named standing =>
    obtain ⟨conn, found', isOpen'⟩ := enabled
    cases found.symm.trans found'
    refine Roster.standing ?_ standing
    exact roster.handshake found isNew user (isOpen.trans isOpen') (camSeq.trans (roster.noIndex _ _ found)) named
      fun isUser c' => draws _ _ found isNew names isUser c'
  | @joins c hostUrl conn _ _ _ found isCam session known current wellFormed standing =>
    have set : Roster (s.setConn c { conn with camSeq := none, hostUrl := some hostUrl }) :=
      roster.setConn (roster.named c conn found) rfl fun key isUser name => (device_iff found).symm
    exact (set.withCam known).standing standing
  | @closes c conn _ found noDevice standing =>
    obtain ⟨conn', found', isOpen'⟩ := enabled
    cases found.symm.trans found'
    have isNew : conn.user = .undefined := by
      by_contra isDevice
      obtain ⟨name, named, mgr, known, _⟩ := roster.of_device found isOpen' isDevice
      rcases noDevice isDevice with missing | unnamed
      · rw [known] at missing
        cases missing
      · rw [named] at unnamed
        cases unnamed
    have closed : Roster (closedState s c conn) := by
      refine roster.setConn (fun isDevice => absurd isNew isDevice) (roster.noIndex c conn found) fun key isUser name => ?_
      exact ⟨by simp, fun device => absurd device (not_device_new found isNew isUser)⟩
    exact closed.standing standing
  | closesDevice found isDevice known named standing =>
    obtain ⟨conn, found', isOpen'⟩ := enabled
    cases found.symm.trans found'
    exact (roster.closesDevice found isOpen' isDevice known named).standing standing
  | closesViewer found index =>
    rw [roster.noIndex _ _ found] at index
    cases index

theorem conns_of_close (roster : Roster s) (turn : Turn active s (.close c) t) :
    ∃ conn, s.conns c = some conn ∧ t.conns = (closedState s c conn).conns := by
  cases turn with
  | same noClose => exact absurd rfl (noClose c)
  | speaks _ noClose => exact absurd rfl (noClose c)
  | closes found _ standing => exact ⟨_, found, standing.conns⟩
  | closesDevice found _ _ _ standing => exact ⟨_, found, standing.conns⟩
  | closesViewer found index =>
    rw [roster.noIndex _ _ found] at index
    cases index

end

theorem roster_of_reach {s : ServerState} (reached : Reach step (fun s e => Enabled s e ∧ DrawsNew s e) Starts s) :
    Roster s := by
  have start : ∀ s, Starts s → Roster s := by
    rintro _ rfl
    exact ⟨fun _ _ _ _ => ⟨fun ⟨_, known, _⟩ => (nomatch known), fun ⟨_, found, _⟩ => (nomatch found)⟩,
      fun _ _ known => (nomatch known), fun _ _ found => (nomatch found), fun _ _ found => (nomatch found)⟩
  exact reached.invariant start fun s e t roster good moved =>
    have turn : Turn (fun _ => True) s e t := step_turn good.1 (fun _ _ => trivial) moved
    roster.turn good.1 good.2 turn

/-- In every run whose handshakes draw names that no open connection of their user has: an open
device is registered under its name, and no other has that name; what is found by a name, and
what is listed, are the open devices; and closing one removes its entry only. -/
theorem devices_registered {s : ServerState}
    (reached : Reach step (fun s e => Enabled s e ∧ DrawsNew s e) Starts s) (user : JsVal) (isUser : user ≠ .undefined) :
    (∀ c conn, s.conns c = some conn → conn.isOpen = true → conn.user = user →
      ∃ name, conn.devicename = some name ∧ Registered s user name c) ∧
    (∀ name c c', Device s user name c → Device s user name c' → c = c') ∧
    (∀ mgr, s.userMap user = some mgr →
      (∀ name c, mgr.getConnByName name = some (.conn c) ↔ Device s user name c) ∧
      (devices mgr).Nodup ∧ ∀ name, name ∈ devices mgr ↔ ∃ c, Device s user name c) ∧
    (∀ c t, Enabled s (.close c) → step s (.close c) = some t →
      ∀ name c', Registered t user name c' ↔ Registered s user name c' ∧ c' ≠ c) := by
  have roster := roster_of_reach reached
  have entries := roster.entries user isUser
  refine ⟨fun c conn found isOpen own => ?_, fun name c c' device device' => ?_, fun mgr known => ?_, ?_⟩
  · subst own
    exact roster.of_device found isOpen isUser
  · obtain ⟨mgr, known, listed⟩ := (entries name c).mpr device
    obtain ⟨mgr', known', listed'⟩ := (entries name c').mpr device'
    cases known.symm.trans known'
    exact Option.some_inj.mp (listed.symm.trans listed')
  · have registered : ∀ name c, Registered s user name c ↔ mgr.connections.lookup name = some c := by
      intro name c
      exact ⟨fun ⟨_, known', listed⟩ => by cases known.symm.trans known'; exact listed, fun listed => ⟨mgr, known, listed⟩⟩
    refine ⟨fun name c => ?_, roster.keys user mgr known, fun name => ?_⟩
    · rw [← entries, registered, UserMgmr.getConnByName]
      cases mgr.connections.lookup name with
      | some c' => simp
      | none =>
        simp only [reduceCtorEq, iff_false]
        split <;> simp
    · simp only [← entries, registered]
      rw [← Option.isSome_iff_exists, List.lookup_isSome_iff, devices, List.mem_map]
      simp only [beq_iff_eq]
      exact exists_congr fun field => and_congr_right fun _ => eq_comm
  · intro c t enabled moved name c'
    have after := roster_of_reach (reached.next ⟨enabled, trivial⟩ moved)
    have turn : Turn (fun _ => True) s (.close c) t := step_turn enabled (fun _ _ => trivial) moved
    obtain ⟨conn, found, closed⟩ := conns_of_close roster turn
    rw [after.entries user isUser, entries, Device, closed]
    refine (device_setConn (s := s)).trans ?_
    split
    next here => exact ⟨by simp, fun ⟨_, other⟩ => absurd here other⟩
    next other => exact ⟨fun device => ⟨device, other⟩, fun device => device.1⟩

/-! Two devices of one user, that draw two names or the same one. -/

def username : Text := "u".toList

def bothConnect (random random' : Fin 100000) : List Event :=
  [.connect 0 [] none, .binary 0 (handshakeOf username) random, .connect 1 [] none,
    .binary 1 (handshakeOf username) random']

def drawsNew : Test fun s e => Roster s → DrawsNew s e where
  passes
    | s, .binary _ buffer random => match handshakeUser buffer with
      | .ok username => (s.userMap username).all fun mgr => decide (decimal (random + 1) ∉ devices mgr)
      | .error _ => true
    | _, _ => true
  sound s e passes roster := by
    cases e with
    | binary c buffer random =>
      intro conn username found isNew names isUser c' device
      obtain ⟨mgr, known, listed⟩ := (roster.entries username isUser _ c').mpr device
      simp only [names, known, Option.all_some, decide_eq_true_eq] at passes
      obtain ⟨before, after, split, _⟩ := List.lookup_eq_some_iff.mp listed
      rw [devices, split] at passes
      simp at passes
    | connect | utf8 | close | login | logout | prepareDevice | request | camsnap | timeout => trivial

/-- A run whose handshakes draw names that are not registered. -/
theorem reach_of_fresh {events : List Event} {t : ServerState}
    (ran : ((Test.decided Enabled).both drawsNew).run step .init events = some t) :
    Reach step (fun s e => Enabled s e ∧ DrawsNew s e) Starts t := by
  have reached : Reach step (fun s e => Enabled s e ∧ (Roster s → DrawsNew s e)) Starts t := Test.reach rfl ran
  clear ran
  induction reached with
  | start first => exact .start first
  | next _ good moved ih => exact ih.next ⟨good.1, good.2 (roster_of_reach ih)⟩ moved

def registered (s : ServerState) : Option (List (Text × ConnId)) :=
  (s.userMap (.str username)).map UserMgmr.connections

theorem bothConnect_registered :
    (((Test.decided Enabled).both drawsNew).run step .init (bothConnect 4 7)).map
      registered = some (some [("8".toList, 1), ("5".toList, 0)]) := by
  decide +kernel

theorem devices_registered_both : ∃ s mgr, s.userMap (.str username) = some mgr ∧
    devices mgr = ["8".toList, "5".toList] ∧ mgr.getConnByName "5".toList = some (.conn 0) ∧
    Device s (.str username) "5".toList 0 := by
  obtain ⟨s, ran, views⟩ := Option.map_eq_some_iff.mp bothConnect_registered
  obtain ⟨mgr, known, listed⟩ := Option.map_eq_some_iff.mp views
  have described := (devices_registered (reach_of_fresh ran) (.str username) (by simp)).2.2.1 mgr known
  have found : mgr.getConnByName "5".toList = some (.conn 0) := by
    rw [UserMgmr.getConnByName, listed]
    rfl
  exact ⟨s, mgr, known, by rw [devices, listed]; rfl, found, (described.1 _ _).mp found⟩

/-- Both draw the same number, and then the first one closes. -/
def collision : List Event := bothConnect 4 4 ++ [.close 0]

/-- The second one is open, and nothing is registered. -/
def hidden (s : ServerState) : Bool :=
  decide (registered s = some []) && (s.conns 1).any fun conn => conn.isOpen && decide (conn.user = .str username)

theorem collision_hidden : (runEnabled collision).map hidden = some true := by
  decide +kernel

theorem collision_hides : ¬ ∀ s, Reach step Enabled Starts s → ∀ user, user ≠ .undefined → ∀ c conn,
    s.conns c = some conn → conn.isOpen = true → conn.user = user →
      ∃ name, conn.devicename = some name ∧ Registered s user name c := by
  intro always
  obtain ⟨s, ran, views⟩ := Option.map_eq_some_iff.mp collision_hidden
  simp only [hidden, Bool.and_eq_true, decide_eq_true_eq, Option.any_eq_true] at views
  obtain ⟨listed, conn, found, isOpen, user⟩ := views
  obtain ⟨name, _, mgr, known, entry⟩ := always s (reach_of_runEnabled ran) (.str username) (by simp) 1 conn found isOpen user
  rw [registered, known, Option.map_some, Option.some_inj] at listed
  rw [listed] at entry
  cases entry

end WebTunnel.Server.Devices
