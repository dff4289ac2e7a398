import WebTunnel.Device.Connecting

/-! Forwards and their sessions: where a forward is opened only for a session that has none,
no session has two. -/

namespace WebTunnel.Device.Naming
set_option synthInstance.maxSize 10000
open Library.Bytes Library.Lists Library.Routines Library.Routines.Routine Library.Run Function Device.Types Buffers
open Http Forward Tunnel Manager Frames Footprints Keeping Connecting Reassembly Server.Wire

def Released (f : FwdId) (w : DevState) : Prop := .release (.forward f) ∈ w.data.acts

/-- The forwards that are open: each is the last that was opened for its session, and all that
are not were released. -/
structure Sole (w : DevState) : Prop where
  nodup : w.data.listForward.Nodup
  opened : ∀ f ∈ w.data.listForward, f < w.data.nextForward
  latest : ∀ f ∈ w.data.listForward, ∀ f' < w.data.nextForward,
    (w.data.forwards f').seq = (w.data.forwards f).seq → f' ≤ f
  released : ∀ f < w.data.nextForward, f ∉ w.data.listForward → Released f w

/-- The sessions of all forwards, and which of them are open. -/
structure Fixed (s : FwdId → Nat) (l : List FwdId) (n : FwdId) (done : List Act) (w : DevState) : Prop where
  seq : ∀ f, (w.data.forwards f).seq = s f
  list : w.data.listForward = l
  count : w.data.nextForward = n
  done : ∀ act ∈ done, act ∈ w.data.acts

/-! What leaves the sessions as they are. -/

/-- A forward with this session. -/
class OfSession (seq : Nat) (fwd : TcpForwardContext) : Prop where
  same : fwd.seq = seq

def apart : Set Part := {part | part ≠ .forwardList ∧ part ≠ .forwardCount ∧ ∀ f, part ≠ .forward f}

section
variable {α : Type} {f : FwdId} {s : FwdId → Nat} {l : List FwdId} {n : FwdId} {done : List Act} {seq : Nat}

instance (fwd : {fwd : TcpForwardContext // fwd.seq = seq}) :
    OfSession seq ⟨line, status, funcRun, bufWrite, idle, pfd, fwdFd, host, port, fwd.val.seq⟩ := ⟨fwd.property⟩

/-- Whatever follows the reading of a forward has its session. -/
theorem keeps_fixed_next {next : TcpForwardContext → DevM α}
    (second : ∀ fwd : {fwd : TcpForwardContext // fwd.seq = s f}, Keeps (Fixed s l n done) (next fwd)) :
    Keeps (Fixed s l n done) (getForward f >>= next) := by
  refine ⟨fun w fixed => ?_⟩
  rw [wp_bind, wp_getForward]
  exact (second ⟨_, fixed.seq f⟩).kept w fixed

instance (priority := high) keeps_fixed_get {next : TcpForwardContext → DevM α}
    [second : ∀ fwd : {fwd : TcpForwardContext // fwd.seq = s f}, Keeps (Fixed s l n done) (next fwd)] :
    Keeps (Fixed s l n done) (getForward f >>= next) := keeps_fixed_next second

instance keeps_fixed_set (fwd : TcpForwardContext) [own : OfSession (s f) fwd] :
    Keeps (Fixed s l n done) (setForward f fwd) := by
  refine ⟨fun w fixed => ?_⟩
  rw [wp_setForward]
  refine ⟨fun f' => ?_, fixed.list, fixed.count, fixed.done⟩
  simp only [HttpMgmt.setForward]
  by_cases same : f' = f
  · subst same
    rw [update_self]
    exact own.same
  · rw [update_of_ne same]
    exact fixed.seq f'

instance : Allows apart .prepare := ⟨nofun, nofun, nofun⟩
instance : Allows apart .sync := ⟨nofun, nofun, nofun⟩
instance : Allows apart .shake := ⟨nofun, nofun, nofun⟩
instance : Allows apart .queue := ⟨nofun, nofun, nofun⟩
instance : Allows apart .polls := ⟨nofun, nofun, nofun⟩
instance : Allows apart .schedule := ⟨nofun, nofun, nofun⟩
instance : Allows apart .alive := ⟨nofun, nofun, nofun⟩
instance (h : BufHead) : Allows apart (.fill h) := ⟨nofun, nofun, nofun⟩

instance : HttpWithin apart Set.univ := ⟨fun c => by simp [httpParts, apart, Set.insert_subset_iff], fun _ _ _ => trivial⟩

instance : ClientsWithin apart Set.univ where
  parts := by
    rintro part (rfl | ⟨k, member⟩)
    · simp [apart]
    · revert part
      simp [clientParts, apart]
  acts _ _ := trivial

instance : ParserWithin apart := ⟨by simp [parserParts, apart, Set.insert_subset_iff]⟩
instance : QueueWithin apart Set.univ := ⟨by simp [queueParts, apart, Set.insert_subset_iff], fun _ _ => trivial⟩

instance : Within apart Set.univ websocketWriteAgain := within_note _
instance : Within apart Set.univ websocketClosed := within_note _

instance : Within apart Set.univ (setSync sync) := by
  unfold setSync
  infer_instance

instance (priority := low) keeps_fixed_apart (code : DevM α) [within : Within apart Set.univ code] :
    Keeps (Fixed s l n done) code := by
  refine keeps_of_within within fun w v frame fixed => ?_
  obtain ⟨new, same, _⟩ := frame.done
  refine ⟨fun f => ?_, ?_, ?_, fun act member => ?_⟩
  · rw [frame.forward f fun member => member.2.2 f rfl]
    exact fixed.seq f
  · rw [(frame.forwardList fun member => member.1 rfl).1]
    exact fixed.list
  · rw [frame.forwardCount fun member => member.2.1 rfl]
    exact fixed.count
  · rw [same]
    exact List.mem_append_right new (fixed.done act member)

instance : Keeps (Fixed s l n done) (setForwardLine f line) := by
  unfold setForwardLine
  infer_instance

instance : Keeps (Fixed s l n done) (setForwardCurr f curr) := by
  unfold setForwardCurr
  infer_instance

instance : Keeps (Fixed s l n done) (forwardToWrite f) := by
  unfold forwardToWrite
  infer_instance

instance : Keeps (Fixed s l n done) (forwardToRead f) := by
  unfold forwardToRead
  infer_instance

instance : Keeps (Fixed s l n done) (tcpForwardClosing f) := by
  unfold tcpForwardClosing
  refine keeps_next fun b => ?_
  cases b <;> infer_instance

instance : Keeps (Fixed s l n done) (tcpForwardConnect f) := by
  unfold tcpForwardConnect
  refine keeps_fixed_next fun fwd => ?_
  split <;> infer_instance

instance : Keeps (Fixed s l n done) (forwardWrote f b m) := by
  unfold forwardWrote
  infer_instance

instance : Keeps (Fixed s l n done) (forwardWriteLoop f count) := by
  induction count with
  | zero => exact keeps_stop _
  | succ count ih =>
    unfold forwardWriteLoop
    refine keeps_fixed_next fun fwd => ?_
    split
    · infer_instance
    · refine keeps_next fun info => keeps_next fun bytes => keeps_next fun m => keeps_next fun d =>
        @keeps_ite _ _ _ _ _ _ _ _ _ _ _ _ _ _ (@keeps_ite _ _ _ _ _ _ _ _ _ _ _ _ _ _ (keeps_next fun status => ?_))
      cases status <;> infer_instance

instance : Keeps (Fixed s l n done) (tcpForwardWrite f) := by
  unfold tcpForwardWrite
  refine keeps_fixed_next fun fwd => keeps_next fun _ => ?_
  split
  case h_3 | h_4 =>
    refine keeps_next fun b => keeps_next fun status => ?_
    cases status <;> infer_instance
  all_goals infer_instance

instance : Keeps (Fixed s l n done) (layForward b seq bytes) := by
  have within : Within apart Set.univ (layForward b seq bytes) := inferInstance
  exact keeps_fixed_apart _

instance : Keeps (Fixed s l n done) (tcpForwardRead f) := by
  unfold tcpForwardRead
  refine keeps_fixed_next fun fwd => keeps_next fun _ => keeps_next fun b => ?_
  split
  · infer_instance
  · refine keeps_next fun got => ?_
    split <;> infer_instance

instance : Keeps (Fixed s l n done) (runForward f) := by
  unfold runForward
  refine keeps_fixed_next fun fwd => ?_
  split <;> infer_instance

instance : Keeps (Fixed s l n done) processTcpForwardresp := by
  unfold processTcpForwardresp
  refine keeps_next fun d => keeps_next fun f => ?_
  cases f <;> infer_instance

end

/-! Opening and releasing. -/

section
variable {α : Type} {f : FwdId} {w v : DevState}

theorem Sole.fixed (sole : Sole w) (fixed : Fixed (fun f => (w.data.forwards f).seq) w.data.listForward w.data.nextForward w.data.acts v) :
    Sole v := by
  obtain ⟨seq, list, count, done⟩ := fixed
  constructor
  case nodup => rw [list]; exact sole.nodup
  case opened => rw [list, count]; exact sole.opened
  case latest =>
    intro f member f' before same
    rw [list] at member
    rw [count] at before
    rw [seq, seq] at same
    exact sole.latest f member f' before same
  case released =>
    intro f before away
    rw [list] at away
    rw [count] at before
    exact done _ (sole.released f before away)

instance (priority := low) keeps_sole (code : DevM α) [fixed : ∀ s l n done, Keeps (Fixed s l n done) code] : Keeps Sole code :=
  ⟨fun w sole => wp_post ((fixed _ _ _ _).kept w ⟨fun _ => rfl, rfl, rfl, fun _ member => member⟩)
    fun _ _ fixed => sole.fixed fixed⟩

/-- A forward is closed and leaves the list. -/
instance : Keeps Sole (tcpForwardRelease f) := by
  refine ⟨fun w sole => ?_⟩
  have counted {s : FwdId → Nat} {l : List FwdId} {n : FwdId} {done : List Act} : Keeps (Fixed s l n done)
      (modify fun d => { d with lenForward := d.lenForward - 1 } : DevM Unit) :=
    ⟨fun w fixed => ⟨fixed.seq, fixed.list, fixed.count, fixed.done⟩⟩
  have noted : Fixed (fun f => (w.data.forwards f).seq) w.data.listForward w.data.nextForward
      (.release (.forward f) :: w.data.acts) { w with data := w.data.note (.release (.forward f)) } :=
    ⟨fun _ => rfl, rfl, rfl, fun _ member => member⟩
  rw [tcpForwardRelease, wp_bind, wp_note]
  refine wp_kept_then noted fun _ v fixed => ?_
  rw [wp_bind, wp_getForward, wp_bind, wp_setForward]
  have set : Keeps (Fixed (fun f => (w.data.forwards f).seq) w.data.listForward w.data.nextForward
      (.release (.forward f) :: w.data.acts)) (do setForward f { ← getForward f with status := .finish }) := inferInstance
  replace fixed := set.kept v fixed
  rw [wp_bind, wp_getForward, wp_setForward] at fixed
  rw [wp_bind, wp_data, wp_bind, wp_demand]
  refine ⟨fun member => ?_, fun _ => trivial⟩
  rw [wp_bind, wp_modify]
  have erased : Fixed (fun f => (w.data.forwards f).seq) (w.data.listForward.erase f) w.data.nextForward
      (.release (.forward f) :: w.data.acts) ⟨{ v.data.setForward f { v.data.forwards f with status := .finish } with
        listForward := v.data.listForward.erase f }, v.rings⟩ :=
    ⟨fixed.seq, congrArg (List.erase · f) fixed.list, fixed.count, fixed.done⟩
  refine wp_kept_then erased fun fwd u erased => ?_
  refine wp_kept_then erased fun _ u erased => wp_kept_then erased fun _ u erased => wp_kept_then erased fun _ u erased => ?_
  refine wp_of_kept erased fun _ u ⟨seq, list, count, done⟩ => ?_
  constructor
  case nodup => rw [list]; exact sole.nodup.erase f
  case opened => rw [list, count]; exact fun f' open' => sole.opened f' (List.mem_of_mem_erase open')
  case latest =>
    intro f₁ open' f₂ before same
    rw [list] at open'
    rw [count] at before
    rw [seq, seq] at same
    exact sole.latest f₁ (List.mem_of_mem_erase open') f₂ before same
  case released =>
    intro f' before away
    rw [list] at away
    rw [count] at before
    by_cases same : f' = f
    · subst same
      exact done _ List.mem_cons_self
    · refine done _ (List.mem_cons_of_mem _ (sole.released f' before fun open' => away ?_))
      exact (List.mem_erase_of_ne same).mpr open'

/-- A forward is opened for a session that has none. -/
theorem wp_forwardOpen {sockfd : Int} {address port seq : Nat} (sole : Sole w)
    (new : ∀ f ∈ w.data.listForward, (w.data.forwards f).seq ≠ seq) :
    Wp (forwardOpen sockfd address port seq) (fun _ v => Sole v) (fun _ => True) w := by
  rw [forwardOpen, wp_bind, wp_data]
  dsimp only
  rw [wp_bind, wp_modify]
  have counted : Fixed (fun f => (w.data.forwards f).seq) w.data.listForward (w.data.nextForward + 1) w.data.acts
      { w with data := { w.data with nextForward := w.data.nextForward + 1 } } :=
    ⟨fun _ => rfl, rfl, rfl, fun _ member => member⟩
  refine wp_kept_then counted fun _ u fixed => wp_kept_then fixed fun _ u fixed => wp_kept_then fixed fun pfd u fixed =>
    wp_kept_then fixed fun _ u fixed => ?_
  rw [wp_bind, wp_setForward, wp_modify]
  obtain ⟨sessions, list, count, done⟩ := fixed
  have other {f : FwdId} (old : f ≠ w.data.nextForward) (fwd : TcpForwardContext) :
      (update u.data.forwards w.data.nextForward fwd f).seq = (w.data.forwards f).seq := by
    rw [update_of_ne old, sessions]
  constructor <;> simp only [HttpMgmt.setForward, list, count]
  case nodup => exact List.nodup_cons.mpr ⟨fun member => absurd (sole.opened _ member) (lt_irrefl _), sole.nodup⟩
  case opened =>
    intro f member
    rcases List.mem_cons.mp member with rfl | member
    · exact Nat.lt_succ_self _
    · exact Nat.lt_succ_of_lt (sole.opened f member)
  case latest =>
    intro f member f' before same
    rcases List.mem_cons.mp member with rfl | member
    · exact Nat.le_of_lt_succ before
    · have old : f ≠ w.data.nextForward := (sole.opened f member).ne
      rw [other old] at same
      by_cases last : f' = w.data.nextForward
      · subst last
        rw [update_self] at same
        exact absurd same.symm (new f member)
      · rw [other last] at same
        exact sole.latest f member f' (lt_of_le_of_ne (Nat.le_of_lt_succ before) last) same
  case released =>
    intro f before away
    have old : f ≠ w.data.nextForward := fun same => away (List.mem_cons.mpr (.inl same))
    refine done _ (sole.released f (lt_of_le_of_ne (Nat.le_of_lt_succ before) old) fun member => away (List.mem_cons_of_mem _ member))

end

/-- The sessions of the forwards that are open. -/
def sessions (w : DevState) : List Nat := w.data.listForward.map fun f => (w.data.forwards f).seq

/-! Commands of the server. -/

/-- The session that a complete frame is going to open a forward for. -/
def opening (w : DevState) : Option Nat :=
  match w.rings.items .prepare with
  | some (b :: _) =>
    let bytes (offset len : Nat) := natBE ((w.data.bufs b).buf.slice offset len)
    if 8 ≤ w.data.bufPrepare.len ∧ bytes 4 4 ≠ 1 then some (bytes 0 2) else none
  | _ => none

/-- It has no forward. -/
def OpensNew (w : DevState) : Prop :=
  ∀ seq, opening w = some seq → ∀ f ∈ w.data.listForward, (w.data.forwards f).seq ≠ seq

section
variable {w : DevState}

theorem wp_tcpForwardCreate {seq : Nat} {host : List Byte} {port : Nat} (sole : Sole w)
    (new : ∀ f ∈ w.data.listForward, (w.data.forwards f).seq ≠ seq) :
    Wp (tcpForwardCreate seq host port) (fun _ v => Sole v) (fun _ => True) w := by
  have fixed : Fixed (fun f => (w.data.forwards f).seq) w.data.listForward w.data.nextForward w.data.acts w :=
    ⟨fun _ => rfl, rfl, rfl, fun _ member => member⟩
  rw [tcpForwardCreate]
  refine wp_kept_then fixed fun sockfd v fixed => ?_
  rw [wp_ite]
  split
  · exact sole.fixed fixed
  · refine wp_kept_then fixed fun address v fixed => ?_
    rw [wp_bind]
    refine wp_post (wp_forwardOpen (sole.fixed fixed) ?_) fun _ _ sole => sole
    intro f member
    rw [fixed.seq]
    exact new f (fixed.list ▸ member)

theorem wp_forwardCommand (sole : Sole w) (long : 8 ≤ w.data.bufPrepare.len) (new : OpensNew w) :
    Wp forwardCommand (fun _ v => Sole v) (fun _ => True) w := by
  rw [forwardCommand, wp_bind, wp_data, wp_bind, nextBufInfo, wp_head]
  refine ⟨fun l found => ?_, fun _ => trivial⟩
  rw [wp_bind, wp_deref]
  refine ⟨fun b first => ?_, fun _ => trivial⟩
  obtain ⟨rest, rfl⟩ := List.head?_eq_some_iff.mp first
  rw [wp_bind, wp_bytesAt]
  refine ⟨fun _ => ?_, fun _ => trivial⟩
  rw [wp_bind, wp_bytesAt]
  refine ⟨fun _ => ?_, fun _ => trivial⟩
  rw [wp_bind, wp_bytesAt]
  refine ⟨fun _ => ?_, fun _ => trivial⟩
  rw [wp_ite]
  split
  · refine wp_kept_then sole fun f v sole => ?_
    cases f with
    | none => exact sole
    | some f => exact wp_kept_then sole fun _ _ sole => wp_kept_then sole fun _ _ sole => sole
  next opens =>
    have session : opening w = some (natBE ((w.data.bufs b).buf.slice 0 2)) := by
      unfold opening
      rw [found]
      exact if_pos ⟨long, opens⟩
    rw [wp_bind, wp_getBuf, wp_bind, wp_demand]
    refine ⟨fun _ => ?_, fun _ => trivial⟩
    rw [wp_bind, wp_bytesAt]
    refine ⟨fun _ => ?_, fun _ => trivial⟩
    rw [wp_bind]
    refine wp_post (wp_tcpForwardCreate sole (new _ session)) fun _ v sole => ?_
    exact wp_kept_then sole fun _ _ sole => sole

theorem keepsFrom_processTcpForward : KeepsFrom Sole OpensNew processTcpForward := by
  refine ⟨fun w sole new => ?_⟩
  rw [processTcpForward, wp_bind, wp_data, wp_ite]
  split
  next => exact sole
  next long => exact wp_forwardCommand sole (not_lt.mp long) new

end

instance : Dispatches Sole where

/-- Frames open forwards only for sessions that have none. -/
def opensNew : Call → DevState → Prop
  | .process => WhenCommand OpensNew
  | _ => fun _ => True

instance : Keeps Sole (serviceForward f) := by
  unfold serviceForward
  refine keeps_next fun status => ?_
  cases status <;> infer_instance

instance : Steady Sole opensNew where
  tick w now replies sole := ⟨sole.nodup, sole.opened, sole.latest, sole.released⟩
  process := by
    have guarded := keepsFrom_prepareProcess (G := fun _ => True) keepsFrom_processTcpForward
      (inferInstanceAs (KeepsFrom Sole (fun _ => True) processTcpForwardresp))
    exact ⟨fun w sole new => guarded.kept w sole ⟨new, fun _ => trivial⟩⟩

theorem sole_at_start {w : DevState} (starts : Starts w) : Sole w := by
  obtain ⟨username, localHost, localPort, maxFds, servFd, now, rfl⟩ := starts
  exact ⟨List.nodup_nil, by rintro _ ⟨⟩, by rintro _ ⟨⟩, by rintro _ ⟨⟩⟩

/-- In every run whose frames open forwards only for sessions without one, no two forwards have
the same session; a forward that is open is the last one opened for its session, and those
opened for it before were released. -/
theorem one_forward_a_session {w : DevState} (reached : Reach step (Allowed opensNew) Starts w) :
    (sessions w).Nodup ∧
      ∀ f ∈ w.data.listForward, ∀ f' < w.data.nextForward, (w.data.forwards f').seq = (w.data.forwards f).seq →
        f' ≠ f → f' < f ∧ f' ∉ w.data.listForward ∧ Released f' w := by
  have sole := reach_keeps (P := Sole) (g := opensNew) (fun _ => sole_at_start) reached
  have single : ∀ f ∈ w.data.listForward, ∀ f' ∈ w.data.listForward,
      (w.data.forwards f).seq = (w.data.forwards f').seq → f = f' := by
    intro f member f' member' same
    exact le_antisymm (sole.latest f' member' f (sole.opened f member) same)
      (sole.latest f member f' (sole.opened f' member') same.symm)
  refine ⟨List.Nodup.map_on single sole.nodup, fun f member f' before same other => ?_⟩
  have earlier := lt_of_le_of_ne (sole.latest f member f' before same) other
  have away : f' ∉ w.data.listForward := fun member' => other (single f' member' f member same)
  exact ⟨earlier, away, sole.released f' before away⟩

/-! A session that is opened again once its forward was closed, and one that is opened twice. -/

def opensNewHere : Test fun w call => opensNew call w where
  passes
    | w, .process => decide (w.data.bufPrepare.type = httpCForward →
        ∀ seq ∈ opening w, ∀ f ∈ w.data.listForward, (w.data.forwards f).seq ≠ seq)
    | _, _ => true
  sound w call passes := by
    cases call with
    | process => exact fun type seq own => of_decide_eq_true passes type seq own
    | _ => trivial

/-- The server has a forward to the host `lan` opened, or one closed. -/
def commandFrame (seq type : Nat) : List Byte :=
  headerBytes httpCForward seq (11 + httpCHeaderLen) ++ bytesBE 2 seq ++ bytesBE 2 80 ++ bytesBE 4 type ++ text "lan"

def reopened : List Occasion :=
  [⟨.receive (commandFrame 7 0), 1, [.value 5, .value 0x0a000001]⟩,
    ⟨.receive (commandFrame 8 0), 2, [.value 6, .value 0x0a000002]⟩,
    ⟨.receive (commandFrame 7 1), 3, []⟩,
    ⟨.receive (commandFrame 7 0), 4, [.value 7, .value 0x0a000001]⟩]

def views (w : DevState) : List Nat × List FwdId × List Nat × FwdId :=
  (sessions w, w.data.listForward, [(w.data.forwards 0).seq, (w.data.forwards 2).seq], w.data.nextForward)

theorem reopened_views :
    ((everyCall opensNewHere).run step device reopened).map views =
      some ([7, 8], [2, 1], [7, 7], 3) := by
  decide +kernel

/-- The second forward of the session is open, and the first was released. -/
theorem one_forward_opened : ∃ w, sessions w = [7, 8] ∧ (sessions w).Nodup ∧ 2 ∈ w.data.listForward ∧
    0 ∉ w.data.listForward ∧ Released 0 w := by
  obtain ⟨w, ran, has⟩ := Option.map_eq_some_iff.mp reopened_views
  simp only [views, Prod.mk.injEq, List.cons.injEq, and_true] at has
  obtain ⟨seqs, list, ⟨first, second⟩, next⟩ := has
  obtain ⟨nodup, single⟩ := one_forward_a_session (Test.reach Reassembly.device_starts ran)
  have member : 2 ∈ w.data.listForward := by
    rw [list]
    exact List.mem_cons_self
  obtain ⟨_, away, released⟩ := single 2 member 0 (by rw [next]; decide) (first.trans second.symm) (by decide)
  exact ⟨w, seqs, nodup, member, away, released⟩

/-- The browser says twice that its session opens. -/
def openedTwice : List Occasion :=
  [⟨.receive openFrame, 1, [.value 5, .value 0x0a000001]⟩, ⟨.receive openFrame, 2, [.value 6, .value 0x0a000001]⟩]

theorem openedTwice_sessions : (run step device openedTwice).map sessions = some [7, 7] := by
  decide +kernel

theorem session_with_two : ¬ ∀ w, Reach step (fun _ _ => True) Starts w →
    (sessions w).Nodup := by
  intro always
  obtain ⟨w, ran, has⟩ := Option.map_eq_some_iff.mp openedTwice_sessions
  have nodup := always w (reach_of_free_run Reassembly.device_starts ran)
  rw [has] at nodup
  exact absurd nodup (by decide)

end WebTunnel.Device.Naming
