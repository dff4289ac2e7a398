import WebTunnel.Device.Descriptors
import WebTunnel.Device.Keeping
import WebTunnel.Device.Reassembly

/-! The slots that contexts, forwards and clients remember for their descriptors, over any order in which
they come and go. -/

namespace WebTunnel.Device.Pointing
set_option synthInstance.maxSize 10000
open Library.Bytes Library.Lists Library.Slots Library.Routines Library.Routines.Routine Library.Run Function Device.Types Buffers
open Http Forward Tunnel Frames Footprints Descriptors
open Manager hiding step

/-! What is remembered. -/

section
variable (w : DevState)

/-- The descriptor of a context. -/
def ownFd : Owner → Int
  | .server => w.data.tcpServer.servFd
  | .http c => (w.data.ctxs c).sockfd
  | .client k => (w.data.clients k).clientFd
  | .forward f => (w.data.forwards f).fwdFd

/-- The slot that it remembers. The listening socket has none. -/
def cached : Owner → Option Nat
  | .server => none
  | .http c => (w.data.ctxs c).pfd
  | .client k => (w.data.clients k).pfd
  | .forward f => (w.data.forwards f).pfd

/-- Those that have come and have not been released. -/
def live : Set Owner :=
  {o | match o with
    | .server => False
    | .http c => c ∈ w.data.listTimeout
    | .client k => k ∈ w.data.listClient
    | .forward f => f ∈ w.data.listForward}

/-- The slot that it remembers is in use and has its descriptor. -/
def Points (o : Owner) : Prop :=
  ∃ slot < w.data.countPollfds, cached w o = some slot ∧ (w.data.pollfds slot).fd = ownFd w o

/-- The descriptors in the slots that are in use. -/
def registered : Set Int := (fun i => (w.data.pollfds i).fd) '' Set.Iio w.data.countPollfds

end

/-! What is done. -/

inductive Deed where
  | openHttp (c : CtxId) (sockfd timeout : Int)
  | closeHttp (c : CtxId)
  | openForward (sockfd : Int) (address port seq : Nat)
  | closeForward (f : FwdId)
  | openClient (clientfd : Int)
  | closeClient (k : ClientId)
  | add (fd : Int) (events : PollEvents)
  | del (fd : Int)

/-- Something comes or goes, or something else happens that leaves the slots and what is remembered. -/
inductive Move where
  | deed (deed : Deed)
  | elsewhere (v : DevState)

/-- Any state, but with the slots of another, and with its contexts, forwards and clients that remember them. -/
def repolled (w v : DevState) : DevState :=
  { v with data := { v.data with
    pollfds := fun i => { v.data.pollfds i with fd := (w.data.pollfds i).fd }
    fdLookup := w.data.fdLookup
    countPollfds := w.data.countPollfds
    maxFds := w.data.maxFds
    ctxs := fun c => { v.data.ctxs c with pfd := (w.data.ctxs c).pfd, sockfd := (w.data.ctxs c).sockfd }
    clients := fun k => { v.data.clients k with pfd := (w.data.clients k).pfd, clientFd := (w.data.clients k).clientFd }
    forwards := fun f => { v.data.forwards f with pfd := (w.data.forwards f).pfd, fwdFd := (w.data.forwards f).fwdFd }
    listTimeout := w.data.listTimeout
    listClient := w.data.listClient
    nextClient := w.data.nextClient
    listForward := w.data.listForward
    nextForward := w.data.nextForward } }

def Deed.code : Deed → DevM Unit
  | .openHttp c sockfd timeout => contextOpen c sockfd timeout
  | .closeHttp c => httpContextRelease c
  | .openForward sockfd address port seq => forwardOpen sockfd address port seq
  | .closeForward f => tcpForwardRelease f
  | .openClient clientfd => tcpClientCreate clientfd
  | .closeClient k => tcpClientRelease k
  | .add fd events => do
    let _ ← mgmtAddFd fd events
  | .del fd => do
    let _ ← mgmtDelFd fd

def step (w : DevState) : Move → Option DevState
  | .deed deed => (deed.code.run w).toOption.map Prod.snd
  | .elsewhere v => some (repolled w v)

/-- The system gives out a descriptor that is in range and in no slot. -/
def Fresh (fd : Int) (w : DevState) : Prop := 0 ≤ fd ∧ fd < w.data.maxFds ∧ fd ∉ registered w

/-- The slot that takes the place of the one of a descriptor is that one itself, or none that another
context, forward or client remembers. -/
def Vacates (fd : Int) (w : DevState) : Prop :=
  ∀ o ∈ live w, ownFd w o ≠ fd → ownFd w o ≠ (w.data.pollfds (w.data.countPollfds - 1)).fd

def Releases (o : Owner) (w : DevState) : Prop := 0 < ownFd w o → Vacates (ownFd w o) w

/-- New descriptors are fresh, the library takes out its own, and the slot that is moved for one that goes is
none that another remembers. -/
def Proper (w : DevState) : Move → Prop
  | .deed (.openHttp _ fd _) | .deed (.openForward fd _ _ _) | .deed (.openClient fd) | .deed (.add fd _) => Fresh fd w
  | .deed (.closeHttp c) => Releases (.http c) w
  | .deed (.closeForward f) => Releases (.forward f) w
  | .deed (.closeClient k) => Releases (.client k) w
  | .deed (.del fd) => fd ∈ registered w ∧ (∀ o ∈ live w, ownFd w o ≠ fd) ∧ Vacates fd w
  | .elsewhere _ => True

/-! The table, and those that point into it. -/

/-- The table is consistent, and everything in `S` points to the slot of its descriptor, which no other has. -/
structure Sound (S : Set Owner) (w : DevState) : Prop where
  contexts : .server ∉ S
  indexed : Indexed PollFd.fd w.data.countPollfds w.data.pollfds w.data.fdLookup (registered w)
  points : ∀ o ∈ S, Points w o
  apart : Set.InjOn (ownFd w) S

section
variable {S T : Set Owner} {w v : DevState} {o : Owner} {fd : Int} {events : PollEvents}

theorem Sound.mono (sound : Sound S w) (fewer : T ⊆ S) : Sound T w :=
  ⟨fun member => sound.contexts (fewer member), sound.indexed, fun o member => sound.points o (fewer member),
    sound.apart.mono fewer⟩

theorem registered_of_points (points : Points w o) : ownFd w o ∈ registered w := by
  obtain ⟨slot, inside, _, holds⟩ := points
  exact ⟨slot, inside, holds⟩

theorem eq_registered {keys : Set Int}
    (indexed : Indexed PollFd.fd w.data.countPollfds w.data.pollfds w.data.fdLookup keys) : registered w = keys :=
  indexed.dense.image_eq

/-- The descriptors in the slots, and what finds them. -/
structure SameTable (w v : DevState) : Prop where
  count : v.data.countPollfds = w.data.countPollfds
  slots : ∀ i, (v.data.pollfds i).fd = (w.data.pollfds i).fd
  lookup : v.data.fdLookup = w.data.fdLookup

theorem Sound.congr (sound : Sound S w) (table : SameTable w v)
    (same : ∀ o ∈ S, ownFd v o = ownFd w o ∧ cached v o = cached w o) : Sound S v := by
  have keys : registered v = registered w := by
    rw [registered, registered, table.count, funext table.slots]
  constructor
  · exact sound.contexts
  · rw [keys, table.count, table.lookup]
    exact sound.indexed.congr table.slots
  · intro o member
    obtain ⟨slot, inside, remembers, holds⟩ := sound.points o member
    obtain ⟨own, pointer⟩ := same o member
    exact ⟨slot, table.count ▸ inside, pointer.trans remembers, (table.slots slot).trans (holds.trans own.symm)⟩
  · exact sound.apart.congr fun o member => (same o member).1.symm

/-- The table with another descriptor in the next slot. -/
structure Grown (fd : Int) (events : PollEvents) (w v : DevState) : Prop where
  count : v.data.countPollfds = w.data.countPollfds + 1
  slots : v.data.pollfds = update w.data.pollfds w.data.countPollfds ⟨fd, events, 0⟩
  lookup : v.data.fdLookup = update w.data.fdLookup fd w.data.countPollfds

theorem Sound.grown (sound : Sound S w) (new : fd ∉ registered w) (grown : Grown fd events w v)
    (same : ∀ o ∈ S, ownFd v o = ownFd w o ∧ cached v o = cached w o) : Sound S v := by
  have pushed := sound.indexed.push (b := ⟨fd, events, 0⟩) new
  rw [← grown.count, ← grown.slots, ← grown.lookup] at pushed
  constructor
  · exact sound.contexts
  · rw [eq_registered pushed]
    exact pushed
  · intro o member
    obtain ⟨slot, inside, remembers, holds⟩ := sound.points o member
    obtain ⟨own, pointer⟩ := same o member
    refine ⟨slot, grown.count ▸ inside.trans (Nat.lt_succ_self _), pointer.trans remembers, ?_⟩
    rw [grown.slots, update_of_ne (Nat.ne_of_lt inside), holds, own]
  · exact sound.apart.congr fun o member => (same o member).1.symm

/-- A descriptor gets the next slot, which is remembered for it. -/
theorem Sound.opened (sound : Sound S w) (context : o ≠ .server) (new : fd ∉ registered w) (grown : Grown fd events w v)
    (same : ∀ o ∈ S, ownFd v o = ownFd w o ∧ cached v o = cached w o) (own : ownFd v o = fd)
    (remembers : cached v o = some w.data.countPollfds) : Sound (insert o S) v := by
  have others := sound.grown new grown same
  constructor
  · rw [Set.mem_insert_iff, not_or]
    exact ⟨context.symm, sound.contexts⟩
  · exact others.indexed
  · intro o' member
    rcases Set.mem_insert_iff.mp member with rfl | member
    · refine ⟨w.data.countPollfds, ?_, remembers, ?_⟩
      · rw [grown.count]
        exact Nat.lt_succ_self _
      · rw [grown.slots, update_self, own]
    · exact others.points o' member
  · have other : ∀ o' ∈ S, ownFd v o' ≠ fd := by
      intro o' member taken
      rw [(same o' member).1] at taken
      exact new (taken ▸ registered_of_points (sound.points o' member))
    have out : o ∉ S := fun member => other o member own
    apply (Set.injOn_insert out).mpr
    constructor
    · exact others.apart
    · rintro ⟨o', member, taken⟩
      exact other o' member (taken.trans own)

/-- A descriptor leaves its slot, and the last one takes the place. -/
structure Shrunk (fd : Int) (w v : DevState) : Prop where
  removed : Removed fd (registered w) w v
  slots : ∀ slot < v.data.countPollfds, slot ≠ w.data.fdLookup fd → v.data.pollfds slot = w.data.pollfds slot

theorem Sound.closed (sound : Sound S w) (member : fd ∈ registered w) (shrunk : Shrunk fd w v)
    (away : ∀ o ∈ S, ownFd w o ≠ fd)
    (unmoved : ∀ o ∈ S, ownFd w o ≠ (w.data.pollfds (w.data.countPollfds - 1)).fd)
    (same : ∀ o ∈ S, ownFd v o = ownFd w o ∧ cached v o = cached w o) : Sound S v := by
  constructor
  · exact sound.contexts
  · rw [eq_registered shrunk.removed.indexed]
    exact shrunk.removed.indexed
  · intro o inS
    obtain ⟨slot, inside, remembers, holds⟩ := sound.points o inS
    obtain ⟨own, pointer⟩ := same o inS
    have count := shrunk.removed.count
    have before : slot < v.data.countPollfds := by
      by_contra high
      have last : slot = w.data.countPollfds - 1 := by omega
      exact unmoved o inS (last ▸ holds.symm)
    have other : slot ≠ w.data.fdLookup fd := by
      intro vacated
      have own := (sound.indexed.index_of_mem member).2
      rw [← vacated] at own
      exact away o inS (holds.symm.trans own)
    refine ⟨slot, before, pointer.trans remembers, ?_⟩
    rw [shrunk.slots slot before other, holds, own]
  · exact sound.apart.congr fun o member => (same o member).1.symm

theorem wp_mgmtDelFd_shrunk {err : Fault → Prop} (sound : Sound S w) (member : fd ∈ registered w) :
    Wp (mgmtDelFd fd) (fun _ v => Shrunk fd w v) err w := by
  have slots : Wp (mgmtDelFd fd) (fun _ v => ∀ slot < v.data.countPollfds, slot ≠ w.data.fdLookup fd →
      v.data.pollfds slot = w.data.pollfds slot) (fun _ => True) w := by
    rw [mgmtDelFd, wp_bind, wp_data, wp_bind, wp_demand]
    refine ⟨fun _ => ?_, fun _ => trivial⟩
    rw [wp_bind, wp_modify, wp_ite]
    split
    next => exact fun _ _ _ => rfl
    next =>
      rw [wp_bind, wp_modify, wp_pure]
      exact fun _ _ other => update_of_ne other _ _
  apply wp_post (wp_and (wp_mgmtDelFd_registered sound.indexed member) slots)
  intro _ v both
  exact ⟨both.1.1, both.2⟩

end

/-! What leaves the table alone. -/

/-- All but the table and what the others remember. -/
def sparing (o : Owner) : Set Part :=
  {part | part ≠ .polls ∧ (∀ c, .http c ≠ o → part ≠ .ctx c) ∧ (∀ k, .client k ≠ o → part ≠ .client k) ∧
    ∀ f, .forward f ≠ o → part ≠ .forward f}

/-- Everything but one of those in `L` is as it should be. -/
def SoundBut (L : Set Owner) (o : Owner) (w : DevState) : Prop := Sound (L \ {o}) w

section
variable {L : Set Owner} {w v : DevState} {o : Owner} {c : CtxId} {k : ClientId} {f : FwdId} {fd : Int} {acts : Set Act}

instance : Allows (sparing (.http c)) (.ctx c) := ⟨by simp [sparing, eq_comm]⟩
instance : Allows (sparing (.client k)) (.client k) := ⟨by simp [sparing, eq_comm]⟩
instance : Allows (sparing (.forward f)) (.forward f) := ⟨by simp [sparing, eq_comm]⟩
instance : Allows (sparing o) .schedule := ⟨by simp [sparing]⟩
instance : Allows (sparing o) .queue := ⟨by simp [sparing]⟩
instance : Allows (sparing o) .server := ⟨by simp [sparing]⟩
instance : Allows (sparing o) .clientList := ⟨by simp [sparing]⟩
instance : Allows (sparing o) .forwardList := ⟨by simp [sparing]⟩
instance (h : BufHead) : Allows (sparing o) (.fill h) := ⟨by simp [sparing]⟩

theorem sameTable_of_frame {parts : Set Part} (frame : Frame parts acts w v) (polls : .polls ∉ parts) :
    SameTable w v := by
  obtain ⟨slots, lookup, count, _⟩ := frame.polls polls
  exact ⟨count, fun i => congrArg PollFd.fd (congrFun slots i), lookup⟩

/-- The part of the state that something is kept in. -/
def place : Owner → Part
  | .server => .server
  | .http c => .ctx c
  | .client k => .client k
  | .forward f => .forward f

/-- What something remembers depends on its own part alone. -/
theorem same_of_frame {parts : Set Part} (frame : Frame parts acts w v) (out : place o ∉ parts) :
    ownFd v o = ownFd w o ∧ cached v o = cached w o := by
  cases o with
  | server => exact ⟨congrArg TcpServerContext.servFd (frame.server out), rfl⟩
  | http c =>
    rw [ownFd, ownFd, cached, cached, frame.ctx c out]
    exact ⟨rfl, rfl⟩
  | client k =>
    rw [ownFd, ownFd, cached, cached, frame.client k out]
    exact ⟨rfl, rfl⟩
  | forward f =>
    rw [ownFd, ownFd, cached, cached, frame.forward f out]
    exact ⟨rfl, rfl⟩

/-- The others are spared. -/
theorem place_notMem_sparing {o' : Owner} (context : o' ≠ .server) (other : o' ≠ o) : place o' ∉ sparing o := by
  intro member
  cases o' with
  | server => exact context rfl
  | http c => exact member.2.1 c other rfl
  | client k => exact member.2.2.1 k other rfl
  | forward f => exact member.2.2.2 f other rfl

theorem SoundBut.framed (sound : SoundBut L o w) (frame : Frame (sparing o) acts w v) : SoundBut L o v := by
  apply Sound.congr sound (sameTable_of_frame frame fun member => member.1 rfl)
  intro o' member
  apply same_of_frame frame (place_notMem_sparing _ member.2)
  intro server
  exact sound.contexts (server ▸ member)

instance (code : DevM α) [within : Within (sparing o) Set.univ code] : Keeps (SoundBut L o) code :=
  keeps_of_within within fun _ _ frame sound => sound.framed frame

/-- A descriptor can leave its slot: only one of those in `L` has it, and the last slot is that one's or
none that the others remember. -/
structure Droppable (fd : Int) (L : Set Owner) (o : Owner) (w : DevState) : Prop where
  sound : SoundBut L o w
  member : fd ∈ registered w
  away : ∀ o' ∈ L \ {o}, ownFd w o' ≠ fd
  unmoved : ∀ o' ∈ L \ {o}, ownFd w o' ≠ (w.data.pollfds (w.data.countPollfds - 1)).fd

theorem Droppable.framed (droppable : Droppable fd L o w) (frame : Frame (sparing o) acts w v) : Droppable fd L o v := by
  obtain ⟨slots, _, count, _⟩ := frame.polls fun member => member.1 rfl
  have own : ∀ o' ∈ L \ {o}, ownFd v o' = ownFd w o' := by
    intro o' member
    apply (same_of_frame frame (place_notMem_sparing _ member.2)).1
    intro server
    exact droppable.sound.contexts (server ▸ member)
  constructor
  · exact droppable.sound.framed frame
  · rw [registered, slots, count]
    exact droppable.member
  · intro o' member
    rw [own o' member]
    exact droppable.away o' member
  · intro o' member
    rw [own o' member, slots, count]
    exact droppable.unmoved o' member

theorem wp_dropFd {err : Fault → Prop} (droppable : Droppable fd L o w) :
    Wp (dropFd fd) (fun _ v => SoundBut L o v) err w := by
  have polls : Allows ({.polls} : Set Part) .polls := ⟨Set.mem_singleton _⟩
  have within : Within {.polls} ∅ (mgmtDelFd fd) := inferInstance
  rw [dropFd, wp_bind]
  apply wp_post (wp_and (wp_mgmtDelFd_shrunk droppable.sound droppable.member) (within.frame w))
  intro _ v both
  obtain ⟨shrunk, frame⟩ := both
  have closed : SoundBut L o v := by
    apply Sound.closed droppable.sound droppable.member shrunk droppable.away droppable.unmoved
    exact fun o' _ => same_of_frame frame (by cases o' <;> simp [place])
  rw [setLookup, wp_modify]
  have table : SameTable v { v with data := { v.data with httpLookup := update v.data.httpLookup fd none } } :=
    ⟨rfl, fun _ => rfl, rfl⟩
  exact Sound.congr closed table fun o' _ => by cases o' <;> exact ⟨rfl, rfl⟩

end

/-! The state of a run. -/

/-- Those that are live point to their slots, and each is listed once. -/
structure Tracked (w : DevState) : Prop where
  sound : Sound (live w) w
  timeouts : w.data.listTimeout.Nodup
  clients : w.data.listClient.Nodup ∧ ∀ k ∈ w.data.listClient, k < w.data.nextClient
  forwards : w.data.listForward.Nodup ∧ ∀ f ∈ w.data.listForward, f < w.data.nextForward

/-- The lists of those that are live, and the numbers that are next. -/
structure SameLists (w v : DevState) : Prop where
  timeouts : v.data.listTimeout = w.data.listTimeout
  clients : v.data.listClient = w.data.listClient
  nextClient : v.data.nextClient = w.data.nextClient
  forwards : v.data.listForward = w.data.listForward
  nextForward : v.data.nextForward = w.data.nextForward

section
variable {w v : DevState} {c : CtxId} {k : ClientId} {f : FwdId} {fd : Int} {events : PollEvents}

theorem SameLists.live (same : SameLists w v) : live v = live w := by
  ext o
  cases o with
  | server => rfl
  | http c => exact iff_of_eq (congrArg (c ∈ ·) same.timeouts)
  | client k => exact iff_of_eq (congrArg (k ∈ ·) same.clients)
  | forward f => exact iff_of_eq (congrArg (f ∈ ·) same.forwards)

theorem Tracked.of_sameLists (tracked : Tracked w) (same : SameLists w v) (sound : Sound (live w) v) : Tracked v := by
  constructor
  · rwa [same.live]
  · rw [same.timeouts]
    exact tracked.timeouts
  · rw [same.clients, same.nextClient]
    exact tracked.clients
  · rw [same.forwards, same.nextForward]
    exact tracked.forwards

/-! Descriptors of the library. -/

theorem wp_add (tracked : Tracked w) (fresh : Fresh fd w) :
    Wp (mgmtAddFd fd events) (fun _ v => Tracked v) (fun _ => True) w := by
  apply wp_mgmtAddFd_inside fresh.1 fresh.2.1
  have lists : SameLists w (added fd events w) := ⟨rfl, rfl, rfl, rfl, rfl⟩
  apply tracked.of_sameLists lists
  exact tracked.sound.grown fresh.2.2 ⟨rfl, rfl, rfl⟩ fun o _ => by cases o <;> exact ⟨rfl, rfl⟩

theorem wp_del (tracked : Tracked w) (member : fd ∈ registered w) (away : ∀ o ∈ live w, ownFd w o ≠ fd)
    (vacates : Vacates fd w) : Wp (mgmtDelFd fd) (fun _ v => Tracked v) (fun _ => True) w := by
  have polls : Allows ({.polls} : Set Part) .polls := ⟨Set.mem_singleton _⟩
  have within : Within {.polls} ∅ (mgmtDelFd fd) := inferInstance
  apply wp_post (wp_and (wp_mgmtDelFd_shrunk tracked.sound member) (within.frame w))
  intro _ v both
  obtain ⟨shrunk, frame⟩ := both
  have lists : SameLists w v := by
    constructor
    · exact (frame.schedule (by simp)).2.2.2.1
    · exact frame.clientList (by simp)
    · exact frame.clientCount (by simp)
    · exact (frame.forwardList (by simp)).1
    · exact frame.forwardCount (by simp)
  apply tracked.of_sameLists lists
  apply tracked.sound.closed member shrunk away
  · exact fun o isLive => vacates o isLive (away o isLive)
  · exact fun o _ => same_of_frame frame (by cases o <;> simp [place])

end

/-! What is released. -/

/-- The state with the same deadlines. -/
def Timed (l : List CtxId) (w : DevState) : Prop := w.data.listTimeout = l

def untimed : Set Part := {part | part ≠ .schedule}

section
variable {w v : DevState} {o : Owner} {c : CtxId} {k : ClientId} {f : FwdId} {l : List CtxId}

instance : Allows untimed (.ctx c) := ⟨by simp [untimed]⟩
instance : Allows untimed .polls := ⟨by simp [untimed]⟩
instance (h : BufHead) : Allows untimed (.fill h) := ⟨by simp [untimed]⟩

instance (code : DevM α) [within : Within untimed Set.univ code] : Keeps (Timed l) code :=
  keeps_of_within within fun _ _ frame timed => (frame.schedule (by simp [untimed])).2.2.2.1.trans timed

theorem droppable_of_vacates (tracked : Tracked w) (isLive : o ∈ live w) (vacates : Vacates (ownFd w o) w) :
    Droppable (ownFd w o) (live w) o w := by
  have away : ∀ o' ∈ live w \ {o}, ownFd w o' ≠ ownFd w o := fun o' member same =>
    member.2 (tracked.sound.apart member.1 isLive same)
  constructor
  · exact tracked.sound.mono Set.sdiff_subset
  · exact registered_of_points (tracked.sound.points o isLive)
  · exact away
  · exact fun o' member => vacates o' member.1 (away o' member)

theorem wp_httpContextRelease_timed (timed : Timed l w) :
    Wp (httpContextRelease c) (fun _ v => c ∈ l ∧ Timed (l.erase c) v) (fun _ => True) w := by
  rw [httpContextRelease]
  apply wp_kept_then timed; intro _ _ timed
  apply wp_kept_then timed; intro _ _ timed
  apply wp_kept_then timed; intro _ _ timed
  apply wp_kept_then timed; intro _ _ timed
  apply wp_kept_then timed; intro _ _ timed
  apply wp_kept_then timed; intro _ _ timed
  apply wp_kept_then timed; intro _ _ timed
  apply wp_kept_then timed; intro _ _ timed
  apply wp_kept_then timed; intro _ v timed
  rw [wp_bind, wp_data, wp_bind, wp_demand]
  refine ⟨fun member => ?_, fun _ => trivial⟩
  rw [wp_bind, wp_modify, freeContext, wp_bind, wp_bind, wp_data, wp_bind, wp_demand]
  refine ⟨fun _ => ?_, fun _ => trivial⟩
  rw [wp_modify, wp_modify]
  exact ⟨timed ▸ member, congrArg (List.erase · c) timed⟩

theorem wp_httpContextRelease_sound (tracked : Tracked w) (isLive : .http c ∈ live w) (releases : Releases (.http c) w) :
    Wp (httpContextRelease c) (fun _ v => SoundBut (live w) (.http c) v) (fun _ => True) w := by
  have closing : Within (sparing (.http c)) Set.univ (do
      note (.release (.http c))
      setCtx c { w.data.ctxs c with status := .finish } : DevM Unit) := inferInstance
  have frame := closing.frame w
  rw [wp_bind, wp_note, wp_setCtx] at frame
  rw [httpContextRelease, wp_bind, wp_note, wp_bind, wp_getCtx, wp_bind, wp_setCtx, wp_bind, wp_when]
  constructor
  · intro positive
    have droppable := droppable_of_vacates tracked isLive (releases positive)
    rw [wp_bind]
    apply wp_post (wp_dropFd (droppable.framed frame))
    intro _ v sound
    apply wp_of_kept sound
    intro _ v sound
    exact wp_of_kept sound fun _ _ sound => sound
  · intro _
    have sound : SoundBut (live w) (.http c) w := tracked.sound.mono Set.sdiff_subset
    exact wp_of_kept (sound.framed frame) fun _ _ sound => sound

theorem live_erase_http (nodup : w.data.listTimeout.Nodup) (timeouts : v.data.listTimeout = w.data.listTimeout.erase c)
    (clients : v.data.listClient = w.data.listClient) (forwards : v.data.listForward = w.data.listForward) :
    live v = live w \ {.http c} := by
  ext o
  cases o with
  | server => simp [live]
  | http c' => simp [live, timeouts, nodup.mem_erase_iff, and_comm]
  | client k => simp [live, clients]
  | forward f => simp [live, forwards]

theorem wp_closeHttp (tracked : Tracked w) (releases : Releases (.http c) w) :
    Wp (httpContextRelease c) (fun _ v => Tracked v) (fun _ => True) w := by
  have within : Within (httpParts c) (doing (.http c)) (httpContextRelease c) := inferInstance
  have timed := wp_and (wp_httpContextRelease_timed (c := c) (w := w) rfl) (within.frame w)
  by_cases isLive : c ∈ w.data.listTimeout
  · apply wp_post (wp_and timed (wp_httpContextRelease_sound tracked isLive releases))
    intro _ v all
    obtain ⟨⟨⟨_, timeouts⟩, frame⟩, sound⟩ := all
    have clients := frame.clientList (by simp [httpParts])
    have nextClient := frame.clientCount (by simp [httpParts])
    have forwards := (frame.forwardList (by simp [httpParts])).1
    have nextForward := frame.forwardCount (by simp [httpParts])
    constructor
    · rw [live_erase_http tracked.timeouts timeouts clients forwards]
      exact sound
    · rw [timeouts]
      exact tracked.timeouts.erase c
    · rw [clients, nextClient]
      exact tracked.clients
    · rw [forwards, nextForward]
      exact tracked.forwards
  · apply wp_post timed
    intro _ v both
    exact absurd both.1.1 isLive

/-! The same for forwards and clients. -/

/-- All but the lists of those that are live and the numbers that are next. -/
def unlisted : Set Part :=
  {part | part ≠ .schedule ∧ part ≠ .clientList ∧ part ≠ .clientCount ∧ part ≠ .forwardList ∧ part ≠ .forwardCount}

theorem sameLists_of_frame {parts : Set Part} {acts : Set Act} (frame : Frame parts acts w v) (out : parts ⊆ unlisted) :
    SameLists w v := by
  constructor
  · exact (frame.schedule fun member => (out member).1 rfl).2.2.2.1
  · exact frame.clientList fun member => (out member).2.1 rfl
  · exact frame.clientCount fun member => (out member).2.2.1 rfl
  · exact (frame.forwardList fun member => (out member).2.2.2.1 rfl).1
  · exact frame.forwardCount fun member => (out member).2.2.2.2 rfl

/-- Something has left its slot, and the lists are those of an earlier state. -/
structure Dropped (L : Set Owner) (o : Owner) (u v : DevState) : Prop where
  sound : SoundBut L o v
  lists : SameLists u v

theorem SameLists.trans {u : DevState} (first : SameLists w v) (second : SameLists v u) : SameLists w u :=
  ⟨second.timeouts.trans first.timeouts, second.clients.trans first.clients, second.nextClient.trans first.nextClient,
    second.forwards.trans first.forwards, second.nextForward.trans first.nextForward⟩

section
variable {L : Set Owner} {u : DevState} {fd : Int}

instance : Allows (sparing (.client k) ∩ unlisted) (.client k) := ⟨by simp [sparing, unlisted, eq_comm]⟩
instance : Allows (sparing (.forward f) ∩ unlisted) (.forward f) := ⟨by simp [sparing, unlisted, eq_comm]⟩
instance : Allows (sparing o ∩ unlisted) .queue := ⟨by simp [sparing, unlisted]⟩
instance : Allows (sparing o ∩ unlisted) .server := ⟨by simp [sparing, unlisted]⟩
instance (h : BufHead) : Allows (sparing o ∩ unlisted) (.fill h) := ⟨by simp [sparing, unlisted]⟩

instance (code : DevM α) [within : Within (sparing o ∩ unlisted) Set.univ code] : Keeps (Dropped L o u) code := by
  apply keeps_of_within within
  intro w v frame dropped
  constructor
  · exact dropped.sound.framed (frame.mono Set.inter_subset_left (subset_refl _))
  · exact dropped.lists.trans (sameLists_of_frame frame Set.inter_subset_right)

theorem wp_dropFd_dropped (droppable : Droppable fd L o u) :
    Wp (dropFd fd) (fun _ v => Dropped L o u v) (fun _ => True) u := by
  have polls : Allows ({.polls} : Set Part) .polls := ⟨Set.mem_singleton _⟩
  have within : Within {.polls} ∅ (dropFd fd) := inferInstance
  apply wp_post (wp_and (wp_dropFd droppable) (within.frame u))
  intro _ v both
  exact ⟨both.1, sameLists_of_frame both.2 (by simp [unlisted])⟩

/-- What is released leaves its slot, if its descriptor is one. -/
theorem wp_leave (droppable : 0 < fd → Droppable fd L o u) (sound : SoundBut L o u) :
    Wp (when (0 < fd) do dropFd fd) (fun _ v => Dropped L o u v) (fun _ => True) u := by
  rw [wp_when]
  constructor
  · exact fun positive => wp_dropFd_dropped (droppable positive)
  · exact fun _ => ⟨sound, ⟨rfl, rfl, rfl, rfl, rfl⟩⟩

end

theorem live_erase_client (nodup : w.data.listClient.Nodup) (timeouts : v.data.listTimeout = w.data.listTimeout)
    (clients : v.data.listClient = w.data.listClient.erase k) (forwards : v.data.listForward = w.data.listForward) :
    live v = live w \ {.client k} := by
  ext o
  cases o with
  | server => simp [live]
  | http c => simp [live, timeouts]
  | client k' => simp [live, clients, nodup.mem_erase_iff, and_comm]
  | forward f => simp [live, forwards]

theorem live_erase_forward (nodup : w.data.listForward.Nodup) (timeouts : v.data.listTimeout = w.data.listTimeout)
    (clients : v.data.listClient = w.data.listClient) (forwards : v.data.listForward = w.data.listForward.erase f) :
    live v = live w \ {.forward f} := by
  ext o
  cases o with
  | server => simp [live]
  | http c => simp [live, timeouts]
  | client k => simp [live, clients]
  | forward f' => simp [live, forwards, nodup.mem_erase_iff, and_comm]

theorem wp_closeClient (tracked : Tracked w) (releases : Releases (.client k) w) :
    Wp (tcpClientRelease k) (fun _ v => Tracked v) (fun _ => True) w := by
  rw [tcpClientRelease, wp_bind, wp_note, wp_bind, wp_data, wp_bind, wp_demand]
  refine ⟨fun member => ?_, fun _ => trivial⟩
  have removing : Within (sparing (.client k)) Set.univ (do
      note (.release (.client k))
      modify fun d => { d with listClient := w.data.listClient.erase k } : DevM Unit) := inferInstance
  have frame := removing.frame w
  rw [wp_bind, wp_note, wp_modify] at frame
  have sound : SoundBut (live w) (.client k) w := tracked.sound.mono Set.sdiff_subset
  rw [wp_bind, wp_modify, wp_bind, wp_getClient, wp_bind]
  apply wp_post (wp_leave (fun positive => (droppable_of_vacates tracked member (releases positive)).framed frame)
    (sound.framed frame))
  intro _ v dropped
  apply wp_of_kept dropped
  intro _ v dropped
  obtain ⟨timeouts, clients, nextClient, forwards, nextForward⟩ := dropped.lists
  constructor
  · rw [live_erase_client tracked.clients.1 timeouts clients forwards]
    exact dropped.sound
  · rw [timeouts]
    exact tracked.timeouts
  · rw [clients, nextClient]
    exact ⟨tracked.clients.1.erase k, fun k' member => tracked.clients.2 k' (List.mem_of_mem_erase member)⟩
  · rw [forwards, nextForward]
    exact tracked.forwards

/-- The parts of the queue, and lists of buffers. -/
def queueing : Set Part := {part | part = .queue ∨ ∃ h, part = .fill h}

instance : Allows queueing .queue := ⟨.inl rfl⟩
instance (h : BufHead) : Allows queueing (.fill h) := ⟨.inr ⟨h, rfl⟩⟩

instance : Within queueing Set.univ (tcpForwardClosing f) := by
  unfold tcpForwardClosing
  apply within_next
  intro b
  cases b <;> infer_instance

theorem queueing_subset : queueing ⊆ sparing o ∩ unlisted := by
  rintro part (rfl | ⟨h, rfl⟩)
  · exact allowed
  · exact allowed

theorem Tracked.counted {n : Int} (tracked : Tracked v) : Tracked { v with data := { v.data with lenForward := n } } := by
  have lists : SameLists v { v with data := { v.data with lenForward := n } } := ⟨rfl, rfl, rfl, rfl, rfl⟩
  have table : SameTable v { v with data := { v.data with lenForward := n } } := ⟨rfl, fun _ => rfl, rfl⟩
  exact tracked.of_sameLists lists (tracked.sound.congr table fun o _ => by cases o <;> exact ⟨rfl, rfl⟩)

theorem wp_closeForward (tracked : Tracked w) (releases : Releases (.forward f) w) :
    Wp (tcpForwardRelease f) (fun _ v => Tracked v) (fun _ => True) w := by
  have closing : Within queueing Set.univ (do
      note (.release (.forward f))
      let _ ← tcpForwardClosing f : DevM Unit) := inferInstance
  have framed := closing.frame w
  rw [wp_bind, wp_note, wp_bind] at framed
  rw [tcpForwardRelease, wp_bind, wp_note, wp_bind]
  apply wp_post framed
  intro _ u frame
  have first : Frame (sparing (.forward f)) Set.univ w u :=
    frame.mono (queueing_subset.trans Set.inter_subset_left) (subset_refl _)
  have lists : SameLists w u := sameLists_of_frame frame (queueing_subset (o := .server) |>.trans Set.inter_subset_right)
  have same : u.data.forwards f = w.data.forwards f := frame.forward f (by simp [queueing])
  rw [wp_bind, wp_getForward, wp_bind, wp_setForward, wp_bind, wp_data, wp_bind, wp_demand]
  refine ⟨fun member => ?_, fun _ => trivial⟩
  have removing : Within (sparing (.forward f)) Set.univ (do
      setForward f { u.data.forwards f with status := .finish }
      modify fun d => { d with listForward := u.data.listForward.erase f } : DevM Unit) := inferInstance
  have second := removing.frame u
  rw [wp_bind, wp_setForward, wp_modify] at second
  have sound : SoundBut (live w) (.forward f) w := tracked.sound.mono Set.sdiff_subset
  have isLive : .forward f ∈ live w := (congrArg (f ∈ ·) lists.forwards).mp member
  have own : ((u.data.setForward f { u.data.forwards f with status := .finish }).forwards f).fwdFd =
      ownFd w (.forward f) := by
    simp only [HttpMgmt.setForward, update_self, same, ownFd]
  have leave := wp_leave (fun positive => ((droppable_of_vacates tracked isLive (releases positive)).framed first).framed
    second) ((sound.framed first).framed second)
  rw [← own] at leave
  rw [wp_bind, wp_modify, wp_bind, wp_getForward, wp_bind]
  apply wp_post leave
  intro _ v dropped
  rw [wp_bind]
  apply wp_of_kept dropped
  intro _ v dropped
  rw [wp_bind]
  apply wp_of_kept dropped
  intro _ v dropped
  rw [wp_modify]
  apply Tracked.counted
  obtain ⟨timeouts, clients, nextClient, forwards, nextForward⟩ := dropped.lists
  have rest : v.data.listForward = w.data.listForward.erase f :=
    forwards.trans (congrArg (List.erase · f) lists.forwards)
  constructor
  · rw [live_erase_forward tracked.forwards.1 (timeouts.trans lists.timeouts) (clients.trans lists.clients) rest]
    exact dropped.sound
  · rw [timeouts.trans lists.timeouts]
    exact tracked.timeouts
  · rw [clients.trans lists.clients, nextClient.trans lists.nextClient]
    exact tracked.clients
  · rw [rest, nextForward.trans lists.nextForward]
    exact ⟨tracked.forwards.1.erase f, fun f' member => tracked.forwards.2 f' (List.mem_of_mem_erase member)⟩

end

/-! What is opened. -/

section
variable {w v : DevState} {c : CtxId} {fd : Int}

theorem live_insert_forward (timeouts : v.data.listTimeout = w.data.listTimeout)
    (clients : v.data.listClient = w.data.listClient) {f : FwdId} (forwards : v.data.listForward = f :: w.data.listForward) :
    live v = insert (.forward f) (live w) := by
  ext o
  cases o with
  | server => simp [live]
  | http c => simp [live, timeouts]
  | client k => simp [live, clients]
  | forward f' => simp [live, forwards]

theorem live_insert_client (timeouts : v.data.listTimeout = w.data.listTimeout) {k : ClientId}
    (clients : v.data.listClient = k :: w.data.listClient) (forwards : v.data.listForward = w.data.listForward) :
    live v = insert (.client k) (live w) := by
  ext o
  cases o with
  | server => simp [live]
  | http c => simp [live, timeouts]
  | client k' => simp [live, clients]
  | forward f => simp [live, forwards]

/-- Numbers that are used are below the next one. -/
theorem used_cons {n : Nat} {l : List Nat} (used : l.Nodup ∧ ∀ m ∈ l, m < n) :
    (n :: l).Nodup ∧ ∀ m ∈ n :: l, m < n + 1 := by
  constructor
  · exact List.nodup_cons.mpr ⟨fun member => Nat.lt_irrefl n (used.2 n member), used.1⟩
  · intro m member
    rcases List.mem_cons.mp member with rfl | member
    · exact Nat.lt_succ_self _
    · exact (used.2 m member).trans (Nat.lt_succ_self n)

/-- A new forward is listed, with its descriptor in the next slot. -/
structure ForwardOpened (fd : Int) (w v : DevState) : Prop where
  grown : Grown fd (pollIn ||| pollErr ||| pollHup) w v
  timeouts : v.data.listTimeout = w.data.listTimeout
  clients : v.data.listClient = w.data.listClient
  nextClient : v.data.nextClient = w.data.nextClient
  forwards : v.data.listForward = w.data.nextForward :: w.data.listForward
  nextForward : v.data.nextForward = w.data.nextForward + 1
  ctx : v.data.ctxs = w.data.ctxs
  client : v.data.clients = w.data.clients
  forward : ∀ f ≠ w.data.nextForward, v.data.forwards f = w.data.forwards f
  own : ownFd v (.forward w.data.nextForward) = fd
  remembers : cached v (.forward w.data.nextForward) = some w.data.countPollfds

theorem Tracked.forwardOpened (tracked : Tracked w) (new : fd ∉ registered w) (opened : ForwardOpened fd w v) :
    Tracked v := by
  constructor
  · rw [live_insert_forward opened.timeouts opened.clients opened.forwards]
    apply tracked.sound.opened (by simp) new opened.grown _ opened.own opened.remembers
    intro o isLive
    cases o with
    | server => exact absurd isLive tracked.sound.contexts
    | http c =>
      rw [ownFd, ownFd, cached, cached, opened.ctx]
      exact ⟨rfl, rfl⟩
    | client k =>
      rw [ownFd, ownFd, cached, cached, opened.client]
      exact ⟨rfl, rfl⟩
    | forward f =>
      rw [ownFd, ownFd, cached, cached, opened.forward f (Nat.ne_of_lt (tracked.forwards.2 f isLive))]
      exact ⟨rfl, rfl⟩
  · rw [opened.timeouts]
    exact tracked.timeouts
  · rw [opened.clients, opened.nextClient]
    exact tracked.clients
  · rw [opened.forwards, opened.nextForward]
    exact used_cons tracked.forwards

theorem wp_openForward {address port seq : Nat} (tracked : Tracked w) (fresh : Fresh fd w) :
    Wp (forwardOpen fd address port seq) (fun _ v => Tracked v) (fun _ => True) w := by
  rw [forwardOpen, wp_bind, wp_data]
  dsimp only
  rw [wp_bind, wp_modify, wp_bind, wp_note, wp_bind, initListHead, wp_perform]
  refine ⟨fun R _ => ?_, fun _ => trivial⟩
  rw [wp_bind]
  apply wp_mgmtAddFd_inside fresh.1
  · exact fresh.2.1
  rw [wp_bind, setLookup, wp_modify, wp_bind, wp_setForward, wp_modify]
  apply tracked.forwardOpened fresh.2.2
  constructor
  case grown => exact ⟨rfl, rfl, rfl⟩
  case forward => exact fun f other => update_of_ne other _ _
  case own => simp only [ownFd, HttpMgmt.setForward, update_self]
  case remembers =>
    simp only [cached, HttpMgmt.setForward, update_self]
    rfl
  all_goals rfl

/-- A new client is listed, with its descriptor in the next slot. -/
structure ClientOpened (fd : Int) (w v : DevState) : Prop where
  grown : Grown fd (pollIn ||| pollErr ||| pollHup) w v
  timeouts : v.data.listTimeout = w.data.listTimeout
  clients : v.data.listClient = w.data.nextClient :: w.data.listClient
  nextClient : v.data.nextClient = w.data.nextClient + 1
  forwards : v.data.listForward = w.data.listForward
  nextForward : v.data.nextForward = w.data.nextForward
  ctx : v.data.ctxs = w.data.ctxs
  client : ∀ k ≠ w.data.nextClient, v.data.clients k = w.data.clients k
  forward : v.data.forwards = w.data.forwards
  own : ownFd v (.client w.data.nextClient) = fd
  remembers : cached v (.client w.data.nextClient) = some w.data.countPollfds

theorem Tracked.clientOpened (tracked : Tracked w) (new : fd ∉ registered w) (opened : ClientOpened fd w v) :
    Tracked v := by
  constructor
  · rw [live_insert_client opened.timeouts opened.clients opened.forwards]
    apply tracked.sound.opened (by simp) new opened.grown _ opened.own opened.remembers
    intro o isLive
    cases o with
    | server => exact absurd isLive tracked.sound.contexts
    | http c =>
      rw [ownFd, ownFd, cached, cached, opened.ctx]
      exact ⟨rfl, rfl⟩
    | client k =>
      rw [ownFd, ownFd, cached, cached, opened.client k (Nat.ne_of_lt (tracked.clients.2 k isLive))]
      exact ⟨rfl, rfl⟩
    | forward f =>
      rw [ownFd, ownFd, cached, cached, opened.forward]
      exact ⟨rfl, rfl⟩
  · rw [opened.timeouts]
    exact tracked.timeouts
  · rw [opened.clients, opened.nextClient]
    exact used_cons tracked.clients
  · rw [opened.forwards, opened.nextForward]
    exact tracked.forwards

theorem wp_openClient (tracked : Tracked w) (fresh : Fresh fd w) :
    Wp (tcpClientCreate fd) (fun _ v => Tracked v) (fun _ => True) w := by
  rw [tcpClientCreate, wp_bind, wp_data]
  dsimp only
  rw [wp_bind, wp_modify, wp_bind, wp_note, wp_bind, initListHead, wp_perform]
  refine ⟨fun R _ => ?_, fun _ => trivial⟩
  rw [wp_bind, initListHead, wp_perform]
  refine ⟨fun S _ => ?_, fun _ => trivial⟩
  rw [wp_bind, wp_modify, wp_bind]
  apply wp_mgmtAddFd_inside fresh.1
  · exact fresh.2.1
  rw [wp_bind, wp_setClient, wp_bind, setServer, wp_modify, setLookup, wp_modify]
  apply tracked.clientOpened fresh.2.2
  constructor
  case grown => exact ⟨rfl, rfl, rfl⟩
  case client => exact fun k other => update_of_ne other _ _
  case own => simp only [ownFd, HttpMgmt.setClient, update_self]
  case remembers =>
    simp only [cached, HttpMgmt.setClient, update_self]
    rfl
  all_goals rfl

/-- A context is listed, with its descriptor in the next slot. -/
structure HttpOpened (c : CtxId) (fd : Int) (w v : DevState) : Prop where
  grown : Grown fd (pollIn ||| pollErr ||| pollHup) w v
  new : c ∉ w.data.listTimeout
  timeouts : v.data.listTimeout.Perm (c :: w.data.listTimeout)
  clients : v.data.listClient = w.data.listClient
  nextClient : v.data.nextClient = w.data.nextClient
  forwards : v.data.listForward = w.data.listForward
  nextForward : v.data.nextForward = w.data.nextForward
  ctx : ∀ c' ≠ c, v.data.ctxs c' = w.data.ctxs c'
  client : v.data.clients = w.data.clients
  forward : v.data.forwards = w.data.forwards
  own : ownFd v (.http c) = fd
  remembers : cached v (.http c) = some w.data.countPollfds

theorem live_insert_http (opened : HttpOpened c fd w v) : live v = insert (.http c) (live w) := by
  ext o
  cases o with
  | server => simp [live]
  | http c' => simp [live, opened.timeouts.mem_iff]
  | client k => simp [live, opened.clients]
  | forward f => simp [live, opened.forwards]

theorem Tracked.httpOpened (tracked : Tracked w) (new : fd ∉ registered w) (opened : HttpOpened c fd w v) : Tracked v := by
  constructor
  · rw [live_insert_http opened]
    apply tracked.sound.opened (by simp) new opened.grown _ opened.own opened.remembers
    intro o isLive
    cases o with
    | server => exact absurd isLive tracked.sound.contexts
    | http c' =>
      have other : c' ≠ c := fun same => opened.new (same ▸ isLive)
      rw [ownFd, ownFd, cached, cached, opened.ctx c' other]
      exact ⟨rfl, rfl⟩
    | client k =>
      rw [ownFd, ownFd, cached, cached, opened.client]
      exact ⟨rfl, rfl⟩
    | forward f =>
      rw [ownFd, ownFd, cached, cached, opened.forward]
      exact ⟨rfl, rfl⟩
  · exact opened.timeouts.nodup_iff.mpr (List.nodup_cons.mpr ⟨opened.new, tracked.timeouts⟩)
  · rw [opened.clients, opened.nextClient]
    exact tracked.clients
  · rw [opened.forwards, opened.nextForward]
    exact tracked.forwards

theorem wp_httpContextInit (own : (w.data.ctxs c).sockfd = fd) (given : 0 ≤ fd) (ranged : fd < w.data.maxFds) :
    Wp (httpContextInit c) (fun _ v => HttpOpened c fd w v) (fun _ => True) w := by
  subst own
  rw [httpContextInit, wp_bind, wp_getCtx, wp_bind, wp_setCtx, wp_bind, insertReadyPrio, wp_bind, wp_getCtx, wp_bind,
    wp_setCtx, wp_bind, wp_data, wp_bind, wp_demand]
  refine ⟨fun _ => ?_, fun _ => trivial⟩
  rw [wp_modify, wp_bind, insertTimeout, wp_bind, wp_data, wp_bind, wp_demand]
  refine ⟨fun new => ?_, fun _ => trivial⟩
  rw [wp_modify, wp_bind, wp_modify, wp_bind]
  apply wp_mgmtAddFd_inside given
  · exact ranged
  simp only [wp_bind, wp_getCtx, wp_setCtx, setLookup, wp_modify, HttpMgmt.setCtx, update_self, added]
  constructor
  case grown => exact ⟨rfl, rfl, rfl⟩
  case new => exact new
  case timeouts => exact insertByTimeout_perm ..
  case ctx => exact fun c' other => by simp [update_of_ne other]
  case own => simp [ownFd]
  case remembers => simp [cached]
  all_goals rfl

/-- Another context, that has come to nothing yet, is given a descriptor. -/
theorem Tracked.setCtx {ctx : HttpContext} {acts : List Act} {R : Rings BufHead BufId} (tracked : Tracked w)
    (new : c ∉ w.data.listTimeout) : Tracked ⟨{ w.data.setCtx c ctx with acts }, R⟩ := by
  have lists : SameLists w ⟨{ w.data.setCtx c ctx with acts }, R⟩ := ⟨rfl, rfl, rfl, rfl, rfl⟩
  have table : SameTable w ⟨{ w.data.setCtx c ctx with acts }, R⟩ := ⟨rfl, fun _ => rfl, rfl⟩
  apply tracked.of_sameLists lists
  apply tracked.sound.congr table
  intro o isLive
  cases o with
  | server => exact ⟨rfl, rfl⟩
  | http c' =>
    have other : c' ≠ c := fun same => new (same ▸ isLive)
    simp only [ownFd, cached, HttpMgmt.setCtx, update_of_ne other, and_self]
  | client k => exact ⟨rfl, rfl⟩
  | forward f => exact ⟨rfl, rfl⟩

theorem wp_openHttp {timeout : Int} (tracked : Tracked w) (fresh : Fresh fd w) :
    Wp (contextOpen c fd timeout) (fun _ v => Tracked v) (fun _ => True) w := by
  rw [contextOpen, wp_bind, wp_note, wp_bind, initListHead, wp_perform]
  refine ⟨fun R _ => ?_, fun _ => trivial⟩
  rw [wp_bind, initListHead, wp_perform]
  refine ⟨fun S _ => ?_, fun _ => trivial⟩
  rw [wp_bind, wp_data, wp_bind, wp_getCtx, wp_bind, wp_setCtx, wp_bind, listSpliceInit, wp_perform]
  refine ⟨fun T _ => ?_, fun _ => trivial⟩
  have own (d : HttpMgmt) (ctx : HttpContext) : ((d.setCtx c ctx).ctxs c).sockfd = ctx.sockfd := by
    simp only [HttpMgmt.setCtx, update_self]
  have ranged : fd < ((w.data.note (.socket (.http c) fd)).setCtx c { w.data.ctxs c with
    sockfd := fd, timeout := w.data.now + timeout, seq := w.data.bufPrepare.seq }).maxFds := fresh.2.1
  apply wp_post (wp_httpContextInit (w := ⟨_, T⟩) (own _ _) fresh.1 ranged)
  intro _ v opened
  exact Tracked.httpOpened (Tracked.setCtx tracked opened.new) fresh.2.2 opened

end

/-! Every move. -/

section
variable {w v : DevState}

theorem wp_deed {deed : Deed} (tracked : Tracked w) (proper : Proper w (.deed deed)) :
    Wp deed.code (fun _ v => Tracked v) (fun _ => True) w := by
  cases deed with
  | openHttp c fd timeout => exact wp_openHttp tracked proper
  | closeHttp c => exact wp_closeHttp tracked proper
  | openForward fd address port seq => exact wp_openForward tracked proper
  | closeForward f => exact wp_closeForward tracked proper
  | openClient fd => exact wp_openClient tracked proper
  | closeClient k => exact wp_closeClient tracked proper
  | add fd events =>
    rw [Deed.code, wp_bind]
    exact wp_post (wp_add tracked proper) fun _ _ tracked => tracked
  | del fd =>
    rw [Deed.code, wp_bind]
    exact wp_post (wp_del tracked proper.1 proper.2.1 proper.2.2) fun _ _ tracked => tracked

theorem tracked_repolled (tracked : Tracked w) (v : DevState) : Tracked (repolled w v) := by
  have lists : SameLists w (repolled w v) := ⟨rfl, rfl, rfl, rfl, rfl⟩
  have table : SameTable w (repolled w v) := ⟨rfl, fun _ => rfl, rfl⟩
  apply tracked.of_sameLists lists
  apply tracked.sound.congr table
  intro o isLive
  cases o with
  | server => exact absurd isLive tracked.sound.contexts
  | _ => exact ⟨rfl, rfl⟩

theorem tracked_of_step {move : Move} (tracked : Tracked w) (proper : Proper w move) (moved : step w move = some v) :
    Tracked v := by
  cases move with
  | elsewhere u => exact Option.some.inj moved ▸ tracked_repolled tracked u
  | deed deed =>
    obtain ⟨⟨_, u⟩, ran, rfl⟩ := Option.map_eq_some_iff.mp moved
    cases result : deed.code.run w with
    | error e =>
      rw [result] at ran
      cases ran
    | ok pair =>
      rw [result] at ran
      cases ran
      exact wp_of_run result (wp_deed tracked proper)

theorem tracked_of_starts (starts : Starts w) : Tracked w := by
  obtain ⟨username, localHost, localPort, maxFds, servFd, now, rfl⟩ := starts
  constructor
  · constructor
    case contexts => exact fun member => member
    case indexed =>
      apply Indexed.of_slots
      · intro i inside
        exact (Nat.lt_one_iff.mp inside).symm
      · exact fun i inside => ⟨i, inside, rfl⟩
      · exact fun fd member => member
    case points =>
      intro o isLive
      cases o <;> cases isLive
    case apart =>
      intro o isLive
      cases o <;> cases isLive
  · exact List.nodup_nil
  · exact ⟨List.nodup_nil, fun k member => absurd member List.not_mem_nil⟩
  · exact ⟨List.nodup_nil, fun f member => absurd member List.not_mem_nil⟩

/-- In every run whose moves are proper, what each context, forward and client remembers is the slot of its
own descriptor. -/
theorem remembers_own (reached : Reach step Proper Starts w) (o : Owner) (isLive : o ∈ live w) : Points w o := by
  have tracked : Tracked w := by
    apply reached.invariant
    · exact fun _ starts => tracked_of_starts starts
    · exact fun _ _ _ tracked proper moved => tracked_of_step tracked proper moved
  exact tracked.sound.points o isLive

end

/-! Two forwards, of which the second is closed, and of which the first is. -/

def twoOpened : List Move := [.deed (.openForward 5 0x0a000001 80 7), .deed (.openForward 6 0x0a000002 80 8)]

def properHere : Test Proper where
  passes
    | w, .deed (.openForward fd _ _ _) =>
      0 ≤ fd ∧ fd < w.data.maxFds ∧ ∀ i < w.data.countPollfds, (w.data.pollfds i).fd ≠ fd
    | w, .deed (.closeForward f) => (w.data.pollfds (w.data.countPollfds - 1)).fd = (w.data.forwards f).fwdFd
    | _, _ => false
  sound w move passes := by
    split at passes
    next fd _ _ _ =>
      rw [decide_eq_true_eq] at passes
      obtain ⟨given, ranged, apart⟩ := passes
      refine ⟨given, ranged, ?_⟩
      rintro ⟨i, inside, taken⟩
      exact apart i inside taken
    next f =>
      rw [decide_eq_true_eq] at passes
      intro _ o _ other last
      exact other (last.trans passes)
    next => cases passes

theorem remembers_own_lastClosed : ∃ w, .forward 0 ∈ live w ∧ Points w (.forward 0) := by
  have ran : (properHere.run step Reassembly.device (twoOpened ++ [.deed (.closeForward 1)])).map
      (fun w => decide (0 ∈ w.data.listForward)) = some true := by
    decide +kernel
  obtain ⟨w, ran, listed⟩ := Option.map_eq_some_iff.mp ran
  have isLive : .forward 0 ∈ live w := of_decide_eq_true (p := 0 ∈ w.data.listForward) listed
  have reached := Test.reach Reassembly.device_starts ran
  exact ⟨w, isLive, remembers_own reached _ isLive⟩

/-- The forward is live and does not find its descriptor. -/
def strays (f : FwdId) (w : DevState) : Bool :=
  f ∈ w.data.listForward ∧ ∀ slot ∈ (w.data.forwards f).pfd,
    ¬ (slot < w.data.countPollfds ∧ (w.data.pollfds slot).fd = (w.data.forwards f).fwdFd)

theorem firstClosed_strays :
    (run step Reassembly.device (twoOpened ++ [.deed (.closeForward 0)])).map (strays 1) = some true := by
  decide +kernel

theorem not_always_own : ¬ ∀ w, Reach step (fun _ _ => True) Starts w → ∀ o ∈ live w, Points w o := by
  intro always
  obtain ⟨w, ran, astray⟩ := Option.map_eq_some_iff.mp firstClosed_strays
  rw [strays, decide_eq_true_eq] at astray
  have reached := reach_of_free_run Reassembly.device_starts ran
  obtain ⟨slot, inside, remembers, holds⟩ := always w reached (.forward 1) astray.1
  exact astray.2 slot remembers ⟨inside, holds⟩

end WebTunnel.Device.Pointing
