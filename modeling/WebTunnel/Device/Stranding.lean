import WebTunnel.Device.Keeping
import WebTunnel.Device.Reassembly

/-! Forwards that have something to write: they are set to write it and wait for their socket
to take it, and none is left with a buffer that it does not know of. -/

namespace WebTunnel.Device.Stranding
set_option synthInstance.maxSize 10000
open Library.Bytes Library.Lists Library.Routines Library.Routines.Routine Library.Run Function Device.Types Buffers
open Http Forward Tunnel Manager Frames Footprints Keeping Reassembly Server.Wire

/-- The events the owner of a descriptor was set to wait for last. -/
def lastInterest (o : Owner) : List Act → Option PollEvents
  | [] => none
  | .interest o' events :: rest => if o' = o then some events else lastInterest o rest
  | _ :: rest => lastInterest o rest

/-- A forward between two steps, with its list of what to write and its interest. It rests, or
its coroutine has given way in the middle of writing. -/
structure Sound (fwd : TcpForwardContext) (todo : Option (List BufId)) (interest : Option PollEvents) : Prop where
  queued : ∀ l, todo = some l → l ≠ [] → fwd.funcRun = .write
  asked : fwd.funcRun = .write → ∃ events, interest = some events ∧ events &&& pollOut ≠ 0
  resting : fwd.idle = true → fwd.bufWrite.curr = none ∧ (fwd.funcRun = .write → fwd.line = .start)
  working : fwd.idle = false → fwd.funcRun = .write ∧ fwd.bufWrite.curr.isSome ∧
    (fwd.line = .partly ∨ fwd.line = .again ∨ fwd.line = .broken)

def Served (f : FwdId) (w : DevState) : Prop :=
  Sound (w.data.forwards f) (w.rings.items (.fwdWrite f)) (lastInterest (.forward f) w.data.acts)

def AllServed (w : DevState) : Prop := ∀ f, Served f w

/-! What does not concern a forward. -/

theorem lastInterest_append {o : Owner} {new : List Act} (acts : List Act)
    (other : ∀ events, .interest o events ∉ new) : lastInterest o (new ++ acts) = lastInterest o acts := by
  induction new with
  | nil => rfl
  | cons act rest ih =>
    have rest' := ih fun events member => other events (List.mem_cons_of_mem _ member)
    cases act with
    | interest o' events =>
      have apart : o' ≠ o := by
        rintro rfl
        exact other events List.mem_cons_self
      rw [List.cons_append, lastInterest, if_neg apart, rest']
    | _ => exact rest'

section
variable {parts : Set Part} {acts : Set Act} {f : FwdId} {w v : DevState}

theorem interest_of_frame (frame : Frame parts acts w v) (other : ∀ events, .interest (.forward f) events ∉ acts) :
    lastInterest (.forward f) v.data.acts = lastInterest (.forward f) w.data.acts := by
  obtain ⟨new, same, only⟩ := frame.done
  rw [same]
  exact lastInterest_append _ fun events member => other events (only _ member)

/-- No buffer comes to a list that none may be added to. -/
theorem todo_of_frame (frame : Frame parts acts w v) (unfilled : .fill (.fwdWrite f) ∉ parts) {l : List BufId}
    (found : v.rings.items (.fwdWrite f) = some l) (some : l ≠ []) :
    ∃ l', w.rings.items (.fwdWrite f) = .some l' ∧ l' ≠ [] := by
  obtain ⟨b, member⟩ := List.exists_mem_of_ne_nil l some
  obtain ⟨l', found', member'⟩ := (w.rings.linked b _).mp (frame.filled _ unfilled l found b member)
  exact ⟨l', found', List.ne_nil_of_mem member'⟩

/-- A forward stays sound when it is as it was, with no more to write. -/
theorem Sound.still {fwd : TcpForwardContext} {todo todo' : Option (List BufId)} {interest : Option PollEvents}
    (sound : Sound fwd todo interest) (less : ∀ l, todo' = some l → l ≠ [] → ∃ l', todo = some l' ∧ l' ≠ []) :
    Sound fwd todo' interest :=
  { sound with
    queued := fun l found full => by
      obtain ⟨l', found', full'⟩ := less l found full
      exact sound.queued l' found' full' }

theorem Served.framed (served : Served f w) (frame : Frame parts acts w v) (apart : .forward f ∉ parts)
    (unfilled : .fill (.fwdWrite f) ∉ parts) (other : ∀ events, .interest (.forward f) events ∉ acts) :
    Served f v := by
  unfold Served
  rw [frame.forward f apart, interest_of_frame frame other]
  exact served.still fun l found full => todo_of_frame frame unfilled found full

end

/-- The parts of the manager that are not about writing to forwards. -/
def outside : Set Part := {part | ∀ f, part ≠ .forward f ∧ part ≠ .fill (.fwdWrite f)}

def otherwise : Set Act := {act | ∀ f events, act ≠ .interest (.forward f) events}

instance : Allows outside .prepare := ⟨by simp [outside]⟩
instance : Allows outside .sync := ⟨by simp [outside]⟩
instance : Allows outside .shake := ⟨by simp [outside]⟩
instance : Allows outside .queue := ⟨by simp [outside]⟩
instance : Allows outside .polls := ⟨by simp [outside]⟩
instance : Allows outside .schedule := ⟨by simp [outside]⟩
instance : Allows outside .alive := ⟨by simp [outside]⟩
instance : Allows outside (.fill .caches) := ⟨by simp [outside]⟩
instance : Allows outside (.fill .prepare) := ⟨by simp [outside]⟩
instance : Allows otherwise .writeAgain := ⟨nofun⟩
instance : Allows otherwise .closed := ⟨nofun⟩

instance : Within outside otherwise websocketWriteAgain := within_note _
instance : Within outside otherwise websocketClosed := within_note _

instance : Within outside otherwise (setSync sync) := by
  unfold setSync
  infer_instance

instance (code : DevM α) [within : Within outside otherwise code] : Keeps AllServed code := by
  refine keeps_of_within within fun w v frame served f => ?_
  exact (served f).framed frame (fun member => (member f).1 rfl) (fun member => (member f).2 rfl)
    fun events allowed => allowed f events rfl

instance : HttpWithin outside otherwise where
  parts c := by simp [httpParts, outside, Set.insert_subset_iff]
  acts c := by
    rintro act done f events rfl
    cases done

instance : ClientsWithin outside otherwise where
  parts := by
    rintro part (rfl | ⟨k, member⟩)
    · simp [outside]
    · revert part
      simp [clientParts, outside]
  acts := by
    rintro act ⟨k, done⟩ f events rfl
    cases done

instance : ParserWithin outside := ⟨by simp [parserParts, outside, Set.insert_subset_iff]⟩

instance : QueueWithin outside otherwise where
  parts := by simp [queueParts, outside, Set.insert_subset_iff]
  acts := by
    rintro act done f events rfl
    cases done

/-! What a forward does apart from changing its own state and interest. -/

def quietParts : Set Part := {.polls, .queue, .forwardList, .fill .caches, .fill .toserver}

def quietly (f : FwdId) : Set Act := {act | act ∈ doing (.forward f) ∧ ∀ events, act ≠ .interest (.forward f) events}

instance : Allows quietParts .polls := ⟨by simp [quietParts]⟩
instance : Allows quietParts .queue := ⟨by simp [quietParts]⟩
instance : Allows quietParts .forwardList := ⟨by simp [quietParts]⟩
instance : Allows quietParts (.fill .caches) := ⟨by simp [quietParts]⟩
instance : Allows quietParts (.fill .toserver) := ⟨by simp [quietParts]⟩

section
variable (f : FwdId)

instance (bytes : List Byte) : Allows (quietly f) (.read (.forward f) bytes) := ⟨rfl, nofun⟩
instance (bytes : List Byte) : Allows (quietly f) (.write (.forward f) bytes) := ⟨rfl, nofun⟩
instance (host port : Nat) : Allows (quietly f) (.connect (.forward f) host port) := ⟨rfl, nofun⟩
instance (fd : Int) : Allows (quietly f) (.socket (.forward f) fd) := ⟨rfl, nofun⟩
instance : Allows (quietly f) (.release (.forward f)) := ⟨rfl, nofun⟩
instance (type seq : Nat) (bufs : List (List Byte)) : Allows (quietly f) (.queue (some (.forward f)) type seq bufs) :=
  ⟨rfl, nofun⟩
instance : Allows (quietly f) .goWritable := ⟨trivial, nofun⟩

instance : Within quietParts (quietly f) (tcpForwardClosing f) := by
  unfold tcpForwardClosing
  refine within_next fun b => ?_
  cases b <;> infer_instance

end

section
variable {f : FwdId} {w : DevState} {α : Type}

/-- A forward with the same state and no more to write. -/
def Still (f : FwdId) (w v : DevState) : Prop :=
  v.data.forwards f = w.data.forwards f ∧
    lastInterest (.forward f) v.data.acts = lastInterest (.forward f) w.data.acts ∧
    ∀ l, v.rings.items (.fwdWrite f) = some l → l ≠ [] → ∃ l', w.rings.items (.fwdWrite f) = some l' ∧ l' ≠ []

theorem wp_still {code : DevM α} [within : Within quietParts (quietly f) code] :
    Wp code (fun _ v => Still f w v) (fun _ => True) w :=
  wp_post (within.frame w) fun _ _ frame =>
    ⟨frame.forward f (by simp [quietParts]), interest_of_frame frame fun events allowed => allowed.2 events rfl,
      fun _ found full => todo_of_frame frame (by simp [quietParts]) found full⟩

theorem Still.served {v : DevState} (still : Still f w v) (served : Served f w) : Served f v := by
  unfold Served
  rw [still.1, still.2.1]
  exact served.still still.2.2

theorem Still.trans {u v : DevState} (first : Still f w v) (second : Still f v u) : Still f w u :=
  ⟨second.1.trans first.1, second.2.1.trans first.2.1, fun l found full => by
    obtain ⟨l', found', full'⟩ := second.2.2 l found full
    exact first.2.2 l' found' full'⟩

/-- What comes after code that leaves the forward as it is. -/
theorem wp_still_then {β : Type} {code : DevM α} {next : α → DevM β} {post : β → DevState → Prop} {u : DevState}
    [Within quietParts (quietly f) code] (before : Still f u w)
    (after : ∀ a v, Still f u v → Wp (next a) post (fun _ => True) v) :
    Wp (code >>= next) post (fun _ => True) w := by
  rw [wp_bind]
  exact wp_post wp_still fun a v still => after a v (before.trans still)

theorem Still.refl (w : DevState) : Still f w w := ⟨rfl, rfl, fun l found full => ⟨l, found, full⟩⟩

/-- A change of state that ends with no buffer current and none to write. -/
def Resting (f : FwdId) (w : DevState) : Prop :=
  (w.data.forwards f).bufWrite.curr = none ∧ ∀ l, w.rings.items (.fwdWrite f) = some l → l = []

theorem wp_setEvents {o : Owner} {slot : Option Nat} {change : PollEvents → PollEvents}
    {post : Unit → DevState → Prop}
    (next : ∀ pollfds events, post () { w with data :=
      { w.data with pollfds, acts := .interest o (change events) :: w.data.acts } }) :
    Wp (setEvents o slot change) post (fun _ => True) w := by
  rw [setEvents, wp_bind, wp_deref]
  refine ⟨fun slot found => ?_, fun _ => trivial⟩
  exact next _ _

theorem wp_forwardToRead (resting : Resting f w) :
    Wp (forwardToRead f) (fun _ v => Served f v) (fun _ => True) w := by
  rw [forwardToRead, wp_bind, wp_getForward, wp_bind]
  refine wp_setEvents fun pollfds events => ?_
  simp only [wp_bind, wp_getForward, wp_setForward, Served, HttpMgmt.setForward, update_self]
  constructor
  case queued => exact fun l found full => absurd (resting.2 l found) full
  case asked => simp
  case resting => exact fun _ => ⟨resting.1, by simp⟩
  case working => simp

theorem write_interest (events : PollEvents) : ((events ||| pollOut) &&& ~~~pollIn) &&& pollOut ≠ 0 := by
  have asked : ((events ||| pollOut) &&& ~~~pollIn) &&& pollOut = pollOut := by
    have apart : ~~~pollIn &&& pollOut = pollOut := by decide
    rw [BitVec.and_assoc, apart]
    ext i hi
    simp
    tauto
  rw [asked]
  decide

theorem wp_forwardToWrite (curr : (w.data.forwards f).bufWrite.curr = none) (idle : (w.data.forwards f).idle = true) :
    Wp (forwardToWrite f) (fun _ v => Served f v) (fun _ => True) w := by
  rw [forwardToWrite, wp_bind, wp_getForward, wp_bind, wp_setForward, wp_bind]
  refine wp_setEvents fun pollfds events => ?_
  simp only [setForwardLine, wp_bind, wp_getForward, wp_setForward, Served, HttpMgmt.setForward, update_self]
  constructor
  case queued => exact fun _ _ _ => rfl
  case asked => exact fun _ => ⟨_, if_pos rfl, write_interest events⟩
  case resting => exact fun _ => ⟨curr, fun _ => rfl⟩
  case working => exact fun busy => absurd (idle.symm.trans busy) (by decide)

/-! The functions a forward runs. -/

/-- Before its first data a forward connects, with nothing to write. -/
theorem Sound.resting_of_other {fwd : TcpForwardContext} {todo : Option (List BufId)}
    {interest : Option PollEvents} (sound : Sound fwd todo interest) (other : fwd.funcRun ≠ .write) :
    fwd.idle = true ∧ fwd.bufWrite.curr = none ∧ ∀ l, todo = some l → l = [] := by
  have idle : fwd.idle = true := by
    by_contra busy
    exact other (sound.working (by simpa using busy)).1
  refine ⟨idle, (sound.resting idle).1, fun l found => ?_⟩
  by_contra full
  exact other (sound.queued l found full)

/-- A change of the line while the forward is not writing. -/
theorem Sound.withLine {fwd : TcpForwardContext} {todo : Option (List BufId)} {interest interest' : Option PollEvents}
    (sound : Sound fwd todo interest) (other : fwd.funcRun ≠ .write) (line : CcrLine) :
    Sound { fwd with line } todo interest' where
  queued := sound.queued
  asked same := absurd same other
  resting idle := ⟨(sound.resting idle).1, fun same => absurd same other⟩
  working busy := absurd (sound.working busy).1 other

theorem wp_tcpForwardConnect (served : Served f w) (connecting : (w.data.forwards f).funcRun = .connect) :
    Wp (tcpForwardConnect f) (fun _ v => Served f v) (fun _ => True) w := by
  have other : (w.data.forwards f).funcRun ≠ .write := by rw [connecting]; simp
  -- The interest does not matter while the forward connects.
  have line (v : DevState) (same : v.data.forwards f = w.data.forwards f)
      (less : ∀ l, v.rings.items (.fwdWrite f) = some l → l ≠ [] → ∃ l', w.rings.items (.fwdWrite f) = some l' ∧ l' ≠ [])
      (line : CcrLine) : Wp (setForwardLine f line) (fun _ v => Served f v) (fun _ => True) v := by
    simp only [setForwardLine, wp_bind, wp_getForward, wp_setForward, Served, HttpMgmt.setForward, update_self]
    rw [same]
    exact (served.still less).withLine other line
  have rests (v : DevState) (still : Still f w v) : Resting f v := by
    obtain ⟨_, curr, empty⟩ := served.resting_of_other other
    refine ⟨by rw [still.1]; exact curr, fun l found => ?_⟩
    by_contra full
    obtain ⟨l', found', full'⟩ := still.2.2 l found full
    exact full' (empty l' found')
  rw [tcpForwardConnect, wp_bind, wp_getForward]
  split
  case h_4 =>
    rw [wp_bind]
    exact line w rfl (Still.refl w).2.2 .start
  all_goals
    refine wp_still_then (f := f) (.refl w) fun slot _ still => wp_still_then (f := f) still fun pfd _ still =>
      wp_still_then (f := f) still fun rc _ still => wp_still_then (f := f) still fun d v still => ?_
    split
    · rw [wp_bind]
      exact wp_forwardToRead (rests v still)
    · split
      · rw [wp_bind]
        refine wp_setEvents fun pollfds events => ?_
        rw [wp_bind]
        exact line { v with data := { v.data with
          pollfds, acts := .interest (.forward f) (events &&& ~~~pollIn ||| pollOut) :: v.data.acts } }
          still.1 still.2.2 .inProgress
      · rw [wp_bind]
        exact line v still.1 still.2.2 .failed

/-- A forward in the middle of writing: its current buffer is none only when nothing is left. -/
structure Writing (f : FwdId) (w : DevState) : Prop where
  funcRun : (w.data.forwards f).funcRun = .write
  idle : (w.data.forwards f).idle = false
  asked : ∃ events, lastInterest (.forward f) w.data.acts = some events ∧ events &&& pollOut ≠ 0
  empty : (w.data.forwards f).bufWrite.curr = none → ∀ l, w.rings.items (.fwdWrite f) = some l → l = []

theorem Writing.still {v : DevState} (writing : Writing f w) (still : Still f w v) : Writing f v where
  funcRun := by rw [still.1]; exact writing.funcRun
  idle := by rw [still.1]; exact writing.idle
  asked := by rw [still.2.1]; exact writing.asked
  empty curr l found := by
    rw [still.1] at curr
    by_contra full
    obtain ⟨l', found', full'⟩ := still.2.2 l found full
    exact full' (writing.empty curr l' found')

/-- The coroutine gives way with a buffer that is not done. -/
theorem Writing.gives {line : CcrLine} (writing : Writing f w) (some : (w.data.forwards f).bufWrite.curr.isSome)
    (place : line = .partly ∨ line = .again ∨ line = .broken) :
    Wp (setForwardLine f line) (fun _ v => Served f v) (fun _ => True) w := by
  simp only [setForwardLine, wp_bind, wp_getForward, wp_setForward, Served, HttpMgmt.setForward, update_self]
  constructor
  case queued => exact fun _ _ _ => writing.funcRun
  case asked => exact fun _ => writing.asked
  case resting => exact fun rests => absurd (writing.idle.symm.trans rests) (by decide)
  case working => exact fun _ => ⟨writing.funcRun, some, place⟩

/-- The buffer is not done and the coroutine gives way, or the next buffer is current. -/
theorem wp_forwardWrote {b : BufId} {n : Int} (writing : Writing f w)
    (some : (w.data.forwards f).bufWrite.curr.isSome) :
    Wp (forwardWrote f b n) (fun status v => if status.isSome then Served f v else Writing f v) (fun _ => True) w := by
  rw [forwardWrote]
  refine wp_still_then (f := f) (.refl w) fun info _ still => wp_still_then (f := f) still fun _ v still => ?_
  split
  · refine wp_still_then (f := f) still fun _ _ still => wp_still_then (f := f) still fun _ v still => ?_
    rw [wp_bind]
    exact wp_post ((writing.still still).gives (by rw [still.1]; exact some) (.inl rfl)) fun _ _ served => served
  · refine wp_still_then (f := f) still fun _ _ still => wp_still_then (f := f) still fun _ v still => ?_
    rw [wp_bind, nextBufInfo, wp_head]
    refine ⟨fun l found => ?_, fun _ => trivial⟩
    have before := writing.still still
    simp only [setForwardCurr, wp_bind, wp_getForward, wp_setForward, wp_pure, Option.isSome_none]
    refine ⟨?_, ?_, before.asked, ?_⟩
    · simp only [HttpMgmt.setForward, update_self]
      exact before.funcRun
    · simp only [HttpMgmt.setForward, update_self]
      exact before.idle
    · simp only [HttpMgmt.setForward, update_self]
      intro none l' found'
      cases found.symm.trans found'
      exact List.head?_eq_none_iff.mp none

theorem wp_forwardWriteLoop {count : Nat} (writing : Writing f w) :
    Wp (forwardWriteLoop f count) (fun _ v => Served f v) (fun _ => True) w := by
  induction count generalizing w with
  | zero => trivial
  | succ count ih =>
    rw [forwardWriteLoop, wp_bind, wp_getForward]
    split
    next none =>
      rw [wp_bind]
      exact wp_forwardToRead ⟨none, writing.empty none⟩
    next b current =>
      have some : (w.data.forwards f).bufWrite.curr.isSome := by rw [current]; rfl
      refine wp_still_then (f := f) (.refl w) fun info _ still => wp_still_then (f := f) still fun bytes _ still =>
        wp_still_then (f := f) still fun n _ still => wp_still_then (f := f) still fun d v still => ?_
      have some' : (v.data.forwards f).bufWrite.curr.isSome := by rw [still.1]; exact some
      have gives {line : CcrLine} {status : CallerStatus} (place : line = .partly ∨ line = .again ∨ line = .broken) :
          Wp (do setForwardLine f line; return status : DevM CallerStatus) (fun _ v => Served f v)
            (fun _ => True) v := by
        rw [wp_bind]
        exact (writing.still still).gives some' place
      split
      · split
        · exact gives (.inr (.inl rfl))
        · exact gives (.inr (.inr rfl))
      · split
        · exact gives (.inr (.inr rfl))
        · rw [wp_bind]
          refine wp_post (wp_forwardWrote (writing.still still) some') fun status u after => ?_
          cases status with
          | some status => exact after
          | none => exact ih after

/-- The coroutine begins with the first buffer of the list, or goes on where it gave way. -/
theorem wp_tcpForwardWrite (served : Served f w) (write : (w.data.forwards f).funcRun = .write) :
    Wp (tcpForwardWrite f) (fun _ v => Served f v) (fun _ => True) w := by
  rw [tcpForwardWrite, wp_bind, wp_getForward, wp_bind, wp_setForward]
  cases idle : (w.data.forwards f).idle with
  | true =>
    obtain ⟨curr, start⟩ := served.resting idle
    rw [start write]
    simp only [wp_bind, wp_assert, curr, true_implies, not_true_eq_false, false_implies, and_true]
    rw [nextBufInfo, wp_head]
    refine ⟨fun l found => ?_, fun _ => trivial⟩
    simp only [setForwardCurr, wp_bind, wp_getForward, wp_setForward, HttpMgmt.setForward, update_self, update_idem]
    refine wp_forwardWriteLoop ⟨?_, ?_, served.asked write, ?_⟩
    · simp only [update_self]
      exact write
    · simp only [update_self]
    · simp only [update_self]
      intro none l' found'
      cases found.symm.trans found'
      exact List.head?_eq_none_iff.mp none
  | false =>
    obtain ⟨_, some, place⟩ := served.working idle
    have writing : Writing f ⟨w.data.setForward f { w.data.forwards f with idle := false }, w.rings⟩ := by
      refine ⟨?_, ?_, served.asked write, ?_⟩
      · simp only [HttpMgmt.setForward, update_self]
        exact write
      · simp only [HttpMgmt.setForward, update_self]
      · simp only [HttpMgmt.setForward, update_self]
        intro none
        rw [none] at some
        cases some
    split
    case h_3 | h_4 =>
      -- some of the buffer was written before
      rw [wp_bind, wp_deref]
      refine ⟨fun b current => ?_, fun _ => trivial⟩
      rw [wp_bind]
      refine wp_post (wp_forwardWrote writing ?_) fun status u after => ?_
      · simp only [HttpMgmt.setForward, update_self]
        exact some
      · cases status with
        | some status => exact after
        | none => exact wp_forwardWriteLoop after
    next start =>
      rw [start] at place
      rcases place with place | place | place <;> cases place
    next => exact wp_forwardWriteLoop writing
    next _ partly other broken =>
      rcases place with place | place | place
      · exact absurd place partly
      · exact absurd place other
      · exact absurd place broken

/-- Reading leaves the forward as it was, unless there was something to write. -/
theorem wp_tcpForwardRead (served : Served f w) (other : (w.data.forwards f).funcRun ≠ .write) :
    Wp (tcpForwardRead f) (fun _ v => Served f v) (fun _ => True) w := by
  obtain ⟨idle, curr, empty⟩ := served.resting_of_other other
  rw [tcpForwardRead, wp_bind, wp_getForward, wp_bind, wp_setForward]
  have again : Sound { w.data.forwards f with idle := true } (w.rings.items (.fwdWrite f))
      (lastInterest (.forward f) w.data.acts) :=
    { served with resting := fun _ => ⟨curr, fun write => absurd write other⟩, working := (by simp) }
  have rests {v : DevState}
      (still : Still f ⟨w.data.setForward f { w.data.forwards f with idle := false }, w.rings⟩ v) :
      Served f ⟨v.data.setForward f { v.data.forwards f with idle := true }, v.rings⟩ := by
    have same := still.1
    simp only [HttpMgmt.setForward, update_self] at same
    simp only [Served, HttpMgmt.setForward, update_self]
    rw [same, still.2.1]
    exact again.still still.2.2
  refine wp_still_then (f := f) (.refl _) fun b _ still => ?_
  split
  · exact rests still
  next b =>
    refine wp_still_then (f := f) still fun got _ still => ?_
    split
    next byte rest =>
      generalize byte :: rest = bytes
      refine wp_still_then (f := f) still fun len _ still => wp_still_then (f := f) still fun _ _ still =>
        wp_still_then (f := f) still fun bytes _ still => wp_still_then (f := f) still fun _ _ still =>
        wp_still_then (f := f) still fun _ v still => ?_
      rw [wp_bind, listEmpty, wp_bind, wp_head]
      refine ⟨fun l found => ?_, fun _ => trivial⟩
      have none : l = [] := by
        by_contra full
        obtain ⟨l', found', full'⟩ := still.2.2 l found full
        exact full' (empty l' found')
      subst none
      exact rests still
    next =>
      refine wp_still_then (f := f) still fun d _ still => wp_still_then (f := f) still fun _ _ still => ?_
      rw [wp_bind, wp_getForward, wp_bind, wp_setForward]
      split
      · exact rests still
      · exact rests still

theorem wp_runForward (served : Served f w) :
    Wp (runForward f) (fun _ v => Served f v) (fun _ => True) w := by
  rw [runForward, wp_bind, wp_getForward]
  split
  next connect => exact wp_tcpForwardConnect served connect
  next write => exact wp_tcpForwardWrite served write
  next read => exact wp_tcpForwardRead served (by rw [read]; simp)

theorem Served.withStatus (served : Served f w) (status : CallingStatus) :
    Served f ⟨w.data.setForward f { w.data.forwards f with status }, w.rings⟩ := by
  simp only [Served, HttpMgmt.setForward, update_self]
  exact { served with }

theorem wp_tcpForwardRelease (served : Served f w) :
    Wp (tcpForwardRelease f) (fun _ v => Served f v) (fun _ => True) w := by
  rw [tcpForwardRelease]
  refine wp_still_then (f := f) (.refl _) fun _ _ still => wp_still_then (f := f) still fun _ v still => ?_
  rw [wp_bind, wp_getForward, wp_bind, wp_setForward]
  have released := (still.served served).withStatus .finish
  refine wp_still_then (f := f) (.refl _) fun d _ still => wp_still_then (f := f) still fun _ _ still =>
    wp_still_then (f := f) still fun _ _ still => wp_still_then (f := f) still fun fwd _ still =>
    wp_still_then (f := f) still fun _ _ still => wp_still_then (f := f) still fun _ _ still =>
    wp_still_then (f := f) still fun _ v still => ?_
  exact (Still.trans still ⟨rfl, rfl, fun l found full => ⟨l, found, full⟩⟩).served released

theorem wp_serviceForward (served : Served f w) :
    Wp (serviceForward f) (fun _ v => Served f v) (fun _ => True) w := by
  rw [serviceForward, wp_bind]
  refine wp_post (wp_runForward served) fun status v served => ?_
  cases status with
  | finish => exact wp_tcpForwardRelease served
  | pending => exact served.withStatus _
  | «continue» => exact served.withStatus _

end

/-! Every step. -/

/-- A function of one forward serves the others too. -/
theorem wp_of_own {α : Type} {f : FwdId} {code : DevM α} {w : DevState}
    [within : Within (forwardParts f) (doing (.forward f)) code] (others : ∀ f' ≠ f, Served f' w)
    (own : Wp code (fun _ v => Served f v) (fun _ => True) w) :
    Wp code (fun _ v => AllServed v) (fun _ => True) w := by
  refine wp_post (wp_and own (within.frame w)) fun _ v ⟨served, frame⟩ f' => ?_
  by_cases same : f' = f
  · rw [same]
    exact served
  · refine (others f' same).framed frame (by simpa [forwardParts] using same) (by simp [forwardParts])
      fun events done => same ?_
    cases done
    rfl

theorem keeps_of_own {α : Type} (f : FwdId) {code : DevM α}
    [Within (forwardParts f) (doing (.forward f)) code]
    (own : ∀ w, Served f w → Wp code (fun _ v => Served f v) (fun _ => True) w) : Keeps AllServed code :=
  ⟨fun w all => wp_of_own (fun f' _ => all f') (own w (all f))⟩

instance (f : FwdId) : Keeps AllServed (serviceForward f) := keeps_of_own f fun _ => wp_serviceForward

instance (f : FwdId) : Keeps AllServed (tcpForwardRelease f) := keeps_of_own f fun _ => wp_tcpForwardRelease

/-- A new forward has nothing to write. -/
theorem wp_forwardOpen {w : DevState} {sockfd : Int} {address port seq : Nat} :
    Wp (forwardOpen sockfd address port seq) (fun _ v => Served w.data.nextForward v) (fun _ => True) w := by
  rw [forwardOpen, wp_bind, wp_data]
  dsimp only
  rw [wp_bind, wp_modify, wp_bind, wp_note, wp_bind, initListHead, wp_perform]
  refine ⟨fun R done => ?_, fun _ => trivial⟩
  obtain ⟨_, items, _⟩ := init_effect done
  refine wp_still_then (f := w.data.nextForward) (.refl _) fun pfd _ still =>
    wp_still_then (f := w.data.nextForward) still fun _ v still => ?_
  rw [wp_bind, wp_setForward, wp_modify]
  simp only [Served, HttpMgmt.setForward, update_self]
  constructor
  case queued =>
    intro l found full
    obtain ⟨l', found', full'⟩ := still.2.2 l found full
    rw [items, update_self] at found'
    cases found'
    exact absurd rfl full'
  case asked => simp
  case resting => exact fun _ => ⟨rfl, by simp⟩
  case working => simp

instance : Keeps AllServed (forwardOpen sockfd address port seq) where
  kept w all := by
    refine wp_post (wp_and wp_forwardOpen (frame_forwardOpen w sockfd address port seq))
      fun _ v ⟨served, frame, _⟩ f => ?_
    by_cases new : f = w.data.nextForward
    · rw [new]
      exact served
    · refine (all f).framed frame (by simpa [forwardParts] using new) (by simp [forwardParts])
        fun events done => new ?_
      cases done
      rfl

instance : Keeps AllServed (tcpForwardCreate seq host port) := by
  unfold tcpForwardCreate
  infer_instance

/-- New data have come to the list of a forward, which may have to be woken for them. -/
structure Delivered (f : FwdId) (w : DevState) : Prop where
  resting : (w.data.forwards f).idle = true → (w.data.forwards f).bufWrite.curr = none
  working : (w.data.forwards f).idle = false → Served f w
  others : ∀ f' ≠ f, Served f' w

instance (f : FwdId) (code : DevM α) [within : Within outside otherwise code] : Keeps (Delivered f) code := by
  refine keeps_of_within within fun w v frame delivered => ?_
  have framed {f' : FwdId} (served : Served f' w) : Served f' v :=
    served.framed frame (fun member => (member f').1 rfl) (fun member => (member f').2 rfl)
      fun events allowed => allowed f' events rfl
  have same := frame.forward f fun member => (member f).1 rfl
  exact ⟨same ▸ delivered.resting, same ▸ fun busy => framed (delivered.working busy),
    fun f' other => framed (delivered.others f' other)⟩

theorem wp_wake {w : DevState} {f : FwdId} (delivered : Delivered f w) :
    Wp (when (w.data.forwards f).idle (forwardToWrite f)) (fun _ v => AllServed v) (fun _ => True) w := by
  rw [wp_when]
  constructor
  · exact fun idle => wp_of_own delivered.others (wp_forwardToWrite (delivered.resting idle) idle)
  · intro busy f'
    by_cases same : f' = f
    · rw [same]
      exact delivered.working (by simpa using busy)
    · exact delivered.others f' same

theorem wp_processTcpForwardresp {w : DevState} (all : AllServed w) :
    Wp processTcpForwardresp (fun _ v => AllServed v) (fun _ => True) w := by
  rw [processTcpForwardresp, wp_bind, wp_data, wp_bind, findForward, wp_bind, wp_data, wp_pure]
  split
  next => exact all
  next f found =>
    rw [wp_bind, listSpliceTailInit, wp_perform]
    refine ⟨fun R done => ?_, fun _ => trivial⟩
    obtain ⟨saved, todo, _, _, _, items, _⟩ := Rings.spliceTailInit_effect done
    have delivered : Delivered f { w with rings := R } := by
      refine ⟨fun idle => ((all f).resting idle).1, fun busy => ?_, fun f' other => ?_⟩
      · exact { all f with queued := fun _ _ _ => ((all f).working busy).1 }
      · have same : R.items (.fwdWrite f') = w.rings.items (.fwdWrite f') := by
          rw [items, update_of_ne (by simpa using other), update_of_ne (by simp)]
        exact (all f').still fun l found full => ⟨l, same.symm.trans found, full⟩
    have rest : Keeps (Delivered f) (do
        assert ((← data).bufPrepare.curr = none)
        releasePrepare : DevM Unit) := inferInstance
    have after := rest.kept _ delivered
    simp only [wp_bind, wp_data, wp_assert] at after ⊢
    refine ⟨fun free => wp_post (after.1 free) fun _ v delivered => ?_, after.2⟩
    rw [wp_getForward]
    exact wp_wake delivered

instance : Processes AllServed (fun _ => True) where
  forwardresp := ⟨fun _ all _ => wp_processTcpForwardresp all⟩

instance : Steady AllServed (fun _ _ => True) where
  tick w now replies all f := all f
  process := ⟨fun w all _ => (keeps_prepareProcess (G := fun _ => True)).kept w all fun _ => trivial⟩

theorem served_at_start {w : DevState} (starts : Starts w) : AllServed w := by
  obtain ⟨username, localHost, localPort, maxFds, servFd, now, rfl⟩ := starts
  refine fun f => ⟨fun l found => ?_, by rintro ⟨⟩, fun _ => ⟨rfl, fun _ => rfl⟩, by rintro ⟨⟩⟩
  cases found

/-! The assertion in `tcp_forward_write`. -/

section

theorem misuse_ne_assertion : (Misuse.misuse : Fault) ≠ .assertion := by decide

instance (slot : Nat) : Avoids .assertion (getPollFd slot) := ⟨fun _ => trivial⟩
instance (b : BufId) : Avoids .assertion (getBuf b) := ⟨fun _ => trivial⟩
instance (f : FwdId) : Avoids .assertion (getForward f) := ⟨fun _ => trivial⟩

instance (pointer : Option α) : Avoids .assertion (deref pointer) := by
  cases pointer with
  | none => exact avoids_stop nofun
  | some a => exact avoids_pure a

instance : Avoids .assertion (bytesAt b offset len) := by
  have stop : Avoids .assertion (.stop .outOfBounds : DevM (List Byte)) := avoids_stop nofun
  unfold bytesAt
  infer_instance

instance : Avoids .assertion (listDel b) := avoids_perform misuse_ne_assertion _
instance : Avoids .assertion (nextBufInfo h) := avoids_head misuse_ne_assertion h

instance : Avoids .assertion (freeBuf o) := by
  cases o with
  | none => exact avoids_pure ()
  | some b => exact avoids_perform misuse_ne_assertion _

instance : Avoids .assertion (setBuf b info) := avoids_modify _
instance : Avoids .assertion (setForward f fwd) := avoids_modify _
instance : Avoids .assertion (note act) := avoids_modify _
instance : Avoids .assertion (setPollFd slot pfd) := avoids_modify _

instance : Avoids .assertion (sysWrite o bytes) := by
  unfold sysWrite reply
  refine avoids_next fun r => ?_
  cases r <;> infer_instance

instance : Avoids .assertion (setEvents o slot change) := by
  unfold setEvents
  infer_instance

instance : Avoids .assertion (setForwardLine f line) := by
  unfold setForwardLine
  infer_instance

instance : Avoids .assertion (setForwardCurr f curr) := by
  unfold setForwardCurr
  infer_instance

instance : Avoids .assertion (forwardToRead f) := by
  unfold forwardToRead
  infer_instance

instance : Avoids .assertion (forwardWrote f b n) := by
  unfold forwardWrote
  infer_instance

instance : Avoids .assertion (forwardWriteLoop f count) := by
  induction count with
  | zero => exact avoids_stop nofun
  | succ count ih =>
    unfold forwardWriteLoop
    refine avoids_next fun fwd => ?_
    split
    · infer_instance
    next b _ =>
      refine avoids_next fun info => avoids_next fun bytes => avoids_next fun n => avoids_next fun d => ?_
      have rest : Avoids .assertion (do
          match ← forwardWrote f b n with
          | some status => return status
          | none => forwardWriteLoop f count : DevM CallerStatus) := by
        refine avoids_next fun status => ?_
        cases status <;> infer_instance
      infer_instance

end

/-- A forward that is at the beginning of its coroutine without a buffer in hand, or further on. -/
theorem wp_tcpForwardWrite_of_ready {w : DevState} {f : FwdId}
    (ready : (w.data.forwards f).line = .start → (w.data.forwards f).bufWrite.curr = none) :
    Wp (tcpForwardWrite f) (fun _ _ => True) (fun e => e ≠ .assertion) w := by
  have avoid {α : Type} {w : DevState} (code : DevM α) [avoided : Avoids .assertion code] :
      Wp code (fun _ _ => True) (fun e => e ≠ .assertion) w := avoided.avoids w
  have again (b : BufId) : Avoids .assertion (do
      match ← forwardWrote f b 0 with
      | some status => return status
      | none => forwardWriteLoop f (httpBufCaches + 1) : DevM CallerStatus) := by
    refine avoids_next fun status => ?_
    cases status <;> infer_instance
  rw [tcpForwardWrite, wp_bind, wp_getForward, wp_bind, wp_setForward]
  split
  next start =>
    rw [wp_bind, wp_assert]
    exact ⟨fun _ => avoid _, fun full => absurd (ready start) full⟩
  all_goals exact avoid _

/-- Between two steps, a forward that has something to write is set to write it and waits for
its socket to take it; a forward that rests has no buffer in hand, and neither has one whose
coroutine is to begin writing, so that this does not fail. -/
theorem none_stranded {w : DevState} (reached : Reach step (fun _ _ => True) Starts w) (f : FwdId) :
    (∀ l, w.rings.items (.fwdWrite f) = some l → l ≠ [] →
      (w.data.forwards f).funcRun = .write ∧
        ∃ events, lastInterest (.forward f) w.data.acts = some events ∧ events &&& pollOut ≠ 0) ∧
    ((w.data.forwards f).idle = true → (w.data.forwards f).bufWrite.curr = none) ∧
    ((w.data.forwards f).funcRun = .write → (w.data.forwards f).line = .start →
      (w.data.forwards f).bufWrite.curr = none) ∧
    ∀ v : DevState, v.data.forwards f = w.data.forwards f → (v.data.forwards f).funcRun = .write →
      (tcpForwardWrite f).run v ≠ .error .assertion := by
  have all := reach_keeps_always (P := AllServed) (fun _ => served_at_start) reached
  have served := all f
  have ready : (w.data.forwards f).funcRun = .write → (w.data.forwards f).line = .start →
      (w.data.forwards f).bufWrite.curr = none := by
    intro write start
    cases idle : (w.data.forwards f).idle with
    | true => exact (served.resting idle).1
    | false =>
      obtain ⟨_, _, place | place | place⟩ := served.working idle <;> cases start.symm.trans place
  refine ⟨fun l found full => ?_, fun idle => (served.resting idle).1, ready, fun v same write fails => ?_⟩
  · have write := served.queued l found full
    exact ⟨write, served.asked write⟩
  · rw [same] at write
    have avoided := wp_tcpForwardWrite_of_ready (w := v) (f := f) fun start => by
      rw [same] at start ⊢
      exact ready write start
    unfold Wp Library.Program.Wp at avoided
    rw [fails] at avoided
    exact avoided rfl

/-! A device whose forward has connected and is sent data by the server. -/

def openPayload : List Byte := bytesBE 2 7 ++ bytesBE 2 80 ++ bytesBE 4 0 ++ text "10.0.0.1"

def dataArrives : List Occasion :=
  [⟨.receive (headerBytes httpCForward 7 (openPayload.length + httpCHeaderLen) ++ openPayload), 1,
      [.value 5, .value 0x0a000001]⟩,
    ⟨.poll fun _ => pollOut, 1, []⟩,
    ⟨.service 1, 1, []⟩,
    ⟨.receive (headerBytes httpCForwardReq 7 ((text "hello").length + httpCHeaderLen) ++ text "hello"), 2, []⟩]

def hasData (w : DevState) : Bool :=
  decide ((w.rings.items (.fwdWrite 0)).isSome ∧ w.rings.items (.fwdWrite 0) ≠ some [] ∧
    (w.data.forwards 0).idle = true ∧ (w.data.forwards 0).funcRun = .write)

theorem dataArrives_hasData : (run step device dataArrives).map hasData = some true := by decide +kernel

theorem none_stranded_hasData :
    ∃ w, hasData w = true ∧ ((w.data.forwards 0).idle = true → (w.data.forwards 0).bufWrite.curr = none) := by
  obtain ⟨w, ran, has⟩ := Option.map_eq_some_iff.mp dataArrives_hasData
  exact ⟨w, has, (none_stranded (reach_of_free_run Reassembly.device_starts ran) 0).2.1⟩

end WebTunnel.Device.Stranding
