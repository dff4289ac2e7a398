import WebTunnel.Device.Manager
import WebTunnel.Library.Slots

/-! The table of polled descriptors: its slots and its lookup are inverse to each other, in
whatever order descriptors come and go. -/

namespace WebTunnel.Device.Descriptors
open Library.Run Library.Slots Library.Routines Library.Routines.Routine Function Device.Types Buffers

/-- What is done with the table: descriptors come and go, and an entry is given other events
or found ones. -/
inductive TableCall where
  | add (fd : Int) (events : PollEvents)
  | del (fd : Int)
  | mark (slot : Nat) (events revents : PollEvents)

def TableCall.code : TableCall → DevM Unit
  | .add fd events => do
    let _ ← mgmtAddFd fd events
  | .del fd => do
    let _ ← mgmtDelFd fd
  | .mark slot events revents => do setPollFd slot { ← getPollFd slot with events, revents }

/-- The descriptors that are registered after a call. -/
def TableCall.after (registered : Set Int) : TableCall → Set Int
  | .add fd _ => insert fd registered
  | .del fd => registered \ {fd}
  | .mark .. => registered

/-- A device, and the descriptors registered in its table. -/
structure Table where
  device : DevState
  registered : Set Int

namespace Table

def step (t : Table) (call : TableCall) : Option Table :=
  match call.code.run t.device with
  | .ok (_, v) => some ⟨v, call.after t.registered⟩
  | .error _ => none

/-- A descriptor that comes is in range and not registered yet, and one that goes is registered. -/
def Proper (t : Table) : TableCall → Prop
  | .add fd _ => 0 ≤ fd ∧ fd < t.device.data.maxFds ∧ fd ∉ t.registered
  | .del fd => fd ∈ t.registered
  | .mark .. => True

def Empty (t : Table) : Prop := t.device.data.countPollfds = 0 ∧ t.registered = ∅

/-- Every registered descriptor is in range and has one slot, where the lookup finds it. -/
structure Consistent (t : Table) : Prop where
  indexed : Indexed PollFd.fd t.device.data.countPollfds t.device.data.pollfds t.device.data.fdLookup t.registered
  ranged : ∀ fd ∈ t.registered, 0 ≤ fd ∧ fd < t.device.data.maxFds

theorem consistent_of_empty {t : Table} (empty : Empty t) : Consistent t := by
  constructor
  · rw [empty.1, empty.2]
    exact Indexed.empty
  · intro fd member
    rw [empty.2] at member
    exact member.elim

end Table

/-! The two functions where the table is consistent. -/

section
variable {w : DevState} {keys : Set Int} {fd : Int} {events : PollEvents} {err : Fault → Prop}

/-- The state with a descriptor behind the others. -/
def added (fd : Int) (events : PollEvents) (w : DevState) : DevState :=
  { w with data := { w.data with
    fdLookup := update w.data.fdLookup fd w.data.countPollfds
    pollfds := update w.data.pollfds w.data.countPollfds ⟨fd, events, 0⟩
    countPollfds := w.data.countPollfds + 1 } }

theorem wp_mgmtAddFd_inside (given : 0 ≤ fd) (ranged : fd < w.data.maxFds) {post : Option Nat → DevState → Prop}
    (next : post (some w.data.countPollfds) (added fd events w)) : Wp (mgmtAddFd fd events) post err w := by
  rw [mgmtAddFd, wp_bind, wp_data, if_neg (not_le.mpr ranged), wp_bind, wp_demand]
  exact ⟨fun _ => next, fun negative => absurd given negative⟩

/-- A removal leaves the other descriptors with what their slots held. -/
structure Removed (fd : Int) (keys : Set Int) (w v : DevState) : Prop where
  indexed : Indexed PollFd.fd v.data.countPollfds v.data.pollfds v.data.fdLookup (keys \ {fd})
  count : v.data.countPollfds + 1 = w.data.countPollfds
  ranged : v.data.maxFds = w.data.maxFds
  kept : ∀ fd' ∈ keys \ {fd}, v.data.pollfds (v.data.fdLookup fd') = w.data.pollfds (w.data.fdLookup fd')

theorem wp_mgmtDelFd_registered
    (indexed : Indexed PollFd.fd w.data.countPollfds w.data.pollfds w.data.fdLookup keys) (member : fd ∈ keys) :
    Wp (mgmtDelFd fd) (fun rc v => Removed fd keys w v ∧ (rc = -1 ↔ v.data.countPollfds = 0)) err w := by
  obtain ⟨inside, _⟩ := indexed.index_of_mem member
  obtain ⟨count, size⟩ : ∃ count, w.data.countPollfds = count + 1 := Nat.exists_eq_succ_of_ne_zero (by omega)
  rw [size] at indexed
  rw [mgmtDelFd, wp_bind, wp_data, wp_bind, wp_demand]
  refine ⟨fun _ => ?_, fun none => absurd (show 0 < w.data.countPollfds by omega) none⟩
  rw [wp_bind, wp_modify, wp_ite, size, Nat.add_sub_cancel]
  split
  next last =>
    rw [last] at indexed size ⊢
    have gone := indexed.removeOnly member
    rw [wp_pure]
    constructor
    · constructor
      case indexed =>
        rw [gone]
        exact Indexed.empty
      case count => exact size.symm
      case ranged => rfl
      case kept =>
        intro fd' remaining
        exact absurd (gone ▸ remaining) (Set.notMem_empty fd')
    · exact iff_of_true rfl rfl
  next more =>
    rw [wp_bind, wp_modify, wp_pure]
    constructor
    · constructor
      case indexed => exact indexed.swapOut member
      case count => exact size.symm
      case ranged => rfl
      case kept => exact fun fd' remaining => indexed.swapOut_at member remaining.1 remaining.2
    · exact iff_of_false (by decide) more

end

/-! Runs. -/

namespace Table
variable {t t' : Table}

theorem wp_call (consistent : Consistent t) (call : TableCall) (proper : Proper t call) :
    Wp call.code (fun _ v => Consistent ⟨v, call.after t.registered⟩) (fun _ => False) t.device := by
  cases call with
  | add fd events =>
    obtain ⟨given, ranged, new⟩ := proper
    rw [TableCall.code, wp_bind]
    apply wp_mgmtAddFd_inside given ranged
    constructor
    · exact consistent.indexed.push (b := ⟨fd, events, 0⟩) new
    · intro fd' member
      rcases Set.mem_insert_iff.mp member with same | member
      · rw [same]
        exact ⟨given, ranged⟩
      · exact consistent.ranged fd' member
  | del fd =>
    rw [TableCall.code, wp_bind]
    apply wp_post (wp_mgmtDelFd_registered consistent.indexed proper)
    intro rc v removed
    constructor
    · exact removed.1.indexed
    · intro fd' remaining
      have same : v.data.maxFds = t.device.data.maxFds := removed.1.ranged
      rw [same]
      exact consistent.ranged fd' remaining.1
  | mark slot events revents =>
    rw [TableCall.code, wp_bind, getPollFd, wp_bind, wp_data, wp_pure, setPollFd, wp_modify]
    constructor
    · apply consistent.indexed.congr
      intro i
      change (update t.device.data.pollfds slot _ i).fd = _
      by_cases same : i = slot
      · rw [same, update_self]
      · rw [update_of_ne same]
    · exact consistent.ranged

theorem step_of_proper (consistent : Consistent t) (call : TableCall) (proper : Proper t call) :
    ∃ t', step t call = some t' ∧ Consistent t' ∧ t'.registered = call.after t.registered := by
  obtain ⟨_, v, ran, holds⟩ := wp_total.mp (wp_call consistent call proper)
  refine ⟨⟨v, call.after t.registered⟩, ?_, holds, rfl⟩
  rw [step, ran]

theorem consistent_of_reach (reached : Reach step Proper Empty t) : Consistent t := by
  apply reached.invariant
  · exact fun _ empty => consistent_of_empty empty
  · intro t call t' consistent proper moved
    obtain ⟨u, found, holds, _⟩ := step_of_proper consistent call proper
    rw [found] at moved
    exact Option.some.inj moved ▸ holds

end Table

/-- Whatever the order in which descriptors come and go, each that is registered has exactly
one slot, where the lookup finds it; no call fails, and a removal leaves the others with their
events, those waited for and those found. -/
theorem table_consistent {t : Table} (reached : Reach Table.step Table.Proper Table.Empty t) :
    (Set.BijOn (fun i => (t.device.data.pollfds i).fd) (Set.Iio t.device.data.countPollfds) t.registered ∧
      ∀ i < t.device.data.countPollfds, t.device.data.fdLookup (t.device.data.pollfds i).fd = i) ∧
    (∀ call, t.Proper call → ∃ t', t.step call = some t') ∧
    ∀ fd ∈ t.registered, ∃ rc v, (mgmtDelFd fd).run t.device = .ok (rc, v) ∧
      ∀ fd' ∈ t.registered, fd' ≠ fd →
        v.data.pollfds (v.data.fdLookup fd') = t.device.data.pollfds (t.device.data.fdLookup fd') := by
  have consistent := Table.consistent_of_reach reached
  refine ⟨⟨consistent.indexed.dense, consistent.indexed.found⟩, ?_, ?_⟩
  · intro call proper
    obtain ⟨t', moved, _⟩ := Table.step_of_proper consistent call proper
    exact ⟨t', moved⟩
  · intro fd member
    obtain ⟨rc, v, ran, removed, _⟩ := wp_total.mp (wp_mgmtDelFd_registered consistent.indexed member)
    exact ⟨rc, v, ran, fun fd' member' other => removed.kept fd' ⟨member', other⟩⟩

/-! A table with two descriptors. -/

def emptyTable : Table := ⟨⟨{ Manager.initData [] [] 80 1024 3 0 with countPollfds := 0 }, Manager.initRings⟩, ∅⟩

def twoAdded : Table := ⟨added 7 pollOut (added 5 pollIn emptyTable.device), insert 7 (insert 5 ∅)⟩

theorem twoAdded_reached : Reach Table.step Table.Proper Table.Empty twoAdded := by
  have first : Reach Table.step Table.Proper Table.Empty ⟨added 5 pollIn emptyTable.device, insert 5 ∅⟩ :=
    .next (s := emptyTable) (.start ⟨rfl, rfl⟩) (a := .add 5 pollIn) ⟨by decide, by decide, Set.notMem_empty 5⟩ rfl
  have new : (7 : Int) ∉ insert 5 (∅ : Set Int) := by simp
  exact .next first (a := .add 7 pollOut) ⟨by decide, by decide, new⟩ rfl

theorem table_consistent_twoAdded :
    twoAdded.device.data.fdLookup 7 = 1 ∧ ∃ rc v, (mgmtDelFd 5).run twoAdded.device = .ok (rc, v) ∧
      ∀ fd' ∈ twoAdded.registered, fd' ≠ 5 →
        v.data.pollfds (v.data.fdLookup fd') = twoAdded.device.data.pollfds (twoAdded.device.data.fdLookup fd') :=
  ⟨(table_consistent twoAdded_reached).1.2 1 (by decide),
    (table_consistent twoAdded_reached).2.2 5 (Set.mem_insert_of_mem 7 (Set.mem_insert 5 ∅))⟩

end WebTunnel.Device.Descriptors
