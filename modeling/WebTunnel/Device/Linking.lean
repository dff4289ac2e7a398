import WebTunnel.Device.Stranding
import WebTunnel.Device.Keeping
import WebTunnel.Library.Linked

/-! The device on linked cells: its lists of buffers as the circular lists of heads and embedded
entries that they are in memory. -/

namespace WebTunnel.Device.Linking
open Library.Lists Library.Routines Library.Chains Library.Linked Library.Run Library.Routines.Routine Function Device.Types Manager Keeping

abbrev LinkedState := Memory BufHead BufId HttpMgmt

/-- The list operations of `http_mgmt_init`. -/
def initOps : List (ListOp BufHead BufId) :=
  .init .caches :: (List.finRange httpBufCaches).map (.add · .caches) ++ [.init .prepare, .init .toserver]

/-- The pointers after `http_mgmt_init`, which clears the memory first. -/
def initLinks : Option (Links (Cell BufHead BufId)) := initOps.foldlM apply Links.null

def step (u : LinkedState) (o : Occasion) : Option LinkedState :=
  match Library.Linked.run (handle o.event) { u with data := { u.data with now := o.now, replies := o.replies } } with
  | .ok (_, v) => some v
  | .error _ => none

/-- Buffers that are added to the pool one after the other. -/
theorem foldlM_add {R : Rings BufHead BufId} (bs : List BufId) {l : List BufId} (found : R.items .caches = some l)
    (free : ∀ b ∈ bs, R.home b = none) (nodup : bs.Nodup) :
    ∃ S, (bs.map (ListOp.add · BufHead.caches)).foldlM ListOp.apply R = some S ∧
      S.items = update R.items .caches (some (bs.reverse ++ l)) ∧
      ∀ b, S.home b = if b ∈ bs then some .caches else R.home b := by
  induction bs generalizing R l with
  | nil =>
    refine ⟨R, rfl, ?_, by simp⟩
    rw [List.reverse_nil, List.nil_append, ← found, update_eq_self]
  | cons b bs ih =>
    obtain ⟨absent, nodup⟩ := List.nodup_cons.mp nodup
    obtain ⟨S, done, items, home⟩ := Rings.add_of_free found (free b List.mem_cons_self)
    have free' : ∀ b' ∈ bs, S.home b' = none := by
      intro b' member
      rw [home, update_of_ne (ne_of_mem_of_not_mem member absent)]
      exact free b' (List.mem_cons_of_mem b member)
    obtain ⟨S', done', items', home'⟩ := ih (by rw [items, update_self]) free' nodup
    refine ⟨S', ?_, ?_, ?_⟩
    · rw [List.map_cons, List.foldlM_cons]
      exact Option.bind_eq_some_iff.mpr ⟨S, done, done'⟩
    · rw [items', items, update_idem, List.reverse_cons, List.append_assoc]
      rfl
    · intro b'
      rw [home' b', home]
      by_cases same : b' = b
      · subst same
        simp
      · simp [same]

theorem initOps_apply : initOps.foldlM ListOp.apply (Rings.empty fun _ => false) = some initRings := by
  obtain ⟨R₁, done₁, items₁, home₁⟩ := exists_init (R := (Rings.empty fun _ => false : Rings BufHead BufId))
    (h := .caches) (fun l found => by cases found)
  obtain ⟨R₂, done₂, items₂, home₂⟩ := foldlM_add (R := R₁) (List.finRange httpBufCaches) (l := [])
    (by rw [items₁, update_self]) (fun b _ => by rw [home₁]; rfl) (List.nodup_finRange _)
  obtain ⟨R₃, done₃, items₃, home₃⟩ := exists_init (R := R₂) (h := .prepare) fun l found => by
    rw [items₂, items₁] at found
    cases found
  obtain ⟨R₄, done₄, items₄, home₄⟩ := exists_init (R := R₃) (h := .toserver) fun l found => by
    rw [items₃, items₂, items₁] at found
    cases found
  have last : R₄ = initRings := by
    apply Rings.ext
    · rw [items₄, items₃, items₂, items₁]
      funext h
      cases h <;> simp [update, initRings, Rings.empty]
    · funext b
      rw [home₄, home₃, home₂, if_pos (List.mem_finRange b)]
      rfl
  rw [initOps, List.cons_append, List.foldlM_cons, done₁]
  change (List.foldlM ListOp.apply R₁ (_ ++ _)) = _
  rw [List.foldlM_append, done₂]
  change ((ListOp.init BufHead.prepare).apply R₂).bind _ = _
  rw [done₃]
  change ((ListOp.init BufHead.toserver).apply R₃).bind _ = _
  rw [done₄, last]
  rfl

/-- The pointers after `http_mgmt_init` stand for the lists after it. -/
theorem initLinks_represents : ∃ m, initLinks = some m ∧ Represents m initRings :=
  foldlM_of_foldlM represents_null initOps_apply

/-- What is done at one event. -/
theorem handle_follows {u : LinkedState} {w : DevState} (stands : Stands u w) (o : Occasion) :
    Follows ((handle o.event).run (DevState.at w o))
      (Library.Linked.run (handle o.event) { u with data := { u.data with now := o.now, replies := o.replies } }) := by
  apply run_follows
  exact ⟨by rw [stands.data]; rfl, stands.represents⟩

theorem stands_step {u : LinkedState} {w v : DevState} {o : Occasion} (stands : Stands u w)
    (moved : Manager.step w o = some v) : ∃ u', step u o = some u' ∧ Stands u' v := by
  have follows := handle_follows stands o
  unfold Manager.step at moved
  split at moved
  next v' ran =>
    cases moved
    obtain ⟨u', ran', stands'⟩ := follows.returns _ _ ran
    refine ⟨u', ?_, stands'⟩
    rw [step, ran']
  next => cases moved

theorem stands_run {u : LinkedState} {w v : DevState} {os : List Occasion} (stands : Stands u w)
    (ran : Library.Run.run Manager.step w os = some v) :
    ∃ u', Library.Run.run step u os = some u' ∧ Stands u' v := by
  induction os generalizing u w with
  | nil =>
    cases ran
    exact ⟨u, rfl, stands⟩
  | cons o rest ih =>
    rw [run_cons] at ran ⊢
    obtain ⟨w', moved, ran⟩ := Option.bind_eq_some_iff.mp ran
    obtain ⟨u', moved', stands⟩ := stands_step stands moved
    rw [moved']
    exact ih stands ran

/-- Every run of the device is a run over the pointers that `http_mgmt_init` leaves, which follows
no null pointer, does the same, and ends with a ring of cells for every list. A loop over a ring
meets the list's buffers, and a buffer on no list points nowhere. Where the next event would stop
the device without breaking a list, it stops it in the same way over the pointers. -/
theorem linked_runs {w v : DevState} {os : List Occasion} (starts : Starts w)
    (ran : Library.Run.run Manager.step w os = some v) :
    ∃ m u, initLinks = some m ∧ Library.Run.run step ⟨w.data, m⟩ os = some u ∧ u.data = v.data ∧
      Represents u.links v.rings ∧ (∀ h l, v.rings.items h = some l → walk u.links h = some l) ∧
      ∀ (o : Occasion) (e : Fault), (handle o.event).run (DevState.at v o) = .error e → e ≠ .list →
        Library.Linked.run (handle o.event) { u with data := { u.data with now := o.now, replies := o.replies } } =
          .error e := by
  obtain ⟨m, begins, represents⟩ := initLinks_represents
  obtain ⟨username, localHost, localPort, maxFds, servFd, now, rfl⟩ := starts
  obtain ⟨u, ran', stands⟩ := stands_run (u := ⟨_, m⟩) ⟨rfl, represents⟩ ran
  refine ⟨m, u, begins, ran', stands.data, stands.represents, ?_, ?_⟩
  · intro h l found
    exact stands.represents.walk found
  · intro o e stopped other
    exact (handle_follows stands o).stops e stopped other

theorem linked_runs_dataArrives : ∃ m u v, initLinks = some m ∧
    Library.Run.run step ⟨Reassembly.device.data, m⟩ Stranding.dataArrives = some u ∧
    Stranding.hasData v = true ∧ Represents u.links v.rings := by
  obtain ⟨v, ran, has⟩ := Option.map_eq_some_iff.mp Stranding.dataArrives_hasData
  obtain ⟨m, u, begins, ran', _, represents, _⟩ := linked_runs Reassembly.device_starts ran
  exact ⟨m, u, v, begins, ran', has, represents⟩

end WebTunnel.Device.Linking
