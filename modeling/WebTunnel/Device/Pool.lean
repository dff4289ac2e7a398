import WebTunnel.Device.Manager

/-! What the operations on the pool of buffers do to lists that are as they should be. -/

namespace WebTunnel.Device.Pool
open Library.Bytes Library.Lists Library.Routines Library.Routines.Routine Function Device.Types Buffers
open Manager (initRings)

section
variable {err : Fault → Prop} {w : DevState} {b : BufId} {free l : List BufId}

@[simp] theorem setBuf_bufs (data : HttpMgmt) (info : BufInfo) : (data.setBuf b info).bufs b = info := update_self _ _ _

theorem setBuf_bufs_of_ne {b' : BufId} (data : HttpMgmt) (info : BufInfo) (other : b' ≠ b) :
    (data.setBuf b info).bufs b' = data.bufs b' := update_of_ne other _ _

@[simp] theorem setBuf_setBuf (data : HttpMgmt) (info info' : BufInfo) :
    (data.setBuf b info).setBuf b info' = data.setBuf b info' := by
  simp [HttpMgmt.setBuf]

theorem wp_allocBuf_of_cons {post : Option BufId → DevState → Prop}
    (found : w.rings.items .caches = some (b :: free))
    (next : ∀ R, R.items = update w.rings.items .caches (some free) →
      R.home = update w.rings.home b none →
      post (some b) ⟨w.data.setBuf b ⟨(w.data.bufs b).buf, 0, 0, 0⟩, R⟩) :
    Wp allocBuf post err w := by
  have sits : w.rings.home b = some .caches := Rings.home_of_mem found List.mem_cons_self
  rw [allocBuf, wp_bind, wp_head]
  refine ⟨fun l same => ?_, fun none => by cases found.symm.trans none⟩
  cases found.symm.trans same
  simp only [List.head?_cons]
  rw [wp_bind]
  refine wp_del_of_home found sits fun R items home => ?_
  rw [List.erase_cons_head] at items
  exact next R items home

theorem wp_allocBuf_of_nil {post : Option BufId → DevState → Prop}
    (found : w.rings.items .caches = some []) (next : post none w) : Wp allocBuf post err w := by
  rw [allocBuf, wp_bind, wp_head]
  refine ⟨fun l same => ?_, fun none => by cases found.symm.trans none⟩
  cases found.symm.trans same
  exact next

theorem wp_freeBuf_of_free {post : Unit → DevState → Prop} (found : w.rings.items .caches = some free)
    (away : w.rings.home b = none)
    (next : ∀ R, R.items = update w.rings.items .caches (some (b :: free)) →
      R.home = update w.rings.home b (some .caches) → post () { w with rings := R }) :
    Wp (freeBuf (some b)) post err w := wp_add_of_free found away next

/-- With no current buffer, only the list of what was saved goes back to the pool. -/
theorem wp_releasePrepare_of_none {post : Unit → DevState → Prop}
    (curr : w.data.bufPrepare.curr = none) (saved : w.rings.items .prepare = some l)
    (pool : w.rings.items .caches = some free)
    (next : ∀ R, R.items = update (update w.rings.items .prepare (some [])) .caches (some (l ++ free)) →
      (R.home = fun n => if n ∈ l then some .caches else w.rings.home n) →
      post () ⟨{ w.data with bufPrepare := ⟨none, 0, 0, 0, w.data.bufPrepare.seq⟩ }, R⟩) :
    Wp releasePrepare post err w := by
  rw [releasePrepare, wp_bind, wp_data, curr, freeBuf, wp_bind, wp_pure, wp_bind, setPrepare, wp_modify]
  exact wp_spliceInit_of_found (w := ⟨_, w.rings⟩) (by decide) saved pool next

/-- A current buffer goes back to the pool too; it must hang nowhere. -/
theorem wp_releasePrepare_of_away {saved : List BufId} {post : Unit → DevState → Prop}
    (away : ∀ b, w.data.bufPrepare.curr = some b → w.rings.home b = none)
    (hangs : w.rings.items .prepare = some saved) (pool : w.rings.items .caches = some free)
    (next : ∀ R, R.items .prepare = some [] → R.items .caches = some (saved ++ w.data.bufPrepare.curr.toList ++ free) →
      (∀ b, w.data.bufPrepare.curr = some b → R.home b = some .caches) →
      post () ⟨{ w.data with bufPrepare := ⟨none, 0, 0, 0, w.data.bufPrepare.seq⟩ }, R⟩) :
    Wp releasePrepare post err w := by
  cases part : w.data.bufPrepare.curr with
  | none =>
    refine wp_releasePrepare_of_none part hangs pool fun R items home => next R ?_ ?_ ?_
    · rw [items, update_of_ne (by decide), update_self]
    · rw [items, update_self, part, Option.toList_none, List.append_nil]
    · simp [part]
  | some b =>
    rw [releasePrepare, wp_bind, wp_data, part, wp_bind]
    refine wp_freeBuf_of_free pool (away b part) fun R items home => ?_
    rw [wp_bind, setPrepare, wp_modify]
    have hangs' : R.items .prepare = some saved := by rw [items, update_of_ne (by decide), hangs]
    have pool' : R.items .caches = some (b :: free) := by rw [items, update_self]
    refine wp_spliceInit_of_found (w := ⟨_, R⟩) (by decide) hangs' pool' fun S items' home' => next S ?_ ?_ ?_
    · rw [items', update_of_ne (by decide), update_self]
    · rw [items', update_self, part, Option.toList_some, List.append_assoc, List.singleton_append]
    · intro b' same
      cases part.symm.trans same
      simp only [home', home, update_self, ite_self]

theorem wp_savePrepare_of_free {post : Unit → DevState → Prop}
    (saved : w.rings.items .prepare = some l) (away : w.rings.home b = none)
    (next : ∀ R, R.items = update w.rings.items .prepare (some (l ++ [b])) →
      R.home = update w.rings.home b (some .prepare) →
      post () ⟨{ w.data.setBuf b ⟨(w.data.bufs b).buf, 0, (w.data.bufs b).start, (w.data.bufs b).start⟩ with
        bufPrepare := { w.data.bufPrepare with curr := none, len := w.data.bufPrepare.len + (w.data.bufs b).start } },
        R⟩) :
    Wp (savePrepare b) post err w := by
  rw [savePrepare, wp_bind, wp_getBuf, wp_bind, wp_setBuf, wp_bind, setPrepare, wp_modify, wp_bind]
  refine wp_addTail_of_free (w := ⟨_, w.rings⟩) saved away fun R items home => ?_
  have result := next R items home
  simpa [HttpMgmt.setBuf, setPrepare] using result

end

@[simp] theorem setBuf_bufPrepare (d : HttpMgmt) (b : BufId) (info : BufInfo) :
    (d.setBuf b info).bufPrepare = d.bufPrepare := rfl

/-! The same for any lists, where the operations return. -/

section
variable {w : DevState}

theorem wp_allocBuf_returns {post : Option BufId → DevState → Prop} (empty : post none w)
    (next : ∀ b R, w.rings.home b = some .caches → R.home = update w.rings.home b none →
      post (some b) ⟨w.data.setBuf b ⟨(w.data.bufs b).buf, 0, 0, 0⟩, R⟩) :
    Wp allocBuf post (fun _ => True) w := by
  rw [allocBuf, wp_bind, wp_head]
  refine ⟨fun l found => ?_, fun _ => trivial⟩
  cases l with
  | nil => exact empty
  | cons b free =>
    have sits : w.rings.home b = some .caches := Rings.home_of_mem found List.mem_cons_self
    simp only [List.head?_cons]
    rw [wp_bind]
    exact wp_del_of_home found sits fun R _ home => next b R sits home

/-- What the parser has after its buffers were released. -/
structure Released (w v : DevState) : Prop where
  data : v.data = { w.data with bufPrepare := ⟨none, 0, 0, 0, w.data.bufPrepare.seq⟩ }
  saved : ∀ b, v.rings.home b ≠ some .prepare
  curr : ∀ b, w.data.bufPrepare.curr = some b → v.rings.home b ≠ none

theorem wp_releasePrepare_returns : Wp releasePrepare (fun _ v => Released w v) (fun _ => True) w := by
  have spliced {d : HttpMgmt} {R : Rings BufHead BufId} (sits : ∀ b, w.data.bufPrepare.curr = some b → R.home b ≠ none) :
      Wp (listSpliceInit .prepare .caches) (fun _ v => v.data = d ∧ (∀ b, v.rings.home b ≠ some .prepare) ∧
        ∀ b, w.data.bufPrepare.curr = some b → v.rings.home b ≠ none) (fun _ => True) ⟨d, R⟩ := by
    refine (wp_perform _ _).mpr ⟨fun S done => ?_, fun _ => trivial⟩
    obtain ⟨saved, free, _, hangs, _, _, home⟩ := Rings.spliceInit_effect done
    refine ⟨rfl, fun b => ?_, fun b same => ?_⟩
    · simp only [home]
      split
      next => simp
      next out => exact fun sits => out (Rings.mem_of_home sits hangs)
    · simp only [home]
      split
      next => simp
      next => exact sits b same
  have result {d : HttpMgmt} (same : d = w.data) {R : Rings BufHead BufId}
      (sits : ∀ b, w.data.bufPrepare.curr = some b → R.home b ≠ none) :
      Wp (do
        setPrepare fun pbuf => { pbuf with curr := none, len := 0, totalLen := 0, type := 0 }
        listSpliceInit .prepare .caches) (fun _ v => Released w v) (fun _ => True) ⟨d, R⟩ := by
    subst same
    rw [setPrepare, wp_bind, wp_modify]
    exact wp_post (spliced sits) fun _ v ⟨data, saved, curr⟩ => ⟨data, saved, curr⟩
  rw [releasePrepare, wp_bind, wp_data, wp_bind]
  cases current : w.data.bufPrepare.curr with
  | none => exact result rfl (by simp [current])
  | some b =>
    refine (wp_perform _ _).mpr ⟨fun R done => ?_, fun _ => trivial⟩
    obtain ⟨_, _, _, _, home⟩ := Rings.add_effect done
    refine result rfl fun b' same => ?_
    cases current.symm.trans same
    rw [home, update_self]
    simp

/-- A buffer is saved only if it hangs nowhere. -/
theorem wp_savePrepare_returns {b : BufId} {post : Unit → DevState → Prop}
    (next : ∀ R, w.rings.home b = none → R.home = update w.rings.home b (some .prepare) →
      post () ⟨{ w.data.setBuf b ⟨(w.data.bufs b).buf, 0, (w.data.bufs b).start, (w.data.bufs b).start⟩ with
        bufPrepare := { w.data.bufPrepare with curr := none, len := w.data.bufPrepare.len + (w.data.bufs b).start } },
        R⟩) :
    Wp (savePrepare b) post (fun _ => True) w := by
  rw [savePrepare, wp_bind, wp_getBuf, wp_bind, wp_setBuf, wp_bind, setPrepare, wp_modify, wp_bind]
  refine (wp_perform _ _).mpr ⟨fun R done => ?_, fun _ => trivial⟩
  obtain ⟨_, _, away, _, home⟩ := Rings.addTail_effect done
  have result := next R away home
  simpa [HttpMgmt.setBuf, setPrepare] using result

end

/-! Lists that are made of buffers of the pool. -/

/-- Heads that were not used become empty lists. -/
theorem exists_lists (heads : List BufHead) (bare : ∀ h ∈ heads, initRings.items h = none) :
    ∃ R : Rings BufHead BufId, (∀ h ∈ heads, R.items h = some []) ∧ (∀ h ∉ heads, R.items h = initRings.items h) ∧
      R.home = initRings.home := by
  induction heads with
  | nil => exact ⟨initRings, by simp, fun _ _ => rfl, rfl⟩
  | cons h rest ih =>
    obtain ⟨R, empty, others, home⟩ := ih fun h' member => bare h' (List.mem_cons_of_mem h member)
    have unused : ∀ l ∈ R.items h, l = [] := by
      intro l found
      by_cases member : h ∈ rest
      · cases found.symm.trans (empty h member)
        rfl
      · cases found.symm.trans ((others h member).trans (bare h List.mem_cons_self))
    obtain ⟨S, _, items, home'⟩ := exists_init unused
    refine ⟨S, fun h' member => ?_, fun h' away => ?_, home'.trans home⟩
    · by_cases same : h' = h
      · rw [same, items, update_self]
      · rw [items, update_of_ne same]
        exact empty h' ((List.mem_cons.mp member).resolve_left same)
    · obtain ⟨other, away⟩ := not_or.mp (List.mem_cons.not.mp away)
      rw [items, update_of_ne other]
      exact others h' away

/-- Buffers of the pool hang on a list that was empty. -/
theorem exists_held {R : Rings BufHead BufId} {h : BufHead} {pool l : List BufId} (found : R.items .caches = some pool)
    (empty : R.items h = some []) (other : h ≠ .caches) (nodup : l.Nodup) (all : ∀ b ∈ l, b ∈ pool) :
    ∃ S : Rings BufHead BufId, S.items h = some l ∧ S.items .caches = some (pool.filter (· ∉ l)) ∧
      ∀ h', h' ≠ h → h' ≠ .caches → S.items h' = R.items h' := by
  induction l using List.reverseRecOn with
  | nil => exact ⟨R, empty, by simpa using found, fun _ _ _ => rfl⟩
  | append_singleton l b ih =>
    obtain ⟨nodup, _, apart⟩ := List.nodup_append.mp nodup
    have new : b ∉ l := fun member => apart b member b (List.mem_singleton_self b) rfl
    obtain ⟨S, held, rest, others⟩ := ih nodup fun b' member => all b' (List.mem_append_left _ member)
    have member : b ∈ pool.filter (· ∉ l) := by
      simpa [new] using all b (List.mem_append_right _ (List.mem_singleton_self b))
    obtain ⟨T, _, items, home⟩ := Rings.del_of_home rest (Rings.home_of_mem rest member)
    have held' : T.items h = some l := by rw [items, update_of_ne other, held]
    obtain ⟨U, _, items', _⟩ := Rings.addTail_of_free held' (show T.home b = none by rw [home, update_self])
    refine ⟨U, by rw [items', update_self], ?_, fun h' here pool => ?_⟩
    · rw [items', update_of_ne other.symm, items, update_self, (S.nodup _ _ rest).erase_eq_filter, List.filter_filter]
      refine congrArg some (List.filter_congr fun b' _ => ?_)
      by_cases same : b' = b <;> simp [same]
    · rw [items', update_of_ne here, items, update_of_ne pool, others h' here pool]

end WebTunnel.Device.Pool
