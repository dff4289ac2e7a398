import WebTunnel.Device.Lengths

/-! A frame that is given up because the rest of it does not come in time, and the frame that
comes next. -/

namespace WebTunnel.Device.Resyncing
set_option synthInstance.maxSize 10000
open Library.Bytes Library.Lists Library.Routines Library.Routines.Routine Function Device.Types Buffers Http
open Manager Frames Pool Receiving Reassembly Lengths Server.Wire

/-- Part of a frame was received, and the parser waits for a header again. -/
structure Stalled (w : DevState) : Prop where
  sync : w.data.syncPrepare = false
  hangs : ∃ saved, w.rings.items .prepare = some saved
  pool : ∃ free, w.rings.items .caches = some free
  away : ∀ b, w.data.bufPrepare.curr = some b → w.rings.home b = none
  fits : ∀ b, w.data.bufPrepare.curr = some b →
    0 ≤ (w.data.bufs b).start ∧ (w.data.bufs b).start ≤ httpBufSize

/-- The state in which `http_mgmt_run` has given up the frame. -/
def unsync (w : DevState) : DevState := { w with data := { w.data with syncPrepare := false } }

/-- Wherever the reception of a frame stops. -/
theorem stalled_of_collecting {header : FrameHeader} {stored : List Byte} {saved free : List BufId}
    {part : Option BufId} {w : DevState} (collecting : Collecting header stored saved part w)
    (pool : w.rings.items .caches = some free) : Stalled (unsync w) where
  sync := rfl
  hangs := ⟨saved, collecting.hangs⟩
  pool := ⟨free, pool⟩
  away b curr := collecting.away b (collecting.curr.symm.trans curr)
  fits b curr := collecting.fits b (collecting.curr.symm.trans curr)

/-- The pool has buffers for a frame when those of the frame that was given up are back. -/
def Replenished (w : DevState) : Prop :=
  ∃ saved free, w.rings.items .prepare = some saved ∧ w.rings.items .caches = some free ∧
    frameBufs ≤ saved.length + free.length + w.data.bufPrepare.curr.toList.length

/-- No buffer that hangs in the pool is written to while the fragments are taken in. -/
def Unshared (w : DevState) (frags : List (List Byte)) : Prop :=
  ∀ earlier buf later u, frags = earlier ++ buf :: later → Taken w earlier u →
    ∀ b payload v, Copies u buf b payload v → v.rings.home b ≠ some .caches

/-- The next frame is put together as by a parser that nothing has come to yet. -/
def Resyncs (header : FrameHeader) (payload : List Byte) (w : DevState) (frags : List (List Byte)) : Prop :=
  Reassembled header payload w frags ∧ Unshared w frags

/-! The buffer that is written to hangs on no list. -/

/-- A current buffer hangs on no list. -/
def Away (w : DevState) : Prop := ∀ b, w.data.bufPrepare.curr = some b → w.rings.home b = none

/-- And only while a frame is under way there is one. -/
structure Settled (w : DevState) : Prop where
  away : Away w
  part : w.data.syncPrepare = true ∨ w.data.bufPrepare.curr = none

section
variable {w v u : DevState} {buf payload : List Byte} {b : BufId} {frags : List (List Byte)}

theorem away_of_none (vacant : w.data.bufPrepare.curr = none) : Away w := by
  intro b curr
  cases vacant.symm.trans curr

theorem wp_prepareBuf_away : Wp (prepareBuf none) (fun found v => Away v ∧
    ∀ b, found = some b → v.rings.home b = none) (fun _ => True) w := by
  rw [prepareBuf, wp_bind]
  refine wp_allocBuf_returns ?_ fun b R _ home => ?_
  · rw [wp_bind]
    refine wp_post wp_releasePrepare_returns fun _ v released => ⟨away_of_none ?_, by simp⟩
    rw [released.data]
  · simp only [wp_bind, setPrepare, wp_modify, wp_pure]
    have away : R.home b = none := (congrFun home b).trans (update_self _ _ _)
    refine ⟨?_, ?_⟩
    · rintro _ ⟨⟩
      exact away
    · rintro _ ⟨⟩
      exact away

theorem wp_prepareSpot_away (away : Away w) :
    Wp (prepareSpot w.data.bufPrepare.curr payload) (fun found v => Away v ∧
      ∀ b, found = some b → v.rings.home b = none) (fun _ => True) w := by
  rw [prepareSpot, wp_bind]
  cases part : w.data.bufPrepare.curr with
  | none =>
    refine wp_post wp_prepareBuf_away fun found v both => ?_
    obtain ⟨away, spot⟩ := both
    cases found with
    | none => exact ⟨away, by simp⟩
    | some b =>
      rw [wp_bind, wp_getBuf, wp_ite]
      split
      · rw [wp_bind]
        exact wp_savePrepare_returns fun R _ _ => wp_prepareBuf_away
      · exact ⟨away, spot⟩
  | some b =>
    rw [prepareBuf, wp_pure, wp_bind, wp_getBuf, wp_ite]
    split
    · rw [wp_bind]
      exact wp_savePrepare_returns fun R _ _ => wp_prepareBuf_away
    · refine ⟨away, ?_⟩
      rintro _ ⟨⟩
      exact away b part

theorem wp_prepareFill_away (away : Away w) :
    Wp (prepareFill b payload) (fun _ v => Away v) (fun _ => True) w := by
  rw [prepareFill, wp_bind, wp_getBuf, wp_bind, wp_memcpy]
  refine ⟨fun _ => ?_, fun _ => trivial⟩
  simp only [wp_bind, wp_getBuf, wp_setBuf, wp_data, setBuf_bufs, setBuf_setBuf, setBuf_bufPrepare, wp_ite]
  split
  · exact wp_savePrepare_returns fun R _ _ => away_of_none rfl
  · exact away

/-- The header releases what was current, if a header is looked for. -/
theorem wp_prepareHeader_settled (settled : Settled w) :
    Wp (prepareHeader buf) (fun r v => Settled v ∧ ∀ payload, r = .ok payload →
      v.data.bufPrepare.curr = w.data.bufPrepare.curr ∧ v.data.syncPrepare = true) (fun _ => True) w := by
  rw [prepareHeader, wp_bind, wp_data]
  rcases settled.part with sync | vacant
  · rw [if_pos sync]
    exact ⟨settled, fun _ _ => ⟨rfl, sync⟩⟩
  · simp only [wp_ite]
    split
    next sync => exact ⟨settled, fun _ _ => ⟨rfl, sync⟩⟩
    split
    next => exact ⟨settled, fun _ same => by cases same⟩
    cases readHeader buf with
    | none => exact ⟨settled, fun _ same => by cases same⟩
    | some header =>
      simp only [wp_bind]
      refine wp_post wp_releasePrepare_returns fun _ v released => ?_
      have curr : v.data.bufPrepare.curr = none := by rw [released.data]
      rw [wp_ite]
      split
      · exact ⟨⟨away_of_none curr, .inr curr⟩, fun _ same => by cases same⟩
      · simp only [setSync, setPrepare, wp_bind, wp_modify, wp_pure]
        exact ⟨⟨away_of_none curr, .inr curr⟩, fun _ _ => ⟨curr.trans vacant.symm, trivial⟩⟩

theorem wp_collect_settled (settled : Settled w) : Wp (collect buf) (fun _ v => Settled v) (fun _ => True) w := by
  rw [collect, wp_bind, wp_data, wp_bind, wp_assert]
  refine ⟨fun _ => ?_, fun _ => trivial⟩
  rw [wp_bind]
  refine wp_post (wp_prepareHeader_settled settled) fun r v both => ?_
  obtain ⟨settled', header⟩ := both
  cases r with
  | error rc => exact settled'
  | ok payload =>
    obtain ⟨curr, sync⟩ := header payload rfl
    rw [wp_ite]
    split
    · exact settled'
    · have away : Wp (prepareStore w.data.bufPrepare.curr payload) (fun _ v => Away v) (fun _ => True) v := by
        rw [wp_prepareStore_iff, ← curr]
        refine wp_post (wp_prepareSpot_away settled'.away) fun found u both => ?_
        obtain ⟨away, _⟩ := both
        cases found with
        | none => exact away
        | some b => exact wp_prepareFill_away away
      exact wp_post (wp_and away (wp_prepareStore_sync sync)) fun _ u both => ⟨both.1, .inl both.2⟩

theorem not_shared_of_settled (settled : Settled w) (copies : Copies w buf b payload v) : v.rings.home b = none := by
  obtain ⟨_, _, u, header, spot⟩ := copies
  obtain ⟨settled, found⟩ := wp_of_run header (wp_prepareHeader_settled settled)
  rw [← (found payload rfl).1] at spot
  exact (wp_of_run spot (wp_prepareSpot_away settled.away)).2 b rfl

theorem settled_of_taken (settled : Settled w) (taken : Taken w frags v) : Settled v := by
  induction frags generalizing w with
  | nil =>
    cases taken
    exact settled
  | cons buf rest ih =>
    obtain ⟨rc, u, ran, taken⟩ := taken
    exact ih (wp_of_run ran (wp_collect_settled settled)) taken

theorem unshared_of_settled (settled : Settled w) : Unshared w frags := by
  intro earlier buf later u _ taken b payload v copies
  rw [not_shared_of_settled (settled_of_taken settled taken) copies]
  simp

end

/-! The next frame. -/

section
variable {w : DevState} {type seq : Nat} {payload first : List Byte} {rest : List (List Byte)} {header : FrameHeader}

/-- A fragment that is the header of a frame and no more starts it, with all that was given up back in the pool. -/
theorem wp_collect_opens_bare {saved free : List BufId} {post : Received → DevState → Prop} {err : Fault → Prop}
    (stalled : Stalled w) (hangs : w.rings.items .prepare = some saved) (pool : w.rings.items .caches = some free)
    (size : first.length = httpCHeaderLen) (read : readHeader first = some header)
    (least : httpCHeaderLen ≤ header.length) (allowed : header.length ≤ httpInMax)
    (next : ∀ v, Collecting header [] [] none v →
      v.rings.items .caches = some (saved ++ w.data.bufPrepare.curr.toList ++ free) → post (.returned 0) v) :
    Wp (collect first) post err w := by
  have small : first.length < httpBufSize := by rw [size]; decide
  have whole : ¬ first.length < httpCHeaderLen := by omega
  have bare : first.drop httpCHeaderLen = [] := List.drop_eq_nil_iff.mpr (by omega)
  simp only [collect, prepareHeader, wp_bind, wp_data, wp_assert, wp_ite, stalled.sync, small, read,
    not_true_eq_false, false_implies, and_true, forall_const, Bool.false_eq_true, if_false,
    whole, Nat.not_lt.mpr allowed]
  refine wp_releasePrepare_of_away stalled.away hangs pool fun R items caches _ => ?_
  simp only [setSync, setPrepare, wp_modify, wp_pure, toInt32_of_allowed least allowed, bare, if_true]
  refine next _ ?_ caches
  constructor
  case hangs => exact items
  case len => simp [contents]
  case holds => simp [contents, partBytes]
  all_goals first | rfl | simp

/-- A fragment that is the header of a frame and no more starts the frame from a fresh state. -/
theorem wp_collect_of_bare (stalled : Stalled w) (replenished : Replenished w) (size : first.length = httpCHeaderLen)
    (read : readHeader first = some header) (least : httpCHeaderLen ≤ header.length)
    (allowed : header.length ≤ httpInMax) :
    Wp (collect first) (fun r v => r = .returned 0 ∧ UnderWay header [] v) (fun _ => False) w := by
  obtain ⟨saved, free, hangs, pool, enough⟩ := replenished
  apply wp_collect_opens_bare stalled hangs pool size read least allowed
  intro v collecting caches
  refine ⟨rfl, [], none, _, collecting, caches, ?_, by simp [partBytes], fun _ => rfl⟩
  simp only [List.length_append, List.length_nil, Option.toList_none]
  omega

theorem returns_of_reassembled (together : Reassembled header payload w (first :: rest)) :
    ∃ r v, (collect first).run w = .ok (r, v) := by
  obtain ⟨earlier, last, u, v, split, taken, now, _⟩ := together
  cases earlier with
  | nil =>
    obtain ⟨rfl, _⟩ := List.cons.inj split
    cases taken
    exact ⟨_, v, now⟩
  | cons buf earlier =>
    obtain ⟨rfl, _⟩ := List.cons.inj split
    obtain ⟨rc, t, ran, _⟩ := taken
    exact ⟨_, t, ran⟩

/-- A current buffer is used on when payload follows the header, though it was released. -/
theorem not_resyncs_of_more {b : BufId} (stalled : Stalled w) (current : w.data.bufPrepare.curr = some b)
    (small : first.length < httpBufSize) (more : httpCHeaderLen < first.length) (read : readHeader first = some header)
    (allowed : header.length ≤ httpInMax) : ¬ Resyncs header payload w (first :: rest) := by
  rintro ⟨together, unshared⟩
  obtain ⟨saved, hangs⟩ := stalled.hangs
  obtain ⟨free, pool⟩ := stalled.pool
  have behind : first.drop httpCHeaderLen ≠ [] := fun none => absurd (List.drop_eq_nil_iff.mp none) (by omega)
  have released : Wp (prepareHeader first) (fun r u => r = .ok (first.drop httpCHeaderLen) ∧
      u.rings.home b = some .caches ∧ u.data.bufs = w.data.bufs) (fun _ => False) w := by
    simp only [prepareHeader, wp_bind, wp_data, wp_ite, stalled.sync, read, Bool.false_eq_true, if_false,
      Nat.not_lt.mpr more.le, Nat.not_lt.mpr allowed]
    refine wp_releasePrepare_of_away stalled.away hangs pool fun R _ _ home => ?_
    exact ⟨rfl, home b current, rfl⟩
  obtain ⟨_, u, header, rfl, sits, bufs⟩ := wp_total.mp released
  by_cases fits : (w.data.bufs b).start + (first.drop httpCHeaderLen).length ≤ httpBufSize
  · have spot : Wp (prepareSpot (some b) (first.drop httpCHeaderLen)) (fun found v => found = some b ∧ v = u)
        (fun _ => False) u := by
      rw [prepareSpot, prepareBuf, wp_bind, wp_pure, wp_bind, wp_getBuf, wp_ite, bufs, if_neg (by omega)]
      exact ⟨rfl, rfl⟩
    obtain ⟨_, v, spot, rfl, rfl⟩ := wp_total.mp spot
    refine unshared [] first rest w rfl rfl b _ v ⟨small, behind, v, header, ?_⟩ sits
    rw [current]
    exact spot
  · have refused : Wp (collect first) (fun _ _ => False) (fun _ => True) w := by
      rw [collect, wp_bind, wp_data, wp_bind, wp_assert]
      refine ⟨fun _ => ?_, fun _ => trivial⟩
      rw [wp_bind_of_run header, wp_ite, if_neg behind, current, prepareStore, prepareBuf, wp_bind, wp_pure, wp_bind,
        wp_getBuf, wp_ite, bufs, if_pos (by omega), wp_bind]
      refine wp_savePrepare_returns fun R away _ => ?_
      cases away.symm.trans sits
    obtain ⟨r, v, ran⟩ := returns_of_reassembled together
    exact wp_of_run ran refused

theorem wp_prepareHeader_drop (sync : w.data.syncPrepare = false) :
    Wp (prepareHeader first) (fun r _ => ∀ payload, r = .ok payload → payload = first.drop httpCHeaderLen)
      (fun _ => True) w := by
  simp only [prepareHeader, wp_bind, wp_data, wp_ite, sync, Bool.false_eq_true, if_false]
  split
  next => exact fun _ same => by cases same
  cases readHeader first with
  | none => exact fun _ same => by cases same
  | some header =>
    simp only [wp_bind]
    refine wp_post wp_releasePrepare_returns fun _ v _ => ?_
    rw [wp_ite]
    split
    · exact fun _ same => by cases same
    · simp only [setSync, setPrepare, wp_bind, wp_modify, wp_pure]
      rintro _ ⟨⟩
      rfl

theorem resyncs_of_bare (stalled : Stalled w) (replenished : Replenished w) (size : first.length = httpCHeaderLen)
    (read : readHeader first = some header) (least : httpCHeaderLen ≤ header.length)
    (allowed : header.length ≤ httpInMax) (nonempty : ∀ frag ∈ rest, frag ≠ [])
    (small : ∀ frag ∈ rest, frag.length < httpBufSize) (more : rest ≠ [])
    (whole : rest.flatten.length = header.length - httpCHeaderLen) :
    Resyncs header rest.flatten w (first :: rest) := by
  obtain ⟨_, v, ran, rfl, underWay⟩ := wp_total.mp (wp_collect_of_bare stalled replenished size read least allowed)
  have together : Reassembled header ([] ++ rest.flatten) v rest :=
    reassembled_of_underWay underWay allowed nonempty small more (by simpa using whole)
  refine ⟨.cons ran together, fun earlier buf later u split taken b payload t copies => ?_⟩
  cases earlier with
  | nil =>
    obtain ⟨rfl, _⟩ := List.cons.inj split
    cases taken
    obtain ⟨_, some, t, read, _⟩ := copies
    have behind := wp_of_run read (wp_prepareHeader_drop stalled.sync) payload rfl
    exact absurd (behind.trans (List.drop_eq_nil_iff.mpr (by omega))) some
  | cons _ earlier =>
    obtain ⟨rfl, later'⟩ := List.cons.inj split
    obtain ⟨rc, s, ran', taken⟩ := taken
    cases ran.symm.trans ran'
    obtain ⟨saved, part, free, collecting, _⟩ := underWay
    have settled : Settled v := ⟨fun b curr => collecting.away b (collecting.curr.symm.trans curr), .inl collecting.sync⟩
    exact unshared_of_settled settled earlier buf later u later' taken b payload t copies

/-- After a frame was given up, the next one is put together as from a fresh state, and no
buffer of the pool is used for it, if and only if no buffer was being filled then, or its first
fragment is its header and no more. -/
theorem resyncs_iff (byte : type < 256) (short : seq < 65536) (full : payload ≠ [])
    (allowed : payload.length + httpCHeaderLen ≤ httpInMax)
    (cut : first ++ rest.flatten = headerBytes type seq (payload.length + httpCHeaderLen) ++ payload)
    (whole : httpCHeaderLen ≤ first.length) (nonempty : ∀ frag ∈ rest, frag ≠ [])
    (small : ∀ frag ∈ first :: rest, frag.length < httpBufSize) (stalled : Stalled w) (replenished : Replenished w) :
    Resyncs ⟨type, seq, payload.length + httpCHeaderLen⟩ payload w (first :: rest) ↔
      w.data.bufPrepare.curr = none ∨ first.length = httpCHeaderLen := by
  have length : (headerBytes type seq (payload.length + httpCHeaderLen)).length = httpCHeaderLen :=
    headerBytes_length _ _ _
  obtain ⟨front, split⟩ := cut_behind cut (by rw [length]; exact whole)
  rw [length] at front split
  have read : readHeader first = some ⟨type, seq, payload.length + httpCHeaderLen⟩ := by
    rw [front]
    exact readHeader_headerBytes byte short (by simp only [httpInMax] at allowed; omega) _
  constructor
  · intro resyncs
    by_contra neither
    rw [not_or] at neither
    obtain ⟨b, current⟩ := Option.ne_none_iff_exists'.mp neither.1
    exact not_resyncs_of_more stalled current (small first List.mem_cons_self) (by omega) read allowed resyncs
  · rintro (vacant | size)
    · have idle : Idle w := ⟨stalled.sync, vacant, stalled.hangs, stalled.pool⟩
      have stocked : Stocked w := by
        obtain ⟨saved, free, hangs, pool, enough⟩ := replenished
        rw [vacant] at enough
        exact ⟨saved, free, hangs, pool, enough⟩
      exact ⟨reassembled byte short full allowed cut whole nonempty small idle stocked,
        unshared_of_settled ⟨away_of_none vacant, .inr vacant⟩⟩
    · have behind : payload = rest.flatten := by
        rw [split, List.drop_eq_nil_iff.mpr (by omega), List.nil_append]
      have more : rest ≠ [] := by
        rintro rfl
        exact full behind
      have resyncs := resyncs_of_bare stalled replenished size read (Nat.le_add_left _ _) allowed nonempty
        (fun frag member => small frag (List.mem_cons_of_mem _ member)) more (by rw [← behind]; simp)
      rwa [← behind] at resyncs

end

/-- A frame is given up when one byte of its payload has come. -/
theorem exists_stalled_of_idle {w : DevState} (idle : Idle w) (stocked : Stocked w) :
    ∃ r v b, (collect (headerBytes 0x11 7 18 ++ [0x61])).run w = .ok (r, v) ∧ v.data.bufPrepare.curr = some b ∧
      Stalled (unsync v) ∧ Replenished (unsync v) := by
  have byte : 0x11 < 256 := by decide
  have short : 7 < 65536 := by decide
  have size : (headerBytes 0x11 7 18 ++ [0x61]).length = 17 := by
    rw [List.length_append, headerBytes_length]
    rfl
  have read : readHeader (headerBytes 0x11 7 18 ++ [0x61]) = some ⟨0x11, 7, 18⟩ :=
    readHeader_headerBytes byte short (by decide) _
  have step := wp_collect_of_header idle stocked (by rw [size]; decide) (by rw [size]; decide) read (by decide)
    (by decide) (by rw [size]; decide)
  obtain ⟨r, v, ran, after⟩ := wp_total.mp step
  have behind : (headerBytes 0x11 7 18 ++ [(0x61 : Byte)]).drop httpCHeaderLen = [0x61] :=
    List.drop_left' (headerBytes_length _ _ _)
  rw [size, if_neg (by decide), behind, After, if_pos (by decide)] at after
  obtain ⟨_, saved, part, free, collecting, pool, enough, _, first⟩ := after
  cases part with
  | none =>
    have holds := collecting.holds
    rw [first rfl] at holds
    exact absurd holds (by simp [contents, partBytes])
  | some b =>
    refine ⟨r, v, b, ran, collecting.curr, stalled_of_collecting collecting pool, saved, free, collecting.hangs, pool, ?_⟩
    have current : (unsync v).data.bufPrepare.curr = some b := collecting.curr
    rw [current]
    omega

theorem exists_stalled : ∃ w b, w.data.bufPrepare.curr = some b ∧ Stalled w ∧ Replenished w := by
  obtain ⟨idle, stocked⟩ := idle_of_starts Reassembly.device_starts
  obtain ⟨_, v, b, _, current, stalled, replenished⟩ := exists_stalled_of_idle idle stocked
  exact ⟨unsync v, b, current, stalled, replenished⟩

theorem resyncs_iff_device : ∃ w b, w.data.bufPrepare.curr = some b ∧
    (Resyncs ⟨0x11, 7, 1 + httpCHeaderLen⟩ [0x62] w [headerBytes 0x11 7 17, [0x62]] ↔
      w.data.bufPrepare.curr = none ∨ (headerBytes 0x11 7 17).length = httpCHeaderLen) := by
  obtain ⟨w, b, current, stalled, replenished⟩ := exists_stalled
  have size : (headerBytes 0x11 7 17).length = httpCHeaderLen := headerBytes_length _ _ _
  have byte : 0x11 < 256 := by decide
  have short : 7 < 65536 := by decide
  have full : [(0x62 : Byte)] ≠ [] := by decide
  have small : ∀ frag ∈ [headerBytes 0x11 7 17, [0x62]], frag.length < httpBufSize := by
    rw [List.forall_mem_cons, size]
    decide
  exact ⟨w, b, current, resyncs_iff byte short full (by decide) rfl size.ge (by decide) small stalled replenished⟩

/-- A frame that comes in one fragment is not put together after one that was given up. -/
theorem stalled_frame_disturbs :
    ¬ ∀ (type seq : Nat) (payload first : List Byte) (rest : List (List Byte)) (w : DevState),
      type < 256 → seq < 65536 → payload ≠ [] → payload.length + httpCHeaderLen ≤ httpInMax →
      first ++ rest.flatten = headerBytes type seq (payload.length + httpCHeaderLen) ++ payload →
      httpCHeaderLen ≤ first.length → (∀ frag ∈ rest, frag ≠ []) →
      (∀ frag ∈ first :: rest, frag.length < httpBufSize) → Stalled w → Replenished w →
      Resyncs ⟨type, seq, payload.length + httpCHeaderLen⟩ payload w (first :: rest) := by
  intro always
  obtain ⟨w, b, current, stalled, replenished⟩ := exists_stalled
  have byte : 0x11 < 256 := by decide
  have short : 7 < 65536 := by decide
  have size : (headerBytes 0x11 7 17 ++ [0x62]).length = 17 := by
    rw [List.length_append, headerBytes_length]
    rfl
  have read : readHeader (headerBytes 0x11 7 17 ++ [0x62]) = some ⟨0x11, 7, 17⟩ :=
    readHeader_headerBytes byte short (by decide) _
  have resyncs := always 0x11 7 [0x62] (headerBytes 0x11 7 17 ++ [0x62]) [] w byte short (by decide) (by decide)
    (List.append_nil _) (by rw [size]; decide) (by decide) ?_ stalled replenished
  · exact not_resyncs_of_more stalled current (by rw [size]; decide) (by rw [size]; decide) read (by decide) resyncs
  · rw [List.forall_mem_cons, size]
    decide

end WebTunnel.Device.Resyncing
