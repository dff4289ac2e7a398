import WebTunnel.Device.Keeping
import WebTunnel.Device.Reassembly

/-! The counters of the parser of frames from the server: whatever comes, they stay in range
as long as no header gives a length that is less than its own and no frame that was given up
leaves a buffer behind. -/

namespace WebTunnel.Device.Lengths
set_option synthInstance.maxSize 10000
open Library.Bytes Library.Lists Library.Routines Library.Routines.Routine Library.Run Function Device.Types Buffers Parsing
open Http Forward Tunnel Manager Frames Footprints Keeping Pool Receiving Reassembly Server.Wire

/-- The counters of the parser and of its buffers are in range. -/
structure InRange (w : DevState) : Prop where
  totalLen : 0 ≤ w.data.bufPrepare.totalLen
  len : 0 ≤ w.data.bufPrepare.len
  start : ∀ b, w.data.bufPrepare.curr = some b →
    0 ≤ (w.data.bufs b).start ∧ (w.data.bufs b).start ≤ httpBufSize
  saved : ∀ b, w.rings.home b = some .prepare → 0 ≤ (w.data.bufs b).len ∧ (w.data.bufs b).len ≤ httpBufSize

/-- How much the buffer that is being filled holds. -/
def filled (d : HttpMgmt) : Option BufId → Int
  | none => 0
  | some b => (d.bufs b).start

/-- The lists of the parser and of the pool are initialised. -/
def Hung (w : DevState) : Prop := ∀ h, Lasting h → w.rings.items h ≠ none

/-- The counters are in range, no more was stored than the frame has, and the buffer that is
being filled hangs nowhere. -/
structure Counted (w : DevState) : Prop extends InRange w where
  away : ∀ b, w.data.bufPrepare.curr = some b → w.rings.home b = none
  room : w.data.bufPrepare.len + filled w.data w.data.bufPrepare.curr ≤ w.data.bufPrepare.totalLen
  hung : Hung w

/-! One fragment. -/

/-- The buffer that a part of the payload is copied to. -/
def prepareSpot (bufInfo : Option BufId) (payload : List Byte) : DevM (Option BufId) := do
  match ← prepareBuf bufInfo with
  | none => return none
  | some b =>
    if (httpBufSize : Int) < (← getBuf b).start + payload.length then
      savePrepare b
      prepareBuf none
    else
      return some b

/-- What is done there. -/
def fillSpot (payload : List Byte) : Option BufId → DevM Received
  | none => return .returned 4
  | some b => prepareFill b payload

theorem wp_prepareStore_iff {bufInfo : Option BufId} {payload : List Byte} {post : Received → DevState → Prop}
    {err : Fault → Prop} {w : DevState} :
    Wp (prepareStore bufInfo payload) post err w ↔
      Wp (prepareSpot bufInfo payload) (fun found v => Wp (fillSpot payload found) post err v) err w := by
  rw [prepareStore, prepareSpot, wp_bind, wp_bind]
  refine wp_congr fun found v => ?_
  cases found with
  | none => rfl
  | some b =>
    simp only [wp_bind, wp_getBuf, wp_ite]
    split
    · refine wp_congr fun _ u => ?_
      refine wp_congr fun found t => ?_
      cases found <;> rfl
    · rfl

/-- `http_mgmt_prepare` copies a part of the fragment to a buffer, in the state that it has
reached then. -/
def Copies (w : DevState) (buf : List Byte) (b : BufId) (payload : List Byte) (v : DevState) : Prop :=
  buf.length < httpBufSize ∧ payload ≠ [] ∧ ∃ u, (prepareHeader buf).run w = .ok (.ok payload, u) ∧
    (prepareSpot w.data.bufPrepare.curr payload).run u = .ok (some b, v)

/-- What comes then begins with the copy. -/
theorem collect_of_copies {w v : DevState} {buf payload : List Byte} {b : BufId} (copies : Copies w buf b payload v)
    {post : Received → DevState → Prop} {err : Fault → Prop} :
    Wp (collect buf) post err w ↔ Wp (prepareFill b payload) post err v := by
  obtain ⟨small, some, u, header, spot⟩ := copies
  rw [collect, wp_bind, wp_data, wp_bind, wp_assert]
  simp only [small, not_true_eq_false, false_implies, and_true, forall_const]
  rw [wp_bind_of_run header, wp_ite, if_neg some, wp_prepareStore_iff, ← wp_bind, wp_bind_of_run spot]
  rfl

/-- A header that is read, where the parser looks for one, gives a length that is not less
than its own. -/
def HeaderLong (w : DevState) (buf : List Byte) : Prop :=
  w.data.syncPrepare = false → httpCHeaderLen ≤ buf.length → ∀ header, readHeader buf = some header →
    httpCHeaderLen ≤ header.length

/-- No buffer of a frame that was given up is current when a header comes with payload behind
it. It would be filled on, though the header sends it back to the pool. -/
def Vacant (w : DevState) (buf : List Byte) : Prop :=
  w.data.syncPrepare = false → httpCHeaderLen < buf.length → ∀ header, readHeader buf = some header →
    header.length ≤ httpInMax → w.data.bufPrepare.curr = none

section
variable {w : DevState} {buf payload : List Byte} {b : BufId}

theorem toInt32_of_allowed {n : Nat} (least : httpCHeaderLen ≤ n) (most : n ≤ httpInMax) :
    toInt32 (toUnsigned 32 ((n : Int) - httpCHeaderLen)) = (n - httpCHeaderLen : Nat) := by
  simp only [toInt32, toUnsigned, httpInMax] at *
  omega

theorem Hung.lists (hung : Hung w) :
    ∃ saved free, w.rings.items .prepare = some saved ∧ w.rings.items .caches = some free := by
  obtain ⟨saved, hangs⟩ := Option.ne_none_iff_exists'.mp (hung .prepare (.inr rfl))
  obtain ⟨free, pool⟩ := Option.ne_none_iff_exists'.mp (hung .caches (.inl rfl))
  exact ⟨saved, free, hangs, pool⟩

theorem hung_of_lists {saved free : List BufId} (hangs : w.rings.items .prepare = some saved)
    (pool : w.rings.items .caches = some free) : Hung w := by
  rintro h (rfl | rfl)
  · simp [pool]
  · simp [hangs]

theorem counted_of_released {v : DevState} (released : Released w v) (hung : Hung v) : Counted v := by
  obtain ⟨data, saved, _⟩ := released
  refine ⟨⟨by rw [data], by rw [data], by simp [data], fun b sits => absurd sits (saved b)⟩, by simp [data], ?_, hung⟩
  simp [data, filled]

/-- What the parser has is released, whether a buffer is current or not. -/
theorem wp_releasePrepare_counted (counted : Counted w) :
    Wp releasePrepare (fun _ v => Counted v ∧ Released w v) (fun _ => False) w := by
  obtain ⟨saved, free, hangs, pool⟩ := counted.hung.lists
  have hung : Wp releasePrepare (fun _ v => Hung v) (fun _ => False) w :=
    wp_releasePrepare_of_away counted.away hangs pool fun _ none all _ => hung_of_lists none all
  refine wp_post (wp_and hung wp_releasePrepare_returns) fun _ v both => ?_
  obtain ⟨hung, released⟩ := both
  exact ⟨counted_of_released released hung, released⟩

theorem wp_prepareHeader (counted : Counted w) (long : HeaderLong w buf) (vacant : Vacant w buf) :
    Wp (prepareHeader buf) (fun r v => Counted v ∧ ∀ payload, r = .ok payload → payload.length ≤ buf.length ∧
      (payload ≠ [] → v.data.bufPrepare.curr = w.data.bufPrepare.curr)) (fun _ => False) w := by
  rw [prepareHeader, wp_bind, wp_data]
  cases sync : w.data.syncPrepare with
  | true =>
    refine ⟨counted, fun payload same => ?_⟩
    cases same
    exact ⟨le_refl _, fun _ => rfl⟩
  | false =>
    simp only [Bool.false_eq_true, if_false, wp_ite]
    split
    next => exact ⟨counted, fun _ same => by cases same⟩
    next whole =>
      cases read : readHeader buf with
      | none => exact ⟨counted, fun _ same => by cases same⟩
      | some header =>
        have least := long sync (Nat.not_lt.mp whole) header read
        simp only [wp_bind]
        refine wp_post (wp_releasePrepare_counted counted) fun _ v both => ?_
        obtain ⟨now, released⟩ := both
        rw [wp_ite]
        split
        next => exact ⟨now, fun _ same => by cases same⟩
        next allowed =>
          simp only [setSync, setPrepare, wp_bind, wp_modify, wp_pure, Except.ok.injEq,
            toInt32_of_allowed least (Nat.not_lt.mp allowed), released.data]
          refine ⟨⟨⟨Int.natCast_nonneg _, le_refl _, by simp, fun b sits => absurd sits (released.saved b)⟩, by simp,
            by simp [filled], now.hung⟩, ?_⟩
          rintro _ rfl
          refine ⟨by simp, fun behind => (vacant sync ?_ header read (Nat.not_lt.mp allowed)).symm⟩
          by_contra short
          exact behind (List.drop_eq_nil_iff.mpr (by omega))

/-- The current buffer, which has room for the bytes. -/
structure Filling (b : BufId) (payload : List Byte) (w : DevState) : Prop extends Counted w where
  current : w.data.bufPrepare.curr = some b
  ends : (w.data.bufs b).start + payload.length ≤ httpBufSize

/-- A new buffer, unless there is none. -/
theorem wp_prepareBuf_none (small : payload.length ≤ httpBufSize) (counted : Counted w)
    (vacant : w.data.bufPrepare.curr = none) :
    Wp (prepareBuf none) (fun found v => Counted v ∧ ∀ b, found = some b → Filling b payload v) (fun _ => False) w := by
  obtain ⟨saved, free, hangs, pool⟩ := counted.hung.lists
  rw [prepareBuf, wp_bind]
  cases free with
  | nil =>
    refine wp_allocBuf_of_nil pool ?_
    rw [wp_bind]
    exact wp_post (wp_releasePrepare_counted counted) fun _ v both => ⟨both.1, by simp⟩
  | cons b free =>
    refine wp_allocBuf_of_cons pool fun R items home => ?_
    simp only [wp_bind, setPrepare, wp_modify, wp_pure, Option.some.injEq]
    have sits : w.rings.home b = some .caches := Rings.home_of_mem pool List.mem_cons_self
    refine (and_iff_left_of_imp fun counted b' same => ?_).mpr ?_
    · subst same
      exact ⟨counted, rfl, by simpa using small⟩
    refine ⟨⟨counted.totalLen, counted.len, ?_, fun b' saved => ?_⟩, ?_, ?_, ?_⟩
    · rintro _ ⟨⟩
      simp
    · have other : b' ≠ b := by
        rintro rfl
        rw [home, update_self] at saved
        cases saved
      rw [home, update_of_ne other] at saved
      rw [setBuf_bufs_of_ne _ _ other]
      exact counted.saved b' saved
    · rintro _ ⟨⟩
      exact (congrFun home b).trans (update_self _ _ _)
    · have room := counted.room
      rw [vacant] at room
      simpa [filled, HttpMgmt.setBuf] using room
    · have hangs : R.items .prepare = some saved := by rw [items, update_of_ne (by decide), hangs]
      have pool : R.items .caches = some free := by rw [items, update_self]
      exact hung_of_lists hangs pool

/-- The current buffer is saved. -/
theorem wp_savePrepare_counted (counted : Counted w) (current : w.data.bufPrepare.curr = some b) :
    Wp (savePrepare b) (fun _ v => Counted v ∧ NoCurr v) (fun _ => False) w := by
  obtain ⟨saved, free, hangs, pool⟩ := counted.hung.lists
  refine wp_savePrepare_of_free hangs (counted.away b current) fun R items home => ⟨?_, rfl⟩
  have start := counted.start b current
  have room := counted.room
  rw [current] at room
  have len := counted.len
  refine ⟨⟨counted.totalLen, by simp only; omega, by simp, fun b' saved => ?_⟩, by simp, by simpa [filled] using room, ?_⟩
  · by_cases same : b' = b
    · subst same
      simpa [HttpMgmt.setBuf] using start
    · rw [home, update_of_ne same] at saved
      simpa [HttpMgmt.setBuf, update_of_ne same] using counted.saved b' saved
  · have hangs : R.items .prepare = some (saved ++ [b]) := by rw [items, update_self]
    have pool : R.items .caches = some free := by rw [items, update_of_ne (by decide), pool]
    exact hung_of_lists hangs pool

theorem wp_prepareSpot (small : payload.length ≤ httpBufSize) (counted : Counted w) :
    Wp (prepareSpot w.data.bufPrepare.curr payload) (fun found v => Counted v ∧ ∀ b, found = some b → Filling b payload v)
      (fun _ => False) w := by
  rw [prepareSpot, wp_bind]
  cases part : w.data.bufPrepare.curr with
  | none =>
    refine wp_post (wp_prepareBuf_none small counted part) fun found v both => ?_
    obtain ⟨counted, filling⟩ := both
    cases found with
    | none => exact ⟨counted, filling⟩
    | some b =>
      have ends := (filling b rfl).ends
      rw [wp_bind, wp_getBuf, if_neg (by omega)]
      exact ⟨counted, filling⟩
  | some b =>
    rw [prepareBuf, wp_pure]
    simp only [wp_bind, wp_getBuf, wp_ite]
    split
    next full =>
      refine wp_post (wp_savePrepare_counted counted part) fun _ v both => ?_
      exact wp_prepareBuf_none small both.1 both.2
    next fits =>
      refine ⟨counted, fun b' same => ?_⟩
      cases same
      exact ⟨counted, part, by omega⟩

/-- Bytes were copied to the current buffer. -/
theorem Counted.fill (counted : Counted w) (current : w.data.bufPrepare.curr = some b) {info : BufInfo}
    (len : info.len = (w.data.bufs b).len) (least : 0 ≤ info.start) (most : info.start ≤ httpBufSize)
    (room : w.data.bufPrepare.len + info.start ≤ w.data.bufPrepare.totalLen) :
    Counted { w with data := w.data.setBuf b info } := by
  refine ⟨⟨counted.totalLen, counted.len, fun b' curr => ?_, fun b' sits => ?_⟩, counted.away, ?_, counted.hung⟩
  · cases current.symm.trans curr
    rw [setBuf_bufs]
    exact ⟨least, most⟩
  · by_cases same : b' = b
    · subst same
      rw [setBuf_bufs, len]
      exact counted.saved b' sits
    · rw [setBuf_bufs_of_ne _ _ same]
      exact counted.saved b' sits
  · change w.data.bufPrepare.len + filled (w.data.setBuf b info) w.data.bufPrepare.curr ≤ w.data.bufPrepare.totalLen
    rw [current, filled, setBuf_bufs]
    exact room

theorem wp_prepareFill_counted (filling : Filling b payload w) :
    Wp (prepareFill b payload) (fun r v => Counted v ∧ (r = .complete → NoCurr v)) (fun _ => False) w := by
  have counted := filling.toCounted
  obtain ⟨begins, _⟩ := counted.start b filling.current
  have ends := filling.ends
  have room := counted.room
  rw [filling.current, filled] at room
  have inside : (w.data.bufs b).start + payload.length ≤ bufRoom := by
    simp only [bufRoom] at *
    omega
  rw [prepareFill, wp_bind, wp_getBuf, wp_bind, wp_memcpy]
  refine ⟨fun _ => ?_, fun outside => absurd ⟨begins, inside⟩ outside⟩
  simp only [wp_bind, wp_getBuf, wp_setBuf, wp_data, setBuf_bufs, setBuf_setBuf, setBuf_bufPrepare, wp_ite]
  split
  next complete =>
    -- The buffer is cut to what the frame has room for, which is at least what it held before.
    refine wp_post (wp_savePrepare_counted (counted.fill filling.current rfl ?_ ?_ ?_) filling.current) fun _ v both => ⟨both.1, fun _ => both.2⟩
    all_goals simp only
    all_goals omega
  next part =>
    refine ⟨counted.fill filling.current rfl ?_ ?_ ?_, fun same => by cases same⟩
    all_goals simp only
    all_goals omega

theorem wp_collect_counted (counted : Counted w) (small : buf.length < httpBufSize) (long : HeaderLong w buf)
    (vacant : Vacant w buf) :
    Wp (collect buf) (fun r v => Counted v ∧ (r = .complete → NoCurr v)) (fun _ => False) w := by
  rw [collect, wp_bind, wp_data, wp_bind, wp_assert]
  refine ⟨fun _ => ?_, fun large => absurd small large⟩
  rw [wp_bind]
  refine wp_post (wp_prepareHeader counted long vacant) fun r v both => ?_
  obtain ⟨counted, found⟩ := both
  cases r with
  | error rc => exact ⟨counted, fun same => by cases same⟩
  | ok payload =>
    rw [wp_ite]
    split
    next => exact ⟨counted, fun same => by cases same⟩
    next some =>
      obtain ⟨shorter, same⟩ := found payload rfl
      rw [wp_prepareStore_iff, ← same some]
      refine wp_post (wp_prepareSpot (by omega) counted) fun found u both => ?_
      obtain ⟨counted, filling⟩ := both
      cases found with
      | none => exact ⟨counted, fun same => by cases same⟩
      | some b => exact wp_prepareFill_counted (filling b rfl)

/-- A copy stays inside the buffer. -/
theorem copies_inside {v : DevState} (counted : Counted w) (long : HeaderLong w buf) (vacant : Vacant w buf)
    (copies : Copies w buf b payload v) :
    0 ≤ (v.data.bufs b).start ∧ (v.data.bufs b).start + payload.length ≤ httpBufSize := by
  obtain ⟨small, some, u, header, spot⟩ := copies
  obtain ⟨counted, found⟩ := wp_of_run header (wp_prepareHeader counted long vacant)
  obtain ⟨shorter, same⟩ := found payload rfl
  rw [← same some] at spot
  have filling := (wp_of_run spot (wp_prepareSpot (by omega) counted)).2 b rfl
  exact ⟨(filling.start b filling.current).1, filling.ends⟩

end

/-! The frame that is complete. -/

/-- The buffers that were saved have lengths in range. -/
def Sized (w : DevState) : Prop :=
  ∀ b, w.rings.home b = some .prepare → 0 ≤ (w.data.bufs b).len ∧ (w.data.bufs b).len ≤ httpBufSize

/-- The lists to which buffers are added are not that of the saved ones. -/
def unsaved : Set Part := {part | part ≠ .fill .prepare}

instance : Allows unsaved (.fill .caches) := ⟨by simp [unsaved]⟩
instance : Allows unsaved (.fill .toserver) := ⟨by simp [unsaved]⟩
instance (c : CtxId) : Allows unsaved (.fill (.readTodo c)) := ⟨by simp [unsaved]⟩
instance (c : CtxId) : Allows unsaved (.fill (.writeTodo c)) := ⟨by simp [unsaved]⟩
instance (k : ClientId) : Allows unsaved (.fill (.clientRead k)) := ⟨by simp [unsaved]⟩
instance (k : ClientId) : Allows unsaved (.fill (.clientWrite k)) := ⟨by simp [unsaved]⟩
instance (f : FwdId) : Allows unsaved (.fill (.fwdWrite f)) := ⟨by simp [unsaved]⟩

section
variable {w : DevState} {f : HttpMgmt → HttpMgmt}

theorem keeps_sized_modify (same : ∀ d, (f d).bufs = d.bufs) : Keeps Sized (modify f : DevM Unit) :=
  ⟨fun w sized b sits => by simpa only [same] using sized b sits⟩

theorem keeps_sized_perform {op : ListOp BufHead BufId} (within : Within unsaved ∅ (perform op)) :
    Keeps Sized (perform op : DevM Unit) := by
  refine ⟨fun w sized => (wp_perform op _).mpr ⟨fun R done b sits => ?_, fun _ => trivial⟩⟩
  have frame := ((wp_perform op _).mp (within.frame w)).1 R done
  obtain ⟨l, found, member⟩ := (R.linked b .prepare).mp sits
  exact sized b (frame.filled .prepare (by simp [unsaved]) l found b member)

theorem keeps_sized_setBuf {b : BufId} {info : BufInfo} (least : 0 ≤ info.len) (most : info.len ≤ httpBufSize) :
    Keeps Sized (setBuf b info) := by
  refine ⟨fun w sized b' sits => ?_⟩
  by_cases same : b' = b
  · subst same
    change 0 ≤ ((w.data.setBuf b' info).bufs b').len ∧ ((w.data.setBuf b' info).bufs b').len ≤ httpBufSize
    rw [setBuf_bufs]
    exact ⟨least, most⟩
  · change 0 ≤ ((w.data.setBuf b info).bufs b').len ∧ ((w.data.setBuf b info).bufs b').len ≤ httpBufSize
    rw [setBuf_bufs_of_ne _ _ same]
    exact sized b' sits

end

section
variable {b : BufId} {c : CtxId} {k : ClientId} {g : FwdId} {a h : BufHead}

instance [Allows unsaved (.fill h)] : Keeps Sized (listAdd b h) := keeps_sized_perform (within_listAdd b h)
instance [Allows unsaved (.fill h)] : Keeps Sized (listAddTail b h) := keeps_sized_perform (within_listAddTail b h)
instance : Keeps Sized (listDel b) := keeps_sized_perform (within_listDel b)
instance [Passing a] [Allows unsaved (.fill h)] : Keeps Sized (listSplice a h) := keeps_sized_perform (within_listSplice a h)
instance [Allows unsaved (.fill h)] : Keeps Sized (listSpliceInit a h) :=
  keeps_sized_perform (within_listSpliceInit a h)
instance [Allows unsaved (.fill h)] : Keeps Sized (listSpliceTailInit a h) :=
  keeps_sized_perform (within_listSpliceTailInit a h)
instance : Keeps Sized (initListHead h) := keeps_sized_perform (within_initListHead h)
instance [Passing h] : Keeps Sized (perform (.wipe h) : DevM Unit) := keeps_sized_perform (within_wipe h)

instance (ctx : HttpContext) : Keeps Sized (setCtx c ctx) := keeps_sized_modify fun _ => rfl
instance (client : TcpClientContext) : Keeps Sized (setClient k client) := keeps_sized_modify fun _ => rfl
instance (fwd : TcpForwardContext) : Keeps Sized (setForward g fwd) := keeps_sized_modify fun _ => rfl
instance (act : Act) : Keeps Sized (note act) := keeps_sized_modify fun _ => rfl
instance (f : HttpBuf → HttpBuf) : Keeps Sized (setPrepare f) := keeps_sized_modify fun _ => rfl
instance (f : HttpBuf → HttpBuf) : Keeps Sized (setToserver f) := keeps_sized_modify fun _ => rfl
instance (sync : Bool) : Keeps Sized (setSync sync) := keeps_sized_modify fun _ => rfl
instance (slot : Nat) (pfd : PollFd) : Keeps Sized (setPollFd slot pfd) := keeps_sized_modify fun _ => rfl
instance (fd : Int) (o : Option Owner) : Keeps Sized (setLookup fd o) := keeps_sized_modify fun _ => rfl

/-- A new buffer is not one of the saved ones. -/
theorem wp_allocBuf_sized (sized : Sized w) :
    Wp allocBuf (fun found v => Sized v ∧ ∀ b, found = some b → v.rings.home b = none) (fun _ => True) w := by
  refine wp_allocBuf_returns ⟨sized, by simp⟩ fun b R _ home => ?_
  have away : R.home b = none := (congrFun home b).trans (update_self _ _ _)
  refine ⟨fun b' saved => ?_, fun _ same => by cases same; exact away⟩
  have other : b' ≠ b := by
    rintro rfl
    cases away.symm.trans saved
  rw [setBuf_bufs_of_ne _ _ other]
  refine sized b' ?_
  have same := congrFun home b'
  rw [update_of_ne other] at same
  exact same.symm.trans saved

instance : Keeps Sized allocBuf := ⟨fun _ sized => wp_post (wp_allocBuf_sized sized) fun _ _ both => both.1⟩

instance (o : Option BufId) : Keeps Sized (freeBuf o) := by
  cases o with
  | none => exact keeps_pure ()
  | some b => exact inferInstanceAs (Keeps Sized (listAdd b .caches))

instance (offset : Int) (bytes : List Byte) : Keeps Sized (memcpy b offset bytes) := by
  refine ⟨fun w sized => (wp_memcpy b offset bytes).mpr ⟨fun _ b' sits => ?_, fun _ => trivial⟩⟩
  replace sized := sized b' sits
  by_cases same : b' = b
  · subst same
    simpa using sized
  · simpa [setBuf_bufs_of_ne _ _ same] using sized

instance : Keeps Sized releasePrepare := by
  unfold releasePrepare
  infer_instance

instance : Keeps Sized httpMgmtToserver := by
  have asked : Keeps Sized (modify fun d : HttpMgmt => { d with toserver := true } : DevM Unit) :=
    keeps_sized_modify fun _ => rfl
  unfold httpMgmtToserver websocketGoWritable
  infer_instance

instance : Keeps Sized reply := by
  have taken : Keeps Sized (modify fun d : HttpMgmt => { d with replies := d.replies.tail } : DevM Unit) :=
    keeps_sized_modify fun _ => rfl
  unfold reply
  infer_instance

instance (r : Reply) : Keeps Sized (number r) := by
  cases r with
  | fail e =>
    have set : Keeps Sized (modify fun d : HttpMgmt => { d with errno := e } : DevM Unit) := keeps_sized_modify fun _ => rfl
    exact keeps_bind
  | value n | data bytes => exact keeps_pure _

instance : Keeps Sized sysSocket := by
  unfold sysSocket
  infer_instance

instance (host : List Byte) : Keeps Sized (nameResolve host) := by
  unfold nameResolve
  refine keeps_next fun r => ?_
  cases r <;> infer_instance

instance (o : Owner) (slot : Option Nat) (f : PollEvents → PollEvents) : Keeps Sized (setEvents o slot f) := by
  unfold setEvents
  infer_instance

instance (fd : Int) (events : PollEvents) : Keeps Sized (mgmtAddFd fd events) := by
  have entered (d : HttpMgmt) : Keeps Sized (modify fun d : HttpMgmt => { d with
      fdLookup := update d.fdLookup fd d.countPollfds
      pollfds := update d.pollfds d.countPollfds ⟨fd, events, 0⟩
      countPollfds := d.countPollfds + 1 } : DevM Unit) := keeps_sized_modify fun _ => rfl
  unfold mgmtAddFd
  infer_instance

instance (fd : Int) : Keeps Sized (dropFd fd) := by
  have left : Keeps Sized (modify fun d : HttpMgmt => { d with countPollfds := d.countPollfds - 1 } : DevM Unit) :=
    keeps_sized_modify fun _ => rfl
  have moved (m : Nat) (last : PollFd) : Keeps Sized (modify fun d : HttpMgmt => { d with
      pollfds := update d.pollfds m last
      fdLookup := update d.fdLookup last.fd m } : DevM Unit) := keeps_sized_modify fun _ => rfl
  unfold dropFd mgmtDelFd
  dsimp only
  infer_instance

end

/-! The functions that process frames. -/

section
variable {c : CtxId} {k : ClientId} {f : FwdId} {w : DevState}

instance : Keeps Sized (clientToWrite k) := by
  unfold clientToWrite
  infer_instance

/-- What is written to a buffer that hangs nowhere does not concern the saved ones. -/
theorem keeps_sized_memcpy_away {b : BufId} {offset : Int} {bytes : List Byte} :
    Keeps (fun v => Sized v ∧ v.rings.home b = none) (memcpy b offset bytes) := by
  have keeps : Keeps Sized (memcpy b offset bytes) := inferInstance
  refine ⟨fun v ⟨sized, away⟩ => (wp_memcpy b offset bytes).mpr ⟨fun inside => ?_, fun _ => trivial⟩⟩
  exact ⟨((wp_memcpy b offset bytes).mp (keeps.kept v sized)).1 inside, away⟩

instance (bufInfo : Option BufId) : Keeps Sized (sendEvent bufInfo k) := by
  refine ⟨fun w sized => ?_⟩
  rw [sendEvent, wp_bind, wp_data, wp_bind, wp_getClient, wp_bind]
  refine wp_post (wp_allocBuf_sized sized) fun found v both => ?_
  obtain ⟨sized, away⟩ := both
  rw [wp_bind, wp_deref]
  refine ⟨fun new same => ?_, fun _ => trivial⟩
  rw [wp_bind]
  generalize clientHeader _ _ _ = header
  refine wp_post (keeps_sized_memcpy_away.kept v ⟨sized, away new same⟩) fun _ v holds => ?_
  rw [wp_bind, wp_deref]
  refine ⟨fun b _ => ?_, fun _ => trivial⟩
  rw [wp_bind, wp_getBuf, wp_bind, wp_bytesAt]
  refine ⟨fun _ => ?_, fun _ => trivial⟩
  rw [wp_bind]
  refine wp_post (keeps_sized_memcpy_away.kept v holds) fun _ v both => ?_
  obtain ⟨sized, away⟩ := both
  rw [wp_bind, wp_getBuf, wp_bind, wp_setBuf]
  have rest : Keeps Sized (do listAdd new (.clientWrite k); clientToWrite k) := inferInstance
  refine rest.kept _ fun b' saved => ?_
  have other : b' ≠ new := by
    rintro rfl
    cases away.symm.trans saved
  rw [setBuf_bufs_of_ne _ _ other]
  exact sized b' saved

instance : Keeps Sized processTunnelReq := by
  unfold processTunnelReq
  infer_instance

/-- A header that joins the saved buffers. -/
theorem keeps_sized_header {b : BufId} {bytes : List Byte} :
    Keeps Sized (do fillBuf b bytes httpCHeaderLen; listAdd b .prepare) := by
  refine ⟨fun w sized => ?_⟩
  rw [fillBuf, wp_bind]
  refine wp_kept_then sized fun _ v sized => ?_
  rw [wp_bind, wp_getBuf, wp_setBuf]
  refine (wp_perform _ _).mpr ⟨fun R done b' saved => ?_, fun _ => trivial⟩
  obtain ⟨_, _, _, _, home⟩ := Rings.add_effect done
  by_cases same : b' = b
  · subst same
    rw [setBuf_bufs]
    exact ⟨Int.natCast_nonneg _, show (httpCHeaderLen : Int) ≤ httpBufSize by decide⟩
  · rw [setBuf_bufs_of_ne _ _ same]
    rw [home, update_of_ne same] at saved
    exact sized b' saved

instance : Keeps Sized processTunnelResp := by
  unfold processTunnelResp
  refine keeps_next fun d => ?_
  split
  next => infer_instance
  next k found =>
    refine keeps_next fun client => keeps_next fun found => keeps_next fun b => ⟨fun w sized => ?_⟩
    generalize clientHeader _ _ _ = header
    have added := (@keeps_sized_header b header).kept w sized
    rw [wp_bind] at added ⊢
    refine wp_post added fun _ v added => ?_
    rw [wp_bind]
    refine wp_post added fun _ u sized => ?_
    have rest : Keeps Sized (do
      listSpliceTailInit .prepare (.clientWrite k)
      clientToWrite k
      return 0 : DevM Int) := inferInstance
    exact rest.kept u sized

instance : Keeps Sized (hostInit c) := by
  unfold hostInit
  refine keeps_next fun _ => keeps_next fun b => keeps_next fun bytes => keeps_next fun _ => ?_
  cases getHostFromBuf (cString bytes) <;> infer_instance

instance (sockfd timeout : Int) : Keeps Sized (contextOpen c sockfd timeout) := by
  have ready (c : CtxId) (prio : Int) : Keeps Sized (modify fun d : HttpMgmt => { d with
      listReady := update d.listReady prio (c :: d.listReady prio), readyLen := d.readyLen + 1 } : DevM Unit) :=
    keeps_sized_modify fun _ => rfl
  have timed (c : CtxId) : Keeps Sized (modify fun d : HttpMgmt => { d with
      listTimeout := insertByTimeout (fun c => (d.ctxs c).timeout) c d.listTimeout } : DevM Unit) :=
    keeps_sized_modify fun _ => rfl
  have counted : Keeps Sized (modify fun d : HttpMgmt => { d with totalAdd := d.totalAdd + 1 } : DevM Unit) :=
    keeps_sized_modify fun _ => rfl
  unfold contextOpen httpContextInit insertReadyPrio insertTimeout
  dsimp only
  infer_instance

instance (timeout : Int) : Keeps Sized (httpContextCreate timeout) := by
  have taken (rest : List CtxId) : Keeps Sized (modify fun d : HttpMgmt => { d with ctxCaches := rest } : DevM Unit) :=
    keeps_sized_modify fun _ => rfl
  have alloc : Keeps Sized allocContext := by
    unfold allocContext
    refine keeps_next fun d => ?_
    cases d.ctxCaches <;> infer_instance
  unfold httpContextCreate
  refine keeps_next fun c => ?_
  cases c <;> infer_instance

instance (seq : Nat) (host : List Byte) (port : Nat) : Keeps Sized (tcpForwardCreate seq host port) := by
  have counted (f : FwdId) : Keeps Sized (modify fun d : HttpMgmt => { d with nextForward := f + 1 } : DevM Unit) :=
    keeps_sized_modify fun _ => rfl
  have listed (f : FwdId) : Keeps Sized (modify fun d : HttpMgmt => { d with
      listForward := f :: d.listForward, lenForward := d.lenForward + 1 } : DevM Unit) := keeps_sized_modify fun _ => rfl
  unfold tcpForwardCreate forwardOpen
  dsimp only
  infer_instance

instance : Keeps Sized (tcpForwardClosing f) := by
  have set (b : BufId) (info : BufInfo) : Keeps Sized
      (setBuf b { info with start := 0, len := websockMinPackSize, totalLen := websockMinPackSize }) :=
    keeps_sized_setBuf (Int.natCast_nonneg _) (show (websockMinPackSize : Int) ≤ httpBufSize by decide)
  unfold tcpForwardClosing
  refine keeps_next fun b => ?_
  cases b <;> infer_instance

instance : Keeps Sized (tcpForwardRelease f) := by
  have left : Keeps Sized (modify fun d : HttpMgmt => { d with listForward := d.listForward.erase f } : DevM Unit) :=
    keeps_sized_modify fun _ => rfl
  have counted : Keeps Sized (modify fun d : HttpMgmt => { d with lenForward := d.lenForward - 1 } : DevM Unit) :=
    keeps_sized_modify fun _ => rfl
  unfold tcpForwardRelease
  infer_instance

instance : Keeps Sized (forwardToWrite f) := by
  unfold forwardToWrite setForwardLine
  infer_instance

instance : Keeps Sized processTcpForwardresp := by
  unfold processTcpForwardresp
  refine keeps_next fun d => keeps_next fun f => ?_
  cases f <;> infer_instance

end

instance : Processes Sized fun _ => True where
  shaken _ := keeps_sized_modify fun _ => rfl
  forwardresp := inferInstance

/-! The lists of the parser and of the pool stay initialised. -/

section
variable {α : Type} {parts : Set Part} {acts : Set Act} {code : DevM α}

theorem keeps_hung (within : Within parts acts code) : Keeps Hung code :=
  keeps_of_within within fun _ _ frame hung h lasting => frame.lasts h lasting (hung h lasting)

instance [within : Within elsewhere Set.univ code] : Keeps Hung code := keeps_hung within

instance (f : HttpMgmt → HttpMgmt) : Keeps Hung (modify f : DevM Unit) := ⟨fun _ hung => hung⟩

instance (f : HttpBuf → HttpBuf) : Keeps Hung (setPrepare f) := inferInstanceAs (Keeps Hung (modify _))

instance (sync : Bool) : Keeps Hung (setSync sync) := inferInstanceAs (Keeps Hung (modify _))

instance : Keeps Hung releasePrepare := by
  unfold releasePrepare
  infer_instance

instance : Keeps Hung (httpContextCreate timeout) :=
  keeps_hung (inferInstance : Within contextsParts doingContexts _)

instance : Keeps Hung (tcpForwardCreate seq host port) :=
  keeps_hung (inferInstance : Within forwardsParts doingForwards _)

instance (f : FwdId) : Keeps Hung (tcpForwardRelease f) :=
  keeps_hung (inferInstance : Within (forwardParts f) (doing (.forward f)) _)

instance (f : FwdId) : Keeps Hung (forwardToWrite f) :=
  keeps_hung (inferInstance : Within (forwardParts f) (doing (.forward f)) _)

instance (bufInfo : Option BufId) (k : ClientId) : Keeps Hung (sendEvent bufInfo k) :=
  keeps_hung (inferInstance : Within (clientParts k) (doing (.client k)) _)

instance (k : ClientId) : Keeps Hung (clientToWrite k) :=
  keeps_hung (inferInstance : Within (clientParts k) (doing (.client k)) _)

instance : Keeps Hung processTunnelReq := by
  unfold processTunnelReq
  infer_instance

instance : Keeps Hung processTunnelResp := by
  unfold processTunnelResp
  refine keeps_next fun d => ?_
  split <;> infer_instance

instance : Keeps Hung processTcpForwardresp := by
  unfold processTcpForwardresp
  refine keeps_next fun d => keeps_next fun f => ?_
  cases f <;> infer_instance

instance : Processes Hung fun _ => True where
  forwardresp := inferInstance

end

/-- What `prepare_process` leaves, whatever becomes of the frame. -/
structure Processed (w : DevState) : Prop where
  curr : NoCurr w
  len : w.data.bufPrepare.len = 0
  totalLen : w.data.bufPrepare.totalLen = 0
  saved : Sized w
  hung : Hung w

theorem counted_of_processed {w : DevState} (processed : Processed w) : Counted w := by
  obtain ⟨curr, len, totalLen, saved, hung⟩ := processed
  rw [NoCurr] at curr
  exact ⟨⟨by rw [totalLen], by rw [len], by simp [curr], saved⟩, by simp [curr], by simp [curr, len, totalLen, filled], hung⟩

/-- When the frame was processed, nothing of it is left in the counters. -/
theorem wp_prepareProcess_processed {w : DevState} (counted : Counted w) (free : NoCurr w) :
    Wp prepareProcess (fun _ v => Processed v) (fun _ => True) w := by
  have sized : KeepsFrom Sized (WhenData fun _ => True) prepareProcess := keeps_prepareProcess
  have lists : KeepsFrom Hung (WhenData fun _ => True) prepareProcess := keeps_prepareProcess
  have reset : Wp prepareProcess (fun _ v => v.data.bufPrepare.len = 0 ∧ v.data.bufPrepare.totalLen = 0)
      (fun _ => True) w := by
    rw [prepareProcess, wp_bind, wp_data, wp_bind]
    exact wp_of_forall fun _ v => ⟨rfl, rfl⟩
  have kept := wp_and (sized.kept w counted.saved fun _ => trivial) (lists.kept w counted.hung fun _ => trivial)
  refine wp_post (wp_and (wp_and (wp_prepareProcess free) reset) kept) ?_
  rintro _ v ⟨⟨⟨_, free⟩, len, total⟩, saved, hung⟩
  exact ⟨free, len, total, saved, hung⟩

theorem wp_httpMgmtPrepare_counted {w : DevState} {buf : List Byte} (counted : Counted w) (long : HeaderLong w buf)
    (vacant : Vacant w buf) : Wp (httpMgmtPrepare buf) (fun _ v => Counted v) (fun _ => True) w := by
  rw [httpMgmtPrepare, wp_bind]
  by_cases small : buf.length < httpBufSize
  · refine wp_mono (wp_collect_counted counted small long vacant) (fun r v both => ?_) fun _ => False.elim
    obtain ⟨counted, free⟩ := both
    cases r with
    | returned rc => exact counted
    | complete =>
      rw [wp_bind]
      exact wp_post (wp_prepareProcess_processed counted (free rfl)) fun _ _ processed => counted_of_processed processed
  · rw [collect, wp_bind, wp_data, wp_bind, wp_assert]
    exact ⟨fun fits => absurd fits small, fun _ => trivial⟩

/-! Sequences of fragments. -/

/-- The parser when nothing has come yet. -/
structure Fresh (w : DevState) : Prop where
  curr : w.data.bufPrepare.curr = none
  len : w.data.bufPrepare.len = 0
  totalLen : w.data.bufPrepare.totalLen = 0
  saved : ∀ b, w.rings.home b ≠ some .prepare
  hung : Hung w

/-- The counters of the parser are left as they were, and so are its buffers. -/
structure Spares (w v : DevState) : Prop where
  prepare : v.data.bufPrepare = w.data.bufPrepare
  curr : ∀ b, w.data.bufPrepare.curr = some b →
    v.rings.home b = w.rings.home b ∧ (v.data.bufs b).start = (w.data.bufs b).start
  saved : ∀ b, v.rings.home b = some .prepare →
    w.rings.home b = some .prepare ∧ (v.data.bufs b).len = (w.data.bufs b).len
  hung : Hung w → Hung v

/-- What happens: a fragment comes, at some time and with the answers the system has for what
is done then, or other parts of the device are at work, which change the state. With the
fragment a frame may be complete whose processing goes astray among the lists of forwards and
clients, where the model stops and the device does not; what it leaves is any state then. -/
inductive Input where
  | fragment (buf : List Byte) (now : Int) (replies : List Reply)
  | astray (buf : List Byte) (now : Int) (replies : List Reply) (v : DevState)
  | elsewhere (v : DevState)

def parse (w : DevState) : Input → Option DevState
  | .fragment buf now replies => step w ⟨.receive buf, now, replies⟩
  | .astray buf now replies v =>
    match (collect buf).run (DevState.at w ⟨.receive buf, now, replies⟩) with
    | .ok (.complete, _) => some v
    | _ => none
  | .elsewhere v => some v

/-- The other parts of the device leave the parser alone, or reset it with the connection. -/
def Apart (w : DevState) : Input → Prop
  | .fragment _ _ _ => True
  | .astray _ _ _ v => Processed v
  | .elsewhere v => Spares w v ∨ Fresh v

/-- The condition on a fragment. -/
def Long (w : DevState) : Input → Prop
  | .fragment buf _ _ => HeaderLong w buf ∧ Vacant w buf
  | .astray buf _ _ _ => HeaderLong w buf ∧ Vacant w buf
  | .elsewhere _ => True

section
variable {v w : DevState} {input : Input}

theorem counted_of_fresh (fresh : Fresh w) : Counted w := by
  obtain ⟨curr, len, totalLen, saved, hung⟩ := fresh
  exact counted_of_processed ⟨curr, len, totalLen, fun b sits => absurd sits (saved b), hung⟩

theorem Counted.spared (counted : Counted w) (spares : Spares w v) : Counted v := by
  obtain ⟨prepare, curr, saved, hung⟩ := spares
  refine ⟨⟨?_, ?_, fun b current => ?_, fun b sits => ?_⟩, fun b current => ?_, ?_, hung counted.hung⟩
  · rw [prepare]
    exact counted.totalLen
  · rw [prepare]
    exact counted.len
  · rw [prepare] at current
    rw [(curr b current).2]
    exact counted.start b current
  · rw [(saved b sits).2]
    exact counted.saved b (saved b sits).1
  · rw [prepare] at current
    rw [(curr b current).1]
    exact counted.away b current
  · have room := counted.room
    rw [prepare]
    cases part : w.data.bufPrepare.curr with
    | none => rwa [part] at room
    | some b =>
      rw [part] at room
      rw [filled, (curr b part).2]
      exact room

theorem counted_at (counted : Counted w) (o : Occasion) : Counted (DevState.at w o) :=
  ⟨⟨counted.totalLen, counted.len, counted.start, counted.saved⟩, counted.away, counted.room, counted.hung⟩

theorem parse_counted (counted : Counted w) (apart : Apart w input) (long : Long w input)
    (moved : parse w input = some v) : Counted v := by
  cases input with
  | elsewhere u =>
    cases moved
    exact apart.elim counted.spared counted_of_fresh
  | astray buf now replies u =>
    rw [parse] at moved
    split at moved
    next =>
      cases moved
      exact counted_of_processed apart
    next => cases moved
  | fragment buf now replies =>
    have kept : Wp (handle (.receive buf)) (fun _ v => Counted v) (fun _ => True)
        (DevState.at w ⟨.receive buf, now, replies⟩) := by
      rw [handle, wp_bind]
      exact wp_post (wp_httpMgmtPrepare_counted (counted_at counted _) long.1 long.2) fun _ _ counted => counted
    rw [parse, step] at moved
    split at moved
    next u ran =>
      cases moved
      exact wp_of_run ran kept
    next => cases moved

/-- As long as no header gives a length that is less than its own and nothing is left of a
frame that was given up when payload comes with the next header, the counters are in range
after every fragment and other step. The next such fragment is taken in, also where the frame
is complete then and not processed yet, and its copy stays inside the buffer. -/
theorem lengths_in_range (reached : Reach parse (fun w input => Apart w input ∧ Long w input) Fresh w) :
    InRange w ∧ ∀ buf now replies, buf.length < httpBufSize → HeaderLong w buf → Vacant w buf →
      (∃ r v, (collect buf).run (DevState.at w ⟨.receive buf, now, replies⟩) = .ok (r, v) ∧ InRange v) ∧
      ∀ b payload v, Copies (DevState.at w ⟨.receive buf, now, replies⟩) buf b payload v →
        0 ≤ (v.data.bufs b).start ∧ (v.data.bufs b).start + payload.length ≤ httpBufSize := by
  have counted : Counted w := reached.invariant (fun _ => counted_of_fresh) fun _ _ _ counted good moved =>
    parse_counted counted good.1 good.2 moved
  refine ⟨counted.toInRange, fun buf now replies small long vacant => ⟨?_, fun b payload v copies => ?_⟩⟩
  · obtain ⟨r, v, ran, after, _⟩ := wp_total.mp (wp_collect_counted (counted_at counted _) small long vacant)
    exact ⟨r, v, ran, after.toInRange⟩
  · exact copies_inside (counted_at counted _) long vacant copies

/-! A frame in three fragments, of which the first two have come. -/

theorem fresh_device : Fresh device := ⟨rfl, rfl, rfl, fun _ => by rintro ⟨⟩, hung_of_lists rfl rfl⟩

def firstTwo : List Input :=
  [.fragment (headerBytes 0x11 7 2516 ++ List.replicate 2031 0) 1 [], .fragment (List.replicate 100 0) 2 []]

def takenIn : Test fun w input => Apart w input ∧ Long w input where
  passes
    | w, .fragment buf _ _ => w.data.syncPrepare || (decide (w.data.bufPrepare.curr = none) &&
        (readHeader buf).all fun header => decide (httpCHeaderLen ≤ header.length))
    | _, _ => false
  sound w input passes := by
    cases input with
    | fragment buf now replies =>
      simp only [Bool.or_eq_true, Bool.and_eq_true, decide_eq_true_eq, Option.all_eq_true] at passes
      refine ⟨trivial, fun sync _ header read => ?_, fun sync _ _ _ _ => ?_⟩
      · rcases passes with synced | ⟨_, long⟩
        · cases sync.symm.trans synced
        · exact long header read
      · rcases passes with synced | ⟨none, _⟩
        · cases sync.symm.trans synced
        · exact none
    | astray | elsewhere => cases passes

/-- The first buffer is saved, and the second one holds the second fragment. -/
def halfway (w : DevState) : Bool :=
  decide (w.data.syncPrepare = true ∧ w.data.bufPrepare.len = 2031 ∧ w.rings.items .prepare = some [⟨255, by decide⟩] ∧
    ∃ b ∈ w.data.bufPrepare.curr, (w.data.bufs b).start = 100)

theorem firstTwo_halfway : (takenIn.run parse device firstTwo).map halfway = some true := by
  decide +kernel

theorem lengths_in_range_halfway : ∃ w b, w.data.bufPrepare.curr = some b ∧ (w.data.bufs b).start = 100 ∧
    w.data.bufPrepare.len = 2031 ∧ InRange w ∧ ∀ rest, rest.length < httpBufSize →
      ∃ r v, (collect rest).run (DevState.at w ⟨.receive rest, 3, []⟩) = .ok (r, v) ∧ InRange v := by
  obtain ⟨w, ran, here⟩ := Option.map_eq_some_iff.mp firstTwo_halfway
  obtain ⟨synced, len, _, b, current, start⟩ := of_decide_eq_true here
  obtain ⟨range, next⟩ := lengths_in_range (Test.reach fresh_device ran)
  refine ⟨w, b, current, start, len, range, fun rest small => (next rest 3 [] small ?_ ?_).1⟩
  -- No header is looked for in the middle of a frame.
  · exact fun sync => absurd (synced.symm.trans sync) (by decide)
  · exact fun sync => absurd (synced.symm.trans sync) (by decide)

/-- A header that gives less than its own length makes the rest of the frame negative. -/
theorem wp_collect_of_low {header : FrameHeader} {buf : List Byte} (idle : Idle w)
    (size : buf.length = httpCHeaderLen) (read : readHeader buf = some header)
    (low : header.length < httpCHeaderLen) :
    Wp (collect buf) (fun r v => r = .returned 0 ∧
      v.data.bufPrepare.totalLen = (header.length : Int) - httpCHeaderLen) (fun _ => False) w := by
  obtain ⟨saved, hangs⟩ := idle.hangs
  obtain ⟨free, pool⟩ := idle.pool
  have small : buf.length < httpBufSize := by rw [size]; decide
  have whole : ¬ buf.length < httpCHeaderLen := by omega
  have allowed : ¬ httpInMax < header.length := by simp only [httpInMax, httpCHeaderLen] at *; omega
  have total : toInt32 (toUnsigned 32 ((header.length : Int) - httpCHeaderLen)) = (header.length : Int) - httpCHeaderLen := by
    simp only [toInt32, toUnsigned, httpCHeaderLen] at *
    omega
  have bare : buf.drop httpCHeaderLen = [] := List.drop_eq_nil_iff.mpr (by omega)
  simp only [collect, prepareHeader, wp_bind, wp_data, wp_assert, wp_ite, idle.sync, idle.curr, small, read,
    not_true_eq_false, false_implies, and_true, forall_const, Bool.false_eq_true, if_false,
    whole, allowed]
  refine wp_releasePrepare_of_none idle.curr hangs pool fun R items home => ?_
  simp [setSync, setPrepare, total, bare]

/-- After a header with the length 0, the rest of the frame has the length -16. -/
theorem low_header_out_of_range : ¬ ∀ w, Reach parse Apart Fresh w → InRange w := by
  intro always
  obtain ⟨buf, size, read⟩ : ∃ buf, buf.length = httpCHeaderLen ∧ readHeader buf = some ⟨0x11, 7, 0⟩ := by
    have byte : 0x11 < 256 := by decide
    have short : 7 < 65536 := by decide
    have read := @readHeader_headerBytes 0x11 7 0 byte short (by decide) []
    rw [List.append_nil] at read
    exact ⟨_, headerBytes_length _ _ _, read⟩
  have idle : Idle (DevState.at device ⟨.receive buf, 0, []⟩) := by
    have starts := (idle_of_starts Reassembly.device_starts).1
    exact ⟨starts.sync, starts.curr, starts.hangs, starts.pool⟩
  obtain ⟨_, v, ran, rfl, total⟩ := wp_total.mp (wp_collect_of_low idle size read (by decide))
  have prepared : (httpMgmtPrepare buf).run (DevState.at device ⟨.receive buf, 0, []⟩) = .ok (0, v) := run_bind ran
  have handled : (handle (.receive buf)).run (DevState.at device ⟨.receive buf, 0, []⟩) = .ok ((), v) := run_bind prepared
  have moved : parse device (.fragment buf 0 []) = some v := by
    rw [parse, step]
    split
    next u ran =>
      cases handled.symm.trans ran
      rfl
    next failed => cases handled.symm.trans failed
  have apart : Apart device (.fragment buf 0 []) := trivial
  have range := (always v (.next (.start fresh_device) apart moved)).totalLen
  rw [total] at range
  exact absurd range (by decide)

end

end WebTunnel.Device.Lengths
