import WebTunnel.Device.Pool
import WebTunnel.Server.Wire

/-! The reception of a frame from the server that comes in fragments: what the parser holds
after each of them, and what it has put together when the frame is complete. -/

namespace WebTunnel.Device.Receiving
open Library.Bytes Library.Lists Library.Routines Library.Routines.Routine Function Device.Types Buffers Http
open Manager Pool Server.Wire

/-- The parser is between two frames. -/
structure Idle (w : DevState) : Prop where
  sync : w.data.syncPrepare = false
  curr : w.data.bufPrepare.curr = none
  hangs : ∃ saved, w.rings.items .prepare = some saved
  pool : ∃ free, w.rings.items .caches = some free

/-- The fragment begins with a header, of a frame that is not rejected. -/
def Opens (buf : List Byte) : Prop :=
  httpCHeaderLen ≤ buf.length ∧ ∃ header, readHeader buf = some header ∧ header.length ≤ httpInMax

/-- The bytes in the buffer that is being filled. -/
def partBytes (d : HttpMgmt) : Option BufId → List Byte
  | none => []
  | some b => (d.bufs b).buf.slice 0 (d.bufs b).start.toNat

/-- A frame is under way: `stored` came of its payload, and lies in the saved buffers and in
the one being filled. -/
structure Collecting (header : FrameHeader) (stored : List Byte) (saved : List BufId)
    (part : Option BufId) (w : DevState) : Prop where
  sync : w.data.syncPrepare = true
  type : w.data.bufPrepare.type = header.type
  seq : w.data.bufPrepare.seq = header.seq
  totalLen : w.data.bufPrepare.totalLen = (header.length - httpCHeaderLen : Nat)
  curr : w.data.bufPrepare.curr = part
  hangs : w.rings.items .prepare = some saved
  away : ∀ b, part = some b → w.rings.home b = none
  len : w.data.bufPrepare.len = (contents w.data saved).flatten.length
  sizes : ∀ b ∈ saved, 0 ≤ (w.data.bufs b).len ∧ (w.data.bufs b).len ≤ httpBufSize
  fits : ∀ b, part = some b → 0 ≤ (w.data.bufs b).start ∧ (w.data.bufs b).start ≤ httpBufSize
  holds : stored = (contents w.data saved).flatten ++ partBytes w.data part

/-- A field between those in front of it and those behind it. -/
theorem field_between (before field after : List Byte) :
    ((before ++ (field ++ after)).drop before.length).take field.length = field := by
  rw [List.drop_left, List.take_left]

/-- The device reads the header the server writes. -/
theorem readHeader_headerBytes {type seq length : Nat} (byte : type < 256) (short : seq < 65536)
    (fits : length < 2 ^ 32) (rest : List Byte) :
    readHeader (headerBytes type seq length ++ rest) = some ⟨type, seq, length⟩ := by
  have magic : (headerBytes type seq length ++ rest).take 4 = bytesBE 4 protocolMagic := by
    simp [headerBytes]
  have version : ((headerBytes type seq length ++ rest).drop 4).take 1 = bytesBE 1 protocolVersion := by
    simp [headerBytes]
  have kind : ((headerBytes type seq length ++ rest).drop 5).take 1 = bytesBE 1 type := by
    simpa [headerBytes] using field_between (bytesBE 4 protocolMagic ++ bytesBE 1 protocolVersion)
      (bytesBE 1 type) (bytesBE 2 seq ++ bytesBE 4 length ++ bytesBE 4 0 ++ rest)
  have session : ((headerBytes type seq length ++ rest).drop 6).take 2 = bytesBE 2 seq := by
    simpa [headerBytes] using field_between (bytesBE 4 protocolMagic ++ bytesBE 1 protocolVersion ++
      bytesBE 1 type) (bytesBE 2 seq) (bytesBE 4 length ++ bytesBE 4 0 ++ rest)
  have size : ((headerBytes type seq length ++ rest).drop 8).take 4 = bytesBE 4 length := by
    simpa [headerBytes] using field_between (bytesBE 4 protocolMagic ++ bytesBE 1 protocolVersion ++
      bytesBE 1 type ++ bytesBE 2 seq) (bytesBE 4 length) (bytesBE 4 0 ++ rest)
  have order : htons (natLE (bytesBE 2 seq)) = natBE (bytesBE 2 seq) := swapBytes_natLE (bytesBE_length 2 seq)
  have order' : htonl (natLE (bytesBE 4 length)) = natBE (bytesBE 4 length) :=
    swapBytes_natLE (bytesBE_length 4 length)
  rw [readHeader, magic, version, kind, session, size, order, order',
    natBE_bytesBE_of_lt (k := 1) (by decide), natBE_bytesBE_of_lt (k := 1) byte,
    natBE_bytesBE_of_lt (k := 2) short, natBE_bytesBE_of_lt (k := 4) fits]
  exact if_pos ⟨rfl, rfl⟩

/-! One fragment of the payload. -/

section
variable {header : FrameHeader} {stored buf : List Byte} {saved free : List BufId} {b : BufId} {w : DevState}

/-- What is saved is not touched when another buffer is filled. -/
theorem contents_congr {d d' : HttpMgmt} {l : List BufId} (same : ∀ b ∈ l, d'.bufs b = d.bufs b) :
    contents d' l = contents d l :=
  List.map_congr_left fun b member => by rw [same b member]

theorem Collecting.not_saved (collecting : Collecting header stored saved (some b) w) : b ∉ saved :=
  Rings.not_mem_of_home (by rw [collecting.away b rfl]; simp) collecting.hangs

/-- The saved buffers stay as they are while another one is current. -/
theorem Collecting.next {part : Option BufId} {more : List Byte} {v : DevState}
    (collecting : Collecting header stored saved part w)
    (kept : ∀ b ∈ saved, v.data.bufs b = w.data.bufs b)
    (prepare : v.data.bufPrepare = { w.data.bufPrepare with curr := some b })
    (sync : v.data.syncPrepare = w.data.syncPrepare)
    (hangs : v.rings.items .prepare = w.rings.items .prepare) (away : v.rings.home b = none)
    (fits : 0 ≤ (v.data.bufs b).start ∧ (v.data.bufs b).start ≤ httpBufSize)
    (holds : partBytes v.data (some b) = partBytes w.data part ++ more) :
    Collecting header (stored ++ more) saved (some b) v where
  sync := sync.trans collecting.sync
  type := by rw [prepare, ← collecting.type]
  seq := by rw [prepare, ← collecting.seq]
  totalLen := by rw [prepare, ← collecting.totalLen]
  curr := by rw [prepare]
  hangs := hangs.trans collecting.hangs
  away b' same := by cases same; exact away
  len := by rw [contents_congr kept, prepare, ← collecting.len]
  sizes b' member := by rw [kept b' member]; exact collecting.sizes b' member
  fits b' same := by cases same; exact fits
  holds := by rw [contents_congr kept, holds, collecting.holds, List.append_assoc]

/-- The current buffer is saved. -/
theorem Collecting.save {v : DevState}
    (collecting : Collecting header stored saved (some b) w)
    (kept : ∀ b ∈ saved, v.data.bufs b = w.data.bufs b)
    (holds : (v.data.bufs b).buf = (w.data.bufs b).buf ∧ (v.data.bufs b).len = (w.data.bufs b).start)
    (prepare : v.data.bufPrepare =
      { w.data.bufPrepare with curr := none, len := w.data.bufPrepare.len + (w.data.bufs b).start })
    (sync : v.data.syncPrepare = w.data.syncPrepare)
    (hangs : v.rings.items .prepare = some (saved ++ [b])) :
    Collecting header stored (saved ++ [b]) none v := by
  have fits := collecting.fits b rfl
  have last : contents v.data [b] = [partBytes w.data (some b)] := by
    simp [contents, partBytes, holds]
  have all : contents v.data (saved ++ [b]) = contents w.data saved ++ [partBytes w.data (some b)] := by
    rw [← last, ← contents_congr kept, contents, contents, contents, List.map_append]
  constructor
  case sync => exact sync.trans collecting.sync
  case type => rw [prepare, ← collecting.type]
  case seq => rw [prepare, ← collecting.seq]
  case totalLen => rw [prepare, ← collecting.totalLen]
  case curr => rw [prepare]
  case hangs => exact hangs
  case away => simp
  case len =>
    rw [all, prepare, List.flatten_append, List.length_append]
    simp only [collecting.len, partBytes]
    simp
    omega
  case sizes =>
    intro b' member
    rcases List.mem_append.mp member with earlier | now
    · rw [kept b' earlier]
      exact collecting.sizes b' earlier
    · rw [List.mem_singleton.mp now, holds.2]
      exact fits
  case fits => simp
  case holds => rw [all, collecting.holds]; simp [partBytes]

/-- A new buffer, with nothing in it. -/
theorem wp_prepareBuf_none {err : Fault → Prop} (collecting : Collecting header stored saved none w)
    (pool : w.rings.items .caches = some (b :: free)) :
    Wp (prepareBuf none) (fun found v => found = some b ∧ Collecting header stored saved (some b) v ∧
      v.rings.items .caches = some free ∧ (v.data.bufs b).start = 0) err w := by
  have unsaved : b ∉ saved := by
    refine Rings.not_mem_of_home ?_ collecting.hangs
    rw [Rings.home_of_mem pool List.mem_cons_self]
    simp
  have kept : ∀ b' ∈ saved, update w.data.bufs b ⟨(w.data.bufs b).buf, 0, 0, 0⟩ b' = w.data.bufs b' :=
    fun _ member => update_of_ne (ne_of_mem_of_not_mem member unsaved) _ _
  rw [prepareBuf, wp_bind]
  refine wp_allocBuf_of_cons pool fun R items home => ?_
  simp only [wp_bind, setPrepare, wp_modify, wp_pure, true_and]
  refine ⟨?_, by rw [items, update_self], by simp [HttpMgmt.setBuf]⟩
  rw [← List.append_nil stored]
  refine collecting.next kept rfl rfl ?_ ?_ ?_ ?_
  · rw [items, update_of_ne (by decide)]
  · rw [home, update_self]
  · simp [HttpMgmt.setBuf]
  · simp [HttpMgmt.setBuf, partBytes, Mem.slice]

theorem slice_extend (m : Mem) (n : Nat) (bytes : List Byte) :
    (m.write n bytes).slice 0 (n + bytes.length) = m.slice 0 n ++ bytes := by
  rw [Mem.slice_add, Mem.slice_write_of_disjoint _ (.inl (by omega)), Nat.zero_add, Mem.slice_write]

theorem Collecting.partBytes_length (collecting : Collecting header stored saved (some b) w) :
    ((partBytes w.data (some b)).length : Int) = (w.data.bufs b).start := by
  have fits := collecting.fits b rfl
  rw [partBytes, Mem.slice_length]
  omega

theorem wp_savePrepare {err : Fault → Prop} (collecting : Collecting header stored saved (some b) w) :
    Wp (savePrepare b) (fun _ v => Collecting header stored (saved ++ [b]) none v ∧
      v.rings.items .caches = w.rings.items .caches) err w := by
  refine wp_savePrepare_of_free collecting.hangs (collecting.away b rfl) fun R items home => ?_
  refine ⟨collecting.save (fun b' member => ?_) ⟨?_, ?_⟩ rfl rfl ?_, by rw [items, update_of_ne (by decide)]⟩
  · have apart : b' ≠ b := ne_of_mem_of_not_mem member collecting.not_saved
    simp only [HttpMgmt.setBuf, update_of_ne apart]
  · simp [HttpMgmt.setBuf]
  · simp [HttpMgmt.setBuf]
  · rw [items, update_self]

/-- Bytes go behind those of the current buffer, which is saved if they complete the frame. -/
theorem wp_prepareFill (collecting : Collecting header stored saved (some b) w)
    (room : (w.data.bufs b).start + buf.length ≤ httpBufSize)
    (within : stored.length + buf.length ≤ header.length - httpCHeaderLen) :
    Wp (prepareFill b buf) (fun r v => v.rings.items .caches = w.rings.items .caches ∧
      if stored.length + buf.length < header.length - httpCHeaderLen then
        r = .returned 0 ∧ Collecting header (stored ++ buf) saved (some b) v ∧
          partBytes v.data (some b) = partBytes w.data (some b) ++ buf
      else r = .complete ∧ Collecting header (stored ++ buf) (saved ++ [b]) none v) (fun _ => False) w := by
  have fits := collecting.fits b rfl
  have written := collecting.partBytes_length
  have total : ((stored.length : Nat) : Int) = w.data.bufPrepare.len + (w.data.bufs b).start := by
    rw [collecting.holds, collecting.len, List.length_append, ← written]
    push_cast
    rfl
  have unsaved := collecting.not_saved
  let start := (w.data.bufs b).start + buf.length
  let filled (start : Int) : BufInfo :=
    ⟨(w.data.bufs b).buf.write (w.data.bufs b).start.toNat buf, start, (w.data.bufs b).len, (w.data.bufs b).totalLen⟩
  have kept (start : Int) : ∀ b' ∈ saved, update w.data.bufs b (filled start) b' = w.data.bufs b' :=
    fun _ member => update_of_ne (ne_of_mem_of_not_mem member unsaved) _ _
  have more' : (filled start).buf.slice 0 start.toNat = partBytes w.data (some b) ++ buf := by
    have size : start.toNat = (w.data.bufs b).start.toNat + buf.length := by simp only [start]; omega
    rw [size]
    exact slice_extend _ _ _
  have now : Collecting header (stored ++ buf) saved (some b) { w with data := w.data.setBuf b (filled start) } := by
    refine collecting.next (kept start) ?_ rfl rfl (collecting.away b rfl) ?_ ?_
    · exact congrArg (fun curr => { w.data.bufPrepare with curr }) collecting.curr
    · simp only [HttpMgmt.setBuf, update_self, filled, start]
      omega
    · simp only [partBytes, HttpMgmt.setBuf, update_self]
      exact more'
  rw [prepareFill, wp_bind, wp_getBuf, wp_bind, wp_memcpy]
  refine ⟨fun _ => ?_, fun outside => outside ⟨fits.1, by simp only [bufRoom]; omega⟩⟩
  simp only [wp_bind, wp_getBuf, wp_setBuf, wp_data, HttpMgmt.setBuf, update_self, update_idem, wp_ite]
  rw [collecting.totalLen]
  split
  next done =>
    have all : stored.length + buf.length = header.length - httpCHeaderLen := by omega
    have whole : start - (start + w.data.bufPrepare.len - (header.length - httpCHeaderLen : Nat)) = start := by
      simp only [start]
      omega
    rw [whole]
    refine wp_post (wp_savePrepare now) ?_
    rintro _ v ⟨saved, same⟩
    simp only [wp_pure, all, lt_irrefl, if_false, true_and]
    exact ⟨same, saved⟩
  next more =>
    have part : stored.length + buf.length < header.length - httpCHeaderLen := by omega
    simp only [wp_pure, part, if_true, true_and]
    refine ⟨now, ?_⟩
    simp only [partBytes, update_self]
    exact more'

end

/-- The number of buffers a frame may need: any two that follow each other hold more bytes
than one has room for. -/
def frameBufs : Nat := 2 * (httpInMax - httpCHeaderLen) / (httpBufSize + 1) + 1

/-- A frame is under way, and the pool has buffers for the rest of it. -/
def UnderWay (header : FrameHeader) (stored : List Byte) (w : DevState) : Prop :=
  ∃ saved part free, Collecting header stored saved part w ∧ w.rings.items .caches = some free ∧
    frameBufs ≤ free.length + saved.length + part.toList.length ∧
    (httpBufSize + 1) * saved.length + (partBytes w.data part).length ≤ 2 * stored.length ∧
    (part = none → saved = [])

/-- All of a frame's payload lies in the list of what was saved. -/
def Complete (header : FrameHeader) (payload : List Byte) (w : DevState) : Prop :=
  ∃ saved, Collecting header payload saved none w

/-- What becomes of a frame by one more fragment of its payload. -/
def After (header : FrameHeader) (stored : List Byte) (r : Received) (w : DevState) : Prop :=
  if stored.length < header.length - httpCHeaderLen then r = .returned 0 ∧ UnderWay header stored w
  else r = .complete ∧ Complete header stored w

section
variable {header : FrameHeader} {stored buf : List Byte} {w : DevState}

theorem wp_fill_after {saved free : List BufId} {b : BufId}
    (collecting : Collecting header stored saved (some b) w) (pool : w.rings.items .caches = some free)
    (enough : frameBufs ≤ free.length + saved.length + 1)
    (room : (w.data.bufs b).start + buf.length ≤ httpBufSize)
    (within : stored.length + buf.length ≤ header.length - httpCHeaderLen)
    (packed : (httpBufSize + 1) * saved.length + (partBytes w.data (some b)).length ≤ 2 * stored.length + buf.length) :
    Wp (prepareFill b buf) (After header (stored ++ buf)) (fun _ => False) w := by
  refine wp_post (wp_prepareFill collecting room within) fun r v ⟨same, result⟩ => ?_
  rw [After, List.length_append]
  split at result
  next more =>
    obtain ⟨returned, now, longer⟩ := result
    rw [if_pos more]
    refine ⟨returned, saved, some b, free, now, same.trans pool, enough, ?_, by simp⟩
    rw [longer, List.length_append, List.length_append]
    omega
  next done =>
    rw [if_neg done]
    exact ⟨result.1, _, result.2⟩

theorem pool_left {saved free : List BufId} {part : Option BufId}
    (enough : frameBufs ≤ free.length + saved.length + part.toList.length)
    (few : saved.length + part.toList.length < frameBufs) : ∃ b rest, free = b :: rest := by
  cases free with
  | nil => simp only [List.length_nil] at enough; omega
  | cons b rest => exact ⟨b, rest, rfl⟩

/-- A fragment of the payload is stored, and the frame is complete with the last of them. -/
theorem wp_prepareStore {part : Option BufId} (underWay : UnderWay header stored w)
    (current : w.data.bufPrepare.curr = part) (allowed : header.length ≤ httpInMax)
    (small : buf.length < httpBufSize)
    (within : stored.length + buf.length ≤ header.length - httpCHeaderLen) :
    Wp (prepareStore part buf) (After header (stored ++ buf)) (fun _ => False) w := by
  obtain ⟨saved, part', free, collecting, pool, enough, packed, first⟩ := underWay
  cases collecting.curr.symm.trans current
  have most : stored.length + buf.length ≤ httpInMax - httpCHeaderLen := by omega
  rw [prepareStore]
  cases part with
  | none =>
    cases first rfl
    obtain ⟨b, rest, rfl⟩ := pool_left enough (by decide)
    rw [wp_bind]
    refine wp_post (wp_prepareBuf_none collecting pool) ?_
    rintro found v ⟨same, now, left, empty⟩
    subst same
    simp only [wp_bind, wp_getBuf, empty, wp_ite]
    rw [if_neg (by omega)]
    refine wp_fill_after now left ?_ (by omega) within ?_
    · simp only [List.length_cons, List.length_nil, Option.toList_none] at enough ⊢
      omega
    · have none := now.partBytes_length
      rw [empty] at none
      simp only [List.length_nil]
      omega
  | some b =>
    rw [prepareBuf, wp_bind, wp_pure]
    simp only [wp_bind, wp_getBuf, wp_ite]
    split
    next full =>
      have written := collecting.partBytes_length
      have count : (saved ++ [b]).length = saved.length + 1 := List.length_append
      have few : (saved ++ [b]).length + 0 < frameBufs := by
        simp only [frameBufs, httpInMax, httpCHeaderLen, httpBufSize] at *
        omega
      obtain ⟨b', rest, rfl⟩ := @pool_left (saved ++ [b]) _ none (by simpa [Nat.add_assoc] using enough) few
      refine wp_post (wp_savePrepare collecting) ?_
      rintro _ v ⟨kept, same⟩
      refine wp_post (wp_prepareBuf_none kept (same.trans pool)) ?_
      rintro found u ⟨same', now, left, empty⟩
      subst same'
      refine wp_fill_after now left ?_ (by omega) within ?_
      · simp only [count, List.length_cons, Option.toList_some, List.length_nil] at enough ⊢
        omega
      · have none := now.partBytes_length
        rw [empty] at none
        have split : (httpBufSize + 1) * (saved.length + 1) = (httpBufSize + 1) * saved.length + httpBufSize + 1 := by
          ring
        rw [count]
        omega
    next fits =>
      refine wp_fill_after collecting pool ?_ (by omega) within (by omega)
      simpa using enough

/-- While a frame is under way no header is looked for. -/
theorem wp_collect_of_sync {post : Received → DevState → Prop} {err : Fault → Prop}
    (sync : w.data.syncPrepare = true) (small : buf.length < httpBufSize) (some : buf ≠ [])
    (stored : Wp (prepareStore w.data.bufPrepare.curr buf) post err w) : Wp (collect buf) post err w := by
  simp only [collect, prepareHeader, wp_bind, wp_data, wp_assert, wp_ite, sync, if_true, wp_pure, some,
    if_false, small, not_true_eq_false, false_implies, and_true, forall_const]
  exact stored

/-- Between two frames, a fragment that does not begin one is ignored. -/
theorem wp_collect_of_strange (idle : Idle w) (small : buf.length < httpBufSize) (strange : ¬ Opens buf) :
    Wp (collect buf) (fun r v => (∃ rc, r = .returned rc) ∧ Idle v) (fun _ => False) w := by
  simp only [collect, prepareHeader, wp_bind, wp_data, wp_assert, wp_ite, idle.sync, small,
    not_true_eq_false, false_implies, and_true, forall_const, Bool.false_eq_true, if_false]
  split
  next less => exact ⟨⟨_, rfl⟩, idle⟩
  next enough =>
    cases read : readHeader buf with
    | none => exact ⟨⟨_, rfl⟩, idle⟩
    | some header =>
      have large : httpInMax < header.length := by
        by_contra fits
        exact strange ⟨by omega, header, read, by omega⟩
      obtain ⟨saved, hangs⟩ := idle.hangs
      obtain ⟨free, pool⟩ := idle.pool
      simp only [wp_bind, large, if_true]
      refine wp_releasePrepare_of_none idle.curr hangs pool fun R items home => ?_
      refine ⟨⟨_, rfl⟩, ⟨idle.sync, rfl, ⟨[], ?_⟩, ⟨saved ++ free, ?_⟩⟩⟩
      · rw [items, update_of_ne (by decide), update_self]
      · rw [items, update_self]

/-- The pool has buffers for a frame. -/
def Stocked (w : DevState) : Prop :=
  ∃ saved free, w.rings.items .prepare = some saved ∧ w.rings.items .caches = some free ∧
    frameBufs ≤ saved.length + free.length

/-- With the header of a frame, what was saved before goes back to the pool, and what follows the
header is stored. -/
theorem wp_collect_opens {header : FrameHeader} {saved free : List BufId} {post : Received → DevState → Prop}
    {err : Fault → Prop} (idle : Idle w) (hangs : w.rings.items .prepare = some saved)
    (pool : w.rings.items .caches = some free) (small : buf.length < httpBufSize) (whole : httpCHeaderLen ≤ buf.length)
    (read : readHeader buf = some header) (least : httpCHeaderLen ≤ header.length) (allowed : header.length ≤ httpInMax)
    (next : ∀ v, Collecting header [] [] none v → v.rings.items .caches = some (saved ++ free) →
      if buf.length = httpCHeaderLen then post (.returned 0) v
      else Wp (prepareStore none (buf.drop httpCHeaderLen)) post err v) : Wp (collect buf) post err w := by
  simp only [collect, prepareHeader, wp_bind, wp_data, wp_assert, wp_ite, idle.sync, idle.curr, small, read,
    not_true_eq_false, false_implies, and_true, forall_const, Bool.false_eq_true, if_false,
    Nat.not_lt.mpr whole, Nat.not_lt.mpr allowed]
  refine wp_releasePrepare_of_none idle.curr hangs pool fun R items home => ?_
  have total : toInt32 (toUnsigned 32 ((header.length : Int) - httpCHeaderLen)) =
      (header.length - httpCHeaderLen : Nat) := by
    simp only [toInt32, toUnsigned, httpInMax] at *
    omega
  simp only [setSync, setPrepare, wp_modify, wp_pure, total]
  have opened := next ⟨{ w.data with
      syncPrepare := true, syncTime := w.data.now
      bufPrepare := ⟨none, 0, (header.length - httpCHeaderLen : Nat), header.type, header.seq⟩ }, R⟩ (by
    constructor
    case hangs => rw [items, update_of_ne (by decide), update_self]
    case len => simp [contents]
    case holds => simp [contents, partBytes]
    all_goals first | rfl | simp) (by rw [items, update_self])
  split
  next bare =>
    have same : buf.length = httpCHeaderLen := by
      have none := List.drop_eq_nil_iff.mp bare
      omega
    rw [wp_pure]
    rwa [if_pos same] at opened
  next some =>
    have more : buf.length ≠ httpCHeaderLen := by
      intro same
      exact some (List.drop_eq_nil_iff.mpr (by omega))
    rwa [if_neg more] at opened

/-- The header of a frame starts it, and what follows it is stored. -/
theorem wp_collect_of_header {header : FrameHeader} (idle : Idle w) (stocked : Stocked w)
    (small : buf.length < httpBufSize) (whole : httpCHeaderLen ≤ buf.length)
    (read : readHeader buf = some header) (least : httpCHeaderLen ≤ header.length)
    (allowed : header.length ≤ httpInMax)
    (within : buf.length ≤ header.length) :
    Wp (collect buf) (fun r v => if buf.length = httpCHeaderLen then r = .returned 0 ∧ UnderWay header [] v
      else After header (buf.drop httpCHeaderLen) r v) (fun _ => False) w := by
  obtain ⟨saved, free, hangs, pool, enough⟩ := stocked
  refine wp_collect_opens idle hangs pool small whole read least allowed fun v collecting pool => ?_
  have underWay : UnderWay header [] v := by
    refine ⟨[], none, saved ++ free, collecting, pool, ?_, by simp [partBytes], fun _ => rfl⟩
    simpa using enough
  split
  next => exact ⟨rfl, underWay⟩
  next =>
    have size : (buf.drop httpCHeaderLen).length = buf.length - httpCHeaderLen := List.length_drop
    exact wp_prepareStore underWay collecting.curr allowed (by omega) (by simp only [List.length_nil]; omega)

end

/-! The fragments of a frame. -/

/-- Fragments are taken in, and no frame is complete with any of them. -/
def Taken : DevState → List (List Byte) → DevState → Prop
  | w, [], v => v = w
  | w, buf :: rest, v => ∃ rc u, (collect buf).run w = .ok (.returned rc, u) ∧ Taken u rest v

/-- Fragments are taken in, and a frame is complete with the last of them, not before. -/
def Reassembled (header : FrameHeader) (payload : List Byte) (w : DevState) (frags : List (List Byte)) : Prop :=
  ∃ earlier last u v, frags = earlier ++ [last] ∧ Taken w earlier u ∧
    (collect last).run u = .ok (.complete, v) ∧ Complete header payload v

section
variable {header : FrameHeader} {stored payload buf : List Byte} {frags : List (List Byte)} {w v : DevState}

theorem Reassembled.cons {rc : Int} (taken : (collect buf).run w = .ok (.returned rc, v))
    (rest : Reassembled header payload v frags) : Reassembled header payload w (buf :: frags) := by
  obtain ⟨earlier, last, u, t, rfl, before, now, complete⟩ := rest
  exact ⟨buf :: earlier, last, u, t, rfl, ⟨rc, v, taken, before⟩, now, complete⟩

theorem Reassembled.single (now : (collect buf).run w = .ok (.complete, v))
    (complete : Complete header payload v) : Reassembled header payload w [buf] :=
  ⟨[], buf, w, v, rfl, rfl, now, complete⟩

/-- A fragment leads to the end of the frame, or to a state from which the rest does. -/
theorem reassembled_of_after {r : Received} (after : After header stored r v)
    (ran : (collect buf).run w = .ok (r, v)) (some : ∀ frag ∈ frags, frag ≠ [])
    (whole : stored.length + frags.flatten.length = header.length - httpCHeaderLen)
    (rest : frags ≠ [] → UnderWay header stored v → Reassembled header (stored ++ frags.flatten) v frags) :
    Reassembled header (stored ++ frags.flatten) w (buf :: frags) := by
  rw [After] at after
  split at after
  next part =>
    obtain ⟨rfl, underWay⟩ := after
    refine .cons ran (rest ?_ underWay)
    rintro rfl
    simp only [List.flatten_nil, List.length_nil] at whole
    omega
  next all =>
    obtain ⟨rfl, complete⟩ := after
    cases frags with
    | nil => rw [List.flatten_nil, List.append_nil]; exact .single ran complete
    | cons frag frags =>
      have bytes := List.length_pos_iff.mpr (some frag List.mem_cons_self)
      simp only [List.flatten_cons, List.length_append] at whole
      omega

theorem reassembled_of_underWay (underWay : UnderWay header stored w) (allowed : header.length ≤ httpInMax)
    (some : ∀ frag ∈ frags, frag ≠ []) (small : ∀ frag ∈ frags, frag.length < httpBufSize) (more : frags ≠ [])
    (whole : stored.length + frags.flatten.length = header.length - httpCHeaderLen) :
    Reassembled header (stored ++ frags.flatten) w frags := by
  induction frags generalizing stored w with
  | nil => exact absurd rfl more
  | cons buf rest ih =>
    rw [List.flatten_cons, List.length_append] at whole
    obtain ⟨_, _, _, now, _⟩ := id underWay
    have within : stored.length + buf.length ≤ header.length - httpCHeaderLen := by omega
    have step := wp_collect_of_sync now.sync (small buf List.mem_cons_self) (some buf List.mem_cons_self)
      (wp_prepareStore underWay rfl allowed (small buf List.mem_cons_self) within)
    obtain ⟨r, v, ran, after⟩ := wp_total.mp step
    rw [List.flatten_cons, ← List.append_assoc]
    refine reassembled_of_after after ran (fun frag member => some frag (List.mem_cons_of_mem _ member))
      (by rw [List.length_append]; omega) fun more underWay => ?_
    exact ih underWay (fun frag member => some frag (List.mem_cons_of_mem _ member))
      (fun frag member => small frag (List.mem_cons_of_mem _ member)) more (by rw [List.length_append]; omega)

/-- Wherever a frame is cut behind its header, it is put together again. -/
theorem reassembled {type seq : Nat} {first : List Byte} (byte : type < 256) (short : seq < 65536)
    (full : payload ≠ []) (allowed : payload.length + httpCHeaderLen ≤ httpInMax)
    (cut : first ++ frags.flatten = headerBytes type seq (payload.length + httpCHeaderLen) ++ payload)
    (whole : httpCHeaderLen ≤ first.length) (nonempty : ∀ frag ∈ frags, frag ≠ [])
    (small : ∀ frag ∈ first :: frags, frag.length < httpBufSize) (idle : Idle w) (stocked : Stocked w) :
    Reassembled ⟨type, seq, payload.length + httpCHeaderLen⟩ payload w (first :: frags) := by
  have length : (headerBytes type seq (payload.length + httpCHeaderLen)).length = httpCHeaderLen :=
    headerBytes_length _ _ _
  obtain ⟨front, split⟩ := cut_behind cut (by rw [length]; exact whole)
  rw [length] at front split
  have read : readHeader first = some ⟨type, seq, payload.length + httpCHeaderLen⟩ := by
    rw [front]
    exact readHeader_headerBytes byte short (by simp only [httpInMax] at allowed; omega) _
  have parts := congrArg List.length split
  rw [List.length_append, List.length_drop] at parts
  have positive := List.length_pos_iff.mpr full
  have within : first.length ≤ payload.length + httpCHeaderLen := by omega
  have step := wp_collect_of_header idle stocked (small first List.mem_cons_self) whole read
    (Nat.le_add_left _ _) allowed within
  obtain ⟨r, v, ran, after⟩ := wp_total.mp step
  have rest {stored : List Byte} (total : stored.length + frags.flatten.length = payload.length)
      (more : frags ≠ []) (underWay : UnderWay ⟨type, seq, payload.length + httpCHeaderLen⟩ stored v) :=
    reassembled_of_underWay underWay allowed nonempty
      (fun frag member => small frag (List.mem_cons_of_mem _ member)) more (by simpa using total)
  have all : Reassembled ⟨type, seq, payload.length + httpCHeaderLen⟩
      (first.drop httpCHeaderLen ++ frags.flatten) w (first :: frags) := by
    split at after
    next bare =>
      obtain ⟨same, underWay⟩ := after
      rw [same] at ran
      have nothing : first.drop httpCHeaderLen = [] := List.drop_eq_nil_iff.mpr (by omega)
      rw [nothing, List.nil_append] at split ⊢
      refine .cons ran (@rest [] (by simp [split]) ?_ underWay)
      rintro rfl
      exact full split
    next =>
      refine reassembled_of_after after ran nonempty ?_ fun more underWay => ?_
      · rw [List.length_drop, Nat.add_sub_cancel]
        omega
      · exact rest (by rw [List.length_drop]; omega) more underWay
  rwa [← split] at all

end

end WebTunnel.Device.Receiving
