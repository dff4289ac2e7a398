import WebTunnel.Device.Naming
import WebTunnel.Device.Resuming

/-! Data from the server for a forward: what the fragments of a frame bring for the socket in the
LAN, and what the forward's function makes of it. -/

namespace WebTunnel.Device.Feeding
set_option synthInstance.maxSize 10000
open Library.Bytes Library.Lists Library.Routines Library.Routines.Routine Function Device.Types Buffers
open Http Forward Manager Frames Footprints Keeping Pool Receiving Reassembly Stranding Naming Writing Resuming Server.Wire

/-! What the reception of a fragment leaves alone. -/

/-- A list and what its buffers hold; and the buffers that the parser has saved are read from their
beginning. -/
structure Beside (h : BufHead) (l : List BufId) (bufs : BufId → BufInfo) (w : DevState) : Prop where
  list : w.rings.items h = some l
  bufs : ∀ b ∈ l, w.data.bufs b = bufs b
  hangs : ∃ saved, w.rings.items .prepare = some saved
  pool : ∃ free, w.rings.items .caches = some free
  zeroed : ∀ b, w.rings.home b = some .prepare → (w.data.bufs b).start = 0

section
variable {h : BufHead} {l : List BufId} {bufs : BufId → BufInfo} {w : DevState} {b : BufId} {buf : List Byte}

theorem Beside.setBuf (beside : Beside h l bufs w) (own : w.rings.home b ≠ some h) (other : w.rings.home b ≠ some .prepare)
    (info : BufInfo) : Beside h l bufs { w with data := w.data.setBuf b info } := by
  constructor
  case list => exact beside.list
  case bufs =>
    intro b' member
    have apart : b' ≠ b := by
      rintro rfl
      exact own (Rings.home_of_mem beside.list member)
    rw [setBuf_bufs_of_ne _ _ apart]
    exact beside.bufs b' member
  case hangs => exact beside.hangs
  case pool => exact beside.pool
  case zeroed =>
    intro b' saved
    have apart : b' ≠ b := by
      rintro rfl
      exact other saved
    rw [setBuf_bufs_of_ne _ _ apart]
    exact beside.zeroed b' saved

theorem wp_allocBuf_beside (beside : Beside h l bufs w) (other : h ≠ .caches) :
    Wp allocBuf (fun found v => Beside h l bufs v ∧ ∀ b, found = some b → v.rings.home b = none) (fun _ => True) w := by
  rw [allocBuf, wp_bind, wp_head]
  refine ⟨fun free found => ?_, fun _ => trivial⟩
  cases free with
  | nil => exact ⟨beside, fun _ none => by cases none⟩
  | cons b free =>
    have sits : w.rings.home b = some .caches := Rings.home_of_mem found List.mem_cons_self
    simp only [List.head?_cons]
    rw [wp_bind]
    apply wp_del_of_home found sits
    intro R items home
    have away : R.home b = none := by rw [home, update_self]
    have moved : Beside h l bufs { w with rings := R } := by
      constructor
      case list => rw [items, update_of_ne other, beside.list]
      case bufs => exact beside.bufs
      case hangs =>
        rw [items, update_of_ne (by decide)]
        exact beside.hangs
      case pool => exact ⟨free, by rw [items, update_self, List.erase_cons_head]⟩
      case zeroed =>
        intro b' saved
        apply beside.zeroed
        by_cases same : b' = b
        · rw [same, away] at saved
          cases saved
        · rwa [home, update_of_ne same] at saved
    have cleared := moved.setBuf (b := b) (by rw [away]; simp) (by rw [away]; simp) ⟨(w.data.bufs b).buf, 0, 0, 0⟩
    refine ⟨cleared, ?_⟩
    intro b' same
    cases same
    exact away

/-- The buffer that is saved is read from its beginning. -/
theorem wp_savePrepare_beside (beside : Beside h l bufs w) (other : h ≠ .prepare) (away : w.rings.home b = none) :
    Wp (savePrepare b) (fun _ v => Beside h l bufs v) (fun _ => True) w := by
  obtain ⟨saved, hangs⟩ := beside.hangs
  apply wp_savePrepare_of_free hangs away
  intro R items home
  have others (b' : BufId) (apart : b' ≠ b) (info : BufInfo) : (w.data.setBuf b info).bufs b' = w.data.bufs b' :=
    setBuf_bufs_of_ne _ _ apart
  constructor
  case list => rw [items, update_of_ne other, beside.list]
  case bufs =>
    intro b' member
    have apart : b' ≠ b := by
      rintro rfl
      exact absurd (away.symm.trans (Rings.home_of_mem beside.list member)) (by simp)
    exact (others b' apart _).trans (beside.bufs b' member)
  case hangs => exact ⟨_, by rw [items, update_self]⟩
  case pool =>
    rw [items, update_of_ne (by decide)]
    exact beside.pool
  case zeroed =>
    intro b' listed
    by_cases same : b' = b
    · subst same
      exact congrArg BufInfo.start (setBuf_bufs _ _)
    · rw [home, update_of_ne same] at listed
      exact (congrArg BufInfo.start (others b' same _)).trans (beside.zeroed b' listed)

theorem Beside.setPrepare (beside : Beside h l bufs w) (pbuf : HttpBuf) :
    Beside h l bufs { w with data := { w.data with bufPrepare := pbuf } } :=
  ⟨beside.list, beside.bufs, beside.hangs, beside.pool, beside.zeroed⟩

theorem wp_releasePrepare_beside (beside : Beside h l bufs w) (other : h ≠ .caches) (other' : h ≠ .prepare) :
    Wp releasePrepare (fun _ v => Beside h l bufs v) (fun _ => True) w := by
  -- What was saved is none of the list's, and none of it is saved any longer.
  have spliced {u : DevState} (beside : Beside h l bufs u) :
      Wp (listSpliceInit .prepare .caches) (fun _ v => Beside h l bufs v) (fun _ => True) u := by
    refine (wp_perform _ _).mpr ⟨fun R done => ?_, fun _ => trivial⟩
    obtain ⟨saved, free, _, hangs, _, items, home⟩ := Rings.spliceInit_effect done
    constructor
    case list => rw [items, update_of_ne other, update_of_ne other', beside.list]
    case bufs => exact beside.bufs
    case hangs => exact ⟨[], by rw [items, update_of_ne (by decide), update_self]⟩
    case pool => exact ⟨_, by rw [items, update_self]⟩
    case zeroed =>
      intro b listed
      simp only [home] at listed
      split at listed
      · cases listed
      · exact beside.zeroed b listed
  rw [releasePrepare, wp_bind, wp_data, wp_bind]
  cases w.data.bufPrepare.curr with
  | none =>
    rw [freeBuf, wp_pure, wp_bind, Buffers.setPrepare, wp_modify]
    exact spliced (beside.setPrepare _)
  | some b =>
    refine (wp_perform _ _).mpr ⟨fun R done => ?_, fun _ => trivial⟩
    obtain ⟨free, _, away, items, home⟩ := Rings.add_effect done
    have freed : Beside h l bufs { w with rings := R } := by
      constructor
      case list => rw [items, update_of_ne other, beside.list]
      case bufs => exact beside.bufs
      case hangs =>
        rw [items, update_of_ne (by decide)]
        exact beside.hangs
      case pool => exact ⟨_, by rw [items, update_self]⟩
      case zeroed =>
        intro b' listed
        apply beside.zeroed
        by_cases same : b' = b
        · rw [same, home, update_self] at listed
          cases listed
        · rwa [home, update_of_ne same] at listed
    rw [wp_bind, Buffers.setPrepare, wp_modify]
    exact spliced (freed.setPrepare _)

theorem wp_prepareBuf_beside {part : Option BufId} (beside : Beside h l bufs w) (other : h ≠ .caches) (other' : h ≠ .prepare)
    (away : ∀ b, part = some b → w.rings.home b = none) :
    Wp (prepareBuf part) (fun found v => Beside h l bufs v ∧ ∀ b, found = some b → v.rings.home b = none) (fun _ => True) w := by
  cases part with
  | some b => exact ⟨beside, away⟩
  | none =>
    rw [prepareBuf, wp_bind]
    apply wp_post (wp_allocBuf_beside beside other)
    rintro found u ⟨beside, away⟩
    cases found with
    | none =>
      rw [wp_bind]
      exact wp_post (wp_releasePrepare_beside beside other other') fun _ v beside => ⟨beside, by simp⟩
    | some b =>
      rw [wp_bind, Buffers.setPrepare, wp_modify]
      exact ⟨beside.setPrepare _, away⟩

theorem wp_prepareFill_beside (beside : Beside h l bufs w) (other : h ≠ .prepare) (away : w.rings.home b = none) :
    Wp (prepareFill b buf) (fun _ v => Beside h l bufs v) (fun _ => True) w := by
  have own : w.rings.home b ≠ some h := by simp [away]
  have unsaved : w.rings.home b ≠ some .prepare := by simp [away]
  rw [prepareFill, wp_bind, wp_getBuf, wp_bind, wp_memcpy]
  refine ⟨fun _ => ?_, fun _ => trivial⟩
  simp only [wp_bind, wp_getBuf, wp_setBuf, wp_data, setBuf_bufs, setBuf_setBuf, wp_ite]
  split
  next => exact wp_post (wp_savePrepare_beside (beside.setBuf own unsaved _) other away) fun _ _ beside => beside
  next => exact beside.setBuf own unsaved _

theorem wp_prepareStore_beside {part : Option BufId} (beside : Beside h l bufs w) (other : h ≠ .caches) (other' : h ≠ .prepare)
    (away : ∀ b, part = some b → w.rings.home b = none) :
    Wp (prepareStore part buf) (fun _ v => Beside h l bufs v) (fun _ => True) w := by
  rw [prepareStore, wp_bind]
  apply wp_post (wp_prepareBuf_beside beside other other' away)
  rintro found u ⟨beside, away⟩
  cases found with
  | none => exact beside
  | some b =>
    simp only [wp_bind, wp_getBuf, wp_ite]
    split
    next =>
      apply wp_post (wp_savePrepare_beside beside other' (away b rfl))
      intro _ v beside
      apply wp_post (wp_prepareBuf_beside beside other other' (by simp))
      rintro found t ⟨beside, away⟩
      cases found with
      | none => exact beside
      | some b' => exact wp_prepareFill_beside beside other' (away b' rfl)
    next => exact wp_prepareFill_beside beside other' (away b rfl)

theorem wp_collect_beside (buf : List Byte) (beside : Beside h l bufs w) (other : h ≠ .caches) (other' : h ≠ .prepare)
    (away : ∀ b, w.data.bufPrepare.curr = some b → w.data.syncPrepare = true ∧ w.rings.home b = none) :
    Wp (collect buf) (fun _ v => Beside h l bufs v) (fun _ => True) w := by
  simp only [collect, wp_bind, wp_data, wp_assert]
  refine ⟨fun _ => ?_, fun _ => trivial⟩
  have store {payload : List Byte} {u : DevState} (beside : Beside h l bufs u)
      (away : ∀ b, w.data.bufPrepare.curr = some b → u.rings.home b = none) :
      Wp (if payload = [] then return .returned 0 else prepareStore w.data.bufPrepare.curr payload)
        (fun _ v => Beside h l bufs v) (fun _ => True) u := by
    rw [wp_ite]
    split
    next => exact beside
    next => exact wp_prepareStore_beside beside other other' away
  rw [prepareHeader, wp_bind, wp_data, wp_ite]
  split
  next sync => exact store beside fun b same => (away b same).2
  next idle =>
    have none (b : BufId) (same : w.data.bufPrepare.curr = some b) (u : DevState) : u.rings.home b = none :=
      absurd (away b same).1 idle
    rw [wp_ite]
    split
    next => exact beside
    next =>
      cases readHeader buf with
      | none => exact beside
      | some header =>
        rw [wp_bind]
        apply wp_post (wp_releasePrepare_beside beside other other')
        intro _ u beside
        rw [wp_ite]
        split
        next => exact beside
        next =>
          simp only [setSync, Buffers.setPrepare, wp_bind, wp_modify, wp_pure]
          refine store ?_ fun b same => none b same _
          exact ⟨beside.list, beside.bufs, beside.hangs, beside.pool, beside.zeroed⟩

end

/-! Where the parser is in a frame. -/

/-- A frame is under way, and `stored` has come of its payload. -/
def Midway (header : FrameHeader) (stored : List Byte) (w : DevState) : Prop :=
  ∃ saved part, Collecting header stored saved part w ∧ (∃ free, w.rings.items .caches = some free) ∧
    (httpBufSize + 1) * saved.length + (partBytes w.data part).length ≤ 2 * stored.length ∧ (part = none → saved = [])

/-- With what the parser has of it, the pool has buffers for a frame. -/
def Provided (w : DevState) : Prop :=
  ∃ saved free, w.rings.items .prepare = some saved ∧ w.rings.items .caches = some free ∧
    frameBufs ≤ free.length + saved.length + w.data.bufPrepare.curr.toList.length

/-- The bytes of a frame that are still to come. -/
inductive Awaits (type seq : Nat) (payload : List Byte) : List Byte → DevState → Prop
  | whole {w : DevState} : Idle w →
      Awaits type seq payload (headerBytes type seq (payload.length + httpCHeaderLen) ++ payload) w
  | part {w : DevState} {stored rest : List Byte} : stored ++ rest = payload → rest ≠ [] →
      Midway ⟨type, seq, payload.length + httpCHeaderLen⟩ stored w → Awaits type seq payload rest w

section
variable {header : FrameHeader} {type seq : Nat} {payload stored buf rest : List Byte} {w : DevState}

theorem Midway.underWay (midway : Midway header stored w) (provided : Provided w) : UnderWay header stored w := by
  obtain ⟨saved, part, collecting, _, packed, first⟩ := midway
  obtain ⟨saved', free, hangs, pool, enough⟩ := provided
  cases collecting.hangs.symm.trans hangs
  rw [collecting.curr] at enough
  exact ⟨saved, part, free, collecting, pool, enough, packed, first⟩

theorem midway_of_underWay (underWay : UnderWay header stored w) : Midway header stored w := by
  obtain ⟨saved, part, free, collecting, pool, _, packed, first⟩ := underWay
  exact ⟨saved, part, collecting, ⟨free, pool⟩, packed, first⟩

theorem stocked_of_provided (idle : Idle w) (provided : Provided w) : Stocked w := by
  obtain ⟨saved, free, hangs, pool, enough⟩ := provided
  rw [idle.curr, Option.toList_none, List.length_nil, Nat.add_zero, Nat.add_comm] at enough
  exact ⟨saved, free, hangs, pool, enough⟩

/-- What a fragment leads to. -/
def Brought (type seq : Nat) (payload rest : List Byte) (r : Received) (v : DevState) : Prop :=
  if rest = [] then r = .complete ∧ Complete ⟨type, seq, payload.length + httpCHeaderLen⟩ payload v
  else r = .returned 0 ∧ Awaits type seq payload rest v

theorem brought_of_after {r : Received} {v : DevState} (split : stored ++ rest = payload)
    (after : After ⟨type, seq, payload.length + httpCHeaderLen⟩ stored r v) : Brought type seq payload rest r v := by
  have total : stored.length + rest.length = payload.length := by rw [← split, List.length_append]
  have whole : (FrameHeader.mk type seq (payload.length + httpCHeaderLen)).length - httpCHeaderLen = payload.length :=
    Nat.add_sub_cancel _ _
  rw [After, whole] at after
  rw [Brought]
  split at after
  next more =>
    have left : rest ≠ [] := by
      rintro rfl
      rw [List.length_nil, Nat.add_zero] at total
      omega
    rw [if_neg left]
    exact ⟨after.1, .part split left (midway_of_underWay after.2)⟩
  next done =>
    obtain rfl : rest = [] := List.length_eq_zero_iff.mp (by omega)
    rw [List.append_nil] at split
    rw [if_pos rfl, ← split]
    exact split ▸ after

/-- One fragment of a frame, cut anywhere behind the header. -/
theorem wp_collect_awaits (byte : type < 256) (short : seq < 65536) (full : payload ≠ [])
    (allowed : payload.length + httpCHeaderLen ≤ httpInMax) (awaits : Awaits type seq payload (buf ++ rest) w)
    (provided : Provided w) (some_ : buf ≠ []) (small : buf.length < httpBufSize)
    (begins : w.data.syncPrepare = false → httpCHeaderLen ≤ buf.length) :
    Wp (collect buf) (Brought type seq payload rest) (fun _ => False) w := by
  generalize left : buf ++ rest = bytes at awaits
  cases awaits with
  | whole idle =>
    have long := begins idle.sync
    have length : (headerBytes type seq (payload.length + httpCHeaderLen)).length = httpCHeaderLen := headerBytes_length _ _ _
    obtain ⟨front, split⟩ := cut_behind left (by rw [length]; exact long)
    rw [length] at front split
    have read : readHeader buf = some ⟨type, seq, payload.length + httpCHeaderLen⟩ := by
      rw [front]
      exact readHeader_headerBytes byte short (by simp only [httpInMax] at allowed; omega) _
    have total := congrArg List.length split
    rw [List.length_append, List.length_drop] at total
    have within : buf.length ≤ payload.length + httpCHeaderLen := by omega
    apply wp_post (wp_collect_of_header idle (stocked_of_provided idle provided) small long read (Nat.le_add_left _ _) allowed within)
    intro r v result
    split at result
    next bare =>
      have nothing : buf.drop httpCHeaderLen = [] := List.drop_eq_nil_iff.mpr (by omega)
      rw [nothing, List.nil_append] at split
      have left : rest ≠ [] := split ▸ full
      rw [Brought, if_neg left]
      exact ⟨result.1, .part (List.nil_append rest ▸ split.symm) left (midway_of_underWay result.2)⟩
    next => exact brought_of_after split.symm result
  | @part _ stored _ split _ midway =>
    rw [← left, ← List.append_assoc] at split
    have total := congrArg List.length split
    simp only [List.length_append] at total
    have underWay := midway.underWay provided
    obtain ⟨_, _, _, collecting, _⟩ := id underWay
    apply wp_collect_of_sync collecting.sync small some_
    apply wp_post (wp_prepareStore underWay rfl allowed small (by simp only [Nat.add_sub_cancel]; omega))
    exact fun r v after => brought_of_after split after

end

/-- The type and the session of the frame whose bytes come next. -/
def heading (w : DevState) (frame : List Byte) : Option (Nat × Nat) :=
  if w.data.syncPrepare then some (w.data.bufPrepare.type, w.data.bufPrepare.seq)
  else (readHeader frame).map fun header => (header.type, header.seq)

/-- The parser's part of the device is as it was. -/
structure Parked (w v : DevState) : Prop where
  prepare : v.data.bufPrepare = w.data.bufPrepare
  sync : v.data.syncPrepare = w.data.syncPrepare
  list : v.rings.items .prepare = w.rings.items .prepare
  saved : ∀ l, w.rings.items .prepare = some l → ∀ b ∈ l, v.data.bufs b = w.data.bufs b
  part : ∀ b, w.data.bufPrepare.curr = some b → v.data.bufs b = w.data.bufs b ∧ v.rings.home b = w.rings.home b
  pool : ∃ free, v.rings.items .caches = some free

section
variable {header : FrameHeader} {type seq : Nat} {payload stored rest : List Byte} {w v : DevState}

theorem Parked.idle (parked : Parked w v) (idle : Idle w) : Idle v := by
  obtain ⟨sync, curr, ⟨saved, hangs⟩, _⟩ := idle
  exact ⟨parked.sync.trans sync, (congrArg HttpBuf.curr parked.prepare).trans curr, ⟨saved, parked.list.trans hangs⟩, parked.pool⟩

theorem Parked.midway (parked : Parked w v) (midway : Midway header stored w) : Midway header stored v := by
  obtain ⟨saved, part, collecting, _, packed, first⟩ := midway
  have same := parked.saved saved collecting.hangs
  have contents' : contents v.data saved = contents w.data saved := contents_congr same
  have part' : partBytes v.data part = partBytes w.data part := by
    cases part with
    | none => rfl
    | some b => rw [partBytes, partBytes, (parked.part b collecting.curr).1]
  refine ⟨saved, part, ?_, parked.pool, ?_, first⟩
  · constructor
    case sync => exact parked.sync.trans collecting.sync
    case type => rw [parked.prepare, collecting.type]
    case seq => rw [parked.prepare, collecting.seq]
    case totalLen => rw [parked.prepare, collecting.totalLen]
    case curr => rw [parked.prepare, collecting.curr]
    case hangs => exact parked.list.trans collecting.hangs
    case away =>
      intro b own
      rw [(parked.part b (collecting.curr.trans own)).2]
      exact collecting.away b own
    case len => rw [parked.prepare, collecting.len, contents']
    case sizes =>
      intro b member
      rw [same b member]
      exact collecting.sizes b member
    case fits =>
      intro b own
      rw [(parked.part b (collecting.curr.trans own)).1]
      exact collecting.fits b own
    case holds => rw [contents', part', collecting.holds]
  · rw [part']
    exact packed

theorem Parked.awaits (parked : Parked w v) (awaits : Awaits type seq payload rest w) : Awaits type seq payload rest v := by
  cases awaits with
  | whole idle => exact .whole (parked.idle idle)
  | part split more midway => exact .part split more (parked.midway midway)

theorem Awaits.curr_away (awaits : Awaits type seq payload rest w) :
    ∀ b, w.data.bufPrepare.curr = some b → w.data.syncPrepare = true ∧ w.rings.home b = none := by
  intro b same
  cases awaits with
  | whole idle => cases idle.curr.symm.trans same
  | part _ _ midway =>
    obtain ⟨_, part, collecting, _⟩ := midway
    exact ⟨collecting.sync, collecting.away b (collecting.curr.symm.trans same)⟩

/-- What is still to come of a frame is not empty, and has its header if that is still to come. -/
theorem Awaits.some_left (awaits : Awaits type seq payload rest w) :
    rest ≠ [] ∧ (w.data.syncPrepare = false → httpCHeaderLen ≤ rest.length) := by
  cases awaits with
  | whole idle =>
    have length : (headerBytes type seq (payload.length + httpCHeaderLen)).length = httpCHeaderLen := headerBytes_length _ _ _
    have long : httpCHeaderLen ≤ (headerBytes type seq (payload.length + httpCHeaderLen) ++ payload).length := by
      rw [List.length_append, length]
      exact Nat.le_add_right _ _
    exact ⟨List.ne_nil_of_length_pos (Nat.lt_of_lt_of_le (by decide) long), fun _ => long⟩
  | part _ more midway =>
    obtain ⟨_, _, collecting, _⟩ := midway
    exact ⟨more, fun sync => Bool.noConfusion (collecting.sync.symm.trans sync)⟩

theorem Awaits.heading (awaits : Awaits type seq payload rest w) (byte : type < 256) (short : seq < 65536)
    (allowed : payload.length + httpCHeaderLen ≤ httpInMax) : heading w rest = some (type, seq) := by
  cases awaits with
  | whole idle =>
    have fits : payload.length + httpCHeaderLen < 2 ^ 32 := lt_of_le_of_lt allowed (by decide)
    rw [Feeding.heading, idle.sync, readHeader_headerBytes byte short fits]
    rfl
  | part _ _ midway =>
    obtain ⟨_, _, collecting, _⟩ := midway
    rw [Feeding.heading, collecting.sync, if_pos rfl, collecting.type, collecting.seq]

end

/-! What is queued for the forward. -/

/-- The data of the session are for the forward. -/
def Serves (f : FwdId) (seq : Nat) (d : HttpMgmt) : Prop :=
  d.listForward.find? (fun g => (d.forwards g).seq = seq) = some f

/-- The forward is connected, and waits for what its host sends. -/
structure Resting (f : FwdId) (w : DevState) : Prop where
  list : w.rings.items (.fwdWrite f) = some []
  pool : ∃ free, w.rings.items .caches = some free
  pfd : (w.data.forwards f).pfd ≠ none
  funcRun : (w.data.forwards f).funcRun = .read

/-- The bytes that are queued for the forward, which is called to write them. -/
inductive Feeds (f : FwdId) : List Byte → DevState → Prop
  | resting {w : DevState} : Resting f w → Feeds f [] w
  | going {w : DevState} {l : List BufId} {queue : List Byte} : Going (.forward f) l w → queue = pending w.data l → Feeds f queue w

/-- Only the forward's status may have changed. -/
structure Kept (f : FwdId) (w v : DevState) : Prop where
  list : v.rings.items (.fwdWrite f) = w.rings.items (.fwdWrite f)
  bufs : ∀ l, w.rings.items (.fwdWrite f) = some l → ∀ b ∈ l, v.data.bufs b = w.data.bufs b
  pool : ∃ free, v.rings.items .caches = some free
  forward : ∃ status, v.data.forwards f = { w.data.forwards f with status }
  written : written (.forward f) v.data.acts = written (.forward f) w.data.acts

section
variable {f : FwdId} {seq : Nat} {queue payload : List Byte} {d d' : HttpMgmt} {w u v : DevState} {l more : List BufId}

theorem serves_of_fixed (serves : Serves f seq w.data)
    (fixed : Fixed (fun g => (w.data.forwards g).seq) w.data.listForward w.data.nextForward [] v) : Serves f seq v.data := by
  rw [Serves, fixed.list]
  simp only [fixed.seq]
  exact serves

theorem fixed_refl (w : DevState) : Fixed (fun g => (w.data.forwards g).seq) w.data.listForward w.data.nextForward [] w :=
  ⟨fun _ => rfl, rfl, rfl, by simp⟩

theorem feeds_list (feeds : Feeds f queue w) : ∃ l, w.rings.items (.fwdWrite f) = some l ∧ queue = pending w.data l ∧
    (w.data.forwards f).pfd ≠ none ∧ (∃ free, w.rings.items .caches = some free) ∧ ∀ b ∈ l, Inside (w.data.bufs b) := by
  cases feeds with
  | resting resting => exact ⟨[], resting.list, rfl, resting.pfd, resting.pool, by simp⟩
  | @going _ l _ going all =>
    cases going with
    | ready ready => exact ⟨l, ready.list, all, ready.pfd, ready.pool, ready.inside⟩
    | suspended suspended => exact ⟨l, suspended.list, all, suspended.pfd, suspended.pool, suspended.inside⟩

theorem Feeds.kept (feeds : Feeds f queue w) (kept : Kept f w v) : Feeds f queue v := by
  obtain ⟨list, bufs, pool, ⟨status, forward⟩, _⟩ := kept
  cases feeds with
  | resting resting =>
    refine .resting ⟨list.trans resting.list, pool, ?_, ?_⟩
    · rw [forward]
      exact resting.pfd
    · rw [forward]
      exact resting.funcRun
  | @going _ l _ going all =>
    have same := bufs l going.list
    have inside (before : ∀ b ∈ l, Inside (w.data.bufs b)) : ∀ b ∈ l, Inside (v.data.bufs b) := by
      intro b member
      rw [same b member]
      exact before b member
    refine .going (l := l) ?_ (all.trans (pending_congr same).symm)
    cases going with
    | ready ready =>
      refine .ready ⟨list.trans ready.list, pool, inside ready.inside, ?_, ?_, ?_, ?_⟩
      · rw [Writer.pfd, forward]
        exact ready.pfd
      · rw [Writer.funcRun, forward]
        exact ready.funcRun
      · rw [Writer.line, forward]
        exact ready.line
      · intro g own
        rw [Writer.curr, forward]
        exact ready.fresh g own
    | suspended suspended =>
      refine .suspended ⟨⟨list.trans suspended.list, ?_, pool, inside suspended.inside, ?_, ?_⟩, ?_, suspended.some_left⟩
      · rw [Writer.curr, forward]
        exact suspended.curr
      · rw [Writer.pfd, forward]
        exact suspended.pfd
      · rw [Writer.funcRun, forward]
        exact suspended.funcRun
      · rw [Writer.line, forward]
        exact suspended.line

/-- What was put together for the session. -/
structure Arrived (more : List BufId) (w : DevState) : Prop where
  list : w.rings.items .prepare = some more
  curr : w.data.bufPrepare.curr = none
  inside : ∀ b ∈ more, Inside (w.data.bufs b)

theorem wp_forwardToWrite {err : Fault → Prop} {post : Unit → DevState → Prop} (pfd : (w.data.forwards f).pfd ≠ none)
    (next : ∀ pollfds act, bytesTo (.forward f) act = [] →
      post () ⟨{ w.data with
        pollfds, acts := act :: w.data.acts
        forwards := update w.data.forwards f { w.data.forwards f with funcRun := .write, line := .start } }, w.rings⟩) :
    Wp (forwardToWrite f) post err w := by
  rw [forwardToWrite, wp_bind, wp_getForward, wp_bind, wp_setForward, wp_bind, setEvents, wp_bind, wp_deref]
  refine ⟨fun slot found => ?_, fun none => absurd none pfd⟩
  simp only [getPollFd, setPollFd, setForwardLine, wp_bind, wp_data, wp_pure, wp_modify, wp_note, wp_getForward, wp_setForward]
  have result := next (update w.data.pollfds slot
    { w.data.pollfds slot with events := ((w.data.pollfds slot).events ||| pollOut) &&& ~~~pollIn })
    (.interest (.forward f) (((w.data.pollfds slot).events ||| pollOut) &&& ~~~pollIn)) rfl
  simpa [HttpMgmt.setForward, HttpMgmt.note] using result

/-- The bytes have joined those that are queued, and the parser has nothing left. -/
structure Fed (f : FwdId) (bytes : List Byte) (w v : DevState) : Prop where
  feeds : Feeds f bytes v
  list : v.rings.items .prepare = some []
  curr : v.data.bufPrepare.curr = none
  written : written (.forward f) v.data.acts = written (.forward f) w.data.acts

theorem pending_append (d : HttpMgmt) (l more : List BufId) : pending d (l ++ more) = pending d l ++ pending d more :=
  List.flatMap_append

/-- The buffers have joined those that are queued, and nothing was made of it as yet. -/
structure Joined (f : FwdId) (l : List BufId) (w u : DevState) : Prop where
  queued : u.rings.items (.fwdWrite f) = some l
  bare : u.rings.items .prepare = some []
  pool : ∃ free, u.rings.items .caches = some free
  inside : ∀ b ∈ l, Inside (u.data.bufs b)
  curr : u.data.bufPrepare.curr = none
  forward : u.data.forwards f = w.data.forwards f
  acts : u.data.acts = w.data.acts

/-- A forward that is busy is in the middle of writing. -/
theorem suspended_of_busy (feeds : Feeds f queue w) (served : Served f w) (busy : ¬ (w.data.forwards f).idle) :
    ∃ l, Suspended (.forward f) l w := by
  obtain ⟨write, _, place⟩ := served.working (by simpa using busy)
  cases feeds with
  | resting resting => cases resting.funcRun.symm.trans write
  | @going _ l _ going _ =>
    cases going with
    | suspended suspended => exact ⟨l, suspended⟩
    | ready ready =>
      have line : (w.data.forwards f).line = .start := ready.line
      rw [line] at place
      rcases place with none | none | none <;> cases none

/-- An idle forward is to write them. -/
theorem wp_wake (feeds : Feeds f queue w) (served : Served f w) (list : w.rings.items (.fwdWrite f) = some l)
    (joined : Joined f (l ++ more) w u) :
    Wp (do
      when (← getForward f).idle do forwardToWrite f
      return (0 : Int)) (fun rc v => rc = 0 ∧ Fed f (pending u.data (l ++ more)) w v) (fun _ => False) u := by
  obtain ⟨_, _, _, pfd, _⟩ := feeds_list feeds
  obtain ⟨queued, bare, pool, inside, curr, forward, acts⟩ := joined
  rw [wp_bind, wp_getForward, wp_bind, wp_when, forward]
  refine ⟨fun idle => ?_, fun busy => ⟨rfl, ?_⟩⟩
  · have fresh := (served.resting idle).1
    rw [← forward] at pfd fresh
    apply wp_forwardToWrite pfd
    intro pollfds act none
    refine ⟨rfl, ?_⟩
    constructor
    case feeds =>
      refine .going (l := l ++ more) (.ready ⟨queued, pool, inside, ?_, ?_, ?_, ?_⟩) rfl
      · simpa [Writer.pfd] using pfd
      · simp [Writer.funcRun]
      · simp [Writer.line]
      · intro g same
        cases same
        simpa [Writer.curr] using fresh
    case list => exact bare
    case curr => exact curr
    case written => rw [written_cons, none, List.append_nil, acts]
  · obtain ⟨l', suspended⟩ := suspended_of_busy feeds served busy
    cases list.symm.trans suspended.list
    constructor
    case feeds =>
      refine .going (l := l ++ more) (.suspended ⟨⟨queued, ?_, pool, inside, ?_, ?_⟩, ?_, by simp [suspended.some_left]⟩) rfl
      · obtain ⟨b, rest, rfl⟩ := List.exists_cons_of_ne_nil suspended.some_left
        rw [Writer.curr, forward]
        exact suspended.curr
      · rwa [Writer.pfd, forward]
      · rw [Writer.funcRun, forward]
        exact suspended.funcRun
      · rw [Writer.line, forward]
        exact suspended.line
    case list => exact bare
    case curr => exact curr
    case written => rw [acts]

/-- The data of a frame join what is queued. -/
theorem wp_processTcpForwardresp_feeds (serves : Serves f w.data.bufPrepare.seq w.data) (feeds : Feeds f queue w)
    (served : Served f w) (arrived : Arrived more w) :
    Wp processTcpForwardresp (fun rc v => rc = 0 ∧ Fed f (queue ++ pending w.data more) w v) (fun _ => False) w := by
  obtain ⟨l, list, rfl, _, ⟨free, pool⟩, inside⟩ := feeds_list feeds
  rw [processTcpForwardresp, wp_bind, wp_data, wp_bind, findForward, wp_bind, wp_data, wp_pure,
    show w.data.listForward.find? _ = some f from serves]
  simp only
  rw [wp_bind]
  apply wp_spliceTailInit_of_found (by simp) arrived.list list
  intro R items _
  have list' : R.items (.fwdWrite f) = some (l ++ more) := by rw [items, update_self]
  have empty : R.items .prepare = some [] := by rw [items, update_of_ne (by simp), update_self]
  have pool' : R.items .caches = some free := by
    rw [items, update_of_ne (by simp), update_of_ne (by simp), pool]
  rw [wp_bind, wp_data, wp_bind, wp_assert]
  refine ⟨fun curr => ?_, fun full => full arrived.curr⟩
  rw [wp_bind]
  apply wp_releasePrepare_of_none (w := ⟨w.data, R⟩) curr empty pool'
  intro S items' _
  rw [← pending_append]
  apply wp_wake feeds served list
  constructor
  case queued =>
    change S.items (.fwdWrite f) = _
    rw [items', update_of_ne (by simp), update_of_ne (by simp), list']
  case bare =>
    change S.items .prepare = _
    rw [items', update_of_ne (by simp), update_self]
  case pool => exact ⟨free, by rw [items', update_self, List.nil_append]⟩
  case inside => exact fun b member => (List.mem_append.mp member).elim (inside b) (arrived.inside b)
  all_goals rfl

/-- What a frame with data for the session leaves behind. -/
structure Delivered (f : FwdId) (bytes : List Byte) (w v : DevState) : Prop where
  feeds : Feeds f bytes v
  idle : Idle v
  bare : v.rings.items .prepare = some []
  fixed : Fixed (fun g => (w.data.forwards g).seq) w.data.listForward w.data.nextForward [] v
  written : written (.forward f) v.data.acts = written (.forward f) w.data.acts

/-- A frame with data is processed. -/
theorem wp_prepareProcess_feeds (type : w.data.bufPrepare.type = httpCForwardReq)
    (serves : Serves f w.data.bufPrepare.seq w.data) (feeds : Feeds f queue w) (served : Served f w) (arrived : Arrived more w) :
    Wp prepareProcess (fun _ v => Delivered f (queue ++ pending w.data more) w v) (fun _ => False) w := by
  rw [prepareProcess, wp_bind, wp_data, type, wp_bind, dispatch, if_neg (by decide), if_neg (by decide),
    if_neg (by decide), if_neg (by decide), if_neg (by decide), wp_bind, wp_when]
  refine ⟨fun _ => ?_, fun other => absurd rfl other⟩
  have sessions : Keeps (Fixed (fun g => (w.data.forwards g).seq) w.data.listForward w.data.nextForward []) processTcpForwardresp :=
    inferInstance
  rw [wp_bind]
  apply wp_post (wp_and (wp_processTcpForwardresp_feeds serves feeds served arrived) (sessions.kept w (fixed_refl w)))
  rintro rc v ⟨⟨rfl, fed⟩, fixed⟩
  obtain ⟨l, list, _, _, ⟨free, pool⟩, _⟩ := feeds_list fed.feeds
  rw [wp_when]
  refine ⟨fun wrong => absurd rfl wrong, fun _ => ?_⟩
  apply wp_releasePrepare_of_none fed.curr fed.list pool
  intro R items _
  have bare : R.items .prepare = some [] := by rw [items, update_of_ne (by simp), update_self]
  have stocked : R.items .caches = some free := by rw [items, update_self, List.nil_append]
  have queued : R.items (.fwdWrite f) = v.rings.items (.fwdWrite f) := by
    rw [items, update_of_ne (by simp), update_of_ne (by simp)]
  simp only [setSync, Buffers.setPrepare, wp_bind, wp_modify]
  constructor
  case feeds =>
    apply fed.feeds.kept
    exact ⟨queued, fun _ _ _ _ => rfl, ⟨free, stocked⟩, ⟨_, rfl⟩, rfl⟩
  case idle => exact ⟨rfl, rfl, ⟨[], bare⟩, ⟨free, stocked⟩⟩
  case bare => exact bare
  case fixed => exact ⟨fixed.seq, fixed.list, fixed.count, fixed.done⟩
  case written => exact fed.written

/-- The buffers that are saved hold the payload. -/
theorem arrived_of_complete {header : FrameHeader} {bufs : BufId → BufInfo} (complete : Complete header payload w)
    (beside : Beside (.fwdWrite f) l bufs w) : ∃ more, Arrived more w ∧ pending w.data more = payload := by
  obtain ⟨saved, collecting⟩ := complete
  have zero : ∀ b ∈ saved, (w.data.bufs b).start = 0 := by
    intro b member
    exact beside.zeroed b (Rings.home_of_mem collecting.hangs member)
  refine ⟨saved, ⟨collecting.hangs, collecting.curr, ?_⟩, ?_⟩
  · intro b member
    obtain ⟨low, high⟩ := collecting.sizes b member
    have start := zero b member
    refine ⟨by omega, low, ?_⟩
    simp only [bufRoom, httpBufSize] at high ⊢
    omega
  · rw [collecting.holds, partBytes, List.append_nil, pending, contents, List.flatMap_def]
    apply congrArg List.flatten
    apply List.map_congr_left
    intro b member
    rw [left, zero b member]
    rfl

end

/-! The reception of a fragment. -/

/-- The device between two steps, with what is queued for the session's forward. -/
structure Upstream (f : FwdId) (seq : Nat) (queue : List Byte) (w : DevState) : Prop where
  all : AllServed w
  serves : Serves f seq w.data
  feeds : Feeds f queue w
  zeroed : ∃ saved, w.rings.items .prepare = some saved ∧ ∀ b ∈ saved, (w.data.bufs b).start = 0

section
variable {f : FwdId} {type seq seq' : Nat} {queue payload buf rest : List Byte} {w v : DevState}

theorem Upstream.beside (upstream : Upstream f seq queue w) :
    ∃ l, queue = pending w.data l ∧ Beside (.fwdWrite f) l w.data.bufs w := by
  obtain ⟨l, list, all, _, pool, _⟩ := feeds_list upstream.feeds
  obtain ⟨saved, hangs, zero⟩ := upstream.zeroed
  refine ⟨l, all, list, fun _ _ => rfl, ⟨saved, hangs⟩, pool, ?_⟩
  exact fun b sits => zero b (Rings.mem_of_home sits hangs)

theorem kept_of_beside {l : List BufId} (list : w.rings.items (.fwdWrite f) = some l)
    (beside : Beside (.fwdWrite f) l w.data.bufs v) (frame : Frame parserParts ∅ w v) : Kept f w v := by
  constructor
  case list => exact beside.list.trans list.symm
  case bufs =>
    intro l' found
    cases list.symm.trans found
    exact beside.bufs
  case pool => exact beside.pool
  case forward => exact ⟨(w.data.forwards f).status, frame.forward f (by simp [parserParts])⟩
  case written =>
    obtain ⟨new, same, none⟩ := frame.done
    obtain rfl : new = [] := List.eq_nil_iff_forall_not_mem.mpr fun act member => none act member
    rw [same, List.nil_append]

/-- The reception of a fragment does not touch what is queued. -/
theorem wp_collect_upstream (upstream : Upstream f seq queue w) (awaits : Awaits type seq' payload rest w) :
    Wp (collect buf) (fun _ v => Upstream f seq queue v ∧
      written (.forward f) v.data.acts = written (.forward f) w.data.acts ∧
      ∃ l, Beside (.fwdWrite f) l w.data.bufs v) (fun _ => True) w := by
  obtain ⟨l, _, beside⟩ := upstream.beside
  have collected := wp_collect_beside buf beside (by simp) (by simp) awaits.curr_away
  have within : Within parserParts ∅ (collect buf) := inferInstance
  have serving : Keeps AllServed (collect buf) := inferInstance
  have served := serving.kept w upstream.all
  apply wp_post (wp_and (wp_and collected (within.frame w)) served)
  rintro r v ⟨⟨after, frame⟩, all⟩
  have kept := kept_of_beside beside.list after frame
  refine ⟨⟨all, ?_, upstream.feeds.kept kept, ?_⟩, kept.written, l, after⟩
  · have list := (frame.forwardList (by simp [parserParts])).1
    have forwards (g : FwdId) : v.data.forwards g = w.data.forwards g := frame.forward g (by simp [parserParts])
    rw [Serves, list]
    simp only [forwards]
    exact upstream.serves
  · obtain ⟨saved, hangs⟩ := after.hangs
    exact ⟨saved, hangs, fun b member => after.zeroed b (Rings.home_of_mem hangs member)⟩

/-- A fragment that does not end a frame. -/
theorem wp_receive_part (upstream : Upstream f seq queue w) (byte : type < 256) (short : seq' < 65536) (full : payload ≠ [])
    (allowed : payload.length + httpCHeaderLen ≤ httpInMax) (awaits : Awaits type seq' payload (buf ++ rest) w)
    (provided : Provided w) (some_ : buf ≠ []) (small : buf.length < httpBufSize)
    (begins : w.data.syncPrepare = false → httpCHeaderLen ≤ buf.length) (more : rest ≠ []) :
    Wp (httpMgmtPrepare buf) (fun _ v => Upstream f seq queue v ∧ Awaits type seq' payload rest v ∧
      written (.forward f) v.data.acts = written (.forward f) w.data.acts) (fun _ => False) w := by
  have collected := wp_collect_awaits byte short full allowed awaits provided some_ small begins
  rw [httpMgmtPrepare, wp_bind]
  apply wp_post (wp_and collected (wp_collect_upstream upstream awaits))
  rintro r v ⟨brought, upstream, written, _⟩
  rw [Brought, if_neg more] at brought
  obtain ⟨rfl, awaits⟩ := brought
  exact ⟨upstream, awaits, written⟩

/-- The last fragment of a frame with data for the session. -/
theorem wp_receive_last (upstream : Upstream f seq queue w) (short : seq < 65536) (full : payload ≠ [])
    (allowed : payload.length + httpCHeaderLen ≤ httpInMax) (awaits : Awaits httpCForwardReq seq payload buf w)
    (provided : Provided w) (some_ : buf ≠ []) (small : buf.length < httpBufSize)
    (begins : w.data.syncPrepare = false → httpCHeaderLen ≤ buf.length) :
    Wp (httpMgmtPrepare buf) (fun _ v => Upstream f seq (queue ++ payload) v ∧ Idle v ∧
      written (.forward f) v.data.acts = written (.forward f) w.data.acts) (fun _ => False) w := by
  rw [← List.append_nil buf] at awaits
  have collected := wp_collect_awaits (by decide) short full allowed awaits provided some_ small begins
  rw [httpMgmtPrepare, wp_bind]
  apply wp_post (wp_and collected (wp_collect_upstream upstream awaits))
  rintro r v ⟨brought, upstream, written, l, beside⟩
  rw [Brought, if_pos rfl] at brought
  obtain ⟨rfl, complete⟩ := brought
  obtain ⟨saved, collecting⟩ := id complete
  obtain ⟨more, arrived, all⟩ := arrived_of_complete complete beside
  have own : Serves f v.data.bufPrepare.seq v.data := collecting.seq.symm ▸ upstream.serves
  have processed := wp_prepareProcess_feeds collecting.type own upstream.feeds (upstream.all f) arrived
  have served : KeepsFrom AllServed (WhenData fun _ => True) prepareProcess := keeps_prepareProcess
  rw [all] at processed
  rw [wp_bind]
  apply wp_post (wp_and processed (served.kept v upstream.all fun _ => trivial))
  rintro _ t ⟨delivered, all⟩
  have empty : ∃ saved, t.rings.items .prepare = some saved ∧ ∀ b ∈ saved, (t.data.bufs b).start = 0 :=
    ⟨[], delivered.bare, by simp⟩
  exact ⟨⟨all, serves_of_fixed upstream.serves delivered.fixed, delivered.feeds, empty⟩, delivered.idle,
    delivered.written.trans written⟩

end

/-! The forward writes. -/

/-- Buffers that the forward's function has nothing to do with. -/
structure Aside (f : FwdId) (others : List BufId) (saved : Option (List BufId)) (bufs : BufId → BufInfo)
    (home : BufId → Option BufHead) (w : DevState) : Prop where
  list : w.rings.items .prepare = saved
  same : ∀ b ∈ others, w.data.bufs b = bufs b ∧ w.rings.home b = home b
  current : ∀ b, (w.data.forwards f).bufWrite.curr = some b → w.rings.home b = some (.fwdWrite f)

section
variable {f : FwdId} {others : List BufId} {saved : Option (List BufId)} {bufs : BufId → BufInfo}
  {home : BufId → Option BufHead} {w v : DevState} {b : BufId} {bytes : List Byte} {count : Nat}

theorem Aside.forward (aside : Aside f others saved bufs home w) (fwd : TcpForwardContext)
    (curr : ∀ b, fwd.bufWrite.curr = some b → w.rings.home b = some (.fwdWrite f)) :
    Aside f others saved bufs home ⟨w.data.setForward f fwd, w.rings⟩ := by
  refine ⟨aside.list, aside.same, ?_⟩
  rw [show (w.data.setForward f fwd).forwards f = fwd from update_self _ _ _]
  exact curr

theorem wp_setForwardLine_aside (aside : Aside f others saved bufs home w) (line : CcrLine) :
    Wp (setForwardLine f line) (fun _ v => Aside f others saved bufs home v) (fun _ => True) w := by
  rw [setForwardLine, wp_bind, wp_getForward, wp_setForward]
  exact aside.forward _ aside.current

/-- A buffer with another home is another one. -/
theorem Aside.ne (aside : Aside f others saved bufs home w) (apart : ∀ b ∈ others, home b ≠ some (.fwdWrite f))
    (sits : w.rings.home b = some (.fwdWrite f)) {b' : BufId} (member : b' ∈ others) : b' ≠ b := by
  rintro rfl
  exact apart b' member ((aside.same b' member).2.symm.trans sits)

theorem Aside.setBuf (aside : Aside f others saved bufs home w) (apart : ∀ b ∈ others, home b ≠ some (.fwdWrite f))
    (sits : w.rings.home b = some (.fwdWrite f)) (info : BufInfo) :
    Aside f others saved bufs home ⟨w.data.setBuf b info, w.rings⟩ := by
  refine ⟨aside.list, ?_, aside.current⟩
  intro b' member
  obtain ⟨same, home⟩ := aside.same b' member
  exact ⟨(setBuf_bufs_of_ne _ _ (aside.ne apart sits member)).trans same, home⟩

theorem wp_sysWrite_aside (aside : Aside f others saved bufs home w) :
    Wp (sysWrite (.forward f) bytes) (fun _ v => Aside f others saved bufs home v ∧ v.rings = w.rings ∧
      v.data.forwards = w.data.forwards) (fun _ => True) w := by
  have quiet {d : HttpMgmt} (bufs' : d.bufs = w.data.bufs) (forwards : d.forwards = w.data.forwards) :
      Aside f others saved bufs home ⟨d, w.rings⟩ := by
    refine ⟨aside.list, ?_, ?_⟩
    · simp only [bufs']
      exact aside.same
    · simp only [forwards]
      exact aside.current
  rw [sysWrite, wp_bind, reply, wp_bind, wp_data, wp_bind, wp_modify, wp_pure]
  cases w.data.replies.headD (.fail .again) with
  | fail e =>
    rw [wp_bind, wp_modify, wp_pure]
    exact ⟨quiet rfl rfl, rfl, rfl⟩
  | value n | data sent =>
    rw [wp_bind, wp_note, wp_pure]
    exact ⟨quiet rfl rfl, rfl, rfl⟩

/-- What is done with a buffer of which the socket has taken bytes. -/
theorem wp_forwardWrote_aside (aside : Aside f others saved bufs home w) (apart : ∀ b ∈ others, home b ≠ some (.fwdWrite f))
    (sits : w.rings.home b = some (.fwdWrite f)) (n : Int) :
    Wp (forwardWrote f b n) (fun _ v => Aside f others saved bufs home v) (fun _ => True) w := by
  have filled (info : BufInfo) := aside.setBuf apart sits info
  rw [forwardWrote, wp_bind, wp_getBuf, wp_bind, wp_setBuf, wp_ite]
  split
  next =>
    rw [wp_bind, wp_getBuf, wp_bind, wp_setBuf, setBuf_setBuf, wp_bind]
    exact wp_post (wp_setForwardLine_aside (filled _) .partly) fun _ _ aside => aside
  next =>
    rw [wp_bind]
    refine (wp_perform _ _).mpr ⟨fun R done => ?_, fun _ => trivial⟩
    obtain ⟨h, l, sits', _, items, moved⟩ := Rings.del_effect done
    cases sits.symm.trans sits'
    rw [wp_bind]
    refine (wp_perform _ _).mpr ⟨fun S done' => ?_, fun _ => trivial⟩
    obtain ⟨_, _, _, items', moved'⟩ := Rings.add_effect done'
    rw [wp_bind, nextBufInfo, wp_head]
    refine ⟨fun rest found => ?_, fun _ => trivial⟩
    rw [wp_bind, setForwardCurr, wp_bind, wp_getForward, wp_setForward]
    constructor
    case list =>
      change S.items .prepare = saved
      rw [items', update_of_ne (by simp)]
      change R.items .prepare = saved
      rw [items, update_of_ne (by simp)]
      exact aside.list
    case same =>
      intro b' member
      have other := aside.ne apart sits member
      refine ⟨((filled _).same b' member).1, ?_⟩
      change S.home b' = home b'
      rw [moved', update_of_ne other]
      change R.home b' = home b'
      rw [moved, update_of_ne other]
      exact (aside.same b' member).2
    case current =>
      intro b' first
      rw [show ∀ d : HttpMgmt, ∀ fwd, (d.setForward f fwd).forwards f = fwd from fun _ _ => update_self _ _ _] at first
      exact Rings.home_of_mem found (List.mem_of_head? first)

theorem wp_forwardWriteLoop_aside (aside : Aside f others saved bufs home w) (apart : ∀ b ∈ others, home b ≠ some (.fwdWrite f)) :
    Wp (forwardWriteLoop f count) (fun _ v => Aside f others saved bufs home v) (fun _ => True) w := by
  induction count generalizing w with
  | zero => trivial
  | succ count ih =>
    rw [forwardWriteLoop, wp_bind, wp_getForward]
    split
    next none =>
      rw [wp_bind, forwardToRead, wp_bind, wp_getForward, wp_bind]
      apply wp_setEvents
      intro pollfds events
      have watched (acts : List Act) : Aside f others saved bufs home ⟨{ w.data with pollfds, acts }, w.rings⟩ :=
        ⟨aside.list, aside.same, aside.current⟩
      rw [wp_bind, wp_getForward, wp_setForward, wp_pure]
      exact (watched _).forward _ aside.current
    next b current =>
      have sits := aside.current b current
      rw [wp_bind, wp_getBuf, wp_bind, wp_bytesAt]
      refine ⟨fun _ => ?_, fun _ => trivial⟩
      rw [wp_bind]
      apply wp_post (wp_sysWrite_aside aside)
      rintro n v ⟨aside, rings, _⟩
      have sits : v.rings.home b = some (.fwdWrite f) := by rwa [rings]
      have gives (line : CcrLine) (status : CallerStatus) :
          Wp (do setForwardLine f line; return status : DevM CallerStatus) (fun _ v => Aside f others saved bufs home v)
            (fun _ => True) v := by
        rw [wp_bind]
        exact wp_post (wp_setForwardLine_aside aside line) fun _ _ aside => aside
      rw [wp_bind, wp_data, wp_ite]
      split
      · rw [wp_ite]
        split
        · exact gives _ _
        · exact gives _ _
      · rw [wp_ite]
        split
        · exact gives _ _
        · rw [wp_bind]
          apply wp_post (wp_forwardWrote_aside aside apart sits n)
          intro status u aside
          cases status with
          | some status => exact aside
          | none => exact ih aside

theorem wp_tcpForwardWrite_aside (aside : Aside f others saved bufs home w) (apart : ∀ b ∈ others, home b ≠ some (.fwdWrite f)) :
    Wp (tcpForwardWrite f) (fun _ v => Aside f others saved bufs home v) (fun _ => True) w := by
  have busy := aside.forward { w.data.forwards f with idle := false } aside.current
  rw [tcpForwardWrite, wp_bind, wp_getForward, wp_bind, wp_setForward]
  split
  case h_1 =>
    rw [wp_bind, wp_assert]
    refine ⟨fun _ => ?_, fun _ => trivial⟩
    rw [wp_bind, nextBufInfo, wp_head]
    refine ⟨fun l found => ?_, fun _ => trivial⟩
    rw [wp_bind, setForwardCurr, wp_bind, wp_getForward, wp_setForward]
    apply wp_forwardWriteLoop_aside (busy.forward _ ?_) apart
    intro b first
    exact Rings.home_of_mem found (List.mem_of_head? first)
  case h_2 => exact wp_forwardWriteLoop_aside busy apart
  case h_3 | h_4 =>
    rw [wp_bind, wp_deref]
    refine ⟨fun b current => ?_, fun _ => trivial⟩
    rw [wp_bind]
    apply wp_post (wp_forwardWrote_aside busy apart (aside.current b current) 0)
    intro status u aside
    cases status with
    | some status => exact aside
    | none => exact wp_forwardWriteLoop_aside aside apart
  case h_5 =>
    rw [wp_bind]
    exact wp_post (wp_setForwardLine_aside busy .start) fun _ _ aside => aside

end

/-- What the forward has written of what was queued. -/
structure Advanced (f : FwdId) (seq : Nat) (queue sent : List Byte) (w v : DevState) : Prop where
  parked : Parked w v
  feeds : ∃ rest, sent ++ rest = queue ∧ Feeds f rest v
  fixed : Fixed (fun g => (w.data.forwards g).seq) w.data.listForward w.data.nextForward [] v
  zeroed : ∃ saved, v.rings.items .prepare = some saved ∧ ∀ b ∈ saved, (v.data.bufs b).start = 0
  written : written (.forward f) v.data.acts = written (.forward f) w.data.acts ++ sent

section
variable {f : FwdId} {type seq seq' : Nat} {queue payload rest : List Byte} {w v : DevState}

theorem feeds_of_resumed {l done later : List BufId} {sent : List Byte} {status : CallerStatus}
    (resumed : Resumed (.forward f) l done later sent status w v) (pool : ∃ free, w.rings.items .caches = some free)
    (pfd : (w.data.forwards f).pfd ≠ none) : status = .pending ∧ Feeds f (pending v.data later) v := by
  obtain ⟨_, wrote, waits, ends⟩ := resumed
  obtain ⟨free, pool⟩ := pool
  by_cases none : later = []
  · obtain ⟨status, read⟩ := ends none
    subst none
    refine ⟨status, .resting ⟨wrote.list, ⟨_, wrote.freed free pool⟩, ?_, read⟩⟩
    have same : (v.data.forwards f).pfd = (w.data.forwards f).pfd := wrote.pfd
    rwa [same]
  · obtain ⟨status, suspended⟩ := waits none
    exact ⟨status, .going (.suspended suspended) rfl⟩

/-- The buffer that the forward writes from is on its list. -/
theorem current_sits {l : List BufId} {b : BufId} (going : Going (.forward f) l w)
    (current : (w.data.forwards f).bufWrite.curr = some b) : w.rings.home b = some (.fwdWrite f) := by
  cases going with
  | ready ready =>
    have fresh : (w.data.forwards f).bufWrite.curr = none := ready.fresh f rfl
    cases fresh.symm.trans current
  | suspended suspended =>
    have first : (w.data.forwards f).bufWrite.curr = l.head? := suspended.curr
    exact Rings.home_of_mem suspended.list (List.mem_of_head? (first.symm.trans current))

section
variable {saved : List BufId} (hangs : w.rings.items .prepare = some saved)
include hangs

/-- The parser's buffers are not on the forward's list. -/
theorem parser_apart (awaits : Awaits type seq' payload rest w) :
    ∀ b ∈ saved ++ w.data.bufPrepare.curr.toList, w.rings.home b ≠ some (.fwdWrite f) := by
  intro b member
  rcases List.mem_append.mp member with listed | part
  · rw [Rings.home_of_mem hangs listed]
    simp
  · rw [(awaits.curr_away b (Option.mem_toList.mp part)).2]
    simp

theorem parked_of_aside (aside : Aside f (saved ++ w.data.bufPrepare.curr.toList) (some saved) w.data.bufs w.rings.home v)
    (frame : Frame (forwardParts f) (doing (.forward f)) w v) (pool : ∃ free, v.rings.items .caches = some free) : Parked w v where
  prepare := frame.prepare (by simp [forwardParts])
  sync := (frame.sync (by simp [forwardParts])).1
  list := aside.list.trans hangs.symm
  saved l' found b member := by
    cases hangs.symm.trans found
    exact (aside.same b (List.mem_append_left _ member)).1
  part b current := aside.same b (List.mem_append_right _ (Option.mem_toList.mpr current))
  pool := pool

end

theorem wp_tcpForwardWrite_upstream (upstream : Upstream f seq queue w) (awaits : Awaits type seq' payload rest w)
    (write : (w.data.forwards f).funcRun = .write)
    (fair : ∀ l, w.rings.items (.fwdWrite f) = some l → Fair (offered (.forward f) w.data l) w.data.replies) :
    Wp (tcpForwardWrite f) (fun status v => status = .pending ∧ ∃ sent, Advanced f seq queue sent w v) (fun _ => False) w := by
  obtain ⟨saved, hangs, zero⟩ := upstream.zeroed
  obtain ⟨_, list, same, pfd, pool, _⟩ := feeds_list upstream.feeds
  cases upstream.feeds with
  | resting resting => cases resting.funcRun.symm.trans write
  | @going _ l _ going all =>
    have aside : Aside f (saved ++ w.data.bufPrepare.curr.toList) (some saved) w.data.bufs w.rings.home w :=
      ⟨hangs, fun _ _ => ⟨rfl, rfl⟩, fun _ => current_sits going⟩
    have within : Within (forwardParts f) (doing (.forward f)) (tcpForwardWrite f) := inferInstance
    have sessions : Keeps (Fixed (fun g => (w.data.forwards g).seq) w.data.listForward w.data.nextForward []) (tcpForwardWrite f) :=
      inferInstance
    have writes := wp_tcpForwardWrite going (fair l going.list)
    have stays := wp_tcpForwardWrite_aside aside (parser_apart hangs awaits)
    apply wp_post (wp_and (wp_and (wp_and writes stays) (within.frame w)) (sessions.kept w (fixed_refl w)))
    rintro status v ⟨⟨⟨result, after⟩, frame⟩, fixed⟩
    rcases result with vain | ⟨done, later, sent, resumed⟩
    · obtain ⟨_, none⟩ := vain.http
      cases none
    obtain ⟨status, feeds⟩ := feeds_of_resumed resumed pool pfd
    have freed : ∃ free, v.rings.items .caches = some free := by
      obtain ⟨free, pool⟩ := pool
      exact ⟨_, resumed.wrote.freed free pool⟩
    refine ⟨status, sent, ?_⟩
    constructor
    case parked => exact parked_of_aside hangs after frame freed
    case feeds =>
      refine ⟨_, ?_, feeds⟩
      rw [resumed.wrote.total, ← resumed.split, all]
    case fixed => exact fixed
    case zeroed =>
      refine ⟨saved, after.list, ?_⟩
      intro b member
      rw [(after.same b (List.mem_append_left _ member)).1]
      exact zero b member
    case written => exact resumed.wrote.written

/-- The event loop calls the forward's function, to which the socket answers fairly. -/
theorem wp_serviceForward_upstream (upstream : Upstream f seq queue w) (awaits : Awaits type seq' payload rest w)
    (write : (w.data.forwards f).funcRun = .write)
    (fair : ∀ l, w.rings.items (.fwdWrite f) = some l → Fair (offered (.forward f) w.data l) w.data.replies) :
    Wp (serviceForward f) (fun _ v => Parked w v ∧ ∃ sent left, sent ++ left = queue ∧ Upstream f seq left v ∧
      written (.forward f) v.data.acts = written (.forward f) w.data.acts ++ sent) (fun _ => False) w := by
  have serving : Keeps AllServed (serviceForward f) := inferInstance
  have writes : Wp (serviceForward f) (fun _ v => ∃ sent, Advanced f seq queue sent w v) (fun _ => False) w := by
    rw [serviceForward, wp_bind, runForward, wp_bind, wp_getForward, write]
    apply wp_post (wp_tcpForwardWrite_upstream upstream awaits write fair)
    rintro status v ⟨rfl, sent, advanced⟩
    rw [wp_bind, wp_getForward, wp_setForward]
    obtain ⟨left, split, feeds⟩ := advanced.feeds
    refine ⟨sent, ?_⟩
    constructor
    case parked =>
      exact ⟨advanced.parked.prepare, advanced.parked.sync, advanced.parked.list, advanced.parked.saved, advanced.parked.part, advanced.parked.pool⟩
    case feeds =>
      refine ⟨left, split, feeds.kept ⟨rfl, fun _ _ _ _ => rfl, advanced.parked.pool, ⟨Tunnel.statusAfter .pending, ?_⟩, rfl⟩⟩
      exact update_self _ _ _
    case fixed =>
      refine ⟨?_, advanced.fixed.list, advanced.fixed.count, advanced.fixed.done⟩
      intro g
      by_cases own : g = f
      · subst own
        simp only [HttpMgmt.setForward, update_self]
        exact advanced.fixed.seq g
      · simp only [HttpMgmt.setForward, update_of_ne own]
        exact advanced.fixed.seq g
    case zeroed => exact advanced.zeroed
    case written => exact advanced.written
  apply wp_post (wp_and writes (serving.kept w upstream.all))
  rintro _ v ⟨⟨sent, advanced⟩, all⟩
  obtain ⟨left, split, feeds⟩ := advanced.feeds
  exact ⟨advanced.parked, sent, left, split, ⟨all, serves_of_fixed upstream.serves advanced.fixed, feeds, advanced.zeroed⟩, advanced.written⟩

/-- The poll has something to report for the forward, which is to write. -/
structure Turn (f : FwdId) (slot : Nat) (w : DevState) : Prop where
  revents : (w.data.pollfds slot).revents ≠ 0
  owner : w.data.httpLookup (w.data.pollfds slot).fd = some (.forward f)
  write : (w.data.forwards f).funcRun = .write

/-- What a call of the forward's function leaves behind. -/
structure Stepped (f : FwdId) (seq : Nat) (queue : List Byte) (w v : DevState) : Prop where
  parked : Parked w v
  progress : ∃ sent left, sent ++ left = queue ∧ Upstream f seq left v ∧
    written (.forward f) v.data.acts = written (.forward f) w.data.acts ++ sent

theorem wp_httpMgmtService_upstream {slot : Nat} (upstream : Upstream f seq queue w) (awaits : Awaits type seq' payload rest w)
    (turn : Turn f slot w)
    (fair : ∀ l, w.rings.items (.fwdWrite f) = some l → Fair (offered (.forward f) w.data l) w.data.replies) :
    Wp (httpMgmtService slot) (fun _ v => Stepped f seq queue w v) (fun _ => False) w := by
  have listed : f ∈ w.data.listForward := List.mem_of_find?_eq_some upstream.serves
  rw [httpMgmtService, wp_bind, getPollFd, wp_bind, wp_data, wp_pure, wp_ite, if_neg turn.revents, wp_bind, wp_data, turn.owner]
  simp only
  rw [wp_bind, serviceOwner, wp_bind, wp_data, wp_bind, wp_demand]
  refine ⟨fun _ => ?_, fun unlisted => absurd listed unlisted⟩
  apply wp_post (wp_serviceForward_upstream upstream awaits turn.write fair)
  rintro _ v ⟨parked, sent, left, split, upstream, written⟩
  rw [wp_bind, clearRevents, wp_bind, getPollFd, wp_bind, wp_data, wp_pure, setPollFd, wp_modify]
  obtain ⟨_, _, _, _, pool, _⟩ := feeds_list upstream.feeds
  refine ⟨⟨parked.prepare, parked.sync, parked.list, parked.saved, parked.part, parked.pool⟩, sent, left, split, ?_, written⟩
  exact ⟨upstream.all, upstream.serves, upstream.feeds.kept ⟨rfl, fun _ _ _ _ => rfl, pool, ⟨_, rfl⟩, rfl⟩, upstream.zeroed⟩

/-! The events. -/

/-- The time and the answers of an event do not matter to what is queued. -/
theorem Upstream.at (upstream : Upstream f seq queue w) (o : Occasion) : Upstream f seq queue (DevState.at w o) := by
  obtain ⟨_, _, _, _, pool, _⟩ := feeds_list upstream.feeds
  exact ⟨upstream.all, upstream.serves, upstream.feeds.kept ⟨rfl, fun _ _ _ _ => rfl, pool, ⟨_, rfl⟩, rfl⟩, upstream.zeroed⟩

theorem parked_at (pool : ∃ free, w.rings.items .caches = some free) (o : Occasion) : Parked w (DevState.at w o) :=
  ⟨rfl, rfl, rfl, fun _ _ _ _ => rfl, fun _ _ => ⟨rfl, rfl⟩, pool⟩

theorem Upstream.pool (upstream : Upstream f seq queue w) : ∃ free, w.rings.items .caches = some free := by
  obtain ⟨_, _, _, _, pool, _⟩ := feeds_list upstream.feeds
  exact pool

theorem step_of_wp {o : Occasion} {post : DevState → Prop}
    (wp : Wp (handle o.event) (fun _ v => post v) (fun _ => False) (DevState.at w o)) : ∃ v, step w o = some v ∧ post v := by
  obtain ⟨a, v, ran, holds⟩ := wp_total.mp wp
  refine ⟨v, ?_, holds⟩
  unfold step
  split
  next same =>
    cases same.symm.trans ran
    rfl
  next same => cases same.symm.trans ran

/-- A fragment comes that does not end a frame. -/
theorem step_receive_part {buf : List Byte} (now : Int) (replies : List Reply) (upstream : Upstream f seq queue w)
    (byte : type < 256) (short : seq' < 65536) (full : payload ≠ []) (allowed : payload.length + httpCHeaderLen ≤ httpInMax)
    (awaits : Awaits type seq' payload (buf ++ rest) w) (provided : Provided w) (some_ : buf ≠ []) (small : buf.length < httpBufSize)
    (begins : w.data.syncPrepare = false → httpCHeaderLen ≤ buf.length) (more : rest ≠ []) :
    ∃ v, step w ⟨.receive buf, now, replies⟩ = some v ∧ Upstream f seq queue v ∧ Awaits type seq' payload rest v ∧
      written (.forward f) v.data.acts = written (.forward f) w.data.acts := by
  have same := (parked_at upstream.pool ⟨.receive buf, now, replies⟩).awaits awaits
  have received := wp_receive_part (upstream.at _) byte short full allowed same provided some_ small begins more
  apply step_of_wp
  rw [handle, wp_bind]
  exact wp_post received fun _ _ holds => holds

/-- The fragment comes with which a frame with data for the session ends. -/
theorem step_receive_last {buf : List Byte} (now : Int) (replies : List Reply) (upstream : Upstream f seq queue w)
    (short : seq < 65536) (full : payload ≠ []) (allowed : payload.length + httpCHeaderLen ≤ httpInMax)
    (awaits : Awaits httpCForwardReq seq payload buf w) (provided : Provided w) (some_ : buf ≠ [])
    (small : buf.length < httpBufSize) (begins : w.data.syncPrepare = false → httpCHeaderLen ≤ buf.length) :
    ∃ v, step w ⟨.receive buf, now, replies⟩ = some v ∧ Upstream f seq (queue ++ payload) v ∧ Idle v ∧
      written (.forward f) v.data.acts = written (.forward f) w.data.acts := by
  have same := (parked_at upstream.pool ⟨.receive buf, now, replies⟩).awaits awaits
  have received := wp_receive_last (upstream.at _) short full allowed same provided some_ small begins
  apply step_of_wp
  rw [handle, wp_bind]
  exact wp_post received fun _ _ holds => holds

/-- With the last fragment of any frame the parser is between two frames. -/
theorem step_receive_end {buf : List Byte} {now : Int} {replies : List Reply} (upstream : Upstream f seq queue w)
    (byte : type < 256) (short : seq' < 65536) (full : payload ≠ []) (allowed : payload.length + httpCHeaderLen ≤ httpInMax)
    (awaits : Awaits type seq' payload buf w) (provided : Provided w) (some_ : buf ≠ []) (small : buf.length < httpBufSize)
    (begins : w.data.syncPrepare = false → httpCHeaderLen ≤ buf.length) (moved : step w ⟨.receive buf, now, replies⟩ = some v) :
    v.data.syncPrepare = false ∧ NoCurr v := by
  have same := (parked_at upstream.pool ⟨.receive buf, now, replies⟩).awaits awaits
  rw [← List.append_nil buf] at same
  have processed : Wp (httpMgmtPrepare buf) (fun _ v => v.data.syncPrepare = false ∧ NoCurr v) (fun _ => True)
      (DevState.at w ⟨.receive buf, now, replies⟩) := by
    rw [httpMgmtPrepare, wp_bind]
    apply wp_mono (wp_collect_awaits byte short full allowed same provided some_ small begins) _ fun _ => False.elim
    rintro r u brought
    rw [Brought, if_pos rfl] at brought
    obtain ⟨rfl, saved, collecting⟩ := brought
    rw [wp_bind]
    exact wp_post (wp_prepareProcess collecting.curr) fun _ _ holds => holds
  unfold step at moved
  split at moved
  next u ran =>
    cases moved
    rw [handle] at ran
    apply wp_of_run ran
    rw [wp_bind]
    exact wp_post processed fun _ _ holds => holds
  next => cases moved

/-- The forward is called. -/
theorem step_service {slot : Nat} (now : Int) {replies : List Reply} (upstream : Upstream f seq queue w)
    (awaits : Awaits type seq' payload rest w) (turn : Turn f slot w)
    (fair : ∀ l, w.rings.items (.fwdWrite f) = some l → Fair (offered (.forward f) w.data l) replies) :
    ∃ v, step w ⟨.service slot, now, replies⟩ = some v ∧ Stepped f seq queue w v := by
  let alive : DevState := DevState.alive (DevState.at w ⟨.service slot, now, replies⟩)
  have parked : Parked w alive := ⟨rfl, rfl, rfl, fun _ _ _ _ => rfl, fun _ _ => ⟨rfl, rfl⟩, upstream.pool⟩
  have before : Upstream f seq queue alive :=
    ⟨upstream.all, upstream.serves, upstream.feeds.kept ⟨rfl, fun _ _ _ _ => rfl, upstream.pool, ⟨_, rfl⟩, rfl⟩, upstream.zeroed⟩
  have called := wp_httpMgmtService_upstream before (parked.awaits awaits) ⟨turn.revents, turn.owner, turn.write⟩ fair
  apply step_of_wp
  rw [handle, getPollFd, wp_bind, wp_bind, wp_data, wp_pure, wp_bind, wp_when]
  refine ⟨fun _ => ?_, fun none => absurd turn.revents none⟩
  rw [wp_modify, wp_bind]
  apply wp_post called
  rintro _ v ⟨after, progress⟩
  exact ⟨⟨after.prepare, after.sync, after.list, after.saved, after.part, after.pool⟩, progress⟩

end

end WebTunnel.Device.Feeding
