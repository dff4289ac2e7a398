import WebTunnel.Device.Chunks
import WebTunnel.Device.Pool

/-! The decoding of a chunked response where it lies: where the decoder stands between the
buffers, and what one round of its loop makes of the bytes that are still to be read. -/

namespace WebTunnel.Device.Decoding
open Library.Bytes Library.Lists Library.Routines Library.Routines.Routine Function Device.Types Buffers Parsing Http
open Pool Chunks

/-- Where the decoder stands: the buffer it reads and the one it collects bytes in, the buffers
behind the former, those that are filled, those of the pool, and how many it has left behind. -/
structure Place where
  b : BufId
  last : BufId
  todo : List BufId
  done : List BufId
  free : List BufId
  passed : Nat
  offset : Nat
  lastI : Nat

/-- The buffer is not lost: the decoder has it, or it hangs on a list. -/
def Around (c : CtxId) (p : Place) (R : Rings BufHead BufId) (b : BufId) : Prop :=
  b = p.b ∨ b = p.last ∨ R.home b = some (.readTodo c) ∨ R.home b = some .caches ∨ R.home b = some .chunk

/-- The buffers at a place of the decoder that began with `k` buffers in the pool. It has never
collected more than it has read, and collects in the first buffer while it reads that one only. -/
structure Stands (c : CtxId) (k : Nat) (S : List BufId) (p : Place) (w : DevState) : Prop where
  todo : w.rings.items (.readTodo c) = some p.todo
  done : w.rings.items .chunk = some p.done
  free : w.rings.items .caches = some p.free
  away : w.rings.home p.b = none
  awayLast : w.rings.home p.last = none
  same : p.last = p.b ↔ p.passed = 0
  sizes : ∀ b ∈ p.b :: p.todo, 0 < (w.data.bufs b).len ∧ (w.data.bufs b).len ≤ httpBufSize
  inside : (p.offset : Int) ≤ (w.data.bufs p.b).len
  count : p.free.length + p.done.length = k + (p.passed - 1)
  room : httpBufSize * p.done.length + p.lastI ≤ httpBufSize * p.passed + p.offset
  kept : ∀ b ∈ S, Around c p w.rings b

/-- The decoder's variables at a place, with `n` bytes collected. -/
structure Tracks (p : Place) (n : Nat) (v : Decoder) : Prop where
  bufInfo : v.bufInfo = some p.b
  lastBuf : v.lastBuf = some p.last
  offset : v.offset = p.offset
  lastI : v.lastI = p.lastI
  fits : p.lastI ≤ httpBufSize
  newTotal : v.newTotal = n
  splice : v.splice = true
  rc : 0 < v.rc

/-- Fewer bytes are collected than were read. -/
def Place.Behind (p : Place) : Prop :=
  httpBufSize * p.done.length + p.lastI < httpBufSize * p.passed + p.offset

/-- What the decoder is about to read, as it stands in its variables. -/
def Reads (p : Place) (v : Decoder) : Reader → Prop
  | .line chars => v.state = .begin ∧ v.j = chars.length ∧ v.chunkStr.take chars.length = chars ∧
      chars.length < httpChunkMax
  | .linefeed chars => v.state = .lrln ∧ v.chunkStr = chars
  | .data left => v.state = .getSize ∧ (∃ size : Nat, v.chunkSize = some (size : Int) ∧ v.j + left = size) ∧ p.Behind

def collected (p : Place) (d : HttpMgmt) : List Byte :=
  (contents d p.done).flatten ++ (d.bufs p.last).buf.slice 0 p.lastI

/-- What is left in the buffer that is read. -/
def unread (p : Place) (d : HttpMgmt) : List Byte :=
  (d.bufs p.b).buf.slice p.offset ((d.bufs p.b).len.toNat - p.offset)

def remaining (p : Place) (d : HttpMgmt) : List Byte := unread p d ++ (contents d p.todo).flatten

/-- All that will be collected, and how it ends. -/
def ahead (r : Reader) (p : Place) (d : HttpMgmt) : List Byte × Verdict :=
  (collected p d ++ (decodeBytes r (remaining p d)).1, (decodeBytes r (remaining p d)).2)

section
variable {c : CtxId} {k n : Nat} {S : List BufId} {p : Place} {v : Decoder} {w : DevState} {r : Reader}

theorem Stands.not_todo (stands : Stands c k S p w) : p.b ∉ p.todo ∧ p.last ∉ p.todo :=
  ⟨Rings.not_mem_of_home (by rw [stands.away]; simp) stands.todo,
    Rings.not_mem_of_home (by rw [stands.awayLast]; simp) stands.todo⟩

theorem Stands.not_done (stands : Stands c k S p w) : p.b ∉ p.done ∧ p.last ∉ p.done :=
  ⟨Rings.not_mem_of_home (by rw [stands.away]; simp) stands.done,
    Rings.not_mem_of_home (by rw [stands.awayLast]; simp) stands.done⟩

theorem Stands.len (stands : Stands c k S p w) : ((w.data.bufs p.b).len.toNat : Int) = (w.data.bufs p.b).len :=
  Int.toNat_of_nonneg (stands.sizes p.b List.mem_cons_self).1.le

/-! On to the next buffer. -/

/-- The buffers of the pool when the one that was read is left behind. -/
def Place.left (p : Place) : List BufId := if p.b = p.last then p.free else p.b :: p.free

/-- The place at the beginning of the next buffer. -/
def Place.next (p : Place) (b : BufId) (rest : List BufId) : Place :=
  { p with b, todo := rest, free := p.left, passed := p.passed + 1, offset := 0 }

/-- The lists when the buffer that was read is left behind. -/
structure Left (c : CtxId) (p : Place) (R R' : Rings BufHead BufId) : Prop where
  items : R'.items = update R.items .caches (some p.left)
  others : ∀ b, b ≠ p.b → R'.home b = R.home b
  freed : p.b ≠ p.last → R'.home p.b = some .caches
  held : p.b = p.last → R'.home p.b = none

theorem wp_leave {err : Fault → Prop} {post : Unit → DevState → Prop} (stands : Stands c k S p w)
    (bufInfo : v.bufInfo = some p.b) (lastBuf : v.lastBuf = some p.last)
    (next : ∀ R, Left c p w.rings R → post () { w with rings := R }) :
    Wp (when (v.bufInfo ≠ v.lastBuf) do freeBuf v.bufInfo) post err w := by
  rw [wp_when, bufInfo, lastBuf]
  refine ⟨fun other => ?_, fun same => ?_⟩
  · have apart : p.b ≠ p.last := fun same => other (congrArg some same)
    refine wp_freeBuf_of_free stands.free stands.away fun R items home => next R ⟨?_, fun b' other => ?_, fun _ => ?_, ?_⟩
    · rw [items, Place.left, if_neg apart]
    · rw [home, update_of_ne other]
    · rw [home, update_self]
    · exact fun same => absurd same apart
  · have here : p.b = p.last := Option.some.inj (not_not.mp same)
    refine next w.rings ⟨?_, fun _ _ => rfl, fun apart => absurd here apart, fun _ => stands.away⟩
    rw [Place.left, if_pos here, ← stands.free, update_eq_self]

theorem wp_nextChunkBuf {err : Fault → Prop} {post : Option BufId → DevState → Prop} (stands : Stands c k S p w)
    (bufInfo : v.bufInfo = some p.b) (lastBuf : v.lastBuf = some p.last)
    (next : ∀ R, Left c p w.rings R → post p.todo.head? { w with rings := R }) : Wp (nextChunkBuf c v) post err w := by
  rw [nextChunkBuf, wp_bind]
  refine wp_leave stands bufInfo lastBuf fun R left => ?_
  have found : R.items (.readTodo c) = some p.todo := by
    rw [left.items, update_of_ne (by simp), stands.todo]
  refine (wp_head _ _).mpr ⟨fun l same => ?_, fun none => by cases found.symm.trans none⟩
  cases found.symm.trans same
  exact next R left

theorem Stands.next {b : BufId} {rest : List BufId} {R R' : Rings BufHead BufId} (stands : Stands c k S p w)
    (all : (p.offset : Int) = (w.data.bufs p.b).len) (more : p.todo = b :: rest) (left : Left c p w.rings R)
    (items : R'.items = update R.items (.readTodo c) (some rest)) (home : R'.home = update R.home b none) :
    Stands c k S (p.next b rest) { w with rings := R' } := by
  have member : b ∈ p.todo := more ▸ List.mem_cons_self
  have apart : p.b ≠ b := fun same => stands.not_todo.1 (same ▸ member)
  have apartLast : p.last ≠ b := fun same => stands.not_todo.2 (same ▸ member)
  have size := stands.sizes p.b List.mem_cons_self
  constructor
  case todo => rw [items, update_self]; rfl
  case done => rw [items, update_of_ne (by simp), left.items, update_of_ne (by simp), stands.done]; rfl
  case free => rw [items, update_of_ne (by simp), left.items, update_self]; rfl
  case away => rw [home]; exact update_self _ _ _
  case awayLast =>
    change R'.home p.last = none
    rw [home, update_of_ne apartLast]
    by_cases here : p.b = p.last
    · rw [← here, left.held here]
    · rw [left.others _ (Ne.symm here), stands.awayLast]
  case same => exact ⟨fun same => absurd same apartLast, by rintro ⟨⟩⟩
  case sizes =>
    intro b' member'
    refine stands.sizes b' (List.mem_cons_of_mem _ ?_)
    rw [more]
    exact member'
  case inside =>
    have first := stands.sizes b (List.mem_cons_of_mem _ member)
    exact first.1.le
  case count =>
    have count := stands.count
    have same := stands.same
    simp only [Place.next, Place.left]
    split
    next here =>
      have first := same.mp here.symm
      omega
    next away =>
      have later : p.passed ≠ 0 := fun first => away (same.mpr first).symm
      rw [List.length_cons]
      omega
  case room =>
    have room := stands.room
    have inside := stands.inside
    simp only [Place.next, httpBufSize] at *
    omega
  case kept =>
    intro b' member'
    by_cases now : b' = b
    · exact .inl now
    · change _ ∨ _ ∨ R'.home b' = _ ∨ R'.home b' = _ ∨ R'.home b' = _
      rw [home, update_of_ne now]
      by_cases old : b' = p.b
      · by_cases here : p.b = p.last
        · exact .inr (.inl (old.trans here))
        · rw [old, left.freed here]
          exact .inr (.inr (.inr (.inl rfl)))
      · rw [left.others b' old]
        rcases stands.kept b' member' with same | same | sits
        · exact absurd same old
        · exact .inr (.inl same)
        · exact .inr (.inr sits)

theorem Tracks.next {b : BufId} {rest : List BufId} {v' : Decoder} (tracks : Tracks p n v) (bufInfo : v'.bufInfo = some b)
    (offset : v'.offset = 0) (same : v'.lastBuf = v.lastBuf ∧ v'.lastI = v.lastI ∧ v'.newTotal = v.newTotal ∧
      v'.splice = v.splice ∧ v'.rc = v.rc) : Tracks (p.next b rest) n v' where
  bufInfo := bufInfo
  lastBuf := same.1.trans tracks.lastBuf
  offset := offset
  lastI := same.2.1.trans tracks.lastI
  fits := tracks.fits
  newTotal := same.2.2.1.trans tracks.newTotal
  splice := same.2.2.2.1.trans tracks.splice
  rc := same.2.2.2.2 ▸ tracks.rc

theorem wp_listDel_next {err : Fault → Prop} {post : Unit → DevState → Prop} {b : BufId} {rest : List BufId}
    {R : Rings BufHead BufId} (stands : Stands c k S p w) (all : (p.offset : Int) = (w.data.bufs p.b).len)
    (more : p.todo = b :: rest) (left : Left c p w.rings R)
    (next : ∀ R', Stands c k S (p.next b rest) { w with rings := R' } → post () { w with rings := R' }) :
    Wp (listDel b) post err { w with rings := R } := by
  have found : R.items (.readTodo c) = some (b :: rest) := by
    rw [left.items, update_of_ne (by simp), stands.todo, more]
  refine wp_del_of_home (w := { w with rings := R }) found (Rings.home_of_mem found List.mem_cons_self)
    fun R' items home => next R' (stands.next all more left ?_ home)
  rw [items, List.erase_cons_head]

theorem remaining_next {b : BufId} {rest : List BufId} {d : HttpMgmt} (all : (p.offset : Int) = (d.bufs p.b).len)
    (more : p.todo = b :: rest) : remaining (p.next b rest) d = remaining p d := by
  have none : (d.bufs p.b).len.toNat - p.offset = 0 := by omega
  rw [remaining, remaining, unread, unread, none, more]
  simp [Place.next, contents, Mem.slice]

theorem remaining_end {d : HttpMgmt} (all : (p.offset : Int) = (d.bufs p.b).len) (none : p.todo = []) :
    remaining p d = [] := by
  have nothing : (d.bufs p.b).len.toNat - p.offset = 0 := by omega
  rw [remaining, unread, nothing, none]
  simp [contents, Mem.slice]

theorem ahead_next {b : BufId} {rest : List BufId} {d : HttpMgmt} (all : (p.offset : Int) = (d.bufs p.b).len)
    (more : p.todo = b :: rest) : ahead r (p.next b rest) d = ahead r p d := by
  rw [ahead, ahead, remaining_next all more]
  rfl

theorem Stands.next_ne {b : BufId} {rest : List BufId} (stands : Stands c k S p w) (more : p.todo = b :: rest) : b ≠ p.b :=
  fun same => stands.not_todo.1 (by rw [more, same]; exact List.mem_cons_self)

end

/-! What one round comes to. -/

/-- The decoder at a place, with what it has collected there. -/
structure At (c : CtxId) (k : Nat) (S : List BufId) (r : Reader) (p : Place) (v : Decoder) (w : DevState) : Prop where
  stands : Stands c k S p w
  tracks : Tracks p (collected p w.data).length v
  reads : Reads p v r

/-- A chunk may end in a round that takes nothing. -/
def ending : Reader → Nat
  | .data _ => 1
  | .line _ | .linefeed _ => 0

/-- A bound on the rounds that are left. -/
def effort (r : Reader) (p : Place) (d : HttpMgmt) : Nat :=
  2 * (remaining p d).length + 2 * p.todo.length + ending r

/-- What was collected has become the response, and no buffer is lost. -/
structure Decoded (c : CtxId) (S : List BufId) (out : List Byte) (w : DevState) : Prop where
  result : ∃ l free, w.rings.items (.readTodo c) = some l ∧ w.rings.items .caches = some free ∧
    (contents w.data l).flatten = out ∧ ∀ b ∈ S, b ∈ l ∨ b ∈ free
  len : (w.data.ctxs c).bufRead.len = out.length

/-- The decoder is about to copy a negative number of bytes. -/
def Stuck (c : CtxId) (k : Nat) (S : List BufId) (v : Decoder) (w : DevState) : Prop :=
  ∃ p n size, Stands c k S p w ∧ Tracks p n v ∧ v.state = .getSize ∧ v.chunkSize = some size ∧ size < 0 ∧ v.j = 0

/-- The round has taken input, or the state is another one. -/
def Moved (v v' : Decoder) : Prop := v'.state ≠ v.state ∨ v'.bufInfo ≠ v.bufInfo ∨ v.offset < v'.offset

/-- Behind a line with which a chunk begins its size is known. -/
def Parsed (v v' : Decoder) : Prop := v.state = .lrln → v'.state = .getSize → (sscanfHex v.chunkStr).isSome

/-- What one round of the loop comes to, where all that will be collected and how it ends were
as given before it. -/
inductive Outcome (c : CtxId) (k : Nat) (S : List BufId) (all : List Byte × Verdict) (left : Nat) (v : Decoder)
    (v' : Decoder) (w : DevState) : Prop where
  | further (r : Reader) (p : Place) (here : At c k S r p v' w) (same : ahead r p w.data = all)
      (less : effort r p w.data < left) (moved : Moved v v') (parsed : Parsed v v')
  | finished (rc : v'.rc = 0) (verdict : all.2 = .finished) (decoded : Decoded c S all.1 w) (parsed : Parsed v v')
  | refused (rc : v'.rc < 0) (verdict : all.2 = .refused) (same : v'.state = v.state) (freed : Wp (abandon v') (fun _ _ => True) (fun _ => False) w)
  | unparsed (verdict : all.2 = .stray) (line : v.state = .lrln ∧ v'.state = .getSize) (none : sscanfHex v.chunkStr = none)
  | stuck (verdict : all.2 = .stray) (stuck : Stuck c k S v' w)

/-! Giving up. -/

section
variable {c : CtxId} {k n : Nat} {S : List BufId} {p : Place} {v : Decoder} {w : DevState} {r : Reader}

/-- The buffers that are left when the decoder gives up: the one that is collected in, the one that
is read unless it has been freed, and those that are filled. -/
theorem wp_abandon {b : Option BufId} {done free : List BufId} {last : BufId} (splice : v.splice = true) (bufInfo : v.bufInfo = b)
    (lastBuf : v.lastBuf = some last) (hangs : w.rings.items .chunk = some done) (pool : w.rings.items .caches = some free)
    (awayLast : w.rings.home last = none) (away : ∀ b' ∈ b, w.rings.home b' = none) :
    Wp (abandon v) (fun _ _ => True) (fun _ => False) w := by
  rw [abandon, wp_bind, lastBuf, bufInfo, splice]
  refine wp_freeBuf_of_free pool awayLast fun R items home => ?_
  have chunk : R.items .chunk = some done := by rw [items, update_of_ne (by simp), hangs]
  have caches : R.items .caches = some (last :: free) := by rw [items, update_self]
  rw [wp_bind, wp_when]
  have spliced (R' : Rings BufHead BufId) (free' : List BufId) (chunk : R'.items .chunk = some done)
      (caches : R'.items .caches = some free') :
      Wp (when (true = true) do listSplice .chunk .caches) (fun _ _ => True) (fun _ => False) { w with rings := R' } := by
    rw [wp_when]
    refine ⟨fun _ => ?_, fun no => absurd rfl no⟩
    obtain ⟨R'', ran, _⟩ := Rings.splice_of_found (by simp) chunk caches
    exact wp_perform_of_done (w := { w with rings := R' }) ran trivial
  refine ⟨fun other => ?_, fun _ => spliced R _ chunk caches⟩
  cases b with
  | none => exact spliced R _ chunk caches
  | some b =>
    have apart : b ≠ last := fun same => other (congrArg some same)
    have unhung : R.home b = none := by rw [home, update_of_ne apart, away b rfl]
    refine wp_freeBuf_of_free (w := { w with rings := R }) caches unhung fun R' items' _ => ?_
    refine spliced R' (b :: last :: free) ?_ ?_
    · rw [items', update_of_ne (by simp), chunk]
    · rw [items', update_self]

theorem Stands.wp_abandon {v' : Decoder} (stands : Stands c k S p w) (tracks : Tracks p n v)
    (same : v'.bufInfo = v.bufInfo ∧ v'.lastBuf = v.lastBuf ∧ v'.splice = v.splice) :
    Wp (abandon v') (fun _ _ => True) (fun _ => False) w := by
  refine Decoding.wp_abandon (same.2.2.trans tracks.splice) (same.1.trans tracks.bufInfo) (same.2.1.trans tracks.lastBuf)
    stands.done stands.free stands.awayLast fun b' same => ?_
  cases same
  exact stands.away

/-- There is no buffer behind the one that was left. -/
theorem Left.wp_abandon {R : Rings BufHead BufId} (left : Left c p w.rings R) (stands : Stands c k S p w)
    (none : v.bufInfo = none) (lastBuf : v.lastBuf = some p.last) (splice : v.splice = true) :
    Wp (abandon v) (fun _ _ => True) (fun _ => False) { w with rings := R } := by
  have hangs : R.items .chunk = some p.done := by rw [left.items, update_of_ne (by simp), stands.done]
  have pool : R.items .caches = some p.left := by rw [left.items, update_self]
  refine Decoding.wp_abandon (w := { w with rings := R }) splice none lastBuf hangs pool ?_ (by simp)
  · by_cases here : p.b = p.last
    · rw [← here, left.held here]
    · rw [left.others _ (Ne.symm here), stands.awayLast]

/-! A size line. -/

theorem wp_current {err : Fault → Prop} {post : BufId × BufInfo → DevState → Prop} (tracks : Tracks p n v)
    (next : post (p.b, w.data.bufs p.b) w) : Wp (current v) post err w := by
  rw [current, wp_bind, wp_deref, tracks.bufInfo]
  refine ⟨fun b same => ?_, by simp⟩
  cases same
  exact next

theorem Stands.unread_length (stands : Stands c k S p w) :
    ((unread p w.data).length : Int) = (w.data.bufs p.b).len - p.offset := by
  have inside := stands.inside
  have size := stands.len
  rw [unread, Mem.slice_length]
  omega

theorem wp_unread {err : Fault → Prop} {post : List Byte → DevState → Prop} (stands : Stands c k S p w) (tracks : Tracks p n v)
    (next : post (unread p w.data) w) :
    Wp (if v.offset < (w.data.bufs p.b).len then bytesAt p.b v.offset ((w.data.bufs p.b).len - v.offset) else pure []) post err w := by
  have inside := stands.inside
  have size := stands.sizes p.b List.mem_cons_self
  have same : ((w.data.bufs p.b).len - p.offset).toNat = (w.data.bufs p.b).len.toNat - p.offset := by omega
  rw [tracks.offset, wp_ite]
  split
  next more =>
    refine (wp_bytesAt _ _ _ _).mpr ⟨fun _ => ?_, fun outside => absurd ⟨Int.natCast_nonneg _, by omega, ?_⟩ outside⟩
    · rw [same, Int.toNat_natCast]
      exact next
    · simp only [bufRoom]
      omega
  next none =>
    have nothing : unread p w.data = [] := List.eq_nil_of_length_eq_zero (by rw [unread, Mem.slice_length]; omega)
    rw [nothing] at next
    exact next

/-- Further on in the buffer that is read. -/
def Place.skip (p : Place) (m : Nat) : Place := { p with offset := p.offset + m }

theorem Stands.skip {m : Nat} (stands : Stands c k S p w) (within : ((p.offset + m : Nat) : Int) ≤ (w.data.bufs p.b).len) :
    Stands c k S (p.skip m) w :=
  { stands with inside := within, room := stands.room.trans (by simp only [Place.skip]; omega) }

theorem Tracks.skip {m : Nat} {v' : Decoder} (tracks : Tracks p n v) (offset : v'.offset = v.offset + m)
    (same : v'.bufInfo = v.bufInfo ∧ v'.lastBuf = v.lastBuf ∧ v'.lastI = v.lastI ∧ v'.newTotal = v.newTotal ∧
      v'.splice = v.splice ∧ v'.rc = v.rc) : Tracks (p.skip m) n v' where
  bufInfo := same.1.trans tracks.bufInfo
  lastBuf := same.2.1.trans tracks.lastBuf
  offset := by rw [offset, tracks.offset]; rfl
  lastI := same.2.2.1.trans tracks.lastI
  fits := tracks.fits
  newTotal := same.2.2.2.1.trans tracks.newTotal
  splice := same.2.2.2.2.1.trans tracks.splice
  rc := same.2.2.2.2.2 ▸ tracks.rc

theorem unread_skip {d : HttpMgmt} {m : Nat} (within : p.offset + m ≤ (d.bufs p.b).len.toNat) :
    unread p d = (d.bufs p.b).buf.slice p.offset m ++ unread (p.skip m) d := by
  have parts : (d.bufs p.b).len.toNat - p.offset = m + ((d.bufs p.b).len.toNat - (p.offset + m)) := by omega
  rw [unread, parts, Mem.slice_add]
  rfl

theorem remaining_skip {front rest : List Byte} {d : HttpMgmt} (split : unread p d = front ++ rest) :
    remaining p d = front ++ remaining (p.skip front.length) d := by
  have length := congrArg List.length split
  rw [unread, Mem.slice_length, List.length_append] at length
  by_cases none : front.length = 0
  · obtain rfl := List.eq_nil_of_length_eq_zero none
    rfl
  have both := unread_skip (d := d) (p := p) (m := front.length) (by omega)
  have ends := (List.append_inj (split.symm.trans both) (by rw [Mem.slice_length])).2
  rw [remaining, remaining, split, ends, List.append_assoc]
  rfl

/-- What lies before a carriage return, as far as there is room for it. -/
theorem scanSize_eq (bytes : List Byte) {j : Nat} (str : List Byte) (most : j ≤ httpChunkMax) : ∃ count,
    scanSize bytes j str = (count, j + count, str ++ bytes.take count) ∧ cr ∉ bytes.take count ∧
      j + count ≤ httpChunkMax ∧ count ≤ bytes.length ∧
      (j + count = httpChunkMax ∨ count = bytes.length ∨ ∃ rest, bytes = bytes.take count ++ cr :: rest) := by
  induction bytes generalizing j str with
  | nil => exact ⟨0, by simp [scanSize], by simp, most, le_rfl, .inr (.inl rfl)⟩
  | cons b rest ih =>
    rw [scanSize]
    by_cases stop : httpChunkMax ≤ j ∨ b = 0x0d
    · rw [if_pos stop]
      refine ⟨0, by simp, by simp, most, Nat.zero_le _, ?_⟩
      rcases stop with full | found
      · exact .inl (le_antisymm most full)
      · exact .inr (.inr ⟨rest, by rw [List.take_zero, List.nil_append, found]; rfl⟩)
    · rw [if_neg stop]
      obtain ⟨more, other⟩ := not_or.mp stop
      obtain ⟨count, same, before, within, inside, ends⟩ := @ih (j + 1) (str ++ [b]) (by omega)
      refine ⟨count + 1, ?_, ?_, by omega, Nat.succ_le_succ inside, ?_⟩
      · rw [same, List.take_succ_cons, List.append_assoc, List.singleton_append, Nat.add_assoc, Nat.add_comm 1]
      · rw [List.take_succ_cons]
        exact fun member => (List.mem_cons.mp member).elim (fun same => other same.symm) before
      · rcases ends with full | whole | ⟨rest', found⟩
        · exact .inl (by omega)
        · exact .inr (.inl (by rw [List.length_cons, whole]))
        · exact .inr (.inr ⟨rest', by rw [List.take_succ_cons, List.cons_append, ← found]⟩)

/-- Bytes that are passed over, of which nothing is collected. -/
theorem ahead_skip {r' : Reader} {front rest : List Byte} {d : HttpMgmt} (split : unread p d = front ++ rest)
    (reads : ∀ rest, decodeBytes r (front ++ rest) = decodeBytes r' rest) : ahead r' (p.skip front.length) d = ahead r p d := by
  rw [ahead, ahead, remaining_skip split, reads]
  rfl

theorem effort_skip {front rest : List Byte} {d : HttpMgmt} (split : unread p d = front ++ rest) :
    effort r p d = 2 * front.length + effort r (p.skip front.length) d := by
  rw [effort, effort, remaining_skip split, List.length_append, Nat.mul_add, Nat.add_assoc, Nat.add_assoc, Nat.add_assoc]
  rfl

theorem effort_next {b : BufId} {rest : List BufId} {d : HttpMgmt} (all : (p.offset : Int) = (d.bufs p.b).len)
    (more : p.todo = b :: rest) : effort r p d = effort r (p.next b rest) d + 2 := by
  rw [effort, effort, remaining_next all more, more, List.length_cons]
  simp only [Place.next]
  ring

theorem begin_round {chars : List Byte} (here : At c k S (.line chars) p v w) :
    Wp (chunkBegin c v) (Outcome c k S (ahead (.line chars) p w.data) (effort (.line chars) p w.data) v) (fun _ => False) w := by
  obtain ⟨state, j, str, short⟩ := here.reads
  have tracks := here.tracks
  have size := here.stands.unread_length
  rw [chunkBegin, wp_bind]
  refine wp_current tracks ?_
  rw [wp_bind]
  refine wp_unread here.stands tracks ?_
  obtain ⟨count, scanned, before, within, inside, ends⟩ := scanSize_eq (unread p w.data) chars short.le
  rw [j, Int.toNat_natCast, str, scanned]
  dsimp only
  have taken : ((unread p w.data).take count).length = count := List.length_take_of_le inside
  rw [wp_ite]
  split
  next full =>
    rw [wp_bind, wp_getCtx, wp_bind, wp_setCtx, wp_pure]
    refine .refused (show (-1 : Int) < 0 by decide) ?_ rfl ?_
    · have long : httpChunkMax ≤ chars.length + ((unread p w.data).take count).length := by
        rw [taken]
        exact_mod_cast full.ge
      have refused (rest : List Byte) : decodeBytes (.line chars) ((unread p w.data).take count ++ rest) = ([], .refused) :=
        decode_long_line before short long
      rw [ahead, remaining, ← List.take_append_drop count (unread p w.data), List.append_assoc]
      rw [refused]
    · exact wp_abandon tracks.splice tracks.bufInfo tracks.lastBuf here.stands.done here.stands.free
        here.stands.awayLast fun b same => by cases same; exact here.stands.away
  next partly =>
    have room : chars.length + count < httpChunkMax := by
      have other : chars.length + count ≠ httpChunkMax := fun same => partly (by exact_mod_cast same)
      omega
    rw [tracks.offset, wp_ite]
    split
    next whole =>
      have all : count = (unread p w.data).length := by omega
      have passed : unread p w.data = unread p w.data ++ [] := (List.append_nil _).symm
      have reads (rest : List Byte) : decodeBytes (.line chars) (unread p w.data ++ rest) =
          decodeBytes (.line (chars ++ unread p w.data)) rest := by
        rw [all, List.take_length] at before
        exact decode_line before (by omega)
      have further : ((p.skip (unread p w.data).length).offset : Int) = (w.data.bufs p.b).len := by
        simp only [Place.skip]
        omega
      have stands := here.stands.skip further.le
      have same := ahead_skip passed reads
      rw [wp_bind]
      refine wp_nextChunkBuf stands tracks.bufInfo tracks.lastBuf fun R left => ?_
      rw [show (p.skip (unread p w.data).length).todo = p.todo from rfl]
      cases more : p.todo with
      | nil =>
        rw [List.head?_nil, wp_pure]
        refine .refused (show (-1 : Int) < 0 by decide) ?_ rfl (left.wp_abandon stands rfl tracks.lastBuf tracks.splice)
        rw [← same, ahead, remaining_end further more]
        rfl
      | cons next rest =>
        rw [List.head?_cons, wp_bind]
        refine wp_listDel_next stands further more left fun R' stands' => ?_
        refine .further (.line (chars ++ unread p w.data)) (p.next next rest) ⟨stands', tracks.next rfl rfl ⟨rfl, rfl, rfl, rfl, rfl⟩, ?_⟩
          ((ahead_next further more).trans same) ?_ (.inr (.inl ?_)) fun now => by cases state.symm.trans now
        · refine ⟨state, ?_, ?_, ?_⟩
          · rw [List.length_append, all]
          · rw [all, List.take_length, List.take_of_length_le le_rfl]
          · rw [List.length_append, ← all]
            exact room
        · rw [effort_skip passed, effort_next further more]
          exact Nat.lt_of_lt_of_le (Nat.lt_add_of_pos_right (by decide)) (Nat.le_add_left _ _)
        · change some next ≠ v.bufInfo
          rw [tracks.bufInfo]
          exact fun same => here.stands.next_ne more (Option.some.inj same)
    next more =>
      obtain ⟨rest, found⟩ : ∃ rest, unread p w.data = (unread p w.data).take count ++ cr :: rest := by
        rcases ends with full | whole | found
        · exact absurd full room.ne
        · exact absurd (by omega) more
        · exact found
      have split : unread p w.data = ((unread p w.data).take count ++ [cr]) ++ rest := by
        rw [List.append_assoc, List.singleton_append, ← found]
      have length : ((unread p w.data).take count ++ [cr]).length = count + 1 := by rw [List.length_append, taken, List.length_singleton]
      have reads (rest : List Byte) : decodeBytes (.line chars) (((unread p w.data).take count ++ [cr]) ++ rest) =
          decodeBytes (.linefeed (chars ++ (unread p w.data).take count)) rest := by
        rw [List.append_assoc, decode_line before (by omega)]
        exact decode_cr
      have same := ahead_skip split reads
      have fewer := effort_skip (r := .line chars) split
      rw [length] at same fewer
      have total := congrArg List.length split
      rw [List.length_append, length] at total
      refine .further (.linefeed _) (p.skip (count + 1)) ⟨here.stands.skip ?_, ?_, rfl, rfl⟩ same ?_ (.inl ?_)
        fun now => by cases state.symm.trans now
      · omega
      · exact tracks.skip (by simp only [tracks.offset]; push_cast; ring) ⟨rfl, rfl, rfl, rfl, rfl, rfl⟩
      · rw [fewer]
        exact Nat.lt_add_of_pos_left (by omega)
      · rw [state]
        simp

/-! Behind a size line. -/

/-- The lists when the buffer that was collected in has gone to those that are filled. -/
structure Gathered (c : CtxId) (S : List BufId) (out : List Byte) (w : DevState) : Prop where
  lists : ∃ l free todo, w.rings.items .chunk = some l ∧ w.rings.items .caches = some free ∧
    w.rings.items (.readTodo c) = some todo ∧ (contents w.data l).flatten = out
  kept : ∀ b ∈ S, w.rings.home b = some (.readTodo c) ∨ w.rings.home b = some .caches ∨ w.rings.home b = some .chunk

theorem Left.kept {R : Rings BufHead BufId} (left : Left c p w.rings R) (stands : Stands c k S p w) {b : BufId}
    (member : b ∈ S) (other : b ≠ p.last) :
    R.home b = some (.readTodo c) ∨ R.home b = some .caches ∨ R.home b = some .chunk := by
  rcases stands.kept b member with same | same | sits
  · exact .inr (.inl (same ▸ left.freed fun here => other (same.trans here)))
  · exact absurd same other
  · have away : b ≠ p.b := by
      rintro rfl
      rw [stands.away] at sits
      rcases sits with sits | sits | sits <;> cases sits
    rw [left.others b away]
    exact sits

theorem Left.last {R : Rings BufHead BufId} (left : Left c p w.rings R) (stands : Stands c k S p w) : R.home p.last = none := by
  by_cases here : p.b = p.last
  · rw [← here, left.held here]
  · rw [left.others _ (Ne.symm here), stands.awayLast]

theorem wp_keepLast {err : Fault → Prop} {R : Rings BufHead BufId} (stands : Stands c k S p w) (tracks : Tracks p n v)
    (left : Left c p w.rings R) :
    Wp (keepLast v) (fun _ u => Gathered c S (collected p w.data) u) err { w with rings := R } := by
  have chunk : R.items .chunk = some p.done := by rw [left.items, update_of_ne (by simp), stands.done]
  have caches : R.items .caches = some p.left := by rw [left.items, update_self]
  have todo : R.items (.readTodo c) = some p.todo := by rw [left.items, update_of_ne (by simp), stands.todo]
  have away := left.last stands
  rw [keepLast, wp_bind, wp_deref, tracks.lastBuf]
  refine ⟨fun last same => ?_, by simp⟩
  cases same
  rw [tracks.lastI, wp_ite]
  split
  next some =>
    rw [wp_bind, wp_getBuf, wp_bind, wp_setBuf]
    refine wp_addTail_of_free (w := ⟨_, R⟩) chunk away fun R' items home =>
      ⟨⟨p.done ++ [p.last], p.left, p.todo, ?_, ?_, ?_, ?_⟩, fun b member => ?_⟩
    · rw [items, update_self]
    · rw [items, update_of_ne (by simp), caches]
    · rw [items, update_of_ne (by simp), todo]
    · have others (b : BufId) (member : b ∈ p.done) : b ≠ p.last := fun same => stands.not_done.2 (same ▸ member)
      have earlier : contents (w.data.setBuf p.last ⟨(w.data.bufs p.last).buf, (w.data.bufs p.last).start, p.lastI, p.lastI⟩)
          p.done = contents w.data p.done :=
        List.map_congr_left fun b member => by simp only [HttpMgmt.setBuf, update_of_ne (others b member)]
      have now : contents (w.data.setBuf p.last ⟨(w.data.bufs p.last).buf, (w.data.bufs p.last).start, p.lastI, p.lastI⟩)
          [p.last] = [(w.data.bufs p.last).buf.slice 0 p.lastI] := by
        simp [contents, HttpMgmt.setBuf]
      have both : contents (w.data.setBuf p.last ⟨(w.data.bufs p.last).buf, (w.data.bufs p.last).start, p.lastI, p.lastI⟩)
          (p.done ++ [p.last]) = contents w.data p.done ++ [(w.data.bufs p.last).buf.slice 0 p.lastI] := by
        rw [← earlier, ← now, contents, contents, contents, List.map_append]
      refine (congrArg List.flatten both).trans ?_
      rw [List.flatten_append, List.flatten_singleton]
      rfl
    · rw [home]
      by_cases same : b = p.last
      · rw [same, update_self]
        exact .inr (.inr rfl)
      · rw [update_of_ne same]
        exact left.kept stands member same
  next none =>
    have empty : p.lastI = 0 := by omega
    refine wp_freeBuf_of_free (w := ⟨_, R⟩) caches away fun R' items home =>
      ⟨⟨p.done, p.last :: p.left, p.todo, ?_, ?_, ?_, ?_⟩, fun b member => ?_⟩
    · rw [items, update_of_ne (by simp), chunk]
    · rw [items, update_self]
    · rw [items, update_of_ne (by simp), todo]
    · rw [collected, empty]
      simp [Mem.slice]
    · rw [home]
      by_cases same : b = p.last
      · rw [same, update_self]
        exact .inr (.inl rfl)
      · rw [update_of_ne same]
        exact left.kept stands member same

/-- What was decoded takes the place of what was read. -/
theorem wp_putBack {err : Fault → Prop} {out : List Byte} (gathered : Gathered c S out w) (total : v.newTotal = out.length) :
    Wp (do
      listSpliceInit (.readTodo c) .caches
      listSplice .chunk (.readTodo c)
      setCtx c { ← getCtx c with bufRead := { (← getCtx c).bufRead with len := v.newTotal } }) (fun _ u => Decoded c S out u) err w := by
  obtain ⟨l, free, todo, chunk, caches, hangs, whole⟩ := gathered.lists
  rw [wp_bind]
  refine wp_spliceInit_of_found (by simp) hangs caches fun R items home => ?_
  have chunk' : R.items .chunk = some l := by rw [items, update_of_ne (by simp), update_of_ne (by simp), chunk]
  have hangs' : R.items (.readTodo c) = some [] := by rw [items, update_of_ne (by simp), update_self]
  have caches' : R.items .caches = some (todo ++ free) := by rw [items, update_self]
  obtain ⟨R', ran, items', home'⟩ := Rings.splice_of_found (by simp) chunk' hangs'
  rw [wp_bind]
  refine wp_perform_of_done (w := ⟨_, R⟩) ran ?_
  simp only [wp_bind, wp_getCtx, wp_setCtx]
  refine ⟨⟨l, todo ++ free, ?_, ?_, whole, fun b member => ?_⟩, ?_⟩
  · rw [items', update_self, List.append_nil]
  · rw [items', update_of_ne (by simp), update_of_ne (by simp), caches']
  · rcases gathered.kept b member with sits | sits | sits
    · exact .inr (List.mem_append_left _ (Rings.mem_of_home sits hangs))
    · exact .inr (List.mem_append_right _ (Rings.mem_of_home sits caches))
    · exact .inl (Rings.mem_of_home sits chunk)
  · simp only [HttpMgmt.setCtx, update_self]
    exact total

theorem wp_chunkDone {err : Fault → Prop} (stands : Stands c k S p w) (tracks : Tracks p (collected p w.data).length v) :
    Wp (chunkDone c v) (fun v' u => v'.rc = 0 ∧ v'.state = v.state ∧ Decoded c S (collected p w.data) u) err w := by
  rw [chunkDone, wp_bind]
  refine wp_leave stands tracks.bufInfo tracks.lastBuf fun R left => ?_
  rw [wp_bind]
  refine wp_post (wp_keepLast stands tracks left) fun _ u gathered => ?_
  have done : Wp _ _ err u := wp_putBack (v := v) gathered tracks.newTotal
  simp only [wp_bind] at done ⊢
  exact wp_post done fun _ _ spliced => wp_post spliced fun _ _ decoded => ⟨rfl, rfl, decoded⟩

theorem decode_lf_inl {chars rest : List Byte} {r : Reader} (goes : afterLine chars = .inl r) :
    decodeBytes (.linefeed chars) ([lf] ++ rest) = decodeBytes r rest := by
  rw [List.singleton_append, decode_lf, goes]

theorem ahead_lf_inr {chars rest : List Byte} {d : HttpMgmt} {verdict : Verdict} (split : remaining p d = lf :: rest)
    (ends : afterLine chars = .inr verdict) : ahead (.linefeed chars) p d = (collected p d, verdict) := by
  rw [ahead, split, decode_lf, ends, List.append_nil]

/-- A line feed, or the decoder gives up. `v₀` stands for the variables before the round. -/
theorem line_round {chars : List Byte} {v₀ : Decoder} {most : Nat} (here : At c k S (.linefeed chars) p v w)
    (inside : (p.offset : Int) < (w.data.bufs p.b).len) (before : v₀.state = .lrln ∧ v₀.chunkStr = chars)
    (least : effort (.linefeed chars) p w.data ≤ most) :
    Wp (chunkLine c v) (Outcome c k S (ahead (.linefeed chars) p w.data) most v₀)
      (fun _ => (ahead (.linefeed chars) p w.data).2 = .stray) w := by
  obtain ⟨state, str⟩ := here.reads
  have stands := here.stands
  have tracks := here.tracks
  have size := stands.sizes p.b List.mem_cons_self
  have split := unread_skip (p := p) (d := w.data) (m := 1) (by omega)
  obtain ⟨byte, single⟩ := List.length_eq_one_iff.mp (Mem.slice_length (w.data.bufs p.b).buf p.offset 1)
  rw [single] at split
  have whole : remaining p w.data = byte :: remaining (p.skip 1) w.data := remaining_skip split
  have fewer : effort (.linefeed chars) p w.data = 2 + effort (.linefeed chars) (p.skip 1) w.data := effort_skip split
  have beyond : Stands c k S (p.skip 1) w := stands.skip (by push_cast; omega)
  rw [chunkLine, wp_bind]
  refine wp_current tracks ?_
  rw [wp_bind, wp_bytesAt]
  refine ⟨fun _ => ?_, fun outside => absurd ⟨?_, by decide, ?_⟩ outside⟩
  · rw [tracks.offset, Int.toNat_natCast]
    change Wp (if (w.data.bufs p.b).buf.slice p.offset 1 ≠ [lf] then _ else _) _ _ _
    rw [single, wp_ite]
    split
    next other =>
      have other : byte ≠ lf := fun same => other (congrArg (fun b => [b]) same)
      refine .refused (show (-1 : Int) < 0 by decide) ?_ (state.trans before.1.symm) (stands.wp_abandon tracks ⟨rfl, rfl, rfl⟩)
      rw [ahead, whole, decode_no_lf other]
    next found =>
      obtain rfl : byte = lf := List.singleton_inj.mp (not_not.mp found)
      rw [str, wp_ite]
      split
      next empty =>
        have goes : afterLine chars = .inl (.line []) := by rw [afterLine, if_pos empty]
        refine .further (.line []) (p.skip 1) ⟨beyond, ?_, ?_⟩ (ahead_skip split fun _ => decode_lf_inl goes) ?_ (.inl ?_) (by rintro _ ⟨⟩)
        · exact tracks.skip (by simp only [tracks.offset]; push_cast; ring) ⟨rfl, rfl, rfl, rfl, rfl, rfl⟩
        · exact ⟨rfl, rfl, rfl, by decide⟩
        · exact Nat.lt_of_lt_of_le (by rw [fewer]; exact Nat.lt_add_of_pos_left (by decide)) least
        · rw [before.1]
          simp
      next filled =>
        have goes : afterLine chars = sized (sscanfHex chars) := if_neg filled
        have tracks' (chunkSize : Option Int) : Tracks (p.skip 1) (collected (p.skip 1) w.data).length
            { v with offset := p.offset + 1, j := 0, state := .getSize, chunkStr := chars, chunkSize } :=
          tracks.skip (by rw [tracks.offset]; rfl) ⟨rfl, rfl, rfl, rfl, rfl, rfl⟩
        dsimp only
        cases hex : sscanfHex chars with
        | none =>
          -- The size of the chunk before is used again, if there was one.
          have verdict : (ahead (.linefeed chars) p w.data).2 = .stray := by
            rw [ahead_lf_inr whole (goes.trans (by rw [hex]; rfl))]
          rw [Option.none_or]
          split
          next => exact verdict
          next =>
            refine wp_post (wp_chunkDone beyond (tracks' _)) ?_
            rintro v' u ⟨_, state, _⟩
            exact .unparsed verdict ⟨before.1, state⟩ (before.2 ▸ hex)
          next => exact .unparsed verdict ⟨before.1, rfl⟩ (before.2 ▸ hex)
        | some size =>
          have known {v' : Decoder} : Parsed v₀ v' := fun _ _ => by rw [before.2, hex]; rfl
          rw [Option.some_or]
          split
          next none => cases none
          next zero =>
            obtain rfl := Option.some.inj zero
            have all := ahead_lf_inr whole (goes.trans (by rw [hex]; rfl) : afterLine chars = .inr .finished)
            rw [all]
            refine wp_post (wp_chunkDone beyond (tracks' _)) ?_
            rintro v' u ⟨rc, _, decoded⟩
            exact .finished rc rfl decoded known
          next size' nonzero same =>
            cases same
            have other : size ≠ 0 := fun zero => nonzero (by rw [zero])
            by_cases negative : size < 0
            · have all := ahead_lf_inr whole (goes.trans (by rw [hex, sized, if_neg other, if_pos negative]))
              rw [all]
              exact .stuck rfl ⟨p.skip 1, _, size, beyond, tracks' _, rfl, rfl, negative, rfl⟩
            · have goes' : afterLine chars = .inl (.data size.toNat) :=
                goes.trans (by rw [hex, sized, if_neg other, if_neg negative])
              refine .further (.data size.toNat) (p.skip 1) ⟨beyond, tracks' _, rfl, ⟨size.toNat, ?_, ?_⟩, ?_⟩
                (ahead_skip split fun _ => decode_lf_inl goes') ?_ (.inl ?_) known
              · exact congrArg some (Int.toNat_of_nonneg (not_lt.mp negative)).symm
              · exact Int.zero_add _
              · exact Nat.lt_succ_of_le stands.room
              · refine Nat.lt_of_lt_of_le ?_ least
                rw [fewer]
                simp only [effort, ending]
                omega
              · rw [before.1]
                simp
  · rw [tracks.offset]
    exact Int.natCast_nonneg _
  · rw [tracks.offset]
    simp only [bufRoom, httpBufSize] at *
    omega

theorem lrln_round {chars : List Byte} (here : At c k S (.linefeed chars) p v w) :
    Wp (chunkLrln c v) (Outcome c k S (ahead (.linefeed chars) p w.data) (effort (.linefeed chars) p w.data) v)
      (fun _ => (ahead (.linefeed chars) p w.data).2 = .stray) w := by
  obtain ⟨state, str⟩ := here.reads
  have stands := here.stands
  have tracks := here.tracks
  rw [chunkLrln, wp_bind]
  refine wp_current tracks ?_
  dsimp only
  rw [tracks.offset, wp_ite]
  split
  next all =>
    rw [wp_bind]
    refine wp_nextChunkBuf stands tracks.bufInfo tracks.lastBuf fun R left => ?_
    cases more : p.todo with
    | nil =>
      rw [List.head?_nil, wp_pure]
      refine .refused (show (-1 : Int) < 0 by decide) ?_ rfl (left.wp_abandon stands rfl tracks.lastBuf tracks.splice)
      rw [ahead, remaining_end all more]
      rfl
    | cons next rest =>
      rw [List.head?_cons, wp_bind]
      refine wp_listDel_next stands all more left fun R' stands' => ?_
      have first := stands'.sizes next List.mem_cons_self
      rw [← ahead_next all more]
      refine line_round ⟨stands', tracks.next rfl rfl ⟨rfl, rfl, rfl, rfl, rfl⟩, state, str⟩ first.1 ⟨state, str⟩ ?_
      rw [effort_next all more]
      exact Nat.le_add_right _ _
  next inside =>
    exact line_round here (lt_of_le_of_ne stands.inside inside) ⟨state, str⟩ le_rfl

end
end WebTunnel.Device.Decoding
