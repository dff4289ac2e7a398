import WebTunnel.Device.Decoding

/-! The data of a chunk, and one round of the decoder's loop. -/

namespace WebTunnel.Device.Decoding
open Library.Bytes Library.Lists Library.Routines Library.Routines.Routine Function Device.Types Buffers Parsing Http
open Pool Chunks

section
variable {c : CtxId} {k n : Nat} {S : List BufId} {p : Place} {v : Decoder} {w : DevState} {r : Reader}

/-- One byte further, in the buffer that is read and in the one that is collected in. -/
def Place.put (p : Place) : Place := { p with offset := p.offset + 1, lastI := p.lastI + 1 }

/-- The buffer that was collected in is full, and another one takes its place. -/
def Place.fill (p : Place) (new : BufId) (rest : List BufId) : Place :=
  { p with last := new, done := p.done ++ [p.last], free := rest, lastI := 0 }

/-- The data when a byte is added to what is collected. -/
def Place.write (p : Place) (byte : Byte) (d : HttpMgmt) : HttpMgmt :=
  d.setBuf p.last ⟨(d.bufs p.last).buf.write p.lastI [byte], (d.bufs p.last).start, (d.bufs p.last).len, (d.bufs p.last).totalLen⟩

theorem write_len (p : Place) (byte : Byte) (d : HttpMgmt) (b : BufId) : ((p.write byte d).bufs b).len = (d.bufs b).len := by
  by_cases same : b = p.last
  · rw [same, Place.write, setBuf_bufs]
  · rw [Place.write, setBuf_bufs_of_ne _ _ same]

theorem write_others {byte : Byte} {d : HttpMgmt} {b : BufId} (other : b ≠ p.last) : (p.write byte d).bufs b = d.bufs b :=
  update_of_ne other _ _

theorem write_contents {byte : Byte} {d : HttpMgmt} {l : List BufId} (other : p.last ∉ l) :
    contents (p.write byte d) l = contents d l :=
  List.map_congr_left fun b member => by rw [write_others (ne_of_mem_of_not_mem member other)]

theorem Stands.put (stands : Stands c k S p w) (inside : (p.offset : Int) < (w.data.bufs p.b).len) (byte : Byte) :
    Stands c k S p.put ⟨p.write byte w.data, w.rings⟩ :=
  { stands with
    sizes := fun b member => by
      rw [write_len]
      exact stands.sizes b member
    inside := by
      rw [write_len]
      simp only [Place.put]
      push_cast
      omega
    room := Nat.succ_le_succ stands.room }

theorem collected_put (stands : Stands c k S p w) (byte : Byte) :
    collected p.put (p.write byte w.data) = collected p w.data ++ [byte] := by
  have earlier : contents (p.write byte w.data) p.done = contents w.data p.done := write_contents stands.not_done.2
  have now : ((w.data.bufs p.last).buf.write p.lastI [byte]).slice 0 (p.lastI + 1) = (w.data.bufs p.last).buf.slice 0 p.lastI ++ [byte] := by
    rw [Mem.slice_add, Mem.slice_write_of_disjoint _ (.inl (by omega)), Nat.zero_add]
    exact congrArg _ (Mem.slice_write _ _ [byte])
  rw [collected, collected, List.append_assoc, ← now, Place.put]
  dsimp only
  rw [earlier, Place.write, setBuf_bufs]

/-- The byte lies where it is written behind the place it is read from. -/
theorem unread_put (stands : Stands c k S p w) (behind : p.Behind) (byte : Byte) :
    unread p.put (p.write byte w.data) = unread (p.skip 1) w.data := by
  rw [unread, unread]
  change ((p.write byte w.data).bufs p.b).buf.slice (p.offset + 1) _ = (w.data.bufs p.b).buf.slice (p.offset + 1) _
  change Mem.slice _ _ (((p.write byte w.data).bufs p.b).len.toNat - (p.offset + 1)) = _
  rw [write_len]
  by_cases here : p.last = p.b
  · have first := stands.same.mp here
    have before : p.lastI < p.offset := by
      have behind := behind
      rw [Place.Behind, first, Nat.mul_zero, Nat.zero_add] at behind
      omega
    rw [Place.write, here, setBuf_bufs]
    exact Mem.slice_write_of_disjoint _ (.inr (by simp only [List.length_singleton]; omega))
  · rw [write_others (Ne.symm here)]
    rfl

theorem remaining_put (stands : Stands c k S p w) (behind : p.Behind) (byte : Byte) :
    remaining p.put (p.write byte w.data) = remaining (p.skip 1) w.data := by
  rw [remaining, remaining, unread_put stands behind]
  exact congrArg (fun l => _ ++ List.flatten l) (write_contents (l := p.todo) stands.not_todo.2)

/-- The data when the buffer that was collected in is full. -/
def Place.filled (p : Place) (new : BufId) (d : HttpMgmt) : HttpMgmt :=
  let d := d.setBuf p.last ⟨(d.bufs p.last).buf, 0, p.lastI, 0⟩
  d.setBuf new ⟨(d.bufs new).buf, 0, 0, 0⟩

theorem filled_others {d : HttpMgmt} {b new : BufId} (other : b ≠ p.last) (other' : b ≠ new) :
    (p.filled new d).bufs b = d.bufs b := by
  rw [Place.filled, setBuf_bufs_of_ne _ _ other', setBuf_bufs_of_ne _ _ other]

theorem filled_contents {d : HttpMgmt} {l : List BufId} {new : BufId} (other : p.last ∉ l) (other' : new ∉ l) :
    contents (p.filled new d) l = contents d l :=
  List.map_congr_left fun b member => by
    rw [filled_others (ne_of_mem_of_not_mem member other) (ne_of_mem_of_not_mem member other')]

section
variable {new : BufId} {rest : List BufId}

theorem Stands.new_apart (stands : Stands c k S p w) (pool : p.free = new :: rest) :
    new ≠ p.b ∧ new ≠ p.last ∧ new ∉ p.todo ∧ new ∉ p.done := by
  have sits : w.rings.home new = some .caches := Rings.home_of_mem stands.free (pool ▸ List.mem_cons_self)
  refine ⟨?_, ?_, Rings.not_mem_of_home (by rw [sits]; simp) stands.todo, Rings.not_mem_of_home (by rw [sits]; simp) stands.done⟩
  · rintro rfl
    cases stands.away.symm.trans sits
  · rintro rfl
    cases stands.awayLast.symm.trans sits

theorem Stands.fill {R R' : Rings BufHead BufId} (stands : Stands c k S p w) (full : httpBufSize ≤ p.lastI)
    (later : p.passed ≠ 0) (pool : p.free = new :: rest)
    (items : R.items = update w.rings.items .chunk (some (p.done ++ [p.last])))
    (home : R.home = update w.rings.home p.last (some .chunk))
    (items' : R'.items = update R.items .caches (some rest)) (home' : R'.home = update R.home new none) :
    Stands c k S (p.fill new rest) ⟨p.filled new w.data, R'⟩ := by
  obtain ⟨apart, apartLast, notTodo, _⟩ := stands.new_apart pool
  have other : p.b ≠ p.last := fun same => later (stands.same.mp same.symm)
  constructor
  case todo => rw [items', update_of_ne (by simp), items, update_of_ne (by simp), stands.todo]; rfl
  case done => rw [items', update_of_ne (by simp), items, update_self]; rfl
  case free => rw [items', update_self]; rfl
  case away =>
    change R'.home p.b = none
    rw [home', update_of_ne apart.symm, home, update_of_ne other, stands.away]
  case awayLast => rw [home']; exact update_self _ _ _
  case same => exact ⟨fun same => absurd same apart, fun first => absurd first later⟩
  case sizes =>
    intro b member
    have away : b ≠ p.last := by
      rcases List.mem_cons.mp member with rfl | member
      · exact other
      · exact fun same => stands.not_todo.2 (same ▸ member)
    have away' : b ≠ new := by
      rcases List.mem_cons.mp member with rfl | member
      · exact apart.symm
      · exact fun same => notTodo (same ▸ member)
    rw [filled_others away away']
    exact stands.sizes b member
  case inside =>
    change (p.offset : Int) ≤ ((p.filled new w.data).bufs p.b).len
    rw [filled_others other apart.symm]
    exact stands.inside
  case count =>
    have count := stands.count
    rw [pool, List.length_cons] at count
    simp only [Place.fill, List.length_append, List.length_singleton]
    omega
  case room =>
    have room := stands.room
    simp only [Place.fill, List.length_append, List.length_singleton]
    rw [Nat.mul_add]
    omega
  case kept =>
    intro b member
    change _ ∨ b = new ∨ R'.home b = _ ∨ R'.home b = _ ∨ R'.home b = _
    by_cases now : b = new
    · exact .inr (.inl now)
    · rw [home', update_of_ne now, home]
      by_cases old : b = p.last
      · rw [old, update_self]
        exact .inr (.inr (.inr (.inr rfl)))
      · rw [update_of_ne old]
        rcases stands.kept b member with same | same | sits
        · exact .inl same
        · exact absurd same old
        · exact .inr (.inr sits)

theorem collected_fill (stands : Stands c k S p w) (pool : p.free = new :: rest) :
    collected (p.fill new rest) (p.filled new w.data) = collected p w.data := by
  obtain ⟨_, apartLast, _, notDone⟩ := stands.new_apart pool
  have earlier := filled_contents (d := w.data) stands.not_done.2 notDone
  have now : contents (p.filled new w.data) [p.last] = [(w.data.bufs p.last).buf.slice 0 p.lastI] := by
    rw [contents, List.map_singleton, Place.filled, setBuf_bufs_of_ne _ _ apartLast.symm, setBuf_bufs]
    rfl
  have both : contents (p.filled new w.data) (p.done ++ [p.last]) =
      contents w.data p.done ++ [(w.data.bufs p.last).buf.slice 0 p.lastI] := by
    rw [← earlier, ← now, contents, contents, contents, List.map_append]
  rw [collected, collected]
  change (contents _ (p.done ++ [p.last])).flatten ++ Mem.slice _ 0 0 = _
  rw [both, List.flatten_append, List.flatten_singleton]
  exact List.append_nil _

theorem remaining_fill (stands : Stands c k S p w) (later : p.passed ≠ 0) (pool : p.free = new :: rest) :
    remaining (p.fill new rest) (p.filled new w.data) = remaining p w.data := by
  obtain ⟨apart, _, notTodo, _⟩ := stands.new_apart pool
  have other : p.b ≠ p.last := fun same => later (stands.same.mp same.symm)
  have others := filled_contents (d := w.data) stands.not_todo.2 notTodo
  rw [remaining, remaining, unread, unread]
  change Mem.slice ((p.filled new w.data).bufs p.b).buf p.offset (((p.filled new w.data).bufs p.b).len.toNat - p.offset) ++
    (contents _ p.todo).flatten = _
  rw [others, filled_others other apart.symm]

end

theorem ahead_byte {left : Nat} {d d' : HttpMgmt} {p' : Place} {byte : Byte} (gathered : collected p' d' = collected p d ++ [byte])
    (before : remaining p d = byte :: remaining p' d') : ahead (.data left) p' d' = ahead (.data (left + 1)) p d := by
  rw [ahead, ahead, gathered, before, decode_data_byte, List.append_assoc]
  rfl

/-- One byte is copied, and where its buffer is full another one is taken from the pool. -/
theorem At.copy {left : Nat} {post : Decoder → DevState → Prop} {err : Fault → Prop} {next : Decoder → DevM Decoder}
    (pos : 0 < k) (here : At c k S (.data (left + 1)) p v w) (inside : (p.offset : Int) < (w.data.bufs p.b).len)
    (goes : ∀ p' v' w', At c k S (.data left) p' v' w' → ahead (.data left) p' w'.data = ahead (.data (left + 1)) p w.data →
      p'.b = p.b ∧ p'.todo = p.todo ∧ p'.offset = p.offset + 1 ∧ (w'.data.bufs p.b).len = (w.data.bufs p.b).len ∧
        v'.chunkSize = v.chunkSize →
      effort (.data left) p' w'.data < effort (.data (left + 1)) p w.data → Wp (next v') post err w') :
    Wp (do
      let last ← deref v.lastBuf
      memcpy last v.lastI (← bytesAt p.b v.offset 1)
      let v := { v with offset := v.offset + 1, j := v.j + 1, lastI := v.lastI + 1, newTotal := v.newTotal + 1 }
      if (httpBufSize : Int) ≤ v.lastI then
        setBuf last { ← getBuf last with len := v.lastI, start := 0, totalLen := 0 }
        listAddTail last .chunk
        let lastBuf ← allocBuf
        assert (lastBuf.isSome)
        next { v with lastBuf, lastI := 0 }
      else
        next v) post err w := by
  obtain ⟨state, ⟨size, chunkSize, whole⟩, behind⟩ := here.reads
  have stands := here.stands
  have tracks := here.tracks
  have most := stands.sizes p.b List.mem_cons_self
  have fits := tracks.fits
  have split := unread_skip (p := p) (d := w.data) (m := 1) (by omega)
  obtain ⟨byte, single⟩ := List.length_eq_one_iff.mp (Mem.slice_length (w.data.bufs p.b).buf p.offset 1)
  rw [single] at split
  have before : remaining p w.data = byte :: remaining p.put (p.write byte w.data) := by
    rw [remaining_put stands behind]
    exact remaining_skip split
  have put := stands.put inside byte
  have gathered := collected_put stands byte
  have fewer : effort (.data left) p.put (p.write byte w.data) + 2 = effort (.data (left + 1)) p w.data := by
    simp only [effort, before, List.length_cons, ending, Place.put]
    ring
  have total : v.newTotal + 1 = ((collected p.put (p.write byte w.data)).length : Int) := by
    rw [gathered, tracks.newTotal, List.length_append]
    rfl
  rw [wp_bind, tracks.lastBuf, wp_deref]
  refine ⟨fun last same => ?_, by simp⟩
  cases same
  rw [wp_bind, wp_bytesAt, tracks.offset, tracks.lastI]
  refine ⟨fun _ => ?_, fun outside => absurd ⟨Int.natCast_nonneg _, by decide, ?_⟩ outside⟩
  · rw [Int.toNat_natCast, show (1 : Int).toNat = 1 from rfl, single, wp_bind, wp_memcpy]
    refine ⟨fun _ => ?_, fun outside => absurd ⟨Int.natCast_nonneg _, ?_⟩ outside⟩
    · rw [Int.toNat_natCast]
      dsimp only
      rw [wp_ite]
      split
      next full =>
        have ahead' : p.done.length < p.passed := by
          simp only [Place.Behind, httpBufSize] at *
          omega
        have later : p.passed ≠ 0 := Nat.ne_of_gt (Nat.zero_lt_of_lt ahead')
        obtain ⟨new, rest, pool⟩ : ∃ new rest, p.free = new :: rest := by
          have count := stands.count
          refine List.exists_cons_of_ne_nil fun none => ?_
          rw [none, List.length_nil] at count
          omega
        obtain ⟨apart, apartLast, _⟩ := stands.new_apart pool
        have full' : httpBufSize ≤ p.put.lastI := by
          simp only [Place.put]
          omega
        rw [wp_bind, wp_getBuf, wp_bind, wp_setBuf, wp_bind]
        refine wp_addTail_of_free (w := ⟨_, w.rings⟩) stands.done stands.awayLast fun R items home => ?_
        have caches : R.items .caches = some (new :: rest) := by rw [items, update_of_ne (by simp), ← pool, ← stands.free]
        rw [wp_bind]
        refine wp_allocBuf_of_cons (w := ⟨_, R⟩) caches fun R' items' home' => ?_
        rw [wp_bind, wp_assert]
        refine ⟨fun _ => ?_, fun none => absurd rfl none⟩
        dsimp only
        have stands' := put.fill full' later pool items home items' home'
        have same := collected_fill put pool
        have before' := remaining_fill put later pool
        refine goes (p.put.fill new rest) _ ⟨p.put.filled new (p.write byte w.data), R'⟩ ⟨stands', ?_, ?_⟩ ?_
          ⟨rfl, rfl, rfl, ?_, rfl⟩ ?_
        · constructor
          case bufInfo => exact tracks.bufInfo
          case lastBuf => rfl
          case offset => rfl
          case lastI => rfl
          case fits => exact Nat.zero_le _
          case newTotal => exact total.trans (by rw [same])
          case splice => exact tracks.splice
          case rc => exact tracks.rc
        · refine ⟨state, ⟨size, chunkSize, by push_cast at whole; dsimp only; omega⟩, ?_⟩
          simp only [Place.Behind, Place.fill, Place.put, List.length_append, List.length_singleton, httpBufSize] at *
          omega
        · exact ahead_byte (same.trans gathered) (before.trans (congrArg _ before'.symm))
        · have kept : (p.put.filled new (p.write byte w.data)).bufs p.b = (p.write byte w.data).bufs p.b :=
            filled_others (fun same => later (stands.same.mp same.symm)) apart.symm
          exact (congrArg BufInfo.len kept).trans (write_len p byte _ _)
        · refine Nat.lt_of_lt_of_eq (Nat.lt_of_le_of_lt (le_of_eq ?_) (Nat.lt_add_of_pos_right (by decide))) fewer
          rw [effort, effort, before']
          rfl
      next room =>
        refine goes p.put _ ⟨p.write byte w.data, w.rings⟩ ⟨put, ?_, ?_⟩ (ahead_byte gathered before) ⟨rfl, rfl, rfl, write_len p byte _ _, rfl⟩
          (Nat.lt_of_lt_of_eq (Nat.lt_add_of_pos_right (by decide)) fewer)
        · constructor
          case bufInfo => exact tracks.bufInfo
          case lastBuf => rfl
          case offset => rfl
          case lastI => rfl
          case fits =>
            simp only [Place.put]
            omega
          case newTotal => exact total
          case splice => exact tracks.splice
          case rc => exact tracks.rc
        · exact ⟨state, ⟨size, chunkSize, by push_cast at whole; dsimp only; omega⟩, Nat.succ_lt_succ behind⟩
    · simp only [bufRoom, httpBufSize, List.length_singleton] at *
      omega
  · simp only [bufRoom, httpBufSize] at *
    omega

/-- Where the copying of a chunk stops: at the end of the buffer that is read, or of the chunk. -/
structure Copied (c : CtxId) (k : Nat) (S : List BufId) (all : List Byte × Verdict) (most size : Nat) (b : BufId) (v : Decoder)
    (w : DevState) : Prop where
  place : ∃ left p, At c k S (.data left) p v w ∧ ahead (.data left) p w.data = all ∧ effort (.data left) p w.data ≤ most ∧
    p.b = b ∧ ((p.offset : Int) = (w.data.bufs p.b).len ∨ left = 0)
  size : v.chunkSize = some (size : Int)

theorem wp_copyChunk {err : Fault → Prop} {left size count : Nat} (pos : 0 < k) (here : At c k S (.data left) p v w)
    (sized : v.chunkSize = some (size : Int)) (enough : (w.data.bufs p.b).len < p.offset + count) :
    Wp (copyChunk size count v) (Copied c k S (ahead (.data left) p w.data) (effort (.data left) p w.data) size p.b) err w := by
  induction count generalizing left p v w with
  | zero =>
    have inside := here.stands.inside
    omega
  | succ count ih =>
    obtain ⟨state, ⟨size', sized', whole⟩, behind⟩ := here.reads
    obtain rfl : size = size' := by
      have same := sized.symm.trans sized'
      simpa using same
    rw [copyChunk, wp_bind]
    refine wp_current here.tracks ?_
    dsimp only
    rw [here.tracks.offset, wp_ite]
    split
    next more =>
      obtain ⟨left, rfl⟩ : ∃ l, left = l + 1 := ⟨left - 1, by omega⟩
      rw [← here.tracks.offset]
      refine here.copy pos more.1 fun p' v' w' here' same ⟨sameB, _, further, len, sized'⟩ less => ?_
      refine wp_post (ih here' (sized'.trans sized) ?_) fun v u copied => ?_
      · rw [sameB, len, further]
        push_cast
        omega
      · obtain ⟨⟨left', p'', at', all, most, b, ends⟩, sized⟩ := copied
        exact ⟨⟨left', p'', at', all.trans same, most.trans less.le, b.trans sameB, ends⟩, sized⟩
    next stop =>
      have inside := here.stands.inside
      refine ⟨⟨left, p, here, rfl, le_rfl, rfl, ?_⟩, sized⟩
      by_cases all : (p.offset : Int) = (w.data.bufs p.b).len
      · exact .inl all
      · refine .inr ?_
        by_contra some
        exact stop ⟨by omega, by omega⟩

theorem getSize_round {left : Nat} (pos : 0 < k) (here : At c k S (.data left) p v w) :
    Wp (chunkGetSize c v) (Outcome c k S (ahead (.data left) p w.data) (effort (.data left) p w.data) v)
      (fun _ => (ahead (.data left) p w.data).2 = .stray) w := by
  obtain ⟨state, ⟨size, sized, whole⟩, behind⟩ := id here.reads
  have sizes := here.stands.sizes p.b List.mem_cons_self
  rw [chunkGetSize, wp_bind, wp_deref]
  refine ⟨fun n same => ?_, fun none => by cases none.symm.trans sized⟩
  cases same.symm.trans sized
  dsimp only
  rw [wp_bind]
  refine wp_post (wp_copyChunk pos here sized ?_) fun v' u copied => ?_
  · simp only [bufRoom]
    push_cast
    omega
  · obtain ⟨⟨left', p', at', all, most, b, ends⟩, sized'⟩ := copied
    obtain ⟨state', ⟨size', sized'', whole'⟩, behind'⟩ := id at'.reads
    obtain rfl : size = size' := by
      have same := sized'.symm.trans sized''
      simpa using same
    rw [wp_bind]
    refine wp_current at'.tracks ?_
    dsimp only
    rw [at'.tracks.offset, wp_ite]
    split
    next atEnd =>
      rw [wp_bind]
      refine wp_nextChunkBuf at'.stands at'.tracks.bufInfo at'.tracks.lastBuf fun R passed => ?_
      rw [wp_bind, wp_deref]
      refine ⟨fun next first => ?_, fun none => ?_⟩
      · obtain ⟨rest, more⟩ : ∃ rest, p'.todo = next :: rest := by
          cases more : p'.todo with
          | nil => rw [more] at first; cases first
          | cons b rest => rw [more] at first; cases first; exact ⟨rest, rfl⟩
        rw [wp_bind]
        refine wp_listDel_next at'.stands atEnd more passed fun R' stands' => ?_
        refine .further (.data left') (p'.next next rest) ⟨stands', at'.tracks.next rfl rfl ⟨rfl, rfl, rfl, rfl, rfl⟩, state',
          ⟨size, sized', whole'⟩, ?_⟩ ((ahead_next atEnd more).trans all) ?_ (.inr (.inl ?_))
          fun now => by cases state.symm.trans now
        · have len := at'.stands.sizes p'.b List.mem_cons_self
          simp only [Place.Behind, Place.next, httpBufSize] at *
          omega
        · refine Nat.lt_of_lt_of_le ?_ most
          rw [effort_next atEnd more]
          exact Nat.lt_add_of_pos_right (by decide)
        · change some next ≠ v.bufInfo
          rw [here.tracks.bufInfo, ← b]
          exact fun same => at'.stands.next_ne more (Option.some.inj same)
      · have none : p'.todo = [] := List.head?_eq_none_iff.mp none
        rw [← all, ahead, remaining_end atEnd none]
        rfl
    next inside =>
      have finished : left' = 0 := ends.resolve_left inside
      subst finished
      have more : remaining p' u.data ≠ [] := by
        have length := at'.stands.unread_length
        have within := at'.stands.inside
        intro none
        have empty := (List.append_eq_nil_iff.mp none).1
        rw [empty, List.length_nil] at length
        omega
      rw [if_pos (by simpa using whole'), wp_pure]
      refine .further (.line []) p' ⟨at'.stands, ?_, rfl, rfl, rfl, by decide⟩ ?_ ?_ (.inl ?_)
        fun now => by cases state.symm.trans now
      · exact ⟨at'.tracks.bufInfo, at'.tracks.lastBuf, rfl, at'.tracks.lastI, at'.tracks.fits, at'.tracks.newTotal,
          at'.tracks.splice, at'.tracks.rc⟩
      · rw [← all, ahead, ahead, decode_data_zero more]
      · exact Nat.lt_of_lt_of_le (Nat.lt_succ_self _) most
      · change ChunkState.begin ≠ v.state
        rw [state]
        simp

/-- What one round of the loop comes to. -/
theorem decode_round (pos : 0 < k) (here : At c k S r p v w) :
    Wp (decodeStep c v) (Outcome c k S (ahead r p w.data) (effort r p w.data) v) (fun _ => (ahead r p w.data).2 = .stray) w := by
  cases r with
  | line chars =>
    rw [decodeStep, here.reads.1]
    exact wp_mono (begin_round here) (fun _ _ outcome => outcome) fun _ none => none.elim
  | linefeed chars =>
    rw [decodeStep, here.reads.1]
    exact lrln_round here
  | data left =>
    rw [decodeStep, here.reads.1]
    exact getSize_round pos here

end
end WebTunnel.Device.Decoding
