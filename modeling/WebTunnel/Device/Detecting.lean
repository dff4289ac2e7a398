import WebTunnel.Device.Copying
import WebTunnel.Device.Receiving
import WebTunnel.Device.Texts

/-! Whether a response is chunked, as the device decides it and as its header block says. -/

namespace WebTunnel.Device.Detecting
open Library.Bytes Library.Lists Library.Occurrences Library.Routines Library.Routines.Routine Function
open Device.Types Buffers Parsing Http Manager Pool Chunks Texts Receiving

/-- Where the header block ends in what is read first, if it does. -/
def headEnd (first : List Byte) : Option Nat := (strstr lrln (cString first)).map (· + lrln.length)

/-- Where the body begins, and whether the header block says that it is chunked; there is no memory
for the block if the pool is empty. -/
def checked (first : List Byte) (free : List BufId) : Option Nat × Bool :=
  match headEnd first with
  | none => (some 0, false)
  | some offset => if free = [] then (none, false) else (some offset, saysChunked (first.take offset))

/-- What the check leaves of the data: the bytes in the buffers, and what was said before. -/
structure Checked (c : CtxId) (l : List BufId) (said : Bool) (d d' : HttpMgmt) : Prop where
  len : ∀ b ∈ l, (d'.bufs b).len = (d.bufs b).len
  bytes : ∀ b ∈ l, (d'.bufs b).buf.slice 0 (d.bufs b).len.toNat = (d.bufs b).buf.slice 0 (d.bufs b).len.toNat
  isChunk : (d'.ctxs c).isChunk = ((d.ctxs c).isChunk || said)

section
variable {first rest header : List Byte}

theorem cString_append_of_all (all : (0 : Byte) ∉ first) (rest : List Byte) : cString (first ++ rest) = first ++ cString rest := by
  rw [cString, cString, List.takeWhile_append_of_pos fun b member => by simpa using ne_of_mem_of_not_mem member all]

theorem cString_zero (first : List Byte) : cString (first ++ [0]) = cString first := by
  rw [cString, cString, List.takeWhile_append]
  split
  next whole =>
    rw [List.takeWhile_cons_of_neg (by simp), List.append_nil]
    exact ((List.takeWhile_prefix _).eq_of_length whole).symm
  next => rfl

theorem cString_begins (first : List Byte) : cString first <+: first := List.takeWhile_prefix _

theorem not_mem_cString (first : List Byte) : (0 : Byte) ∉ cString first := fun member => by
  have other := List.mem_takeWhile_imp member
  simp at other

/-- The header block lies in what is read first, and holds no zero. -/
theorem headEnd_eq_some {offset : Nat} (found : headEnd first = some offset) :
    offset ≤ first.length ∧ lrln.length ≤ offset ∧ (0 : Byte) ∉ first.take offset := by
  obtain ⟨p, at_, rfl⟩ := Option.map_eq_some_iff.mp found
  have first' := firstAt_of_strstr at_
  have within := first'.2.1.le (by decide)
  have shorter := (cString_begins first).length_le
  have same : first.take (p + lrln.length) = (cString first).take (p + lrln.length) := by
    obtain ⟨rest, whole⟩ := cString_begins first
    conv_lhs => rw [← whole]
    rw [List.take_append_of_le_length within]
  refine ⟨within.trans shorter, Nat.le_add_left _ _, ?_⟩
  rw [same]
  exact fun member => not_mem_cString first (List.mem_of_mem_take member)

/-- A header block without a zero is found. -/
theorem headEnd_of_block (block : HeaderBlock header) (all : (0 : Byte) ∉ header) (rest : List Byte) :
    headEnd (header ++ rest) = some header.length := by
  have found := strstr_eq_some_iff.mpr (block.2.append (by decide) (cString rest))
  rw [headEnd, cString_append_of_all all, found, Option.map_some, Nat.sub_add_cancel block.1]

/-- Where the block holds a zero, it is not found. -/
theorem headEnd_of_zero (block : HeaderBlock header) (zero : (0 : Byte) ∈ header) (rest : List Byte) :
    headEnd (header ++ rest) = none := by
  rw [headEnd, Option.map_eq_none_iff]
  by_contra some
  obtain ⟨p, found⟩ := Option.ne_none_iff_exists'.mp some
  have first := firstAt_of_strstr found
  have cut : cString (header ++ rest) = cString header := by
    rw [cString, cString, List.takeWhile_append, if_neg]
    intro whole
    have same := (cString_begins header).eq_of_length whole
    rw [← same] at zero
    exact not_mem_cString header zero
  rw [cut] at first
  obtain ⟨behind, whole⟩ := cString_begins header
  have first' := first.append (by decide) behind
  rw [whole] at first'
  have same := first'.unique block.2
  have within := first.2.1.le (by decide)
  have least := block.1
  have full : cString header = header := (cString_begins header).eq_of_length_le (by omega)
  rw [← full] at zero
  exact not_mem_cString header zero

end

section
variable {c : CtxId} {b : BufId} {w : DevState} {l free : List BufId} {err : Fault → Prop} {post : Option Nat → DevState → Prop}

theorem slice_take (m : Mem) {n size : Nat} (within : n ≤ size) : (m.slice 0 size).take n = m.slice 0 n := by
  conv_lhs => rw [← Nat.add_sub_of_le within, Mem.slice_add]
  rw [List.take_left' (Mem.slice_length _ _ _)]

/-- The block is copied to a buffer of its own, which is put back after a look at it. -/
theorem wp_lookAt {tmp : BufId} {header : List Byte} (fits : header.length ≤ httpBufSize)
    (taken : (w.data.bufs b).buf.slice 0 header.length = header) (zeroless : (0 : Byte) ∉ header)
    (pool : w.rings.items .caches = some free) (away : w.rings.home tmp = none)
    (next : ∀ d R, (∀ b', b' ≠ tmp → d.bufs b' = w.data.bufs b') →
      (d.ctxs c).isChunk = ((w.data.ctxs c).isChunk || saysChunked header) →
      R.items = update w.rings.items .caches (some (tmp :: free)) → R.home = update w.rings.home tmp (some .caches) →
      post (some header.length) ⟨d, R⟩) :
    Wp (do
      memcpy tmp 0 (← bytesAt b 0 header.length)
      memcpy tmp header.length [0]
      when (saysChunked (cString (← bytesAt tmp 0 (header.length + 1)))) do
        setCtx c { ← getCtx c with isChunk := true }
      freeBuf (some tmp)
      return some header.length) post err w := by
  have room : header.length + 1 ≤ bufRoom := by
    simp only [bufRoom, httpBufSize] at *
    omega
  have zero : cString (header ++ [0]) = header := by
    rw [cString_append_of_all zeroless]
    exact List.append_nil _
  have copied (m : Mem) : ((m.write 0 header).write header.length [0]).slice 0 (header.length + 1) = header ++ [0] := by
    have first : (m.write 0 header).slice 0 header.length = header := Mem.slice_write m 0 header
    have both := slice_extend (m.write 0 header) header.length [0]
    rwa [first] at both
  rw [wp_bind, wp_bytesAt]
  refine ⟨fun _ => ?_, fun outside => absurd ⟨le_rfl, Int.natCast_nonneg _, by omega⟩ outside⟩
  rw [Int.toNat_zero, Int.toNat_natCast, taken, wp_bind, wp_memcpy]
  refine ⟨fun _ => ?_, fun outside => absurd ⟨le_rfl, by omega⟩ outside⟩
  rw [wp_bind, wp_memcpy]
  refine ⟨fun _ => ?_, fun outside => absurd ⟨Int.natCast_nonneg _, by rw [List.length_singleton]; omega⟩ outside⟩
  rw [wp_bind, wp_bytesAt]
  refine ⟨fun _ => ?_, fun outside => absurd ⟨le_rfl, by omega, by omega⟩ outside⟩
  have size : ((header.length : Int) + 1).toNat = header.length + 1 := by omega
  simp only [setBuf_bufs, setBuf_setBuf, Int.toNat_zero, Int.toNat_natCast, size, copied, zero]
  have free' (d : HttpMgmt) (bufs : ∀ b', b' ≠ tmp → d.bufs b' = w.data.bufs b')
      (isChunk : (d.ctxs c).isChunk = ((w.data.ctxs c).isChunk || saysChunked header)) :
      Wp (do
        freeBuf (some tmp)
        return some header.length) post err ⟨d, w.rings⟩ := by
    rw [wp_bind]
    exact wp_freeBuf_of_free (w := ⟨d, w.rings⟩) pool away fun R items home => next d R bufs isChunk items home
  rw [wp_bind, wp_when]
  refine ⟨fun declared => ?_, fun silent => ?_⟩
  · simp only [wp_bind, wp_getCtx, wp_setCtx]
    have chunked := free' ((w.data.setBuf tmp ⟨((w.data.bufs tmp).buf.write 0 header).write header.length [0],
      (w.data.bufs tmp).start, (w.data.bufs tmp).len, (w.data.bufs tmp).totalLen⟩).setCtx c { w.data.ctxs c with isChunk := true })
      (fun b' other => update_of_ne other _ _)
      ((congrArg HttpContext.isChunk (update_self c _ _)).trans (by rw [declared, Bool.or_true]))
    rw [wp_bind] at chunked
    exact chunked
  · exact free' _ (fun b' other => update_of_ne other _ _) (by rw [Bool.eq_false_iff.mpr silent, Bool.or_false]; rfl)

/-- A zero is put behind what was read, and the block is looked at in a buffer of its own. -/
theorem wp_httpChunkCheck (pool : w.rings.items .caches = some free) (size : 0 < (w.data.bufs b).len ∧ (w.data.bufs b).len ≤ httpBufSize)
    (outside : ∀ b' ∈ l, w.rings.home b' ≠ some .caches) (first : List Byte)
    (bytes : (w.data.bufs b).buf.slice 0 (w.data.bufs b).len.toNat = first) (own : w.rings.home b ≠ some .caches)
    (next : ∀ d, Checked c l (checked first free).2 w.data d → post (checked first free).1 ⟨d, w.rings⟩) :
    Wp (httpChunkCheck c b) post err w := by
  have whole : (0 : Int) ≤ (w.data.bufs b).len ∧ (w.data.bufs b).len + ([0] : List Byte).length ≤ bufRoom := by
    simp only [List.length_singleton, bufRoom, httpBufSize] at *
    omega
  have length : first.length = (w.data.bufs b).len.toNat := by rw [← bytes, Mem.slice_length]
  rw [httpChunkCheck, wp_bind, wp_getBuf, wp_bind, wp_memcpy]
  refine ⟨fun _ => ?_, fun outside => absurd whole outside⟩
  have ends : (0 : Int) ≤ 0 ∧ 0 ≤ (w.data.bufs b).len + 1 ∧ 0 + ((w.data.bufs b).len + 1) ≤ bufRoom := by
    simp only [List.length_singleton] at whole
    omega
  rw [wp_bind, wp_bytesAt]
  refine ⟨fun _ => ?_, fun outside => absurd ends outside⟩
  -- What the buffer holds, with the zero behind it.
  let terminated : BufInfo := ⟨(w.data.bufs b).buf.write (w.data.bufs b).len.toNat [0], (w.data.bufs b).start,
    (w.data.bufs b).len, (w.data.bufs b).totalLen⟩
  have text' : terminated.buf.slice 0 ((w.data.bufs b).len + 1).toNat = first ++ [0] := by
    have more : ((w.data.bufs b).len + 1).toNat = (w.data.bufs b).len.toNat + [(0 : Byte)].length := by
      rw [List.length_singleton]
      omega
    rw [more, ← bytes]
    exact slice_extend _ _ _
  have kept (b' : BufId) : ((w.data.setBuf b terminated).bufs b').len = (w.data.bufs b').len ∧
      ((w.data.setBuf b terminated).bufs b').buf.slice 0 (w.data.bufs b').len.toNat =
        (w.data.bufs b').buf.slice 0 (w.data.bufs b').len.toNat := by
    by_cases same : b' = b
    · rw [same, setBuf_bufs]
      exact ⟨rfl, Mem.slice_write_of_disjoint _ (.inl (by omega))⟩
    · rw [setBuf_bufs_of_ne _ _ same]
      exact ⟨rfl, rfl⟩
  change Wp (match strstr lrln (cString (((w.data.setBuf b terminated).bufs b).buf.slice 0 ((w.data.bufs b).len + 1).toNat)) with
    | none => _ | some p => _) post err ⟨w.data.setBuf b terminated, w.rings⟩
  rw [setBuf_bufs, text', cString_zero]
  cases found : strstr lrln (cString first) with
  | none =>
    have result : checked first free = (some 0, false) := by rw [checked, headEnd, found]; rfl
    rw [result] at next
    exact next _ ⟨fun b' _ => (kept b').1, fun b' _ => (kept b').2, (Bool.or_false _).symm⟩
  | some p =>
    have ended : headEnd first = some (p + lrln.length) := by rw [headEnd, found]; rfl
    obtain ⟨within, _, zeroless⟩ := headEnd_eq_some ended
    dsimp only
    generalize p + lrln.length = offset at ended within zeroless ⊢
    cases free with
    | nil =>
      have result : checked first [] = (none, false) := by rw [checked, ended]; rfl
      rw [result] at next
      rw [wp_bind]
      refine wp_allocBuf_of_nil (w := ⟨_, w.rings⟩) pool ?_
      simp only [wp_bind, wp_getCtx, wp_setCtx, wp_pure]
      refine next _ ⟨fun b' _ => (kept b').1, fun b' _ => (kept b').2, ?_⟩
      simp only [HttpMgmt.setCtx, update_self]
      exact (Bool.or_false _).symm
    | cons tmp rest =>
      have result : checked first (tmp :: rest) = (some offset, saysChunked (first.take offset)) := by
        rw [checked, ended]
        exact if_neg (List.cons_ne_nil _ _)
      rw [result] at next
      have sits : w.rings.home tmp = some .caches := Rings.home_of_mem pool List.mem_cons_self
      rw [wp_bind]
      refine wp_allocBuf_of_cons (w := ⟨_, w.rings⟩) pool fun R items home => ?_
      have other : b ≠ tmp := fun same => own (same ▸ sits)
      have taken : (first.take offset).length = offset := List.length_take_of_le within
      have start : terminated.buf.slice 0 offset = first.take offset := by
        rw [← bytes, slice_take _ (by omega)]
        exact Mem.slice_write_of_disjoint _ (.inl (by omega))
      rw [← taken]
      refine wp_lookAt (by rw [taken]; omega) ?_ zeroless (by rw [items, update_self]) (by rw [home, update_self])
        fun d R' bufs isChunk items' home' => ?_
      · rw [taken, setBuf_bufs_of_ne _ _ other, setBuf_bufs]
        exact start
      · have same : R' = w.rings := by
          refine Rings.ext ?_ ?_
          · rw [items', items, update_idem, ← pool, update_eq_self]
          · rw [home', home, update_idem, ← sits, update_eq_self]
        rw [taken, same]
        refine next d ⟨fun b' member => ?_, fun b' member => ?_, isChunk⟩
        all_goals
          have untouched : b' ≠ tmp := fun same => outside b' member (same ▸ sits)
          rw [bufs b' untouched, setBuf_bufs_of_ne _ _ untouched]
        · exact (kept b').1
        · exact (kept b').2

end

/-! Whether a response is chunked. -/

/-- The check sets whether the response is chunked as its header block says. -/
def Detects (c : CtxId) (b : BufId) (header : List Byte) (w : DevState) : Prop :=
  ∃ r u, (httpChunkCheck c b).run w = .ok (r, u) ∧ ((u.data.ctxs c).isChunk = true ↔ DeclaresChunked header)

/-- Wherever the name of the field occurs in the block, in any letter case, and the name of the coding
anywhere behind it, the block declares the coding. -/
def Plain (header : List Byte) : Prop :=
  ∀ i j, i ≤ j → OccursAt (text "transfer-encoding:") (header.map toLower) i →
    OccursAt (text "chunked") (header.map toLower) j → DeclaresChunked header

theorem plain_iff {header : List Byte} : Plain header ↔ (saysChunked header = true ↔ DeclaresChunked header) := by
  refine ⟨fun plain => ⟨fun said => ?_, saysChunked_of_declares⟩, fun same i j order name coding => ?_⟩
  · obtain ⟨i, j, order, name, coding⟩ := saysChunked_iff.mp said
    exact plain i j order name coding
  · exact same.mp (saysChunked_iff.mpr ⟨i, j, order, name, coding⟩)

theorem detects_iff_checked {c : CtxId} {b : BufId} {w : DevState} {free : List BufId} {header first : List Byte}
    (pool : w.rings.items .caches = some free) (own : w.rings.home b ≠ some .caches)
    (size : 0 < (w.data.bufs b).len ∧ (w.data.bufs b).len ≤ httpBufSize)
    (bytes : (w.data.bufs b).buf.slice 0 (w.data.bufs b).len.toNat = first) (unset : (w.data.ctxs c).isChunk = false) :
    Detects c b header w ↔ ((checked first free).2 = true ↔ DeclaresChunked header) := by
  have total : Wp (httpChunkCheck c b) (fun _ u => (u.data.ctxs c).isChunk = (checked first free).2) (fun _ => False) w :=
    wp_httpChunkCheck (l := []) pool size (by simp) _ bytes own fun d checked => by
      rw [checked.isChunk, unset, Bool.false_or]
  obtain ⟨r, u, ran, result⟩ := wp_total.mp total
  rw [← result]
  refine ⟨fun ⟨r', u', ran', same⟩ => ?_, fun same => ⟨r, u, ran, same⟩⟩
  cases ran.symm.trans ran'
  exact same

/-- The coding is detected as it is declared, unless the texts occur elsewhere in the block. Without
memory for the block, or if it holds a zero, nothing is detected. -/
theorem detects_iff {c : CtxId} {b : BufId} {w : DevState} {free : List BufId} {header rest : List Byte}
    (block : HeaderBlock header) (pool : w.rings.items .caches = some free) (own : w.rings.home b ≠ some .caches)
    (size : 0 < (w.data.bufs b).len ∧ (w.data.bufs b).len ≤ httpBufSize)
    (bytes : (w.data.bufs b).buf.slice 0 (w.data.bufs b).len.toNat = header ++ rest)
    (unset : (w.data.ctxs c).isChunk = false) :
    Detects c b header w ↔ if free = [] ∨ (0 : Byte) ∈ header then ¬ DeclaresChunked header else Plain header := by
  rw [detects_iff_checked pool own size bytes unset]
  split
  next unseen =>
    have nothing : (checked (header ++ rest) free).2 = false := by
      by_cases zero : (0 : Byte) ∈ header
      · rw [checked, headEnd_of_zero block zero]
      · rw [checked, headEnd_of_block block zero]
        dsimp only
        rw [if_pos (unseen.resolve_right zero)]
    rw [nothing]
    simp
  next seen =>
    obtain ⟨room, zeroless⟩ := not_or.mp seen
    have found : (checked (header ++ rest) free).2 = saysChunked header := by
      rw [checked, headEnd_of_block block zeroless]
      dsimp only
      rw [if_neg room, List.take_left]
    rw [found, plain_iff]

/-- A state in which the blocks that were read lie in one buffer each. -/
theorem exists_reads (c : CtxId) (blocks : List (List Byte)) (few : blocks.length < httpBufCaches) :
    ∃ (w : DevState) (l free : List BufId), w.rings.items (.readTodo c) = some l ∧ w.rings.items .caches = some free ∧
      free ≠ [] ∧ w.rings.items .chunk = none ∧ contents w.data l = blocks ∧
      (∀ b ∈ l, ∃ block ∈ blocks, (w.data.bufs b).len = block.length) ∧ (w.data.ctxs c).isChunk = false := by
  obtain ⟨R, empty, others, _⟩ := exists_lists [.readTodo c] (by simp [initRings])
  have pool : R.items .caches = some (List.finRange httpBufCaches).reverse := others .caches (by simp)
  have bare : R.items .chunk = none := others .chunk (by simp)
  let l : List BufId := (List.finRange httpBufCaches).take blocks.length
  obtain ⟨S, held, rest, same⟩ := exists_held (l := l) pool (empty _ List.mem_cons_self) (by simp)
    ((List.nodup_finRange _).sublist (List.take_sublist _ _)) (by simp)
  let d := initData [] [] 80 1024 3 0
  let data := { d with bufs := fun b => ⟨Mem.write (fun _ => 0) 0 (blocks.getD b []), 0, (blocks.getD b []).length, 0⟩ }
  have total : l.length = blocks.length := by
    rw [List.length_take, List.length_finRange]
    omega
  have lies (i : Nat) (inside : i < l.length) : (l.get ⟨i, inside⟩ : Nat) = i := by simp [l]
  refine ⟨⟨data, S⟩, l, _, held, rest, ?_, (same .chunk (by simp) (by simp)).trans bare, ?_, fun b member => ?_, rfl⟩
  · -- The last buffer of the pool is not taken.
    have last : (⟨httpBufCaches - 1, by decide⟩ : BufId) ∈ (List.finRange httpBufCaches).reverse.filter (· ∉ l) := by
      simp only [List.mem_filter, List.mem_reverse, List.mem_finRange, true_and, decide_eq_true_eq]
      intro member
      obtain ⟨i, inside, at_⟩ := List.mem_iff_getElem.mp member
      have own := lies i inside
      rw [List.get_eq_getElem, at_] at own
      simp only at own
      omega
    exact List.ne_nil_of_mem last
  · refine List.ext_getElem (by rw [contents, List.length_map, total]) fun i inside inside' => ?_
    have own := lies i (by rwa [contents, List.length_map] at inside)
    rw [List.get_eq_getElem] at own
    simp only [contents, List.getElem_map, data, own, List.getD_eq_getElem _ _ inside', Int.toNat_natCast]
    exact Mem.slice_write _ 0 _
  · obtain ⟨i, inside, rfl⟩ := List.mem_iff_getElem.mp member
    have own := lies i inside
    rw [List.get_eq_getElem] at own
    refine ⟨blocks[i], List.getElem_mem (total ▸ inside), ?_⟩
    simp only [data, own, List.getD_eq_getElem _ _ (total ▸ inside)]

/-- A state in which bytes lie in the buffer that was read first. -/
theorem exists_read (c : CtxId) (bytes : List Byte) : ∃ (w : DevState) (b : BufId) (free : List BufId),
    w.rings.items (.readTodo c) = some [b] ∧ w.rings.items .caches = some free ∧ free ≠ [] ∧
    (w.data.bufs b).len = bytes.length ∧ (w.data.bufs b).buf.slice 0 bytes.length = bytes ∧ (w.data.ctxs c).isChunk = false := by
  obtain ⟨w, l, free, hangs, pool, room, _, holds, sizes, unset⟩ := exists_reads c [bytes] (by rw [List.length_singleton]; decide)
  obtain ⟨b, rfl, laid⟩ := List.map_eq_singleton_iff.mp holds
  obtain ⟨_, same, len⟩ := sizes b (List.mem_singleton_self b)
  rw [List.mem_singleton.mp same] at len
  refine ⟨w, b, free, hangs, pool, room, len, ?_, unset⟩
  rwa [len, Int.toNat_natCast] at laid

/-- A block that declares the coding. -/
def chunkedBlock : List Byte := text "HTTP/1.1 200 OK\r\nTransfer-Encoding: gzip, Chunked\r\n\r\n"

theorem headerBlock_of_strstr {header : List Byte} (found : strstr lrln header = some (header.length - lrln.length))
    (least : lrln.length ≤ header.length) : HeaderBlock header := ⟨least, firstAt_of_strstr found⟩

theorem headerBlock_chunkedBlock : HeaderBlock chunkedBlock := headerBlock_of_strstr (by decide +kernel) (by decide +kernel)

theorem detects_chunkedBlock : ∃ (w : DevState) (b : BufId),
    Detects ⟨0, by decide⟩ b chunkedBlock w ↔ Plain chunkedBlock := by
  obtain ⟨w, b, free, hangs, pool, room, len, bytes, unset⟩ := exists_read ⟨0, by decide⟩ chunkedBlock
  have own : w.rings.home b ≠ some .caches := by
    rw [Rings.home_of_mem hangs List.mem_cons_self]
    simp
  have block := headerBlock_chunkedBlock
  have size : 0 < (w.data.bufs b).len ∧ (w.data.bufs b).len ≤ httpBufSize := by
    rw [len]
    decide +kernel
  have detects := detects_iff block pool own size
    (by rw [len, Int.toNat_natCast, List.append_nil]; exact bytes) unset
  rw [if_neg (by simpa [room] using (by decide +kernel : (0 : Byte) ∉ chunkedBlock))] at detects
  exact ⟨w, b, detects⟩

/-- A block that does not declare the coding, though another field holds the texts. -/
def plainBlock : List Byte := text "HTTP/1.1 200 OK\r\nX-Transfer-Encoding: chunked\r\n\r\n"

theorem plainBlock_misread : ∃ (w : DevState) (b : BufId) (c : CtxId), HeaderBlock plainBlock ∧
    (w.data.bufs b).buf.slice 0 (w.data.bufs b).len.toNat = plainBlock ∧ w.rings.items (.readTodo c) = some [b] ∧
    (w.data.ctxs c).isChunk = false ∧ ¬ Detects c b plainBlock w := by
  obtain ⟨w, b, free, hangs, pool, room, len, bytes, unset⟩ := exists_read ⟨0, by decide⟩ plainBlock
  have own : w.rings.home b ≠ some .caches := by
    rw [Rings.home_of_mem hangs List.mem_cons_self]
    simp
  have block : HeaderBlock plainBlock := headerBlock_of_strstr (by decide +kernel) (by decide +kernel)
  have size : 0 < (w.data.bufs b).len ∧ (w.data.bufs b).len ≤ httpBufSize := by
    rw [len]
    decide +kernel
  have whole : (w.data.bufs b).buf.slice 0 (w.data.bufs b).len.toNat = plainBlock := by
    rw [len, Int.toNat_natCast]
    exact bytes
  refine ⟨w, b, ⟨0, by decide⟩, block, whole, hangs, unset, fun detects => ?_⟩
  have same := (detects_iff_checked pool own size whole unset).mp detects
  have said : (checked plainBlock free).2 = true := by
    have found := headEnd_of_block block (by decide +kernel) []
    rw [List.append_nil] at found
    rw [checked, found]
    dsimp only
    rw [if_neg room]
    decide +kernel
  exact absurd (same.mp said) (by decide +kernel)

end WebTunnel.Device.Detecting
