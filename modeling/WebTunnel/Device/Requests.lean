import WebTunnel.Device.Writing

/-! The steps in which a request of a tunnel client is read: the bytes go into a buffer, the header
is deciphered and given a number, and what has come is put into the queue to the server. -/

namespace WebTunnel.Device.Requests
open Library.Bytes Library.Lists Library.Routines Library.Routines.Routine Function Device.Types Buffers Pool Tunnel Http Manager
open Ciphering Writing

/-! The header of a request. -/

def seqOf (plain : List Byte) : Nat := natBE ((plain.drop 6).take 2)
def lengthOf (plain : List Byte) : Nat := natBE ((plain.drop 8).take 4)

/-- A request as it is sent on: of another type, and under the device's number for it. -/
def stamped (plain : List Byte) (reqSeq : Nat) : List Byte :=
  plain.take 5 ++ (bytesLE 1 httpCTunnelReq ++ (bytesBE 2 (reqSeq % 2 ^ 16) ++ plain.drop 8))

/-- The header that lies enciphered in a buffer. -/
def plainHeader (w : DevState) (b : BufId) : List Byte :=
  cipherWords (decry (generateKey w.data.now)) 2 ((w.data.bufs b).buf.slice 0 16)

def nextTurn (w : DevState) : Nat := (w.data.tcpServer.seq + 1) % 256

/-- The number that the device gives to the request in a buffer. -/
def numbered (w : DevState) (b : BufId) : Nat := seqOf (plainHeader w b) ||| (nextTurn w <<< 8)

theorem slice_take (m : Mem) (start : Nat) {size part : Nat} (small : part ≤ size) :
    (m.slice start size).take part = m.slice start part := by
  obtain ⟨rest, rfl⟩ := Nat.exists_eq_add_of_le small
  rw [Mem.slice_add, List.take_left' (Mem.slice_length _ _ _)]

theorem slice_drop (m : Mem) (start : Nat) {size part : Nat} (small : part ≤ size) :
    (m.slice start size).drop part = m.slice (start + part) (size - part) := by
  obtain ⟨rest, rfl⟩ := Nat.exists_eq_add_of_le small
  rw [Mem.slice_add, List.drop_left' (Mem.slice_length _ _ _), Nat.add_sub_cancel_left]

theorem slice_parts (m : Mem) : m.slice 0 16 = m.slice 0 5 ++ (m.slice 5 1 ++ (m.slice 6 2 ++ m.slice 8 8)) := by
  have first : m.slice 0 16 = m.slice 0 5 ++ m.slice 5 11 := Mem.slice_add m 0 5 11
  have second : m.slice 5 11 = m.slice 5 1 ++ m.slice 6 10 := Mem.slice_add m 5 1 10
  have third : m.slice 6 10 = m.slice 6 2 ++ m.slice 8 8 := Mem.slice_add m 6 2 8
  rw [first, second, third]

/-- The type and the number are written into the header. -/
theorem slice_stamped (m : Mem) {plain : List Byte} (whole : plain.length = 16) (reqSeq : Nat) :
    ((((m.write 0 plain).write 5 (bytesLE 1 httpCTunnelReq)).write 6 (bytesBE 2 (reqSeq % 2 ^ 16))).slice 0 16) =
      stamped plain reqSeq := by
  have back : (m.write 0 plain).slice 0 16 = plain := by
    have same := Mem.slice_write m 0 plain
    rwa [whole] at same
  have front : (m.write 0 plain).slice 0 5 = plain.take 5 := by
    rw [← back, slice_take _ _ (by decide), back]
  have behind : (m.write 0 plain).slice 8 8 = plain.drop 8 := by
    rw [← back, slice_drop _ _ (by decide), back]
  have type : ((m.write 0 plain).write 5 (bytesLE 1 httpCTunnelReq)).slice 5 1 = bytesLE 1 httpCTunnelReq :=
    Mem.slice_write _ 5 (bytesLE 1 httpCTunnelReq)
  have number (m' : Mem) : (m'.write 6 (bytesBE 2 (reqSeq % 2 ^ 16))).slice 6 2 = bytesBE 2 (reqSeq % 2 ^ 16) := by
    have same := Mem.slice_write m' 6 (bytesBE 2 (reqSeq % 2 ^ 16))
    rwa [bytesBE_length] at same
  have one : (bytesLE 1 httpCTunnelReq).length = 1 := bytesLE_length 1 _
  have two : (bytesBE 2 (reqSeq % 2 ^ 16)).length = 2 := bytesBE_length 2 _
  have apart6 (m' : Mem) {start size : Nat} (apart : start + size ≤ 6 ∨ 8 ≤ start) :
      (m'.write 6 (bytesBE 2 (reqSeq % 2 ^ 16))).slice start size = m'.slice start size :=
    Mem.slice_write_of_disjoint m' (by omega)
  have apart5 {start size : Nat} (apart : start + size ≤ 5 ∨ 6 ≤ start) :
      ((m.write 0 plain).write 5 (bytesLE 1 httpCTunnelReq)).slice start size = (m.write 0 plain).slice start size :=
    Mem.slice_write_of_disjoint _ (by omega)
  rw [slice_parts, apart6 _ (.inl (by decide)), apart5 (.inl (by decide)), front, apart6 _ (.inl (by decide)), type, number,
    apart6 _ (.inr (by decide)), apart5 (.inr (by decide)), behind, stamped]

theorem write_behind (m : Mem) {start : Nat} {data : List Byte} {i : Nat} (behind : start + data.length ≤ i) :
    m.write start data i = m i := by
  unfold Mem.write
  split
  · rw [List.getD_eq_default _ _ (by omega)]
  · rfl

/-- The header as it is written back into its buffer. -/
def stampedBuf (w : DevState) (b : BufId) : Mem :=
  (((w.data.bufs b).buf.write 0 (plainHeader w b)).write 5 (bytesLE 1 httpCTunnelReq)).write 6
    (bytesBE 2 (numbered w b % 2 ^ 16))

/-- The state in which a request was given a number. -/
def accept (k : ClientId) (b : BufId) (w : DevState) : DevState :=
  { w with data :=
    { (w.data.setBuf b { w.data.bufs b with buf := stampedBuf w b }).setClient k
        { w.data.clients k with
          reqSeq := numbered w b
          bufRead := { (w.data.clients k).bufRead with totalLen := toInt32 (lengthOf (plainHeader w b)) }
          headerParsed := true } with
      tcpServer := { w.data.tcpServer with seq := nextTurn w } } }

@[simp] theorem setClient_bufs (d : HttpMgmt) (k : ClientId) (client : TcpClientContext) :
    (d.setClient k client).bufs = d.bufs := rfl

section
variable {k : ClientId} {b : BufId} {w : DevState} {post : Unit → DevState → Prop} {err : Fault → Prop}

theorem plainHeader_length (w : DevState) (b : BufId) : (plainHeader w b).length = 16 := by
  rw [plainHeader, cipherWords_length 2 (by rw [Mem.slice_length]), Mem.slice_length]

theorem stampedBuf_header (w : DevState) (b : BufId) :
    (stampedBuf w b).slice 0 16 = stamped (plainHeader w b) (numbered w b) := slice_stamped _ (plainHeader_length w b) _

theorem stampedBuf_behind (w : DevState) (b : BufId) {i : Nat} (high : 16 ≤ i) : stampedBuf w b i = (w.data.bufs b).buf i := by
  have five : 5 + (bytesLE 1 httpCTunnelReq).length ≤ i := by
    rw [bytesLE_length]
    omega
  have six : 6 + (bytesBE 2 (numbered w b % 2 ^ 16)).length ≤ i := by
    rw [bytesBE_length]
    omega
  have first : 0 + (plainHeader w b).length ≤ i := by
    rw [plainHeader_length]
    omega
  exact (write_behind _ six).trans ((write_behind _ five).trans (write_behind _ first))

theorem wp_clientParseHeader : Wp (clientParseHeader k b) post err w ↔ post () (accept k b w) := by
  have zero : (0 : Int) = ((0 : Nat) : Int) := rfl
  have words : httpCHeaderLen / 4 = 2 * 2 := rfl
  have fits : 0 + 8 * 2 ≤ bufRoom := by decide
  have room : 0 ≤ (0 : Int) ∧ 0 ≤ ((httpCHeaderLen : Nat) : Int) ∧ 0 + ((httpCHeaderLen : Nat) : Int) ≤ bufRoom := by decide
  have room5 : 0 ≤ (5 : Int) ∧ (5 : Int) + (bytesLE 1 httpCTunnelReq).length ≤ bufRoom := by
    rw [bytesLE_length]
    decide
  have room6 : 0 ≤ (6 : Int) ∧ (6 : Int) + (bytesBE 2 (numbered w b % 2 ^ 16)).length ≤ bufRoom := by
    rw [bytesBE_length]
    decide
  have plain : cipherWords (decry (generateKey w.data.now)) 2 ((w.data.bufs b).buf.slice 0 (8 * 2)) = plainHeader w b := rfl
  have header : ((w.data.bufs b).buf.write 0 (plainHeader w b)).slice 0 httpCHeaderLen = plainHeader w b := by
    have same := Mem.slice_write (w.data.bufs b).buf 0 (plainHeader w b)
    rwa [plainHeader_length] at same
  rw [clientParseHeader, wp_bind, decry2, wp_cipherBuf_of_eq zero (congrArg Nat.cast words) fits, plain, wp_bind, wp_bytesAt,
    iff_of_eq (propext (and_iff_left fun outside => absurd room outside)), forall_prop_of_true room]
  simp only [setBuf_bufs, Int.toNat_zero, Int.toNat_natCast]
  rw [header, wp_bind, wp_data]
  have number : (natBE (((plainHeader w b).drop 6).take 2) ||| (((w.data.tcpServer.seq + 1) % 256) <<< 8)) = numbered w b := rfl
  have length : natBE (((plainHeader w b).drop 8).take 4) = lengthOf (plainHeader w b) := rfl
  have counter (info : BufInfo) : (w.data.setBuf b info).tcpServer = w.data.tcpServer := rfl
  simp only [wp_bind, wp_modify, wp_memcpy, counter, number, length, bytesLE_htons, room5, room6, and_true,
    forall_true_left, not_true_eq_false, false_implies]
  rw [wp_getClient, wp_setClient]
  simp only [HttpMgmt.setBuf, HttpMgmt.setClient, update_self, update_idem]
  exact Iff.rfl

end

/-! The steps of reading. -/

/-- A client between two requests, and the queue to the server. -/
structure Awaits (k : ClientId) (old pool : List BufId) (w : DevState) : Prop where
  line : (w.data.clients k).line = .start ∨ (w.data.clients k).line = .pending
  parsed : (w.data.clients k).headerParsed = false
  len : (w.data.clients k).bufRead.len = 0
  totalLen : (w.data.clients k).bufRead.totalLen = 0
  curr : ∀ b, (w.data.clients k).bufRead.curr = some b → (w.data.bufs b).start = 0 ∧ w.rings.home b = none
  read : w.rings.items (.clientRead k) = some []
  queue : w.rings.items .toserver = some old
  pool : w.rings.items .caches = some pool
  going : w.data.toserver = false → w.data.bufToserver.curr = none

/-- A client whose buffer holds `n` bytes of what it reads; `m` is the buffer's memory. -/
structure Reads (k : ClientId) (old pool : List BufId) (b : BufId) (n : Nat) (m : Mem) (client : TcpClientContext)
    (w : DevState) : Prop where
  own : w.data.clients k = client
  curr : client.bufRead.curr = some b
  len : client.bufRead.len = 0
  buf : (w.data.bufs b).buf = m
  start : (w.data.bufs b).start = n
  away : w.rings.home b = none
  read : w.rings.items (.clientRead k) = some []
  queue : w.rings.items .toserver = some old
  pool : w.rings.items .caches = some pool
  going : w.data.toserver = false → w.data.bufToserver.curr = none

/-- What was read was put into the queue, in one buffer. -/
structure Finished (k : ClientId) (old pool : List BufId) (b : BufId) (n : Nat) (m : Mem) (client : TcpClientContext)
    (v : DevState) : Prop where
  buf : v.data.bufs b = ⟨m, 0, n, n⟩
  client : v.data.clients k =
    { client with
      bufRead := { client.bufRead with curr := none, len := 0, totalLen := 0 }
      headerParsed := false
      idle := true }
  read : v.rings.items (.clientRead k) = some []
  queue : v.rings.items .toserver = some (old ++ [b])
  pool : v.rings.items .caches = some pool
  going : v.data.toserver = false → v.data.bufToserver.curr = none

section
variable {k : ClientId} {b : BufId} {old pool : List BufId} {n : Nat} {m : Mem} {client : TcpClientContext} {w : DevState}
  {post : Unit → DevState → Prop} {err : Fault → Prop}

/-- The queue is set going where it was not. -/
theorem wp_httpMgmtToserver (queue : w.rings.items .toserver = some (old ++ [b]))
    (going : w.data.toserver = false → w.data.bufToserver.curr = none)
    (next : ∀ d : HttpMgmt, d.bufs = w.data.bufs → d.clients = w.data.clients →
      (d.toserver = false → d.bufToserver.curr = none) → post () ⟨d, w.rings⟩) :
    Wp httpMgmtToserver post err w := by
  rw [httpMgmtToserver, wp_bind, wp_data, wp_when]
  refine ⟨fun still => ?_, fun _ => next w.data rfl rfl going⟩
  rw [wp_bind, wp_assert]
  refine ⟨fun _ => ?_, fun wrong => absurd (going (by simpa using still)) wrong⟩
  rw [wp_bind, nextBufInfo, wp_head]
  refine ⟨fun l found => ?_, fun none => by cases queue.symm.trans none⟩
  cases queue.symm.trans found
  rw [wp_bind, setToserver, wp_modify, wp_when]
  have some : (old ++ [b]).head?.isSome = true := by simp
  refine ⟨fun _ => ?_, fun none => absurd some none⟩
  rw [wp_bind, websocketGoWritable, wp_note, wp_modify]
  exact next _ rfl rfl fun stopped => by cases stopped

theorem wp_saveRead_request (reads : Reads k old pool b n m client w)
    (next : ∀ v, Finished k old pool b n m client v → post () v) :
    Wp (do tcpClientSaveRead k b; clientRequest k) post err w := by
  rw [wp_bind, tcpClientSaveRead, wp_bind, wp_getBuf, wp_bind, wp_setBuf, wp_bind, wp_getClient, wp_bind, wp_setClient, wp_bind]
  refine wp_addTail_of_free (w := ⟨_, w.rings⟩) reads.read reads.away fun R items home => ?_
  rw [wp_bind, wp_getClient, wp_setClient, clientRequest, wp_bind, wp_getClient, wp_bind, wp_data, wp_bind, wp_items]
  have list : R.items (.clientRead k) = some [b] := by rw [items, update_self, List.nil_append]
  have queue' : R.items .toserver = some old := by
    rw [items, update_of_ne (by simp)]
    exact reads.queue
  refine ⟨fun l found => ?_, fun none => by cases list.symm.trans none⟩
  cases list.symm.trans found
  rw [wp_bind, wp_note, wp_bind]
  refine wp_spliceTailInit_of_found (w := ⟨_, R⟩) (by simp) list queue' fun S items' _ => ?_
  rw [wp_bind, wp_setClient, wp_bind]
  have longer : S.items .toserver = some (old ++ [b]) := by rw [items', update_self]
  refine wp_httpMgmtToserver longer reads.going fun d bufs clients going' => ?_
  rw [wp_bind, wp_getClient, wp_setClient]
  apply next
  constructor
  case buf =>
    change d.bufs b = _
    rw [bufs, ← reads.buf, ← reads.start]
    exact setBuf_bufs _ _
  case client =>
    rw [clients, ← reads.own]
    simp [HttpMgmt.setClient, HttpMgmt.setBuf, HttpMgmt.note]
  case read => rw [items', update_of_ne (by simp), update_self]
  case queue => exact longer
  case pool =>
    rw [items', update_of_ne (by simp), update_of_ne (by simp), items, update_of_ne (by simp)]
    exact reads.pool
  case going => exact going'

end

/-! One call of the coroutine. -/

/-- The client has a buffer to read into, one that it had or a new one. -/
def Obtains (k : ClientId) (old pool : List BufId) (b : BufId) (n : Nat) (m : Mem) (client : TcpClientContext)
    (w : DevState) : Prop :=
  ∃ u, (clientReadBuf k).run w = .ok (b, u) ∧ Reads k old pool b n m client u ∧ u.data.now = w.data.now ∧
    u.data.replies = w.data.replies

def busy (k : ClientId) (w : DevState) : DevState :=
  { w with data := w.data.setClient k { w.data.clients k with idle := false } }

/-- What a call does at the head of the loop. -/
def clientReadOnce (k : ClientId) : DevM CallerStatus := do
  let b ← clientReadBuf k
  let info ← getBuf b
  let left := (httpBufSize : Int) - info.start
  assert (0 < left)
  let got ← sysRead (.client k) left
  match got with
  | some (byte :: rest) =>
    memcpy b info.start (byte :: rest)
    let info ← getBuf b
    setBuf b { info with start := info.start + (byte :: rest).length }
    when ((httpBufSize : Int) ≤ info.start + (byte :: rest).length) do tcpClientSaveRead k b
    clientReceived k
    setClientLine k .pending
    return .pending
  | _ =>
    let d ← data
    if got.isSome ∨ (d.errno ≠ .intr ∧ d.errno ≠ .again) then
      clientLastRead k b
      setClientLine k .finished
      return .finish
    else
      setClientLine k .pending
      return .pending

section
variable {k : ClientId} {b : BufId} {old pool : List BufId} {n : Nat} {m : Mem} {client : TcpClientContext}
  {bytes : List Byte} {w : DevState} {post : CallerStatus → DevState → Prop} {err : Fault → Prop}

theorem obtains_of_reads (reads : Reads k old pool b n m client w) : Obtains k old pool b n m client w := by
  have wp : Wp (clientReadBuf k) (fun b' u => b' = b ∧ u = w) (fun _ => False) w := by
    rw [clientReadBuf, wp_bind, wp_getClient, reads.own, reads.curr]
    exact ⟨rfl, rfl⟩
  obtain ⟨_, _, ran, rfl, rfl⟩ := wp_total.mp wp
  exact ⟨_, ran, reads, rfl, rfl⟩

theorem Awaits.obtains (awaits : Awaits k old pool w) (some : (w.data.clients k).bufRead.curr ≠ none ∨ pool ≠ []) :
    ∃ b pool' m, Obtains k old pool' b 0 m
      { w.data.clients k with bufRead := { (w.data.clients k).bufRead with curr := .some b } } w := by
  cases curr : (w.data.clients k).bufRead.curr with
  | some b =>
    obtain ⟨start, away⟩ := awaits.curr b curr
    refine ⟨b, pool, (w.data.bufs b).buf, obtains_of_reads ⟨?_, rfl, awaits.len, rfl, start, away, awaits.read, awaits.queue,
      awaits.pool, awaits.going⟩⟩
    rw [← curr]
  | none =>
    obtain ⟨b, free, rfl⟩ := List.exists_cons_of_ne_nil (some.resolve_left fun other => other curr)
    refine ⟨b, free, (w.data.bufs b).buf, ?_⟩
    have wp : Wp (clientReadBuf k) (fun b' u => b' = b ∧ Reads k old free b 0 (w.data.bufs b).buf
        { w.data.clients k with bufRead := { (w.data.clients k).bufRead with curr := .some b } } u ∧
        u.data.now = w.data.now ∧ u.data.replies = w.data.replies) (fun _ => False) w := by
      rw [clientReadBuf, wp_bind, wp_getClient, curr]
      simp only
      rw [wp_bind]
      refine wp_allocBuf_of_cons awaits.pool fun R items home => ?_
      rw [wp_bind, wp_setClient, wp_deref]
      refine ⟨fun b' same => ?_, fun none => absurd none (Option.some_ne_none b)⟩
      obtain rfl := Option.some.inj same
      refine ⟨rfl, ⟨update_self _ _ _, rfl, awaits.len, ?_, ?_, ?_, ?_, ?_, ?_, awaits.going⟩, rfl, rfl⟩
      · simp
      · simp
      · rw [home, update_self]
      · rw [items, update_of_ne (by simp)]
        exact awaits.read
      · rw [items, update_of_ne (by simp)]
        exact awaits.queue
      · rw [items, update_self]
    obtain ⟨_, u, ran, rfl, reads, now, replies⟩ := wp_total.mp wp
    exact ⟨u, ran, reads, now, replies⟩

theorem wp_tcpClientRead_once (line : (w.data.clients k).line = .start ∨ (w.data.clients k).line = .pending) :
    Wp (tcpClientRead k) post err w ↔ Wp (clientReadOnce k) post err (busy k w) := by
  rw [tcpClientRead, wp_bind, wp_getClient, wp_bind, wp_setClient]
  change Wp _ post err (busy k w) ↔ _
  rcases line with line | line
  · rw [line]
    rfl
  · rw [line]
    rfl

theorem wp_sysRead_data {post : Option (List Byte) → DevState → Prop} {o : Owner} {room : Int}
    (data : w.data.replies = [.data bytes])
    (next : ∀ d : HttpMgmt, d.bufs = w.data.bufs → d.clients = w.data.clients → d.now = w.data.now →
      (d.toserver = w.data.toserver ∧ d.bufToserver = w.data.bufToserver) →
      post (some (bytes.take room.toNat)) ⟨d, w.rings⟩) :
    Wp (sysRead o room) post err w := by
  rw [sysRead, wp_bind, reply, wp_bind, wp_data, wp_bind, wp_modify, wp_pure, data, List.headD_cons]
  simp only
  rw [wp_bind, wp_note, wp_pure]
  exact next _ rfl rfl rfl ⟨rfl, rfl⟩

/-- What was read lies behind the bytes that came before. -/
theorem wp_tcpClientRead_data (line : (w.data.clients k).line = .start ∨ (w.data.clients k).line = .pending)
    (obtains : Obtains k old pool b n m client (busy k w)) (data : w.data.replies = [.data bytes]) (nonempty : bytes ≠ [])
    (room : n + bytes.length ≤ httpBufSize)
    (within : n + bytes.length < httpBufSize → ∀ u, Reads k old pool b (n + bytes.length) (m.write n bytes) client u →
      u.data.now = w.data.now → Wp (clientReceived k) (fun _ v => Wp (setClientLine k .pending) (fun _ v => post .pending v) err v) err u)
    (full : n + bytes.length = httpBufSize → ∀ u, (u.data.clients k).bufRead.curr = none →
      Wp (clientReceived k) (fun _ v => Wp (setClientLine k .pending) (fun _ v => post .pending v) err v) err u) :
    Wp (tcpClientRead k) post err w := by
  obtain ⟨u, ran, reads, now, replies⟩ := obtains
  have positive := List.length_pos_iff.mpr nonempty
  have size : httpBufSize = 2048 := rfl
  have most : bufRoom = 2052 := rfl
  have left : (0 : Int) < httpBufSize - n := by omega
  have whole : bytes.take ((httpBufSize : Int) - n).toNat = bytes := List.take_of_length_le (by omega)
  have reads' (u' : DevState) (rings : u'.rings = u.rings) (clients : u'.data.clients k = client)
      (buf : (u'.data.bufs b).buf = m.write n bytes) (start : (u'.data.bufs b).start = n + bytes.length)
      (going : u'.data.toserver = false → u'.data.bufToserver.curr = none) :
      Reads k old pool b (n + bytes.length) (m.write n bytes) client u' := by
    refine ⟨clients, reads.curr, reads.len, buf, start.trans (Int.natCast_add n bytes.length).symm, ?_, ?_, ?_, ?_, going⟩
    · rw [rings]
      exact reads.away
    · rw [rings]
      exact reads.read
    · rw [rings]
      exact reads.queue
    · rw [rings]
      exact reads.pool
  rw [wp_tcpClientRead_once line, clientReadOnce, wp_bind_of_run ran, wp_bind, wp_getBuf, reads.start, wp_bind, wp_assert]
  refine ⟨fun _ => ?_, fun wrong => absurd left wrong⟩
  rw [wp_bind]
  refine wp_sysRead_data (replies.trans data) fun d bufs clients same queue => ?_
  rw [whole]
  obtain ⟨byte, more, rfl⟩ := List.exists_cons_of_ne_nil nonempty
  simp only
  rw [wp_bind, wp_memcpy]
  refine ⟨fun _ => ?_, fun outside => absurd ⟨by omega, by omega⟩ outside⟩
  have buf : (d.bufs b).buf = m := by
    rw [bufs]
    exact reads.buf
  have start : (d.bufs b).start = n := by
    rw [bufs]
    exact reads.start
  have going : d.toserver = false → d.bufToserver.curr = none := by
    rw [queue.1, queue.2]
    exact reads.going
  have own : d.clients k = client := by
    rw [clients]
    exact reads.own
  rw [wp_bind, wp_getBuf, wp_bind, wp_setBuf, wp_bind, wp_when]
  simp only [setBuf_bufs, setBuf_setBuf, buf, start, Int.toNat_natCast]
  constructor
  · intro fills
    rw [tcpClientSaveRead, wp_bind, wp_getBuf, wp_bind, wp_setBuf, wp_bind, wp_getClient, wp_bind, wp_setClient, wp_bind]
    refine wp_addTail_of_free (w := ⟨_, u.rings⟩) reads.read reads.away fun R _ _ => ?_
    rw [wp_bind, wp_getClient, wp_setClient, wp_bind]
    refine full (by omega) _ ?_
    simp [HttpMgmt.setClient]
  · intro part
    rw [wp_bind]
    exact within (by omega) _ (reads' _ rfl own (by rw [setBuf_bufs]) (by rw [setBuf_bufs]) going) (same.trans now)

end

/-! What is done with the bytes. -/

/-- Looks whether all of a request has come. -/
def clientRest (k : ClientId) : DevM Unit := do
  let client ← getClient k
  assert (client.bufRead.totalLen % 8 = 0)
  let b ← deref client.bufRead.curr
  when (client.bufRead.totalLen ≤ client.bufRead.len + (← getBuf b).start) do
    decry2 b httpCHeaderLen ((client.bufRead.totalLen - httpCHeaderLen) / 4)
    tcpClientSaveRead k b
    clientRequest k

/-- The memory after so many blocks behind the header were deciphered. -/
def deciphered (now : Int) (blocks : Nat) (m : Mem) : Mem :=
  m.write 16 (cipherWords (decry (generateKey now)) blocks (m.slice 16 (8 * blocks)))

theorem clientReceived_eq (k : ClientId) : clientReceived k = (do
    let client ← getClient k
    when (¬ client.headerParsed) do
      let b ← deref client.bufRead.curr
      when ((httpCHeaderLen : Int) ≤ (← getBuf b).start) do clientParseHeader k b
    clientRest k) := rfl

section
variable {k : ClientId} {b : BufId} {old pool : List BufId} {n : Nat} {m : Mem} {client : TcpClientContext} {w : DevState}
  {post : Unit → DevState → Prop} {err : Fault → Prop}

/-- The length, which is a whole number of blocks, is compared with what has come. -/
theorem wp_clientRest {total : Nat} (reads : Reads k old pool b n m client w) (told : client.bufRead.totalLen = total)
    (whole : 8 ∣ total)
    (come : total ≤ n → Wp (do
      decry2 b httpCHeaderLen (((total : Int) - httpCHeaderLen) / 4)
      tcpClientSaveRead k b
      clientRequest k) post err w)
    (more : n < total → post () w) : Wp (clientRest k) post err w := by
  rw [clientRest, wp_bind, wp_getClient, reads.own, told, wp_bind, wp_assert]
  refine ⟨fun _ => ?_, fun wrong => absurd (by omega) wrong⟩
  rw [wp_bind, wp_deref, reads.curr]
  refine ⟨fun b' same => ?_, fun none => absurd none (Option.some_ne_none b)⟩
  obtain rfl := Option.some.inj same
  rw [wp_bind, wp_getBuf, wp_when, reads.len, reads.start]
  exact ⟨fun enough => come (by omega), fun short => more (by omega)⟩

theorem wp_clientRest_short {total : Nat} (reads : Reads k old pool b n m client w) (told : client.bufRead.totalLen = total)
    (whole : 8 ∣ total) (more : n < total) (next : post () w) : Wp (clientRest k) post err w :=
  wp_clientRest reads told whole (fun enough => absurd more (Nat.not_lt.mpr enough)) fun _ => next

theorem wp_clientRest_whole {blocks : Nat} (reads : Reads k old pool b n m client w)
    (told : client.bufRead.totalLen = (16 + 8 * blocks : Nat)) (enough : 16 + 8 * blocks ≤ n) (room : n ≤ httpBufSize)
    (next : ∀ v, Finished k old pool b n (deciphered w.data.now blocks m) client v → post () v) :
    Wp (clientRest k) post err w := by
  have width : ((httpCHeaderLen : Nat) : Int) = ((16 : Nat) : Int) := rfl
  have words : (((16 + 8 * blocks : Nat) : Int) - httpCHeaderLen) / 4 = ((2 * blocks : Nat) : Int) := by omega
  have size : httpBufSize = 2048 := rfl
  have most : bufRoom = 2052 := rfl
  refine wp_clientRest reads told (by omega) (fun _ => ?_) fun short => absurd enough (Nat.not_le.mpr short)
  rw [wp_bind, decry2, wp_cipherBuf_of_eq width words (by omega), reads.buf]
  refine wp_saveRead_request ⟨reads.own, reads.curr, reads.len, ?_, ?_, reads.away, reads.read, reads.queue, reads.pool,
    reads.going⟩ next
  · rw [setBuf_bufs]
    rfl
  · rw [setBuf_bufs]
    exact reads.start

/-- Where no length is known, any bytes are taken for a whole request. -/
theorem wp_clientRest_stale (reads : Reads k old pool b n m client w) (stale : client.bufRead.totalLen = 0)
    (next : ∀ v, Finished k old pool b n m client v → post () v) : Wp (clientRest k) post err w := by
  have width : ((httpCHeaderLen : Nat) : Int) = 16 := rfl
  have even : (((0 : Nat) : Int) - httpCHeaderLen) / 4 % 2 = 0 := by omega
  have none : (((0 : Nat) : Int) - httpCHeaderLen) / 4 ≤ 0 := by omega
  refine wp_clientRest reads stale (Nat.dvd_zero 8) (fun _ => ?_) fun short => absurd short (Nat.not_lt_zero n)
  rw [wp_bind]
  exact wp_cipherBuf_none even none (wp_saveRead_request reads next)

theorem wp_clientReceived_parsed (reads : Reads k old pool b n m client w) (parsed : client.headerParsed = true) :
    Wp (clientReceived k) post err w ↔ Wp (clientRest k) post err w := by
  rw [clientReceived_eq, wp_bind, wp_getClient, reads.own, wp_bind, wp_when, parsed]
  simp

theorem wp_clientReceived_short (reads : Reads k old pool b n m client w) (unparsed : client.headerParsed = false)
    (short : n < 16) : Wp (clientReceived k) post err w ↔ Wp (clientRest k) post err w := by
  have width : ((httpCHeaderLen : Nat) : Int) = 16 := rfl
  rw [clientReceived_eq, wp_bind, wp_getClient, reads.own, wp_bind, wp_when, unparsed]
  simp [wp_when, reads.curr, reads.start, width, short]

theorem wp_clientReceived_header (reads : Reads k old pool b n m client w) (unparsed : client.headerParsed = false)
    (long : 16 ≤ n) {plain : List Byte} (deciphers : cipherWords (decry (generateKey w.data.now)) 2 (m.slice 0 16) = plain)
    (next : ∀ m' (number : Nat) u, m'.slice 0 16 = stamped plain number → (∀ i, 16 ≤ i → m' i = m i) →
      Reads k old pool b n m' { client with
        reqSeq := number
        bufRead := { client.bufRead with totalLen := toInt32 (lengthOf plain) }
        headerParsed := true } u →
      u.data.now = w.data.now → Wp (clientRest k) post err u) :
    Wp (clientReceived k) post err w := by
  have header : plainHeader w b = plain := by
    rw [plainHeader, reads.buf, deciphers]
  have width : ((httpCHeaderLen : Nat) : Int) = 16 := rfl
  rw [clientReceived_eq, wp_bind, wp_getClient, reads.own, wp_bind, wp_when, unparsed]
  refine ⟨fun _ => ?_, fun wrong => absurd Bool.false_ne_true wrong⟩
  rw [wp_bind, wp_deref, reads.curr]
  refine ⟨fun b' same => ?_, fun none => absurd none (Option.some_ne_none b)⟩
  obtain rfl := Option.some.inj same
  rw [wp_bind, wp_getBuf, wp_when, reads.start]
  refine ⟨fun _ => ?_, fun short => absurd (by omega) short⟩
  rw [wp_clientParseHeader]
  have front := stampedBuf_header w b
  rw [header] at front
  refine next (stampedBuf w b) (numbered w b) _ front (fun i high => ?_) ?_ rfl
  · rw [stampedBuf_behind w b high, reads.buf]
  · refine ⟨?_, reads.curr, reads.len, ?_, ?_, reads.away, reads.read, reads.queue, reads.pool, reads.going⟩
    · rw [accept, header, reads.own]
      exact update_self _ _ _
    · simp [accept]
    · simp [accept, reads.start]

end

end WebTunnel.Device.Requests
