import WebTunnel.Device.Writing

/-! Responses to tunnel clients: which client gets one, what is put in front of it, and what
comes out of the stream it is written in. -/

namespace WebTunnel.Device.Replying
open Library.Bytes Library.Lists Library.Routines Library.Routines.Routine Function Device.Types Buffers Pool Tunnel Http Manager
open Ciphering Writing

/-- The client a response is for. -/
def target (w : DevState) : Option ClientId :=
  w.data.listClient.find? fun k => (w.data.clients k).reqSeq = w.data.bufPrepare.seq

/-- A response was collected for a client. -/
structure Prepared (k : ClientId) (pool pre l : List BufId) (w : DevState) : Prop where
  target : target w = some k
  prepare : w.rings.items .prepare = some l
  queue : w.rings.items (.clientWrite k) = some pre
  pool : w.rings.items .caches = some pool
  pfd : (w.data.clients k).pfd ≠ none

/-- The header of the response. -/
def header (k : ClientId) (w : DevState) : List Byte :=
  clientHeader (w.data.clients k).reqSeq w.data.bufPrepare.len httpCResp

/-- The client's state after a response was queued for it. -/
def alerted (client : TcpClientContext) : TcpClientContext :=
  if client.idle then { client with line := .start, funcRun := .write, status := .ready, idle := false } else client

/-- The response is queued, behind its header. -/
structure Replied (k : ClientId) (b : BufId) (free pre l : List BufId) (w v : DevState) : Prop where
  queue : v.rings.items (.clientWrite k) = some (pre ++ b :: l)
  others : ∀ k' ≠ k, v.rings.items (.clientWrite k') = w.rings.items (.clientWrite k')
  pool : v.rings.items .caches = some free
  header : v.data.bufs b = ⟨(w.data.bufs b).buf.write 0 (header k w), 0, httpCHeaderLen, httpCHeaderLen⟩
  bufs : ∀ b' ≠ b, v.data.bufs b' = w.data.bufs b'
  client : v.data.clients k = alerted (w.data.clients k)
  written : ∀ o, written o v.data.acts = written o w.data.acts

@[simp] theorem clientHeader_length (reqSeq len : Int) (type : Nat) : (clientHeader reqSeq len type).length = 16 := by
  rw [clientHeader, headerMem]
  simp

section
variable {k : ClientId} {b : BufId} {free pre l : List BufId} {w v : DevState} {err : Fault → Prop}

theorem wp_clientToWrite {post : Unit → DevState → Prop} (pfd : (w.data.clients k).pfd ≠ none)
    (next : ∀ d : HttpMgmt, d.bufs = w.data.bufs → d.clients = update w.data.clients k (alerted (w.data.clients k)) →
      d.listClient = w.data.listClient → d.tcpServer = w.data.tcpServer → d.bufPrepare = w.data.bufPrepare →
      (∀ o, Writing.written o d.acts = Writing.written o w.data.acts) → post () ⟨d, w.rings⟩) :
    Wp (clientToWrite k) post err w := by
  rw [clientToWrite, wp_bind, wp_getClient, wp_when]
  refine ⟨fun idle => ?_, fun busy => ?_⟩
  · rw [wp_bind, setEvents, wp_bind, wp_deref]
    refine ⟨fun slot found => ?_, fun none => absurd none pfd⟩
    simp only [getPollFd, setPollFd, wp_bind, wp_data, wp_pure, wp_modify, wp_note, wp_setClient]
    refine next _ rfl ?_ rfl rfl rfl fun o => (written_cons o _ _).trans (List.append_nil _)
    rw [alerted, if_pos idle]
    rfl
  · refine next w.data rfl ?_ rfl rfl rfl fun _ => rfl
    rw [alerted, if_neg busy, update_eq_self]

theorem wp_processTunnelResp {post : Int → DevState → Prop} (prepared : Prepared k (b :: free) pre l w)
    (next : ∀ v, Replied k b free pre l w v → v.data.listClient = w.data.listClient →
      (∀ k', (v.data.clients k').reqSeq = (w.data.clients k').reqSeq) → v.data.tcpServer = w.data.tcpServer → post 0 v) :
    Wp processTunnelResp post err w := by
  have found : (w.data.listClient.find? fun k => (w.data.clients k).reqSeq = w.data.bufPrepare.seq) = some k := prepared.target
  rw [processTunnelResp, wp_bind, wp_data, found]
  simp only
  rw [wp_bind, wp_getClient, wp_bind]
  refine wp_allocBuf_of_cons prepared.pool fun R items home => ?_
  rw [wp_bind, wp_deref]
  refine ⟨fun b' same => ?_, fun none => absurd none (Option.some_ne_none b)⟩
  obtain rfl := Option.some.inj same
  have inside : 0 ≤ (0 : Int) ∧ (0 : Int) + (header k w).length ≤ bufRoom := by
    rw [header, clientHeader_length]
    decide
  rw [wp_bind, fillBuf, wp_bind, wp_memcpy]
  refine ⟨fun _ => ?_, fun outside => absurd inside outside⟩
  rw [wp_bind, wp_getBuf, wp_setBuf]
  simp only [setBuf_bufs, setBuf_setBuf, Int.toNat_zero]
  have prepare : R.items .prepare = some l := by
    rw [items, update_of_ne (by simp)]
    exact prepared.prepare
  rw [wp_bind]
  refine wp_add_of_free (w := ⟨_, R⟩) prepare (by rw [home, update_self]) fun S items' home' => ?_
  have todo : S.items .prepare = some (b :: l) := by rw [items', update_self]
  have queue : S.items (.clientWrite k) = some pre := by
    rw [items', update_of_ne (by simp), items, update_of_ne (by simp)]
    exact prepared.queue
  rw [wp_bind]
  refine wp_spliceTailInit_of_found (w := ⟨_, S⟩) (by simp) todo queue fun T items'' _ => ?_
  rw [wp_bind]
  refine wp_clientToWrite prepared.pfd fun d bufs clients listClient tcpServer _ same => ?_
  rw [wp_pure]
  refine next _ ⟨?_, fun k' other => ?_, ?_, ?_, fun b' other => ?_, ?_, same⟩ listClient (fun k' => ?_) tcpServer
  · rw [items'', update_self]
  · rw [items'', update_of_ne (by simp [other]), update_of_ne (by simp), items', update_of_ne (by simp), items,
      update_of_ne (by simp)]
  · rw [items'', update_of_ne (by simp), update_of_ne (by simp), items', update_of_ne (by simp), items, update_self]
  · rw [bufs, setBuf_bufs]
    rfl
  · rw [bufs, setBuf_bufs_of_ne _ _ other]
  · rw [clients, update_self]
    rfl
  · rw [clients]
    by_cases same : k' = k
    · subst same
      rw [update_self, alerted]
      split
      · rfl
      · rfl
    · rw [update_of_ne same]
      rfl

end

/-! What the client reads. -/

/-- The bytes of a stream, read with the key of a minute. -/
def decoded (now : Int) (bytes : List Byte) : List Byte :=
  cipherWords (decry (generateKey now)) (bytes.length / 8) bytes

/-- The length that a header tells. -/
def told (bytes : List Byte) : Nat := natBE ((bytes.drop 8).take 4)

theorem decoded_append (now : Int) {first rest : List Byte} (whole : 8 ∣ first.length) :
    decoded now (first ++ rest) = decoded now first ++ decoded now rest := by
  obtain ⟨count, whole⟩ := whole
  have front : first.length / 8 = count := by omega
  have total : (first ++ rest).length / 8 = count + rest.length / 8 := by
    rw [List.length_append]
    omega
  rw [decoded, total, cipherWords_append count (rest.length / 8) whole, decoded, decoded, front]

theorem decoded_enciphered (now : Int) (info : BufInfo) : decoded now (enciphered now info) = rounded info := by
  have count : (enciphered now info).length / 8 = blocks info := by
    rw [enciphered_length]
    omega
  rw [decoded, count]
  exact decry_encryWords _ _ (rounded_length info).ge

theorem decoded_stream (now : Int) (bufs : BufId → BufInfo) (l : List BufId) :
    decoded now (l.flatMap fun b => enciphered now (bufs b)) = l.flatMap fun b => rounded (bufs b) := by
  induction l with
  | nil =>
    rw [List.flatMap_nil, List.flatMap_nil, decoded, List.length_nil, Nat.zero_div, cipherWords]
  | cons b rest ih =>
    have whole : 8 ∣ (enciphered now (bufs b)).length := ⟨_, enciphered_length now (bufs b)⟩
    rw [List.flatMap_cons, List.flatMap_cons, decoded_append now whole, decoded_enciphered, ih]

theorem told_clientHeader (reqSeq : Int) {len : Int} (type : Nat) (rest : List Byte) (positive : 0 ≤ len)
    (small : len ≤ httpInMax - httpCHeaderLen) :
    told (clientHeader reqSeq len type ++ rest) = (len + httpCHeaderLen).toNat := by
  have most : ((httpInMax : Nat) : Int) = 20480 := rfl
  have width : ((httpCHeaderLen : Nat) : Int) = 16 := rfl
  have fits : toUnsigned 32 (len + httpCHeaderLen) < 256 ^ 4 := by
    unfold toUnsigned
    omega
  have front (magic version type' seq length : List Byte) (rest' : List Byte) (eight : (magic ++ version ++ type' ++ seq).length = 8)
      (four : length.length = 4) :
      ((magic ++ version ++ type' ++ seq ++ length ++ rest' ++ rest).drop 8).take 4 = length := by
    rw [List.append_assoc _ rest', List.append_assoc _ length, List.drop_left' eight, List.take_left' four]
  rw [told, clientHeader, headerMem, front _ _ _ _ _ _ (by simp) (by simp), bytesLE_htonl, natBE_bytesBE_of_lt fits, toUnsigned,
    Int.emod_eq_of_lt (by omega) (by omega)]

/-! A response from end to end. -/

/-- The response is whole, and its client idle or about to write what was queued before. -/
structure Answers (k : ClientId) (pool pre l : List BufId) (w : DevState) : Prop
    extends Prepared k pool pre l w where
  turn : (w.data.clients k).idle = true ∨ (w.data.clients k).funcRun = .write ∧ (w.data.clients k).line = .start
  curr : (w.data.clients k).bufWrite.curr = none
  queued : ∀ b' ∈ pre ++ l, Queued (w.data.bufs b')
  len : w.data.bufPrepare.len = (contents w.data l).flatten.length
  small : w.data.bufPrepare.len ≤ httpInMax - httpCHeaderLen

/-- What is written for the response, behind what was queued before, gives its header and its
payload when it is read with the same key and cut at the length that the header tells. -/
def Decodes (k : ClientId) (pre l : List BufId) (w : DevState) : Prop :=
  ∃ v, processTunnelResp.run w = .ok (0, v) ∧ ∀ call,
    (∀ queue, v.rings.items (.clientWrite k) = some queue → Whole v.data.bufs queue call.replies) →
    ∃ u sent, (tcpClientWrite k).run (atCall v call) = .ok (.pending, u) ∧
      written (.client k) u.data.acts = written (.client k) w.data.acts ++
        (pre.flatMap fun b => enciphered call.now (w.data.bufs b)) ++ sent ∧
      (decoded call.now sent).take (told (decoded call.now sent)) = header k w ++ (contents w.data l).flatten

/-- The buffers, rounded up and put one behind the other, begin with the payload. -/
def Agrees (l : List BufId) (d : HttpMgmt) : Prop :=
  (l.flatMap fun b => rounded (d.bufs b)).take (contents d l).flatten.length = (contents d l).flatten

section
variable {k : ClientId} {b : BufId} {free pre l : List BufId} {w v : DevState} {call : Call}

theorem Prepared.apart (prepared : Prepared k (b :: free) pre l w) : b ∉ pre ++ l := by
  have sits : w.rings.home b = some .caches := Rings.home_of_mem prepared.pool List.mem_cons_self
  intro member
  rcases List.mem_append.mp member with first | second
  · cases sits.symm.trans (Rings.home_of_mem prepared.queue first)
  · cases sits.symm.trans (Rings.home_of_mem prepared.prepare second)

theorem Answers.ready (answers : Answers k (b :: free) pre l w) (replied : Replied k b free pre l w v) :
    Ready k (pre ++ b :: l) v := by
  have client : (v.data.clients k).funcRun = .write ∧ (v.data.clients k).line = .start ∧ (v.data.clients k).bufWrite.curr = none := by
    rw [replied.client, alerted]
    split
    next => exact ⟨rfl, rfl, answers.curr⟩
    next busy =>
      obtain ⟨write, line⟩ := answers.turn.resolve_left busy
      exact ⟨write, line, answers.curr⟩
  constructor
  case write => exact client.1
  case line => exact client.2.1
  case curr => exact client.2.2
  case list => exact replied.queue
  case pool => exact ⟨free, replied.pool⟩
  case queued =>
    intro b' member
    by_cases same : b' = b
    · rw [same, replied.header]
      have positive : (0 : Int) ≤ httpCHeaderLen := by decide
      have small : (httpCHeaderLen : Int) ≤ httpBufSize := by decide
      exact ⟨rfl, positive, small⟩
    · rw [replied.bufs b' same]
      refine answers.queued b' ?_
      rcases List.mem_append.mp member with first | second
      · exact List.mem_append_left l first
      · exact List.mem_append_right pre ((List.mem_cons.mp second).resolve_left same)

/-- The stream of the response, as it is read. -/
theorem decoded_response (answers : Answers k (b :: free) pre l w) (replied : Replied k b free pre l w v) (now : Int) :
    decoded now ((b :: l).flatMap fun b' => enciphered now (v.data.bufs b')) =
      header k w ++ l.flatMap fun b' => rounded (w.data.bufs b') := by
  have front : rounded (v.data.bufs b) = header k w := by
    have same := Mem.slice_write (w.data.bufs b).buf 0 (header k w)
    rw [header, clientHeader_length] at same
    rw [rounded, replied.header]
    exact same
  have rest : (l.flatMap fun b' => rounded (v.data.bufs b')) = l.flatMap fun b' => rounded (w.data.bufs b') := by
    apply List.flatMap_congr
    intro b' member
    have other : b' ≠ b := fun same => answers.apart (List.mem_append_right pre (same ▸ member))
    rw [replied.bufs b' other]
  rw [decoded_stream, List.flatMap_cons, front, rest]

theorem take_response (answers : Answers k (b :: free) pre l w) (stream : List Byte) :
    (header k w ++ stream).take (told (header k w ++ stream)) =
      header k w ++ stream.take (contents w.data l).flatten.length := by
  have positive : 0 ≤ w.data.bufPrepare.len := by
    rw [answers.len]
    exact Int.natCast_nonneg _
  have width : (header k w).length = 16 := clientHeader_length _ _ _
  have total : (w.data.bufPrepare.len + httpCHeaderLen).toNat = (header k w).length + (contents w.data l).flatten.length := by
    have sixteen : ((httpCHeaderLen : Nat) : Int) = 16 := rfl
    rw [answers.len, width, sixteen]
    omega
  have length : told (header k w ++ stream) = _ := told_clientHeader _ httpCResp stream positive answers.small
  rw [length, total, List.take_length_add_append]

theorem whole_of_answers (bufs : BufId → BufInfo) (queue : List BufId) :
    Whole bufs queue (queue.map fun b => .value (8 * blocks (bufs b))) := by
  induction queue with
  | nil => trivial
  | cons b rest ih => exact ⟨le_refl (8 * blocks (bufs b)), ih⟩

/-- When the response is queued and all of it taken, this is the stream. -/
theorem exists_written (answers : Answers k (b :: free) pre l w) (replied : Replied k b free pre l w v)
    (whole : Whole v.data.bufs (pre ++ b :: l) call.replies) :
    ∃ u, (tcpClientWrite k).run (atCall v call) = .ok (.pending, u) ∧
      written (.client k) u.data.acts = written (.client k) w.data.acts ++
        (pre.flatMap fun b' => enciphered call.now (w.data.bufs b')) ++
        ((b :: l).flatMap fun b' => enciphered call.now (v.data.bufs b')) := by
  have ready := answers.ready replied
  have ready' : Ready k (pre ++ b :: l) (atCall v call) :=
    ⟨ready.write, ready.line, ready.curr, ready.list, ready.pool, ready.queued⟩
  have pfd : (v.data.clients k).pfd ≠ none := by
    rw [replied.client, alerted]
    split <;> exact answers.pfd
  have wp : Wp (tcpClientWrite k) (fun status u => status = .pending ∧ Sent k (pre ++ b :: l) (atCall v call) u)
      (fun _ => False) (atCall v call) := wp_tcpClientWrite ready' (fun _ u sent => ⟨rfl, sent⟩) (fun _ none => pfd none) fun short => short whole
  obtain ⟨status, u, ran, pending, sent⟩ := wp_total.mp wp
  subst pending
  have before : (pre.flatMap fun b' => enciphered call.now (v.data.bufs b')) =
      pre.flatMap fun b' => enciphered call.now (w.data.bufs b') := by
    apply List.flatMap_congr
    intro b' member
    have other : b' ≠ b := fun same => answers.apart (List.mem_append_left l (same ▸ member))
    rw [replied.bufs b' other]
  refine ⟨u, ran, ?_⟩
  calc written (.client k) u.data.acts
      = written (.client k) v.data.acts ++ (pre ++ b :: l).flatMap fun b' => enciphered call.now (v.data.bufs b') := sent.written
    _ = _ := by rw [replied.written, List.flatMap_append, before, List.append_assoc]

theorem decodes_iff_agrees (answers : Answers k (b :: free) pre l w) : Decodes k pre l w ↔ Agrees l w.data := by
  have wp : Wp processTunnelResp (fun rc v => rc = 0 ∧ Replied k b free pre l w v) (fun _ => False) w :=
    wp_processTunnelResp answers.toPrepared fun v replied _ _ _ => ⟨rfl, replied⟩
  obtain ⟨status, v, ran, zero, replied⟩ := wp_total.mp wp
  subst zero
  have read (now : Int) (rest : List Byte)
      (same : rest = (b :: l).flatMap fun b' => enciphered now (v.data.bufs b')) :
      (decoded now rest).take (told (decoded now rest)) = header k w ++ (contents w.data l).flatten ↔ Agrees l w.data := by
    rw [same, decoded_response answers replied, take_response answers, List.append_cancel_left_eq, Agrees]
  constructor
  · rintro ⟨v', ran', decodes⟩
    cases ran.symm.trans ran'
    let replies := (pre ++ b :: l).map fun b' => Reply.value (8 * blocks (v.data.bufs b'))
    have whole : Whole v.data.bufs (pre ++ b :: l) (Call.mk 0 replies).replies := whole_of_answers _ _
    obtain ⟨u, wrote, stream⟩ := exists_written answers replied whole
    obtain ⟨u', sent, wrote', stream', decodes⟩ := decodes ⟨0, replies⟩ fun queue found => by
      cases replied.queue.symm.trans found
      exact whole
    cases wrote.symm.trans wrote'
    exact (read 0 sent (List.append_cancel_left (stream'.symm.trans stream))).mp decodes
  · intro agrees
    refine ⟨v, ran, fun call whole => ?_⟩
    obtain ⟨u, wrote, stream⟩ := exists_written answers replied (whole _ replied.queue)
    exact ⟨u, _, wrote, stream, (read call.now _ rfl).mpr agrees⟩

end

/-! Which distributions of a payload can be read, whatever lies behind its bytes. -/

/-- Every buffer that is followed by more of the payload ends with a block. -/
def Aligned (d : HttpMgmt) : List BufId → Prop
  | [] => True
  | b :: rest => ((contents d rest).flatten ≠ [] → (8 : Int) ∣ (d.bufs b).len) ∧ Aligned d rest

/-- Other bytes behind those that a buffer holds. -/
def refillBuf (info : BufInfo) (fill : Mem) : BufInfo :=
  { info with buf := fun i => if (i : Int) < info.len then info.buf i else fill i }

def refill (fill : BufId → Mem) (w : DevState) : DevState :=
  { w with data := { w.data with bufs := fun b => refillBuf (w.data.bufs b) (fill b) } }

section
variable {k : ClientId} {b : BufId} {pool free pre l rest : List BufId} {w : DevState} {info : BufInfo} {fill : BufId → Mem}

theorem refill_contents (fill : BufId → Mem) (w : DevState) (l : List BufId) :
    contents (refill fill w).data l = contents w.data l := by
  apply List.map_congr_left
  intro b _
  apply Mem.slice_congr
  intro i _ inside
  have inside : i < 0 + (w.data.bufs b).len.toNat := inside
  have low : (i : Int) < (w.data.bufs b).len := by omega
  exact if_pos low

theorem Answers.refill (answers : Answers k pool pre l w) (fill : BufId → Mem) :
    Answers k pool pre l (refill fill w) := by
  refine ⟨⟨answers.target, answers.prepare, answers.queue, answers.pool, answers.pfd⟩, answers.turn, answers.curr, ?_, ?_,
    answers.small⟩
  · intro b' member
    have queued := answers.queued b' member
    exact ⟨queued.start, queued.len, queued.size⟩
  · rw [refill_contents]
    exact answers.len

theorem rounded_refillBuf (queued : Queued info) (fill : Mem) :
    rounded (refillBuf info fill) =
      info.buf.slice 0 info.len.toNat ++ fill.slice info.len.toNat (8 * blocks info - info.len.toNat) := by
  have positive := queued.len
  have least : info.len.toNat ≤ 8 * blocks info := by
    unfold blocks
    omega
  have size : 8 * blocks (refillBuf info fill) = info.len.toNat + (8 * blocks info - info.len.toNat) := by
    rw [Nat.add_sub_cancel' least]
    rfl
  have front : (refillBuf info fill).buf.slice 0 info.len.toNat = info.buf.slice 0 info.len.toNat := by
    apply Mem.slice_congr
    intro i _ inside
    have low : (i : Int) < info.len := by omega
    exact if_pos low
  have behind : (refillBuf info fill).buf.slice info.len.toNat (8 * blocks info - info.len.toNat) =
      fill.slice info.len.toNat (8 * blocks info - info.len.toNat) := by
    apply Mem.slice_congr
    intro i outside _
    have high : ¬ (i : Int) < info.len := by omega
    exact if_neg high
  rw [rounded, size, Mem.slice_add, Nat.zero_add, front, behind]

/-- The first buffer agrees with the payload where what follows its bytes goes on with it. -/
theorem agrees_refill_cons (queued : Queued (w.data.bufs b)) :
    Agrees (b :: rest) (refill fill w).data ↔
      ((fill b).slice (w.data.bufs b).len.toNat (8 * blocks (w.data.bufs b) - (w.data.bufs b).len.toNat) ++
        rest.flatMap fun b' => rounded ((refill fill w).data.bufs b')).take (contents w.data rest).flatten.length =
        (contents w.data rest).flatten := by
  have bytes : (contents w.data (b :: rest)).flatten =
      (w.data.bufs b).buf.slice 0 (w.data.bufs b).len.toNat ++ (contents w.data rest).flatten := by
    rw [contents, List.map_cons, List.flatten_cons]
    rfl
  have first : rounded ((refill fill w).data.bufs b) = _ := rounded_refillBuf queued (fill b)
  rw [Agrees, refill_contents, bytes, List.flatMap_cons, first, List.length_append, List.append_assoc,
    List.take_length_add_append, List.append_cancel_left_eq]

theorem agrees_of_aligned (queued : ∀ b ∈ l, Queued (w.data.bufs b)) (aligned : Aligned w.data l) :
    Agrees l (refill fill w).data := by
  induction l with
  | nil => rfl
  | cons b rest ih =>
    have queued' := queued b List.mem_cons_self
    rw [agrees_refill_cons queued']
    by_cases last : (contents w.data rest).flatten = []
    · rw [last]
      rfl
    · have whole : 8 * blocks (w.data.bufs b) - (w.data.bufs b).len.toNat = 0 := by
        have multiple := aligned.1 last
        unfold blocks
        omega
      have none (m : Mem) (start : Nat) : m.slice start 0 = [] := rfl
      rw [whole, none, List.nil_append]
      have agrees := ih (fun b' member => queued b' (List.mem_cons_of_mem b member)) aligned.2
      rwa [Agrees, refill_contents] at agrees

/-- A byte behind a buffer that ends within a block comes in the place of one of the payload. -/
theorem aligned_of_agrees (queued : ∀ b ∈ l, Queued (w.data.bufs b)) (agrees : ∀ fill, Agrees l (refill fill w).data) :
    Aligned w.data l := by
  induction l with
  | nil => trivial
  | cons b rest ih =>
    have queued' := queued b List.mem_cons_self
    have agrees (fill : BufId → Mem) := (agrees_refill_cons queued').mp (agrees fill)
    have multiple (more : (contents w.data rest).flatten ≠ []) : (8 : Int) ∣ (w.data.bufs b).len := by
      by_contra short
      have positive := queued'.len
      obtain ⟨gap, behind⟩ : ∃ gap, 8 * blocks (w.data.bufs b) - (w.data.bufs b).len.toNat = gap + 1 := by
        refine ⟨8 * blocks (w.data.bufs b) - (w.data.bufs b).len.toNat - 1, ?_⟩
        unfold blocks
        omega
      obtain ⟨byte, payload, bytes⟩ := List.exists_cons_of_ne_nil more
      have first := congrArg List.head? (agrees fun _ _ => byte + 1)
      rw [behind, bytes, List.length_cons, Nat.add_comm gap, Mem.slice_add, List.append_assoc] at first
      have same : byte + 1 = byte := Option.some.inj first
      have next := congrArg BitVec.toNat same
      have one : BitVec.toNat (1 : Byte) = 1 := rfl
      rw [BitVec.toNat_add, one] at next
      omega
    refine ⟨multiple, ih (fun b' member => queued b' (List.mem_cons_of_mem b member)) fun fill => ?_⟩
    rw [Agrees, refill_contents]
    by_cases more : (contents w.data rest).flatten = []
    · rw [more]
      rfl
    · have agrees := agrees fill
      have whole : 8 * blocks (w.data.bufs b) - (w.data.bufs b).len.toNat = 0 := by
        have multiple := multiple more
        unfold blocks
        omega
      have none (m : Mem) (start : Nat) : m.slice start 0 = [] := rfl
      rwa [whole, none, List.nil_append] at agrees

theorem decodes_of_aligned (answers : Answers k pool pre l w) (some : pool ≠ []) (aligned : Aligned w.data l)
    (fill : BufId → Mem) : Decodes k pre l (refill fill w) := by
  obtain ⟨b, free, rfl⟩ := List.exists_cons_of_ne_nil some
  rw [decodes_iff_agrees (answers.refill fill)]
  exact agrees_of_aligned (fun b' member => answers.queued b' (List.mem_append_right pre member)) aligned

theorem aligned_of_decodes (answers : Answers k (b :: free) pre l w) (decodes : ∀ fill, Decodes k pre l (refill fill w)) :
    Aligned w.data l := by
  apply aligned_of_agrees fun b' member => answers.queued b' (List.mem_append_right pre member)
  intro fill
  exact (decodes_iff_agrees (answers.refill fill)).mp (decodes fill)

/-- Without a buffer for the header the process ends. -/
theorem pool_of_decodes (answers : Answers k pool pre l w) (decodes : Decodes k pre l w) : pool ≠ [] := by
  rintro rfl
  obtain ⟨v, ran, _⟩ := decodes
  have found : (w.data.listClient.find? fun k => (w.data.clients k).reqSeq = w.data.bufPrepare.seq) = some k := answers.target
  have ends : Wp processTunnelResp (fun _ _ => False) (fun _ => True) w := by
    rw [processTunnelResp, wp_bind, wp_data, found]
    simp only
    rw [wp_bind, wp_getClient, wp_bind]
    refine wp_allocBuf_of_nil answers.pool ?_
    rw [wp_bind, wp_deref]
    exact ⟨fun b same => by simp at same, fun _ => trivial⟩
  exact wp_of_run ran ends

/-- A distribution of a payload can be read, whatever lies behind its bytes, if and only if there
is a buffer for the header and every buffer that is followed by more of it ends with a block. -/
theorem decodes_iff (answers : Answers k pool pre l w) :
    (∀ fill, Decodes k pre l (refill fill w)) ↔ pool ≠ [] ∧ Aligned w.data l := by
  constructor
  · intro decodes
    have some := pool_of_decodes (answers.refill fun _ _ => 0) (decodes fun _ _ => 0)
    obtain ⟨b, free, rfl⟩ := List.exists_cons_of_ne_nil some
    exact ⟨some, aligned_of_decodes answers decodes⟩
  · rintro ⟨some, aligned⟩
    exact decodes_of_aligned answers some aligned

end

/-! A payload in two buffers. -/

def firstBuf : BufId := ⟨0, by decide⟩
def secondBuf : BufId := ⟨1, by decide⟩

/-- What the parser leaves when a response came in two buffers for the only client. -/
def twoBuffers (first second : Nat) : HttpMgmt :=
  let d := initData [] [] 80 1024 3 0
  let client : TcpClientContext := { d.clients 0 with pfd := some 0, idle := true }
  { (d.setBuf firstBuf ⟨fun _ => 97, 0, first, first⟩).setBuf secondBuf ⟨fun _ => 97, 0, second, second⟩ with
    clients := update d.clients 0 client
    listClient := [0]
    bufPrepare := { d.bufPrepare with len := first + second } }

theorem exists_answers (first second : Nat) (small : first ≤ httpBufSize) (small' : second ≤ httpBufSize) :
    ∃ (R : Rings BufHead BufId) (b : BufId) (free : List BufId), Answers 0 (b :: free) [] [firstBuf, secondBuf] ⟨twoBuffers first second, R⟩ := by
  obtain ⟨R, empty, others, _⟩ := exists_lists [.clientWrite 0] (by simp [initRings])
  have pool : R.items .caches = some (List.finRange httpBufCaches).reverse := others .caches (by simp)
  have prepare : R.items .prepare = some [] := others .prepare (by simp)
  obtain ⟨S, held, rest, same⟩ := exists_held (l := [firstBuf, secondBuf]) pool prepare (by simp) (by decide) (by simp)
  have many : (List.finRange httpBufCaches).reverse.filter (· ∉ [firstBuf, secondBuf]) ≠ [] := by decide +kernel
  obtain ⟨b, free, more⟩ := List.exists_cons_of_ne_nil many
  have one : (twoBuffers first second).bufs firstBuf = ⟨fun _ => 97, 0, first, first⟩ := rfl
  have two : (twoBuffers first second).bufs secondBuf = ⟨fun _ => 97, 0, second, second⟩ := rfl
  have size : httpBufSize = 2048 := rfl
  have most : httpInMax = 20480 := rfl
  have width : httpCHeaderLen = 16 := rfl
  refine ⟨S, b, free, ⟨⟨rfl, held, ?_, by rw [← more]; exact rest, by simp [twoBuffers]⟩, .inl rfl, rfl, ?_, ?_, ?_⟩⟩
  · exact (same (.clientWrite 0) (by simp) (by simp)).trans (empty _ List.mem_cons_self)
  · intro b' member
    rcases List.mem_cons.mp member with rfl | member
    · rw [one]
      exact ⟨rfl, Int.natCast_nonneg _, Int.ofNat_le.mpr small⟩
    · rw [List.mem_singleton.mp member, two]
      exact ⟨rfl, Int.natCast_nonneg _, Int.ofNat_le.mpr small'⟩
  · rw [contents, List.map_cons, List.map_singleton, one, two]
    simp [twoBuffers]
  · change ((first : Int) + second) ≤ httpInMax - httpCHeaderLen
    omega

theorem decodes_iff_aligned : ∃ (R : Rings BufHead BufId), ∀ fill, Decodes 0 [] [firstBuf, secondBuf] (refill fill ⟨twoBuffers 2048 100, R⟩) := by
  obtain ⟨R, b, free, answers⟩ := exists_answers 2048 100 (by decide) (by decide)
  refine ⟨R, (decodes_iff answers).mpr ⟨List.cons_ne_nil b free, fun _ => ?_, ?_, trivial⟩⟩
  · exact ⟨256, rfl⟩
  · exact fun more => absurd rfl more

/-- A first buffer of nine bytes, behind which the next fragment did not fit. -/
theorem short_buffer_garbles : ∃ (w : DevState) (b : BufId) (free : List BufId), Answers 0 (b :: free) [] [firstBuf, secondBuf] w ∧
    (w.data.bufs firstBuf).len = 9 ∧ (w.data.bufs secondBuf).len = 2040 ∧ ¬ Decodes 0 [] [firstBuf, secondBuf] w := by
  obtain ⟨R, b, free, answers⟩ := exists_answers 9 2040 (by decide) (by decide)
  have short : ¬ Aligned (twoBuffers 9 2040) [firstBuf, secondBuf] := by
    intro aligned
    have multiple : (8 : Int) ∣ 9 := aligned.1 (by decide +kernel)
    omega
  obtain ⟨fill, garbles⟩ : ∃ fill, ¬ Decodes 0 [] [firstBuf, secondBuf] (refill fill ⟨twoBuffers 9 2040, R⟩) := by
    by_contra all
    exact short (aligned_of_decodes answers fun fill => by_contra fun garbles => all ⟨fill, garbles⟩)
  exact ⟨_, b, free, answers.refill fill, rfl, rfl, garbles⟩

end WebTunnel.Device.Replying
