import WebTunnel.Device.Requests

/-! Requests of the tunnel clients come in pieces. Which pieces give the request as one frame. -/

namespace WebTunnel.Device.Arrivals
open Library.Bytes Library.Lists Library.Routines Library.Routines.Routine Function Device.Types Buffers Pool Tunnel Http Manager
open Ciphering Writing Requests

/-! A request and the calls that read it. -/

/-- A request as it is sent: `plain` enciphered block by block. -/
structure Request (key : Key) (plain sent : List Byte) : Prop where
  least : 16 ≤ plain.length
  most : plain.length ≤ httpBufSize
  whole : 8 ∣ plain.length
  told : lengthOf plain = plain.length
  sent : sent = cipherWords (encry key) (plain.length / 8) plain

/-- What a read gives, and when. -/
structure Arrival where
  now : Int
  bytes : List Byte

def arriving (w : DevState) (a : Arrival) : DevState :=
  { w with data := { w.data with now := a.now, replies := [.data a.bytes] } }

/-- The coroutine is called for each of the arrivals. -/
def receive (k : ClientId) : DevState → List Arrival → Except Fault DevState
  | w, [] => .ok w
  | w, a :: rest => do
    let result ← (tcpClientRead k).run (arriving w a)
    receive k result.2 rest

/-- The request is in the queue, behind what was there, and the client awaits the next one. -/
def Queues (k : ClientId) (old : List BufId) (plain : List Byte) (v : DevState) : Prop :=
  ∃ (bs pool : List BufId) (number : Nat), Awaits k (old ++ bs) pool v ∧ (v.data.clients k).idle = true ∧
    (v.data.clients k).reqSeq = number ∧ (contents v.data bs).flatten = stamped plain number

/-- Nothing is queued before all of the request has come, and then the request as one frame. -/
structure Reassembles (k : ClientId) (old : List BufId) (plain : List Byte) (w : DevState) (arrivals : List Arrival) : Prop where
  early : ∀ first rest, arrivals = first ++ rest → rest ≠ [] →
    ∃ v, receive k w first = .ok v ∧ v.rings.items .toserver = some old
  whole : ∃ v, receive k w arrivals = .ok v ∧ Queues k old plain v

/-- A client in the midst of a request, of which `came` has come. -/
structure Mid (k : ClientId) (old pool : List BufId) (b : BufId) (plain came : List Byte) (number : Nat) (w : DevState) :
    Prop where
  reads : Reads k old pool b came.length (w.data.bufs b).buf (w.data.clients k) w
  line : (w.data.clients k).line = .pending
  parsed : (w.data.clients k).headerParsed = true
  total : (w.data.clients k).bufRead.totalLen = plain.length
  reqSeq : (w.data.clients k).reqSeq = number
  header : (w.data.bufs b).buf.slice 0 16 = stamped (plain.take 16) number
  rest : (w.data.bufs b).buf.slice 16 (came.length - 16) = came.drop 16
  long : 16 ≤ came.length

section
variable {key : Key} {plain sent came later : List Byte}

theorem Request.length (request : Request key plain sent) : sent.length = plain.length := by
  have whole := request.whole
  rw [request.sent, cipherWords_length _ (by omega)]

/-- The header and the rest of a request are enciphered apart. -/
theorem Request.split (request : Request key plain sent) :
    sent = cipherWords (encry key) 2 (plain.take 16) ++
      cipherWords (encry key) ((plain.length - 16) / 8) (plain.drop 16) := by
  have least := request.least
  have whole := request.whole
  have front : (plain.take 16).length = 8 * 2 := by
    rw [List.length_take]
    omega
  have blocks : plain.length / 8 = 2 + (plain.length - 16) / 8 := by omega
  calc sent = cipherWords (encry key) (2 + (plain.length - 16) / 8) (plain.take 16 ++ plain.drop 16) := by
        rw [List.take_append_drop, ← blocks, request.sent]
    _ = _ := cipherWords_append 2 _ front

theorem Request.head (request : Request key plain sent) (cut : came ++ later = sent) (long : 16 ≤ came.length) :
    cipherWords (decry key) 2 (came.take 16) = plain.take 16 := by
  have least := request.least
  have front : (plain.take 16).length = 16 := by
    rw [List.length_take]
    omega
  have length : (cipherWords (encry key) 2 (plain.take 16)).length = 16 := by
    rw [cipherWords_length 2 front.ge, front]
  have same : came.take 16 = cipherWords (encry key) 2 (plain.take 16) := by
    rw [← List.take_left' length, ← request.split, ← cut, List.take_append_of_le_length long]
  rw [same]
  exact decry_encryWords key 2 front.ge

theorem Request.body (request : Request key plain sent) :
    cipherWords (decry key) ((plain.length - 16) / 8) (sent.drop 16) = plain.drop 16 := by
  have least := request.least
  have whole := request.whole
  have front : (plain.take 16).length = 16 := by
    rw [List.length_take]
    omega
  have length : (cipherWords (encry key) 2 (plain.take 16)).length = 16 := by
    rw [cipherWords_length 2 front.ge, front]
  have long : 8 * ((plain.length - 16) / 8) ≤ (plain.drop 16).length := by
    rw [List.length_drop]
    omega
  rw [request.split, List.drop_left' length]
  exact decry_encryWords key _ long

theorem lengthOf_take (plain : List Byte) : lengthOf (plain.take 16) = lengthOf plain := by
  rw [lengthOf, lengthOf, List.drop_take, List.take_take]
  rfl

theorem stamped_take {plain : List Byte} (number : Nat) (least : 16 ≤ plain.length) :
    stamped (plain.take 16) number ++ plain.drop 16 = stamped plain number := by
  have front : (plain.take 16).take 5 = plain.take 5 := by
    rw [List.take_take]
    rfl
  have behind : (plain.take 16).drop 8 ++ plain.drop 16 = plain.drop 8 := by
    have parts := List.take_append_drop 16 plain
    have short : 8 ≤ (plain.take 16).length := by
      rw [List.length_take]
      omega
    rw [← List.drop_append_of_le_length short, parts]
  rw [stamped, stamped, front, List.append_assoc, List.append_assoc, List.append_assoc, behind]

end

section
variable {k : ClientId} {b : BufId} {old pool : List BufId} {key : Key} {plain sent came later : List Byte} {m : Mem} {number : Nat}
  {client : TcpClientContext} {a : Arrival} {arrivals : List Arrival} {w : DevState} {post : CallerStatus → DevState → Prop}
  {err : Fault → Prop}

/-- Where more is to come, the client stays in the midst of the request. -/
theorem wp_clientRest_mid (request : Request key plain sent) (reads : Reads k old pool b came.length m client w)
    (parsed : client.headerParsed = true) (total : client.bufRead.totalLen = plain.length) (reqSeq : client.reqSeq = number)
    (header : m.slice 0 16 = stamped (plain.take 16) number) (rest : m.slice 16 (came.length - 16) = came.drop 16)
    (long : 16 ≤ came.length) (short : came.length < plain.length)
    (next : ∀ v, Mid k old pool b plain came number v → post .pending v) :
    Wp (clientRest k) (fun _ v => Wp (setClientLine k .pending) (fun _ v => post .pending v) err v) err w := by
  refine wp_clientRest_short reads total request.whole short ?_
  rw [setClientLine, wp_bind, wp_getClient, wp_setClient]
  have own : (w.data.setClient k { w.data.clients k with line := .pending }).clients k = { client with line := .pending } := by
    rw [← reads.own]
    exact update_self _ _ _
  apply next
  constructor
  case reads =>
    refine ⟨rfl, ?_, ?_, rfl, reads.start, reads.away, reads.read, reads.queue, reads.pool, reads.going⟩
    · rw [own]
      exact reads.curr
    · rw [own]
      exact reads.len
  case line => rw [own]
  case parsed => rw [own, parsed]
  case total => rw [own, total]
  case reqSeq => rw [own, reqSeq]
  case header =>
    rw [setClient_bufs, reads.buf]
    exact header
  case rest =>
    rw [setClient_bufs, reads.buf]
    exact rest
  case long => exact long

/-- Where all has come, the request is queued. -/
theorem wp_clientRest_queues (request : Request key plain sent) (reads : Reads k old pool b sent.length m client w)
    (minute : generateKey w.data.now = key) (total : client.bufRead.totalLen = plain.length) (reqSeq : client.reqSeq = number)
    (header : m.slice 0 16 = stamped (plain.take 16) number) (rest : m.slice 16 (sent.length - 16) = sent.drop 16)
    (next : ∀ v, Queues k old plain v → post .pending v) :
    Wp (clientRest k) (fun _ v => Wp (setClientLine k .pending) (fun _ v => post .pending v) err v) err w := by
  have least := request.least
  have most := request.most
  have whole := request.whole
  have length := request.length
  have blocks : 16 + 8 * ((plain.length - 16) / 8) = plain.length := by omega
  have told : client.bufRead.totalLen = (16 + 8 * ((plain.length - 16) / 8) : Nat) := by rw [blocks, total]
  refine wp_clientRest_whole reads told (by omega) (by omega) fun v finished => ?_
  rw [setClientLine, wp_bind, wp_getClient, wp_setClient]
  have own : (v.data.setClient k { v.data.clients k with line := .pending }).clients k =
      { client with
        line := .pending
        bufRead := { client.bufRead with curr := none, len := 0, totalLen := 0 }
        headerParsed := false
        idle := true } := by
    rw [finished.client]
    exact update_self _ _ _
  apply next
  refine ⟨[b], pool, number, ?_, ?_, ?_, ?_⟩
  · constructor
    case line =>
      rw [own]
      exact .inr rfl
    case parsed => rw [own]
    case len => rw [own]
    case totalLen => rw [own]
    case curr =>
      rw [own]
      intro b' same
      cases same
    case read => exact finished.read
    case queue => exact finished.queue
    case pool => exact finished.pool
    case going => exact finished.going
  · rw [own]
  · rw [own]
    exact reqSeq
  · have size : sent.length = 16 + 8 * ((plain.length - 16) / 8) := by omega
    have bytes : m.slice 16 (8 * ((plain.length - 16) / 8)) = sent.drop 16 := by
      rw [← rest]
      congr 1
      omega
    have body : cipherWords (decry (generateKey w.data.now)) ((plain.length - 16) / 8)
        (m.slice 16 (8 * ((plain.length - 16) / 8))) = plain.drop 16 := by
      rw [minute, bytes]
      exact request.body
    have width : (plain.drop 16).length = 8 * ((plain.length - 16) / 8) := by
      rw [List.length_drop]
      omega
    have behind : (deciphered w.data.now ((plain.length - 16) / 8) m).slice 16 (8 * ((plain.length - 16) / 8)) =
        plain.drop 16 := by
      rw [deciphered, body, ← width]
      exact Mem.slice_write m 16 _
    have front : (deciphered w.data.now ((plain.length - 16) / 8) m).slice 0 16 = stamped (plain.take 16) number := by
      rw [deciphered, Mem.slice_write_of_disjoint m (.inl (by decide))]
      exact header
    calc (contents (v.data.setClient k { v.data.clients k with line := .pending }) [b]).flatten
        = (deciphered w.data.now ((plain.length - 16) / 8) m).slice 0 sent.length := by
          rw [contents, List.map_singleton, List.flatten_singleton, setClient_bufs, finished.buf, Int.toNat_natCast]
      _ = stamped (plain.take 16) number ++ plain.drop 16 := by rw [size, Mem.slice_add, front, Nat.zero_add, behind]
      _ = stamped plain number := stamped_take number least

/-- Bytes that are put behind others are read behind them. -/
theorem slice_write_behind (m : Mem) {start n : Nat} (bytes : List Byte) (low : start ≤ n) :
    (m.write n bytes).slice start (n + bytes.length - start) = m.slice start (n - start) ++ bytes := by
  have size : n + bytes.length - start = (n - start) + bytes.length := by omega
  rw [size, Mem.slice_add, Nat.add_sub_cancel' low, Mem.slice_write, Mem.slice_write_of_disjoint m (.inl (by omega))]

/-- A full buffer is saved before it is looked at. -/
theorem wp_clientReceived_gone (gone : (w.data.clients k).bufRead.curr = none) {post : Unit → DevState → Prop} :
    Wp (clientReceived k) post (fun _ => True) w := by
  have rest : Wp (clientRest k) post (fun _ => True) w := by
    rw [clientRest, wp_bind, wp_getClient, wp_bind, wp_assert]
    refine ⟨fun _ => ?_, fun _ => trivial⟩
    rw [wp_bind, wp_deref, gone]
    exact ⟨fun b same => by simp at same, fun _ => trivial⟩
  rw [clientReceived_eq, wp_bind, wp_getClient, wp_bind, wp_when]
  refine ⟨fun _ => ?_, fun _ => rest⟩
  rw [wp_bind, wp_deref, gone]
  exact ⟨fun b same => by simp at same, fun _ => trivial⟩

theorem Mid.obtains (mid : Mid k old pool b plain came number w) :
    Obtains k old pool b came.length (w.data.bufs b).buf { w.data.clients k with idle := false } (busy k (arriving w a)) := by
  have reads := mid.reads
  exact obtains_of_reads ⟨update_self _ _ _, reads.curr, reads.len, rfl, reads.start, reads.away, reads.read, reads.queue,
    reads.pool, reads.going⟩

/-- A client in the midst of a request reads on. -/
theorem Mid.wp_read (request : Request key plain sent) (mid : Mid k old pool b plain came number w) (nonempty : a.bytes ≠ [])
    (minute : generateKey a.now = key) (cut : came ++ a.bytes ++ later = sent)
    (next : later ≠ [] → ∀ v, Mid k old pool b plain (came ++ a.bytes) number v → post .pending v)
    (queued : later = [] → sent.length < httpBufSize → ∀ v, Queues k old plain v → post .pending v)
    (ends : later = [] → sent.length = httpBufSize → err = fun _ => True) :
    Wp (tcpClientRead k) post err (arriving w a) := by
  have length := request.length
  have most := request.most
  have long := mid.long
  have total : (came ++ a.bytes).length + later.length = sent.length := by
    rw [← cut]
    exact List.length_append.symm
  have count : (came ++ a.bytes).length = came.length + a.bytes.length := List.length_append
  refine wp_tcpClientRead_data (w := arriving w a) (.inr mid.line) mid.obtains rfl nonempty (by omega) ?_ ?_
  · intro part u reads now
    have header : ((w.data.bufs b).buf.write came.length a.bytes).slice 0 16 = stamped (plain.take 16) number := by
      rw [Mem.slice_write_of_disjoint _ (.inl (by omega))]
      exact mid.header
    have rest : ((w.data.bufs b).buf.write came.length a.bytes).slice 16 ((came ++ a.bytes).length - 16) =
        (came ++ a.bytes).drop 16 := by
      rw [count, slice_write_behind _ _ long, mid.rest, List.drop_append_of_le_length long]
    rw [← count] at reads
    rw [wp_clientReceived_parsed reads mid.parsed]
    by_cases last : later = []
    · have all : came ++ a.bytes = sent := by rw [← cut, last, List.append_nil]
      rw [all] at reads rest
      have minute' : generateKey u.data.now = key := by
        rw [now]
        exact minute
      have small : sent.length < httpBufSize := by
        rw [← all, count]
        exact part
      exact wp_clientRest_queues request reads minute' mid.total mid.reqSeq header rest (queued last small)
    · have more := List.length_pos_iff.mpr last
      have long' : 16 ≤ (came ++ a.bytes).length := by omega
      have short : (came ++ a.bytes).length < plain.length := by omega
      exact wp_clientRest_mid request reads mid.parsed mid.total mid.reqSeq header rest long' short (next last)
  · intro full u gone
    have last : later = [] := List.eq_nil_of_length_eq_zero (by omega)
    have size : sent.length = httpBufSize := by omega
    rw [ends last size]
    exact wp_clientReceived_gone gone

theorem awaits_busy (awaits : Awaits k old pool w) (a : Arrival) : Awaits k old pool (busy k (arriving w a)) := by
  have own : (busy k (arriving w a)).data.clients k = { w.data.clients k with idle := false } := update_self _ _ _
  constructor
  case line =>
    rw [own]
    exact awaits.line
  case parsed =>
    rw [own]
    exact awaits.parsed
  case len =>
    rw [own]
    exact awaits.len
  case totalLen =>
    rw [own]
    exact awaits.totalLen
  case curr =>
    rw [own]
    exact awaits.curr
  case read => exact awaits.read
  case queue => exact awaits.queue
  case pool => exact awaits.pool
  case going => exact awaits.going

theorem Request.total (request : Request key plain sent) : toInt32 (lengthOf (plain.take 16)) = plain.length := by
  have most := request.most
  have size : httpBufSize = 2048 := rfl
  rw [lengthOf_take, request.told, toInt32, if_pos (by omega)]

/-- The first bytes of a request. -/
theorem wp_read_first (request : Request key plain sent) (awaits : Awaits k old pool w)
    (some : (w.data.clients k).bufRead.curr ≠ none ∨ pool ≠ []) (nonempty : a.bytes ≠ []) (minute : generateKey a.now = key)
    (cut : a.bytes ++ later = sent)
    (early : a.bytes.length < 16 → ∀ v b, v.rings.items .toserver = .some (old ++ [b]) → post .pending v)
    (next : 16 ≤ a.bytes.length → later ≠ [] → ∀ v pool b number, Mid k old pool b plain a.bytes number v → post .pending v)
    (queued : 16 ≤ a.bytes.length → later = [] → sent.length < httpBufSize → ∀ v, Queues k old plain v → post .pending v)
    (ends : later = [] → sent.length = httpBufSize → err = fun _ => True) :
    Wp (tcpClientRead k) post err (arriving w a) := by
  have length := request.length
  have most := request.most
  have total : a.bytes.length + later.length = sent.length := by rw [← cut, List.length_append]
  have own : (busy k (arriving w a)).data.clients k = { w.data.clients k with idle := false } := update_self _ _ _
  obtain ⟨b, pool', m, obtains⟩ := (awaits_busy awaits a).obtains (by rwa [own])
  rw [own] at obtains
  refine wp_tcpClientRead_data (w := arriving w a) awaits.line obtains rfl nonempty (by omega) ?_ ?_
  · intro part u reads now
    rw [Nat.zero_add] at reads
    have bytes : (m.write 0 a.bytes).slice 0 a.bytes.length = a.bytes := Mem.slice_write m 0 a.bytes
    by_cases long : a.bytes.length < 16
    · rw [wp_clientReceived_short reads awaits.parsed long]
      refine wp_clientRest_stale reads awaits.totalLen fun v finished => ?_
      rw [setClientLine, wp_bind, wp_getClient, wp_setClient]
      exact early long _ b finished.queue
    · have long := Nat.le_of_not_lt long
      have head : cipherWords (decry (generateKey u.data.now)) 2 ((m.write 0 a.bytes).slice 0 16) = plain.take 16 := by
        have minute' : generateKey u.data.now = key := by
          rw [now]
          exact minute
        rw [minute', ← slice_take _ 0 long, bytes]
        exact request.head cut long
      refine wp_clientReceived_header reads awaits.parsed long head fun m' number v header behind reads' now' => ?_
      have rest : m'.slice 16 (a.bytes.length - 16) = a.bytes.drop 16 := by
        have same : m'.slice 16 (a.bytes.length - 16) = (m.write 0 a.bytes).slice 16 (a.bytes.length - 16) :=
          Mem.slice_congr fun i low _ => behind i low
        have dropped := slice_drop (m.write 0 a.bytes) 0 long
        rw [bytes] at dropped
        rw [same, dropped, Nat.zero_add]
      by_cases last : later = []
      · have all : a.bytes = sent := by rw [← cut, last, List.append_nil]
        have small : sent.length < httpBufSize := by
          rw [← all]
          omega
        have minute' : generateKey v.data.now = key := by
          rw [now', now]
          exact minute
        rw [all] at reads' rest
        exact wp_clientRest_queues request reads' minute' request.total rfl header rest (queued long last small)
      · have more := List.length_pos_iff.mpr last
        have short : a.bytes.length < plain.length := by omega
        exact wp_clientRest_mid request reads' rfl request.total rfl header rest long short fun v mid =>
          next long last v pool' b number mid
  · intro full u gone
    have last : later = [] := List.eq_nil_of_length_eq_zero (by omega)
    have size : sent.length = httpBufSize := by omega
    rw [ends last size]
    exact wp_clientReceived_gone gone

end

/-! Runs. -/

/-- The request comes in pieces of at least one byte, within the minute of its key. -/
structure Cut (key : Key) (sent : List Byte) (arrivals : List Arrival) : Prop where
  nonempty : ∀ a ∈ arrivals, a.bytes ≠ []
  minute : ∀ a ∈ arrivals, generateKey a.now = key
  bytes : (arrivals.flatMap Arrival.bytes) = sent

/-- The header comes at once, the request leaves room in its buffer, and there is a buffer. -/
structure Fits (k : ClientId) (pool : List BufId) (sent : List Byte) (w : DevState) (arrivals : List Arrival) : Prop where
  header : ∀ a ∈ arrivals.head?, 16 ≤ a.bytes.length
  room : sent.length < httpBufSize
  buffer : (w.data.clients k).bufRead.curr ≠ none ∨ pool ≠ []

section
variable {k : ClientId} {b : BufId} {old pool : List BufId} {key : Key} {plain sent came : List Byte} {number : Nat}
  {a : Arrival} {arrivals rest : List Arrival} {w u v : DevState} {status : CallerStatus}

theorem flatMap_bytes_ne_nil (nonempty : ∀ a ∈ arrivals, a.bytes ≠ []) (some : arrivals ≠ []) :
    arrivals.flatMap Arrival.bytes ≠ [] := by
  obtain ⟨a, rest, rfl⟩ := List.exists_cons_of_ne_nil some
  rw [List.flatMap_cons]
  exact List.append_ne_nil_of_left_ne_nil (nonempty a List.mem_cons_self) _

theorem receive_cons (ran : (tcpClientRead k).run (arriving w a) = .ok (status, u)) :
    receive k w (a :: rest) = receive k u rest := by
  rw [receive, ran]
  rfl

theorem receive_cons_error {e : Fault} (ran : (tcpClientRead k).run (arriving w a) = .error e) :
    receive k w (a :: rest) = .error e := by
  rw [receive, ran]
  rfl

theorem run_of_receive (done : receive k w (a :: rest) = .ok v) :
    ∃ status u, (tcpClientRead k).run (arriving w a) = .ok (status, u) ∧ receive k u rest = .ok v := by
  cases ran : (tcpClientRead k).run (arriving w a) with
  | error e => cases (receive_cons_error ran).symm.trans done
  | ok result => exact ⟨result.1, result.2, rfl, (receive_cons ran).symm.trans done⟩

theorem Reassembles.cons (queue : w.rings.items .toserver = some old)
    (ran : (tcpClientRead k).run (arriving w a) = .ok (status, u)) (reassembles : Reassembles k old plain u rest) :
    Reassembles k old plain w (a :: rest) := by
  constructor
  case early =>
    intro first later cut some
    cases first with
    | nil => exact ⟨w, rfl, queue⟩
    | cons a' first =>
      obtain ⟨same, behind⟩ := List.cons.inj cut
      subst same
      obtain ⟨v, done, kept⟩ := reassembles.early first later behind some
      exact ⟨v, (receive_cons ran).trans done, kept⟩
  case whole =>
    obtain ⟨v, done, queues⟩ := reassembles.whole
    exact ⟨v, (receive_cons ran).trans done, queues⟩

theorem reassembles_of_last (queue : w.rings.items .toserver = some old)
    (ran : (tcpClientRead k).run (arriving w a) = .ok (status, v)) (queues : Queues k old plain v) :
    Reassembles k old plain w [a] := by
  constructor
  case early =>
    intro first later cut some
    cases first with
    | nil => exact ⟨w, rfl, queue⟩
    | cons a' first =>
      have none := (List.append_eq_nil_iff.mp (List.cons.inj cut).2.symm).2
      exact absurd none some
  case whole => exact ⟨v, receive_cons ran, queues⟩

/-- The rest of a request. -/
theorem Mid.completes (request : Request key plain sent) (small : sent.length < httpBufSize)
    (mid : Mid k old pool b plain came number w) (nonempty : ∀ a ∈ arrivals, a.bytes ≠ [])
    (minute : ∀ a ∈ arrivals, generateKey a.now = key) (cut : came ++ arrivals.flatMap Arrival.bytes = sent) (some : arrivals ≠ []) :
    Reassembles k old plain w arrivals := by
  induction arrivals generalizing w came with
  | nil => exact absurd rfl some
  | cons a rest ih =>
    have cut' : came ++ a.bytes ++ rest.flatMap Arrival.bytes = sent := by rw [List.append_assoc, ← List.flatMap_cons, cut]
    have nonempty' : ∀ a' ∈ rest, a'.bytes ≠ [] := fun a' member => nonempty a' (List.mem_cons_of_mem a member)
    have minute' : ∀ a' ∈ rest, generateKey a'.now = key := fun a' member => minute a' (List.mem_cons_of_mem a member)
    have wp : Wp (tcpClientRead k) (fun _ v => (rest = [] → Queues k old plain v) ∧
        (rest ≠ [] → Mid k old pool b plain (came ++ a.bytes) number v)) (fun _ => False) (arriving w a) :=
      mid.wp_read request (nonempty a List.mem_cons_self) (minute a List.mem_cons_self) cut'
      (fun later v mid => ⟨fun last => absurd (by rw [last]; rfl) later, fun _ => mid⟩)
      (fun later _ v queues => ⟨fun _ => queues, fun more => absurd later (flatMap_bytes_ne_nil nonempty' more)⟩)
      (fun _ full => absurd full (by omega))
    obtain ⟨status, v, ran, last, more⟩ := wp_total.mp wp
    by_cases ended : rest = []
    · subst ended
      exact reassembles_of_last mid.reads.queue ran (last rfl)
    · exact .cons mid.reads.queue ran (ih (more ended) nonempty' minute' cut' ended)

/-- A request that fills its buffer ends the process with its last byte. -/
theorem Mid.fails (request : Request key plain sent) (full : sent.length = httpBufSize)
    (mid : Mid k old pool b plain came number w) (nonempty : ∀ a ∈ arrivals, a.bytes ≠ [])
    (minute : ∀ a ∈ arrivals, generateKey a.now = key) (cut : came ++ arrivals.flatMap Arrival.bytes = sent) (some : arrivals ≠ []) :
    receive k w arrivals ≠ .ok v := by
  induction arrivals generalizing w came with
  | nil => exact absurd rfl some
  | cons a rest ih =>
    intro done
    obtain ⟨status, u, ran, done⟩ := run_of_receive done
    have cut' : came ++ a.bytes ++ rest.flatMap Arrival.bytes = sent := by rw [List.append_assoc, ← List.flatMap_cons, cut]
    have nonempty' : ∀ a' ∈ rest, a'.bytes ≠ [] := fun a' member => nonempty a' (List.mem_cons_of_mem a member)
    have minute' : ∀ a' ∈ rest, generateKey a'.now = key := fun a' member => minute a' (List.mem_cons_of_mem a member)
    have wp : Wp (tcpClientRead k) (fun _ v => rest ≠ [] ∧ Mid k old pool b plain (came ++ a.bytes) number v)
        (fun _ => True) (arriving w a) := mid.wp_read request (nonempty a List.mem_cons_self) (minute a List.mem_cons_self) cut'
      (fun later v mid => ⟨fun last => later (by rw [last]; rfl), mid⟩)
      (fun _ small => absurd full (by omega)) (fun _ _ => rfl)
    obtain ⟨more, mid'⟩ := wp_of_run ran wp
    exact ih mid' nonempty' minute' cut' more done

theorem reassembles_of_fits (request : Request key plain sent) (awaits : Awaits k old pool w) (cut : Cut key sent arrivals)
    (fits : Fits k pool sent w arrivals) : Reassembles k old plain w arrivals := by
  have least := request.least
  have length := request.length
  cases arrivals with
  | nil =>
    have empty : sent = [] := cut.bytes.symm
    rw [empty, List.length_nil] at length
    omega
  | cons a rest =>
    have bytes : a.bytes ++ rest.flatMap Arrival.bytes = sent := by rw [← List.flatMap_cons, cut.bytes]
    have nonempty : ∀ a' ∈ rest, a'.bytes ≠ [] := fun a' member => cut.nonempty a' (List.mem_cons_of_mem a member)
    have minute : ∀ a' ∈ rest, generateKey a'.now = key := fun a' member => cut.minute a' (List.mem_cons_of_mem a member)
    have long := fits.header a rfl
    have small := fits.room
    have wp : Wp (tcpClientRead k) (fun _ v => (rest = [] → Queues k old plain v) ∧
        (rest ≠ [] → ∃ pool b number, Mid k old pool b plain a.bytes number v)) (fun _ => False) (arriving w a) :=
      wp_read_first request awaits fits.buffer (cut.nonempty a List.mem_cons_self) (cut.minute a List.mem_cons_self) bytes
      (fun short => absurd short (by omega))
      (fun _ later v pool b number mid => ⟨fun last => absurd (by rw [last]; rfl) later, fun _ => ⟨pool, b, number, mid⟩⟩)
      (fun _ later _ v queues => ⟨fun _ => queues, fun more => absurd later (flatMap_bytes_ne_nil nonempty more)⟩)
      (fun _ full => absurd full (by omega))
    obtain ⟨status, v, ran, last, more⟩ := wp_total.mp wp
    by_cases ended : rest = []
    · subst ended
      exact reassembles_of_last awaits.queue ran (last rfl)
    · obtain ⟨pool, b, number, mid⟩ := more ended
      exact .cons awaits.queue ran (mid.completes request small nonempty minute bytes ended)

/-- Without a buffer to read into the process ends. -/
theorem buffer_of_receive (awaits : Awaits k old pool w) (done : receive k w (a :: rest) = .ok v) :
    (w.data.clients k).bufRead.curr ≠ none ∨ pool ≠ [] := by
  by_contra missing
  obtain ⟨curr, empty⟩ := not_or.mp missing
  have empty := not_not.mp empty
  subst empty
  obtain ⟨status, u, ran, _⟩ := run_of_receive done
  have own : (busy k (arriving w a)).data.clients k = { w.data.clients k with idle := false } := update_self _ _ _
  have ends : Wp (tcpClientRead k) (fun _ _ => False) (fun _ => True) (arriving w a) := by
    rw [wp_tcpClientRead_once (w := arriving w a) awaits.line, clientReadOnce, wp_bind, clientReadBuf, wp_bind, wp_getClient,
      own, not_not.mp curr]
    simp only
    rw [wp_bind]
    refine wp_allocBuf_of_nil awaits.pool ?_
    rw [wp_bind, wp_setClient, wp_deref]
    exact ⟨fun b same => by simp at same, fun _ => trivial⟩
  exact wp_of_run ran ends

theorem fits_of_reassembles (request : Request key plain sent) (awaits : Awaits k old pool w) (cut : Cut key sent arrivals)
    (reassembles : Reassembles k old plain w arrivals) : Fits k pool sent w arrivals := by
  have least := request.least
  have most := request.most
  have length := request.length
  obtain ⟨v, done, _⟩ := reassembles.whole
  cases arrivals with
  | nil =>
    have empty : sent = [] := cut.bytes.symm
    rw [empty, List.length_nil] at length
    omega
  | cons a rest =>
    have bytes : a.bytes ++ rest.flatMap Arrival.bytes = sent := by rw [← List.flatMap_cons, cut.bytes]
    have total : a.bytes.length + (rest.flatMap Arrival.bytes).length = sent.length := by rw [← bytes, List.length_append]
    have nonempty : ∀ a' ∈ rest, a'.bytes ≠ [] := fun a' member => cut.nonempty a' (List.mem_cons_of_mem a member)
    have minute : ∀ a' ∈ rest, generateKey a'.now = key := fun a' member => cut.minute a' (List.mem_cons_of_mem a member)
    have buffer := buffer_of_receive awaits done
    obtain ⟨status, u, ran, done⟩ := run_of_receive done
    have wp : Wp (tcpClientRead k) (fun _ v =>
        (a.bytes.length < 16 → ∃ b, v.rings.items .toserver = some (old ++ [b])) ∧
        (16 ≤ a.bytes.length → sent.length = httpBufSize →
          rest ≠ [] ∧ ∃ pool b number, Mid k old pool b plain a.bytes number v)) (fun _ => True) (arriving w a) :=
      wp_read_first request awaits buffer (cut.nonempty a List.mem_cons_self) (cut.minute a List.mem_cons_self) bytes
      (fun short v b queue => ⟨fun _ => ⟨b, queue⟩, fun long => absurd short (by omega)⟩)
      (fun long later v pool b number mid => ⟨fun short => absurd short (by omega), fun _ _ =>
        ⟨fun last => later (by rw [last]; rfl), pool, b, number, mid⟩⟩)
      (fun long _ small v _ => ⟨fun short => absurd short (by omega), fun _ full => absurd full (by omega)⟩)
      (fun _ _ => rfl)
    obtain ⟨early, whole⟩ := wp_of_run ran wp
    have long : 16 ≤ a.bytes.length := by
      by_contra short
      obtain ⟨b, queue⟩ := early (Nat.lt_of_not_le short)
      have some : rest ≠ [] := by
        rintro rfl
        rw [List.flatMap_nil, List.length_nil] at total
        omega
      obtain ⟨u', done', kept⟩ := reassembles.early [a] rest rfl some
      cases ((receive_cons ran).symm.trans done')
      have same := Option.some.inj (kept.symm.trans queue)
      exact absurd (congrArg List.length same) (by simp)
    refine ⟨?_, ?_, buffer⟩
    · rintro a' ⟨⟩
      exact long
    · by_contra large
      obtain ⟨some, pool, b, number, mid⟩ := whole long (by omega)
      exact mid.fails request (by omega) nonempty minute bytes some done

/-- A request is reassembled if and only if its header comes with the first read, it does not
fill its buffer, and there is one. -/
theorem reassembles_iff (request : Request key plain sent) (awaits : Awaits k old pool w) (cut : Cut key sent arrivals) :
    Reassembles k old plain w arrivals ↔ Fits k pool sent w arrivals :=
  ⟨fits_of_reassembles request awaits cut, reassembles_of_fits request awaits cut⟩

end

/-! A request with a payload in two reads, and one that is only a header. -/

def plainHeader (size : Nat) : List Byte := List.replicate 8 0 ++ bytesBE 4 size ++ List.replicate 4 0

def withPayload : List Byte := plainHeader 24 ++ text "pathinfo"

def payloadSent : List Byte := cipherWords (encry (generateKey 0)) 3 withPayload

theorem request_withPayload : Request (generateKey 0) withPayload payloadSent :=
  ⟨by decide, by decide, by decide, by decide, rfl⟩

def bareSent : List Byte := cipherWords (encry (generateKey 0)) 2 (plainHeader 16)

theorem request_bareHeader : Request (generateKey 0) (plainHeader 16) bareSent :=
  ⟨by decide, by decide, by decide, by decide, rfl⟩

theorem cut_at {sent : List Byte} {n : Nat} (some : 0 < n) (inside : n < sent.length) :
    Cut (generateKey 0) sent [⟨0, sent.take n⟩, ⟨0, sent.drop n⟩] := by
  refine ⟨fun a member => ?_, by simp, ?_⟩
  · rw [← List.length_pos_iff]
    rcases List.mem_pair.mp member with rfl | rfl
    · rw [List.length_take]
      omega
    · rw [List.length_drop]
      omega
  · rw [List.flatMap_cons, List.flatMap_singleton]
    exact List.take_append_drop n sent

theorem exists_awaits : ∃ R : Rings BufHead BufId,
    Awaits 0 [] (List.finRange httpBufCaches).reverse ⟨initData [] [] 80 1024 3 0, R⟩ := by
  obtain ⟨R, empty, others, _⟩ := exists_lists [.clientRead 0] (by simp [initRings])
  refine ⟨R, .inl rfl, rfl, rfl, rfl, ?_, empty _ List.mem_cons_self, others .toserver (by simp), others .caches (by simp),
    fun _ => rfl⟩
  intro b same
  cases same

theorem pool_ne_nil : (List.finRange httpBufCaches).reverse ≠ [] := by
  intro none
  have total := congrArg List.length none
  rw [List.length_reverse, List.length_finRange] at total
  cases total

theorem reassembles_iff_whole : ∃ w, Reassembles 0 [] withPayload w [⟨0, payloadSent.take 20⟩, ⟨0, payloadSent.drop 20⟩] := by
  obtain ⟨R, awaits⟩ := exists_awaits
  have length : payloadSent.length = 24 := request_withPayload.length
  have cut := @cut_at payloadSent 20 (by decide) (by rw [length]; decide)
  refine ⟨_, (reassembles_iff request_withPayload awaits cut).mpr ⟨?_, ?_, .inr pool_ne_nil⟩⟩
  · rintro a ⟨⟩
    rw [List.length_take, length]
    decide
  · rw [length]
    decide

/-- A first read of one byte is queued for the server. -/
theorem single_byte_queued : ∃ R : Rings BufHead BufId,
    Awaits 0 [] (List.finRange httpBufCaches).reverse ⟨initData [] [] 80 1024 3 0, R⟩ ∧
    ¬ Reassembles 0 [] (plainHeader 16) ⟨initData [] [] 80 1024 3 0, R⟩ [⟨0, bareSent.take 1⟩, ⟨0, bareSent.drop 1⟩] := by
  obtain ⟨R, awaits⟩ := exists_awaits
  have length : bareSent.length = 16 := request_bareHeader.length
  have first : (bareSent.take 1).length = 1 := by
    rw [List.length_take]
    omega
  have cut := @cut_at bareSent 1 Nat.one_pos (by omega)
  refine ⟨R, awaits, fun reassembles => ?_⟩
  have long := (fits_of_reassembles request_bareHeader awaits cut reassembles).header _ rfl
  exact absurd (first ▸ long) (by decide)

end WebTunnel.Device.Arrivals
