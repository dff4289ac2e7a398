import Mathlib.Data.Fintype.Card
import WebTunnel.Device.Ciphering

/-! Writing to a tunnel client: every queued buffer is rounded up to whole blocks, enciphered
and given to the system, which has to take it whole. -/

namespace WebTunnel.Device.Writing
open Library.Bytes Library.Lists Library.Routines Library.Routines.Routine Function Device.Types Buffers Pool Tunnel Manager Ciphering

/-- A buffer as it is queued for a client. -/
structure Queued (info : BufInfo) : Prop where
  start : info.start = 0
  len : 0 ≤ info.len
  size : info.len ≤ httpBufSize

/-- The blocks of the cipher that the bytes of a buffer take up. -/
def blocks (info : BufInfo) : Nat := ((info.len + 7) / 8).toNat

/-- The bytes of a buffer and what follows them in its last block. -/
def rounded (info : BufInfo) : List Byte := info.buf.slice 0 (8 * blocks info)

def enciphered (now : Int) (info : BufInfo) : List Byte :=
  cipherWords (encry (generateKey now)) (blocks info) (rounded info)

/-- The system takes so many bytes with one call. -/
def Takes (size : Nat) : Reply → Prop
  | .fail _ => False
  | r => size ≤ r.count

/-- It takes each of the buffers whole. -/
def Whole (bufs : BufId → BufInfo) : List BufId → List Reply → Prop
  | [], _ => True
  | b :: rest, replies => Takes (8 * blocks (bufs b)) (replies.headD (.fail .again)) ∧ Whole bufs rest replies.tail

def bytesTo (o : Owner) : Act → List Byte
  | .write o' bytes => if o' = o then bytes else []
  | _ => []

/-- All that the system has taken for an owner. -/
def written (o : Owner) (acts : List Act) : List Byte := acts.reverse.flatMap (bytesTo o)

theorem written_cons (o : Owner) (act : Act) (acts : List Act) :
    written o (act :: acts) = written o acts ++ bytesTo o act := by
  rw [written, List.reverse_cons, List.flatMap_append, List.flatMap_singleton]
  rfl

section
variable {info : BufInfo} {bufs bufs' : BufId → BufInfo} {l : List BufId} {replies : List Reply}

@[simp] theorem rounded_length (info : BufInfo) : (rounded info).length = 8 * blocks info := Mem.slice_length _ _ _

@[simp] theorem enciphered_length (now : Int) (info : BufInfo) : (enciphered now info).length = 8 * blocks info := by
  rw [enciphered, cipherWords_length _ (rounded_length info).ge, rounded_length]

theorem blocks_room (queued : Queued info) : 8 * blocks info ≤ bufRoom := by
  have size := queued.size
  have room : bufRoom = 2052 := rfl
  have whole : httpBufSize = 2048 := rfl
  unfold blocks
  omega

theorem tdiv_len (queued : Queued info) : Int.tdiv (info.len + 7) 8 * 8 = ((8 * blocks info : Nat) : Int) := by
  have positive := queued.len
  rw [Int.tdiv_eq_ediv_of_nonneg (by omega)]
  unfold blocks
  omega

theorem tdiv_words (queued : Queued info) :
    Int.tdiv (Int.tdiv (info.len + 7) 8 * 8) 4 = ((2 * blocks info : Nat) : Int) := by
  rw [tdiv_len queued, Int.tdiv_eq_ediv_of_nonneg (by omega)]
  omega

theorem whole_congr (same : ∀ b ∈ l, bufs' b = bufs b) : Whole bufs' l replies ↔ Whole bufs l replies := by
  induction l generalizing replies with
  | nil => rfl
  | cons b rest ih =>
    rw [Whole, Whole, same b List.mem_cons_self, ih fun b' member => same b' (List.mem_cons_of_mem b member)]

end

/-! One call of `write`. -/

section
variable {o : Owner} {bytes : List Byte} {post : Int → DevState → Prop} {err : Fault → Prop} {w : DevState}

theorem wp_sysWrite_of_takes (takes : Takes bytes.length (w.data.replies.headD (.fail .again)))
    (next : post bytes.length { w with data := { w.data with replies := w.data.replies.tail }.note (.write o bytes) }) :
    Wp (sysWrite o bytes) post err w := by
  rw [sysWrite, wp_bind, reply, wp_bind, wp_data, wp_bind, wp_modify, wp_pure]
  cases answer : w.data.replies.headD (.fail .again) with
  | fail e =>
    rw [answer] at takes
    exact takes.elim
  | value n | data sent =>
    rw [answer] at takes
    have whole := List.take_of_length_le takes
    have least := Nat.min_eq_right takes
    rw [wp_bind, wp_note, whole, wp_pure, ← Nat.cast_min, least]
    exact next

theorem wp_sysWrite_of_short (short : ¬ Takes bytes.length (w.data.replies.headD (.fail .again)))
    (next : ∀ (n : Int) v, n ≠ bytes.length → post n v) : Wp (sysWrite o bytes) post err w := by
  rw [sysWrite, wp_bind, reply, wp_bind, wp_data, wp_bind, wp_modify, wp_pure]
  cases answer : w.data.replies.headD (.fail .again) with
  | fail e =>
    rw [wp_bind, wp_modify, wp_pure]
    exact next (-1) _ (by omega)
  | value n | data sent =>
    rw [answer] at short
    have short := Nat.lt_of_not_ge short
    have least := Nat.min_eq_left short.le
    rw [wp_bind, wp_note, wp_pure, ← Nat.cast_min, least]
    exact next _ _ (by omega)

end

/-! The loop. -/

/-- A client in the midst of what is queued for it. -/
structure Midst (k : ClientId) (l : List BufId) (w : DevState) : Prop where
  list : w.rings.items (.clientWrite k) = some l
  curr : (w.data.clients k).bufWrite.curr = l.head?
  pool : ∃ free, w.rings.items .caches = some free
  queued : ∀ b ∈ l, Queued (w.data.bufs b)

/-- One buffer was enciphered and taken. -/
structure Wrote (k : ClientId) (b : BufId) (rest : List BufId) (w v : DevState) : Prop where
  midst : Midst k rest v
  now : v.data.now = w.data.now
  replies : v.data.replies = w.data.replies.tail
  written : written (.client k) v.data.acts =
    written (.client k) w.data.acts ++ enciphered w.data.now (w.data.bufs b)
  once : (v.data.bufs b).buf.slice 0 (8 * blocks (w.data.bufs b)) = enciphered w.data.now (w.data.bufs b)
  others : ∀ b' ≠ b, v.data.bufs b' = w.data.bufs b'
  client : v.data.clients k =
    { w.data.clients k with bufWrite := { (w.data.clients k).bufWrite with curr := rest.head? } }

section
variable {k : ClientId} {b : BufId} {l rest : List BufId} {count : Nat} {post : CallerStatus → DevState → Prop}
  {err : Fault → Prop} {w : DevState}

/-- The buffer that is written leaves the queue. -/
theorem wp_clientWrote {post : Option CallerStatus → DevState → Prop} {n : Int}
    (list : w.rings.items (.clientWrite k) = some (b :: rest)) (pool : ∃ free, w.rings.items .caches = some free)
    (whole : (w.data.bufs b).len = n)
    (next : ∀ R, R.items (.clientWrite k) = some rest → (∃ free, R.items .caches = some free) →
      post none ⟨(w.data.setBuf b { w.data.bufs b with len := 0 }).setClient k
        { w.data.clients k with bufWrite := { (w.data.clients k).bufWrite with curr := rest.head? } }, R⟩) :
    Wp (clientWrote k b n) post err w := by
  obtain ⟨free, pool⟩ := pool
  have sits : w.rings.home b = some (.clientWrite k) := Rings.home_of_mem list List.mem_cons_self
  rw [clientWrote, wp_bind, wp_getBuf, wp_bind, wp_setBuf, wp_ite, whole, Int.sub_self, if_neg (lt_irrefl 0), wp_bind]
  refine wp_del_of_home (w := ⟨_, w.rings⟩) list sits fun R items home => ?_
  rw [List.erase_cons_head] at items
  have away : R.home b = none := by rw [home, update_self]
  have pool' : R.items .caches = some free := by
    rw [items, update_of_ne (by simp)]
    exact pool
  rw [wp_bind]
  refine wp_freeBuf_of_free pool' away fun S items' home' => ?_
  have rest' : S.items (.clientWrite k) = some rest := by
    rw [items', update_of_ne (by simp), items, update_self]
  have pool'' : S.items .caches = some (b :: free) := by rw [items', update_self]
  rw [wp_bind, nextBufInfo, wp_head]
  refine ⟨fun l found => ?_, fun none => by cases rest'.symm.trans none⟩
  cases rest'.symm.trans found
  exact next S rest' ⟨_, pool''⟩

/-- One round: either the buffer is taken whole, or the assertion fails. -/
theorem wp_clientWriteLoop_cons (midst : Midst k (b :: rest) w)
    (taken : Takes (8 * blocks (w.data.bufs b)) (w.data.replies.headD (.fail .again)) →
      ∀ v, Wrote k b rest w v → Wp (clientWriteLoop k count) post err v)
    (short : ¬ Takes (8 * blocks (w.data.bufs b)) (w.data.replies.headD (.fail .again)) → err .assertion) :
    Wp (clientWriteLoop k (count + 1)) post err w := by
  have queued := midst.queued b List.mem_cons_self
  have room := blocks_room queued
  have inside : 0 ≤ (0 : Int) ∧ 0 ≤ ((8 * blocks (w.data.bufs b) : Nat) : Int) ∧
      0 + ((8 * blocks (w.data.bufs b) : Nat) : Int) ≤ bufRoom := by omega
  have length := enciphered_length w.data.now (w.data.bufs b)
  have back : ((w.data.bufs b).buf.write 0 (enciphered w.data.now (w.data.bufs b))).slice 0 (8 * blocks (w.data.bufs b)) =
      enciphered w.data.now (w.data.bufs b) := by
    have same := Mem.slice_write (w.data.bufs b).buf 0 (enciphered w.data.now (w.data.bufs b))
    rwa [length] at same
  rw [clientWriteLoop, wp_bind, wp_getClient, midst.curr, List.head?_cons]
  simp only
  rw [wp_bind, wp_getBuf, wp_bind, wp_setBuf, wp_bind, encry2, tdiv_words queued, tdiv_len queued, queued.start]
  refine (wp_cipherBuf_inside (w := ⟨_, w.rings⟩) 0 (blocks (w.data.bufs b)) (by omega)).mpr ?_
  simp only [setBuf_bufs, setBuf_setBuf]
  rw [wp_bind, wp_bytesAt]
  refine ⟨fun _ => ?_, fun outside => absurd inside outside⟩
  simp only [setBuf_bufs, Int.toNat_natCast, Int.toNat_zero]
  change Wp (do
    let n ← sysWrite (.client k) (((w.data.bufs b).buf.write 0 (enciphered w.data.now (w.data.bufs b))).slice 0
      (8 * blocks (w.data.bufs b)))
    _) _ _ _
  rw [back, wp_bind]
  by_cases takes : Takes (8 * blocks (w.data.bufs b)) (w.data.replies.headD (.fail .again))
  · refine wp_sysWrite_of_takes (by rwa [length]) ?_
    rw [length, wp_bind, wp_assert]
    refine ⟨fun _ => ?_, fun wrong => absurd ⟨rfl, trivial⟩ wrong⟩
    rw [wp_ite, if_neg (by omega), wp_bind]
    refine wp_clientWrote (w := ⟨_, w.rings⟩) midst.list midst.pool (by simp [HttpMgmt.note]) fun R list pool => ?_
    have nodup := List.nodup_cons.mp (w.rings.nodup _ _ midst.list)
    have others (b' : BufId) (other : b' ≠ b) (info info' : BufInfo) :
        ((w.data.setBuf b info).setBuf b info').bufs b' = w.data.bufs b' := by
      rw [setBuf_setBuf, setBuf_bufs_of_ne _ _ other]
    refine taken takes _ ?_
    constructor
    case midst =>
      refine ⟨list, ?_, pool, fun b' member => ?_⟩
      · simp [HttpMgmt.setClient]
      · have other : b' ≠ b := fun same => nodup.1 (same ▸ member)
        have kept := midst.queued b' (List.mem_cons_of_mem b member)
        rw [← others b' other] at kept
        exact kept
    case now => rfl
    case replies => rfl
    case written =>
      refine (written_cons _ _ _).trans (congrArg _ ?_)
      exact if_pos rfl
    case once =>
      refine Eq.trans ?_ back
      simp [HttpMgmt.setClient, HttpMgmt.setBuf, HttpMgmt.note, enciphered, rounded]
    case others => exact fun b' other => others b' other _ _
    case client => exact update_self _ _ _
  · refine wp_sysWrite_of_short (by rwa [length]) fun n v other => ?_
    rw [length] at other
    rw [wp_bind, wp_assert]
    exact ⟨fun whole => absurd whole.1 other, fun _ => short takes⟩

end

/-- All that was queued for a client was enciphered once and taken. -/
structure Sent (k : ClientId) (l : List BufId) (w v : DevState) : Prop where
  written : written (.client k) v.data.acts =
    written (.client k) w.data.acts ++ l.flatMap fun b => enciphered w.data.now (w.data.bufs b)
  once : ∀ b ∈ l, (v.data.bufs b).buf.slice 0 (8 * blocks (w.data.bufs b)) = enciphered w.data.now (w.data.bufs b)
  others : ∀ b ∉ l, v.data.bufs b = w.data.bufs b
  list : v.rings.items (.clientWrite k) = some []
  client : v.data.clients k =
    { w.data.clients k with
      line := .start
      funcRun := .read
      idle := true
      bufWrite := { (w.data.clients k).bufWrite with curr := none } }

section
variable {k : ClientId} {b : BufId} {l rest : List BufId} {count : Nat} {post : CallerStatus → DevState → Prop}
  {err : Fault → Prop} {w u v : DevState}

/-- Before anything was written there was one buffer more. -/
theorem Sent.after (sent : Sent k rest u v) (wrote : Wrote k b rest w u) (apart : b ∉ rest) : Sent k (b :: rest) w v := by
  have same (b' : BufId) (member : b' ∈ rest) : u.data.bufs b' = w.data.bufs b' :=
    wrote.others b' fun equal => apart (equal ▸ member)
  constructor
  case written =>
    have tail : (rest.flatMap fun b' => enciphered u.data.now (u.data.bufs b')) =
        rest.flatMap fun b' => enciphered w.data.now (w.data.bufs b') := by
      apply List.flatMap_congr
      intro b' member
      rw [wrote.now, same b' member]
    rw [sent.written, wrote.written, tail, List.flatMap_cons, List.append_assoc]
  case once =>
    intro b' member
    rcases List.mem_cons.mp member with rfl | member
    · rw [sent.others b' apart]
      exact wrote.once
    · rw [← same b' member, ← wrote.now]
      exact sent.once b' member
  case others =>
    intro b' away
    obtain ⟨other, away⟩ := not_or.mp (List.mem_cons.not.mp away)
    rw [sent.others b' away, wrote.others b' other]
  case list => exact sent.list
  case client => rw [sent.client, wrote.client]

theorem wp_clientWritten (midst : Midst k [] w)
    (sent : ∀ v, Sent k [] w v → post .pending v) (missing : (w.data.clients k).pfd = none → err .nullPointer) :
    Wp (clientWritten k) post err w := by
  rw [clientWritten, wp_bind, wp_getClient, wp_bind, setEvents, wp_bind, wp_deref]
  refine ⟨fun slot found => ?_, missing⟩
  simp only [getPollFd, setPollFd, wp_bind, wp_data, wp_pure, wp_modify, wp_note, wp_setClient]
  apply sent
  constructor
  case written =>
    rw [List.flatMap_nil, List.append_nil]
    exact (written_cons _ _ _).trans (List.append_nil _)
  case once => simp
  case others => exact fun b away => rfl
  case list => exact midst.list
  case client =>
    have curr : (w.data.clients k).bufWrite.curr = none := midst.curr
    rw [← curr]
    exact update_self _ _ _

/-- The loop writes everything if the system takes every buffer whole, and otherwise fails. -/
theorem wp_clientWriteLoop (midst : Midst k l w) (enough : l.length < count)
    (sent : Whole w.data.bufs l w.data.replies → ∀ v, Sent k l w v → post .pending v)
    (missing : Whole w.data.bufs l w.data.replies → (w.data.clients k).pfd = none → err .nullPointer)
    (short : ¬ Whole w.data.bufs l w.data.replies → err .assertion) : Wp (clientWriteLoop k count) post err w := by
  induction l generalizing w count with
  | nil =>
    obtain ⟨count, rfl⟩ := Nat.exists_eq_succ_of_ne_zero (by omega : count ≠ 0)
    rw [clientWriteLoop, wp_bind, wp_getClient, midst.curr]
    exact wp_clientWritten midst (sent trivial) (missing trivial)
  | cons b rest ih =>
    obtain ⟨count, rfl⟩ := Nat.exists_eq_succ_of_ne_zero (by omega : count ≠ 0)
    have apart : b ∉ rest := (List.nodup_cons.mp (w.rings.nodup _ _ midst.list)).1
    refine wp_clientWriteLoop_cons midst (fun takes u wrote => ?_) fun fails => short fun whole => fails whole.1
    have same : Whole u.data.bufs rest u.data.replies ↔ Whole w.data.bufs (b :: rest) w.data.replies := by
      rw [whole_congr fun b' member => wrote.others b' fun equal => apart (equal ▸ member), wrote.replies, Whole]
      exact (and_iff_right takes).symm
    refine ih wrote.midst (Nat.lt_of_succ_lt_succ enough) (fun whole v rest => ?_) (fun whole none => ?_) fun fails => ?_
    · exact sent (same.mp whole) v (rest.after wrote apart)
    · rw [wrote.client] at none
      exact missing (same.mp whole) none
    · exact short (same.not.mp fails)

end
/-! The coroutine. -/

/-- A client that is about to write what is queued for it. -/
structure Ready (k : ClientId) (l : List BufId) (w : DevState) : Prop where
  write : (w.data.clients k).funcRun = .write
  line : (w.data.clients k).line = .start
  curr : (w.data.clients k).bufWrite.curr = none
  list : w.rings.items (.clientWrite k) = some l
  pool : ∃ free, w.rings.items .caches = some free
  queued : ∀ b ∈ l, Queued (w.data.bufs b)

/-- A call of the coroutine: when it comes, and the answers the system has for it. -/
structure Call where
  now : Int
  replies : List Reply

def atCall (w : DevState) (call : Call) : DevState :=
  { w with data := { w.data with now := call.now, replies := call.replies } }

/-- The coroutine is called as long as it has something to write. -/
def resume (k : ClientId) : DevState → List Call → Except Fault DevState
  | w, [] => .ok w
  | w, call :: rest =>
    if (w.data.clients k).funcRun = .write then do
      let result ← (tcpClientWrite k).run (atCall w call)
      resume k result.2 rest
    else .ok w

/-- What has been taken is a part of the stream in which every buffer is enciphered once, and
no buffer is enciphered again. -/
def Once (k : ClientId) (l : List BufId) (w v : DevState) : Prop :=
  ∃ (now : BufId → Int) (sent : List Byte),
    written (.client k) v.data.acts = written (.client k) w.data.acts ++ sent ∧
    (sent <+: l.flatMap fun b => enciphered (now b) (w.data.bufs b)) ∧
    ∀ b ∈ l, (v.data.bufs b).buf.slice 0 (8 * blocks (w.data.bufs b)) = rounded (w.data.bufs b) ∨
      (v.data.bufs b).buf.slice 0 (8 * blocks (w.data.bufs b)) = enciphered (now b) (w.data.bufs b)

/-- No assertion fails, however often the coroutine is called, and what is taken is right. -/
structure Tolerates (k : ClientId) (l : List BufId) (w : DevState) (calls : List Call) : Prop where
  asserts : resume k w calls ≠ .error .assertion
  once : ∀ v, resume k w calls = .ok v → Once k l w v

section
variable {k : ClientId} {l : List BufId} {w v : DevState} {call : Call} {calls : List Call}

theorem length_lt_caches {h : BufHead} (list : w.rings.items h = some l) : l.length < httpBufCaches + 1 := by
  have bound := (w.rings.nodup _ _ list).length_le_card
  rw [Fintype.card_fin] at bound
  exact Nat.lt_succ_of_le bound

/-- The first call writes everything if the system takes every buffer whole, and otherwise fails. -/
theorem wp_tcpClientWrite {post : CallerStatus → DevState → Prop} {err : Fault → Prop} (ready : Ready k l w)
    (sent : Whole w.data.bufs l w.data.replies → ∀ v, Sent k l w v → post .pending v)
    (missing : Whole w.data.bufs l w.data.replies → (w.data.clients k).pfd = none → err .nullPointer)
    (short : ¬ Whole w.data.bufs l w.data.replies → err .assertion) : Wp (tcpClientWrite k) post err w := by
  rw [tcpClientWrite, wp_bind, wp_getClient, wp_bind, wp_setClient, ready.line]
  simp only
  rw [wp_bind, wp_assert]
  refine ⟨fun _ => ?_, fun wrong => absurd ready.curr wrong⟩
  rw [wp_bind, nextBufInfo, wp_head]
  refine ⟨fun l' found => ?_, fun none => by cases ready.list.symm.trans none⟩
  cases ready.list.symm.trans found
  rw [wp_bind, setClientCurr, wp_bind, wp_getClient, wp_setClient]
  refine wp_clientWriteLoop ⟨ready.list, ?_, ready.pool, ready.queued⟩ (length_lt_caches ready.list) ?_ ?_ short
  · simp [HttpMgmt.setClient]
  · intro whole v sent'
    refine sent whole v ⟨sent'.written, sent'.once, sent'.others, sent'.list, ?_⟩
    rw [sent'.client]
    simp [HttpMgmt.setClient]
  · intro whole none
    refine missing whole ?_
    simpa [HttpMgmt.setClient] using none

theorem once_refl : Once k l w w :=
  ⟨fun _ => 0, [], (List.append_nil _).symm, List.nil_prefix, fun _ _ => .inl rfl⟩

theorem once_of_sent (sent : Sent k l (atCall w call) v) : Once k l w v :=
  ⟨fun _ => call.now, _, sent.written, List.prefix_refl _, fun b member => .inr (sent.once b member)⟩

/-- A client that has nothing more to write is left alone. -/
theorem resume_of_read (read : (w.data.clients k).funcRun = .read) : resume k w calls = .ok w := by
  cases calls with
  | nil => rfl
  | cons call rest =>
    rw [resume, if_neg (by simp [read])]

theorem tolerates_of_whole (ready : Ready k l w)
    (whole : ∀ call ∈ calls.head?, Whole w.data.bufs l call.replies) : Tolerates k l w calls := by
  cases calls with
  | nil =>
    refine ⟨by simp [resume], fun v same => ?_⟩
    cases same
    exact once_refl
  | cons call rest =>
    have ready' : Ready k l (atCall w call) := ⟨ready.write, ready.line, ready.curr, ready.list, ready.pool, ready.queued⟩
    have ended : Wp (tcpClientWrite k) (fun _ v => Sent k l (atCall w call) v) (fun e => e = .nullPointer) (atCall w call) :=
      wp_tcpClientWrite ready' (fun _ v sent => sent) (fun _ _ => rfl) fun short => absurd (whole call rfl) short
    rw [Wp, Library.Program.wp_iff] at ended
    have step : resume k w (call :: rest) = (tcpClientWrite k).run (atCall w call) >>= fun result => resume k result.2 rest :=
      if_pos ready.write
    cases ran : (tcpClientWrite k).run (atCall w call) with
    | error e =>
      have same := ended.2 e ran
      rw [ran] at step
      have step : resume k w (call :: rest) = .error e := step
      refine ⟨?_, fun v done => ?_⟩
      · rw [step, same]
        simp
      · cases step.symm.trans done
    | ok result =>
      have sent := ended.1 result.1 result.2 ran
      rw [ran] at step
      have step : resume k w (call :: rest) = resume k result.2 rest := step
      have read : (result.2.data.clients k).funcRun = .read := by rw [sent.client]
      rw [resume_of_read read] at step
      refine ⟨?_, fun v done => ?_⟩
      · rw [step]
        simp
      · cases step.symm.trans done
        exact once_of_sent sent

theorem whole_of_tolerates (ready : Ready k l w) (tolerates : Tolerates k l w calls) :
    ∀ call ∈ calls.head?, Whole w.data.bufs l call.replies := by
  intro call first
  by_contra short
  obtain ⟨rest, rfl⟩ := List.head?_eq_some_iff.mp first
  have ready' : Ready k l (atCall w call) := ⟨ready.write, ready.line, ready.curr, ready.list, ready.pool, ready.queued⟩
  have fails : Wp (tcpClientWrite k) (fun _ _ => False) (fun e => e = .assertion) (atCall w call) :=
    wp_tcpClientWrite ready' (fun whole => absurd whole short) (fun whole => absurd whole short) fun _ => rfl
  rw [Wp, Library.Program.wp_iff] at fails
  apply tolerates.asserts
  rw [resume, if_pos ready.write]
  cases ran : (tcpClientWrite k).run (atCall w call) with
  | ok result => exact (fails.1 result.1 result.2 ran).elim
  | error e =>
    rw [fails.2 e ran]
    rfl

/-- The coroutine bears every sequence of answers if and only if, when it is first called, the
system takes every buffer whole. -/
theorem tolerates_iff (ready : Ready k l w) :
    Tolerates k l w calls ↔ ∀ call ∈ calls.head?, Whole w.data.bufs l call.replies :=
  ⟨whole_of_tolerates ready, tolerates_of_whole ready⟩

end

/-! A device with one buffer queued. -/

/-- A buffer of the pool hangs on a head that was not used. -/
theorem exists_hung (h : BufHead) (bare : initRings.items h = none) :
    ∃ (R : Rings BufHead BufId) (b : BufId), R.items h = some [b] ∧ ∃ free, R.items .caches = some free := by
  have other : h ≠ .caches := by
    rintro rfl
    cases bare
  obtain ⟨R, empty, others, _⟩ := exists_lists [h] fun h' member => by rwa [List.mem_singleton.mp member]
  let b : BufId := ⟨0, by decide⟩
  have pool : R.items .caches = some (List.finRange httpBufCaches).reverse := others .caches (by simp [other.symm])
  obtain ⟨S, held, rest, _⟩ := exists_held pool (empty h List.mem_cons_self) other (List.nodup_singleton b) (by simp)
  exact ⟨S, b, held, _, rest⟩

theorem exists_queued (k : ClientId) (len : Nat) (size : len ≤ httpBufSize) :
    ∃ (w : DevState) (b : BufId), Ready k [b] w ∧ (w.data.bufs b).len = len := by
  obtain ⟨R, b, list, pool⟩ := exists_hung (.clientWrite k) rfl
  let d := initData [] [] 80 1024 3 0
  let info : BufInfo := ⟨fun _ => 0, 0, len, len⟩
  let client : TcpClientContext := { d.clients k with funcRun := .write, pfd := some 0 }
  let data := (d.setBuf b info).setClient k client
  have own : data.clients k = client := update_self _ _ _
  have holds : data.bufs b = info := setBuf_bufs (b := b) d info
  refine ⟨⟨data, R⟩, b, ?_, by rw [holds]⟩
  constructor
  case write => rw [own]
  case line =>
    rw [own]
    rfl
  case curr =>
    rw [own]
    rfl
  case list => exact list
  case pool => exact pool
  case queued =>
    intro b' member
    rw [List.mem_singleton.mp member, holds]
    exact ⟨rfl, Int.natCast_nonneg len, Int.ofNat_le.mpr size⟩

theorem tolerates_iff_taken : ∃ (w : DevState) (b : BufId), Tolerates 0 [b] w [⟨0, [.value 16]⟩, ⟨1, []⟩] := by
  obtain ⟨w, b, ready, len⟩ := exists_queued 0 16 (by decide)
  have size : 8 * blocks (w.data.bufs b) = 16 := by
    rw [blocks, len]
    rfl
  refine ⟨w, b, (tolerates_iff ready).mpr ?_⟩
  rintro call ⟨⟩
  refine ⟨?_, trivial⟩
  rw [size]
  exact le_refl 16

/-- A socket that is not ready makes the assertion fail. -/
theorem again_fails : ∃ (w : DevState) (b : BufId), Ready 0 [b] w ∧ ¬ Tolerates 0 [b] w [⟨0, [.fail .again]⟩] := by
  obtain ⟨w, b, ready, len⟩ := exists_queued 0 16 (by decide)
  refine ⟨w, b, ready, fun tolerates => ?_⟩
  exact (whole_of_tolerates ready tolerates _ rfl).1

end WebTunnel.Device.Writing
