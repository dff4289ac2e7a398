import WebTunnel.Device.Keeping
import WebTunnel.Device.Reassembly
import WebTunnel.Device.Requests

/-! Tunnel clients that have something to be sent: they are set to write it, unless it came while
they were busy reading. -/

namespace WebTunnel.Device.Waking
set_option synthInstance.maxSize 10000
open Library.Bytes Library.Lists Library.Routines Library.Routines.Routine Library.Run Function Device.Types Buffers
open Http Forward Tunnel Manager Frames Footprints Keeping Reassembly Requests Server.Wire

/-- A client between two steps, with its list of what to send. -/
structure Sound (client : TcpClientContext) (todo : Option (List BufId)) : Prop where
  queued : ∀ l, todo = some l → l ≠ [] → client.funcRun = .write
  ready : client.funcRun = .write → client.status = .ready ∧ client.line = .start

def Awake (k : ClientId) (w : DevState) : Prop := Sound (w.data.clients k) (w.rings.items (.clientWrite k))

def AllAwake (w : DevState) : Prop := ∀ k, Awake k w

/-- A client that has nothing to send and does not send. -/
structure Rests (k : ClientId) (w : DevState) : Prop where
  funcRun : (w.data.clients k).funcRun ≠ .write
  empty : ∀ l, w.rings.items (.clientWrite k) = some l → l = []

/-- A client that takes what is queued for it at once, or is about to send already. -/
def Willing (k : ClientId) (w : DevState) : Prop :=
  (w.data.clients k).idle = true ∨ (w.data.clients k).funcRun = .write

theorem Rests.awake {k : ClientId} {w : DevState} (rests : Rests k w) : Awake k w where
  queued l found full := absurd (rests.empty l found) full
  ready write := absurd write rests.funcRun

/-! What does not concern a client. -/

/-- The parts of the manager that are not about sending to the client. -/
def aside (k : ClientId) : Set Part := {part | part ≠ .client k ∧ part ≠ .fill (.clientWrite k)}

/-- Those that are not about sending to any other client. -/
def beside (k : ClientId) : Set Part := {part | ∀ k' ≠ k, part ∈ aside k'}

/-- Those that are not about sending to any client. -/
def outside : Set Part := {part | ∀ k, part ∈ aside k}

section
variable {α : Type} {parts : Set Part} {acts : Set Act} {k : ClientId} {w v : DevState} {code : DevM α}

/-- No buffer comes to a list that none may be added to. -/
theorem full_of_frame {h : BufHead} (frame : Frame parts acts w v) (unfilled : .fill h ∉ parts) {l : List BufId}
    (found : v.rings.items h = some l) (full : l ≠ []) : ∃ l', w.rings.items h = some l' ∧ l' ≠ [] := by
  obtain ⟨b, member⟩ := List.exists_mem_of_ne_nil l full
  obtain ⟨l', found', member'⟩ := (w.rings.linked b _).mp (frame.filled _ unfilled l found b member)
  exact ⟨l', found', List.ne_nil_of_mem member'⟩

theorem Awake.framed (awake : Awake k w) (frame : Frame parts acts w v) (apart : parts ⊆ aside k) : Awake k v := by
  have same := frame.client k fun member => (apart member).1 rfl
  constructor
  · intro l found full
    obtain ⟨l', found', full'⟩ := full_of_frame frame (fun member => (apart member).2 rfl) found full
    rw [same]
    exact awake.queued l' found' full'
  · rw [same]
    exact awake.ready

theorem Rests.framed (rests : Rests k w) (frame : Frame parts acts w v) (apart : parts ⊆ aside k) : Rests k v := by
  have same := frame.client k fun member => (apart member).1 rfl
  constructor
  · rw [same]
    exact rests.funcRun
  · intro l found
    by_contra full
    obtain ⟨l', found', full'⟩ := full_of_frame frame (fun member => (apart member).2 rfl) found full
    exact full' (rests.empty l' found')

instance (priority := low) keeps_awake_aside [within : Within (aside k) Set.univ code] : Keeps (Awake k) code :=
  keeps_of_within within fun _ _ frame awake => awake.framed frame subset_rfl

instance (priority := low) keeps_rests_aside [within : Within (aside k) Set.univ code] : Keeps (Rests k) code :=
  keeps_of_within within fun _ _ frame rests => rests.framed frame subset_rfl

instance (priority := low) keeps_awake_outside [within : Within outside Set.univ code] : Keeps AllAwake code :=
  keeps_of_within within fun _ _ frame all k => (all k).framed frame fun _ member => member k

/-- What only one client is concerned with leaves the others awake. -/
theorem wp_of_own [within : Within (beside k) Set.univ code] (others : ∀ k' ≠ k, Awake k' w)
    (own : Wp code (fun _ v => Awake k v) (fun _ => True) w) : Wp code (fun _ v => AllAwake v) (fun _ => True) w := by
  apply wp_post (wp_and own (within.frame w))
  intro _ v after k'
  by_cases same : k' = k
  · rw [same]
    exact after.1
  · exact (others k' same).framed after.2 fun _ member => member k' same

theorem within_beside (k : ClientId) [within : Within (clientParts k) (doing (.client k)) code] :
    Within (beside k) Set.univ code := by
  apply within.mono _ (Set.subset_univ _)
  intro part member k' other
  revert member
  simp only [clientParts, aside, Set.mem_insert_iff, Set.mem_singleton_iff]
  rintro (rfl | rfl | rfl | rfl | rfl | rfl | rfl | rfl | rfl) <;> simp [Ne.symm other]

end

section
variable (k : ClientId)

instance : Allows (aside k) .prepare := ⟨by simp [aside]⟩
instance : Allows (aside k) .queue := ⟨by simp [aside]⟩
instance : Allows (aside k) .polls := ⟨by simp [aside]⟩
instance : Allows (aside k) .server := ⟨by simp [aside]⟩
instance : Allows (aside k) .clientList := ⟨by simp [aside]⟩
instance : Allows (aside k) (.fill .caches) := ⟨by simp [aside]⟩
instance : Allows (aside k) (.fill .prepare) := ⟨by simp [aside]⟩
instance : Allows (aside k) (.fill .toserver) := ⟨by simp [aside]⟩
instance : Allows (aside k) (.fill (.clientRead k)) := ⟨by simp [aside]⟩

instance : Allows outside .prepare := ⟨fun k => allowed (s := aside k)⟩
instance : Allows outside .queue := ⟨fun k => allowed (s := aside k)⟩
instance : Allows outside .polls := ⟨fun k => allowed (s := aside k)⟩
instance : Allows outside .server := ⟨fun k => allowed (s := aside k)⟩
instance : Allows outside .sync := ⟨by simp [outside, aside]⟩
instance : Allows outside .shake := ⟨by simp [outside, aside]⟩
instance : Allows outside .schedule := ⟨by simp [outside, aside]⟩
instance : Allows outside .alive := ⟨by simp [outside, aside]⟩
instance : Allows outside (.fill .caches) := ⟨fun k => allowed (s := aside k)⟩
instance : Allows outside (.fill .prepare) := ⟨fun k => allowed (s := aside k)⟩

end

instance : Within outside Set.univ websocketWriteAgain := within_note _
instance : Within outside Set.univ websocketClosed := within_note _

instance : Within outside Set.univ (setSync sync) := by
  unfold setSync
  infer_instance

instance : HttpWithin outside Set.univ where
  parts c := by simp [httpParts, outside, aside, Set.insert_subset_iff]
  acts c := Set.subset_univ _

instance (f : FwdId) : ForwardWithin f outside Set.univ where
  parts := by simp [forwardParts, outside, aside, Set.insert_subset_iff]
  acts := Set.subset_univ _

instance : ParserWithin outside := ⟨by simp [parserParts, outside, aside, Set.insert_subset_iff]⟩

instance : QueueWithin outside Set.univ where
  parts := by simp [queueParts, outside, aside, Set.insert_subset_iff]
  acts := Set.subset_univ _

/-! Reading. -/

/-- A client that does not send. -/
class Reading (client : TcpClientContext) : Prop where
  funcRun : client.funcRun ≠ .write

section
variable {α : Type} {k : ClientId} {b : BufId}

instance (client : {client : TcpClientContext // client.funcRun ≠ .write}) :
    Reading ⟨line, status, client.val.funcRun, pfd, clientFd, bufRead, bufWrite, reqSeq, idle, headerParsed⟩ :=
  ⟨client.property⟩

/-- Whatever follows the looking up of a client that rests has one that does not send. -/
theorem keeps_rests_next {next : TcpClientContext → DevM α}
    (second : ∀ client : {client : TcpClientContext // client.funcRun ≠ .write}, Keeps (Rests k) (next client)) :
    Keeps (Rests k) (getClient k >>= next) := by
  constructor
  intro w rests
  rw [wp_bind, wp_getClient]
  exact (second ⟨_, rests.funcRun⟩).kept w rests

instance (priority := high) keeps_rests_get {next : TcpClientContext → DevM α}
    [second : ∀ client : {client : TcpClientContext // client.funcRun ≠ .write}, Keeps (Rests k) (next client)] :
    Keeps (Rests k) (getClient k >>= next) := keeps_rests_next second

instance keeps_rests_set (client : TcpClientContext) [reading : Reading client] :
    Keeps (Rests k) (setClient k client) := by
  constructor
  intro w rests
  rw [wp_setClient]
  constructor
  · simp only [HttpMgmt.setClient, update_self]
    exact reading.funcRun
  · exact rests.empty

instance : Keeps (Rests k) (setClientLine k line) := by
  unfold setClientLine
  infer_instance

instance : Keeps (Rests k) (tcpClientSaveRead k b) := by
  unfold tcpClientSaveRead
  infer_instance

instance : Keeps (Rests k) (clientParseHeader k b) := by
  unfold clientParseHeader
  apply keeps_next
  intro _
  apply keeps_next
  intro bytes
  apply keeps_next
  intro d
  dsimp only
  infer_instance

instance : Keeps (Rests k) (clientRequest k) := by
  unfold clientRequest
  infer_instance

instance : Keeps (Rests k) (clientReceived k) := by
  unfold clientReceived
  infer_instance

instance : Keeps (Rests k) (clientReadBuf k) := by
  unfold clientReadBuf
  apply keeps_rests_next
  intro client
  split <;> infer_instance

instance : Keeps (Rests k) (clientLastRead k b) := by
  unfold clientLastRead
  infer_instance

instance : Keeps (Rests k) (tcpClientRead k) := by
  unfold tcpClientRead
  apply keeps_rests_next
  intro client
  apply keeps_next
  intro _
  split
  case h_1 | h_2 =>
    apply keeps_next
    intro b
    apply keeps_next
    intro info
    dsimp only
    apply keeps_next
    intro _
    apply keeps_next
    intro got
    split <;> infer_instance
  all_goals infer_instance

end

/-! Sending. -/

section
variable {k : ClientId} {w : DevState}

/-- A client in the midst of sending has no buffer in hand only when nothing is left. -/
def Sending (k : ClientId) (w : DevState) : Prop :=
  (w.data.clients k).bufWrite.curr = none → ∀ l, w.rings.items (.clientWrite k) = some l → l = []

/-- The number that `write` returns, and nothing of the lists, the buffers or the clients is changed. -/
theorem wp_sysWrite_any {o : Owner} {bytes : List Byte} {post : Int → DevState → Prop} {err : Fault → Prop}
    (next : ∀ (n : Int) replies errno acts, n = -1 ∨ 0 ≤ n →
      post n { w with data := { w.data with replies, errno, acts } }) : Wp (sysWrite o bytes) post err w := by
  rw [sysWrite, wp_bind, reply, wp_bind, wp_data, wp_bind, wp_modify, wp_pure]
  cases w.data.replies.headD (.fail .again) with
  | fail e =>
    rw [wp_bind, wp_modify, wp_pure]
    exact next _ _ _ _ (.inl rfl)
  | value n | data sent =>
    rw [wp_bind, wp_note, wp_pure]
    exact next _ _ _ _ (.inr (by omega))

/-- A cipher changes the bytes of a buffer alone. -/
theorem wp_cipherBuf_any {cipher : Key → Word × Word → Word × Word} {b : BufId} {offset words : Int}
    {post : Unit → DevState → Prop} (next : ∀ buf, post () { w with data := w.data.setBuf b { w.data.bufs b with buf } }) :
    Wp (cipherBuf cipher b offset words) post (fun _ => True) w := by
  have same : w.data.setBuf b { w.data.bufs b with buf := (w.data.bufs b).buf } = w.data :=
    congrArg (fun bufs => { w.data with bufs }) (update_eq_self b w.data.bufs)
  rw [cipherBuf, wp_bind, wp_assert]
  refine ⟨fun _ => ?_, fun _ => trivial⟩
  rw [wp_bind, wp_data, wp_when]
  constructor
  · intro _
    rw [wp_bind, wp_bytesAt]
    refine ⟨fun _ => ?_, fun _ => trivial⟩
    rw [wp_memcpy]
    exact ⟨fun _ => next _, fun _ => trivial⟩
  · intro _
    have unchanged := next (w.data.bufs b).buf
    rwa [same] at unchanged

/-- A buffer that was taken whole leaves the list, and the next one is in hand. -/
theorem wp_clientWrote_whole {b : BufId} {n : Int} (whole : (w.data.bufs b).len = n) :
    Wp (clientWrote k b n) (fun status v => status = none ∧ Sending k v) (fun _ => True) w := by
  rw [clientWrote, wp_bind, wp_getBuf, wp_bind, wp_setBuf, wp_ite, whole, Int.sub_self, if_neg (lt_irrefl 0), wp_bind,
    listDel, wp_perform]
  refine ⟨fun R _ => ?_, fun _ => trivial⟩
  rw [wp_bind, freeBuf, listAdd, wp_perform]
  refine ⟨fun S _ => ?_, fun _ => trivial⟩
  rw [wp_bind, nextBufInfo, wp_head]
  refine ⟨fun l found => ?_, fun _ => trivial⟩
  rw [wp_bind, setClientCurr, wp_bind, wp_getClient, wp_setClient, wp_pure]
  refine ⟨rfl, ?_⟩
  intro none l' found'
  cases found.symm.trans found'
  simp only [HttpMgmt.setClient, update_self] at none
  exact List.head?_eq_none_iff.mp none

/-- A client that has sent everything waits for requests again. -/
theorem wp_clientWritten_rests (empty : ∀ l, w.rings.items (.clientWrite k) = some l → l = []) :
    Wp (clientWritten k) (fun _ v => Rests k v) (fun _ => True) w := by
  rw [clientWritten, wp_bind, wp_getClient, wp_bind, setEvents, wp_bind, wp_deref]
  refine ⟨fun slot found => ?_, fun _ => trivial⟩
  simp only [getPollFd, setPollFd, wp_bind, wp_data, wp_pure, wp_modify, wp_note, wp_setClient]
  constructor
  · simp [HttpMgmt.setClient, HttpMgmt.note]
  · exact empty

/-- A call that goes through has written every buffer whole; where the system takes less, the
assertion fails. -/
theorem wp_clientWriteLoop_rests {count : Nat} (sending : Sending k w) :
    Wp (clientWriteLoop k count) (fun _ v => Rests k v) (fun _ => True) w := by
  induction count generalizing w with
  | zero => trivial
  | succ count ih =>
    rw [clientWriteLoop, wp_bind, wp_getClient]
    split
    next none => exact wp_clientWritten_rests (sending none)
    next b current =>
      rw [wp_bind, wp_getBuf]
      dsimp only
      rw [wp_bind, wp_setBuf, wp_bind, encry2]
      apply wp_cipherBuf_any
      intro buf
      rw [wp_bind, wp_bytesAt]
      refine ⟨fun _ => ?_, fun _ => trivial⟩
      rw [wp_bind]
      apply wp_sysWrite_any
      intro n replies errno acts count
      rw [wp_bind, wp_assert]
      refine ⟨fun whole => ?_, fun _ => trivial⟩
      have taken : ¬ n < 0 := by omega
      rw [wp_ite, if_neg taken, wp_bind]
      apply wp_post (wp_clientWrote_whole _)
      · intro status v wrote
        rw [wrote.1]
        exact ih wrote.2
      · rw [whole.1]
        simp [HttpMgmt.setBuf]

theorem wp_tcpClientWrite_rests (line : (w.data.clients k).line = .start) :
    Wp (tcpClientWrite k) (fun _ v => Rests k v) (fun _ => True) w := by
  rw [tcpClientWrite, wp_bind, wp_getClient, wp_bind, wp_setClient, line]
  simp only
  rw [wp_bind, wp_assert]
  refine ⟨fun _ => ?_, fun _ => trivial⟩
  rw [wp_bind, nextBufInfo, wp_head]
  refine ⟨fun l found => ?_, fun _ => trivial⟩
  rw [wp_bind, setClientCurr, wp_bind, wp_getClient, wp_setClient]
  apply wp_clientWriteLoop_rests
  intro none l' found'
  cases found.symm.trans found'
  simp only [HttpMgmt.setClient, update_self] at none
  exact List.head?_eq_none_iff.mp none

/-- Whatever a client runs, it rests afterwards. -/
theorem wp_runClient (awake : Awake k w) : Wp (runClient k) (fun _ v => Rests k v) (fun _ => True) w := by
  have reads (other : (w.data.clients k).funcRun ≠ .write) :
      Wp (tcpClientRead k) (fun _ v => Rests k v) (fun _ => True) w := by
    have rests : Rests k w := by
      refine ⟨other, fun l found => ?_⟩
      by_contra full
      exact other (awake.queued l found full)
    have read : Keeps (Rests k) (tcpClientRead k) := inferInstance
    exact read.kept w rests
  rw [runClient, wp_bind, wp_getClient]
  split
  next write => exact wp_tcpClientWrite_rests (awake.ready write).2
  next other => exact reads fun write => other write

instance : Keeps (Awake k) (tcpClientRelease k) := by
  unfold tcpClientRelease
  infer_instance

instance : Keeps (Rests k) (tcpClientRelease k) := by
  unfold tcpClientRelease
  infer_instance

theorem wp_serviceClient {revents : PollEvents} (awake : Awake k w) :
    Wp (serviceClient k revents) (fun _ v => Awake k v) (fun _ => True) w := by
  have release : Keeps (Awake k) (tcpClientRelease k) := inferInstance
  rw [serviceClient, wp_ite]
  split
  · exact release.kept w awake
  · rw [wp_bind]
    apply wp_post (wp_runClient awake)
    intro status v rests
    have ready (status : CallingStatus) : Keeps (Rests k) (do
        setClient k { ← getClient k with status } : DevM Unit) := inferInstance
    have left : ∀ u, Rests k u → Awake k u := fun _ rests => rests.awake
    cases status with
    | finish =>
      have finish : Keeps (Rests k) (tcpClientRelease k) := inferInstance
      exact wp_post (finish.kept v rests) fun _ => left
    | _ => exact wp_post ((ready _).kept v rests) fun _ => left

theorem wp_runReadyClient (awake : Awake k w) : Wp (runReadyClient k) (fun _ v => Awake k v) (fun _ => True) w := by
  rw [runReadyClient, wp_bind, wp_getClient, wp_when]
  refine ⟨fun _ => ?_, fun _ => awake⟩
  rw [wp_bind]
  apply wp_post (wp_runClient awake)
  intro status v rests
  have rest : Keeps (Rests k) (do
      setClient k { ← getClient k with status := statusAfter status } : DevM Unit) := inferInstance
  exact wp_post (rest.kept v rests) fun _ _ rests => rests.awake

end

instance (k : ClientId) (revents : PollEvents) : Keeps AllAwake (serviceClient k revents) where
  kept w all := by
    have within : Within (beside k) Set.univ (serviceClient k revents) := within_beside k
    exact wp_of_own (k := k) (fun k' _ => all k') (wp_serviceClient (all k))

instance (k : ClientId) : Keeps AllAwake (runReadyClient k) where
  kept w all := by
    have within : Within (beside k) Set.univ (runReadyClient k) := within_beside k
    exact wp_of_own (k := k) (fun k' _ => all k') (wp_runReadyClient (all k))

/-! A new client has nothing to send. -/

/-- The list of a client that has nothing to send. -/
def Bare (k : ClientId) (w : DevState) : Prop := ∀ l, w.rings.items (.clientWrite k) = some l → l = []

instance {α : Type} (k : ClientId) (code : DevM α) [within : Within (aside k) Set.univ code] : Keeps (Bare k) code := by
  apply keeps_of_within within
  intro w v frame bare l found
  by_contra full
  obtain ⟨l', found', full'⟩ := full_of_frame frame (fun member => member.2 rfl) found full
  exact full' (bare l' found')

section
variable {k : ClientId} {w : DevState}

/-- What is done for a new client once its number is taken. -/
def clientOpen (k : ClientId) (clientfd : Int) : DevM Unit := do
  note (.socket (.client k) clientfd)
  initListHead (.clientRead k)
  initListHead (.clientWrite k)
  modify fun d => { d with listClient := k :: d.listClient }
  let pfd ← mgmtAddFd clientfd (pollIn ||| pollErr ||| pollHup)
  setClient k
    { line := .start
      status := .pending
      funcRun := .read
      pfd
      clientFd := clientfd
      bufRead := .zero
      bufWrite := .zero
      reqSeq := 0
      idle := true
      headerParsed := false }
  setServer fun server => { server with clientLen := server.clientLen + 1 }
  setLookup clientfd (some (.client k))

theorem wp_clientOpen {clientfd : Int} : Wp (clientOpen k clientfd) (fun _ v => Rests k v) (fun _ => True) w := by
  have server : Within (aside k) Set.univ (setServer fun server => { server with clientLen := server.clientLen + 1 }) := by
    unfold setServer
    infer_instance
  rw [clientOpen, wp_bind, wp_note, wp_bind, initListHead, wp_perform]
  refine ⟨fun R _ => ?_, fun _ => trivial⟩
  rw [wp_bind, initListHead, wp_perform]
  refine ⟨fun S done => ?_, fun _ => trivial⟩
  obtain ⟨_, items, _⟩ := init_effect done
  have bare (d : HttpMgmt) : Bare k ⟨d, S⟩ := by
    intro l found
    rw [items, update_self] at found
    exact (Option.some.inj found).symm
  rw [wp_bind, wp_modify]
  apply wp_kept_then (P := Bare k) (bare _)
  intro pfd v bare
  rw [wp_bind, wp_setClient]
  have rest : Keeps (Rests k) (do
      setServer fun server => { server with clientLen := server.clientLen + 1 }
      setLookup clientfd (some (.client k)) : DevM Unit) := inferInstance
  apply rest.kept
  constructor
  · simp [HttpMgmt.setClient]
  · exact bare

theorem tcpClientCreate_eq (clientfd : Int) : tcpClientCreate clientfd = (do
    let d ← data
    modify fun d' => { d' with nextClient := d.nextClient + 1 }
    clientOpen d.nextClient clientfd) := rfl

instance : Within (clientParts k) (doing (.client k)) (clientOpen k clientfd) := by
  unfold clientOpen
  infer_instance

instance : Keeps AllAwake (tcpClientCreate clientfd) where
  kept w all := by
    have within : Within (beside w.data.nextClient) Set.univ (clientOpen w.data.nextClient clientfd) :=
      within_beside _
    rw [tcpClientCreate_eq, wp_bind, wp_data, wp_bind, wp_modify]
    exact wp_of_own (k := w.data.nextClient) (fun k' _ => all k') (wp_post wp_clientOpen fun _ _ rests => rests.awake)

instance : Within outside Set.univ (setServer change) := by
  unfold setServer
  infer_instance

instance : Keeps AllAwake tcpServerCallback := by
  unfold tcpServerCallback
  apply keeps_next
  intro d
  split <;> infer_instance

instance : Keeps AllAwake serviceServer := by
  unfold serviceServer
  infer_instance

end

/-! Frames that something is queued for clients by. -/

section
variable {k : ClientId} {w : DevState}

/-- A client that something can be queued for. -/
structure Due (k : ClientId) (w : DevState) : Prop where
  willing : Willing k w
  ready : (w.data.clients k).funcRun = .write → (w.data.clients k).status = .ready ∧ (w.data.clients k).line = .start

/-- The parts of the manager apart from the client itself. -/
def around (k : ClientId) : Set Part := {part | part ≠ .client k}

instance (k : ClientId) : Allows (around k) .prepare := ⟨by simp [around]⟩
instance (k : ClientId) (h : BufHead) : Allows (around k) (.fill h) := ⟨by simp [around]⟩

instance {α : Type} (code : DevM α) [within : Within (around k) Set.univ code] : Keeps (Due k) code := by
  apply keeps_of_within within
  intro w v frame due
  have same : v.data.clients k = w.data.clients k := frame.client k fun member => member rfl
  constructor
  · rw [Willing, same]
    exact due.willing
  · rw [same]
    exact due.ready

/-- A client that rests is woken, and one that is about to send already needs not be. -/
theorem wp_clientToWrite (due : Due k w) :
    Wp (clientToWrite k) (fun _ v => Awake k v ∧ Willing k v) (fun _ => True) w := by
  rw [clientToWrite, wp_bind, wp_getClient, wp_when]
  constructor
  · intro _
    rw [wp_bind, setEvents, wp_bind, wp_deref]
    refine ⟨fun slot found => ?_, fun _ => trivial⟩
    simp only [getPollFd, setPollFd, wp_bind, wp_data, wp_pure, wp_modify, wp_note, wp_setClient, Awake, Willing,
      HttpMgmt.setClient, update_self]
    exact ⟨⟨fun _ _ _ => rfl, fun _ => ⟨rfl, rfl⟩⟩, .inr trivial⟩
  · intro busy
    have write := due.willing.resolve_left busy
    exact ⟨⟨fun _ _ _ => write, due.ready⟩, due.willing⟩

/-- Code that ends with waking the client, if it is due. -/
structure Wakes {α : Type} (k : ClientId) (code : DevM α) : Prop where
  woken : ∀ w, Due k w → Wp code (fun _ v => Awake k v ∧ Willing k v) (fun _ => True) w

theorem wakes_next {α β : Type} {code : DevM α} {next : α → DevM β} [first : Keeps (Due k) code]
    (second : ∀ a, Wakes k (next a)) : Wakes k (code >>= next) := by
  constructor
  intro w due
  rw [wp_bind]
  exact wp_post (first.kept w due) fun a v due => (second a).woken v due

theorem wakes_sendEvent (bufInfo : Option BufId) : Wakes k (sendEvent bufInfo k) := by
  unfold sendEvent
  refine wakes_next fun d => wakes_next fun client => wakes_next fun new => wakes_next fun new => wakes_next fun _ => ?_
  refine wakes_next fun b => wakes_next fun info => wakes_next fun bytes => wakes_next fun _ => wakes_next fun newInfo => ?_
  exact wakes_next fun _ => wakes_next fun _ => ⟨fun _ => wp_clientToWrite⟩

theorem AllAwake.due (all : AllAwake w) (willing : Willing k w) : Due k w := ⟨willing, (all k).ready⟩

/-- One event for each of some clients that are all willing. -/
theorem wp_sendEvents {bufInfo : Option BufId} {l : List ClientId} (all : AllAwake w) (willing : ∀ k ∈ l, Willing k w) :
    Wp (l.forM (sendEvent bufInfo)) (fun _ v => AllAwake v) (fun _ => True) w := by
  induction l generalizing w with
  | nil => exact all
  | cons k rest ih =>
    have within : Within (beside k) Set.univ (sendEvent bufInfo k) := within_beside k
    have sent := (wakes_sendEvent bufInfo).woken w (all.due (willing k List.mem_cons_self))
    have awake := wp_of_own (k := k) (fun k' _ => all k') (wp_post sent fun _ _ after => after.1)
    change Wp (sendEvent bufInfo k >>= fun _ => rest.forM (sendEvent bufInfo)) _ _ w
    rw [wp_bind]
    apply wp_post (wp_and (wp_and awake sent) (within.frame w))
    intro _ v after
    apply ih after.1.1
    intro k' member
    by_cases same : k' = k
    · rw [same]
      exact after.1.2.2
    · have kept : v.data.clients k' = w.data.clients k' := after.2.client k' fun member => (member k' same).1 rfl
      rw [Willing, kept]
      exact willing k' (List.mem_cons_of_mem k member)

end

/-- The clients that the frame which is complete is queued for. -/
def addressees (d : HttpMgmt) : List ClientId :=
  if d.bufPrepare.type = httpCTunnelReq then
    if d.bufPrepare.len < 0 ∨ (httpBufSize : Int) - httpCHeaderLen < d.bufPrepare.len then [] else d.listClient
  else if d.bufPrepare.type = httpCTunnelResp then
    (d.listClient.find? fun k => (d.clients k).reqSeq = d.bufPrepare.seq).toList
  else []

/-- Every client that the frame is queued for is idle or about to send. -/
def Heeded (w : DevState) : Prop := ∀ k ∈ addressees w.data, Willing k w

section
variable {w : DevState}

theorem wp_processTunnelReq (all : AllAwake w) (type : w.data.bufPrepare.type = httpCTunnelReq) (heeded : Heeded w) :
    Wp processTunnelReq (fun _ v => AllAwake v) (fun _ => True) w := by
  have release : Keeps AllAwake (do
      releasePrepare
      return 0 : DevM Int) := inferInstance
  rw [processTunnelReq, wp_bind, wp_data, wp_ite]
  split
  · exact all
  next fits =>
    rw [Heeded, addressees, if_pos type, if_neg fits] at heeded
    rw [wp_bind, nextBufInfo, wp_head]
    refine ⟨fun l found => ?_, fun _ => trivial⟩
    rw [wp_bind]
    exact wp_post (wp_sendEvents all heeded) fun _ v all => release.kept v all

theorem wp_processTunnelResp (all : AllAwake w) (type : w.data.bufPrepare.type = httpCTunnelResp) (heeded : Heeded w) :
    Wp processTunnelResp (fun _ v => AllAwake v) (fun _ => True) w := by
  have other : httpCTunnelResp ≠ httpCTunnelReq := by decide
  rw [Heeded, addressees, type, if_neg other, if_pos rfl] at heeded
  rw [processTunnelResp, wp_bind, wp_data]
  split
  next => exact all
  next k found =>
    have due := all.due (heeded k (by rw [found]; exact List.mem_singleton_self k))
    have filled : Allows (beside k) (.fill .prepare) := ⟨by simp [beside, aside]⟩
    have within {α : Type} (code : DevM α) [Within (clientParts k) (doing (.client k)) code] :
        Within (beside k) Set.univ code := within_beside k
    have fill : Allows (beside k) (.fill (.clientWrite k)) := ⟨by
      intro k' other
      simp [aside, Ne.symm other]⟩
    have wake := within (clientToWrite k)
    have wakes : Wakes k (do
        let client ← getClient k
        let b ← deref (← allocBuf)
        fillBuf b (clientHeader client.reqSeq w.data.bufPrepare.len httpCResp) httpCHeaderLen
        listAdd b .prepare
        listSpliceTailInit .prepare (.clientWrite k)
        clientToWrite k
        return 0 : DevM Int) := by
      refine wakes_next fun client => wakes_next fun b => wakes_next fun b => wakes_next fun _ => wakes_next fun _ => ?_
      refine wakes_next fun _ => ⟨fun w due => ?_⟩
      rw [wp_bind]
      exact wp_clientToWrite due
    exact wp_of_own (k := k) (fun k' _ => all k') (wp_post (wakes.woken w due) fun _ _ after => after.1)

end

/-! Other frames. -/

instance (f : FwdId) : Allows outside (.fill (.fwdWrite f)) := ⟨by simp [outside, aside]⟩
instance : Within outside Set.univ (forwardToWrite f) := within_of_forward f

instance : Within outside Set.univ (tcpForwardCreate seq host port) := by
  have within : Within forwardsParts doingForwards (tcpForwardCreate seq host port) := inferInstance
  apply within.mono _ (Set.subset_univ _)
  rintro part (rfl | ⟨f, member⟩)
  · simp [outside, aside]
  · exact ForwardWithin.parts Set.univ member

instance : Keeps AllAwake processTcpForward := by
  unfold processTcpForward forwardCommand
  refine keeps_next fun _ => @keeps_ite _ _ _ _ _ _ _ _ _ _ _ _ _ _ (keeps_next fun d => keeps_next fun _ =>
    keeps_next fun b => keeps_next fun seq => keeps_next fun port => keeps_next fun type => ?_)
  refine @keeps_ite _ _ _ _ _ _ _ _ _ _ _ _ _ (keeps_next fun f => ?_) _
  cases f <;> infer_instance

instance : Keeps AllAwake processTcpForwardresp := by
  unfold processTcpForwardresp
  refine keeps_next fun d => keeps_next fun f => ?_
  cases f <;> infer_instance

theorem keeps_dispatch_other {type : Nat} (noReq : type ≠ httpCTunnelReq) (noResp : type ≠ httpCTunnelResp) :
    Keeps AllAwake (dispatch type) := by
  unfold dispatch
  rw [if_neg noReq, if_neg noResp]
  refine @keeps_ite _ _ _ _ _ _ _ _ _ _ _ _ _ (keeps_next fun b => ?_) _
  cases b <;> infer_instance

theorem wp_dispatch {w : DevState} (all : AllAwake w) (heeded : Heeded w) :
    Wp (dispatch w.data.bufPrepare.type) (fun _ v => AllAwake v) (fun _ => True) w := by
  have released (rc : Int) : Keeps AllAwake (when (rc ≠ 0) releasePrepare) := inferInstance
  by_cases req : w.data.bufPrepare.type = httpCTunnelReq
  · have processed := wp_processTunnelReq all req heeded
    rw [req, dispatch, if_neg (by decide), if_pos rfl, wp_bind]
    exact wp_post processed fun rc v all => (released rc).kept v all
  · by_cases resp : w.data.bufPrepare.type = httpCTunnelResp
    · have processed := wp_processTunnelResp all resp heeded
      rw [resp, dispatch, if_neg (by decide), if_neg (by decide), if_pos rfl, wp_bind]
      exact wp_post processed fun rc v all => (released rc).kept v all
    · exact (keeps_dispatch_other req resp).kept w all

/-! Runs. -/

/-- The condition on the calls: a frame is processed only when the clients it is queued for heed it. -/
def HeededCalls : Keeping.Call → DevState → Prop
  | .process => Heeded
  | _ => fun _ => True

instance : KeepsFrom AllAwake Heeded prepareProcess where
  kept w all heeded := by
    have done : Keeps AllAwake (do
        setPrepare fun pbuf => { pbuf with len := 0, totalLen := 0, type := 0 }
        setSync false : DevM Unit) := inferInstance
    rw [prepareProcess, wp_bind, wp_data, wp_bind]
    exact wp_post (wp_dispatch all heeded) fun _ v all => done.kept v all

instance : Steady AllAwake HeededCalls where
  tick w now replies all k := all k
  process := inferInstanceAs (KeepsFrom AllAwake Heeded prepareProcess)

theorem awake_at_start {w : DevState} (starts : Starts w) : AllAwake w := by
  obtain ⟨username, localHost, localPort, maxFds, servFd, now, rfl⟩ := starts
  intro k
  constructor
  · intro l found
    cases found
  · intro write
    cases write

/-- Some of a request was read: bytes into the current buffer, whole buffers, or its header. -/
def PartlyReceived (k : ClientId) (w : DevState) : Prop :=
  (∃ b, (w.data.clients k).bufRead.curr = some b ∧ 0 < (w.data.bufs b).start) ∨
    (∃ l, w.rings.items (.clientRead k) = some l ∧ l ≠ []) ∨ (w.data.clients k).headerParsed = true

/-- What is queued for a client that is idle, or that is not in the middle of a request, is going to be
sent: the client is set to send and called in the next round, or when its socket takes something. -/
def Unstranded (k : ClientId) (w : DevState) : Prop :=
  (w.data.clients k).idle = true ∨ ¬ PartlyReceived k w →
    ∀ l, w.rings.items (.clientWrite k) = some l → l ≠ [] →
      (w.data.clients k).funcRun = .write ∧ ((w.data.clients k).status = .ready ∨
        ∃ slot, (w.data.clients k).pfd = some slot ∧ (w.data.pollfds slot).events &&& pollOut ≠ 0)

/-- Nothing is stranded in any run in which every event and every response is processed while the
clients it is queued for are idle or about to send. -/
theorem unstranded_of_heeded {w : DevState} (reached : Reach step (Allowed HeededCalls) Starts w) (k : ClientId) :
    Unstranded k w := by
  have all := reach_keeps (P := AllAwake) (g := HeededCalls) (fun _ => awake_at_start) reached
  intro _ l found full
  have write := (all k).queued l found full
  exact ⟨write, .inl ((all k).ready write).1⟩

/-! A client that is sent an event: at once after it connected, or after it was called in vain. -/

/-- A client connects, and the system says that there is something to read from it. -/
def connects : List Occasion :=
  [⟨.poll fun _ => pollIn, 1, []⟩, ⟨.service 0, 1, [.value 9]⟩, ⟨.poll fun _ => pollIn, 2, []⟩]

def event : Occasion :=
  ⟨.receive (headerBytes httpCTunnelReq 0 (8 + httpCHeaderLen) ++ List.replicate 8 1), 3, []⟩

def heededHere : Test fun w call => HeededCalls call w where
  passes
    | w, .process => (addressees w.data).all fun k => (w.data.clients k).idle || decide ((w.data.clients k).funcRun = .write)
    | _, _ => true
  sound w call passes := by
    cases call with
    | process =>
      intro k member
      have here := List.all_eq_true.mp passes k member
      simp only [Bool.or_eq_true, decide_eq_true_eq] at here
      exact here
    | _ => trivial

/-- The client has something to send and nothing of a request. -/
def hasEvent (run : FuncRun) (w : DevState) : Bool :=
  decide (0 ∈ w.data.listClient ∧ (w.rings.items (.clientWrite 0)).isSome ∧ w.rings.items (.clientWrite 0) ≠ some [] ∧
    (w.data.clients 0).funcRun = run ∧ (w.data.clients 0).headerParsed = false ∧
    w.rings.items (.clientRead 0) = some [] ∧
    ∀ b ∈ (w.data.clients 0).bufRead.curr, (w.data.bufs b).start = 0)

theorem hasEvent_iff {run : FuncRun} {w : DevState} (has : hasEvent run w = true) :
    0 ∈ w.data.listClient ∧ (w.data.clients 0).funcRun = run ∧ ¬ PartlyReceived 0 w ∧
      ∃ l, w.rings.items (.clientWrite 0) = some l ∧ l ≠ [] := by
  obtain ⟨connected, some, full, runs, header, read, start⟩ := of_decide_eq_true has
  obtain ⟨l, found⟩ := Option.isSome_iff_exists.mp some
  refine ⟨connected, runs, ?_, l, found, ?_⟩
  · rintro (⟨b, current, started⟩ | ⟨l, found, full⟩ | parsed)
    · rw [start b current] at started
      exact absurd started (lt_irrefl 0)
    · rw [read] at found
      exact full (Option.some.inj found).symm
    · rw [header] at parsed
      cases parsed
  · intro empty
    rw [found, empty] at full
    exact full rfl

theorem event_hasEvent :
    ((everyCall heededHere).run step device (connects ++ [event])).map (hasEvent .write) = some true := by decide +kernel

theorem unstranded_of_heeded_event :
    ∃ (w : DevState) (l : List BufId), w.rings.items (.clientWrite 0) = some l ∧ l ≠ [] ∧ (w.data.clients 0).funcRun = .write ∧
      ((w.data.clients 0).status = .ready ∨
        ∃ slot, (w.data.clients 0).pfd = some slot ∧ (w.data.pollfds slot).events &&& pollOut ≠ 0) := by
  obtain ⟨w, ran, has⟩ := Option.map_eq_some_iff.mp event_hasEvent
  obtain ⟨_, _, whole, l, found, full⟩ := hasEvent_iff has
  have reached : Reach step (Allowed HeededCalls) Starts w := Test.reach Reassembly.device_starts ran
  exact ⟨w, l, found, full, unstranded_of_heeded reached 0 (.inr whole) l found full⟩

theorem again_hasEvent :
    (run step device (connects ++ [⟨.service 1, 2, [.fail .again]⟩, event])).map (hasEvent .read) = some true := by
  decide +kernel

/-- A client whose socket had nothing to read when it was called is not woken for an event. -/
theorem stranded_after_again :
    ¬ ∀ w, Reach step (fun _ _ => True) Starts w → ∀ k ∈ w.data.listClient, Unstranded k w := by
  intro always
  obtain ⟨w, ran, has⟩ := Option.map_eq_some_iff.mp again_hasEvent
  obtain ⟨connected, read, whole, l, found, full⟩ := hasEvent_iff has
  have reached : Reach step (fun _ _ => True) Starts w := reach_of_free_run Reassembly.device_starts ran
  have write := (always w reached 0 connected (.inr whole) l found full).1
  rw [read] at write
  cases write

end WebTunnel.Device.Waking
