import WebTunnel.Device.Frames

/-! The footprints of the device's functions. -/

namespace WebTunnel.Device.Footprints
set_option synthInstance.maxSize 10000
open Library.Bytes Library.Lists Library.Routines Library.Routines.Routine Function Device.Types Buffers Parsing
open Http Forward Tunnel Manager Frames

/-- What is done for a context, apart from telling the library that there is something to write. -/
def doing (o : Owner) : Set Act :=
  {act | match act with
    | .socket o' _ | .connect o' _ _ | .read o' _ | .write o' _ | .interest o' _ | .release o' => o' = o
    | .queue o' _ _ _ => o' = some o
    | .goWritable => True
    | _ => False}

def httpParts (c : CtxId) : Set Part :=
  {.ctx c, .schedule, .polls, .queue, .fill .caches, .fill .toserver, .fill (.readTodo c),
    .fill (.writeTodo c), .fill .chunk}

section
variable (o : Owner)

instance (fd : Int) : Allows (doing o) (.socket o fd) := ⟨rfl⟩
instance (host port : Nat) : Allows (doing o) (.connect o host port) := ⟨rfl⟩
instance (bytes : List Byte) : Allows (doing o) (.read o bytes) := ⟨rfl⟩
instance (bytes : List Byte) : Allows (doing o) (.write o bytes) := ⟨rfl⟩
instance (events : PollEvents) : Allows (doing o) (.interest o events) := ⟨rfl⟩
instance : Allows (doing o) (.release o) := ⟨rfl⟩
instance (type seq : Nat) (bufs : List (List Byte)) : Allows (doing o) (.queue (some o) type seq bufs) := ⟨rfl⟩
instance : Allows (doing o) .goWritable := ⟨trivial⟩

end

section
variable (c : CtxId)

instance : Allows (httpParts c) (.ctx c) := ⟨by simp [httpParts]⟩
instance : Allows (httpParts c) .schedule := ⟨by simp [httpParts]⟩
instance : Allows (httpParts c) .polls := ⟨by simp [httpParts]⟩
instance : Allows (httpParts c) .queue := ⟨by simp [httpParts]⟩
instance : Allows (httpParts c) (.fill .caches) := ⟨by simp [httpParts]⟩
instance : Allows (httpParts c) (.fill .toserver) := ⟨by simp [httpParts]⟩
instance : Allows (httpParts c) (.fill (.readTodo c)) := ⟨by simp [httpParts]⟩
instance : Allows (httpParts c) (.fill (.writeTodo c)) := ⟨by simp [httpParts]⟩
instance : Allows (httpParts c) (.fill .chunk) := ⟨by simp [httpParts]⟩

end

/-! The contents of buffers. -/

section
variable {parts : Set Part} {acts : Set Act}

instance : Within parts acts (layForward b seq bytes) := by
  unfold layForward
  dsimp only
  infer_instance

instance : Within parts acts (cipherBuf cipher b offset words) := by
  unfold cipherBuf
  infer_instance

instance : Within parts acts (encry2 b offset words) := by
  unfold encry2
  infer_instance

instance : Within parts acts (decry2 b offset words) := by
  unfold decry2
  infer_instance

end

/-! Parsing a response. -/

section
variable (c : CtxId) {parts : Set Part} {acts : Set Act} [Allows parts (.ctx c)] [Allows parts (.fill .caches)]
  [Allows parts (.fill (.readTodo c))] [Allows parts (.fill .chunk)]

instance : Within parts acts (httpChunkCheck c b) := by
  unfold httpChunkCheck
  refine within_next fun info => within_next fun _ => within_next fun bytes => ?_
  split
  · infer_instance
  · refine within_next fun tmp => ?_
    cases tmp <;> infer_instance

instance : Within parts acts (nextChunkBuf c v) := by
  unfold nextChunkBuf
  infer_instance

instance : Within parts acts (current v) := by
  unfold current
  infer_instance

instance : Within parts acts (chunkBegin c v) := by
  unfold chunkBegin
  refine within_next fun (b, info) => within_next fun bytes => ?_
  dsimp only
  refine @within_ite _ _ _ _ _ _ _ _ (@within_ite _ _ _ _ _ _ _ (within_next fun next => ?_) _)
  cases next <;> infer_instance

instance : Within parts acts (keepLast v) := by
  unfold keepLast
  infer_instance

instance : Within parts acts (chunkDone c v) := by
  unfold chunkDone
  infer_instance

instance : Within parts acts (chunkLine c v) := by
  unfold chunkLine
  refine within_next fun _ => within_next fun bytes =>
    @within_ite _ _ _ _ _ _ _ _ (@within_ite _ _ _ _ _ _ _ _ ?_)
  dsimp only
  split <;> infer_instance

instance : Within parts acts (chunkLrln c v) := by
  unfold chunkLrln
  refine within_next fun _ => @within_ite _ _ _ _ _ _ _ (within_next fun next => ?_) _
  cases next <;> infer_instance

instance : Within parts acts (copyChunk size count v) := by
  induction count generalizing v with
  | zero => exact within_stop _
  | succ count ih =>
    unfold copyChunk
    infer_instance

instance : Within parts acts (chunkGetSize c v) := by
  unfold chunkGetSize
  infer_instance

instance : Within parts acts (decodeStep c v) := by
  unfold decodeStep
  split <;> infer_instance

instance : Within parts acts (decode c fuel v) := by
  induction fuel generalizing v with
  | zero => exact within_stop _
  | succ fuel ih =>
    unfold decode
    infer_instance

instance : Within parts acts (abandon v) := by
  unfold abandon
  infer_instance

instance : Within parts acts (httpParse c) := by
  unfold httpParse
  refine within_next fun _ => within_next fun b => ?_
  split
  · infer_instance
  · refine within_next fun offset => ?_
    split <;> infer_instance

/-! What a context runs. -/

variable [Allows parts .polls] [Allows parts (.fill (.writeTodo c))]
  [∀ host port, Allows acts (.connect (.http c) host port)]
  [∀ bytes, Allows acts (.read (.http c) bytes)] [∀ bytes, Allows acts (.write (.http c) bytes)]
  [∀ events, Allows acts (.interest (.http c) events)]

instance : Within parts acts (setCtxLine c line) := by
  unfold setCtxLine
  infer_instance

instance : Within parts acts (setWriteCurr c curr) := by
  unfold setWriteCurr
  infer_instance

instance : Within parts acts (httpContextConnect c) := by
  unfold httpContextConnect
  refine within_next fun ctx => ?_
  split <;> infer_instance

instance : Within parts acts (httpContextWritten c) := by
  unfold httpContextWritten
  infer_instance

instance : Within parts acts (wroteBytes c b n) := by
  unfold wroteBytes
  infer_instance

instance : Within parts acts (writeLoop c count) := by
  induction count with
  | zero => exact within_stop _
  | succ count ih =>
    unfold writeLoop
    refine within_next fun ctx => ?_
    split
    · infer_instance
    · refine within_next fun info => within_next fun bytes =>
        within_next fun n => @within_ite _ _ _ _ _ _ _ _ ?_
      refine within_next fun status => ?_
      cases status <;> infer_instance

instance : Within parts acts (httpContextWrite c) := by
  unfold httpContextWrite
  refine within_next fun ctx => ?_
  split
  · refine within_next fun _ => within_next fun _ =>
      within_next fun _ => ?_
    split <;> infer_instance
  · infer_instance
  · infer_instance
  · refine within_next fun b => within_next fun status => ?_
    cases status <;> infer_instance
  · refine within_next fun b => within_next fun status => ?_
    cases status <;> infer_instance
  · infer_instance

instance : Within parts acts (contextSaveRead c b) := by
  unfold contextSaveRead
  infer_instance

instance : Within parts acts (readBuf c) := by
  unfold readBuf
  refine within_next fun ctx => ?_
  split <;> infer_instance

instance : Within parts acts (lastRead c b) := by
  unfold lastRead
  infer_instance

instance : Within parts acts (hostInit c) := by
  unfold hostInit
  refine within_next fun _ => within_next fun _ => within_next fun bytes => within_next fun _ => ?_
  split <;> infer_instance

/-! What it reports. -/

variable [Allows parts .queue] [Allows parts (.fill .toserver)] [Allows acts .goWritable]
  [∀ type seq bufs, Allows acts (.queue (some (.http c)) type seq bufs)]

instance : Within parts acts (generateError c) := by
  unfold generateError
  refine within_next fun b => ?_
  cases b <;> infer_instance

instance : Within parts acts (queueResponse c) := by
  unfold queueResponse
  refine within_next fun ctx => ?_
  dsimp only
  infer_instance

instance : Within parts acts (httpContextFinish c) := by
  unfold httpContextFinish
  infer_instance

instance : Within parts acts (httpContextRead c) := by
  unfold httpContextRead
  refine within_next fun ctx => ?_
  split
  case h_1 | h_2 =>
    refine within_next fun b => within_next fun info => ?_
    dsimp only
    refine within_next fun _ => within_next fun got => ?_
    split <;> infer_instance
  all_goals infer_instance

instance : Within parts acts (runHttp c) := by
  unfold runHttp
  refine within_next fun ctx => ?_
  split <;> infer_instance

/-! Where a context is scheduled. -/

variable [Allows parts .schedule] [Allows acts (.release (.http c))] [∀ fd, Allows acts (.socket (.http c) fd)]

instance : Within parts acts (unready c) := by
  unfold unready
  infer_instance

instance : Within parts acts (freeContext c) := by
  unfold freeContext
  infer_instance

instance : Within parts acts (insertTimeout c) := by
  unfold insertTimeout
  infer_instance

instance : Within parts acts (insertReadyPrio c) := by
  unfold insertReadyPrio
  refine within_next fun ctx => ?_
  dsimp only
  infer_instance

instance : Within parts acts (httpContextRelease c) := by
  unfold httpContextRelease
  infer_instance

instance : Within parts acts (httpContextExecute c) := by
  unfold httpContextExecute
  refine within_next fun _ => within_next fun _ => within_next fun status => ?_
  cases status <;> infer_instance

instance : Within parts acts (httpContextInit c) := by
  unfold httpContextInit
  infer_instance

instance : Within parts acts (contextOpen c sockfd timeout) := by
  unfold contextOpen
  infer_instance

instance : Within parts acts (serviceHttp c revents) := by
  unfold serviceHttp
  infer_instance

instance : Within parts acts (forceRelease c) := by
  unfold forceRelease
  infer_instance

end

/-! A new context is any of those that are free. -/

def contextsParts : Set Part := {part | ∃ c, part ∈ httpParts c}
def doingContexts : Set Act := {act | ∃ c, act ∈ doing (.http c)}

theorem within_context {c : CtxId} {α : Type} {code : DevM α}
    (within : Within (httpParts c) (doing (.http c)) code) : Within contextsParts doingContexts code :=
  within.mono (fun _ member => ⟨c, member⟩) fun _ member => ⟨c, member⟩

instance : Allows contextsParts .schedule := ⟨⟨⟨0, by decide⟩, by simp [httpParts]⟩⟩

instance : Within contextsParts doingContexts allocContext := by
  unfold allocContext
  refine within_next fun d => ?_
  split <;> infer_instance

instance : Within contextsParts doingContexts (httpContextCreate timeout) := by
  unfold httpContextCreate
  refine within_next fun c => ?_
  split
  · infer_instance
  next c => exact within_context (c := c) inferInstance

/-! Forwards. -/

def forwardParts (f : FwdId) : Set Part :=
  {.forward f, .polls, .queue, .forwardList, .fill .caches, .fill .toserver}

section
variable (f : FwdId)

instance : Allows (forwardParts f) (.forward f) := ⟨by simp [forwardParts]⟩
instance : Allows (forwardParts f) .polls := ⟨by simp [forwardParts]⟩
instance : Allows (forwardParts f) .queue := ⟨by simp [forwardParts]⟩
instance : Allows (forwardParts f) .forwardList := ⟨by simp [forwardParts]⟩
instance : Allows (forwardParts f) (.fill .caches) := ⟨by simp [forwardParts]⟩
instance : Allows (forwardParts f) (.fill .toserver) := ⟨by simp [forwardParts]⟩

instance : Within (forwardParts f) (doing (.forward f)) (setForwardLine f line) := by
  unfold setForwardLine
  infer_instance

instance : Within (forwardParts f) (doing (.forward f)) (setForwardCurr f curr) := by
  unfold setForwardCurr
  infer_instance

instance : Within (forwardParts f) (doing (.forward f)) (forwardToWrite f) := by
  unfold forwardToWrite
  infer_instance

instance : Within (forwardParts f) (doing (.forward f)) (forwardToRead f) := by
  unfold forwardToRead
  infer_instance

instance : Within (forwardParts f) (doing (.forward f)) (tcpForwardClosing f) := by
  unfold tcpForwardClosing
  refine within_next fun b => ?_
  cases b <;> infer_instance

instance : Within (forwardParts f) (doing (.forward f)) (tcpForwardRelease f) := by
  unfold tcpForwardRelease
  infer_instance

instance : Within (forwardParts f) (doing (.forward f)) (tcpForwardConnect f) := by
  unfold tcpForwardConnect
  refine within_next fun fwd => ?_
  split <;> infer_instance

instance : Within (forwardParts f) (doing (.forward f)) (forwardWrote f b n) := by
  unfold forwardWrote
  infer_instance

instance : Within (forwardParts f) (doing (.forward f)) (forwardWriteLoop f count) := by
  induction count with
  | zero => exact within_stop _
  | succ count ih =>
    unfold forwardWriteLoop
    refine within_next fun fwd => ?_
    split
    · infer_instance
    · refine within_next fun info => within_next fun bytes => within_next fun n => within_next fun d =>
        @within_ite _ _ _ _ _ _ _ _ (@within_ite _ _ _ _ _ _ _ _ (within_next fun status => ?_))
      cases status <;> infer_instance

instance : Within (forwardParts f) (doing (.forward f)) (tcpForwardWrite f) := by
  unfold tcpForwardWrite
  refine within_next fun fwd => within_next fun _ => ?_
  split
  case h_3 | h_4 =>
    refine within_next fun b => within_next fun status => ?_
    cases status <;> infer_instance
  all_goals infer_instance

instance : Within (forwardParts f) (doing (.forward f)) (tcpForwardRead f) := by
  unfold tcpForwardRead
  refine within_next fun fwd => within_next fun _ => within_next fun b => ?_
  split
  · infer_instance
  · refine within_next fun got => ?_
    split <;> infer_instance

instance : Within (forwardParts f) (doing (.forward f)) (runForward f) := by
  unfold runForward
  refine within_next fun fwd => ?_
  split <;> infer_instance

instance : Within (forwardParts f) (doing (.forward f)) (serviceForward f) := by
  unfold serviceForward
  refine within_next fun status => ?_
  cases status <;> infer_instance

end

/-! A new forward is the next one. -/

def forwardsParts : Set Part := {part | part = .forwardCount ∨ ∃ f, part ∈ forwardParts f}
def doingForwards : Set Act := {act | ∃ f, act ∈ doing (.forward f)}

theorem within_forward {f : FwdId} {α : Type} {code : DevM α}
    (within : Within (forwardParts f) (doing (.forward f)) code) : Within forwardsParts doingForwards code :=
  within.mono (fun _ member => .inr ⟨f, member⟩) fun _ member => ⟨f, member⟩

instance : Allows forwardsParts .forwardCount := ⟨.inl rfl⟩

instance : Within forwardsParts doingForwards (forwardOpen sockfd address port seq) := by
  unfold forwardOpen
  refine within_next fun d => ?_
  dsimp only
  refine within_next fun _ => within_forward (f := d.nextForward) inferInstance

/-- What is done for the new forward itself. -/
theorem frame_forwardOpen (w : DevState) (sockfd : Int) (address port seq : Nat) :
    Wp (forwardOpen sockfd address port seq) (fun _ v =>
      Frame (insert .forwardCount (forwardParts w.data.nextForward)) (doing (.forward w.data.nextForward)) w v ∧
        v.data.nextForward = w.data.nextForward + 1) (fun _ => True) w := by
  have counted : Within (insert .forwardCount (forwardParts w.data.nextForward))
      (doing (.forward w.data.nextForward)) (modify fun d => { d with nextForward := w.data.nextForward + 1 }) :=
    @within_forwardCount _ _ ⟨Set.mem_insert _ _⟩ _
  rw [forwardOpen, wp_bind, wp_data]
  dsimp only
  have before := (wp_modify _ _).mp (counted.frame w)
  rw [wp_bind, wp_modify]
  have rest {code : DevM Unit}
      [within : Within (forwardParts w.data.nextForward) (doing (.forward w.data.nextForward)) code] :
      Wp code (fun _ v =>
        Frame (insert .forwardCount (forwardParts w.data.nextForward)) (doing (.forward w.data.nextForward)) w v ∧
          v.data.nextForward = w.data.nextForward + 1) (fun _ => True)
        { w with data := { w.data with nextForward := w.data.nextForward + 1 } } := by
    refine wp_post (within.frame _) fun _ v after => ?_
    exact ⟨before.trans (after.mono (Set.subset_insert _ _) le_rfl), after.forwardCount (by simp [forwardParts])⟩
  exact rest

instance : Within forwardsParts doingForwards (tcpForwardCreate seq host port) := by
  unfold tcpForwardCreate
  infer_instance

/-! Tunnel clients. -/

def clientParts (k : ClientId) : Set Part :=
  {.client k, .server, .polls, .queue, .clientList, .fill .caches, .fill .toserver, .fill (.clientRead k),
    .fill (.clientWrite k)}

section
variable (k : ClientId)

instance : Allows (clientParts k) (.client k) := ⟨by simp [clientParts]⟩
instance : Allows (clientParts k) .server := ⟨by simp [clientParts]⟩
instance : Allows (clientParts k) .polls := ⟨by simp [clientParts]⟩
instance : Allows (clientParts k) .queue := ⟨by simp [clientParts]⟩
instance : Allows (clientParts k) .clientList := ⟨by simp [clientParts]⟩
instance : Allows (clientParts k) (.fill .caches) := ⟨by simp [clientParts]⟩
instance : Allows (clientParts k) (.fill .toserver) := ⟨by simp [clientParts]⟩
instance : Allows (clientParts k) (.fill (.clientRead k)) := ⟨by simp [clientParts]⟩
instance : Allows (clientParts k) (.fill (.clientWrite k)) := ⟨by simp [clientParts]⟩

instance : Within (clientParts k) (doing (.client k)) (clientToWrite k) := by
  unfold clientToWrite
  infer_instance

instance : Within (clientParts k) (doing (.client k)) (sendEvent bufInfo k) := by
  unfold sendEvent
  infer_instance

instance : Within (clientParts k) (doing (.client k)) (tcpClientSaveRead k b) := by
  unfold tcpClientSaveRead
  infer_instance

instance : Within (clientParts k) (doing (.client k)) (setClientLine k line) := by
  unfold setClientLine
  infer_instance

instance : Within (clientParts k) (doing (.client k)) (clientParseHeader k b) := by
  unfold clientParseHeader
  refine within_next fun _ => within_next fun bytes => within_next fun d => ?_
  dsimp only
  infer_instance

instance : Within (clientParts k) (doing (.client k)) (clientRequest k) := by
  unfold clientRequest
  infer_instance

instance : Within (clientParts k) (doing (.client k)) (clientReadBuf k) := by
  unfold clientReadBuf
  refine within_next fun client => ?_
  split <;> infer_instance

instance : Within (clientParts k) (doing (.client k)) (clientReceived k) := by
  unfold clientReceived
  infer_instance

instance : Within (clientParts k) (doing (.client k)) (clientLastRead k b) := by
  unfold clientLastRead
  infer_instance

instance : Within (clientParts k) (doing (.client k)) (tcpClientRead k) := by
  unfold tcpClientRead
  refine within_next fun client => within_next fun _ => ?_
  split
  case h_1 | h_2 =>
    refine within_next fun b => within_next fun info => ?_
    dsimp only
    refine within_next fun _ => within_next fun got => ?_
    split <;> infer_instance
  all_goals infer_instance

instance : Within (clientParts k) (doing (.client k)) (setClientCurr k curr) := by
  unfold setClientCurr
  infer_instance

instance : Within (clientParts k) (doing (.client k)) (clientWritten k) := by
  unfold clientWritten
  infer_instance

instance : Within (clientParts k) (doing (.client k)) (clientWrote k b n) := by
  unfold clientWrote
  infer_instance

instance : Within (clientParts k) (doing (.client k)) (clientWriteLoop k count) := by
  induction count with
  | zero => exact within_stop _
  | succ count ih =>
    unfold clientWriteLoop
    refine within_next fun client => ?_
    split
    · infer_instance
    · refine within_next fun info => ?_
      dsimp only
      refine within_next fun _ => within_next fun _ => within_next fun bytes => within_next fun n =>
        within_next fun _ => @within_ite _ _ _ _ _ _ _ _ (within_next fun status => ?_)
      cases status <;> infer_instance

instance : Within (clientParts k) (doing (.client k)) (tcpClientWrite k) := by
  unfold tcpClientWrite
  refine within_next fun client => within_next fun _ => ?_
  split
  case h_3 | h_4 =>
    refine within_next fun b => within_next fun status => ?_
    cases status <;> infer_instance
  all_goals infer_instance

instance : Within (clientParts k) (doing (.client k)) (runClient k) := by
  unfold runClient
  refine within_next fun client => ?_
  split <;> infer_instance

instance : Within (clientParts k) (doing (.client k)) (tcpClientRelease k) := by
  unfold tcpClientRelease
  infer_instance

instance : Within (clientParts k) (doing (.client k)) (runReadyClient k) := by
  unfold runReadyClient
  infer_instance

instance : Within (clientParts k) (doing (.client k)) (serviceClient k revents) := by
  unfold serviceClient
  refine @within_ite _ _ _ _ _ _ _ _ (within_next fun status => ?_)
  cases status <;> infer_instance

end

/-! The listening socket serves any client. -/

def clientsParts : Set Part := {part | part = .clientCount ∨ ∃ k, part ∈ clientParts k}
def doingClients : Set Act := {act | ∃ k, act ∈ doing (.client k)}

theorem within_client {k : ClientId} {α : Type} {code : DevM α}
    (within : Within (clientParts k) (doing (.client k)) code) : Within clientsParts doingClients code :=
  within.mono (fun _ member => .inr ⟨k, member⟩) fun _ member => ⟨k, member⟩

instance : Allows clientsParts .clientCount := ⟨.inl rfl⟩

instance : Within (clientParts k) acts (setServer change) := by
  unfold setServer
  infer_instance

instance : Within clientsParts doingClients (setServer change) := by
  unfold setServer
  exact within_client (k := 0) inferInstance

instance : Within clientsParts doingClients (tcpClientCreate clientfd) := by
  unfold tcpClientCreate
  refine within_next fun d => ?_
  dsimp only
  refine within_next fun _ => within_client (k := d.nextClient) inferInstance

instance : Within clientsParts doingClients tcpServerCallback := by
  unfold tcpServerCallback
  refine within_next fun d => ?_
  split <;> infer_instance

instance : Within clientsParts doingClients serviceServer := by
  unfold serviceServer
  infer_instance

/-! The reception of frames. -/

/-- Where a frame from the server is put together. -/
def storeParts : Set Part := {.prepare, .fill .prepare, .fill .caches}

instance : Allows storeParts .prepare := ⟨by simp [storeParts]⟩
instance : Allows storeParts (.fill .prepare) := ⟨by simp [storeParts]⟩
instance : Allows storeParts (.fill .caches) := ⟨by simp [storeParts]⟩

instance : Within storeParts ∅ (prepareBuf part) := by
  cases part with
  | some b => exact within_pure _
  | none =>
    unfold prepareBuf
    refine within_next fun b => ?_
    cases b <;> infer_instance

instance : Within storeParts ∅ (prepareFill b buf) := by
  unfold prepareFill
  refine within_next fun _ => within_next fun _ => within_next fun info => ?_
  dsimp only
  infer_instance

instance : Within storeParts ∅ (prepareStore part payload) := by
  unfold prepareStore
  refine within_next fun b => ?_
  cases b with
  | none => infer_instance
  | some b =>
    refine within_next fun info => @within_ite _ _ _ _ _ _ _ (within_next fun _ => within_next fun b => ?_) _
    cases b <;> infer_instance

/-- The parser's own state. -/
def parserParts : Set Part := {.prepare, .sync, .fill .prepare, .fill .caches}

instance : Allows parserParts .prepare := ⟨by simp [parserParts]⟩
instance : Allows parserParts .sync := ⟨by simp [parserParts]⟩
instance : Allows parserParts (.fill .prepare) := ⟨by simp [parserParts]⟩
instance : Allows parserParts (.fill .caches) := ⟨by simp [parserParts]⟩

instance : Within parserParts ∅ (setSync sync) := by
  unfold setSync
  infer_instance

instance : Within parserParts ∅ (prepareHeader buf) := by
  unfold prepareHeader
  refine within_next fun d => @within_ite _ _ _ _ _ _ _ _ (@within_ite _ _ _ _ _ _ _ _ ?_)
  split
  · infer_instance
  · refine within_next fun _ => @within_ite _ _ _ _ _ _ _ _ (within_next fun _ => ?_)
    dsimp only
    infer_instance

instance : Within parserParts ∅ (collect buf) := by
  have stored (part : Option BufId) (payload : List Byte) : Within parserParts ∅ (prepareStore part payload) := by
    have within : Within storeParts ∅ (prepareStore part payload) := inferInstance
    exact within.mono (by simp [storeParts, parserParts, Set.insert_subset_iff]) (le_refl ∅)
  unfold collect
  refine within_next fun d => ?_
  dsimp only
  refine within_next fun _ => within_next fun payload => ?_
  cases payload <;> infer_instance

/-! The queue to the server. -/

def queueParts : Set Part := {.queue, .fill .toserver, .fill .caches}

/-- What is done to send what is queued. -/
def sending : Set Act :=
  {act | match act with
    | .queue o _ _ _ => o = none
    | .websocketWrite _ | .writeAgain => True
    | _ => False}

instance : Allows queueParts .queue := ⟨by simp [queueParts]⟩
instance : Allows queueParts (.fill .toserver) := ⟨by simp [queueParts]⟩
instance : Allows queueParts (.fill .caches) := ⟨by simp [queueParts]⟩
instance (type seq : Nat) (bufs : List (List Byte)) : Allows sending (.queue none type seq bufs) := ⟨rfl⟩
instance (bytes : List Byte) : Allows sending (.websocketWrite bytes) := ⟨trivial⟩
instance : Allows sending .writeAgain := ⟨trivial⟩

instance : Within queueParts sending httpMgmtHandshake := by
  unfold httpMgmtHandshake
  infer_instance

instance : Within queueParts sending (askAgain more) := by
  unfold askAgain websocketWriteAgain
  infer_instance

instance : Within queueParts sending httpMgmtWritable := by
  unfold httpMgmtWritable websocketWrite
  refine within_next fun d => within_next fun _ => @within_bind _ _ _ _ _ _ ?_ _
  split <;> infer_instance

instance : Within queueParts sending callbackWriteable := by
  unfold callbackWriteable
  infer_instance

/-! The functions the rest of the manager calls, for those who leave alone something that no
context, client or forward changes. -/

class HttpWithin (parts : Set Part) (acts : Set Act) : Prop where
  parts : ∀ c, httpParts c ⊆ parts
  acts : ∀ c, doing (.http c) ⊆ acts

class ClientsWithin (parts : Set Part) (acts : Set Act) : Prop where
  parts : clientsParts ⊆ parts
  acts : doingClients ⊆ acts

class ForwardWithin (f : FwdId) (parts : Set Part) (acts : Set Act) : Prop where
  parts : forwardParts f ⊆ parts
  acts : doing (.forward f) ⊆ acts

class ParserWithin (parts : Set Part) : Prop where
  parts : parserParts ⊆ parts

class QueueWithin (parts : Set Part) (acts : Set Act) : Prop where
  parts : queueParts ⊆ parts
  acts : sending ⊆ acts

section
variable {α : Type} {parts : Set Part} {acts : Set Act} {code : DevM α}

theorem within_of_http [http : HttpWithin parts acts] (c : CtxId)
    [within : Within (httpParts c) (doing (.http c)) code] : Within parts acts code :=
  within.mono (http.parts c) (http.acts c)

theorem within_of_client [clients : ClientsWithin parts acts] (k : ClientId)
    [within : Within (clientParts k) (doing (.client k)) code] : Within parts acts code :=
  (within_client within).mono clients.parts clients.acts

theorem within_of_forward (f : FwdId) [forward : ForwardWithin f parts acts]
    [within : Within (forwardParts f) (doing (.forward f)) code] : Within parts acts code :=
  within.mono forward.parts forward.acts

section
variable [http : HttpWithin parts acts]

instance : Within parts acts (httpContextExecute c) := within_of_http c
instance : Within parts acts (serviceHttp c revents) := within_of_http c
instance : Within parts acts (forceRelease c) := within_of_http c

instance : Within parts acts (httpContextCreate timeout) := by
  have within : Within contextsParts doingContexts (httpContextCreate timeout) := inferInstance
  exact within.mono (fun _ ⟨c, member⟩ => http.parts c member) fun _ ⟨c, member⟩ => http.acts c member

end

section
variable [clients : ClientsWithin parts acts]

instance : Within parts acts (serviceClient k revents) := within_of_client k
instance : Within parts acts (runReadyClient k) := within_of_client k
instance : Within parts acts (sendEvent bufInfo k) := within_of_client k
instance : Within parts acts (clientToWrite k) := within_of_client k

instance : Within parts acts serviceServer := by
  have within : Within clientsParts doingClients serviceServer := inferInstance
  exact within.mono clients.parts clients.acts

instance [Allows parts .prepare] [Allows parts (.fill .caches)] : Within parts acts processTunnelReq := by
  unfold processTunnelReq
  infer_instance

instance [Allows parts (.fill .prepare)] : Within parts acts processTunnelResp := by
  have filled (k : ClientId) : Allows parts (.fill (.clientWrite k)) :=
    ⟨clients.parts (.inr ⟨k, by simp [clientParts]⟩)⟩
  unfold processTunnelResp
  refine within_next fun d => ?_
  split <;> infer_instance

end

section
variable [forward : ForwardWithin f parts acts]

instance : Within parts acts (serviceForward f) := within_of_forward f
instance : Within parts acts (tcpForwardRelease f) := within_of_forward f

end

instance [parser : ParserWithin parts] : Within parts acts (collect buf) := by
  have within : Within parserParts ∅ (collect buf) := inferInstance
  exact within.mono parser.parts (Set.empty_subset acts)

instance [queue : QueueWithin parts acts] : Within parts acts callbackWriteable := by
  have within : Within queueParts sending callbackWriteable := inferInstance
  exact within.mono queue.parts queue.acts

instance [Allows parts .prepare] [Allows parts .queue] [Allows parts .sync] [Allows parts .shake]
    [Allows parts .schedule] [Allows parts .alive] : Within parts acts httpMgmtParamInit :=
  within_modify fun w => { Frame.refl w with
    prepare := fun out => absurd allowed out
    queue := fun out => absurd allowed out
    sync := fun out => absurd allowed out
    shake := fun out => absurd allowed out
    schedule := fun out => absurd allowed out
    alive := fun out => absurd allowed out }

end

end WebTunnel.Device.Footprints
