import WebTunnel.Server.Pieces

/-! The frames of a device, one after the other, while browsers, cameras and other users go on. -/

namespace WebTunnel.Server.Turns
open Library.Bytes Library.JavaScript Library.Json Library.Program Library.Run Library.Slots Sessions Wire Server.Types
open Processors Webcam Framing Events Moves Messages Retaining Splitting Cameras Pieces

/-- A frame in the messages it comes in. A response may be cut behind its header. -/
inductive Frame where
  | response (seq : Nat) (first : List Byte) (rest : List (List Byte))
  | forward (seq : Nat) (data padding : List Byte)

def Frame.isResponse : Frame → Bool
  | .response _ _ _ => true
  | .forward _ _ _ => false

def Frame.seq : Frame → Nat
  | .response seq _ _ | .forward seq _ _ => seq

/-- The parts of the payload, as they come. -/
def Frame.pieces : Frame → List (List Byte)
  | .response _ first rest => if first = [] then rest else first :: rest
  | .forward _ data padding => [packed data padding]

def Frame.payload (f : Frame) : List Byte := f.pieces.flatten

def Frame.messages : Frame → List (List Byte)
  | .response seq first rest =>
    (headerBytes 0x2 seq (protocolHeaderLen + (Frame.response seq first rest).payload.length) ++ first) :: rest
  | .forward seq data padding => [frameOf 0x12 seq (packed data padding)]

/-- Nothing is empty, and the fields of the header have room for the values. -/
structure Frame.Fits (f : Frame) : Prop where
  short : f.seq < 65536
  long : protocolHeaderLen + f.payload.length < 2 ^ 32
  some_ : f.pieces ≠ []
  nonempty : ∀ piece ∈ f.pieces, piece ≠ []

/-- A web request has received nothing yet; a forward answers any number of frames. -/
def Frame.Suits : Frame → Processor → Prop
  | .response _ _ _, .http p => p.start = 0
  | .forward _ _ _, .forward _ => True
  | _, _ => False

/-- What the pieces of a response make the server do: each is handed over, and answered. -/
def served (seq : Nat) (total : Int) (id : ProcId) : HttpProcessor → List (List Byte) → List Output
  | _, [] => []
  | p, piece :: rest =>
    (.processBuffer seq total id piece :: (HttpProcessor.answer id total p piece).2) ++
      served seq total id (HttpProcessor.answer id total p piece).1 rest

/-- A frame that has begun, with the processor of its session. -/
structure Begun where
  frame : Frame
  id : ProcId
  processor : Processor

def Begun.calls (b : Begun) : List Output := b.frame.pieces.map (.processBuffer b.frame.seq b.frame.payload.length b.id)

def Begun.outputs (b : Begun) : List Output :=
  match b.frame, b.processor with
  | .response seq _ _, .http p => served seq b.frame.payload.length b.id p b.frame.pieces
  | .forward seq data _, .forward p =>
    b.calls ++ [.sendUTF p.conn (.object seq "response".toList (encodeBase64 data))]
  | _, _ => []

/-- A response of which messages are to come. -/
structure Open where
  seq : Nat
  ref : ProcRef
  total : Nat
  processor : HttpProcessor
  rest : List (List Byte)

def Open.outputs (o : Open) : List Output := served o.seq o.total o.ref.id o.processor o.rest

/-- The response once its next message has come. -/
def Open.next (o : Open) (piece : List Byte) (rest : List (List Byte)) : Open :=
  { o with processor := (HttpProcessor.answer o.ref.id o.total o.processor piece).1, rest := rest }

def Open.orNone (o : Open) : Option Open := if o.rest = [] then none else some o

/-- The server with the response under way, the frames that began and what the device's messages led to. -/
structure Watch where
  server : ServerState
  under : Option Open
  begun : List Begun
  told : List Output

inductive Action where
  | frame (f : Frame) (draw : Fin 100000)
  | next (draw : Fin 100000)
  | other (e : Event)

/-- The session's processor, as the server finds it. -/
def sessionOf (s : ServerState) (user : JsVal) (seq : Nat) : Option (ProcRef × Processor) := do
  let mgr ← s.userMap user
  let ref ← getBySeq mgr.toSessionTable seq
  let p ← s.procs ref.id
  pure (ref, p)

/-- What of the frame is to come once its first message was taken. -/
def openOf (f : Frame) (ref : ProcRef) : Processor → Option Open
  | .http p =>
    match f with
    | .response seq first rest =>
      let o : Open := ⟨seq, ref, f.payload.length, p, f.pieces⟩
      (if first = [] then o else o.next first rest).orNone
    | .forward _ _ _ => none
  | _ => none

def Watch.take (w : Watch) (c : ConnId) (message : List Byte) (draw : Fin 100000) (under : Option Open) (begun : List Begun) :
    Option Watch :=
  (Events.step w.server (.binary c message draw)).map fun t =>
    ⟨t, under, w.begun ++ begun, w.told ++ sentSince w.server t⟩

def Watch.step (c : ConnId) (user : JsVal) (w : Watch) : Action → Option Watch
  | .frame f draw => do
    let (ref, p) ← sessionOf w.server user f.seq
    let message ← f.messages.head?
    w.take c message draw (openOf f ref p) [⟨f, ref.id, p⟩]
  | .next draw => do
    let o ← w.under
    let piece ← o.rest.head?
    w.take c piece draw (o.next piece o.rest.tail).orNone []
  | .other e => (Events.step w.server e).map fun t => { w with server := t }

/-- A frame begins when none is under way, for a session of its kind. Meanwhile no other message of the
user's devices comes, and nothing else takes the session of the response under way. -/
def Good (c : ConnId) (user : JsVal) (w : Watch) : Action → Prop
  | .frame f _ => w.under = none ∧ f.Fits ∧
    (∃ conn, w.server.conns c = some conn ∧ conn.isOpen) ∧
    ∃ mgr ref p, w.server.userMap user = some mgr ∧ InUse mgr.toSessionTable f.seq ref ∧
      w.server.procs ref.id = some p ∧ f.Suits p
  | .next _ => w.under.isSome ∧ ∃ conn, w.server.conns c = some conn ∧ conn.isOpen
  | .other e => Enabled w.server e ∧ ¬ activeUser w.server e user ∧
    ∀ o, w.under = some o → ∀ t mgr, Events.step w.server e = some t → t.userMap user = some mgr →
      InUse mgr.toSessionTable o.seq o.ref

/-- The device of a user in a server that runs, with no frame under way. -/
def Begins (c : ConnId) (user : JsVal) (w : Watch) : Prop :=
  Reach Events.step Enabled Starts w.server ∧ w.under = none ∧ w.begun = [] ∧ w.told = [] ∧ user ≠ .undefined ∧
    (∃ conn, w.server.conns c = some conn ∧ conn.user = user) ∧
    ∃ mgr, w.server.userMap user = some mgr ∧ AtRest mgr ∧ mgr.currTotal = 0

/-! What is handed over and what browsers are sent. -/

section
variable {seq : Nat} {total : Int} {id : ProcId} {p : HttpProcessor} {pieces : List (List Byte)} {b : Begun}

theorem answer_quiet (id : ProcId) (total : Int) (p : HttpProcessor) (buffer : List Byte) :
    ∀ output ∈ (HttpProcessor.answer id total p buffer).2, isCall output = false := by
  rw [HttpProcessor.answer]
  dsimp only
  split
  · intro output member
    rcases List.mem_append.mp member with consumed | ends
    · exact quiet_consume p id buffer output consumed
    · rw [List.mem_singleton.mp ends]
      rfl
  · exact quiet_consume p id buffer

theorem filter_answer (id : ProcId) (total : Int) (p : HttpProcessor) (buffer : List Byte) :
    (HttpProcessor.answer id total p buffer).2.filter isCall = [] := by
  have quiet := answer_quiet id total p buffer
  apply List.filter_eq_nil_iff.mpr
  intro output member
  simp [quiet output member]

/-- Every piece is handed over once, in the order in which they come. -/
theorem served_calls : (served seq total id p pieces).filter isCall = pieces.map (.processBuffer seq total id) := by
  induction pieces generalizing p with
  | nil => rfl
  | cons piece rest ih =>
    rw [served, List.filter_append, ih, List.filter_cons_of_pos rfl, filter_answer]
    rfl

theorem Begun.outputs_calls (suits : b.frame.Suits b.processor) : b.outputs.filter isCall = b.calls := by
  obtain ⟨frame, id, processor⟩ := b
  cases frame with
  | response seq first rest =>
    cases processor with
    | http p => exact served_calls
    | forward p => exact suits.elim
    | webcam p => exact suits.elim
  | forward seq data padding =>
    cases processor with
    | http p => exact suits.elim
    | forward p => rfl
    | webcam p => exact suits.elim

theorem consume_continues (p : HttpProcessor) (id : ProcId) (buffer : List Byte) : .resEnd id ∉ (HttpProcessor.consume p id buffer).2 := by
  rw [HttpProcessor.consume]
  dsimp only
  split
  · simp [HttpProcessor.innerProcessBuffer]
  · rw [HttpProcessor.processHeader]
    dsimp only
    split
    · simp
    · split
      · split
        · simp
        · split <;> simp [HttpProcessor.innerProcessBuffer]
      · simp

/-- A response ends once, behind everything else that it leads to. -/
theorem served_ends (some_ : pieces ≠ []) (nonempty : ∀ piece ∈ pieces, piece ≠ []) (size : total = (p.start + pieces.flatten.length : Nat)) :
    ∃ before, served seq total id p pieces = before ++ [.resEnd id] ∧ .resEnd id ∉ before := by
  induction pieces generalizing p with
  | nil => exact absurd rfl some_
  | cons piece rest ih =>
    have last := ends_iff nonempty size
    have continues := consume_continues p id piece
    have start := consume_start p id piece
    rw [served, HttpProcessor.answer]
    dsimp only
    rw [start]
    cases rest with
    | nil =>
      rw [if_pos (last.mpr rfl), served, List.append_nil]
      exact ⟨.processBuffer seq total id piece :: (HttpProcessor.consume p id piece).2, rfl, by simp [continues]⟩
    | cons next later =>
      rw [if_neg (fun due => by cases last.mp due)]
      have size' : total = ((HttpProcessor.consume p id piece).1.start + (next :: later).flatten.length : Nat) := by
        rw [size, start, List.flatten_cons, List.length_append, Nat.add_assoc]
      obtain ⟨before, ends, once⟩ := ih (p := (HttpProcessor.consume p id piece).1) (by simp)
        (fun b member => nonempty b (List.mem_cons_of_mem _ member)) size'
      refine ⟨.processBuffer seq total id piece :: (HttpProcessor.consume p id piece).2 ++ before, ?_, by simp [continues, once]⟩
      rw [ends, List.append_assoc]

theorem Begun.outputs_end (fits : b.frame.Fits) (suits : b.frame.Suits b.processor) (isResponse : b.frame.isResponse = true) :
    ∃ before, b.outputs = before ++ [.resEnd b.id] ∧ .resEnd b.id ∉ before := by
  obtain ⟨frame, id, processor⟩ := b
  cases frame with
  | forward seq data padding => cases isResponse
  | response seq first rest =>
    cases processor with
    | forward p => exact suits.elim
    | webcam p => exact suits.elim
    | http p =>
      have start : p.start = 0 := suits
      exact served_ends fits.some_ fits.nonempty (by rw [start, Nat.zero_add]; rfl)

end

/-! One message of a response. -/

/-- No frame is under way, or a response whose next pieces are awaited. -/
def Stands (s : ServerState) (user : JsVal) : Option Open → Prop
  | none => ∃ mgr, s.userMap user = some mgr ∧ AtRest mgr ∧ mgr.currTotal = 0
  | some o => ∃ mgr, s.userMap user = some mgr ∧ mgr.toFrameParser = ⟨some o.seq, o.total, some [], 0⟩ ∧
    InUse mgr.toSessionTable o.seq o.ref ∧ s.procs o.ref.id = some (.http o.processor)

/-- What is to come is what the length announced. -/
structure Open.Sound (o : Open) : Prop where
  size : o.total = o.processor.start + o.rest.flatten.length
  nonempty : ∀ piece ∈ o.rest, piece ≠ []

/-- The session is deleted if its response ends; nothing else happens to the sessions. -/
def Deletes (s t : ServerState) (user : JsVal) (seq : Nat) (ends : Prop) : Prop :=
  ∃ mgr mgr', s.userMap user = some mgr ∧ t.userMap user = some mgr' ∧
    (ends → ∃ obj, delSeq mgr.toSessionTable seq = .ok (obj, mgr'.toSessionTable)) ∧
    (¬ ends → mgr'.toSessionTable = mgr.toSessionTable)

section
variable {s : ServerState} {user : JsVal} {c : ConnId} {mgr : UserMgmr} {o : Open} {piece : List Byte} {rest : List (List Byte)}

theorem Open.Sound.next (sound : o.Sound) (more : o.rest = piece :: rest) : (o.next piece rest).Sound where
  size := by
    have size := sound.size
    rw [more, List.flatten_cons, List.length_append] at size
    rw [Open.next, answer_start, size, Nat.add_assoc]
  nonempty := fun b member => sound.nonempty b (by rw [more]; exact List.mem_cons_of_mem _ member)

theorem getBySeq_of_inUse {table : SessionTable ProcRef} {seq : Nat} {ref : ProcRef} (live : InUse table seq ref) :
    getBySeq table seq = some ref := by
  obtain ⟨i, _, leads, at_⟩ := live
  exact getBySeq_eq_some.mpr ⟨i, leads, at_⟩

/-- The last piece ends the response, deletes its session and leaves the parser at rest. -/
theorem wp_processBuffer_last_piece {p : HttpProcessor} {ref : ProcRef} {seq : Nat} (known : s.userMap user = some mgr)
    (proc : s.procs ref.id = some (.http p)) (shaped : Shaped mgr.toSessionTable) (live : InUse mgr.toSessionTable seq ref)
    (current : mgr.currSeq = some seq) (last : mgr.currTotal ≤ (p.start + piece.length : Nat)) :
    Wp (processBuffer user ref.id piece)
      (fun _ t => t.out = s.out ++ (HttpProcessor.answer ref.id mgr.currTotal p piece).2 ∧ Stands t user none ∧ Deletes s t user seq True)
      (fun _ => False) s := by
  obtain ⟨obj, table, deleted⟩ := delSeq_of_inUse shaped live
  have start := consume_start p ref.id piece
  have wrote : (HttpProcessor.answer ref.id mgr.currTotal p piece).2 = (HttpProcessor.consume p ref.id piece).2 ++ [.resEnd ref.id] := by
    rw [HttpProcessor.answer]
    dsimp only
    rw [start, if_pos last]
  simp only [processBuffer, HttpProcessor.processBuffer, wp_bind, wp_get, proc, wp_setProc, wp_emitAll]
  rw [wp_getMgr_of_known (by simpa using known), wp_ite, start, if_pos last, wp_bind, wp_emit, wp_bind, current,
    wp_mgrDelSeq_of_ok (by simpa using known) deleted, wp_resetParser_of_known (setMgr_userMap_self _ _ _)]
  refine ⟨?_, ⟨_, setMgr_userMap_self _ _ _, ⟨rfl, .inr rfl, rfl⟩, rfl⟩, ?_⟩
  · rw [wrote]
    exact List.append_assoc _ _ _
  · exact ⟨mgr, _, known, setMgr_userMap_self _ _ _, fun _ => ⟨obj, deleted⟩, fun never => (never trivial).elim⟩

/-- A piece is handed over and answered. Behind the last one nothing is under way. -/
theorem wp_httpNormalParse_piece (stands : Stands s user (some o)) (shaped : AllShaped s) (sound : o.Sound) (more : o.rest = piece :: rest) :
    Wp (httpNormalParse user piece)
      (fun _ t => t.out = s.out ++ .processBuffer o.seq o.total o.ref.id piece ::
          (HttpProcessor.answer o.ref.id o.total o.processor piece).2 ∧ Stands t user (o.next piece rest).orNone ∧
        Deletes s t user o.seq (rest = []))
      (fun _ => False) s := by
  obtain ⟨mgr, known, parser, live, proc⟩ := stands
  have current : mgr.currSeq = some o.seq := congrArg FrameParser.currSeq parser
  have total : mgr.currTotal = o.total := congrArg FrameParser.currTotal parser
  have found : mgr.getCurrent = some o.ref := by
    rw [UserMgmr.getCurrent, current]
    exact getBySeq_of_inUse live
  have nonempty := sound.nonempty
  rw [more] at nonempty
  have size : mgr.currTotal = (o.processor.start + (piece :: rest).flatten.length : Nat) := by
    rw [total, sound.size, more]
  have ends := ends_iff nonempty size
  rw [httpNormalParse, wp_bind, wp_getMgr_of_known known]
  simp only [current, found, wp_bind, wp_emit]
  by_cases last : rest = []
  · have ran := wp_processBuffer_last_piece (s := s.write [.processBuffer o.seq mgr.currTotal o.ref.id piece]) (by simpa using known)
      (by simpa using proc) (shaped _ _ known) live current (ends.mpr last)
    apply wp_post ran
    intro _ t after
    rw [Open.orNone, if_pos (show (o.next piece rest).rest = [] from last), ← total]
    obtain ⟨out, stands, mgr₀, mgr', known₀, known', deleted, _⟩ := after
    refine ⟨?_, stands, mgr₀, mgr', known₀, known', fun _ => deleted trivial, fun more => (more last).elim⟩
    rw [out]
    exact List.append_assoc _ _ _
  · rw [wp_processBuffer_more (by simpa using known) (by simpa using proc) (fun due => last (ends.mp due))]
    rw [Open.orNone, if_neg (show ¬ (o.next piece rest).rest = [] from last), ← total]
    have known' : (answered (s.write [.processBuffer o.seq mgr.currTotal o.ref.id piece]) o.ref.id mgr.currTotal o.processor
        piece).userMap user = some mgr := by simpa [answered] using known
    refine ⟨List.append_assoc _ _ _, ⟨mgr, known', parser, live, ?_⟩, mgr, mgr, known, known', fun done => (last done).elim, fun _ => rfl⟩
    rw [Open.next, ← total]
    exact setProc_procs_self _ _ _

/-- The message that begins a frame: its header is read, and what is behind the header is parsed. -/
theorem wp_parseNormalMessage_header {type seq length : Nat} {first : List Byte} {post : Unit → ServerState → Prop} {err : JsError → Prop}
    (known : s.userMap user = some mgr) (idle : mgr.currSeq = none) (byte : type < 256) (isData : type ≠ 0x5) (short : seq < 65536)
    (fits : protocolHeaderLen + length < 2 ^ 32) :
    Wp (parseNormalMessage user c (headerBytes type seq (protocolHeaderLen + length) ++ first)) post err s ↔
      if first = [] then post () (s.setMgr user (reading mgr seq length))
      else Wp (httpNormalParse user first) post err (s.setMgr user (reading mgr seq length)) := by
  have long : (headerBytes type seq (protocolHeaderLen + length) ++ first).length = protocolHeaderLen + first.length := by simp
  have begun : beginFrame ⟨protocolMagic, protocolVersion, type, seq, protocolHeaderLen + length⟩ = ⟨some seq, length, some [], 0⟩ := by
    simp [beginFrame]
  rw [wp_parseNormalMessage_idle known idle, if_neg (by omega), wp_parseFirstMessage known,
    parseHeaderMessage_headerBytes byte short fits]
  simp only [reduceCtorEq, false_implies, implies_true, true_and, Except.ok.injEq, forall_eq']
  rw [if_neg (by simp [headerBad]), if_neg isData, begun, afterHeader, wp_ite, long]
  by_cases empty : first = []
  · rw [if_pos empty, if_neg (by rw [empty]; simp)]
    rfl
  · have positive := List.length_pos_iff.mpr empty
    have sliced : sliceBuffer (headerBytes type seq (protocolHeaderLen + length) ++ first) protocolHeaderLen
        (protocolHeaderLen + first.length) = first := by
      rw [sliceBuffer, ← long, List.take_length]
      exact List.drop_left' (headerBytes_length _ _ _)
    rw [if_neg empty, if_pos (by omega), sliced]
    rfl

/-- What a frame's first message led to is the beginning of what its frame is to lead to. -/
structure Opens (s : ServerState) (user : JsVal) (b : Begun) (left : Option Open) (t : ServerState) (new : List Output) : Prop where
  out : t.out = s.out ++ new
  stands : Stands t user left
  sound : ∀ o, left = some o → o.Sound
  log : new ++ (left.map Open.outputs).getD [] = b.outputs
  deletes : Deletes s t user b.frame.seq (b.frame.isResponse = true ∧ left = none)

/-- The response before any of its pieces came. -/
def whole (f : Frame) (ref : ProcRef) (p : HttpProcessor) : Open := ⟨f.seq, ref, f.payload.length, p, f.pieces⟩

section
variable {f : Frame} {ref : ProcRef} {seq : Nat} {front : List Byte} {later : List (List Byte)}

theorem whole_sound {p : HttpProcessor} (fits : f.Fits) (fresh : p.start = 0) : (whole f ref p).Sound where
  size := by
    rw [whole, fresh, Nat.zero_add]
    rfl
  nonempty := fits.nonempty

theorem stands_whole {p : HttpProcessor} (live : InUse mgr.toSessionTable f.seq ref) (proc : s.procs ref.id = some (.http p)) :
    Stands (s.setMgr user (reading mgr f.seq f.payload.length)) user (some (whole f ref p)) :=
  ⟨_, setMgr_userMap_self _ _ _, rfl, live, proc⟩

/-- Where the header came alone, the whole response is to come. -/
theorem opens_header {p : HttpProcessor} (fits : (Frame.response seq [] later).Fits) (fresh : p.start = 0)
    (known : s.userMap user = some mgr) (live : InUse mgr.toSessionTable seq ref) (proc : s.procs ref.id = some (.http p)) :
    Opens s user ⟨.response seq [] later, ref.id, .http p⟩ (openOf (.response seq [] later) ref (.http p))
      (s.setMgr user (reading mgr seq (Frame.response seq [] later).payload.length)) [] := by
  have left : openOf (.response seq [] later) ref (.http p) = some (whole (.response seq [] later) ref p) := by
    rw [openOf, if_pos rfl, Open.orNone, if_neg fits.some_]
    rfl
  rw [left]
  constructor
  case out => exact (List.append_nil _).symm
  case stands => exact stands_whole (f := .response seq [] later) live proc
  case sound =>
    intro o same
    cases same
    exact whole_sound fits fresh
  case log => rfl
  case deletes =>
    refine ⟨mgr, _, known, setMgr_userMap_self _ _ _, fun done => ?_, fun _ => rfl⟩
    cases done.2

/-- Where a piece came with the header, it is handed over and answered. -/
theorem wp_httpNormalParse_first {p : HttpProcessor} (shaped : AllShaped s) (fits : (Frame.response seq front later).Fits)
    (fresh : p.start = 0) (known : s.userMap user = some mgr) (live : InUse mgr.toSessionTable seq ref)
    (proc : s.procs ref.id = some (.http p)) (some_ : front ≠ []) :
    Wp (httpNormalParse user front)
      (fun _ t => ∃ new, Opens s user ⟨.response seq front later, ref.id, .http p⟩ (openOf (.response seq front later) ref (.http p)) t new)
      (fun _ => False) (s.setMgr user (reading mgr seq (Frame.response seq front later).payload.length)) := by
  have more : (whole (.response seq front later) ref p).rest = front :: later := if_neg some_
  have sound : (whole (.response seq front later) ref p).Sound := whole_sound fits fresh
  have shaped' : AllShaped (s.setMgr user (reading mgr seq (Frame.response seq front later).payload.length)) :=
    setMgr_all shaped (show Shaped mgr.toSessionTable from shaped _ _ known)
  have left : openOf (.response seq front later) ref (.http p) = ((whole (.response seq front later) ref p).next front later).orNone := by
    rw [openOf, if_neg some_]
    rfl
  rw [left]
  apply wp_post (wp_httpNormalParse_piece (stands_whole (f := .response seq front later) live proc) shaped' sound more)
  intro _ t after
  obtain ⟨out, stands, mgr₁, mgr₂, known₁, known₂, deleted, kept⟩ := after
  cases (setMgr_userMap_self s user _).symm.trans known₁
  refine ⟨_, out, stands, fun o same => ?_, ?_, mgr, mgr₂, known, known₂, fun done => deleted ?_, fun more => kept fun done => ?_⟩
  · obtain ⟨_, same⟩ := Option.ite_none_left_eq_some.mp same
    cases same
    exact sound.next more
  · have handed : Begun.outputs ⟨.response seq front later, ref.id, .http p⟩ =
        served seq (Frame.response seq front later).payload.length ref.id p (front :: later) := by
      rw [← more]
      rfl
    rw [handed, served, Open.orNone]
    split
    next done =>
      have done : later = [] := done
      rw [done]
      rfl
    next => rfl
  · by_contra more
    have done := done.2
    rw [Open.orNone, if_neg (show ¬ (Open.next _ front later).rest = [] from more)] at done
    cases done
  · exact more ⟨rfl, if_pos done⟩

/-- A forward's frame is one message, and is answered at once. -/
theorem wp_parseNormalMessage_forward {p : ForwardProcessor} {data padding : List Byte} (fits : (Frame.forward seq data padding).Fits)
    (known : s.userMap user = some mgr) (idle : mgr.currSeq = none) (live : InUse mgr.toSessionTable seq ref)
    (proc : s.procs ref.id = some (.forward p)) :
    Wp (parseNormalMessage user c (frameOf 0x12 seq (packed data padding)))
      (fun _ t => ∃ new, Opens s user ⟨.forward seq data padding, ref.id, .forward p⟩ none t new) (fun _ => False) s := by
  have long := fits.long
  have short : seq < 65536 := fits.short
  have length : (Frame.forward seq data padding).payload = packed data padding := List.append_nil _
  rw [length, packed_length] at long
  have found := getBySeq_of_inUse live
  rw [wp_parseNormalMessage_frame known idle (by decide) (by decide) short
    (fits.nonempty _ (List.mem_singleton_self _)) (by rw [packed_length]; exact long) found]
  apply wp_post (wp_forward_processBuffer found proc (by omega) [.processBuffer seq (packed data padding).length ref.id (packed data padding)])
  intro _ t after
  refine ⟨_, by rw [after.1, List.append_assoc], ⟨_, after.2, ⟨rfl, .inr rfl, rfl⟩, rfl⟩, fun o none => (by cases none), ?_,
    mgr, _, known, after.2, fun done => (by cases done.1), fun _ => rfl⟩
  rw [Begun.outputs, Begun.calls, length]
  rfl

theorem wp_parseNormalMessage_begins {p : Processor} {message : List Byte} (stands : Stands s user none)
    (shaped : AllShaped s) (fits : f.Fits) (suits : f.Suits p) (known : s.userMap user = some mgr)
    (live : InUse mgr.toSessionTable f.seq ref) (proc : s.procs ref.id = some p) (first : f.messages.head? = some message) :
    Wp (parseNormalMessage user c message) (fun _ t => ∃ new, Opens s user ⟨f, ref.id, p⟩ (openOf f ref p) t new)
      (fun _ => False) s := by
  obtain ⟨mgr', known', rest, _⟩ := stands
  cases known.symm.trans known'
  cases f with
  | response seq front later =>
    cases p with
    | forward p => exact suits.elim
    | webcam p => exact suits.elim
    | http p =>
      have header : headerBytes 0x2 seq (protocolHeaderLen + (Frame.response seq front later).payload.length) ++ front = message :=
        Option.some.inj first
      have short : seq < 65536 := fits.short
      rw [← header, wp_parseNormalMessage_header known rest.idle (by decide) (by decide) short fits.long]
      split
      next empty =>
        subst empty
        exact ⟨[], opens_header fits suits known live proc⟩
      next more => exact wp_httpNormalParse_first shaped fits suits known live proc more
  | forward seq data padding =>
    cases p with
    | http p => exact suits.elim
    | webcam p => exact suits.elim
    | forward p =>
      have header : frameOf 0x12 seq (packed data padding) = message := Option.some.inj first
      rw [← header]
      exact wp_parseNormalMessage_forward fits known rest.idle live proc

end

end

/-! Other events. -/

section
variable {active : JsVal → Prop} {talks : Prop} {s t : ServerState} {user : JsVal} {ref : ProcRef}

/-- Objects of a table were there before, or are new. -/
theorem Move.live_old {mgr mgr' : UserMgmr} (shaped : AllShaped s) (known : s.userMap user = some mgr) (old : ref.id < s.nextProc)
    (move : Move active talks s t) (known' : t.userMap user = some mgr') (live : Live mgr'.toSessionTable ref) :
    Live mgr.toSessionTable ref := by
  have replaced : ∀ {user' mgr''} (u : ServerState), u.userMap = s.userMap → (u.setMgr user' mgr'').userMap user = some mgr' →
      (user' = user ∧ mgr'' = mgr') ∨ mgr = mgr' := by
    intro user' mgr'' u same known'
    rw [setMgr_userMap, same] at known'
    split at known'
    next here => exact .inl ⟨here.symm, Option.some.inj known'⟩
    next => exact .inr (Option.some.inj (known.symm.trans known'))
  cases move with
  | write | sess | connect | conn | device | proc =>
    cases known.symm.trans known'
    exact live
  | user new =>
    rcases replaced s rfl known' with ⟨rfl, rfl⟩ | rfl
    · cases known.symm.trans new
    · exact live
  | mgr found table =>
    rcases replaced s rfl known' with ⟨rfl, rfl⟩ | rfl
    · cases known.symm.trans found
      exact table ▸ live
    · exact live
  | cam found | parser found =>
    rcases replaced s rfl known' with ⟨rfl, rfl⟩ | rfl
    · cases known.symm.trans found
      exact live
    · exact live
  | openSeq found room =>
    rcases replaced _ rfl known' with ⟨rfl, rfl⟩ | rfl
    · cases known.symm.trans found
      rcases ((shaped _ _ found).newSeq _ room rfl).2 ref live with before | rfl
      · exact before
      · exact (Nat.lt_irrefl _ old).elim
    · exact live
  | delSeq found _ deleted =>
    rcases replaced s rfl known' with ⟨rfl, rfl⟩ | rfl
    · cases known.symm.trans found
      exact ((shaped _ _ found).delSeq deleted).2 ref live
    · exact live

theorem Path.known {mgr : UserMgmr} (known : s.userMap user = some mgr) (path : Path active talks s t) :
    ∃ mgr', t.userMap user = some mgr' := by
  induction path with
  | refl => exact ⟨mgr, known⟩
  | tail _ move ih =>
    obtain ⟨mgr, known⟩ := ih
    have kept : ∀ {user' mgr'} (u : ServerState), (∃ mgr, u.userMap user = some mgr) → ∃ mgr, (u.setMgr user' mgr').userMap user = some mgr := by
      intro user' mgr' u has
      rw [setMgr_userMap]
      split
      · exact ⟨_, rfl⟩
      · exact has
    cases move with
    | write | sess | connect | conn | device | proc => exact ⟨mgr, known⟩
    | user | mgr | cam | openSeq | delSeq | parser => exact kept _ ⟨mgr, known⟩

/-- While a session stays with its user, and no message of the user's devices comes, its processor does not move. -/
theorem Path.proc_kept {mgr mgr' : UserMgmr} (stocked : Stocked s) (inactive : ¬ active user) (known : s.userMap user = some mgr)
    (old : ref.id < s.nextProc) (path : Path active talks s t) (known' : t.userMap user = some mgr')
    (live : Live mgr'.toSessionTable ref) : Live mgr.toSessionTable ref ∧ t.procs ref.id = s.procs ref.id ∧ ref.id < t.nextProc := by
  induction path generalizing mgr' with
  | refl =>
    cases known.symm.trans known'
    exact ⟨live, rfl, old⟩
  | @tail u v path move ih =>
    obtain ⟨mgr'', known''⟩ := Path.known known path
    have ids : s.nextProc ≤ u.nextProc := by
      clear ih move known' live known''
      induction path with
      | refl => exact Nat.le_refl _
      | tail _ move ih =>
        cases move with
        | write | sess | connect | conn | device | user | mgr | cam | delSeq | parser | proc => exact ih
        | openSeq => exact Nat.le_succ_of_le ih
    have live'' := Move.live_old (Path.stocked stocked path).shaped known'' (Nat.lt_of_lt_of_le old ids) move known' live
    obtain ⟨before, same, low⟩ := ih known'' live''
    have moved : v.procs ref.id = u.procs ref.id ∧ ref.id < v.nextProc := by
      cases move with
      | write | sess | connect | conn | device | user | mgr | cam | delSeq | parser => exact ⟨rfl, low⟩
      | openSeq => exact ⟨if_neg (Nat.ne_of_lt low), Nat.lt_succ_of_lt low⟩
      | proc _ foreign => exact ⟨if_neg (foreign _ _ known'' inactive ref live''), low⟩
    exact ⟨before, moved.1.trans same, moved.2⟩

end

/-! The invariant of a watched run. -/

structure Kept (c : ConnId) (user : JsVal) (w : Watch) : Prop where
  stocked : Stocked w.server
  isDevice : user ≠ .undefined
  device : ∃ conn, w.server.conns c = some conn ∧ conn.user = user
  stands : Stands w.server user w.under
  sound : ∀ o, w.under = some o → o.Sound ∧ o.rest ≠ []
  suits : ∀ b ∈ w.begun, b.frame.Fits ∧ b.frame.Suits b.processor
  log : w.told ++ (w.under.map Open.outputs).getD [] = w.begun.flatMap Begun.outputs

section
variable {c : ConnId} {user : JsVal} {w w' : Watch} {message : List Byte} {draw : Fin 100000}

theorem kept_begins (begins : Begins c user w) : Kept c user w := by
  obtain ⟨reached, idle, none, silent, isDevice, device, rest⟩ := begins
  refine ⟨stocked_of_reach (fun _ _ enabled => enabled) reached, isDevice, device, ?_, fun o same => ?_, ?_, ?_⟩
  · rw [idle]
    exact rest
  · rw [idle] at same
    cases same
  · rw [none]
    simp
  · rw [idle, none, silent]
    rfl

/-- A message of the device is parsed, and moves only what is its user's. -/
theorem step_of_message (draw : Fin 100000) (kept : Kept c user w) (speaks : ∃ conn, w.server.conns c = some conn ∧ conn.isOpen)
    {post : ServerState → Prop} (wp : Wp (parseNormalMessage user c message) (fun _ t => post t) (fun _ => False) w.server) :
    ∃ t, Events.step w.server (.binary c message draw) = some t ∧ post t ∧ Stocked t ∧ ∃ conn, t.conns c = some conn ∧ conn.user = user := by
  obtain ⟨conn, found, rfl⟩ := kept.device
  have ran : Wp (handle (.binary c message draw)) (fun _ => post) (fun _ => False) w.server := by
    rw [handle, wp_connectionParse_device found kept.isDevice]
    exact wp
  obtain ⟨t, moved, holds⟩ := step_of_wp ran
  have path := step_path kept.stocked (e := .binary c message draw) speaks moved
  exact ⟨t, moved, holds, path.stocked kept.stocked, path.device_kept kept.isDevice ⟨conn, found, rfl⟩⟩

theorem sentSince_of_out {s t : ServerState} {new : List Output} (out : t.out = s.out ++ new) : sentSince s t = new := by
  rw [sentSince, out]
  exact List.drop_left

theorem orNone_rest {o o' : Open} (left : o.orNone = some o') : o' = o ∧ o'.rest ≠ [] := by
  obtain ⟨more, same⟩ := Option.ite_none_left_eq_some.mp left
  cases same
  exact ⟨rfl, more⟩

theorem openOf_rest {f : Frame} {ref : ProcRef} {p : Processor} {o : Open} (left : openOf f ref p = some o) : o.rest ≠ [] := by
  cases p with
  | forward p => cases left
  | webcam p => cases left
  | http p =>
    cases f with
    | forward seq data padding => cases left
    | response seq first rest => exact (orNone_rest left).2

/-- A frame that may begin begins, and its first message leads to the beginning of what it is to lead to. -/
theorem step_frame {f : Frame} (kept : Kept c user w) (good : Good c user w (.frame f draw)) :
    ∃ w', w.step c user (.frame f draw) = some w' ∧ Kept c user w' ∧
      Deletes w.server w'.server user f.seq (f.isResponse = true ∧ w'.under = none) := by
  obtain ⟨idle, fits, speaks, mgr, ref, p, known, live, proc, suits⟩ := good
  have found : sessionOf w.server user f.seq = some (ref, p) := by
    simp [sessionOf, known, getBySeq_of_inUse live, proc]
  obtain ⟨message, first⟩ : ∃ message, f.messages.head? = some message := by
    cases f <;> exact ⟨_, rfl⟩
  have stands := kept.stands
  rw [idle] at stands
  obtain ⟨t, moved, ⟨new, out, stands', sound, log, deletes⟩, stocked, device⟩ := step_of_message draw kept speaks
    (wp_parseNormalMessage_begins (c := c) stands kept.stocked.shaped fits suits known live proc first)
  refine ⟨⟨t, openOf f ref p, w.begun ++ [⟨f, ref.id, p⟩], w.told ++ new⟩, ?_,
    ⟨stocked, kept.isDevice, device, stands', fun o same => ⟨sound o same, openOf_rest same⟩, ?_, ?_⟩, deletes⟩
  · simp [Watch.step, found, first, Watch.take, moved, sentSince_of_out out]
  · intro b member
    rcases List.mem_append.mp member with before | now
    · exact kept.suits b before
    · rw [List.mem_singleton.mp now]
      exact ⟨fits, suits⟩
  · have before := kept.log
    rw [idle] at before
    rw [List.flatMap_append, ← before, List.append_assoc, log]
    simp

/-- The next message of the response under way is handed over and answered. -/
theorem step_next (kept : Kept c user w) (good : Good c user w (.next draw)) :
    ∃ o w', w.under = some o ∧ w.step c user (.next draw) = some w' ∧ Kept c user w' ∧
      Deletes w.server w'.server user o.seq (w'.under = none) := by
  obtain ⟨busy, speaks⟩ := good
  obtain ⟨o, under⟩ := Option.isSome_iff_exists.mp busy
  obtain ⟨sound, some_⟩ := kept.sound o under
  obtain ⟨piece, rest, more⟩ := List.exists_cons_of_ne_nil some_
  have stands := kept.stands
  rw [under] at stands
  have current : ∃ mgr, w.server.userMap user = some mgr ∧ mgr.currSeq ≠ none := by
    obtain ⟨mgr, known, parser, _⟩ := stands
    exact ⟨mgr, known, by rw [show mgr.currSeq = some o.seq from congrArg FrameParser.currSeq parser]; simp⟩
  obtain ⟨mgr, known, busy⟩ := current
  have wp := wp_httpNormalParse_piece stands kept.stocked.shaped sound more
  rw [← wp_parseNormalMessage_busy (c := c) known busy] at wp
  obtain ⟨t, moved, ⟨out, stands', deletes⟩, stocked, device⟩ := step_of_message draw kept speaks wp
  refine ⟨o, ⟨t, (o.next piece rest).orNone, w.begun, w.told ++ .processBuffer o.seq o.total o.ref.id piece ::
    (HttpProcessor.answer o.ref.id o.total o.processor piece).2⟩, under, ?_,
    ⟨stocked, kept.isDevice, device, stands', fun o' left => ?_, kept.suits, ?_⟩, ?_⟩
  · simp [Watch.step, under, more, Watch.take, moved, sentSince_of_out out]
  · obtain ⟨rfl, rest'⟩ := orNone_rest left
    exact ⟨sound.next more, rest'⟩
  · have before := kept.log
    rw [under, Option.map_some, Option.getD_some, Open.outputs, more, served] at before
    rw [← before, List.append_assoc]
    by_cases last : rest = []
    · rw [Open.orNone, if_pos (show (o.next piece rest).rest = [] from last), last, served]
      rfl
    · rw [Open.orNone, if_neg (show ¬ (o.next piece rest).rest = [] from last)]
      rfl
  · obtain ⟨mgr₁, mgr₂, known₁, known₂, deleted, kept₂⟩ := deletes
    have ends : (o.next piece rest).orNone = none ↔ rest = [] := by
      rw [Open.orNone]
      show (if rest = [] then none else _) = none ↔ _
      split
      next last => simp [last]
      next more => simp [more]
    exact ⟨mgr₁, mgr₂, known₁, known₂, fun done => deleted (ends.mp done), fun more => kept₂ fun last => more (ends.mpr last)⟩

/-- Events of others leave the frame under way where it is. -/
theorem step_other {e : Event} (kept : Kept c user w) (good : Good c user w (.other e))
    (moved : w.step c user (.other e) = some w') : Kept c user w' := by
  obtain ⟨enabled, inactive, spared⟩ := good
  obtain ⟨t, ran, rfl⟩ := Option.map_eq_some_iff.mp moved
  have path := step_path kept.stocked enabled ran
  refine ⟨path.stocked kept.stocked, kept.isDevice, path.device_kept kept.isDevice kept.device, ?_, kept.sound, kept.suits, kept.log⟩
  have stands := kept.stands
  dsimp only
  cases under : w.under with
  | none =>
    rw [under] at stands
    obtain ⟨mgr, known, rest, total⟩ := stands
    obtain ⟨mgr', known', same⟩ := path.parser_kept inactive ⟨mgr, known, rfl⟩
    refine ⟨mgr', known', ⟨?_, ?_, ?_⟩, ?_⟩
    · rw [same]
      exact rest.idle
    · rw [same]
      exact rest.bare
    · rw [same]
      exact rest.none
    · rw [same]
      exact total
  | some o =>
    rw [under] at stands
    obtain ⟨mgr, known, parser, live, proc⟩ := stands
    obtain ⟨mgr', known', same⟩ := path.parser_kept inactive ⟨mgr, known, rfl⟩
    have live' := spared o under t mgr' ran known'
    have isLive : Live mgr.toSessionTable o.ref := live.imp fun i at_ => at_.2.2
    have old := (kept.stocked.manned _ _ known o.ref isLive).1
    have procs := (Path.proc_kept kept.stocked inactive known old path known' (live'.imp fun i at_ => at_.2.2)).2.1
    exact ⟨mgr', known', same.trans parser, live', procs.trans proc⟩

theorem kept_step {a : Action} (kept : Kept c user w) (good : Good c user w a) (moved : w.step c user a = some w') : Kept c user w' := by
  cases a with
  | frame f draw =>
    obtain ⟨w'', moved', kept', _⟩ := step_frame kept good
    cases moved.symm.trans moved'
    exact kept'
  | next draw =>
    obtain ⟨_, w'', _, moved', kept', _⟩ := step_next kept good
    cases moved.symm.trans moved'
    exact kept'
  | other e => exact step_other kept good moved

end

/-- Whatever else happens between them, the messages of a device lead to exactly what its frames are to lead
to, one frame after the other: each piece of a payload is handed once, in order, to the processor of the
frame's session, and answered; a response ends once, with its last message, and that message alone deletes
its session; no message of a frame stops the server, and between frames the parser is at rest. -/
theorem frames_in_turn {c : ConnId} {user : JsVal} {w : Watch} (reached : Reach (Watch.step c user) (Good c user) (Begins c user) w) :
    w.told ++ (w.under.map Open.outputs).getD [] = w.begun.flatMap Begun.outputs ∧
      (w.under = none → w.told.filter isCall = w.begun.flatMap Begun.calls ∧
        ∃ mgr, w.server.userMap user = some mgr ∧ AtRest mgr ∧ mgr.currTotal = 0) ∧
      (∀ b ∈ w.begun, b.frame.isResponse = true → ∃ before, b.outputs = before ++ [.resEnd b.id] ∧ .resEnd b.id ∉ before) ∧
      (∀ f draw, Good c user w (.frame f draw) → ∃ w', w.step c user (.frame f draw) = some w' ∧
        Deletes w.server w'.server user f.seq (f.isResponse = true ∧ w'.under = none)) ∧
      ∀ draw, Good c user w (.next draw) → ∃ o w', w.under = some o ∧ w.step c user (.next draw) = some w' ∧
        Deletes w.server w'.server user o.seq (w'.under = none) := by
  have kept : Kept c user w := reached.invariant (fun _ => kept_begins) fun _ _ _ => kept_step
  refine ⟨kept.log, fun idle => ⟨?_, ?_⟩, fun b begun => ?_, fun f draw good => ?_, fun draw good => ?_⟩
  · have log := kept.log
    rw [idle, Option.map_none, Option.getD_none, List.append_nil] at log
    rw [log, List.filter_flatMap]
    exact List.flatMap_congr fun b begun => Begun.outputs_calls (kept.suits b begun).2
  · have stands := kept.stands
    rwa [idle] at stands
  · obtain ⟨fits, suits⟩ := kept.suits b begun
    exact Begun.outputs_end fits suits
  · obtain ⟨w', moved, _, deletes⟩ := step_frame kept good
    exact ⟨w', moved, deletes⟩
  · obtain ⟨o, w', under, moved, _, deletes⟩ := step_next kept good
    exact ⟨o, w', under, moved, deletes⟩

/-! A response in two messages, between which another user's browser comes. -/

instance (table : SessionTable ProcRef) (seq : Nat) (ref : ProcRef) : Decidable (InUse table seq ref) := by
  unfold InUse
  infer_instance

def fitsHere (f : Frame) : Bool :=
  decide (f.seq < 65536) && decide (protocolHeaderLen + f.payload.length < 2 ^ 32) && decide (f.pieces ≠ []) &&
    f.pieces.all fun piece => decide (piece ≠ [])

def suitsHere : Frame → Processor → Bool
  | .response _ _ _, .http p => decide (p.start = 0)
  | .forward _ _ _, .forward _ => true
  | _, _ => false

def speaksHere (c : ConnId) (s : ServerState) : Bool := (s.conns c).any Conn.isOpen

theorem speaksHere_sound {c : ConnId} {s : ServerState} (passes : speaksHere c s = true) : ∃ conn, s.conns c = some conn ∧ conn.isOpen :=
  (Option.any_eq_true _ _).mp passes

theorem fitsHere_sound {f : Frame} (passes : fitsHere f = true) : f.Fits := by
  simp only [fitsHere, Bool.and_eq_true, decide_eq_true_eq, List.all_eq_true] at passes
  obtain ⟨⟨⟨short, long⟩, some_⟩, nonempty⟩ := passes
  exact ⟨short, long, some_, nonempty⟩

theorem suitsHere_sound {f : Frame} {p : Processor} (passes : suitsHere f p = true) : f.Suits p := by
  cases f <;> cases p <;> simp_all [suitsHere, Frame.Suits]

def inOrder (c : ConnId) (user : JsVal) : Test (Good c user) where
  passes
    | w, .frame f _ => w.under.isNone && fitsHere f && speaksHere c w.server &&
      ((w.server.userMap user).any fun mgr => (getBySeq mgr.toSessionTable f.seq).any fun ref =>
        decide (InUse mgr.toSessionTable f.seq ref) && (w.server.procs ref.id).any (suitsHere f))
    | w, .next _ => w.under.isSome && speaksHere c w.server
    | _, .other (.binary _ _ _) => false
    | w, .other e => decide (Enabled w.server e) && w.under.all fun o => (Events.step w.server e).all fun t =>
      (t.userMap user).all fun mgr => decide (InUse mgr.toSessionTable o.seq o.ref)
  sound w a passes := by
    cases a with
    | frame f draw =>
      simp only [Bool.and_eq_true, Option.isNone_iff_eq_none, Option.any_eq_true, decide_eq_true_eq] at passes
      obtain ⟨⟨⟨idle, fits⟩, speaks⟩, mgr, known, ref, found, live, p, proc, suits⟩ := passes
      exact ⟨idle, fitsHere_sound fits, speaksHere_sound speaks, mgr, ref, p, known, live, proc, suitsHere_sound suits⟩
    | next draw =>
      simp only [Bool.and_eq_true] at passes
      exact ⟨passes.1, speaksHere_sound passes.2⟩
    | other e =>
      cases e with
      | binary => cases passes
      | connect | utf8 | close | login | logout | prepareDevice | request | camsnap | timeout =>
        simp only [Bool.and_eq_true, decide_eq_true_eq, Option.all_eq_true] at passes
        refine ⟨passes.1, id, fun o under t mgr moved known => ?_⟩
        exact passes.2 o under t moved mgr known

def turnsUser : Text := "u".toList

/-- A device registers, and a browser of its user asks it for a page. -/
def asking : List Event :=
  [.connect 0 [] none, .binary 0 (handshakeOf turnsUser) 0, .login 0 turnsUser, .prepareDevice 0 "1".toList,
    .request 0 [encodeUtf8 "GET / HTTP/1.1\r\n\r\n".toList]]

/-- The answer comes in two messages; in the meantime a browser connects. -/
def answering : List Action :=
  [.frame (.response 0 (shown.take 10) [shown.drop 10]) 0, .other (.connect 7 [] none), .next 0]

def watchFrom (s : ServerState) : Watch := ⟨s, none, [], []⟩

/-- What a run says about the user's device in the server it starts from. -/
def beginsHere (c : ConnId) (user : JsVal) (s : ServerState) : Bool :=
  (s.conns c).any (fun conn => decide (conn.user = user)) && (s.userMap user).any fun mgr =>
    decide (mgr.currSeq = none) && decide (mgr.tmpBufs = none) && decide (mgr.tmpBufsLen = 0) && decide (mgr.currTotal = 0)

theorem beginsHere_sound {c : ConnId} {user : JsVal} {s : ServerState} (isDevice : user ≠ .undefined) (reached : Reach Events.step Enabled Starts s)
    (passes : beginsHere c user s = true) : Begins c user (watchFrom s) := by
  simp only [beginsHere, Bool.and_eq_true, Option.any_eq_true, decide_eq_true_eq] at passes
  obtain ⟨device, mgr, known, ⟨⟨idle, bare⟩, none⟩, total⟩ := passes
  exact ⟨reached, rfl, rfl, rfl, isDevice, device, mgr, known, ⟨idle, .inl bare, none⟩, total⟩

def answeredHere : Option (Bool × Watch) :=
  (runEnabled asking).bind fun s =>
    ((inOrder 0 (.str turnsUser)).run (Watch.step 0 (.str turnsUser)) (watchFrom s) answering).map
      fun w => (beginsHere 0 (.str turnsUser) s, w)

theorem answeredHere_told : answeredHere.map (fun result => (result.1, result.2.under.isNone, result.2.told.filter isCall)) =
    some (true, true, [.processBuffer 0 19 0 (shown.take 10), .processBuffer 0 19 0 (shown.drop 10)]) := by
  decide +kernel

theorem frames_in_turn_answering : ∃ w : Watch, w.told.filter isCall = w.begun.flatMap Begun.calls ∧
    w.told.filter isCall = [.processBuffer 0 19 0 (shown.take 10), .processBuffer 0 19 0 (shown.drop 10)] := by
  obtain ⟨result, ran, views⟩ := Option.map_eq_some_iff.mp answeredHere_told
  obtain ⟨s, asked, rest⟩ := Option.bind_eq_some_iff.mp ran
  obtain ⟨w, answered, rfl⟩ := Option.map_eq_some_iff.mp rest
  obtain ⟨begins, views⟩ := Prod.mk.inj views
  obtain ⟨idle, told⟩ := Prod.mk.inj views
  have reached : Reach (Watch.step 0 (.str turnsUser)) (Good 0 (.str turnsUser)) (Begins 0 (.str turnsUser)) w :=
    Test.reach (beginsHere_sound (by decide) (reach_of_runEnabled asked) begins) answered
  exact ⟨w, ((frames_in_turn reached).2.1 (Option.isNone_iff_eq_none.mp idle)).1, told⟩

end WebTunnel.Server.Turns
