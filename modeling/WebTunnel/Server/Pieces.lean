import WebTunnel.Server.Cameras
import WebTunnel.Server.Retaining
import WebTunnel.Server.Splitting

/-! A frame whose header comes in several messages, next to the same frame with its header whole in the
first message. -/

namespace WebTunnel.Server.Pieces
open Library.Bytes Library.JavaScript Library.Json Library.Program Library.Slots Sessions Wire Server.Types Processors Webcam
open Framing Moves Registers Messages Retaining Splitting Cameras

/-- Messages of a device, one after the other. -/
def deliver (user : JsVal) (c : ConnId) : List (List Byte) → Js Unit
  | [] => pure ()
  | message :: rest => do
    parseNormalMessage user c message
    deliver user c rest

/-- The messages once those that a header is spread over are put together. -/
def regroup : List Byte → List (List Byte) → List (List Byte)
  | collected, [] => [collected]
  | collected, message :: rest =>
    if protocolHeaderLen ≤ (collected ++ message).length then (collected ++ message) :: rest
    else regroup (collected ++ message) rest

/-- No message that is as long as a header comes while a part of a header is collected. -/
def Short : Nat → List (List Byte) → Prop
  | _, [] => True
  | collected, message :: rest =>
    if protocolHeaderLen ≤ message.length then collected = 0
    else collected + message.length < protocolHeaderLen → Short (collected + message.length) rest

def HeaderWhole (messages : List (List Byte)) : Prop := ∃ first rest, messages = first :: rest ∧ protocolHeaderLen ≤ first.length

/-- The header is whole in the first message, or the manager can collect and the pieces are short. -/
def Gathers (mgr : UserMgmr) (messages : List (List Byte)) : Prop :=
  (mgr.tmpBufs = none → HeaderWhole messages) ∧ Short 0 messages

/-- No frame is under way and nothing of a header came. A new manager has no list for what it collects. -/
structure AtRest (mgr : UserMgmr) : Prop where
  idle : mgr.currSeq = none
  bare : mgr.tmpBufs = none ∨ mgr.tmpBufs = some []
  none : mgr.tmpBufsLen = 0

/-- A web request waits for its response: the id leads to its processor, which has received nothing. -/
def Awaits (s : ServerState) (mgr : UserMgmr) (seq : Nat) : Prop :=
  ∃ ref username, InUse mgr.toSessionTable seq ref ∧ s.procs ref.id = some (.http ⟨username, seq, false, [], 0⟩)

/-- The same result, with the whole state of the server, what it sent and what its processors were handed. -/
def SameEffect (s : ServerState) (user : JsVal) (c : ConnId) (messages : List (List Byte)) : Prop :=
  deliver user c messages s = deliver user c (regroup [] messages) s

section
variable {s : ServerState} {user : JsVal} {c : ConnId} {mgr : UserMgmr} {bufs messages : List (List Byte)} {buffer : List Byte}

/-! What is collected does not matter to the parsing of a header. -/

theorem run_eq_of_wp {α : Type} {code code' : Js α} {t : ServerState}
    (same : ∀ post err, Wp code post err s ↔ Wp code' post err t) : code s = code' t := by
  have atOther : Wp code' (fun a u => code' t = .ok (a, u)) (fun e => code' t = .error e) t := by
    rw [wp_iff]
    exact ⟨fun a u ran => ran, fun e failed => failed⟩
  have atOne := wp_iff.mp ((same _ _).mpr atOther)
  cases ran : code s with
  | ok result => exact (atOne.1 _ _ ran).symm
  | error e => exact (atOne.2 e ran).symm

theorem deliver_cons_congr {first first' : List Byte} {rest : List (List Byte)} {t : ServerState}
    (same : parseNormalMessage user c first s = parseNormalMessage user c first' t) :
    deliver user c (first :: rest) s = deliver user c (first' :: rest) t := by
  simp only [deliver, bind, StateT.bind, same]

/-- The manager that has collected these messages. -/
def collecting (mgr : UserMgmr) (bufs : List (List Byte)) : UserMgmr :=
  mgr.setParser ⟨mgr.currSeq, mgr.currTotal, some bufs, bufs.flatten.length⟩

theorem AtRest.collecting (rest : AtRest mgr) (able : mgr.tmpBufs = some []) : collecting mgr [] = mgr := by
  obtain ⟨table, ⟨currSeq, currTotal, tmpBufs, tmpBufsLen⟩, rest'⟩ := mgr
  obtain ⟨rfl⟩ : tmpBufs = some [] := able
  obtain ⟨rfl⟩ : tmpBufsLen = 0 := rest.none
  rfl

theorem parseFirstMessage_collecting (known : s.userMap user = some mgr) (bufs : List (List Byte)) (buffer : List Byte) :
    parseFirstMessage user c buffer (s.setMgr user (collecting mgr bufs)) = parseFirstMessage user c buffer s := by
  refine run_eq_of_wp fun post err => ?_
  rw [wp_parseFirstMessage known, wp_parseFirstMessage (setMgr_userMap_self s user (collecting mgr bufs))]
  simp only [setMgr_setMgr]
  rfl

/-- A message that is long enough is parsed whatever was collected. -/
theorem parseNormalMessage_long (known : s.userMap user = some mgr) (idle : mgr.currSeq = none)
    (long : protocolHeaderLen ≤ buffer.length) : parseNormalMessage user c buffer s = parseFirstMessage user c buffer s := by
  refine run_eq_of_wp fun post err => ?_
  rw [wp_parseNormalMessage_idle known idle, if_neg (Nat.not_lt.mpr long)]

theorem collecting_known (s : ServerState) (user : JsVal) (mgr : UserMgmr) (bufs : List (List Byte)) :
    (s.setMgr user (collecting mgr bufs)).userMap user = some (collecting mgr bufs) := setMgr_userMap_self _ _ _

/-- The message is collected too. -/
theorem collect_collecting (s : ServerState) (user : JsVal) (mgr : UserMgmr) (bufs : List (List Byte)) (buffer : List Byte) :
    (s.setMgr user (collecting mgr bufs)).setMgr user
      ((collecting mgr bufs).setParser (collect (collecting mgr bufs).toFrameParser bufs buffer)) =
      s.setMgr user (collecting mgr (bufs ++ [buffer])) := by
  have counted : (bufs ++ [buffer]).flatten.length = bufs.flatten.length + buffer.length := by simp
  rw [setMgr_setMgr, collecting, collecting, collect, counted]
  rfl

theorem parseNormalMessage_few (idle : mgr.currSeq = none)
    (few : bufs.flatten.length + buffer.length < protocolHeaderLen) :
    parseNormalMessage user c buffer (s.setMgr user (collecting mgr bufs)) =
      .ok ((), s.setMgr user (collecting mgr (bufs ++ [buffer]))) := by
  have ran : Wp (parseNormalMessage user c buffer) (fun _ t => t = s.setMgr user (collecting mgr (bufs ++ [buffer])))
      (fun _ => False) (s.setMgr user (collecting mgr bufs)) := by
    rw [wp_parseNormalMessage_idle (collecting_known s user mgr bufs) idle, if_pos (by omega)]
    refine ⟨fun bufs' same => ?_, by rintro ⟨⟩⟩
    cases same
    rw [show (collecting mgr bufs).tmpBufsLen = bufs.flatten.length from rfl, if_neg (Nat.not_le.mpr few), collect_collecting]
  obtain ⟨_, t, result, rfl⟩ := wp_total.mp ran
  exact result

/-- With the message that completes the length of a header, all that was collected is parsed. -/
theorem parseNormalMessage_enough (known : s.userMap user = some mgr) (idle : mgr.currSeq = none)
    (short : buffer.length < protocolHeaderLen) (enough : protocolHeaderLen ≤ bufs.flatten.length + buffer.length) :
    parseNormalMessage user c buffer (s.setMgr user (collecting mgr bufs)) =
      parseFirstMessage user c (bufs.flatten ++ buffer) s := by
  rw [← parseFirstMessage_collecting known (bufs ++ [buffer])]
  refine run_eq_of_wp fun post err => ?_
  rw [wp_parseNormalMessage_idle (collecting_known s user mgr bufs) idle, if_pos short]
  have all : (bufs ++ [buffer]).flatten = bufs.flatten ++ buffer := by simp
  constructor
  · rintro ⟨parsed, _⟩
    have parsed := parsed bufs rfl
    rwa [show (collecting mgr bufs).tmpBufsLen = bufs.flatten.length from rfl, if_pos enough, collect_collecting, all] at parsed
  · intro parsed
    refine ⟨fun bufs' same => ?_, by rintro ⟨⟩⟩
    cases same
    rwa [show (collecting mgr bufs).tmpBufsLen = bufs.flatten.length from rfl, if_pos enough, collect_collecting, all]

/-! Short pieces have the effect of the whole header. -/

theorem gathers (known : s.userMap user = some mgr) (idle : mgr.currSeq = none)
    (few : bufs.flatten.length < protocolHeaderLen) (whole : protocolHeaderLen ≤ bufs.flatten.length + messages.flatten.length)
    (short : Short bufs.flatten.length messages) :
    deliver user c messages (s.setMgr user (collecting mgr bufs)) = deliver user c (regroup bufs.flatten messages) s := by
  induction messages generalizing bufs with
  | nil =>
    rw [List.flatten_nil, List.length_nil] at whole
    omega
  | cons message rest ih =>
    have length : (bufs.flatten ++ message).length = bufs.flatten.length + message.length := List.length_append
    rw [Short] at short
    rw [regroup, length]
    by_cases long : protocolHeaderLen ≤ message.length
    · rw [if_pos long] at short
      rw [if_pos (by omega), List.length_eq_zero_iff.mp short, List.nil_append]
      refine deliver_cons_congr ?_
      rw [parseNormalMessage_long known idle long, parseNormalMessage_long (collecting_known s user mgr bufs) idle long,
        parseFirstMessage_collecting known]
    rw [if_neg long] at short
    by_cases enough : protocolHeaderLen ≤ bufs.flatten.length + message.length
    · rw [if_pos enough]
      refine deliver_cons_congr ?_
      rw [parseNormalMessage_enough known idle (Nat.lt_of_not_le long) enough,
        parseNormalMessage_long known idle (by rw [length]; exact enough)]
    · rw [if_neg enough]
      have all : (bufs ++ [message]).flatten = bufs.flatten ++ message := by simp
      have step : deliver user c rest (s.setMgr user (collecting mgr (bufs ++ [message]))) =
          deliver user c (regroup (bufs ++ [message]).flatten rest) s := ih (by rw [all, length]; omega)
        (by rw [List.flatten_cons, List.length_append] at whole; rw [all, length]; omega)
        (by rw [all, length]; exact short (by omega))
      rw [deliver]
      simp only [bind, StateT.bind, parseNormalMessage_few idle (Nat.lt_of_not_le enough), Except.bind]
      rw [step, all]

theorem sameEffect_of_gathers (known : s.userMap user = some mgr) (rest : AtRest mgr)
    (whole : protocolHeaderLen ≤ messages.flatten.length) (good : Gathers mgr messages) : SameEffect s user c messages := by
  obtain ⟨unset, short⟩ := good
  rcases rest.bare with none | empty
  · obtain ⟨first, later, rfl, long⟩ := unset none
    rw [SameEffect, regroup, List.nil_append, if_pos long]
  · have same := rest.collecting empty
    have collected : deliver user c messages (s.setMgr user (collecting mgr [])) =
        deliver user c (regroup [] messages) s := gathers known rest.idle (by decide) (by simpa using whole) short
    rwa [same, setMgr_self _ _ _ known] at collected

end

/-! What the processors are handed. -/

def called : Output → Nat
  | .processBuffer _ _ _ bytes => bytes.length
  | _ => 0

/-- How many bytes processors were handed. -/
def handed (s : ServerState) : Nat := (s.out.map called).sum

/-- They and the bytes that are collected are not more than so many. -/
def Within (user : JsVal) (n : Nat) (s : ServerState) : Prop :=
  ∃ mgr, s.userMap user = some mgr ∧ Orderly mgr.toFrameParser ∧ handed s + mgr.tmpBufsLen ≤ n

section
variable {s : ServerState} {user : JsVal} {c : ConnId} {mgr : UserMgmr} {bufs messages : List (List Byte)} {buffer : List Byte}
  {n : Nat}

theorem called_eq_zero {output : Output} (quiet : isCall output = false) : called output = 0 := by
  cases output <;> first | rfl | cases quiet

theorem handed_quiet {outputs : List Output} (quiet : ∀ output ∈ outputs, isCall output = false) :
    handed (s.write outputs) = handed s := by
  have none : (outputs.map called).sum = 0 := by
    rw [List.sum_eq_zero_iff_forall_eq_nat]
    intro count member
    obtain ⟨output, listed, rfl⟩ := List.mem_map.mp member
    exact called_eq_zero (quiet output listed)
  rw [handed, write_out, List.map_append, List.sum_append, none]
  rfl

theorem handed_call (s : ServerState) (seq : Nat) (total : Int) (id : ProcId) (buffer : List Byte) :
    handed (s.write [.processBuffer seq total id buffer]) = handed s + buffer.length := by
  simp [handed, called]

instance : Beside user (Within user n) where
  write s outputs quiet := by
    rintro ⟨mgr, known, orderly, bound⟩
    exact ⟨mgr, known, orderly, by rwa [handed_quiet quiet]⟩
  setProc _ _ _ within := within
  openSeq s mgr construct known := by
    rintro ⟨mgr', known', within⟩
    cases known.symm.trans known'
    exact ⟨_, setMgr_userMap_self _ _ _, within⟩
  setMgr s mgr mgr' known same := by
    rintro ⟨mgr'', known', orderly, bound⟩
    cases known.symm.trans known'
    refine ⟨mgr', setMgr_userMap_self _ _ _, same ▸ orderly, ?_⟩
    have counted : mgr'.tmpBufsLen = mgr.tmpBufsLen := congrArg FrameParser.tmpBufsLen same
    rwa [counted]

theorem within_setParser {parser : FrameParser} (orderly : Orderly parser) (bound : handed s + parser.tmpBufsLen ≤ n) :
    Within user n (s.setMgr user (mgr.setParser parser)) := ⟨_, setMgr_userMap_self _ _ _, orderly, bound⟩

instance : Keeps (Within user n) (resetParser user) := by
  refine ⟨fun s within => ?_⟩
  obtain ⟨mgr, known, _, bound⟩ := within
  rw [wp_resetParser_of_known known]
  exact within_setParser (orderly_empty _ _) (by simp only [FrameParser.reset]; omega)

instance (ref : Option ProcRef) : Keeps (Within user n) (getForwardConn ref) := by
  unfold getForwardConn
  refine keeps_next fun ref => keeps_next fun s => ?_
  split <;> infer_instance

theorem quiet_consume (p : HttpProcessor) (res : ProcId) (buffer : List Byte) :
    ∀ output ∈ (HttpProcessor.consume p res buffer).2, isCall output = false := by
  rw [HttpProcessor.consume]
  dsimp only
  split
  · simp [HttpProcessor.innerProcessBuffer, isCall]
  · rw [HttpProcessor.processHeader]
    dsimp only
    split
    · simp
    · split
      · split
        · simp
        · split <;> simp [HttpProcessor.innerProcessBuffer, isCall]
      · simp

instance (res : ProcId) (p : HttpProcessor) (buffer : List Byte) : Keeps (Within user n) (HttpProcessor.processBuffer user res p buffer) := by
  unfold HttpProcessor.processBuffer
  have quiet := quiet_consume p res buffer
  generalize HttpProcessor.consume p res buffer = consumed at quiet
  obtain ⟨p, outputs⟩ := consumed
  have sends : Keeps (Within user n) (emitAll outputs) := keeps_emitAll quiet
  have ends : Keeps (Within user n) (emit (.resEnd res)) := keeps_emit rfl
  infer_instance

instance (id : ProcId) (p : ForwardProcessor) (buffer : List Byte) : Keeps (Within user n) (ForwardProcessor.processBuffer user id p buffer) := by
  unfold ForwardProcessor.processBuffer
  refine keeps_next fun _ => keeps_next fun mgr => keeps_next fun conn => keeps_next fun seq => keeps_next fun len => ?_
  have sends (message : Text) : Keeps (Within user n) (emit (.sendUTF conn (.object seq "response".toList message))) := keeps_emit rfl
  infer_instance

instance (id : ProcId) (p : WebcamProcessor) (buffer : List Byte) : Keeps (Within user n) (WebcamProcessor.processBuffer user id p buffer) := by
  unfold WebcamProcessor.processBuffer
  refine keeps_next fun _ => keeps_next fun len => keeps_next fun processed => keeps_next fun mgr => ?_
  dsimp only
  infer_instance

instance (id : ProcId) (buffer : List Byte) : Keeps (Within user n) (processBuffer user id buffer) := by
  unfold processBuffer
  refine keeps_next fun s => ?_
  split <;> infer_instance

theorem wp_httpNormalParse_within (within : Within user n s) (buffer : List Byte) :
    Wp (httpNormalParse user buffer) (fun _ t => Within user (n + buffer.length) t) (fun _ => True) s := by
  obtain ⟨mgr, known, orderly, bound⟩ := within
  rw [httpNormalParse, wp_bind, wp_getMgr_of_known known]
  split
  · rw [wp_bind, wp_emit]
    refine Keeps.kept _ ⟨mgr, known, orderly, ?_⟩
    rw [handed_call]
    omega
  · rw [wp_setMgr]
    exact within_setParser ⟨orderly.counted, by simp⟩ (by dsimp only; omega)

/-- The bytes of a header are handed to nobody. -/
theorem wp_parseFirstMessage_within (known : s.userMap user = some mgr)
    (bound : handed s + (buffer.length - protocolHeaderLen) ≤ n) :
    Wp (parseFirstMessage user c buffer) (fun _ t => Within user n t) (fun _ => True) s := by
  rw [wp_parseFirstMessage known]
  refine ⟨fun _ _ => trivial, fun protoHeader _ => ?_⟩
  have dropped : Within user n (s.setMgr user (mgr.setParser (dropCollected mgr.toFrameParser))) :=
    within_setParser (orderly_empty _ _) (by simp only [dropCollected, handed] at bound ⊢; omega)
  split
  · exact dropped
  split
  · rw [parseTunnelReq]
    have sends : Keeps (Within user n) (emit (.readConfig c protoHeader.seq)) := keeps_emit rfl
    exact Keeps.kept _ dropped
  rw [afterHeader, wp_ite]
  have begun : Within user (n - (buffer.length - protocolHeaderLen)) (s.setMgr user (mgr.setParser (beginFrame protoHeader))) :=
    within_setParser (orderly_empty _ _) (by simp only [beginFrame, handed] at bound ⊢; omega)
  have counted : (sliceBuffer buffer protocolHeaderLen buffer.length).length = buffer.length - protocolHeaderLen := by
    rw [sliceBuffer, List.take_length, List.length_drop]
  split
  · refine wp_post (wp_httpNormalParse_within begun _) fun _ t within => ?_
    rwa [counted, Nat.sub_add_cancel (by omega)] at within
  · obtain ⟨mgr', known', orderly, bound'⟩ := begun
    exact ⟨mgr', known', orderly, by omega⟩

theorem wp_parseNormalMessage_within (within : Within user n s) (buffer : List Byte) :
    Wp (parseNormalMessage user c buffer) (fun _ t => Within user (n + buffer.length) t) (fun _ => True) s := by
  have ⟨mgr, known, orderly, bound⟩ := within
  by_cases idle : mgr.currSeq = none
  · rw [wp_parseNormalMessage_idle known idle]
    split
    · refine ⟨fun bufs collected => ?_, fun _ => trivial⟩
      have counted := orderly.counted bufs collected
      split
      · refine wp_parseFirstMessage_within (setMgr_userMap_self _ _ _) ?_
        simp only [List.flatten_append, List.flatten_singleton, List.length_append, handed, setMgr_out] at bound ⊢
        omega
      · refine within_setParser ⟨fun bufs' same => ?_, fun busy => absurd idle busy⟩ ?_
        · cases same
          simp only [collect, List.flatten_append, List.flatten_singleton, List.length_append, counted]
        · simp only [collect, handed] at bound ⊢
          omega
    · exact wp_parseFirstMessage_within known (by omega)
  · rw [wp_parseNormalMessage_busy known idle]
    exact wp_httpNormalParse_within within buffer

theorem wp_deliver_within (within : Within user n s) (messages : List (List Byte)) :
    Wp (deliver user c messages) (fun _ t => Within user (n + messages.flatten.length) t) (fun _ => True) s := by
  induction messages generalizing n s with
  | nil => exact within
  | cons message rest ih =>
    rw [deliver, wp_bind]
    refine wp_post (wp_parseNormalMessage_within within message) fun _ t within => ?_
    rw [List.flatten_cons, List.length_append, ← Nat.add_assoc]
    exact ih within

/-- Where a long message comes while a part of a header is collected, bytes are lost. -/
theorem wp_deliver_lossy (idle : mgr.currSeq = none) (unready : ¬ Short bufs.flatten.length messages) :
    Wp (deliver user c messages)
      (fun _ t => handed t + protocolHeaderLen < handed s + bufs.flatten.length + messages.flatten.length) (fun _ => True)
      (s.setMgr user (collecting mgr bufs)) := by
  induction messages generalizing bufs with
  | nil => exact absurd trivial unready
  | cons message rest ih =>
    rw [Short] at unready
    rw [deliver]
    by_cases long : protocolHeaderLen ≤ message.length
    · rw [if_pos long] at unready
      rw [wp_bind, wp_parseNormalMessage_idle (collecting_known s user mgr bufs) idle, if_neg (Nat.not_lt.mpr long)]
      refine wp_post (wp_parseFirstMessage_within (n := handed s + (message.length - protocolHeaderLen))
        (collecting_known s user mgr bufs) (Nat.le_refl _)) fun _ t within => ?_
      refine wp_post (wp_deliver_within within rest) fun _ u within => ?_
      obtain ⟨_, _, _, bound⟩ := within
      rw [List.flatten_cons, List.length_append]
      omega
    · rw [if_neg long] at unready
      obtain ⟨few, unready⟩ := Classical.not_imp.mp unready
      have all : (bufs ++ [message]).flatten.length = bufs.flatten.length + message.length := by simp
      have unready' : ¬ Short (bufs ++ [message]).flatten.length rest := by rwa [all]
      have step := ih unready'
      rw [all] at step
      simp only [Wp, bind, StateT.bind, parseNormalMessage_few idle few, Except.bind] at step ⊢
      refine wp_post step fun _ t bound => ?_
      rw [List.flatten_cons, List.length_append]
      omega

end

/-! The plain delivery hands the whole payload on. -/

section
variable {s : ServerState} {user : JsVal} {c : ConnId} {mgr : UserMgmr} {bufs messages : List (List Byte)} {buffer : List Byte}
  {seq : Nat} {ref : ProcRef} {p : HttpProcessor}

/-- Messages that do not make a header are collected. -/
theorem deliver_few (idle : mgr.currSeq = none) (few : (bufs ++ messages).flatten.length < protocolHeaderLen) :
    deliver user c messages (s.setMgr user (collecting mgr bufs)) = .ok ((), s.setMgr user (collecting mgr (bufs ++ messages))) := by
  induction messages generalizing bufs with
  | nil => rw [List.append_nil]; rfl
  | cons message rest ih =>
    have cut : bufs ++ message :: rest = bufs ++ [message] ++ rest := by simp
    have split : (bufs ++ message :: rest).flatten.length = bufs.flatten.length + (message.length + rest.flatten.length) := by
      rw [List.flatten_append, List.flatten_cons, List.length_append, List.length_append]
    rw [deliver]
    simp only [bind, StateT.bind, parseNormalMessage_few idle (show bufs.flatten.length + message.length < protocolHeaderLen by omega),
      Except.bind]
    rw [cut] at few ⊢
    exact ih few

/-- The session is there, so that the end of its response deletes it. -/
theorem delSeq_of_inUse (shaped : Shaped mgr.toSessionTable) (live : InUse mgr.toSessionTable seq ref) :
    ∃ obj table, delSeq mgr.toSessionTable seq = .ok (obj, table) := by
  obtain ⟨i, inside, leads, _⟩ := live
  obtain ⟨⟨obj, table⟩, deleted⟩ := (shaped.delSeq_ok_iff leads).mpr (Nat.ne_of_gt (Nat.zero_lt_of_lt inside))
  exact ⟨obj, table, deleted⟩

theorem handed_answered (s : ServerState) (id : ProcId) (total : Int) (p : HttpProcessor) (buffer : List Byte) :
    handed (answered s id total p buffer) = handed s := by
  rw [answered, handed_quiet]
  · rfl
  · rw [HttpProcessor.answer]
    dsimp only
    split
    · intro output member
      rcases List.mem_append.mp member with consumed | ends
      · exact quiet_consume p id buffer output consumed
      · rw [List.mem_singleton.mp ends]
        rfl
    · exact quiet_consume p id buffer

theorem wp_processBuffer_ends (known : s.userMap user = some mgr) (proc : s.procs ref.id = some (.http p))
    (shaped : Shaped mgr.toSessionTable) (live : InUse mgr.toSessionTable seq ref) (current : mgr.currSeq = some seq)
    (last : mgr.currTotal ≤ (p.start + buffer.length : Nat)) :
    Wp (processBuffer user ref.id buffer)
      (fun _ t => handed t = handed s ∧ ∃ mgr', t.userMap user = some mgr' ∧ AtRest mgr' ∧ mgr'.tmpBufs = some [])
      (fun _ => False) s := by
  obtain ⟨obj, table, deleted⟩ := delSeq_of_inUse shaped live
  have start := consume_start p ref.id buffer
  simp only [processBuffer, HttpProcessor.processBuffer, wp_bind, wp_get, proc, wp_setProc, wp_emitAll]
  rw [wp_getMgr_of_known (by simpa using known), wp_ite, start, if_pos last, wp_bind, wp_emit, wp_bind, current,
    wp_mgrDelSeq_of_ok (by simpa using known) deleted, wp_resetParser_of_known (setMgr_userMap_self _ _ _)]
  refine ⟨?_, _, setMgr_userMap_self _ _ _, ⟨rfl, .inr rfl, rfl⟩, rfl⟩
  have quiet := quiet_consume p ref.id buffer
  calc handed _ = handed (((s.setProc ref.id (.http (HttpProcessor.consume p ref.id buffer).1)).write
          (HttpProcessor.consume p ref.id buffer).2).write [.resEnd ref.id]) := rfl
    _ = handed (s.setProc ref.id (.http (HttpProcessor.consume p ref.id buffer).1)) := by
      rw [handed_quiet (by simp [isCall]), handed_quiet quiet]
    _ = handed s := rfl

/-- What is left of a response is handed to its processor. -/
theorem wp_deliver_busy (known : s.userMap user = some mgr) (shaped : Shaped mgr.toSessionTable)
    (live : InUse mgr.toSessionTable seq ref) (proc : s.procs ref.id = some (.http p)) (current : mgr.currSeq = some seq)
    (size : mgr.currTotal = (p.start + messages.flatten.length : Nat)) :
    Wp (deliver user c messages) (fun _ t => handed t = handed s + messages.flatten.length) (fun _ => False) s := by
  induction messages generalizing s p with
  | nil => rfl
  | cons message rest ih =>
    have length : (message :: rest).flatten.length = message.length + rest.flatten.length := by simp
    have found : mgr.getCurrent = some ref := by
      obtain ⟨i, _, leads, at_⟩ := live
      rw [UserMgmr.getCurrent, current, Option.bind_some]
      exact getBySeq_eq_some.mpr ⟨i, leads, at_⟩
    rw [deliver, wp_bind, wp_parseNormalMessage_busy known (by simp [current]), httpNormalParse, wp_bind, wp_getMgr_of_known known]
    simp only [current, found, wp_bind, wp_emit]
    by_cases last : mgr.currTotal ≤ (p.start + message.length : Nat)
    · refine wp_post (wp_processBuffer_ends (by simpa using known) (by simpa using proc) shaped live current last) fun _ t ended => ?_
      obtain ⟨same, mgr', known', idle, able⟩ := ended
      have empty : rest.flatten.length = 0 := by
        rw [size, Int.ofNat_le] at last
        omega
      have ran : deliver user c rest (t.setMgr user (collecting mgr' [])) =
          .ok ((), t.setMgr user (collecting mgr' ([] ++ rest))) :=
        deliver_few idle.idle (by rw [List.nil_append, empty]; decide)
      rw [idle.collecting able, setMgr_self _ _ _ known'] at ran
      rw [Wp, ran]
      show handed t = handed s + _
      rw [same, handed_call, length, empty]
      rfl
    · rw [wp_processBuffer_more (by simpa using known) (by simpa using proc) last]
      refine wp_post (ih (p := (HttpProcessor.answer ref.id mgr.currTotal p message).1) (by simpa [answered] using known)
        (setProc_procs_self _ _ _) ?_) fun _ t same => ?_
      · rw [size, answer_start, length, Nat.add_assoc]
      · rw [same, handed_answered, handed_call, length, Nat.add_assoc]

/-- With its header whole in the first message, a response is handed on whole. -/
theorem wp_deliver_whole {type : Nat} {payload : List Byte} (known : s.userMap user = some mgr) (rest : AtRest mgr)
    (shaped : Shaped mgr.toSessionTable) (awaits : Awaits s mgr seq) (byte : type < 256) (isData : type ≠ 0x5)
    (short : seq < 65536) (fits : protocolHeaderLen + payload.length < 2 ^ 32)
    (cut : messages.flatten = frameOf type seq payload) (whole : HeaderWhole messages) :
    Wp (deliver user c messages) (fun _ t => handed t = handed s + payload.length) (fun _ => False) s := by
  obtain ⟨first, later, rfl, long⟩ := whole
  obtain ⟨ref, username, live, fresh⟩ := awaits
  rw [List.flatten_cons, frameOf] at cut
  have header : headerBytes type seq (protocolHeaderLen + payload.length) <+: first :=
    List.prefix_of_prefix_length_le (List.prefix_append _ payload) ⟨later.flatten, cut⟩
      (by rw [headerBytes_length]; exact long)
  obtain ⟨data, rfl⟩ := header
  rw [List.append_assoc, List.append_cancel_left_eq] at cut
  rw [deliver, wp_bind, wp_parseNormalMessage_idle known rest.idle, if_neg (Nat.not_lt.mpr long), wp_parseFirstMessage known,
    parseHeaderMessage_headerBytes byte short fits]
  simp only [reduceCtorEq, false_implies, implies_true, true_and, Except.ok.injEq, forall_eq']
  have begun : beginFrame ⟨protocolMagic, protocolVersion, type, seq, protocolHeaderLen + payload.length⟩ =
      ⟨some seq, payload.length, some [], 0⟩ := by
    simp [beginFrame]
  rw [if_neg (by simp [headerBad]), if_neg isData, begun, afterHeader, wp_ite]
  have busy (messages : List (List Byte)) (flat : messages.flatten = payload) : Wp (deliver user c messages)
      (fun _ t => handed t = handed s + payload.length) (fun _ => False) (s.setMgr user (reading mgr seq payload.length)) := by
    have ran : Wp (deliver user c messages) (fun _ t => handed t = handed s + messages.flatten.length) (fun _ => False)
        (s.setMgr user (reading mgr seq payload.length)) := wp_deliver_busy (setMgr_userMap_self _ _ _) shaped live fresh rfl (by rw [flat, Nat.zero_add]; rfl)
    rwa [flat] at ran
  split
  · have sliced : sliceBuffer (headerBytes type seq (protocolHeaderLen + payload.length) ++ data) protocolHeaderLen
        (headerBytes type seq (protocolHeaderLen + payload.length) ++ data).length = data := by
      rw [sliceBuffer, List.take_length]
      exact List.drop_left' (headerBytes_length _ _ _)
    have ran := busy (data :: later) cut
    rw [deliver, wp_bind, wp_parseNormalMessage_busy (setMgr_userMap_self _ _ _) (by simp [reading])] at ran
    rw [sliced]
    exact ran
  next none =>
    have empty : data = [] := by
      rw [List.length_append, headerBytes_length] at none
      exact List.length_eq_zero_iff.mp (by omega)
    rw [empty, List.nil_append] at cut
    exact busy later cut

theorem regroup_flatten (collected : List Byte) (messages : List (List Byte)) :
    (regroup collected messages).flatten = collected ++ messages.flatten := by
  induction messages generalizing collected with
  | nil => rw [regroup, List.flatten_singleton, List.flatten_nil, List.append_nil]
  | cons message rest ih =>
    rw [regroup]
    split
    · rw [List.flatten_cons, List.flatten_cons, List.append_assoc]
    · rw [ih, List.flatten_cons, List.append_assoc]

theorem regroup_headerWhole (collected : List Byte) (messages : List (List Byte))
    (long : protocolHeaderLen ≤ (collected ++ messages.flatten).length) : HeaderWhole (regroup collected messages) := by
  induction messages generalizing collected with
  | nil => exact ⟨collected, [], rfl, by simpa using long⟩
  | cons message rest ih =>
    rw [regroup]
    split
    next enough => exact ⟨_, _, rfl, enough⟩
    next => exact ih _ (by rwa [List.append_assoc, ← List.flatten_cons])

theorem short_of_headerWhole (whole : HeaderWhole messages) : Short 0 messages := by
  obtain ⟨first, later, rfl, long⟩ := whole
  rw [Short, if_pos long]

/-- Without room for what is collected, or with a long message in the header, the effects differ. -/
theorem gathers_of_sameEffect {type : Nat} {payload : List Byte} (known : s.userMap user = some mgr) (rest : AtRest mgr)
    (shaped : Shaped mgr.toSessionTable) (awaits : Awaits s mgr seq) (byte : type < 256) (isData : type ≠ 0x5)
    (short : seq < 65536) (fits : protocolHeaderLen + payload.length < 2 ^ 32)
    (cut : messages.flatten = frameOf type seq payload) (same : SameEffect s user c messages) : Gathers mgr messages := by
  have length : messages.flatten.length = protocolHeaderLen + payload.length := by rw [cut, frameOf_length]
  have whole := wp_deliver_whole (c := c) known rest shaped awaits byte isData short fits (by rw [regroup_flatten, List.nil_append, cut])
    (regroup_headerWhole [] messages (by rw [List.nil_append, length]; exact Nat.le_add_right _ _))
  rw [Wp, ← same] at whole
  have able (unset : mgr.tmpBufs = none) : HeaderWhole messages := by
    cases messages with
    | nil =>
      rw [List.flatten_nil, List.length_nil] at length
      rw [protocolHeaderLen] at length
      omega
    | cons first later =>
      by_contra broken
      have few : first.length < protocolHeaderLen := Nat.lt_of_not_le fun long => broken ⟨first, later, rfl, long⟩
      have throws : Wp (deliver user c (first :: later)) (fun _ _ => False) (fun _ => True) s := by
        rw [deliver, wp_bind, wp_parseNormalMessage_idle known rest.idle, if_pos few, unset]
        exact ⟨by simp, fun _ => trivial⟩
      rw [Wp] at throws
      revert whole throws
      cases deliver user c (first :: later) s <;> simp
  refine ⟨able, ?_⟩
  by_contra unready
  rcases rest.bare with unset | empty
  · exact unready (short_of_headerWhole (able unset))
  have lossy : Wp (deliver user c messages)
      (fun _ t => handed t + protocolHeaderLen < handed s + ([] : List (List Byte)).flatten.length + messages.flatten.length)
      (fun _ => True) (s.setMgr user (collecting mgr [])) := wp_deliver_lossy rest.idle unready
  rw [rest.collecting empty, setMgr_self _ _ _ known, Wp, List.flatten_nil, List.length_nil, Nat.add_zero, length] at lossy
  revert whole lossy
  cases deliver user c messages s with
  | error e => simp
  | ok result =>
    simp only
    omega

/-- A frame cut within its header has the effect it has with its header whole exactly where the manager can
collect the pieces, and no piece that is as long as a header comes behind a shorter one. -/
theorem sameEffect_iff {type : Nat} {payload : List Byte} (known : s.userMap user = some mgr) (rest : AtRest mgr)
    (shaped : Shaped mgr.toSessionTable) (awaits : Awaits s mgr seq) (byte : type < 256) (isData : type ≠ 0x5)
    (short : seq < 65536) (fits : protocolHeaderLen + payload.length < 2 ^ 32)
    (cut : messages.flatten = frameOf type seq payload) : SameEffect s user c messages ↔ Gathers mgr messages := by
  refine ⟨gathers_of_sameEffect known rest shaped awaits byte isData short fits cut, sameEffect_of_gathers known rest ?_⟩
  rw [cut, frameOf_length]
  exact Nat.le_add_right _ _

end

def piecesUser : JsVal := .str "u".toList

/-- A manager that was just made and allocated a session. -/
def newMgr : UserMgmr := (UserMgmr.new piecesUser).setTable (newSeq fresh fun seq => (⟨0, seq⟩ : ProcRef)).2

/-- The same once it has read a frame. -/
def usedMgr : UserMgmr := newMgr.setParser newMgr.toFrameParser.reset

def waitingServer (mgr : UserMgmr) : ServerState :=
  (ServerState.init.setMgr piecesUser mgr).setProc 0 (.http ⟨"u".toList, 0, false, [], 0⟩)

theorem waitingServer_known (mgr : UserMgmr) : (waitingServer mgr).userMap piecesUser = some mgr :=
  setMgr_userMap_self ServerState.init piecesUser mgr

theorem newMgr_shaped : Shaped newMgr.toSessionTable :=
  (shaped_fresh.newSeq (fun seq => (⟨0, seq⟩ : ProcRef)) (by decide) rfl).1

theorem awaits_shown {mgr : UserMgmr} (same : mgr.toSessionTable = newMgr.toSessionTable) : Awaits (waitingServer mgr) mgr 0 := by
  refine ⟨⟨0, 0⟩, "u".toList, ?_, setProc_procs_self (ServerState.init.setMgr piecesUser mgr) 0 _⟩
  rw [same]
  exact ⟨0, by decide, by decide, by decide⟩

def shown : List Byte := encodeUtf8 "HTTP/1.1 200 OK\r\n\r\n".toList

def shownFrame : List Byte := frameOf 2 0 shown

theorem sameEffect_iff_used :
    SameEffect (waitingServer usedMgr) piecesUser 0 [shownFrame.take 5, (shownFrame.drop 5).take 11, shownFrame.drop 16] ↔
      Gathers usedMgr [shownFrame.take 5, (shownFrame.drop 5).take 11, shownFrame.drop 16] := by
  have cut : [shownFrame.take 5, (shownFrame.drop 5).take 11, shownFrame.drop 16].flatten = frameOf 2 0 shown := by
    decide +kernel
  exact sameEffect_iff (waitingServer_known usedMgr) ⟨rfl, .inr rfl, rfl⟩ newMgr_shaped (awaits_shown rfl) (by decide)
    (by decide) (by decide) (by decide +kernel) cut

/-- The first message of a new device is shorter than a header. -/
theorem short_first_differs : ∃ s user mgr seq messages, s.userMap user = some mgr ∧ AtRest mgr ∧ Shaped mgr.toSessionTable ∧
    Awaits s mgr seq ∧ messages.flatten = frameOf 2 seq (encodeUtf8 "HTTP/1.1 200 OK\r\n\r\n".toList) ∧
    ¬ SameEffect s user 0 messages := by
  have cut : [shownFrame.take 5, shownFrame.drop 5].flatten = frameOf 2 0 shown := by decide +kernel
  refine ⟨waitingServer newMgr, piecesUser, newMgr, 0, [shownFrame.take 5, shownFrame.drop 5], waitingServer_known newMgr,
    ⟨rfl, .inl rfl, rfl⟩, newMgr_shaped, awaits_shown rfl, cut, fun same => ?_⟩
  have gathers : Gathers newMgr [shownFrame.take 5, shownFrame.drop 5] :=
    gathers_of_sameEffect (waitingServer_known newMgr) ⟨rfl, .inl rfl, rfl⟩ newMgr_shaped (awaits_shown rfl)
      (by decide) (by decide) (by decide) (by decide +kernel) cut same
  obtain ⟨first, later, messages, long⟩ := gathers.1 rfl
  obtain ⟨rfl, -⟩ := List.cons.inj messages
  exact absurd long (by decide +kernel)

end WebTunnel.Server.Pieces
