import WebTunnel.Server.Framing

/-! Where the response of a device is split: what a browser's response is given as its header and
as its body. -/

namespace WebTunnel.Server.Splitting
open Library.Bytes Library.JavaScript Library.Json Library.Occurrences Library.Program Sessions Server.Types
open Processors Framing

/-- The line that separates header and body, behind the end of the last field's line. -/
def emptyLine : List Byte := [0x0d, 0x0a, 0x0d, 0x0a]

/-- The header block of a response: it ends with its first empty line. -/
structure Block (block : List Byte) : Prop where
  ascii : IsAscii block
  long : emptyLine.length ≤ block.length
  ended : FirstAt emptyLine block (block.length - emptyLine.length)

def blockLines (block : List Byte) : List Text := split (asciiText block) "\r\n".toList

def statusLine (block : List Byte) : Text := (blockLines block).headD []

/-- The fields that the server makes of a header block. -/
def fieldsOf (block : List Byte) : List (Text × Text) := (blockLines block).tail.foldl addHeaderField []

/-! The text of a header block. -/

theorem splitFrom_ne_nil (separator piece text : Text) (skip : Nat) : splitFrom separator skip piece text ≠ [] := by
  induction text generalizing skip piece with
  | nil => cases skip <;> simp [splitFrom]
  | cons c rest ih =>
    cases skip with
    | zero =>
      rw [splitFrom]
      split
      · simp
      · exact ih _ _
    | succ skip => exact ih _ _

/-- A text in which the separator occurs has two pieces or more. -/
theorem two_pieces {separator piece text : Text} {p : Nat} (occurs : OccursAt separator text p)
    (nonempty : separator ≠ []) : ∃ first second more, splitFrom separator 0 piece text = first :: second :: more := by
  induction text generalizing piece p with
  | nil =>
    have bound := occurs.le nonempty
    have positive := List.length_pos_iff.mpr nonempty
    rw [List.length_nil] at bound
    omega
  | cons c rest ih =>
    rw [splitFrom]
    split
    next =>
      obtain ⟨second, more, pieces⟩ := List.exists_cons_of_ne_nil (splitFrom_ne_nil separator [] rest (separator.length - 1))
      exact ⟨_, second, more, by rw [pieces]⟩
    next other =>
      cases p with
      | zero => exact absurd (List.isPrefixOf_iff_prefix.mpr occurs) other
      | succ p => exact ih (p := p) occurs

theorem headerEnd_eq : headerEnd = asciiText emptyLine := by decide

section
variable {block seen buffer body rest : List Byte}

theorem Block.lines (good : Block block) : ∃ line more, blockLines block = statusLine block :: line :: more := by
  have prefix_ : "\r\n".toList <+: headerEnd := by decide
  have occurs : OccursAt headerEnd (asciiText block) (block.length - emptyLine.length) := by
    rw [headerEnd_eq]
    exact (occursAt_map asciiChar_injective).mpr good.ended.2.1
  obtain ⟨first, second, more, pieces⟩ : ∃ first second more,
      splitFrom "\r\n".toList 0 [] (asciiText block) = first :: second :: more :=
    two_pieces (prefix_.trans occurs) (by decide)
  exact ⟨second, more, by rw [statusLine, blockLines, split, pieces]; rfl⟩

/-- What comes before the end of the block has no empty line. -/
theorem Block.unended (good : Block block) (within : seen <+: block) (short : seen.length < block.length) :
    indexOf (asciiText seen) headerEnd = none := by
  rw [indexOf_eq_none_iff, headerEnd_eq]
  intro i _ occurs
  have now : OccursAt emptyLine seen i := (occursAt_map asciiChar_injective).mp occurs
  have bound := now.le (by decide)
  obtain ⟨more, rfl⟩ := within
  have long := good.long
  exact good.ended.2.2 i (by omega) ((occursAt_append_iff bound).mpr now)

theorem Block.found (good : Block block) (text : Text) :
    indexOf (asciiText block ++ text) headerEnd = some (block.length - emptyLine.length) := by
  rw [indexOf_eq_some_iff, headerEnd_eq]
  exact ((firstAt_map asciiChar_injective).mpr good.ended).append (by decide) text

end

/-! One call of the processor. -/

section
variable {p : HttpProcessor} {block seen buffer body : List Byte} {code : Nat}

/-- The block goes on behind the buffer. -/
theorem processHeader_short (good : Block block) (kept : p.headerStr = asciiText seen) (within : seen ++ buffer <+: block)
    (short : (seen ++ buffer).length < block.length) (res : ProcId) :
    HttpProcessor.processHeader p res buffer = ({ p with headerStr := asciiText (seen ++ buffer) }, []) := by
  obtain ⟨more, rfl⟩ := within
  have ascii := (IsAscii.append.mp (IsAscii.append.mp good.ascii).1).2
  rw [HttpProcessor.processHeader, kept, decodeUtf8_ascii ascii, ← asciiText_append]
  dsimp only
  rw [good.unended (List.prefix_append _ _) short]

/-- The block ends in the buffer. -/
theorem processHeader_whole {tail : List Byte} (good : Block block) (digits : threeDigits (statusLine block) = some code)
    (kept : p.headerStr = asciiText seen) (ends : seen ++ tail = block) (res : ProcId) :
    HttpProcessor.processHeader p res (tail ++ body) = ({ p with headerOk := true, headerStr := [] },
      .writeHead res code (fieldsOf block) :: if body = [] then [] else [.resWrite res body]) := by
  obtain ⟨line, more, pieces⟩ := good.lines
  have ascii := good.ascii
  rw [← ends, IsAscii.append] at ascii
  have text : asciiText seen ++ decodeUtf8 (tail ++ body) = asciiText block ++ decodeUtf8 body := by
    rw [decodeUtf8_append ascii.2, ← List.append_assoc, ← asciiText_append, ends]
  have cut : (asciiText block ++ decodeUtf8 body).take (block.length - emptyLine.length + headerEnd.length) = asciiText block := by
    have long := good.long
    have same : headerEnd.length = emptyLine.length := by decide
    rw [List.take_left' (by rw [asciiText_length]; omega)]
  have offset : byteLength (asciiText block) - byteLength (asciiText seen) = tail.length := by
    rw [byteLength_asciiText good.ascii, byteLength_asciiText ascii.1, ← ends, List.length_append]
    omega
  rw [HttpProcessor.processHeader, kept]
  simp only [text, good.found, cut, offset]
  rw [show split (asciiText block) "\r\n".toList = statusLine block :: line :: more from pieces]
  simp only [digits]
  rw [fieldsOf, pieces, List.tail_cons]
  cases body with
  | nil => simp
  | cons b body =>
    have rest : sliceBuffer (tail ++ b :: body) tail.length (tail ++ b :: body).length = b :: body := by
      rw [sliceBuffer, List.take_length, List.drop_left]
    rw [if_pos (by simp), rest]
    rfl

end

/-! What the processor writes over the buffers of a response. -/

/-- What a call writes before it deletes the session. -/
def HttpProcessor.answer (res : ProcId) (total : Int) (p : HttpProcessor) (buffer : List Byte) :
    HttpProcessor × List Output :=
  let (p, outputs) := HttpProcessor.consume p res buffer
  (p, if total ≤ p.start then outputs ++ [.resEnd res] else outputs)

def HttpProcessor.answers (res : ProcId) (total : Int) : HttpProcessor → List (List Byte) → List Output
  | _, [] => []
  | p, buffer :: rest =>
    let (p, outputs) := HttpProcessor.answer res total p buffer
    outputs ++ HttpProcessor.answers res total p rest

/-- The calls for the buffers of a response. -/
def feed (user : JsVal) (id : ProcId) : List (List Byte) → Js Unit
  | [] => pure ()
  | buffer :: rest => do
    processBuffer user id buffer
    feed user id rest

section
variable {p : HttpProcessor} {res : ProcId} {total : Int} {buffers : List (List Byte)} {block seen body : List Byte}
  {code : Nat}

theorem consume_start (p : HttpProcessor) (res : ProcId) (buffer : List Byte) :
    (HttpProcessor.consume p res buffer).1.start = p.start + buffer.length := by
  rw [HttpProcessor.consume]
  dsimp only
  split
  · rfl
  · rw [HttpProcessor.processHeader]
    dsimp only
    split
    · rfl
    · split
      · split <;> rfl
      · rfl

theorem answer_start (p : HttpProcessor) (res : ProcId) (buffer : List Byte) :
    (HttpProcessor.answer res total p buffer).1.start = p.start + buffer.length := consume_start p res buffer

/-- The end is due with the last buffer. -/
theorem ends_iff {buffer : List Byte} {rest : List (List Byte)} (nonempty : ∀ b ∈ buffer :: rest, b ≠ [])
    (size : total = (p.start + (buffer :: rest).flatten.length : Nat)) :
    total ≤ (p.start + buffer.length : Nat) ↔ rest = [] := by
  rw [size, Int.ofNat_le, List.flatten_cons, List.length_append]
  cases rest with
  | nil => simp
  | cons next later =>
    have positive := List.length_pos_iff.mpr (nonempty next (by simp))
    simp only [List.flatten_cons, List.length_append, reduceCtorEq, iff_false]
    omega

/-- Once the header is written, every buffer is written. -/
theorem answers_body (done : p.headerOk = true) (some_ : buffers ≠ []) (nonempty : ∀ b ∈ buffers, b ≠ [])
    (size : total = (p.start + buffers.flatten.length : Nat)) :
    HttpProcessor.answers res total p buffers = buffers.map (.resWrite res) ++ [.resEnd res] := by
  induction buffers generalizing p with
  | nil => exact absurd rfl some_
  | cons buffer rest ih =>
    have wrote : HttpProcessor.consume p res buffer = ({ p with start := p.start + buffer.length }, [.resWrite res buffer]) := by
      rw [HttpProcessor.consume]
      exact if_pos done
    have last := ends_iff nonempty size
    rw [HttpProcessor.answers, HttpProcessor.answer, wrote]
    dsimp only
    cases rest with
    | nil => rw [if_pos (last.mpr rfl)]; rfl
    | cons next later =>
      rw [if_neg (fun ends => by cases last.mp ends), ih (p := { p with start := p.start + buffer.length }) done
        (by simp) fun b member => nonempty b (by simp [member])]
      · rfl
      · rw [size, List.flatten_cons, List.length_append, Nat.add_assoc]

/-- Before that, nothing is written until the block is complete, and what is behind it is written. -/
theorem answers_header (good : Block block) (digits : threeDigits (statusLine block) = some code)
    (undone : p.headerOk = false) (kept : p.headerStr = asciiText seen) (start : p.start = seen.length)
    (within : seen <+: block) (short : seen.length < block.length) (cut : seen ++ buffers.flatten = block ++ body)
    (nonempty : ∀ b ∈ buffers, b ≠ []) (size : total = (block.length + body.length : Nat)) :
    ∃ bodies : List (List Byte), bodies.flatten = body ∧ HttpProcessor.answers res total p buffers =
      .writeHead res code (fieldsOf block) :: bodies.map (.resWrite res) ++ [.resEnd res] := by
  induction buffers generalizing p seen with
  | nil =>
    have lengths := congrArg List.length cut
    rw [List.length_append, List.length_append, List.flatten_nil, List.length_nil] at lengths
    omega
  | cons buffer rest ih =>
    have lengths := congrArg List.length cut
    rw [List.length_append, List.length_append] at lengths
    have size' : total = (p.start + (buffer :: rest).flatten.length : Nat) := by rw [size, start, lengths]
    have last := ends_iff nonempty size'
    have consumed : HttpProcessor.consume p res buffer =
        HttpProcessor.processHeader { p with start := p.start + buffer.length } res buffer := by
      rw [HttpProcessor.consume]
      exact if_neg (by simp [undone])
    rw [List.flatten_cons, ← List.append_assoc] at cut
    rw [HttpProcessor.answers, HttpProcessor.answer, consumed]
    rcases Nat.lt_or_ge (seen ++ buffer).length block.length with more | enough
    · have within' : seen ++ buffer <+: block :=
        List.prefix_of_prefix_length_le ⟨rest.flatten, cut⟩ (List.prefix_append _ _) (Nat.le_of_lt more)
      have unfinished : rest ≠ [] := by
        rintro rfl
        rw [List.flatten_nil, List.append_nil] at cut
        rw [cut, List.length_append] at more
        omega
      rw [processHeader_short (p := { p with start := p.start + buffer.length }) good kept within' more]
      dsimp only
      rw [if_neg (fun ends => unfinished (last.mp ends)), List.nil_append]
      exact ih undone rfl (by rw [start, List.length_append]) within' more cut fun b member => nonempty b (by simp [member])
    · obtain ⟨first, same⟩ := List.prefix_of_prefix_length_le (List.prefix_append block body) ⟨rest.flatten, cut⟩ enough
      obtain ⟨tail, rfl⟩ := within
      rw [List.append_assoc, List.append_cancel_left_eq] at same
      subst same
      have behind : first ++ rest.flatten = body := by
        rw [← List.append_assoc, List.append_assoc, List.append_cancel_left_eq] at cut
        exact cut
      rw [processHeader_whole (p := { p with start := p.start + (tail ++ first).length }) good digits kept rfl]
      dsimp only
      refine ⟨(if first = [] then [] else [first]) ++ rest, ?_, ?_⟩
      · rw [List.flatten_append, ← behind]
        split
        next empty => rw [empty]; rfl
        next => rw [List.flatten_singleton]
      · cases rest with
        | nil =>
          rw [if_pos (last.mpr rfl)]
          split <;> rfl
        | cons next later =>
          rw [if_neg (fun ends => by cases last.mp ends), answers_body (p := { p with start := _, headerOk := true, headerStr := [] })
            rfl (by simp) fun b member => nonempty b (by simp [member])]
          · split <;> simp
          · rw [size', List.flatten_cons, List.length_append, Nat.add_assoc]

end

section
variable {s : ServerState} {user : JsVal} {mgr : UserMgmr} {id : ProcId} {p : HttpProcessor} {block body buffer : List Byte}
  {buffers : List (List Byte)} {code : Nat}

/-- Deleting the id of the frame under way throws. -/
def DeletionThrows (mgr : UserMgmr) (e : JsError) : Prop :=
  ∃ x, mgr.currSeq = some x ∧ delSeq mgr.toSessionTable x = .error e

/-- The server once a call has written its answer. -/
def answered (s : ServerState) (id : ProcId) (total : Int) (p : HttpProcessor) (buffer : List Byte) : ServerState :=
  (s.setProc id (.http (HttpProcessor.answer id total p buffer).1)).write (HttpProcessor.answer id total p buffer).2

theorem wp_processBuffer_more (known : s.userMap user = some mgr) (proc : s.procs id = some (.http p))
    (more : ¬ mgr.currTotal ≤ (p.start + buffer.length : Nat)) {post : Unit → ServerState → Prop} {err : JsError → Prop} :
    Wp (processBuffer user id buffer) post err s ↔ post () (answered s id mgr.currTotal p buffer) := by
  have start := consume_start p id buffer
  simp only [processBuffer, HttpProcessor.processBuffer, wp_bind, wp_get, proc, wp_setProc, wp_emitAll]
  rw [wp_getMgr_of_known (by simpa using known), wp_ite, start, if_neg more, wp_pure]
  rw [answered, HttpProcessor.answer]
  dsimp only
  rw [start, if_neg more]

/-- With the last buffer the response ends; then only the deletion of the session can throw. -/
theorem wp_processBuffer_last (known : s.userMap user = some mgr) (proc : s.procs id = some (.http p))
    (last : mgr.currTotal ≤ (p.start + buffer.length : Nat)) :
    Wp (processBuffer user id buffer) (fun _ t => t.out = s.out ++ (HttpProcessor.answer id mgr.currTotal p buffer).2)
      (DeletionThrows mgr) s := by
  have start := consume_start p id buffer
  have wrote : (HttpProcessor.answer id mgr.currTotal p buffer).2 = (HttpProcessor.consume p id buffer).2 ++ [.resEnd id] := by
    rw [HttpProcessor.answer]
    dsimp only
    rw [start, if_pos last]
  simp only [processBuffer, HttpProcessor.processBuffer, wp_bind, wp_get, proc, wp_setProc, wp_emitAll]
  rw [wp_getMgr_of_known (by simpa using known), wp_ite, start, if_pos last, wp_bind, wp_emit, wp_bind, wp_mgrDelSeq, wrote]
  have kept (t : ServerState) (mgr' : UserMgmr) (found : t.userMap user = some mgr') : Wp (resetParser user)
      (fun _ u => u.out = t.out) (DeletionThrows mgr) t := (wp_resetParser_of_known found).mpr rfl
  have out : (((s.setProc id (.http (HttpProcessor.consume p id buffer).1)).write (HttpProcessor.consume p id buffer).2).write
      [.resEnd id]).out = s.out ++ ((HttpProcessor.consume p id buffer).2 ++ [.resEnd id]) := List.append_assoc _ _ _
  refine ⟨fun _ => ?_, fun x current => ⟨fun mgr' known' => ?_, fun unknown => ?_⟩⟩
  · exact wp_post (kept _ mgr (by simpa using known)) fun _ u same => same.trans out
  · cases known.symm.trans known'
    refine ⟨fun obj table deleted => ?_, fun e failed => ⟨x, current, failed⟩⟩
    exact wp_post (kept _ _ (setMgr_userMap_self _ _ _)) fun _ u same => same.trans out
  · cases known.symm.trans unknown

/-- Over the buffers of a whole response the processor writes its answers. -/
theorem wp_feed (known : s.userMap user = some mgr) (proc : s.procs id = some (.http p))
    (nonempty : ∀ b ∈ buffers, b ≠ []) (size : mgr.currTotal = (p.start + buffers.flatten.length : Nat)) :
    Wp (feed user id buffers) (fun _ t => t.out = s.out ++ HttpProcessor.answers id mgr.currTotal p buffers)
      (DeletionThrows mgr) s := by
  induction buffers generalizing s p with
  | nil => exact (List.append_nil _).symm
  | cons buffer rest ih =>
    have last := ends_iff nonempty size
    rw [feed, wp_bind]
    cases rest with
    | nil =>
      refine wp_post (wp_processBuffer_last known proc (last.mpr rfl)) fun _ t out => ?_
      rw [feed, wp_pure, out, HttpProcessor.answers]
      exact congrArg (s.out ++ ·) (List.append_nil _).symm
    | cons next later =>
      rw [wp_processBuffer_more known proc fun ends => by cases last.mp ends]
      have size' : mgr.currTotal = ((HttpProcessor.answer id mgr.currTotal p buffer).1.start + (next :: later).flatten.length : Nat) := by
        rw [size, answer_start, List.flatten_cons, List.length_append, Nat.add_assoc]
      refine wp_post (ih (s := answered s id mgr.currTotal p buffer) (by simpa [answered] using known)
        (setProc_procs_self _ _ _) (fun b member => nonempty b (by simp [member])) size') fun _ t out => ?_
      rw [out, HttpProcessor.answers]
      exact List.append_assoc _ _ _

/-- A fresh processor of a frame with a header block and a body writes the header once, then exactly
the body, and then ends the response, however the frame is cut. Only the deletion of the session,
which comes after that, may throw. -/
theorem splits_header_and_body {username : Text} {seq : Nat} (good : Block block)
    (digits : threeDigits (statusLine block) = some code) (cut : buffers.flatten = block ++ body)
    (nonempty : ∀ b ∈ buffers, b ≠ []) (known : s.userMap user = some mgr)
    (fresh : s.procs id = some (.http ⟨username, seq, false, [], 0⟩))
    (size : mgr.currTotal = (block.length + body.length : Nat)) :
    ∃ bodies : List (List Byte), bodies.flatten = body ∧
      HttpProcessor.answers id mgr.currTotal ⟨username, seq, false, [], 0⟩ buffers =
        .writeHead id code (fieldsOf block) :: bodies.map (.resWrite id) ++ [.resEnd id] ∧
      Wp (feed user id buffers) (fun _ t =>
        t.out = s.out ++ .writeHead id code (fieldsOf block) :: bodies.map (.resWrite id) ++ [.resEnd id])
        (DeletionThrows mgr) s := by
  have short : ([] : List Byte).length < block.length := lt_of_lt_of_le (by decide) good.long
  obtain ⟨bodies, whole, answers⟩ : ∃ bodies : List (List Byte), bodies.flatten = body ∧
      HttpProcessor.answers id mgr.currTotal ⟨username, seq, false, [], 0⟩ buffers =
        .writeHead id code (fieldsOf block) :: bodies.map (.resWrite id) ++ [.resEnd id] :=
    answers_header good digits rfl rfl rfl List.nil_prefix short cut nonempty size
  have size' : mgr.currTotal = (0 + buffers.flatten.length : Nat) := by rw [size, cut, List.length_append, Nat.zero_add]
  have ran := wp_feed known fresh nonempty size'
  rw [answers] at ran
  refine ⟨bodies, whole, answers, ?_⟩
  simpa only [List.append_assoc] using ran

end

def plainBlock : List Byte := encodeUtf8 "HTTP/1.1 200 OK\r\nServer: a\r\n\r\n".toList

theorem block_plainBlock : Block plainBlock where
  ascii := by decide +kernel
  long := by decide +kernel
  ended := firstAt_of_firstOccurrence (by decide +kernel)

def shownUser : JsVal := .str "u".toList

def shownMgr : UserMgmr :=
  (UserMgmr.new shownUser).setParser ⟨some 0, (plainBlock.length + [(0xff : Byte), 0x0d].length : Nat), some [], 0⟩

/-- A server in which a browser waits for the response. -/
def shownServer : ServerState :=
  (ServerState.init.setMgr shownUser shownMgr).setProc 0 (.http ⟨"u".toList, 0, false, [], 0⟩)

/-- The response is cut twice within the two line ends that close its header. -/
def shownPieces : List (List Byte) := [plainBlock.take 27, (plainBlock.drop 27).take 2, plainBlock.drop 29 ++ [0xff], [0x0d]]

theorem splits_header_and_body_shown :
    ∃ bodies : List (List Byte), bodies.flatten = [0xff, 0x0d] ∧
      HttpProcessor.answers 0 shownMgr.currTotal ⟨"u".toList, 0, false, [], 0⟩ shownPieces =
        .writeHead 0 200 (fieldsOf plainBlock) :: bodies.map (.resWrite 0) ++ [.resEnd 0] ∧
      Wp (feed shownUser 0 shownPieces) (fun _ t =>
        t.out = shownServer.out ++ .writeHead 0 200 (fieldsOf plainBlock) :: bodies.map (.resWrite 0) ++ [.resEnd 0])
        (DeletionThrows shownMgr) shownServer := by
  have known : shownServer.userMap shownUser = some shownMgr := setMgr_userMap_self ServerState.init shownUser shownMgr
  have cut : shownPieces.flatten = plainBlock ++ [0xff, 0x0d] := by decide +kernel
  exact splits_header_and_body block_plainBlock (by decide +kernel) cut (by decide +kernel) known
    (setProc_procs_self (ServerState.init.setMgr shownUser shownMgr) 0 _) rfl

end WebTunnel.Server.Splitting
