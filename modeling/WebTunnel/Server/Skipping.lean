import WebTunnel.Server.Framing

/-! Frames for a session that is not there: what the parser of a user's frames does with the
messages they come in. -/

namespace WebTunnel.Server.Skipping
open Library.Bytes Library.JavaScript Library.Json Library.Program Sessions Wire Server.Types Framing

/-- No frame is under way. -/
def Idle (p : FrameParser) : Prop := p.currSeq = none ∧ p.currTotal = 0

/-- No byte of a header was collected. -/
def Bare (p : FrameParser) : Prop := (p.tmpBufs.getD []).flatten = []

/-- A header that the parser takes for the beginning of a frame. -/
def GoodHeader (bytes : List Byte) : Prop :=
  ∃ protoHeader, parseHeaderMessage bytes = .ok protoHeader ∧ ¬ headerBad protoHeader

/-- The bytes in which the parser looks for a header when a message comes, if it does. -/
def headerBytesOf (p : FrameParser) (buffer : List Byte) : Option (List Byte) :=
  if p.currSeq = none then
    if protocolHeaderLen ≤ buffer.length then some buffer
    else if protocolHeaderLen ≤ p.tmpBufsLen + buffer.length then some ((p.tmpBufs.getD []).flatten ++ buffer)
    else none
  else none

/-- The parser takes the message, with what was collected before it, for a header. -/
def TakesHeader (p : FrameParser) (buffer : List Byte) : Prop :=
  ∃ bytes, headerBytesOf p buffer = some bytes ∧ GoodHeader bytes

/-- Nothing of what the server sends or calls between two states is a call of a processor. -/
def Unprocessed (s t : ServerState) : Prop :=
  ∃ new, t.out = s.out ++ new ∧ ∀ seq total id bytes, .processBuffer seq total id bytes ∉ new

/-- The rest of a frame is skipped: its messages are handed to no processor, none of them is
taken for a header, and behind them the parser is idle and has nothing collected. -/
def SkipsRest (user : JsVal) (c : ConnId) : ServerState → List (List Byte) → Prop
  | s, [] => ∀ mgr, s.userMap user = some mgr → Idle mgr.toFrameParser ∧ Bare mgr.toFrameParser
  | s, buffer :: rest => (∀ mgr, s.userMap user = some mgr → ¬ TakesHeader mgr.toFrameParser buffer) ∧
    ∃ t, parseNormalMessage user c buffer s = .ok ((), t) ∧ Unprocessed s t ∧ SkipsRest user c t rest

/-- A frame is skipped whole, from its first message on, in which its header comes. -/
def SkipsWhole (user : JsVal) (c : ConnId) (s : ServerState) (first : List Byte) (rest : List (List Byte)) : Prop :=
  ∃ t, parseNormalMessage user c first s = .ok ((), t) ∧ Unprocessed s t ∧ SkipsRest user c t rest

/-- Messages in which no header is found by a parser that looks for one and has collected some
bytes: those that are shorter than a header are read together when they are long enough. None
of their bytes is left. -/
def NoHeaders : List Byte → List (List Byte) → Prop
  | collected, [] => collected = []
  | collected, buffer :: rest =>
    if protocolHeaderLen ≤ buffer.length then ¬ GoodHeader buffer ∧ NoHeaders [] rest
    else if protocolHeaderLen ≤ collected.length + buffer.length then
      ¬ GoodHeader (collected ++ buffer) ∧ NoHeaders [] rest
    else NoHeaders (collected ++ buffer) rest

/-- The messages that come when the missing session was noticed contain no header. -/
def Skippable (type : Nat) (first : List Byte) (rest : List (List Byte)) : Prop :=
  if type = 0x5 then protocolHeaderLen + 4 ≤ first.length ∧ NoHeaders [] rest
  else if first.length = protocolHeaderLen then ∃ buffer later, rest = buffer :: later ∧ NoHeaders [] later
  else NoHeaders [] rest

section
variable {s t : ServerState} {user : JsVal} {c : ConnId} {mgr : UserMgmr} {buffer : List Byte} {rest : List (List Byte)}

theorem Unprocessed.of_out (same : t.out = s.out) : Unprocessed s t :=
  ⟨[], by rw [same, List.append_nil], by simp⟩

/-- The parser is idle and has collected these bytes. -/
def Waiting (user : JsVal) (collected : List Byte) (s : ServerState) : Prop :=
  ∃ mgr bufs, s.userMap user = some mgr ∧ Idle mgr.toFrameParser ∧ mgr.tmpBufs = some bufs ∧
    bufs.flatten = collected ∧ mgr.tmpBufsLen = collected.length

variable {collected : List Byte}

/-- The user's manager is found where it was put. -/
theorem waiting_of_setMgr {p : FrameParser} {bufs : List (List Byte)} (idle : Idle p)
    (tmp : p.tmpBufs = some bufs) (length : p.tmpBufsLen = bufs.flatten.length) :
    Waiting user bufs.flatten (s.setMgr user (mgr.setParser p)) :=
  ⟨mgr.setParser p, bufs, setMgr_userMap_self _ _ _, idle, tmp, rfl, length⟩

/-- Bytes that are no header are dropped, with all that was collected. -/
theorem wp_parseFirstMessage_of_bad (known : s.userMap user = some mgr) (idle : Idle mgr.toFrameParser)
    (whole : protocolHeaderLen ≤ buffer.length) (bad : ¬ GoodHeader buffer) :
    Wp (parseFirstMessage user c buffer) (fun _ t => t.out = s.out ∧ Waiting user [] t) (fun _ => False) s := by
  obtain ⟨protoHeader, parsed⟩ := parseHeaderMessage_of_le (Nat.le_trans (by decide) whole)
  have headerBad : headerBad protoHeader := by
    by_contra good
    exact bad ⟨protoHeader, parsed, good⟩
  rw [wp_parseFirstMessage known]
  refine ⟨fun e failed => (by cases parsed.symm.trans failed), fun protoHeader' parsed' => ?_⟩
  cases parsed.symm.trans parsed'
  rw [if_pos headerBad]
  refine ⟨rfl, ?_⟩
  exact @waiting_of_setMgr s user mgr (dropCollected mgr.toFrameParser) [] idle rfl rfl

theorem wp_parseNormalMessage_of_long (waiting : Waiting user collected s) (whole : protocolHeaderLen ≤ buffer.length)
    (bad : ¬ GoodHeader buffer) :
    Wp (parseNormalMessage user c buffer) (fun _ t => t.out = s.out ∧ Waiting user [] t) (fun _ => False) s := by
  obtain ⟨mgr, bufs, known, idle, _⟩ := waiting
  rw [wp_parseNormalMessage_idle known idle.1, if_neg (Nat.not_lt.mpr whole)]
  exact wp_parseFirstMessage_of_bad known idle whole bad

/-- Where a short message completes a header's length, what was collected is read with it. -/
theorem wp_parseNormalMessage_of_enough (waiting : Waiting user collected s) (short : buffer.length < protocolHeaderLen)
    (enough : protocolHeaderLen ≤ collected.length + buffer.length) (bad : ¬ GoodHeader (collected ++ buffer)) :
    Wp (parseNormalMessage user c buffer) (fun _ t => t.out = s.out ∧ Waiting user [] t) (fun _ => False) s := by
  obtain ⟨mgr, bufs, known, idle, tmp, rfl, length⟩ := waiting
  rw [wp_parseNormalMessage_idle known idle.1, if_pos short]
  refine ⟨fun bufs' tmp' => ?_, fun none => by cases tmp.symm.trans none⟩
  cases tmp.symm.trans tmp'
  rw [if_pos (by omega)]
  have all : (bufs ++ [buffer]).flatten = bufs.flatten ++ buffer := by simp
  rw [all]
  exact wp_parseFirstMessage_of_bad (setMgr_userMap_self _ _ _) idle (by rw [List.length_append]; exact enough) bad

/-- Otherwise it is collected too. -/
theorem wp_parseNormalMessage_of_few (waiting : Waiting user collected s)
    (few : collected.length + buffer.length < protocolHeaderLen) :
    Wp (parseNormalMessage user c buffer) (fun _ t => t.out = s.out ∧ Waiting user (collected ++ buffer) t)
      (fun _ => False) s := by
  obtain ⟨mgr, bufs, known, idle, tmp, rfl, length⟩ := waiting
  rw [wp_parseNormalMessage_idle known idle.1, if_pos (by omega)]
  refine ⟨fun bufs' tmp' => ?_, fun none => by cases tmp.symm.trans none⟩
  cases tmp.symm.trans tmp'
  rw [if_neg (by omega)]
  have all : (bufs ++ [buffer]).flatten = bufs.flatten ++ buffer := by simp
  refine ⟨rfl, ?_⟩
  rw [← all]
  refine waiting_of_setMgr idle rfl ?_
  rw [all, List.length_append]
  exact congrArg (· + buffer.length) length

theorem takesHeader_iff (waiting : Waiting user collected s) (known : s.userMap user = some mgr) :
    TakesHeader mgr.toFrameParser buffer ↔
      if protocolHeaderLen ≤ buffer.length then GoodHeader buffer
      else protocolHeaderLen ≤ collected.length + buffer.length ∧ GoodHeader (collected ++ buffer) := by
  obtain ⟨mgr', bufs, known', idle, tmp, rfl, length⟩ := waiting
  cases known.symm.trans known'
  rw [TakesHeader, headerBytesOf, if_pos idle.1, tmp, length]
  split
  · simp
  · split
    next enough =>
      rw [and_iff_right enough]
      simp only [Option.some.injEq, exists_eq_left', Option.getD_some]
    next few => exact ⟨by rintro ⟨_, ⟨⟩, _⟩, fun taken => absurd taken.1 few⟩

/-- From a waiting parser the rest of a frame is skipped if and only if there is no header in
the messages. -/
theorem skipsRest_iff (waiting : Waiting user collected s) :
    SkipsRest user c s rest ↔ NoHeaders collected rest := by
  induction rest generalizing s collected with
  | nil =>
    obtain ⟨mgr, bufs, known, idle, tmp, rfl, _⟩ := waiting
    constructor
    · intro skips
      have bare := (skips mgr known).2
      rwa [Bare, tmp] at bare
    · intro none mgr' known'
      cases known.symm.trans known'
      refine ⟨idle, ?_⟩
      rw [Bare, tmp]
      exact none
  | cons buffer rest ih =>
    obtain ⟨mgr, _, known, _⟩ := id waiting
    have takes := @takesHeader_iff s user mgr buffer collected waiting known
    have step {after : List Byte} (ran : Wp (parseNormalMessage user c buffer)
        (fun _ t => t.out = s.out ∧ Waiting user after t) (fun _ => False) s)
        (none : ¬ TakesHeader mgr.toFrameParser buffer) :
        SkipsRest user c s (buffer :: rest) ↔ NoHeaders after rest := by
      obtain ⟨_, t, ran, same, waiting⟩ := wp_total.mp ran
      constructor
      · rintro ⟨_, t', ran', _, skips⟩
        cases ran.symm.trans ran'
        exact (ih waiting).mp skips
      · intro noHeaders
        refine ⟨fun mgr' known' => ?_, t, ran, .of_out same, (ih waiting).mpr noHeaders⟩
        cases known.symm.trans known'
        exact none
    have refuses (taken : TakesHeader mgr.toFrameParser buffer) : ¬ SkipsRest user c s (buffer :: rest) :=
      fun skips => skips.1 mgr known taken
    rw [NoHeaders]
    split
    next whole =>
      rw [if_pos whole] at takes
      by_cases good : GoodHeader buffer
      · exact ⟨fun skips => absurd skips (refuses (takes.mpr good)), fun none => absurd good none.1⟩
      · rw [step (wp_parseNormalMessage_of_long waiting whole good) (mt takes.mp good)]
        exact (and_iff_right good).symm
    next short =>
      rw [if_neg short] at takes
      split
      next enough =>
        by_cases good : GoodHeader (collected ++ buffer)
        · exact ⟨fun skips => absurd skips (refuses (takes.mpr ⟨enough, good⟩)), fun none => absurd good none.1⟩
        · rw [step (wp_parseNormalMessage_of_enough waiting (Nat.lt_of_not_le short) enough good)
            (mt takes.mp fun taken => good taken.2)]
          exact (and_iff_right good).symm
      next few =>
        exact step (wp_parseNormalMessage_of_few waiting (Nat.lt_of_not_le few))
          (mt takes.mp fun taken => few taken.1)

/-! The message with the header. -/

variable {first : List Byte} {type seq length : Nat} {payload : List Byte}

/-- Bytes for a session that is not there are dropped, and so is the frame. -/
theorem wp_httpNormalParse_of_missing (known : s.userMap user = some mgr) (busy : mgr.currSeq = some seq)
    (tmp : mgr.tmpBufs = some []) (len : mgr.tmpBufsLen = 0) (missing : getBySeq mgr.toSessionTable seq = none)
    (bytes : List Byte) :
    Wp (httpNormalParse user bytes) (fun _ t => t.out = s.out ∧ Waiting user [] t) (fun _ => False) s := by
  have absent : mgr.getCurrent = none := by rw [UserMgmr.getCurrent, busy, Option.bind_some, missing]
  rw [httpNormalParse, wp_bind, wp_getMgr_of_known known]
  split
  next found => cases absent.symm.trans found
  next =>
    rw [wp_setMgr]
    exact ⟨rfl, @waiting_of_setMgr s user mgr { mgr.toFrameParser with currSeq := none, currTotal := 0 } [] ⟨rfl, rfl⟩ tmp len⟩

/-- What the first message of a frame does. -/
theorem wp_first (known : s.userMap user = some mgr) (idle : Idle mgr.toFrameParser)
    (byte : type < 256) (short : seq < 65536) (fits : length < 2 ^ 32)
    (missing : getBySeq mgr.toSessionTable seq = none) (front : first = headerBytes type seq length ++ payload) :
    Wp (parseNormalMessage user c first)
      (fun _ t => Unprocessed s t ∧
        if type = 0x5 then protocolHeaderLen + 4 ≤ first.length ∧ Waiting user [] t
        else if first.length = protocolHeaderLen then
          t.userMap user = some (mgr.setParser (beginFrame ⟨protocolMagic, protocolVersion, type, seq, length⟩))
        else Waiting user [] t)
      (fun _ => type = 0x5 ∧ first.length < protocolHeaderLen + 4) s := by
  have whole : protocolHeaderLen ≤ first.length := by
    rw [front, List.length_append, headerBytes_length]
    exact Nat.le_add_right _ _
  have parsed : parseHeaderMessage first = .ok ⟨protocolMagic, protocolVersion, type, seq, length⟩ := by
    rw [front]
    exact parseHeaderMessage_headerBytes byte short fits payload
  have good : ¬ headerBad ⟨protocolMagic, protocolVersion, type, seq, length⟩ := by simp [headerBad]
  rw [wp_parseNormalMessage_idle known idle.1, if_neg (Nat.not_lt.mpr whole), wp_parseFirstMessage known]
  refine ⟨fun e failed => (by cases parsed.symm.trans failed), fun protoHeader parsed' => ?_⟩
  cases parsed.symm.trans parsed'
  rw [if_neg good]
  by_cases tunnel : type = 0x5
  · rw [if_pos tunnel, parseTunnelReq, wp_bind, wp_liftJs]
    constructor
    · intro auth read
      have long : protocolHeaderLen + 4 ≤ first.length := by
        by_contra short
        cases read.symm.trans (readUIntBE_of_lt (Nat.lt_of_not_le short))
      rw [wp_emit, if_pos tunnel]
      exact ⟨⟨[.readConfig c seq], rfl, by simp⟩, long,
        @waiting_of_setMgr s user mgr (dropCollected mgr.toFrameParser) [] idle rfl rfl⟩
    · intro e read
      refine ⟨tunnel, ?_⟩
      by_contra long
      cases read.symm.trans (readUIntBE_of_le (Nat.le_of_not_lt long))
  · rw [if_neg tunnel, afterHeader]
    simp only [tunnel, if_false]
    by_cases bare : first.length = protocolHeaderLen
    · rw [wp_ite, if_neg (by omega), wp_pure, if_pos bare]
      exact ⟨.of_out rfl, setMgr_userMap_self _ _ _⟩
    · rw [wp_ite, if_pos (by omega)]
      have dropped := @wp_httpNormalParse_of_missing
        (s.setMgr user (mgr.setParser (beginFrame ⟨protocolMagic, protocolVersion, type, seq, length⟩))) user _ seq
        (setMgr_userMap_self _ _ _) rfl rfl rfl missing (sliceBuffer first protocolHeaderLen first.length)
      refine wp_mono dropped (fun _ t result => ?_) fun _ none => none.elim
      rw [if_neg bare]
      exact ⟨.of_out result.1, result.2⟩

/-- Where the header came alone, the message that comes next is dropped. -/
theorem skipsRest_of_busy (known : s.userMap user = some mgr) (busy : mgr.currSeq = some seq)
    (tmp : mgr.tmpBufs = some []) (len : mgr.tmpBufsLen = 0) (missing : getBySeq mgr.toSessionTable seq = none) :
    SkipsRest user c s rest ↔ ∃ buffer later, rest = buffer :: later ∧ NoHeaders [] later := by
  have notIdle : mgr.currSeq ≠ none := by rw [busy]; simp
  cases rest with
  | nil =>
    refine ⟨fun skips => absurd (skips mgr known).1.1 notIdle, ?_⟩
    rintro ⟨_, _, ⟨⟩, _⟩
  | cons buffer later =>
    have dropped := (wp_parseNormalMessage_busy (c := c) known notIdle).mpr
      (wp_httpNormalParse_of_missing known busy tmp len missing buffer)
    obtain ⟨_, t, ran, same, waiting⟩ := wp_total.mp dropped
    constructor
    · rintro ⟨_, t', ran', _, skips⟩
      cases ran.symm.trans ran'
      exact ⟨buffer, later, rfl, (skipsRest_iff waiting).mp skips⟩
    · rintro ⟨_, _, ⟨⟩, none⟩
      refine ⟨fun mgr' known' taken => ?_, t, ran, .of_out same, (skipsRest_iff waiting).mpr none⟩
      cases known.symm.trans known'
      obtain ⟨bytes, found, _⟩ := taken
      rw [headerBytesOf, if_neg notIdle] at found
      cases found

/-- What comes after the first message. -/
theorem skipsWhole_of_first {post : ServerState → Prop} {err : JsError → Prop} {condition : Prop}
    (ran : Wp (parseNormalMessage user c first) (fun _ t => Unprocessed s t ∧ post t) err s)
    (failed : ∀ e, err e → ¬ condition) (after : ∀ t, post t → (SkipsRest user c t rest ↔ condition)) :
    SkipsWhole user c s first rest ↔ condition := by
  obtain ⟨returned, stopped⟩ := wp_iff.mp ran
  cases result : parseNormalMessage user c first s with
  | error e =>
    refine ⟨?_, fun holds => absurd holds (failed e (stopped e result))⟩
    rintro ⟨t, ran, _⟩
    cases result.symm.trans ran
  | ok pair =>
    obtain ⟨quiet, reached⟩ := returned _ pair.2 result
    rw [← after pair.2 reached]
    refine ⟨?_, fun skips => ⟨pair.2, result, quiet, skips⟩⟩
    rintro ⟨t, ran, _, skips⟩
    cases result.symm.trans ran
    exact skips

section
variable (known : s.userMap user = some mgr) (idle : Idle mgr.toFrameParser)
  (byte : type < 256) (short : seq < 65536) (fits : length < 2 ^ 32)
  (missing : getBySeq mgr.toSessionTable seq = none) (front : first = headerBytes type seq length ++ payload)
include known idle byte short fits missing front

theorem skipsWhole_tunnel_iff (tunnel : type = 0x5) :
    SkipsWhole user c s first rest ↔ protocolHeaderLen + 4 ≤ first.length ∧ NoHeaders [] rest := by
  refine skipsWhole_of_first (wp_first known idle byte short fits missing front)
    (fun _ failed holds => absurd holds.1 (Nat.not_le.mpr failed.2)) fun t after => ?_
  rw [if_pos tunnel] at after
  rw [skipsRest_iff after.2, and_iff_right after.1]

theorem skipsWhole_bare_iff (other : type ≠ 0x5) (bare : first.length = protocolHeaderLen) :
    SkipsWhole user c s first rest ↔ ∃ buffer later, rest = buffer :: later ∧ NoHeaders [] later := by
  refine skipsWhole_of_first (wp_first known idle byte short fits missing front)
    (fun _ failed => absurd failed.1 other) fun t after => ?_
  rw [if_neg other, if_pos bare] at after
  exact skipsRest_of_busy after rfl rfl rfl missing

theorem skipsWhole_more_iff (other : type ≠ 0x5) (more : first.length ≠ protocolHeaderLen) :
    SkipsWhole user c s first rest ↔ NoHeaders [] rest := by
  refine skipsWhole_of_first (wp_first known idle byte short fits missing front)
    (fun _ failed => absurd failed.1 other) fun t after => ?_
  rw [if_neg other, if_neg more] at after
  exact skipsRest_iff after

end

/-- A frame for a session that is not there is skipped whole if and only if no header is found
in the messages that come after the parser has noticed it. -/
theorem skipsWhole_iff (known : s.userMap user = some mgr) (idle : Idle mgr.toFrameParser)
    (byte : type < 256) (short : seq < 65536) (fits : payload.length + protocolHeaderLen < 2 ^ 32)
    (missing : getBySeq mgr.toSessionTable seq = none)
    (cut : first ++ rest.flatten = headerBytes type seq (payload.length + protocolHeaderLen) ++ payload)
    (whole : protocolHeaderLen ≤ first.length) :
    SkipsWhole user c s first rest ↔ Skippable type first rest := by
  have front := (cut_behind cut (by rw [headerBytes_length]; exact whole)).1
  rw [Skippable]
  split
  next tunnel => exact skipsWhole_tunnel_iff known idle byte short fits missing front tunnel
  next other =>
    split
    next bare => exact skipsWhole_bare_iff known idle byte short fits missing front other bare
    next more => exact skipsWhole_more_iff known idle byte short fits missing front other more

end

def loneUser : JsVal := .str "u".toList

/-- A server with one user, who has no session. -/
def loneServer : ServerState := ServerState.init.setMgr loneUser (UserMgmr.new loneUser)

theorem skipsWhole_iff_lone :
    SkipsWhole loneUser 0 loneServer (headerBytes 2 7 18 ++ [0x61]) [[0x62]] ↔
      Skippable 2 (headerBytes 2 7 18 ++ [0x61]) [[0x62]] := by
  have known : loneServer.userMap loneUser = some (UserMgmr.new loneUser) := setMgr_userMap_self _ _ _
  have byte : 2 < 256 := by decide
  have short : 7 < 65536 := by decide
  have cut : (headerBytes 2 7 18 ++ [0x61]) ++ [[0x62]].flatten =
      headerBytes 2 7 ([(0x61 : Byte), 0x62].length + protocolHeaderLen) ++ [0x61, 0x62] := by
    rw [List.append_assoc]
    rfl
  have whole : protocolHeaderLen ≤ (headerBytes 2 7 18 ++ [(0x61 : Byte)]).length := by
    rw [List.length_append, headerBytes_length]
    exact Nat.le_add_right _ _
  exact skipsWhole_iff known ⟨rfl, rfl⟩ byte short (by decide) rfl cut whole

/-- Where the rest of a frame looks like a frame for another session, it is taken for one. -/
theorem unknown_session_not_skipped :
    ¬ ∀ (s : ServerState) (user : JsVal) (c : ConnId) (mgr : UserMgmr) (type seq : Nat)
      (payload first : List Byte) (rest : List (List Byte)),
      s.userMap user = some mgr → Idle mgr.toFrameParser → type < 256 → seq < 65536 →
      payload.length + protocolHeaderLen < 2 ^ 32 → getBySeq mgr.toSessionTable seq = none →
      first ++ rest.flatten = headerBytes type seq (payload.length + protocolHeaderLen) ++ payload →
      protocolHeaderLen ≤ first.length → SkipsWhole user c s first rest := by
  intro always
  have known : loneServer.userMap loneUser = some (UserMgmr.new loneUser) := setMgr_userMap_self _ _ _
  have byte : 2 < 256 := by decide
  have short : 7 < 65536 := by decide
  let inner := headerBytes 2 8 17 ++ [0x62]
  have size : inner.length = 17 := by
    rw [List.length_append, headerBytes_length]
    rfl
  have fits : ([0x61] ++ inner).length + protocolHeaderLen < 2 ^ 32 := by
    rw [List.length_append, size]
    decide
  have good : GoodHeader inner :=
    ⟨_, parseHeaderMessage_headerBytes byte (by decide) (by decide) _, by simp [headerBad]⟩
  let first := headerBytes 2 7 (([0x61] ++ inner).length + protocolHeaderLen) ++ [0x61]
  have long : first.length = protocolHeaderLen + 1 := by
    rw [List.length_append, headerBytes_length]
    rfl
  have cut : first ++ [inner].flatten =
      headerBytes 2 7 (([0x61] ++ inner).length + protocolHeaderLen) ++ ([0x61] ++ inner) := by
    rw [List.flatten_cons, List.flatten_nil, List.append_nil, List.append_assoc]
  have skips := always loneServer loneUser 0 _ 2 7 _ first [inner] known ⟨rfl, rfl⟩ byte short fits rfl cut (by omega)
  have more : first.length ≠ protocolHeaderLen := by omega
  have none := (skipsWhole_more_iff known ⟨rfl, rfl⟩ byte short fits rfl rfl (by decide) more).mp skips
  rw [NoHeaders, if_pos (by rw [size]; decide)] at none
  exact none.1 good

end WebTunnel.Server.Skipping
