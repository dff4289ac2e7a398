import WebTunnel.Server.Types

/-! The local proxy: a local socket's bytes and the WebSocket they are tunnelled through. -/

namespace WebTunnel.Proxy.Service
open Library.Bytes Library.JavaScript Server.Types

/-- What the configuration file names as the destination. -/
structure Args where
  lanHost : Text
  lanPort : Nat

/-- What a connection of the proxy hands to the WebSocket and to the local socket. -/
inductive Output where
  | send (message : UtfMessage)
  | write (bytes : List Byte)
  | endSocket
  | close
deriving DecidableEq

/-- A local connection, once its WebSocket is connected. -/
structure ProxyService where
  connected : Bool
  buffers : List (List Byte)
  theSeq : Nat
  out : List Output

def ProxyService.init : ProxyService := ⟨false, [], 0, [.send (.text "hello".toList)]⟩

/-- A message of the server, or bytes that were read from the local socket. -/
inductive Event where
  | message (seq : Nat) (type message : Text)
  | data (bytes : List Byte)

def handshake : Text := "handshake".toList
def openning : Text := "openning".toList
def request : Text := "request".toList

/-- `text.replace(old, new)`. -/
def replace (text old new : Text) : Text :=
  match indexOf text old with
  | none => text
  | some i => text.take i ++ new ++ text.drop (i + old.length)

/-- The encoded text of a closing notice, without its padding. -/
def bufFailed : Text := replace (encodeBase64 (encodeUtf8 "CLOSED!".toList)) "==".toList []

example : bufFailed = "Q0xPU0VEIQ".toList := by decide +kernel

def ProxyService.emit (p : ProxyService) (outputs : List Output) : ProxyService := { p with out := p.out ++ outputs }

def sendOpenning (args : Args) (seq : Nat) : Output :=
  .send (.object seq openning (args.lanHost ++ ":".toList ++ decimal args.lanPort))

def sendRequest (seq : Nat) (bytes : List Byte) : Output := .send (.object seq request (encodeBase64 bytes))

/-- With its first other message the server is taken to be connected, and what was kept is sent. -/
def ProxyService.flush (p : ProxyService) : ProxyService :=
  if p.connected then p
  else if p.buffers ≠ [] then
    { p.emit [sendRequest p.theSeq p.buffers.flatten] with buffers := [], connected := true }
  else { p with connected := true }

def ProxyService.onMessage (args : Args) (p : ProxyService) (seq : Nat) (type message : Text) : ProxyService :=
  if type = handshake then
    { p with theSeq := seq }.emit [sendOpenning args seq]
  else
    let p := p.flush
    if bufFailed.length ≤ message.length ∧ startsWith message bufFailed then p.emit [.endSocket, .close]
    else p.emit [.write (decodeBase64 message)]

def ProxyService.onData (p : ProxyService) (data : List Byte) : ProxyService :=
  if p.connected then p.emit [sendRequest p.theSeq data] else { p with buffers := p.buffers ++ [data] }

def ProxyService.step (args : Args) (p : ProxyService) : Event → ProxyService
  | .message seq type message => p.onMessage args seq type message
  | .data bytes => p.onData bytes

def ProxyService.run (args : Args) (p : ProxyService) (events : List Event) : ProxyService := events.foldl (step args) p

/-! What was received and what was sent. -/

/-- The bytes that came from the local socket. -/
def received (events : List Event) : List Byte :=
  (events.filterMap fun
    | .data bytes => some bytes
    | .message _ _ _ => none).flatten

def requestOf : Output → Option (List Byte)
  | .send (.object _ type message) => if type = request then some (decodeBase64 message) else none
  | _ => none

/-- The bytes of the requests. -/
def requested (outputs : List Output) : List Byte := (outputs.filterMap requestOf).flatten

/-- The session whose connection was last asked for. -/
def opened (seq : Option Nat) : Output → Option Nat
  | .send (.object newSeq type _) => if type = openning then some newSeq else seq
  | _ => seq

/-- Every request carries the id of the session that was last opened before it. -/
def Carries (seq : Option Nat) : List Output → Prop
  | [] => True
  | output :: rest =>
    (∀ used message, output = .send (.object used request message) → seq = some used) ∧ Carries (opened seq output) rest

/-- A message other than a handshake. -/
def speaks : Event → Bool
  | .message _ type _ => type ≠ handshake
  | .data _ => false

/-- Everything that was received was sent, in order, for the session. -/
structure PassedOn (events : List Event) (p : ProxyService) : Prop where
  bytes : requested p.out = received events
  nothingKept : p.buffers.flatten = []
  carries : Carries none p.out

section
variable {p q : ProxyService} {args : Args} {seq : Nat} {type message : Text} {data bytes : List Byte} {before later : List Event}
  {first second : List Output}

theorem requested_append : requested (first ++ second) = requested first ++ requested second := by
  rw [requested, List.filterMap_append, List.flatten_append]
  rfl

theorem received_append : received (before ++ later) = received before ++ received later := by
  rw [received, List.filterMap_append, List.flatten_append]
  rfl

theorem carries_append (seq : Option Nat) : Carries seq (first ++ second) ↔ Carries seq first ∧ Carries (first.foldl opened seq) second := by
  induction first generalizing seq with
  | nil => simp [Carries]
  | cons output rest ih => rw [List.cons_append, Carries, Carries, ih, List.foldl_cons, and_assoc]

@[simp] theorem requested_sendRequest : requested [sendRequest seq bytes] = bytes := by
  rw [requested, List.filterMap_cons_some (b := bytes)]
  · rw [List.filterMap_nil, List.flatten_singleton]
  · rw [sendRequest, requestOf, if_pos rfl, decodeBase64_encodeBase64]

/-- The connection after its handshake: the bytes that were received are those that were sent and
those that are kept, and bytes are kept exactly while nothing else came from the server. -/
structure Split (bytes : List Byte) (spoken : Bool) (p : ProxyService) : Prop where
  whole : requested p.out ++ p.buffers.flatten = bytes
  connected : p.connected = spoken
  kept : if spoken then p.buffers = [] else requested p.out = []
  carries : Carries none p.out
  opened : p.out.foldl opened none = some p.theSeq

variable {spoken : Bool}

/-- Neither a request nor the opening of a session. -/
def other : Output → Bool
  | .send _ => false
  | _ => true

theorem requested_other (others : ∀ output ∈ second, other output = true) : requested second = [] := by
  rw [requested, List.flatten_eq_nil_iff]
  intro bytes member
  obtain ⟨output, listed, some_⟩ := List.mem_filterMap.mp member
  cases output with
  | send => cases others _ listed
  | write | endSocket | close => cases some_

theorem opened_other (others : ∀ output ∈ second, other output = true) (seq : Option Nat) : second.foldl Service.opened seq = seq := by
  induction second with
  | nil => rfl
  | cons output rest ih =>
    have first := others output (by simp)
    have kept : Service.opened seq output = seq := by
      cases output with
      | send => cases first
      | write | endSocket | close => rfl
    rw [List.foldl_cons, kept, ih fun output member => others output (by simp [member])]

theorem carries_other (others : ∀ output ∈ second, other output = true) (seq : Option Nat) : Carries seq second := by
  induction second generalizing seq with
  | nil => trivial
  | cons output rest ih =>
    refine ⟨fun used message same => ?_, ih (fun output member => others output (by simp [member])) _⟩
    cases same ▸ others output (by simp)

theorem Split.emit (split : Split bytes spoken p) (others : ∀ output ∈ second, other output = true) : Split bytes spoken (p.emit second) where
  whole := by rw [ProxyService.emit, requested_append, requested_other others, List.append_nil]; exact split.whole
  connected := split.connected
  kept := by rw [ProxyService.emit, requested_append, requested_other others, List.append_nil]; exact split.kept
  carries := (carries_append _).mpr ⟨split.carries, carries_other others _⟩
  opened := by rw [ProxyService.emit, List.foldl_append, opened_other others]; exact split.opened

/-- A request for the session that was last opened. -/
theorem carries_request (seq : Nat) (bytes : List Byte) : Carries (some seq) [sendRequest seq bytes] := by
  refine ⟨fun used message same => ?_, trivial⟩
  cases same
  rfl

theorem opened_request (current : Option Nat) (seq : Nat) (bytes : List Byte) : Service.opened current (sendRequest seq bytes) = current := by
  rw [sendRequest, Service.opened, if_neg (by decide)]

theorem Split.request (split : Split bytes spoken p) (data : List Byte) :
    Carries none (p.out ++ [sendRequest p.theSeq data]) ∧
      (p.out ++ [sendRequest p.theSeq data]).foldl Service.opened none = some p.theSeq := by
  rw [carries_append, split.opened, List.foldl_append, split.opened, List.foldl_cons, List.foldl_nil, opened_request]
  exact ⟨⟨split.carries, carries_request _ _⟩, rfl⟩

/-- What is kept is sent with one request. -/
theorem Split.flush (split : Split bytes spoken p) : Split bytes true p.flush := by
  rw [ProxyService.flush]
  split
  next connected =>
    rwa [← split.connected, connected] at split
  next waiting =>
    have quiet : spoken = false := by
      rw [← split.connected]
      exact Bool.not_eq_true _ ▸ waiting
    have unsent : requested p.out = [] := by
      simpa [quiet] using split.kept
    split
    next =>
      obtain ⟨carries, opened⟩ := split.request p.buffers.flatten
      exact ⟨by simpa [ProxyService.emit, requested_append] using split.whole, rfl, rfl, carries, opened⟩
    next empty =>
      exact ⟨split.whole, rfl, not_not.mp empty, split.carries, split.opened⟩

theorem requestOf_sendOpenning (args : Args) (seq : Nat) : requestOf (sendOpenning args seq) = none := by
  rw [sendOpenning, requestOf, if_neg (by decide)]

/-- A session is opened. -/
theorem Split.openning (split : Split bytes spoken p) (args : Args) (seq : Nat) :
    Split bytes spoken ({ p with theSeq := seq }.emit [sendOpenning args seq]) := by
  have unchanged : requested (p.out ++ [sendOpenning args seq]) = requested p.out := by
    rw [requested_append]
    simp [requested, requestOf_sendOpenning]
  refine ⟨?_, split.connected, ?_, (carries_append _).mpr ⟨split.carries, fun used message same => ?_, trivial⟩, ?_⟩
  · rw [ProxyService.emit, unchanged]
    exact split.whole
  · rw [ProxyService.emit, unchanged]
    exact split.kept
  · exact absurd (UtfMessage.object.inj (Output.send.inj same)).2.1 (by decide)
  · rw [ProxyService.emit, List.foldl_append, List.foldl_cons, List.foldl_nil, sendOpenning, Service.opened, if_pos rfl]

theorem Split.onMessage (split : Split bytes spoken p) (args : Args) (seq : Nat) (type message : Text) :
    Split bytes (spoken || speaks (.message seq type message)) (p.onMessage args seq type message) := by
  rw [ProxyService.onMessage, speaks]
  split
  next isHandshake =>
    rw [isHandshake, decide_eq_false (by simp), Bool.or_false]
    exact split.openning args seq
  next isOther =>
    rw [decide_eq_true isOther, Bool.or_true]
    split <;> exact split.flush.emit (by simp [other])

theorem Split.onData (split : Split bytes spoken p) (data : List Byte) : Split (bytes ++ data) spoken (p.onData data) := by
  rw [ProxyService.onData]
  split
  next connected =>
    have spoke : spoken = true := split.connected.symm.trans connected
    have empty : p.buffers = [] := by simpa [spoke] using split.kept
    obtain ⟨carries, opened⟩ := split.request data
    refine ⟨?_, split.connected, by simpa [spoke, ProxyService.emit] using split.kept, carries, opened⟩
    rw [← split.whole, ProxyService.emit, requested_append, requested_sendRequest, empty]
    simp
  next waiting =>
    have quiet : spoken = false := by
      rw [← split.connected]
      exact Bool.not_eq_true _ ▸ waiting
    refine ⟨?_, split.connected, by simpa [quiet] using split.kept, split.carries, split.opened⟩
    rw [← split.whole, List.flatten_append, List.flatten_singleton, List.append_assoc]

theorem Split.run (split : Split bytes spoken p) (args : Args) (events : List Event) :
    Split (bytes ++ received events) (spoken || events.any speaks) (p.run args events) := by
  induction events generalizing p bytes spoken with
  | nil => simpa [received, ProxyService.run] using split
  | cons event rest ih =>
    cases event with
    | message seq type message =>
      have rest := ih (split.onMessage args seq type message)
      rw [List.any_cons, ← Bool.or_assoc]
      exact rest
    | data data =>
      have rest := ih (split.onData data)
      rw [List.append_assoc] at rest
      exact rest

/-- Before the handshake, bytes are kept. -/
theorem run_data (args : Args) (chunks kept : List (List Byte)) (theSeq : Nat) (out : List Output) :
    ProxyService.run args ⟨false, kept, theSeq, out⟩ (chunks.map .data) = ⟨false, kept ++ chunks, theSeq, out⟩ := by
  induction chunks generalizing kept with
  | nil => rw [List.append_nil]; rfl
  | cons chunk rest ih =>
    refine (ih (kept ++ [chunk])).trans ?_
    rw [List.append_assoc, List.singleton_append]

theorem received_data (chunks : List (List Byte)) : received (chunks.map .data) = chunks.flatten := by
  rw [received, List.filterMap_map]
  exact congrArg List.flatten (List.filterMap_some)

/-- The bytes that come before the handshake, the handshake, and what comes then. -/
def proxied (chunks : List (List Byte)) (seq : Nat) (message : Text) (later : List Event) : List Event :=
  chunks.map .data ++ .message seq handshake message :: later

/-- The connection when its handshake was processed. -/
def shaken (args : Args) (chunks : List (List Byte)) (seq : Nat) : ProxyService :=
  ⟨false, chunks, seq, [.send (.text "hello".toList), sendOpenning args seq]⟩

theorem split_shaken (args : Args) (chunks : List (List Byte)) (seq : Nat) : Split chunks.flatten false (shaken args chunks seq) := by
  have unsent : requested (shaken args chunks seq).out = [] := by
    rw [shaken, requested, List.filterMap_cons_none (by rfl), List.filterMap_cons_none (requestOf_sendOpenning args seq)]
    rfl
  refine ⟨by rw [unsent]; rfl, rfl, unsent, ⟨fun used message same => ?_, fun used message same => ?_, trivial⟩, ?_⟩
  · cases same
  · exact absurd (UtfMessage.object.inj (Output.send.inj same)).2.1 (by decide)
  · rw [shaken, List.foldl_cons, List.foldl_cons, List.foldl_nil, sendOpenning, Service.opened, if_pos rfl]

theorem split_proxied (args : Args) (chunks : List (List Byte)) (seq : Nat) (message : Text) (later : List Event) :
    Split (received (proxied chunks seq message later)) (later.any speaks) (.run args .init (proxied chunks seq message later)) := by
  have bytes : received (proxied chunks seq message later) = chunks.flatten ++ received later := by
    rw [proxied, received_append, received_data]
    rfl
  have state : ProxyService.run args .init (proxied chunks seq message later) = (shaken args chunks seq).run args later := by
    rw [proxied, ProxyService.run, List.foldl_append, List.foldl_cons]
    refine congrArg (later.foldl (ProxyService.step args)) ?_
    have kept := run_data args chunks [] 0 [.send (.text "hello".toList)]
    rw [ProxyService.run, List.nil_append] at kept
    rw [ProxyService.init, kept, ProxyService.step, ProxyService.onMessage, if_pos rfl]
    rfl
  have ran := (split_shaken args chunks seq).run args later
  rw [Bool.false_or] at ran
  rwa [bytes, state]

/-- Exactly when the server has sent something behind the handshake, or nothing was received, everything
that was received was sent. -/
theorem passedOn_iff (args : Args) (chunks : List (List Byte)) (seq : Nat) (message : Text) (later : List Event) :
    PassedOn (proxied chunks seq message later) (.run args .init (proxied chunks seq message later)) ↔
      later.any speaks ∨ received (proxied chunks seq message later) = [] := by
  have split := split_proxied args chunks seq message later
  constructor
  · intro passed
    by_cases spoken : later.any speaks
    · exact .inl spoken
    · refine .inr ?_
      have unsent := split.kept
      rw [if_neg spoken] at unsent
      rw [← passed.bytes, unsent]
  · intro free
    have none : (ProxyService.run args .init (proxied chunks seq message later)).buffers.flatten = [] := by
      rcases free with spoken | nothing
      · have kept := split.kept
        rw [if_pos spoken] at kept
        rw [kept, List.flatten_nil]
      · have whole := split.whole
        rw [nothing] at whole
        exact (List.append_eq_nil_iff.mp whole).2
    refine ⟨?_, none, split.carries⟩
    have whole := split.whole
    rwa [none, List.append_nil] at whole

/-- A client that speaks first is not heard. -/
theorem first_byte_kept : ¬ PassedOn (proxied [] 0 [] [.data [0x47]]) (.run ⟨"10.1.1.213".toList, 80⟩ .init (proxied [] 0 [] [.data [0x47]])) := by
  intro passed
  have kept := passed.nothingKept
  rw [show ProxyService.run ⟨"10.1.1.213".toList, 80⟩ .init (proxied [] 0 [] [.data [0x47]]) =
    ⟨false, [[0x47]], 0, _⟩ from rfl] at kept
  cases kept

end

/-! A closing notice comes as data, and is recognized by its encoded text. -/

/-- Bytes that begin with the text of a closing notice, and then end or go on with a byte below 16. -/
def BeginsClosed (d : List Byte) : Prop :=
  encodeUtf8 "CLOSED!".toList <+: d ∧ ∀ b ∈ (d.drop 7).head?, b.toNat < 16

instance (d : List Byte) : Decidable (BeginsClosed d) := by
  unfold BeginsClosed
  infer_instance

theorem base64Char_inj : ∀ m < 64, ∀ n < 64, base64Char m = base64Char n → m = n := by decide +kernel

theorem base64Char_eq_iff {m n : Nat} (small : m < 64) (small' : n < 64) : base64Char m = base64Char n ↔ m = n :=
  ⟨base64Char_inj m small n small', fun same => by rw [same]⟩

theorem ofNat_eq_iff {b : Byte} {n : Nat} (small : n < 256) : BitVec.ofNat 8 n = b ↔ b.toNat = n := by
  constructor
  · rintro rfl
    rw [BitVec.toNat_ofNat]
    omega
  · intro same
    exact ofNat_eq_of_mod (by omega)

/-- Four characters are read off the first three bytes. -/
theorem four_prefix_encodeBase64 {w x y z : Nat} (small : w < 64 ∧ x < 64 ∧ y < 64 ∧ z < 64) (more : Text) (d : List Byte) :
    base64Char w :: base64Char x :: base64Char y :: base64Char z :: more <+: encodeBase64 d ↔
      ∃ a b c rest, d = a :: b :: c :: rest ∧
        a.toNat * 65536 + b.toNat * 256 + c.toNat = w * 262144 + x * 4096 + y * 64 + z ∧ more <+: encodeBase64 rest := by
  fun_cases encodeBase64 d with
  | case1 a b c rest n =>
    have bound : n < 16777216 := by omega
    simp only [List.cons_prefix_cons]
    rw [base64Char_eq_iff small.1 (by omega), base64Char_eq_iff small.2.1 (by omega), base64Char_eq_iff small.2.2.1 (by omega),
      base64Char_eq_iff small.2.2.2 (by omega)]
    constructor
    · rintro ⟨rfl, rfl, rfl, rfl, within⟩
      exact ⟨a, b, c, rest, rfl, by omega, within⟩
    · rintro ⟨a', b', c', rest', same, sum, within⟩
      cases same
      exact ⟨by omega, by omega, by omega, by omega, within⟩
  | case2 a b n => simp [base64Char_ne_pad z small.2.2.2]
  | case3 a => simp [base64Char_ne_pad y small.2.2.1]
  | case4 => simp

/-- Two characters are read off the first byte and the high half of the second. -/
theorem two_prefix_encodeBase64 {w x : Nat} (small : w < 64 ∧ x < 4) (d : List Byte) :
    [base64Char w, base64Char (x * 16)] <+: encodeBase64 d ↔
      ∃ a rest, d = a :: rest ∧ a.toNat = w * 4 + x ∧ ∀ b ∈ rest.head?, b.toNat < 16 := by
  fun_cases encodeBase64 d with
  | case1 a b c rest n =>
    have bound : n < 16777216 := by omega
    simp only [List.cons_prefix_cons, List.nil_prefix, and_true]
    rw [base64Char_eq_iff small.1 (by omega), base64Char_eq_iff (by omega) (by omega)]
    simp only [List.cons.injEq, ↓existsAndEq, true_and, and_true, List.head?_cons, Option.mem_some_iff, forall_eq']
    omega
  | case2 a b n =>
    simp only [List.cons_prefix_cons, List.nil_prefix, and_true]
    rw [base64Char_eq_iff small.1 (by omega), base64Char_eq_iff (by omega) (by omega)]
    simp only [List.cons.injEq, ↓existsAndEq, true_and, and_true, List.head?_cons, Option.mem_some_iff, forall_eq']
    omega
  | case3 a =>
    simp only [List.cons_prefix_cons, List.nil_prefix, and_true]
    rw [base64Char_eq_iff small.1 (by omega), base64Char_eq_iff (by omega) (by omega)]
    simp only [List.cons.injEq, ↓existsAndEq, true_and, and_true, List.head?_nil, Option.mem_def, reduceCtorEq, false_implies,
      implies_true]
    omega
  | case4 => simp

/-- The encoded text of bytes begins with the encoded notice exactly if the bytes begin with the notice. -/
theorem startsWith_encodeBase64 (d : List Byte) : startsWith (encodeBase64 d) bufFailed = true ↔ BeginsClosed d := by
  have failed : bufFailed = base64Char 16 :: base64Char 52 :: base64Char 49 :: base64Char 15 :: base64Char 20 :: base64Char 52 ::
      base64Char 21 :: base64Char 4 :: [base64Char 8, base64Char (1 * 16)] := by decide +kernel
  have notice : encodeUtf8 "CLOSED!".toList = [67, 76, 79, 83, 69, 68, 33].map (BitVec.ofNat 8) := by decide +kernel
  rw [startsWith, List.isPrefixOf_iff_prefix, failed, four_prefix_encodeBase64 (by omega), BeginsClosed, notice]
  constructor
  · rintro ⟨a, b, c, rest, rfl, first, within⟩
    obtain ⟨d, e, f, rest, rfl, second, within⟩ := (four_prefix_encodeBase64 (by omega) _ _).mp within
    obtain ⟨g, rest, rfl, third, low⟩ := (two_prefix_encodeBase64 (by omega) _).mp within
    refine ⟨?_, low⟩
    simp only [List.map_cons, List.map_nil, List.cons_prefix_cons, List.nil_prefix, and_true]
    simp only [ofNat_eq_iff (n := 67) (by omega), ofNat_eq_iff (n := 76) (by omega), ofNat_eq_iff (n := 79) (by omega),
      ofNat_eq_iff (n := 83) (by omega), ofNat_eq_iff (n := 69) (by omega), ofNat_eq_iff (n := 68) (by omega),
      ofNat_eq_iff (n := 33) (by omega)]
    omega
  · rintro ⟨⟨rest, rfl⟩, low⟩
    refine ⟨67, 76, 79, 83 :: 69 :: 68 :: 33 :: rest, rfl, rfl, (four_prefix_encodeBase64 (by omega) _ _).mpr ⟨83, 69, 68, 33 :: rest,
      rfl, rfl, (two_prefix_encodeBase64 (by omega) _).mpr ⟨33, rest, rfl, rfl, low⟩⟩⟩

end WebTunnel.Proxy.Service
