import WebTunnel.Device.Buffers

/-! Parsing of HTTP responses: whether a response is chunked, and taking the chunks' framing
out of the buffers it was read into. -/

namespace WebTunnel.Device.Parsing
open Library.Bytes Library.Lists Library.Routines Library.Routines.Routine Device.Types Buffers

/-- The position of the first occurrence of a text. -/
def strstr (needle : List Byte) : List Byte → Option Nat
  | [] => if needle = [] then some 0 else none
  | b :: rest =>
    if needle.isPrefixOf (b :: rest) then some 0 else (strstr needle rest).map (· + 1)

def toLower (b : Byte) : Byte := if 0x41 ≤ b ∧ b ≤ 0x5a then b + 0x20 else b

/-- As `strstr`, without regard to the letters' case. -/
def strcasestr (needle s : List Byte) : Option Nat := strstr (needle.map toLower) (s.map toLower)

/-- The C string at the beginning of some bytes. -/
def cString (bytes : List Byte) : List Byte := bytes.takeWhile (· ≠ 0)

def lrln : List Byte := [0x0d, 0x0a, 0x0d, 0x0a]

/-- Whether a header block says that its body is chunked. -/
def saysChunked (header : List Byte) : Bool :=
  match strcasestr (text "Transfer-Encoding:") header with
  | none => false
  | some p => (strcasestr (text "chunked") (header.drop p)).isSome

/-- Sets whether the response is chunked and returns where its body begins in the first
buffer: 0 where the header block does not end there, `none` if there is no memory. -/
def httpChunkCheck (c : CtxId) (b : BufId) : DevM (Option Nat) := do
  let info ← getBuf b
  memcpy b info.len [0]
  match strstr lrln (cString (← bytesAt b 0 (info.len + 1))) with
  | none => return some 0
  | some p =>
    let offset := p + lrln.length
    match ← allocBuf with
    | none =>
      setCtx c { ← getCtx c with errcode := 11 }
      return none
    | some tmp =>
      memcpy tmp 0 (← bytesAt b 0 offset)
      memcpy tmp offset [0]
      when (saysChunked (cString (← bytesAt tmp 0 (offset + 1)))) do
        setCtx c { ← getCtx c with isChunk := true }
      freeBuf (some tmp)
      return some offset

def hexDigit (b : Byte) : Option Nat :=
  if 0x30 ≤ b ∧ b ≤ 0x39 then some (b.toNat - 0x30)
  else if 0x61 ≤ b ∧ b ≤ 0x66 then some (b.toNat - 0x61 + 10)
  else if 0x41 ≤ b ∧ b ≤ 0x46 then some (b.toNat - 0x41 + 10)
  else none

def hexDigits : List Byte → List Nat
  | [] => []
  | b :: rest =>
    match hexDigit b with
    | some n => n :: hexDigits rest
    | none => []

def isSpace (b : Byte) : Bool := b = 0x20 ∨ (0x09 ≤ b ∧ b ≤ 0x0d)

/-- The digits of a number in a text behind an optional `0x`; the prefix alone is no number. -/
def hexBody (s : List Byte) : Option (List Nat) :=
  match s with
  | 0x30 :: x :: rest =>
    if x = 0x78 ∨ x = 0x58 then
      if hexDigits rest = [] then none else some (hexDigits rest)
    else some (hexDigits s)
  | _ => if hexDigits s = [] then none else some (hexDigits s)

/-- `sscanf` with `%x`: the number as it is stored, unless the text does not begin with one.
A number that does not fit is stored as all ones. -/
def sscanfHex (s : List Byte) : Option Int :=
  let s := (cString s).dropWhile isSpace
  let (negative, s) := match s with
    | 0x2d :: rest => (true, rest)
    | 0x2b :: rest => (false, rest)
    | _ => (false, s)
  (hexBody s).map fun ds =>
    let n : Nat := ds.foldl (fun n digit => n * 16 + digit) 0
    if 2 ^ 64 ≤ n then -1
    else toInt32 (if negative then toUnsigned 32 (-(n : Int)) else n % 2 ^ 32)

inductive ChunkState where
  | begin
  | lrln
  | getSize
deriving DecidableEq

/-- The variables of the decoding loop. `rc` is positive while it runs. -/
structure Decoder where
  state : ChunkState
  bufInfo : Option BufId
  lastBuf : Option BufId
  offset : Int
  lastI : Int
  j : Int
  chunkStr : List Byte
  chunkSize : Option Int
  newTotal : Int
  splice : Bool
  rc : Int

/-- Goes on to the next buffer of the response; the one that is left is freed unless
decoded bytes are collected in it. -/
def nextChunkBuf (c : CtxId) (v : Decoder) : DevM (Option BufId) := do
  when (v.bufInfo ≠ v.lastBuf) do freeBuf v.bufInfo
  nextBufInfo (.readTodo c)

/-- Reads the characters of a size line up to a carriage return. -/
def scanSize (bytes : List Byte) (j : Nat) (chunkStr : List Byte) : Nat × Nat × List Byte :=
  match bytes with
  | [] => (0, j, chunkStr)
  | b :: rest =>
    if httpChunkMax ≤ j ∨ b = 0x0d then (0, j, chunkStr)
    else
      let (count, j, chunkStr) := scanSize rest (j + 1) (chunkStr ++ [b])
      (count + 1, j, chunkStr)

/-- The buffer being read; using one that is not there ends the process. -/
def current (v : Decoder) : DevM (BufId × BufInfo) := do
  let b ← deref v.bufInfo
  return (b, ← getBuf b)

def chunkBegin (c : CtxId) (v : Decoder) : DevM Decoder := do
  let (b, info) ← current v
  let bytes ← (if v.offset < info.len then bytesAt b v.offset (info.len - v.offset) else pure [])
  let (count, j, chunkStr) := scanSize bytes v.j.toNat (v.chunkStr.take v.j.toNat)
  let i := v.offset + count
  if j = httpChunkMax then
    setCtx c { ← getCtx c with errcode := 12 }
    return { v with j, chunkStr, rc := -1 }
  else if i = info.len then
    match ← nextChunkBuf c v with
    | none => return { v with j, chunkStr, bufInfo := none, rc := -1 }
    | some next =>
      listDel next
      return { v with j, chunkStr, bufInfo := some next, offset := 0 }
  else
    return { v with chunkStr, offset := i + 1, state := .lrln, j := 0 }

/-- The buffer collected last is added to the response if it holds something. -/
def keepLast (v : Decoder) : DevM Unit := do
  let last ← deref v.lastBuf
  if 0 < v.lastI then
    setBuf last { ← getBuf last with len := v.lastI, totalLen := v.lastI }
    listAddTail last .chunk
  else
    freeBuf (some last)

/-- The last chunk was found: what was decoded becomes the response. -/
def chunkDone (c : CtxId) (v : Decoder) : DevM Decoder := do
  when (v.bufInfo ≠ v.lastBuf) do freeBuf v.bufInfo
  keepLast v
  listSpliceInit (.readTodo c) .caches
  listSplice .chunk (.readTodo c)
  setCtx c { ← getCtx c with bufRead := { (← getCtx c).bufRead with len := v.newTotal } }
  return { v with splice := false, lastBuf := none, bufInfo := none, rc := 0 }

/-- What follows the carriage return of a size line. An empty line is skipped. -/
def chunkLine (c : CtxId) (v : Decoder) : DevM Decoder := do
  let (b, _) ← current v
  if (← bytesAt b v.offset 1) ≠ [0x0a] then
    return { v with rc := -1 }
  else if cString v.chunkStr = [] then
    return { v with offset := v.offset + 1, j := 0, state := .begin }
  else
    let v := { v with
      offset := v.offset + 1
      j := 0
      state := .getSize
      chunkSize := (sscanfHex v.chunkStr).or v.chunkSize }
    match v.chunkSize with
    | none => .stop .uninitialised
    | some 0 => chunkDone c v
    | some _ => return v

def chunkLrln (c : CtxId) (v : Decoder) : DevM Decoder := do
  let (_, info) ← current v
  if v.offset = info.len then
    match ← nextChunkBuf c v with
    | none => return { v with bufInfo := none, rc := -1 }
    | some next =>
      listDel next
      chunkLine c { v with bufInfo := some next, offset := 0 }
  else
    chunkLine c v

/-- Moves the bytes of a chunk into the buffer where decoded bytes are collected. -/
def copyChunk (chunkSize : Int) : Nat → Decoder → DevM Decoder
  | 0, _ => .stop .endless
  | count + 1, v => do
    let (b, info) ← current v
    if v.offset < info.len ∧ v.j < chunkSize then
      let last ← deref v.lastBuf
      memcpy last v.lastI (← bytesAt b v.offset 1)
      let v := { v with offset := v.offset + 1, j := v.j + 1, lastI := v.lastI + 1, newTotal := v.newTotal + 1 }
      if (httpBufSize : Int) ≤ v.lastI then
        setBuf last { ← getBuf last with len := v.lastI, start := 0, totalLen := 0 }
        listAddTail last .chunk
        let lastBuf ← allocBuf
        assert (lastBuf.isSome)
        copyChunk chunkSize count { v with lastBuf, lastI := 0 }
      else
        copyChunk chunkSize count v
    else
      pure v

def chunkGetSize (c : CtxId) (v : Decoder) : DevM Decoder := do
  let chunkSize ← deref v.chunkSize
  let offset := v.offset
  let v ← copyChunk chunkSize (bufRoom + 1) v
  let (_, info) ← current v
  if v.offset = info.len then
    let next ← deref (← nextChunkBuf c v)
    listDel next
    return { v with bufInfo := some next, offset := 0 }
  else if v.j = chunkSize then
    return { v with state := .begin, j := 0 }
  else
    -- `offset` is moved on when the chunk is finished only.
    return { v with offset }

def decodeStep (c : CtxId) (v : Decoder) : DevM Decoder :=
  match v.state with
  | .begin => chunkBegin c v
  | .lrln => chunkLrln c v
  | .getSize => chunkGetSize c v

/-- The loop runs while `rc` is positive. No response has so many bytes that a run which
comes to an end takes more than `fuel` rounds. -/
def decode (c : CtxId) : Nat → Decoder → DevM Decoder
  | 0, _ => .stop .endless
  | fuel + 1, v => do
    if 0 < v.rc then decode c fuel (← decodeStep c v) else pure v

def decodeFuel : Nat := 4 * httpBufCaches * bufRoom

/-- At the beginning of the body, with the header block kept. -/
def Decoder.init (b : BufId) (offset : Nat) : Decoder where
  state := .begin
  bufInfo := some b
  lastBuf := some b
  offset := offset
  lastI := offset
  j := 0
  chunkStr := []
  chunkSize := none
  newTotal := offset
  splice := true
  rc := offset

/-- Frees the buffers of a response that cannot be decoded. -/
def abandon (v : Decoder) : DevM Unit := do
  freeBuf v.lastBuf
  when (v.bufInfo ≠ v.lastBuf) do freeBuf v.bufInfo
  when v.splice do listSplice .chunk .caches

/-- Leaves the chunks' contents in the list of what was read; -1 if there is no response or
it cannot be decoded. -/
def httpParse (c : CtxId) : DevM Int := do
  initListHead .chunk
  match ← nextBufInfo (.readTodo c) with
  | none =>
    setCtx c { ← getCtx c with errcode := 15 }
    return -1
  | some b =>
    match ← httpChunkCheck c b with
    | none => return -1
    | some offset =>
      if ¬ (← getCtx c).isChunk then
        return 0
      else
        listDel b
        let v ← decode c decodeFuel (Decoder.init b offset)
        when (v.rc < 0) do abandon v
        return v.rc

end WebTunnel.Device.Parsing
