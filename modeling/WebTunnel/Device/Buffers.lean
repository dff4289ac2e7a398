import WebTunnel.Device.Types

/-! The pool of buffers, the queue to the server and the table of polled descriptors. -/

namespace WebTunnel.Device.Buffers
open Library.Bytes Library.Lists Library.Routines Library.Routines.Routine Function Device.Types

def listAdd (b : BufId) (h : BufHead) : DevM Unit := perform (.add b h)
def listAddTail (b : BufId) (h : BufHead) : DevM Unit := perform (.addTail b h)
def listDel (b : BufId) : DevM Unit := perform (.del b)
def listSplice (a h : BufHead) : DevM Unit := perform (.splice a h)
def listSpliceInit (a h : BufHead) : DevM Unit := perform (.spliceInit a h)
def listSpliceTailInit (a h : BufHead) : DevM Unit := perform (.spliceTailInit a h)
def initListHead (h : BufHead) : DevM Unit := perform (.init h)

/-- Gets the first buffer of a list and leaves it there. -/
def nextBufInfo (h : BufHead) : DevM (Option BufId) := head h

def listEmpty (h : BufHead) : DevM Bool := do return (← head h).isNone

def allocBuf : DevM (Option BufId) := do
  match ← head .caches with
  | none => return none
  | some b =>
    listDel b
    let info ← getBuf b
    setBuf b { info with len := 0, start := 0, totalLen := 0 }
    return some b

def freeBuf : Option BufId → DevM Unit
  | none => pure ()
  | some b => listAdd b .caches

def setPrepare (f : HttpBuf → HttpBuf) : DevM Unit :=
  modify fun d => { d with bufPrepare := f d.bufPrepare }

def setToserver (f : HttpBuf → HttpBuf) : DevM Unit :=
  modify fun d => { d with bufToserver := f d.bufToserver }

def releasePrepare : DevM Unit := do
  let d ← data
  freeBuf d.bufPrepare.curr
  setPrepare fun pbuf => { pbuf with curr := none, len := 0, totalLen := 0, type := 0 }
  listSpliceInit .prepare .caches

def savePrepare (b : BufId) : DevM Unit := do
  let info ← getBuf b
  setBuf b { info with len := info.start, totalLen := info.start }
  setPrepare fun pbuf => { pbuf with len := pbuf.len + info.start }
  listAddTail b .prepare
  let info ← getBuf b
  setBuf b { info with start := 0 }
  setPrepare fun pbuf => { pbuf with curr := none }

def httpMgmtToserver : DevM Unit := do
  let d ← data
  when (¬ d.toserver) do
    assert (d.bufToserver.curr = none)
    let curr ← nextBufInfo .toserver
    setToserver fun pbuf => { pbuf with curr }
    when curr.isSome do
      websocketGoWritable
      modify fun d => { d with toserver := true }

/-- Copies a header to the beginning of a buffer and sets what the buffer holds. -/
def fillBuf (b : BufId) (bytes : List Byte) (len : Int) : DevM Unit := do
  memcpy b 0 bytes
  let info ← getBuf b
  setBuf b { info with start := 0, len, totalLen := len }

/-- The digits of a decimal number. -/
def digits (n : Nat) : List Byte := (Nat.toDigits 10 n).map fun c => BitVec.ofNat 8 c.toNat

def text (s : String) : List Byte := s.toList.map fun c => BitVec.ofNat 8 c.toNat

def decimal (n : Int) : List Byte :=
  if n < 0 then text "-" ++ digits n.natAbs else digits n.natAbs

/-- The text in the handshake. -/
def shakeText (d : HttpMgmt) : List Byte :=
  text "\x7b\"username\":\"" ++ d.username ++ text "\",\"host\":\"" ++ d.localHost ++ text "\",\"port\":" ++
    decimal d.localPort ++ text "\x7d"

/-- The message the handshake is sent in. -/
def shakeMessage (d : HttpMgmt) : List Byte :=
  headerMem httpCHand 0 (htonl ((shakeText d).length + httpCHeaderLen)) ++ shakeText d

def httpMgmtHandshake : DevM Unit := do
  let d ← data
  demand ((shakeText d).length < 512) .outOfBounds
  let b ← deref (← allocBuf)
  fillBuf b (shakeMessage d) ((shakeText d).length + httpCHeaderLen)
  listAdd b .toserver
  note (.queue none httpCHand 0 [shakeMessage d])
  let curr ← nextBufInfo .toserver
  setToserver fun pbuf => { pbuf with curr }
  modify fun d => { d with toserver := true }

/-- Asks to be called again while there is more to write. -/
def askAgain (more : Bool) : DevM Unit :=
  if more then websocketWriteAgain else modify fun d => { d with toserver := false }

def httpMgmtWritable : DevM Int := do
  let d ← data
  assert d.toserver
  let rc ← (match d.bufToserver.curr with
    | none => pure (-1)
    | some b => do
      let info ← getBuf b
      assert (info.len ≠ 0)
      let n ← websocketWrite (← bytesAt b 0 info.len)
      -- A message that was not written whole is dropped like one that was.
      listDel b
      freeBuf (some b)
      pure (if n < 0 ∨ n < info.len then -1 else 0) : DevM Int)
  let curr ← nextBufInfo .toserver
  setToserver fun pbuf => { pbuf with curr }
  askAgain curr.isSome
  return rc

/-! Polled descriptors. -/

def setPollFd (slot : Nat) (pfd : PollFd) : DevM Unit :=
  modify fun d => { d with pollfds := update d.pollfds slot pfd }

/-- The slot a context remembers for its descriptor. -/
def getPollFd (slot : Nat) : DevM PollFd := do return (← data).pollfds slot

/-- Changes the events a context waits for, in the slot it remembers. -/
def setEvents (o : Owner) (slot : Option Nat) (f : PollEvents → PollEvents) : DevM Unit := do
  let slot ← deref slot
  let pfd ← getPollFd slot
  setPollFd slot { pfd with events := f pfd.events }
  note (.interest o (f pfd.events))

def mgmtAddFd (fd : Int) (events : PollEvents) : DevM (Option Nat) := do
  let d ← data
  if d.maxFds ≤ fd then
    return none
  else
    demand (0 ≤ fd) .outOfBounds
    modify fun d => { d with
      fdLookup := update d.fdLookup fd d.countPollfds
      pollfds := update d.pollfds d.countPollfds ⟨fd, events, 0⟩
      countPollfds := d.countPollfds + 1 }
    return some d.countPollfds

def mgmtDelFd (fd : Int) : DevM Int := do
  let d ← data
  demand (0 < d.countPollfds) .outOfBounds
  modify fun d => { d with countPollfds := d.countPollfds - 1 }
  if d.countPollfds - 1 = 0 then
    return -1
  else
    -- The last one takes up the vacant slot.
    let m := d.fdLookup fd
    let last := d.pollfds (d.countPollfds - 1)
    modify fun d => { d with
      pollfds := update d.pollfds m last
      fdLookup := update d.fdLookup last.fd m }
    return 0

def setLookup (fd : Int) (o : Option Owner) : DevM Unit :=
  modify fun d => { d with httpLookup := update d.httpLookup fd o }

/-- Closing a descriptor releases its slot and its context's entry. -/
def dropFd (fd : Int) : DevM Unit := do
  let _ ← mgmtDelFd fd
  setLookup fd none

end WebTunnel.Device.Buffers
