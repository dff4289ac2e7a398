import WebTunnel.Server.Types

/-! The processors of web requests and of forwarded streams. -/

namespace WebTunnel.Server.Processors
open Library.Bytes Library.JavaScript Library.Json Library.Program Library.Slots Sessions Wire Server.Types

/-- A JavaScript object's fields: setting a known key keeps its place, and a text is not accepted
as the prototype. -/
def setField (fields : List (Text × Text)) (key value : Text) : List (Text × Text) :=
  if key = "__proto__".toList then fields
  else if key ∈ fields.map Prod.fst then fields.map fun f => if f.1 = key then (key, value) else f
  else fields ++ [(key, value)]

def headerEnd : Text := "\r\n\r\n".toList

/-- One line of the header block after the status line. -/
def addHeaderField (fields : List (Text × Text)) (line : Text) : List (Text × Text) :=
  match split line ":".toList with
  | name :: value :: _ =>
    let sstrip := toLowerCase (trim name)
    if sstrip = "connection".toList then fields
    else setField fields sstrip (toLowerCase (trim value))
  | _ => fields

def HttpProcessor.innerProcessBuffer (res : ProcId) (buffer : List Byte) : List Output :=
  [.resWrite res buffer]

/-- Collects the header block; what it writes, in order, is returned with the processor. -/
def HttpProcessor.processHeader (p : HttpProcessor) (res : ProcId) (buffer : List Byte) :
    HttpProcessor × List Output :=
  let oldLen := byteLength p.headerStr
  let headerStr := p.headerStr ++ decodeUtf8 buffer
  match indexOf headerStr headerEnd with
  | none => ({ p with headerStr := headerStr }, [])
  | some i =>
    let headerStr := headerStr.take (i + headerEnd.length)
    let offset := byteLength headerStr - oldLen
    match split headerStr "\r\n".toList with
    | status :: line :: lines =>
      match threeDigits status with
      | none => ({ p with headerStr := headerStr }, [])
      | some code =>
        let fields := (line :: lines).foldl addHeaderField []
        let body := if offset < buffer.length then
            innerProcessBuffer res (sliceBuffer buffer offset buffer.length)
          else []
        ({ p with headerOk := true, headerStr := [] }, .writeHead res code fields :: body)
    | _ => ({ p with headerStr := headerStr }, [])

/-- The bytes of one message go to the response. -/
def HttpProcessor.consume (p : HttpProcessor) (res : ProcId) (buffer : List Byte) :
    HttpProcessor × List Output :=
  let p := { p with start := p.start + buffer.length }
  if p.headerOk then (p, innerProcessBuffer res buffer) else HttpProcessor.processHeader p res buffer

def HttpProcessor.processBuffer (user : JsVal) (res : ProcId) (p : HttpProcessor)
    (buffer : List Byte) : Js Unit := do
  let (p, outputs) := HttpProcessor.consume p res buffer
  setProc res (.http p)
  emitAll outputs
  let mgr ← getMgr user
  if mgr.currTotal ≤ p.start then
    emit (.resEnd res)
    mgrDelSeq user mgr.currSeq
    resetParser user

/-- The connection of a forward processor; no other object has a `getConn`. -/
def getForwardConn (ref : Option ProcRef) : Js ConnId := do
  let ref ← defined ref
  let s ← get
  match s.procs ref.id with
  | some (.forward forward) => pure forward.conn
  | _ => throw .typeError

def ForwardProcessor.processBuffer (user : JsVal) (id : ProcId) (p : ForwardProcessor)
    (buffer : List Byte) : Js Unit := do
  let p := { p with start := p.start + buffer.length }
  setProc id (.forward p)
  let mgr ← getMgr user
  let forwardConn ← getForwardConn mgr.getCurrent
  let seq ← defined mgr.currSeq
  let len ← liftJs (readUInt32BE buffer 0)
  -- a buffer has no `len`, so the comparison that should reject the package is with NaN
  let message := encodeBase64 (sliceBuffer buffer 4 (len + 4))
  emit (.sendUTF forwardConn (.object seq "response".toList message))
  if mgr.currTotal ≤ p.start then
    setProc id (.forward { p with start := 0 })
    resetParser user

end WebTunnel.Server.Processors
