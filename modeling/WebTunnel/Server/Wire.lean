import WebTunnel.Library.JavaScript

/-! The protocol header in front of every frame between server and device. -/

namespace WebTunnel.Server.Wire
open Library.Bytes Library.JavaScript

def protocolHeaderLen : Nat := 16
def protocolMagic : Nat := 0x10293874
def protocolVersion : Nat := 0x1

structure ProtoHeader where
  magic : Nat
  ver : Nat
  type : Nat
  seq : Nat
  length : Nat
deriving DecidableEq, Repr

/-- Magic, version, request type, seq, length and four reserved bytes. -/
def headerBytes (type seq length : Nat) : List Byte :=
  bytesBE 4 protocolMagic ++ bytesBE 1 protocolVersion ++ bytesBE 1 type ++ bytesBE 2 seq ++
    bytesBE 4 length ++ bytesBE 4 0

def frameLength (bufs : List (List Byte)) : Nat :=
  protocolHeaderLen + (bufs.map List.length).sum

def createReqBuffers (bufs : List (List Byte)) (type seq : Nat) : Except JsError (List (List Byte)) := do
  let magic ← writeUInt32BE (some (protocolMagic : Nat))
  let ver ← writeUInt8 (some (protocolVersion : Nat))
  let request ← writeUInt8 (some type)
  let id ← writeUInt16BE (some seq)
  let length ← writeUInt32BE (some (frameLength bufs : Nat))
  let reserve ← writeUInt32BE (some 0)
  pure ((magic ++ ver ++ request ++ id ++ length ++ reserve) :: bufs)

/-- The same header and buffers, concatenated. -/
def createReq (bufs : List (List Byte)) (type seq : Nat) : Except JsError (List Byte) := do
  let bufs2 ← createReqBuffers bufs type seq
  pure bufs2.flatten

def parseHeaderMessage (buffer : List Byte) : Except JsError ProtoHeader := do
  let magic ← readUInt32BE buffer 0
  let ver ← readUInt8 buffer 4
  let type ← readUInt8 buffer 5
  let seq ← readUInt16BE buffer 6
  let length ← readUInt32BE buffer 8
  pure ⟨magic, ver, type, seq, length⟩

@[simp] theorem headerBytes_length (type seq length : Nat) :
    (headerBytes type seq length).length = protocolHeaderLen := by
  simp [headerBytes, protocolHeaderLen]

theorem createReqBuffers_of_lt {bufs : List (List Byte)} {type seq : Nat} (byte : type < 256)
    (short : seq < 65536) (fits : frameLength bufs < 2 ^ 32) :
    createReqBuffers bufs type seq = .ok (headerBytes type seq (frameLength bufs) :: bufs) := by
  have magic := writeUIntBE_of_lt (k := 4) (n := protocolMagic) (by decide)
  have ver := writeUIntBE_of_lt (k := 1) (n := protocolVersion) (by decide)
  have request := writeUIntBE_of_lt (k := 1) (n := type) byte
  have id := writeUIntBE_of_lt (k := 2) (n := seq) short
  have length := writeUIntBE_of_lt (k := 4) (n := frameLength bufs) fits
  have reserve : writeUInt32BE (some 0) = .ok (bytesBE 4 0) :=
    writeUIntBE_of_lt (k := 4) (n := 0) (by decide)
  rw [createReqBuffers, reserve, writeUInt32BE, writeUInt32BE, writeUInt8, writeUInt8, writeUInt16BE,
    magic, ver, request, id, length]
  rfl

theorem createReq_of_lt {bufs : List (List Byte)} {type seq : Nat} (byte : type < 256)
    (short : seq < 65536) (fits : frameLength bufs < 2 ^ 32) :
    createReq bufs type seq = .ok (headerBytes type seq (frameLength bufs) ++ bufs.flatten) := by
  rw [createReq, createReqBuffers_of_lt byte short fits]
  rfl

/-- A frame was built from fields that fit. -/
theorem createReqBuffers_ok {bufs out : List (List Byte)} {type seq : Nat}
    (built : createReqBuffers bufs type seq = .ok out) :
    type < 256 ∧ seq < 65536 ∧ frameLength bufs < 2 ^ 32 ∧ out = headerBytes type seq (frameLength bufs) :: bufs := by
  have refuses {k n : Nat} (large : 256 ^ k ≤ n) : writeUIntBE k (some n) = .error .assertionError :=
    writeUIntBE_of_le large
  have magic := writeUIntBE_of_lt (k := 4) (n := protocolMagic) (by decide)
  have ver := writeUIntBE_of_lt (k := 1) (n := protocolVersion) (by decide)
  by_cases byte : type < 256
  · have request := writeUIntBE_of_lt (k := 1) (n := type) byte
    by_cases short : seq < 65536
    · have id := writeUIntBE_of_lt (k := 2) (n := seq) short
      by_cases fits : frameLength bufs < 2 ^ 32
      · rw [createReqBuffers_of_lt byte short fits] at built
        exact ⟨byte, short, fits, (Except.ok.inj built).symm⟩
      · rw [createReqBuffers, writeUInt32BE, writeUInt32BE, writeUInt8, writeUInt8, writeUInt16BE, magic, ver,
          request, id, refuses (k := 4) (Nat.le_of_not_lt fits)] at built
        cases built
    · rw [createReqBuffers, writeUInt32BE, writeUInt8, writeUInt8, writeUInt16BE, magic, ver, request,
        refuses (k := 2) (Nat.le_of_not_lt short)] at built
      cases built
  · rw [createReqBuffers, writeUInt32BE, writeUInt8, writeUInt8, magic, ver,
      refuses (k := 1) (Nat.le_of_not_lt byte)] at built
    cases built

theorem createReq_ok {bufs : List (List Byte)} {frame : List Byte} {type seq : Nat}
    (built : createReq bufs type seq = .ok frame) :
    ∃ parts, createReqBuffers bufs type seq = .ok parts ∧ parts.flatten = frame := by
  rw [createReq] at built
  cases made : createReqBuffers bufs type seq with
  | error e => rw [made] at built; cases built
  | ok parts =>
    rw [made] at built
    exact ⟨parts, rfl, Except.ok.inj built⟩

/-- The server reads back the header both ends write. -/
theorem parseHeaderMessage_headerBytes {type seq length : Nat} (byte : type < 256)
    (short : seq < 65536) (fits : length < 2 ^ 32) (rest : List Byte) :
    parseHeaderMessage (headerBytes type seq length ++ rest) =
      .ok ⟨protocolMagic, protocolVersion, type, seq, length⟩ := by
  have magic : readUInt32BE (headerBytes type seq length ++ rest) 0 = .ok protocolMagic := by
    have read := readUIntBE_bytesBE (k := 4) (n := protocolMagic) (by decide) []
      (bytesBE 1 protocolVersion ++ bytesBE 1 type ++ bytesBE 2 seq ++ bytesBE 4 length ++
        bytesBE 4 0 ++ rest)
    simpa [headerBytes, readUInt32BE, List.append_assoc] using read
  have ver : readUInt8 (headerBytes type seq length ++ rest) 4 = .ok protocolVersion := by
    have read := readUIntBE_bytesBE (k := 1) (n := protocolVersion) (by decide)
      (bytesBE 4 protocolMagic) (bytesBE 1 type ++ bytesBE 2 seq ++ bytesBE 4 length ++ bytesBE 4 0 ++ rest)
    simpa [headerBytes, readUInt8, List.append_assoc] using read
  have request : readUInt8 (headerBytes type seq length ++ rest) 5 = .ok type := by
    have read := readUIntBE_bytesBE (k := 1) (n := type) byte
      (bytesBE 4 protocolMagic ++ bytesBE 1 protocolVersion)
      (bytesBE 2 seq ++ bytesBE 4 length ++ bytesBE 4 0 ++ rest)
    simpa [headerBytes, readUInt8, List.append_assoc] using read
  have id : readUInt16BE (headerBytes type seq length ++ rest) 6 = .ok seq := by
    have read := readUIntBE_bytesBE (k := 2) (n := seq) short
      (bytesBE 4 protocolMagic ++ bytesBE 1 protocolVersion ++ bytesBE 1 type)
      (bytesBE 4 length ++ bytesBE 4 0 ++ rest)
    simpa [headerBytes, readUInt16BE, List.append_assoc] using read
  have size : readUInt32BE (headerBytes type seq length ++ rest) 8 = .ok length := by
    have read := readUIntBE_bytesBE (k := 4) (n := length) fits
      (bytesBE 4 protocolMagic ++ bytesBE 1 protocolVersion ++ bytesBE 1 type ++ bytesBE 2 seq)
      (bytesBE 4 0 ++ rest)
    simpa [headerBytes, readUInt32BE, List.append_assoc] using read
  rw [parseHeaderMessage, magic, ver, request, id, size]
  rfl

theorem parseHeaderMessage_of_le {buffer : List Byte} (long : 12 ≤ buffer.length) :
    ∃ header, parseHeaderMessage buffer = .ok header := by
  have magic : readUInt32BE buffer 0 = .ok _ := readUIntBE_of_le (by omega)
  have ver : readUInt8 buffer 4 = .ok _ := readUIntBE_of_le (by omega)
  have request : readUInt8 buffer 5 = .ok _ := readUIntBE_of_le (by omega)
  have id : readUInt16BE buffer 6 = .ok _ := readUIntBE_of_le (by omega)
  have size : readUInt32BE buffer 8 = .ok _ := readUIntBE_of_le (by omega)
  rw [parseHeaderMessage, magic, ver, request, id, size]
  exact ⟨_, rfl⟩

end WebTunnel.Server.Wire
