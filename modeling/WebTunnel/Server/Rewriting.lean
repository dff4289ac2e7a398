import WebTunnel.Library.JavaScript

/-! The header block of a browser's request, as the server rewrites it for the device. -/

namespace WebTunnel.Server.Rewriting
open Library.Bytes Library.JavaScript

/-- A request of a browser. Its fields stand in the order in which they are enumerated. -/
structure Request where
  method : Text
  url : Text
  headers : List (Text × Text)

/-- The host and the port that the device has named in its handshake. -/
structure Address where
  host : Text
  port : Nat

/-- `header[name] = value`: a field that is there keeps its place. -/
def assign (header : List (Text × Text)) (name value : Text) : List (Text × Text) :=
  if header.any (·.1 = name) then header.map fun field => if field.1 = name then (name, value) else field
  else header ++ [(name, value)]

def ignores : List Text := ["accept-encoding".toList, "connection".toList]

def copyField (header : List (Text × Text)) (field : Text × Text) : List (Text × Text) :=
  if toLowerCase field.1 ∈ ignores then header else assign header (toLowerCase field.1) field.2

def hostName : Text := "host".toList
def refererName : Text := "referer".toList

def hostField (conn : Address) : Text :=
  if conn.port = 80 then conn.host else conn.host ++ ":".toList ++ decimal conn.port

/-- `text.indexOf(pattern, start)`. -/
def indexOfFrom (text pattern : Text) (start : Nat) : Option Nat :=
  (indexOf (text.drop start) pattern).map (· + start)

/-- The page that the browser comes from is named with the device's host. -/
def rewriteReferer (conn : Address) (referer : Text) : Text :=
  let tmp := "http://".toList
  let n := indexOfFrom referer ":".toList tmp.length
  let n2 := indexOfFrom referer "/".toList ((n.map (· + 1)).getD 0)
  tmp ++ conn.host ++ referer.drop (n2.getD 0)

def rewriteFields (conn : Address) (req : Request) : List (Text × Text) :=
  let header := assign (req.headers.foldl copyField []) hostName (hostField conn)
  match header.lookup refererName with
  | none => header
  | some referer => assign header refererName (rewriteReferer conn referer)

def fieldLine (field : Text × Text) : Text := field.1 ++ ": ".toList ++ field.2 ++ "\r\n".toList

def requestLine (req : Request) : Text := req.method ++ " ".toList ++ req.url ++ " HTTP/1.1\r\n".toList

def strHeader (conn : Address) (req : Request) : Text :=
  requestLine req ++ (rewriteFields conn req).flatMap fieldLine ++ "connection: close\r\n\r\n".toList

/-- The fields in front of the host. -/
def frontFields (conn : Address) (req : Request) : List (Text × Text) :=
  (rewriteFields conn req).takeWhile fun field => field.1 ≠ hostName

/-- All that stands in front of the host. -/
def front (conn : Address) (req : Request) : Text :=
  requestLine req ++ (frontFields conn req).flatMap fieldLine

section
variable {header : List (Text × Text)} {name value : Text} {field : Text × Text} {conn : Address} {req : Request}

theorem mem_assign_self : (name, value) ∈ assign header name value := by
  unfold assign
  split
  next found =>
    obtain ⟨field, member, same⟩ := List.any_eq_true.mp found
    exact List.mem_map.mpr ⟨field, member, if_pos (of_decide_eq_true same)⟩
  next => exact List.mem_append_right _ (List.mem_singleton_self _)

theorem eq_of_mem_assign (member : field ∈ assign header name value) (same : field.1 = name) : field.2 = value := by
  unfold assign at member
  split at member
  next =>
    obtain ⟨field', _, rfl⟩ := List.mem_map.mp member
    split at same
    next own => rw [if_pos own]
    next other => exact absurd same other
  next absent =>
    rcases List.mem_append.mp member with member | member
    · exact absurd (List.any_eq_true.mpr ⟨field, member, decide_eq_true same⟩) absent
    · rw [List.mem_singleton.mp member]

/-- Other fields stay as they are. -/
theorem mem_assign_iff_of_ne (other : field.1 ≠ name) : field ∈ assign header name value ↔ field ∈ header := by
  unfold assign
  split
  next =>
    rw [List.mem_map]
    constructor
    · rintro ⟨field', member, rfl⟩
      split at other
      next => exact absurd rfl other
      next apart =>
        rw [if_neg apart]
        exact member
    · exact fun member => ⟨field, member, if_neg other⟩
  next =>
    rw [List.mem_append, List.mem_singleton, or_iff_left]
    rintro rfl
    exact other rfl

/-- The host is a field, and it is the one the device has named. -/
theorem host_mem_rewriteFields (conn : Address) (req : Request) : (hostName, hostField conn) ∈ rewriteFields conn req ∧
    ∀ field ∈ rewriteFields conn req, field.1 = hostName → field.2 = hostField conn := by
  have apart : hostName ≠ refererName := by decide
  unfold rewriteFields
  dsimp only
  split
  next => exact ⟨mem_assign_self, fun field member same => eq_of_mem_assign member same⟩
  next referer _ =>
    refine ⟨(mem_assign_iff_of_ne apart).mpr mem_assign_self, fun field member same => ?_⟩
    have other : field.1 ≠ refererName := by rwa [same]
    exact eq_of_mem_assign ((mem_assign_iff_of_ne other).mp member) same

theorem rewriteFields_eq (conn : Address) (req : Request) :
    ∃ back, rewriteFields conn req = frontFields conn req ++ (hostName, hostField conn) :: back := by
  obtain ⟨member, own⟩ := host_mem_rewriteFields conn req
  have rest : (rewriteFields conn req).dropWhile (fun field => field.1 ≠ hostName) ≠ [] := by
    intro none
    rw [List.dropWhile_eq_nil_iff] at none
    simpa using none _ member
  obtain ⟨field, back, same⟩ := List.exists_cons_of_ne_nil rest
  have named := List.head_dropWhile_not (fun field : Text × Text => decide (field.1 ≠ hostName)) rest
  simp only [same, List.head_cons] at named
  have name : field.1 = hostName := by simpa using named
  have inside : field ∈ rewriteFields conn req := by
    apply (List.dropWhile_suffix fun field : Text × Text => decide (field.1 ≠ hostName)).subset
    rw [same]
    exact List.mem_cons_self
  have host : field = (hostName, hostField conn) := Prod.ext name (own field inside name)
  refine ⟨back, ?_⟩
  calc rewriteFields conn req
    _ = frontFields conn req ++ (rewriteFields conn req).dropWhile (fun field => field.1 ≠ hostName) :=
      List.takeWhile_append_dropWhile.symm
    _ = frontFields conn req ++ (hostName, hostField conn) :: back := by rw [same, host]

/-- The block is what stands in front of the host, the host in a line, and what follows. -/
theorem strHeader_eq (conn : Address) (req : Request) :
    ∃ back, strHeader conn req = front conn req ++ "host: ".toList ++ hostField conn ++ "\r\n".toList ++ back := by
  obtain ⟨back, fields⟩ := rewriteFields_eq conn req
  refine ⟨back.flatMap fieldLine ++ "connection: close\r\n\r\n".toList, ?_⟩
  have name : hostName ++ ": ".toList = "host: ".toList := by decide
  rw [strHeader, fields, List.flatMap_append, List.flatMap_cons, fieldLine, name, front]
  simp only [List.append_assoc]

/-- What stands in front of the host ends a line. -/
theorem front_ends (conn : Address) (req : Request) : ∃ s, front conn req = s ++ "\r\n".toList := by
  rw [front]
  rcases List.eq_nil_or_concat (frontFields conn req) with none | ⟨fields, last, some⟩
  · refine ⟨req.method ++ " ".toList ++ req.url ++ " HTTP/1.1".toList, ?_⟩
    have ending : " HTTP/1.1\r\n".toList = " HTTP/1.1".toList ++ "\r\n".toList := by decide
    rw [none, List.flatMap_nil, List.append_nil, requestLine, ending]
    simp only [List.append_assoc]
  · refine ⟨requestLine req ++ fields.flatMap fieldLine ++ (last.1 ++ ": ".toList ++ last.2), ?_⟩
    rw [some, List.concat_eq_append, List.flatMap_append, List.flatMap_singleton, fieldLine]
    simp only [List.append_assoc]

end
end WebTunnel.Server.Rewriting
